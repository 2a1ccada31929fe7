/-
# TxSender.Transport.Round — one round of a worker, as one provider lives it.

Both loops go the same way round for each provider: send the job if there is one, drive and reap, count
the round, look for a rebuilt standby and publish the diagnostics when it is time, test for idleness.
They differ in what they do for the other providers in between. `Phase` is where a provider stands in its
round and `Beat` what one step of its thread does for it; `Workers.step_beat` reads either loop so.
-/
import TxSender.Transport.Delivery

namespace TxSender.Transport

open TxSender.Lib

variable {H A Q K : Type}

/-- Where the round of a provider stands. -/
inductive Phase where
  /-- the job of the round, if there is one, is not yet sent -/
  | before
  /-- driving and reaping -/
  | after
  | tick
  /-- before the `try_recv` for a rebuilt standby -/
  | check (idle : Bool)
  /-- before `publish_diag` -/
  | checked (idle : Bool)
  /-- the test for idleness -/
  | closing
  | stopped
  deriving DecidableEq, Repr

/-- Where the round goes on behind `publish_diag`. -/
def Phase.published (idle : Bool) : Phase := if idle then .before else .closing

/-- What one step of its thread does for provider `p`; `ch` is the response channel the step receives
from. -/
inductive Beat (api : ConnApi H A Q K) (inp : Input H A Q K) (ch : Option Nat) (p : ParWorker H Q) :
    Phase → List (Event H A) → ParWorker H Q → Phase → Prop
  /-- something is done for another provider, or nothing -/
  | wait (ph : Phase) (hph : ph ≠ .tick) (hch : ch ≠ some p.reconnectRespRx) :
      Beat api inp ch p ph [] p ph
  | stop (hch : ch = none) : Beat api inp ch p .before [] p .stopped
  | noJob (hch : ch = none) : Beat api inp ch p .before [] p .after
  | send {job : Job} {sent : Nat} {evs : List (Event H A)} {p' : ParWorker H Q} (hch : ch = none)
      (hsend : p.sendTo api job sent inp = .ok (p', evs)) : Beat api inp ch p .before evs p' .after
  | drive (hch : ch = none) : Beat api inp ch p .after [] (p.driveActive api inp) .after
  | reap {evs : List (Event H A)} {p' : ParWorker H Q} {ph : Phase} (hch : ch = none)
      (hreap : (p.driveActive api inp).reap api (ProviderId.ofIndex p.providerIdx) inp = .ok (p', evs))
      (hph : ph = .after ∨ ph = .tick) : Beat api inp ch p .after evs p' ph
  | reaped (hch : ch = none) : Beat api inp ch p .after [] p .tick
  | tick (hch : ch = none) :
      Beat api inp ch p .tick [] { p with tick := p.tick + 1 }
        (if periodic (p.tick + 1) then .check false else .closing)
  | check (idle : Bool) (hch : ch = some p.reconnectRespRx) :
      Beat api inp ch p (.check idle) (p.checkStandbyDelivery inp.delivered).2
        (p.checkStandbyDelivery (A := A) inp.delivered).1 (.checked idle)
  | publish (idle : Bool) (hch : ch = none) :
      Beat api inp ch p (.checked idle) p.publishDiag p (.published idle)
  /-- `ParWorker` makes both in one step -/
  | checkPublish (idle : Bool) (hch : ch = some p.reconnectRespRx) :
      Beat api inp ch p (.check idle)
        ((p.checkStandbyDelivery inp.delivered).2 ++
          (p.checkStandbyDelivery (A := A) inp.delivered).1.publishDiag)
        (p.checkStandbyDelivery (A := A) inp.delivered).1 (.published idle)
  | idle (hch : ch = none) :
      Beat api inp ch p .closing [] p (if inp.empty then .check true else .before)

/-- A step that receives nothing leaves every other provider alone. -/
theorem Beat.rest {api : ConnApi H A Q K} {inp : Input H A Q K} {p : ParWorker H Q} {ph : Phase}
    (hph : ph ≠ .tick) : Beat api inp none p ph [] p ph :=
  .wait ph hph (Option.some_ne_none _).symm

/-! ## The parallel worker -/

namespace ParWorker

def phase : Pc → Phase
  | .top | .send _ _ => .before
  | .reap => .after
  | .tick => .tick
  | .deliver idle => .check idle
  | .idle => .closing
  | .stopped => .stopped

/-- The channel the next step receives from. -/
def recvFrom (w : ParWorker H Q) : Pc → Option Nat
  | .deliver _ => some w.reconnectRespRx
  | _ => none

theorem checkStandbyDelivery_providerIdx (w : ParWorker H Q)
    (delivered : Option (ReconnectResp H Q)) :
    (w.checkStandbyDelivery (A := A) delivered).1.providerIdx = w.providerIdx := by
  rcases delivered with _ | ⟨idx, c | _⟩ <;> rfl

theorem step_beat {api : ConnApi H A Q K} {w w' : ParWorker H Q} {pc pc' : Pc}
    {inp : Input H A Q K} {logs : List (Logged H A)}
    (h : step api (w, pc) inp = .ok ((w', pc'), logs)) :
    Beat api inp (w.recvFrom pc) w (phase pc) (eventsAt w.providerIdx logs) w' (phase pc') := by
  cases pc with
  | top =>
      simp only [step] at h
      split at h
      · cases h
        exact .stop rfl
      · split at h
        · cases h
          exact .rest (by decide)
        · cases h
          exact .noJob rfl
  | send job sent =>
      obtain ⟨⟨w₁, evs⟩, hsend, h⟩ := bind_eq_ok.mp h
      cases h
      rw [(sendTo_does hsend).sameFrame.providerIdx, eventsAt_map_on]
      exact .send rfl hsend
  | reap =>
      obtain ⟨⟨w₁, evs⟩, hreap, h⟩ := bind_eq_ok.mp h
      cases h
      have hidx : w'.providerIdx = w.providerIdx := (reap_does hreap).sameFrame.providerIdx
      rw [hidx, eventsAt_map_on]
      exact .reap rfl hreap (.inr rfl)
  | tick =>
      cases h
      have hphase : phase (if periodic (w.tick + 1) then .deliver false else .idle) =
          if periodic (w.tick + 1) then .check false else .closing := by
        split <;> rfl
      rw [hphase]
      exact .tick rfl
  | deliver idle =>
      have hstep : step api (w, .deliver idle) inp =
          .ok (((w.checkStandbyDelivery (A := A) inp.delivered).1, if idle then .top else .idle),
            ((w.checkStandbyDelivery inp.delivered).2 ++
              (w.checkStandbyDelivery (A := A) inp.delivered).1.publishDiag).map
              (.on (w.checkStandbyDelivery (A := A) inp.delivered).1.providerIdx)) := rfl
      obtain ⟨hst, rfl⟩ := Prod.mk.inj (Except.ok.inj (hstep.symm.trans h))
      obtain ⟨rfl, rfl⟩ := Prod.mk.inj hst
      have hphase : phase (if idle then .top else .idle) = .published idle := by
        cases idle <;> rfl
      rw [hphase, checkStandbyDelivery_providerIdx, eventsAt_map_on]
      exact .checkPublish idle rfl
  | idle =>
      cases h
      have hphase : phase (if inp.empty then .deliver true else .top) =
          if inp.empty then .check true else .before := by
        split <;> rfl
      rw [hphase]
      exact .idle rfl
  | stopped =>
      cases h
      exact .rest (by decide)

end ParWorker

/-! ## The sequential worker -/

namespace SequentialWorker

def phase (pc : Pc) (i : Nat) : Phase :=
  match pc with
  | .top => .before
  | .send _ _ k => if k ≤ i then .before else .after
  | .kick _ | .reap _ => .after
  | .tick => .tick
  | .deliver k idle => if k ≤ i then .check idle else .checked idle
  | .publish idle => .checked idle
  | .idle => .closing
  | .stopped => .stopped

/-- The channel the next step receives from. -/
def recvFrom (s : SequentialWorker H Q) : Pc → Option Nat
  | .deliver k _ => s.reconnectRespRx[k]?
  | _ => none

section Phase

variable {job : Job} {sent k i : Nat} {idle : Bool}

theorem phase_send_of_le (h : k ≤ i) : phase (.send job sent k) i = .before := if_pos h

theorem phase_send_of_lt (h : i < k) : phase (.send job sent k) i = .after := if_neg (by omega)

theorem phase_deliver_of_le (h : k ≤ i) : phase (.deliver k idle) i = .check idle := if_pos h

theorem phase_deliver_of_lt (h : i < k) : phase (.deliver k idle) i = .checked idle :=
  if_neg (by omega)

theorem phase_send_succ_ne (hki : k ≠ i) :
    phase (.send job sent (k + 1)) i = phase (.send job sent k) i := by
  rcases Nat.lt_or_gt_of_ne hki with h | h
  · rw [phase_send_of_le h, phase_send_of_le (by omega)]
  · rw [phase_send_of_lt h, phase_send_of_lt (by omega)]

theorem phase_deliver_succ_ne (hki : k ≠ i) :
    phase (.deliver (k + 1) idle) i = phase (.deliver k idle) i := by
  rcases Nat.lt_or_gt_of_ne hki with h | h
  · rw [phase_deliver_of_le h, phase_deliver_of_le (by omega)]
  · rw [phase_deliver_of_lt h, phase_deliver_of_lt (by omega)]

theorem phase_deliver_ne_tick : phase (.deliver k idle) i ≠ .tick := by
  simp only [phase]
  split <;> nofun

end Phase

section Beat

variable {api : ConnApi H A Q K} {s s' : SequentialWorker H Q} {pc pc' : Pc} {inp : Input H A Q K}
  {logs : List (Logged H A)} {i : Nat} {p : ParWorker H Q}

/-- What a step does for the provider at `i`, and where that provider then stands. -/
def BeatAt (api : ConnApi H A Q K) (inp : Input H A Q K) (s : SequentialWorker H Q) (pc : Pc)
    (s' : SequentialWorker H Q) (pc' : Pc) (logs : List (Logged H A)) (i : Nat) (p : ParWorker H Q) :
    Prop :=
  ∃ p', s'.Entries i p' ∧
    Beat api inp (s.recvFrom pc) p (phase pc i) (eventsAt i logs) p' (phase pc' i)

/-- A call on another provider. -/
theorem beat_put_other {k : Nat} {pk' : ParWorker H Q} (evs : List (Event H A))
    (hi : s.Entries i p) (hki : k ≠ i) (hphase : phase pc' i = phase pc i)
    (htick : phase pc i ≠ .tick) (hrecv : s.recvFrom pc ≠ some p.reconnectRespRx) :
    BeatAt api inp s pc (s.put k pk') pc' (evs.map (.on k)) i p := by
  refine ⟨p, hi.put_other hki, ?_⟩
  rw [eventsAt_map_on_ne hki, hphase]
  exact .wait _ htick hrecv

theorem beat_stay (hi : s.Entries i p) (hlogs : eventsAt i logs = [])
    (hbeat : Beat api inp (s.recvFrom pc) p (phase pc i) [] p (phase pc' i)) :
    BeatAt api inp s pc s pc' logs i p :=
  ⟨p, hi, by rwa [hlogs]⟩

/-- A standby is checked for provider `k`, by the channel of which it comes. -/
theorem beat_deliver {k : Nat} {idle : Bool} (hs : s.Sized) (hk : k < s.conns.length)
    (hrx : ∀ j q, s.Entries j q → q.reconnectRespRx = j)
    (hgot : ∀ r, inp.delivered = some r → r.providerIdx = k) (hi : s.Entries i p)
    (hturn : Turn api s inp (.deliver k idle) s' (.deliver (k + 1) idle) logs) :
    BeatAt api inp s (.deliver k idle) s' (.deliver (k + 1) idle) logs i p := by
  obtain ⟨q, hq⟩ := hs.entries hk
  have hrecv : s.recvFrom (.deliver k idle) = some k := by
    show s.reconnectRespRx[k]? = some k
    rw [hq.reconnectRespRx, hrx k q hq]
  by_cases hki : k = i
  · subst hki
    have hself : s.recvFrom (.deliver k idle) = some p.reconnectRespRx := by
      rw [hrecv, hrx k p hi]
    unfold BeatAt
    rw [phase_deliver_of_le (Nat.le_refl k), phase_deliver_of_lt (Nat.lt_succ_self k)]
    have hcheck : Beat api inp _ p (.check idle) _ _ (.checked idle) := .check idle hself
    cases hturn with
    | install _ _ idx c _ hdel hp =>
        obtain rfl : idx = k := hgot _ hdel
        obtain rfl := entries_unique hi hp
        rw [hdel] at hcheck
        refine ⟨_, hi.put_self ⟨rfl, rfl, rfl, rfl, rfl, rfl⟩, ?_⟩
        have hone : eventsAt idx [Logged.on (A := A) (H := H) idx .install] = [.install] := by
          simp [eventsAt]
        rw [hone]
        exact hcheck
    | noInstall _ _ _ hdel =>
        have hnone : p.checkStandbyDelivery (A := A) inp.delivered = (p, []) := by
          rcases hd : inp.delivered with _ | ⟨idx, c | _⟩
          · rfl
          · exact absurd hd (hdel idx c)
          · rfl
        rw [hnone] at hcheck
        exact ⟨p, hi, hcheck⟩
  · have hother : s.recvFrom (.deliver k idle) ≠ some p.reconnectRespRx := by
      rw [hrecv, hrx i p hi]
      exact fun heq => hki (Option.some.inj heq)
    cases hturn with
    | install _ _ idx c _ hdel hp =>
        obtain rfl : idx = k := hgot _ hdel
        exact beat_put_other [.install] hi hki (phase_deliver_succ_ne hki)
          phase_deliver_ne_tick hother
    | noInstall =>
        refine beat_stay hi rfl ?_
        rw [phase_deliver_succ_ne hki]
        exact .wait _ phase_deliver_ne_tick hother

theorem step_beat (hs : s.Sized) (hrx : ∀ j q, s.Entries j q → q.reconnectRespRx = j)
    (hgot : ∀ r, inp.delivered = some r → s.recvFrom pc = some r.providerIdx) (hi : s.Entries i p)
    (h : step api (s, pc) inp = .ok ((s', pc'), logs)) : BeatAt api inp s pc s' pc' logs i p := by
  have hlt := (List.getElem?_eq_some_iff.mp hi.conns).1
  have hturn := step_turn hs h
  cases hturn with
  | stop => exact beat_stay hi rfl (.stop rfl)
  | pop job =>
      refine beat_stay hi rfl ?_
      rw [phase_send_of_le (Nat.zero_le i)]
      exact .wait _ nofun nofun
  | nothing => exact beat_stay hi rfl (.noJob rfl)
  | @send job sent k q q' evs hq hsend =>
      by_cases hki : k = i
      · subst hki
        obtain rfl := entries_unique hi hq
        refine ⟨q', hi.put_self (ParWorker.sendTo_does hsend).sameFrame, ?_⟩
        rw [eventsAt_map_on, phase_send_of_le (Nat.le_refl k), phase_send_of_lt (Nat.lt_succ_self k)]
        exact .send rfl hsend
      · refine beat_put_other _ hi hki (phase_send_succ_ne hki) ?_ nofun
        simp only [phase]
        split <;> nofun
  | sendEnd job sent k hk =>
      refine beat_stay hi rfl ?_
      rw [phase_send_of_lt (by omega)]
      exact .wait _ nofun nofun
  | @kick k q hq =>
      by_cases hki : k = i
      · subst hki
        obtain rfl := entries_unique hi hq
        exact ⟨_, hi.put_self ⟨rfl, rfl, rfl, rfl, rfl, rfl⟩, .drive rfl⟩
      · exact beat_put_other [] hi hki rfl nofun nofun
  | kickEnd => exact beat_stay hi rfl (.wait _ nofun nofun)
  | @reap k q q' evs hq hreap =>
      by_cases hki : k = i
      · subst hki
        obtain rfl := entries_unique hi hq
        refine ⟨q', hi.put_self (driveReap_does hi hreap).2, ?_⟩
        rw [eventsAt_map_on]
        rw [← hi.providerIdx] at hreap
        exact .reap rfl hreap (.inl rfl)
      · exact beat_put_other _ hi hki rfl nofun nofun
  | reapEnd => exact beat_stay hi rfl (.reaped rfl)
  | tick =>
      refine ⟨{ p with tick := p.tick + 1 }, ⟨hi.conns, hi.resultTx, hi.inflight, hi.reconnectRespRx,
        hi.diag, hi.jobsSent, hi.providerIdx, hi.connKind, by rw [hi.tick]⟩, ?_⟩
      have hphase : phase (if periodic (s.tick + 1) then .deliver 0 false else .idle) i =
          if periodic (p.tick + 1) then .check false else .closing := by
        rw [hi.tick]
        split
        · exact phase_deliver_of_le (Nat.zero_le i)
        · rfl
      rw [hphase]
      exact .tick rfl
  | install k idle idx c hk hdel hp =>
      refine beat_deliver hs hk hrx (fun r hr => ?_) hi (.install k idle idx c hk hdel hp)
      obtain ⟨q, hq⟩ := hs.entries hk
      have hrecv : s.reconnectRespRx[k]? = some r.providerIdx := hgot r hr
      rw [hq.reconnectRespRx, hrx k q hq] at hrecv
      exact (Option.some.inj hrecv).symm
  | noInstall k idle hk hdel =>
      refine beat_deliver hs hk hrx (fun r hr => ?_) hi (.noInstall k idle hk hdel)
      obtain ⟨q, hq⟩ := hs.entries hk
      have hrecv : s.reconnectRespRx[k]? = some r.providerIdx := hgot r hr
      rw [hq.reconnectRespRx, hrx k q hq] at hrecv
      exact (Option.some.inj hrecv).symm
  | deliverEnd k idle hk =>
      refine beat_stay hi rfl ?_
      have hnone : s.recvFrom (.deliver k idle) = none :=
        List.getElem?_eq_none (by rw [hs.reconnectRespRx]; exact hk)
      rw [hnone, phase_deliver_of_lt (by omega)]
      exact .wait _ nofun nofun
  | publish idle hpub =>
      obtain ⟨-, hat⟩ := publishDiag_at hi.jobsSent s.diag 0 hpub
      rw [if_pos (Nat.zero_le i), Nat.sub_zero, hi.diag] at hat
      have hdiag : eventsAt i logs = p.publishDiag := hat
      have hphase : phase (if idle then .top else .idle) i = .published idle := by
        cases idle <;> rfl
      refine ⟨p, hi, ?_⟩
      rw [hdiag, hphase]
      exact .publish idle rfl
  | idle =>
      refine beat_stay hi rfl ?_
      have hphase : phase (if inp.empty then .deliver 0 true else .top) i =
          if inp.empty then .check true else .before := by
        split
        · exact phase_deliver_of_le (Nat.zero_le i)
        · rfl
      rw [hphase]
      exact .idle rfl
  | stopped => exact beat_stay hi rfl (.wait _ nofun nofun)

end Beat

end SequentialWorker

/-! ## Either engine -/

namespace Workers

/-- Where the round of provider `i` stands. -/
def phase : Workers H Q → Nat → Phase
  | .sequential _ pc, i => SequentialWorker.phase pc i
  | .parallel ws, i =>
      match ws[i]? with
      | some (_, pc) => ParWorker.phase pc
      | none => .stopped

/-- A step that is not for provider `i`. -/
structure Elsewhere (ws ws' : Workers H Q) (logs : List (Logged H A)) (ch : Option Nat) (i : Nat)
    (p p' : ParWorker H Q) : Prop where
  same : p' = p
  phase : ws'.phase i = ws.phase i
  log : eventsAt i logs = []
  recv : ch ≠ some i

/-- **A step of a worker thread**, as provider `i` sees it. -/
theorem step_beat {api : ConnApi H A Q K} {n : Nat} {kind : ConnKind} {ws ws' : Workers H Q} {j : Nat}
    {inp : Input H A Q K} {logs : List (Logged H A)} (hw : ws.Wired n kind)
    (hgot : ∀ r, inp.delivered = some r → ws.receives j = some r.providerIdx)
    (h : ws.step api j inp = .ok (ws', logs)) {i : Nat} {p : ParWorker H Q}
    (hp : ws.view i = some p) :
    ∃ p', ws'.view i = some p' ∧ ws'.thread i = ws.thread i ∧
      ((j = ws.thread i ∧
          Beat api inp (ws.receives j) p (ws.phase i) (eventsAt i logs) p' (ws'.phase i)) ∨
        (j ≠ ws.thread i ∧ Elsewhere ws ws' logs (ws.receives j) i p p')) := by
  cases ws with
  | sequential s pc =>
      cases j with
      | succ j =>
          cases h
          have hnone : (Workers.sequential s pc).receives (j + 1) = none := by cases pc <;> rfl
          exact ⟨p, hp, rfl, .inr ⟨Nat.succ_ne_zero j, rfl, rfl, rfl, by rw [hnone]; nofun⟩⟩
      | zero =>
          obtain ⟨⟨⟨s', pc'⟩, evs⟩, hstep, h⟩ := bind_eq_ok.mp h
          cases h
          have hrecv : (Workers.sequential s pc).receives 0 = s.recvFrom pc := by cases pc <;> rfl
          have hrx : ∀ k q, s.Entries k q → q.reconnectRespRx = k := by
            intro k q hq
            exact (hw.ends k q (SequentialWorker.view_eq_some_iff.mpr hq)).reconnectRespRx
          rw [hrecv] at hgot ⊢
          obtain ⟨p', hp', hbeat⟩ := SequentialWorker.step_beat (hw.sized s pc rfl) hrx hgot
            (SequentialWorker.view_eq_some_iff.mp hp) hstep
          exact ⟨p', SequentialWorker.view_eq_some_iff.mpr hp', rfl, .inl ⟨rfl, hbeat⟩⟩
  | parallel ws =>
      simp only [step] at h
      have hview : (ws[i]?).map Prod.fst = some p := hp
      cases hj : ws[j]? with
      | none =>
          rw [hj] at h
          cases h
          have hne : j ≠ i := by
            rintro rfl
            rw [hj] at hview
            cases hview
          have hnone : (Workers.parallel ws).receives j = none := by simp only [receives, hj]
          exact ⟨p, hp, rfl, .inr ⟨hne, rfl, rfl, rfl, by rw [hnone]; nofun⟩⟩
      | some st =>
          obtain ⟨w, pc⟩ := st
          rw [hj] at h
          obtain ⟨⟨⟨w', pc'⟩, evs⟩, hstep, h⟩ := bind_eq_ok.mp h
          cases h
          have hlt := (List.getElem?_eq_some_iff.mp hj).1
          have hends := hw.ends j w (congrArg (Option.map Prod.fst) hj)
          have hrecv : (Workers.parallel ws).receives j = w.recvFrom pc := by
            simp only [receives, hj]
            cases pc <;> rfl
          by_cases hij : j = i
          · subst hij
            rw [hj] at hview
            obtain rfl : w = p := Option.some.inj hview
            have hbeat := ParWorker.step_beat hstep
            rw [hends.providerIdx] at hbeat
            refine ⟨w', ?_, rfl, .inl ⟨rfl, ?_⟩⟩
            · exact congrArg (Option.map Prod.fst) (List.getElem?_set_self hlt)
            · rw [hrecv]
              simp only [phase, hj, List.getElem?_set_self hlt]
              exact hbeat
          · refine ⟨p, ?_, rfl, .inr ⟨hij, rfl, ?_, ?_, ?_⟩⟩
            · exact (congrArg (Option.map Prod.fst) (List.getElem?_set_ne hij)).trans hview
            · simp only [phase, List.getElem?_set_ne hij]
            · rcases (ParWorker.step_stepped hstep).own with hpop | ⟨evs', rfl⟩
              · refine List.filterMap_eq_nil_iff.mpr fun e he => ?_
                obtain ⟨job, sent, rfl⟩ := hpop e he
                rfl
              · rw [hends.providerIdx]
                exact eventsAt_map_on_ne hij _
            · rw [hrecv]
              intro heq
              cases pc with
              | deliver idle =>
                  have hrx : w.reconnectRespRx = i := Option.some.inj heq
                  exact hij (hends.reconnectRespRx.symm.trans hrx)
              | _ => cases heq

end Workers

end TxSender.Transport
