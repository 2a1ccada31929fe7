/-
# TxSender.Transport.Wiring — every end of every channel is where it belongs.

`Wired` says that provider `i` has ring `i` and response channel `i`, that what waits in response
channel `i` was built for `i`, and that requests name a provider there is. `build` makes a wired
sender and every step keeps it so; what a worker's step does is then said in terms of the providers,
the same way for both engines.
-/
import TxSender.Transport.InFlight
import TxSender.Transport.Sender

namespace TxSender.Transport

open TxSender.Lib
open TxSender.Http
open TxSender.Protocol
open TxSender.Backend
open TxSender.Provider

variable {H A Q K D : Type}

/-! ## Workers -/

namespace Workers

/-- The ends of provider `j`. -/
structure Ends (n : Nat) (kind : ConnKind) (j : Nat) (p : ParWorker H Q) : Prop where
  lt : j < n
  providerIdx : p.providerIdx = j
  resultTx : p.resultTx = j
  reconnectRespRx : p.reconnectRespRx = j
  connKind : p.connKind = kind

structure Wired (n : Nat) (kind : ConnKind) (ws : Workers H Q) : Prop where
  sized : ∀ s pc, ws = .sequential s pc → s.Sized
  here : ∀ j < n, ∃ p, ws.view j = some p
  ends : ∀ j p, ws.view j = some p → Ends n kind j p

theorem Ends.of_sameWires {n j : Nat} {kind : ConnKind} {p p' : ParWorker H Q}
    (h : Ends n kind j p) (hp : p.SameWires p') : Ends n kind j p' :=
  ⟨h.lt, hp.providerIdx.trans h.providerIdx, hp.resultTx.trans h.resultTx,
    hp.reconnectRespRx.trans h.reconnectRespRx, hp.connKind.trans h.connKind⟩

/-- What a step of a worker thread does, provider by provider. It makes calls on one provider, and a
standby goes to the provider whose channel `ch` it came from. -/
structure Acts (api : ConnApi H A Q K) (ch : Option Nat) (got : Option (ReconnectResp H Q))
    (ws ws' : Workers H Q) (logs : List (Logged H A)) : Prop where
  about : (∀ e ∈ logs, Quiet e) ∨
    ∃ i p, ∃ evs : List (Event H A), ws.view i = some p ∧ logs = evs.map (.on i)
  installed : ∀ j, .on j .install ∈ logs → ch = some j
  act : ∀ j p, ws.view j = some p → ∃ p', ws'.view j = some p' ∧ Act api got p (eventsAt j logs) p'
  back : ∀ j p', ws'.view j = some p' → ∃ p, ws.view j = some p

theorem Acts.wired {api : ConnApi H A Q K} {ch : Option Nat} {got : Option (ReconnectResp H Q)}
    {ws ws' : Workers H Q} {logs : List (Logged H A)} {n : Nat} {kind : ConnKind}
    (h : Acts api ch got ws ws' logs) (hw : ws.Wired n kind)
    (hsized : ∀ s pc, ws' = .sequential s pc → s.Sized) : ws'.Wired n kind := by
  refine ⟨hsized, fun j hj => ?_, fun j p' hp' => ?_⟩
  · obtain ⟨p, hp⟩ := hw.here j hj
    obtain ⟨p', hp', -⟩ := h.act j p hp
    exact ⟨p', hp'⟩
  · obtain ⟨p, hp⟩ := h.back j p' hp'
    obtain ⟨p'', hp'', hact⟩ := h.act j p hp
    rw [hp'] at hp''
    obtain rfl := Option.some.inj hp''
    exact (hw.ends j p hp).of_sameWires hact.runs.sameWires

theorem acts_refl {api : ConnApi H A Q K} {ch : Option Nat} {got : Option (ReconnectResp H Q)}
    (ws : Workers H Q) : Acts api ch got ws ws [] :=
  ⟨.inl (by simp), by simp, fun _ p hp => ⟨p, hp, .stay⟩, fun _ p hp => ⟨p, hp⟩⟩

theorem acts_sequential {api : ConnApi H A Q K} {ch : Option Nat} {got : Option (ReconnectResp H Q)}
    {s s' : SequentialWorker H Q} {pc pc' : SequentialWorker.Pc} {logs : List (Logged H A)}
    (hs : s.Sized) (hstep : SequentialWorker.Stepped api got s pc s' pc' logs)
    (hgot : ∀ r, got = some r → ch = some r.providerIdx) :
    Acts api ch got (.sequential s pc) (.sequential s' pc') logs := by
  refine ⟨hstep.about.imp_right ?_, fun j hj => ?_, fun j p hp => ?_, fun j p' hp' => ?_⟩
  · rintro ⟨i, p, evs, hp, rfl⟩
    exact ⟨i, p, evs, SequentialWorker.view_eq_some_iff.mpr hp, rfl⟩
  · obtain ⟨c, hc⟩ := hstep.installed j hj
    exact hgot _ hc
  · obtain ⟨p', hp'⟩ := hstep.moved j p (SequentialWorker.view_eq_some_iff.mp hp)
    exact ⟨p', SequentialWorker.view_eq_some_iff.mpr hp'.entries, hp'.act⟩
  · have hj := (List.getElem?_eq_some_iff.mp (SequentialWorker.view_eq_some_iff.mp hp').conns).1
    rw [hstep.length] at hj
    obtain ⟨p, hp⟩ := hs.entries hj
    exact ⟨p, SequentialWorker.view_eq_some_iff.mpr hp⟩

theorem acts_parallel {api : ConnApi H A Q K} {ch : Option Nat} {got : Option (ReconnectResp H Q)}
    {ws : List (ParWorker H Q × ParWorker.Pc)} {i : Nat} {w w' : ParWorker H Q}
    {pc pc' : ParWorker.Pc} {logs : List (Logged H A)} (hi : ws[i]? = some (w, pc))
    (hidx : w.providerIdx = i) (hstep : ParWorker.Stepped api got w pc w' pc' logs)
    (hch : ∀ r, got = some r → ch = some i) :
    Acts api ch got (.parallel ws) (.parallel (ws.set i (w', pc'))) logs := by
  have hlt := (List.getElem?_eq_some_iff.mp hi).1
  have hact := hstep.act
  rw [hidx] at hact
  have hview : (Workers.parallel ws).view i = some w := congrArg (Option.map Prod.fst) hi
  have hown : ∀ j e, .on j e ∈ logs → j = i := by
    intro j e he
    rcases hstep.own with hpop | ⟨evs, rfl⟩
    · obtain ⟨job, sent, heq⟩ := hpop _ he
      cases heq
    · obtain ⟨ev, -, heq⟩ := List.mem_map.mp he
      rw [← hidx]
      exact (Logged.on.inj heq).1.symm
  refine ⟨?_, fun j hj => ?_, fun j p hp => ?_, fun j p' hp' => ?_⟩
  · rcases hstep.own with hpop | ⟨evs, rfl⟩
    · refine .inl fun e he => ?_
      obtain ⟨job, sent, rfl⟩ := hpop e he
      exact trivial
    · exact .inr ⟨i, w, evs, hview, by rw [hidx]⟩
  · obtain rfl := hown j _ hj
    obtain ⟨r, hr⟩ := hact.got_of_install (mem_eventsAt.mpr hj)
    exact hch r hr
  · by_cases hij : i = j
    · subst hij
      have hw : w = p := Option.some.inj (hview.symm.trans hp)
      subst hw
      refine ⟨w', ?_, hact⟩
      exact congrArg (Option.map Prod.fst) (List.getElem?_set_self hlt)
    · have hnone : eventsAt j logs = [] := by
        refine List.eq_nil_iff_forall_not_mem.mpr fun e he => hij ?_
        exact (hown j e (mem_eventsAt.mp he)).symm
      rw [hnone]
      refine ⟨p, ?_, .stay⟩
      exact (congrArg (Option.map Prod.fst) (List.getElem?_set_ne hij)).trans hp
  · have hj : j < (ws.set i (w', pc')).length := by
      obtain ⟨st, hst, -⟩ := Option.map_eq_some_iff.mp hp'
      exact (List.getElem?_eq_some_iff.mp hst).1
    rw [List.length_set] at hj
    exact ⟨ws[j].1, congrArg (Option.map Prod.fst) (List.getElem?_eq_getElem hj)⟩

/-- **A step of any worker thread.** -/
theorem step_acts {api : ConnApi H A Q K} {n : Nat} {kind : ConnKind} {ws ws' : Workers H Q}
    {j : Nat} {inp : Input H A Q K} {logs : List (Logged H A)} (hw : ws.Wired n kind)
    (hgot : ∀ r, inp.delivered = some r → ws.receives j = some r.providerIdx)
    (h : ws.step api j inp = .ok (ws', logs)) :
    ws'.Wired n kind ∧ Acts api (ws.receives j) inp.delivered ws ws' logs := by
  cases ws with
  | sequential s pc =>
      cases j with
      | zero =>
          obtain ⟨⟨⟨s', pc'⟩, evs⟩, hstep, h⟩ := bind_eq_ok.mp h
          cases h
          have hs := hw.sized s pc rfl
          have hstepped := SequentialWorker.step_stepped hs hstep
          have hacts := acts_sequential hs hstepped hgot
          refine ⟨hacts.wired hw ?_, hacts⟩
          rintro s₁ pc₁ heq
          cases heq
          exact hstepped.sized
      | succ j =>
          cases h
          exact ⟨hw, acts_refl _⟩
  | parallel ws =>
      simp only [step] at h
      cases hi : ws[j]? with
      | none =>
          rw [hi] at h
          cases h
          exact ⟨hw, acts_refl _⟩
      | some st =>
          obtain ⟨w, pc⟩ := st
          rw [hi] at h
          obtain ⟨⟨⟨w', pc'⟩, evs⟩, hstep, h⟩ := bind_eq_ok.mp h
          cases h
          have hends := hw.ends j w (congrArg (Option.map Prod.fst) hi)
          have hacts : Acts api ((Workers.parallel ws).receives j) inp.delivered (.parallel ws)
              (.parallel (ws.set j (w', pc'))) evs := by
            refine acts_parallel hi hends.providerIdx (ParWorker.step_stepped hstep) ?_
            intro r hr
            have hrecv := hgot r hr
            simp only [receives, hi] at hrecv ⊢
            cases pc with
            | deliver => rw [← hends.reconnectRespRx]
            | _ => cases hrecv
          exact ⟨hacts.wired hw nofun, hacts⟩

end Workers

/-! ## The sender -/

/-- The requests a step makes. -/
def requestsIn (logs : List (Logged H A)) : List ReconnectReq :=
  logs.filterMap fun e => match e with
    | .on _ (.request req) => some req
    | _ => none

/-- The responses a step pushes, with the ring each goes to. -/
def pushesIn (logs : List (Logged H A)) : List (Nat × RawResp) :=
  logs.filterMap fun e => match e with
    | .on _ (.push ring resp) => some (ring, resp)
    | _ => none

theorem mem_requestsIn {logs : List (Logged H A)} {req : ReconnectReq} :
    req ∈ requestsIn logs ↔ ∃ i, .on i (.request req) ∈ logs := by
  unfold requestsIn
  rw [List.mem_filterMap]
  constructor
  · rintro ⟨e, he, heq⟩
    split at heq
    · obtain rfl := Option.some.inj heq
      exact ⟨_, he⟩
    · cases heq
  · rintro ⟨i, hi⟩
    exact ⟨_, hi, rfl⟩

theorem mem_pushesIn {logs : List (Logged H A)} {ring : Nat} {resp : RawResp} :
    (ring, resp) ∈ pushesIn logs ↔ ∃ i, .on i (.push ring resp) ∈ logs := by
  unfold pushesIn
  rw [List.mem_filterMap]
  constructor
  · rintro ⟨e, he, heq⟩
    split at heq
    · obtain ⟨rfl, rfl⟩ := Prod.mk.inj (Option.some.inj heq)
      exact ⟨_, he⟩
    · cases heq
  · rintro ⟨i, hi⟩
    exact ⟨_, hi, rfl⟩

namespace Sender

/-- What the log of a step puts into the channels, all together. -/
theorem foldl_absorb (logs : List (Logged H A)) (s : Sender H Q) :
    logs.foldl absorb s =
      { s with
        reconnect := (requestsIn logs).foldl Reconnect.request s.reconnect
        lane := (pushesIn logs).foldl (fun l x => l.push x.1 x.2) s.lane } := by
  induction logs generalizing s with
  | nil => rfl
  | cons e logs ih =>
      rw [List.foldl_cons, ih]
      cases e with
      | popped => rfl
      | on i ev => cases ev <;> rfl

structure Wired (n : Nat) (kind : ConnKind) (made : Nat → Built H Q → Prop) (s : Sender H Q) :
    Prop where
  workers : s.workers.Wired n kind
  reconnect : s.reconnect.Wired n kind made

section Step

variable {n : Nat} {kind : ConnKind} {made : Nat → Built H Q → Prop} {s s' : Sender H Q}
  {api : ConnApi H A Q K} {builder : ReconnectBuilder H Q D} {logs : List (Logged H A)}

/-- A worker finds in a channel what was built for that channel's provider. -/
theorem hand_delivered (hw : s.Wired n kind made) {j : Nat} {inp : Input H A Q K}
    {resp : ReconnectResp H Q} (h : (s.hand j inp).delivered = some resp) :
    s.workers.receives j = some resp.providerIdx ∧
      s.reconnect.responses[resp.providerIdx]? = some (some resp) := by
  obtain ⟨ch, hch, hrecv⟩ := Option.bind_eq_some_iff.mp h
  have hslot : s.reconnect.responses[ch]? = some (some resp) := Option.join_eq_some_iff.mp hrecv
  obtain ⟨rfl, -⟩ := hw.reconnect.responses ch resp hslot
  exact ⟨hch, hslot⟩

/-- **A step of a worker**, as the sender sees it. -/
theorem step_worker (hw : s.Wired n kind made) {j : Nat} {inp : Input H A Q K}
    (h : step api builder s (.worker j inp) = .ok (s', logs)) :
    s.workers.step api j (s.hand j inp) = .ok (s'.workers, logs) ∧ s'.workers.Wired n kind ∧
      Workers.Acts api (s.workers.receives j) (s.hand j inp).delivered s.workers s'.workers logs ∧
      s'.reconnect = (requestsIn logs).foldl Reconnect.request (s.afterRecv j) ∧
      s'.lane = (pushesIn logs).foldl (fun l x => l.push x.1 x.2) s.lane ∧ s'.stop = s.stop := by
  obtain ⟨⟨ws', evs⟩, hstep, h⟩ := bind_eq_ok.mp h
  obtain ⟨rfl, rfl⟩ := Prod.mk.inj (Except.ok.inj h)
  obtain ⟨hwired, hacts⟩ := Workers.step_acts hw.workers
    (fun resp hresp => (hand_delivered hw hresp).1) hstep
  rw [foldl_absorb]
  exact ⟨hstep, hwired, hacts, rfl, rfl, rfl⟩

/-- Which part of the sender a step is about, as far as the workers and the lane are concerned. -/
theorem step_cases {a : Action H A Q K D} (h : step api builder s a = .ok (s', logs)) :
    (∃ j inp, a = .worker j inp ∧ s.workers.step api j (s.hand j inp) = .ok (s'.workers, logs) ∧
      s'.lane = (pushesIn logs).foldl (fun l x => l.push x.1 x.2) s.lane) ∨
    (logs = [] ∧ s'.workers = s.workers ∧ (∀ j inp, a ≠ .worker j inp) ∧
      ((∃ sawStop, a = .lane sawStop ∧ s.lane.step (sawStop && s.stop) = .ok s'.lane) ∨
        (s'.lane = s.lane ∧ ∀ sawStop, a ≠ .lane sawStop))) := by
  cases a with
  | worker j inp =>
      obtain ⟨⟨ws', evs⟩, hstep, h⟩ := bind_eq_ok.mp h
      obtain ⟨rfl, rfl⟩ := Prod.mk.inj (Except.ok.inj h)
      rw [foldl_absorb]
      exact .inl ⟨j, inp, rfl, hstep, rfl⟩
  | lane sawStop =>
      obtain ⟨lane, hlane, h⟩ := bind_eq_ok.mp h
      cases h
      exact .inr ⟨rfl, rfl, nofun, .inl ⟨sawStop, rfl, hlane⟩⟩
  | finish d =>
      obtain ⟨r', -, h⟩ := bind_eq_ok.mp h
      cases h
      exact .inr ⟨rfl, rfl, nofun, .inr ⟨rfl, nofun⟩⟩
  | exit =>
      cases h
      split
      · exact .inr ⟨rfl, rfl, nofun, .inr ⟨rfl, nofun⟩⟩
      · exact .inr ⟨rfl, rfl, nofun, .inr ⟨rfl, nofun⟩⟩
  | take | shutdown =>
      cases h
      exact .inr ⟨rfl, rfl, nofun, .inr ⟨rfl, nofun⟩⟩

/-- Requests are made by a provider for itself. -/
theorem request_wired (hw : s.Wired n kind made) {ch : Option Nat}
    {got : Option (ReconnectResp H Q)} {ws' : Workers H Q}
    (hacts : Workers.Acts api ch got s.workers ws' logs) {req : ReconnectReq}
    (hreq : req ∈ requestsIn logs) : req.providerIdx < n ∧ req.kind = kind := by
  obtain ⟨i, hi⟩ := mem_requestsIn.mp hreq
  rcases hacts.about with hquiet | ⟨i', p, evs, hp, rfl⟩
  · exact (hquiet _ hi).elim
  · obtain ⟨ev, hev, heq⟩ := List.mem_map.mp hi
    obtain ⟨rfl, rfl⟩ := Logged.on.inj heq
    obtain ⟨p', -, hact⟩ := hacts.act i' p hp
    rw [eventsAt_map_on] at hact
    have hends := hw.workers.ends i' p hp
    obtain rfl := hact.request_eq hev
    exact ⟨by rw [hends.providerIdx]; exact hends.lt, hends.connKind⟩

theorem wired_foldl_request {r : Reconnect H Q} (h : r.Wired n kind made) {reqs : List ReconnectReq}
    (hreqs : ∀ req ∈ reqs, req.providerIdx < n ∧ req.kind = kind) :
    (reqs.foldl Reconnect.request r).Wired n kind made := by
  induction reqs generalizing r with
  | nil => exact h
  | cons req reqs ih =>
      exact ih (h.request (hreqs req (List.mem_cons_self ..)))
        fun q hq => hreqs q (List.mem_cons_of_mem _ hq)

theorem wired_afterRecv (hw : s.Wired n kind made) (j : Nat) :
    (s.afterRecv j).Wired n kind made := by
  unfold afterRecv
  split
  · exact hw.reconnect.received _
  · exact hw.reconnect

theorem wired_step {connectOne : Nat → D → Exec (Except SenderError (Built H Q))}
    (hw : s.Wired n kind fun i c => ∃ d, connectOne i d = .ok (.ok c)) {a : Action H A Q K D}
    (h : step api (engineReconnectBuilder connectOne) s a = .ok (s', logs)) :
    s'.Wired n kind fun i c => ∃ d, connectOne i d = .ok (.ok c) := by
  cases a with
  | worker j inp =>
      obtain ⟨-, hworkers, hacts, hrec, -, -⟩ := step_worker hw h
      refine ⟨hworkers, ?_⟩
      rw [hrec]
      exact wired_foldl_request (wired_afterRecv hw j) fun req hreq => request_wired hw hacts hreq
  | take =>
      cases h
      exact ⟨hw.workers, hw.reconnect.take⟩
  | finish d =>
      obtain ⟨r', hfin, h⟩ := bind_eq_ok.mp h
      cases h
      refine ⟨hw.workers, ?_⟩
      rcases Reconnect.finish_cases hfin with ⟨-, rfl⟩ | ⟨req, hpc, ⟨e, -, rfl⟩ | ⟨c, hc, rfl⟩⟩
      · exact hw.reconnect
      · exact hw.reconnect.idle
      · exact hw.reconnect.idle.respond ⟨d, hc⟩
  | exit =>
      cases h
      split
      · exact ⟨hw.workers, hw.reconnect.exit⟩
      · exact hw
  | lane sawStop =>
      obtain ⟨lane, -, h⟩ := bind_eq_ok.mp h
      cases h
      exact ⟨hw.workers, hw.reconnect⟩
  | shutdown =>
      cases h
      exact ⟨hw.workers, hw.reconnect⟩

end Step

end Sender

/-! ## What `build` makes -/

/-- Provider `i` of a new sender: two connections made for `i`, with nothing in flight. -/
def Fresh (kind : ConnKind) (made : Nat → Built H Q → Prop) (i : Nat) (p : ParWorker H Q) : Prop :=
  ∃ a b, made i a ∧ made i b ∧ p = startedPar i i i kind i a b

theorem connectDualAll_spec {connectOne : Nat → D → Exec (Except SenderError (Built H Q))}
    {ds : Nat → D × D} {n i : Nat} {duals : List (DualConn (ConnState H Q))}
    (h : connectDualAll connectOne ds n i = .ok (.ok duals)) :
    duals.length = n ∧ ∀ k dual, duals[k]? = some dual → ∃ a b,
      (∃ d, connectOne (i + k) d = .ok (.ok a)) ∧ (∃ d, connectOne (i + k) d = .ok (.ok b)) ∧
      dual = DualConn.new a.state b.state := by
  induction n generalizing i duals with
  | zero =>
      obtain rfl := Except.ok.inj (Except.ok.inj h)
      exact ⟨rfl, fun k _ hk => by cases hk⟩
  | succ n ih =>
      rw [connectDualAll] at h
      obtain ⟨ra, ha, h⟩ := bind_eq_ok.mp h
      cases ra with
      | error e => cases Except.ok.inj h
      | ok a =>
          obtain ⟨rb, hb, h⟩ := bind_eq_ok.mp h
          cases rb with
          | error e => cases Except.ok.inj h
          | ok b =>
              obtain ⟨rest, hrest, h⟩ := bind_eq_ok.mp h
              cases rest with
              | error e => cases Except.ok.inj h
              | ok rest =>
                  obtain rfl := Except.ok.inj (Except.ok.inj h)
                  obtain ⟨hlen, hall⟩ := ih hrest
                  refine ⟨by rw [List.length_cons, hlen], fun k dual hk => ?_⟩
                  cases k with
                  | zero =>
                      obtain rfl := Option.some.inj hk
                      exact ⟨a, b, ⟨_, ha⟩, ⟨_, hb⟩, rfl⟩
                  | succ k =>
                      obtain ⟨a', b', ha', hb', rfl⟩ := hall k dual hk
                      rw [Nat.add_right_comm] at ha' hb'
                      exact ⟨a', b', ha', hb', rfl⟩

theorem spawnParallel_spec {kind : ConnKind} {diag : List Nat} {i : Nat}
    {ends : List ((DualConn (ConnState H Q) × Nat) × Nat)} {ws : List (ParWorker H Q × ParWorker.Pc)}
    (h : spawnParallel kind diag i ends = .ok ws) :
    ws.length = ends.length ∧ ∀ k st, ws[k]? = some st → ∃ dual tx rx slot,
      ends[k]? = some ((dual, tx), rx) ∧ diag[i + k]? = some slot ∧
      st = (ParWorker.new (i + k) tx dual rx kind slot, .top) := by
  induction ends generalizing i ws with
  | nil =>
      obtain rfl := Except.ok.inj h
      exact ⟨rfl, fun k _ hk => by cases hk⟩
  | cons e ends ih =>
      obtain ⟨⟨dual, tx⟩, rx⟩ := e
      rw [spawnParallel] at h
      obtain ⟨slot, hslot, h⟩ := bind_eq_ok.mp h
      obtain ⟨rest, hrest, h⟩ := bind_eq_ok.mp h
      obtain rfl := Except.ok.inj h
      obtain ⟨hlen, hall⟩ := ih hrest
      refine ⟨by rw [List.length_cons, List.length_cons, hlen], fun k st hk => ?_⟩
      cases k with
      | zero =>
          obtain rfl := Option.some.inj hk
          have hdiag : diag[i]? = some slot := by
            unfold Exec.index at hslot
            split at hslot
            · rename_i a ha
              rw [ha, Except.ok.inj hslot]
            · cases hslot
          exact ⟨dual, tx, rx, slot, rfl, hdiag, rfl⟩
      | succ k =>
          obtain ⟨dual', tx', rx', slot', hends, hdiag, rfl⟩ := hall k st hk
          rw [Nat.add_right_comm] at hdiag ⊢
          exact ⟨dual', tx', rx', slot', hends, hdiag, rfl⟩

theorem view_sequential_new {duals : List (DualConn (ConnState H Q))} {n : Nat} (kind : ConnKind)
    (hlen : duals.length = n) (i : Nat) :
    (SequentialWorker.new duals (List.range n) (List.range n) kind (List.range n)).view i =
      (duals[i]?).map fun dual => ParWorker.new i i dual i kind i := by
  cases hd : duals[i]? with
  | none => simp [SequentialWorker.view, SequentialWorker.new, hd]
  | some dual =>
      have hi := (List.getElem?_eq_some_iff.mp hd).1
      have hrange : (List.range n)[i]? = some i := List.getElem?_range (hlen ▸ hi)
      refine SequentialWorker.view_eq_some_iff.mpr
        ⟨hd, hrange, ?_, hrange, hrange, ?_, rfl, rfl, rfl⟩
      · exact List.getElem?_replicate_of_lt hi
      · exact List.getElem?_replicate_of_lt hi

theorem eq_of_getElem?_range {n i x : Nat} (h : (List.range n)[i]? = some x) : x = i := by
  obtain ⟨hi, rfl⟩ := List.getElem?_eq_some_iff.mp h
  exact List.getElem_range hi

theorem view_parallel_new {duals : List (DualConn (ConnState H Q))} {n : Nat} {kind : ConnKind}
    {ws : List (ParWorker H Q × ParWorker.Pc)} (hlen : duals.length = n)
    (h : spawnParallel kind (List.range n) 0 ((duals.zip (List.range n)).zip (List.range n)) = .ok ws)
    (i : Nat) :
    (Workers.parallel ws).view i = (duals[i]?).map fun dual => ParWorker.new i i dual i kind i := by
  obtain ⟨hcount, hall⟩ := spawnParallel_spec h
  show (ws[i]?).map Prod.fst = _
  cases hst : ws[i]? with
  | some st =>
      obtain ⟨dual, tx, rx, slot, hends, hdiag, rfl⟩ := hall i st hst
      rw [Nat.zero_add] at hdiag ⊢
      rw [List.getElem?_zip_eq_some, List.getElem?_zip_eq_some] at hends
      obtain ⟨⟨hd, htx⟩, hrx⟩ := hends
      obtain rfl : tx = i := eq_of_getElem?_range htx
      obtain rfl : rx = tx := eq_of_getElem?_range hrx
      obtain rfl : slot = rx := eq_of_getElem?_range hdiag
      rw [hd]
      rfl
  | none =>
      have hge := List.getElem?_eq_none_iff.mp hst
      rw [hcount, List.length_zip, List.length_zip, List.length_range, hlen, Nat.min_self,
        Nat.min_self, ← hlen] at hge
      rw [List.getElem?_eq_none hge]
      rfl

/-- The workers of either engine, provider by provider. -/
theorem spawn_spec {engine : Engine} {duals : List (DualConn (ConnState H Q))} {n : Nat}
    {ws : Workers H Q} (hlen : duals.length = n) (h : SenderBuilder.spawn engine duals n = .ok ws) :
    (∀ s pc, ws = .sequential s pc → s.Sized) ∧
      ∀ i, ws.view i = (duals[i]?).map fun dual => ParWorker.new i i dual i engine.connKind i := by
  have hseq : ∀ kind s pc, Workers.sequential (SequentialWorker.new duals (List.range n)
      (List.range n) kind (List.range n)) .top = .sequential s pc → s.Sized := by
    intro kind s pc heq
    obtain ⟨rfl, -⟩ := Workers.sequential.inj heq
    constructor <;> simp [SequentialWorker.new, hlen]
  cases engine with
  | seqRaw =>
      obtain rfl := Except.ok.inj h
      exact ⟨hseq _, view_sequential_new _ hlen⟩
  | seqUring =>
      obtain rfl := Except.ok.inj h
      exact ⟨hseq _, view_sequential_new _ hlen⟩
  | parRaw =>
      obtain ⟨ws, hws, h⟩ := bind_eq_ok.mp h
      obtain rfl := Except.ok.inj h
      exact ⟨fun _ _ heq => (by cases heq), view_parallel_new hlen hws⟩

/-- The only way through `build`. -/
theorem build_eq_ok {b : SenderBuilder}
    {connectOne : Nat → D → Exec (Except SenderError (Built H Q))} {ds : Nat → D × D}
    {s : Sender H Q} (h : b.build connectOne ds = .ok (.ok s)) :
    ∃ engine duals workers, b.transport = some engine ∧
      connectDualAll connectOne ds b.providers.length 0 = .ok (.ok duals) ∧
      SenderBuilder.spawn engine duals b.providers.length = .ok workers ∧
      s = { workers, reconnect := Reconnect.spawn b.providers.length,
            lane := ResultLane.new (b.providers.map Provider.ProviderConfig.codec), stop := false } := by
  unfold SenderBuilder.build at h
  split at h
  · cases Except.ok.inj h
  · cases htr : b.transport with
    | none =>
        rw [htr] at h
        cases Except.ok.inj h
    | some engine =>
        rw [htr] at h
        simp only at h
        split at h
        · cases Except.ok.inj h
        split at h
        · cases Except.ok.inj h
        split at h
        · cases Except.ok.inj h
        obtain ⟨r, hduals, h⟩ := bind_eq_ok.mp h
        cases r with
        | error e => cases Except.ok.inj h
        | ok duals =>
            obtain ⟨ws, hws, h⟩ := bind_eq_ok.mp h
            obtain rfl := Except.ok.inj (Except.ok.inj h)
            exact ⟨engine, duals, ws, rfl, hduals, hws, rfl⟩

/-- **What `build` makes**: a wired sender with fresh connections and empty channels. -/
theorem build_spec {b : SenderBuilder}
    {connectOne : Nat → D → Exec (Except SenderError (Built H Q))} {ds : Nat → D × D}
    {s : Sender H Q} (h : b.build connectOne ds = .ok (.ok s)) :
    ∃ engine, b.transport = some engine ∧
      s.Wired b.providers.length engine.connKind (fun i c => ∃ d, connectOne i d = .ok (.ok c)) ∧
      (∀ i p, s.workers.view i = some p →
        Fresh engine.connKind (fun i c => ∃ d, connectOne i d = .ok (.ok c)) i p) ∧
      s.reconnect = Reconnect.spawn b.providers.length ∧
      s.lane = ResultLane.new (b.providers.map Provider.ProviderConfig.codec) := by
  obtain ⟨engine, duals, ws, htr, hduals, hws, rfl⟩ := build_eq_ok h
  obtain ⟨hlen, hall⟩ := connectDualAll_spec hduals
  obtain ⟨hsized, hview⟩ := spawn_spec hlen hws
  refine ⟨engine, htr, ⟨⟨hsized, fun j hj => ?_, fun j p hp => ?_⟩, Reconnect.wired_spawn⟩,
    fun i p hp => ?_, rfl, rfl⟩
  · rw [← hlen] at hj
    exact ⟨_, by rw [hview j, List.getElem?_eq_getElem hj]; rfl⟩
  · rw [hview j] at hp
    obtain ⟨dual, hd, rfl⟩ := Option.map_eq_some_iff.mp hp
    exact ⟨hlen ▸ (List.getElem?_eq_some_iff.mp hd).1, rfl, rfl, rfl, rfl⟩
  · rw [hview i] at hp
    obtain ⟨dual, hd, rfl⟩ := Option.map_eq_some_iff.mp hp
    obtain ⟨a, b, ha, hb, rfl⟩ := hall i dual hd
    rw [Nat.zero_add] at ha hb
    exact ⟨a, b, ha, hb, rfl⟩

/-! ## A bare sender -/

/-- A sender that `build` makes, which the property `P` holds of. -/
theorem exists_built (b : SenderBuilder)
    (connectOne : Nat → D → Exec (Except SenderError (Built H Q))) (ds : Nat → D × D)
    (P : Sender H Q → Prop) [DecidablePred P]
    (h : (b.build connectOne ds).map (fun r => r.toOption.map fun s => decide (P s)) =
      .ok (some true)) :
    ∃ s, b.build connectOne ds = .ok (.ok s) ∧ P s := by
  obtain ⟨r, hbuild, hr⟩ := map_eq_ok.mp h
  cases r with
  | error e => cases hr
  | ok s => exact ⟨s, hbuild, of_decide_eq_true (Option.some.inj hr)⟩

/-- An HTTP provider without credentials whose codec accepts everything as `kind`. -/
def bareProvider (kind : OutcomeKind) : ProviderConfig where
  protocol := .http
  endpoint := { host := "h", port := 443, path := "/", serverName := "h" }
  quicEndpoint := none
  quicProfile := none
  quicAuth := none
  auth := .none
  maxBody := 16
  bodyTemplate := "<<BODY>>"
  codec := fun _ => kind

/-- Plain sockets; a connection is refused or made as the answer says. -/
def bareDialer : Dialer RawConn Bytes RawAnswer (QuicEngine Bool) Unit Bool where
  make _ _ := .ok ()
  connect _ up := if up then .ok { written := [] } else .error (.fromRawOsError 111)
  session _ _ := .ok []
  isHandshaking _ := false
  rounds _ := []
  quicClientConfig _ _ _ := .ok ()
  quicConnect _ _ _ _ := .error (.quic "refused")

def bareConnectOne (providers : List ProviderConfig) : Nat → Bool →
    Exec (Except SenderError (Built (HttpConn RawConn Bytes) (QuicEngine Bool))) :=
  connectOne rawLibc plainTls bareDialer providers

def bareSender (engine : Engine) (providers : List ProviderConfig) : SenderBuilder where
  transport := some engine
  providers := providers
  hasSource := true
  hasSink := true
  hasTls := true

/-- Everything that can happen to it. -/
def bareMachine (providers : List ProviderConfig) : Machine
    (Sender (HttpConn RawConn Bytes) (QuicEngine Bool))
    (Action (HttpConn RawConn Bytes) RawAnswer (QuicEngine Bool) Bool Bool)
    (Logged (HttpConn RawConn Bytes) RawAnswer) :=
  Sender.machine (rawApi plainTls (quinnApi flagQuinn))
    (engineReconnectBuilder (bareConnectOne providers))

end TxSender.Transport
