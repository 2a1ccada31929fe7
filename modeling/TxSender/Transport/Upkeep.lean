/-
# TxSender.Transport.Upkeep — what the workers do on the side.

Every 1024 rounds, and whenever its ring is empty, a worker looks for a rebuilt standby and publishes its
diagnostics. So `Sender::health` lags behind what was sent, and a rebuilt connection waits before it is in
place; `health_lags` and `installed_within` bound both, whatever the other threads do in between. In the
meantime nobody touches a standby: `standby_untouched`.
-/
import TxSender.Lib.Progress
import TxSender.Transport.JobsSent
import TxSender.Transport.Rebuild
import TxSender.Transport.Round

namespace TxSender.Transport

open TxSender.Lib
open TxSender.Http
open TxSender.Protocol
open TxSender.Backend
open TxSender.Provider

variable {H A Q K D : Type}

/-! ## `health` -/

/-- The diagnostics of a worker; the histograms of the profiling build are left out. -/
structure WorkerDiag where
  alive : Bool
  jobsSent : Nat
  deriving DecidableEq, Repr

structure ProviderHealthEntry where
  providerIdx : Nat
  alive : Bool
  jobsSent : Nat
  deriving DecidableEq, Repr

/-- `*self.diag.lock_write() = WorkerDiag { .. }` -/
def writeDiag (diag : List WorkerDiag) : Logged H A → List WorkerDiag
  | .on _ (.diag slot jobsSent) => diag.set slot { alive := true, jobsSent }
  | _ => diag

/-- The slots of `n` providers after a log, from `WorkerDiag::default()` on. -/
def diagAfter (n : Nat) (log : List (Logged H A)) : List WorkerDiag :=
  log.foldl writeDiag (List.replicate n { alive := false, jobsSent := 0 })

/-- `Sender::health` -/
def health (diag : List WorkerDiag) : List ProviderHealthEntry :=
  diag.zipIdx.map fun (w, i) => { providerIdx := i, alive := w.alive, jobsSent := w.jobsSent }

/-- The last counter that was published, `m` before any. -/
def lastDiag (m : Nat) (evs : List (Event H A)) : Nat :=
  evs.foldl (fun m e => (diagOf e).getD m) m

theorem lastDiag_append (m : Nat) (l l' : List (Event H A)) :
    lastDiag m (l ++ l') = lastDiag (lastDiag m l) l' := List.foldl_append

/-- Each provider writes the slot of its own number. -/
def OwnSlots (log : List (Logged H A)) : Prop :=
  ∀ i slot n, .on i (.diag slot n) ∈ log → slot = i

/-- What the log left in slot `i`. -/
theorem foldl_writeDiag {log : List (Logged H A)} (hown : OwnSlots log) {diag : List WorkerDiag}
    {i : Nat} {w : WorkerDiag} (hi : diag[i]? = some w) :
    (log.foldl writeDiag diag)[i]? =
      some { alive := w.alive || (eventsAt i log).any fun e => (diagOf e).isSome
             jobsSent := lastDiag w.jobsSent (eventsAt i log) } := by
  induction log generalizing diag w with
  | nil =>
      rw [List.foldl_nil, hi]
      simp [eventsAt, lastDiag]
  | cons e log ih =>
      have hrest : OwnSlots log := fun k slot n hm => hown k slot n (List.mem_cons_of_mem _ hm)
      rw [List.foldl_cons]
      cases e with
      | popped job sent => exact ih hrest hi
      | on k ev =>
          have hskip : ∀ d : List WorkerDiag, (∀ slot n, ev ≠ .diag slot n) →
              writeDiag d (.on k ev) = d := by
            intro d hne
            cases ev with
            | diag slot n => exact absurd rfl (hne slot n)
            | _ => rfl
          have hevents : eventsAt i (.on k ev :: log) =
              (if k = i then [ev] else []) ++ eventsAt i log := by
            by_cases hki : k = i <;> simp [eventsAt, hki]
          rw [hevents]
          by_cases hdiag : ∃ slot n, ev = .diag slot n
          · obtain ⟨slot, n, rfl⟩ := hdiag
            obtain rfl := hown k slot n (List.mem_cons_self ..)
            by_cases hki : slot = i
            · subst hki
              have hset : (writeDiag diag (.on slot (.diag slot n) : Logged H A))[slot]? =
                  some { alive := true, jobsSent := n } :=
                List.getElem?_set_self (List.getElem?_eq_some_iff.mp hi).1
              rw [ih hrest hset, if_pos rfl]
              simp [lastDiag, diagOf]
            · have hset : (writeDiag diag (.on slot (.diag slot n) : Logged H A))[i]? = some w :=
                (List.getElem?_set_ne hki).trans hi
              rw [ih hrest hset, if_neg hki, List.nil_append]
          · have hne : ∀ slot n, ev ≠ .diag slot n := fun slot n heq => hdiag ⟨slot, n, heq⟩
            have hnone : diagOf ev = none := by
              cases ev with
              | diag slot n => exact absurd rfl (hne slot n)
              | _ => rfl
            rw [hskip diag hne, ih hrest hi]
            split
            · simp [lastDiag, hnone]
            · rw [List.nil_append]

theorem health_diagAfter {n : Nat} {log : List (Logged H A)} (hown : OwnSlots log) {i : Nat}
    (hi : i < n) :
    (health (diagAfter n log))[i]? =
      some { providerIdx := i
             alive := (eventsAt i log).any fun e => (diagOf e).isSome
             jobsSent := lastDiag 0 (eventsAt i log) } := by
  have hstart : (List.replicate n (⟨false, 0⟩ : WorkerDiag))[i]? = some ⟨false, 0⟩ :=
    List.getElem?_replicate_of_lt hi
  have hslot : (diagAfter n log)[i]? = _ := foldl_writeDiag hown hstart
  unfold health
  rw [List.getElem?_map, List.getElem?_zipIdx, hslot]
  simp

/-! ## How far the published counter lags -/

/-- The published counter `m` is behind the counter `n`, by at most `slack`. -/
structure Lags (m n slack : Nat) : Prop where
  le : m ≤ n
  bound : n ≤ m + slack

section Tick

theorem periodic_iff (t : UInt32) : periodic t = true ↔ t.toNat % 1024 = 0 := by
  have hmask : (t &&& 0x3FF).toNat = t.toNat % 1024 := by
    rw [UInt32.toNat_and]
    exact Nat.and_two_pow_sub_one_eq_mod t.toNat 10
  rw [periodic, beq_iff_eq, ← hmask, ← UInt32.toNat_inj]
  rfl

theorem toNat_succ_mod (t : UInt32) : (t + 1).toNat % 1024 = (t.toNat % 1024 + 1) % 1024 := by
  rw [UInt32.toNat_add]
  have hone : (1 : UInt32).toNat = 1 := rfl
  rw [hone]
  omega

end Tick

/-- How many jobs a provider can have counted since its last publication. -/
def Phase.slack (tick : UInt32) : Phase → Nat
  | .before | .closing | .stopped | .check true | .checked true => tick.toNat % 1024
  | .after | .tick => tick.toNat % 1024 + 1
  | .check false | .checked false => 1024

theorem Phase.slack_le (tick : UInt32) (ph : Phase) : ph.slack tick ≤ 1024 := by
  have hlt := Nat.mod_lt tick.toNat (show 0 < 1024 by decide)
  cases ph with
  | check idle | checked idle => cases idle <;> simp only [slack] <;> omega
  | _ =>
      simp only [slack]
      omega

section Calls

variable {api : ConnApi H A Q K} {p p' : ParWorker H Q} {evs : List (Event H A)}
  {inp : Input H A Q K} {m slack : Nat}

theorem sendTo_lags {job : Job} {sent : Nat} (h : p.sendTo api job sent inp = .ok (p', evs))
    (hl : Lags m p.jobsSent slack) : Lags (lastDiag m evs) p'.jobsSent (slack + 1) := by
  have hle := hl.le
  have hbound := hl.bound
  obtain ⟨rest, rfl⟩ := ParWorker.sendTo_log h
  cases ParWorker.sendTo_does h with
  | sent | resent | quicSent => exact ⟨Nat.le_succ_of_le hle, Nat.succ_le_succ hbound⟩
  | refused | lost | dropped => exact ⟨hle, Nat.le_succ_of_le hbound⟩

theorem reap_lags {pid : Nat} (hpid : p.providerIdx = pid)
    (h : p.reap api (ProviderId.ofIndex pid) inp = .ok (p', evs)) (hl : Lags m p.jobsSent slack) :
    Lags (lastDiag m evs) p'.jobsSent slack := by
  have hlog := ParWorker.reap_log h
  subst hpid
  cases ParWorker.reap_does h with
  | sent | refused | resent | lost | dropped | quicSent =>
      exact (hlog _ (List.mem_cons_self ..)).elim
  | published => exact ⟨Nat.le_refl _, Nat.le_add_right _ _⟩
  | _ => exact hl

theorem check_lags (delivered : Option (ReconnectResp H Q)) (hl : Lags m p.jobsSent slack) :
    Lags (lastDiag m (p.checkStandbyDelivery (A := A) delivered).2)
      (p.checkStandbyDelivery (A := A) delivered).1.jobsSent slack := by
  rcases delivered with _ | ⟨idx, c | _⟩ <;> exact hl

theorem lastDiag_publishDiag (m : Nat) (evs : List (Event H A)) (p : ParWorker H Q) :
    lastDiag m (evs ++ p.publishDiag) = p.jobsSent := by
  rw [lastDiag_append]
  rfl

end Calls

theorem Lags.mono {m n slack slack' : Nat} (h : Lags m n slack) (hle : slack ≤ slack') :
    Lags m n slack' := ⟨h.le, Nat.le_trans h.bound (Nat.add_le_add_left hle m)⟩

theorem lags_self (n slack : Nat) : Lags n n slack := ⟨Nat.le_refl n, Nat.le_add_right n slack⟩

/-- **One step**: what it sends raises the lag by one, a tick makes room for that, and only at the end of
1024 rounds there is none. -/
theorem Beat.lags {api : ConnApi H A Q K} {inp : Input H A Q K} {ch : Option Nat}
    {p p' : ParWorker H Q} {ph ph' : Phase} {evs : List (Event H A)}
    (h : Beat api inp ch p ph evs p' ph') {m : Nat} (hl : Lags m p.jobsSent (ph.slack p.tick)) :
    Lags (lastDiag m evs) p'.jobsSent (ph'.slack p'.tick) := by
  cases h with
  | wait => exact hl
  | stop => exact hl
  | noJob => exact hl.mono (Nat.le_succ _)
  | send _ hsend =>
      have htick := (ParWorker.sendTo_does hsend).sameFrame.tick
      rw [Phase.slack, htick]
      exact sendTo_lags hsend hl
  | drive => exact hl
  | @reap _ _ ph' _ hreap hph =>
      have htick : p'.tick = p.tick := (ParWorker.reap_does hreap).sameFrame.tick
      have hslack : ph'.slack p'.tick = Phase.after.slack p.tick := by
        rw [htick]
        rcases hph with rfl | rfl <;> rfl
      rw [hslack]
      exact reap_lags rfl hreap hl
  | reaped => exact hl
  | tick =>
      have hsucc := toNat_succ_mod p.tick
      have hlt := Nat.mod_lt p.tick.toNat (show 0 < 1024 by decide)
      refine hl.mono ?_
      split
      · exact hlt
      · rename_i hper
        rw [periodic_iff] at hper
        show p.tick.toNat % 1024 + 1 ≤ (p.tick + 1).toNat % 1024
        omega
  | check idle =>
      have htick : (p.checkStandbyDelivery (A := A) inp.delivered).1.tick = p.tick := by
        rcases inp.delivered with _ | ⟨idx, c | _⟩ <;> rfl
      have hslack : (Phase.checked idle).slack p.tick = (Phase.check idle).slack p.tick := by
        cases idle <;> rfl
      rw [htick, hslack]
      exact check_lags _ hl
  | publish => exact lags_self _ _
  | checkPublish =>
      rw [lastDiag_publishDiag]
      exact lags_self _ _
  | idle =>
      split
      · exact hl
      · exact hl

/-! ## Whole runs -/

theorem Does.diag_slot {api : ConnApi H A Q K} {w w' : ParWorker H Q} {evs : List (Event H A)}
    (h : Does api w evs w') {slot n : Nat} (hm : .diag slot n ∈ evs) : slot = w.diag := by
  cases h with
  | published =>
      simp only [ParWorker.publishDiag, List.mem_singleton, Event.diag.injEq] at hm
      exact hm.1
  | _ => simp [ParWorker.failoverLog] at hm

/-- A provider publishes into its own slot. -/
theorem Act.diag_slot {api : ConnApi H A Q K} {got : Option (ReconnectResp H Q)}
    {p p' : ParWorker H Q} {evs : List (Event H A)} (h : Act api got p evs p') :
    p'.diag = p.diag ∧ ∀ slot n, .diag slot n ∈ evs → slot = p.diag := by
  cases h with
  | send hd => exact ⟨hd.sameFrame.diag, fun slot n hm => hd.diag_slot hm⟩
  | reap _ _ _ hd => exact ⟨hd.sameFrame.diag, fun slot n hm => hd.diag_slot hm⟩
  | install _ htail =>
      refine ⟨rfl, fun slot n hm => ?_⟩
      rcases htail with rfl | rfl
      · simp at hm
      · simp only [ParWorker.publishDiag, List.mem_cons, reduceCtorEq, Event.diag.injEq,
          List.not_mem_nil, or_false, false_or] at hm
        exact hm.1
  | publish =>
      have hdoes : Does api p p.publishDiag p := .published
      exact ⟨rfl, fun slot n hm => hdoes.diag_slot hm⟩
  | _ => exact ⟨rfl, fun slot n hm => by simp at hm⟩

theorem SequentialWorker.publishDiag_lt {s : SequentialWorker H Q} {slots : List Nat} {i j : Nat}
    {logs : List (Logged H A)} {e : Event H A} (h : s.publishDiag i slots = .ok logs)
    (hm : .on j e ∈ logs) : j < i + slots.length := by
  induction slots generalizing i logs with
  | nil =>
      obtain rfl := Except.ok.inj h
      simp at hm
  | cons slot slots ih =>
      rw [publishDiag] at h
      obtain ⟨m, -, h⟩ := bind_eq_ok.mp h
      obtain ⟨rest, hrest, h⟩ := bind_eq_ok.mp h
      obtain rfl := Except.ok.inj h
      rw [List.length_cons]
      rcases List.mem_cons.mp hm with heq | hm
      · obtain ⟨rfl, -⟩ := Logged.on.inj heq
        omega
      · have hlt := ih hrest hm
        omega

/-- The provider a step logs something for is there. -/
theorem Workers.view_of_mem {api : ConnApi H A Q K} {n : Nat} {kind : ConnKind} {ws ws' : Workers H Q}
    {j i : Nat} {inp : Input H A Q K} {logs : List (Logged H A)} {e : Event H A} (hw : ws.Wired n kind)
    (h : ws.step api j inp = .ok (ws', logs)) (hm : .on i e ∈ logs) : ∃ p, ws.view i = some p := by
  have hown : ∀ {k : Nat} {evs : List (Event H A)}, Logged.on i e ∈ evs.map (Logged.on k) → k = i := by
    intro k evs hm
    obtain ⟨ev, -, heq⟩ := List.mem_map.mp hm
    exact (Logged.on.inj heq).1
  cases ws with
  | sequential s pc =>
      cases j with
      | succ j =>
          cases h
          simp at hm
      | zero =>
          obtain ⟨⟨⟨s', pc'⟩, evs⟩, hstep, h⟩ := bind_eq_ok.mp h
          cases h
          have hs := hw.sized s pc rfl
          cases SequentialWorker.step_turn hs hstep with
          | send job sent k hp =>
              obtain rfl := hown hm
              exact ⟨_, SequentialWorker.view_eq_some_iff.mpr hp⟩
          | reap k hp =>
              obtain rfl := hown hm
              exact ⟨_, SequentialWorker.view_eq_some_iff.mpr hp⟩
          | install k idle idx c hk hdel hp =>
              obtain ⟨rfl, -⟩ := Logged.on.inj (List.mem_singleton.mp hm)
              exact ⟨_, SequentialWorker.view_eq_some_iff.mpr hp⟩
          | publish idle hpub =>
              have hlt := SequentialWorker.publishDiag_lt hpub hm
              rw [Nat.zero_add, hs.diag] at hlt
              obtain ⟨p, hp⟩ := hs.entries hlt
              exact ⟨p, SequentialWorker.view_eq_some_iff.mpr hp⟩
          | _ => simp at hm
  | parallel ws =>
      simp only [step] at h
      cases hj : ws[j]? with
      | none =>
          rw [hj] at h
          cases h
          simp at hm
      | some st =>
          obtain ⟨w, pc⟩ := st
          rw [hj] at h
          obtain ⟨⟨⟨w', pc'⟩, evs⟩, hstep, h⟩ := bind_eq_ok.mp h
          cases h
          have hview : (Workers.parallel ws).view j = some w := congrArg (Option.map Prod.fst) hj
          rcases (ParWorker.step_stepped hstep).own with hpop | ⟨evs', rfl⟩
          · obtain ⟨job, sent, heq⟩ := hpop _ hm
            cases heq
          · obtain rfl := hown hm
            rw [(hw.ends j w hview).providerIdx]
            exact ⟨w, hview⟩

/-- The slots are written as they should be, and lag as the rounds say. -/
structure DiagKept (s : Sender H Q) (log : List (Logged H A)) : Prop where
  own : OwnSlots log
  slot : ∀ i p, s.workers.view i = some p → p.diag = i
  lags : ∀ i p, s.workers.view i = some p →
    Lags (lastDiag 0 (eventsAt i log)) p.jobsSent ((s.workers.phase i).slack p.tick)

theorem DiagKept.of_workers {s s' : Sender H Q} {log : List (Logged H A)} (h : DiagKept s log)
    (hws : s'.workers = s.workers) : DiagKept s' log :=
  ⟨h.own, by rw [hws]; exact h.slot, by rw [hws]; exact h.lags⟩

theorem diagKept_step {api : ConnApi H A Q K} {builder : ReconnectBuilder H Q D} {n : Nat}
    {kind : ConnKind} {made : Nat → Built H Q → Prop} {s s' : Sender H Q}
    {log logs : List (Logged H A)} {a : Action H A Q K D} (hw : s.Wired n kind made)
    (h : DiagKept s log) (hstep : s.step api builder a = .ok (s', logs)) :
    DiagKept s' (log ++ logs) := by
  rcases Sender.step_cases hstep with ⟨j, inp, rfl, -, -⟩ | ⟨rfl, hws, -, -⟩
  · obtain ⟨hone, -, hacts, -, -, -⟩ := Sender.step_worker hw hstep
    have hgot : ∀ r, (s.hand j inp).delivered = some r → s.workers.receives j = some r.providerIdx :=
      fun r hr => (Sender.hand_delivered hw hr).1
    have hback : ∀ i p', s'.workers.view i = some p' → ∃ p, s.workers.view i = some p ∧
        Act api (s.hand j inp).delivered p (eventsAt i logs) p' := by
      intro i p' hp'
      obtain ⟨p, hp⟩ := hacts.back i p' hp'
      obtain ⟨p'', hp'', hact⟩ := hacts.act i p hp
      obtain rfl := Option.some.inj (hp''.symm.trans hp')
      exact ⟨p, hp, hact⟩
    refine ⟨fun i slot m hm => ?_, fun i p' hp' => ?_, fun i p' hp' => ?_⟩
    · rcases List.mem_append.mp hm with hm | hm
      · exact h.own i slot m hm
      · -- the provider that publishes is there, and its slot has its number
        obtain ⟨p, hp⟩ := Workers.view_of_mem hw.workers hone hm
        obtain ⟨p', -, hact⟩ := hacts.act i p hp
        rw [hact.diag_slot.2 slot m (mem_eventsAt.mpr hm)]
        exact h.slot i p hp
    · obtain ⟨p, hp, hact⟩ := hback i p' hp'
      rw [hact.diag_slot.1]
      exact h.slot i p hp
    · obtain ⟨p, hp, -⟩ := hback i p' hp'
      obtain ⟨p'', hp'', -, hbeat⟩ := Workers.step_beat hw.workers hgot hone hp
      obtain rfl := Option.some.inj (hp''.symm.trans hp')
      rw [eventsAt_append, lastDiag_append]
      rcases hbeat with ⟨-, hbeat⟩ | ⟨-, helse⟩
      · exact hbeat.lags (h.lags i p hp)
      · rw [helse.log, helse.phase, helse.same]
        exact h.lags i p hp
  · rw [List.append_nil]
    exact h.of_workers hws

/-- Every provider starts its first round with nothing published and nothing sent. -/
theorem diagKept_build {b : SenderBuilder} {connectOne : Nat → D → Exec (Except SenderError (Built H Q))}
    {ds : Nat → D × D} {s : Sender H Q} (h : b.build connectOne ds = .ok (.ok s)) :
    DiagKept s ([] : List (Logged H A)) := by
  obtain ⟨engine, -, -, hfresh, -, -⟩ := build_spec h
  refine ⟨fun i slot n hm => by simp at hm, fun i p hp => ?_, fun i p hp => ?_⟩
  · obtain ⟨c, d, -, -, rfl⟩ := hfresh i p hp
    rfl
  · obtain ⟨c, d, -, -, rfl⟩ := hfresh i p hp
    exact lags_self 0 _

theorem Does.le_lastDiag {api : ConnApi H A Q K} {w w' : ParWorker H Q} {evs : List (Event H A)}
    {m : Nat} (h : Does api w evs w') (hm : m ≤ w.jobsSent) : m ≤ lastDiag m evs := by
  cases h with
  | published => exact hm
  | _ => exact Nat.le_refl m

/-- A counter that is published is not below the one before. -/
theorem Act.le_lastDiag {api : ConnApi H A Q K} {got : Option (ReconnectResp H Q)}
    {p p' : ParWorker H Q} {evs : List (Event H A)} {m : Nat} (h : Act api got p evs p')
    (hm : m ≤ p.jobsSent) : m ≤ lastDiag m evs := by
  cases h with
  | send hdoes => exact hdoes.le_lastDiag hm
  | reap _ _ _ hdoes => exact hdoes.le_lastDiag hm
  | install _ htail =>
      rcases htail with rfl | rfl
      · exact Nat.le_refl m
      · exact hm
  | publish => exact hm
  | _ => exact Nat.le_refl m

/-- What the slot of provider `i` holds does not go down in a step. -/
theorem lastDiag_step {api : ConnApi H A Q K} {builder : ReconnectBuilder H Q D} {n : Nat}
    {kind : ConnKind} {made : Nat → Built H Q → Prop} {s s' : Sender H Q}
    {log logs : List (Logged H A)} {a : Action H A Q K D} (hw : s.Wired n kind made)
    (h : DiagKept s log) (hstep : s.step api builder a = .ok (s', logs)) {i : Nat} (hi : i < n) :
    lastDiag 0 (eventsAt i log) ≤ lastDiag 0 (eventsAt i (log ++ logs)) := by
  rw [eventsAt_append, lastDiag_append]
  obtain ⟨p, hp⟩ := hw.workers.here i hi
  rcases Sender.step_cases hstep with ⟨j, inp, rfl, -, -⟩ | ⟨rfl, -, -, -⟩
  · obtain ⟨-, -, hacts, -, -, -⟩ := Sender.step_worker hw hstep
    obtain ⟨p', -, hact⟩ := hacts.act i p hp
    exact hact.le_lastDiag (h.lags i p hp).le
  · exact Nat.le_refl _

theorem wired_run {api : ConnApi H A Q K} {connectOne : Nat → D → Exec (Except SenderError (Built H Q))}
    {n : Nat} {kind : ConnKind} {s s' : Sender H Q} {actions : List (Action H A Q K D)}
    {log : List (Logged H A)} (hw : s.Wired n kind fun i c => ∃ d, connectOne i d = .ok (.ok c))
    (hrun : (Sender.machine api (engineReconnectBuilder connectOne)).run s actions = .ok (s', log)) :
    s'.Wired n kind fun i c => ∃ d, connectOne i d = .ok (.ok c) :=
  Machine.run_invariant _ (fun s _ => s.Wired n kind fun i c => ∃ d, connectOne i d = .ok (.ok c)) hw
    (fun _ _ _ _ _ h hstep => Sender.wired_step h hstep) hrun

/-- **`health` is at most 1024 jobs behind.** At any two moments of any run of a sender that `build` made,
with the sequential or the parallel engine over `raw_libc` or `io_uring`, any interleaving of its threads and
any answers of the connections: the entry of a provider carries its number; the counter it reports has been
reached and is less than the worker's own by at most 1024 jobs; it never goes down; and the provider is
reported alive exactly if its worker has published once. -/
theorem health_lags (api : ConnApi H A Q K) (b : SenderBuilder)
    (connectOne : Nat → D → Exec (Except SenderError (Built H Q))) (ds : Nat → D × D)
    (s₀ s₁ s₂ : Sender H Q) (early late : List (Action H A Q K D)) (log₁ log₂ : List (Logged H A))
    (hbuild : b.build connectOne ds = .ok (.ok s₀))
    (hearly : (Sender.machine api (engineReconnectBuilder connectOne)).run s₀ early = .ok (s₁, log₁))
    (hlate : (Sender.machine api (engineReconnectBuilder connectOne)).run s₁ late = .ok (s₂, log₂)) :
    ∀ i < b.providers.length, ∃ e₁ e₂ p,
      (health (diagAfter b.providers.length log₁))[i]? = some e₁ ∧
      (health (diagAfter b.providers.length (log₁ ++ log₂)))[i]? = some e₂ ∧
      s₂.workers.view i = some p ∧ e₂.providerIdx = i ∧
      e₁.jobsSent ≤ e₂.jobsSent ∧ e₂.jobsSent ≤ p.jobsSent ∧ p.jobsSent ≤ e₂.jobsSent + 1024 ∧
      (e₂.alive = true ↔ ∃ slot n, .on i (.diag slot n) ∈ log₁ ++ log₂) := by
  obtain ⟨engine, -, hw, -, -, -⟩ := build_spec hbuild
  have hmid := Machine.run_invariant _
    (fun s log => s.Wired b.providers.length engine.connKind
        (fun i c => ∃ d, connectOne i d = .ok (.ok c)) ∧ DiagKept s log)
    ⟨hw, diagKept_build hbuild⟩
    (fun s log a s' evs h hstep => ⟨Sender.wired_step h.1 hstep, diagKept_step h.1 h.2 hstep⟩) hearly
  have hend := Machine.run_invariant _
    (fun s log => s.Wired b.providers.length engine.connKind
        (fun i c => ∃ d, connectOne i d = .ok (.ok c)) ∧ DiagKept s (log₁ ++ log) ∧
      ∀ i < b.providers.length,
        lastDiag 0 (eventsAt i log₁) ≤ lastDiag 0 (eventsAt i (log₁ ++ log)))
    ⟨hmid.1, by rw [List.append_nil]; exact hmid.2, fun i _ => by rw [List.append_nil]⟩
    (fun s log a s' evs h hstep => by
      rw [← List.append_assoc]
      refine ⟨Sender.wired_step h.1 hstep, diagKept_step h.1 h.2.1 hstep, fun i hi => ?_⟩
      exact Nat.le_trans (h.2.2 i hi) (lastDiag_step h.1 h.2.1 hstep hi)) hlate
  intro i hi
  obtain ⟨p, hp⟩ := hend.1.workers.here i hi
  have hlags := hend.2.1.lags i p hp
  have hslack := Phase.slack_le p.tick (s₂.workers.phase i)
  refine ⟨_, _, p, health_diagAfter hmid.2.own hi, health_diagAfter hend.2.1.own hi, hp, rfl,
    hend.2.2 i hi, hlags.le, Nat.le_trans hlags.bound (Nat.add_le_add_left hslack _), ?_⟩
  rw [List.any_eq_true]
  constructor
  · rintro ⟨e, he, hdiag⟩
    cases e with
    | diag slot n => exact ⟨slot, n, mem_eventsAt.mp he⟩
    | _ => cases hdiag
  · rintro ⟨slot, n, hm⟩
    exact ⟨_, mem_eventsAt.mpr hm, rfl⟩

/-- One job is sent and then the worker is idle: it is counted before it is reported. -/
def sendThenIdle : List (Action (HttpConn RawConn Bytes) RawAnswer (QuicEngine Bool) Bool Bool) :=
  let base := Input.quiet RawAnswer.silent false
  [.worker 0 { base with popped := some ⟨1, 0⟩ }, .worker 0 { base with call := .takes 90 },
    .worker 0 base, .worker 0 base]

theorem health_lags_idle :
    ∃ s₀ s₁ s₂ log₁ log₂ e₁ e₂ p, (bareSender .parRaw [bareProvider .noResponse]).build
        (bareConnectOne [bareProvider .noResponse]) (fun _ => (true, true)) = .ok (.ok s₀) ∧
      (bareMachine [bareProvider .noResponse]).run s₀ sendThenIdle = .ok (s₁, log₁) ∧
      (bareMachine [bareProvider .noResponse]).run s₁
        [.worker 0 { Input.quiet RawAnswer.silent false with empty := true },
          .worker 0 (Input.quiet RawAnswer.silent false)] = .ok (s₂, log₂) ∧
      (health (diagAfter 1 log₁))[0]? = some e₁ ∧ (health (diagAfter 1 (log₁ ++ log₂)))[0]? = some e₂ ∧
      s₂.workers.view 0 = some p ∧ e₁.jobsSent = 0 ∧ p.jobsSent = 1 ∧
      e₁.jobsSent ≤ e₂.jobsSent ∧ e₂.jobsSent ≤ p.jobsSent ∧ p.jobsSent ≤ e₂.jobsSent + 1024 := by
  obtain ⟨s₀, hbuild, mid, hmid, out, hout, hzero, hone⟩ :=
    exists_built (bareSender .parRaw [bareProvider .noResponse])
      (bareConnectOne [bareProvider .noResponse]) (fun _ => (true, true))
      (fun s₀ => ∃ mid ∈ ((bareMachine [bareProvider .noResponse]).run s₀ sendThenIdle).toOption,
        ∃ out ∈ ((bareMachine [bareProvider .noResponse]).run mid.1
            [.worker 0 { Input.quiet RawAnswer.silent false with empty := true },
              .worker 0 (Input.quiet RawAnswer.silent false)]).toOption,
          ((health (diagAfter 1 mid.2))[0]?).map ProviderHealthEntry.jobsSent = some 0 ∧
            (out.1.workers.view 0).map ParWorker.jobsSent = some 1)
      (by decide +kernel)
  have hearly := eq_ok_of_mem_toOption hmid
  have hlate := eq_ok_of_mem_toOption hout
  obtain ⟨e₁, e₂, p, h₁, h₂, hp, -, hmono, hle, hbound, -⟩ :=
    health_lags _ _ _ _ s₀ mid.1 out.1 _ _ mid.2 out.2 hbuild hearly hlate 0 (by decide)
  have hfirst : (health (diagAfter 1 mid.2))[0]? = some e₁ := h₁
  rw [hfirst] at hzero
  rw [hp] at hone
  exact ⟨s₀, mid.1, out.1, mid.2, out.2, e₁, e₂, p, hbuild, hearly, hlate, h₁, h₂, hp,
    Option.some.inj hzero, Option.some.inj hone, hmono, hle, hbound⟩

/-! ## How long a rebuilt connection waits -/

/-- How many ticks a provider can be away from its next look for a rebuilt standby. -/
def Phase.untilCheck (tick : UInt32) : Phase → Nat
  | .check _ => 0
  | _ => 1024 - tick.toNat % 1024

theorem Phase.untilCheck_le (tick : UInt32) (ph : Phase) : ph.untilCheck tick ≤ 1024 := by
  cases ph with
  | check => exact Nat.zero_le _
  | _ => exact Nat.sub_le _ _

/-- **One step** that does not look: no further away, and nearer after a tick. -/
theorem Beat.untilCheck {api : ConnApi H A Q K} {inp : Input H A Q K} {ch : Option Nat}
    {p p' : ParWorker H Q} {ph ph' : Phase} {evs : List (Event H A)}
    (h : Beat api inp ch p ph evs p' ph') (hch : ch ≠ some p.reconnectRespRx) :
    ph'.untilCheck p'.tick + (if ph = .tick then 1 else 0) ≤ ph.untilCheck p.tick := by
  cases h with
  | wait ph hph => rw [if_neg hph, Nat.add_zero]
  | send _ hsend =>
      rw [(ParWorker.sendTo_does hsend).sameFrame.tick, if_neg nofun]
      exact Nat.le_refl _
  | reap _ hreap hph =>
      have htick : p'.tick = p.tick := (ParWorker.reap_does hreap).sameFrame.tick
      rw [htick, if_neg nofun]
      rcases hph with rfl | rfl <;> exact Nat.le_refl _
  | tick =>
      have hsucc := toNat_succ_mod p.tick
      have hlt := Nat.mod_lt p.tick.toNat (show 0 < 1024 by decide)
      rw [if_pos rfl]
      split
      · show 0 + 1 ≤ 1024 - p.tick.toNat % 1024
        omega
      · rename_i hper
        rw [periodic_iff] at hper
        show 1024 - (p.tick + 1).toNat % 1024 + 1 ≤ 1024 - p.tick.toNat % 1024
        omega
  | check _ hself => exact absurd hself hch
  | checkPublish _ hself => exact absurd hself hch
  | publish idle =>
      cases idle
      · exact Nat.le_refl _
      · exact Nat.le_refl _
  | idle =>
      split
      · exact Nat.zero_le _
      · exact Nat.le_refl _
  | stop | noJob | drive | reaped => exact Nat.le_refl _

namespace Reconnect

variable {r r' : Reconnect H Q} {i : Nat} {resp : ReconnectResp H Q}

theorem responses_request (req : ReconnectReq) : (r.request req).responses = r.responses := by
  unfold Reconnect.request
  split <;> rfl

theorem responses_foldl_request (reqs : List ReconnectReq) :
    (reqs.foldl Reconnect.request r).responses = r.responses := by
  induction reqs generalizing r with
  | nil => rfl
  | cons req reqs ih => rw [List.foldl_cons, ih, responses_request]

/-- What waits in a channel is not replaced. -/
theorem waiting_respond (h : r.responses[i]? = some (some resp)) (idx : Nat) (conn : ConnBox H Q) :
    (r.respond idx conn).responses[i]? = some (some resp) := by
  unfold Reconnect.respond
  split
  · rename_i hnone
    have hne : idx ≠ i := by
      rintro rfl
      rw [h] at hnone
      cases hnone
    rw [List.getElem?_set_ne hne, h]
  · exact h

theorem waiting_finish {connectOne : Nat → D → Exec (Except SenderError (Built H Q))} {d : D}
    (h : r.responses[i]? = some (some resp))
    (hfin : r.finish (engineReconnectBuilder connectOne) d = .ok r') :
    r'.responses[i]? = some (some resp) := by
  rcases Reconnect.finish_cases hfin with ⟨-, rfl⟩ | ⟨req, -, ⟨e, -, rfl⟩ | ⟨c, -, rfl⟩⟩
  · exact h
  · exact h
  · exact waiting_respond (r := { r with pc := .waiting }) h _ _

end Reconnect

/-- The step is a tick of the thread that serves provider `i`. -/
def ticks (i : Nat) (s : Sender H Q) : Action H A Q K D → Bool
  | .worker j _ => j = s.workers.thread i && s.workers.phase i = .tick
  | _ => false

/-- How far the sender is from looking for a standby for provider `i`. -/
def Sender.untilCheck (s : Sender H Q) (i : Nat) : Nat :=
  match s.workers.view i with
  | some p => (s.workers.phase i).untilCheck p.tick
  | none => 0

/-- **One step** while a connection waits for provider `i`: it is installed, or it still waits, and a tick
brings its thread nearer. -/
theorem installs_or_waits {api : ConnApi H A Q K}
    {connectOne : Nat → D → Exec (Except SenderError (Built H Q))} {n : Nat} {kind : ConnKind}
    {s s' : Sender H Q} {logs : List (Logged H A)} {a : Action H A Q K D} {i : Nat} (hi : i < n)
    {resp : ReconnectResp H Q} (hw : s.Wired n kind fun i c => ∃ d, connectOne i d = .ok (.ok c))
    (hwait : s.reconnect.responses[i]? = some (some resp))
    (hstep : s.step api (engineReconnectBuilder connectOne) a = .ok (s', logs)) :
    .on i .install ∈ logs ∨ s'.reconnect.responses[i]? = some (some resp) ∧
      s'.untilCheck i + (if ticks i s a then 1 else 0) ≤ s.untilCheck i := by
  obtain ⟨p, hp⟩ := hw.workers.here i hi
  have hsame : s'.workers = s.workers → s'.untilCheck i = s.untilCheck i := by
    intro hws
    rw [Sender.untilCheck, Sender.untilCheck, hws]
  cases a with
  | worker j inp =>
      obtain ⟨hone, -, hacts, hrec, -, -⟩ := Sender.step_worker hw hstep
      have hgot : ∀ r, (s.hand j inp).delivered = some r →
          s.workers.receives j = some r.providerIdx := fun r hr => (Sender.hand_delivered hw hr).1
      by_cases hrecv : s.workers.receives j = some i
      · obtain ⟨-, c, hconn, -⟩ := hw.reconnect.responses i resp hwait
        have hdel : (s.hand j inp).delivered = some ⟨resp.providerIdx, .conn c⟩ := by
          show (s.workers.receives j).bind s.reconnect.tryRecv = _
          rw [hrecv, Option.bind_some, Reconnect.tryRecv, hwait, ← hconn]
          rfl
        obtain ⟨k, hk⟩ := Workers.step_installs hone hrecv hdel
        obtain rfl : i = k := Option.some.inj (hrecv.symm.trans (hacts.installed k hk))
        exact .inl hk
      · refine .inr ⟨?_, ?_⟩
        · rw [hrec, Reconnect.responses_foldl_request]
          unfold Sender.afterRecv
          split
          · rename_i ch hch
            have hne : ch ≠ i := fun heq => hrecv (heq ▸ hch)
            exact (List.getElem?_set_ne hne).trans hwait
          · exact hwait
        · obtain ⟨p', hp', -, hbeat⟩ := Workers.step_beat hw.workers hgot hone hp
          simp only [Sender.untilCheck, hp, hp', ticks]
          rcases hbeat with ⟨hj, hbeat⟩ | ⟨hj, helse⟩
          · have hrx := (hw.workers.ends i p hp).reconnectRespRx
            have hle := hbeat.untilCheck (by rw [hrx]; exact hrecv)
            simpa [hj] using hle
          · rw [helse.phase, helse.same]
            simp [hj]
  | finish d =>
      obtain ⟨r', hfin, h⟩ := bind_eq_ok.mp hstep
      cases h
      exact .inr ⟨Reconnect.waiting_finish hwait hfin, Nat.le_refl _⟩
  | take =>
      cases hstep
      refine .inr ⟨?_, Nat.le_refl _⟩
      show s.reconnect.take.responses[i]? = _
      unfold Reconnect.take
      split
      · split <;> exact hwait
      · exact hwait
  | exit =>
      cases hstep
      refine .inr ⟨?_, ?_⟩
      · split
        · show s.reconnect.exit.responses[i]? = _
          unfold Reconnect.exit
          split <;> exact hwait
        · exact hwait
      · rw [hsame (by split <;> rfl)]
        exact Nat.le_refl _
  | lane sawStop =>
      obtain ⟨lane, -, h⟩ := bind_eq_ok.mp hstep
      cases h
      exact .inr ⟨hwait, Nat.le_refl _⟩
  | shutdown =>
      cases hstep
      exact .inr ⟨hwait, Nat.le_refl _⟩

/-- **A rebuilt connection is in place after 1024 rounds.** In every run of a sender that `build` made: from
the moment a rebuilt connection waits in the channel of a provider, the thread that serves the provider
is at most 1024 ticks away from looking for it, and it installs the connection before it has made more
ticks than that, whatever the jobs, the other threads, the reconnect thread and the connections do. -/
theorem installed_within (api : ConnApi H A Q K) (b : SenderBuilder)
    (connectOne : Nat → D → Exec (Except SenderError (Built H Q))) (ds : Nat → D × D)
    (s₀ s₁ s₂ : Sender H Q) (early late : List (Action H A Q K D)) (log₁ log₂ : List (Logged H A))
    (hbuild : b.build connectOne ds = .ok (.ok s₀))
    (hearly : (Sender.machine api (engineReconnectBuilder connectOne)).run s₀ early = .ok (s₁, log₁))
    (hlate : (Sender.machine api (engineReconnectBuilder connectOne)).run s₁ late = .ok (s₂, log₂))
    (i : Nat) (resp : ReconnectResp H Q) (hwait : s₁.reconnect.responses[i]? = some (some resp)) :
    s₁.untilCheck i ≤ 1024 ∧
      (s₁.untilCheck i < (Sender.machine api (engineReconnectBuilder connectOne)).countSteps (ticks i) s₁
        late → .on i .install ∈ log₂) := by
  obtain ⟨engine, -, hw, -, -, -⟩ := build_spec hbuild
  have hmid := wired_run hw hearly
  have hi : i < b.providers.length := by
    rw [← hmid.reconnect.length]
    exact (List.getElem?_eq_some_iff.mp hwait).1
  refine ⟨?_, fun hticks => ?_⟩
  · unfold Sender.untilCheck
    split
    · exact Phase.untilCheck_le _ _
    · exact Nat.zero_le _
  · obtain ⟨e, he, rfl⟩ := Machine.exists_event_of_rank _ (ticks i) (fun _ _ => false)
      (fun s => s.Wired b.providers.length engine.connKind
          (fun i c => ∃ d, connectOne i d = .ok (.ok c)) ∧
        s.reconnect.responses[i]? = some (some resp))
      (· = .on i .install) (·.untilCheck i)
      (fun s s' evs a _ h hstep => by
        rcases installs_or_waits hi h.1 h.2 hstep with hnow | ⟨hwait, hle⟩
        · exact .inl ⟨_, hnow, rfl⟩
        · exact .inr ⟨⟨Sender.wired_step h.1 hstep, hwait⟩, hle⟩)
      ⟨hmid, hwait⟩ hlate (by rw [Machine.countSteps_none]; exact hticks)
    exact he

/-- Two rounds of the worker in which nothing comes in. -/
def pollTwice : List (Action (HttpConn RawConn Bytes) RawAnswer (QuicEngine Bool) Bool Bool) :=
  let base := Input.quiet RawAnswer.silent false
  List.replicate 8 (.worker 0 base)

theorem installed_within_idle :
    ∃ s₀ s₁ s₂ log₁ log₂, (bareSender .parRaw [bareProvider .noResponse]).build
        (bareConnectOne [bareProvider .noResponse]) (fun _ => (true, true)) = .ok (.ok s₀) ∧
      (bareMachine [bareProvider .noResponse]).run s₀
        (resetThenBuild true ++ installing.take 2) = .ok (s₁, log₁) ∧
      (bareMachine [bareProvider .noResponse]).run s₁ pollTwice = .ok (s₂, log₂) ∧
      s₁.untilCheck 0 = 0 ∧ .on 0 .install ∈ log₂ := by
  obtain ⟨s₀, hbuild, mid, hmid, out, hout, hrank, hticks, hwait⟩ :=
    exists_built (bareSender .parRaw [bareProvider .noResponse])
      (bareConnectOne [bareProvider .noResponse]) (fun _ => (true, true))
      (fun s₀ => ∃ mid ∈ ((bareMachine [bareProvider .noResponse]).run s₀
          (resetThenBuild true ++ installing.take 2)).toOption,
        ∃ out ∈ ((bareMachine [bareProvider .noResponse]).run mid.1 pollTwice).toOption,
          mid.1.untilCheck 0 = 0 ∧
            0 < (bareMachine [bareProvider .noResponse]).countSteps (ticks 0) mid.1 pollTwice ∧
            (mid.1.reconnect.tryRecv 0).isSome = true)
      (by decide +kernel)
  obtain ⟨resp, hresp⟩ := Reconnect.isSome_tryRecv.mp hwait
  have hearly := eq_ok_of_mem_toOption hmid
  have hlate := eq_ok_of_mem_toOption hout
  have hinst := (installed_within _ _ _ _ s₀ mid.1 out.1 _ _ mid.2 out.2 hbuild hearly hlate 0 resp
    hresp).2 (by rw [hrank]; exact hticks)
  exact ⟨s₀, mid.1, out.1, mid.2, out.2, hbuild, hearly, hlate, hrank, hinst⟩

/-! ## Standbys -/

/-- A failover or the arrival of a rebuilt connection. -/
def movesStandby : Event H A → Bool
  | .failover _ _ | .install => true
  | _ => false

theorem Does.standby_eq {api : ConnApi H A Q K} {w w' : ParWorker H Q} {evs : List (Event H A)}
    (h : Does api w evs w') (hstill : ∀ e ∈ evs, movesStandby e = false) :
    w'.dualConn.standby = w.dualConn.standby := by
  cases h with
  | resent | lost | dropped | failed | died | installed =>
      simp [ParWorker.failoverLog, movesStandby] at hstill
  | _ => rfl

/-- No call is made on a standby. -/
theorem Act.standby_eq {api : ConnApi H A Q K} {got : Option (ReconnectResp H Q)}
    {p p' : ParWorker H Q} {evs : List (Event H A)} (h : Act api got p evs p')
    (hstill : ∀ e ∈ evs, movesStandby e = false) : p'.dualConn.standby = p.dualConn.standby := by
  cases h with
  | send hdoes => exact hdoes.standby_eq hstill
  | reap _ _ _ hdoes => exact hdoes.standby_eq hstill
  | install => cases hstill _ (List.mem_cons_self ..)
  | _ => rfl

theorem standby_step {api : ConnApi H A Q K} {builder : ReconnectBuilder H Q D} {n : Nat}
    {kind : ConnKind} {made : Nat → Built H Q → Prop} {s s' : Sender H Q} {logs : List (Logged H A)}
    {a : Action H A Q K D} (hw : s.Wired n kind made) (hstep : s.step api builder a = .ok (s', logs))
    {i : Nat} {p : ParWorker H Q} (hp : s.workers.view i = some p)
    (hstill : ∀ e ∈ eventsAt i logs, movesStandby e = false) :
    ∃ p', s'.workers.view i = some p' ∧ p'.dualConn.standby = p.dualConn.standby := by
  rcases Sender.step_cases hstep with ⟨j, inp, rfl, -, -⟩ | ⟨-, hws, -, -⟩
  · obtain ⟨-, -, hacts, -, -, -⟩ := Sender.step_worker hw hstep
    obtain ⟨p', hp', hact⟩ := hacts.act i p hp
    exact ⟨p', hp', hact.standby_eq hstill⟩
  · exact ⟨p, by rw [hws]; exact hp, rfl⟩

/-- **A standby is left as it is.** In every run of a sender that `build` made: between a moment at which
provider `i` has a certain standby and any later one, with no failover of `i` and no rebuilt connection
for `i` in between, nothing at all has happened to that standby. It is not driven and not polled, whatever
goes on with the active connection and with the other providers, so a failover takes up a connection in
the state in which it was put aside. -/
theorem standby_untouched (api : ConnApi H A Q K) (b : SenderBuilder)
    (connectOne : Nat → D → Exec (Except SenderError (Built H Q))) (ds : Nat → D × D)
    (s₀ s₁ s₂ : Sender H Q) (early late : List (Action H A Q K D)) (log₁ log₂ : List (Logged H A))
    (hbuild : b.build connectOne ds = .ok (.ok s₀))
    (hearly : (Sender.machine api (engineReconnectBuilder connectOne)).run s₀ early = .ok (s₁, log₁))
    (hlate : (Sender.machine api (engineReconnectBuilder connectOne)).run s₁ late = .ok (s₂, log₂))
    (i : Nat) (p₁ : ParWorker H Q) (hp₁ : s₁.workers.view i = some p₁)
    (hstill : ∀ e ∈ eventsAt i log₂, movesStandby e = false) :
    ∃ p₂, s₂.workers.view i = some p₂ ∧ p₂.dualConn.standby = p₁.dualConn.standby := by
  obtain ⟨engine, -, hw, -, -, -⟩ := build_spec hbuild
  have hmid := wired_run hw hearly
  have hend := Machine.run_invariant _
    (fun s log => s.Wired b.providers.length engine.connKind
        (fun i c => ∃ d, connectOne i d = .ok (.ok c)) ∧
      ((∀ e ∈ eventsAt i log, movesStandby e = false) →
        ∃ p₂, s.workers.view i = some p₂ ∧ p₂.dualConn.standby = p₁.dualConn.standby))
    ⟨hmid, fun _ => ⟨p₁, hp₁, rfl⟩⟩
    (fun s log a s' evs h hstep => by
      refine ⟨Sender.wired_step h.1 hstep, fun hall => ?_⟩
      rw [eventsAt_append] at hall
      obtain ⟨p, hp, hsame⟩ := h.2 fun e he => hall e (List.mem_append_left _ he)
      obtain ⟨p', hp', hnext⟩ := standby_step h.1 hstep hp
        fun e he => hall e (List.mem_append_right _ he)
      exact ⟨p', hp', hnext.trans hsame⟩) hlate
  exact hend.2 hstill

/-- The connection that was reset stays the standby while the other one is polled. -/
theorem standby_untouched_polling :
    ∃ s₀ s₁ s₂ log₁ log₂ p₁ p₂, (bareSender .parRaw [bareProvider .noResponse]).build
        (bareConnectOne [bareProvider .noResponse]) (fun _ => (true, true)) = .ok (.ok s₀) ∧
      (bareMachine [bareProvider .noResponse]).run s₀ (resetThenBuild false) = .ok (s₁, log₁) ∧
      (bareMachine [bareProvider .noResponse]).run s₁ pollTwice = .ok (s₂, log₂) ∧
      s₁.workers.view 0 = some p₁ ∧ s₂.workers.view 0 = some p₂ ∧
      (eventsAt 0 log₂).length = 2 ∧ p₂.dualConn.standby = p₁.dualConn.standby := by
  obtain ⟨s₀, hbuild, mid, hmid, out, hout, hlen, hstill, hview⟩ :=
    exists_built (bareSender .parRaw [bareProvider .noResponse])
      (bareConnectOne [bareProvider .noResponse]) (fun _ => (true, true))
      (fun s₀ => ∃ mid ∈ ((bareMachine [bareProvider .noResponse]).run s₀
          (resetThenBuild false)).toOption,
        ∃ out ∈ ((bareMachine [bareProvider .noResponse]).run mid.1 pollTwice).toOption,
          (eventsAt 0 out.2).length = 2 ∧ (∀ e ∈ eventsAt 0 out.2, movesStandby e = false) ∧
            (mid.1.workers.view 0).isSome = true)
      (by decide +kernel)
  obtain ⟨p₁, hp₁⟩ := Option.isSome_iff_exists.mp hview
  have hearly := eq_ok_of_mem_toOption hmid
  have hlate := eq_ok_of_mem_toOption hout
  obtain ⟨p₂, hp₂, hsame⟩ := standby_untouched _ _ _ _ s₀ mid.1 out.1 _ _ mid.2 out.2 hbuild hearly hlate
    0 p₁ hp₁ hstill
  exact ⟨s₀, mid.1, out.1, mid.2, out.2, p₁, p₂, hbuild, hearly, hlate, hp₁, hp₂, hlen, hsame⟩

end TxSender.Transport
