/-
# TxSender.Transport.Shutdown — what the sink gets when the sender is shut down.

The workers and the result lane look at the stop flag on their own. The lane leaves its loop as soon
as it sees the flag, whatever its rings hold, and a worker that is not done yet may push after that.
So the sink gets the outcome of every response that was pushed exactly when the lane leaves with its
rings empty and no worker has a response to push afterwards (`results_survive_iff`).
-/
import TxSender.Transport.Wiring

namespace TxSender.Transport

open TxSender.Lib
open TxSender.Http
open TxSender.Protocol
open TxSender.Backend
open TxSender.Provider

variable {H A Q K D : Type}

/-! ## Which steps push -/

namespace ParWorker

/-- `reap` has a response to push: a body comes in while a job is in flight, or the window of a QUIC job
has passed. -/
def hasResponse (api : ConnApi H A Q K) (w : ParWorker H Q) (inp : Input H A Q K) : Bool :=
  match w.active with
  | .http h =>
      match api.http.pollResponse h inp.call with
      | .ok (_, .ok (some _)) => w.inflight.isSome
      | _ => false
  | .quic q => !q.isDead api.quic && (q.pollNorespWindow inp.now).2.isSome

/-- The same of the `drive` and `reap` of one round. -/
def settles (api : ConnApi H A Q K) (w : ParWorker H Q) (inp : Input H A Q K) : Bool :=
  (w.driveActive api inp).hasResponse api inp

end ParWorker

/-- The next step of thread `j` pushes a response. -/
def Workers.settles (api : ConnApi H A Q K) : Workers H Q → Nat → Input H A Q K → Bool
  | .sequential s (.reap i), 0, inp =>
      match s.view i with
      | some p => p.settles api inp
      | none => false
  | .parallel ws, j, inp =>
      match ws[j]? with
      | some (w, .reap) => w.settles api inp
      | _ => false
  | _, _, _ => false

/-- Either a push into ring `i`, or none. -/
def PushesIff (settles : Bool) (P : Nat → Prop) (logs : List (Logged H A)) : Prop :=
  (settles = true ∧ ∃ i resp, P i ∧ pushesIn logs = [(i, resp)]) ∨
    (settles = false ∧ pushesIn logs = [])

theorem pushesIn_of_quiet {logs : List (Logged H A)} (h : ∀ e ∈ logs, Quiet e) :
    pushesIn logs = [] := by
  refine List.filterMap_eq_nil_iff.mpr fun e he => ?_
  have hq := h e he
  cases e with
  | popped => rfl
  | on i ev =>
      cases ev with
      | push => exact hq.elim
      | _ => rfl

namespace ParWorker

variable {api : ConnApi H A Q K} {w w' : ParWorker H Q} {evs : List (Event H A)}

theorem sendTo_pushes {job : Job} {sent : Nat} {inp : Input H A Q K}
    (h : w.sendTo api job sent inp = .ok (w', evs)) (i : Nat) : pushesIn (evs.map (.on i)) = [] := by
  obtain ⟨rest, rfl⟩ := sendTo_log h
  have hdoes := sendTo_does h
  cases hdoes with
  | _ => rfl

theorem afterPoll_pushes (pid : ProviderId) (tsc i : Nat) (r : Except TransportError (Option Bytes)) :
    PushesIff (H := H) (A := A) (match r with | .ok (some _) => w.inflight.isSome | _ => false)
      (· = w.resultTx) ((w.afterPoll pid tsc r).2.map (.on i)) := by
  rcases r with e | found
  · refine .inr ⟨rfl, ?_⟩
    cases e with
    | io e =>
        simp only [afterPoll]
        split
        · rfl
        · rfl
    | _ => rfl
  · cases found with
    | none => exact .inr ⟨rfl, rfl⟩
    | some body =>
        cases hslot : w.inflight with
        | none =>
            simp only [afterPoll, hslot]
            exact .inr ⟨rfl, rfl⟩
        | some entry =>
            simp only [afterPoll, hslot]
            exact .inl ⟨rfl, _, _, rfl, rfl⟩

theorem reapQuic_pushes (q : QuicConn Q) (pid : ProviderId) (inp : Input H A Q K) (i : Nat) :
    PushesIff (H := H) (A := A) (!q.isDead api.quic && (q.pollNorespWindow inp.now).2.isSome)
      (· = w.resultTx) ((w.reapQuic api q pid inp).2.map (.on i)) := by
  unfold reapQuic
  cases q.isDead api.quic with
  | true => exact .inr ⟨rfl, rfl⟩
  | false =>
      rcases q.pollNorespWindow inp.now with ⟨q', _ | ⟨id, sent⟩⟩
      · exact .inr ⟨rfl, rfl⟩
      · exact .inl ⟨rfl, _, _, rfl, rfl⟩

theorem reap_pushes {pid : ProviderId} {inp : Input H A Q K}
    (h : w.reap api pid inp = .ok (w', evs)) (i : Nat) :
    PushesIff (w.hasResponse api inp) (· = w.resultTx) (evs.map (.on i)) := by
  unfold hasResponse
  rw [reap] at h
  cases hact : w.active with
  | http hc =>
      rw [hact] at h
      obtain ⟨⟨hc', r⟩, hpoll, h⟩ := bind_eq_ok.mp h
      obtain ⟨-, rfl⟩ := Prod.mk.inj (Except.ok.inj h)
      have hpushes := afterPoll_pushes (A := A) (w := w.setActive (.http hc')) pid inp.tsc i r
      simp only [hpoll]
      rcases r with e | _ | body
      · exact hpushes
      · exact hpushes
      · exact hpushes
  | quic q =>
      rw [hact] at h
      have hpushes : PushesIff (!q.isDead api.quic && (q.pollNorespWindow inp.now).2.isSome)
          (· = w.resultTx) ((w.reapQuic api q pid inp).2.map (.on i)) :=
        reapQuic_pushes q pid inp i
      rw [show w.reapQuic api q pid inp = (w', evs) from Except.ok.inj h] at hpushes
      exact hpushes

theorem step_pushes {pc pc' : Pc} {inp : Input H A Q K} {logs : List (Logged H A)}
    (h : step api (w, pc) inp = .ok ((w', pc'), logs)) :
    PushesIff (match pc with | .reap => w.settles api inp | _ => false) (· = w.resultTx) logs := by
  cases pc with
  | send job sent =>
      obtain ⟨⟨w₁, evs⟩, hsend, h⟩ := bind_eq_ok.mp h
      cases h
      exact .inr ⟨rfl, sendTo_pushes hsend _⟩
  | reap =>
      obtain ⟨⟨w₁, evs⟩, hreap, h⟩ := bind_eq_ok.mp h
      cases h
      exact reap_pushes hreap _
  | top =>
      simp only [step] at h
      split at h
      · cases h
        exact .inr ⟨rfl, rfl⟩
      · split at h
        · cases h
          exact .inr ⟨rfl, rfl⟩
        · cases h
          exact .inr ⟨rfl, rfl⟩
  | deliver idle =>
      cases h
      refine .inr ⟨rfl, ?_⟩
      rcases inp.delivered with _ | ⟨idx, c | _⟩ <;> rfl
  | tick | idle | stopped =>
      cases h
      exact .inr ⟨rfl, rfl⟩

end ParWorker

theorem SequentialWorker.step_pushes {api : ConnApi H A Q K} {s s' : SequentialWorker H Q}
    {pc pc' : Pc} {inp : Input H A Q K} {logs : List (Logged H A)} (hs : s.Sized)
    (h : step api (s, pc) inp = .ok ((s', pc'), logs)) :
    PushesIff ((Workers.sequential s pc).settles api 0 inp)
      (fun ring => ∃ i p, s.view i = some p ∧ ring = p.resultTx) logs := by
  cases step_turn hs h with
  | send job sent k hp hsend => exact .inr ⟨rfl, ParWorker.sendTo_pushes hsend k⟩
  | @reap k p p' evs hp hreap =>
      have hview := view_eq_some_iff.mpr hp
      simp only [Workers.settles, hview]
      rcases ParWorker.reap_pushes hreap k with ⟨hyes, ring, resp, rfl, hpush⟩ | hno
      · exact .inl ⟨hyes, _, resp, ⟨k, p, hview, rfl⟩, hpush⟩
      · exact .inr hno
  | reapEnd k hk =>
      have hnone : s.view k = none := by
        simp [view, List.getElem?_eq_none hk]
      simp only [Workers.settles, hnone]
      exact .inr ⟨rfl, rfl⟩
  | publish idle hpub =>
      refine .inr ⟨rfl, pushesIn_of_quiet fun e he => ?_⟩
      obtain ⟨j, slot, n, rfl⟩ := publishDiag_log hpub e he
      exact trivial
  | _ => exact .inr ⟨rfl, rfl⟩

/-- A step of any worker thread pushes one response, into the ring of a provider, or none. -/
theorem Workers.step_pushes {api : ConnApi H A Q K} {n : Nat} {kind : ConnKind} {ws ws' : Workers H Q}
    {j : Nat} {inp : Input H A Q K} {logs : List (Logged H A)} (hw : ws.Wired n kind)
    (h : ws.step api j inp = .ok (ws', logs)) :
    PushesIff (ws.settles api j inp) (· < n) logs := by
  have hring : ∀ i p, ws.view i = some p → p.resultTx < n := by
    intro i p hp
    have hends := hw.ends i p hp
    rw [hends.resultTx]
    exact hends.lt
  cases ws with
  | sequential s pc =>
      cases j with
      | succ j =>
          cases h
          cases pc <;> exact .inr ⟨rfl, rfl⟩
      | zero =>
          obtain ⟨⟨⟨s', pc'⟩, evs⟩, hstep, h⟩ := bind_eq_ok.mp h
          cases h
          rcases SequentialWorker.step_pushes (hw.sized s pc rfl) hstep with
            ⟨hyes, ring, resp, ⟨i, p, hp, rfl⟩, hpush⟩ | hno
          · exact .inl ⟨hyes, _, resp, hring i p hp, hpush⟩
          · exact .inr hno
  | parallel ws =>
      simp only [step] at h
      simp only [settles]
      cases hi : ws[j]? with
      | none =>
          rw [hi] at h
          cases h
          exact .inr ⟨rfl, rfl⟩
      | some st =>
          obtain ⟨w, pc⟩ := st
          rw [hi] at h
          obtain ⟨⟨⟨w', pc'⟩, evs⟩, hstep, h⟩ := bind_eq_ok.mp h
          cases h
          have hpushes := ParWorker.step_pushes hstep
          have hw := hring j w (congrArg (Option.map Prod.fst) hi)
          rcases hpushes with ⟨hyes, ring, resp, rfl, hpush⟩ | ⟨hno, hpush⟩
          · refine .inl ⟨?_, _, resp, hw, hpush⟩
            cases pc with
            | reap => exact hyes
            | _ => cases hyes
          · refine .inr ⟨?_, hpush⟩
            cases pc with
            | reap => exact hno
            | _ => rfl

/-! ## The sender -/

def Workers.stopped : Workers H Q → Bool
  | .sequential _ pc => pc = .stopped
  | .parallel ws => ws.all fun w => w.2 = .stopped

namespace Sender

/-- `shutdown` has returned: it set the stop flag and joined the workers, the lane and the reconnect
thread. -/
structure Down (s : Sender H Q) : Prop where
  stop : s.stop = true
  workers : s.workers.stopped = true
  lane : s.lane.pc = .stopped
  reconnect : s.reconnect.pc = .exited

instance (s : Sender H Q) : Decidable s.Down :=
  decidable_of_iff (s.stop = true ∧ s.workers.stopped = true ∧ s.lane.pc = .stopped ∧
      s.reconnect.pc = .exited)
    ⟨fun ⟨h₁, h₂, h₃, h₄⟩ => ⟨h₁, h₂, h₃, h₄⟩, fun ⟨h₁, h₂, h₃, h₄⟩ => ⟨h₁, h₂, h₃, h₄⟩⟩

/-- The sender, with a log of the responses that its rings took. -/
def recorder (api : ConnApi H A Q K) (builder : ReconnectBuilder H Q D) :
    Machine (Sender H Q) (Action H A Q K D) (Nat × RawResp) where
  step s a := do
    let (s', logs) ← step api builder s a
    pure (s', s.lane.taken (pushesIn logs))

/-- The lane leaves its loop only when nothing waits, and once it has left there is nothing to push. -/
def Drained (api : ConnApi H A Q K) (s : Sender H Q) : Action H A Q K D → Prop
  | .worker j inp => s.lane.pc = .stopped → s.workers.settles api j (s.hand j inp) = false
  | .lane sawStop =>
      s.lane.pc = .top → (sawStop && s.stop) = true → s.lane.Clear
  | _ => True

instance (api : ConnApi H A Q K) (s : Sender H Q) (a : Action H A Q K D) :
    Decidable (s.Drained api a) :=
  match a with
  | .worker j inp => inferInstanceAs (Decidable
      (s.lane.pc = .stopped → s.workers.settles api j (s.hand j inp) = false))
  | .lane sawStop => inferInstanceAs (Decidable
      (s.lane.pc = .top → (sawStop && s.stop) = true → s.lane.Clear))
  | .take | .finish _ | .exit | .shutdown => isTrue trivial

/-- Nothing is left behind by a lane that has stopped. -/
def Cleared (s : Sender H Q) : Prop := s.lane.pc = .stopped → s.lane.Clear

section Step

variable {n : Nat} {kind : ConnKind} {cs : List Codec} {s s' : Sender H Q} {api : ConnApi H A Q K}
  {connectOne : Nat → D → Exec (Except SenderError (Built H Q))} {log taken : List (Nat × RawResp)}

theorem recorder_step {builder : ReconnectBuilder H Q D} {a : Action H A Q K D}
    (h : (recorder api builder).step s a = .ok (s', taken)) :
    ∃ logs, step api builder s a = .ok (s', logs) ∧ taken = s.lane.taken (pushesIn logs) := by
  obtain ⟨⟨s₁, logs⟩, hstep, h⟩ := bind_eq_ok.mp h
  obtain ⟨rfl, rfl⟩ := Prod.mk.inj (Except.ok.inj h)
  exact ⟨logs, hstep, rfl⟩

/-- Its runs are those of the sender. -/
theorem recorder_run {builder : ReconnectBuilder H Q D} {actions : List (Action H A Q K D)} :
    (∃ taken, (recorder api builder).run s actions = .ok (s', taken)) ↔
      ∃ logs, (machine api builder).run s actions = .ok (s', logs) := by
  induction actions generalizing s with
  | nil => exact ⟨fun ⟨_, h⟩ => ⟨[], by cases h; rfl⟩, fun ⟨_, h⟩ => ⟨[], by cases h; rfl⟩⟩
  | cons a actions ih =>
      constructor
      · rintro ⟨_, h⟩
        obtain ⟨s₁, taken, rest, hone, hrest, rfl⟩ := Machine.run_cons_eq_ok.mp h
        obtain ⟨logs, hstep, -⟩ := recorder_step hone
        obtain ⟨rest', hrest'⟩ := ih.mp ⟨rest, hrest⟩
        exact ⟨_, Machine.run_cons_eq_ok.mpr ⟨s₁, logs, rest', hstep, hrest', rfl⟩⟩
      · rintro ⟨_, h⟩
        obtain ⟨s₁, logs, rest, hstep, hrest, rfl⟩ := Machine.run_cons_eq_ok.mp h
        have hone : (recorder api builder).step s a = .ok (s₁, s.lane.taken (pushesIn logs)) := by
          show step api builder s a >>= _ = _
          rw [show step api builder s a = .ok (s₁, logs) from hstep]
          rfl
        obtain ⟨rest', hrest'⟩ := ih.mpr ⟨rest, hrest⟩
        exact ⟨_, Machine.run_cons_eq_ok.mpr ⟨s₁, _, rest', hone, hrest', rfl⟩⟩

theorem drained_of_other {a : Action H A Q K D} (hworker : ∀ j inp, a ≠ .worker j inp)
    (hlane : ∀ sawStop, a ≠ .lane sawStop) : s.Drained api a := by
  cases a with
  | worker j inp => exact absurd rfl (hworker j inp)
  | lane sawStop => exact absurd rfl (hlane sawStop)
  | _ => trivial

/-- The lane's accounts are kept by every step of every thread. -/
theorem accounted_step {builder : ReconnectBuilder H Q D} {a : Action H A Q K D}
    (hacc : s.lane.Accounted cs log) (h : (recorder api builder).step s a = .ok (s', taken)) :
    s'.lane.Accounted cs (log ++ taken) := by
  obtain ⟨logs, hstep, rfl⟩ := recorder_step h
  rcases step_cases hstep with ⟨j, inp, -, -, hlane⟩ |
    ⟨rfl, -, -, ⟨sawStop, -, hlane⟩ | ⟨hlane, -⟩⟩
  · rw [hlane]
    exact hacc.pushes _
  · show s'.lane.Accounted cs (log ++ [])
    rw [List.append_nil]
    exact hacc.step hlane
  · show s'.lane.Accounted cs (log ++ [])
    rw [hlane, List.append_nil]
    exact hacc

/-- A push behind a stopped lane stays in its ring. -/
theorem cleared_worker (hw : s.workers.Wired n kind) (hlen : s.lane.rings.length = n)
    (hclear : s.Cleared) {j : Nat} {inp : Input H A Q K} {logs : List (Logged H A)}
    (hstep : s.workers.step api j (s.hand j inp) = .ok (s'.workers, logs))
    (hlane : s'.lane = (pushesIn logs).foldl (fun l x => l.push x.1 x.2) s.lane) :
    s'.Cleared ↔ s.Drained (D := D) api (.worker j inp) := by
  have hpc : s'.lane.pc = s.lane.pc := by
    rw [hlane]
    exact ResultLane.pushes_pc _ _
  unfold Cleared Drained
  rw [hpc]
  refine forall_congr' fun hstopped => ?_
  rcases Workers.step_pushes hw hstep with ⟨hyes, ring, resp, hring, hpush⟩ | ⟨hno, hpush⟩
  · -- the ring was empty, so it takes the response, and nobody will pop it
    rw [hpush] at hlane
    have htaken := (hclear hstopped).accepts (hlen.symm ▸ hring)
    rw [hlane, hyes]
    exact iff_of_false (ResultLane.not_clear_push htaken) (by decide)
  · rw [hpush] at hlane
    rw [hlane, hno]
    exact iff_of_true (hclear hstopped) rfl

theorem cleared_lane (hclear : s.Cleared) {sawStop : Bool}
    (hlane : s.lane.step (sawStop && s.stop) = .ok s'.lane) :
    s'.Cleared ↔ s.Drained (A := A) (K := K) (D := D) api (.lane sawStop) := by
  unfold Cleared Drained
  rcases ResultLane.step_cases hlane with ⟨hpc, heq⟩ | ⟨i, resp, rest, codec, hpc, -, -, heq⟩ |
    ⟨i, pc, hpc, hne, heq⟩ | ⟨hpc, heq⟩
  · rw [heq, hpc]
    cases hstop : sawStop && s.stop with
    | true => exact ⟨fun h _ _ => h rfl, fun h _ => h rfl hstop⟩
    | false =>
        refine iff_of_true (fun h => (by cases h)) fun _ h => ?_
        cases hstop.symm.trans h
  · rw [heq, hpc]
    exact iff_of_true (fun h => (by cases h)) (fun h => (by cases h))
  · rw [heq, hpc]
    exact iff_of_true (fun h => absurd h hne) (fun h => (by cases h))
  · rw [heq, hpc]
    exact iff_of_true (fun _ => hclear hpc) (fun h => (by cases h))

/-- **One step.** It leaves nothing behind a stopped lane exactly when it is drained. -/
theorem cleared_step (hw : s.workers.Wired n kind) (hlen : s.lane.rings.length = n)
    (hclear : s.Cleared) {builder : ReconnectBuilder H Q D} {a : Action H A Q K D}
    {logs : List (Logged H A)} (h : step api builder s a = .ok (s', logs)) :
    s'.Cleared ↔ s.Drained api a := by
  rcases step_cases h with ⟨j, inp, rfl, hstep, hlane⟩ |
    ⟨-, -, hworker, ⟨sawStop, rfl, hlane⟩ | ⟨hlane, hother⟩⟩
  · exact cleared_worker hw hlen hclear hstep hlane
  · exact cleared_lane hclear hlane
  · refine iff_of_true ?_ (drained_of_other hworker hother)
    unfold Cleared
    rw [hlane]
    exact hclear

/-- What is left behind a stopped lane stays there. -/
theorem cleared_before {builder : ReconnectBuilder H Q D} {a : Action H A Q K D}
    {logs : List (Logged H A)} (h : step api builder s a = .ok (s', logs)) (hclear : s'.Cleared) :
    s.Cleared := by
  intro hpc
  rcases step_cases h with ⟨j, inp, -, -, hlane⟩ | ⟨-, -, -, ⟨sawStop, -, hlane⟩ | ⟨hlane, -⟩⟩
  · have hpc' : s'.lane.pc = .stopped := by
      rw [hlane, ResultLane.pushes_pc]
      exact hpc
    have hsame := hclear hpc'
    rw [hlane] at hsame
    rwa [ResultLane.pushes_of_clear hsame] at hsame
  · rw [ResultLane.step, hpc] at hlane
    unfold Cleared at hclear
    rw [← Except.ok.inj hlane] at hclear
    exact hclear hpc
  · unfold Cleared at hclear
    rw [hlane] at hclear
    exact hclear hpc

end Step

end Sender

/-- **Shutdown.** In every run of a sender that `build` made which ends with `shutdown` returning, the
sink got for each provider exactly the outcomes of the responses its ring took, in order, if and only
if the lane left with its rings empty and no worker had a response to push after that. -/
theorem results_survive_iff {api : ConnApi H A Q K} {b : SenderBuilder}
    {connectOne : Nat → D → Exec (Except SenderError (Built H Q))} {ds : Nat → D × D}
    {s₀ s : Sender H Q} {actions : List (Action H A Q K D)} {log : List (Nat × RawResp)}
    (hbuild : b.build connectOne ds = .ok (.ok s₀))
    (hrun : (Sender.recorder api (engineReconnectBuilder connectOne)).run s₀ actions = .ok (s, log))
    (hdown : s.Down) :
    (∀ (i : Nat) cfg, b.providers[i]? = some cfg →
      s.lane.outcomes i = (ResultLane.pushedTo i log).map (parseOne · cfg.codec)) ↔
      (Sender.recorder api (engineReconnectBuilder connectOne)).Guarded
        (fun s _ a => s.Drained api a) s₀ [] actions := by
  obtain ⟨engine, -, hw, -, -, hlane⟩ := build_spec hbuild
  let codecs := b.providers.map ProviderConfig.codec
  let made := fun i (c : Built H Q) => ∃ d, connectOne i d = .ok (.ok c)
  let Inv := fun (s : Sender H Q) (log : List (Nat × RawResp)) =>
    s.Wired b.providers.length engine.connKind made ∧ s.lane.Accounted codecs log
  have hinv : Inv s₀ [] := by
    refine ⟨hw, ?_⟩
    rw [hlane]
    exact ResultLane.accounted_new
  have hkeep : ∀ s log a s' taken, Inv s log →
      (Sender.recorder api (engineReconnectBuilder connectOne)).step s a = .ok (s', taken) →
      Inv s' (log ++ taken) := by
    rintro s log a s' taken ⟨hw, hacc⟩ hone
    obtain ⟨logs, hstep, -⟩ := Sender.recorder_step hone
    exact ⟨Sender.wired_step hw hstep, Sender.accounted_step hacc hone⟩
  have hend : Inv s log := Machine.run_invariant _ Inv hinv hkeep hrun
  -- the outcomes are complete when nothing waits, and at the end the lane has stopped
  have hsettled : (∀ (i : Nat) cfg, b.providers[i]? = some cfg →
      s.lane.outcomes i = (ResultLane.pushedTo i log).map (parseOne · cfg.codec)) ↔ s.Cleared := by
    have hiff := hend.2.settled_iff
    unfold Sender.Cleared
    rw [← hiff]
    constructor
    · intro hall _ i codec hcodec
      rw [List.getElem?_map] at hcodec
      obtain ⟨cfg, hcfg, rfl⟩ := Option.map_eq_some_iff.mp hcodec
      exact hall i cfg hcfg
    · intro hall i cfg hcfg
      apply hall hdown.lane
      rw [List.getElem?_map, hcfg]
      rfl
  -- what waits behind a stopped lane waits for ever, so the end of the run tells about all of it
  have hback : ∀ (s : Sender H Q) (_ : List (Nat × RawResp)) a s' taken,
      (Sender.recorder api (engineReconnectBuilder connectOne)).step s a = .ok (s', taken) →
      s'.Cleared → s.Cleared := by
    intro s _ a s' taken hone hclear
    obtain ⟨logs, hstep, -⟩ := Sender.recorder_step hone
    exact Sender.cleared_before hstep hclear
  have halways : Machine.Always _ (fun s _ => s.Cleared) s₀ [] actions ↔ s.Cleared :=
    Machine.always_iff_end _ (fun s _ => s.Cleared) hback hrun
  rw [hsettled, ← halways]
  apply Machine.always_iff_guarded _ Inv _ _ _ hinv
  · intro hpc
    rw [hlane] at hpc
    cases hpc
  · intro s log a s' taken hinv hclear hone
    obtain ⟨logs, hstep, -⟩ := Sender.recorder_step hone
    have hlen : s.lane.rings.length = b.providers.length :=
      hinv.2.length.trans (List.length_map _)
    exact ⟨hkeep s log a s' taken hinv hone, Sender.cleared_step hinv.1.workers hlen hclear hstep⟩

/-! ## A job that is answered just before the end -/

/-- A job is sent and answered. -/
def answeredJob : List (Action (HttpConn RawConn Bytes) RawAnswer (QuicEngine Bool) Bool Bool) :=
  let base := Input.quiet RawAnswer.silent false
  (ParWorker.jobRound base ⟨1, 0⟩ 10 { base with call := .takes 90 }
    { base with call := .arrives okResponse.bytes }).map (.worker 0)

/-- The stop flag is set, and the lane, the worker and the reconnect thread see it. -/
def goDown : List (Action (HttpConn RawConn Bytes) RawAnswer (QuicEngine Bool) Bool Bool) :=
  [.shutdown, .lane true, .worker 0 { Input.quiet RawAnswer.silent false with stop := true }, .exit]

def oneProvider : List ProviderConfig := [bareProvider (.accepted "signature")]

def bareRecorder : Machine (Sender (HttpConn RawConn Bytes) (QuicEngine Bool))
    (Action (HttpConn RawConn Bytes) RawAnswer (QuicEngine Bool) Bool Bool) (Nat × RawResp) :=
  Sender.recorder (rawApi plainTls (quinnApi flagQuinn))
    (engineReconnectBuilder (bareConnectOne oneProvider))

/-- The lane goes round once before the flag is set. -/
def drainedDown : List (Action (HttpConn RawConn Bytes) RawAnswer (QuicEngine Bool) Bool Bool) :=
  answeredJob ++ List.replicate 4 (.lane false) ++ goDown

theorem results_survive_iff_drained :
    ∃ s₀ s log, (bareSender .parRaw oneProvider).build (bareConnectOne oneProvider)
        (fun _ => (true, true)) = .ok (.ok s₀) ∧
      bareRecorder.run s₀ drainedDown = .ok (s, log) ∧ s.Down ∧
      (ResultLane.pushedTo 0 log).map (·.job) = [1] ∧
      ∀ (i : Nat) cfg, oneProvider[i]? = some cfg →
        s.lane.outcomes i = (ResultLane.pushedTo i log).map (parseOne · cfg.codec) := by
  obtain ⟨s₀, hbuild, hguarded, out, hout, hdown, hpushed⟩ :=
    exists_built (bareSender .parRaw oneProvider) (bareConnectOne oneProvider) (fun _ => (true, true))
    (fun s₀ => bareRecorder.Guarded
        (fun s _ a => s.Drained (rawApi plainTls (quinnApi flagQuinn)) a) s₀ [] drainedDown ∧
      ∃ out ∈ (bareRecorder.run s₀ drainedDown).toOption,
        out.1.Down ∧ (ResultLane.pushedTo 0 out.2).map (·.job) = [1])
    (by decide +kernel)
  have hrun := eq_ok_of_mem_toOption hout
  exact ⟨s₀, out.1, out.2, hbuild, hrun, hdown, hpushed,
    (results_survive_iff hbuild hrun hdown).mpr hguarded⟩

/-- The lane sees the stop flag right after the answer was pushed: the sink never gets it. -/
theorem answer_lost_at_shutdown :
    ∃ s₀ s log, (bareSender .parRaw oneProvider).build (bareConnectOne oneProvider)
        (fun _ => (true, true)) = .ok (.ok s₀) ∧
      bareRecorder.run s₀ (answeredJob ++ goDown) = .ok (s, log) ∧ s.Down ∧
      (ResultLane.pushedTo 0 log).map (·.job) = [1] ∧ s.lane.outcomes 0 = [] := by
  obtain ⟨s₀, hbuild, out, hout, hdown, hpushed, hnone⟩ :=
    exists_built (bareSender .parRaw oneProvider)
    (bareConnectOne oneProvider) (fun _ => (true, true))
    (fun s₀ => ∃ out ∈ (bareRecorder.run s₀ (answeredJob ++ goDown)).toOption,
      out.1.Down ∧ (ResultLane.pushedTo 0 out.2).map (·.job) = [1] ∧ out.1.lane.outcomes 0 = [])
    (by decide +kernel)
  exact ⟨s₀, out.1, out.2, hbuild, eq_ok_of_mem_toOption hout, hdown, hpushed, hnone⟩

end TxSender.Transport
