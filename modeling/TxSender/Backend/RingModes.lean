/-
# TxSender.Backend.RingModes — the two modes push the same sends.

`SqeStream` pushes a send in the call that stages it, `BatchSyscall` in a later one. If no submission
fails, the sends pushed and those waiting are those staged, in that order (`SendOk.order`), and a `drive`
that has returned leaves none waiting; so after a `drive` both modes have pushed what the calls
submitted. That such runs exist is shown by letting the kernel take what it is given: then every call
returns.
-/
import TxSender.Backend.RingSend

namespace TxSender.Backend

open TxSender.Lib

namespace IoUring

/-! ## Calls -/

def begunBy : Event → Option Op
  | .began op => some op
  | _ => none

/-- The calls made. -/
def calls (log : List Event) : List Op := log.filterMap begunBy

/-- The sends that the calls submit, numbered from `n` on. -/
def submittedFrom (n : Nat) : List Op → List Sqe
  | [] => []
  | .submit c .stream bytes :: ops => .send c n bytes :: submittedFrom (n + 1) ops
  | _ :: ops => submittedFrom n ops

def failsEnter : Event → Bool
  | .enterFailed _ => true
  | _ => false

theorem calls_append (l l' : List Event) : calls (l ++ l') = calls l ++ calls l' := List.filterMap_append

theorem submittedFrom_append (n : Nat) (l l' : List Op) :
    submittedFrom n (l ++ l') = submittedFrom n l ++ submittedFrom (n + (submittedFrom n l).length) l' := by
  induction l generalizing n with
  | nil => rfl
  | cons op ops ih =>
      cases op with
      | submit c kind bytes =>
          cases kind with
          | datagram => exact ih n
          | stream =>
              simp only [List.cons_append, submittedFrom, List.length_cons, ih]
              rw [Nat.add_assoc, Nat.add_comm 1]
      | pollRecv | drive => exact ih n

/-- No buffer is submitted twice. -/
theorem nodup_submittedFrom (n : Nat) (ops : List Op) : (submittedFrom n ops).Nodup := by
  have hge : ∀ (ops : List Op) (n : Nat) (c : Idx) (buf : Nat) (bytes : Bytes),
      Sqe.send c buf bytes ∈ submittedFrom n ops → n ≤ buf := by
    intro ops
    induction ops with
    | nil => exact nofun
    | cons op ops ih =>
        intro n c buf bytes hmem
        cases op with
        | submit d kind bytes' =>
            cases kind with
            | datagram => exact ih n c buf bytes hmem
            | stream =>
                obtain heq | hmem := List.mem_cons.mp hmem
                · cases heq
                  exact Nat.le_refl n
                · exact Nat.le_of_succ_le (ih (n + 1) c buf bytes hmem)
        | pollRecv | drive => exact ih n c buf bytes hmem
  induction ops generalizing n with
  | nil => exact List.nodup_nil
  | cons op ops ih =>
      cases op with
      | submit c kind bytes =>
          cases kind with
          | datagram => exact ih n
          | stream =>
              refine List.nodup_cons.mpr ⟨fun hmem => ?_, ih (n + 1)⟩
              have hle := hge ops (n + 1) c n bytes hmem
              omega
      | pollRecv | drive => exact ih n

theorem calls_reap (r : IoUring) : calls r.reap.2 = [] := by
  refine List.filterMap_eq_nil_iff.mpr fun e he => ?_
  obtain ⟨key, rfl⟩ := reapAll_events r r.cq he
  rfl

theorem calls_fails (e : IoError) (call : Call) : calls (fails e call) = [] := by
  cases call <;> rfl

theorem calls_reclaim (r : IoUring) (c : Idx) : calls (r.reclaimSends c).2 = [] := by
  unfold reclaimSends
  simp only
  split <;> rfl

/-- What the calls of a step submit is staged. -/
theorem Turn.staged {r r' : IoUring} {evs : List Event} (h : Turn r evs r') :
    stagedSends evs = submittedFrom r.staged (calls evs) := by
  cases h with
  | retried =>
      rw [calls_reap, (idle_sends (idle_reap _)).1]
      rfl
  | @gaveUp entry loop call errno =>
      have hcalls := calls_fails (IoError.fromRawOsError errno.val) call
      have hstaged := (idle_sends (idle_fails (IoError.fromRawOsError errno.val) call)).1
      exact hstaged.trans (congrArg (submittedFrom r.staged) hcalls).symm
  | @unflushed call errno =>
      have hcalls := calls_fails (IoError.fromRawOsError errno.val) call
      have hstaged := (idle_sends (idle_fails (IoError.fromRawOsError errno.val) call)).1
      exact hstaged.trans (congrArg (submittedFrom r.staged) hcalls).symm
  | driven =>
      rw [calls_append, calls_reap, stagedSends_append, (idle_sends (idle_reap _)).1]
      rfl
  | polled =>
      rw [calls_append, calls_append, calls_reap, calls_reclaim, stagedSends_append, stagedSends_append,
        (idle_sends (idle_reap _)).1, (idle_sends (idle_reclaim _ _)).1]
      rfl
  | _ => rfl

/-! ## What a `drive` leaves -/

/-- A `drive` that has returned leaves nothing pending, unless a submission failed. -/
def Drained (r : IoUring) (log : List Event) : Prop :=
  r.pc = .idle → (calls log).getLast? = some .drive → (∀ e ∈ log, failsEnter e = false) → r.pending = []

theorem Drained.keep {r r' : IoUring} {log evs : List Event} (h : Drained r log) (hcalls : calls evs = [])
    (hpc : r'.pc = .idle → r.pc = .idle) (hpending : r'.pending = r.pending) :
    Drained r' (log ++ evs) := by
  intro hidle hlast hok
  rw [calls_append, hcalls, List.append_nil] at hlast
  rw [hpending]
  exact h (hpc hidle) hlast fun e he => hok e (List.mem_append_left _ he)

theorem Drained.of_ne {r : IoUring} {log : List Event} (h : r.pc ≠ .idle) : Drained r log :=
  fun hidle => absurd hidle h

/-- Another call has begun. -/
theorem Drained.of_calls {r : IoUring} {log evs : List Event} {op : Op} (hcalls : calls evs = [op])
    (hop : op ≠ .drive) : Drained r (log ++ evs) := by
  intro _ hlast
  rw [calls_append, hcalls, List.getLast?_concat] at hlast
  exact absurd (Option.some.inj hlast) hop

theorem Drained.of_fails {r : IoUring} {log evs : List Event} {errno : Errno}
    (hmem : .enterFailed errno ∈ evs) : Drained r (log ++ evs) := by
  intro _ _ hok
  cases hok _ (List.mem_append_right _ hmem)

theorem driveInner_ne_idle (r : IoUring) (call : Call) : (r.driveInner call).pc ≠ .idle := by
  obtain ⟨pc, heq, hpc⟩ := driveInner_eq r call
  rw [heq]
  obtain rfl | rfl := hpc <;> simp

theorem afterPush_ne_idle {r : IoUring} {entry : Sqe} {call : Call} (hfits : r.PcFits)
    (hpc : r.pc = .push entry .pushSqe call) :
    ({ r with sq := r.sq ++ [entry] }.afterPush call).pc ≠ .idle := by
  cases call with
  | submit c => simp [afterPush]
  | pollRecv c cap => exact driveInner_ne_idle _ _
  | drive =>
      simp only [PcFits, hpc] at hfits
      cases entry <;> cases hfits

theorem Drained.turn {r r' : IoUring} {log evs : List Event} (h : Drained r log) (hrecv : RecvOk r log)
    (hsend : SendOk r log) (hturn : Turn r evs r') : Drained r' (log ++ evs) := by
  cases hturn with
  | stay | connected | slept | sent | received | recvFailed => exact h.keep rfl id rfl
  | took =>
      obtain ⟨sq, taken, heq, -⟩ := takeOne_eq r
      rw [heq]
      exact h.keep rfl id rfl
  | unsupported | queued => exact .of_calls rfl (by simp)
  | submitting | asking | drained | noRoom | retried | popped | drainedAll | flushed =>
      exact .of_ne (by simp)
  | polling | driving => exact .of_ne (driveInner_ne_idle _ _)
  | pushed hpc => exact .of_ne (afterPush_ne_idle hrecv.pc hpc)
  | gaveUp | unflushed => exact .of_fails List.mem_cons_self
  | submitted hpc hflush =>
      obtain ⟨sq, taken, rfl, -⟩ := hflush.eq
      exact fun _ _ _ => hsend.emptied (by rw [hpc]; trivial)
  | driven hpc =>
      intro _ _ _
      rw [reap_pending]
      exact hsend.emptied (by rw [hpc]; trivial)
  | polled hpc hresult =>
      intro _ _ _
      obtain ⟨recvs, flag, rfl⟩ := pollResult_eq hresult
      obtain ⟨sends, inFlight, hclaim⟩ := reclaimSends_eq r.reap.1 _
      rw [hclaim]
      exact (reap_pending r).trans (hsend.emptied (by rw [hpc]; trivial))

/-! ## After a `drive` -/

/-- A run that makes exactly these calls: all have returned, and no submission failed. -/
structure Completes (mode : IoUringMode) (sqpoll : Bool) (ops : List Op) (s : IoUring)
    (log : List Event) : Prop where
  run : ∃ actions, machine.run (start mode sqpoll) actions = .ok (s, log)
  made : calls log = ops
  idle : s.pc = .idle
  ok : ∀ e ∈ log, failsEnter e = false

structure Tracked (r : IoUring) (log : List Event) : Prop where
  recvs : RecvOk r log
  sends : SendOk r log
  drained : Drained r log
  staged : stagedSends log = submittedFrom 0 (calls log)
  /-- a send is given up only when a submission fails -/
  kept : (∀ e ∈ log, failsEnter e = false) → droppedSends log = []

theorem length_keys {entries : List Sqe} (h : ∀ entry ∈ entries, entry.isSend = true) :
    (keys entries).length = entries.length := by
  induction entries with
  | nil => rfl
  | cons entry entries ih =>
      have hsend := h entry List.mem_cons_self
      cases entry with
      | send c buf bytes =>
          exact congrArg (· + 1) (ih fun e he => h e (List.mem_cons_of_mem _ he))
      | recv c => cases hsend

theorem SendOk.length_staged {r : IoUring} {log : List Event} (h : SendOk r log) :
    (stagedSends log).length = r.staged := by
  have hsends : ∀ entry ∈ stagedSends log, entry.isSend = true := by
    intro entry hentry
    obtain ⟨e, -, he⟩ := List.mem_filterMap.mp hentry
    unfold stagedBy at he
    split at he
    · cases he
      rfl
    · cases he
  rw [← length_keys hsends, ← List.length_map, h.numbers, List.length_range]

theorem Tracked.turn {r r' : IoUring} {log evs : List Event} (h : Tracked r log) (hturn : Turn r evs r') :
    Tracked r' (log ++ evs) where
  recvs := h.recvs.turn hturn
  sends := h.sends.turn h.recvs.pc hturn
  drained := h.drained.turn h.recvs h.sends hturn
  staged := by
    rw [stagedSends_append, calls_append, submittedFrom_append, ← h.staged, h.sends.length_staged,
      Nat.zero_add, hturn.staged]
  kept hok := by
    have hevs : droppedSends evs = [] := by
      refine hturn.drops.resolve_right ?_
      rintro ⟨-, errno, hmem⟩
      cases hok _ (List.mem_append_right _ hmem)
    rw [droppedSends_append, h.kept fun e he => hok e (List.mem_append_left _ he), hevs]
    rfl

theorem tracked_start (mode : IoUringMode) (sqpoll : Bool) : Tracked (start mode sqpoll) [] where
  recvs := recvOk_start mode sqpoll
  sends := sendOk_start mode sqpoll
  drained _ _ _ := rfl
  staged := rfl
  kept _ := rfl

/-- After a `drive`, all that was submitted is pushed. -/
theorem Completes.pushed {mode : IoUringMode} {sqpoll : Bool} {ops : List Op} {s : IoUring}
    {log : List Event} (h : Completes mode sqpoll (ops ++ [.drive]) s log) :
    pushedSends log = submittedFrom 0 ops := by
  obtain ⟨actions, hrun⟩ := h.run
  have htracked := machine.run_invariant Tracked (tracked_start mode sqpoll)
    (fun _ _ _ _ _ hinv hone => hinv.turn (step_turn hone)) hrun
  have hpending : s.pending = [] := by
    refine htracked.drained h.idle ?_ h.ok
    rw [h.made, List.getLast?_concat]
  have hwaiting : s.waiting = [] := by
    rw [waiting, h.idle, hpending]
    rfl
  have hall := htracked.sends.all.length_eq
  have horder := htracked.sends.order
  rw [hwaiting, htracked.kept h.ok, List.append_nil, List.append_nil] at hall
  rw [hwaiting, List.append_nil] at horder
  rw [horder.eq_of_length hall, htracked.staged, h.made, submittedFrom_append]
  exact List.append_nil _

/-! ## Calls return -/

/-- An event of a call that goes on without a failure. -/
def calm : Event → Bool
  | .began _ | .enterFailed _ => false
  | _ => true

/-- The parts of a ring that no call changes. -/
structure SameRing (r r' : IoUring) : Prop where
  sqpoll : r'.sqpoll = r.sqpoll
  awake : r'.awake = r.awake
  nextIdx : r'.nextIdx = r.nextIdx

theorem SameRing.trans {r r₁ r₂ : IoUring} (h : SameRing r r₁) (h' : SameRing r₁ r₂) : SameRing r r₂ :=
  ⟨h'.sqpoll.trans h.sqpoll, h'.awake.trans h.awake, h'.nextIdx.trans h.nextIdx⟩

theorem sameRing_reap (r : IoUring) : SameRing r r.reap.1 := by
  obtain ⟨sends, recvs, heq⟩ := reap_eq r
  rw [heq]
  exact ⟨rfl, rfl, rfl⟩

theorem sameRing_takes (r : IoUring) (n : Nat) : SameRing r (r.takes n) := by
  obtain ⟨sq, taken, heq, -⟩ := takes_eq r n
  rw [heq]
  exact ⟨rfl, rfl, rfl⟩

theorem sameRing_driveInner (r : IoUring) (call : Call) : SameRing r (r.driveInner call) := by
  obtain ⟨pc, heq, -⟩ := driveInner_eq r call
  rw [heq]
  exact ⟨rfl, rfl, rfl⟩

/-- The caller comes from `r` to `r'`, with a kernel that takes what it is given. -/
def Comes (r r' : IoUring) : Prop :=
  SameRing r r' ∧ ∃ actions evs, machine.run r actions = .ok (r', evs) ∧ ∀ e ∈ evs, calm e = true

/-- A state of a run in which the polling thread, if there is one, is awake. -/
structure Live (r : IoUring) : Prop where
  recvs : ∃ log, RecvOk r log
  awake : r.sqpoll = true → r.awake = true

theorem Comes.refl (r : IoUring) : Comes r r := ⟨⟨rfl, rfl, rfl⟩, [], [], rfl, nofun⟩

theorem Comes.trans {r r₁ r₂ : IoUring} (h : Comes r r₁) (h' : Comes r₁ r₂) : Comes r r₂ := by
  obtain ⟨hsame, actions, evs, hrun, hcalm⟩ := h
  obtain ⟨hsame', actions', evs', hrun', hcalm'⟩ := h'
  refine ⟨hsame.trans hsame', actions ++ actions', evs ++ evs', Machine.run_append hrun hrun',
    fun e he => ?_⟩
  obtain he | he := List.mem_append.mp he
  · exact hcalm e he
  · exact hcalm' e he

theorem Comes.of_step {r r' : IoUring} {a : Action} {evs : List Event} (h : r.step a = .ok (r', evs))
    (hcalm : ∀ e ∈ evs, calm e = true) (hsame : SameRing r r') : Comes r r' :=
  ⟨hsame, [a], evs, Machine.run_cons_eq_ok.mpr ⟨r', evs, [], h, rfl, (List.append_nil _).symm⟩, hcalm⟩

theorem recvOk_of_run {r r' : IoUring} {log evs : List Event} {actions : List Action} (h : RecvOk r log)
    (hrun : machine.run r actions = .ok (r', evs)) : RecvOk r' (log ++ evs) := by
  refine machine.run_invariant (fun s evs => RecvOk s (log ++ evs)) ?_ ?_ hrun
  · rwa [List.append_nil]
  · intro s evs₁ a s' evs₂ hinv hone
    rw [← List.append_assoc]
    exact hinv.turn (step_turn hone)

theorem Comes.live {r r' : IoUring} (h : Comes r r') (hlive : Live r) : Live r' := by
  obtain ⟨hsame, actions, evs, hrun, -⟩ := h
  obtain ⟨log, hrecv⟩ := hlive.recvs
  refine ⟨⟨log ++ evs, recvOk_of_run hrecv hrun⟩, ?_⟩
  rw [hsame.sqpoll, hsame.awake]
  exact hlive.awake

theorem calm_reap (r : IoUring) : ∀ e ∈ r.reap.2, calm e = true := by
  intro e he
  obtain ⟨key, rfl⟩ := reapAll_events r r.cq he
  rfl

theorem calm_reclaim (r : IoUring) (c : Idx) : ∀ e ∈ (r.reclaimSends c).2, calm e = true := by
  unfold reclaimSends
  simp only
  split <;> simp [calm]

/-- The present call returns. -/
def Returns (r : IoUring) : Prop := ∃ r', Comes r r' ∧ r'.pc = .idle

theorem Returns.after {r r₁ : IoUring} (h : Comes r r₁) (hreturns : Returns r₁) : Returns r := by
  obtain ⟨r', hcomes, hidle⟩ := hreturns
  exact ⟨r', h.trans hcomes, hidle⟩

/-- The last `reap` of a call that is no `poll_recv`. -/
theorem returns_driven {r : IoUring} {call : Call} (hpc : r.pc = .reap call)
    (hcall : ∀ c cap, call ≠ .pollRecv c cap) : Returns r := by
  have hstep : r.step (.caller (.ok 0)) =
      .ok ({ r.reap.1 with pc := .idle }, r.reap.2 ++ [.driveReturned (.ok ())]) := by
    cases call with
    | pollRecv c cap => exact absurd rfl (hcall c cap)
    | submit | drive => simp only [step, advance, hpc]
  have hsame := sameRing_reap r
  refine ⟨_, .of_step hstep ?_ ⟨hsame.sqpoll, hsame.awake, hsame.nextIdx⟩, rfl⟩
  intro e he
  obtain he | he := List.mem_append.mp he
  · exact calm_reap r e he
  · rw [List.mem_singleton.mp he]
    rfl

theorem returns_polled {r : IoUring} (hlive : Live r) {c : Idx} {cap : Nat}
    (hpc : r.pc = .reap (.pollRecv c cap)) : Returns r := by
  obtain ⟨log, hrecv⟩ := hlive.recvs
  obtain ⟨⟨r₂, res⟩, hresult⟩ := (hrecv.reclaimed hpc c).1.pollResult_ok c cap
  have hstep : r.step (.caller (.ok 0)) = .ok ({ r₂ with pc := .idle },
      r.reap.2 ++ ((r.reap.1.reclaimSends c).2 ++ [.pollReturned c cap res])) := by
    simp only [step, advance, hpc, hresult]
    rfl
  have hsame : SameRing r { r₂ with pc := .idle } := by
    obtain ⟨recvs, flag, rfl⟩ := pollResult_eq hresult
    obtain ⟨sends, inFlight, hclaim⟩ := reclaimSends_eq r.reap.1 c
    obtain ⟨sends', recvs', hreap⟩ := reap_eq r
    rw [hclaim, hreap]
    exact ⟨rfl, rfl, rfl⟩
  refine ⟨_, .of_step hstep ?_ hsame, rfl⟩
  intro e he
  obtain he | he := List.mem_append.mp he
  · exact calm_reap r e he
  · obtain he | he := List.mem_append.mp he
    · exact calm_reclaim _ c e he
    · rw [List.mem_singleton.mp he]
      rfl

theorem returns_reap {r : IoUring} (hlive : Live r) {call : Call} (hpc : r.pc = .reap call) :
    Returns r := by
  cases call with
  | pollRecv c cap => exact returns_polled hlive hpc
  | submit | drive => exact returns_driven hpc (by simp)

theorem flushSubmit_zero (r : IoUring) : r.flushSubmit (.ok 0) = .ok r := by
  unfold flushSubmit
  split <;> rfl

theorem comes_flush {r : IoUring} {call : Call} (hpc : r.pc = .flush call)
    (hcall : ∀ c, call ≠ .submit c) : Comes r { r with pc := .reap call } := by
  have hstep : r.step (.caller (.ok 0)) = .ok ({ r with pc := .reap call }, []) := by
    cases call with
    | submit c => exact absurd rfl (hcall c)
    | pollRecv | drive => simp only [step, advance, hpc, flushSubmit_zero]
  exact .of_step hstep (List.forall_mem_nil _) ⟨rfl, rfl, rfl⟩

theorem returns_flush {r : IoUring} (hlive : Live r) {call : Call} (hpc : r.pc = .flush call) :
    Returns r := by
  cases call with
  | submit c =>
      have hstep : r.step (.caller (.ok 0)) =
          .ok ({ r with pc := .idle }, [.submitReturned c (.ok ())]) := by
        simp only [step, advance, hpc, flushSubmit_zero]
      exact ⟨_, .of_step hstep (by simp [calm]) ⟨rfl, rfl, rfl⟩, rfl⟩
  | pollRecv | drive =>
      have hcomes := comes_flush hpc (by simp)
      exact .after hcomes (returns_reap (hcomes.live hlive) rfl)

/-! ### Room in the queue -/

theorem takes_sq (r : IoUring) (n : Nat) : (r.takes n).sq = r.sq.drop n := by
  induction n generalizing r with
  | zero => rfl
  | succ n ih =>
      rw [takes, ih]
      unfold takeOne
      split
      next hsq => rw [hsq, List.drop_nil, List.drop_nil]
      next entry rest hsq => rw [hsq, List.drop_succ_cons]

/-- The polling thread takes one entry after the other. -/
theorem run_takes {r : IoUring} (hsqpoll : r.sqpoll = true) (hawake : r.awake = true) (n : Nat) :
    machine.run r (List.replicate n .take) = .ok (r.takes n, []) := by
  induction n generalizing r with
  | zero => rfl
  | succ n ih =>
      have hstep : r.step .take = .ok (r.takeOne, []) := by
        simp [step, hsqpoll, hawake]
      have hsame := sameRing_takes r 1
      exact Machine.run_cons_eq_ok.mpr ⟨r.takeOne, [], [], hstep,
        ih (hsame.sqpoll.trans hsqpoll) (hsame.awake.trans hawake), rfl⟩

/-- The queue was full, and has been flushed. -/
theorem comes_retry {r r₁ : IoUring} {enter : Except Errno Nat} {entry : Sqe} {loop : PushLoop}
    {call : Call} (hpc : r.pc = .full entry loop call) (hflush : r.flushSubmit enter = .ok r₁)
    (hsame : SameRing r r₁) : Comes r { r₁.reap.1 with pc := .push entry loop call } := by
  have hstep : r.step (.caller enter) =
      .ok ({ r₁.reap.1 with pc := .push entry loop call }, r₁.reap.2) := by
    simp only [step, advance, hpc, hflush]
  have hreap := hsame.trans (sameRing_reap r₁)
  exact .of_step hstep (calm_reap r₁) ⟨hreap.sqpoll, hreap.awake, hreap.nextIdx⟩

/-- After a full queue the caller pushes into an empty one. -/
theorem comes_full {r : IoUring} (hlive : Live r) {entry : Sqe} {loop : PushLoop} {call : Call}
    (hpc : r.pc = .full entry loop call) :
    ∃ r', Comes r r' ∧ r'.pc = .push entry loop call ∧ r'.sq = [] ∧ r'.pending = r.pending := by
  have hsame := sameRing_takes r r.sq.length
  obtain ⟨sq, taken, htakes, -⟩ := takes_eq r r.sq.length
  obtain ⟨sends, recvs, hreap⟩ := reap_eq (r.takes r.sq.length)
  refine ⟨{ (r.takes r.sq.length).reap.1 with pc := .push entry loop call }, ?_, rfl, ?_, ?_⟩
  · by_cases hsqpoll : r.sqpoll = true
    · have hthread : Comes r (r.takes r.sq.length) :=
        ⟨hsame, _, _, run_takes hsqpoll (hlive.awake hsqpoll) _, nofun⟩
      have hpc' : (r.takes r.sq.length).pc = .full entry loop call := by
        rw [htakes]
        exact hpc
      exact hthread.trans (comes_retry hpc' (flushSubmit_zero _) ⟨rfl, rfl, rfl⟩)
    · have hflush : r.flushSubmit (.ok r.sq.length) = .ok (r.takes r.sq.length) := if_neg hsqpoll
      exact comes_retry hpc hflush hsame
  · rw [hreap, takes_sq]
    exact List.drop_length
  · rw [hreap, htakes]

/-- The caller comes to push where there is room. -/
theorem comes_room {r : IoUring} (hlive : Live r) {entry : Sqe} {loop : PushLoop} {call : Call}
    (hpc : r.pc = .push entry loop call) :
    ∃ r', Comes r r' ∧ r'.pc = .push entry loop call ∧ r'.sq.length < ringEntries ∧
      r'.pending = r.pending := by
  by_cases hroom : r.sq.length < ringEntries
  · exact ⟨r, .refl r, hpc, hroom, rfl⟩
  · have hstep : r.step (.caller (.ok 0)) = .ok ({ r with pc := .full entry loop call }, [.full]) := by
      simp only [step, advance, hpc, if_neg hroom]
    have hcomes : Comes r { r with pc := .full entry loop call } :=
      .of_step hstep (by simp [calm]) ⟨rfl, rfl, rfl⟩
    obtain ⟨r', hcomes', hpc', hsq, hpending⟩ := comes_full (hcomes.live hlive) rfl
    refine ⟨r', hcomes.trans hcomes', hpc', ?_, hpending⟩
    rw [hsq]
    decide

/-! ### To the end of a call -/

/-- `drain_pending` ends, by induction on what is pending. -/
theorem returns_drain {r : IoUring} (hlive : Live r) {call : Call} (hpc : r.pc = .drain call) :
    Returns r := by
  generalize hpending : r.pending = pending
  induction pending generalizing r with
  | nil =>
      have hstep : r.step (.caller (.ok 0)) = .ok ({ r with pc := .flush call }, []) := by
        simp only [step, advance, hpc, hpending]
      have hcomes : Comes r { r with pc := .flush call } :=
        .of_step hstep (List.forall_mem_nil _) ⟨rfl, rfl, rfl⟩
      exact .after hcomes (returns_flush (hcomes.live hlive) rfl)
  | cons entry rest ih =>
      have hpop : r.step (.caller (.ok 0)) =
          .ok ({ r with pending := rest, pc := .push entry .drainPending call }, []) := by
        simp only [step, advance, hpc, hpending]
      have hcomes : Comes r { r with pending := rest, pc := .push entry .drainPending call } :=
        .of_step hpop (List.forall_mem_nil _) ⟨rfl, rfl, rfl⟩
      obtain ⟨r₁, hcomes₁, hpc₁, hroom, hrest⟩ := comes_room (hcomes.live hlive) rfl
      have hpush : r₁.step (.caller (.ok 0)) =
          .ok ({ r₁ with sq := r₁.sq ++ [entry], pc := .drain call }, [.pushed entry]) := by
        simp only [step, advance, hpc₁, if_pos hroom]
      have hcomes₂ : Comes r₁ { r₁ with sq := r₁.sq ++ [entry], pc := .drain call } :=
        .of_step hpush (by simp [calm]) ⟨rfl, rfl, rfl⟩
      have hall := hcomes.trans (hcomes₁.trans hcomes₂)
      exact .after hall (ih (hall.live hlive) rfl hrest)

theorem returns_driveInner {r : IoUring} {call : Call} (hlive : Live (r.driveInner call)) :
    Returns (r.driveInner call) := by
  obtain ⟨pc, heq, hpc⟩ := driveInner_eq r call
  rw [heq] at hlive ⊢
  obtain rfl | rfl := hpc
  · exact returns_drain hlive rfl
  · exact returns_flush hlive rfl

theorem sameRing_afterPush (r : IoUring) (call : Call) : SameRing r (r.afterPush call) := by
  cases call with
  | submit | drive => exact ⟨rfl, rfl, rfl⟩
  | pollRecv c cap =>
      have hsame := sameRing_driveInner (r.setConn c { r.conns c with recvInFlight := true })
        (.pollRecv c cap)
      exact ⟨hsame.sqpoll, hsame.awake, hsame.nextIdx⟩

theorem returns_push {r : IoUring} (hlive : Live r) {entry : Sqe} {loop : PushLoop} {call : Call}
    (hpc : r.pc = .push entry loop call) : Returns r := by
  obtain ⟨r₁, hcomes, hpc₁, hroom, -⟩ := comes_room hlive hpc
  cases loop with
  | drainPending =>
      have hpush : r₁.step (.caller (.ok 0)) =
          .ok ({ r₁ with sq := r₁.sq ++ [entry], pc := .drain call }, [.pushed entry]) := by
        simp only [step, advance, hpc₁, if_pos hroom]
      have hcomes₂ : Comes r₁ { r₁ with sq := r₁.sq ++ [entry], pc := .drain call } :=
        .of_step hpush (by simp [calm]) ⟨rfl, rfl, rfl⟩
      have hall := hcomes.trans hcomes₂
      exact .after hall (returns_drain (hall.live hlive) rfl)
  | pushSqe =>
      have hpush : r₁.step (.caller (.ok 0)) =
          .ok ({ r₁ with sq := r₁.sq ++ [entry] }.afterPush call, [.pushed entry]) := by
        simp only [step, advance, hpc₁, if_pos hroom]
      have hsame := sameRing_afterPush { r₁ with sq := r₁.sq ++ [entry] } call
      have hcomes₂ : Comes r₁ ({ r₁ with sq := r₁.sq ++ [entry] }.afterPush call) :=
        .of_step hpush (by simp [calm]) ⟨hsame.sqpoll, hsame.awake, hsame.nextIdx⟩
      have hall := hcomes.trans hcomes₂
      have hlive₂ := hall.live hlive
      refine .after hall ?_
      cases call with
      | submit c => exact returns_flush hlive₂ rfl
      | pollRecv c cap => exact returns_driveInner hlive₂
      | drive => exact ⟨_, .refl _, rfl⟩

/-- **Calls return**, with a kernel that takes what it is given. -/
theorem returns {r : IoUring} (hlive : Live r) : Returns r := by
  cases hpc : r.pc with
  | idle => exact ⟨r, .refl r, hpc⟩
  | push entry loop call => exact returns_push hlive hpc
  | full entry loop call =>
      obtain ⟨r', hcomes, hpc', -, -⟩ := comes_full hlive hpc
      exact .after hcomes (returns_push (hcomes.live hlive) hpc')
  | drain call => exact returns_drain hlive hpc
  | flush call => exact returns_flush hlive hpc
  | reap call => exact returns_reap hlive hpc

theorem calls_calm {evs : List Event} (h : ∀ e ∈ evs, calm e = true) :
    calls evs = [] ∧ ∀ e ∈ evs, failsEnter e = false := by
  refine ⟨List.filterMap_eq_nil_iff.mpr fun e he => ?_, fun e he => ?_⟩
  · cases e with
    | began => cases h _ he
    | _ => rfl
  · cases e with
    | enterFailed => cases h _ he
    | _ => rfl

theorem begin_calm (r : IoUring) (op : Op) :
    SameRing r (r.begin op).1 ∧ ∀ e ∈ (r.begin op).2, calm e = true := by
  cases op with
  | submit c kind bytes =>
      simp only [begin, submit]
      split
      · exact ⟨⟨rfl, rfl, rfl⟩, by simp [calm]⟩
      · split
        · exact ⟨⟨rfl, rfl, rfl⟩, by simp [calm]⟩
        · exact ⟨⟨rfl, rfl, rfl⟩, by simp [calm]⟩
  | pollRecv c cap =>
      refine ⟨?_, List.forall_mem_nil _⟩
      simp only [begin, pollRecv]
      split
      · exact sameRing_driveInner r _
      · exact ⟨rfl, rfl, rfl⟩
  | drive => exact ⟨sameRing_driveInner r _, List.forall_mem_nil _⟩

/-- One call, from its beginning to its return. -/
theorem exists_call {r : IoUring} (hlive : Live r) (hidle : r.pc = .idle) {op : Op}
    (hknows : r.knows op = true) :
    ∃ actions r' evs, machine.run r actions = .ok (r', evs) ∧ calls evs = [op] ∧
      (∀ e ∈ evs, failsEnter e = false) ∧ Live r' ∧ r'.pc = .idle ∧ r'.nextIdx = r.nextIdx := by
  have hstep : r.step (.call op) = .ok ((r.begin op).1, .began op :: (r.begin op).2) :=
    if_pos ⟨hidle, hknows⟩
  obtain ⟨hsame, hcalm⟩ := begin_calm r op
  obtain ⟨log, hrecv⟩ := hlive.recvs
  have hlive₁ : Live (r.begin op).1 := by
    refine ⟨⟨_, hrecv.turn (step_turn hstep)⟩, ?_⟩
    rw [hsame.sqpoll, hsame.awake]
    exact hlive.awake
  obtain ⟨r', hcomes, hidle'⟩ := returns hlive₁
  have hlive' := hcomes.live hlive₁
  obtain ⟨hsame', actions, evs, hrun, hcalm'⟩ := hcomes
  refine ⟨.call op :: actions, r', _, Machine.run_cons_eq_ok.mpr ⟨_, _, evs, hstep, hrun, rfl⟩, ?_, ?_,
    hlive', hidle', hsame'.nextIdx.trans hsame.nextIdx⟩
  · rw [calls_append, (calls_calm hcalm').1, List.append_nil]
    exact congrArg (op :: ·) (calls_calm hcalm).1
  · intro e he
    obtain he | he := List.mem_append.mp he
    · obtain rfl | he := List.mem_cons.mp he
      · rfl
      · exact (calls_calm hcalm).2 e he
    · exact (calls_calm hcalm').2 e he

theorem exists_calls (ops : List Op) {r : IoUring} (hlive : Live r) (hidle : r.pc = .idle)
    (hnext : r.nextIdx = 2 ^ 63) :
    ∃ actions r' evs, machine.run r actions = .ok (r', evs) ∧ calls evs = ops ∧ r'.pc = .idle ∧
      ∀ e ∈ evs, failsEnter e = false := by
  induction ops generalizing r with
  | nil => exact ⟨[], r, [], rfl, rfl, hidle, nofun⟩
  | cons op ops ih =>
      have hknows : r.knows op = true := by
        cases op with
        | drive => rfl
        | submit c | pollRecv c =>
            simp only [knows, hnext, decide_eq_true_eq]
            exact c.isLt
      obtain ⟨actions, r₁, evs, hrun, hcalls, hok, hlive₁, hidle₁, hnext₁⟩ := exists_call hlive hidle hknows
      obtain ⟨actions', r', evs', hrun', hcalls', hidle', hok'⟩ := ih hlive₁ hidle₁ (hnext₁.trans hnext)
      refine ⟨actions ++ actions', r', evs ++ evs', Machine.run_append hrun hrun', ?_, hidle', ?_⟩
      · rw [calls_append, hcalls, hcalls']
        rfl
      · intro e he
        obtain he | he := List.mem_append.mp he
        · exact hok e he
        · exact hok' e he

theorem run_connects {r : IoUring} (hidle : r.pc = .idle) (n : Nat) :
    machine.run r (List.replicate n .connect) = .ok ({ r with nextIdx := r.nextIdx + n }, []) := by
  induction n generalizing r with
  | zero => rfl
  | succ n ih =>
      have hstep : r.step .connect = .ok ({ r with nextIdx := r.nextIdx + 1 }, []) := by
        simp only [step, if_pos hidle]
      have hrest := ih (r := { r with nextIdx := r.nextIdx + 1 }) hidle
      rw [Nat.add_assoc, Nat.add_comm 1] at hrest
      exact Machine.run_cons_eq_ok.mpr ⟨_, [], [], hstep, hrest, rfl⟩

/-- Any calls can be made and return, in either mode. -/
theorem exists_completes (mode : IoUringMode) (sqpoll : Bool) (ops : List Op) :
    ∃ s log, Completes mode sqpoll ops s log := by
  have hconnect : machine.run (start mode sqpoll) (List.replicate (2 ^ 63) .connect) =
      .ok ({ start mode sqpoll with nextIdx := (start mode sqpoll).nextIdx + 2 ^ 63 }, []) :=
    run_connects rfl _
  have hlive : Live { start mode sqpoll with nextIdx := (start mode sqpoll).nextIdx + 2 ^ 63 } :=
    ⟨⟨_, recvOk_of_run (recvOk_start mode sqpoll) hconnect⟩, fun _ => rfl⟩
  obtain ⟨actions, s, log, hrun, hcalls, hidle, hok⟩ := exists_calls ops hlive rfl (Nat.zero_add _)
  exact ⟨s, log, ⟨_, Machine.run_append hconnect hrun⟩, hcalls, hidle, hok⟩

/-- **The modes push the same sends.** Any calls on any connections, ending with a `drive`: both modes
can make them without a failed submission, and whenever they have, whether or not the queue was full on
the way, they have pushed the same sends in the same order, which are those submitted, in the order of
the calls and each once. -/
theorem modes_push_alike (ops : List Op) (sqpoll sqpoll' : Bool) :
    (∃ s log, Completes .batchSyscall sqpoll (ops ++ [.drive]) s log) ∧
      (∃ s log, Completes .sqeStream sqpoll' (ops ++ [.drive]) s log) ∧
      ∀ s log s' log', Completes .batchSyscall sqpoll (ops ++ [.drive]) s log →
        Completes .sqeStream sqpoll' (ops ++ [.drive]) s' log' →
        pushedSends log = pushedSends log' ∧ pushedSends log = submittedFrom 0 ops ∧
          (pushedSends log).Nodup := by
  refine ⟨exists_completes _ _ _, exists_completes _ _ _, fun s log s' log' hbatch hstream => ?_⟩
  rw [hbatch.pushed, hstream.pushed]
  exact ⟨rfl, rfl, nodup_submittedFrom 0 ops⟩

end IoUring

end TxSender.Backend
