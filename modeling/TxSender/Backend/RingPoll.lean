/-
# TxSender.Backend.RingPoll — a polling thread that nobody wakes.

With SQPOLL the kernel's thread takes the entries of the submission queue, goes to sleep when it has
been idle, and then waits for an `io_uring_enter`. `flush_submit` makes no system call in that case, and
nothing else does; so what is pushed after the thread has gone to sleep stays where it is, and once the
queue is full the caller turns in `push_sqe` or `drain_pending` for ever.
-/
import TxSender.Backend.RingRecv
import TxSender.Lib.Trace

namespace TxSender.Backend

open TxSender.Lib

namespace IoUring

/-! ## Entries pushed while the thread sleeps -/

def entryOf : Event → Option Sqe
  | .pushed entry => some entry
  | _ => none

def entriesIn (log : List Event) : List Sqe := log.filterMap entryOf

/-- The entries pushed since the polling thread went to sleep. -/
def pushedAsleep : List Event → List Sqe
  | [] => []
  | e :: log => if e = .slept then entriesIn log else pushedAsleep log

theorem entriesIn_append (l l' : List Event) : entriesIn (l ++ l') = entriesIn l ++ entriesIn l' :=
  List.filterMap_append

theorem pushedAsleep_awake {log : List Event} (h : .slept ∉ log) : pushedAsleep log = [] := by
  induction log with
  | nil => rfl
  | cons e log ih =>
      have hne : e ≠ .slept := fun heq => h (heq ▸ List.mem_cons_self)
      rw [pushedAsleep, if_neg hne]
      exact ih fun hmem => h (List.mem_cons_of_mem _ hmem)

theorem pushedAsleep_append {log : List Event} (h : .slept ∈ log) (evs : List Event) :
    pushedAsleep (log ++ evs) = pushedAsleep log ++ entriesIn evs := by
  induction log with
  | nil => cases h
  | cons e log ih =>
      rw [List.cons_append, pushedAsleep, pushedAsleep]
      by_cases he : e = .slept
      · rw [if_pos he, if_pos he, entriesIn_append]
      · rw [if_neg he, if_neg he]
        exact ih ((List.mem_cons.mp h).resolve_left (Ne.symm he))

theorem pushedAsleep_slept {log : List Event} (h : .slept ∉ log) :
    pushedAsleep (log ++ [.slept]) = [] := by
  induction log with
  | nil => rfl
  | cons e log ih =>
      have hne : e ≠ .slept := fun heq => h (heq ▸ List.mem_cons_self)
      rw [List.cons_append, pushedAsleep, if_neg hne]
      exact ih fun hmem => h (List.mem_cons_of_mem _ hmem)

/-- How a step treats the polling thread. -/
inductive Threads (r : IoUring) (evs : List Event) (r' : IoUring) : Prop
  /-- the queue only grows while the thread sleeps -/
  | goes (hawake : r'.awake = r.awake) (hevs : .slept ∉ evs)
      (hsq : r.awake = false → r'.sq = r.sq ++ entriesIn evs)
  | sleeps (hevs : evs = [.slept]) (hsq : r.sq = []) (h : r' = { r with awake := false })

theorem entriesIn_reap (r : IoUring) : entriesIn r.reap.2 = [] ∧ .slept ∉ r.reap.2 := by
  constructor
  · apply List.filterMap_eq_nil_iff.mpr
    intro e he
    obtain ⟨key, rfl⟩ := reapAll_events r r.cq he
    rfl
  · intro hmem
    obtain ⟨key, heq⟩ := reapAll_events r r.cq hmem
    cases heq

theorem entriesIn_reclaim (r : IoUring) (c : Idx) :
    entriesIn (r.reclaimSends c).2 = [] ∧ .slept ∉ (r.reclaimSends c).2 := by
  unfold reclaimSends
  simp only
  split <;> exact ⟨rfl, by simp⟩

/-- A step that leaves the queue and the thread alone. -/
theorem Threads.same {r r' : IoUring} {evs : List Event} (hevs : .slept ∉ evs)
    (hentries : entriesIn evs = []) (hawake : r'.awake = r.awake) (hsq : r'.sq = r.sq) :
    Threads r evs r' := by
  apply Threads.goes hawake hevs
  intro _
  rw [hentries, hsq, List.append_nil]

theorem reap_sq (r : IoUring) : r.reap.1.sq = r.sq ∧ r.reap.1.awake = r.awake := by
  obtain ⟨sends, recvs, heq⟩ := reap_eq r
  rw [heq]
  exact ⟨rfl, rfl⟩

theorem reap_mode (r : IoUring) : r.reap.1.mode = r.mode := by
  obtain ⟨sends, recvs, heq⟩ := reap_eq r
  rw [heq]

theorem driveInner_ne_full (r : IoUring) (call : Call) (entry : Sqe) (loop : PushLoop) (call' : Call) :
    (r.driveInner call).pc ≠ .full entry loop call' := by
  obtain ⟨pc, heq, hpc⟩ := driveInner_eq r call
  rw [heq]
  obtain rfl | rfl := hpc <;> simp

theorem afterPush_ne_full (r : IoUring) (call : Call) (entry : Sqe) (loop : PushLoop) (call' : Call) :
    (r.afterPush call).pc ≠ .full entry loop call' := by
  cases call with
  | submit | drive => simp [afterPush]
  | pollRecv c cap => exact driveInner_ne_full _ _ _ _ _

theorem afterPush_sq (r : IoUring) (call : Call) :
    (r.afterPush call).sq = r.sq ∧ (r.afterPush call).awake = r.awake := by
  cases call with
  | submit | drive => exact ⟨rfl, rfl⟩
  | pollRecv c cap =>
      obtain ⟨pc, heq, -⟩ := driveInner_eq (r.setConn c { r.conns c with recvInFlight := true })
        (.pollRecv c cap)
      simp only [afterPush, heq]
      exact ⟨rfl, rfl⟩

/-- With SQPOLL, `flush_submit` does nothing. -/
theorem Flushed.eq_of_sqpoll {r r₁ : IoUring} (h : Flushed r r₁) (hsqpoll : r.sqpoll = true) : r₁ = r := by
  cases h with
  | polled => rfl
  | entered hoff =>
      rw [hsqpoll] at hoff
      cases hoff

theorem Turn.threads {r r' : IoUring} {evs : List Event} (h : Turn r evs r') (hsqpoll : r.sqpoll = true) :
    Threads r evs r' := by
  cases h with
  | stay | connected | popped | drainedAll => exact .same (by simp) rfl rfl rfl
  | unsupported | queued | submitting | asking | noRoom | sent | received | recvFailed =>
      exact .same (by simp) rfl rfl rfl
  | polling | driving =>
      obtain ⟨pc, heq, -⟩ := driveInner_eq r _
      rw [heq]
      exact .same (by simp) rfl rfl rfl
  | @pushed entry call hpc =>
      obtain ⟨hsq, hawake⟩ := afterPush_sq { r with sq := r.sq ++ [entry] } call
      exact .goes hawake (by simp) fun _ => hsq
  | drained => exact .goes rfl (by simp) fun _ => rfl
  | retried hpc hflush =>
      cases hflush.eq_of_sqpoll hsqpoll
      obtain ⟨hentries, hevs⟩ := entriesIn_reap r
      obtain ⟨hsq, hawake⟩ := reap_sq r
      exact .same hevs hentries hawake hsq
  | gaveUp hpc hoff =>
      rw [hsqpoll] at hoff
      cases hoff
  | submitted hpc hflush =>
      cases hflush.eq_of_sqpoll hsqpoll
      exact .same (by simp) rfl rfl rfl
  | flushed hpc hcall hflush =>
      cases hflush.eq_of_sqpoll hsqpoll
      exact .same (by simp) rfl rfl rfl
  | unflushed hpc hoff =>
      rw [hsqpoll] at hoff
      cases hoff
  | driven =>
      obtain ⟨hentries, hevs⟩ := entriesIn_reap r
      obtain ⟨hsq, hawake⟩ := reap_sq r
      refine .same ?_ ?_ hawake hsq
      · simpa using hevs
      · rw [entriesIn_append, hentries]
        rfl
  | @polled c cap r₂ res hpc hresult =>
      obtain ⟨hentries, hevs⟩ := entriesIn_reap r
      obtain ⟨hentries', hevs'⟩ := entriesIn_reclaim r.reap.1 c
      obtain ⟨hsq, hawake⟩ := reap_sq r
      obtain ⟨recvs, flag, rfl⟩ := pollResult_eq hresult
      obtain ⟨sends, inFlight, hclaim⟩ := reclaimSends_eq r.reap.1 c
      refine .same ?_ ?_ ?_ ?_
      · simpa using ⟨hevs, hevs'⟩
      · rw [entriesIn_append, entriesIn_append, hentries, hentries']
        rfl
      · rw [hclaim]
        exact hawake
      · rw [hclaim]
        exact hsq
  | took hon hawake =>
      obtain ⟨sq, taken, heq, -⟩ := takeOne_eq r
      rw [heq]
      refine .goes rfl (by simp) fun hasleep => ?_
      rw [hawake] at hasleep
      cases hasleep
  | slept hon hsq => exact .sleeps rfl hsq rfl

/-! ## The invariant -/

structure ThreadOk (r : IoUring) (log : List Event) : Prop where
  sqpoll : r.sqpoll = true
  awake : r.awake = true → .slept ∉ log
  /-- what was pushed since then is in the queue, and nothing else is -/
  asleep : r.awake = false → .slept ∈ log ∧ r.sq = pushedAsleep log

theorem threadOk_start (mode : IoUringMode) : ThreadOk (start mode true) [] where
  sqpoll := rfl
  awake _ := nofun
  asleep := nofun

theorem ThreadOk.pushedAsleep_eq_nil {r : IoUring} {log : List Event} (h : ThreadOk r log) :
    pushedAsleep log = [] ↔ r.sq = [] ∨ r.awake = true := by
  cases hawake : r.awake with
  | true => exact iff_of_true (pushedAsleep_awake (h.awake hawake)) (.inr rfl)
  | false =>
      rw [← (h.asleep hawake).2]
      simp

theorem Turn.frame {r r' : IoUring} {evs : List Event} (h : Turn r evs r') :
    r'.mode = r.mode ∧ r'.sqpoll = r.sqpoll := by
  cases h with
  | polling | driving =>
      obtain ⟨pc, heq, -⟩ := driveInner_eq r _
      rw [heq]
      exact ⟨rfl, rfl⟩
  | @pushed entry call =>
      cases call with
      | submit | drive => exact ⟨rfl, rfl⟩
      | pollRecv c cap =>
          obtain ⟨pc, heq, -⟩ := driveInner_eq ({ r with sq := r.sq ++ [entry] }.setConn c
            { r.conns c with recvInFlight := true }) (.pollRecv c cap)
          simp only [afterPush, heq]
          exact ⟨rfl, rfl⟩
  | retried hpc hflush =>
      obtain ⟨sq, taken, rfl, -⟩ := hflush.eq
      obtain ⟨sends, recvs, heq⟩ := reap_eq { r with sq, taken }
      rw [heq]
      exact ⟨rfl, rfl⟩
  | submitted hpc hflush | flushed hpc hcall hflush =>
      obtain ⟨sq, taken, rfl, -⟩ := hflush.eq
      exact ⟨rfl, rfl⟩
  | driven =>
      obtain ⟨sends, recvs, heq⟩ := reap_eq r
      rw [heq]
      exact ⟨rfl, rfl⟩
  | polled hpc hresult =>
      obtain ⟨recvs, flag, rfl⟩ := pollResult_eq hresult
      obtain ⟨sends, inFlight, hclaim⟩ := reclaimSends_eq r.reap.1 _
      obtain ⟨sends', recvs', hreap⟩ := reap_eq r
      rw [hclaim, hreap]
      exact ⟨rfl, rfl⟩
  | took =>
      obtain ⟨sq, taken, heq, -⟩ := takeOne_eq r
      rw [heq]
      exact ⟨rfl, rfl⟩
  | _ => exact ⟨rfl, rfl⟩

theorem ThreadOk.turn {r r' : IoUring} {log evs : List Event} (h : ThreadOk r log)
    (hturn : Turn r evs r') : ThreadOk r' (log ++ evs) := by
  have hsqpoll : r'.sqpoll = true := hturn.frame.2.trans h.sqpoll
  cases hturn.threads h.sqpoll with
  | goes hawake hevs hsq =>
      refine ⟨hsqpoll, fun hon => ?_, fun hoff => ?_⟩
      · intro hmem
        obtain hmem | hmem := List.mem_append.mp hmem
        · exact h.awake (hawake ▸ hon) hmem
        · exact hevs hmem
      · rw [hawake] at hoff
        obtain ⟨hslept, hold⟩ := h.asleep hoff
        refine ⟨List.mem_append_left _ hslept, ?_⟩
        rw [hsq hoff, hold, pushedAsleep_append hslept]
  | sleeps hevs hsq heq =>
      subst hevs heq
      refine ⟨hsqpoll, nofun, fun _ => ⟨by simp, ?_⟩⟩
      show r.sq = _
      rw [hsq]
      cases hawake : r.awake with
      | true => exact (pushedAsleep_slept (h.awake hawake)).symm
      | false =>
          obtain ⟨hslept, hold⟩ := h.asleep hawake
          rw [pushedAsleep_append hslept, ← hold, hsq]
          rfl

/-! ## Stranded entries -/

/-- `drive`, or `submit` in `SqeStream` mode, returned `Ok`. -/
def returnsOk (mode : IoUringMode) : Event → Bool
  | .driveReturned (.ok _) => true
  | .submitReturned _ (.ok _) => mode = .sqeStream
  | _ => false

/-- When such a call has just returned, the queue is empty or the polling thread is awake; and when a
loop waits for room in a full queue, the thread is awake. A wakeup is never on its way: no call makes a
system call. -/
structure NotStranded (r : IoUring) (log : List Event) : Prop where
  returned : ∀ e, log.getLast? = some e → returnsOk r.mode e = true → r.sq = [] ∨ r.awake = true
  drainable : ∀ entry loop call, r.pc = .full entry loop call → ringEntries ≤ r.sq.length →
    r.awake = true

/-- When such a call returns, or a loop finds the queue full, nothing has been pushed since the thread
went to sleep. -/
def PushedAwake (mode : IoUringMode) (past : List Event) (e : Event) : Prop :=
  returnsOk mode e = true ∨ e = .full → pushedAsleep past = []

/-- An event that neither side looks at. -/
def plainPoll (mode : IoUringMode) (e : Event) : Bool := !returnsOk mode e && e ≠ .full

variable {r r' : IoUring} {log evs : List Event}

theorem along_plain {mode : IoUringMode} (h : ∀ e ∈ evs, plainPoll mode e = true) :
    Along (PushedAwake mode) log evs := by
  apply along_of_forall
  intro e he past hevent
  have hplain := h e he
  simp only [plainPoll, Bool.and_eq_true, Bool.not_eq_true', ne_eq, decide_not] at hplain
  obtain hret | hfull := hevent
  · rw [hret] at hplain
    cases hplain.1
  · simp [hfull] at hplain

/-- A step with no such event strands nothing. -/
theorem NotStranded.plain (h : NotStranded r log) (hmode : r'.mode = r.mode) (hthreads : Threads r evs r')
    (hplain : ∀ e ∈ evs, plainPoll r.mode e = true)
    (hfull : ∀ entry loop call, r'.pc = .full entry loop call → ringEntries ≤ r'.sq.length →
      r.pc = .full entry loop call ∧ r'.sq = r.sq ∧ r'.awake = r.awake ∨ r'.awake = true) :
    NotStranded r' (log ++ evs) := by
  constructor
  · intro e hlast hret
    rw [hmode] at hret
    rw [List.getLast?_append] at hlast
    cases hevs : evs.getLast? with
    | some e' =>
        rw [hevs] at hlast
        cases hlast
        have := hplain e (List.mem_of_getLast? hevs)
        simp [plainPoll, hret] at this
    | none =>
        have hnil := List.getLast?_eq_none_iff.mp hevs
        subst hnil
        cases hthreads with
        | goes hawake _ hsq =>
            rw [hawake]
            cases hon : r.awake with
            | true => exact .inr rfl
            | false =>
                have hempty := (h.returned e hlast hret).resolve_right (by simp [hon])
                left
                rw [hsq hon, hempty]
                rfl
        | sleeps hslept => cases hslept
  · intro entry loop call hpc hlen
    obtain ⟨hold, hsq, hawake⟩ | hon := hfull entry loop call hpc hlen
    · rw [hawake]
      exact h.drainable entry loop call hold (hsq ▸ hlen)
    · exact hon

theorem plain_iff (h : NotStranded r log) (hthread : ThreadOk r log) (hturn : Turn r evs r')
    (hplain : ∀ e ∈ evs, plainPoll r.mode e = true)
    (hfull : ∀ entry loop call, r'.pc = .full entry loop call → ringEntries ≤ r'.sq.length →
      r.pc = .full entry loop call ∧ r'.sq = r.sq ∧ r'.awake = r.awake ∨ r'.awake = true) :
    NotStranded r' (log ++ evs) ↔ Along (PushedAwake r.mode) log evs :=
  iff_of_true (h.plain hturn.frame.1 (hturn.threads hthread.sqpoll) hplain hfull) (along_plain hplain)

/-- Such a call returns. -/
theorem returned_iff {e : Event} (hthread : ThreadOk r log) (hmode : r'.mode = r.mode)
    (he : returnsOk r.mode e = true) (hpc : r'.pc = .idle) (hsq : r'.sq = r.sq)
    (hawake : r'.awake = r.awake) :
    NotStranded r' (log ++ [e]) ↔ Along (PushedAwake r.mode) log [e] := by
  have hright : Along (PushedAwake r.mode) log [e] ↔ pushedAsleep log = [] := by
    simp [Along, PushedAwake, he]
  rw [hright, hthread.pushedAsleep_eq_nil]
  constructor
  · intro h
    have hlast := h.returned e List.getLast?_concat (by rw [hmode, he])
    rwa [hsq, hawake] at hlast
  · intro h
    constructor
    · intro e' _ _
      rwa [hsq, hawake]
    · intro entry loop call hfull
      rw [hpc] at hfull
      cases hfull

/-- A loop finds the queue full. -/
theorem full_iff (hthread : ThreadOk r log) {entry : Sqe} {loop : PushLoop} {call : Call}
    (hlen : ringEntries ≤ r.sq.length) :
    NotStranded { r with pc := .full entry loop call } (log ++ [.full]) ↔
      Along (PushedAwake r.mode) log [.full] := by
  have hright : Along (PushedAwake r.mode) log [.full] ↔ pushedAsleep log = [] := by
    simp [Along, PushedAwake]
  have hne : r.sq ≠ [] := by
    intro hsq
    rw [hsq] at hlen
    cases hlen
  rw [hright, hthread.pushedAsleep_eq_nil, or_iff_right hne]
  constructor
  · intro h
    exact h.drainable entry loop call rfl hlen
  · intro h
    constructor
    · intro e hlast hret
      rw [List.getLast?_concat] at hlast
      cases hlast
      cases hret
    · exact fun _ _ _ _ _ => h

theorem turn_iff (h : NotStranded r log) (hthread : ThreadOk r log) (hrecv : RecvOk r log)
    (hturn : Turn r evs r') :
    NotStranded r' (log ++ evs) ↔ Along (PushedAwake r.mode) log evs := by
  have hiff := plain_iff h hthread hturn
  cases hturn with
  | stay | connected => exact hiff (by simp) fun _ _ _ hpc _ => .inl ⟨hpc, rfl, rfl⟩
  | sent | received | recvFailed =>
      exact hiff (by simp [plainPoll, returnsOk]) fun _ _ _ hpc _ => .inl ⟨hpc, rfl, rfl⟩
  | unsupported => exact hiff (by simp [plainPoll, returnsOk]) fun _ _ _ hpc _ => .inl ⟨hpc, rfl, rfl⟩
  | queued hpc hmode =>
      exact hiff (by simp [plainPoll, returnsOk, hmode]) fun _ _ _ hpc' _ => .inl ⟨hpc', rfl, rfl⟩
  | submitting | asking => exact hiff (by simp [plainPoll, returnsOk]) (by simp)
  | polling | driving =>
      refine hiff (by simp [plainPoll, returnsOk]) fun entry loop call hpc => ?_
      exact absurd hpc (driveInner_ne_full _ _ _ _ _)
  | pushed =>
      refine hiff (by simp [plainPoll, returnsOk]) fun entry loop call hpc => ?_
      exact absurd hpc (afterPush_ne_full _ _ _ _ _)
  | drained => exact hiff (by simp [plainPoll, returnsOk]) (by simp)
  | noRoom hpc hfull => exact full_iff hthread hfull
  | retried hpc hflush =>
      cases hflush.eq_of_sqpoll hthread.sqpoll
      exact hiff (by rw [hrecv.reap_spec.1]; simp) (by simp)
  | gaveUp hpc hoff | unflushed hpc hoff =>
      rw [hthread.sqpoll] at hoff
      cases hoff
  | popped | drainedAll => exact hiff (by simp) (by simp)
  | submitted hpc hflush =>
      cases hflush.eq_of_sqpoll hthread.sqpoll
      by_cases hmode : r.mode = .sqeStream
      · exact returned_iff hthread rfl (by simp [returnsOk, hmode]) rfl rfl rfl
      · exact hiff (by simp [plainPoll, returnsOk, hmode]) (by simp)
  | flushed => exact hiff (by simp) (by simp)
  | driven =>
      obtain ⟨hsq, hawake⟩ := reap_sq r
      rw [hrecv.reap_spec.1]
      exact returned_iff hthread (reap_mode r) rfl rfl hsq hawake
  | @polled c cap r₂ res hpc hresult =>
      refine hiff ?_ (by simp)
      rw [hrecv.reap_spec.1]
      obtain hevs | ⟨bufs, hevs⟩ := reclaimSends_events r.reap.1 c
      · rw [hevs]
        simp [plainPoll, returnsOk]
      · rw [hevs]
        simp [plainPoll, returnsOk]
  | took hon hawake =>
      refine hiff (by simp) fun _ _ _ _ _ => .inr ?_
      obtain ⟨sq, taken, heq, -⟩ := takeOne_eq r
      rw [heq]
      exact hawake
  | slept hon hsq =>
      refine hiff (by simp [plainPoll, returnsOk]) fun entry loop call hpc hlen => ?_
      rw [hsq] at hlen
      cases hlen

/-! ## Runs -/

theorem notStranded_start (mode : IoUringMode) : NotStranded (start mode true) [] where
  returned := nofun
  drainable := nofun

/-- **When SQPOLL strands nothing.** Calls in any order, and a polling thread that may go to sleep when
it has nothing to do: whenever `drive`, or `submit` in `SqeStream` mode, returns `Ok`, the queue is empty
or the thread is awake, and no loop waits for room that nobody makes, exactly when at each such return,
and each time a loop finds the queue full, no entry has been pushed since the thread went to sleep. -/
theorem not_stranded_iff (mode : IoUringMode) (actions : List Action) :
    ∃ s log, machine.run (start mode true) actions = .ok (s, log) ∧
      (machine.Always NotStranded (start mode true) [] actions ↔ Along (PushedAwake mode) [] log) := by
  obtain ⟨s, log, hrun, -⟩ := exists_recvOk mode true actions
  refine ⟨s, log, hrun, ?_⟩
  refine machine.always_iff_along (fun r log => r.mode = mode ∧ RecvOk r log ∧ ThreadOk r log) _ _ ?_
    ⟨rfl, recvOk_start mode true, threadOk_start mode⟩ (notStranded_start mode) hrun
  rintro r log a r' evs ⟨rfl, hrecv, hthread⟩ hok hone
  have hturn := step_turn hone
  exact ⟨⟨hturn.frame.1, hrecv.turn hturn, hthread.turn hturn⟩, turn_iff hok hthread hrecv hturn⟩

/-- The thread goes to sleep, and then a send is submitted. -/
def sleepThenSubmit : List Action :=
  [.connect, .sleep, .call (.submit 0 .stream [1]), .caller (.ok 0), .caller (.ok 0)]

/-- `submit` returns `Ok`, and its entry is in a queue that nobody drains. -/
theorem send_stranded :
    (machine.run (start .sqeStream true) sleepThenSubmit).Yields fun (s, log) =>
      log.getLast? = some (.submitReturned 0 (.ok ())) ∧ s.sq = [.send 0 0 [1]] ∧ s.awake = false := by
  decide +kernel

/-! ## A full queue -/

/-- A loop waits for room in a queue that nobody drains. -/
structure Stuck (r : IoUring) (entry : Sqe) (loop : PushLoop) (call : Call) : Prop where
  sqpoll : r.sqpoll = true
  asleep : r.awake = false
  full : ringEntries ≤ r.sq.length
  pc : r.pc = .push entry loop call ∨ r.pc = .full entry loop call

theorem Stuck.turn {entry : Sqe} {loop : PushLoop} {call : Call} (h : Stuck r entry loop call)
    (hturn : Turn r evs r') : Stuck r' entry loop call ∧ r'.sq = r.sq := by
  have hpc := h.pc
  cases hturn with
  | stay | connected | sent | received | recvFailed => exact ⟨⟨h.sqpoll, h.asleep, h.full, h.pc⟩, rfl⟩
  | noRoom hpush =>
      simp only [hpush, Pc.push.injEq, reduceCtorEq, or_false] at hpc
      obtain ⟨rfl, rfl, rfl⟩ := hpc
      exact ⟨⟨h.sqpoll, h.asleep, h.full, .inr rfl⟩, rfl⟩
  | retried hfull hflush =>
      cases hflush.eq_of_sqpoll h.sqpoll
      simp only [hfull, Pc.full.injEq, reduceCtorEq, false_or] at hpc
      obtain ⟨rfl, rfl, rfl⟩ := hpc
      obtain ⟨sends, recvs, heq⟩ := reap_eq r
      rw [heq]
      exact ⟨⟨h.sqpoll, h.asleep, h.full, .inl rfl⟩, rfl⟩
  | pushed _ hroom | drained _ hroom => exact absurd hroom (Nat.not_lt.mpr h.full)
  | gaveUp _ hoff =>
      rw [h.sqpoll] at hoff
      cases hoff
  | took _ hawake =>
      rw [h.asleep] at hawake
      cases hawake
  | slept _ hsq =>
      have hlen := h.full
      rw [hsq] at hlen
      cases hlen
  | _ => simp_all

/-- **It waits for ever**: whatever happens next, the queue stays as it is. -/
theorem stuck_for_ever {entry : Sqe} {loop : PushLoop} {call : Call} {actions : List Action}
    (h : Stuck r entry loop call) (hrun : machine.run r actions = .ok (r', log)) :
    Stuck r' entry loop call ∧ r'.sq = r.sq := by
  refine machine.run_invariant (fun s _ => Stuck s entry loop call ∧ s.sq = r.sq) ⟨h, rfl⟩ ?_ hrun
  rintro s _ a s' evs ⟨hstuck, hsq⟩ hone
  obtain ⟨hstuck', hsq'⟩ := hstuck.turn (step_turn hone)
  exact ⟨hstuck', hsq'.trans hsq⟩

end IoUring

end TxSender.Backend
