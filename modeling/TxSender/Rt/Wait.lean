/-
# TxSender.Rt.Wait — the rings between the threads, and how a thread waits at one.

A channel is a bounded ring and a counter on a cache line of its own. `try_push` puts the value into the
ring and then bumps the counter. A consumer that has nothing to do calls `idle_wait`: it arms a monitor on
the line of the counter, tests the ring once more, and lets the core sleep until the line is written, a time
stamp is reached or an interrupt comes; without such an instruction it spins on the counter.

`Waiter` is one channel with its producer and its consumer, each a step at a time. The core sleeps only while
there is nothing to do (`sleeps_only_when_empty`), and a call of `idle_wait` takes a bounded number of steps
(`WaitPc.rank`).
-/
import TxSender.Lib.Progress

namespace TxSender.Rt

open TxSender.Lib

variable {α : Type}

/-! ## Channels -/

/-- The ring, oldest value first, and the counter of its `Notifier`. -/
structure Channel (α : Type) where
  capacity : Nat
  queue : List α
  counter : UInt64
  /-- the producer stands between the push and the `notify` of a `try_push` -/
  notifying : Bool

namespace Channel

def new (capacity : Nat) : Channel α where
  capacity := capacity
  queue := []
  counter := 0
  notifying := false

/-- `inner.push(value)`, with which `try_push` begins. There is one producer, so a push never finds another
one unfinished. -/
def push (c : Channel α) (x : α) : Channel α :=
  if c.notifying = false ∧ c.queue.length < c.capacity then
    { c with queue := c.queue ++ [x], notifying := true }
  else c

/-- `self.notify.notify()`, with which a `try_push` that found room ends -/
def notify (c : Channel α) : Channel α :=
  if c.notifying then { c with counter := c.counter + 1, notifying := false } else c

/-- A push takes room, or changes nothing. -/
theorem push_cases (c : Channel α) (x : α) :
    (c.notifying = false ∧ c.queue.length < c.capacity ∧
      c.push x = { c with queue := c.queue ++ [x], notifying := true }) ∨ c.push x = c := by
  unfold push
  split
  · rename_i h
    exact .inl ⟨h.1, h.2, rfl⟩
  · exact .inr rfl

@[simp] theorem push_counter (c : Channel α) (x : α) : (c.push x).counter = c.counter := by
  unfold push
  split <;> rfl

@[simp] theorem notify_queue (c : Channel α) : c.notify.queue = c.queue := by
  unfold notify
  split <;> rfl

@[simp] theorem notify_notifying (c : Channel α) : c.notify.notifying = false := by
  unfold notify
  split
  · rfl
  · rename_i h
    simpa using h

end Channel

/-! ## `idle_wait` -/

inductive IdleBackend where
  | amdMwaitx
  | intelUmwait
  | spinLoop
  deriving DecidableEq, Repr

/-- `backend as u8` -/
def IdleBackend.code : IdleBackend → UInt8
  | .amdMwaitx => 1
  | .intelUmwait => 2
  | .spinLoop => 3

/-- The two `ecx` registers that the detection reads. -/
structure Cpuid where
  ext : BitVec 32
  feat : BitVec 32

def detectBackendCpuid (cpu : Cpuid) : IdleBackend :=
  if cpu.ext.getLsbD 29 then .amdMwaitx
  else if cpu.feat.getLsbD 5 then .intelUmwait
  else .spinLoop

/-- With the value of `CACHED` before and after; threads that race store the same value. -/
def detectBackend (cpu : Cpuid) (cached : UInt8) : IdleBackend × UInt8 :=
  if cached ≠ 0 then
    (if cached = 1 then .amdMwaitx else if cached = 2 then .intelUmwait else .spinLoop, cached)
  else (detectBackendCpuid cpu, (detectBackendCpuid cpu).code)

/-- The cache never changes the answer. -/
theorem detectBackend_eq {cpu : Cpuid} {cached : UInt8}
    (h : cached = 0 ∨ cached = (detectBackendCpuid cpu).code) :
    detectBackend cpu cached = (detectBackendCpuid cpu, (detectBackendCpuid cpu).code) := by
  rcases h with rfl | rfl
  · rfl
  · unfold detectBackend
    cases detectBackendCpuid cpu <;> rfl

def defaultTimeoutTsc : Nat := 100000

/-- Where `idle_wait` stands. -/
inductive WaitPc where
  /-- `monitorx` or `umonitor`, or the first read of the counter -/
  | arm (b : IdleBackend)
  /-- `condition_still_true()` -/
  | check
  /-- `mwaitx`, or `rdtsc` and `umwait` -/
  | enter
  | asleep (deadline : Nat)
  /-- spinning, with the counter as it was first read and the rounds that are left -/
  | spin (initial : UInt64) (left : Nat)
  deriving DecidableEq, Repr

/-- What a step of `idle_wait` finds: the counter, the condition, whether the armed line has been written,
the time stamp counter, and whether an interrupt has come. -/
structure Sensed where
  counter : UInt64
  cond : Bool
  stored : Bool
  tsc : Nat
  interrupt : Bool

/-- One step of `idle_wait`; nothing is left when it returns. -/
def waitStep (x : Sensed) : WaitPc → Option WaitPc
  | .arm .spinLoop => some (.spin x.counter 256)
  | .arm _ => some .check
  | .check => if x.cond then some .enter else none
  -- an interrupt disarms the monitor, and then the core does not fall asleep
  | .enter => if x.interrupt then none else some (.asleep (x.tsc + defaultTimeoutTsc))
  | .asleep deadline =>
      if x.stored ∨ deadline ≤ x.tsc ∨ x.interrupt then none else some (.asleep deadline)
  | .spin initial (left + 1) => if x.counter ≠ initial then none else some (.spin initial left)
  | .spin _ 0 => none

/-- The core stays asleep: the thread does not run. -/
def Sensed.sleeps (x : Sensed) : WaitPc → Bool
  | .asleep deadline => !x.stored && decide (x.tsc < deadline) && !x.interrupt
  | _ => false

/-- How many steps `idle_wait` takes at most. -/
def WaitPc.rank : WaitPc → Nat
  | .arm _ => 258
  | .check => 3
  | .enter => 2
  | .asleep _ => 1
  | .spin _ left => left + 1

theorem WaitPc.rank_pos (pc : WaitPc) : 0 < pc.rank := by
  cases pc <;> simp [rank]

/-- **One step** of a thread that runs. -/
theorem waitStep_rank {x : Sensed} {pc pc' : WaitPc} (h : waitStep x pc = some pc')
    (hrun : x.sleeps pc = false) : pc'.rank < pc.rank := by
  cases pc with
  | arm b =>
      cases b <;>
        · obtain rfl := Option.some.inj h
          simp [WaitPc.rank]
  | check =>
      simp only [waitStep] at h
      split at h
      · obtain rfl := Option.some.inj h
        simp [WaitPc.rank]
      · cases h
  | enter =>
      simp only [waitStep] at h
      split at h
      · cases h
      · obtain rfl := Option.some.inj h
        simp [WaitPc.rank]
  | asleep deadline =>
      simp only [waitStep] at h
      split at h
      · cases h
      · rename_i hwake
        -- then the core slept on
        simp only [not_or, Bool.not_eq_true, Nat.not_le] at hwake
        simp [Sensed.sleeps, hwake] at hrun
  | spin initial left =>
      cases left with
      | zero => cases h
      | succ left =>
          simp only [waitStep] at h
          split at h
          · cases h
          · obtain rfl := Option.some.inj h
            simp [WaitPc.rank]

theorem waitStep_sleeps {x : Sensed} {pc : WaitPc} (h : x.sleeps pc = true) :
    waitStep x pc = some pc := by
  cases pc with
  | asleep deadline =>
      simp only [Sensed.sleeps, Bool.and_eq_true, Bool.not_eq_true'] at h
      obtain ⟨⟨hstored, hlt⟩, hint⟩ := h
      have hlt := of_decide_eq_true hlt
      refine if_neg ?_
      simp only [hstored, hint, Bool.false_eq_true, or_false, false_or, Nat.not_le]
      exact hlt
  | _ => cases h

theorem waitStep_rank_le {x : Sensed} {pc pc' : WaitPc} (h : waitStep x pc = some pc') :
    pc'.rank ≤ pc.rank := by
  by_cases hsleeps : x.sleeps pc = true
  · obtain rfl := Option.some.inj ((waitStep_sleeps hsleeps).symm.trans h)
    exact Nat.le_refl _
  · exact Nat.le_of_lt (waitStep_rank h (eq_false_of_ne_true hsleeps))

/-! ## A consumer that waits -/

/-- A channel and its consumer. `stored` is set when the armed line is written. -/
structure Waiter (α : Type) where
  chan : Channel α
  stored : Bool
  tsc : Nat
  stop : Bool
  cached : UInt8
  /-- inside `idle_wait` -/
  pc : Option WaitPc

inductive WaiterAction (α : Type) where
  | push (x : α)
  | notify
  | clock (cycles : Nat)
  | setStop
  /-- the consumer calls `try_pop` -/
  | pop
  /-- the consumer calls `idle_wait` -/
  | call
  /-- a step inside `idle_wait`; `sawStop` is what it reads of the flag if that is set -/
  | step (sawStop interrupt : Bool)

inductive WaiterEvent (α : Type) where
  | popped (x : α)
  /-- the core falls asleep at this time stamp -/
  | slept (tsc : Nat)
  | returned
  deriving DecidableEq

namespace Waiter

/-- What a step inside `idle_wait` finds; the condition is `is_empty() && !stop`. -/
def sensed (s : Waiter α) (sawStop interrupt : Bool) : Sensed where
  counter := s.chan.counter
  cond := s.chan.queue.isEmpty && !(sawStop && s.stop)
  stored := s.stored
  tsc := s.tsc
  interrupt := interrupt

/-- What arming does to the monitor. -/
def armed : WaitPc → Bool → Bool
  | .arm _, _ => false
  | _, stored => stored

/-- What a step of `idle_wait` logs. -/
def waitLog (tsc : Nat) : Option WaitPc → WaitPc → List (WaiterEvent α)
  | none, _ => [.returned]
  | some (.asleep _), .enter => [.slept tsc]
  | _, _ => []

def step (cpu : Cpuid) (s : Waiter α) : WaiterAction α → Exec (Waiter α × List (WaiterEvent α))
  | .push x => .ok ({ s with chan := s.chan.push x }, [])
  | .notify =>
      -- the counter is all that stands on its line
      .ok ({ s with chan := s.chan.notify, stored := s.stored || s.chan.notifying }, [])
  | .clock cycles => .ok ({ s with tsc := s.tsc + cycles }, [])
  | .setStop => .ok ({ s with stop := true }, [])
  | .pop =>
      match s.pc, s.chan.queue with
      | none, x :: rest => .ok ({ s with chan := { s.chan with queue := rest } }, [.popped x])
      | _, _ => .ok (s, [])
  | .call =>
      match s.pc with
      | none =>
          let (b, cached) := detectBackend cpu s.cached
          .ok ({ s with pc := some (.arm b), cached }, [])
      | some _ => .ok (s, [])
  | .step sawStop interrupt =>
      match s.pc with
      | none => .ok (s, [])
      | some pc =>
          let pc' := waitStep (s.sensed sawStop interrupt) pc
          .ok ({ s with pc := pc', stored := armed pc s.stored }, waitLog s.tsc pc' pc)

def machine (cpu : Cpuid) : Machine (Waiter α) (WaiterAction α) (WaiterEvent α) where
  step := step cpu

/-- As `channel` makes it, before anybody has waited. -/
def start (capacity : Nat) : Waiter α where
  chan := .new capacity
  stored := false
  tsc := 0
  stop := false
  cached := 0
  pc := none

/-- When the core fell asleep. -/
def sleeps (log : List (WaiterEvent α)) : List Nat :=
  log.filterMap fun e => match e with
    | .slept tsc => some tsc
    | _ => none

theorem sleeps_append (l l' : List (WaiterEvent α)) : sleeps (l ++ l') = sleeps l ++ sleeps l' :=
  List.filterMap_append

/-- On the way into sleep, or asleep. -/
def Going : Option WaitPc → Prop
  | some .enter | some (.asleep _) => True
  | _ => False

/-- What is kept: a consumer that goes to sleep has seen an empty ring after it armed the monitor, so a value
that came later is announced, or was, on the armed line. -/
structure Sound (s : Waiter α) (log : List (WaiterEvent α)) : Prop where
  announced : Going s.pc → s.chan.queue = [] ∨ s.chan.notifying = true ∨ s.stored = true
  deadline : ∀ d, s.pc = some (.asleep d) →
    ∃ t, (sleeps log).getLast? = some t ∧ t ≤ s.tsc ∧ d = t + defaultTimeoutTsc

theorem sound_start (capacity : Nat) : (start capacity : Waiter α).Sound [] :=
  ⟨fun h => h.elim, fun _ h => by cases h⟩

/-- A step that writes no log and does not move the consumer. -/
theorem Sound.of_quiet {s s' : Waiter α} {log : List (WaiterEvent α)} (h : s.Sound log)
    (hpc : s'.pc = s.pc) (htsc : s.tsc ≤ s'.tsc)
    (hchan : Going s.pc → s'.chan.queue = [] ∨ s'.chan.notifying = true ∨ s'.stored = true) :
    s'.Sound (log ++ []) := by
  rw [List.append_nil]
  refine ⟨fun hgo => hchan (hpc ▸ hgo), fun d hd => ?_⟩
  obtain ⟨t, hlast, hle, hd⟩ := h.deadline d (hpc ▸ hd)
  exact ⟨t, hlast, Nat.le_trans hle htsc, hd⟩

/-- **One step** inside `idle_wait`. -/
theorem Sound.wait {s : Waiter α} {log : List (WaiterEvent α)} (h : s.Sound log) {pc : WaitPc}
    (hpc : s.pc = some pc) (sawStop interrupt : Bool) :
    Sound { s with
      pc := waitStep (s.sensed sawStop interrupt) pc
      stored := armed pc s.stored }
      (log ++ waitLog s.tsc (waitStep (s.sensed sawStop interrupt) pc) pc) := by
  cases pc with
  | arm b => cases b <;> exact ⟨fun hgo => hgo.elim, fun _ hd => by cases hd⟩
  | check =>
      simp only [waitStep]
      split
      · rename_i hcond
        -- the monitor is armed, and the ring was empty just now
        have hempty : s.chan.queue = [] := by
          simp only [sensed, Bool.and_eq_true, List.isEmpty_iff] at hcond
          exact hcond.1
        exact ⟨fun _ => .inl hempty, fun _ hd => by cases hd⟩
      · exact ⟨fun hgo => hgo.elim, fun _ hd => by cases hd⟩
  | enter =>
      simp only [waitStep]
      split
      · exact ⟨fun hgo => hgo.elim, fun _ hd => by cases hd⟩
      · refine ⟨fun _ => h.announced (by rw [hpc]; trivial), fun d hd => ?_⟩
        obtain rfl := WaitPc.asleep.inj (Option.some.inj hd)
        refine ⟨s.tsc, ?_, Nat.le_refl _, rfl⟩
        rw [sleeps_append]
        exact List.getLast?_concat
  | asleep deadline =>
      simp only [waitStep]
      split
      · exact ⟨fun hgo => hgo.elim, fun _ hd => by cases hd⟩
      · have hlog : (log ++ waitLog s.tsc (some (.asleep deadline)) (.asleep deadline)) = log :=
          List.append_nil _
        rw [hlog]
        refine ⟨fun _ => h.announced (by rw [hpc]; trivial), fun d hd => ?_⟩
        exact h.deadline d (hpc.trans hd)
  | spin initial left =>
      cases left with
      | zero => exact ⟨fun hgo => hgo.elim, fun _ hd => by cases hd⟩
      | succ left =>
          simp only [waitStep]
          split
          · exact ⟨fun hgo => hgo.elim, fun _ hd => by cases hd⟩
          · exact ⟨fun hgo => hgo.elim, fun _ hd => by cases hd⟩

theorem sound_step {cpu : Cpuid} {s s' : Waiter α} {log evs : List (WaiterEvent α)}
    {a : WaiterAction α} (h : s.Sound log) (hstep : s.step cpu a = .ok (s', evs)) :
    s'.Sound (log ++ evs) := by
  cases a with
  | push x =>
      cases hstep
      refine h.of_quiet rfl (Nat.le_refl _) fun hgo => ?_
      show (s.chan.push x).queue = [] ∨ (s.chan.push x).notifying = true ∨ _
      rcases s.chan.push_cases x with ⟨-, -, hpush⟩ | hpush
      · rw [hpush]
        exact .inr (.inl rfl)
      · rw [hpush]
        exact h.announced hgo
  | notify =>
      cases hstep
      refine h.of_quiet rfl (Nat.le_refl _) fun hgo => ?_
      show s.chan.notify.queue = [] ∨ _ ∨ (s.stored || s.chan.notifying) = true
      rcases h.announced hgo with hempty | hnot | hstored
      · exact .inl (by rw [Channel.notify_queue, hempty])
      · exact .inr (.inr (by rw [hnot, Bool.or_true]))
      · exact .inr (.inr (by rw [hstored, Bool.true_or]))
  | clock cycles =>
      cases hstep
      exact h.of_quiet rfl (Nat.le_add_right _ _) h.announced
  | setStop =>
      cases hstep
      exact h.of_quiet rfl (Nat.le_refl _) h.announced
  | pop =>
      simp only [step] at hstep
      split at hstep
      · rename_i x rest hpc hqueue
        cases hstep
        exact ⟨fun hgo => by rw [show s.pc = none from hpc] at hgo; exact hgo.elim,
          fun d hd => by rw [show s.pc = none from hpc] at hd; cases hd⟩
      · cases hstep
        exact h.of_quiet rfl (Nat.le_refl _) h.announced
  | call =>
      simp only [step] at hstep
      split at hstep
      · cases hstep
        exact ⟨fun hgo => hgo.elim, fun _ hd => by cases hd⟩
      · cases hstep
        exact h.of_quiet rfl (Nat.le_refl _) h.announced
  | step sawStop interrupt =>
      simp only [step] at hstep
      split at hstep
      · cases hstep
        exact h.of_quiet rfl (Nat.le_refl _) h.announced
      · rename_i pc hpc
        cases hstep
        exact h.wait hpc sawStop interrupt

theorem sound_run {cpu : Cpuid} {capacity : Nat} {actions : List (WaiterAction α)} {s : Waiter α}
    {log : List (WaiterEvent α)} (hrun : (machine cpu).run (.start capacity) actions = .ok (s, log)) :
    s.Sound log :=
  Machine.run_invariant (machine cpu) Sound (sound_start capacity)
    (fun _ _ _ _ _ h hstep => sound_step h hstep) hrun

/-- A core that sleeps: since when, and why. -/
theorem Sound.sleeping {s : Waiter α} {log : List (WaiterEvent α)} (h : s.Sound log)
    (sawStop interrupt : Bool) {pc : WaitPc} (hpc : s.pc = some pc)
    (hsleeps : (s.sensed sawStop interrupt).sleeps pc = true) :
    (∃ t, (sleeps log).getLast? = some t ∧ t ≤ s.tsc ∧ s.tsc < t + defaultTimeoutTsc) ∧
      (∃ d, s.pc = some (.asleep d)) ∧ (s.chan.queue = [] ∨ s.chan.notifying = true) := by
  cases pc with
  | asleep d =>
      simp only [Sensed.sleeps, sensed, Bool.and_eq_true, Bool.not_eq_true'] at hsleeps
      obtain ⟨⟨hstored, hlt⟩, -⟩ := hsleeps
      obtain ⟨t, hlast, hle, rfl⟩ := h.deadline d hpc
      refine ⟨⟨t, hlast, hle, of_decide_eq_true hlt⟩, ⟨_, hpc⟩, ?_⟩
      rcases h.announced (by rw [hpc]; trivial) with hempty | hnot | hst
      · exact .inl hempty
      · exact .inr hnot
      · rw [hst] at hstored
        cases hstored
  | _ => cases hsleeps

/-- The store of a `notify` hits the armed line, and the sleep is over. -/
theorem returns_after_notify {cpu : Cpuid} {s : Waiter α} {d : Nat} (hpc : s.pc = some (.asleep d))
    (hnot : s.chan.notifying = true) (sawStop interrupt : Bool) :
    ∃ s', (machine cpu).run s [.notify, .step sawStop interrupt] = .ok (s', [.returned]) := by
  have hwake : ∀ x : Sensed, x.stored = true → waitStep x (.asleep d) = none :=
    fun x hx => if_pos (.inl hx)
  let woken : Waiter α := { s with chan := s.chan.notify, stored := s.stored || s.chan.notifying }
  have hstored : (woken.sensed sawStop interrupt).stored = true := by
    show (s.stored || s.chan.notifying) = true
    rw [hnot, Bool.or_true]
  have hstep : woken.step cpu (.step sawStop interrupt) =
      .ok ({ woken with pc := none }, [.returned]) := by
    have hasleep : woken.pc = some (.asleep d) := hpc
    simp only [step, hasleep, hwake _ hstored]
    rfl
  exact ⟨_, Machine.run_cons_eq_ok.mpr ⟨woken, [], [.returned], rfl,
    Machine.run_cons_eq_ok.mpr ⟨_, [.returned], [], hstep, rfl, rfl⟩, rfl⟩⟩

end Waiter

/-- **No lost wake-up.** For every kind of CPU and every interleaving of a producer, the consumer of its
channel, the clock, interrupts and the stop flag: while the core of the consumer sleeps in `idle_wait`, it
fell asleep less than `DEFAULT_TIMEOUT_TSC` cycles ago, and the ring is empty or the producer stands between
its push and its `notify`, after which the very next step of the consumer returns from the call. -/
theorem sleeps_only_when_empty (cpu : Cpuid) (capacity : Nat) (actions : List (WaiterAction α))
    (s : Waiter α) (log : List (WaiterEvent α))
    (hrun : (Waiter.machine cpu).run (.start capacity) actions = .ok (s, log)) (pc : WaitPc)
    (hpc : s.pc = some pc) (sawStop interrupt : Bool)
    (hsleeps : (s.sensed sawStop interrupt).sleeps pc = true) :
    (∃ t, (Waiter.sleeps log).getLast? = some t ∧ t ≤ s.tsc ∧ s.tsc < t + defaultTimeoutTsc) ∧
      (s.chan.queue = [] ∨ s.chan.notifying = true ∧ ∀ sawStop interrupt, ∃ s',
        (Waiter.machine cpu).run s [.notify, .step sawStop interrupt] = .ok (s', [.returned])) := by
  obtain ⟨hslept, ⟨d, hasleep⟩, hwhy⟩ := (Waiter.sound_run hrun).sleeping sawStop interrupt hpc hsleeps
  refine ⟨hslept, hwhy.imp_right fun hnot => ⟨hnot, fun sawStop interrupt => ?_⟩⟩
  exact Waiter.returns_after_notify hasleep hnot sawStop interrupt

/-- The producer is interrupted between its push and its `notify` while the consumer sleeps. -/
def pushingWaiter : Waiter Nat where
  chan := { capacity := 256, queue := [7], counter := 0, notifying := true }
  stored := false
  tsc := 10
  stop := false
  cached := 1
  pc := some (.asleep 100010)

theorem sleeps_only_when_empty_pushing :
    (Waiter.machine ⟨BitVec.twoPow 32 29, 0⟩).run (.start 256)
        [.call, .step false false, .step false false, .clock 10, .step false false, .push 7] =
          .ok (pushingWaiter, [.slept 10]) ∧
      ∀ sawStop interrupt, ∃ s', (Waiter.machine ⟨BitVec.twoPow 32 29, 0⟩).run pushingWaiter
        [.notify, .step sawStop interrupt] = .ok (s', [.returned]) := by
  have hrun : (Waiter.machine ⟨BitVec.twoPow 32 29, 0⟩).run (.start 256)
      [.call, .step false false, .step false false, .clock 10, .step false false, .push 7] =
        .ok (pushingWaiter, [.slept 10]) := rfl
  have hall := sleeps_only_when_empty _ _ _ pushingWaiter [.slept 10] hrun (.asleep 100010) rfl false
    false rfl
  exact ⟨hrun, (hall.2.resolve_left (List.cons_ne_nil _ _)).2⟩

end TxSender.Rt
