/-
# TxSender.Transport.Halting — `shutdown` returns.

`shutdown` sets the flag and joins the workers, the lane and the reconnect thread. A worker reads the flag
at the top of its loop only, the lane before a round over its rings, and the reconnect thread before each
`recv_timeout`, so each of them goes on for a while. The sender's model leaves open when the reconnect
thread looks at the flag; `Running` adds where its loop stands, and forgetting that again gives runs of
the sender (`run_sender`). The rank is what the threads have left to do: a worker what is left of its
round, the lane what is in its rings, and a response that a worker still pushes counts once for each.

A thread that panics in a call, or waits in one for ever, does not come back to its loop, and a run ends
there. Which steps return is a matter of these calls only (`step_returns_iff`): those that a worker makes for
a provider and the builds of the reconnect thread. So `shutdown` returns if they do (`shutdown_returns`), and
before the flag is set a thread is lost in such a call or not at all (`no_thread_gives_up_iff`).
-/
import Mathlib.Algebra.Group.Action.Defs
import Mathlib.Algebra.Order.BigOperators.Group.List
import TxSender.Lib.Progress
import TxSender.Transport.Isolation
import TxSender.Transport.Launch
import TxSender.Transport.Shutdown

namespace TxSender.Transport

open TxSender.Lib
open TxSender.Protocol
open TxSender.Backend

variable {H A Q K D : Type}

/-! ## The loop of the reconnect thread -/

/-- Where `run_reconnect_loop` stands. -/
inductive LoopPc where
  /-- before the flag is read -/
  | top
  /-- in `recv_timeout` -/
  | receiving
  | building
  | returned
  deriving DecidableEq, Repr

/-- A sender, and the loop of its reconnect thread. -/
structure Running (H Q : Type) where
  sender : Sender H Q
  loop : LoopPc

inductive RunningAction (H A Q K D : Type) where
  | worker (j : Nat) (inp : Input H A Q K)
  | lane (sawStop : Bool)
  /-- the reconnect thread: what it reads of the flag, whether `recv_timeout` is over before a request
  comes, and what its build is answered -/
  | reconnect (sawStop timeout : Bool) (d : D)
  | shutdown

namespace Running

def start (s : Sender H Q) : Running H Q := ⟨s, .top⟩

def step (api : ConnApi H A Q K) (builder : ReconnectBuilder H Q D) (r : Running H Q) :
    RunningAction H A Q K D → Exec (Running H Q × List (Logged H A))
  | .worker j inp => do
      let (sender, evs) ← r.sender.step api builder (.worker j inp)
      pure ({ r with sender }, evs)
  | .lane sawStop => do
      let (sender, evs) ← r.sender.step api builder (.lane sawStop)
      pure ({ r with sender }, evs)
  | .shutdown => do
      let (sender, evs) ← r.sender.step api builder .shutdown
      pure ({ r with sender }, evs)
  | .reconnect sawStop timeout d =>
      match r.loop with
      | .top =>
          if sawStop && r.sender.stop then do
            let (sender, evs) ← r.sender.step api builder .exit
            pure ({ sender, loop := .returned }, evs)
          else .ok ({ r with loop := .receiving }, [])
      | .receiving =>
          if timeout then .ok ({ r with loop := .top }, [])
          else do
            let (sender, evs) ← r.sender.step api builder .take
            -- without a request `recv_timeout` times out, and one that is not served is passed over
            let loop := match sender.reconnect.pc with
              | .building _ => .building
              | _ => .top
            pure ({ sender, loop }, evs)
      | .building => do
          let (sender, evs) ← r.sender.step api builder (.finish d)
          pure ({ sender, loop := .top }, evs)
      | .returned => .ok (r, [])

def machine (api : ConnApi H A Q K) (builder : ReconnectBuilder H Q D) :
    Machine (Running H Q) (RunningAction H A Q K D) (Logged H A) where
  step := step api builder

variable {api : ConnApi H A Q K} {builder : ReconnectBuilder H Q D} {r r' : Running H Q}
  {a : RunningAction H A Q K D} {evs : List (Logged H A)}

/-- What a step of a thread does to the sender and to the loop. -/
inductive Moves (api : ConnApi H A Q K) (builder : ReconnectBuilder H Q D) (r : Running H Q) :
    RunningAction H A Q K D → Running H Q → List (Logged H A) → Prop
  | worker (j : Nat) (inp : Input H A Q K) {s' : Sender H Q} {evs : List (Logged H A)}
      (h : r.sender.step api builder (.worker j inp) = .ok (s', evs)) :
      Moves api builder r (.worker j inp) { r with sender := s' } evs
  | lane (sawStop : Bool) {s' : Sender H Q} {evs : List (Logged H A)}
      (h : r.sender.step api builder (.lane sawStop) = .ok (s', evs)) :
      Moves api builder r (.lane sawStop) { r with sender := s' } evs
  | shutdown : Moves api builder r .shutdown { r with sender := { r.sender with stop := true } } []
  | exit (sawStop timeout : Bool) (d : D) (hloop : r.loop = .top) (hstop : r.sender.stop = true) :
      Moves api builder r (.reconnect sawStop timeout d)
        { sender := { r.sender with reconnect := r.sender.reconnect.exit }, loop := .returned } []
  | receive (sawStop timeout : Bool) (d : D) (hloop : r.loop = .top)
      (hstop : (sawStop && r.sender.stop) = false) :
      Moves api builder r (.reconnect sawStop timeout d) { r with loop := .receiving } []
  | timeout (sawStop : Bool) (d : D) (hloop : r.loop = .receiving) :
      Moves api builder r (.reconnect sawStop true d) { r with loop := .top } []
  | take (sawStop : Bool) (d : D) (hloop : r.loop = .receiving) :
      Moves api builder r (.reconnect sawStop false d)
        { sender := { r.sender with reconnect := r.sender.reconnect.take },
          loop := match r.sender.reconnect.take.pc with
            | .building _ => .building
            | _ => .top } []
  | finish (sawStop timeout : Bool) (d : D) (hloop : r.loop = .building) {rc : Reconnect H Q}
      (h : r.sender.reconnect.finish builder d = .ok rc) :
      Moves api builder r (.reconnect sawStop timeout d)
        { sender := { r.sender with reconnect := rc }, loop := .top } []
  | stay (sawStop timeout : Bool) (d : D) (hloop : r.loop = .returned) :
      Moves api builder r (.reconnect sawStop timeout d) r []

theorem step_moves (h : r.step api builder a = .ok (r', evs)) : Moves api builder r a r' evs := by
  cases a with
  | worker j inp =>
      obtain ⟨⟨s', evs'⟩, hs, h⟩ := bind_eq_ok.mp h
      obtain ⟨rfl, rfl⟩ := Prod.mk.inj (Except.ok.inj h)
      exact .worker j inp hs
  | lane sawStop =>
      obtain ⟨⟨s', evs'⟩, hs, h⟩ := bind_eq_ok.mp h
      obtain ⟨rfl, rfl⟩ := Prod.mk.inj (Except.ok.inj h)
      exact .lane sawStop hs
  | shutdown =>
      obtain ⟨rfl, rfl⟩ := Prod.mk.inj (Except.ok.inj h)
      exact .shutdown
  | reconnect sawStop timeout d =>
      simp only [step] at h
      cases hloop : r.loop with
      | top =>
          simp only [hloop] at h
          split at h
          · rename_i hstop
            have hset : r.sender.stop = true := (Bool.and_eq_true_iff.mp hstop).2
            rw [Sender.step, if_pos hset] at h
            obtain ⟨rfl, rfl⟩ := Prod.mk.inj (Except.ok.inj h)
            exact .exit sawStop timeout d hloop hset
          · rename_i hstop
            obtain ⟨rfl, rfl⟩ := Prod.mk.inj (Except.ok.inj h)
            exact .receive sawStop timeout d hloop (Bool.eq_false_iff.mpr hstop)
      | receiving =>
          simp only [hloop] at h
          cases timeout with
          | true =>
              obtain ⟨rfl, rfl⟩ := Prod.mk.inj (Except.ok.inj h)
              exact .timeout sawStop d hloop
          | false =>
              obtain ⟨rfl, rfl⟩ := Prod.mk.inj (Except.ok.inj h)
              exact .take sawStop d hloop
      | building =>
          simp only [hloop, Sender.step] at h
          obtain ⟨⟨s', evs'⟩, hs, h⟩ := bind_eq_ok.mp h
          obtain ⟨rc, hfin, hs⟩ := bind_eq_ok.mp hs
          obtain ⟨rfl, rfl⟩ := Prod.mk.inj (Except.ok.inj hs)
          obtain ⟨rfl, rfl⟩ := Prod.mk.inj (Except.ok.inj h)
          exact .finish sawStop timeout d hloop hfin
      | returned =>
          simp only [hloop] at h
          obtain ⟨rfl, rfl⟩ := Prod.mk.inj (Except.ok.inj h)
          exact .stay sawStop timeout d hloop

/-- A step of a thread is a step of the sender, or none. -/
theorem step_sender (h : r.step api builder a = .ok (r', evs)) :
    ∃ actions, (Sender.machine api builder).run r.sender actions = .ok (r'.sender, evs) := by
  have one : ∀ action {s' evs}, r.sender.step api builder action = .ok (s', evs) →
      ∃ actions, (Sender.machine api builder).run r.sender actions = .ok (s', evs) := by
    intro action s' evs hs
    exact ⟨[action], Machine.run_cons_eq_ok.mpr ⟨s', evs, [], hs, rfl, (List.append_nil _).symm⟩⟩
  cases step_moves h with
  | worker j inp hs => exact one _ hs
  | lane sawStop hs => exact one _ hs
  | shutdown => exact one .shutdown rfl
  | exit sawStop timeout d hloop hstop =>
      refine one .exit ?_
      rw [Sender.step, if_pos hstop]
  | take => exact one .take rfl
  | finish sawStop timeout d hloop hfin =>
      refine one (.finish d) ?_
      simp only [Sender.step, hfin, ok_bind]
      rfl
  | receive | timeout | stay => exact ⟨[], rfl⟩

/-- **Forgetting the loop** leaves a run of the sender. -/
theorem run_sender {actions : List (RunningAction H A Q K D)} {log : List (Logged H A)}
    (h : (machine api builder).run r actions = .ok (r', log)) :
    ∃ actions', (Sender.machine api builder).run r.sender actions' = .ok (r'.sender, log) := by
  refine Machine.run_invariant (machine api builder)
    (fun r' log => ∃ actions', (Sender.machine api builder).run r.sender actions' = .ok (r'.sender, log))
    ⟨[], rfl⟩ ?_ h
  rintro s log a s' evs ⟨before, hbefore⟩ hstep
  obtain ⟨one, hone⟩ := step_sender hstep
  exact ⟨before ++ one, Machine.run_append hbefore hone⟩

end Running

/-! ## What the threads have left to do -/

/-- How many steps a worker is away from its return, when it reads that the flag is set. -/
def ParWorker.Pc.left : ParWorker.Pc → Nat
  | .stopped => 0
  | .top => 1
  | .deliver true => 2
  | .idle => 3
  | .deliver false => 4
  | .tick => 5
  | .reap => 6
  | .send _ _ => 7

/-- The same of the worker of `n` providers. -/
def SequentialWorker.Pc.left (n : Nat) : SequentialWorker.Pc → Nat
  | .stopped => 0
  | .top => 1
  | .publish true => 2
  | .deliver i true => n - i + 3
  | .idle => n + 4
  | .publish false => n + 5
  | .deliver i false => n - i + n + 6
  | .tick => 2 * n + 7
  | .reap i => n - i + 2 * n + 8
  | .kick i => n - i + 3 * n + 9
  | .send _ _ i => n - i + 4 * n + 10

theorem ParWorker.step_left {api : ConnApi H A Q K} {w w' : ParWorker H Q} {pc pc' : Pc}
    {inp : Input H A Q K} {logs : List (Logged H A)} (hstop : inp.stop = true) (hpc : pc ≠ .stopped)
    (h : step api (w, pc) inp = .ok ((w', pc'), logs)) : pc'.left + 1 ≤ pc.left := by
  cases pc with
  | top =>
      simp only [step, hstop, if_true] at h
      cases h
      exact Nat.le_refl _
  | send job sent =>
      obtain ⟨_, -, h⟩ := bind_eq_ok.mp h
      cases h
      exact Nat.le_refl _
  | reap =>
      obtain ⟨_, -, h⟩ := bind_eq_ok.mp h
      cases h
      exact Nat.le_refl _
  | tick =>
      obtain ⟨-, rfl⟩ := Prod.mk.inj (Prod.mk.inj (Except.ok.inj h)).1
      split <;> decide
  | deliver idle =>
      obtain ⟨-, rfl⟩ := Prod.mk.inj (Prod.mk.inj (Except.ok.inj h)).1
      cases idle <;> decide
  | idle =>
      obtain ⟨-, rfl⟩ := Prod.mk.inj (Prod.mk.inj (Except.ok.inj h)).1
      split <;> decide
  | stopped => exact absurd rfl hpc

theorem SequentialWorker.step_left {api : ConnApi H A Q K} {s s' : SequentialWorker H Q} {pc pc' : Pc}
    {inp : Input H A Q K} {logs : List (Logged H A)} (hs : s.Sized) (hstop : inp.stop = true)
    (hpc : pc ≠ .stopped) (h : step api (s, pc) inp = .ok ((s', pc'), logs)) :
    pc'.left s.conns.length + 1 ≤ pc.left s.conns.length := by
  cases step_turn hs h with
  | stop => exact Nat.le_refl _
  | pop _ hgo | nothing hgo =>
      rw [hstop] at hgo
      cases hgo
  | send job sent k hp hsend =>
      have hk := (List.getElem?_eq_some_iff.mp hp.conns).1
      simp only [Pc.left]
      omega
  | kick k hp =>
      have hk := (List.getElem?_eq_some_iff.mp hp.conns).1
      simp only [Pc.left]
      omega
  | reap k hp hreap =>
      have hk := (List.getElem?_eq_some_iff.mp hp.conns).1
      simp only [Pc.left]
      omega
  | sendEnd | kickEnd | reapEnd =>
      simp only [Pc.left]
      omega
  | tick =>
      split <;> simp only [Pc.left] <;> omega
  | install k idle idx c hk | noInstall k idle hk =>
      cases idle <;> simp only [Pc.left] <;> omega
  | deliverEnd k idle hk =>
      cases idle <;> simp only [Pc.left] <;> omega
  | publish idle =>
      cases idle <;> simp [Pc.left]
  | idle =>
      split <;> simp only [Pc.left] <;> omega
  | stopped => exact absurd rfl hpc

namespace Workers

/-- The steps of all worker threads together. -/
def left : Workers H Q → Nat
  | .sequential s pc => pc.left s.conns.length
  | .parallel ws => (ws.map fun w => w.2.left).sum

/-- Thread `j` has not returned. -/
def going : Workers H Q → Nat → Bool
  | .sequential _ pc, 0 => pc ≠ .stopped
  | .parallel ws, j =>
      match ws[j]? with
      | some (_, pc) => pc ≠ .stopped
      | none => false
  | _, _ => false

theorem step_left {api : ConnApi H A Q K} {n : Nat} {kind : ConnKind} {ws ws' : Workers H Q} {j : Nat}
    {inp : Input H A Q K} {logs : List (Logged H A)} (hw : ws.Wired n kind) (hstop : inp.stop = true)
    (h : ws.step api j inp = .ok (ws', logs)) (hgoing : ws.going j = true) :
    ws'.left + 1 ≤ ws.left := by
  cases ws with
  | sequential s pc =>
      cases j with
      | succ j => cases hgoing
      | zero =>
          obtain ⟨⟨⟨s', pc'⟩, evs⟩, hstep, h⟩ := bind_eq_ok.mp h
          cases h
          have hs := hw.sized s pc rfl
          have hlen := (SequentialWorker.step_stepped hs hstep).length
          have hleft := SequentialWorker.step_left hs hstop (of_decide_eq_true hgoing) hstep
          simp only [left, hlen]
          exact hleft
  | parallel ws =>
      simp only [step] at h
      simp only [going] at hgoing
      cases hj : ws[j]? with
      | none =>
          rw [hj] at hgoing
          cases hgoing
      | some st =>
          obtain ⟨w, pc⟩ := st
          rw [hj] at h hgoing
          obtain ⟨⟨⟨w', pc'⟩, evs⟩, hstep, h⟩ := bind_eq_ok.mp h
          cases h
          have hleft := ParWorker.step_left hstop (of_decide_eq_true hgoing) hstep
          have hsum : ((ws.set j (w', pc')).map fun w => w.2.left).sum + pc.left =
              (ws.map fun w => w.2.left).sum + pc'.left := sum_map_set hj (w', pc')
          simp only [left]
          omega

/-- A thread that has returned does nothing. -/
theorem step_returned {api : ConnApi H A Q K} {ws ws' : Workers H Q} {j : Nat} {inp : Input H A Q K}
    {logs : List (Logged H A)} (h : ws.step api j inp = .ok (ws', logs)) (hgoing : ws.going j = false) :
    ws' = ws ∧ logs = [] := by
  cases ws with
  | sequential s pc =>
      cases j with
      | succ j =>
          cases h
          exact ⟨rfl, rfl⟩
      | zero =>
          have hpc : pc = .stopped := by simpa [going] using hgoing
          subst hpc
          cases h
          exact ⟨rfl, rfl⟩
  | parallel ws =>
      simp only [step] at h
      simp only [going] at hgoing
      cases hj : ws[j]? with
      | none =>
          rw [hj] at h
          cases h
          exact ⟨rfl, rfl⟩
      | some st =>
          obtain ⟨w, pc⟩ := st
          rw [hj] at h hgoing
          have hpc : pc = .stopped := by simpa using hgoing
          subst hpc
          obtain ⟨⟨⟨w', pc'⟩, evs⟩, hstep, h⟩ := bind_eq_ok.mp h
          cases hstep
          cases h
          exact ⟨congrArg Workers.parallel (set_of_getElem? hj), rfl⟩

/-- A thread that has returned does not come back. -/
theorem going_back {api : ConnApi H A Q K} {ws ws' : Workers H Q} {j k : Nat} {inp : Input H A Q K}
    {logs : List (Logged H A)} (h : ws.step api j inp = .ok (ws', logs)) (hgoing : ws'.going k = true) :
    ws.going k = true := by
  cases hreturned : ws.going k with
  | true => rfl
  | false =>
      by_cases hkj : k = j
      · subst hkj
        obtain ⟨rfl, -⟩ := step_returned h hreturned
        exact hreturned.symm.trans hgoing
      · -- the step of another thread
        cases ws with
        | sequential s pc =>
            cases j with
            | succ j =>
                cases h
                exact hreturned.symm.trans hgoing
            | zero =>
                obtain ⟨⟨⟨s', pc'⟩, evs⟩, -, h⟩ := bind_eq_ok.mp h
                cases h
                cases k with
                | zero => exact absurd rfl hkj
                | succ k => exact hreturned.symm.trans hgoing
        | parallel ws =>
            simp only [step] at h
            split at h
            · obtain ⟨st, -, h⟩ := bind_eq_ok.mp h
              cases h
              simp only [going, List.getElem?_set_ne (Ne.symm hkj)] at hgoing
              exact hreturned.symm.trans hgoing
            · cases h
              exact hreturned.symm.trans hgoing

theorem Wired.length_parallel {n : Nat} {kind : ConnKind} {ws : List (ParWorker H Q × ParWorker.Pc)}
    (hw : (Workers.parallel ws).Wired n kind) : ws.length = n := by
  rcases Nat.lt_trichotomy ws.length n with hlt | heq | hgt
  · obtain ⟨p, hp⟩ := hw.here _ hlt
    simp [view] at hp
  · exact heq
  · have hview : (Workers.parallel ws).view n = some (ws.get ⟨n, hgt⟩).1 := by
      simp [view, List.getElem?_eq_getElem hgt]
    exact absurd (hw.ends n _ hview).lt (Nat.lt_irrefl n)

theorem left_le {n : Nat} {kind : ConnKind} {ws : Workers H Q} (hw : ws.Wired n kind) :
    ws.left ≤ 7 * n + 10 := by
  cases ws with
  | sequential s pc =>
      rw [left, hw.length]
      cases pc with
      | deliver i idle => cases idle <;> simp only [SequentialWorker.Pc.left] <;> omega
      | publish idle => cases idle <;> simp only [SequentialWorker.Pc.left] <;> omega
      | _ =>
          simp only [SequentialWorker.Pc.left]
          omega
  | parallel ws =>
      have hone : ∀ x ∈ ws.map fun w => w.2.left, x ≤ 7 := by
        intro x hx
        obtain ⟨⟨w, pc⟩, -, rfl⟩ := List.mem_map.mp hx
        cases pc with
        | deliver idle => cases idle <;> simp only [ParWorker.Pc.left] <;> omega
        | _ =>
            simp only [ParWorker.Pc.left]
            omega
      have hsum := List.sum_le_card_nsmul _ 7 hone
      rw [List.length_map, hw.length_parallel, smul_eq_mul] at hsum
      rw [left]
      omega

/-- All threads have returned. -/
theorem stopped_iff_not_going {n : Nat} {kind : ConnKind} {ws : Workers H Q} (hw : ws.Wired n kind) :
    ws.stopped = true ↔ ∀ j, ws.going j = false := by
  cases ws with
  | sequential s pc =>
      constructor
      · intro h j
        cases j with
        | zero => simpa [going, stopped] using h
        | succ j => rfl
      · intro h
        simpa [going, stopped] using h 0
  | parallel ws =>
      simp only [stopped, going, List.all_eq_true, decide_eq_true_eq]
      constructor
      · intro h j
        cases hj : ws[j]? with
        | none => rfl
        | some st => simpa using h st (List.mem_of_getElem? hj)
      · intro h st hst
        obtain ⟨j, hj⟩ := List.mem_iff_getElem?.mp hst
        simpa [hj] using h j

end Workers

end TxSender.Transport

namespace TxSender.ResultLane

open TxSender.Lib

/-- How many responses wait in the rings. -/
def waiting (l : ResultLane) : Nat := (l.rings.map List.length).sum

/-- How many steps the lane is away from its return, if nothing more is pushed. -/
def left (l : ResultLane) : Nat :=
  match l.pc with
  | .stopped => 0
  | .top => 1
  | .ring i => l.waiting + (l.rings.length - i) + 2

theorem step_left {l l' : ResultLane} (h : l.step true = .ok l') (hpc : l.pc ≠ .stopped) :
    l'.left + 1 ≤ l.left := by
  unfold step at h
  split at h
  · rename_i htop
    obtain rfl := Except.ok.inj h
    simp only [left, htop, if_true]
    exact Nat.le_refl _
  · rename_i i hring
    split at h
    · rename_i resp rest hqueue
      obtain ⟨codec, -, h⟩ := bind_eq_ok.mp h
      obtain rfl := Except.ok.inj h
      have hsum : ((l.rings.set i rest).map List.length).sum + (resp :: rest).length =
          (l.rings.map List.length).sum + rest.length := sum_map_set hqueue rest
      simp only [left, waiting, hring, List.length_set]
      rw [List.length_cons] at hsum
      omega
    · rename_i hqueue
      obtain rfl := Except.ok.inj h
      have hi := (List.getElem?_eq_some_iff.mp hqueue).1
      simp only [left, waiting, hring]
      omega
    · obtain rfl := Except.ok.inj h
      simp only [left, hring]
      omega
  · rename_i hstopped
    exact absurd hstopped hpc

theorem push_waiting (l : ResultLane) (ring : Nat) (resp : RawResp) :
    (l.push ring resp).waiting ≤ l.waiting + 1 ∧
      (l.push ring resp).rings.length = l.rings.length := by
  unfold push
  split
  · rename_i queue hqueue
    split
    · have hsum : ((l.rings.set ring (queue ++ [resp])).map List.length).sum + queue.length =
          (l.rings.map List.length).sum + (queue ++ [resp]).length := sum_map_set hqueue _
      rw [List.length_append, List.length_singleton] at hsum
      refine ⟨?_, List.length_set⟩
      simp only [waiting]
      omega
    · exact ⟨Nat.le_succ _, rfl⟩
  · exact ⟨Nat.le_succ _, rfl⟩

theorem pushes_left (l : ResultLane) (xs : List (Nat × RawResp)) :
    (xs.foldl (fun l x => l.push x.1 x.2) l).left ≤ l.left + xs.length ∧
      (xs.foldl (fun l x => l.push x.1 x.2) l).rings.length = l.rings.length := by
  induction xs generalizing l with
  | nil => exact ⟨Nat.le_refl _, rfl⟩
  | cons x xs ih =>
      obtain ⟨hwaiting, hlength⟩ := l.push_waiting x.1 x.2
      have hone : (l.push x.1 x.2).left ≤ l.left + 1 := by
        rw [left, left, push_pc, hlength]
        split <;> omega
      obtain ⟨hrest, hsame⟩ := ih (l.push x.1 x.2)
      rw [List.foldl_cons, List.length_cons]
      exact ⟨by omega, hsame.trans hlength⟩

/-- A lane that does not read a set flag does not return. -/
theorem step_goes {l l' : ResultLane} (h : l.step false = .ok l') (hpc : l.pc ≠ .stopped) :
    l'.pc ≠ .stopped := by
  rcases step_cases h with ⟨-, rfl⟩ | ⟨_, _, _, _, -, -, -, rfl⟩ | ⟨_, _, -, hgo, rfl⟩ | ⟨hstopped, -⟩
  · simp
  · exact hpc
  · exact hgo
  · exact absurd hstopped hpc

end TxSender.ResultLane

namespace TxSender.Transport

open TxSender.Lib
open TxSender.Protocol
open TxSender.Backend
open TxSender.Provider

variable {H A Q K D : Type}

def LoopPc.left : LoopPc → Nat
  | .returned => 0
  | .top => 1
  | .building => 2
  | .receiving => 3

/-! ## The whole sender -/

/-- Whose step it is. -/
def RunningAction.thread : RunningAction H A Q K D → Option Thread
  | .worker j _ => some (.worker j)
  | .lane _ => some .lane
  | .reconnect _ _ _ => some .reconnect
  | .shutdown => none

/-- If the step reads the flag, it sees that it is set. -/
def RunningAction.sees : RunningAction H A Q K D → Bool
  | .worker _ inp => inp.stop
  | .lane sawStop => sawStop
  | .reconnect sawStop _ _ => sawStop
  | .shutdown => true

namespace Running

/-- The thread has not returned. -/
def runs (r : Running H Q) : Thread → Bool
  | .worker j => r.sender.workers.going j
  | .lane => r.sender.lane.pc ≠ .stopped
  | .reconnect => r.loop ≠ .returned

/-- The step is one of a thread that has not returned. -/
def going (r : Running H Q) (a : RunningAction H A Q K D) : Bool := a.thread.any r.runs

/-- The steps of all threads together; a worker's step may give the lane one more. -/
def left (r : Running H Q) : Nat := 2 * r.sender.workers.left + r.sender.lane.left + r.loop.left

variable {api : ConnApi H A Q K} {builder : ReconnectBuilder H Q D} {r r' : Running H Q}
  {a : RunningAction H A Q K D} {evs : List (Logged H A)}

/-- The reconnect thread is where its loop says. -/
def Agrees : LoopPc → ReconnectPc → Prop
  | .top, pc | .receiving, pc => pc = .waiting
  | .building, pc => ∃ req, pc = .building req
  | .returned, pc => pc = .exited

theorem pc_request (rc : Reconnect H Q) (req : ReconnectReq) : (rc.request req).pc = rc.pc := by
  unfold Reconnect.request
  split <;> rfl

theorem pc_foldl_request (rc : Reconnect H Q) (reqs : List ReconnectReq) :
    (reqs.foldl Reconnect.request rc).pc = rc.pc := by
  induction reqs generalizing rc with
  | nil => rfl
  | cons req reqs ih => rw [List.foldl_cons, ih, pc_request]

theorem pc_respond (rc : Reconnect H Q) (idx : Nat) (conn : ConnBox H Q) :
    (rc.respond idx conn).pc = rc.pc := by
  unfold Reconnect.respond
  split <;> rfl

theorem pc_finish {rc rc' : Reconnect H Q} {d : D} {req : ReconnectReq} (hpc : rc.pc = .building req)
    (h : rc.finish builder d = .ok rc') : rc'.pc = .waiting := by
  unfold Reconnect.finish at h
  rw [hpc] at h
  obtain ⟨built, -, h⟩ := bind_eq_ok.mp h
  cases built with
  | ok conn =>
      obtain rfl := Except.ok.inj h
      exact pc_respond _ _ _
  | error e =>
      obtain rfl := Except.ok.inj h
      rfl

theorem pc_take {rc : Reconnect H Q} (hpc : rc.pc = .waiting) :
    rc.take.pc = .waiting ∨ ∃ req, rc.take.pc = .building req := by
  unfold Reconnect.take
  rw [hpc]
  split
  · split
    · exact .inl rfl
    · exact .inr ⟨_, rfl⟩
  · exact .inl hpc

theorem pc_afterRecv (s : Sender H Q) (j : Nat) : (s.afterRecv j).pc = s.reconnect.pc := by
  unfold Sender.afterRecv
  split <;> rfl

/-- What every run of a sender that was built keeps. -/
structure Inv (n : Nat) (kind : ConnKind) (made : Nat → Built H Q → Prop) (r : Running H Q) : Prop where
  wired : r.sender.Wired n kind made
  agrees : Agrees r.loop r.sender.reconnect.pc
  lane : ∃ codecs : List Codec, codecs.length = n ∧ r.sender.lane.Tracked codecs fun _ _ => True

section Step

variable {n : Nat} {kind : ConnKind} {connectOne : Nat → D → Exec (Except SenderError (Built H Q))}

theorem agrees_step (hw : r.sender.Wired n kind fun i c => ∃ d, connectOne i d = .ok (.ok c))
    (h : Agrees r.loop r.sender.reconnect.pc)
    (hstep : r.step api (engineReconnectBuilder connectOne) a = .ok (r', evs)) :
    Agrees r'.loop r'.sender.reconnect.pc := by
  cases step_moves hstep with
  | worker j inp hs =>
      obtain ⟨-, -, -, hrec, -, -⟩ := Sender.step_worker hw hs
      rw [hrec, pc_foldl_request, pc_afterRecv]
      exact h
  | lane sawStop hs =>
      obtain ⟨lane, -, hs⟩ := bind_eq_ok.mp hs
      obtain ⟨rfl, rfl⟩ := Prod.mk.inj (Except.ok.inj hs)
      exact h
  | shutdown => exact h
  | exit sawStop timeout d hloop hstop =>
      rw [hloop] at h
      have hpc : r.sender.reconnect.pc = .waiting := h
      simp only [Agrees, Reconnect.exit, hpc]
  | receive sawStop timeout d hloop hstop =>
      rw [hloop] at h
      exact h
  | timeout sawStop d hloop =>
      rw [hloop] at h
      exact h
  | take sawStop d hloop =>
      rw [hloop] at h
      have hpc : r.sender.reconnect.pc = .waiting := h
      show Agrees (match r.sender.reconnect.take.pc with | .building _ => .building | _ => .top) _
      rcases pc_take hpc with hwait | ⟨req, hbuild⟩
      · rw [hwait]
        rfl
      · rw [hbuild]
        exact ⟨req, rfl⟩
  | finish sawStop timeout d hloop hfin =>
      rw [hloop] at h
      obtain ⟨req, hpc⟩ := h
      exact pc_finish hpc hfin
  | stay => exact h

theorem wired_step (h : r.sender.Wired n kind fun i c => ∃ d, connectOne i d = .ok (.ok c))
    (hstep : r.step api (engineReconnectBuilder connectOne) a = .ok (r', evs)) :
    r'.sender.Wired n kind fun i c => ∃ d, connectOne i d = .ok (.ok c) := by
  obtain ⟨actions, hrun⟩ := step_sender hstep
  exact Machine.run_invariant _ (fun s _ => s.Wired n kind fun i c => ∃ d, connectOne i d = .ok (.ok c)) h
    (fun _ _ _ _ _ hs hone => Sender.wired_step hs hone) hrun

theorem inv_step (h : r.Inv n kind fun i c => ∃ d, connectOne i d = .ok (.ok c))
    (hstep : r.step api (engineReconnectBuilder connectOne) a = .ok (r', evs)) :
    r'.Inv n kind fun i c => ∃ d, connectOne i d = .ok (.ok c) := by
  refine ⟨wired_step h.wired hstep, agrees_step h.wired h.agrees hstep, ?_⟩
  obtain ⟨codecs, hcodecs, htracked⟩ := h.lane
  refine ⟨codecs, hcodecs, ?_⟩
  cases step_moves hstep with
  | worker j inp hs =>
      obtain ⟨-, -, -, -, hlane, -⟩ := Sender.step_worker h.wired hs
      rw [hlane]
      exact tracked_foldl_push htracked fun _ _ => trivial
  | lane sawStop hs =>
      obtain ⟨lane, hlane, hs⟩ := bind_eq_ok.mp hs
      obtain ⟨rfl, rfl⟩ := Prod.mk.inj (Except.ok.inj hs)
      exact htracked.step hlane
  | _ => exact htracked

/-- Nobody takes the flag back. -/
theorem stop_step (h : r.sender.Wired n kind fun i c => ∃ d, connectOne i d = .ok (.ok c))
    (hstop : r.sender.stop = true)
    (hstep : r.step api (engineReconnectBuilder connectOne) a = .ok (r', evs)) :
    r'.sender.stop = true := by
  cases step_moves hstep with
  | worker j inp hs => exact (Sender.step_worker h hs).2.2.2.2.2.trans hstop
  | lane sawStop hs =>
      obtain ⟨lane, -, hs⟩ := bind_eq_ok.mp hs
      obtain ⟨rfl, rfl⟩ := Prod.mk.inj (Except.ok.inj hs)
      exact hstop
  | shutdown => rfl
  | _ => exact hstop

/-- **One step** with the flag set: nothing is added to what is left, and a thread that has not returned
takes something off. -/
theorem left_step (h : r.Inv n kind fun i c => ∃ d, connectOne i d = .ok (.ok c))
    (hstop : r.sender.stop = true) (hsees : a.sees = true)
    (hstep : r.step api (engineReconnectBuilder connectOne) a = .ok (r', evs)) :
    (r.going a = true → r'.left + 1 ≤ r.left) ∧ (r.going a = false → r'.left ≤ r.left) := by
  cases step_moves hstep with
  | @worker j inp s' _ hs =>
      obtain ⟨hone, -, -, -, hlane, -⟩ := Sender.step_worker h.wired hs
      have hreads : (r.sender.hand j inp).stop = true := by
        have hinp : inp.stop = true := hsees
        simp only [Sender.hand, hinp, hstop, Bool.and_self]
      have hpushed : s'.lane.left ≤ r.sender.lane.left + (pushesIn evs).length := by
        rw [hlane]
        exact (ResultLane.pushes_left _ _).1
      simp only [left]
      refine ⟨fun hgoing => ?_, fun hreturned => ?_⟩
      · have hless := Workers.step_left h.wired.workers hreads hone hgoing
        have hatmost : (pushesIn evs).length ≤ 1 := by
          rcases Workers.step_pushes h.wired.workers hone with ⟨-, _, _, -, hpush⟩ | ⟨-, hnone⟩
          · rw [hpush]
            exact Nat.le_refl _
          · rw [hnone]
            exact Nat.zero_le _
        omega
      · obtain ⟨hsame, rfl⟩ := Workers.step_returned hone hreturned
        have hnothing : (pushesIn ([] : List (Logged H A))).length = 0 := rfl
        rw [hsame]
        omega
  | lane sawStop hs =>
      obtain ⟨lane, hlane, hs⟩ := bind_eq_ok.mp hs
      obtain ⟨rfl, rfl⟩ := Prod.mk.inj (Except.ok.inj hs)
      have hreads : (sawStop && r.sender.stop) = true := by
        have hsaw : sawStop = true := hsees
        rw [hsaw, hstop, Bool.and_self]
      rw [hreads] at hlane
      simp only [left]
      refine ⟨fun hgoing => ?_, fun hreturned => ?_⟩
      · have hless := ResultLane.step_left hlane (of_decide_eq_true hgoing)
        omega
      · have hpc : r.sender.lane.pc = .stopped := not_not.mp (of_decide_eq_false hreturned)
        unfold ResultLane.step at hlane
        rw [hpc] at hlane
        rw [← Except.ok.inj hlane]
  | shutdown => exact ⟨fun h => absurd h Bool.false_ne_true, fun _ => Nat.le_refl _⟩
  | exit sawStop timeout d hloop _ =>
      simp only [left, going, RunningAction.thread, Option.any_some, runs, hloop, LoopPc.left]
      exact ⟨fun _ => Nat.le_refl _, fun h => absurd h (by decide)⟩
  | receive sawStop timeout d hloop hflag =>
      have hsaw : sawStop = true := hsees
      rw [hsaw, hstop] at hflag
      cases hflag
  | timeout sawStop d hloop =>
      simp only [left, going, RunningAction.thread, Option.any_some, runs, hloop, LoopPc.left]
      exact ⟨fun _ => by omega, fun h => absurd h (by decide)⟩
  | take sawStop d hloop =>
      have hless : (match r.sender.reconnect.take.pc with | .building _ => .building | _ => .top :
          LoopPc).left + 1 ≤ LoopPc.receiving.left := by
        split <;> decide
      simp only [left, going, RunningAction.thread, Option.any_some, runs, hloop]
      exact ⟨fun _ => by omega, fun h => absurd h (by decide)⟩
  | finish sawStop timeout d hloop hfin =>
      simp only [left, going, RunningAction.thread, Option.any_some, runs, hloop, LoopPc.left]
      exact ⟨fun _ => Nat.le_refl _, fun h => absurd h (by decide)⟩
  | stay sawStop timeout d hloop =>
      simp only [going, RunningAction.thread, Option.any_some, runs, hloop]
      exact ⟨fun h => absurd h (by decide), fun _ => Nat.le_refl _⟩

theorem Inv.left_le (h : r.Inv n kind fun i c => ∃ d, connectOne i d = .ok (.ok c)) :
    r.left ≤ 15 * n + 25 + r.sender.lane.waiting := by
  have hworkers := Workers.left_le h.wired.workers
  have hlane : r.sender.lane.left ≤ r.sender.lane.waiting + n + 2 := by
    obtain ⟨codecs, hcodecs, htracked⟩ := h.lane
    rw [ResultLane.left, htracked.length, hcodecs]
    split <;> omega
  have hloop : r.loop.left ≤ 3 := by
    cases r.loop <;> decide
  rw [left]
  omega

/-- The sender is down when each of its threads has returned. -/
theorem down_iff (h : r.Inv n kind fun i c => ∃ d, connectOne i d = .ok (.ok c))
    (hstop : r.sender.stop = true) : r.sender.Down ↔ ∀ t, r.runs t = false := by
  have hworkers := Workers.stopped_iff_not_going h.wired.workers
  have hloop : r.loop = .returned ↔ r.sender.reconnect.pc = .exited := by
    have hagrees := h.agrees
    cases hpc : r.loop with
    | returned =>
        rw [hpc] at hagrees
        exact iff_of_true rfl hagrees
    | top | receiving =>
        rw [hpc] at hagrees
        rw [show r.sender.reconnect.pc = .waiting from hagrees]
        exact iff_of_false (by simp) (by simp)
    | building =>
        rw [hpc] at hagrees
        obtain ⟨req, hreq⟩ := hagrees
        rw [hreq]
        exact iff_of_false (by simp) (by simp)
  constructor
  · intro hdown t
    cases t with
    | worker j => exact hworkers.mp hdown.workers j
    | lane => simp [runs, hdown.lane]
    | reconnect => simp [runs, hloop.mpr hdown.reconnect]
  · intro hall
    refine ⟨hstop, hworkers.mpr fun j => hall (.worker j), ?_, hloop.mp ?_⟩
    · simpa [runs] using hall .lane
    · simpa [runs] using hall .reconnect

/-! ## Which steps return -/

/-- The call that a worker makes in this step returns, or the build of the reconnect thread. -/
def Returns (api : ConnApi H A Q K) (builder : ReconnectBuilder H Q D) (r : Running H Q) :
    RunningAction H A Q K D → Prop
  | .worker j inp => r.sender.workers.CallReturns api (fun _ => True) j (r.sender.hand j inp)
  | .reconnect _ _ d => r.loop = .building → ∃ rc, r.sender.reconnect.finish builder d = .ok rc
  | .lane _ | .shutdown => True

theorem reconnect_returns_iff {sawStop timeout : Bool} {d : D} :
    (∃ out, r.step api builder (.reconnect sawStop timeout d) = .ok out) ↔
      (r.Returns api builder (.reconnect sawStop timeout d)) := by
  cases hloop : r.loop with
  | top | receiving =>
      refine iff_of_true ?_ ?_
      · simp only [step, hloop]
        split
        · exact ⟨_, rfl⟩
        · exact ⟨_, rfl⟩
      · intro hbuilding
        cases hloop.symm.trans hbuilding
  | returned =>
      refine iff_of_true ?_ ?_
      · simp only [step, hloop]
        exact ⟨_, rfl⟩
      · intro hbuilding
        cases hloop.symm.trans hbuilding
  | building =>
      simp only [step, hloop]
      constructor
      · rintro ⟨out, h⟩ -
        obtain ⟨x, hfinish, -⟩ := bind_eq_ok.mp h
        obtain ⟨rc, hrc, -⟩ := bind_eq_ok.mp hfinish
        exact ⟨rc, hrc⟩
      · intro h
        obtain ⟨rc, hrc⟩ := h hloop
        simp only [Sender.step, hrc, ok_bind]
        exact ⟨_, rfl⟩

/-- **A step returns exactly when its call does**: nothing else that a thread does can halt. -/
theorem step_returns_iff (h : r.Inv n kind fun i c => ∃ d, connectOne i d = .ok (.ok c)) :
    (∃ out, r.step api (engineReconnectBuilder connectOne) a = .ok out) ↔
      r.Returns api (engineReconnectBuilder connectOne) a := by
  cases a with
  | worker j inp =>
      refine Iff.trans ?_ (Workers.step_returns_iff h.wired.workers (h.wired.hand_lt j inp))
      constructor
      · rintro ⟨out, h⟩
        obtain ⟨x, hsender, -⟩ := bind_eq_ok.mp h
        obtain ⟨y, hworkers, -⟩ := bind_eq_ok.mp hsender
        exact ⟨y, hworkers⟩
      · rintro ⟨y, hworkers⟩
        simp only [step, Sender.step, hworkers, ok_bind]
        exact ⟨_, rfl⟩
  | lane sawStop =>
      obtain ⟨codecs, -, htracked⟩ := h.lane
      obtain ⟨lane, hlane⟩ := htracked.step_ok (sawStop && r.sender.stop)
      refine iff_of_true ?_ trivial
      simp only [step, Sender.step, hlane, ok_bind]
      exact ⟨_, rfl⟩
  | reconnect sawStop timeout d => exact reconnect_returns_iff
  | shutdown => exact iff_of_true ⟨_, rfl⟩ trivial

theorem run_returns_iff (h : r.Inv n kind fun i c => ∃ d, connectOne i d = .ok (.ok c))
    (actions : List (RunningAction H A Q K D)) :
    (∃ r' log, (machine api (engineReconnectBuilder connectOne)).run r actions = .ok (r', log)) ↔
      (machine api (engineReconnectBuilder connectOne)).Meets
        (Returns api (engineReconnectBuilder connectOne)) r actions :=
  Machine.returns_iff_meets _ (fun r => r.Inv n kind fun i c => ∃ d, connectOne i d = .ok (.ok c)) _
    (fun _ _ _ _ h hone => inv_step h hone) (fun _ _ h => step_returns_iff h) h actions

theorem inv_run (h : r.Inv n kind fun i c => ∃ d, connectOne i d = .ok (.ok c))
    {actions : List (RunningAction H A Q K D)} {log : List (Logged H A)}
    (hrun : (machine api (engineReconnectBuilder connectOne)).run r actions = .ok (r', log)) :
    r'.Inv n kind fun i c => ∃ d, connectOne i d = .ok (.ok c) :=
  Machine.run_invariant _ (fun r _ => r.Inv n kind fun i c => ∃ d, connectOne i d = .ok (.ok c)) h
    (fun _ _ _ _ _ h hone => inv_step h hone) hrun

theorem inv_start {b : SenderBuilder} {ds : Nat → D × D} {s : Sender H Q}
    (hbuild : b.build connectOne ds = .ok (.ok s)) :
    ∃ kind, (start s).Inv b.providers.length kind fun i c => ∃ d, connectOne i d = .ok (.ok c) := by
  obtain ⟨engine, -, hw, -, hrec, hlane⟩ := build_spec hbuild
  refine ⟨engine.connKind, hw, ?_, b.providers.map ProviderConfig.codec, List.length_map _, ?_⟩
  · show s.reconnect.pc = .waiting
    rw [hrec]
    rfl
  · show s.lane.Tracked _ _
    rw [hlane]
    exact ResultLane.tracked_new

/-! ## Threads that have returned -/

/-- The threads that `build` starts. -/
def threads (s : Sender H Q) : List Thread := .lane :: .reconnect :: s.workers.threads

/-- Nobody starts a thread again. -/
theorem runs_back (hstep : r.step api builder a = .ok (r', evs)) {t : Thread}
    (hruns : r'.runs t = true) : r.runs t = true := by
  cases step_moves hstep with
  | @worker j inp s' _ hs =>
      obtain ⟨_, _, heq, hone, hlane⟩ | ⟨-, -, hother, -⟩ := Sender.step_cases hs
      · cases heq
        cases t with
        | worker k => exact Workers.going_back hone hruns
        | lane =>
            have hpc : s'.lane.pc = r.sender.lane.pc := by
              rw [hlane, ResultLane.pushes_pc]
            simp only [runs, hpc] at hruns
            exact hruns
        | reconnect => exact hruns
      · exact absurd rfl (hother j inp)
  | lane sawStop hs =>
      obtain ⟨lane, hlane, hs⟩ := bind_eq_ok.mp hs
      obtain ⟨rfl, rfl⟩ := Prod.mk.inj (Except.ok.inj hs)
      cases t with
      | lane =>
          refine decide_eq_true ?_
          intro hstopped
          have hsame : lane = r.sender.lane := by
            simp only [ResultLane.step, hstopped] at hlane
            exact (Except.ok.inj hlane).symm
          simp [runs, hsame, hstopped] at hruns
      | worker | reconnect => exact hruns
  | exit _ _ _ hloop | receive _ _ _ hloop | finish _ _ _ hloop | timeout _ _ hloop | take _ _ hloop =>
      -- a step of the reconnect thread, which has not returned
      cases t with
      | reconnect => simp [runs, hloop]
      | worker | lane => exact hruns
  | shutdown | stay => exact hruns

/-- There are no other threads. -/
theorem mem_threads {s : Sender H Q} {t : Thread} (h : (start s).runs t = true) : t ∈ threads s := by
  cases t with
  | lane => exact .head _
  | reconnect => exact .tail _ (.head _)
  | worker j =>
      refine .tail _ (.tail _ ?_)
      have hgoing : s.workers.going j = true := h
      cases hws : s.workers with
      | sequential w pc =>
          rw [hws] at hgoing
          cases j with
          | zero => exact .head _
          | succ j => cases hgoing
      | parallel ws =>
          rw [hws] at hgoing
          refine List.mem_map.mpr ⟨j, List.mem_range.mpr ?_, rfl⟩
          by_contra hout
          simp only [Workers.going, List.getElem?_eq_none (Nat.not_lt.mp hout)] at hgoing
          cases hgoing

/-- As long as a thread has not returned, all its steps count. -/
theorem countP_le_countSteps {actions : List (RunningAction H A Q K D)} {log : List (Logged H A)}
    (hrun : (machine api builder).run r actions = .ok (r', log)) {t : Thread}
    (hruns : r'.runs t = true) :
    actions.countP (fun a => a.thread = some t) ≤
      (machine api builder).countSteps going r actions := by
  refine Machine.countP_le_countSteps _ going (fun r => r.runs t = true) _ ?_ ?_ hrun hruns
  · intro r a r' evs hone hlater
    exact runs_back hone hlater
  · intro r a hruns hthread
    simp only [going, of_decide_eq_true hthread, Option.any_some]
    exact hruns

end Step

end Running

/-- **`shutdown` returns, if the calls do.** Take any moment of any run of a sender that `build` made, with
the sequential or the parallel engine over `raw_libc` or `io_uring`, at which the flag is set, and whatever
comes after it in which the threads see the flag when they read it and every call for a provider and every
build returns. Then all threads together make at most `15 n + 25` steps and one for each response that waited
in a ring, for `n` providers, before they have returned. The sender is down when they have, which is when
`shutdown` returns, and that is the case at the end if each thread was scheduled more often than this. The run
is one of the sender's. -/
theorem shutdown_returns (api : ConnApi H A Q K) (b : SenderBuilder)
    (connectOne : Nat → D → Exec (Except SenderError (Built H Q))) (ds : Nat → D × D)
    (s₀ : Sender H Q) (r₁ : Running H Q) (early late : List (RunningAction H A Q K D))
    (log₁ : List (Logged H A)) (hbuild : b.build connectOne ds = .ok (.ok s₀))
    (hearly : (Running.machine api (engineReconnectBuilder connectOne)).run (.start s₀) early =
      .ok (r₁, log₁))
    (hstop : r₁.sender.stop = true) (hsees : ∀ a ∈ late, a.sees = true)
    (hreturns : (Running.machine api (engineReconnectBuilder connectOne)).Meets
      (Running.Returns api (engineReconnectBuilder connectOne)) r₁ late) :
    ∃ r₂ log₂, (Running.machine api (engineReconnectBuilder connectOne)).run r₁ late =
        .ok (r₂, log₂) ∧
      (Running.machine api (engineReconnectBuilder connectOne)).countSteps Running.going r₁ late ≤
        15 * b.providers.length + 25 + r₁.sender.lane.waiting ∧
      (r₂.sender.Down ↔ ∀ t, r₂.runs t = false) ∧
      ((∀ t ∈ Running.threads s₀, 15 * b.providers.length + 25 + r₁.sender.lane.waiting <
        late.countP (fun a => a.thread = some t)) → r₂.sender.Down) ∧
      ∃ actions, (Sender.machine api (engineReconnectBuilder connectOne)).run s₀ actions =
        .ok (r₂.sender, log₁ ++ log₂) := by
  obtain ⟨kind, hstart⟩ := Running.inv_start hbuild
  have hmid := Running.inv_run hstart hearly
  obtain ⟨r₂, log₂, hlate⟩ := (Running.run_returns_iff hmid late).mpr hreturns
  have hend := Machine.run_invariant _
    (fun r _ => r.Inv b.providers.length kind (fun i c => ∃ d, connectOne i d = .ok (.ok c)) ∧
      r.sender.stop = true) ⟨hmid, hstop⟩
    (fun _ _ _ _ _ h hstep => ⟨Running.inv_step h.1 hstep, Running.stop_step h.1.wired h.2 hstep⟩) hlate
  have hcount := Machine.countSteps_le_of_rank _ Running.going
    (fun r => r.Inv b.providers.length kind (fun i c => ∃ d, connectOne i d = .ok (.ok c)) ∧
      r.sender.stop = true) Running.left
    (fun r r' evs a ha h hstep => by
      obtain ⟨hgoing, hreturned⟩ := Running.left_step h.1 h.2 (hsees a ha) hstep
      refine ⟨⟨Running.inv_step h.1 hstep, Running.stop_step h.1.wired h.2 hstep⟩, ?_⟩
      cases hgo : r.going a with
      | true => exact hgoing hgo
      | false => exact hreturned hgo)
    ⟨hmid, hstop⟩ hlate
  have hleft := hmid.left_le
  have hdown := Running.down_iff hend.1 hend.2
  refine ⟨r₂, log₂, hlate, by omega, hdown, ?_, Running.run_sender (Machine.run_append hearly hlate)⟩
  intro hscheduled
  refine hdown.mpr fun t => ?_
  by_contra hnot
  have hruns : r₂.runs t = true := Bool.eq_true_of_not_eq_false hnot
  -- a thread that has not returned at the end had not returned at any moment before
  have hback : (Running.start s₀).runs t = true :=
    Machine.run_back _ (fun r => r.runs t = true)
      (fun _ _ _ _ hone hlater => Running.runs_back hone hlater) (Machine.run_append hearly hlate) hruns
  have hmany := hscheduled t (Running.mem_threads hback)
  have hall := Running.countP_le_countSteps hlate hruns
  omega

/-- The threads of `bareMachine`. -/
def bareThreads (providers : List ProviderConfig) : Machine
    (Running (HttpConn RawConn Bytes) (QuicEngine Bool))
    (RunningAction (HttpConn RawConn Bytes) RawAnswer (QuicEngine Bool) Bool Bool)
    (Logged (HttpConn RawConn Bytes) RawAnswer) :=
  Running.machine (rawApi Http.plainTls (quinnApi flagQuinn))
    (engineReconnectBuilder (bareConnectOne providers))

/-- Each thread reads the flag. -/
def lastSteps : List (RunningAction (HttpConn RawConn Bytes) RawAnswer (QuicEngine Bool) Bool Bool) :=
  [.worker 0 { Input.quiet RawAnswer.silent false with stop := true }, .lane true,
    .reconnect true false true]

/-- Far more steps than the threads need. -/
def manySteps : List (RunningAction (HttpConn RawConn Bytes) RawAnswer (QuicEngine Bool) Bool Bool) :=
  (List.replicate 41 lastSteps).flatten

theorem shutdown_returns_three :
    ∃ s₀ r₁ r₂ log₁ log₂, (bareSender .parRaw [bareProvider .noResponse]).build
        (bareConnectOne [bareProvider .noResponse]) (fun _ => (true, true)) = .ok (.ok s₀) ∧
      (bareThreads [bareProvider .noResponse]).run (.start s₀) [.shutdown] = .ok (r₁, log₁) ∧
      (bareThreads [bareProvider .noResponse]).run r₁ manySteps = .ok (r₂, log₂) ∧
      (bareThreads [bareProvider .noResponse]).countSteps Running.going r₁ manySteps = 3 ∧
      r₂.sender.Down ∧ ∀ t, r₂.runs t = false := by
  obtain ⟨s₀, hbuild, mid, hmid, out, hout, hstop, hthree, hscheduled⟩ :=
    exists_built (bareSender .parRaw [bareProvider .noResponse])
      (bareConnectOne [bareProvider .noResponse]) (fun _ => (true, true))
      (fun s₀ => ∃ mid ∈ ((bareThreads [bareProvider .noResponse]).run (.start s₀) [.shutdown]).toOption,
        ∃ out ∈ ((bareThreads [bareProvider .noResponse]).run mid.1 manySteps).toOption,
          mid.1.sender.stop = true ∧
            (bareThreads [bareProvider .noResponse]).countSteps Running.going mid.1 manySteps = 3 ∧
            ∀ t ∈ Running.threads s₀, 15 * 1 + 25 + mid.1.sender.lane.waiting <
              manySteps.countP (fun a => a.thread = some t))
      (by decide +kernel)
  have hearly := eq_ok_of_mem_toOption hmid
  have hlate := eq_ok_of_mem_toOption hout
  obtain ⟨kind, hstart⟩ := Running.inv_start hbuild
  have hreturns := (Running.run_returns_iff (Running.inv_run hstart hearly) manySteps).mp ⟨_, _, hlate⟩
  obtain ⟨r₂, log₂, hrun, -, hiff, hdown, -⟩ := shutdown_returns _ _ _ _ s₀ mid.1 _ _ mid.2 hbuild hearly
    hstop (by decide +kernel) hreturns
  exact ⟨s₀, mid.1, r₂, mid.2, log₂, hbuild, hearly, hrun, hthree, hdown hscheduled,
    hiff.mp (hdown hscheduled)⟩

/-! ## No thread gives up -/

/-- A worker that does not read a set flag does not return. -/
theorem ParWorker.step_goes {api : ConnApi H A Q K} {w w' : ParWorker H Q} {pc pc' : Pc}
    {inp : Input H A Q K} {logs : List (Logged H A)} (hstop : inp.stop = false) (hpc : pc ≠ .stopped)
    (h : step api (w, pc) inp = .ok ((w', pc'), logs)) : pc' ≠ .stopped := by
  cases pc with
  | top =>
      simp only [step, hstop, Bool.false_eq_true, if_false] at h
      split at h <;> cases h <;> simp
  | send job sent =>
      obtain ⟨_, -, h⟩ := bind_eq_ok.mp h
      cases h
      simp
  | reap =>
      obtain ⟨_, -, h⟩ := bind_eq_ok.mp h
      cases h
      simp
  | tick =>
      obtain ⟨-, rfl⟩ := Prod.mk.inj (Prod.mk.inj (Except.ok.inj h)).1
      split <;> simp
  | deliver idle =>
      obtain ⟨-, rfl⟩ := Prod.mk.inj (Prod.mk.inj (Except.ok.inj h)).1
      cases idle <;> simp
  | idle =>
      obtain ⟨-, rfl⟩ := Prod.mk.inj (Prod.mk.inj (Except.ok.inj h)).1
      split <;> simp
  | stopped => exact absurd rfl hpc

theorem SequentialWorker.step_goes {api : ConnApi H A Q K} {s s' : SequentialWorker H Q} {pc pc' : Pc}
    {inp : Input H A Q K} {logs : List (Logged H A)} (hs : s.Sized) (hstop : inp.stop = false)
    (hpc : pc ≠ .stopped) (h : step api (s, pc) inp = .ok ((s', pc'), logs)) : pc' ≠ .stopped := by
  cases step_turn hs h with
  | stop hflag =>
      rw [hstop] at hflag
      cases hflag
  | tick => split <;> simp
  | idle => split <;> simp
  | publish idle => cases idle <;> simp
  | stopped => exact absurd rfl hpc
  | _ => simp

theorem Workers.step_goes {api : ConnApi H A Q K} {n : Nat} {kind : ConnKind} {ws ws' : Workers H Q}
    {j k : Nat} {inp : Input H A Q K} {logs : List (Logged H A)} (hw : ws.Wired n kind)
    (hstop : inp.stop = false) (h : ws.step api j inp = .ok (ws', logs)) (hgoing : ws.going k = true) :
    ws'.going k = true := by
  cases ws with
  | sequential s pc =>
      cases j with
      | succ j =>
          cases h
          exact hgoing
      | zero =>
          obtain ⟨⟨⟨s', pc'⟩, evs⟩, hstep, h⟩ := bind_eq_ok.mp h
          cases h
          cases k with
          | succ k => cases hgoing
          | zero =>
              have hgo := SequentialWorker.step_goes (hw.sized s pc rfl) hstop
                (of_decide_eq_true hgoing) hstep
              exact decide_eq_true hgo
  | parallel ws =>
      simp only [step] at h
      cases hj : ws[j]? with
      | none =>
          rw [hj] at h
          cases h
          exact hgoing
      | some st =>
          obtain ⟨w, pc⟩ := st
          rw [hj] at h
          obtain ⟨⟨⟨w', pc'⟩, evs⟩, hstep, h⟩ := bind_eq_ok.mp h
          cases h
          have hlt := (List.getElem?_eq_some_iff.mp hj).1
          by_cases hk : k = j
          · subst hk
            simp only [going, hj] at hgoing
            have hgo := ParWorker.step_goes hstop (of_decide_eq_true hgoing) hstep
            simp only [going, List.getElem?_set_self hlt]
            exact decide_eq_true hgo
          · simp only [going] at hgoing ⊢
            rw [List.getElem?_set_ne (Ne.symm hk)]
            exact hgoing

namespace Running

variable {api : ConnApi H A Q K} {n : Nat} {kind : ConnKind} {r r' : Running H Q}
  {connectOne : Nat → D → Exec (Except SenderError (Built H Q))} {a : RunningAction H A Q K D}
  {evs : List (Logged H A)}

/-- **One step** without the flag: whatever the connections and the builds answer, a thread that runs goes
on. -/
theorem runs_step (h : r.sender.Wired n kind fun i c => ∃ d, connectOne i d = .ok (.ok c))
    (hstop : r.sender.stop = false)
    (hstep : r.step api (engineReconnectBuilder connectOne) a = .ok (r', evs)) {t : Thread}
    (hruns : r.runs t = true) : r'.runs t = true := by
  cases step_moves hstep with
  | @worker j inp s' _ hs =>
      cases t with
      | worker k =>
          have hone := (Sender.step_worker h hs).1
          have hreads : (r.sender.hand j inp).stop = false := by
            simp only [Sender.hand, hstop, Bool.and_false]
          exact Workers.step_goes h.workers hreads hone hruns
      | lane =>
          have hlane := (Sender.step_worker h hs).2.2.2.2.1
          have hpc : s'.lane.pc = r.sender.lane.pc := by
            rw [hlane, ResultLane.pushes_pc]
          simp only [runs, hpc]
          exact hruns
      | reconnect => exact hruns
  | lane sawStop hs =>
      obtain ⟨lane, hlane, hs⟩ := bind_eq_ok.mp hs
      obtain ⟨rfl, rfl⟩ := Prod.mk.inj (Except.ok.inj hs)
      cases t with
      | lane =>
          rw [hstop, Bool.and_false] at hlane
          exact decide_eq_true (ResultLane.step_goes hlane (of_decide_eq_true hruns))
      | worker | reconnect => exact hruns
  | shutdown => exact hruns
  | exit sawStop timeout d hloop hflag =>
      rw [hstop] at hflag
      cases hflag
  | receive | timeout | finish =>
      cases t with
      | reconnect => simp [runs]
      | worker | lane => exact hruns
  | take =>
      cases t with
      | reconnect =>
          simp only [runs]
          split <;> simp
      | worker | lane => exact hruns
  | stay => exact hruns

/-- `build` has started them. -/
theorem runs_built {b : SenderBuilder} {ds : Nat → D × D} {s : Sender H Q}
    (h : b.build connectOne ds = .ok (.ok s)) : ∀ t ∈ threads s, (start s).runs t = true := by
  obtain ⟨engine, duals, workers, -, -, hspawn, rfl⟩ := build_eq_ok h
  intro t ht
  rcases List.mem_cons.mp ht with rfl | ht
  · rfl
  rcases List.mem_cons.mp ht with rfl | ht
  · rfl
  cases engine with
  | seqRaw | seqUring =>
      obtain rfl := Except.ok.inj hspawn
      obtain rfl := List.mem_singleton.mp ht
      rfl
  | parRaw =>
      obtain ⟨ws, hws, hspawn⟩ := bind_eq_ok.mp hspawn
      obtain rfl := Except.ok.inj hspawn
      obtain ⟨j, hj, rfl⟩ := List.mem_map.mp ht
      have hget := List.getElem?_eq_getElem (List.mem_range.mp hj)
      obtain ⟨dual, tx, rx, slot, -, -, heq⟩ := (spawnParallel_spec hws).2 j _ hget
      rw [heq] at hget
      simp [runs, start, Workers.going, hget]

end Running

namespace Running

variable {api : ConnApi H A Q K} {n : Nat} {kind : ConnKind} {r r' : Running H Q}
  {connectOne : Nat → D → Exec (Except SenderError (Built H Q))} {a : RunningAction H A Q K D}
  {evs : List (Logged H A)}

/-- The flag stays as it is until `shutdown`. -/
theorem clear_step (h : r.sender.Wired n kind fun i c => ∃ d, connectOne i d = .ok (.ok c))
    (hclear : r.sender.stop = false) (ha : a ≠ .shutdown)
    (hstep : r.step api (engineReconnectBuilder connectOne) a = .ok (r', evs)) :
    r'.sender.stop = false := by
  cases step_moves hstep with
  | worker j inp hs => exact (Sender.step_worker h hs).2.2.2.2.2.trans hclear
  | lane sawStop hs =>
      obtain ⟨lane, -, hs⟩ := bind_eq_ok.mp hs
      obtain ⟨rfl, rfl⟩ := Prod.mk.inj (Except.ok.inj hs)
      exact hclear
  | shutdown => exact absurd rfl ha
  | _ => exact hclear

/-- **A run** without `shutdown`: a thread that runs goes on. -/
theorem runs_run (h : r.sender.Wired n kind fun i c => ∃ d, connectOne i d = .ok (.ok c))
    (hclear : r.sender.stop = false) {actions : List (RunningAction H A Q K D)}
    {log : List (Logged H A)} (hno : .shutdown ∉ actions)
    (hrun : (machine api (engineReconnectBuilder connectOne)).run r actions = .ok (r', log)) {t : Thread}
    (hruns : r.runs t = true) : r'.runs t = true := by
  induction actions generalizing r log with
  | nil =>
      cases hrun
      exact hruns
  | cons a actions ih =>
      obtain ⟨r₁, evs, rest, hone, hrest, -⟩ := Machine.run_cons_eq_ok.mp hrun
      have ha : a ≠ .shutdown := fun heq => hno (heq ▸ .head _)
      exact ih (wired_step h hone) (clear_step h hclear ha hone) (fun hlater => hno (.tail _ hlater)) hrest
        (runs_step h hclear hone hruns)

end Running

/-- **When a thread is lost.** Take any sender that `build` made, with the sequential or the parallel engine
over `raw_libc` or `io_uring`, and any schedule of its threads without a `shutdown`: each thread that `build`
started is still in its loop at the end if and only if every call for a provider and every build of the
reconnect thread returned. Nothing else that happens, no error and no delivery, ends a thread. -/
theorem no_thread_gives_up_iff (api : ConnApi H A Q K) (b : SenderBuilder)
    (connectOne : Nat → D → Exec (Except SenderError (Built H Q))) (ds : Nat → D × D)
    (s₀ : Sender H Q) (actions : List (RunningAction H A Q K D))
    (hbuild : b.build connectOne ds = .ok (.ok s₀)) (hno : .shutdown ∉ actions) :
    (∃ r log, (Running.machine api (engineReconnectBuilder connectOne)).run (.start s₀) actions =
        .ok (r, log) ∧ ∀ t ∈ Running.threads s₀, r.runs t = true) ↔
      (Running.machine api (engineReconnectBuilder connectOne)).Meets
        (Running.Returns api (engineReconnectBuilder connectOne)) (.start s₀) actions := by
  obtain ⟨kind, hstart⟩ := Running.inv_start hbuild
  rw [← Running.run_returns_iff hstart actions]
  constructor
  · rintro ⟨r, log, hrun, -⟩
    exact ⟨r, log, hrun⟩
  · rintro ⟨r, log, hrun⟩
    refine ⟨r, log, hrun, ?_⟩
    have hclear : (Running.start s₀).sender.stop = false := by
      obtain ⟨_, _, _, -, -, -, rfl⟩ := build_eq_ok hbuild
      rfl
    intro t ht
    exact Running.runs_run hstart.wired hclear hno hrun (Running.runs_built hbuild t ht)

/-- Each thread goes once round its loop, and the reconnect thread waits in vain. -/
def quietSteps : List (RunningAction (HttpConn RawConn Bytes) RawAnswer (QuicEngine Bool) Bool Bool) :=
  List.replicate 6 (.worker 0 (Input.quiet RawAnswer.silent false)) ++
    [.lane true, .lane true, .lane true, .reconnect true false true, .reconnect true true true]

theorem no_thread_gives_up_quiet :
    ∃ s₀ r log, (bareSender .seqRaw [bareProvider .noResponse]).build
        (bareConnectOne [bareProvider .noResponse]) (fun _ => (true, true)) = .ok (.ok s₀) ∧
      (bareThreads [bareProvider .noResponse]).run (.start s₀) quietSteps = .ok (r, log) ∧
      Running.threads s₀ = [.lane, .reconnect, .worker 0] ∧
      (∀ t ∈ Running.threads s₀, r.runs t = true) ∧
      (bareThreads [bareProvider .noResponse]).Meets
        (Running.Returns (rawApi Http.plainTls (quinnApi flagQuinn))
          (engineReconnectBuilder (bareConnectOne [bareProvider .noResponse]))) (.start s₀) quietSteps := by
  obtain ⟨s₀, hbuild, out, hout, hthreads, hruns⟩ :=
    exists_built (bareSender .seqRaw [bareProvider .noResponse])
      (bareConnectOne [bareProvider .noResponse]) (fun _ => (true, true))
      (fun s₀ => ∃ out ∈ ((bareThreads [bareProvider .noResponse]).run (.start s₀) quietSteps).toOption,
        Running.threads s₀ = [.lane, .reconnect, .worker 0] ∧
          ∀ t ∈ Running.threads s₀, out.1.runs t = true)
      (by decide +kernel)
  have hrun := eq_ok_of_mem_toOption hout
  have hno : .shutdown ∉ quietSteps := by
    simp [quietSteps]
  have hmeets := (no_thread_gives_up_iff _ _ _ _ s₀ _ hbuild hno).mp ⟨out.1, out.2, hrun, hruns⟩
  exact ⟨s₀, out.1, out.2, hbuild, hrun, hthreads, hruns, hmeets⟩

end TxSender.Transport
