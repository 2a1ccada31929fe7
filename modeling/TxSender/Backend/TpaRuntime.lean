/-
# TxSender.Backend.TpaRuntime — who may use the user-space stack.

`TpaRuntime::start` takes an exclusive lock on a file of the machine, and only then looks at `INIT_DONE`,
a flag of its process, and initialises the stack. The lock belongs to the file that the call has opened;
it is given up when that file is closed, which is when the runtime is dropped or when the process ends.
`build` puts the runtime into the `Sender` behind the worker threads, `shutdown` drops it behind the
joins, and a `Sender` that is dropped instead leaves its workers running.

The machine below is a host: any number of calls of `start` in any number of processes, a step of one of
them at a time. The file at the fixed path is taken to stay the same file, and a process not to `fork`.
-/
import Mathlib.Logic.Function.Basic
import TxSender.Error
import TxSender.Lib.Machine

namespace TxSender.Backend.TpaRuntime

open TxSender.Lib

/-! ## The host -/

/-- Where a call of `start` stands, and behind it the `Sender` that has got its runtime. -/
inductive Pc where
  /-- before `open` -/
  | opening
  /-- before `flock` -/
  | opened
  /-- before `INIT_DONE.swap(true)` -/
  | locked
  /-- in `tpa_init_with_udp_queues` -/
  | initialising
  /-- before `INIT_DONE.store(false)` -/
  | failed (rc : Int)
  /-- the call returns an error, and its runtime goes out of scope -/
  | dropping (e : TransportError)
  | returned (e : TransportError)
  /-- the call has returned `Ok`, and `build` starts the workers -/
  | building
  | live
  /-- in `shutdown`, at the joins -/
  | joining
  | released
  /-- the process has ended -/
  | gone
  deriving DecidableEq, Repr

/-- The calls that have a `TpaRuntime`, which is to say a locked file. -/
@[grind] def Pc.holds : Pc → Bool
  | .locked | .initialising | .failed _ | .dropping _ | .building | .live | .joining => true
  | _ => false

/-- Between the swap of the flag and what follows from the initialisation. -/
@[grind] def Pc.inside : Pc → Bool
  | .initialising | .failed _ => true
  | _ => false

/-- There is, or was, a `Sender`. -/
@[grind] def Pc.hasSender : Pc → Bool
  | .building | .live | .joining | .released => true
  | _ => false

structure Host where
  pc : Nat → Pc
  /-- the worker threads a `Sender` has started and that have not returned -/
  workers : Nat → Nat
  /-- the call whose file is locked -/
  holder : Option Nat
  /-- `INIT_DONE` of each process -/
  initDone : Nat → Bool

def Host.start : Host where
  pc _ := .opening
  workers _ := 0
  holder := none
  initDone _ := false

/-- What the outside answers to a call. -/
structure Answer where
  /-- the error number of `open`, if it fails -/
  openErr : Option Int
  /-- the error number of `flock`, if it fails on a file that nobody has locked -/
  flockErr : Option Int
  /-- `tpa_init_with_udp_queues` -/
  rc : Int
  deriving DecidableEq, Repr

inductive Action where
  /-- the next step of a call of `start` -/
  | run (k : Nat) (a : Answer)
  /-- `build` starts a worker thread -/
  | spawn (k : Nat)
  /-- `build` returns the `Sender` -/
  | built (k : Nat)
  /-- a worker thread returns: it could not connect, or has read the stop flag -/
  | workerExit (k : Nat)
  | shutdown (k : Nat)
  /-- the joins of `shutdown` have returned, and what is left of the `Sender` is dropped -/
  | joined (k : Nat)
  /-- a `Sender`, or a `build` that panics, is dropped without `shutdown` -/
  | drop (k : Nat)
  /-- a process ends -/
  | exit (p : Nat)
  deriving DecidableEq, Repr

inductive Event where
  /-- `tpa_init_with_udp_queues` is called -/
  | entered (k : Nat)
  /-- and has returned 0 -/
  | initialised (k : Nat)
  /-- the flag was set already -/
  | refused (k : Nat)
  deriving DecidableEq, Repr

/-- What `flock` with `LOCK_NB` fails with when the file is locked. -/
def ewouldblock : Int := 11

namespace Host

def goto (s : Host) (k : Nat) (pc : Pc) : Host := { s with pc := Function.update s.pc k pc }

/-- The file of call `k` is closed. -/
def close (s : Host) (k : Nat) : Host :=
  { s with holder := if s.holder = some k then none else s.holder }

def setInitDone (s : Host) (p : Nat) (b : Bool) : Host :=
  { s with initDone := Function.update s.initDone p b }

@[grind =] theorem pc_goto (s : Host) (k j : Nat) (pc : Pc) :
    (s.goto k pc).pc j = if j = k then pc else s.pc j := Function.update_apply s.pc k pc j

@[grind =] theorem initDone_setInitDone (s : Host) (p q : Nat) (b : Bool) :
    (s.setInitDone p b).initDone q = if q = p then b else s.initDone q :=
  Function.update_apply s.initDone p b q

section Frames

variable (s : Host) (k p j q : Nat) (pc : Pc) (b : Bool)

@[grind =] theorem holder_goto : (s.goto k pc).holder = s.holder := rfl
@[grind =] theorem workers_goto : (s.goto k pc).workers j = s.workers j := rfl
@[grind =] theorem initDone_goto : (s.goto k pc).initDone q = s.initDone q := rfl
@[grind =] theorem pc_close : (s.close k).pc j = s.pc j := rfl
@[grind =] theorem workers_close : (s.close k).workers j = s.workers j := rfl
@[grind =] theorem initDone_close : (s.close k).initDone q = s.initDone q := rfl
@[grind =] theorem holder_close :
    (s.close k).holder = if s.holder = some k then none else s.holder := rfl
@[grind =] theorem pc_setInitDone : (s.setInitDone p b).pc j = s.pc j := rfl
@[grind =] theorem holder_setInitDone : (s.setInitDone p b).holder = s.holder := rfl
@[grind =] theorem workers_setInitDone : (s.setInitDone p b).workers j = s.workers j := rfl

end Frames

/-- One step of `start`, called in process `p`. -/
def startStep (s : Host) (p k : Nat) (a : Answer) : Host × List Event :=
  match s.pc k with
  | .opening =>
      match a.openErr with
      | some errno => (s.goto k (.returned (.io (IoError.fromRawOsError errno))), [])
      | none => (s.goto k .opened, [])
  | .opened =>
      match s.holder, a.flockErr with
      -- `LOCK_NB`
      | some _, _ => (s.goto k (.returned (.io (IoError.fromRawOsError ewouldblock))), [])
      | none, some errno => (s.goto k (.returned (.io (IoError.fromRawOsError errno))), [])
      | none, none => ({ s.goto k .locked with holder := some k }, [])
  | .locked =>
      if s.initDone p then ((s.setInitDone p true).goto k (.dropping (.tpa (-1))), [.refused k])
      else ((s.setInitDone p true).goto k .initialising, [.entered k])
  | .initialising =>
      if a.rc ≠ 0 then (s.goto k (.failed a.rc), []) else (s.goto k .building, [.initialised k])
  | .failed rc => ((s.setInitDone p false).goto k (.dropping (.tpa rc)), [])
  | .dropping e => ((s.close k).goto k (.returned e), [])
  | _ => (s, [])

/-- Every thread of process `p` is gone, and its files are closed. -/
def exit (proc : Nat → Nat) (s : Host) (p : Nat) : Host where
  pc k := if proc k = p then .gone else s.pc k
  workers k := if proc k = p then 0 else s.workers k
  holder := s.holder.filter fun k => proc k ≠ p
  initDone := s.initDone

/-- `proc` tells in which process a call is made. -/
def step (proc : Nat → Nat) (s : Host) : Action → Exec (Host × List Event)
  | .run k a => .ok (s.startStep (proc k) k a)
  | .spawn k =>
      if s.pc k = .building then
        .ok ({ s with workers := Function.update s.workers k (s.workers k + 1) }, [])
      else .ok (s, [])
  | .built k => if s.pc k = .building then .ok (s.goto k .live, []) else .ok (s, [])
  | .workerExit k => .ok ({ s with workers := Function.update s.workers k (s.workers k - 1) }, [])
  | .shutdown k => if s.pc k = .live then .ok (s.goto k .joining, []) else .ok (s, [])
  | .joined k =>
      if s.pc k = .joining ∧ s.workers k = 0 then .ok ((s.close k).goto k .released, [])
      else .ok (s, [])
  | .drop k =>
      if s.pc k = .building ∨ s.pc k = .live then .ok ((s.close k).goto k .released, [])
      else .ok (s, [])
  | .exit p => .ok (s.exit proc p, [])

end Host

def machine (proc : Nat → Nat) : Machine Host Action Event where
  step := Host.step proc

/-! ## What a step does -/

/-- **A step of the host**, by what it does to the lock and to the flag. -/
inductive Turn (proc : Nat → Nat) (s : Host) : Host → List Event → Prop
  | stay : Turn proc s s []
  /-- neither is touched -/
  | move (k : Nat) (pc : Pc) (hhere : s.pc k ≠ .gone ∧ (s.pc k).inside = false)
      (hpc : pc ≠ .gone ∧ pc.inside = false) (hholds : pc.holds = (s.pc k).holds)
      (hsender : (s.pc k).hasSender = true → pc.hasSender = true) : Turn proc s (s.goto k pc) []
  | lock (k : Nat) (hpc : s.pc k = .opened) (hfree : s.holder = none) :
      Turn proc s { s.goto k .locked with holder := some k } []
  | refuse (k : Nat) (hpc : s.pc k = .locked) (hflag : s.initDone (proc k) = true) :
      Turn proc s ((s.setInitDone (proc k) true).goto k (.dropping (.tpa (-1)))) [.refused k]
  | enter (k : Nat) (hpc : s.pc k = .locked) (hflag : s.initDone (proc k) = false) :
      Turn proc s ((s.setInitDone (proc k) true).goto k .initialising) [.entered k]
  | succeed (k : Nat) (hpc : s.pc k = .initialising) :
      Turn proc s (s.goto k .building) [.initialised k]
  | fail (k : Nat) (rc : Int) (hpc : s.pc k = .initialising) : Turn proc s (s.goto k (.failed rc)) []
  | reset (k : Nat) (rc : Int) (hpc : s.pc k = .failed rc) :
      Turn proc s ((s.setInitDone (proc k) false).goto k (.dropping (.tpa rc))) []
  /-- the file of `k` is closed -/
  | release (k : Nat) (pc : Pc) (hhere : (s.pc k).holds = true ∧ (s.pc k).inside = false)
      (hpc : pc ≠ .gone ∧ pc.holds = false ∧ pc.inside = false)
      (hsender : (s.pc k).hasSender = true → pc.hasSender = true) :
      Turn proc s ((s.close k).goto k pc) []
  | threads (k n : Nat) (hn : s.workers k < n → s.pc k = .building) :
      Turn proc s { s with workers := Function.update s.workers k n } []
  | exit (p : Nat) : Turn proc s (s.exit proc p) []

theorem Turn.move_of {proc : Nat → Nat} {s : Host} {k : Nat} {pc₀ : Pc} (hpc : s.pc k = pc₀) (pc : Pc)
    (hhere : pc₀ ≠ .gone ∧ pc₀.inside = false) (hnew : pc ≠ .gone ∧ pc.inside = false)
    (hholds : pc.holds = pc₀.holds) (hsender : pc₀.hasSender = true → pc.hasSender = true) :
    Turn proc s (s.goto k pc) [] := by
  subst hpc
  exact .move k pc hhere hnew hholds hsender

theorem Turn.release_of {proc : Nat → Nat} {s : Host} {k : Nat} {pc₀ : Pc} (hpc : s.pc k = pc₀) (pc : Pc)
    (hhere : pc₀.holds = true ∧ pc₀.inside = false)
    (hnew : pc ≠ .gone ∧ pc.holds = false ∧ pc.inside = false)
    (hsender : pc₀.hasSender = true → pc.hasSender = true) :
    Turn proc s ((s.close k).goto k pc) [] := by
  subst hpc
  exact .release k pc hhere hnew hsender

theorem startStep_turn (proc : Nat → Nat) (s : Host) (k : Nat) (a : Answer) :
    Turn proc s (s.startStep (proc k) k a).1 (s.startStep (proc k) k a).2 := by
  unfold Host.startStep
  cases hpc : s.pc k with
  | opening =>
      cases a.openErr with
      | none => exact .move_of hpc _ (by decide) (by decide) rfl id
      | some errno => exact .move_of hpc _ (by decide) ⟨by simp, rfl⟩ rfl id
  | opened =>
      have leave : ∀ e, Turn proc s (s.goto k (.returned e)) [] := fun e =>
        .move_of hpc _ (by decide) ⟨by simp, rfl⟩ rfl id
      cases hfree : s.holder with
      | some j => exact leave _
      | none =>
          cases a.flockErr with
          | some errno => exact leave _
          | none => exact .lock k hpc hfree
  | locked =>
      simp only
      split
      · rename_i hflag
        exact .refuse k hpc hflag
      · rename_i hflag
        exact .enter k hpc (Bool.eq_false_iff.mpr hflag)
  | initialising =>
      simp only
      split
      · exact .fail k _ hpc
      · exact .succeed k hpc
  | failed rc => exact .reset k rc hpc
  | dropping e => exact .release_of hpc _ ⟨rfl, rfl⟩ ⟨by simp, rfl, rfl⟩ id
  | returned | building | live | joining | released | gone => exact .stay

theorem step_turn {proc : Nat → Nat} {s s' : Host} {a : Action} {evs : List Event}
    (h : s.step proc a = .ok (s', evs)) : Turn proc s s' evs := by
  have stay : ∀ {t : Host × List Event}, (.ok (s, []) : Exec (Host × List Event)) = .ok t →
      Turn proc s t.1 t.2 := by
    rintro t ht
    obtain rfl := Except.ok.inj ht
    exact .stay
  cases a with
  | run k a =>
      obtain ⟨rfl, rfl⟩ := Prod.mk.inj (Except.ok.inj h)
      exact startStep_turn proc s k a
  | spawn k =>
      simp only [Host.step] at h
      split at h
      · rename_i hpc
        obtain ⟨rfl, rfl⟩ := Prod.mk.inj (Except.ok.inj h)
        exact .threads k _ fun _ => hpc
      · exact stay h
  | built k =>
      simp only [Host.step] at h
      split at h
      · rename_i hpc
        obtain ⟨rfl, rfl⟩ := Prod.mk.inj (Except.ok.inj h)
        exact .move_of hpc _ (by decide) (by decide) rfl id
      · exact stay h
  | workerExit k =>
      obtain ⟨rfl, rfl⟩ := Prod.mk.inj (Except.ok.inj h)
      exact .threads k _ fun hlt => absurd hlt (by omega)
  | shutdown k =>
      simp only [Host.step] at h
      split at h
      · rename_i hpc
        obtain ⟨rfl, rfl⟩ := Prod.mk.inj (Except.ok.inj h)
        exact .move_of hpc _ (by decide) (by decide) rfl id
      · exact stay h
  | joined k =>
      simp only [Host.step] at h
      split at h
      · rename_i hpc
        obtain ⟨rfl, rfl⟩ := Prod.mk.inj (Except.ok.inj h)
        exact .release_of hpc.1 _ (by decide) (by decide) id
      · exact stay h
  | drop k =>
      simp only [Host.step] at h
      split at h
      · rename_i hpc
        obtain ⟨rfl, rfl⟩ := Prod.mk.inj (Except.ok.inj h)
        rcases hpc with hpc | hpc
        · exact .release_of hpc _ (by decide) (by decide) id
        · exact .release_of hpc _ (by decide) (by decide) id
      · exact stay h
  | exit p =>
      obtain ⟨rfl, rfl⟩ := Prod.mk.inj (Except.ok.inj h)
      exact .exit p

/-! ## The lock and the flag -/

@[grind] def Event.initialises (proc : Nat → Nat) (p : Nat) : Event → Bool
  | .initialised k => proc k = p
  | _ => false

/-- Some call in process `p` has initialised the stack. -/
def Initialised (proc : Nat → Nat) (p : Nat) (log : List Event) : Prop :=
  ∃ e ∈ log, e.initialises proc p = true

/-- The lock is what the calls that have a runtime hold, so it is one call at a time; the flag of a
process is set when a call in it has initialised the stack, or is about to find out. -/
structure Sound (proc : Nat → Nat) (s : Host) (log : List Event) : Prop where
  lock : ∀ k, s.holder = some k ↔ (s.pc k).holds = true
  sender : ∀ k, 0 < s.workers k → (s.pc k).hasSender = true
  ended : ∀ j k, proc j = proc k → s.pc j = .gone → s.pc k = .gone
  inside : ∀ k, (s.pc k).inside = true →
    s.initDone (proc k) = true ∧ ¬ Initialised proc (proc k) log
  set : ∀ p, Initialised proc p log → s.initDone p = true
  unset : ∀ p, s.initDone p = true → Initialised proc p log ∨
    ∃ k, proc k = p ∧ ((s.pc k).inside = true ∨ s.pc k = .gone)

variable {proc : Nat → Nat} {s s' : Host} {log evs : List Event}

theorem Pc.holds_of_inside {pc : Pc} (h : pc.inside = true) : pc.holds = true := by
  cases pc <;> first | rfl | cases h

theorem Sound.only {j k : Nat} (h : Sound proc s log) (hj : (s.pc j).holds = true)
    (hk : (s.pc k).holds = true) : j = k :=
  Option.some.inj (((h.lock j).mpr hj).symm.trans ((h.lock k).mpr hk))

@[grind =] theorem initialised_append (proc : Nat → Nat) (p : Nat) (log evs : List Event) :
    Initialised proc p (log ++ evs) ↔ Initialised proc p log ∨ Initialised proc p evs := by
  simp [Initialised, or_and_right, exists_or]

@[grind =] theorem initialised_nil (p : Nat) : Initialised proc p [] ↔ False := by simp [Initialised]

@[grind =] theorem initialised_singleton (p : Nat) (e : Event) :
    Initialised proc p [e] ↔ e.initialises proc p = true := by simp [Initialised]

theorem Sound.lock_turn (h : Sound proc s log) (ht : Turn proc s s' evs) (j : Nat) :
    s'.holder = some j ↔ (s'.pc j).holds = true := by
  have hj := h.lock j
  cases ht with
  | release k pc hhere hpc hsender =>
      -- the file that is closed is the locked one
      have hk := (h.lock k).mpr hhere.1
      grind
  | exit p =>
      simp only [Host.exit, Option.filter_eq_some_iff, hj]
      grind
  | _ => grind

theorem Sound.sender_turn (h : Sound proc s log) (ht : Turn proc s s' evs) (j : Nat)
    (hj : 0 < s'.workers j) : (s'.pc j).hasSender = true := by
  have hold := h.sender j
  cases ht with
  | threads k n hn =>
      simp only [Function.update_apply] at hj ⊢
      grind
  | exit p =>
      simp only [Host.exit] at hj ⊢
      grind
  | _ => grind

theorem Sound.ended_turn (h : Sound proc s log) (ht : Turn proc s s' evs) (i j : Nat)
    (hij : proc i = proc j) (hi : s'.pc i = .gone) : s'.pc j = .gone := by
  have hold := h.ended i j hij
  have hback := h.ended j i hij.symm
  cases ht with
  | exit p =>
      simp only [Host.exit] at hi ⊢
      grind
  | _ => grind

/-- Nobody else is between the swap and its consequences. -/
theorem Sound.alone {j k : Nat} (h : Sound proc s log) (hk : (s.pc k).holds = true)
    (hj : (s.pc j).inside = true) : j = k :=
  h.only (Pc.holds_of_inside hj) hk

theorem Sound.inside_turn (h : Sound proc s log) (ht : Turn proc s s' evs) (j : Nat)
    (hj : (s'.pc j).inside = true) :
    s'.initDone (proc j) = true ∧ ¬ Initialised proc (proc j) (log ++ evs) := by
  have hold := h.inside j
  cases ht with
  | enter k hpc hflag =>
      have hnot := fun hinit => h.set (proc k) hinit
      grind
  | succeed k hpc =>
      -- `k` is outside now, and nobody else was inside
      have halone := h.alone (j := j) (k := k)
      grind
  | reset k rc hpc =>
      have halone := h.alone (j := j) (k := k)
      grind
  | exit p =>
      simp only [Host.exit] at hj ⊢
      grind
  | _ => grind

theorem Sound.set_turn (h : Sound proc s log) (ht : Turn proc s s' evs) (p : Nat)
    (hp : Initialised proc p (log ++ evs)) : s'.initDone p = true := by
  have hold := h.set p
  cases ht with
  | succeed k hpc =>
      have hin := h.inside k
      grind
  | reset k rc hpc =>
      have hin := h.inside k
      grind
  | exit q =>
      simp only [Host.exit]
      grind
  | _ => grind

theorem Sound.unset_turn (h : Sound proc s log) (ht : Turn proc s s' evs) (p : Nat)
    (hp : s'.initDone p = true) : Initialised proc p (log ++ evs) ∨
      ∃ k, proc k = p ∧ ((s'.pc k).inside = true ∨ s'.pc k = .gone) := by
  have hold := h.unset p
  cases ht with
  | exit q =>
      simp only [Host.exit] at hp ⊢
      grind
  | _ => grind

theorem sound_turn (h : Sound proc s log) (ht : Turn proc s s' evs) : Sound proc s' (log ++ evs) :=
  ⟨h.lock_turn ht, h.sender_turn ht, h.ended_turn ht, h.inside_turn ht, h.set_turn ht, h.unset_turn ht⟩

theorem sound_start : Sound proc .start [] :=
  ⟨fun _ => iff_of_false (by simp [Host.start]) (by simp [Host.start, Pc.holds]),
    fun _ h => absurd h (Nat.lt_irrefl 0), fun _ _ _ h => absurd h (by simp [Host.start]),
    fun _ h => absurd h (by simp [Host.start, Pc.inside]), fun _ h => absurd h (by simp [Initialised]),
    fun _ h => absurd h (by simp [Host.start])⟩

/-! ## One initialisation a process -/

/-- What a call may come to after `past`. -/
def Decided (proc : Nat → Nat) (past : List Event) : Event → Prop
  | .entered k | .initialised k => ¬ Initialised proc (proc k) past
  | .refused k => Initialised proc (proc k) past

theorem decided_turn (h : Sound proc s log) (ht : Turn proc s s' evs) :
    Along (Decided proc) log evs := by
  cases ht with
  | refuse k hpc hflag =>
      refine ⟨?_, trivial⟩
      rcases h.unset (proc k) hflag with hinit | ⟨j, hjk, hj | hj⟩
      · exact hinit
      · -- the call at the flag has the lock, so nobody else is inside
        obtain rfl := h.alone (by rw [hpc]; rfl) hj
        rw [hpc] at hj
        cases hj
      · have hk := h.ended j k hjk hj
        rw [hpc] at hk
        cases hk
  | enter k hpc hflag =>
      refine ⟨fun hinit => ?_, trivial⟩
      have hset := h.set (proc k) hinit
      rw [hflag] at hset
      cases hset
  | succeed k hpc => exact ⟨(h.inside k (by rw [hpc]; rfl)).2, trivial⟩
  | _ => exact trivial

/-- **One process, one initialisation.** For any number of calls of `start` in any number of processes, in
every order of their steps and whatever the system answers: no two runtimes exist at the same time on
the machine, and a call that gets the lock calls `tpa_init_with_udp_queues` if no earlier call in its
process has initialised the stack, and is refused if one has, also after the runtime of that one is
gone. -/
theorem initialised_once (proc : Nat → Nat) (actions : List Action) (s : Host) (log : List Event)
    (hrun : (machine proc).run .start actions = .ok (s, log)) :
    (∀ j k, (s.pc j).holds = true → (s.pc k).holds = true → j = k) ∧
      Along (Decided proc) [] log := by
  have hinv := Machine.run_invariant (machine proc)
    (fun s log => Sound proc s log ∧ Along (Decided proc) [] log) ⟨sound_start, trivial⟩
    (fun s log a s' evs h hstep => ⟨sound_turn h.1 (step_turn hstep),
      along_append.mpr ⟨h.2, decided_turn h.1 (step_turn hstep)⟩⟩) hrun
  exact ⟨fun j k => hinv.1.only, hinv.2⟩

/-- The system refuses nothing. -/
def grants : Answer := ⟨none, none, 0⟩

/-- Calls 0 and 2 are made in one process, call 1 in another one. Call 0 initialises the stack, and while it
runs call 1 does not get the lock; after `shutdown` call 2 does, and is refused. -/
theorem initialised_once_twice :
    Along (Decided fun k => k % 2) [] [.entered 0, .initialised 0, .refused 2] :=
  (initialised_once (fun k => k % 2)
    [.run 0 grants, .run 1 grants, .run 0 grants, .run 1 grants, .run 0 grants, .run 0 grants, .built 0,
      .shutdown 0, .joined 0, .run 2 grants, .run 2 grants, .run 2 grants] _ _ rfl).2

/-! ## The workers and the lock -/

/-- Call `k` initialises the stack, or its `Sender` has worker threads on it. -/
def Host.Uses (s : Host) (k : Nat) : Prop := s.pc k = .initialising ∨ 0 < s.workers k

/-- Whoever uses the stack has the lock. -/
def UnderLock (s : Host) (_ : List Event) : Prop := ∀ k, s.Uses k → s.holder = some k

/-- No `Sender` is dropped while one of its workers is running. -/
def WorkersJoined (s : Host) (_ : List Event) : Action → Prop
  | .drop k => s.pc k = .building ∨ s.pc k = .live → s.workers k = 0
  | _ => True

instance (s : Host) (log : List Event) (a : Action) : Decidable (WorkersJoined s log a) := by
  unfold WorkersJoined
  split
  · infer_instance
  · infer_instance

theorem holds_of_spawned (ht : Turn proc s s' evs) {k : Nat} (hk : s.workers k = 0)
    (hk' : 0 < s'.workers k) : (s.pc k).holds = true := by
  cases ht with
  | threads j n hn =>
      simp only [Function.update_apply] at hk'
      grind
  | exit p =>
      simp only [Host.exit] at hk'
      grind
  | _ => grind

/-- A step keeps the stack under the lock when nobody loses the lock with workers running. -/
theorem underLock_turn (h : Sound proc s log) (hunder : UnderLock s log) (ht : Turn proc s s' evs) :
    UnderLock s' (log ++ evs) ↔
      ∀ k, (s.pc k).holds = true → (s'.pc k).holds = false → s'.workers k = 0 := by
  have h' := sound_turn h ht
  constructor
  · intro hafter k _ hlost
    by_contra hk
    have hholds := (h'.lock k).mp (hafter k (.inr (Nat.pos_of_ne_zero hk)))
    rw [hlost] at hholds
    cases hholds
  · intro hlost k huses
    rw [h'.lock]
    rcases huses with hpc | hk
    · rw [hpc]
      rfl
    · by_contra hnot
      rw [Bool.not_eq_true] at hnot
      -- `k` had workers before this step, or the lock
      have hheld : (s.pc k).holds = true := by
        by_cases hbefore : s.workers k = 0
        · exact holds_of_spawned ht hbefore hk
        · exact (h.lock k).mp (hunder k (.inr (Nat.pos_of_ne_zero hbefore)))
      rw [hlost k hheld hnot] at hk
      cases hk

theorem workers_startStep (s : Host) (p k : Nat) (a : Answer) :
    (s.startStep p k a).1.workers = s.workers := by
  unfold Host.startStep
  split
  · split <;> rfl
  · split <;> rfl
  · split <;> rfl
  · split <;> rfl
  · rfl
  · rfl
  · rfl

/-- `start` leaves alone who has got through it. -/
theorem pc_startStep (s : Host) (p k : Nat) (a : Answer) {j : Nat} (hj : (s.pc j).hasSender = true) :
    (s.startStep p k a).1.pc j = s.pc j := by
  unfold Host.startStep
  split
  · split <;> grind
  · split <;> grind
  · split <;> grind
  · split <;> grind
  · grind
  · grind
  · rfl

/-- Who loses the lock with workers running is dropped. -/
theorem drop_of_lost (h : Sound proc s log) {a : Action} (hstep : s.step proc a = .ok (s', evs)) {k : Nat}
    (hk : (s.pc k).holds = true) (hlost : (s'.pc k).holds = false) (hworkers : 0 < s'.workers k) :
    a = .drop k ∧ (s.pc k = .building ∨ s.pc k = .live) ∧ 0 < s.workers k := by
  have hsame : s'.pc k ≠ s.pc k := by
    intro heq
    rw [heq, hk] at hlost
    cases hlost
  cases a with
  | run j a =>
      have hs' : (s.startStep (proc j) j a).1 = s' := congrArg Prod.fst (Except.ok.inj hstep)
      rw [← hs', workers_startStep] at hworkers
      rw [← hs'] at hsame
      exact absurd (pc_startStep s (proc j) j a (h.sender k hworkers)) hsame
  | spawn j | built j | shutdown j | joined j | drop j =>
      simp only [Host.step] at hstep
      split at hstep
      · obtain ⟨rfl, rfl⟩ := Prod.mk.inj (Except.ok.inj hstep)
        grind
      · obtain ⟨rfl, rfl⟩ := Prod.mk.inj (Except.ok.inj hstep)
        exact absurd rfl hsame
  | workerExit j =>
      obtain ⟨rfl, rfl⟩ := Prod.mk.inj (Except.ok.inj hstep)
      exact absurd rfl hsame
  | exit p =>
      obtain ⟨rfl, rfl⟩ := Prod.mk.inj (Except.ok.inj hstep)
      simp only [Host.exit] at hsame hworkers
      grind

/-- **The stack runs under the lock as long as no `Sender` is just dropped.** For any number of calls of
`start` in any number of processes and in every order of their steps: whoever initialises the stack or has
worker threads on it has the lock of the machine, all along the run, exactly when no `Sender` is dropped
with a worker thread running; `shutdown` gives the lock up behind the last join. -/
theorem stack_under_lock_iff (proc : Nat → Nat) (actions : List Action) :
    (machine proc).Always UnderLock .start [] actions ↔
      (machine proc).Guarded WorkersJoined .start [] actions := by
  refine Machine.always_iff_guarded _ (Sound proc) _ _ (fun s log a s' evs h hunder hstep => ?_)
    sound_start (fun k hk => ?_)
  · refine ⟨sound_turn h (step_turn hstep), ?_⟩
    rw [underLock_turn h hunder (step_turn hstep)]
    constructor
    · intro hlost
      cases a with
      | drop k =>
          intro hpc
          have hs' : s' = (s.close k).goto k .released := by
            rw [show (machine proc).step s (.drop k) = .ok ((s.close k).goto k .released, []) from
              if_pos hpc] at hstep
            exact (Prod.mk.inj (Except.ok.inj hstep)).1.symm
          have hk := hlost k
          grind
      | _ => exact trivial
    · intro hguard k hk hlost
      by_contra hworkers
      obtain ⟨rfl, hpc, hpos⟩ := drop_of_lost h hstep hk hlost (Nat.pos_of_ne_zero hworkers)
      rw [hguard hpc] at hpos
      cases hpos
  · rcases hk with hk | hk
    · cases hk
    · exact absurd hk (Nat.lt_irrefl 0)

/-- A dropped `Sender` leaves a worker of process 0 on the stack while process 1 initialises it. -/
example : ¬ (machine id).Guarded WorkersJoined .start []
    [.run 0 grants, .run 0 grants, .run 0 grants, .run 0 grants, .spawn 0, .drop 0,
      .run 1 grants, .run 1 grants, .run 1 grants] := by decide +kernel

end TxSender.Backend.TpaRuntime
