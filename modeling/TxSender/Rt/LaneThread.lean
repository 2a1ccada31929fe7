/-
# TxSender.Rt.LaneThread — the result lane with its waits.

`ResultLane` is the lane as far as its rings and its sink are concerned. The thread also remembers in each
round whether it got anything, and if not it waits: at the first ring only. So a response in another ring
does not wake it. `LaneThread.erase_step` forgets the waits; `lane_delivers_within` bounds how long a
response can stay in any ring nevertheless.
-/
import Mathlib.Logic.Relation
import TxSender.ResultLane
import TxSender.Rt.Wait

namespace TxSender.Rt

open TxSender.Lib

/-- Where `ResultLane::run` stands. -/
inductive LaneThreadPc where
  | top
  /-- at ring `i`; `got` says whether this round has popped anything -/
  | ring (i : Nat) (got : Bool)
  /-- in `idle_wait`, at the first ring -/
  | waiting (pc : WaitPc)
  | stopped
  deriving DecidableEq, Repr

structure LaneThread where
  pc : LaneThreadPc
  rings : List (Channel RawResp)
  codecs : List Codec
  sink : List Delivery
  stored : Bool
  tsc : Nat
  stop : Bool
  cached : UInt8

inductive LaneAction where
  /-- a worker pushes into a ring, and later notifies -/
  | push (ring : Nat) (resp : RawResp)
  | notify (ring : Nat)
  | clock (cycles : Nat)
  | setStop
  /-- a step of the lane; `sawStop` is what it reads of the stop flag if that is set -/
  | lane (sawStop interrupt : Bool)
  deriving DecidableEq

inductive LaneEvent where
  | delivered (d : Delivery)
  | slept (tsc : Nat)
  deriving DecidableEq

namespace LaneThread

def new (codecs : List Codec) : LaneThread where
  pc := .top
  rings := List.replicate codecs.length (.new resultRing)
  codecs := codecs
  sink := []
  stored := false
  tsc := 0
  stop := false
  cached := 0

/-- What a step inside `idle_wait` finds at the first ring. -/
def sensed (s : LaneThread) (first : Channel RawResp) (sawStop interrupt : Bool) : Sensed where
  counter := first.counter
  cond := first.queue.isEmpty && !(sawStop && s.stop)
  stored := s.stored
  tsc := s.tsc
  interrupt := interrupt

/-- The end of a round: wait if it got nothing. -/
def endRound (cpu : Cpuid) (s : LaneThread) (got : Bool) : LaneThread :=
  if got then { s with pc := .top }
  else
    match s.rings[0]? with
    | some _ =>
        let (b, cached) := detectBackend cpu s.cached
        { s with pc := .waiting (.arm b), cached }
    | none => { s with pc := .top }

/-- Where a step of `idle_wait` leaves the lane. -/
def afterWait : Option WaitPc → LaneThreadPc
  | some pc => .waiting pc
  | none => .top

def laneStep (cpu : Cpuid) (s : LaneThread) (sawStop interrupt : Bool) :
    Exec (LaneThread × List LaneEvent) :=
  match s.pc with
  | .top => .ok ({ s with pc := if sawStop && s.stop then .stopped else .ring 0 false }, [])
  | .ring i got =>
      match s.rings[i]? with
      | some ring =>
          match ring.queue with
          | resp :: rest => do
              let codec ← Exec.index s.codecs i
              let d : Delivery := { ring := i, resp, outcome := parseOne resp codec }
              pure ({ s with
                pc := .ring i true
                rings := s.rings.set i { ring with queue := rest }
                sink := s.sink ++ [d] }, [.delivered d])
          | [] => .ok ({ s with pc := .ring (i + 1) got }, [])
      | none => .ok (s.endRound cpu got, [])
  | .waiting pc =>
      match s.rings[0]? with
      | some first =>
          let pc' := waitStep (s.sensed first sawStop interrupt) pc
          .ok ({ s with pc := afterWait pc', stored := Waiter.armed pc s.stored },
            match pc, pc' with
            | .enter, some (.asleep _) => [.slept s.tsc]
            | _, _ => [])
      | none => .ok ({ s with pc := .top }, [])
  | .stopped => .ok (s, [])

def step (cpu : Cpuid) (s : LaneThread) : LaneAction → Exec (LaneThread × List LaneEvent)
  | .push i resp => .ok ({ s with rings := s.rings.modify i (·.push resp) }, [])
  | .notify i =>
      .ok ({ s with
        rings := s.rings.modify i Channel.notify
        -- the counters stand on lines of their own: only that of the first ring is monitored
        stored := s.stored || (i == 0 && (s.rings[i]?).any Channel.notifying) }, [])
  | .clock cycles => .ok ({ s with tsc := s.tsc + cycles }, [])
  | .setStop => .ok ({ s with stop := true }, [])
  | .lane sawStop interrupt => s.laneStep cpu sawStop interrupt

def machine (cpu : Cpuid) : Machine LaneThread LaneAction LaneEvent where
  step := step cpu

/-! ## Forgetting the waits -/

def erasePc : LaneThreadPc → LanePc
  | .top | .waiting _ => .top
  | .ring i _ => .ring i
  | .stopped => .stopped

/-- The lane without its waits. -/
def erase (s : LaneThread) : ResultLane where
  pc := erasePc s.pc
  rings := s.rings.map Channel.queue
  codecs := s.codecs
  sink := s.sink

end LaneThread

/-- What can happen to a lane: a step of its own, or a push. -/
def LaneMove (l l' : ResultLane) : Prop :=
  (∃ stop, l.step stop = .ok l') ∨ ∃ ring resp, l' = l.push ring resp

namespace LaneThread

variable {cpu : Cpuid} {s s' : LaneThread} {evs : List LaneEvent}

/-- What a step of the lane can be. -/
inductive Turn (cpu : Cpuid) (s : LaneThread) (sawStop interrupt : Bool) :
    LaneThread → List LaneEvent → Prop
  | stop (hpc : s.pc = .top) (hstop : s.stop = true) :
      Turn cpu s sawStop interrupt { s with pc := .stopped } []
  | start (hpc : s.pc = .top) : Turn cpu s sawStop interrupt { s with pc := .ring 0 false } []
  | pop {i : Nat} {got : Bool} {ring : Channel RawResp} {resp : RawResp} {rest : List RawResp}
      {codec : Codec} (hpc : s.pc = .ring i got) (hring : s.rings[i]? = some ring)
      (hqueue : ring.queue = resp :: rest) (hcodec : s.codecs[i]? = some codec) :
      Turn cpu s sawStop interrupt
        { s with
          pc := .ring i true
          rings := s.rings.set i { ring with queue := rest }
          sink := s.sink ++ [{ ring := i, resp, outcome := parseOne resp codec }] }
        [.delivered { ring := i, resp, outcome := parseOne resp codec }]
  | next {i : Nat} {got : Bool} {ring : Channel RawResp} (hpc : s.pc = .ring i got)
      (hring : s.rings[i]? = some ring) (hqueue : ring.queue = []) :
      Turn cpu s sawStop interrupt { s with pc := .ring (i + 1) got } []
  | ended {i : Nat} {got : Bool} (hpc : s.pc = .ring i got) (hring : s.rings[i]? = none) :
      Turn cpu s sawStop interrupt (s.endRound cpu got) []
  | wait {pc : WaitPc} {first : Channel RawResp} {evs : List LaneEvent} (hpc : s.pc = .waiting pc)
      (hfirst : s.rings[0]? = some first) (hevs : ∀ d, .delivered d ∉ evs) :
      Turn cpu s sawStop interrupt
        { s with
          pc := afterWait (waitStep (s.sensed first sawStop interrupt) pc)
          stored := Waiter.armed pc s.stored } evs
  | noRing {pc : WaitPc} (hpc : s.pc = .waiting pc) (hring : s.rings[0]? = none) :
      Turn cpu s sawStop interrupt { s with pc := .top } []
  | stopped (hpc : s.pc = .stopped) : Turn cpu s sawStop interrupt s []

theorem laneStep_turn {sawStop interrupt : Bool}
    (h : s.laneStep cpu sawStop interrupt = .ok (s', evs)) : Turn cpu s sawStop interrupt s' evs := by
  unfold laneStep at h
  split at h
  · rename_i hpc
    cases h
    split
    · rename_i hstop
      exact .stop hpc (Bool.and_eq_true .. ▸ hstop).2
    · exact .start hpc
  · rename_i i got hpc
    split at h
    · rename_i ring hring
      split at h
      · rename_i resp rest hqueue
        cases hcodec : s.codecs[i]? with
        | none =>
            rw [Exec.index, hcodec] at h
            cases h
        | some codec =>
            rw [Exec.index, hcodec] at h
            cases h
            exact .pop hpc hring hqueue hcodec
      · rename_i hqueue
        cases h
        exact .next hpc hring hqueue
    · rename_i hring
      cases h
      exact .ended hpc hring
  · rename_i pc hpc
    split at h
    · rename_i first hfirst
      obtain ⟨rfl, hevs⟩ := Prod.mk.inj (Except.ok.inj h)
      refine .wait hpc hfirst fun d hd => ?_
      rw [← hevs] at hd
      split at hd <;> simp at hd
    · rename_i hring
      cases h
      exact .noRing hpc hring
  · rename_i hpc
    cases h
    exact .stopped hpc

/-- The rings are those of `build`: one for each codec, of the capacity `RESULT_RING`; the lane stops only
if it is told to, and is never further from the end of `idle_wait` than at its start. -/
structure Shaped (s : LaneThread) : Prop where
  length : s.rings.length = s.codecs.length
  capacity : ∀ (i : Nat) ring, s.rings[i]? = some ring → ring.capacity = resultRing
  running : s.stop = false → s.pc ≠ .stopped
  rank : ∀ pc, s.pc = .waiting pc → pc.rank ≤ 258

theorem shaped_new (codecs : List Codec) : (new codecs).Shaped := by
  refine ⟨List.length_replicate, fun i ring h => ?_, fun _ => nofun, nofun⟩
  rw [List.eq_of_mem_replicate (List.mem_of_getElem? h)]
  rfl

theorem Shaped.modify (h : s.Shaped) {i : Nat} {f : Channel RawResp → Channel RawResp}
    (hf : ∀ c, (f c).capacity = c.capacity) {stored : Bool} :
    Shaped { s with rings := s.rings.modify i f, stored } := by
  refine ⟨(List.length_modify ..).trans h.length, fun j ring hj => ?_, h.running, h.rank⟩
  have hj : (s.rings.modify i f)[j]? = some ring := hj
  rw [List.getElem?_modify] at hj
  obtain ⟨c, hc, rfl⟩ := Option.map_eq_some_iff.mp hj
  split
  · rw [hf]
    exact h.capacity j c hc
  · exact h.capacity j c hc

theorem capacity_push (c : Channel RawResp) (resp : RawResp) : (c.push resp).capacity = c.capacity := by
  rcases c.push_cases resp with ⟨-, -, hpush⟩ | hpush <;> rw [hpush]

theorem capacity_notify (c : Channel RawResp) : c.notify.capacity = c.capacity := by
  unfold Channel.notify
  split <;> rfl

theorem Turn.shaped {sawStop interrupt : Bool} (h : s.Shaped)
    (hturn : Turn cpu s sawStop interrupt s' evs) : s'.Shaped := by
  cases hturn with
  | stop _ hstop => exact ⟨h.length, h.capacity, fun hs => absurd (hs.symm.trans hstop) nofun, nofun⟩
  | start | next | noRing => exact ⟨h.length, h.capacity, fun _ => nofun, nofun⟩
  | @pop i got ring resp rest codec hpc hring =>
      refine ⟨List.length_set.trans h.length, fun j c hj => ?_, fun _ => nofun, nofun⟩
      by_cases hij : i = j
      · subst hij
        rw [List.getElem?_set_self (List.getElem?_eq_some_iff.mp hring).1] at hj
        obtain rfl := Option.some.inj hj
        exact h.capacity i ring hring
      · rw [List.getElem?_set_ne hij] at hj
        exact h.capacity j c hj
  | @ended i got =>
      unfold endRound
      split
      · exact ⟨h.length, h.capacity, fun _ => nofun, nofun⟩
      · split
        · refine ⟨h.length, h.capacity, fun _ => nofun, fun pc hpc => ?_⟩
          obtain rfl := LaneThreadPc.waiting.inj hpc
          exact Nat.le_refl _
        · exact ⟨h.length, h.capacity, fun _ => nofun, nofun⟩
  | @wait pc first _ hpc =>
      cases hwait : waitStep (s.sensed first sawStop interrupt) pc with
      | none => exact ⟨h.length, h.capacity, fun _ => nofun, nofun⟩
      | some pc' =>
          refine ⟨h.length, h.capacity, fun _ => nofun, fun pc'' hpc'' => ?_⟩
          obtain rfl := LaneThreadPc.waiting.inj hpc''
          exact Nat.le_trans (waitStep_rank_le hwait) (h.rank pc hpc)
  | stopped => exact h

theorem shaped_step {a : LaneAction} (h : s.Shaped) (hstep : s.step cpu a = .ok (s', evs)) :
    s'.Shaped := by
  cases a with
  | push i resp =>
      cases hstep
      exact h.modify fun c => capacity_push c resp
  | notify i =>
      cases hstep
      exact h.modify capacity_notify
  | clock cycles =>
      cases hstep
      exact ⟨h.length, h.capacity, h.running, h.rank⟩
  | setStop =>
      cases hstep
      exact ⟨h.length, h.capacity, nofun, h.rank⟩
  | lane sawStop interrupt => exact (laneStep_turn hstep).shaped h

theorem length_step {a : LaneAction} (hstep : s.step cpu a = .ok (s', evs)) :
    s'.rings.length = s.rings.length := by
  cases a with
  | push | notify =>
      cases hstep
      exact List.length_modify ..
  | clock | setStop =>
      cases hstep
      rfl
  | lane sawStop interrupt =>
      cases laneStep_turn hstep with
      | pop => exact List.length_set
      | ended =>
          unfold endRound
          split
          · rfl
          · split <;> rfl
      | _ => rfl

theorem map_modify_of_eq {β : Type} {f : Channel RawResp → Channel RawResp} {g : Channel RawResp → β}
    (hfg : ∀ c, g (f c) = g c) (rings : List (Channel RawResp)) (i : Nat) :
    (rings.modify i f).map g = rings.map g := by
  apply List.ext_getElem?
  intro j
  rw [List.getElem?_map, List.getElem?_map, List.getElem?_modify]
  cases rings[j]? with
  | none => rfl
  | some c =>
      by_cases hij : i = j
      · simp [hij, hfg]
      · simp [hij]

/-- **Forgetting the waits**: a step of the thread is a step of the lane, a push, or nothing. -/
theorem erase_step {a : LaneAction} (h : s.Shaped) (hstep : s.step cpu a = .ok (s', evs)) :
    s'.erase = s.erase ∨ LaneMove s.erase s'.erase := by
  cases a with
  | push i resp =>
      cases hstep
      cases hi : s.rings[i]? with
      | none =>
          refine .inl (congrArg (fun rings => ResultLane.mk _ rings _ _) ?_)
          rw [List.modify_eq_self (List.getElem?_eq_none_iff.mp hi)]
      | some ring =>
          have hset : s.rings.modify i (·.push resp) = s.rings.set i (ring.push resp) := by
            rw [List.modify_eq_set_getElem?, hi]
            rfl
          have hqueue : s.erase.rings[i]? = some ring.queue := by
            show (s.rings.map Channel.queue)[i]? = _
            rw [List.getElem?_map, hi]
            rfl
          rcases ring.push_cases resp with ⟨-, hroom, hpush⟩ | hpush
          · refine .inr (.inr ⟨i, resp, ?_⟩)
            rw [h.capacity i ring hi] at hroom
            have hmap : (s.rings.modify i (·.push resp)).map Channel.queue =
                (s.rings.map Channel.queue).set i (ring.queue ++ [resp]) := by
              rw [hset, List.map_set, hpush]
            unfold ResultLane.push
            rw [hqueue]
            simp only [if_pos hroom]
            exact congrArg (fun rings => ResultLane.mk _ rings _ _) hmap
          · refine .inl (congrArg (fun rings => ResultLane.mk _ rings _ _) ?_)
            obtain ⟨hlt, rfl⟩ := List.getElem?_eq_some_iff.mp hi
            rw [hset, hpush, List.set_getElem_self]
  | notify i =>
      cases hstep
      refine .inl (congrArg (fun rings => ResultLane.mk _ rings _ _) ?_)
      exact map_modify_of_eq Channel.notify_queue s.rings i
  | clock cycles | setStop =>
      cases hstep
      exact .inl rfl
  | lane sawStop interrupt =>
      have hat : ∀ (i : Nat), s.erase.rings[i]? = (s.rings[i]?).map Channel.queue :=
        fun i => List.getElem?_map
      cases laneStep_turn hstep with
      | stop hpc =>
          refine .inr (.inl ⟨true, ?_⟩)
          simp only [ResultLane.step, erase, hpc, erasePc, if_true]
      | start hpc =>
          refine .inr (.inl ⟨false, ?_⟩)
          simp only [ResultLane.step, erase, hpc, erasePc, Bool.false_eq_true, if_false]
      | @pop i got ring resp rest codec hpc hring hqueue hcodec =>
          refine .inr (.inl ⟨false, ?_⟩)
          have hpc' : s.erase.pc = .ring i := congrArg erasePc hpc
          have hi : s.erase.rings[i]? = some (resp :: rest) := by
            rw [hat, hring, Option.map_some, hqueue]
          have hindex : Exec.index s.erase.codecs i = .ok codec := by
            show Exec.index s.codecs i = _
            rw [Exec.index, hcodec]
          simp only [ResultLane.step, hpc', hi, hindex, ok_bind, pure_eq_ok]
          simp only [erase, erasePc, List.map_set]
      | @next i got ring hpc hring hqueue =>
          refine .inr (.inl ⟨false, ?_⟩)
          have hpc' := congrArg erasePc hpc
          have hi := hat i
          rw [hring, Option.map_some, hqueue] at hi
          simp only [ResultLane.step, show s.erase.pc = _ from hpc', erasePc, hi]
          rfl
      | @ended i got hpc hring =>
          refine .inr (.inl ⟨false, ?_⟩)
          have hpc' := congrArg erasePc hpc
          have hi := hat i
          rw [hring, Option.map_none] at hi
          simp only [ResultLane.step, show s.erase.pc = _ from hpc', erasePc, hi]
          unfold endRound
          split
          · rfl
          · split <;> rfl
      | @wait pc first _ hpc =>
          refine .inl (congrArg (fun pc => ResultLane.mk pc _ _ _) ?_)
          rw [hpc]
          cases waitStep (s.sensed first sawStop interrupt) pc <;> rfl
      | noRing hpc =>
          refine .inl (congrArg (fun pc => ResultLane.mk pc _ _ _) ?_)
          rw [hpc]
          rfl
      | stopped => exact .inl rfl

/-! ## The first ring -/

def waitsAt : LaneThreadPc → Option WaitPc
  | .waiting pc => some pc
  | _ => none

/-- The lane as the consumer of its first ring. -/
def atFirst (s : LaneThread) (first : Channel RawResp) : Waiter RawResp where
  chan := first
  stored := s.stored
  tsc := s.tsc
  stop := s.stop
  cached := s.cached
  pc := waitsAt s.pc

/-- A step of the lane or of a worker is, at the first ring, nothing or a step of a `Waiter`. -/
def FirstMove (cpu : Cpuid) (s : LaneThread) (first : Channel RawResp) (s' : LaneThread) : Prop :=
  ∃ first', s'.rings[0]? = some first' ∧
    (s'.atFirst first' = s.atFirst first ∨
      ∃ a evs, (s.atFirst first).step cpu a = .ok (s'.atFirst first', evs))

theorem firstMove_lane {first : Channel RawResp} (hfirst : s.rings[0]? = some first)
    {sawStop interrupt : Bool} (hturn : Turn cpu s sawStop interrupt s' evs) :
    FirstMove cpu s first s' := by
  have hquiet : ∀ {pc : LaneThreadPc}, waitsAt s.pc = none → waitsAt pc = none →
      atFirst { s with pc } first = s.atFirst first := by
    intro pc hbefore hafter
    unfold atFirst
    rw [hbefore, hafter]
  cases hturn with
  | stop hpc | start hpc | next hpc =>
      exact ⟨first, hfirst, .inl (hquiet (by rw [hpc]; rfl) rfl)⟩
  | @pop i got ring resp rest codec hpc hring hqueue hcodec =>
      have hout : waitsAt s.pc = none := by
        rw [hpc]
        rfl
      by_cases hi : i = 0
      · subst hi
        obtain rfl := Option.some.inj (hring.symm.trans hfirst)
        refine ⟨{ ring with queue := rest },
          List.getElem?_set_self (List.getElem?_eq_some_iff.mp hring).1, .inr ⟨.pop, [.popped resp], ?_⟩⟩
        have hpc' : (s.atFirst ring).pc = none := hout
        have hq : (s.atFirst ring).chan.queue = resp :: rest := hqueue
        simp only [Waiter.step, hpc', hq]
        rfl
      · exact ⟨first, (List.getElem?_set_ne hi).trans hfirst, .inl (hquiet hout rfl)⟩
  | @ended i got hpc hring =>
      have hout : waitsAt s.pc = none := by
        rw [hpc]
        rfl
      unfold endRound
      split
      · exact ⟨first, hfirst, .inl (hquiet hout rfl)⟩
      · rw [hfirst]
        refine ⟨first, hfirst, .inr ⟨.call, [], ?_⟩⟩
        have hpc' : (s.atFirst first).pc = none := hout
        simp only [Waiter.step, hpc']
        rfl
  | @wait pc first' _ hpc hfirst' =>
      obtain rfl := Option.some.inj (hfirst.symm.trans hfirst')
      refine ⟨first, hfirst, .inr ⟨.step sawStop interrupt,
        Waiter.waitLog s.tsc (waitStep (s.sensed first sawStop interrupt) pc) pc, ?_⟩⟩
      have hpc' : (s.atFirst first).pc = some pc := congrArg waitsAt hpc
      have hsensed : (s.atFirst first).sensed sawStop interrupt = s.sensed first sawStop interrupt := rfl
      simp only [Waiter.step, hpc', hsensed]
      unfold atFirst
      cases waitStep (s.sensed first sawStop interrupt) pc <;> rfl
  | noRing _ hring =>
      rw [hfirst] at hring
      cases hring
  | stopped => exact ⟨first, hfirst, .inl rfl⟩

theorem firstMove_step {first : Channel RawResp} (hfirst : s.rings[0]? = some first) {a : LaneAction}
    (hstep : s.step cpu a = .ok (s', evs)) : FirstMove cpu s first s' := by
  have hmodify : ∀ (k : Nat) (f : Channel RawResp → Channel RawResp),
      (s.rings.modify k f)[0]? = some (if k = 0 then f first else first) := by
    intro k f
    rw [List.getElem?_modify, hfirst]
    split <;> rfl
  cases a with
  | push k resp =>
      cases hstep
      refine ⟨_, hmodify k _, ?_⟩
      by_cases hk : k = 0
      · subst hk
        exact .inr ⟨.push resp, [], rfl⟩
      · rw [if_neg hk]
        exact .inl rfl
  | notify k =>
      cases hstep
      refine ⟨_, hmodify k _, ?_⟩
      by_cases hk : k = 0
      · subst hk
        refine .inr ⟨.notify, [], ?_⟩
        simp only [Waiter.step, atFirst, hfirst, if_true, Option.any_some, beq_self_eq_true,
          Bool.true_and]
      · rw [if_neg hk]
        refine .inl ?_
        simp [atFirst, hk]
  | clock cycles =>
      cases hstep
      exact ⟨first, hfirst, .inr ⟨.clock cycles, [], rfl⟩⟩
  | setStop =>
      cases hstep
      exact ⟨first, hfirst, .inr ⟨.setStop, [], rfl⟩⟩
  | lane sawStop interrupt => exact firstMove_lane hfirst (laneStep_turn hstep)

/-- **The lane is a consumer of its first ring** like any other that waits there. -/
theorem atFirst_sound {codecs : List Codec} {actions : List LaneAction} {log : List LaneEvent}
    (hrun : (machine cpu).run (new codecs) actions = .ok (s, log)) {first : Channel RawResp}
    (hfirst : s.rings[0]? = some first) : ∃ log', (s.atFirst first).Sound log' := by
  refine Machine.run_invariant (machine cpu)
    (fun s _ => ∀ first, s.rings[0]? = some first → ∃ log', (s.atFirst first).Sound log') ?_ ?_ hrun
    first hfirst
  · intro first hfirst
    obtain rfl : first = .new resultRing := List.eq_of_mem_replicate (List.mem_of_getElem? hfirst)
    exact ⟨[], Waiter.sound_start resultRing⟩
  · intro s log a s' evs h hstep first' hfirst'
    -- a lane with no ring has none later
    cases hfirst : s.rings[0]? with
    | none =>
        have hlen : s'.rings.length = s.rings.length := length_step hstep
        rw [List.getElem?_eq_none_iff] at hfirst
        have hlt := (List.getElem?_eq_some_iff.mp hfirst').1
        omega
    | some first =>
        obtain ⟨log', hsound⟩ := h first hfirst
        obtain ⟨next, hnext, heq | ⟨a', evs', hone⟩⟩ := firstMove_step hfirst hstep
        · obtain rfl := Option.some.inj (hfirst'.symm.trans hnext)
          exact ⟨log', heq ▸ hsound⟩
        · obtain rfl := Option.some.inj (hfirst'.symm.trans hnext)
          exact ⟨log' ++ evs', Waiter.sound_step hsound hone⟩

/-! ## How long a response waits -/

/-- What stands in the rings. -/
def queued (rings : List (Channel RawResp)) : Nat := (rings.map fun c => c.queue.length).sum

theorem queued_set {rings : List (Channel RawResp)} {i : Nat} {c c' : Channel RawResp}
    (hi : rings[i]? = some c) (hc : c'.queue.length + 1 = c.queue.length) :
    queued (rings.set i c') + 1 = queued rings := by
  induction rings generalizing i with
  | nil => cases hi
  | cons x rings ih =>
      cases i with
      | zero =>
          obtain rfl := Option.some.inj hi
          simp only [queued, List.set_cons_zero, List.map_cons, List.sum_cons]
          omega
      | succ i =>
          have hrest := ih (i := i) hi
          simp only [queued, List.set_cons_succ, List.map_cons, List.sum_cons] at hrest ⊢
          omega

theorem queued_modify_le {f : Channel RawResp → Channel RawResp} {k : Nat}
    (hf : ∀ c, (f c).queue.length ≤ c.queue.length + k) (rings : List (Channel RawResp)) (i : Nat) :
    queued (rings.modify i f) ≤ queued rings + k := by
  induction rings generalizing i with
  | nil =>
      rw [List.modify_nil]
      exact Nat.le_add_right _ _
  | cons x rings ih =>
      cases i with
      | zero =>
          have hx := hf x
          simp only [queued, List.modify_zero_cons, List.map_cons, List.sum_cons]
          omega
      | succ i =>
          have hrest := ih i
          simp only [queued, List.modify_succ_cons, List.map_cons, List.sum_cons] at hrest ⊢
          omega

end LaneThread

/-- How many steps the lane is away from ring `i` of `n`, the pops on the way not counted. -/
def LaneThreadPc.distance (n i : Nat) : LaneThreadPc → Nat
  | .top => i + 1
  | .ring j got => if j ≤ i then i - j else n - j + 1 + (if got then 0 else 258) + (i + 1)
  | .waiting pc => pc.rank + (i + 1)
  | .stopped => 0

/-- How often the lane can fall asleep before it comes to ring `i`. -/
def LaneThreadPc.naps (i : Nat) : LaneThreadPc → Nat
  | .ring j _ => if j ≤ i then 0 else 1
  | .waiting (.asleep _) => 0
  | .waiting _ => 1
  | .top | .stopped => 0

namespace LaneThreadPc

variable {n i j : Nat} {got : Bool}

theorem distance_of_le (h : j ≤ i) : (ring j got).distance n i = i - j := if_pos h

theorem distance_of_lt (h : i < j) :
    (ring j got).distance n i = n - j + 1 + (if got then 0 else 258) + (i + 1) := if_neg (by omega)

theorem distance_next (hj : j < n) (hji : j ≠ i) :
    (ring (j + 1) got).distance n i + 1 ≤ (ring j got).distance n i := by
  rcases Nat.lt_or_gt_of_ne hji with hlt | hgt
  · rw [distance_of_le hlt, distance_of_le (Nat.le_of_lt hlt)]
    omega
  · rw [distance_of_lt hgt, distance_of_lt (Nat.lt_succ_of_lt hgt)]
    omega

theorem distance_pop : (ring j true).distance n i ≤ (ring j got).distance n i := by
  by_cases h : j ≤ i
  · exact Nat.le_of_eq ((distance_of_le h).trans (distance_of_le h).symm)
  · rw [distance_of_lt (Nat.lt_of_not_le h), distance_of_lt (Nat.lt_of_not_le h)]
    exact Nat.add_le_add_right (Nat.add_le_add_left (Nat.zero_le _) _) _

theorem naps_next (hji : j ≠ i) : (ring (j + 1) got).naps i = (ring j got).naps i := by
  simp only [naps]
  rcases Nat.lt_or_gt_of_ne hji with hlt | hgt
  · rw [if_pos (by omega), if_pos (by omega)]
  · rw [if_neg (by omega), if_neg (by omega)]

theorem naps_waiting_le (pc : WaitPc) : (waiting pc).naps i ≤ 1 := by
  cases pc <;> simp [naps]

theorem distance_le (pc : LaneThreadPc) (hi : i < n) (hrank : ∀ w, pc = waiting w → w.rank ≤ 258) :
    pc.distance n i ≤ n + 260 := by
  cases pc with
  | top =>
      simp only [distance]
      omega
  | ring j got =>
      by_cases h : j ≤ i
      · rw [distance_of_le h]
        omega
      · rw [distance_of_lt (Nat.lt_of_not_le h)]
        split <;> omega
  | waiting w =>
      have hle := hrank w rfl
      simp only [distance]
      omega
  | stopped => exact Nat.zero_le _

end LaneThreadPc

namespace LaneThread

variable {cpu : Cpuid} {s s' : LaneThread} {evs : List LaneEvent}

/-- A step of the lane thread while it runs. -/
def runs (s : LaneThread) : LaneAction → Bool
  | .lane sawStop interrupt =>
      match s.pc, s.rings[0]? with
      | .waiting pc, some first => !(s.sensed first sawStop interrupt).sleeps pc
      | _, _ => true
  | _ => false

/-- The lane falls asleep. -/
def fallsAsleep (s : LaneThread) : LaneAction → Bool
  | .lane _ interrupt => s.pc = .waiting .enter && !interrupt
  | _ => false

def pushes (_ : LaneThread) : LaneAction → Bool
  | .push _ _ => true
  | _ => false

/-- The response waits in ring `i` of a lane that is not told to stop. -/
structure Waits (i : Nat) (resp : RawResp) (n : Nat) (s : LaneThread) : Prop where
  shaped : s.Shaped
  live : s.stop = false
  length : s.rings.length = n
  there : ∃ ring, s.rings[i]? = some ring ∧ resp ∈ ring.queue

/-- How many steps the lane is away from delivering it, if nothing more comes in. -/
def toDelivery (n i : Nat) (s : LaneThread) : Nat := queued s.rings + s.pc.distance n i

/-- What a step brings: no further away, and nearer if the lane ran. -/
structure Nearer (n i : Nat) (s : LaneThread) (a : LaneAction) (s' : LaneThread) : Prop where
  steps : s'.toDelivery n i + (if runs s a then 1 else 0) ≤
    s.toDelivery n i + (if pushes s a then 1 else 0)
  naps : s'.pc.naps i + (if fallsAsleep s a then 1 else 0) ≤ s.pc.naps i

section Progress

variable {i n : Nat} {resp : RawResp}

theorem length_push_le (c : Channel RawResp) (resp : RawResp) :
    (c.push resp).queue.length ≤ c.queue.length + 1 := by
  rcases c.push_cases resp with ⟨-, -, hpush⟩ | hpush
  · rw [hpush, List.length_append]
    exact Nat.le_refl _
  · rw [hpush]
    exact Nat.le_succ _

/-- A response stays in its ring while others are pushed and announced. -/
theorem there_modify {rings : List (Channel RawResp)} {f : Channel RawResp → Channel RawResp} {k : Nat}
    (hf : ∀ c, resp ∈ c.queue → resp ∈ (f c).queue)
    (h : ∃ ring, rings[i]? = some ring ∧ resp ∈ ring.queue) :
    ∃ ring, (rings.modify k f)[i]? = some ring ∧ resp ∈ ring.queue := by
  obtain ⟨ring, hring, hmem⟩ := h
  rw [List.getElem?_modify, hring]
  by_cases hki : k = i
  · exact ⟨f ring, by simp [hki], hf ring hmem⟩
  · exact ⟨ring, by simp [hki], hmem⟩

theorem mem_push {c : Channel RawResp} (h : resp ∈ c.queue) (x : RawResp) :
    resp ∈ (c.push x).queue := by
  rcases c.push_cases x with ⟨-, -, hpush⟩ | hpush
  · rw [hpush]
    exact List.mem_append_left _ h
  · rwa [hpush]

/-- Outside `idle_wait` the thread runs, and does not fall asleep. -/
theorem nearer_of_runs {sawStop interrupt : Bool} (hpc : ∀ pc, s.pc ≠ .waiting pc)
    (hsteps : s'.toDelivery n i + 1 ≤ s.toDelivery n i) (hnaps : s'.pc.naps i ≤ s.pc.naps i) :
    Nearer n i s (.lane sawStop interrupt) s' := by
  have hruns : runs s (.lane sawStop interrupt) = true := by
    unfold runs
    cases hpc' : s.pc with
    | waiting pc => exact absurd hpc' (hpc pc)
    | _ => rfl
  have hasleep : fallsAsleep s (.lane sawStop interrupt) = false := by
    simp [fallsAsleep, hpc .enter]
  refine ⟨?_, ?_⟩
  · rw [hruns]
    exact hsteps
  · rw [hasleep]
    exact hnaps

/-- A step inside `idle_wait`. -/
theorem nearer_wait {sawStop interrupt stored : Bool} {pc : WaitPc} {first : Channel RawResp}
    (hpc : s.pc = .waiting pc) (hfirst : s.rings[0]? = some first) :
    Nearer n i s (.lane sawStop interrupt)
      { s with pc := afterWait (waitStep (s.sensed first sawStop interrupt) pc), stored } := by
  have hruns : runs s (.lane sawStop interrupt) =
      !(s.sensed first sawStop interrupt).sleeps pc := by
    simp only [runs, hpc, hfirst]
  cases hwait : waitStep (s.sensed first sawStop interrupt) pc with
  | none =>
      have hpos := pc.rank_pos
      refine ⟨?_, ?_⟩
      · simp only [toDelivery, hpc, afterWait, LaneThreadPc.distance, pushes, Bool.false_eq_true,
          if_false]
        split <;> omega
      · simp only [hpc, afterWait]
        cases pc with
        | enter =>
            simp only [LaneThreadPc.naps]
            split <;> omega
        | _ => simp [LaneThreadPc.naps, fallsAsleep, hpc]
  | some pc' =>
      refine ⟨?_, ?_⟩
      · have hrank : pc'.rank + (if runs s (.lane sawStop interrupt) then 1 else 0) ≤ pc.rank := by
          cases hsleeps : (s.sensed first sawStop interrupt).sleeps pc with
          | true =>
              rw [hruns, hsleeps]
              exact waitStep_rank_le hwait
          | false =>
              rw [hruns, hsleeps]
              exact waitStep_rank hwait hsleeps
        simp only [toDelivery, hpc, afterWait, LaneThreadPc.distance, pushes, Bool.false_eq_true,
          if_false]
        omega
      · -- only a step out of `enter` leads into sleep
        have hle := LaneThreadPc.naps_waiting_le (i := i) pc'
        rw [hpc]
        cases pc with
        | enter =>
            simp only [waitStep] at hwait
            split at hwait
            · cases hwait
            · obtain rfl := Option.some.inj hwait
              simp only [afterWait, LaneThreadPc.naps]
              split <;> omega
        | asleep d =>
            simp only [waitStep] at hwait
            split at hwait
            · cases hwait
            · obtain rfl := Option.some.inj hwait
              simp [afterWait, fallsAsleep, hpc]
        | _ => simpa [fallsAsleep, hpc, afterWait, LaneThreadPc.naps] using hle

/-- **One step of the lane** while the response waits: it is delivered, or nearer. -/
theorem Waits.lane {sawStop interrupt : Bool} (h : s.Waits i resp n)
    (hstep : s.laneStep cpu sawStop interrupt = .ok (s', evs)) :
    (∃ d, .delivered d ∈ evs ∧ d.ring = i ∧ d.resp = resp) ∨
      s'.Waits i resp n ∧ Nearer n i s (.lane sawStop interrupt) s' := by
  obtain ⟨ringi, hringi, hmem⟩ := h.there
  have hi : i < n := h.length ▸ (List.getElem?_eq_some_iff.mp hringi).1
  have hturn := laneStep_turn hstep
  have hshaped := hturn.shaped h.shaped
  cases hturn with
  | stop _ hstop =>
      rw [h.live] at hstop
      cases hstop
  | stopped hpc => exact absurd hpc (h.shaped.running h.live)
  | start hpc =>
      refine .inr ⟨⟨hshaped, h.live, h.length, h.there⟩, nearer_of_runs (by rw [hpc]; exact nofun) ?_ ?_⟩
      · simp only [toDelivery, hpc, LaneThreadPc.distance_of_le (Nat.zero_le i)]
        exact Nat.le_refl _
      · simp [LaneThreadPc.naps]
  | @pop j got ring x rest codec hpc hring hqueue hcodec =>
      by_cases hgood : j = i ∧ x = resp
      · obtain ⟨rfl, rfl⟩ := hgood
        exact .inl ⟨_, List.mem_singleton.mpr rfl, rfl, rfl⟩
      · have hdrop : queued (s.rings.set j { ring with queue := rest }) + 1 = queued s.rings :=
          queued_set hring (by rw [hqueue]; rfl)
        have hdist : (LaneThreadPc.ring j true).distance n i ≤ (LaneThreadPc.ring j got).distance n i :=
          LaneThreadPc.distance_pop
        refine .inr ⟨⟨hshaped, h.live, List.length_set.trans h.length, ?_⟩,
          nearer_of_runs (by rw [hpc]; exact nofun) ?_ ?_⟩
        · by_cases hji : j = i
          · subst hji
            obtain rfl := Option.some.inj (hring.symm.trans hringi)
            refine ⟨_, List.getElem?_set_self (List.getElem?_eq_some_iff.mp hring).1, ?_⟩
            rw [hqueue] at hmem
            exact (List.mem_cons.mp hmem).resolve_left fun heq => hgood ⟨rfl, heq.symm⟩
          · exact ⟨ringi, (List.getElem?_set_ne hji).trans hringi, hmem⟩
        · simp only [toDelivery, hpc]
          omega
        · rw [hpc]
          exact Nat.le_refl _
  | @next j got ring hpc hring hqueue =>
      have hj : j < n := h.length ▸ (List.getElem?_eq_some_iff.mp hring).1
      have hji : j ≠ i := by
        -- ring `i` is not empty
        rintro rfl
        obtain rfl := Option.some.inj (hring.symm.trans hringi)
        rw [hqueue] at hmem
        cases hmem
      have hdist : (LaneThreadPc.ring (j + 1) got).distance n i + 1 ≤
          (LaneThreadPc.ring j got).distance n i := LaneThreadPc.distance_next hj hji
      refine .inr ⟨⟨hshaped, h.live, h.length, h.there⟩, nearer_of_runs (by rw [hpc]; exact nofun) ?_ ?_⟩
      · simp only [toDelivery, hpc]
        omega
      · rw [hpc]
        exact Nat.le_of_eq (LaneThreadPc.naps_next hji)
  | @ended j got hpc hring =>
      have hj : n ≤ j := h.length ▸ List.getElem?_eq_none_iff.mp hring
      have hpos : 0 < s.rings.length := by rw [h.length]; omega
      have hdist : (LaneThreadPc.ring j got).distance n i =
          n - j + 1 + (if got then 0 else 258) + (i + 1) :=
        LaneThreadPc.distance_of_lt (Nat.lt_of_lt_of_le hi hj)
      have hnap : (LaneThreadPc.ring j got).naps i = 1 := if_neg (by omega)
      cases got with
      | true =>
          refine .inr ⟨⟨hshaped, h.live, h.length, h.there⟩,
            nearer_of_runs (by rw [hpc]; exact nofun) ?_ (Nat.zero_le _)⟩
          show queued s.rings + (i + 1) + 1 ≤ queued s.rings + s.pc.distance n i
          rw [hpc, hdist, if_pos rfl]
          omega
      | false =>
          have hend : s.endRound cpu false =
              { s with
                pc := .waiting (.arm (detectBackend cpu s.cached).1)
                cached := (detectBackend cpu s.cached).2 } := by
            unfold endRound
            rw [List.getElem?_eq_getElem hpos]
            rfl
          rw [hend] at hshaped ⊢
          refine .inr ⟨⟨hshaped, h.live, h.length, h.there⟩,
            nearer_of_runs (by rw [hpc]; exact nofun) ?_ (by rw [hpc, hnap]; exact Nat.le_refl _)⟩
          show queued s.rings + (258 + (i + 1)) + 1 ≤ queued s.rings + s.pc.distance n i
          rw [hpc, hdist, if_neg Bool.false_ne_true]
          omega
  | wait hpc hfirst =>
      exact .inr ⟨⟨hshaped, h.live, h.length, h.there⟩, nearer_wait hpc hfirst⟩
  | noRing hpc hring =>
      rw [List.getElem?_eq_none_iff] at hring
      have hlen := h.length
      omega

/-- **One step** of the lane or of a worker. -/
theorem Waits.step {a : LaneAction} (h : s.Waits i resp n) (ha : a ≠ .setStop)
    (hstep : s.step cpu a = .ok (s', evs)) :
    (∃ d, .delivered d ∈ evs ∧ d.ring = i ∧ d.resp = resp) ∨ s'.Waits i resp n ∧ Nearer n i s a s' := by
  cases a with
  | push k x =>
      have hshaped := shaped_step h.shaped hstep
      cases hstep
      refine .inr ⟨⟨hshaped, h.live, (List.length_modify ..).trans h.length,
        there_modify (fun c hc => mem_push hc x) h.there⟩, ?_, Nat.le_refl _⟩
      have hle := queued_modify_le (fun c => length_push_le c x) s.rings k
      simp only [toDelivery, runs, pushes, Bool.false_eq_true, if_false, if_true]
      omega
  | notify k =>
      have hshaped := shaped_step h.shaped hstep
      cases hstep
      refine .inr ⟨⟨hshaped, h.live, (List.length_modify ..).trans h.length,
        there_modify (fun c hc => by rwa [Channel.notify_queue]) h.there⟩, ?_, Nat.le_refl _⟩
      have hle := queued_modify_le (k := 0) (f := Channel.notify)
        (fun c => by rw [Channel.notify_queue]; exact Nat.le_refl _) s.rings k
      simp only [toDelivery, runs, pushes, Bool.false_eq_true, if_false]
      omega
  | clock cycles =>
      have hshaped := shaped_step h.shaped hstep
      cases hstep
      exact .inr ⟨⟨hshaped, h.live, h.length, h.there⟩, Nat.le_refl _, Nat.le_refl _⟩
  | setStop => exact absurd rfl ha
  | lane sawStop interrupt => exact h.lane hstep

end Progress

theorem erase_run {codecs : List Codec} {actions : List LaneAction} {log : List LaneEvent}
    (hrun : (machine cpu).run (new codecs) actions = .ok (s, log)) :
    s.Shaped ∧ Relation.ReflTransGen LaneMove (.new codecs) s.erase := by
  refine Machine.run_invariant (machine cpu)
    (fun s _ => s.Shaped ∧ Relation.ReflTransGen LaneMove (.new codecs) s.erase) ?_ ?_ hrun
  · refine ⟨shaped_new codecs, ?_⟩
    have hnew : (new codecs).erase = .new codecs := by
      simp [erase, new, erasePc, ResultLane.new, Channel.new]
    rw [hnew]
  · intro s log a s' evs h hstep
    refine ⟨shaped_step h.1 hstep, ?_⟩
    rcases erase_step h.1 hstep with heq | hmove
    · rw [heq]
      exact h.2
    · exact h.2.tail hmove

end LaneThread

/-- **A response does not stay in a ring.** For every kind of CPU, any number of rings and every
interleaving of the workers' pushes, their notifications, the clock, interrupts and the lane: the lane with
its waits does only what `ResultLane` does; a response in the first ring is announced or being announced
while the lane sleeps; and a response that stands in any ring is handed to the sink, as long as the lane is
not told to stop, before the lane has run for as many steps as there are responses in the rings, pushes in
the meantime and rings, and 260 more, and before it falls asleep a second time. -/
theorem lane_delivers_within (cpu : Cpuid) (codecs : List Codec) (early late : List LaneAction)
    (s₁ s₂ : LaneThread) (log₁ log₂ : List LaneEvent)
    (hearly : (LaneThread.machine cpu).run (.new codecs) early = .ok (s₁, log₁))
    (hlate : (LaneThread.machine cpu).run s₁ late = .ok (s₂, log₂)) (hlive : s₁.stop = false)
    (hgo : .setStop ∉ late) (i : Nat) (ring : Channel RawResp) (hring : s₁.rings[i]? = some ring)
    (resp : RawResp) (hresp : resp ∈ ring.queue) :
    Relation.ReflTransGen LaneMove (.new codecs) s₁.erase ∧
      (i = 0 → ∀ pc sawStop interrupt, s₁.pc = .waiting pc →
        (s₁.sensed ring sawStop interrupt).sleeps pc = true → ring.notifying = true) ∧
      (LaneThread.queued s₁.rings + s₁.rings.length + 260 +
            (LaneThread.machine cpu).countSteps LaneThread.pushes s₁ late <
          (LaneThread.machine cpu).countSteps LaneThread.runs s₁ late ∨
        1 < (LaneThread.machine cpu).countSteps LaneThread.fallsAsleep s₁ late →
        ∃ d, .delivered d ∈ log₂ ∧ d.ring = i ∧ d.resp = resp) := by
  obtain ⟨hshaped, herase⟩ := LaneThread.erase_run hearly
  have hwaits : s₁.Waits i resp s₁.rings.length := ⟨hshaped, hlive, rfl, ring, hring, hresp⟩
  have hi := (List.getElem?_eq_some_iff.mp hring).1
  have hne : ∀ a ∈ late, a ≠ .setStop := fun a ha heq => hgo (heq ▸ ha)
  refine ⟨herase, fun hzero pc sawStop interrupt hpc hsleeps => ?_, ?_⟩
  · subst hzero
    obtain ⟨log', hsound⟩ := LaneThread.atFirst_sound hearly hring
    obtain ⟨-, -, hempty | hnot⟩ := hsound.sleeping sawStop interrupt
      (congrArg LaneThread.waitsAt hpc) hsleeps
    · rw [show ring.queue = [] from hempty] at hresp
      cases hresp
    · exact hnot
  have hgood : (∃ e ∈ log₂, ∃ d, e = LaneEvent.delivered d ∧ d.ring = i ∧ d.resp = resp) →
      ∃ d, .delivered d ∈ log₂ ∧ d.ring = i ∧ d.resp = resp := by
    rintro ⟨e, he, d, rfl, hd⟩
    exact ⟨d, he, hd⟩
  rintro (hsteps | hnaps)
  · refine hgood (Machine.exists_event_of_rank _ LaneThread.runs LaneThread.pushes
      (·.Waits i resp s₁.rings.length) _ (·.toDelivery s₁.rings.length i)
      (fun s s' evs a ha h hstep => ?_) hwaits hlate ?_)
    · rcases h.step (hne a ha) hstep with ⟨d, hd, hgood⟩ | ⟨hnext, hnear⟩
      · exact .inl ⟨_, hd, d, rfl, hgood⟩
      · exact .inr ⟨hnext, hnear.steps⟩
    · have hdist := s₁.pc.distance_le hi hshaped.rank
      unfold LaneThread.toDelivery
      omega
  · refine hgood (Machine.exists_event_of_rank _ LaneThread.fallsAsleep (fun _ _ => false)
      (·.Waits i resp s₁.rings.length) _ (·.pc.naps i) (fun s s' evs a ha h hstep => ?_) hwaits hlate ?_)
    · rcases h.step (hne a ha) hstep with ⟨d, hd, hgood⟩ | ⟨hnext, hnear⟩
      · exact .inl ⟨_, hd, d, rfl, hgood⟩
      · exact .inr ⟨hnext, hnear.naps⟩
    · have hle : s₁.pc.naps i ≤ 1 := by
        cases s₁.pc with
        | ring j got =>
            simp only [LaneThreadPc.naps]
            split <;> omega
        | waiting pc => exact LaneThreadPc.naps_waiting_le pc
        | _ => exact Nat.zero_le _
      rw [Machine.countSteps_none]
      omega

/-- A response without a body. -/
def emptyResp : RawResp where
  job := 1
  provider := ⟨1⟩
  sentTsc := 0
  settledTsc := 0
  bytes := []
  outcomeHint := none

/-- The lane finds its two rings empty and falls asleep; then a response comes into the second one. -/
def asleepThenPush : List LaneAction :=
  List.replicate 7 (.lane false false) ++ [.push 1 emptyResp, .notify 1]

/-- The time runs out, and the lane goes on until it has slept twice more. -/
def sleepTwice : List LaneAction :=
  .clock 100000 :: List.replicate 13 (.lane false false) ++
    .clock 100000 :: List.replicate 8 (.lane false false)

theorem lane_delivers_within_timeout :
    ∃ s₁ s₂ log₁ log₂, (LaneThread.machine ⟨BitVec.twoPow 32 29, 0⟩).run
        (.new [fun _ => .noResponse, fun _ => .noResponse]) asleepThenPush = .ok (s₁, log₁) ∧
      (LaneThread.machine ⟨BitVec.twoPow 32 29, 0⟩).run s₁ sleepTwice = .ok (s₂, log₂) ∧
      s₁.pc = .waiting (.asleep 100000) ∧
      ∃ d, .delivered d ∈ log₂ ∧ d.ring = 1 ∧ d.resp = emptyResp := by
  have hall : ∃ mid ∈ ((LaneThread.machine ⟨BitVec.twoPow 32 29, 0⟩).run
        (.new [fun _ => .noResponse, fun _ => .noResponse]) asleepThenPush).toOption,
      ∃ out ∈ ((LaneThread.machine ⟨BitVec.twoPow 32 29, 0⟩).run mid.1 sleepTwice).toOption,
        mid.1.pc = .waiting (.asleep 100000) ∧ mid.1.stop = false ∧
          (∃ ring ∈ mid.1.rings[1]?, emptyResp ∈ ring.queue) ∧
          1 < (LaneThread.machine ⟨BitVec.twoPow 32 29, 0⟩).countSteps LaneThread.fallsAsleep mid.1
            sleepTwice := by
    decide +kernel
  obtain ⟨mid, hmid, out, hout, hpc, hlive, ⟨ring, hring, hresp⟩, hnaps⟩ := hall
  have hearly := eq_ok_of_mem_toOption hmid
  have hlate := eq_ok_of_mem_toOption hout
  have hdel := (lane_delivers_within _ _ _ _ mid.1 out.1 mid.2 out.2 hearly hlate hlive (by decide) 1
    ring hring emptyResp hresp).2.2 (.inr hnaps)
  exact ⟨mid.1, out.1, mid.2, out.2, hearly, hlate, hpc, hdel⟩

end TxSender.Rt
