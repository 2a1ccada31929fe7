/-
# TxSender.Transport.Trigger — handing one job to every worker.

`trigger` pushes the job into the ring of each worker in turn and reports backpressure when one of
the rings was full. The rings drain on their own, so at any push any of them may be full, and a job
that one ring refused stays in the rings that took it: a call is all-or-nothing exactly when the
rings are all full or all open (`trigger_iff`).

`Feed` is the system around the call: a caller that retries each job until it is accepted, the pushes
of a call one step each, and workers that pop in between. Every worker gets each accepted job exactly
once and in order as long as the pushes of a call agree.
-/
import TxSender.Sink
import TxSender.Lib.Machine

namespace TxSender.Transport

open TxSender.Lib

/-! ## The call -/

def triggerRing : Nat := 256

/-- `Producer::try_push`: the ring, oldest job first, and whether it took the job. -/
def tryPush (ring : List Job) (job : Job) : List Job × Except Job Unit :=
  if ring.length < triggerRing then (ring ++ [job], .ok ()) else (ring, .error job)

/-- The rings of the workers: one for all providers, or one for each. -/
inductive Dispatch where
  | single (ring : List Job)
  | fanout (rings : List (List Job))
  deriving DecidableEq, Repr

def Dispatch.rings : Dispatch → List (List Job)
  | .single ring => [ring]
  | .fanout rings => rings

/-- The loop over the rings, with the flag it keeps. -/
def pushEach (job : Job) : List (List Job) → Bool → List (List Job) × Bool
  | [], ok => ([], ok)
  | ring :: rings, ok =>
      match tryPush ring job with
      | (ring, .ok ()) =>
          let (rings, ok) := pushEach job rings ok
          (ring :: rings, ok)
      | (ring, .error _) =>
          let (rings, ok) := pushEach job rings false
          (ring :: rings, ok)

/-- `Sender::trigger` -/
def Dispatch.trigger (d : Dispatch) (job : Job) : Dispatch × Except TriggerError Unit :=
  match d with
  | .single ring =>
      match tryPush ring job with
      | (ring, .ok ()) => (.single ring, .ok ())
      | (ring, .error _) => (.single ring, .error .backpressure)
  | .fanout rings =>
      match pushEach job rings true with
      | (rings, true) => (.fanout rings, .ok ())
      | (rings, false) => (.fanout rings, .error .backpressure)

/-- What one push leaves in a ring. -/
def pushed (job : Job) (ring : List Job) : List Job :=
  if ring.length < triggerRing then ring ++ [job] else ring

theorem pushEach_eq (job : Job) (rings : List (List Job)) (ok : Bool) :
    pushEach job rings ok =
      (rings.map (pushed job), ok && rings.all fun ring => ring.length < triggerRing) := by
  induction rings generalizing ok with
  | nil => simp [pushEach]
  | cons ring rings ih =>
      by_cases hroom : ring.length < triggerRing
      · simp [pushEach, tryPush, pushed, hroom, ih]
      · simp [pushEach, tryPush, pushed, hroom, ih]

/-- No ring is full. -/
def Dispatch.open (d : Dispatch) : Bool := d.rings.all fun ring => ring.length < triggerRing

theorem Dispatch.open_iff {d : Dispatch} :
    d.open = true ↔ ∀ ring ∈ d.rings, ring.length < triggerRing := by
  simp [Dispatch.open]

/-- Every ring takes its push on its own; the call is accepted when all of them did. -/
theorem Dispatch.trigger_eq (d : Dispatch) (job : Job) :
    (d.trigger job).1.rings = d.rings.map (pushed job) ∧
      (d.trigger job).2 = if d.open then .ok () else .error .backpressure := by
  cases d with
  | single ring =>
      by_cases hroom : ring.length < triggerRing
      · simp [trigger, tryPush, rings, pushed, Dispatch.open, hroom]
      · simp [trigger, tryPush, rings, pushed, Dispatch.open, hroom]
  | fanout rings =>
      simp only [trigger, pushEach_eq, Bool.true_and]
      cases hopen : rings.all fun ring => decide (ring.length < triggerRing) with
      | true => simp [Dispatch.open, Dispatch.rings, hopen]
      | false => simp [Dispatch.open, Dispatch.rings, hopen]

/-- Accepted exactly when every ring has the job, and refused without a trace. -/
structure AllOrNothing (d : Dispatch) (job : Job) : Prop where
  accepted : (d.trigger job).2 = .ok () ↔ (d.trigger job).1.rings = d.rings.map (· ++ [job])
  refused : (d.trigger job).2 = .error .backpressure → (d.trigger job).1.rings = d.rings

/-- No ring is full, or all of them are. -/
def Uniform (d : Dispatch) : Prop :=
  (∀ ring ∈ d.rings, ring.length < triggerRing) ∨ ∀ ring ∈ d.rings, triggerRing ≤ ring.length

instance (d : Dispatch) : Decidable (Uniform d) := inferInstanceAs (Decidable (_ ∨ _))

theorem pushed_eq_append {job : Job} {ring : List Job} :
    pushed job ring = ring ++ [job] ↔ ring.length < triggerRing := by
  unfold pushed
  split
  · rename_i h
    exact ⟨fun _ => h, fun _ => rfl⟩
  · rename_i h
    exact ⟨fun heq => by simp at heq, fun hlt => absurd hlt h⟩

theorem pushed_eq_self {job : Job} {ring : List Job} :
    pushed job ring = ring ↔ triggerRing ≤ ring.length := by
  unfold pushed
  split
  · rename_i h
    exact ⟨fun heq => by simp at heq, fun hle => absurd hle (Nat.not_le.mpr h)⟩
  · rename_i h
    exact ⟨fun _ => Nat.not_lt.mp h, fun _ => rfl⟩

theorem allOrNothing_iff_uniform (d : Dispatch) (job : Job) : AllOrNothing d job ↔ Uniform d := by
  obtain ⟨hrings, hresult⟩ := d.trigger_eq job
  have happend : d.rings.map (pushed job) = d.rings.map (· ++ [job]) ↔
      ∀ ring ∈ d.rings, ring.length < triggerRing := by
    rw [List.map_inj_left]
    exact forall₂_congr fun _ _ => pushed_eq_append
  have hself : d.rings.map (pushed job) = d.rings ↔
      ∀ ring ∈ d.rings, triggerRing ≤ ring.length := by
    conv_lhs => rhs; rw [← List.map_id d.rings]
    rw [List.map_inj_left]
    exact forall₂_congr fun _ _ => pushed_eq_self
  cases hopen : d.open with
  | true =>
      have hall := Dispatch.open_iff.mp hopen
      rw [hopen, if_pos rfl] at hresult
      refine ⟨fun _ => Or.inl hall, fun _ => ⟨?_, fun herr => ?_⟩⟩
      · rw [hresult, hrings, happend]
        exact ⟨fun _ => hall, fun _ => rfl⟩
      · rw [hresult] at herr
        cases herr
  | false =>
      have hall : ¬ ∀ ring ∈ d.rings, ring.length < triggerRing := by
        rw [← Dispatch.open_iff, hopen]
        decide
      rw [hopen, if_neg (by decide)] at hresult
      constructor
      · intro h
        have hsame := h.refused hresult
        rw [hrings] at hsame
        exact Or.inr (hself.mp hsame)
      · intro h
        have hfull := h.resolve_left hall
        refine ⟨?_, fun _ => by rw [hrings, hself.mpr hfull]⟩
        rw [hresult, hrings, happend]
        exact ⟨fun h => (by cases h), fun h => absurd h hall⟩

/-! ## A caller that retries, and workers that pop -/

/-- Where the caller stands: between calls, or about to push into ring `k` with the flag so far. -/
inductive CallPc where
  | idle
  | pushing (k : Nat) (ok : Bool)
  deriving DecidableEq, Repr

/-- The rings, what each worker has popped, and the caller with the jobs accepted so far and the jobs
still to trigger. -/
structure Feed where
  rings : List (List Job)
  popped : List (List Job)
  accepted : List Job
  todo : List Job
  pc : CallPc
  deriving DecidableEq, Repr

/-- Who moves next. -/
inductive FeedAction where
  | caller
  | pop (w : Nat)
  deriving DecidableEq, Repr

namespace Feed

/-- A caller with these jobs, and rings that hold jobs of earlier calls. -/
def start (rings : List (List Job)) (jobs : List Job) : Feed where
  rings := rings
  popped := List.replicate rings.length []
  accepted := []
  todo := jobs
  pc := .idle

/-- The end of a call: an accepted job is done, a refused one is triggered again. -/
def finish (s : Feed) (job : Job) (rest : List Job) (ok : Bool) : Feed :=
  if ok then { s with accepted := s.accepted ++ [job], todo := rest, pc := .idle }
  else { s with pc := .idle }

def step (s : Feed) : FeedAction → Feed
  | .caller =>
      match s.todo, s.pc with
      | [], _ => s
      | _ :: _, .idle => { s with pc := .pushing 0 true }
      | job :: rest, .pushing k ok =>
          match s.rings[k]? with
          | some ring =>
              let (ring, r) := tryPush ring job
              { s with rings := s.rings.set k ring, pc := .pushing (k + 1) (ok && r.isOk) }
          | none => s.finish job rest ok
  | .pop w =>
      match s.rings[w]?, s.popped[w]? with
      | some (job :: ring), some jobs =>
          { s with rings := s.rings.set w ring, popped := s.popped.set w (jobs ++ [job]) }
      | _, _ => s

def machine : Machine Feed FeedAction Unit where
  step s a := .ok (s.step a, [])

/-- What worker `w` has got: the jobs it popped and the jobs that wait for it. -/
def received (s : Feed) (w : Nat) : List Job :=
  (s.popped[w]?).getD [] ++ (s.rings[w]?).getD []

/-- The job of the call under way, for the workers whose push is behind it, unless a push of this call
has failed. -/
def current (s : Feed) (w : Nat) : List Job :=
  match s.todo, s.pc with
  | job :: _, .pushing k true => if w < k then [job] else []
  | _, _ => []

/-- Every worker has got every accepted job exactly once, in trigger order, behind what was in its
ring at the start; and a call that is failing, or has failed, has left nothing behind. -/
def Exact (rings : List (List Job)) (s : Feed) : Prop :=
  ∀ w < rings.length, s.received w = (rings[w]?).getD [] ++ s.accepted ++ s.current w

/-- The pushes of a call agree: behind the first one, a ring is full exactly when one before it
was. -/
def Agrees (s : Feed) : FeedAction → Prop
  | .caller =>
      match s.todo, s.pc with
      | _ :: _, .pushing (k + 1) ok =>
          ∀ ring ∈ s.rings[k + 1]?, (triggerRing ≤ ring.length ↔ ok = false)
      | _, _ => True
  | .pop _ => True

/-- Bookkeeping: one list of popped jobs for each ring, the jobs are never lost, and a call starts
with its flag set. -/
structure Booked (rings : List (List Job)) (jobs : List Job) (s : Feed) : Prop where
  ringCount : s.rings.length = rings.length
  poppedCount : s.popped.length = rings.length
  jobs : s.accepted ++ s.todo = jobs
  fresh : ∀ ok, s.pc = .pushing 0 ok → ok = true

section Steps

variable {rings : List (List Job)} {jobs : List Job} {s : Feed}

/-- The job, if the push was taken. -/
def given (taken : Bool) (job : Job) : List Job := if taken then [job] else []

theorem given_false (job : Job) : given false job = [] := rfl

theorem given_inj {a b : Bool} {job : Job} : given a job = given b job ↔ a = b := by
  cases a <;> cases b <;> simp [given]

theorem current_eq {job : Job} {rest : List Job} {k : Nat} {ok : Bool} (ht : s.todo = job :: rest)
    (hpc : s.pc = .pushing k ok) (w : Nat) : s.current w = given (ok && decide (w < k)) job := by
  unfold current given
  rw [ht, hpc]
  cases ok with
  | true => simp
  | false => simp

theorem current_idle (hpc : s.pc = .idle) (w : Nat) : s.current w = [] := by
  unfold current
  rw [hpc]
  cases s.todo <;> rfl

theorem received_pop (s : Feed) (w v : Nat) : (s.step (.pop w)).received v = s.received v := by
  simp only [step]
  split
  · rename_i job ring jobs hring hpop
    have hr := (List.getElem?_eq_some_iff.mp hring).1
    have hp := (List.getElem?_eq_some_iff.mp hpop).1
    unfold received
    by_cases hv : w = v
    · subst hv
      simp only [List.getElem?_set_self hr, List.getElem?_set_self hp, hring, hpop, Option.getD_some,
        List.append_assoc, List.singleton_append]
    · simp only [List.getElem?_set_ne hv]
  · rfl

theorem step_pop_same (s : Feed) (w : Nat) :
    (s.step (.pop w)).accepted = s.accepted ∧ (s.step (.pop w)).todo = s.todo ∧
      (s.step (.pop w)).pc = s.pc ∧ (s.step (.pop w)).rings.length = s.rings.length ∧
      (s.step (.pop w)).popped.length = s.popped.length := by
  simp only [step]
  split
  · simp
  · simp

/-- A worker's pop moves a job from its ring to its hands. -/
theorem exact_pop (hb : Booked rings jobs s) (w : Nat) :
    Booked rings jobs (s.step (.pop w)) ∧ (Exact rings (s.step (.pop w)) ↔ Exact rings s) := by
  obtain ⟨hacc, htodo, hpc, hrings, hpopped⟩ := step_pop_same s w
  refine ⟨⟨hrings.trans hb.ringCount, hpopped.trans hb.poppedCount, ?_, ?_⟩, ?_⟩
  · rw [hacc, htodo, hb.jobs]
  · rw [hpc]
    exact hb.fresh
  · have hcur : ∀ v, (s.step (.pop w)).current v = s.current v := by
      intro v
      unfold current
      rw [htodo, hpc]
    unfold Exact
    simp only [received_pop, hacc, hcur]

/-- The end of a call, when all pushes are behind it. -/
theorem exact_finish (hb : Booked rings jobs s) (hP : Exact rings s) {job : Job} {rest : List Job}
    {k : Nat} {ok : Bool} (ht : s.todo = job :: rest) (hpc : s.pc = .pushing k ok)
    (hk : rings.length ≤ k) :
    Booked rings jobs (s.finish job rest ok) ∧ Exact rings (s.finish job rest ok) := by
  have hP' : ∀ w < rings.length,
      s.received w = (rings[w]?).getD [] ++ s.accepted ++ given ok job := by
    intro w hw
    rw [hP w hw, current_eq ht hpc, decide_eq_true (show w < k by omega), Bool.and_true]
  cases ok with
  | true =>
      refine ⟨⟨hb.ringCount, hb.poppedCount, ?_, fun ok h => by cases h⟩, fun w hw => ?_⟩
      · show (s.accepted ++ [job]) ++ rest = jobs
        rw [← hb.jobs, ht, List.append_assoc]
        rfl
      · show s.received w = (rings[w]?).getD [] ++ (s.accepted ++ [job]) ++ _
        rw [hP' w hw, current_idle rfl]
        simp [given]
  | false =>
      refine ⟨⟨hb.ringCount, hb.poppedCount, hb.jobs, fun ok h => by cases h⟩, fun w hw => ?_⟩
      show s.received w = (rings[w]?).getD [] ++ s.accepted ++ _
      rw [hP' w hw, current_idle rfl]
      rfl

/-- A push keeps the accounts exactly when it agrees with the pushes before it. -/
theorem exact_push (hb : Booked rings jobs s) (hP : Exact rings s) {job : Job} {rest ring : List Job}
    {k : Nat} {ok : Bool} (ht : s.todo = job :: rest) (hpc : s.pc = .pushing k ok)
    (hring : s.rings[k]? = some ring) :
    Exact rings { s with rings := s.rings.set k (pushed job ring),
                         pc := .pushing (k + 1) (ok && decide (ring.length < triggerRing)) } ↔
      (0 < k → (ok = decide (ring.length < triggerRing))) := by
  have hk : k < s.rings.length := (List.getElem?_eq_some_iff.mp hring).1
  have hkn : k < rings.length := hb.ringCount ▸ hk
  set room := decide (ring.length < triggerRing) with hroom
  set s' : Feed := { s with rings := s.rings.set k (pushed job ring),
                            pc := .pushing (k + 1) (ok && room) } with hs'
  have hother : ∀ w, w ≠ k → s'.received w = s.received w := by
    intro w hw
    unfold received
    rw [hs']
    simp only [List.getElem?_set_ne (Ne.symm hw)]
  have hself : s'.received k = s.received k ++ given room job := by
    unfold received
    rw [hs']
    simp only [List.getElem?_set_self hk, hring, Option.getD_some, List.append_assoc]
    congr 1
    unfold pushed given
    by_cases hlt : ring.length < triggerRing
    · simp [hroom, hlt]
    · simp [hroom, hlt]
  have hcur' : ∀ w, s'.current w = given ((ok && room) && decide (w < k + 1)) job :=
    current_eq (show s'.todo = job :: rest from ht) rfl
  have hcur := current_eq (s := s) ht hpc
  constructor
  · intro h hpos
    -- the first ring fixes the flag of the pushes before, the ring itself that of this one
    have h0 := h 0 (by omega)
    rw [hother 0 (by omega), hP 0 (by omega), hcur, hcur', List.append_cancel_left_eq, given_inj,
      decide_eq_true (show 0 < k by omega), decide_eq_true (show 0 < k + 1 by omega)] at h0
    have hk' : s'.received k = (rings[k]?).getD [] ++ s.accepted ++ s'.current k := h k hkn
    rw [hself, hP k hkn, hcur, hcur', decide_eq_false (Nat.lt_irrefl k),
      decide_eq_true (show k < k + 1 by omega), Bool.and_false, Bool.and_true, given_false,
      List.append_nil, List.append_cancel_left_eq, given_inj] at hk'
    revert h0 hk'
    cases ok <;> cases room <;> decide
  · -- the rings before `k` see the flag, ring `k` sees its push, and the others see nothing
    intro hagree w hw
    have hok : k = 0 → ok = true := fun h0 => hb.fresh ok (by rw [hpc, h0])
    show s'.received w = (rings[w]?).getD [] ++ s.accepted ++ s'.current w
    rw [hcur']
    rcases Nat.lt_trichotomy w k with hlt | rfl | hgt
    · have heq := hagree (by omega)
      rw [hother w (by omega), hP w hw, hcur, decide_eq_true hlt,
        decide_eq_true (show w < k + 1 by omega), heq, Bool.and_self]
    · rw [hself, hP w hw, hcur, decide_eq_false (Nat.lt_irrefl w),
        decide_eq_true (show w < w + 1 by omega), Bool.and_false, Bool.and_true]
      have hflag : (ok && room) = room := by
        rcases Nat.eq_zero_or_pos w with h0 | hpos
        · rw [hok h0, Bool.true_and]
        · rw [hagree hpos, Bool.and_self]
      rw [hflag, given_false, List.append_nil]
    · rw [hother w (by omega), hP w hw, hcur, decide_eq_false (show ¬ w < k by omega),
        decide_eq_false (show ¬ w < k + 1 by omega), Bool.and_false, Bool.and_false]

theorem step_push {job : Job} {rest ring : List Job} {k : Nat} {ok : Bool}
    (ht : s.todo = job :: rest) (hpc : s.pc = .pushing k ok) (hring : s.rings[k]? = some ring) :
    s.step .caller =
      { s with rings := s.rings.set k (pushed job ring),
               pc := .pushing (k + 1) (ok && decide (ring.length < triggerRing)) } := by
  simp only [step, ht, hpc, hring, tryPush, pushed]
  by_cases hroom : ring.length < triggerRing
  · simp [hroom, Except.isOk, Except.toBool]
  · simp [hroom, Except.isOk, Except.toBool]

theorem step_finish {job : Job} {rest : List Job} {k : Nat} {ok : Bool}
    (ht : s.todo = job :: rest) (hpc : s.pc = .pushing k ok) (hring : s.rings[k]? = none) :
    s.step .caller = s.finish job rest ok := by
  simp only [step, ht, hpc, hring]

/-- What the guard asks of a push. -/
theorem agrees_push {job : Job} {rest ring : List Job} {k : Nat} {ok : Bool}
    (ht : s.todo = job :: rest) (hpc : s.pc = .pushing k ok) (hring : s.rings[k]? = some ring) :
    s.Agrees .caller ↔ (0 < k → (ok = decide (ring.length < triggerRing))) := by
  unfold Agrees
  rw [ht, hpc]
  cases k with
  | zero => simp
  | succ k =>
      simp only [hring, Option.mem_some_iff, forall_eq', Nat.zero_lt_succ, forall_const]
      cases ok with
      | true => simp
      | false => simp

/-- **One step.** The accounts stay exact across a step if and only if the step agrees. -/
theorem exact_step (hb : Booked rings jobs s) (hP : Exact rings s) (a : FeedAction) :
    Booked rings jobs (s.step a) ∧ (Exact rings (s.step a) ↔ s.Agrees a) := by
  cases a with
  | pop w =>
      obtain ⟨hb', hiff⟩ := exact_pop hb w
      exact ⟨hb', hiff.trans (iff_of_true hP trivial)⟩
  | caller =>
      cases ht : s.todo with
      | nil =>
          have hsame : s.step .caller = s := by simp only [step, ht]
          rw [hsame]
          exact ⟨hb, iff_of_true hP (by simp only [Agrees, ht])⟩
      | cons job rest =>
          cases hpc : s.pc with
          | idle =>
              have hbegin : s.step .caller = { s with pc := .pushing 0 true } := by
                simp only [step, ht, hpc]
              rw [hbegin]
              refine ⟨⟨hb.ringCount, hb.poppedCount, hb.jobs, ?_⟩, iff_of_true ?_ ?_⟩
              · intro ok h
                cases h
                rfl
              · intro w hw
                have hnone : Feed.current { s with pc := .pushing 0 true } w = [] := by
                  simp [current, ht]
                have hsame := hP w hw
                rw [current_idle hpc] at hsame
                rw [hnone]
                exact hsame
              · simp only [Agrees, ht, hpc]
          | pushing k ok =>
              cases hring : s.rings[k]? with
              | some ring =>
                  rw [step_push ht hpc hring, exact_push hb hP ht hpc hring,
                    agrees_push ht hpc hring]
                  refine ⟨⟨?_, hb.poppedCount, hb.jobs, fun ok h => (by cases h)⟩, Iff.rfl⟩
                  exact (List.length_set ..).trans hb.ringCount
              | none =>
                  have hk := List.getElem?_eq_none_iff.mp hring
                  rw [hb.ringCount] at hk
                  obtain ⟨hb', hP'⟩ := exact_finish hb hP ht hpc hk
                  rw [step_finish ht hpc hring]
                  refine ⟨hb', iff_of_true hP' ?_⟩
                  unfold Agrees
                  rw [ht, hpc]
                  cases k with
                  | zero => trivial
                  | succ k => exact fun ring hmem => by simp [hring] at hmem

end Steps

/-- The rest of a call with no pop in between, from ring `done.length` on. -/
theorem run_pushes {job : Job} {rest : List Job} (todo : List (List Job)) :
    ∀ (done : List (List Job)) (s : Feed) (ok : Bool), s.todo = job :: rest →
      s.pc = .pushing done.length ok → s.rings = done ++ todo →
      machine.run s (List.replicate (todo.length + 1) .caller) =
        .ok (finish { s with rings := done ++ (pushEach job todo ok).1 } job rest
          (pushEach job todo ok).2, []) := by
  induction todo with
  | nil =>
      intro done s ok ht hpc hrings
      have hring : s.rings[done.length]? = none := by simp [hrings]
      show Except.ok (s.step .caller, []) = _
      rw [step_finish ht hpc hring]
      simp [pushEach, ← hrings]
  | cons ring todo ih =>
      intro done s ok ht hpc hrings
      have hring : s.rings[done.length]? = some ring := by simp [hrings]
      have hset : s.rings.set done.length (pushed job ring) =
          (done ++ [pushed job ring]) ++ todo := by
        simp [hrings]
      have hone := step_push ht hpc hring
      have hrest := ih (done ++ [pushed job ring]) (s.step .caller)
        (ok && decide (ring.length < triggerRing)) (by rw [hone]; exact ht) (by simp [hone])
        (by rw [hone]; exact hset)
      rw [List.length_cons, List.replicate_succ]
      refine Machine.run_cons_eq_ok.mpr ⟨s.step .caller, [], [], rfl, ?_, rfl⟩
      rw [hrest, hone]
      simp [pushEach_eq, finish, Bool.and_assoc]

/-- A call that no worker interrupts is `trigger`. -/
theorem run_call (rings popped : List (List Job)) (accepted rest : List Job) (job : Job) :
    ∃ s, machine.run ⟨rings, popped, accepted, job :: rest, .idle⟩
        (List.replicate (rings.length + 2) .caller) = .ok (s, []) ∧
      s.rings = ((Dispatch.fanout rings).trigger job).1.rings ∧
      (s.accepted, s.todo) =
        (match ((Dispatch.fanout rings).trigger job).2 with
          | .ok () => (accepted ++ [job], rest)
          | .error _ => (accepted, job :: rest)) := by
  obtain ⟨hrings, hresult⟩ := (Dispatch.fanout rings).trigger_eq job
  have hrun := run_pushes rings [] ⟨rings, popped, accepted, job :: rest, .pushing 0 true⟩ true
    rfl rfl rfl
  rw [pushEach_eq, Bool.true_and] at hrun
  rw [List.replicate_succ]
  refine ⟨_, Machine.run_cons_eq_ok.mpr ⟨_, [], [], rfl, hrun, rfl⟩, ?_⟩
  have hopen : (Dispatch.fanout rings).open = rings.all fun ring => ring.length < triggerRing := rfl
  rw [hrings, hresult, hopen]
  cases rings.all fun ring => decide (ring.length < triggerRing) with
  | true => exact ⟨rfl, rfl⟩
  | false => exact ⟨rfl, rfl⟩

/-- The rings at the start have the accounts in order. -/
theorem start_booked (rings : List (List Job)) (jobs : List Job) :
    Booked rings jobs (start rings jobs) ∧ Exact rings (start rings jobs) := by
  refine ⟨⟨rfl, List.length_replicate, rfl, fun ok h => (by cases h)⟩, fun w hw => ?_⟩
  rw [current_idle rfl]
  simp [received, start, hw]

/-- **A run.** The accounts are exact all along exactly when the pushes of every call agree. -/
theorem always_exact_iff (rings : List (List Job)) (jobs : List Job) (is : List FeedAction) :
    machine.Always (fun s _ => s.Exact rings) (start rings jobs) [] is ↔
      machine.Guarded (fun s _ a => s.Agrees a) (start rings jobs) [] is := by
  obtain ⟨hb, hP⟩ := start_booked rings jobs
  apply machine.always_iff_guarded (fun s _ => Booked rings jobs s) _ _ _ hb hP
  intro s log a s' evs hb hP hstep
  cases hstep
  exact exact_step hb hP a

end Feed

/-- **Backpressure.** A call is all-or-nothing exactly when the rings are all open or all full; and with a
caller that retries and workers that pop in between, every worker gets every accepted job once and
in order as long as, behind the first push of a call, a ring is full exactly when one before it
was. -/
theorem trigger_iff (d : Dispatch) (job : Job) (rings : List (List Job)) (jobs : List Job)
    (is : List FeedAction) :
    (AllOrNothing d job ↔ Uniform d) ∧
      (Feed.machine.Always (fun s _ => s.Exact rings) (Feed.start rings jobs) [] is ↔
        Feed.machine.Guarded (fun s _ a => s.Agrees a) (Feed.start rings jobs) [] is) :=
  ⟨allOrNothing_iff_uniform d job, Feed.always_exact_iff rings jobs is⟩

/-- The first worker keeps up and the second does not: the call reports backpressure but leaves the job in
the first ring, and when the second worker has popped and the caller retries, the first worker gets
the job twice. -/
theorem refused_job_stays :
    let job : Job := ⟨1, 0⟩
    let rings := [[], List.replicate 256 ⟨0, 0⟩]
    let retry := List.replicate 4 FeedAction.caller ++ .pop 1 :: List.replicate 4 .caller
    ¬ AllOrNothing (.fanout rings) job ∧
      (Feed.machine.run (Feed.start rings [job]) retry).toOption.map
        (fun r => (r.1.accepted, r.1.received 0)) = some ([job], [job, job]) := by
  refine ⟨?_, by decide +kernel⟩
  rw [allOrNothing_iff_uniform]
  decide +kernel

end TxSender.Transport
