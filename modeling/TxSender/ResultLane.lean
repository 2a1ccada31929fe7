/-
# TxSender.ResultLane — what a worker hands over for one response, and how it becomes an outcome.

Each provider has its own ring; the lane goes round the rings and parses what it pops with the codec
of the same position.
-/
import TxSender.Sink

namespace TxSender

open TxSender.Lib

def respCap : Nat := 1024
def resultRing : Nat := 256

/-- A response as the worker pushes it. -/
structure RawResp where
  job : JobId
  provider : ProviderId
  sentTsc : Nat
  settledTsc : Nat
  bytes : Bytes
  outcomeHint : Option OutcomeKind
  deriving DecidableEq, Repr

/-- `resp.bytes.extend(body[..body.len().min(RESP_CAP)])` -/
def respBytes (body : Bytes) : Bytes := body.take (min body.length respCap)

/-- `ResponseCodec::parse` of a provider's codec -/
abbrev Codec := Bytes → OutcomeKind

def parseOne (resp : RawResp) (codec : Codec) : ProviderOutcome where
  job := resp.job
  provider := resp.provider
  kind :=
    match resp.outcomeHint with
    | some .noResponse => .noResponse
    | _ => codec resp.bytes
  sentAt := resp.sentTsc
  settledAt := resp.settledTsc

/-! ## The lane -/

/-- One call of `sink.on_result(outcome)`, with the ring and the response it came from. -/
structure Delivery where
  ring : Nat
  resp : RawResp
  outcome : ProviderOutcome
  deriving DecidableEq, Repr

/-- Where `ResultLane::run` stands. -/
inductive LanePc where
  | top
  | ring (i : Nat)
  | stopped
  deriving DecidableEq, Repr

/-- The lane with its rings; `sink` holds what the sink was handed, oldest first. -/
structure ResultLane where
  pc : LanePc
  rings : List (List RawResp)
  codecs : List Codec
  sink : List Delivery

namespace ResultLane

def new (codecs : List Codec) : ResultLane where
  pc := .top
  rings := List.replicate codecs.length []
  codecs := codecs
  sink := []

/-- A worker's `try_push` into a ring -/
def push (l : ResultLane) (ring : Nat) (resp : RawResp) : ResultLane :=
  match l.rings[ring]? with
  | some queue =>
      -- the workers ignore the result: a full ring loses the response
      if queue.length < resultRing then { l with rings := l.rings.set ring (queue ++ [resp]) } else l
  | none => l

/-- `run`, a step at a time; `stop` is what `stop.load(..)` reads. -/
def step (l : ResultLane) (stop : Bool) : Exec ResultLane :=
  match l.pc with
  -- the flag is read before a round over the rings, and not again until each was found empty
  | .top => .ok { l with pc := if stop then .stopped else .ring 0 }
  | .ring i =>
      match l.rings[i]? with
      | some (resp :: rest) => do
          let codec ← Exec.index l.codecs i
          pure { l with
            rings := l.rings.set i rest
            sink := l.sink ++ [{ ring := i, resp, outcome := parseOne resp codec }] }
      | some [] => .ok { l with pc := .ring (i + 1) }
      | none => .ok { l with pc := .top }
  | .stopped => .ok l

/-- **A step of the lane.** -/
theorem step_cases {l l' : ResultLane} {stop : Bool} (h : l.step stop = .ok l') :
    (l.pc = .top ∧ l' = { l with pc := if stop then .stopped else .ring 0 }) ∨
    (∃ i resp rest codec, l.pc = .ring i ∧ l.rings[i]? = some (resp :: rest) ∧
      l.codecs[i]? = some codec ∧
      l' = { l with
        rings := l.rings.set i rest
        sink := l.sink ++ [{ ring := i, resp, outcome := parseOne resp codec }] }) ∨
    (∃ i pc, l.pc = .ring i ∧ pc ≠ .stopped ∧ l' = { l with pc }) ∨
    (l.pc = .stopped ∧ l' = l) := by
  unfold step at h
  split at h
  · rename_i hpc
    exact .inl ⟨hpc, (Except.ok.inj h).symm⟩
  · rename_i i hpc
    split at h
    · rename_i resp rest hring
      cases hcodec : l.codecs[i]? with
      | none =>
          rw [Exec.index, hcodec] at h
          cases h
      | some codec =>
          rw [Exec.index, hcodec] at h
          exact .inr (.inl ⟨i, resp, rest, codec, hpc, hring, hcodec, (Except.ok.inj h).symm⟩)
    · exact .inr (.inr (.inl ⟨i, .ring (i + 1), hpc, nofun, (Except.ok.inj h).symm⟩))
    · exact .inr (.inr (.inl ⟨i, .top, hpc, nofun, (Except.ok.inj h).symm⟩))
  · rename_i hpc
    exact .inr (.inr (.inr ⟨hpc, (Except.ok.inj h).symm⟩))

/-! ## Where outcomes come from -/

/-- What waits in ring `i` meets `src i`, and what the sink was handed came out of a ring and was
parsed with the codec of that ring. -/
structure Tracked (cs : List Codec) (src : Nat → RawResp → Prop) (l : ResultLane) : Prop where
  codecs : l.codecs = cs
  length : l.rings.length = cs.length
  rings : ∀ (i : Nat) queue, l.rings[i]? = some queue → ∀ resp ∈ queue, src i resp
  sink : ∀ d ∈ l.sink, src d.ring d.resp ∧
    ∃ codec, cs[d.ring]? = some codec ∧ d.outcome = parseOne d.resp codec

section Tracked

variable {cs : List Codec} {src src' : Nat → RawResp → Prop} {l l' : ResultLane}

theorem tracked_new : (new cs).Tracked cs src := by
  refine ⟨rfl, List.length_replicate, fun i queue hi resp hresp => ?_, by simp [new]⟩
  obtain rfl : queue = [] := List.eq_of_mem_replicate (List.mem_of_getElem? hi)
  cases hresp

theorem Tracked.mono (h : l.Tracked cs src) (hsrc : ∀ i resp, src i resp → src' i resp) :
    l.Tracked cs src' :=
  ⟨h.codecs, h.length, fun i queue hi resp hresp => hsrc i resp (h.rings i queue hi resp hresp),
    fun d hd => ⟨hsrc _ _ (h.sink d hd).1, (h.sink d hd).2⟩⟩

/-- Replacing the contents of one ring. -/
theorem Tracked.setRing (h : l.Tracked cs src) {i : Nat} {queue : List RawResp}
    (hqueue : ∀ resp ∈ queue, src i resp) :
    ({ l with rings := l.rings.set i queue }).Tracked cs src := by
  refine ⟨h.codecs, List.length_set.trans h.length, fun j queue' hj => ?_, h.sink⟩
  by_cases hij : i = j
  · subst hij
    have hlt : i < l.rings.length := by
      rw [← List.length_set]
      exact (List.getElem?_eq_some_iff.mp hj).1
    rw [List.getElem?_set_self hlt] at hj
    obtain rfl := Option.some.inj hj
    exact hqueue
  · rw [List.getElem?_set_ne hij] at hj
    exact h.rings j queue' hj

theorem Tracked.push (h : l.Tracked cs src) {i : Nat} {resp : RawResp} (hresp : src i resp) :
    (l.push i resp).Tracked cs src := by
  unfold ResultLane.push
  split
  · rename_i queue hqueue
    split
    · refine h.setRing fun r hr => ?_
      rcases List.mem_append.mp hr with hr | hr
      · exact h.rings i queue hqueue r hr
      · rwa [List.mem_singleton.mp hr]
    · exact h
  · exact h

/-- No step of the lane indexes out of range. -/
theorem Tracked.step_ok (h : l.Tracked cs src) (stop : Bool) : ∃ l', l.step stop = .ok l' := by
  unfold ResultLane.step
  split
  · exact ⟨_, rfl⟩
  · rename_i i _
    split
    · rename_i resp rest hring
      have hlt : i < l.codecs.length := by
        rw [h.codecs, ← h.length]
        exact (List.getElem?_eq_some_iff.mp hring).1
      rw [Exec.index, List.getElem?_eq_getElem hlt]
      exact ⟨_, rfl⟩
    · exact ⟨_, rfl⟩
    · exact ⟨_, rfl⟩
  · exact ⟨_, rfl⟩

theorem Tracked.step (h : l.Tracked cs src) {stop : Bool} (hstep : l.step stop = .ok l') :
    l'.Tracked cs src := by
  rcases step_cases hstep with ⟨-, rfl⟩ | ⟨i, resp, rest, codec, -, hring, hcodec, rfl⟩ |
    ⟨i, pc, -, -, rfl⟩ | ⟨-, rfl⟩
  · exact ⟨h.codecs, h.length, h.rings, h.sink⟩
  · have hqueue := h.rings i _ hring
    have hset := h.setRing fun r hr => hqueue r (List.mem_cons_of_mem _ hr)
    refine ⟨hset.codecs, hset.length, hset.rings, fun d hd => ?_⟩
    -- what was handed over before, or the response just popped
    rcases List.mem_append.mp hd with hd | hd
    · exact h.sink d hd
    · rw [List.mem_singleton.mp hd]
      exact ⟨hqueue resp (List.mem_cons_self ..), codec, h.codecs ▸ hcodec, rfl⟩
  · exact ⟨h.codecs, h.length, h.rings, h.sink⟩
  · exact h

end Tracked

/-! ## The accounts of a lane -/

/-- Whether `try_push` on a ring takes the response. -/
def accepts (l : ResultLane) (ring : Nat) : Bool :=
  match l.rings[ring]? with
  | some queue => queue.length < resultRing
  | none => false

/-- Of these pushes, each with its ring, those that are taken. -/
def taken (l : ResultLane) : List (Nat × RawResp) → List (Nat × RawResp)
  | [] => []
  | (ring, resp) :: rest =>
      (if l.accepts ring then [(ring, resp)] else []) ++ (l.push ring resp).taken rest

/-- The responses pushed to ring `i`. -/
def pushedTo (i : Nat) (log : List (Nat × RawResp)) : List RawResp :=
  (log.filter (·.1 = i)).map (·.2)

/-- What the sink was handed out of ring `i`. -/
def outcomes (l : ResultLane) (i : Nat) : List ProviderOutcome :=
  (l.sink.filter (·.ring = i)).map (·.outcome)

/-- The sink was handed the outcomes of the responses pushed to each ring, in order, up to those that
wait in the ring. -/
structure Accounted (cs : List Codec) (log : List (Nat × RawResp)) (l : ResultLane) : Prop where
  codecs : l.codecs = cs
  length : l.rings.length = cs.length
  rings : ∀ (i : Nat) codec queue, cs[i]? = some codec → l.rings[i]? = some queue →
    ∃ popped, pushedTo i log = popped ++ queue ∧ l.outcomes i = popped.map (parseOne · codec)

section Accounts

variable {cs : List Codec} {log : List (Nat × RawResp)} {l l' : ResultLane}

theorem pushedTo_append (i : Nat) (log log' : List (Nat × RawResp)) :
    pushedTo i (log ++ log') = pushedTo i log ++ pushedTo i log' := by
  simp [pushedTo]

theorem accounted_new : (new cs).Accounted cs [] := by
  refine ⟨rfl, List.length_replicate, fun i codec queue _ hi => ⟨[], ?_, rfl⟩⟩
  obtain rfl : queue = [] := List.eq_of_mem_replicate (List.mem_of_getElem? hi)
  rfl

theorem push_of_accepts {ring : Nat} (h : l.accepts ring = true) (resp : RawResp) :
    ∃ queue, l.rings[ring]? = some queue ∧
      l.push ring resp = { l with rings := l.rings.set ring (queue ++ [resp]) } := by
  unfold accepts at h
  unfold push
  split at h
  · rename_i queue hring
    simp only [if_pos (of_decide_eq_true h)]
    exact ⟨queue, hring, rfl⟩
  · cases h

theorem push_of_not_accepts {ring : Nat} (h : l.accepts ring = false) (resp : RawResp) :
    l.push ring resp = l := by
  unfold accepts at h
  unfold push
  split at h
  · simp only [if_neg (of_decide_eq_false h)]
  · rfl

theorem Accounted.push (h : l.Accounted cs log) (ring : Nat) (resp : RawResp) :
    (l.push ring resp).Accounted cs (log ++ if l.accepts ring then [(ring, resp)] else []) := by
  cases hacc : l.accepts ring with
  | false =>
      rw [push_of_not_accepts hacc, if_neg (by decide), List.append_nil]
      exact h
  | true =>
      obtain ⟨queue, hring, hpush⟩ := push_of_accepts hacc resp
      rw [hpush, if_pos rfl]
      refine ⟨h.codecs, List.length_set.trans h.length, fun i codec queue' hcodec hi => ?_⟩
      rw [pushedTo_append]
      by_cases hir : ring = i
      · subst hir
        rw [List.getElem?_set_self (List.getElem?_eq_some_iff.mp hring).1] at hi
        obtain rfl := Option.some.inj hi
        obtain ⟨popped, hpushed, hout⟩ := h.rings ring codec queue hcodec hring
        refine ⟨popped, ?_, hout⟩
        rw [hpushed, List.append_assoc]
        simp [pushedTo]
      · rw [List.getElem?_set_ne hir] at hi
        obtain ⟨popped, hpushed, hout⟩ := h.rings i codec queue' hcodec hi
        refine ⟨popped, ?_, hout⟩
        rw [hpushed]
        simp [pushedTo, hir]

theorem Accounted.pushes (h : l.Accounted cs log) (xs : List (Nat × RawResp)) :
    (xs.foldl (fun l x => l.push x.1 x.2) l).Accounted cs (log ++ l.taken xs) := by
  induction xs generalizing l log with
  | nil =>
      rw [taken, List.append_nil]
      exact h
  | cons x xs ih =>
      obtain ⟨ring, resp⟩ := x
      rw [taken, ← List.append_assoc]
      exact ih (h.push ring resp)

theorem push_pc (l : ResultLane) (ring : Nat) (resp : RawResp) : (l.push ring resp).pc = l.pc := by
  unfold push
  split
  · split
    · rfl
    · rfl
  · rfl

theorem pushes_pc (l : ResultLane) (xs : List (Nat × RawResp)) :
    (xs.foldl (fun l x => l.push x.1 x.2) l).pc = l.pc := by
  induction xs generalizing l with
  | nil => rfl
  | cons x xs ih => exact (ih _).trans (push_pc l x.1 x.2)

/-- Nothing waits in any ring. -/
def Clear (l : ResultLane) : Prop := ∀ queue ∈ l.rings, queue = []

instance (l : ResultLane) : Decidable l.Clear := inferInstanceAs (Decidable (∀ _ ∈ _, _))

theorem Clear.accepts (h : l.Clear) {ring : Nat} (hring : ring < l.rings.length) :
    l.accepts ring = true := by
  unfold ResultLane.accepts
  rw [List.getElem?_eq_getElem hring, h _ (List.getElem_mem hring)]
  rfl

/-- A push that is taken waits. -/
theorem not_clear_push {ring : Nat} {resp : RawResp} (h : l.accepts ring = true) :
    ¬ (l.push ring resp).Clear := by
  intro hclear
  obtain ⟨queue, hring, hpush⟩ := push_of_accepts h resp
  rw [hpush] at hclear
  have hmem : queue ++ [resp] ∈ l.rings.set ring (queue ++ [resp]) :=
    List.mem_set (List.getElem?_eq_some_iff.mp hring).1 _
  cases (List.append_eq_nil_iff.mp (hclear _ hmem)).2

/-- Rings that are clear after some pushes were so before, and took none of them. -/
theorem pushes_of_clear {xs : List (Nat × RawResp)}
    (h : (xs.foldl (fun l x => l.push x.1 x.2) l).Clear) :
    xs.foldl (fun l x => l.push x.1 x.2) l = l := by
  induction xs generalizing l with
  | nil => rfl
  | cons x xs ih =>
      have hrest : (x :: xs).foldl (fun l x => l.push x.1 x.2) l = l.push x.1 x.2 := ih h
      rw [hrest] at h ⊢
      cases hacc : l.accepts x.1 with
      | false => exact push_of_not_accepts hacc x.2
      | true => exact absurd h (not_clear_push hacc)

/-- A response that is popped goes to the sink. -/
theorem Accounted.step (h : l.Accounted cs log) {stop : Bool} (hstep : l.step stop = .ok l') :
    l'.Accounted cs log := by
  rcases step_cases hstep with ⟨-, rfl⟩ | ⟨i, resp, rest, codec, -, hring, hcodec, rfl⟩ |
    ⟨i, pc, -, -, rfl⟩ | ⟨-, rfl⟩
  · exact ⟨h.codecs, h.length, h.rings⟩
  · refine ⟨h.codecs, List.length_set.trans h.length, fun j codec' queue hcodec' hj => ?_⟩
    by_cases hij : i = j
    · subst hij
      rw [List.getElem?_set_self (List.getElem?_eq_some_iff.mp hring).1] at hj
      obtain rfl := Option.some.inj hj
      rw [h.codecs, hcodec'] at hcodec
      obtain rfl := Option.some.inj hcodec
      obtain ⟨popped, hpushed, hout⟩ := h.rings i _ _ hcodec' hring
      refine ⟨popped ++ [resp], by rw [hpushed, List.append_assoc]; rfl, ?_⟩
      rw [List.map_append, ← hout]
      simp [outcomes]
    · rw [List.getElem?_set_ne hij] at hj
      obtain ⟨popped, hpushed, hout⟩ := h.rings j codec' queue hcodec' hj
      refine ⟨popped, hpushed, ?_⟩
      rw [← hout]
      simp [outcomes, hij]
  · exact ⟨h.codecs, h.length, h.rings⟩
  · exact h

/-- The sink has everything exactly when nothing waits. -/
theorem Accounted.settled_iff (h : l.Accounted cs log) :
    (∀ (i : Nat) codec, cs[i]? = some codec →
      l.outcomes i = (pushedTo i log).map (parseOne · codec)) ↔ l.Clear := by
  constructor
  · intro hall queue hmem
    obtain ⟨i, hi, hqueue⟩ := List.mem_iff_getElem.mp hmem
    have hic : i < cs.length := h.length ▸ hi
    have hcodec := List.getElem?_eq_getElem hic
    have hring : l.rings[i]? = some queue := by rw [List.getElem?_eq_getElem hi, hqueue]
    obtain ⟨popped, hpushed, hout⟩ := h.rings i _ queue hcodec hring
    have hsame := hall i _ hcodec
    rw [hout, hpushed, List.map_append, List.self_eq_append_right] at hsame
    exact List.map_eq_nil_iff.mp hsame
  · intro hempty i codec hcodec
    have hi : i < l.rings.length := h.length ▸ (List.getElem?_eq_some_iff.mp hcodec).1
    have hring := List.getElem?_eq_getElem hi
    obtain ⟨popped, hpushed, hout⟩ := h.rings i codec _ hcodec hring
    rw [hempty _ (List.getElem_mem hi), List.append_nil] at hpushed
    rw [hout, hpushed]

end Accounts

end ResultLane

end TxSender
