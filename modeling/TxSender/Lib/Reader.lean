/-
# TxSender.Lib.Reader — readers that look no further than what they take.

A reader takes a value off the front of a list and hands back the rest. A *committed* reader has taken
at least one element and has looked at nothing behind it: whatever follows, it reads the same value.
So it reads the same from a list and from every cut of the list behind what it took
(`Committed.read_of_cut`), and if it reads nothing from a list, it reads nothing from a cut of it
(`Committed.none_of_cut`). Sequencing, skipping and searching keep readers committed.
-/
import Mathlib.Data.List.TakeWhile
import TxSender.Lib.Search

namespace TxSender.Lib

open TxSender.Lib.Search

variable {α β γ : Type}

/-- A value off the front of a list, and the rest. -/
abbrev Reader (α β : Type) := List α → Option (β × List α)

/-- What is read depends only on the elements taken, and some are. -/
def Committed (f : Reader α β) : Prop :=
  ∀ l v rest, f l = some (v, rest) →
    ∃ upto, upto ≠ [] ∧ l = upto ++ rest ∧ ∀ r, f (upto ++ r) = some (v, r)

namespace Committed

variable {f : Reader α β} {g : Reader α γ}

/-- A cut behind the elements taken does not matter. -/
theorem read_of_cut (hf : Committed f) {l p : List α} {v : β} {rest : List α}
    (h : f l = some (v, rest)) (hcut : ∀ upto, l = upto ++ rest → upto <+: p) : ∃ rest', f p = some (v, rest') := by
  obtain ⟨upto, -, hl, hread⟩ := hf l v rest h
  obtain ⟨rest', rfl⟩ := hcut upto hl
  exact ⟨rest', hread rest'⟩

theorem append_right (hf : Committed f) {l : List α} {v : β} {rest : List α}
    (h : f l = some (v, rest)) (r : List α) : f (l ++ r) = some (v, rest ++ r) := by
  obtain ⟨upto, -, rfl, hread⟩ := hf l v rest h
  rw [List.append_assoc]
  exact hread (rest ++ r)

/-- Nothing is read from a cut of a list that nothing is read from. -/
theorem none_of_cut (hf : Committed f) {l p : List α} (h : f l = none) (hp : p <+: l) :
    f p = none := by
  obtain ⟨r, rfl⟩ := hp
  cases hread : f p with
  | none => rfl
  | some x =>
      rw [hf.append_right hread r] at h
      cases h

end Committed

/-! ## Building readers -/

/-- One reader behind another, for the second value. -/
def andThen (f : Reader α β) (g : Reader α γ) : Reader α γ := fun l => (f l).bind fun x => g x.2

/-- A reader behind the elements that meet `p`. -/
def skipWhile (p : α → Bool) (f : Reader α β) : Reader α β := fun l => f (l.dropWhile p)

/-- The elements that meet `p`, and the one behind them, which must be there. -/
def token (p : α → Bool) : Reader α (List α) := fun l =>
  match l.dropWhile p with
  | [] => none
  | _ :: rest => some (l.takeWhile p, rest)

section
variable [DecidableEq α]

/-- To behind the first occurrence of `pat`. -/
def beyond (pat : List α) : Reader α Unit := fun l =>
  (find pat l).map fun i => ((), l.drop (i + pat.length))

/-- The elements before the first `a`. -/
def before (a : α) : Reader α (List α) := fun l =>
  (find [a] l).map fun i => (l.take i, l.drop (i + 1))

/-- The element `a`. -/
def exactly (a : α) : Reader α Unit
  | [] => none
  | b :: l => if b = a then some ((), l) else none

end

theorem committed_andThen {f : Reader α β} {g : Reader α γ} (hf : Committed f) (hg : Committed g) :
    Committed (andThen f g) := by
  intro l v rest h
  obtain ⟨⟨u, mid⟩, hmid, hrest⟩ := Option.bind_eq_some_iff.mp h
  obtain ⟨a, ha, rfl, hfa⟩ := hf l u mid hmid
  obtain ⟨b, -, rfl, hgb⟩ := hg mid v rest hrest
  refine ⟨a ++ b, by simp [ha], by simp, fun r => ?_⟩
  unfold andThen
  rw [List.append_assoc, hfa, Option.bind_some, hgb]

/-- The first element that `f` takes ends the skipping. -/
theorem committed_skipWhile (p : α → Bool) {f : Reader α β} (hf : Committed f) :
    Committed (skipWhile p f) := by
  intro l v rest h
  obtain ⟨a, ha, hl, hfa⟩ := hf _ v rest h
  obtain ⟨x, a, rfl⟩ := List.exists_cons_of_ne_nil ha
  have hx : p x = false := by
    have hhead := List.head?_dropWhile_not p l
    rw [hl] at hhead
    simpa using hhead
  refine ⟨l.takeWhile p ++ x :: a, by simp, ?_, fun r => ?_⟩
  · rw [List.append_assoc, ← hl, List.takeWhile_append_dropWhile]
  · unfold skipWhile
    rw [List.append_assoc, List.dropWhile_append_of_pos fun y hy => List.mem_takeWhile_imp hy,
      List.cons_append, List.dropWhile_cons_of_neg (by simp [hx])]
    exact hfa r

theorem committed_token (p : α → Bool) : Committed (token p) := by
  intro l v rest h
  unfold token at h
  split at h
  next => cases h
  next x rest' hl =>
    obtain ⟨rfl, rfl⟩ := Prod.mk.inj (Option.some.inj h)
    have hx : p x = false := by
      have hhead := List.head?_dropWhile_not p l
      rw [hl] at hhead
      simpa using hhead
    have hpos : ∀ y ∈ l.takeWhile p, p y = true := fun y hy => List.mem_takeWhile_imp hy
    refine ⟨l.takeWhile p ++ [x], by simp, ?_, fun r => ?_⟩
    · rw [List.append_assoc, List.singleton_append, ← hl, List.takeWhile_append_dropWhile]
    · have hdrop : (l.takeWhile p ++ [x] ++ r).dropWhile p = x :: r := by
        rw [List.append_assoc, List.dropWhile_append_of_pos hpos, List.singleton_append,
          List.dropWhile_cons_of_neg (by simp [hx])]
      have htake : (l.takeWhile p ++ [x] ++ r).takeWhile p = l.takeWhile p := by
        rw [List.append_assoc, List.takeWhile_append_of_pos hpos, List.singleton_append,
          List.takeWhile_cons_of_neg (by simp [hx]), List.append_nil]
      simp only [token, hdrop, htake]

variable [DecidableEq α]

theorem committed_beyond {pat : List α} (hpat : pat ≠ []) : Committed (beyond pat) := by
  intro l v rest h
  obtain ⟨i, hi, heq⟩ := Option.map_eq_some_iff.mp h
  obtain ⟨rfl, rfl⟩ := Prod.mk.inj heq
  obtain ⟨hocc, hmin⟩ := find_eq_some_iff.mp hi
  have hbound := hocc.bound
  have hlen : (l.take (i + pat.length)).length = i + pat.length := by
    rw [List.length_take, Nat.min_eq_left hbound]
  have hsplit := List.take_append_drop (i + pat.length) l
  refine ⟨l.take (i + pat.length), ?_, hsplit.symm, fun r => ?_⟩
  · intro hnil
    have hpos := List.length_pos_iff.mpr hpat
    rw [hnil, List.length_nil] at hlen
    omega
  · -- the first occurrence lies in what is taken
    have hfind : find pat (l.take (i + pat.length)) = some i := by
      rw [← hsplit] at hocc hmin
      refine find_eq_some_iff.mpr ⟨hocc.of_append_right (by omega), fun j hj hj' => ?_⟩
      exact hmin j hj (hj'.append_right _)
    unfold beyond
    rw [find_append_right hfind r, Option.map_some, List.drop_left' hlen]

theorem committed_before (a : α) : Committed (before a) := by
  intro l v rest h
  obtain ⟨i, hi, heq⟩ := Option.map_eq_some_iff.mp h
  obtain ⟨rfl, rfl⟩ := Prod.mk.inj heq
  have hbeyond : beyond [a] l = some ((), l.drop (i + 1)) := by
    rw [beyond, hi]
    rfl
  obtain ⟨upto, hne, hl, hread⟩ := committed_beyond (List.cons_ne_nil a []) l _ _ hbeyond
  refine ⟨upto, hne, hl, fun r => ?_⟩
  have hbound := find_bound hi
  have hlen : upto.length = i + 1 := by
    have := congrArg List.length hl
    rw [List.length_append, List.length_drop] at this
    simp only [List.length_singleton] at hbound
    omega
  obtain ⟨j, hj, heq⟩ := Option.map_eq_some_iff.mp (hread r)
  have hdrop := (Prod.mk.inj heq).2
  have hji : j = i := by
    have := congrArg List.length hdrop
    have hboundj := find_bound hj
    simp only [List.length_drop, List.length_append, List.length_singleton] at this hboundj
    omega
  unfold before
  rw [hj, hji, Option.map_some, List.drop_left' hlen, List.take_append_of_le_length (by omega), hl,
    List.take_append_of_le_length (by omega)]

theorem committed_exactly (a : α) : Committed (exactly a) := by
  intro l v rest h
  cases l with
  | nil => cases h
  | cons b l =>
      rw [exactly] at h
      split at h
      next hb =>
        obtain ⟨rfl, rfl⟩ := Prod.mk.inj (Option.some.inj h)
        refine ⟨[b], List.cons_ne_nil b [], rfl, fun r => ?_⟩
        rw [List.singleton_append, exactly, if_pos hb]
      next => cases h

end TxSender.Lib
