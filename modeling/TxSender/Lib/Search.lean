/-
# TxSender.Lib.Search — occurrences of a pattern in a list, and searching for them.

A pattern occurs in a list at an offset when the list splits there into a prefix, the pattern and a
rest. `find` is the left-to-right scan for the first occurrence. The lemmas below are the ones a
proof about offsets into edited buffers needs: an occurrence read index by index, the first
occurrence surviving an append on the right, and occurrences surviving the replacement of a block
that shares no element with the pattern.
-/
import Mathlib.Data.List.Infix
import Mathlib.Data.List.TakeDrop

namespace TxSender.Lib.Search

variable {α : Type*}

/-- `pat` occurs in `l` at offset `i`. -/
def OccursAt (pat l : List α) (i : Nat) : Prop :=
  ∃ pre post, l = pre ++ (pat ++ post) ∧ pre.length = i

theorem OccursAt.append_right {pat l : List α} {i : Nat} (h : OccursAt pat l i) (r : List α) :
    OccursAt pat (l ++ r) i := by
  obtain ⟨pre, post, rfl, rfl⟩ := h
  exact ⟨pre, post ++ r, by simp, rfl⟩

theorem OccursAt.append_left {pat l : List α} {i : Nat} (h : OccursAt pat l i) (p : List α) :
    OccursAt pat (p ++ l) (p.length + i) := by
  obtain ⟨pre, post, rfl, rfl⟩ := h
  exact ⟨p ++ pre, post, by simp, by simp⟩

theorem OccursAt.bound {pat l : List α} {i : Nat} (h : OccursAt pat l i) :
    i + pat.length ≤ l.length := by
  obtain ⟨pre, post, rfl, rfl⟩ := h
  simp only [List.length_append]
  omega

/-- The window reading of an occurrence: what a slice comparison tests. -/
theorem occursAt_iff_window {pat l : List α} {i : Nat} :
    OccursAt pat l i ↔ i + pat.length ≤ l.length ∧ (l.drop i).take pat.length = pat := by
  constructor
  · intro h
    refine ⟨h.bound, ?_⟩
    obtain ⟨pre, post, rfl, rfl⟩ := h
    simp
  · rintro ⟨hle, hw⟩
    refine ⟨l.take i, (l.drop i).drop pat.length, ?_, by simp; omega⟩
    have hsplit : (l.drop i).take pat.length ++ (l.drop i).drop pat.length = l.drop i :=
      List.take_append_drop _ _
    rw [hw] at hsplit
    rw [hsplit, List.take_append_drop]

/-- The pointwise reading of an occurrence. -/
theorem occursAt_iff_getElem? {pat l : List α} {i : Nat} :
    OccursAt pat l i ↔ i ≤ l.length ∧ ∀ k, k < pat.length → l[i + k]? = pat[k]? := by
  constructor
  · rintro ⟨pre, post, rfl, rfl⟩
    refine ⟨by simp, fun k hk => ?_⟩
    rw [List.getElem?_append_right (by omega), List.getElem?_append_left (by omega)]
    simp
  · rintro ⟨hi, hk⟩
    have hle : i + pat.length ≤ l.length := by
      rcases Nat.eq_zero_or_pos pat.length with h0 | hpos
      · omega
      · have hlast := hk (pat.length - 1) (by omega)
        rw [List.getElem?_eq_getElem (show pat.length - 1 < pat.length by omega)] at hlast
        have := (List.getElem?_eq_some_iff.mp hlast).1
        omega
    refine occursAt_iff_window.mpr ⟨hle, ?_⟩
    apply List.ext_getElem?
    intro k
    by_cases hkp : k < pat.length
    · rw [List.getElem?_take_of_lt hkp, List.getElem?_drop, hk k hkp]
    · rw [List.getElem?_eq_none (by simp; omega), List.getElem?_eq_none (by omega)]

/-- An occurrence that ends inside the left part of an append lies in that part. -/
theorem OccursAt.of_append_right {pat l r : List α} {i : Nat} (h : OccursAt pat (l ++ r) i)
    (hb : i + pat.length ≤ l.length) : OccursAt pat l i := by
  rw [occursAt_iff_window] at h ⊢
  refine ⟨hb, ?_⟩
  have hd : (l ++ r).drop i = l.drop i ++ r := List.drop_append_of_le_length (by omega)
  rw [hd, List.take_append_of_le_length (by simp; omega)] at h
  exact h.2

/-- Two lists that agree outside a block of equal length have the same occurrences of any pattern
that shares no element with either version of the block. -/
theorem occursAt_replace_block {pat pre x y post : List α} {i : Nat} (hlen : x.length = y.length)
    (hx : ∀ a ∈ pat, a ∉ x) (h : OccursAt pat (pre ++ (x ++ post)) i) :
    OccursAt pat (pre ++ (y ++ post)) i := by
  rw [occursAt_iff_getElem?] at h ⊢
  refine ⟨by simpa [hlen] using h.1, fun k hk => ?_⟩
  have hold := h.2 k hk
  rw [List.getElem?_eq_getElem hk] at hold ⊢
  by_cases h1 : i + k < pre.length
  · rw [List.getElem?_append_left h1] at hold ⊢
    exact hold
  · rw [List.getElem?_append_right (by omega)] at hold ⊢
    by_cases h2 : i + k - pre.length < x.length
    · -- inside the block the pattern's element would have to be one of the block's
      rw [List.getElem?_append_left h2] at hold
      exact absurd (List.mem_of_getElem? hold) (hx _ (List.getElem_mem hk))
    · rw [List.getElem?_append_right (by omega)] at hold ⊢
      rw [← hlen]
      exact hold

theorem occursAt_zero {pat l : List α} : OccursAt pat l 0 ↔ pat <+: l := by
  constructor
  · rintro ⟨pre, post, rfl, hpre⟩
    rw [List.length_eq_zero_iff.mp hpre]
    exact ⟨post, by simp⟩
  · rintro ⟨post, rfl⟩
    exact ⟨[], post, by simp, rfl⟩

theorem occursAt_cons_succ {pat l : List α} {a : α} {i : Nat} :
    OccursAt pat (a :: l) (i + 1) ↔ OccursAt pat l i := by
  rw [occursAt_iff_window, occursAt_iff_window]
  simp only [List.length_cons, List.drop_succ_cons]
  refine and_congr ?_ Iff.rfl
  omega

/-! ## The first occurrence -/

variable [DecidableEq α]

instance (pat l : List α) (i : Nat) : Decidable (OccursAt pat l i) :=
  decidable_of_iff _ occursAt_iff_window.symm

/-- The offset of the first occurrence of `pat`, scanning from the left. -/
def find (pat : List α) : List α → Option Nat
  | [] => if pat = [] then some 0 else none
  | a :: l => if pat <+: a :: l then some 0 else (find pat l).map (· + 1)

theorem find_eq_some_iff {pat l : List α} {i : Nat} :
    find pat l = some i ↔ OccursAt pat l i ∧ ∀ j < i, ¬ OccursAt pat l j := by
  induction l generalizing i with
  | nil =>
      by_cases hp : pat = []
      · subst hp
        simp only [find, if_true, Option.some.injEq]
        constructor
        · rintro rfl
          exact ⟨⟨[], [], rfl, rfl⟩, by omega⟩
        · rintro ⟨h, _⟩
          have := h.bound
          simp at this
          omega
      · simp only [find, hp, if_false, false_iff, reduceCtorEq]
        rintro ⟨h, _⟩
        have := h.bound
        simp at this
        exact hp this.2
  | cons a l ih =>
      by_cases hp : pat <+: a :: l
      · simp only [find, hp, if_true, Option.some.injEq]
        have h0 := occursAt_zero.mpr hp
        constructor
        · rintro rfl
          exact ⟨h0, by omega⟩
        · rintro ⟨_, hmin⟩
          by_contra hne
          exact hmin 0 (by omega) h0
      · have h0 : ¬ OccursAt pat (a :: l) 0 := fun h => hp (occursAt_zero.mp h)
        simp only [find, hp, if_false, Option.map_eq_some_iff]
        cases i with
        | zero => simp [h0]
        | succ i =>
            simp only [Nat.add_right_cancel_iff, exists_eq_right, ih, occursAt_cons_succ]
            refine and_congr_right fun _ => ?_
            constructor
            · intro h j hj
              cases j with
              | zero => exact h0
              | succ j => exact fun hj' => h j (by omega) (occursAt_cons_succ.mp hj')
            · intro h j hj hj'
              exact h (j + 1) (by omega) (occursAt_cons_succ.mpr hj')

theorem find_eq_none_iff {pat l : List α} : find pat l = none ↔ ∀ j, ¬ OccursAt pat l j := by
  induction l with
  | nil =>
      by_cases hp : pat = []
      · subst hp
        simp only [find, if_true, reduceCtorEq, false_iff, not_forall, not_not]
        exact ⟨0, [], [], rfl, rfl⟩
      · simp only [find, hp, if_false, true_iff]
        intro j h
        have := h.bound
        simp at this
        exact hp this.2
  | cons a l ih =>
      by_cases hp : pat <+: a :: l
      · simp only [find, hp, if_true, reduceCtorEq, false_iff, not_forall, not_not]
        exact ⟨0, occursAt_zero.mpr hp⟩
      · simp only [find, hp, if_false, Option.map_eq_none_iff, ih]
        constructor
        · intro h j
          cases j with
          | zero => exact fun h' => hp (occursAt_zero.mp h')
          | succ j => exact fun h' => h j (occursAt_cons_succ.mp h')
        · intro h j hj
          exact h (j + 1) (occursAt_cons_succ.mpr hj)

theorem find_isSome_of_occursAt {pat l : List α} {i : Nat} (h : OccursAt pat l i) :
    ∃ k, find pat l = some k ∧ k ≤ i := by
  cases hf : find pat l with
  | none => exact absurd h (find_eq_none_iff.mp hf i)
  | some k =>
      refine ⟨k, rfl, ?_⟩
      by_contra hlt
      exact (find_eq_some_iff.mp hf).2 i (by omega) h

theorem find_bound {pat l : List α} {i : Nat} (h : find pat l = some i) :
    i + pat.length ≤ l.length :=
  (find_eq_some_iff.mp h).1.bound

/-- The first occurrence does not move when the list grows on the right. -/
theorem find_append_right {pat l : List α} {i : Nat} (h : find pat l = some i) (r : List α) :
    find pat (l ++ r) = some i := by
  obtain ⟨hocc, hmin⟩ := find_eq_some_iff.mp h
  refine find_eq_some_iff.mpr ⟨hocc.append_right r, fun j hj hj' => hmin j hj ?_⟩
  have := hocc.bound
  exact hj'.of_append_right (by omega)

/-- Replacing a block that shares no element with the pattern, by one of the same length that
shares none either, leaves the first occurrence where it is. -/
theorem find_replace_block {pat pre x y post : List α} (hlen : x.length = y.length)
    (hx : ∀ a ∈ pat, a ∉ x) (hy : ∀ a ∈ pat, a ∉ y) :
    find pat (pre ++ (x ++ post)) = find pat (pre ++ (y ++ post)) := by
  cases hf : find pat (pre ++ (y ++ post)) with
  | none =>
      rw [find_eq_none_iff] at hf ⊢
      exact fun j hj => hf j (occursAt_replace_block hlen hx hj)
  | some i =>
      rw [find_eq_some_iff] at hf ⊢
      exact ⟨occursAt_replace_block hlen.symm hy hf.1,
        fun j hj hj' => hf.2 j hj (occursAt_replace_block hlen hx hj')⟩

/-- A piece in which no occurrence starts only shifts the first one. -/
theorem find_append_left {pat p l : List α} (h : ∀ i < p.length, ¬ OccursAt pat (p ++ l) i) :
    find pat (p ++ l) = (find pat l).map (p.length + ·) := by
  induction p with
  | nil => simp
  | cons a p ih =>
      have hzero : ¬ pat <+: a :: (p ++ l) := by
        intro hpre
        exact h 0 (by simp) (occursAt_zero.mpr hpre)
      have htail : ∀ i < p.length, ¬ OccursAt pat (p ++ l) i := by
        intro i hi hocc
        exact h (i + 1) (by simpa using hi) (occursAt_cons_succ.mpr hocc)
      rw [List.cons_append, find, if_neg hzero, ih htail, Option.map_map]
      congr 1
      funext i
      simp only [Function.comp, List.length_cons]
      omega

end TxSender.Lib.Search
