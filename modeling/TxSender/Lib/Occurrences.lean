/-
# TxSender.Lib.Occurrences — how often a pattern occurs, and where occurrences can lie.

A text made of pieces with a separator between them holds as many occurrences as its pieces,
provided the separator is not an element of the pattern. Occurrences of two patterns that clash
however they are laid over each other lie apart, and then one of them survives, at a known offset,
when the other is replaced by a block of any length.
-/
import TxSender.Lib.Search

namespace TxSender.Lib.Search

variable {α : Type*}

/-! ## Two patterns in one list -/

/-- However `q` is laid over `p`, starting inside it, some element differs. -/
def Clash [DecidableEq α] (p q : List α) : Prop :=
  ∀ d < p.length, ∃ m < q.length, d + m < p.length ∧ p[d + m]? ≠ q[m]?

instance [DecidableEq α] (p q : List α) : Decidable (Clash p q) :=
  inferInstanceAs (Decidable (∀ d < p.length, ∃ m < q.length, d + m < p.length ∧ p[d + m]? ≠ q[m]?))

/-- An occurrence of `q` does not start inside an occurrence of a pattern it clashes with. -/
theorem Clash.not_inside [DecidableEq α] {p q l : List α} {i k : Nat} (h : Clash p q)
    (hp : OccursAt p l i) (hq : OccursAt q l k) (hik : i ≤ k) : i + p.length ≤ k := by
  by_contra hlt
  obtain ⟨m, hm, hin, hne⟩ := h (k - i) (by omega)
  apply hne
  have hleft := (occursAt_iff_getElem?.mp hp).2 (k - i + m) hin
  have hright := (occursAt_iff_getElem?.mp hq).2 m hm
  rw [← hleft, ← hright]
  congr 1
  omega

theorem OccursAt.apart [DecidableEq α] {p q l : List α} {i k : Nat} (hp : OccursAt p l i)
    (hq : OccursAt q l k) (hpq : Clash p q) (hqp : Clash q p) :
    i + p.length ≤ k ∨ k + q.length ≤ i := by
  rcases Nat.le_total i k with hik | hki
  · exact .inl (hpq.not_inside hp hq hik)
  · exact .inr (hqp.not_inside hq hp hki)

/-- What stands apart from a block stays when the block is replaced, and moves with the difference
in length when it stood behind. -/
theorem OccursAt.replaceBlock {q l : List α} {i n k : Nat} (hq : OccursAt q l k)
    (hap : i + n ≤ k ∨ k + q.length ≤ i) (block : List α) :
    OccursAt q (l.take i ++ (block ++ l.drop (i + n)))
      (if i + n ≤ k then k - n + block.length else k) := by
  obtain ⟨pre, post, rfl, rfl⟩ := hq
  by_cases hbehind : i + n ≤ pre.length
  · rw [if_pos hbehind, List.take_append_of_le_length (by omega),
      List.drop_append_of_le_length hbehind]
    refine ⟨pre.take i ++ (block ++ pre.drop (i + n)), post, by simp, ?_⟩
    simp only [List.length_append, List.length_take, List.length_drop]
    omega
  · rw [if_neg hbehind]
    have hfront : (pre ++ (q ++ post)).take i = pre ++ (q ++ post.take (i - pre.length - q.length)) := by
      rw [List.take_append, List.take_append, List.take_of_length_le (by omega),
        List.take_of_length_le (by omega)]
    rw [hfront, List.append_assoc, List.append_assoc]
    exact ⟨pre, _, rfl, rfl⟩

theorem OccursAt.stem {p s l : List α} {i : Nat} (h : OccursAt (p ++ s) l i) : OccursAt p l i := by
  obtain ⟨pre, post, rfl, rfl⟩ := h
  exact ⟨pre, s ++ post, by simp, rfl⟩

/-- A pattern that starts before a separator ends before it. -/
theorem isPrefix_append_sep {pat l r : List α} {c : α} (hc : c ∉ pat) :
    pat <+: l ++ c :: r ↔ pat <+: l := by
  constructor
  · intro h
    rcases Nat.lt_or_ge l.length pat.length with hlong | hshort
    · exfalso
      apply hc
      obtain ⟨rest, hrest⟩ := h
      have hat := congrArg (·[l.length]?) hrest
      rw [List.getElem?_append_left hlong, List.getElem?_append_right (le_refl _), Nat.sub_self] at hat
      exact List.mem_of_getElem? hat
    · exact List.prefix_of_prefix_length_le h (List.prefix_append l _) hshort
  · intro h
    exact h.trans (List.prefix_append l _)

/-! ## Counting -/

variable [DecidableEq α]

/-- How often `pat` occurs. -/
def occurrences (pat : List α) : List α → Nat
  | [] => if pat = [] then 1 else 0
  | a :: l => (if pat <+: a :: l then 1 else 0) + occurrences pat l

theorem occurrences_eq_zero_iff {pat l : List α} :
    occurrences pat l = 0 ↔ ∀ i, ¬ OccursAt pat l i := by
  rw [← find_eq_none_iff]
  induction l with
  | nil =>
      unfold occurrences find
      split <;> simp
  | cons a l ih =>
      unfold occurrences find
      split
      · simp
      · simpa using ih

theorem occurrences_eq_one_iff {pat l : List α} :
    occurrences pat l = 1 ↔ ∃ i, OccursAt pat l i ∧ ∀ j, OccursAt pat l j → j = i := by
  induction l with
  | nil =>
      have hzero : ∀ i, OccursAt pat [] i → i = 0 := by
        intro i h
        have := h.bound
        simp at this
        exact this.1
      unfold occurrences
      split
      · rename_i hp
        subst hp
        exact ⟨fun _ => ⟨0, ⟨[], [], rfl, rfl⟩, hzero⟩, fun _ => rfl⟩
      · rename_i hp
        refine ⟨fun h => by simp at h, fun ⟨i, h, _⟩ => absurd ?_ hp⟩
        have := h.bound
        simp at this
        exact this.2
  | cons a l ih =>
      unfold occurrences
      by_cases hp : pat <+: a :: l
      · -- the occurrence at the front is the only one exactly when the rest holds none
        rw [if_pos hp, Nat.add_eq_left, occurrences_eq_zero_iff]
        have h0 := occursAt_zero.mpr hp
        constructor
        · intro h
          refine ⟨0, h0, fun j hj => ?_⟩
          cases j with
          | zero => rfl
          | succ j => exact absurd (occursAt_cons_succ.mp hj) (h j)
        · rintro ⟨i, -, huniq⟩ j hj
          have := huniq (j + 1) (occursAt_cons_succ.mpr hj)
          have := huniq 0 h0
          omega
      · rw [if_neg hp, Nat.zero_add, ih]
        constructor
        · rintro ⟨i, hi, huniq⟩
          refine ⟨i + 1, occursAt_cons_succ.mpr hi, fun j hj => ?_⟩
          cases j with
          | zero => exact absurd (occursAt_zero.mp hj) hp
          | succ j => rw [huniq j (occursAt_cons_succ.mp hj)]
        · rintro ⟨i, hi, huniq⟩
          cases i with
          | zero => exact absurd (occursAt_zero.mp hi) hp
          | succ i =>
              refine ⟨i, occursAt_cons_succ.mp hi, fun j hj => ?_⟩
              exact Nat.succ.inj (huniq (j + 1) (occursAt_cons_succ.mpr hj))

/-- A separator cuts a text into pieces that can be counted on their own. -/
theorem occurrences_append_sep {pat : List α} {c : α} (hne : pat ≠ []) (hc : c ∉ pat)
    (l r : List α) : occurrences pat (l ++ c :: r) = occurrences pat l + occurrences pat r := by
  induction l with
  | nil =>
      have hno : ¬ pat <+: c :: r := by
        intro h
        have := (isPrefix_append_sep (l := []) (r := r) hc).mp h
        exact hne (List.prefix_nil.mp this)
      have hnil : occurrences pat [] = 0 := if_neg hne
      rw [List.nil_append, hnil, occurrences, if_neg hno]
  | cons a l ih =>
      rw [List.cons_append, occurrences, occurrences, ih, ← List.cons_append, Nat.add_assoc]
      simp only [isPrefix_append_sep hc]

/-- Two texts can be counted on their own when one of them has a separator where they meet. -/
theorem occurrences_append {pat l r : List α} (hne : pat ≠ [])
    (h : (∃ c ∈ l.getLast?, c ∉ pat) ∨ ∃ c ∈ r.head?, c ∉ pat) :
    occurrences pat (l ++ r) = occurrences pat l + occurrences pat r := by
  have hnil : occurrences pat [] = 0 := if_neg hne
  rcases h with ⟨c, hlast, hc⟩ | ⟨c, hhead, hc⟩
  · obtain ⟨l', rfl⟩ := List.getLast?_eq_some_iff.mp hlast
    have hend := occurrences_append_sep hne hc l' []
    rw [hnil, Nat.add_zero] at hend
    rw [List.append_assoc, List.singleton_append, occurrences_append_sep hne hc, hend]
  · obtain ⟨r', rfl⟩ := List.head?_eq_some_iff.mp hhead
    have hstart := occurrences_append_sep hne hc [] r'
    rw [hnil, Nat.zero_add, List.nil_append] at hstart
    rw [occurrences_append_sep hne hc, hstart]

end TxSender.Lib.Search
