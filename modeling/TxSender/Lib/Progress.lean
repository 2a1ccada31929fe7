/-
# TxSender.Lib.Progress — what a machine does after a bounded number of steps.

Which machine steps count is a matter of the program: a thread makes progress only when it is scheduled,
a clock only when it ticks. `countSteps` counts the steps of a run that a predicate picks out, and
`exists_event_of_rank` is the rule: as long as the event has not come, a counted step lowers the rank, and
only steps of a second kind, which bring in more work, raise it, by one. `countSteps_le_of_rank` is the one
for work that comes to an end. A rank that is a sum over the parts of a system changes as `sum_map_set` says.
-/
import TxSender.Lib.Machine

namespace TxSender.Lib

/-- A sum over a list in which one entry is exchanged. -/
theorem sum_map_set {α : Type} {f : α → Nat} {l : List α} {i : Nat} {x : α} (h : l[i]? = some x) (y : α) :
    ((l.set i y).map f).sum + f x = (l.map f).sum + f y := by
  induction l generalizing i with
  | nil => cases h
  | cons z l ih =>
      cases i with
      | zero =>
          obtain rfl := Option.some.inj h
          simp only [List.set_cons_zero, List.map_cons, List.sum_cons]
          omega
      | succ i =>
          have hrest := ih h
          simp only [List.set_cons_succ, List.map_cons, List.sum_cons]
          omega

namespace Machine

variable {S I E : Type}

/-- How many steps of the run meet `P` when they are taken. -/
def countSteps (m : Machine S I E) (P : S → I → Bool) (s : S) : List I → Nat
  | [] => 0
  | i :: is =>
      (if P s i then 1 else 0) +
        match m.step s i with
        | .ok (s', _) => m.countSteps P s' is
        | .error _ => 0

theorem countSteps_cons {m : Machine S I E} {P : S → I → Bool} {s s' : S} {i : I} {is : List I}
    {evs : List E} (h : m.step s i = .ok (s', evs)) :
    m.countSteps P s (i :: is) = (if P s i then 1 else 0) + m.countSteps P s' is := by
  rw [countSteps, h]

/-- **Bounded progress.** As long as no good event comes, `Inv` is kept, a step that `P` counts lowers the
rank, and a step that `C` counts may raise it by one; then the good event comes before `P` has counted
more steps than the rank and `C` together. -/
theorem exists_event_of_rank (m : Machine S I E) (P C : S → I → Bool) (Inv : S → Prop)
    (Good : E → Prop) (rank : S → Nat) {s s' : S} {is : List I} {log : List E}
    (hstep : ∀ s s' evs, ∀ i ∈ is, Inv s → m.step s i = .ok (s', evs) → (∃ e ∈ evs, Good e) ∨
      Inv s' ∧ rank s' + (if P s i then 1 else 0) ≤ rank s + (if C s i then 1 else 0))
    (hs : Inv s) (hrun : m.run s is = .ok (s', log))
    (hcount : rank s + m.countSteps C s is < m.countSteps P s is) : ∃ e ∈ log, Good e := by
  induction is generalizing s log with
  | nil => exact absurd hcount (Nat.not_lt_zero _)
  | cons i is ih =>
      obtain ⟨s₁, evs, rest, hone, hrest, rfl⟩ := run_cons_eq_ok.mp hrun
      rw [countSteps_cons hone, countSteps_cons hone] at hcount
      rcases hstep s s₁ evs i (List.mem_cons_self ..) hs hone with ⟨e, he, hgood⟩ | ⟨hs₁, hle⟩
      · exact ⟨e, List.mem_append_left _ he, hgood⟩
      · have hlater : ∀ s s' evs, ∀ i ∈ is, Inv s → m.step s i = .ok (s', evs) →
            (∃ e ∈ evs, Good e) ∨
            Inv s' ∧ rank s' + (if P s i then 1 else 0) ≤ rank s + (if C s i then 1 else 0) :=
          fun s s' evs i hi => hstep s s' evs i (List.mem_cons_of_mem _ hi)
        obtain ⟨e, he, hgood⟩ := ih hlater hs₁ hrest (by omega)
        exact ⟨e, List.mem_append_right _ he, hgood⟩

/-- **Bounded work.** If a counted step lowers the rank and no step raises it, then a run makes no more
counted steps than the rank. -/
theorem countSteps_le_of_rank (m : Machine S I E) (P : S → I → Bool) (Inv : S → Prop) (rank : S → Nat)
    {s s' : S} {is : List I} {log : List E}
    (hstep : ∀ s s' evs, ∀ i ∈ is, Inv s → m.step s i = .ok (s', evs) →
      Inv s' ∧ rank s' + (if P s i then 1 else 0) ≤ rank s)
    (hs : Inv s) (hrun : m.run s is = .ok (s', log)) : rank s' + m.countSteps P s is ≤ rank s := by
  induction is generalizing s log with
  | nil =>
      cases hrun
      exact Nat.le_refl _
  | cons i is ih =>
      obtain ⟨s₁, evs, rest, hone, hrest, rfl⟩ := run_cons_eq_ok.mp hrun
      obtain ⟨hs₁, hle⟩ := hstep s s₁ evs i (List.mem_cons_self ..) hs hone
      have hlater := ih (fun s s' evs i hi => hstep s s' evs i (List.mem_cons_of_mem _ hi)) hs₁ hrest
      rw [countSteps_cons hone]
      omega

/-- Where `P` counts every input that `f` picks out as long as `Q` holds, and `Q` does not come back once it is
lost, all these inputs of a run at whose end `Q` holds are counted. -/
theorem countP_le_countSteps (m : Machine S I E) (P : S → I → Bool) (Q : S → Prop) (f : I → Bool)
    {s s' : S} {is : List I} {log : List E}
    (hback : ∀ s i s' evs, m.step s i = .ok (s', evs) → Q s' → Q s)
    (hP : ∀ s i, Q s → f i = true → P s i = true) (hrun : m.run s is = .ok (s', log)) (hQ : Q s') :
    is.countP f ≤ m.countSteps P s is := by
  induction is generalizing s log with
  | nil => exact Nat.zero_le _
  | cons i is ih =>
      have hs : Q s := m.run_back Q hback hrun hQ
      obtain ⟨s₁, evs, rest, hone, hrest, -⟩ := run_cons_eq_ok.mp hrun
      have hlater := ih hrest
      rw [countSteps_cons hone, List.countP_cons]
      by_cases hf : f i = true
      · rw [if_pos hf, if_pos (hP s i hs hf)]
        omega
      · rw [if_neg hf]
        omega

/-- No step is of a kind that there is not. -/
theorem countSteps_none (m : Machine S I E) (s : S) (is : List I) :
    m.countSteps (fun _ _ => false) s is = 0 := by
  induction is generalizing s with
  | nil => rfl
  | cons i is ih =>
      rw [countSteps]
      cases m.step s i with
      | error e => rfl
      | ok v =>
          simp only [Bool.false_eq_true, if_false, Nat.zero_add]
          exact ih v.1

end Machine

end TxSender.Lib
