/-
# TxSender.Lib.Trace — conditions on a log that look at what came before each event.
-/
import Mathlib.Data.List.Basic

namespace TxSender.Lib

variable {α : Type}

/-- Every event of the list meets `P`, which also sees the events before it; `past` came before the
list. -/
def Along (P : List α → α → Prop) (past : List α) : List α → Prop
  | [] => True
  | x :: xs => P past x ∧ Along P (past ++ [x]) xs

instance Along.decidable {P : List α → α → Prop} [∀ past x, Decidable (P past x)] (past l : List α) :
    Decidable (Along P past l) :=
  match l with
  | [] => inferInstanceAs (Decidable True)
  | x :: xs =>
      have := Along.decidable (P := P) (past ++ [x]) xs
      inferInstanceAs (Decidable (P past x ∧ Along P (past ++ [x]) xs))

variable {P : List α → α → Prop} {past l l' : List α}

theorem along_append : Along P past (l ++ l') ↔ Along P past l ∧ Along P (past ++ l) l' := by
  induction l generalizing past with
  | nil => simp [Along]
  | cons x xs ih => simp [Along, ih, and_assoc]

/-- Events that meet `P` whatever came before them. -/
theorem along_of_forall (h : ∀ x ∈ l, ∀ past, P past x) : Along P past l := by
  induction l generalizing past with
  | nil => exact trivial
  | cons x xs ih =>
      exact ⟨h x (List.mem_cons_self ..) past, ih fun y hy => h y (List.mem_cons_of_mem _ hy)⟩

/-- A condition may be exchanged for one that says the same wherever a known one holds. -/
theorem along_congr {R S : List α → α → Prop} (h : Along P past l)
    (hiff : ∀ past, ∀ x ∈ l, P past x → (R past x ↔ S past x)) :
    Along R past l ↔ Along S past l := by
  induction l generalizing past with
  | nil => exact Iff.rfl
  | cons x xs ih =>
      refine and_congr (hiff past x (List.mem_cons_self ..) h.1) ?_
      exact ih h.2 fun past y hy => hiff past y (List.mem_cons_of_mem _ hy)

/-- A condition that does not look at what came before. -/
theorem along_const {R : α → Prop} : Along (fun _ x => R x) past l ↔ ∀ x ∈ l, R x := by
  induction l generalizing past with
  | nil => simp [Along]
  | cons x xs ih => simp [Along, ih]

end TxSender.Lib
