/-
# TxSender.Lib.WriteLoop — writing a buffer through calls that may take only part of it.

Each call either takes some elements from the front of what is left, asks to be made again, or
fails. Whatever the answers are, the sink receives a beginning of the buffer: all of it when the
loop ends well, and a proper part when a call fails.
-/
import TxSender.Lib.Exec
import Mathlib.Data.List.Infix

namespace TxSender.Lib

open scoped List

/-- How one call on what is left of the buffer ended. -/
inductive Attempt (ε : Type) where
  /-- it took `n` elements -/
  | took (n : Nat)
  /-- nothing was taken; the call is to be made again -/
  | again
  | failed (e : ε)
  deriving DecidableEq, Repr

variable {α ε : Type}

/-- The loop, with `sent` elements taken already and `out` in the sink. -/
def writeLoop (bytes : List α) (sent : Nat) (out : List α) :
    List (Attempt ε) → Exec (List α × Except ε Unit)
  | [] => if sent < bytes.length then .error .blocked else .ok (out, .ok ())
  | a :: rest =>
      if sent < bytes.length then
        match a with
        | .took n => writeLoop bytes (sent + n) (out ++ (bytes.drop sent).take n) rest
        | .again => writeLoop bytes sent out rest
        | .failed e => .ok (out, .error e)
      else .ok (out, .ok ())

/-- Nothing left to write. -/
theorem writeLoop_done {bytes out : List α} {sent : Nat} (h : ¬ sent < bytes.length)
    (as : List (Attempt ε)) : writeLoop bytes sent out as = .ok (out, .ok ()) := by
  unfold writeLoop
  cases as with
  | nil => exact if_neg h
  | cons a rest => exact if_neg h

/-- **All or a proper part.** -/
theorem writeLoop_spec {bytes out out' : List α} {sent : Nat} {as : List (Attempt ε)}
    {r : Except ε Unit} (h : writeLoop bytes sent out as = .ok (out', r)) :
    ∃ more, out' = out ++ more ∧ more <+: bytes.drop sent ∧ (r = .ok () ↔ more = bytes.drop sent) := by
  -- the sink holds `out` and what has been taken since; the induction is on the answers
  induction as generalizing sent out with
  | nil =>
      rw [writeLoop] at h
      split at h
      · cases h
      · rename_i hdone
        obtain ⟨rfl, rfl⟩ := Prod.mk.inj (Except.ok.inj h)
        exact ⟨[], by simp, List.nil_prefix, by simp [Nat.le_of_not_lt hdone]⟩
  | cons a rest ih =>
      by_cases hleft : sent < bytes.length
      · unfold writeLoop at h
        rw [if_pos hleft] at h
        cases a with
        | took n =>
            obtain ⟨more, hout, hpre, hok⟩ := ih h
            have hcut : bytes.drop sent = (bytes.drop sent).take n ++ bytes.drop (sent + n) := by
              rw [← List.drop_drop, List.take_append_drop]
            refine ⟨(bytes.drop sent).take n ++ more, by rw [hout, List.append_assoc], ?_, ?_⟩
            · obtain ⟨rest', hrest⟩ := hpre
              exact ⟨rest', by rw [List.append_assoc, hrest, ← hcut]⟩
            · rw [hok]
              constructor
              · intro hmore
                rw [hmore, ← hcut]
              · intro hmore
                exact List.append_cancel_left (hmore.trans hcut)
        | again => exact ih h
        | failed e =>
            obtain ⟨rfl, rfl⟩ := Prod.mk.inj (Except.ok.inj h)
            refine ⟨[], by simp, List.nil_prefix, ?_⟩
            simp only [reduceCtorEq, false_iff]
            intro hnil
            have := List.drop_eq_nil_iff.mp hnil.symm
            omega
      · rw [writeLoop_done hleft] at h
        obtain ⟨rfl, rfl⟩ := Prod.mk.inj (Except.ok.inj h)
        exact ⟨[], by simp, List.nil_prefix, by simp [Nat.le_of_not_lt hleft]⟩

end TxSender.Lib
