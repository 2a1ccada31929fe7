/-
# TxSender.Lib.Exec — code that can panic or fail to return.

A computation either returns, panics (an index or slice out of range, an arithmetic overflow, a
failed `expect`), or never gets past a call that keeps spinning. `Exec` is that result as a monad.
The partial operations below are the ones byte-buffer code uses: slicing, in-place overwriting,
vector indexing, checked 64-bit arithmetic and narrowing to 32 bits.
-/
import Mathlib.Algebra.GroupWithZero.Nat
import Mathlib.Data.List.Basic

namespace TxSender.Lib

/-- Why a call did not return. -/
inductive Halt where
  /-- The thread panicked. -/
  | panic
  /-- The call is still spinning when the answers it was given run out. -/
  | blocked
  deriving DecidableEq, Repr

/-- A call that may not return. -/
abbrev Exec := Except Halt

abbrev Bytes := List UInt8

/-- From a returning sequence, the returning first part and what followed it. -/
theorem bind_eq_ok {α β : Type} {x : Exec α} {f : α → Exec β} {b : β} :
    (x >>= f) = .ok b ↔ ∃ a, x = .ok a ∧ f a = .ok b := by
  cases x with
  | error e => simp [bind, Except.bind]
  | ok a => simp [bind, Except.bind]

theorem map_eq_ok {α β : Type} {x : Exec α} {f : α → β} {b : β} :
    x.map f = .ok b ↔ ∃ a, x = .ok a ∧ f a = b := by
  cases x with
  | error e => simp [Except.map]
  | ok a => simp [Except.map]

/-- A sequence halts in its first part, or behind it. -/
theorem bind_eq_error {α β : Type} {x : Exec α} {f : α → Exec β} {e : Halt} :
    (x >>= f) = .error e ↔ x = .error e ∨ ∃ a, x = .ok a ∧ f a = .error e := by
  cases x with
  | error e' => simp [bind, Except.bind]
  | ok a => simp [bind, Except.bind]

theorem map_eq_error {α β : Type} {x : Exec α} {f : α → β} {e : Halt} :
    x.map f = .error e ↔ x = .error e := by
  cases x with
  | error e' => simp [Except.map]
  | ok a => simp [Except.map]

theorem eq_ok_of_mem_toOption {α : Type} {x : Exec α} {a : α} (h : a ∈ x.toOption) : x = .ok a := by
  cases x with
  | error e => cases h
  | ok b => exact congrArg _ (Option.some.inj h)

@[simp] theorem ok_bind {α β : Type} (a : α) (f : α → Exec β) : (Except.ok a >>= f) = f a := rfl

@[simp] theorem pure_eq_ok {α : Type} (a : α) : (pure a : Exec α) = .ok a := rfl

namespace Exec

variable {α : Type}

/-- The call returns, and its result meets `P`. -/
def Yields (x : Exec α) (P : α → Prop) : Prop := ∃ a, x = .ok a ∧ P a

instance decidableYields (x : Exec α) (P : α → Prop) [DecidablePred P] : Decidable (x.Yields P) :=
  match x with
  | .ok a => decidable_of_iff (P a) ⟨fun h => ⟨a, rfl, h⟩, fun ⟨_, ha, h⟩ => Except.ok.inj ha ▸ h⟩
  | .error _ => isFalse nofun

/-- `&b[..n]` -/
def sliceTo (b : List α) (n : Nat) : Exec (List α) :=
  if n ≤ b.length then .ok (b.take n) else .error .panic

/-- `&b[n..]` -/
def sliceFrom (b : List α) (n : Nat) : Exec (List α) :=
  if n ≤ b.length then .ok (b.drop n) else .error .panic

/-- `&b[s..e]` -/
def slice (b : List α) (s e : Nat) : Exec (List α) :=
  if s ≤ e ∧ e ≤ b.length then .ok ((b.drop s).take (e - s)) else .error .panic

/-- `b[off..off + src.len()].copy_from_slice(src)` -/
def overwrite (b : List α) (off : Nat) (src : List α) : Exec (List α) :=
  if off + src.length ≤ b.length then .ok (b.take off ++ src ++ b.drop (off + src.length))
  else .error .panic

/-- `for x in &mut b[s..e] { *x = v; }` -/
def fill (b : List α) (s e : Nat) (v : α) : Exec (List α) :=
  if s ≤ e ∧ e ≤ b.length then .ok (b.take s ++ List.replicate (e - s) v ++ b.drop e)
  else .error .panic

/-- `v[i]` -/
def index (v : List α) (i : Nat) : Exec α :=
  match v[i]? with
  | some a => .ok a
  | none => .error .panic

/-- `v[i] = a` -/
def assign (v : List α) (i : Nat) (a : α) : Exec (List α) :=
  if i < v.length then .ok (v.set i a) else .error .panic

/-- `a + b` on 64-bit sizes. -/
def addUsize (a b : Nat) : Exec Nat :=
  if a + b < 2 ^ 64 then .ok (a + b) else .error .panic

/-- `a - b` on sizes. -/
def subUsize (a b : Nat) : Exec Nat :=
  if b ≤ a then .ok (a - b) else .error .panic

/-- `u32::try_from(n).expect(..)` -/
def toU32 (n : Nat) : Exec Nat :=
  if n < 2 ^ 32 then .ok n else .error .panic

theorem sliceTo_ok {b : List α} {n : Nat} (h : n ≤ b.length) : sliceTo b n = .ok (b.take n) :=
  if_pos h

theorem sliceFrom_ok {b : List α} {n : Nat} (h : n ≤ b.length) : sliceFrom b n = .ok (b.drop n) :=
  if_pos h

theorem slice_ok {b : List α} {s e : Nat} (hs : s ≤ e) (he : e ≤ b.length) :
    slice b s e = .ok ((b.drop s).take (e - s)) :=
  if_pos ⟨hs, he⟩

theorem subUsize_ok {a b : Nat} (h : b ≤ a) : subUsize a b = .ok (a - b) := if_pos h

theorem toU32_ok {n : Nat} (h : n < 2 ^ 32) : toU32 n = .ok n := if_pos h

theorem addUsize_ok {a b : Nat} (h : a + b < 2 ^ 64) : addUsize a b = .ok (a + b) := if_pos h

/-- Overwriting a block of known position with one of the same length. -/
theorem overwrite_block (pre x y post : List α) (h : y.length = x.length) :
    overwrite (pre ++ (x ++ post)) pre.length y = .ok (pre ++ (y ++ post)) := by
  unfold overwrite
  rw [if_pos (by simp only [List.length_append]; omega)]
  have hd : (pre ++ (x ++ post)).drop (pre.length + y.length) = post := by
    rw [← List.drop_drop, List.drop_left, h, List.drop_left]
  rw [hd, List.take_left]
  simp

/-- Filling a block of known position. -/
theorem fill_block (pre x post : List α) (v : α) :
    fill (pre ++ (x ++ post)) pre.length (pre.length + x.length) v =
      .ok (pre ++ (List.replicate x.length v ++ post)) := by
  unfold fill
  rw [if_pos (by simp only [List.length_append]; omega)]
  have hd : (pre ++ (x ++ post)).drop (pre.length + x.length) = post := by
    rw [← List.drop_drop, List.drop_left, List.drop_left]
  rw [hd, List.take_left, Nat.add_sub_cancel_left]
  simp

/-- What stands before the place written to stays. -/
theorem overwrite_take {b src r : List α} {off : Nat} (h : overwrite b off src = .ok r) :
    off + src.length ≤ b.length ∧ r.length = b.length ∧ r.take off = b.take off := by
  unfold overwrite at h
  split at h
  · rename_i hle
    obtain rfl := Except.ok.inj h
    have hoff : (b.take off).length = off := by
      rw [List.length_take]
      omega
    refine ⟨hle, ?_, ?_⟩
    · simp only [List.length_append, List.length_drop, hoff]
      omega
    · rw [List.append_assoc, List.take_append_of_le_length (by omega), List.take_take, Nat.min_self]
  · cases h

theorem fill_take {b r : List α} {s e : Nat} {v : α} (h : fill b s e v = .ok r) :
    r.length = b.length ∧ r.take s = b.take s := by
  unfold fill at h
  split at h
  · rename_i hle
    obtain rfl := Except.ok.inj h
    have hs : (b.take s).length = s := by
      rw [List.length_take]
      omega
    refine ⟨?_, ?_⟩
    · simp only [List.length_append, List.length_drop, List.length_replicate, hs]
      omega
    · rw [List.append_assoc, List.take_append_of_le_length (by omega), List.take_take, Nat.min_self]
  · cases h

end Exec

end TxSender.Lib
