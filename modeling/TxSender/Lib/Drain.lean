/-
# TxSender.Lib.Drain — polling until there is nothing more.

`while let Some(x) = s.poll() { .. }`, where the body may return from the function it stands in. A loop that
ends has polled its items and then `None`, or the item at which the body returned (`drainUntil_cases`); each
item comes from a poll (`drainUntil_items`), and a loop whose polls use something up ends (`exists_drainUntil`).
-/
import TxSender.Lib.Exec

namespace TxSender.Lib

variable {S X R : Type}

/-- What a loop leaves: the state, what it polled, and what its body returned, if it did. -/
structure Drained (S X R : Type) where
  state : S
  items : List X
  result : Option R

def drainUntil (poll : S → S × Option X) (ret : X → Option R) : (fuel : Nat) → S → Exec (Drained S X R)
  | 0, _ => .error .blocked
  | fuel + 1, s =>
      match poll s with
      | (s, none) => .ok ⟨s, [], none⟩
      | (s, some x) =>
          match ret x with
          | some r => .ok ⟨s, [x], some r⟩
          | none => do
              let out ← drainUntil poll ret fuel s
              pure { out with items := x :: out.items }

/-- The loop whose body never returns. -/
def drain (poll : S → S × Option X) (fuel : Nat) (s : S) : Exec (Drained S X Unit) :=
  drainUntil poll (fun _ => none) fuel s

/-- Polls in a row, from one state to another, and the items they returned. -/
inductive Polls (poll : S → S × Option X) : S → List X → S → Prop
  | refl {s : S} : Polls poll s [] s
  | cons {s s₁ s' : S} {x : X} {items : List X} (hpoll : poll s = (s₁, some x))
      (hrest : Polls poll s₁ items s') : Polls poll s (x :: items) s'

variable {poll : S → S × Option X} {ret : X → Option R} {fuel : Nat} {s : S} {out : Drained S X R}

/-- Through the list, or out of the body. -/
theorem drainUntil_cases (h : drainUntil poll ret fuel s = .ok out) :
    (out.result = none ∧ (∀ x ∈ out.items, ret x = none) ∧
        ∃ s₀, Polls poll s out.items s₀ ∧ poll s₀ = (out.state, none)) ∨
      ∃ before x r, out.items = before ++ [x] ∧ ret x = some r ∧ out.result = some r ∧
        ∀ y ∈ before, ret y = none := by
  induction fuel generalizing s out with
  | zero => cases h
  | succ fuel ih =>
      rw [drainUntil] at h
      split at h
      · rename_i s' hpoll
        obtain rfl := Except.ok.inj h
        exact .inl ⟨rfl, fun x hx => absurd hx List.not_mem_nil, s, .refl, hpoll⟩
      · rename_i s' x hpoll
        split at h
        · rename_i r hr
          obtain rfl := Except.ok.inj h
          exact .inr ⟨[], x, r, rfl, hr, rfl, fun y hy => absurd hy List.not_mem_nil⟩
        · rename_i hr
          obtain ⟨rest, hrest, h⟩ := bind_eq_ok.mp h
          obtain rfl := Except.ok.inj h
          rcases ih hrest with ⟨hnone, hall, s₀, hpolls, hend⟩ | ⟨before, y, r, hitems, hy, hres, hall⟩
          · exact .inl ⟨hnone, List.forall_mem_cons.mpr ⟨hr, hall⟩, s₀, .cons hpoll hpolls, hend⟩
          · refine .inr ⟨x :: before, y, r, ?_, hy, hres, List.forall_mem_cons.mpr ⟨hr, hall⟩⟩
            show x :: rest.items = _
            rw [hitems]
            rfl

/-- Every item was polled. -/
theorem drainUntil_items (h : drainUntil poll ret fuel s = .ok out) {x : X} (hx : x ∈ out.items) :
    ∃ s₀ s₁, poll s₀ = (s₁, some x) := by
  induction fuel generalizing s out with
  | zero => cases h
  | succ fuel ih =>
      rw [drainUntil] at h
      split at h
      · obtain rfl := Except.ok.inj h
        cases hx
      · rename_i s' y hpoll
        split at h
        · obtain rfl := Except.ok.inj h
          rw [List.mem_singleton.mp hx]
          exact ⟨s, s', hpoll⟩
        · obtain ⟨rest, hrest, h⟩ := bind_eq_ok.mp h
          obtain rfl := Except.ok.inj h
          rcases List.mem_cons.mp hx with rfl | hx
          · exact ⟨s, s', hpoll⟩
          · exact ih hrest hx

/-- **A loop that uses something up ends.** -/
theorem exists_drainUntil (rank : S → Nat)
    (hrank : ∀ s s' x, poll s = (s', some x) → rank s' < rank s) (hfuel : rank s < fuel) :
    ∃ out, drainUntil poll ret fuel s = .ok out := by
  induction fuel generalizing s with
  | zero => exact absurd hfuel (Nat.not_lt_zero _)
  | succ fuel ih =>
      rw [drainUntil]
      split
      · exact ⟨_, rfl⟩
      · rename_i s' x hpoll
        split
        · exact ⟨_, rfl⟩
        · have hless := hrank s s' x hpoll
          obtain ⟨rest, hrest⟩ := ih (s := s') (by omega)
          rw [hrest]
          exact ⟨_, rfl⟩

end TxSender.Lib
