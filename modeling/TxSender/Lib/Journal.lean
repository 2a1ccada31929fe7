/-
# TxSender.Lib.Journal — computations whose every intermediate state is kept.

A `Journal` computation reads and writes a state and may fail to return. Beside its result it keeps
every state it has put the store into, oldest first; a panic keeps what was written before it.
Forgetting the intermediate states (`erase`) gives the state-passing function the computation
instruments, one equation for each operation. `Keeps` is the rule of pre- and postconditions in which
an invariant holds of every state on the way, not only at the end.
-/
import TxSender.Lib.Exec

namespace TxSender.Lib

/-- From a state: what the call returns, and the states it has entered. -/
def Journal (σ α : Type) : Type := σ → Exec α × List σ

namespace Journal

variable {σ α β : Type}

/-- The state the call leaves behind, also when it does not return. -/
def after (m : Journal σ α) (s : σ) : σ := (m s).2.getLastD s

protected def pure (a : α) : Journal σ α := fun _ => (.ok a, [])

protected def bind (m : Journal σ α) (f : α → Journal σ β) : Journal σ β := fun s =>
  match (m s).1 with
  | .error e => (.error e, (m s).2)
  | .ok a => ((f a (m.after s)).1, (m s).2 ++ (f a (m.after s)).2)

instance : Monad (Journal σ) where
  pure := Journal.pure
  bind := Journal.bind

/-- A computation on what the state holds. -/
def read (f : σ → Exec α) : Journal σ α := fun s => (f s, [])

/-- One write. -/
def write (f : σ → Exec σ) : Journal σ Unit := fun s =>
  match f s with
  | .error e => (.error e, [])
  | .ok s' => (.ok (), [s'])

theorem after_eq_or_mem (m : Journal σ α) (s : σ) : m.after s = s ∨ m.after s ∈ (m s).2 := by
  unfold after
  cases h : (m s).2 with
  | nil => exact .inl rfl
  | cons x xs =>
      right
      rw [List.getLastD_cons]
      exact List.getLastD_mem_cons

theorem getLastD_append_eq (l l' : List σ) (s : σ) :
    (l ++ l').getLastD s = l'.getLastD (l.getLastD s) := by
  induction l generalizing s with
  | nil => rfl
  | cons x l ih =>
      rw [List.cons_append, List.getLastD_cons, List.getLastD_cons]
      exact ih x

theorem after_bind {m : Journal σ α} {f : α → Journal σ β} {s : σ} {a : α} (h : (m s).1 = .ok a) :
    (m >>= f).after s = (f a).after (m.after s) := by
  show (Journal.bind m f).after s = _
  unfold after Journal.bind
  simp only [h]
  exact getLastD_append_eq _ _ s

/-! ## Forgetting the states on the way -/

/-- The state-passing function. -/
def erase (m : Journal σ α) (s : σ) : Exec (σ × α) := (m s).1.map fun a => (m.after s, a)

@[simp]
theorem erase_pure (a : α) (s : σ) : (pure a : Journal σ α).erase s = .ok (s, a) := rfl

@[simp]
theorem erase_read (f : σ → Exec α) (s : σ) : (read f).erase s = (f s).map fun a => (s, a) := rfl

theorem erase_bind (m : Journal σ α) (f : α → Journal σ β) (s : σ) :
    (m >>= f).erase s = m.erase s >>= fun r => (f r.2).erase r.1 := by
  unfold erase
  cases h : (m s).1 with
  | error e =>
      have hrun : ((m >>= f) s).1 = .error e := by
        show (Journal.bind m f s).1 = _
        unfold Journal.bind
        rw [h]
      rw [hrun]
      rfl
  | ok a =>
      have hrun : ((m >>= f) s).1 = (f a (m.after s)).1 := by
        show (Journal.bind m f s).1 = _
        unfold Journal.bind
        rw [h]
      rw [hrun, after_bind h]
      rfl

@[simp]
theorem erase_read_bind (f : σ → Exec α) (k : α → Journal σ β) (s : σ) :
    (read f >>= k).erase s = f s >>= fun a => (k a).erase s := by
  rw [erase_bind, erase_read]
  cases f s with
  | error e => rfl
  | ok a => rfl

@[simp]
theorem erase_write_bind (f : σ → Exec σ) (k : Unit → Journal σ β) (s : σ) :
    (write f >>= k).erase s = f s >>= fun s' => (k ()).erase s' := by
  rw [erase_bind]
  unfold erase after write
  cases f s with
  | error e => rfl
  | ok s' => rfl

/-! ## Invariants along a call -/

/-- From a state with `P`, every state the call enters has `I`, and if it returns, the result and
the state it leaves behind have `Q`. -/
def Keeps (I P : σ → Prop) (m : Journal σ α) (Q : α → σ → Prop) : Prop :=
  ∀ s, P s → (∀ x ∈ (m s).2, I x) ∧ ∀ a, (m s).1 = .ok a → Q a (m.after s)

variable {I P : σ → Prop}

theorem keeps_pure {a : α} {Q : α → σ → Prop} (h : ∀ s, P s → Q a s) :
    Keeps I P (pure a) Q := by
  intro s hs
  refine ⟨fun x hx => absurd hx List.not_mem_nil, fun a' ha => ?_⟩
  obtain rfl := Except.ok.inj ha
  exact h s hs

theorem keeps_read {f : σ → Exec α} {Q : α → σ → Prop} (h : ∀ s a, P s → f s = .ok a → Q a s) :
    Keeps I P (read f) Q := by
  intro s hs
  exact ⟨fun x hx => absurd hx List.not_mem_nil, fun a ha => h s a hs ha⟩

theorem keeps_write {f : σ → Exec σ} {Q : Unit → σ → Prop}
    (h : ∀ s s', P s → f s = .ok s' → I s' ∧ Q () s') : Keeps I P (write f) Q := by
  intro s hs
  cases hf : f s with
  | error e =>
      have hrun : write f s = (.error e, []) := by
        unfold write
        rw [hf]
      rw [hrun]
      exact ⟨fun x hx => absurd hx List.not_mem_nil, fun a ha => by cases ha⟩
  | ok s' =>
      have hrun : write f s = (.ok (), [s']) := by
        unfold write
        rw [hf]
      obtain ⟨hI, hQ⟩ := h s s' hs hf
      unfold after
      rw [hrun]
      refine ⟨fun x hx => ?_, fun _ _ => hQ⟩
      rw [List.mem_singleton.mp hx]
      exact hI

theorem Keeps.bind {m : Journal σ α} {f : α → Journal σ β} {Q : α → σ → Prop} {R : β → σ → Prop}
    (hm : Keeps I P m Q) (hf : ∀ a, Keeps I (Q a) (f a) R) : Keeps I P (m >>= f) R := by
  intro s hs
  obtain ⟨hall, hret⟩ := hm s hs
  show (∀ x ∈ (Journal.bind m f s).2, I x) ∧
    ∀ b, (Journal.bind m f s).1 = .ok b → R b ((m >>= f).after s)
  unfold Journal.bind
  cases h : (m s).1 with
  | error e => exact ⟨hall, fun b hb => by cases hb⟩
  | ok a =>
      obtain ⟨hall', hret'⟩ := hf a _ (hret a h)
      refine ⟨fun x hx => ?_, fun b hb => ?_⟩
      · rcases List.mem_append.mp hx with hx | hx
        · exact hall x hx
        · exact hall' x hx
      · rw [after_bind h]
        exact hret' b hb

/-! ## Calls in a row -/

/-- The states entered by calls made one after another, each from where the last one left the store,
whether or not that one returned. -/
def calls : List (Journal σ α) → σ → List σ
  | [], _ => []
  | m :: ms, s => (m s).2 ++ calls ms (m.after s)

/-- What one call keeps, any number of calls keep. -/
theorem calls_keep {ms : List (Journal σ α)} (h : ∀ m ∈ ms, Keeps I I m fun _ _ => True) {s : σ}
    (hs : I s) : ∀ x ∈ calls ms s, I x := by
  induction ms generalizing s with
  | nil => exact fun x hx => absurd hx List.not_mem_nil
  | cons m ms ih =>
      obtain ⟨hall, -⟩ := h m List.mem_cons_self s hs
      have hafter : I (m.after s) := by
        rcases m.after_eq_or_mem s with heq | hmem
        · rw [heq]
          exact hs
        · exact hall _ hmem
      intro x hx
      rcases List.mem_append.mp hx with hx | hx
      · exact hall x hx
      · exact ih (fun m' hm' => h m' (List.mem_cons_of_mem _ hm')) hafter x hx

end Journal

end TxSender.Lib
