/-
# TxSender.Lib.JsonPath — places inside a JSON text.

A path names a value inside a tree by members and indices. Writing another value there changes the
text at one place only (`Value.fill_toks`), and reading the path afterwards finds what was written
(`Value.follow_fill`); so a text with a placeholder in it can be reasoned about as a tree.
-/
import TxSender.Lib.Json

namespace TxSender.Lib.Json

/-- One step down: to a member of an object or to an element of an array. -/
inductive Step where
  | member (name : Lit)
  | index (i : Nat)

/-! ## Members and elements -/

/-- The value of the first member of this name. -/
def Members.get? (n : Lit) : Members → Option Value
  | .one _ name _ _ v _ => if name = n then some v else none
  | .more _ name _ _ v _ ms => if name = n then some v else ms.get? n

def Members.put (n : Lit) (u : Value) : Members → Members
  | .one w₁ name w₂ w₃ v w₄ => .one w₁ name w₂ w₃ (if name = n then u else v) w₄
  | .more w₁ name w₂ w₃ v w₄ ms =>
      if name = n then .more w₁ name w₂ w₃ u w₄ ms else .more w₁ name w₂ w₃ v w₄ (ms.put n u)

def Elements.get? : Nat → Elements → Option Value
  | 0, .one _ v _ => some v
  | 0, .more _ v _ _ => some v
  | _ + 1, .one _ _ _ => none
  | i + 1, .more _ _ _ es => es.get? i

def Elements.put (u : Value) : Nat → Elements → Elements
  | 0, .one w₁ _ w₂ => .one w₁ u w₂
  | 0, .more w₁ _ w₂ es => .more w₁ u w₂ es
  | _ + 1, .one w₁ v w₂ => .one w₁ v w₂
  | i + 1, .more w₁ v w₂ es => .more w₁ v w₂ (es.put u i)

/-- The tokens `ts` hold those of `v` at one place, and `put u` has those of `u` there. -/
def WritesAt (ts : List Tok) (v : Value) (put : Value → List Tok) : Prop :=
  ∃ l r, ts = l ++ (v.toks ++ r) ∧ ∀ u, put u = l ++ (u.toks ++ r)

/-- A place inside a part of a text is a place inside the text. -/
theorem WritesAt.around {ts : List Tok} {v : Value} {put : Value → List Tok} (h : WritesAt ts v put)
    (a b : List Tok) : WritesAt (a ++ (ts ++ b)) v fun u => a ++ (put u ++ b) := by
  obtain ⟨l, r, hts, hput⟩ := h
  refine ⟨a ++ l, r ++ b, ?_, ?_⟩
  · rw [hts]
    simp only [List.append_assoc]
  · intro u
    show a ++ (put u ++ b) = _
    rw [hput]
    simp only [List.append_assoc]

theorem Members.writesAt {ms : Members} {n : Lit} {v : Value} (h : ms.get? n = some v) :
    WritesAt ms.toks v fun u => (ms.put n u).toks := by
  induction ms using Members.list.induct with
  | case1 w₁ name w₂ w₃ x w₄ =>
      unfold Members.get? at h
      split at h
      case isTrue hname =>
        obtain rfl := Option.some.inj h
        refine ⟨wsToks w₁ ++ .str name :: (wsToks w₂ ++ .punct ':' :: wsToks w₃), wsToks w₄, ?_, ?_⟩
        · simp [Members.toks]
        · intro u
          simp [Members.put, Members.toks, hname]
      case isFalse => cases h
  | case2 w₁ name w₂ w₃ x w₄ ms ih =>
      unfold Members.get? at h
      split at h
      case isTrue hname =>
        obtain rfl := Option.some.inj h
        refine ⟨wsToks w₁ ++ .str name :: (wsToks w₂ ++ .punct ':' :: wsToks w₃),
          wsToks w₄ ++ .punct ',' :: ms.toks, ?_, ?_⟩
        · simp [Members.toks]
        · intro u
          simp [Members.put, Members.toks, hname]
      case isFalse hname =>
        have hrest := (ih h).around (wsToks w₁ ++ .str name :: (wsToks w₂ ++ .punct ':' ::
          (wsToks w₃ ++ (x.toks ++ (wsToks w₄ ++ [.punct ',']))))) []
        simpa [Members.put, Members.toks, hname] using hrest

theorem Members.get?_put {ms : Members} {n : Lit} {v : Value} (h : ms.get? n = some v) (u : Value) :
    (ms.put n u).get? n = some u := by
  induction ms using Members.list.induct with
  | case1 w₁ name w₂ w₃ x w₄ =>
      unfold Members.get? at h
      split at h
      case isTrue hname => simp [Members.put, Members.get?, hname]
      case isFalse => cases h
  | case2 w₁ name w₂ w₃ x w₄ ms ih =>
      unfold Members.get? at h
      split at h
      case isTrue hname => simp [Members.put, Members.get?, hname]
      case isFalse hname => simp [Members.put, Members.get?, hname, ih h]

theorem Elements.writesAt {es : Elements} {i : Nat} {v : Value} (h : es.get? i = some v) :
    WritesAt es.toks v fun u => (es.put u i).toks := by
  induction i, es using Elements.get?.induct with
  | case1 w₁ x w₂ =>
      obtain rfl := Option.some.inj h
      exact ⟨wsToks w₁, wsToks w₂, rfl, fun u => rfl⟩
  | case2 w₁ x w₂ es =>
      obtain rfl := Option.some.inj h
      exact ⟨wsToks w₁, wsToks w₂ ++ .punct ',' :: es.toks, rfl, fun u => rfl⟩
  | case3 i w₁ x w₂ => cases h
  | case4 i w₁ x w₂ es ih =>
      have hrest := (ih h).around (wsToks w₁ ++ (x.toks ++ (wsToks w₂ ++ [.punct ',']))) []
      simpa [Elements.put, Elements.toks] using hrest

theorem Elements.get?_put {es : Elements} {i : Nat} {v : Value} (h : es.get? i = some v)
    (u : Value) : (es.put u i).get? i = some u := by
  induction i, es using Elements.get?.induct with
  | case1 w₁ x w₂ => rfl
  | case2 w₁ x w₂ es => rfl
  | case3 i w₁ x w₂ => cases h
  | case4 i w₁ x w₂ es ih => exact ih h

/-! ## Values -/

def Value.child : Step → Value → Option Value
  | .member n, .obj ms => ms.get? n
  | .index i, .arr es => es.get? i
  | _, _ => none

def Value.putChild : Value → Step → Value → Value
  | .obj ms, .member n, u => .obj (ms.put n u)
  | .arr es, .index i, u => .arr (es.put u i)
  | v, _, _ => v

theorem Value.child_writesAt {s : Step} {v c : Value} (h : v.child s = some c) :
    WritesAt v.toks c fun u => (v.putChild s u).toks := by
  cases s with
  | member n =>
      cases v with
      | obj ms => exact (Members.writesAt h).around [.punct '\x7b'] [.punct '\x7d']
      | _ => cases h
  | index i =>
      cases v with
      | arr es => exact (Elements.writesAt h).around [.punct '['] [.punct ']']
      | _ => cases h

theorem Value.child_putChild {s : Step} {v c : Value} (h : v.child s = some c) (u : Value) :
    (v.putChild s u).child s = some u := by
  cases s with
  | member n =>
      cases v with
      | obj ms => exact Members.get?_put h u
      | _ => cases h
  | index i =>
      cases v with
      | arr es => exact Elements.get?_put h u
      | _ => cases h

/-- The value at a path. -/
def Value.follow : List Step → Value → Option Value
  | [], v => some v
  | s :: p, v => (v.child s).bind (Value.follow p)

/-- The tree with another value at a path; the same tree when the path leads nowhere. -/
def Value.fill (v : Value) : List Step → Value → Value
  | [], u => u
  | s :: p, u =>
      match v.child s with
      | none => v
      | some c => v.putChild s (c.fill p u)

/-- **Filling a place changes the text there and nowhere else.** -/
theorem Value.fill_toks {p : List Step} {v w : Value} (h : v.follow p = some w) :
    WritesAt v.toks w fun u => (v.fill p u).toks := by
  induction p generalizing v with
  | nil =>
      obtain rfl := Option.some.inj h
      exact ⟨[], [], by simp, fun u => by simp [Value.fill]⟩
  | cons s p ih =>
      obtain ⟨c, hc, hw⟩ := Option.bind_eq_some_iff.mp h
      obtain ⟨l, r, hl, hput⟩ := Value.child_writesAt hc
      have hinner := (ih hw).around l r
      rw [← hl] at hinner
      simpa [Value.fill, hc, hput] using hinner

/-- What was written is read back. -/
theorem Value.follow_fill {p : List Step} {v w : Value} (h : v.follow p = some w) (u : Value) :
    (v.fill p u).follow p = some u := by
  induction p generalizing v with
  | nil => rfl
  | cons s p ih =>
      obtain ⟨c, hc, hw⟩ := Option.bind_eq_some_iff.mp h
      simp only [Value.fill, hc, Value.follow]
      rw [Value.child_putChild hc, Option.bind_some]
      exact ih hw

/-! ## Trees without white space -/

def compactMembers : String × Value → List (String × Value) → Members
  | (name, v), [] => .one [] (plainLit name) [] [] v []
  | (name, v), m :: ms => .more [] (plainLit name) [] [] v [] (compactMembers m ms)

def object : List (String × Value) → Value
  | [] => .emptyObj []
  | m :: ms => .obj (compactMembers m ms)

def compactElements : Value → List Value → Elements
  | v, [] => .one [] v []
  | v, w :: ws => .more [] v [] (compactElements w ws)

def array : List Value → Value
  | [] => .emptyArr []
  | v :: vs => .arr (compactElements v vs)

def string (s : String) : Value := .str (plainLit s)

theorem noLeadingZero_singleton (d : Fin 10) : [d].head? = some 0 → [d].length = 1 := by
  intro _
  rfl

/-- A number of one digit. -/
def digit (d : Fin 10) : Value :=
  .number ⟨false, [d], [], none, List.cons_ne_nil d [], noLeadingZero_singleton d⟩

/-! ## Literals without escapes -/

/-- A text of characters that need no escape is spelt as it is. -/
theorem raw_plainLit {s : String} (h : ∀ c ∈ s.toList, c ≠ '"' ∧ c ≠ '\\' ∧ 32 ≤ c.toNat) :
    raw (plainLit s) = s.toList := by
  unfold plainLit
  generalize s.toList = cs at h
  induction cs with
  | nil => rfl
  | cons c cs ih =>
      have hc := h c (by simp)
      rw [List.filterMap_cons_some (dif_pos hc), raw_cons, ih fun d hd => h d (by simp [hd])]
      rfl

theorem denote_plainLit {s : String} (h : ∀ c ∈ s.toList, c ≠ '"' ∧ c ≠ '\\' ∧ 32 ≤ c.toNat) :
    denote (plainLit s) = some s.toList := by
  rw [denote_of_plain, raw_plainLit h]
  unfold Plain
  rw [raw_plainLit h]
  intro hmem
  exact (h _ hmem).2.1 rfl

end TxSender.Lib.Json
