/-
# TxSender.Lib.WordScan — looking for a quoted word in the text of an object.

A search for `"word"` runs over a text without parsing it. `behind` is what such a search leaves to
read. Its rules say how it moves over a piece of text: over a gap without quotes, over a quoted text
other than the word, and onto the word. `Transparent` and `Finds` lift the rules from pieces to whole
values, and `finds_members` to an object whose members stand in any order and with any white space.
-/
import TxSender.Lib.JsonScan

namespace TxSender.Lib.Json

open TxSender.Lib.Search

/-! ## What a search leaves to read -/

/-- The text behind the first occurrence of the word between quotes. -/
def behind (w text : List Char) : Option (List Char) :=
  (find (quotedWord w) text).map fun i => text.drop (i + (quotedWord w).length)

/-- A word to search for: no quote in it, and it starts with a character that cannot directly follow
a quoted text. -/
structure SearchWord (w : List Char) : Prop where
  quote : '"' ∉ w
  first : ∃ c cs, w = c :: cs ∧ c ∉ delimiters

/-- What can follow a value. -/
def Delimited (r : List Char) : Prop := ∀ c ∈ r.head?, c ∈ delimiters

theorem delimited_cons {c : Char} (r : List Char) (h : c ∈ delimiters) : Delimited (c :: r) := by
  intro d hd
  obtain rfl : c = d := by simpa using hd
  exact h

/-- The text of white space. -/
def wsText (a : Ws) : List Char := a.map WsChar.char

theorem quote_not_mem_wsText (a : Ws) : '"' ∉ wsText a := by
  intro h
  obtain ⟨x, _, hx⟩ := List.mem_map.mp h
  cases x <;> exact absurd hx (by decide)

theorem isWhitespace_wsText {a : Ws} {c : Char} (h : c ∈ wsText a) : isWhitespace c = true := by
  obtain ⟨x, _, rfl⟩ := List.mem_map.mp h
  cases x <;> decide

theorem delimited_ws (a : Ws) {r : List Char} (h : Delimited r) : Delimited (wsText a ++ r) := by
  cases a with
  | nil => exact h
  | cons x a =>
      apply delimited_cons
      cases x <;> decide

section Rules

variable {w q g : List Char}

theorem behind_shift {p r : List Char} (h : ∀ i < p.length, ¬ OccursAt (quotedWord w) (p ++ r) i) :
    behind w (p ++ r) = behind w r := by
  unfold behind
  rw [find_append_left h, Option.map_map]
  congr 1
  funext i
  simp only [Function.comp]
  rw [Nat.add_assoc, ← List.drop_drop, List.drop_left]

/-- A gap without quotes is passed over. -/
theorem behind_gap (hg : '"' ∉ g) (r : List Char) : behind w (g ++ r) = behind w r := by
  apply behind_shift
  intro i hi hocc
  have hfirst := (occursAt_iff_getElem?.mp hocc).2 0 (by simp [quotedWord])
  rw [Nat.add_zero, List.getElem?_append_left hi] at hfirst
  exact hg (List.mem_of_getElem? hfirst)

theorem behind_eq_none (hg : '"' ∉ g) : behind w g = none := by
  have h := behind_gap (w := w) hg []
  rw [List.append_nil] at h
  rw [h]
  rfl

/-- The word itself is found. -/
theorem behind_hit (w r : List Char) : behind w (quotedWord w ++ r) = some r := by
  have hfind : find (quotedWord w) (quotedWord w ++ r) = some 0 :=
    find_eq_some_iff.mpr ⟨⟨[], r, by simp, rfl⟩, by omega⟩
  unfold behind
  rw [hfind, Option.map_some, Nat.zero_add, List.drop_left]

/-- Another quoted text is passed over: an occurrence could start at neither of its quotes. -/
theorem behind_skip (hw : SearchWord w) (hq : '"' ∉ q) (hne : q ≠ w) {r : List Char}
    (hr : Delimited r) : behind w (quotedWord q ++ r) = behind w r := by
  apply behind_shift
  intro i hi hocc
  have hlen : (quotedWord q).length = q.length + 2 := by simp [quotedWord]
  rcases Nat.eq_zero_or_pos i with rfl | hpos
  · -- at the opening quote the two texts would be the same
    obtain ⟨rest, hrest⟩ := occursAt_zero.mp hocc
    simp only [quotedWord, List.cons_append, List.append_assoc, List.cons.injEq, true_and,
      List.nil_append] at hrest
    exact hne (split_unique hrest hw.quote hq).1.symm
  · obtain ⟨_, hat⟩ := occursAt_iff_getElem?.mp hocc
    have hfirst := hat 0 (by simp [quotedWord])
    rw [Nat.add_zero, List.getElem?_append_left hi] at hfirst
    obtain ⟨k, rfl⟩ : ∃ k, i = k + 1 := ⟨i - 1, by omega⟩
    rcases Nat.lt_or_ge k q.length with hin | hout
    · simp only [quotedWord, List.getElem?_cons_succ, List.getElem?_append_left hin] at hfirst
      exact hq (List.mem_of_getElem? hfirst)
    · -- at the closing quote the word would start right behind it
      obtain ⟨c, cs, hcs, hc⟩ := hw.first
      have hsecond := hat 1 (by simp [quotedWord])
      rw [List.getElem?_append_right (by omega), show k + 1 + 1 - (quotedWord q).length = 0 by omega,
        ← List.head?_eq_getElem?] at hsecond
      refine hc (hr c ?_)
      rw [hsecond, hcs]
      simp [quotedWord]

end Rules

/-! ## Values -/

/-- The search passes over the value. -/
def Transparent (w v : List Char) : Prop := ∀ r, Delimited r → behind w (v ++ r) = behind w r

/-- The search stops in the value, with something to read that satisfies `P`. -/
def Finds (w v : List Char) (P : List Char → Prop) : Prop :=
  ∀ r, Delimited r → ∃ x, behind w (v ++ r) = some x ∧ P x

theorem transparent_gap {w g : List Char} (hg : '"' ∉ g) : Transparent w g :=
  fun r _ => behind_gap hg r

theorem transparent_quoted {w q : List Char} (hw : SearchWord w) (hq : '"' ∉ q) (hne : q ≠ w) :
    Transparent w (quotedWord q) :=
  fun _ hr => behind_skip hw hq hne hr

/-! ## Members -/

/-- The text of one member, with white space at its four places. -/
def memberText (n v : List Char) (a b c d : Ws) : List Char :=
  wsText a ++ (quotedWord n ++ (wsText b ++ (':' :: (wsText c ++ (v ++ wsText d)))))

/-- The texts of a list of members, given as names and value texts, in this order. -/
inductive MembersText : List (List Char × List Char) → List Char → Prop
  | one (n v : List Char) (a b c d : Ws) : MembersText [(n, v)] (memberText n v a b c d)
  | more (n v : List Char) (a b c d : Ws) {ms : List (List Char × List Char)} {t : List Char} :
      MembersText ms t → MembersText ((n, v) :: ms) (memberText n v a b c d ++ ',' :: t)

/-- Each name stands in the text, between quotes. -/
theorem MembersText.mentions {ms : List (List Char × List Char)} {t n v : List Char}
    (ht : MembersText ms t) (h : (n, v) ∈ ms) : ∃ x y, t = x ++ (quotedWord n ++ y) := by
  induction ht with
  | one n' v' a b c d =>
      obtain ⟨rfl, rfl⟩ := Prod.mk.inj (List.mem_singleton.mp h)
      exact ⟨wsText a, _, rfl⟩
  | more n' v' a b c d _ ih =>
      rcases List.mem_cons.mp h with heq | h
      · obtain ⟨rfl, rfl⟩ := Prod.mk.inj heq
        exact ⟨wsText a, _, by rw [memberText, List.append_assoc, List.append_assoc]⟩
      · obtain ⟨x, y, rfl⟩ := ih h
        exact ⟨memberText n' v' a b c d ++ ',' :: x, y, by simp⟩

/-- The texts of an object with these members in this order. -/
def RendersObject (ms : List (List Char × List Char)) (text : List Char) : Prop :=
  ∃ t, MembersText ms t ∧ text = '\x7b' :: (t ++ ['\x7d'])

/-- The search passes over the member. -/
structure Passes (w : List Char) (p : List Char × List Char) : Prop where
  quote : '"' ∉ p.1
  name : p.1 ≠ w
  value : Transparent w p.2

/-- The search stops in the member, whatever its white space. -/
def Leads (w : List Char) (p : List Char × List Char) (P : List Char → Prop) : Prop :=
  ∀ a b c d, Finds w (memberText p.1 p.2 a b c d) P

section Members

variable {w : List Char} {P : List Char → Prop}

theorem memberText_append (n v : List Char) (a b c d : Ws) (r : List Char) :
    memberText n v a b c d ++ r =
      wsText a ++ (quotedWord n ++ (wsText b ++ ([':'] ++ (wsText c ++ (v ++ (wsText d ++ r)))))) := by
  simp [memberText]

/-- Behind a name that is not the word, the search goes on in the value. -/
theorem behind_member (hw : SearchWord w) {n : List Char} (hq : '"' ∉ n) (hn : n ≠ w)
    (v : List Char) (a b c d : Ws) (r : List Char) :
    behind w (memberText n v a b c d ++ r) = behind w (v ++ (wsText d ++ r)) := by
  have hcolon : Delimited ([':'] ++ (wsText c ++ (v ++ (wsText d ++ r)))) :=
    delimited_cons _ (by decide)
  rw [memberText_append, behind_gap (quote_not_mem_wsText a),
    behind_skip hw hq hn (delimited_ws b hcolon), behind_gap (quote_not_mem_wsText b),
    behind_gap (by decide), behind_gap (quote_not_mem_wsText c)]

theorem Passes.transparent (hw : SearchWord w) {p : List Char × List Char} (h : Passes w p)
    (a b c d : Ws) : Transparent w (memberText p.1 p.2 a b c d) := by
  intro r hr
  rw [behind_member hw h.quote h.name, h.value _ (delimited_ws d hr),
    behind_gap (quote_not_mem_wsText d)]

theorem leads_of_value (hw : SearchWord w) {n v : List Char} (hq : '"' ∉ n) (hn : n ≠ w)
    (hv : Finds w v P) : Leads w (n, v) P := by
  intro a b c d r hr
  rw [behind_member hw hq hn]
  exact hv _ (delimited_ws d hr)

/-- A member named by the word: the colon and the value are what is left to read. -/
theorem leads_of_name {v : List Char}
    (h : ∀ b c r, Delimited r → P (wsText b ++ ':' :: (wsText c ++ (v ++ r)))) :
    Leads w (w, v) P := by
  intro a b c d r hr
  rw [memberText_append, behind_gap (quote_not_mem_wsText a), behind_hit]
  exact ⟨_, rfl, h b c _ (delimited_ws d hr)⟩

/-- Over a passed member and the comma behind it. -/
theorem Passes.behind_more (hw : SearchWord w) {n v : List Char} (h : Passes w (n, v))
    (a b c d : Ws) (t r : List Char) :
    behind w ((memberText n v a b c d ++ ',' :: t) ++ r) = behind w (t ++ r) := by
  have hmember := h.transparent hw a b c d ([','] ++ (t ++ r)) (delimited_cons _ (by decide))
  have hcomma : behind w ([','] ++ (t ++ r)) = behind w (t ++ r) := behind_gap (by decide) _
  rw [← hcomma, ← hmember]
  simp

/-- The members of an object, all of which the search passes over. -/
theorem transparent_members (hw : SearchWord w) {ms : List (List Char × List Char)}
    {t : List Char} (ht : MembersText ms t) (h : ∀ p ∈ ms, Passes w p) : Transparent w t := by
  induction ht with
  | one n v a b c d => exact (h (n, v) (by simp)).transparent hw a b c d
  | more n v a b c d _ ih =>
      intro r hr
      rw [(h (n, v) (by simp)).behind_more hw]
      exact ih (fun p hp => h p (List.mem_cons_of_mem _ hp)) r hr

/-- A first member that leads somewhere is where the search stops. -/
theorem finds_of_head {p : List Char × List Char} {ms : List (List Char × List Char)}
    {t : List Char} (ht : MembersText (p :: ms) t) (h : Leads w p P) : Finds w t P := by
  intro r hr
  cases ht with
  | one n v a b c d => exact h a b c d r hr
  | more n v a b c d _ =>
      rw [List.append_assoc]
      exact h a b c d _ (delimited_cons _ (by decide))

/-- Members in any order, one of which leads to something that satisfies `P`: the search gets there,
because it passes over the members before it. -/
theorem finds_members (hw : SearchWord w) {ms : List (List Char × List Char)} {t : List Char}
    (ht : MembersText ms t) (h : ∀ p ∈ ms, Passes w p ∨ Leads w p P) (hex : ∃ p ∈ ms, Leads w p P) :
    Finds w t P := by
  induction ht with
  | one n v a b c d =>
      obtain ⟨p, hp, hlead⟩ := hex
      obtain rfl := List.mem_singleton.mp hp
      exact hlead a b c d
  | more n v a b c d ht ih =>
      by_cases hhead : Leads w (n, v) P
      · exact finds_of_head (.more n v a b c d ht) hhead
      · intro r hr
        have hpass := (h (n, v) (by simp)).resolve_right hhead
        rw [hpass.behind_more hw]
        refine ih (fun p hp => h p (List.mem_cons_of_mem _ hp)) ?_ r hr
        obtain ⟨p, hp, hlead⟩ := hex
        rcases List.mem_cons.mp hp with rfl | hp
        · exact absurd hlead hhead
        · exact ⟨p, hp, hlead⟩

/-- The braces around the members are passed over. -/
theorem RendersObject.finds {ms : List (List Char × List Char)} {text : List Char}
    (ht : RendersObject ms text) (h : ∀ t, MembersText ms t → Finds w t P) : Finds w text P := by
  obtain ⟨t, hmem, rfl⟩ := ht
  intro r _
  have hopen := behind_gap (w := w) (show '"' ∉ ['\x7b'] by decide) (t ++ '\x7d' :: r)
  obtain ⟨x, hx, hP⟩ := h t hmem ('\x7d' :: r) (delimited_cons _ (by decide))
  refine ⟨x, ?_, hP⟩
  rw [← hx, ← hopen]
  simp

theorem RendersObject.transparent (hw : SearchWord w) {ms : List (List Char × List Char)}
    {text : List Char} (ht : RendersObject ms text) (h : ∀ p ∈ ms, Passes w p) :
    Transparent w text := by
  obtain ⟨t, hmem, rfl⟩ := ht
  intro r _
  have hopen := behind_gap (w := w) (show '"' ∉ ['\x7b'] by decide) (t ++ '\x7d' :: r)
  have hclose := behind_gap (w := w) (show '"' ∉ ['\x7d'] by decide) r
  have hmembers := transparent_members hw hmem h ('\x7d' :: r) (delimited_cons _ (by decide))
  rw [← hclose, List.singleton_append, ← hmembers, ← hopen]
  simp

theorem RendersObject.finds_member (hw : SearchWord w) {ms : List (List Char × List Char)}
    {text : List Char} (ht : RendersObject ms text) (h : ∀ p ∈ ms, Passes w p ∨ Leads w p P)
    (hex : ∃ p ∈ ms, Leads w p P) : Finds w text P :=
  ht.finds fun _ hmem => finds_members hw hmem h hex

end Members

end TxSender.Lib.Json
