/-
# TxSender.Lib.JsonScan — a JSON text under a substring search.

Where a quoted word first occurs in the text of a token list, and what the next colon, the next
quote and the quote after it turn out to be. A quote character of a text is the first or the last
character of a literal, or the second one of an escape; so a quoted word is the tail of a literal
(`Mentions`), and the tokens behind that literal decide the rest (`quoted_iff`).
-/
import TxSender.Lib.Search
import TxSender.Lib.Json

namespace TxSender.Lib.Json

open TxSender.Lib.Search

/-! ## Quotes and colons inside a literal -/

/-- A character of a literal is a character of one of its items. -/
theorem raw_split {s : Lit} {c : Char} {a b : List Char} (h : raw s = a ++ c :: b) :
    ∃ s₁ i s₂ x y, s = s₁ ++ i :: s₂ ∧ i.text = x ++ c :: y ∧ a = raw s₁ ++ x ∧
      b = y ++ raw s₂ := by
  induction s generalizing a with
  | nil => simp at h
  | cons i s ih =>
      have hlater : ∀ a', raw s = a' ++ c :: b → a = i.text ++ a' →
          ∃ s₁ j s₂ x y, i :: s = s₁ ++ j :: s₂ ∧ j.text = x ++ c :: y ∧ a = raw s₁ ++ x ∧
            b = y ++ raw s₂ := by
        intro a' htail ha
        obtain ⟨s₁, j, s₂, x, y, rfl, hj, ha', hb⟩ := ih htail
        exact ⟨i :: s₁, j, s₂, x, y, rfl, hj, by rw [ha, ha', raw_cons, List.append_assoc], hb⟩
      rw [raw_cons] at h
      rcases List.append_eq_append_iff.mp h with ⟨a', rfl, htail⟩ | ⟨z, hi, htail⟩
      · exact hlater a' htail rfl
      · cases z with
        | nil =>
            rw [List.append_nil] at hi
            exact hlater [] htail.symm (by rw [hi, List.append_nil])
        | cons c' y =>
            rw [List.cons_append, List.cons.injEq] at htail
            obtain ⟨rfl, hb⟩ := htail
            exact ⟨[], i, s, a, y, rfl, hi, rfl, hb⟩

theorem hexDigit_char_ne (d : HexDigit) : d.char ≠ '"' ∧ d.char ≠ ':' := by
  have h : ∀ (n : Fin 16) (u : Bool),
      HexDigit.char ⟨n, u⟩ ≠ '"' ∧ HexDigit.char ⟨n, u⟩ ≠ ':' := by decide
  exact h d.digit d.upper

theorem letter_eq_quote {e : Escape} (h : e.letter = '"') : e = .quote := by
  cases e <;> first | rfl | exact absurd h (by decide)

theorem letter_ne_colon (e : Escape) : e.letter ≠ ':' := by
  cases e <;> decide

/-- Only one item has a quote in it. -/
theorem item_quote {i : Item} {x y : List Char} (h : i.text = x ++ '"' :: y) :
    i = .esc .quote ∧ x = ['\\'] ∧ y = [] := by
  have hmem : '"' ∈ i.text := by simp [h]
  cases i with
  | plain c hc =>
      rw [Item.text, List.mem_singleton] at hmem
      exact absurd hmem.symm hc.1
  | esc e =>
      simp only [Item.text, List.mem_cons, List.not_mem_nil, or_false] at hmem
      rcases hmem with hmem | hmem
      · exact absurd hmem (by decide)
      · obtain rfl := letter_eq_quote hmem.symm
        rcases x with _ | ⟨x₀, _ | ⟨x₁, x⟩⟩
        · exact absurd (List.cons.inj h).1 (by decide)
        · obtain ⟨h₀, h₁⟩ := List.cons.inj h
          exact ⟨rfl, by rw [← h₀], (List.cons.inj h₁).2.symm⟩
        · have hlen := congrArg List.length h
          simp [Item.text] at hlen
  | uni a b c d =>
      simp only [Item.text, List.mem_cons, List.not_mem_nil, or_false] at hmem
      rcases hmem with hmem | hmem | hmem | hmem | hmem | hmem
      · exact absurd hmem (by decide)
      · exact absurd hmem (by decide)
      · exact absurd hmem.symm (hexDigit_char_ne a).1
      · exact absurd hmem.symm (hexDigit_char_ne b).1
      · exact absurd hmem.symm (hexDigit_char_ne c).1
      · exact absurd hmem.symm (hexDigit_char_ne d).1

/-- A colon is always an item of its own. -/
theorem item_colon {i : Item} {x y : List Char} (h : i.text = x ++ ':' :: y) :
    i.text = [':'] ∧ x = [] ∧ y = [] := by
  have hmem : ':' ∈ i.text := by simp [h]
  cases i with
  | plain c hc =>
      rw [Item.text] at h hmem ⊢
      obtain rfl := List.mem_singleton.mp hmem
      cases x with
      | nil => exact ⟨rfl, rfl, (List.cons.inj h).2.symm⟩
      | cons x₀ x =>
          have hlen := congrArg List.length h
          simp at hlen
  | esc e =>
      simp only [Item.text, List.mem_cons, List.not_mem_nil, or_false] at hmem
      rcases hmem with hmem | hmem
      · exact absurd hmem (by decide)
      · exact absurd hmem.symm (letter_ne_colon e)
  | uni a b c d =>
      simp only [Item.text, List.mem_cons, List.not_mem_nil, or_false] at hmem
      rcases hmem with hmem | hmem | hmem | hmem | hmem | hmem
      · exact absurd hmem (by decide)
      · exact absurd hmem (by decide)
      · exact absurd hmem.symm (hexDigit_char_ne a).2
      · exact absurd hmem.symm (hexDigit_char_ne b).2
      · exact absurd hmem.symm (hexDigit_char_ne c).2
      · exact absurd hmem.symm (hexDigit_char_ne d).2

/-- A quote inside a literal stands behind a backslash, and a literal goes on behind it. -/
theorem raw_split_quote {s : Lit} {a b : List Char} (h : raw s = a ++ '"' :: b) :
    '\\' ∈ a ∧ ∃ s₂, b = raw s₂ := by
  obtain ⟨s₁, i, s₂, x, y, -, hi, ha, hb⟩ := raw_split h
  obtain ⟨-, rfl, rfl⟩ := item_quote hi
  exact ⟨by simp [ha], s₂, hb⟩

/-- A literal goes on behind a colon. -/
theorem raw_split_colon {s : Lit} {a b : List Char} (h : raw s = a ++ ':' :: b) :
    ∃ s₂, b = raw s₂ := by
  obtain ⟨s₁, i, s₂, x, y, -, hi, ha, hb⟩ := raw_split h
  obtain ⟨-, rfl, rfl⟩ := item_colon hi
  exact ⟨s₂, hb⟩

/-- A colon of a literal's text is one between its quotes. -/
theorem lit_split_colon {s : Lit} {x y : List Char} (h : (Tok.str s).text = x ++ ':' :: y) :
    ∃ x' y', x = '"' :: x' ∧ y = y' ++ ['"'] ∧ raw s = x' ++ ':' :: y' := by
  rw [Tok.text] at h
  cases x with
  | nil => exact absurd (List.cons.inj h).1 (by decide)
  | cons q x' =>
      obtain ⟨rfl, htail⟩ := List.cons.inj h
      rcases List.append_eq_append_iff.mp htail with ⟨z, -, hz⟩ | ⟨z, hz, hz'⟩
      · cases z with
        | nil => exact absurd (List.cons.inj hz).1 (by decide)
        | cons d z => simp at hz
      · cases z with
        | nil => exact absurd (List.cons.inj hz').1 (by decide)
        | cons d y' =>
            obtain ⟨rfl, hy⟩ := List.cons.inj hz'
            exact ⟨x', y', rfl, hy, hz⟩

/-! ## The first mention of a word -/

/-- The literal is the word, or ends with the word behind an escaped quote: its text ends with the
word between quotes. -/
def Mentions (w : List Char) (s : Lit) : Prop := '"' :: w <:+ '"' :: raw s

instance (w : List Char) (s : Lit) : Decidable (Mentions w s) :=
  inferInstanceAs (Decidable (_ <:+ _))

/-- The word between quotes. -/
def quotedWord (w : List Char) : List Char := '"' :: (w ++ ['"'])

/-- The word has a character, and no quote and no backslash in it. -/
structure Word (w : List Char) : Prop where
  nonempty : w ≠ []
  quote : '"' ∉ w
  backslash : '\\' ∉ w

/-- No literal is directly followed by the character `c`. -/
def Spaced (c : Char) : List Tok → Prop
  | [] => True
  | .punct _ :: ts => Spaced c ts
  | .str _ :: ts => (text ts).head? ≠ some c ∧ Spaced c ts

/-- No quote outside a literal. -/
def Bare (ts : List Tok) : Prop := ∀ c, Tok.punct c ∈ ts → c ≠ '"'

theorem Bare.tail {t : Tok} {ts : List Tok} (h : Bare (t :: ts)) : Bare ts :=
  fun c hc => h c (List.mem_cons_of_mem t hc)

/-- A literal that is closed where a run without quotes and backslashes ends is that run. -/
theorem raw_eq_of_closed {w rest post : List Char} {s : Lit} (hquote : '"' ∉ w)
    (hbackslash : '\\' ∉ w) (h : raw s ++ '"' :: rest = w ++ '"' :: post) : raw s = w := by
  rcases List.append_eq_append_iff.mp h with ⟨z, hz, htail⟩ | ⟨z, hz, htail⟩
  · cases z with
    | nil => rw [hz, List.append_nil]
    | cons q z =>
        obtain ⟨rfl, -⟩ := List.cons.inj htail
        exact absurd (by simp [hz]) hquote
  · cases z with
    | nil => rw [hz, List.append_nil]
    | cons q z =>
        obtain ⟨rfl, -⟩ := List.cons.inj htail
        exact absurd (raw_split_quote hz).1 hbackslash

/-- An occurrence of the quoted word that starts in a literal ends with it. -/
theorem mentions_of_occursAt {w rest : List Char} {s : Lit} {i : Nat} (hw : Word w)
    (hrest : rest.head? ≠ w.head?) (hi : i < (Tok.str s).text.length)
    (h : OccursAt (quotedWord w) ((Tok.str s).text ++ rest) i) :
    Mentions w s ∧ i + (quotedWord w).length = (Tok.str s).text.length := by
  obtain ⟨pre, post, heq, rfl⟩ := h
  obtain ⟨w₀, w', rfl⟩ := List.exists_cons_of_ne_nil hw.nonempty
  rw [quotedWord, List.cons_append, List.append_assoc, List.singleton_append] at heq
  obtain ⟨x, hx, htail⟩ : ∃ x, (Tok.str s).text = pre ++ '"' :: x ∧
      x ++ rest = (w₀ :: w') ++ '"' :: post := by
    rcases List.append_eq_append_iff.mp heq with ⟨z, hz, -⟩ | ⟨z, hz, htail⟩
    · rw [hz, List.length_append] at hi
      omega
    · cases z with
      | nil =>
          rw [hz, List.append_nil] at hi
          omega
      | cons q x =>
          obtain ⟨rfl, hword⟩ := List.cons.inj htail
          exact ⟨x, hz, hword.symm⟩
  -- behind the quote where the occurrence starts, the literal goes on and is then closed
  have hlit : ∃ s₂, x = raw s₂ ++ ['"'] := by
    rw [Tok.text] at hx
    cases pre with
    | nil => exact ⟨s, ((List.cons.inj hx).2).symm⟩
    | cons p pre =>
        have hx' := (List.cons.inj hx).2
        rcases List.append_eq_append_iff.mp hx' with ⟨z, hz, hx''⟩ | ⟨z, hz, hx''⟩
        · -- the closing quote: the text behind the literal would start with the word
          cases z with
          | nil =>
              obtain rfl : x = [] := ((List.cons.inj hx'').2).symm
              rw [List.nil_append] at htail
              exact absurd (by rw [htail]; rfl) hrest
          | cons q z => simp at hx''
        · cases z with
          | nil =>
              obtain rfl : x = [] := (List.cons.inj hx'').2
              rw [List.nil_append] at htail
              exact absurd (by rw [htail]; rfl) hrest
          | cons q z =>
              obtain ⟨rfl, hclose⟩ := List.cons.inj hx''
              obtain ⟨s₂, rfl⟩ := (raw_split_quote hz).2
              exact ⟨s₂, hclose⟩
  obtain ⟨s₂, rfl⟩ := hlit
  rw [List.append_assoc, List.singleton_append] at htail
  have hs₂ := raw_eq_of_closed hw.quote hw.backslash htail
  rw [hs₂] at hx
  refine ⟨⟨pre, ?_⟩, ?_⟩
  · have hcancel : (pre ++ '"' :: (w₀ :: w')) ++ ['"'] = ('"' :: raw s) ++ ['"'] := by
      simpa [Tok.text] using hx.symm
    exact List.append_cancel_right hcancel
  · rw [hx]
    simp [quotedWord]

/-- The tokens behind the first literal that mentions the word. -/
def afterMention (w : List Char) : List Tok → Option (List Tok)
  | [] => none
  | .punct _ :: ts => afterMention w ts
  | .str s :: ts => if Mentions w s then some ts else afterMention w ts

theorem occursAt_mention {w : List Char} {s : Lit} (h : Mentions w s) (rest : List Char) :
    OccursAt (quotedWord w) ((Tok.str s).text ++ rest)
      ((Tok.str s).text.length - (quotedWord w).length) := by
  obtain ⟨pre, hpre⟩ := h
  have htext : (Tok.str s).text = pre ++ quotedWord w := by
    rw [Tok.text, ← List.cons_append, ← hpre, List.append_assoc]
    rfl
  refine ⟨pre, rest, by rw [htext, List.append_assoc], ?_⟩
  rw [htext, List.length_append]
  omega

theorem not_occursAt_punct {w rest : List Char} {c : Char} (hc : c ≠ '"') :
    ∀ i < [c].length, ¬ OccursAt (quotedWord w) ([c] ++ rest) i := by
  intro i hi hocc
  obtain rfl : i = 0 := by simpa using hi
  obtain ⟨post, hpost⟩ := occursAt_zero.mp hocc
  exact hc (List.cons.inj hpost).1.symm

/-- What a text shows behind the first occurrence of a quoted word is the text behind the first
literal that mentions it. -/
theorem find_word {w : List Char} (hw : Word w) (ts : List Tok) (hbare : Bare ts)
    (hsp : ∀ c ∈ w.head?, Spaced c ts) :
    (find (quotedWord w) (text ts)).map (fun i => (text ts).drop (i + (quotedWord w).length)) =
      (afterMention w ts).map text := by
  have hshift : ∀ (p l : List Char), (∀ i < p.length, ¬ OccursAt (quotedWord w) (p ++ l) i) →
      (find (quotedWord w) (p ++ l)).map (fun i => (p ++ l).drop (i + (quotedWord w).length)) =
        (find (quotedWord w) l).map (fun i => l.drop (i + (quotedWord w).length)) := by
    intro p l h
    rw [find_append_left h, Option.map_map]
    congr 1
    funext i
    simp only [Function.comp]
    rw [Nat.add_assoc, List.drop_append]
    simp
  induction ts with
  | nil => rfl
  | cons t ts ih =>
      cases t with
      | punct c =>
          rw [text_cons, afterMention]
          exact (hshift [c] (text ts) (not_occursAt_punct (hbare c (by simp)))).trans
            (ih hbare.tail hsp)
      | str s =>
          rw [text_cons, afterMention]
          have hrest : (text ts).head? ≠ w.head? := by
            obtain ⟨c, w', rfl⟩ := List.exists_cons_of_ne_nil hw.nonempty
            exact (hsp c rfl).1
          by_cases hm : Mentions w s
          · rw [if_pos hm]
            have hocc := occursAt_mention hm (text ts)
            have hfind : find (quotedWord w) ((Tok.str s).text ++ text ts) =
                some ((Tok.str s).text.length - (quotedWord w).length) := by
              refine find_eq_some_iff.mpr ⟨hocc, fun j hj hocc' => ?_⟩
              have := (mentions_of_occursAt hw hrest (by omega) hocc').2
              omega
            have hlen : (Tok.str s).text.length - (quotedWord w).length + (quotedWord w).length =
                (Tok.str s).text.length := by
              obtain ⟨pre, hpre⟩ := hm
              have := congrArg List.length hpre
              simp only [Tok.text, quotedWord, List.length_append, List.length_cons] at this ⊢
              omega
            rw [hfind, Option.map_some, Option.map_some, hlen, List.drop_left]
          · rw [if_neg hm, hshift _ _ (fun i hi hocc => hm (mentions_of_occursAt hw hrest hi hocc).1)]
            exact ih hbare.tail (fun c hc => (hsp c hc).2)

/-! ## What follows a mention -/

/-- No colon in the token. -/
def Tok.NoColon (t : Tok) : Prop := ':' ∉ t.text

/-- A white space character outside a literal. -/
def Tok.IsBlank : Tok → Prop
  | .str _ => False
  | .punct c => isWhitespace c = true

/-- The next colon stands between two tokens, and behind it comes the literal `s`. -/
def ValueBehind (ts : List Tok) (s : Lit) : Prop :=
  ∃ a w rest, ts = a ++ .punct ':' :: (w ++ .str s :: rest) ∧ (∀ t ∈ a, t.NoColon) ∧
    ∀ t ∈ w, t.IsBlank

/-- The next colon is the last visible character of a literal, and `gap` is what stands between
that literal and the next one. -/
def GapBehind (ts : List Tok) (gap : List Char) : Prop :=
  ∃ a s x y s' rest, ts = a ++ .str s :: (puncts gap ++ .str s' :: rest) ∧
    (∀ t ∈ a, t.NoColon) ∧ raw s = x ++ ':' :: y ∧ ':' ∉ x ∧ ∀ c ∈ y, isWhitespace c = true

/-- Behind the first colon of `l` and white space stands `q`, between two quotes. -/
def Quoted (l q : List Char) : Prop :=
  ∃ a w rest, l = a ++ ':' :: (w ++ '"' :: (q ++ '"' :: rest)) ∧ ':' ∉ a ∧
    (∀ c ∈ w, isWhitespace c = true) ∧ '"' ∉ q

theorem not_mem_of_whitespace {c : Char} (hc : isWhitespace c = false) {w : List Char}
    (h : ∀ x ∈ w, isWhitespace x = true) : c ∉ w := by
  intro hmem
  rw [h c hmem] at hc
  exact absurd hc (by decide)

/-- The first occurrence of a character splits a list in one way. -/
theorem split_unique {c : Char} {a b x y : List Char} (h : a ++ c :: x = b ++ c :: y) (ha : c ∉ a)
    (hb : c ∉ b) : a = b ∧ x = y := by
  rcases List.append_eq_append_iff.mp h with ⟨z, hz, htail⟩ | ⟨z, hz, htail⟩
  · cases z with
    | nil => exact ⟨by rw [hz, List.append_nil], (List.cons.inj htail).2⟩
    | cons d z =>
        obtain ⟨rfl, -⟩ := List.cons.inj htail
        exact absurd (by simp [hz]) hb
  · cases z with
    | nil => exact ⟨by rw [hz, List.append_nil], (List.cons.inj htail).2.symm⟩
    | cons d z =>
        obtain ⟨rfl, -⟩ := List.cons.inj htail
        exact absurd (by simp [hz]) ha

/-- The first quote behind white space opens a literal. -/
theorem text_eq_blank_quote {w rest : List Char} {ts : List Tok} (hbare : Bare ts)
    (hw : ∀ c ∈ w, isWhitespace c = true) (h : text ts = w ++ '"' :: rest) :
    ∃ ws s us, ts = ws ++ .str s :: us ∧ (∀ t ∈ ws, t.IsBlank) ∧ rest = raw s ++ '"' :: text us := by
  induction ts generalizing w with
  | nil => simp at h
  | cons t ts ih =>
      rw [text_cons] at h
      cases t with
      | punct c =>
          cases w with
          | nil => exact absurd (List.cons.inj h).1 (hbare c (by simp))
          | cons d w =>
              obtain ⟨rfl, htail⟩ := List.cons.inj h
              obtain ⟨ws, s, us, rfl, hblank, hrest⟩ :=
                ih hbare.tail (fun x hx => hw x (List.mem_cons_of_mem c hx)) htail
              refine ⟨.punct c :: ws, s, us, rfl, ?_, hrest⟩
              intro t ht
              rcases List.mem_cons.mp ht with rfl | ht
              · exact hw c (by simp)
              · exact hblank t ht
      | str s =>
          rw [Tok.text, List.cons_append, List.append_assoc, List.singleton_append] at h
          cases w with
          | nil => exact ⟨[], s, ts, rfl, by simp, (List.cons.inj h).2.symm⟩
          | cons d w =>
              have hd := hw d (by simp)
              rw [← (List.cons.inj h).1] at hd
              exact absurd hd (by decide)

/-- Up to the next quote, a text has no literal. -/
theorem text_eq_gap_quote {q rest : List Char} {ts : List Tok} (hq : '"' ∉ q)
    (h : text ts = q ++ '"' :: rest) (hbare : Bare ts) :
    ∃ s us, ts = puncts q ++ .str s :: us := by
  induction ts generalizing q with
  | nil => simp at h
  | cons t ts ih =>
      rw [text_cons] at h
      cases t with
      | punct c =>
          cases q with
          | nil => exact absurd (List.cons.inj h).1 (hbare c (by simp))
          | cons d q =>
              obtain ⟨rfl, htail⟩ := List.cons.inj h
              obtain ⟨s, us, rfl⟩ := ih (fun hx => hq (List.mem_cons_of_mem c hx)) htail hbare.tail
              exact ⟨s, us, rfl⟩
      | str s =>
          cases q with
          | nil => exact ⟨s, ts, rfl⟩
          | cons d q =>
              rw [Tok.text, List.cons_append] at h
              exact absurd (by simp [← (List.cons.inj h).1]) hq

/-- The characters of a literal up to its first quote, an escaped one. -/
def upToQuote (s : Lit) : List Char := (raw s).takeWhile (· ≠ '"')

theorem not_mem_upToQuote (s : Lit) : '"' ∉ upToQuote s := by
  intro h
  simpa using List.mem_takeWhile_imp h

theorem upToQuote_split (s : Lit) (rest : List Char) :
    ∃ rest', raw s ++ '"' :: rest = upToQuote s ++ '"' :: rest' := by
  have hsplit := List.takeWhile_append_dropWhile (p := (· ≠ '"')) (l := raw s)
  cases hd : (raw s).dropWhile (· ≠ '"') with
  | nil =>
      rw [hd, List.append_nil] at hsplit
      exact ⟨rest, by rw [upToQuote, hsplit]⟩
  | cons c l =>
      have hc : c = '"' := by
        have := List.head?_dropWhile_not (fun x : Char => decide (x ≠ '"')) (raw s)
        rw [hd] at this
        simpa using this
      subst hc
      refine ⟨l ++ '"' :: rest, ?_⟩
      rw [hd] at hsplit
      conv_lhs => rw [← hsplit]
      rw [upToQuote, List.append_assoc, List.cons_append]

theorem upToQuote_of_plain {s : Lit} (h : Plain s) : upToQuote s = raw s := by
  refine List.takeWhile_eq_self_iff.mpr (fun c hc => ?_)
  rw [decide_eq_true_iff]
  rintro rfl
  obtain ⟨a, b, hab⟩ := List.append_of_mem hc
  exact h (by rw [hab]; exact List.mem_append_left _ (raw_split_quote hab).1)

theorem not_mem_text {c : Char} {ts : List Tok} (h : ∀ t ∈ ts, c ∉ t.text) : c ∉ text ts := by
  intro hc
  obtain ⟨t, ht, hct⟩ := List.mem_flatMap.mp hc
  exact h t ht hct

theorem text_puncts (cs : List Char) : text (puncts cs) = cs := by
  induction cs with
  | nil => rfl
  | cons c cs ih => exact congrArg (c :: ·) ih

theorem ValueBehind.cons {t : Tok} {ts : List Tok} {s : Lit} (ht : t.NoColon)
    (h : ValueBehind ts s) : ValueBehind (t :: ts) s := by
  obtain ⟨a, w, rest, rfl, ha, hw⟩ := h
  refine ⟨t :: a, w, rest, rfl, ?_, hw⟩
  intro u hu
  rcases List.mem_cons.mp hu with rfl | hu
  · exact ht
  · exact ha u hu

theorem GapBehind.cons {t : Tok} {ts : List Tok} {gap : List Char} (ht : t.NoColon)
    (h : GapBehind ts gap) : GapBehind (t :: ts) gap := by
  obtain ⟨a, s, x, y, s', rest, rfl, ha, hs⟩ := h
  refine ⟨t :: a, s, x, y, s', rest, rfl, ?_, hs⟩
  intro u hu
  rcases List.mem_cons.mp hu with rfl | hu
  · exact ht
  · exact ha u hu

theorem quoted_of_valueBehind {ts : List Tok} {s : Lit} (h : ValueBehind ts s) :
    Quoted (text ts) (upToQuote s) := by
  obtain ⟨a, w, rest, rfl, ha, hw⟩ := h
  obtain ⟨rest', hrest⟩ := upToQuote_split s (text rest)
  refine ⟨text a, text w, rest', ?_, not_mem_text ha, ?_, not_mem_upToQuote s⟩
  · rw [← hrest, text_append, text_cons, text_append, text_cons]
    simp [Tok.text]
  · intro c hc
    obtain ⟨t, ht, hct⟩ := List.mem_flatMap.mp hc
    have hblank := hw t ht
    cases t with
    | str s => exact absurd hblank (by simp [Tok.IsBlank])
    | punct d =>
        obtain rfl := List.mem_singleton.mp hct
        exact hblank

theorem quoted_of_gapBehind {ts : List Tok} {gap : List Char} (hbare : Bare ts)
    (h : GapBehind ts gap) : Quoted (text ts) gap := by
  obtain ⟨a, s, x, y, s', rest, rfl, ha, hs, hx, hy⟩ := h
  refine ⟨text a ++ '"' :: x, y, raw s' ++ '"' :: text rest, ?_, ?_, hy, ?_⟩
  · rw [text_append, text_cons, text_append, text_cons, text_puncts]
    simp [Tok.text, hs]
  · rw [List.mem_append, List.mem_cons, not_or, not_or]
    exact ⟨not_mem_text ha, by decide, hx⟩
  · intro hq
    refine hbare '"' ?_ rfl
    simp [puncts, hq]

/-- **What stands between the two quotes.** Behind the first colon of a text and white space, `q`
stands between quotes exactly when it is the start of the literal behind a colon between tokens, or
the gap behind a literal whose last visible character is a colon. -/
theorem quoted_iff (ts : List Tok) (hbare : Bare ts) (q : List Char) :
    Quoted (text ts) q ↔ (∃ s, ValueBehind ts s ∧ q = upToQuote s) ∨ GapBehind ts q := by
  constructor
  · intro h
    induction ts with
    | nil =>
        obtain ⟨a, w, rest, heq, -⟩ := h
        simp at heq
    | cons t ts ih =>
        obtain ⟨a, w, rest, heq, ha, hw, hq⟩ := h
        rw [text_cons] at heq
        by_cases hcolon : ':' ∈ t.text
        · obtain ⟨x, y, hxy, hx⟩ := List.eq_append_cons_of_mem hcolon
          have hsplit : x ++ ':' :: (y ++ text ts) = a ++ ':' :: (w ++ '"' :: (q ++ '"' :: rest)) := by
            rw [← heq, hxy, List.append_assoc, List.cons_append]
          obtain ⟨rfl, hbehind⟩ := split_unique hsplit hx ha
          cases t with
          | punct c =>
              have hlen := congrArg List.length hxy
              simp only [Tok.text, List.length_append, List.length_cons, List.length_nil] at hlen
              obtain rfl : x = [] := List.length_eq_zero_iff.mp (by omega)
              obtain rfl : y = [] := List.length_eq_zero_iff.mp (by omega)
              obtain rfl : c = ':' := (List.cons.inj hxy).1
              obtain ⟨ws, s, us, rfl, hblank, hs⟩ := text_eq_blank_quote hbare.tail hw hbehind
              obtain ⟨rest', hrest'⟩ := upToQuote_split s (text us)
              rw [hrest'] at hs
              refine Or.inl ⟨s, ⟨[], ws, us, rfl, by simp, hblank⟩, ?_⟩
              exact (split_unique hs hq (not_mem_upToQuote s)).1
          | str s =>
              -- the colon is a character of the literal, and `y` runs to its closing quote
              obtain ⟨x', y', rfl, rfl, hs⟩ := lit_split_colon hxy
              obtain ⟨s₂, rfl⟩ := raw_split_colon hs
              rw [List.append_assoc, List.singleton_append] at hbehind
              have hy := raw_eq_of_closed (not_mem_of_whitespace (by decide) hw)
                (not_mem_of_whitespace (by decide) hw) hbehind
              rw [hy] at hbehind hs
              have hgap := (List.cons.inj (List.append_cancel_left hbehind)).2
              obtain ⟨s', us, rfl⟩ := text_eq_gap_quote hq hgap hbare.tail
              refine Or.inr ⟨[], s, x', w, s', us, rfl, by simp, hs, ?_, hw⟩
              exact fun hmem => hx (List.mem_cons_of_mem _ hmem)
        · have hsub : ∃ a', a = t.text ++ a' ∧
              text ts = a' ++ ':' :: (w ++ '"' :: (q ++ '"' :: rest)) := by
            rcases List.append_eq_append_iff.mp heq with ⟨z, hz, htail⟩ | ⟨z, hz, htail⟩
            · exact ⟨z, hz, htail⟩
            · cases z with
              | nil => exact ⟨[], by rw [hz, List.append_nil, List.append_nil], htail.symm⟩
              | cons d z =>
                  obtain ⟨rfl, -⟩ := List.cons.inj htail
                  exact absurd (by simp [hz]) hcolon
          obtain ⟨a', rfl, htail⟩ := hsub
          rw [List.mem_append, not_or] at ha
          rcases ih hbare.tail ⟨a', w, rest, htail, ha.2, hw, hq⟩ with ⟨s, hs, hqs⟩ | hgap
          · exact Or.inl ⟨s, hs.cons hcolon, hqs⟩
          · exact Or.inr (hgap.cons hcolon)
  · rintro (⟨s, hs, rfl⟩ | hgap)
    · exact quoted_of_valueBehind hs
    · exact quoted_of_gapBehind hbare hgap

/-! ## The tokens of an object -/

theorem bare_append {ts us : List Tok} (hts : Bare ts) (hus : Bare us) : Bare (ts ++ us) := by
  intro c hc
  rcases List.mem_append.mp hc with hc | hc
  · exact hts c hc
  · exact hus c hc

theorem bare_cons_str {s : Lit} {ts : List Tok} (h : Bare ts) : Bare (.str s :: ts) := by
  intro c hc
  exact h c (by simpa using hc)

theorem bare_cons_punct {c : Char} {ts : List Tok} (hc : c ≠ '"') (h : Bare ts) :
    Bare (.punct c :: ts) := by
  intro d hd
  rcases List.mem_cons.mp hd with hd | hd
  · obtain rfl : d = c := by simpa using hd
    exact hc
  · exact h d hd

theorem bare_puncts {cs : List Char} (h : '"' ∉ cs) : Bare (puncts cs) := by
  rintro c hc rfl
  exact h (by simpa [puncts] using hc)

theorem bare_ws (w : Ws) : Bare (wsToks w) := by
  refine bare_puncts ?_
  intro h
  obtain ⟨c, -, hc⟩ := List.mem_map.mp h
  cases c <;> exact absurd hc (by decide)

theorem digitChar_ne_quote (d : Fin 10) : digitChar d ≠ '"' := by
  revert d
  decide

theorem quote_not_mem_digits (ds : List (Fin 10)) : '"' ∉ ds.map digitChar := by
  intro h
  obtain ⟨d, -, hd⟩ := List.mem_map.mp h
  exact digitChar_ne_quote d hd

theorem bare_number (n : Number) : Bare (puncts n.text) := by
  refine bare_puncts ?_
  have hexp : ∀ e : Exponent, '"' ∉ e.text := by
    intro e
    have := quote_not_mem_digits e.digits
    unfold Exponent.text
    rcases e.sign with _ | _ | _ <;> cases e.upper <;> simp [this]
  have hint := quote_not_mem_digits n.int
  have hfrac := quote_not_mem_digits n.frac
  unfold Number.text
  simp only [List.mem_append, not_or]
  refine ⟨⟨⟨?_, hint⟩, ?_⟩, ?_⟩
  · cases n.minus <;> decide
  · split
    · simp
    · simp [hfrac]
  · split
    · simp
    · exact hexp _

theorem bare_nil : Bare [] := by
  intro c hc
  simp at hc

mutual

theorem Value.bare : (v : Value) → Bare v.toks
  | .true => bare_puncts (by decide)
  | .false => bare_puncts (by decide)
  | .null => bare_puncts (by decide)
  | .number n => bare_number n
  | .str _ => bare_cons_str bare_nil
  | .emptyArr w =>
      bare_cons_punct (by decide) (bare_append (bare_ws w) (bare_cons_punct (by decide) bare_nil))
  | .arr es =>
      bare_cons_punct (by decide) (bare_append es.bare (bare_cons_punct (by decide) bare_nil))
  | .emptyObj w =>
      bare_cons_punct (by decide) (bare_append (bare_ws w) (bare_cons_punct (by decide) bare_nil))
  | .obj ms =>
      bare_cons_punct (by decide) (bare_append ms.bare (bare_cons_punct (by decide) bare_nil))

theorem Elements.bare : (es : Elements) → Bare es.toks
  | .one w₁ v w₂ => bare_append (bare_ws w₁) (bare_append v.bare (bare_ws w₂))
  | .more w₁ v w₂ es => bare_append (bare_ws w₁) (bare_append v.bare
      (bare_append (bare_ws w₂) (bare_cons_punct (by decide) es.bare)))

theorem Members.bare : (ms : Members) → Bare ms.toks
  | .one w₁ _ w₂ w₃ v w₄ => bare_append (bare_ws w₁) (bare_cons_str (bare_append (bare_ws w₂)
      (bare_cons_punct (by decide) (bare_append (bare_ws w₃) (bare_append v.bare (bare_ws w₄))))))
  | .more w₁ _ w₂ w₃ v w₄ ms => bare_append (bare_ws w₁) (bare_cons_str (bare_append (bare_ws w₂)
      (bare_cons_punct (by decide) (bare_append (bare_ws w₃) (bare_append v.bare
        (bare_append (bare_ws w₄) (bare_cons_punct (by decide) ms.bare)))))))

end

/-- The characters that can stand directly behind a string literal. -/
def delimiters : List Char := [' ', '\t', '\n', '\r', ',', ':', ']', '\x7d']

/-- The list does not start with `c`, nor is one of its literals followed by `c`. -/
def Clear (c : Char) (ts : List Tok) : Prop := (text ts).head? ≠ some c ∧ Spaced c ts

theorem clear_nil (c : Char) : Clear c [] := ⟨by simp, trivial⟩

theorem spaced_puncts {c : Char} (cs : List Char) {ts : List Tok} (h : Spaced c ts) :
    Spaced c (puncts cs ++ ts) := by
  induction cs with
  | nil => exact h
  | cons d cs ih => exact ih

theorem clear_delimiter {c d : Char} {ts : List Tok} (hc : c ∉ delimiters) (hd : d ∈ delimiters)
    (h : Spaced c ts) : Clear c (.punct d :: ts) := by
  refine ⟨?_, h⟩
  intro heq
  obtain rfl : d = c := by simpa [text_cons, Tok.text] using heq
  exact hc hd

theorem clear_ws {c : Char} (hc : c ∉ delimiters) (w : Ws) {ts : List Tok} (h : Clear c ts) :
    Clear c (wsToks w ++ ts) := by
  cases w with
  | nil => exact h
  | cons x w =>
      refine clear_delimiter hc ?_ (spaced_puncts _ h.2)
      cases x <;> decide

mutual

theorem Value.spaced {c : Char} (hc : c ∉ delimiters) :
    (v : Value) → {ts : List Tok} → Clear c ts → Spaced c (v.toks ++ ts)
  | .true, _, h => spaced_puncts _ h.2
  | .false, _, h => spaced_puncts _ h.2
  | .null, _, h => spaced_puncts _ h.2
  | .number _, _, h => spaced_puncts _ h.2
  | .str _, _, h => h
  | .emptyArr w, ts, h => by
      show Spaced c ((wsToks w ++ [.punct ']']) ++ ts)
      rw [List.append_assoc]
      exact spaced_puncts _ h.2
  | .arr es, ts, h => by
      show Spaced c ((es.toks ++ [.punct ']']) ++ ts)
      rw [List.append_assoc]
      exact es.spaced hc (clear_delimiter hc (by decide) h.2)
  | .emptyObj w, ts, h => by
      show Spaced c ((wsToks w ++ [.punct '\x7d']) ++ ts)
      rw [List.append_assoc]
      exact spaced_puncts _ h.2
  | .obj ms, ts, h => by
      show Spaced c ((ms.toks ++ [.punct '\x7d']) ++ ts)
      rw [List.append_assoc]
      exact ms.spaced hc (clear_delimiter hc (by decide) h.2)

theorem Elements.spaced {c : Char} (hc : c ∉ delimiters) :
    (es : Elements) → {ts : List Tok} → Clear c ts → Spaced c (es.toks ++ ts)
  | .one w₁ v w₂, ts, h => by
      simp only [Elements.toks, List.append_assoc]
      exact spaced_puncts _ (v.spaced hc (clear_ws hc w₂ h))
  | .more w₁ v w₂ es, ts, h => by
      simp only [Elements.toks, List.append_assoc, List.cons_append]
      exact spaced_puncts _ (v.spaced hc (clear_ws hc w₂
        (clear_delimiter hc (by decide) (es.spaced hc h))))

theorem Members.spaced {c : Char} (hc : c ∉ delimiters) :
    (ms : Members) → {ts : List Tok} → Clear c ts → Spaced c (ms.toks ++ ts)
  | .one w₁ _ w₂ w₃ v w₄, ts, h => by
      simp only [Members.toks, List.append_assoc, List.cons_append]
      exact spaced_puncts _ (clear_ws hc w₂ (clear_delimiter hc (by decide)
        (spaced_puncts _ (v.spaced hc (clear_ws hc w₄ h)))))
  | .more w₁ _ w₂ w₃ v w₄ ms, ts, h => by
      simp only [Members.toks, List.append_assoc, List.cons_append]
      exact spaced_puncts _ (clear_ws hc w₂ (clear_delimiter hc (by decide)
        (spaced_puncts _ (v.spaced hc (clear_ws hc w₄
          (clear_delimiter hc (by decide) (ms.spaced hc h)))))))

end

theorem ObjectText.bare (o : ObjectText) : Bare o.toks :=
  bare_append (bare_ws o.before) (bare_append o.value.bare (bare_ws o.after))

theorem ObjectText.spaced (o : ObjectText) {c : Char} (hc : c ∉ delimiters) : Spaced c o.toks := by
  have hafter : Clear c (wsToks o.after) := by
    have := clear_ws hc o.after (clear_nil c)
    rwa [List.append_nil] at this
  exact spaced_puncts _ (o.value.spaced hc hafter)

end TxSender.Lib.Json
