/-
# TxSender.Lib.Json — JSON texts as trees that keep their spelling.

A tree carries everything a text shows: white space, the escapes inside a literal, the order of the
members. `Value.toks` lists its tokens, `text` their characters, and `denote` is what a string
literal stands for.
-/
import TxSender.Lib.Text

namespace TxSender.Lib.Json

/-! ## String literals -/

/-- The two-character escapes. -/
inductive Escape where
  | quote | backslash | slash | b | f | n | r | t
  deriving DecidableEq, Repr

/-- The character behind the backslash. -/
def Escape.letter : Escape → Char
  | quote => '"'
  | backslash => '\\'
  | slash => '/'
  | b => 'b'
  | f => 'f'
  | n => 'n'
  | r => 'r'
  | t => 't'

/-- The character that is meant. -/
def Escape.denotes : Escape → Char
  | quote => '"'
  | backslash => '\\'
  | slash => '/'
  | b => Char.ofNat 8
  | f => Char.ofNat 12
  | n => '\n'
  | r => '\r'
  | t => '\t'

/-- A hexadecimal digit in either case. -/
structure HexDigit where
  digit : Fin 16
  upper : Bool
  deriving DecidableEq, Repr

def HexDigit.char (d : HexDigit) : Char :=
  if d.digit.val < 10 then Char.ofNat (48 + d.digit.val)
  else if d.upper then Char.ofNat (55 + d.digit.val) else Char.ofNat (87 + d.digit.val)

/-- One element of a string literal. -/
inductive Item where
  | plain (c : Char) (h : c ≠ '"' ∧ c ≠ '\\' ∧ 32 ≤ c.toNat)
  | esc (e : Escape)
  | uni (d₁ d₂ d₃ d₄ : HexDigit)
  deriving DecidableEq

def Item.text : Item → List Char
  | plain c _ => [c]
  | esc e => ['\\', e.letter]
  | uni d₁ d₂ d₃ d₄ => ['\\', 'u', d₁.char, d₂.char, d₃.char, d₄.char]

/-- A string literal, without its two quotes. -/
abbrev Lit := List Item

/-- The characters between the quotes. -/
def raw (s : Lit) : List Char := s.flatMap Item.text

@[simp] theorem raw_nil : raw [] = [] := rfl

theorem raw_cons (i : Item) (s : Lit) : raw (i :: s) = i.text ++ raw s := rfl

/-- The code unit of a `\u` escape. -/
def codeUnit (d₁ d₂ d₃ d₄ : HexDigit) : Nat :=
  ((d₁.digit.val * 16 + d₂.digit.val) * 16 + d₃.digit.val) * 16 + d₄.digit.val

def isHighSurrogate (u : Nat) : Bool := 0xD800 ≤ u && u ≤ 0xDBFF
def isLowSurrogate (u : Nat) : Bool := 0xDC00 ≤ u && u ≤ 0xDFFF

/-- The characters a literal stands for; a surrogate without its partner stands for none. -/
def denote : Lit → Option (List Char)
  | [] => some []
  | .plain c _ :: s => (denote s).map (c :: ·)
  | .esc e :: s => (denote s).map (e.denotes :: ·)
  | .uni a b c d :: s =>
      if isHighSurrogate (codeUnit a b c d) then
        match s with
        | .uni a' b' c' d' :: s =>
            if isLowSurrogate (codeUnit a' b' c' d') then
              (denote s).map (Char.ofNat (0x10000 + (codeUnit a b c d - 0xD800) * 0x400
                + (codeUnit a' b' c' d' - 0xDC00)) :: ·)
            else none
        | _ => none
      else if isLowSurrogate (codeUnit a b c d) then none
      else (denote s).map (Char.ofNat (codeUnit a b c d) :: ·)

/-- The literal that spells a text; characters that need an escape are left out. -/
def plainLit (s : String) : Lit :=
  s.toList.filterMap fun c =>
    if h : c ≠ '"' ∧ c ≠ '\\' ∧ 32 ≤ c.toNat then some (.plain c h) else none

/-- Written without a backslash. -/
def Plain (s : Lit) : Prop := '\\' ∉ raw s

/-- A literal without escapes stands for what it spells. -/
theorem denote_of_plain {s : Lit} (h : Plain s) : denote s = some (raw s) := by
  unfold Plain at h
  induction s with
  | nil => rfl
  | cons i s ih =>
      rw [raw_cons, List.mem_append, not_or] at h
      cases i with
      | plain c hc => simp [denote, ih h.2, raw_cons, Item.text]
      | esc e => exact absurd (by simp [Item.text]) h.1
      | uni a b c d => exact absurd (by simp [Item.text]) h.1

/-! ## Values -/

inductive WsChar where
  | space | tab | lf | cr
  deriving DecidableEq, Repr

def WsChar.char : WsChar → Char
  | space => ' '
  | tab => '\t'
  | lf => '\n'
  | cr => '\r'

abbrev Ws := List WsChar

def digitChar (d : Fin 10) : Char := Char.ofNat (48 + d.val)

/-- The exponent of a number: its letter, its sign, its digits. -/
structure Exponent where
  upper : Bool
  sign : Option Bool
  digits : List (Fin 10)
  nonempty : digits ≠ []

/-- A number: an integer part without a leading zero, then a fraction and an exponent if any. -/
structure Number where
  minus : Bool
  int : List (Fin 10)
  frac : List (Fin 10)
  exponent : Option Exponent
  nonempty : int ≠ []
  noLeadingZero : int.head? = some 0 → int.length = 1

def Exponent.text (e : Exponent) : List Char :=
  (if e.upper then 'E' else 'e') ::
    ((match e.sign with
      | none => []
      | some true => ['+']
      | some false => ['-']) ++ e.digits.map digitChar)

def Number.text (n : Number) : List Char :=
  (if n.minus then ['-'] else []) ++ n.int.map digitChar ++
    (if n.frac = [] then [] else '.' :: n.frac.map digitChar) ++
    (match n.exponent with
      | none => []
      | some e => e.text)

mutual

inductive Value where
  | true
  | false
  | null
  | number (n : Number)
  | str (s : Lit)
  | emptyArr (w : Ws)
  | arr (es : Elements)
  | emptyObj (w : Ws)
  | obj (ms : Members)

/-- The elements of an array, each between white space. -/
inductive Elements where
  | one (w₁ : Ws) (v : Value) (w₂ : Ws)
  | more (w₁ : Ws) (v : Value) (w₂ : Ws) (es : Elements)

/-- The members of an object: a name, a colon, a value, with white space around each. -/
inductive Members where
  | one (w₁ : Ws) (name : Lit) (w₂ w₃ : Ws) (v : Value) (w₄ : Ws)
  | more (w₁ : Ws) (name : Lit) (w₂ w₃ : Ws) (v : Value) (w₄ : Ws) (ms : Members)

end

/-- A string literal, or one character outside of any. -/
inductive Tok where
  | str (s : Lit)
  | punct (c : Char)

def Tok.text : Tok → List Char
  | str s => '"' :: (raw s ++ ['"'])
  | punct c => [c]

/-- The characters of a token list. -/
def text (ts : List Tok) : List Char := ts.flatMap Tok.text

@[simp] theorem text_nil : text [] = [] := rfl

theorem text_cons (t : Tok) (ts : List Tok) : text (t :: ts) = t.text ++ text ts := rfl

theorem text_append (ts us : List Tok) : text (ts ++ us) = text ts ++ text us :=
  List.flatMap_append

def puncts (cs : List Char) : List Tok := cs.map .punct

def wsToks (w : Ws) : List Tok := puncts (w.map WsChar.char)

mutual

def Value.toks : Value → List Tok
  | .true => puncts ['t', 'r', 'u', 'e']
  | .false => puncts ['f', 'a', 'l', 's', 'e']
  | .null => puncts ['n', 'u', 'l', 'l']
  | .number n => puncts n.text
  | .str s => [.str s]
  | .emptyArr w => .punct '[' :: (wsToks w ++ [.punct ']'])
  | .arr es => .punct '[' :: (es.toks ++ [.punct ']'])
  | .emptyObj w => .punct '\x7b' :: (wsToks w ++ [.punct '\x7d'])
  | .obj ms => .punct '\x7b' :: (ms.toks ++ [.punct '\x7d'])

def Elements.toks : Elements → List Tok
  | .one w₁ v w₂ => wsToks w₁ ++ (v.toks ++ wsToks w₂)
  | .more w₁ v w₂ es => wsToks w₁ ++ (v.toks ++ (wsToks w₂ ++ .punct ',' :: es.toks))

def Members.toks : Members → List Tok
  | .one w₁ name w₂ w₃ v w₄ =>
      wsToks w₁ ++ .str name :: (wsToks w₂ ++ .punct ':' :: (wsToks w₃ ++ (v.toks ++ wsToks w₄)))
  | .more w₁ name w₂ w₃ v w₄ ms =>
      wsToks w₁ ++ .str name :: (wsToks w₂ ++ .punct ':' :: (wsToks w₃ ++ (v.toks ++ (wsToks w₄ ++
        .punct ',' :: ms.toks))))

end

/-- The names and values of the members, in order. -/
def Members.list : Members → List (Lit × Value)
  | .one _ name _ _ v _ => [(name, v)]
  | .more _ name _ _ v _ ms => (name, v) :: ms.list

/-- A text that is one object, between white space. -/
structure ObjectText where
  before : Ws
  /-- The members, or the white space between the braces of an empty object. -/
  members : Ws ⊕ Members
  after : Ws

def ObjectText.value (o : ObjectText) : Value :=
  match o.members with
  | .inl w => .emptyObj w
  | .inr ms => .obj ms

def ObjectText.toks (o : ObjectText) : List Tok := wsToks o.before ++ (o.value.toks ++ wsToks o.after)

def ObjectText.text (o : ObjectText) : List Char := Json.text o.toks

/-- The top-level members. -/
def ObjectText.list (o : ObjectText) : List (Lit × Value) :=
  match o.members with
  | .inl _ => []
  | .inr ms => ms.list

end TxSender.Lib.Json
