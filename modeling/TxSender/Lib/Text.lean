/-
# TxSender.Lib.Text — UTF-8 text, and the text operations of a systems language.

Text is a list of Unicode scalar values; `encodeUtf8` gives its octets and `decodeUtf8` is the
checked conversion back, which succeeds exactly on the octets of some text. On top of these: lines,
Unicode white space and trimming, slicing text at an octet offset (which fails off a character
boundary), ASCII case folding, and parsing unsigned decimals with an overflow check.
-/
import TxSender.Lib.Exec
import Mathlib.Data.List.DropRight
import Mathlib.Data.Nat.Digits.Defs
import Mathlib.Tactic.IntervalCases

namespace TxSender.Lib

/-! ## Octets of a text -/

/-- The UTF-8 octets of a text. -/
def encodeUtf8 (cs : List Char) : Bytes := cs.flatMap String.utf8EncodeChar

/-- The UTF-8 octets of a string. -/
def utf8 (s : String) : Bytes := encodeUtf8 s.toList

/-- Checked conversion of octets to text. -/
def decodeUtf8 (b : Bytes) : Option (List Char) := b.toByteArray.utf8Decode?.map Array.toList

@[simp] theorem encodeUtf8_nil : encodeUtf8 [] = [] := rfl

theorem encodeUtf8_cons (c : Char) (cs : List Char) :
    encodeUtf8 (c :: cs) = String.utf8EncodeChar c ++ encodeUtf8 cs := rfl

theorem encodeUtf8_append (a b : List Char) :
    encodeUtf8 (a ++ b) = encodeUtf8 a ++ encodeUtf8 b := List.flatMap_append

theorem utf8_append (s t : String) : utf8 (s ++ t) = utf8 s ++ utf8 t := by
  unfold utf8
  rw [String.toList_append, encodeUtf8_append]

theorem toByteArray_encodeUtf8 (cs : List Char) : (encodeUtf8 cs).toByteArray = cs.utf8Encode := rfl

@[simp] theorem decodeUtf8_encodeUtf8 (cs : List Char) : decodeUtf8 (encodeUtf8 cs) = some cs := by
  rw [decodeUtf8, toByteArray_encodeUtf8, List.utf8Decode?_utf8Encode]
  rfl

/-- Conversion succeeds exactly on the octets of a text, and returns that text. -/
theorem decodeUtf8_eq_some_iff {b : Bytes} {cs : List Char} :
    decodeUtf8 b = some cs ↔ b = encodeUtf8 cs := by
  constructor
  · intro h
    obtain ⟨a, ha, rfl⟩ := Option.map_eq_some_iff.mp h
    have hsome : b.toByteArray.utf8Decode?.isSome := by rw [ha]; rfl
    have henc := ByteArray.utf8Encode_get_utf8Decode? (h := hsome)
    simp only [ha, Option.get_some] at henc
    rw [← toByteArray_encodeUtf8] at henc
    exact (List.toByteArray_inj.mp henc).symm
  · rintro rfl
    exact decodeUtf8_encodeUtf8 cs

/-- The first character of a text is determined by its octets, whatever follows them. -/
theorem utf8EncodeChar_append_inj {c d : Char} {b b' : Bytes}
    (h : String.utf8EncodeChar c ++ b = String.utf8EncodeChar d ++ b') : c = d ∧ b = b' := by
  have hc := ByteArray.utf8DecodeChar?_utf8EncodeChar_append (b := b.toByteArray) (c := c)
  have hd := ByteArray.utf8DecodeChar?_utf8EncodeChar_append (b := b'.toByteArray) (c := d)
  rw [← List.toByteArray_append, h, List.toByteArray_append, hd] at hc
  obtain rfl := Option.some.inj hc
  exact ⟨rfl, List.append_cancel_left h⟩

/-- A text whose octets begin those of another begins it. -/
theorem prefix_of_encodeUtf8 {p cs : List Char} (h : encodeUtf8 p <+: encodeUtf8 cs) :
    p <+: cs := by
  induction p generalizing cs with
  | nil => exact List.nil_prefix
  | cons c p ih =>
      obtain ⟨r, hr⟩ := h
      rw [encodeUtf8_cons, List.append_assoc] at hr
      cases cs with
      | nil => exact absurd (List.append_eq_nil_iff.mp hr).1 (String.utf8EncodeChar_ne_nil)
      | cons d cs =>
          obtain ⟨rfl, hrest⟩ := utf8EncodeChar_append_inj hr
          obtain ⟨t, rfl⟩ := ih ⟨r, hrest⟩
          exact ⟨t, rfl⟩

theorem encodeUtf8_eq_nil {cs : List Char} (h : (encodeUtf8 cs).length = 0) : cs = [] := by
  cases cs with
  | nil => rfl
  | cons c cs =>
      rw [encodeUtf8_cons, List.length_append, String.length_utf8EncodeChar] at h
      have hpos := c.utf8Size_pos
      omega

/-- Of two cuts of a text, the one with fewer octets begins the other. -/
theorem prefix_of_length_encodeUtf8_le {a b cs : List Char} (ha : a <+: cs) (hb : b <+: cs)
    (h : (encodeUtf8 a).length ≤ (encodeUtf8 b).length) : a <+: b := by
  obtain hab | ⟨t, rfl⟩ := List.prefix_or_prefix_of_prefix ha hb
  · exact hab
  · rw [encodeUtf8_append, List.length_append] at h
    have ht : t = [] := encodeUtf8_eq_nil (by omega)
    exact ⟨[], by simp [ht]⟩

/-- The first octets of a text are text exactly when they end where a character ends. -/
theorem decodeUtf8_take_isSome_iff {cs : List Char} {n : Nat} :
    (decodeUtf8 ((encodeUtf8 cs).take n)).isSome = true ↔
      ∃ p, p <+: cs ∧ (encodeUtf8 p).length = min n (encodeUtf8 cs).length := by
  constructor
  · intro h
    obtain ⟨p, hp⟩ := Option.isSome_iff_exists.mp h
    have htake := decodeUtf8_eq_some_iff.mp hp
    refine ⟨p, prefix_of_encodeUtf8 ?_, ?_⟩
    · rw [← htake]
      exact List.take_prefix _ _
    · rw [← htake, List.length_take]
  · rintro ⟨p, ⟨r, rfl⟩, hlen⟩
    have htake : (encodeUtf8 (p ++ r)).take n = encodeUtf8 p := by
      rw [List.take_eq_take_min, ← hlen, encodeUtf8_append, List.take_left]
    rw [htake, decodeUtf8_encodeUtf8]
    rfl

/-- A cut inside a character leaves no text. -/
theorem decodeUtf8_take_of_split {a b : List Char} {c : Char} {n : Nat}
    (hlo : (encodeUtf8 a).length < n) (hhi : n < (encodeUtf8 a).length + c.utf8Size) :
    decodeUtf8 ((encodeUtf8 (a ++ c :: b)).take n) = none := by
  rw [← Option.not_isSome_iff_eq_none, decodeUtf8_take_isSome_iff]
  rintro ⟨p, hp, hlen⟩
  have hall : (encodeUtf8 (a ++ c :: b)).length =
      (encodeUtf8 a).length + (c.utf8Size + (encodeUtf8 b).length) := by
    rw [encodeUtf8_append, encodeUtf8_cons, List.length_append, List.length_append,
      String.length_utf8EncodeChar]
  rw [hall, Nat.min_eq_left (by omega)] at hlen
  -- such a cut would have all of `a`, and then `c` or nothing
  obtain ⟨t, rfl⟩ := prefix_of_length_encodeUtf8_le (List.prefix_append a (c :: b)) hp (by omega)
  rw [encodeUtf8_append, List.length_append] at hlen
  cases t with
  | nil =>
      rw [encodeUtf8_nil, List.length_nil] at hlen
      omega
  | cons d t =>
      rw [List.prefix_append_right_inj, List.cons_prefix_cons] at hp
      rw [encodeUtf8_cons, List.length_append, String.length_utf8EncodeChar, hp.1] at hlen
      omega

/-- An ASCII octet of an encoded character is the whole of it. -/
theorem toNat_of_mem_utf8EncodeChar {c : Char} {b : UInt8} (h : b ∈ String.utf8EncodeChar c)
    (hb : b < 128) : c.toNat = b.toNat := by
  have hb' : b.toNat < 128 := hb
  unfold String.utf8EncodeChar at h
  simp only at h
  split_ifs at h with h1 h2 h3
  · obtain rfl := List.mem_singleton.mp h
    have hlt : c.val.toNat < 256 := by omega
    simp only [UInt8.toNat_ofNat', Char.toNat]
    omega
  all_goals
    exfalso
    simp only [List.mem_cons, List.not_mem_nil, or_false] at h
    rcases h with rfl | rfl | rfl | rfl <;>
      · simp only [UInt8.toNat_ofNat'] at hb'
        omega

/-- The octet of an ASCII character stands only where the character does. -/
theorem not_mem_encodeUtf8 {c : Char} {b : UInt8} {cs : List Char} (hc : c.toNat = b.toNat)
    (hb : b < 128) (h : c ∉ cs) : b ∉ encodeUtf8 cs := by
  intro hmem
  obtain ⟨d, hd, hbd⟩ := List.mem_flatMap.mp hmem
  have hdc : d = c := by
    apply Char.toNat_inj.mp
    rw [toNat_of_mem_utf8EncodeChar hbd hb, hc]
  exact h (hdc ▸ hd)

/-! ## Decimal numbers -/

/-- The canonical decimal numeral of `n`, as octets. -/
def decimal (n : Nat) : Bytes := utf8 n.repr

/-- The octet of a decimal digit. -/
def digitByte (d : Nat) : UInt8 := UInt8.ofNat (48 + d)

theorem utf8EncodeChar_digitChar {d : Nat} (h : d < 10) :
    String.utf8EncodeChar d.digitChar = [digitByte d] := by
  interval_cases d <;> decide

theorem decimal_of_lt {n : Nat} (h : n < 10) : decimal n = [digitByte n] := by
  unfold decimal utf8
  rw [Nat.toList_repr, Nat.toDigits_of_lt_base h, encodeUtf8_cons, utf8EncodeChar_digitChar h]
  rfl

theorem decimal_of_ge {n : Nat} (h : 10 ≤ n) :
    decimal n = decimal (n / 10) ++ [digitByte (n % 10)] := by
  unfold decimal utf8
  rw [Nat.toList_repr, Nat.toList_repr, Nat.toDigits_of_base_le (by omega) h, encodeUtf8_append,
    encodeUtf8_cons, utf8EncodeChar_digitChar (Nat.mod_lt n (by omega))]
  rfl

theorem length_decimal_le {n k : Nat} (hk : 0 < k) (h : n < 10 ^ k) : (decimal n).length ≤ k := by
  induction k generalizing n with
  | zero => omega
  | succ k ih =>
      by_cases hn : n < 10
      · rw [decimal_of_lt hn]
        simp
      · have hk0 : 0 < k := by
          rcases Nat.eq_zero_or_pos k with rfl | hpos
          · simp at h
            omega
          · exact hpos
        rw [decimal_of_ge (by omega), List.length_append]
        have := ih hk0 (show n / 10 < 10 ^ k by rw [pow_succ] at h; omega)
        simp only [List.length_singleton]
        omega

/-- As many digits as it has bound a number. -/
theorem lt_pow_length_decimal (n : Nat) : n < 10 ^ (decimal n).length := by
  induction n using Nat.strong_induction_on with
  | _ n ih =>
      by_cases hn : n < 10
      · rw [decimal_of_lt hn]
        simpa using hn
      · have := ih (n / 10) (by omega)
        rw [decimal_of_ge (by omega), List.length_append, List.length_singleton, pow_succ]
        omega

theorem mem_decimal {n : Nat} {b : UInt8} (h : b ∈ decimal n) : ∃ d < 10, b = digitByte d := by
  induction n using Nat.strong_induction_on with
  | _ n ih =>
      by_cases hn : n < 10
      · rw [decimal_of_lt hn, List.mem_singleton] at h
        exact ⟨n, hn, h⟩
      · rw [decimal_of_ge (by omega), List.mem_append, List.mem_singleton] at h
        rcases h with h | h
        · exact ih (n / 10) (by omega) h
        · exact ⟨n % 10, Nat.mod_lt n (by omega), h⟩

/-! ## Operations on text -/

/-- `char::is_whitespace`: the Unicode `White_Space` property. -/
def isWhitespace (c : Char) : Bool :=
  let n := c.toNat
  (0x9 ≤ n && n ≤ 0xD) || n == 0x20 || n == 0x85 || n == 0xA0 || n == 0x1680 ||
    (0x2000 ≤ n && n ≤ 0x200A) || n == 0x2028 || n == 0x2029 || n == 0x202F || n == 0x205F ||
    n == 0x3000

theorem isWhitespace_of_isDigit {c : Char} (h : c.isDigit = true) : isWhitespace c = false := by
  have hrange : 48 ≤ c.toNat ∧ c.toNat ≤ 57 := by
    simpa [Char.isDigit, UInt32.le_iff_toNat_le] using h
  unfold isWhitespace
  simp
  omega

/-- `str::trim_start` -/
def trimStart (cs : List Char) : List Char := cs.dropWhile isWhitespace

/-- `str::trim` -/
def trim (cs : List Char) : List Char := (trimStart cs).rdropWhile isWhitespace

/-- A line that was ended by a newline loses one carriage return at its end. -/
def stripCr (line : List Char) : List Char :=
  if line.getLast? = some '\r' then line.dropLast else line

/-- `str::lines`, with the characters of the current line so far. -/
def linesFrom (cur : List Char) : List Char → List (List Char)
  | [] => if cur = [] then [] else [cur]
  | c :: cs => if c = '\n' then stripCr cur :: linesFrom [] cs else linesFrom (cur ++ [c]) cs

/-- `str::lines` -/
def lines (cs : List Char) : List (List Char) := linesFrom [] cs

theorem linesFrom_newline {l : List Char} (h : '\n' ∉ l) (cur rest : List Char) :
    linesFrom cur (l ++ '\n' :: rest) = stripCr (cur ++ l) :: linesFrom [] rest := by
  induction l generalizing cur with
  | nil => simp [linesFrom]
  | cons c l ih =>
      rw [List.mem_cons, not_or] at h
      rw [List.cons_append, linesFrom, if_neg (Ne.symm h.1), ih h.2, List.append_assoc]
      rfl

/-- A line ended by CR LF comes out without either. -/
theorem lines_crlf {l : List Char} (h : '\n' ∉ l) (rest : List Char) :
    lines (l ++ '\r' :: '\n' :: rest) = l :: lines rest := by
  have hnl : '\n' ∉ l ++ ['\r'] := by simp [h]
  have := linesFrom_newline hnl [] rest
  rw [List.append_assoc] at this
  unfold lines
  rw [show l ++ '\r' :: '\n' :: rest = l ++ (['\r'] ++ '\n' :: rest) from rfl, this]
  simp [stripCr]

/-- Blanks around a word without white space are trimmed away. -/
theorem trim_padded {a w b : List Char} (ha : ∀ c ∈ a, isWhitespace c = true)
    (hb : ∀ c ∈ b, isWhitespace c = true) (hw : ∀ c ∈ w, isWhitespace c = false) (hne : w ≠ []) :
    trim (a ++ (w ++ b)) = w := by
  obtain ⟨c, w', rfl⟩ := List.exists_cons_of_ne_nil hne
  have hstart : trimStart (a ++ (c :: w' ++ b)) = c :: w' ++ b := by
    unfold trimStart
    rw [List.dropWhile_append_of_pos ha, List.cons_append, List.dropWhile_cons_of_neg]
    simp [hw c (by simp)]
  unfold trim
  rw [hstart]
  unfold List.rdropWhile
  rw [List.reverse_append, List.dropWhile_append_of_pos (by simpa using hb)]
  have hlast : ∀ d ∈ (c :: w').reverse, ¬ isWhitespace d = true := by
    intro d hd
    simp [hw d (List.mem_reverse.mp hd)]
  cases hr : (c :: w').reverse with
  | nil => simp at hr
  | cons d ds =>
      rw [List.dropWhile_cons_of_neg (hlast d (by rw [hr]; simp)), ← hr, List.reverse_reverse]

/-- `&s[n..]`, with `n` an octet offset: a panic off a character boundary. -/
def strFrom : List Char → Nat → Exec (List Char)
  | cs, 0 => .ok cs
  | [], _ + 1 => .error .panic
  | c :: cs, n + 1 => if c.utf8Size ≤ n + 1 then strFrom cs (n + 1 - c.utf8Size) else .error .panic

/-- A character whose first octet is ASCII has no other octet. -/
theorem utf8EncodeChar_of_ascii {c : Char} {b : UInt8} {bs : Bytes}
    (h : String.utf8EncodeChar c = b :: bs) (hb : b < 128) : bs = [] ∧ c.utf8Size = 1 := by
  have hbs : bs = [] := by
    have hb' : b.toNat < 128 := hb
    unfold String.utf8EncodeChar at h
    simp only at h
    split_ifs at h with h1 h2 h3
    · exact (List.cons.inj h).2.symm
    all_goals
      exfalso
      have hhead := congrArg UInt8.toNat (List.cons.inj h).1
      simp only [UInt8.toNat_ofNat'] at hhead
      omega
  have hlen := String.length_utf8EncodeChar c
  rw [h, hbs] at hlen
  exact ⟨hbs, hlen.symm⟩

/-- A text whose first `n` octets are ASCII can be cut behind them, as it can be behind its first
`n` characters. -/
theorem strFrom_of_ascii {n : Nat} {l : List Char} (hn : n ≤ (encodeUtf8 l).length)
    (h : ∀ b ∈ (encodeUtf8 l).take n, b < 128) :
    strFrom l n = .ok (l.drop n) ∧ encodeUtf8 (l.take n) = (encodeUtf8 l).take n := by
  induction n generalizing l with
  | zero => exact ⟨by cases l <;> rfl, by simp⟩
  | succ n ih =>
      cases l with
      | nil => simp at hn
      | cons c cs =>
          rw [encodeUtf8_cons] at hn h
          cases henc : String.utf8EncodeChar c with
          | nil =>
              have hlen := String.length_utf8EncodeChar c
              have hpos := c.utf8Size_pos
              rw [henc, List.length_nil] at hlen
              omega
          | cons b bs =>
              rw [henc] at hn h
              obtain ⟨rfl, hsize⟩ := utf8EncodeChar_of_ascii henc (h b (by simp))
              simp only [List.cons_append, List.nil_append, List.length_cons, List.take_succ_cons,
                List.mem_cons, forall_eq_or_imp] at hn h
              obtain ⟨hstr, htake⟩ := ih (by omega) h.2
              refine ⟨?_, ?_⟩
              · rw [strFrom, if_pos (by omega), hsize]
                exact hstr
              · rw [List.take_succ_cons, encodeUtf8_cons, encodeUtf8_cons, henc, htake]
                rfl

/-- `u8::to_ascii_lowercase` -/
def toAsciiLower (b : UInt8) : UInt8 := if 65 ≤ b ∧ b ≤ 90 then b + 32 else b

/-- `[u8]::eq_ignore_ascii_case` -/
def eqIgnoreAsciiCase (a b : Bytes) : Bool := a.map toAsciiLower == b.map toAsciiLower

/-- The value of a run of ASCII digits, read from the left onto `acc`. -/
def digitsValue (acc : Nat) : List Char → Option Nat
  | [] => some acc
  | c :: cs => if c.isDigit then digitsValue (acc * 10 + (c.toNat - 48)) cs else none

/-- `str::parse::<usize>`: an optional plus sign, at least one digit, a value that fits 64 bits.
Every intermediate value is at most the final one, so the overflow check can be made once. -/
def parseUsize (cs : List Char) : Option Nat :=
  let ds := match cs with
    | '+' :: rest => rest
    | _ => cs
  if ds = [] then none
  else (digitsValue 0 ds).bind fun v => if v < 2 ^ 64 then some v else none

/-- `str::parse::<i64>`: an optional sign, at least one digit, a value that fits. -/
def parseI64 (cs : List Char) : Option Int :=
  let (negative, ds) := match cs with
    | '-' :: rest => (true, rest)
    | '+' :: rest => (false, rest)
    | _ => (false, cs)
  if ds = [] then none
  else (digitsValue 0 ds).bind fun v =>
    if negative then (if v ≤ 2 ^ 63 then some (-(v : Int)) else none)
    else if v < 2 ^ 63 then some (v : Int) else none

/-! ## Numerals read back -/

theorem digitsValue_concat (acc : Nat) (ds : List Char) (c : Char) :
    digitsValue acc (ds ++ [c]) = (digitsValue acc ds).bind fun v =>
      if c.isDigit then some (v * 10 + (c.toNat - 48)) else none := by
  induction ds generalizing acc with
  | nil =>
      simp only [List.nil_append, digitsValue, Option.bind_some]
  | cons d ds ih =>
      simp only [List.cons_append, digitsValue]
      split
      · exact ih _
      · rfl

theorem digitChar_isDigit {d : Nat} (h : d < 10) :
    d.digitChar.isDigit = true ∧ d.digitChar.toNat - 48 = d := by
  interval_cases d <;> decide

/-- The canonical numeral reads back as the number. -/
theorem digitsValue_toDigits (n : Nat) : digitsValue 0 (Nat.toDigits 10 n) = some n := by
  induction n using Nat.strong_induction_on with
  | _ n ih =>
      by_cases hn : n < 10
      · obtain ⟨hdig, hval⟩ := digitChar_isDigit hn
        rw [Nat.toDigits_of_lt_base hn, digitsValue, if_pos hdig, hval, digitsValue]
        simp
      · obtain ⟨hdig, hval⟩ := digitChar_isDigit (Nat.mod_lt n (show 0 < 10 by omega))
        rw [Nat.toDigits_of_base_le (by omega) (by omega), digitsValue_concat, ih (n / 10) (by omega),
          Option.bind_some, if_pos hdig, hval]
        congr 1
        omega

theorem toDigits_ne_sign {n : Nat} {c : Char} {rest : List Char} (hc : c.isDigit = false) :
    Nat.toDigits 10 n ≠ c :: rest := by
  intro h
  have hmem : c ∈ Nat.toDigits 10 n := by
    rw [h]
    exact List.mem_cons_self
  rw [Nat.isDigit_of_mem_toDigits (by omega) (by omega) hmem] at hc
  cases hc

/-- A numeral that fits the machine word is parsed to its number. -/
theorem parseUsize_toDigits {n : Nat} (h : n < 2 ^ 64) : parseUsize (Nat.toDigits 10 n) = some n := by
  unfold parseUsize
  simp only
  split
  · rename_i rest heq
    exact absurd heq (toDigits_ne_sign (by decide))
  · rw [if_neg Nat.toDigits_ne_nil, digitsValue_toDigits, Option.bind_some, if_pos h]

/-- The canonical decimal of an integer. -/
def signedDigits (c : Int) : List Char :=
  if c < 0 then '-' :: Nat.toDigits 10 c.natAbs else Nat.toDigits 10 c.natAbs

/-- Every 64-bit integer is parsed back from its canonical decimal, both extremes included. -/
theorem parseI64_signedDigits {c : Int} (hlo : -2 ^ 63 ≤ c) (hhi : c < 2 ^ 63) :
    parseI64 (signedDigits c) = some c := by
  unfold signedDigits
  split
  · rename_i hneg
    simp only [parseI64, if_true]
    rw [if_neg Nat.toDigits_ne_nil, digitsValue_toDigits, Option.bind_some, if_pos (by omega)]
    congr 1
    omega
  · rename_i hpos
    unfold parseI64
    split
    rename_i negative ds hmatch
    split at hmatch
    · rename_i rest heq
      exact absurd heq (toDigits_ne_sign (by decide))
    · rename_i rest heq
      exact absurd heq (toDigits_ne_sign (by decide))
    · obtain ⟨rfl, rfl⟩ := Prod.mk.inj hmatch
      rw [if_neg Nat.toDigits_ne_nil, digitsValue_toDigits, Option.bind_some,
        if_neg (by decide), if_pos (by omega)]
      congr 1
      omega

end TxSender.Lib
