/-
# TxSender.Lib.Base64 — standard padded base64 (RFC 4648 §4).

Three octets become four symbols of the 64-letter alphabet; a final group of one or two octets is
padded with `=` to four. What frame arithmetic needs is the exact length and that every symbol is
one of the alphabet or `=` (`mem_encode`). `decode` reads the encoding back (`decode_encode`).
-/
import TxSender.Lib.Exec

namespace TxSender.Lib.Base64

open TxSender.Lib (Bytes)

/-- The symbol of a 6-bit value: `A`–`Z`, `a`–`z`, `0`–`9`, `+`, `/`. -/
def symbol (v : Nat) : UInt8 :=
  if v < 26 then UInt8.ofNat (65 + v)
  else if v < 52 then UInt8.ofNat (97 + (v - 26))
  else if v < 62 then UInt8.ofNat (48 + (v - 52))
  else if v = 62 then 43
  else 47

/-- The padding symbol `=`. -/
def pad : UInt8 := 61

/-- Standard padded base64. -/
def encode : Bytes → Bytes
  | a :: b :: c :: rest =>
      let n := a.toNat * 65536 + b.toNat * 256 + c.toNat
      symbol (n / 262144) :: symbol (n / 4096 % 64) :: symbol (n / 64 % 64) :: symbol (n % 64) ::
        encode rest
  | [a, b] =>
      let n := a.toNat * 1024 + b.toNat * 4
      [symbol (n / 4096), symbol (n / 64 % 64), symbol (n % 64), pad]
  | [a] =>
      let n := a.toNat * 16
      [symbol (n / 64), symbol (n % 64), pad, pad]
  | [] => []

/-- The encoding of `n` octets has `4 * ⌈n / 3⌉` symbols. -/
theorem length_encode (b : Bytes) : (encode b).length = (b.length + 2) / 3 * 4 := by
  induction b using encode.induct with
  | case1 a b c rest ih =>
      simp only [encode, List.length_cons, ih]
      omega
  | case2 a b => simp [encode]
  | case3 a => simp [encode]
  | case4 => simp [encode]

-- RFC 4648 §10
example : encode [0x66, 0x6F, 0x6F, 0x62] = [90, 109, 57, 118, 89, 103, 61, 61] := by decide

/-- One of the symbols an encoding is made of. -/
def IsSymbol (s : UInt8) : Prop := s = pad ∨ ∃ v < 64, s = symbol v

theorem mem_encode {b : Bytes} {s : UInt8} (hs : s ∈ encode b) : IsSymbol s := by
  induction b using encode.induct with
  | case1 x y z rest ih =>
      have hx := x.toNat_lt
      have hy := y.toNat_lt
      have hz := z.toNat_lt
      simp only [encode, List.mem_cons] at hs
      rcases hs with rfl | rfl | rfl | rfl | hs
      · exact .inr ⟨_, by omega, rfl⟩
      · exact .inr ⟨_, by omega, rfl⟩
      · exact .inr ⟨_, by omega, rfl⟩
      · exact .inr ⟨_, by omega, rfl⟩
      · exact ih hs
  | case2 x y =>
      have hx := x.toNat_lt
      have hy := y.toNat_lt
      simp only [encode, List.mem_cons, List.not_mem_nil, or_false] at hs
      rcases hs with rfl | rfl | rfl | rfl
      · exact .inr ⟨_, by omega, rfl⟩
      · exact .inr ⟨_, by omega, rfl⟩
      · exact .inr ⟨_, by omega, rfl⟩
      · exact .inl rfl
  | case3 x =>
      have hx := x.toNat_lt
      simp only [encode, List.mem_cons, List.not_mem_nil, or_false] at hs
      rcases hs with rfl | rfl | rfl | rfl
      · exact .inr ⟨_, by omega, rfl⟩
      · exact .inr ⟨_, by omega, rfl⟩
      · exact .inl rfl
      · exact .inl rfl
  | case4 => cases hs

/-! ## Reading it back -/

/-- The value of a symbol. -/
def value (s : UInt8) : Option Nat :=
  if 65 ≤ s ∧ s ≤ 90 then some (s.toNat - 65)
  else if 97 ≤ s ∧ s ≤ 122 then some (s.toNat - 97 + 26)
  else if 48 ≤ s ∧ s ≤ 57 then some (s.toNat - 48 + 52)
  else if s = 43 then some 62
  else if s = 47 then some 63
  else none

theorem value_symbol {v : Nat} (h : v < 64) : value (symbol v) = some v := by
  have hall : ∀ w : Fin 64, value (symbol w) = some w.val := by decide
  exact hall ⟨v, h⟩

theorem symbol_ne_pad {v : Nat} (h : v < 64) : symbol v ≠ pad := by
  have hall : ∀ w : Fin 64, symbol w ≠ pad := by decide
  exact hall ⟨v, h⟩

/-- Four symbols without padding. -/
def group (a b c d : UInt8) : Option Bytes := do
  let n := (← value a) * 262144 + (← value b) * 4096 + (← value c) * 64 + (← value d)
  some [UInt8.ofNat (n / 65536), UInt8.ofNat (n / 256 % 256), UInt8.ofNat (n % 256)]

/-- The last four symbols; the bits that stand for no octet are zero. -/
def lastGroup (a b c d : UInt8) : Option Bytes :=
  if d = pad then
    if c = pad then do
      let n := (← value a) * 64 + (← value b)
      if n % 16 = 0 then some [UInt8.ofNat (n / 16)] else none
    else do
      let n := (← value a) * 4096 + (← value b) * 64 + (← value c)
      if n % 4 = 0 then some [UInt8.ofNat (n / 1024), UInt8.ofNat (n / 4 % 256)] else none
  else group a b c d

def decode : Bytes → Option Bytes
  | [] => some []
  | [a, b, c, d] => lastGroup a b c d
  | a :: b :: c :: d :: rest => do
      let octets ← group a b c d
      let more ← decode rest
      some (octets ++ more)
  | _ => none

/-- A number is its digits to the base 64. -/
theorem four_digits (n : Nat) :
    n / 262144 * 262144 + n / 4096 % 64 * 4096 + n / 64 % 64 * 64 + n % 64 = n := by omega

theorem three_digits (n : Nat) : n / 4096 * 4096 + n / 64 % 64 * 64 + n % 64 = n := by omega

theorem group_encode (a b c : UInt8) :
    group (symbol ((a.toNat * 65536 + b.toNat * 256 + c.toNat) / 262144))
      (symbol ((a.toNat * 65536 + b.toNat * 256 + c.toNat) / 4096 % 64))
      (symbol ((a.toNat * 65536 + b.toNat * 256 + c.toNat) / 64 % 64))
      (symbol ((a.toNat * 65536 + b.toNat * 256 + c.toNat) % 64)) = some [a, b, c] := by
  have ha := a.toNat_lt
  have hb := b.toNat_lt
  have hc := c.toNat_lt
  generalize hn : a.toNat * 65536 + b.toNat * 256 + c.toNat = n
  have h0 : n / 65536 = a.toNat := by omega
  have h1 : n / 256 % 256 = b.toNat := by omega
  have h2 : n % 256 = c.toNat := by omega
  have hv0 : value (symbol (n / 262144)) = some (n / 262144) := value_symbol (by omega)
  have hv1 : value (symbol (n / 4096 % 64)) = some (n / 4096 % 64) := value_symbol (by omega)
  have hv2 : value (symbol (n / 64 % 64)) = some (n / 64 % 64) := value_symbol (by omega)
  have hv3 : value (symbol (n % 64)) = some (n % 64) := value_symbol (by omega)
  unfold group
  rw [hv0, hv1, hv2, hv3]
  simp only [Option.bind_eq_bind, Option.bind_some, four_digits, h0, h1, h2, UInt8.ofNat_toNat]

/-- **What is encoded is read back.** -/
theorem decode_encode (b : Bytes) : decode (encode b) = some b := by
  induction b using encode.induct with
  | case1 x y z rest ih =>
      rw [encode]
      cases hrest : encode rest with
      | nil =>
          -- only the empty list encodes to nothing, so this group is the last
          have hnil : rest = [] := by
            have hlen := length_encode rest
            rw [hrest, List.length_nil] at hlen
            exact List.length_eq_zero_iff.mp (by omega)
          have hpad : symbol ((x.toNat * 65536 + y.toNat * 256 + z.toNat) % 64) ≠ pad :=
            symbol_ne_pad (by omega)
          rw [decode, lastGroup, if_neg hpad, group_encode, hnil]
      | cons s ss =>
          rw [decode, group_encode, ← hrest, ih]
          · rfl
          · intro hcontra
            cases hcontra
  | case2 x y =>
      have hx := x.toNat_lt
      have hy := y.toNat_lt
      rw [encode]
      generalize hn : x.toNat * 1024 + y.toNat * 4 = n
      have h0 : n / 1024 = x.toNat := by omega
      have h1 : n / 4 % 256 = y.toNat := by omega
      have hv0 : value (symbol (n / 4096)) = some (n / 4096) := value_symbol (by omega)
      have hv1 : value (symbol (n / 64 % 64)) = some (n / 64 % 64) := value_symbol (by omega)
      have hv2 : value (symbol (n % 64)) = some (n % 64) := value_symbol (by omega)
      have hpad : symbol (n % 64) ≠ pad := symbol_ne_pad (by omega)
      rw [decode, lastGroup, if_pos rfl, if_neg hpad, hv0, hv1, hv2]
      simp only [Option.bind_eq_bind, Option.bind_some, three_digits, h0, h1, UInt8.ofNat_toNat]
      exact if_pos (by omega)
  | case3 x =>
      have hx := x.toNat_lt
      rw [encode]
      generalize hn : x.toNat * 16 = n
      have h0 : n / 16 = x.toNat := by omega
      have hv0 : value (symbol (n / 64)) = some (n / 64) := value_symbol (by omega)
      have hv1 : value (symbol (n % 64)) = some (n % 64) := value_symbol (by omega)
      rw [decode, lastGroup, if_pos rfl, if_pos rfl, hv0, hv1]
      simp only [Option.bind_eq_bind, Option.bind_some, Nat.div_add_mod', h0, UInt8.ofNat_toNat]
      exact if_pos (by omega)
  | case4 => rfl

end TxSender.Lib.Base64
