/-
# TxSender.Http.Response — well-formed responses and what `bodyIfComplete` makes of them.

`contentLengthValue` is the header scan read on characters; `findContentLength_eq` shows that the
octet scan of the source is that function, and so never cuts off a character boundary. On a
well-formed response the scan then finds nothing while a byte is missing
(`bodyIfComplete_partial`) and exactly the body once all are there, whatever follows
(`bodyIfComplete_full`).
-/
import TxSender.Http.Engine

namespace TxSender.Http

open TxSender.Lib
open TxSender.Lib.Exec
open TxSender.Lib.Search (find)

/-! ## The header scan on characters -/

/-- A header line that names the content length, in any letter case. -/
def isClLine (l : List Char) : Bool :=
  eqIgnoreAsciiCase (encodeUtf8 (l.take clPrefix.length)) clPrefix

/-- The trimmed value of the first content-length line. -/
def contentLengthValue (ls : List (List Char)) : Option (List Char) :=
  (ls.find? isClLine).map fun l => trim (l.drop clPrefix.length)

theorem toAsciiLower_lt {b : UInt8} (h : toAsciiLower b < 128) : b < 128 := by
  unfold toAsciiLower at h
  split at h
  · rename_i hup
    exact UInt8.lt_of_le_of_lt hup.2 (by decide)
  · exact h

/-- Octets that fold to an ASCII pattern are ASCII. -/
theorem ascii_of_eqIgnoreAsciiCase {a p : Bytes} (h : eqIgnoreAsciiCase a p = true)
    (hp : ∀ b ∈ p.map toAsciiLower, b < 128) : ∀ b ∈ a, b < 128 := by
  intro b hb
  have heq : a.map toAsciiLower = p.map toAsciiLower := by simpa [eqIgnoreAsciiCase] using h
  exact toAsciiLower_lt (hp _ (heq ▸ List.mem_map_of_mem hb))

theorem length_of_eqIgnoreAsciiCase {a p : Bytes} (h : eqIgnoreAsciiCase a p = true) :
    a.length = p.length := by
  have heq : a.map toAsciiLower = p.map toAsciiLower := by simpa [eqIgnoreAsciiCase] using h
  simpa using congrArg List.length heq

theorem clPrefix_ascii : ∀ b ∈ clPrefix.map toAsciiLower, b < 128 := by decide +kernel

/-- The octet test of the source and the character test agree, and a line that passes can be cut
behind the prefix. -/
theorem isClLine_iff (l : List Char) :
    (encodeUtf8 l).length ≥ clPrefix.length ∧
        eqIgnoreAsciiCase ((encodeUtf8 l).take clPrefix.length) clPrefix = true ↔
      isClLine l = true := by
  constructor
  · rintro ⟨hlen, heq⟩
    have hcut := strFrom_of_ascii hlen (ascii_of_eqIgnoreAsciiCase heq clPrefix_ascii)
    unfold isClLine
    rw [hcut.2]
    exact heq
  · intro h
    unfold isClLine at h
    have hsplit : encodeUtf8 l =
        encodeUtf8 (l.take clPrefix.length) ++ encodeUtf8 (l.drop clPrefix.length) := by
      rw [← encodeUtf8_append, List.take_append_drop]
    have hlen := length_of_eqIgnoreAsciiCase h
    rw [hsplit]
    refine ⟨by rw [List.length_append]; omega, ?_⟩
    rw [List.take_append_of_le_length (by omega), List.take_of_length_le (by omega)]
    exact h

theorem strFrom_clLine {l : List Char} (h : isClLine l = true) :
    strFrom l clPrefix.length = .ok (l.drop clPrefix.length) := by
  obtain ⟨hlen, heq⟩ := (isClLine_iff l).mpr h
  exact (strFrom_of_ascii hlen (ascii_of_eqIgnoreAsciiCase heq clPrefix_ascii)).1

/-- The scan of the source returns, and returns the character reading. -/
theorem findContentLength_eq (ls : List (List Char)) :
    findContentLength ls = .ok (contentLengthValue ls) := by
  induction ls with
  | nil => rfl
  | cons l ls ih =>
      by_cases h : isClLine l = true
      · have hpos := (isClLine_iff l).mpr h
        unfold findContentLength contentLengthValue
        simp only [hpos, and_self, if_true, strFrom_clLine h, ok_bind, pure_eq_ok, List.find?_cons_of_pos h,
          Option.map_some]
      · have hneg := fun hc => h ((isClLine_iff l).mp hc)
        have hskip : contentLengthValue (l :: ls) = contentLengthValue ls := by
          unfold contentLengthValue
          rw [List.find?_cons_of_neg h]
        rw [hskip, ← ih]
        unfold findContentLength
        simp only
        rw [if_neg hneg]
        cases ls <;> rfl

/-! ## Well-formed responses -/

structure Response where
  header : Bytes
  body : Bytes

/-- The octets of a response. -/
def Response.bytes (r : Response) : Bytes := r.header ++ r.body

/-- The header block ends at its first blank line, is UTF-8, and its content length is the length of
the body. -/
structure Response.WellFormed (r : Response) : Prop where
  ends : find crlfcrlf r.header = some (r.header.length - 4)
  text : ∃ cs, r.header = encodeUtf8 cs ∧
    (contentLengthValue (lines cs)).bind parseUsize = some r.body.length

namespace Response.WellFormed

variable {r : Response}

theorem four_le (h : r.WellFormed) : 4 ≤ r.header.length := by
  have hb := Search.find_bound h.ends
  have : crlfcrlf.length = 4 := rfl
  omega

theorem bytes_pos (h : r.WellFormed) : 0 < r.bytes.length := by
  have := h.four_le
  unfold Response.bytes
  rw [List.length_append]
  omega

/-- Once the header block is there, the rest of the test compares lengths only. -/
theorem bodyIfComplete_header (h : r.WellFormed) (rest : Bytes)
    (hshort : r.header.length + r.body.length < 2 ^ 64) :
    bodyIfComplete (r.header ++ rest) =
      .ok (if r.body.length ≤ rest.length then some (rest.take r.body.length) else none) := by
  obtain ⟨cs, hcs, hlen⟩ := h.text
  have hfour := h.four_le
  have hend : r.header.length - 4 + 4 = r.header.length := by omega
  unfold bodyIfComplete
  simp only [Search.find_append_right h.ends rest, hend, List.take_left]
  rw [hcs, decodeUtf8_encodeUtf8, ← hcs]
  simp only [findContentLength_eq, ok_bind, hlen, addUsize_ok hshort, List.length_append]
  by_cases hfull : r.body.length ≤ rest.length
  · rw [if_pos (by omega), if_pos hfull, slice_ok (by omega) (by simp; omega), List.drop_left,
      Nat.add_sub_cancel_left]
    rfl
  · rw [if_neg (by omega), if_neg hfull]
    rfl

/-- A complete response is handed out, whatever follows it. -/
theorem bodyIfComplete_full (h : r.WellFormed) (hshort : r.bytes.length < 2 ^ 64) (rest : Bytes) :
    bodyIfComplete (r.bytes ++ rest) = .ok (some r.body) := by
  unfold Response.bytes at hshort ⊢
  rw [List.length_append] at hshort
  rw [List.append_assoc, h.bodyIfComplete_header (r.body ++ rest) hshort, if_pos (by simp),
    List.take_left]

/-- While a byte is missing nothing is handed out. -/
theorem bodyIfComplete_partial (h : r.WellFormed) (hshort : r.bytes.length < 2 ^ 64) {p q : Bytes}
    (hp : r.bytes = p ++ q) (hq : q ≠ []) : bodyIfComplete p = .ok none := by
  cases hf : find crlfcrlf p with
  | none => simp [bodyIfComplete, hf]
  | some sep =>
      -- a terminator inside `p` is the one that ends the header block
      have hsep := Search.find_append_right hf q
      rw [← hp] at hsep
      unfold Response.bytes at hsep hshort hp
      rw [Search.find_append_right h.ends r.body, Option.some.injEq] at hsep
      have hfour := h.four_le
      have hb := Search.find_bound hf
      have hcr : crlfcrlf.length = 4 := rfl
      obtain ⟨s, rfl⟩ : ∃ s, p = r.header ++ s := by
        obtain ⟨s, hs⟩ := List.prefix_of_prefix_length_le ⟨r.body, hp⟩ ⟨q, rfl⟩
          (show r.header.length ≤ p.length by omega)
        exact ⟨s, hs.symm⟩
      rw [List.append_assoc] at hp
      have hbody : r.body = s ++ q := List.append_cancel_left hp
      have hqpos : 0 < q.length := List.length_pos_iff.mpr hq
      rw [List.length_append] at hshort
      rw [h.bodyIfComplete_header s hshort, if_neg (by rw [hbody, List.length_append]; omega)]

end Response.WellFormed

end TxSender.Http
