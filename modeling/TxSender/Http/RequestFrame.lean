/-
# TxSender.Http.RequestFrame — the crate's own parser reads the crate's own requests.

`splice` and `bodyIfComplete` meet at `Response.WellFormed`: a frame is a header block that ends at
its first blank line and states, on its first content-length line, how many bytes follow. The header
block of a frame is a list of lines (`headLines`), and what can go wrong with it is said about those
lines: a line break inside one of the builder's strings, or a line that poses as the content length.
-/
import TxSender.Http.EnvelopeSlot
import TxSender.Http.Response

namespace TxSender.Http

open TxSender.Lib
open TxSender.Lib.Exec
open TxSender.Lib.Search (OccursAt find)

/-! ## Blocks of lines -/

/-- Lines, each with its line end. -/
def withCrlf (ls : List (List Char)) : List Char := ls.flatMap (· ++ ['\r', '\n'])

theorem withCrlf_cons (l : List Char) (ls : List (List Char)) :
    withCrlf (l :: ls) = l ++ '\r' :: '\n' :: withCrlf ls := by
  simp [withCrlf]

theorem withCrlf_append (ls ms : List (List Char)) :
    withCrlf (ls ++ ms) = withCrlf ls ++ withCrlf ms := List.flatMap_append

theorem lines_withCrlf {ls : List (List Char)} (h : ∀ l ∈ ls, '\n' ∉ l) (rest : List Char) :
    lines (withCrlf ls ++ rest) = ls ++ lines rest := by
  induction ls with
  | nil => rfl
  | cons l ls ih =>
      rw [withCrlf_cons, List.append_assoc, List.cons_append, List.cons_append,
        lines_crlf (h l (by simp)), ih fun m hm => h m (List.mem_cons_of_mem l hm), List.cons_append]

/-- One line does not contain the blank line, and neither does its end, when another line follows. -/
theorem not_occursAt_line {l rest : Bytes} (hl : 13 ∉ l) (hrest : rest.head? ≠ some 13) :
    ∀ i < (l ++ [13, 10]).length, ¬ OccursAt crlfcrlf ((l ++ [13, 10]) ++ rest) i := by
  intro i hi hocc
  obtain ⟨_, hat⟩ := Search.occursAt_iff_getElem?.mp hocc
  have hfirst := hat 0 (by decide)
  rw [Nat.add_zero, List.getElem?_append_left hi] at hfirst
  rw [List.length_append, List.length_cons, List.length_singleton] at hi
  rcases Nat.lt_or_ge i l.length with hin | hout
  · rw [List.getElem?_append_left hin] at hfirst
    exact hl (List.mem_of_getElem? hfirst)
  · rw [List.getElem?_append_right hout] at hfirst
    rcases (show i = l.length ∨ i = l.length + 1 by omega) with rfl | rfl
    · -- the third byte would be the first of the next line
      have hthird := hat 2 (by decide)
      rw [List.getElem?_append_right (by simp), List.length_append, List.length_cons,
        List.length_singleton, Nat.sub_self, ← List.head?_eq_getElem?] at hthird
      exact hrest hthird
    · rw [Nat.add_sub_cancel_left] at hfirst
      exact absurd hfirst (by decide)

theorem encodeUtf8_crlf (l rest : List Char) :
    encodeUtf8 (l ++ '\r' :: '\n' :: rest) = (encodeUtf8 l ++ [13, 10]) ++ encodeUtf8 rest := by
  rw [encodeUtf8_append, List.append_assoc]
  rfl

/-- The first blank line behind a block of lines is the one at its end. -/
theorem find_blank_line {l : List Char} {ls : List (List Char)}
    (h : ∀ m ∈ l :: ls, m ≠ [] ∧ '\r' ∉ m) :
    find crlfcrlf (encodeUtf8 (withCrlf (l :: ls) ++ ['\r', '\n'])) =
      some ((encodeUtf8 (withCrlf (l :: ls) ++ ['\r', '\n'])).length - 4) := by
  have hcr : ∀ {m : List Char}, '\r' ∉ m → (13 : UInt8) ∉ encodeUtf8 m :=
    fun hm => not_mem_encodeUtf8 (by decide) (by decide) hm
  induction ls generalizing l with
  | nil =>
      -- the last line: its end and the empty line after it are the terminator
      have hl := hcr (h l (by simp)).2
      have htext : encodeUtf8 (withCrlf [l] ++ ['\r', '\n']) = encodeUtf8 l ++ crlfcrlf := by
        rw [withCrlf_cons, List.append_assoc, encodeUtf8_append]
        rfl
      rw [htext, Search.find_append_left]
      · rw [show find crlfcrlf crlfcrlf = some 0 by decide, Option.map_some, List.length_append]
        rfl
      · intro i hi hocc
        obtain ⟨_, hat⟩ := Search.occursAt_iff_getElem?.mp hocc
        have hfirst := hat 0 (by decide)
        rw [Nat.add_zero, List.getElem?_append_left hi] at hfirst
        exact hl (List.mem_of_getElem? hfirst)
  | cons m ls ih =>
      have hih := ih fun k hk => h k (List.mem_cons_of_mem l hk)
      have hbound := Search.find_bound hih
      have hcr4 : crlfcrlf.length = 4 := rfl
      rw [withCrlf_cons, List.append_assoc, List.cons_append, List.cons_append, encodeUtf8_crlf,
        Search.find_append_left, hih, Option.map_some]
      · congr 1
        simp only [List.length_append]
        omega
      · apply not_occursAt_line (hcr (h l (by simp)).2)
        -- the next line starts with a character of its own
        obtain ⟨hne, hno⟩ := h m (by simp)
        obtain ⟨c, cs, rfl⟩ := List.exists_cons_of_ne_nil hne
        rw [withCrlf_cons, List.cons_append, List.cons_append, encodeUtf8_cons]
        intro hhead
        have hmem : (13 : UInt8) ∈ String.utf8EncodeChar c := by
          cases henc : String.utf8EncodeChar c with
          | nil =>
              have hlen := String.length_utf8EncodeChar c
              have hpos := c.utf8Size_pos
              rw [henc, List.length_nil] at hlen
              omega
          | cons b bs =>
              rw [henc] at hhead
              obtain rfl : b = 13 := by simpa using hhead
              simp
        exact hcr hno (List.mem_flatMap.mpr ⟨c, by simp, hmem⟩)

/-! ## The lines of a request -/

/-- No line break inside. -/
def OneLine (s : String) : Prop := '\r' ∉ s.toList ∧ '\n' ∉ s.toList

instance (s : String) : Decidable (OneLine s) := inferInstanceAs (Decidable (_ ∧ _))

namespace EnvelopeSpecBuilder

/-- The method, path, host, authentication and header strings of a builder. -/
def headStrings (b : EnvelopeSpecBuilder) : List String :=
  let auth := match b.auth with
    | .none => []
    | .header name value => [name, value]
    | .urlParam key value => [key, value]
    | .urlPath token => [token]
  [b.httpMethod, b.basePath, b.host] ++ auth ++ b.extraHeaders.flatMap fun h => [h.1, h.2]

def requestLine (b : EnvelopeSpecBuilder) : String := b.httpMethod ++ " " ++ b.path ++ " HTTP/1.1"

/-- The header lines the caller chooses the names of: authentication and extra headers. -/
def namedLines (b : EnvelopeSpecBuilder) : List String :=
  let auth := match b.auth with
    | .header name value => [name ++ ": " ++ value]
    | _ => []
  auth ++ b.extraHeaders.map fun h => h.1 ++ ": " ++ h.2

/-- All lines before the content-length line. -/
def headLines (b : EnvelopeSpecBuilder) : List String :=
  [b.requestLine, "Host: " ++ b.host, "Content-Type: application/json"] ++ b.namedLines

/-- The strings are single lines, and no line of the caller's poses as the content length. -/
structure PlainHead (b : EnvelopeSpecBuilder) : Prop where
  oneLine : ∀ s ∈ b.headStrings, OneLine s
  notLength : ∀ l ∈ b.requestLine :: b.namedLines, isClLine l.toList = false

theorem toList_head (b : EnvelopeSpecBuilder) :
    b.head.toList = withCrlf (b.headLines.map String.toList) := by
  have hextra : ∀ (hs : List (String × String)) (w : String),
      (hs.foldl (fun wire h => wire ++ headerLine h.1 h.2) w).toList =
        w.toList ++ withCrlf ((hs.map fun h => h.1 ++ ": " ++ h.2).map String.toList) := by
    intro hs
    induction hs with
    | nil => intro w; simp [withCrlf]
    | cons h hs ih =>
        intro w
        rw [List.foldl_cons, ih]
        simp [withCrlf, headerLine]
  unfold head
  simp only
  rw [hextra]
  unfold headLines namedLines requestLine
  cases b.auth <;> simp [withCrlf, headerLine]

/-- A line break in a line of the head would be one in a string of the builder. -/
theorem oneLine_headLines {b : EnvelopeSpecBuilder} (h : ∀ s ∈ b.headStrings, OneLine s) :
    ∀ l ∈ b.headLines, OneLine l := by
  have happ : ∀ {s t : String}, OneLine s → OneLine t → OneLine (s ++ t) := by
    intro s t hs ht
    simp only [OneLine, String.toList_append, List.mem_append, not_or]
    exact ⟨⟨hs.1, ht.1⟩, hs.2, ht.2⟩
  have hmem : ∀ s ∈ [b.httpMethod, b.basePath, b.host], OneLine s := by
    intro s hs
    apply h
    unfold headStrings
    rw [List.append_assoc]
    exact List.mem_append_left _ hs
  have hnamed : ∀ name value, OneLine name → OneLine value → OneLine (name ++ ": " ++ value) :=
    fun name value hn hv => happ (happ hn (by decide)) hv
  have hextra : ∀ x ∈ b.extraHeaders, OneLine x.1 ∧ OneLine x.2 := by
    intro x hx
    refine ⟨h _ ?_, h _ ?_⟩
    · exact List.mem_append_right _ (List.mem_flatMap.mpr ⟨x, hx, by simp⟩)
    · exact List.mem_append_right _ (List.mem_flatMap.mpr ⟨x, hx, by simp⟩)
  have hpath : OneLine b.path := by
    have hbase : OneLine b.basePath := hmem _ (by simp)
    unfold path
    cases ha : b.auth with
    | none => exact hbase
    | header name value => exact hbase
    | urlParam key value =>
        have hk : OneLine key := h key (by simp [headStrings, ha])
        have hv : OneLine value := h value (by simp [headStrings, ha])
        exact happ (happ (happ (happ hbase (by decide)) hk) (by decide)) hv
    | urlPath token =>
        have ht : OneLine token := h token (by simp [headStrings, ha])
        have htrim : OneLine (trimEndMatches b.basePath '/') := by
          unfold OneLine trimEndMatches
          rw [String.toList_ofList]
          exact ⟨fun hm => hbase.1 ((List.rdropWhile_prefix _ _).subset hm),
            fun hm => hbase.2 ((List.rdropWhile_prefix _ _).subset hm)⟩
        exact happ (happ htrim (by decide)) ht
  intro l hl
  unfold headLines namedLines at hl
  simp only [List.cons_append, List.nil_append, List.mem_cons, List.mem_append] at hl
  rcases hl with rfl | rfl | rfl | hl | hl
  · exact happ (happ (happ (hmem _ (by simp)) (by decide)) hpath) (by decide)
  · exact happ (by decide) (hmem _ (by simp))
  · exact (by decide)
  · cases ha : b.auth with
    | header name value =>
        rw [ha] at hl
        obtain rfl := List.mem_singleton.mp hl
        exact hnamed _ _ (h name (by simp [headStrings, ha])) (h value (by simp [headStrings, ha]))
    | none => rw [ha] at hl; cases hl
    | urlParam _ _ => rw [ha] at hl; cases hl
    | urlPath _ => rw [ha] at hl; cases hl
  · obtain ⟨x, hx, rfl⟩ := List.mem_map.mp hl
    exact hnamed _ _ (hextra x hx).1 (hextra x hx).2

theorem headLines_ne_nil (b : EnvelopeSpecBuilder) : ∀ l ∈ b.headLines, l.toList ≠ [] := by
  intro l hl
  unfold headLines namedLines requestLine at hl
  simp only [List.cons_append, List.nil_append, List.mem_cons, List.mem_append] at hl
  rcases hl with rfl | rfl | rfl | hl | hl
  · simp
  · simp
  · decide
  · cases ha : b.auth with
    | header name value =>
        rw [ha] at hl
        obtain rfl := List.mem_singleton.mp hl
        simp
    | none => rw [ha] at hl; cases hl
    | urlParam _ _ => rw [ha] at hl; cases hl
    | urlPath _ => rw [ha] at hl; cases hl
  · obtain ⟨x, _, rfl⟩ := List.mem_map.mp hl
    simp

theorem not_isClLine_host (host : String) : isClLine ("Host: " ++ host).toList = false := by
  rw [Bool.eq_false_iff]
  intro h
  have hlow : (encodeUtf8 (("Host: " ++ host).toList.take clPrefix.length)).map toAsciiLower =
      clPrefix.map toAsciiLower := by simpa [isClLine, eqIgnoreAsciiCase] using h
  have htake : ("Host: " ++ host).toList.take clPrefix.length =
      'H' :: ("ost: " ++ host).toList.take 14 := by
    rw [String.toList_append, String.toList_append, show clPrefix.length = 14 + 1 by decide]
    rfl
  rw [htake, encodeUtf8_cons, show String.utf8EncodeChar 'H' = [72] by decide] at hlow
  have hhead := congrArg List.head? hlow
  rw [List.singleton_append, List.map_cons, List.head?_cons] at hhead
  exact absurd hhead (by decide)

/-- No line of a plain head names the content length. -/
theorem PlainHead.not_isClLine {b : EnvelopeSpecBuilder} (h : b.PlainHead) :
    ∀ l ∈ b.headLines, isClLine l.toList = false := by
  intro l hl
  unfold headLines at hl
  simp only [List.cons_append, List.nil_append, List.mem_cons] at hl
  rcases hl with rfl | rfl | rfl | hl
  · exact h.notLength _ (by simp)
  · exact not_isClLine_host b.host
  · decide +kernel
  · exact h.notLength _ (by simp [hl])

end EnvelopeSpecBuilder

/-! ## The header block of a frame -/

/-- The content-length line, its number left-justified in the slot. -/
def lengthText (n : Nat) : List Char :=
  "Content-Length: ".toList ++ (Nat.toDigits 10 n ++ List.replicate (12 - (decimal n).length) ' ')

/-- The header block that states the length `n`. -/
def frameHeader (b : EnvelopeSpecBuilder) (n : Nat) : List Char :=
  withCrlf (b.headLines.map String.toList ++ [lengthText n]) ++ ['\r', '\n']

theorem encodeUtf8_lengthText (n : Nat) :
    encodeUtf8 (lengthText n) = utf8 "Content-Length: " ++ clField 12 n := by
  have hspaces : ∀ k, encodeUtf8 (List.replicate k ' ') = List.replicate k space := by
    intro k
    induction k with
    | zero => rfl
    | succ k ih => rw [List.replicate_succ, encodeUtf8_cons, ih]; rfl
  unfold lengthText clField
  rw [encodeUtf8_append, encodeUtf8_append, hspaces, ← Nat.toList_repr]
  rfl

theorem encodeUtf8_frameHeader (b : EnvelopeSpecBuilder) (n : Nat) :
    encodeUtf8 (frameHeader b n) = b.front ++ (clField 12 n ++ crlfcrlf) := by
  unfold frameHeader EnvelopeSpecBuilder.front
  rw [withCrlf_append, ← b.toList_head, withCrlf_cons, encodeUtf8_append, encodeUtf8_append,
    encodeUtf8_crlf, encodeUtf8_lengthText]
  simp only [List.append_assoc]
  rfl

theorem isClLine_lengthText (n : Nat) : isClLine (lengthText n) = true := by
  have htake : (lengthText n).take clPrefix.length = "Content-Length:".toList := by
    unfold lengthText
    rw [List.take_append_of_le_length (by decide)]
    decide
  unfold isClLine
  rw [htake]
  decide +kernel

theorem lengthText_oneLine (n : Nat) : '\r' ∉ lengthText n ∧ '\n' ∉ lengthText n := by
  have hchars : ∀ c ∈ lengthText n, c ∈ "Content-Length: ".toList ∨ c.isDigit = true ∨ c = ' ' := by
    intro c hc
    unfold lengthText at hc
    rw [List.mem_append, List.mem_append] at hc
    rcases hc with hc | hc | hc
    · exact Or.inl hc
    · exact Or.inr (Or.inl (Nat.isDigit_of_mem_toDigits (by omega) (by omega) hc))
    · exact Or.inr (Or.inr (List.eq_of_mem_replicate hc))
  exact ⟨fun hc => absurd (hchars _ hc) (by decide), fun hc => absurd (hchars _ hc) (by decide)⟩

/-- Every line of the header block is there, and none contains a line break. -/
theorem frameHeader_lines {b : EnvelopeSpecBuilder} (h : ∀ s ∈ b.headStrings, OneLine s) (n : Nat) :
    ∀ l ∈ b.headLines.map String.toList ++ [lengthText n], l ≠ [] ∧ '\r' ∉ l ∧ '\n' ∉ l := by
  intro l hl
  rcases List.mem_append.mp hl with hl | hl
  · obtain ⟨s, hs, rfl⟩ := List.mem_map.mp hl
    exact ⟨b.headLines_ne_nil s hs, EnvelopeSpecBuilder.oneLine_headLines h s hs⟩
  · obtain rfl := List.mem_singleton.mp hl
    refine ⟨?_, lengthText_oneLine n⟩
    unfold lengthText
    simp

/-- The scan passes over the head and reads the number back. -/
theorem contentLengthValue_frameHeader {b : EnvelopeSpecBuilder} (h : b.PlainHead) {n : Nat}
    (hn : n < 2 ^ 64) :
    (contentLengthValue (lines (frameHeader b n))).bind parseUsize = some n := by
  have hnl : ∀ l ∈ b.headLines.map String.toList ++ [lengthText n], '\n' ∉ l :=
    fun l hl => (frameHeader_lines h.oneLine n l hl).2.2
  have hskip : (b.headLines.map String.toList).find? isClLine = none := by
    rw [List.find?_eq_none]
    intro l hl
    obtain ⟨s, hs, rfl⟩ := List.mem_map.mp hl
    rw [h.not_isClLine s hs]
    decide
  have hdrop : (lengthText n).drop clPrefix.length =
      [' '] ++ (Nat.toDigits 10 n ++ List.replicate (12 - (decimal n).length) ' ') := by
    unfold lengthText
    rw [List.drop_append_of_le_length (by decide)]
    rfl
  unfold frameHeader contentLengthValue
  rw [lines_withCrlf hnl, List.append_assoc, List.find?_append, hskip, Option.none_or,
    List.singleton_append, List.find?_cons_of_pos (isClLine_lengthText n), Option.map_some, hdrop,
    trim_padded, Option.bind_some, parseUsize_toDigits hn]
  · exact List.forall_mem_singleton.mpr (by decide)
  · intro c hc
    rw [List.eq_of_mem_replicate hc]
    decide
  · intro c hc
    exact isWhitespace_of_isDigit (Nat.isDigit_of_mem_toDigits (by omega) (by omega) hc)
  · exact Nat.toDigits_ne_nil

/-- A frame, read as a message with a header and a body. -/
def frameMessage (b : EnvelopeSpecBuilder) (body : Bytes) : Response where
  header := b.front ++ (clField 12 body.length ++ crlfcrlf)
  body := body

theorem find_frameHeader {b : EnvelopeSpecBuilder} (h : ∀ s ∈ b.headStrings, OneLine s) (n : Nat) :
    find crlfcrlf (b.front ++ (clField 12 n ++ crlfcrlf)) =
      some ((b.front ++ (clField 12 n ++ crlfcrlf)).length - 4) := by
  rw [← encodeUtf8_frameHeader]
  apply find_blank_line
  intro l hl
  exact ⟨(frameHeader_lines h n l hl).1, (frameHeader_lines h n l hl).2.1⟩

theorem frameMessage_wellFormed {b : EnvelopeSpecBuilder} (h : b.PlainHead) {body : Bytes}
    (hn : body.length < 2 ^ 64) : (frameMessage b body).WellFormed :=
  ⟨find_frameHeader h.oneLine body.length, frameHeader b body.length,
    (encodeUtf8_frameHeader b body.length).symm, contentLengthValue_frameHeader h hn⟩

/-! ## Calls on one template -/

/-- A call changes nothing but the output buffer. -/
theorem EnvelopeTemplate.splice_out {t t' : EnvelopeTemplate} {tx : Bytes}
    {r : Except EnvelopeError Bytes} (h : t.splice tx = .ok (t', r)) :
    ∃ out, t' = { t with out } := by
  unfold EnvelopeTemplate.splice at h
  split at h
  · obtain ⟨rfl, _⟩ := Prod.mk.inj (Except.ok.inj h)
    exact ⟨t.out, rfl⟩
  · obtain ⟨out, _, h⟩ := bind_eq_ok.mp h
    split at h
    · unfold EnvelopeTemplate.patch at h
      obtain ⟨_, _, h⟩ := bind_eq_ok.mp h
      obtain ⟨_, _, h⟩ := bind_eq_ok.mp h
      split at h
      · obtain ⟨rfl, _⟩ := Prod.mk.inj (Except.ok.inj h)
        exact ⟨_, rfl⟩
      · obtain ⟨_, _, h⟩ := bind_eq_ok.mp h
        obtain ⟨_, _, h⟩ := bind_eq_ok.mp h
        obtain ⟨rfl, _⟩ := Prod.mk.inj (Except.ok.inj h)
        exact ⟨_, rfl⟩
    · obtain ⟨rfl, _⟩ := Prod.mk.inj (Except.ok.inj h)
      exact ⟨_, rfl⟩

theorem EnvelopeTemplate.spliceAll_out {t t' : EnvelopeTemplate} {txs : List Bytes}
    {rs : List (Except EnvelopeError Bytes)} (h : t.spliceAll txs = .ok (t', rs)) :
    ∃ out, t' = { t with out } := by
  induction txs generalizing t rs with
  | nil =>
      obtain ⟨rfl, _⟩ := Prod.mk.inj (Except.ok.inj h)
      exact ⟨t.out, rfl⟩
  | cons tx txs ih =>
      unfold EnvelopeTemplate.spliceAll at h
      obtain ⟨⟨t1, r⟩, h1, h⟩ := bind_eq_ok.mp h
      obtain ⟨⟨t2, rs'⟩, h2, h⟩ := bind_eq_ok.mp h
      obtain ⟨rfl, _⟩ := Prod.mk.inj (Except.ok.inj h)
      obtain ⟨_, rfl⟩ := EnvelopeTemplate.splice_out h1
      obtain ⟨out, rfl⟩ := ih h2
      exact ⟨out, rfl⟩

/-- **Request frames decode with the crate's own parser.** On a template compiled from a builder
with a plain head and the sentinel in its body template, after any earlier calls: the frame of every
accepted transaction parses to the body template with the sentinel replaced by the base64 of the
transaction, and no proper beginning of the frame parses to anything. -/
theorem frame_decodes (b : EnvelopeSpecBuilder) (t₀ t t' : EnvelopeTemplate) (txs : List Bytes)
    (rs : List (Except EnvelopeError Bytes)) (tx frame : Bytes) (hhead : b.PlainHead)
    (hbody : ∃ i, OccursAt bodySentinel (utf8 b.bodyTpl) i) (hc : b.build.compile = .ok (.ok t₀))
    (hrun : t₀.spliceAll txs = .ok (t, rs)) (hs : t.splice tx = .ok (t', .ok frame)) :
    bodyIfComplete frame = .ok (some (fillBody (utf8 b.bodyTpl) (Base64.encode tx))) ∧
      ∀ p q, frame = p ++ q → q ≠ [] → bodyIfComplete p = .ok none := by
  obtain ⟨_, bp, bq, htpl, _⟩ := hbody
  obtain ⟨_, hunique, slot, _, hslots₀⟩ := EnvelopeSpecBuilder.slots_of_compile htpl hc
  obtain ⟨out, rfl⟩ := EnvelopeTemplate.spliceAll_out hrun
  have hslots : Slots { t₀ with out } b.front (crlfcrlf ++ bp) slot bq :=
    ⟨hslots₀.buf, hslots₀.bodyOff, hslots₀.bodyMax, hslots₀.clOff, hslots₀.clWidth, hslots₀.start⟩
  obtain ⟨sep, n, hstart, hn, heq, hfind, hlen⟩ := hslots.splice_ok hs
  have hstart32 := (compile_fresh hc).2
  set body := bp ++ (Base64.encode tx ++ bq) with hbodydef
  have hfill : fillBody (utf8 b.bodyTpl) (Base64.encode tx) = body := by
    rw [htpl]
    apply fillBody_of_unique
    intro i hocc
    rw [← htpl] at hocc
    have hin : OccursAt bodySentinel b.build.bytes
        ((b.front ++ (clSentinel ++ crlfcrlf)).length + i) := by
      have := hocc.append_left (b.front ++ (clSentinel ++ crlfcrlf))
      rwa [List.append_assoc, List.append_assoc, ← b.wire_split] at this
    have hwhere := (findUnique_eq_some_iff.mp hunique).2 _ hin
    simp only [List.length_append] at hwhere
    omega
  have hframe : frame = (b.front ++ (clField 12 n ++ crlfcrlf)) ++ body := by
    rw [heq, hbodydef]
    simp
  -- the header block ends where the recorded offset says, so the number is the body's length
  have hends := find_frameHeader hhead.oneLine n
  have hbound := Search.find_bound hends
  have hcr : crlfcrlf.length = 4 := rfl
  have hsep : sep = (b.front ++ (clField 12 n ++ crlfcrlf)).length - 4 := by
    have := Search.find_append_right hends body
    rw [← hframe, hfind] at this
    exact Option.some.inj this
  have hnlen : n = body.length := by
    rw [hframe, List.length_append] at hlen
    omega
  subst hnlen
  have hmsg : frame = (frameMessage b body).bytes := hframe
  have hshort : (frameMessage b body).bytes.length < 2 ^ 64 := by
    rw [← hmsg, hframe, List.length_append]
    have : t₀.httpBodyStart = sep + 4 := hstart
    omega
  have hwf := frameMessage_wellFormed hhead (show body.length < 2 ^ 64 by omega)
  refine ⟨?_, fun p q hpq hq => ?_⟩
  · rw [hfill, hmsg]
    have hfull := hwf.bodyIfComplete_full hshort []
    rwa [List.append_nil] at hfull
  · exact hwf.bodyIfComplete_partial hshort (hmsg.symm.trans hpq) hq

/-- A frame of the bare template, with a four-byte payload. -/
def bareFrame (payload : String) : Bytes :=
  utf8 "POST / HTTP/1.1\r\nHost: h\r\nContent-Type: application/json\r\n" ++
    utf8 ("Content-Length: 4           \r\n\r\n" ++ payload)

/-- The second of two frames of the bare template. -/
theorem frame_decodes_bare :
    bodyIfComplete (bareFrame "AQI=") = .ok (some (utf8 "AQI=")) ∧
      ∀ p q, bareFrame "AQI=" = p ++ q → q ≠ [] → bodyIfComplete p = .ok none := by
  have hfill : fillBody (utf8 bareBuilder.bodyTpl) (Base64.encode [1, 2]) = utf8 "AQI=" := by
    decide +kernel
  rw [← hfill]
  exact frame_decodes bareBuilder bareTemplate { bareTemplate with out := bareFrame "Bw==" }
    { bareTemplate with out := bareFrame "AQI=" } [[7]] [.ok (bareFrame "Bw==")] [1, 2]
    (bareFrame "AQI=") ⟨by decide, by decide +kernel⟩ ⟨0, by decide⟩ compile_bareBuilder
    (by decide +kernel) (by decide +kernel)

end TxSender.Http
