/-
# TxSender.Http.EnvelopeSlot — where `splice` writes the content length.

`compile` records the content-length offset for the widened template: a slot that stands behind the
body sentinel has moved by the whole padding. `splice` writes a frame without that padding and uses
the recorded offset all the same. So the digits land in the slot exactly when the body sentinel
stands behind it, which for a builder means in the body template (`splice_exact_iff`).
-/
import TxSender.Http.EnvelopeFrame

namespace TxSender.Http

open TxSender.Lib
open TxSender.Lib.Exec
open TxSender.Lib.Search (OccursAt find find_eq_some_iff)

/-! ## What a patch can do -/

/-- The loop writes the canonical decimal whenever it returns. -/
theorem digitLoop_eq_ok {pos n : Nat} {digits r : Bytes} (h : digitLoop pos n digits = .ok r) :
    r = decimal n ++ digits := by
  induction pos generalizing n digits with
  | zero => cases h
  | succ pos ih =>
      unfold digitLoop at h
      simp only at h
      split at h
      · have hn : n < 10 := by omega
        obtain rfl := Except.ok.inj h
        rw [decimal_of_lt hn, Nat.mod_eq_of_lt hn]
        rfl
      · rw [ih h, decimal_of_ge (show 10 ≤ n by omega), List.append_assoc]
        rfl

/-- Both outcomes of a patch that returns: the number is too long for the slot, or the frame is as
it was up to the recorded offset. -/
theorem EnvelopeTemplate.patch_ok_inv {t t' : EnvelopeTemplate} {out : Bytes} {clOff : Nat}
    {r : Except EnvelopeError Bytes} (h : t.patch out clOff = .ok (t', r)) :
    (t.clWidth < (decimal (out.length - t.httpBodyStart)).length ∧
        r = .error (.contentLengthOverflow (out.length - t.httpBodyStart) t.clWidth)) ∨
      (decimal (out.length - t.httpBodyStart)).length ≤ t.clWidth ∧
        ∃ frame, r = .ok frame ∧ clOff ≤ out.length ∧ frame.length = out.length ∧
          frame.take clOff = out.take clOff := by
  unfold EnvelopeTemplate.patch at h
  obtain ⟨n, hn, h⟩ := bind_eq_ok.mp h
  obtain ⟨digits, hd, h⟩ := bind_eq_ok.mp h
  obtain rfl : n = out.length - t.httpBodyStart := by
    unfold subUsize at hn
    split at hn
    · exact (Except.ok.inj hn).symm
    · cases hn
  have hdig := digitLoop_eq_ok hd
  rw [List.append_nil] at hdig
  rw [hdig] at h
  split at h
  · rename_i hlong
    simp only [pure_eq_ok, Except.ok.injEq, Prod.mk.injEq] at h
    exact Or.inl ⟨hlong, h.2.symm⟩
  · rename_i hshort
    obtain ⟨out1, h1, h⟩ := bind_eq_ok.mp h
    obtain ⟨out2, h2, h⟩ := bind_eq_ok.mp h
    simp only [pure_eq_ok, Except.ok.injEq, Prod.mk.injEq] at h
    obtain ⟨hle, hlen1, htake1⟩ := overwrite_take h1
    obtain ⟨hlen2, htake2⟩ := fill_take h2
    refine Or.inr ⟨by omega, _, h.2.symm, by omega, ?_, ?_⟩
    · rw [List.length_take, hlen2, hlen1, Nat.min_self]
    · have hcut := congrArg (List.take clOff) htake2
      rw [List.take_take, List.take_take, Nat.min_eq_left (by omega)] at hcut
      rw [List.take_take, Nat.min_eq_left (by omega), hcut, htake1]

/-- Every frame a template with its slots in order hands out. -/
theorem Slots.splice_ok {t t' : EnvelopeTemplate} {pre mid slot post tx frame : Bytes}
    (h : Slots t pre mid slot post) (hs : t.splice tx = .ok (t', .ok frame)) :
    ∃ sep n, t.httpBodyStart = sep + 4 ∧ n < 10 ^ 12 ∧
      frame = pre ++ (clField 12 n ++ (mid ++ (Base64.encode tx ++ post))) ∧
      find crlfcrlf frame = some sep ∧ frame.length - (sep + 4) = n := by
  have hasm : t.assemble tx = .ok (pre ++ (clSentinel ++ (mid ++ (Base64.encode tx ++ post)))) := by
    have := @EnvelopeTemplate.assemble_eq t (pre ++ (clSentinel ++ mid)) slot post
      (by rw [h.buf]; simp) h.bodyOff h.bodyMax tx
    rw [this]
    simp
  have hcalls := hs
  unfold EnvelopeTemplate.splice at hs
  split at hs
  · cases hs
  · rename_i hfit
    rw [hasm, ok_bind, h.clOff] at hs
    simp only at hs
    -- the patch succeeded, so the number has at most twelve digits
    rcases EnvelopeTemplate.patch_ok_inv hs with ⟨_, hover⟩ | ⟨hdig, _⟩
    · cases hover
    · have hlt : (pre ++ (clSentinel ++ (mid ++ (Base64.encode tx ++ post)))).length -
          t.httpBodyStart < 10 ^ 12 := by
        have hcls : clSentinel.length = 12 := by decide
        rw [h.clWidth, hcls] at hdig
        exact lt_of_lt_of_le (lt_pow_length_decimal _) (Nat.pow_le_pow_right (by omega) hdig)
      obtain ⟨sep, hstart, hsplice, hfind, hlen⟩ := h.splice_frame (by omega) rfl hlt
      rw [hsplice] at hcalls
      obtain rfl := Except.ok.inj (Prod.mk.inj (Except.ok.inj hcalls)).2
      exact ⟨sep, _, hstart, hlt, rfl, hfind, hlen⟩

/-! ## The slot of a frame -/

/-- `text` with its first body sentinel, if it has one, replaced by `payload`. -/
def fillBody (text payload : Bytes) : Bytes :=
  match find bodySentinel text with
  | none => text
  | some i => text.take i ++ (payload ++ text.drop (i + bodySentinel.length))

/-- The content-length slot of a frame: the twelve bytes behind `Content-Length: `, wherever the
payload in front of them has moved them. -/
def contentLengthSlot (b : EnvelopeSpecBuilder) (tx frame : Bytes) : Bytes :=
  (frame.drop (fillBody b.front (Base64.encode tx)).length).take clSentinel.length

/-- The slot holds the number of bytes after the frame's first blank line. -/
def ExactLength (b : EnvelopeSpecBuilder) (tx frame : Bytes) : Prop :=
  ∃ sep, find crlfcrlf frame = some sep ∧
    contentLengthSlot b tx frame = clField clSentinel.length (frame.length - (sep + 4))

/-- Every call returns, and every frame states its own length. -/
def SafeToSplice (b : EnvelopeSpecBuilder) (t : EnvelopeTemplate) : Prop :=
  ∀ tx, ∃ t' r, t.splice tx = .ok (t', r) ∧ ∀ frame, r = .ok frame → ExactLength b tx frame

theorem fillBody_of_absent {text payload : Bytes} (h : ∀ i, ¬ OccursAt bodySentinel text i) :
    fillBody text payload = text := by
  unfold fillBody
  rw [Search.find_eq_none_iff.mpr h]

theorem fillBody_of_unique {pre post payload : Bytes}
    (h : ∀ i, OccursAt bodySentinel (pre ++ (bodySentinel ++ post)) i → i = pre.length) :
    fillBody (pre ++ (bodySentinel ++ post)) payload = pre ++ (payload ++ post) := by
  have hfind : find bodySentinel (pre ++ (bodySentinel ++ post)) = some pre.length := by
    refine find_eq_some_iff.mpr ⟨⟨pre, post, rfl, rfl⟩, fun j hj hocc => ?_⟩
    rw [h j hocc] at hj
    exact Nat.lt_irrefl _ hj
  unfold fillBody
  rw [hfind]
  simp only
  rw [List.take_left, ← List.drop_drop, List.drop_left, List.drop_left]

/-! ## The sentinel in the body template -/

/-- A sentinel in the body template stands nowhere else, so the slot has not moved. -/
theorem safeToSplice_of_body {b : EnvelopeSpecBuilder} {t : EnvelopeTemplate}
    (hbody : ∃ i, OccursAt bodySentinel (utf8 b.bodyTpl) i) (hlen : b.paddedLen < 2 ^ 32)
    (hc : b.build.compile = .ok (.ok t)) : SafeToSplice b t := by
  obtain ⟨_, bp, bq, htpl, _⟩ := hbody
  obtain ⟨_, hunique, slot, _, hslots⟩ := EnvelopeSpecBuilder.slots_of_compile htpl hc
  obtain ⟨_, _, hlay⟩ := EnvelopeSpecBuilder.layout_front htpl hlen hc
  have hfill : ∀ payload, fillBody b.front payload = b.front := by
    intro payload
    apply fillBody_of_absent
    intro i hocc
    have hbound := hocc.bound
    have hpos : 0 < bodySentinel.length := by decide
    have hwhere := (findUnique_eq_some_iff.mp hunique).2 i (by
      rw [b.wire_split]
      exact hocc.append_right _)
    rw [List.length_append] at hwhere
    omega
  intro tx
  obtain ⟨t', r, hr, -, -⟩ := hlay.splice_result tx
  refine ⟨t', r, hr, fun frame hframe => ?_⟩
  rw [hframe] at hr
  obtain ⟨sep, n, -, hn, heq, hfind, hlen⟩ := hslots.splice_ok hr
  have hcls : clSentinel.length = 12 := by decide
  have hfield : (clField 12 n).length = 12 := length_clField (length_decimal_le (by omega) hn)
  refine ⟨sep, hfind, ?_⟩
  unfold contentLengthSlot
  rw [hfill, hlen, hcls, heq, List.drop_left, List.take_append_of_le_length (by omega),
    List.take_of_length_le (by omega)]

/-! ## The sentinel in the header block -/

/-- The bytes between the head of a request and its body template. -/
def lengthLine : Bytes := utf8 "Content-Length: " ++ (clSentinel ++ crlfcrlf)

theorem lengthLine_first : lengthLine[0]? = some 67 ∧ 67 ∉ bodySentinel := by decide

/-- An angle bracket of the content-length line is never followed by a `B` two places on. -/
theorem lengthLine_brackets : ∀ j < lengthLine.length, lengthLine[j]? = some 60 →
    j + 2 < lengthLine.length ∧ lengthLine[j + 2]? ≠ some 66 := by decide +kernel

/-- A sentinel of the built bytes lies in the head or in the body template: it can neither reach
into the content-length line nor start there. -/
theorem EnvelopeSpecBuilder.sentinel_cases {b : EnvelopeSpecBuilder} {i : Nat}
    (h : OccursAt bodySentinel b.build.bytes i) :
    OccursAt bodySentinel (utf8 b.head) i ∨ ∃ j, OccursAt bodySentinel (utf8 b.bodyTpl) j := by
  have hbytes : b.build.bytes = utf8 b.head ++ (lengthLine ++ utf8 b.bodyTpl) := by
    rw [b.wire_split]
    simp [EnvelopeSpecBuilder.front, lengthLine]
  have h8 : bodySentinel.length = 8 := by decide
  rw [hbytes] at h
  obtain ⟨_, hat⟩ := Search.occursAt_iff_getElem?.mp h
  rcases Nat.lt_or_ge (utf8 b.head).length (i + 8) with hover | hin
  · right
    rcases Nat.lt_or_ge i (utf8 b.head).length with hbefore | hafter
    · -- it would contain the `C` of the content-length line
      exfalso
      have hC := hat ((utf8 b.head).length - i) (by omega)
      rw [show i + ((utf8 b.head).length - i) = (utf8 b.head).length by omega,
        List.getElem?_append_right (le_refl _), Nat.sub_self,
        List.getElem?_append_left (by decide), lengthLine_first.1] at hC
      exact lengthLine_first.2 (List.mem_of_getElem? hC.symm)
    · rcases Nat.lt_or_ge (i - (utf8 b.head).length) lengthLine.length with hline | hbody
      · -- it would start at a bracket of the line, and a `B` would have to follow
        exfalso
        have hopen := hat 0 (by omega)
        have hB := hat 2 (by omega)
        rw [Nat.add_zero, List.getElem?_append_right hafter, List.getElem?_append_left hline] at hopen
        obtain ⟨hroom, hne⟩ := lengthLine_brackets _ hline (by rw [hopen]; decide)
        rw [List.getElem?_append_right (by omega), Nat.sub_add_comm hafter,
          List.getElem?_append_left hroom] at hB
        exact hne (by rw [hB]; decide)
      · refine ⟨i - (utf8 b.head).length - lengthLine.length, ?_⟩
        rw [Search.occursAt_iff_getElem?]
        refine ⟨?_, fun k hk => ?_⟩
        · have := h.bound
          simp only [List.length_append] at this
          omega
        · rw [← hat k hk, List.getElem?_append_right (by omega),
            List.getElem?_append_right (by omega)]
          congr 1
          omega
  · exact Or.inl (h.of_append_right (by omega))

theorem bracket_not_mem_clField (width n : Nat) : 60 ∉ clField width n := by
  intro hmem
  rcases List.mem_append.mp hmem with hd | hs
  · obtain ⟨d, hd10, heq⟩ := mem_decimal hd
    have : digitByte d ≠ 60 := by interval_cases d <;> decide
    exact this heq.symm
  · exact absurd (List.eq_of_mem_replicate hs) (by decide)

/-- What `compile` makes of a builder with the sentinel in its head, between `h1` and `h3`. The length
field is recorded where it stands in the padded template, `b.maxBody - 8` bytes further on. -/
structure HeadLayout (b : EnvelopeSpecBuilder) (t : EnvelopeTemplate) (h1 h3 slot rest : Bytes) :
    Prop where
  front : b.front = h1 ++ (bodySentinel ++ h3)
  bytes : b.build.bytes = h1 ++ (bodySentinel ++ (h3 ++ (clSentinel ++ rest)))
  unique : ∀ j, OccursAt bodySentinel b.build.bytes j → j = h1.length
  fits : bodySentinel.length ≤ b.maxBody
  buf : t.buf = h1 ++ (slot ++ (h3 ++ (clSentinel ++ rest)))
  bodyOff : t.bodyOff = h1.length
  bodyMax : t.bodyMax = slot.length
  clOff : t.clOff = some (b.front.length + (b.maxBody - 8))
  clWidth : t.clWidth = clSentinel.length

theorem headLayout_of_compile {b : EnvelopeSpecBuilder} {t : EnvelopeTemplate} {i : Nat}
    (hhead : OccursAt bodySentinel (utf8 b.head) i) (hc : b.build.compile = .ok (.ok t)) :
    ∃ h1 h3 slot rest, HeadLayout b t h1 h3 slot rest := by
  obtain ⟨h1, h2, hsplit, rfl⟩ := hhead
  obtain ⟨bodyOff, clOff, slot, hcomp⟩ := compile_ok_inv rfl hc
  have h8 : bodySentinel.length = 8 := by decide
  set h3 := h2 ++ utf8 "Content-Length: " with hh3
  set rest := crlfcrlf ++ utf8 b.bodyTpl with hrest
  have hfront : b.front = h1 ++ (bodySentinel ++ h3) := by
    unfold EnvelopeSpecBuilder.front
    rw [hsplit, hh3]
    simp
  have hbytes : b.build.bytes = h1 ++ (bodySentinel ++ (h3 ++ (clSentinel ++ rest))) := by
    rw [b.wire_split, hfront]
    simp [hrest]
  have hbo : h1.length = bodyOff :=
    (findUnique_eq_some_iff.mp hcomp.body).2 _ ⟨h1, _, hbytes, rfl⟩
  have hcl : b.front.length = clOff :=
    (findUnique_eq_some_iff.mp hcomp.length).2 _ ⟨b.front, _, b.wire_split, rfl⟩
  refine ⟨h1, h3, slot, rest, hfront, hbytes, fun j hj => ?_, hcomp.fits, ?_,
    hcomp.bodyOff_eq.trans hbo.symm, hcomp.bodyMax_eq.trans hcomp.slotLength.symm, ?_,
    hcomp.clWidth_eq⟩
  · rw [(findUnique_eq_some_iff.mp hcomp.body).2 j hj, hbo]
  · rw [hcomp.buf, show b.build.body.sentinel = bodySentinel from rfl, ← hbo, hbytes, List.take_left,
      ← List.drop_drop, List.drop_left, List.drop_left]
  · have hflen : b.front.length = h1.length + (8 + h3.length) := by
      rw [hfront, List.length_append, List.length_append, h8]
    rw [hcomp.clOff_eq, ← hcl, if_pos]
    · rfl
    · show bodyOff + bodySentinel.length ≤ _
      omega

/-- A sentinel in the head: the recorded offset points behind the slot of the frame, whose first
byte is still the bracket of the sentinel. -/
theorem not_safeToSplice_of_head {b : EnvelopeSpecBuilder} {t : EnvelopeTemplate} {i : Nat}
    (hhead : OccursAt bodySentinel (utf8 b.head) i) (hlen : b.paddedLen < 2 ^ 32)
    (hc : b.build.compile = .ok (.ok t)) : ¬ SafeToSplice b t := by
  intro hsafe
  obtain ⟨h1, h3, slot, rest, hlay⟩ := headLayout_of_compile hhead hc
  have h8 : bodySentinel.length = 8 := by decide
  have hcls : clSentinel.length = 12 := by decide
  have hfits := hlay.fits
  have hflen : b.front.length = h1.length + (8 + h3.length) := by
    rw [hlay.front, List.length_append, List.length_append, h8]
  -- the frame of the empty transaction, before it is patched
  have hasm := EnvelopeTemplate.assemble_eq hlay.buf hlay.bodyOff hlay.bodyMax []
  rw [show Base64.encode [] = [] from rfl, List.nil_append] at hasm
  obtain ⟨t', r, hr, hexact⟩ := hsafe []
  unfold EnvelopeTemplate.splice at hr
  rw [if_neg (by rw [show needed [] = 0 from rfl]; omega), hasm, ok_bind, hlay.clOff] at hr
  simp only at hr
  rcases EnvelopeTemplate.patch_ok_inv hr with ⟨hlong, _⟩ | ⟨_, frame, rfl, hle, _, htake⟩
  · have hshort : (decimal ((h1 ++ (h3 ++ (clSentinel ++ rest))).length - t.httpBodyStart)).length ≤
        12 := by
      apply length_decimal_le (by omega)
      unfold EnvelopeSpecBuilder.paddedLen at hlen
      rw [hlay.bytes] at hlen
      simp only [List.length_append] at hlen ⊢
      omega
    rw [hlay.clWidth] at hlong
    exact absurd hshort (Nat.not_le.mpr hlong)
  · obtain ⟨sep, _, hslot⟩ := hexact frame rfl
    have hfill : fillBody b.front (Base64.encode []) = h1 ++ h3 := by
      rw [hlay.front, fillBody_of_unique]
      · rfl
      · intro j hj
        apply hlay.unique
        rw [b.wire_split, hlay.front]
        exact hj.append_right _
    have hbracket : frame[(h1 ++ h3).length]? = some 60 := by
      have hcut := congrArg (·[(h1 ++ h3).length]?) htake
      rw [List.getElem?_take_of_lt (by rw [List.length_append]; omega),
        List.getElem?_take_of_lt (by rw [List.length_append]; omega)] at hcut
      rw [hcut, ← List.append_assoc h1, List.getElem?_append_right (le_refl _), Nat.sub_self,
        List.getElem?_append_left (by omega)]
      decide
    refine bracket_not_mem_clField clSentinel.length (frame.length - (sep + 4)) ?_
    rw [← hslot]
    unfold contentLengthSlot
    rw [hfill]
    apply List.mem_of_getElem? (i := 0)
    rw [List.getElem?_take_of_lt (by omega), List.getElem?_drop, Nat.add_zero, hbracket]

/-- **Safe to splice exactly when the sentinel is in the body template.** In any other place that
`compile` accepts, the empty transaction already shows it: the call panics, or it returns a frame
whose slot still reads `<<CL>>`. -/
theorem splice_exact_iff (b : EnvelopeSpecBuilder) (t : EnvelopeTemplate)
    (hlen : b.paddedLen < 2 ^ 32) (hc : b.build.compile = .ok (.ok t)) :
    SafeToSplice b t ↔ ∃ i, OccursAt bodySentinel (utf8 b.bodyTpl) i := by
  constructor
  · intro hsafe
    obtain ⟨bodyOff, _, _, hcomp⟩ := compile_ok_inv rfl hc
    rcases EnvelopeSpecBuilder.sentinel_cases (findUnique_eq_some_iff.mp hcomp.body).1 with hh | hb
    · exact absurd hsafe (not_safeToSplice_of_head hh hlen hc)
    · exact hb
  · intro hbody
    exact safeToSplice_of_body hbody hlen hc

/-- A builder whose path holds the sentinel. -/
def pathBuilder : EnvelopeSpecBuilder :=
  (EnvelopeSpecBuilder.sendTransaction "/<<BODY>>" "h" 16).bodyTemplate ""

/-- What `compile` makes of it. -/
def pathTemplate : EnvelopeTemplate where
  buf := utf8 "POST /                 HTTP/1.1\r\nHost: h\r\nContent-Type: application/json\r\n" ++
    utf8 "Content-Length: <<CL>>      \r\n\r\n"
  out := []
  bodyOff := 6
  bodyMax := 16
  clOff := some 90
  clWidth := 12
  httpBodyStart := 106

/-- The sentinel in the path: the first frame already underflows. -/
theorem splice_panics_on_path :
    pathBuilder.paddedLen < 2 ^ 32 ∧ pathBuilder.build.compile = .ok (.ok pathTemplate) ∧
      pathTemplate.splice [] = .error .panic ∧ ¬ SafeToSplice pathBuilder pathTemplate := by
  have hpanic : pathTemplate.splice [] = .error .panic := by decide +kernel
  refine ⟨by decide +kernel, by decide +kernel, hpanic, fun hsafe => ?_⟩
  obtain ⟨_, _, hr, _⟩ := hsafe []
  rw [hpanic] at hr
  cases hr

theorem splice_exact_iff_bare : SafeToSplice bareBuilder bareTemplate :=
  (splice_exact_iff bareBuilder bareTemplate paddedLen_bareBuilder compile_bareBuilder).mpr
    ⟨0, by decide⟩

end TxSender.Http
