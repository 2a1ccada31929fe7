/-
# TxSender.Http.EnvelopeFrame — what `splice` puts on the wire.

Three sets of offsets meet here: sentinel offsets in the built template, the same offsets in the
template widened by `compile`, and positions in the shorter frame `splice` writes. The first are
unique occurrences (`findUnique_eq_some_iff`); `compile_ok_inv` maps them into the widened template;
`splice_eq` reads a frame off a template whose content-length slot stands before its body slot.

`spliceAll_frames` puts them together for every builder input whose body template holds the body
sentinel, over every sequence of calls on one compiled template.
-/
import TxSender.Http.Envelope

namespace TxSender.Http

open TxSender.Lib
open TxSender.Lib.Exec
open TxSender.Lib.Search (OccursAt find find_eq_some_iff)

/-! ## The sentinel scan -/

theorem window_iff_occursAt {h n : Bytes} {i : Nat} (hb : i + n.length ≤ h.length) :
    (h.drop i).take n.length = n ↔ OccursAt n h i := by
  rw [Search.occursAt_iff_window]
  exact ⟨fun hw => ⟨hb, hw⟩, fun hw => hw.2⟩

/-- With an occurrence already found below `i`, the scan returns it unless there is another one
from `i` on. -/
theorem findUniqueFrom_some {h n : Bytes} {fuel i k r : Nat} (hf : h.length < i + fuel) :
    findUniqueFrom h n fuel i (some k) = some r ↔ r = k ∧ ∀ j, i ≤ j → ¬ OccursAt n h j := by
  induction fuel generalizing i with
  | zero =>
      have hnone : ∀ j, i ≤ j → ¬ OccursAt n h j := by
        intro j hj hocc
        have := hocc.bound
        omega
      simp only [findUniqueFrom, Option.some.injEq]
      exact ⟨fun hk => ⟨hk.symm, hnone⟩, fun hk => hk.1.symm⟩
  | succ fuel ih =>
      by_cases hb : i + n.length ≤ h.length
      · by_cases hw : OccursAt n h i
        · simp only [findUniqueFrom, hb, (window_iff_occursAt hb).mpr hw, if_true, Option.isSome_some,
            reduceCtorEq, false_iff, not_and, not_forall, not_not]
          exact fun _ => ⟨i, le_refl i, hw⟩
        · have hw' : ¬ (h.drop i).take n.length = n := fun hc => hw ((window_iff_occursAt hb).mp hc)
          simp only [findUniqueFrom, hb, hw', if_true, if_false]
          rw [ih (by omega)]
          refine and_congr_right fun _ => ?_
          constructor
          · intro hall j hj
            rcases Nat.lt_or_ge i j with hlt | hge
            · exact hall j hlt
            · rw [show j = i by omega]
              exact hw
          · intro hall j hj
            exact hall j (by omega)
      · have hnone : ∀ j, i ≤ j → ¬ OccursAt n h j := by
          intro j hj hocc
          have := hocc.bound
          omega
        simp only [findUniqueFrom, hb, if_false, Option.some.injEq]
        exact ⟨fun hk => ⟨hk.symm, hnone⟩, fun hk => hk.1.symm⟩

/-- With nothing found below `i`, the scan returns the only occurrence from `i` on. -/
theorem findUniqueFrom_none {h n : Bytes} {fuel i r : Nat} (hf : h.length < i + fuel) :
    findUniqueFrom h n fuel i none = some r ↔
      i ≤ r ∧ OccursAt n h r ∧ ∀ j, i ≤ j → OccursAt n h j → j = r := by
  induction fuel generalizing i with
  | zero =>
      simp only [findUniqueFrom, reduceCtorEq, false_iff]
      rintro ⟨hi, hocc, _⟩
      have := hocc.bound
      omega
  | succ fuel ih =>
      by_cases hb : i + n.length ≤ h.length
      · by_cases hw : OccursAt n h i
        · simp only [findUniqueFrom, hb, (window_iff_occursAt hb).mpr hw, if_true,
            Option.isSome_none, Bool.false_eq_true, if_false]
          rw [findUniqueFrom_some (by omega)]
          constructor
          · rintro ⟨rfl, hall⟩
            refine ⟨le_refl r, hw, fun j hj hocc => ?_⟩
            by_contra hne
            exact hall j (by omega) hocc
          · rintro ⟨hir, hocc, huniq⟩
            have hri : i = r := huniq i (le_refl i) hw
            refine ⟨hri.symm, fun j hj hj' => ?_⟩
            have := huniq j (by omega) hj'
            omega
        · have hw' : ¬ (h.drop i).take n.length = n := fun hc => hw ((window_iff_occursAt hb).mp hc)
          simp only [findUniqueFrom, hb, hw', if_true, if_false]
          rw [ih (by omega)]
          constructor
          · rintro ⟨hir, hocc, huniq⟩
            refine ⟨by omega, hocc, fun j hj hj' => ?_⟩
            rcases Nat.lt_or_ge i j with hlt | hge
            · exact huniq j hlt hj'
            · exact absurd ((show j = i by omega) ▸ hj') hw
          · rintro ⟨hir, hocc, huniq⟩
            refine ⟨?_, hocc, fun j hj => huniq j (by omega)⟩
            by_contra hlt
            exact hw ((show r = i by omega) ▸ hocc)
      · simp only [findUniqueFrom, hb, if_false, reduceCtorEq, false_iff]
        rintro ⟨hi, hocc, _⟩
        have := hocc.bound
        omega

/-- `findUnique` returns the only occurrence. -/
theorem findUnique_eq_some_iff {h n : Bytes} {i : Nat} :
    findUnique h n = some i ↔ OccursAt n h i ∧ ∀ j, OccursAt n h j → j = i := by
  unfold findUnique
  rw [findUniqueFrom_none (by omega)]
  constructor
  · rintro ⟨_, hocc, huniq⟩
    exact ⟨hocc, fun j => huniq j (Nat.zero_le j)⟩
  · rintro ⟨hocc, huniq⟩
    exact ⟨Nat.zero_le i, hocc, fun j _ => huniq j⟩

/-! ## The digit loop and the content-length field -/

/-- The loop writes the canonical decimal, given a scratch digit for each of its digits. -/
theorem digitLoop_eq {pos n : Nat} (hpos : 0 < pos) (h : n < 10 ^ pos) (digits : Bytes) :
    digitLoop pos n digits = .ok (decimal n ++ digits) := by
  induction pos generalizing n digits with
  | zero => omega
  | succ pos ih =>
      unfold digitLoop
      by_cases hn : n < 10
      · have hmod : n % 10 = n := Nat.mod_eq_of_lt hn
        rw [if_pos (by omega), decimal_of_lt hn, hmod]
        rfl
      · have hpos' : 0 < pos := by
          rcases Nat.eq_zero_or_pos pos with rfl | hp
          · simp at h
            omega
          · exact hp
        have hge : decimal n = decimal (n / 10) ++ [digitByte (n % 10)] := decimal_of_ge (by omega)
        rw [if_neg (by omega), ih hpos' (by rw [pow_succ] at h; omega), hge, List.append_assoc]
        rfl

/-- The content-length field: the canonical decimal, left-justified and space-padded. -/
def clField (width n : Nat) : Bytes := decimal n ++ List.replicate (width - (decimal n).length) space

theorem length_clField {width n : Nat} (h : (decimal n).length ≤ width) :
    (clField width n).length = width := by
  unfold clField
  rw [List.length_append, List.length_replicate]
  omega

/-- No byte of the field can be part of a header terminator. -/
theorem clField_disjoint (width n : Nat) : ∀ a ∈ crlfcrlf, a ∉ clField width n := by
  intro a ha hmem
  rcases List.mem_append.mp hmem with hd | hs
  · obtain ⟨d, hd10, rfl⟩ := mem_decimal hd
    have : digitByte d ≠ 13 ∧ digitByte d ≠ 10 := by interval_cases d <;> decide
    simp [crlfcrlf, this.1, this.2] at ha
  · rw [List.eq_of_mem_replicate hs] at ha
    exact absurd ha (by decide)

/-! ## One splice -/

namespace EnvelopeTemplate

/-- The frame before patching: the template with the body slot replaced. -/
theorem assemble_eq {t : EnvelopeTemplate} {front slot back : Bytes}
    (hbuf : t.buf = front ++ (slot ++ back)) (hoff : t.bodyOff = front.length)
    (hmax : t.bodyMax = slot.length) (tx : Bytes) :
    t.assemble tx = .ok (front ++ (Base64.encode tx ++ back)) := by
  have hfront : sliceTo t.buf t.bodyOff = .ok front := by
    rw [hbuf, hoff, sliceTo_ok (by simp), List.take_left]
  have hback : sliceFrom t.buf (t.bodyOff + t.bodyMax) = .ok back := by
    rw [hbuf, hoff, hmax, sliceFrom_ok (by simp), ← List.drop_drop, List.drop_left, List.drop_left]
  have henc : overwrite (front ++ List.replicate (needed tx) 0) front.length (Base64.encode tx) =
      .ok (front ++ Base64.encode tx) := by
    have := overwrite_block front (List.replicate (needed tx) 0) (Base64.encode tx) []
      (by rw [Base64.length_encode, List.length_replicate]; rfl)
    simpa using this
  unfold assemble
  rw [hfront]
  simp only [ok_bind, henc, hback, pure_eq_ok]
  rw [List.take_of_length_le (by simp)]
  simp

/-- Patching the field of a frame whose slot is `slot`, at a known position. -/
theorem patch_eq {t : EnvelopeTemplate} {pre slot rest : Bytes} {n : Nat}
    (hw : t.clWidth = slot.length) (hstart : t.httpBodyStart ≤ (pre ++ (slot ++ rest)).length)
    (hn : n = (pre ++ (slot ++ rest)).length - t.httpBodyStart) (hlt : n < 10 ^ 12)
    (hwidth : 12 ≤ slot.length) :
    t.patch (pre ++ (slot ++ rest)) pre.length =
      .ok ({ t with out := pre ++ (clField slot.length n ++ rest) },
        .ok (pre ++ (clField slot.length n ++ rest))) := by
  have hdig : (decimal n).length ≤ slot.length :=
    le_trans (length_decimal_le (by omega) hlt) hwidth
  -- the slot splits into the part the digits overwrite and the part the spaces fill
  obtain ⟨s1, s2, rfl, hs1⟩ : ∃ s1 s2, slot = s1 ++ s2 ∧ s1.length = (decimal n).length :=
    ⟨slot.take (decimal n).length, slot.drop (decimal n).length, (List.take_append_drop _ _).symm,
      by rw [List.length_take]; omega⟩
  have hover : overwrite (pre ++ ((s1 ++ s2) ++ rest)) pre.length (decimal n) =
      .ok (pre ++ (decimal n ++ (s2 ++ rest))) := by
    rw [List.append_assoc s1 s2 rest]
    exact overwrite_block pre s1 (decimal n) (s2 ++ rest) hs1.symm
  have hfill : fill (pre ++ (decimal n ++ (s2 ++ rest))) (pre.length + (decimal n).length)
      (pre.length + (s1 ++ s2).length) space =
      .ok (pre ++ (clField (s1 ++ s2).length n ++ rest)) := by
    have := fill_block (pre ++ decimal n) s2 rest space
    rw [List.length_append, List.append_assoc] at this
    rw [List.length_append, hs1, ← Nat.add_assoc, this]
    unfold clField
    rw [Nat.add_sub_cancel_left]
    simp
  simp only [patch, subUsize_ok hstart, ok_bind]
  rw [← hn, digitLoop_eq (by omega) (lt_trans hlt (by norm_num))]
  simp only [ok_bind, List.append_nil, hw]
  rw [if_neg (by omega), hover]
  simp only [ok_bind, hfill, pure_eq_ok]
  have hsame : (pre ++ (clField (s1 ++ s2).length n ++ rest)).length ≤
      (pre ++ ((s1 ++ s2) ++ rest)).length := by
    rw [List.length_append, List.length_append, length_clField hdig]
    simp only [List.length_append, le_refl]
  rw [List.take_of_length_le hsame]

/-- A splice on a template whose content-length slot stands before its body slot. -/
theorem splice_eq {t : EnvelopeTemplate} {pre clSlot mid bodySlot post tx : Bytes} {n : Nat}
    (hbuf : t.buf = pre ++ (clSlot ++ (mid ++ (bodySlot ++ post))))
    (hoff : t.bodyOff = (pre ++ (clSlot ++ mid)).length) (hmax : t.bodyMax = bodySlot.length)
    (hcl : t.clOff = some pre.length) (hw : t.clWidth = clSlot.length)
    (hwidth : 12 ≤ clSlot.length) (hstart : t.httpBodyStart ≤ t.bodyOff)
    (hn : n = (pre ++ (clSlot ++ (mid ++ (Base64.encode tx ++ post)))).length - t.httpBodyStart)
    (hlt : n < 10 ^ 12) (hfit : needed tx ≤ t.bodyMax) :
    t.splice tx =
      .ok ({ t with out := pre ++ (clField clSlot.length n ++ (mid ++ (Base64.encode tx ++ post))) },
        .ok (pre ++ (clField clSlot.length n ++ (mid ++ (Base64.encode tx ++ post))))) := by
  have hasm : t.assemble tx = .ok (pre ++ (clSlot ++ (mid ++ (Base64.encode tx ++ post)))) := by
    have := @assemble_eq t (pre ++ (clSlot ++ mid)) bodySlot post (by rw [hbuf]; simp) hoff hmax tx
    rw [this]
    simp
  have hstart' : t.httpBodyStart ≤ (pre ++ (clSlot ++ (mid ++ (Base64.encode tx ++ post)))).length := by
    simp only [List.length_append] at hoff ⊢
    omega
  rw [← patch_eq hw hstart' hn hlt hwidth]
  unfold splice
  rw [if_neg (by omega), hasm]
  simp only [ok_bind, hcl]

end EnvelopeTemplate

/-! ## Compilation -/

/-- What a compiled template records about its spec: the unique sentinel offsets, the body slot
widened to `maxLen`, the content-length offset moved with it, and the end of the header block. -/
structure Compiled (spec : EnvelopeSpec) (cl : ContentLengthSpec) (t : EnvelopeTemplate)
    (bodyOff clOff : Nat) (slot : Bytes) : Prop where
  fits : spec.body.sentinel.length ≤ spec.body.maxLen
  body : findUnique spec.bytes spec.body.sentinel = some bodyOff
  length : findUnique spec.bytes cl.sentinel = some clOff
  slotLength : slot.length = spec.body.maxLen
  buf : t.buf = spec.bytes.take bodyOff ++
    (slot ++ spec.bytes.drop (bodyOff + spec.body.sentinel.length))
  bodyOff_eq : t.bodyOff = bodyOff
  bodyMax_eq : t.bodyMax = spec.body.maxLen
  clOff_eq : t.clOff = some (if bodyOff + spec.body.sentinel.length ≤ clOff
    then clOff + (spec.body.maxLen - spec.body.sentinel.length) else clOff)
  clWidth_eq : t.clWidth = cl.width
  start : ∃ sep, find crlfcrlf t.buf = some sep ∧ t.httpBodyStart = sep + 4

theorem toU32_eq_ok {n m : Nat} (h : toU32 n = .ok m) : m = n := by
  unfold toU32 at h
  split at h
  · exact (Except.ok.inj h).symm
  · exact absurd h (by simp)

theorem shiftOff_eq_ok {off threshold delta m : Nat} (h : shiftOff off threshold delta = .ok m) :
    m = if threshold ≤ off then off + delta else off := by
  unfold shiftOff at h
  split at h
  · rename_i hge
    rw [if_pos hge]
    exact toU32_eq_ok h
  · rename_i hlt
    rw [if_neg hlt]
    exact (Except.ok.inj h).symm

/-- Both branches of the padding step leave a slot of `maxLen` bytes at the sentinel's offset. -/
theorem padBody_eq_ok {spec : EnvelopeSpec} {bodyOff off : Nat} {padded : Bytes × Option Nat}
    (hfits : spec.body.sentinel.length ≤ spec.body.maxLen)
    (hocc : OccursAt spec.body.sentinel spec.bytes bodyOff)
    (h : spec.padBody bodyOff (some off) = .ok padded) :
    ∃ slot : Bytes, slot.length = spec.body.maxLen ∧
      padded.1 = spec.bytes.take bodyOff ++
        (slot ++ spec.bytes.drop (bodyOff + spec.body.sentinel.length)) ∧
      padded.2 = some (if bodyOff + spec.body.sentinel.length ≤ off
        then off + (spec.body.maxLen - spec.body.sentinel.length) else off) := by
  have hbound := hocc.bound
  unfold EnvelopeSpec.padBody at h
  simp only at h
  split at h
  · rw [sliceTo_ok (by omega), ok_bind, sliceFrom_ok (by omega), ok_bind] at h
    obtain ⟨delta, hdelta, hrest⟩ := bind_eq_ok.mp h
    obtain ⟨thr, hthr, hrest'⟩ := bind_eq_ok.mp hrest
    obtain ⟨clOff, hmove, hret⟩ := bind_eq_ok.mp hrest'
    obtain ⟨m, hm, hclOff⟩ := bind_eq_ok.mp hmove
    obtain rfl := Except.ok.inj hret
    refine ⟨List.replicate spec.body.maxLen space, by simp, rfl, ?_⟩
    rw [← toU32_eq_ok hdelta, ← toU32_eq_ok hthr, ← shiftOff_eq_ok hm]
    exact (Except.ok.inj hclOff).symm
  · rename_i hle
    have hfull : spec.body.maxLen = spec.body.sentinel.length := by omega
    obtain rfl := Except.ok.inj h
    obtain ⟨pre, post, hsplit, rfl⟩ := hocc
    refine ⟨spec.body.sentinel, hfull.symm, ?_, ?_⟩
    · rw [hsplit, List.take_left, ← List.drop_drop, List.drop_left, List.drop_left]
    · rw [hfull]
      simp

/-- A successful `compile` ends in `compileAt`, whatever it found. -/
theorem compileAt_of_compile {spec : EnvelopeSpec} {t : EnvelopeTemplate}
    (h : spec.compile = .ok (.ok t)) :
    ∃ bodyOff clOff width, spec.compileAt bodyOff clOff width = .ok (.ok t) := by
  unfold EnvelopeSpec.compile at h
  simp only at h
  split at h
  · cases h
  · split at h
    · cases h
    · split at h
      · exact ⟨_, _, _, h⟩
      · split at h
        · cases h
        · obtain ⟨_, _, h⟩ := bind_eq_ok.mp h
          exact ⟨_, _, _, h⟩

/-- What every compiled template has in common: nothing in `out` yet, and the end of the header block
as a 32-bit offset. -/
theorem compile_fresh {spec : EnvelopeSpec} {t : EnvelopeTemplate}
    (h : spec.compile = .ok (.ok t)) : t.out = [] ∧ t.httpBodyStart < 2 ^ 32 := by
  obtain ⟨_, _, _, h⟩ := compileAt_of_compile h
  obtain ⟨_, _, h⟩ := bind_eq_ok.mp h
  obtain ⟨_, _, h⟩ := bind_eq_ok.mp h
  obtain ⟨_, _, h⟩ := bind_eq_ok.mp h
  split at h
  · cases h
  · obtain ⟨start, hstart, h⟩ := bind_eq_ok.mp h
    obtain rfl := Except.ok.inj (Except.ok.inj h)
    refine ⟨rfl, ?_⟩
    unfold toU32 at hstart
    split at hstart
    · rename_i hlt
      obtain rfl := Except.ok.inj hstart
      exact hlt
    · cases hstart

/-- Everything a successful `compile` establishes, for a spec with a content-length slot. -/
theorem compile_ok_inv {spec : EnvelopeSpec} {cl : ContentLengthSpec} {t : EnvelopeTemplate}
    (hcl : spec.contentLength = some cl) (h : spec.compile = .ok (.ok t)) :
    ∃ bodyOff clOff slot, Compiled spec cl t bodyOff clOff slot := by
  unfold EnvelopeSpec.compile at h
  simp only [hcl] at h
  split at h
  · exact absurd h (by simp)
  rename_i hfits
  cases hbody : findUnique spec.bytes spec.body.sentinel with
  | none => simp [hbody] at h
  | some bodyOff =>
      cases hlen : findUnique spec.bytes cl.sentinel with
      | none => simp [hbody, hlen] at h
      | some clOff =>
          simp only [hbody, hlen] at h
          obtain ⟨off, hoff, h⟩ := bind_eq_ok.mp h
          obtain ⟨padded, hpad, h⟩ := bind_eq_ok.mp h
          obtain ⟨bodyMax, hmax, h⟩ := bind_eq_ok.mp h
          obtain ⟨bodyOff', hboff, h⟩ := bind_eq_ok.mp h
          rw [toU32_eq_ok hoff] at hpad
          obtain ⟨slot, hslot, hbuf, hclOff⟩ := padBody_eq_ok (by omega)
            (findUnique_eq_some_iff.mp hbody).1 hpad
          cases hsep : find crlfcrlf padded.1 with
          | none => simp [hsep] at h
          | some sep =>
              simp only [hsep] at h
              obtain ⟨start, hstart, h⟩ := bind_eq_ok.mp h
              obtain rfl := Except.ok.inj (Except.ok.inj h)
              exact ⟨bodyOff, clOff, slot, by omega, hbody, hlen, hslot, hbuf, toU32_eq_ok hboff,
                toU32_eq_ok hmax, hclOff, rfl, sep, hsep, toU32_eq_ok hstart⟩

/-! ## Frames of a builder's template -/

/-- A template of any size in which the content-length slot stands before the body slot. -/
structure Slots (t : EnvelopeTemplate) (pre mid slot post : Bytes) : Prop where
  buf : t.buf = pre ++ (clSentinel ++ (mid ++ (slot ++ post)))
  bodyOff : t.bodyOff = (pre ++ (clSentinel ++ mid)).length
  bodyMax : t.bodyMax = slot.length
  clOff : t.clOff = some pre.length
  clWidth : t.clWidth = clSentinel.length
  start : ∃ sep, find crlfcrlf (pre ++ (clSentinel ++ mid)) = some sep ∧ t.httpBodyStart = sep + 4

/-- Such a template, short enough for offsets of 32 bits. -/
structure Layout (t : EnvelopeTemplate) (pre mid slot post : Bytes) : Prop extends
    Slots t pre mid slot post where
  short : t.buf.length < 2 ^ 32

/-- What one call must return: an error exactly when the encoded transaction does not fit, else the
built bytes with the body sentinel replaced by the base64 of the transaction and the
content-length sentinel by the number of frame bytes after the frame's first blank line. -/
def FrameResult (maxBody : Nat) (pre mid post tx : Bytes) (r : Except EnvelopeError Bytes) : Prop :=
  if maxBody < 4 * ((tx.length + 2) / 3) then
    r = .error (.bodyTooLarge (4 * ((tx.length + 2) / 3)) maxBody)
  else
    ∃ frame sep, r = .ok frame ∧ find crlfcrlf frame = some sep ∧
      frame = pre ++ (clField 12 (frame.length - (sep + 4)) ++ (mid ++ (Base64.encode tx ++ post)))

/-- The frame of a transaction that fits, when its length fits the field. Replacing the sentinel by
digits does not move the first blank line, so the patched number is the length behind it. -/
theorem Slots.splice_frame {t : EnvelopeTemplate} {pre mid slot post tx : Bytes} {n : Nat}
    (h : Slots t pre mid slot post) (hfit : needed tx ≤ t.bodyMax)
    (hn : n = (pre ++ (clSentinel ++ (mid ++ (Base64.encode tx ++ post)))).length - t.httpBodyStart)
    (hlt : n < 10 ^ 12) :
    ∃ sep, t.httpBodyStart = sep + 4 ∧
      t.splice tx =
        .ok ({ t with out := pre ++ (clField 12 n ++ (mid ++ (Base64.encode tx ++ post))) },
          .ok (pre ++ (clField 12 n ++ (mid ++ (Base64.encode tx ++ post))))) ∧
      find crlfcrlf (pre ++ (clField 12 n ++ (mid ++ (Base64.encode tx ++ post)))) = some sep ∧
      (pre ++ (clField 12 n ++ (mid ++ (Base64.encode tx ++ post)))).length - (sep + 4) = n := by
  obtain ⟨sep, hsep, hstart⟩ := h.start
  have hsepb := Search.find_bound hsep
  have hcr : crlfcrlf.length = 4 := rfl
  have hcls : clSentinel.length = 12 := by decide
  have hdig : (decimal n).length ≤ 12 := length_decimal_le (by omega) hlt
  have hsplice := EnvelopeTemplate.splice_eq h.buf h.bodyOff h.bodyMax h.clOff h.clWidth (by omega)
    (by rw [hstart, h.bodyOff]; omega) hn hlt hfit
  rw [hcls] at hsplice
  have hfront : find crlfcrlf (pre ++ (clField 12 n ++ mid)) = some sep := by
    rw [← hsep]
    apply Search.find_replace_block
    · rw [length_clField hdig, hcls]
    · exact clField_disjoint 12 n
    · decide +kernel
  have hfind := Search.find_append_right hfront (Base64.encode tx ++ post)
  simp only [List.append_assoc] at hfind
  refine ⟨sep, hstart, hsplice, hfind, ?_⟩
  have hfield := length_clField hdig
  simp only [List.length_append] at hn ⊢
  omega

/-- One call on a laid-out template, whatever earlier calls left in its output buffer. -/
theorem Layout.splice_result {t : EnvelopeTemplate} {pre mid slot post : Bytes}
    (h : Layout t pre mid slot post) (tx : Bytes) :
    ∃ t' r, t.splice tx = .ok (t', r) ∧ Layout t' pre mid slot post ∧
      FrameResult slot.length pre mid post tx r := by
  have hmul : needed tx = 4 * ((tx.length + 2) / 3) := Nat.mul_comm _ _
  have hmax := h.bodyMax
  by_cases hfit : needed tx ≤ t.bodyMax
  · -- the frame is no longer than the template, so its length fits the field
    have hlt : (pre ++ (clSentinel ++ (mid ++ (Base64.encode tx ++ post)))).length -
        t.httpBodyStart < 10 ^ 12 := by
      have henc : (Base64.encode tx).length = needed tx := Base64.length_encode tx
      have hshort := h.short
      rw [h.buf] at hshort
      simp only [List.length_append] at hshort ⊢
      omega
    obtain ⟨sep, -, hsplice, hfind, hlen⟩ := h.toSlots.splice_frame hfit rfl hlt
    refine ⟨_, _, hsplice, ⟨⟨h.buf, h.bodyOff, hmax, h.clOff, h.clWidth, h.start⟩, h.short⟩, ?_⟩
    unfold FrameResult
    rw [if_neg (by omega)]
    exact ⟨_, sep, rfl, hfind, by rw [hlen]⟩
  · have hbig : t.splice tx = .ok (t, .error (.bodyTooLarge (needed tx) t.bodyMax)) := by
      unfold EnvelopeTemplate.splice
      rw [if_pos (by omega)]
    refine ⟨_, _, hbig, h, ?_⟩
    unfold FrameResult
    rw [if_pos (by omega), hmul, h.bodyMax]

/-- Every sequence of calls: each result is the one its own transaction asks for, and the template is
laid out as before. -/
theorem Layout.spliceAll_results {t : EnvelopeTemplate} {pre mid slot post : Bytes}
    (h : Layout t pre mid slot post) (txs : List Bytes) :
    ∃ t' rs, t.spliceAll txs = .ok (t', rs) ∧ Layout t' pre mid slot post ∧
      List.Forall₂ (FrameResult slot.length pre mid post) txs rs := by
  induction txs generalizing t with
  | nil => exact ⟨t, [], rfl, h, .nil⟩
  | cons tx txs ih =>
      obtain ⟨t1, r, hr, hlay, hres⟩ := h.splice_result tx
      obtain ⟨t2, rs, hrs, hlay2, hall⟩ := ih hlay
      refine ⟨t2, r :: rs, ?_, hlay2, .cons hres hall⟩
      unfold EnvelopeTemplate.spliceAll
      rw [hr, ok_bind]
      simp only [hrs, ok_bind, pure_eq_ok]

/-- The length of the template after `compile` has widened its body slot. -/
def EnvelopeSpecBuilder.paddedLen (b : EnvelopeSpecBuilder) : Nat :=
  b.build.bytes.length - bodySentinel.length + b.maxBody

/-- What a request holds before its content-length slot. -/
def EnvelopeSpecBuilder.front (b : EnvelopeSpecBuilder) : Bytes :=
  utf8 b.head ++ utf8 "Content-Length: "

/-- The built bytes around the content-length sentinel. -/
theorem EnvelopeSpecBuilder.wire_split (b : EnvelopeSpecBuilder) :
    b.build.bytes = b.front ++ (clSentinel ++ (crlfcrlf ++ utf8 b.bodyTpl)) := by
  have hline : utf8 "Content-Length: <<CL>>      \r\n" =
      utf8 "Content-Length: " ++ (clSentinel ++ [13, 10]) := by decide
  have hblank : utf8 "\r\n" = [13, 10] := by decide
  show utf8 b.wire = _
  unfold EnvelopeSpecBuilder.wire EnvelopeSpecBuilder.front
  rw [utf8_append, utf8_append, utf8_append, hline, hblank]
  simp [crlfcrlf]

/-- A template compiled from a builder whose body template holds the body sentinel has its slots in
this order, and both sentinels stand nowhere else. -/
theorem EnvelopeSpecBuilder.slots_of_compile {b : EnvelopeSpecBuilder} {t : EnvelopeTemplate}
    {bp bq : Bytes} (htpl : utf8 b.bodyTpl = bp ++ (bodySentinel ++ bq))
    (hc : b.build.compile = .ok (.ok t)) :
    findUnique b.build.bytes clSentinel = some b.front.length ∧
      findUnique b.build.bytes bodySentinel =
        some (b.front ++ (clSentinel ++ (crlfcrlf ++ bp))).length ∧
      ∃ slot, slot.length = b.maxBody ∧ Slots t b.front (crlfcrlf ++ bp) slot bq := by
  obtain ⟨bodyOff, clOff, slot, hcomp⟩ := compile_ok_inv rfl hc
  have hwire := b.wire_split
  rw [htpl] at hwire
  set pre := b.front with hpre
  set mid := crlfcrlf ++ bp with hmid
  have hsplit : b.build.bytes = (pre ++ (clSentinel ++ mid)) ++ (bodySentinel ++ bq) := by
    rw [hwire, hmid]
    simp
  have hcls : clSentinel.length = 12 := by decide
  -- the fixed occurrences are the unique ones the scan returned
  have hcl : pre.length = clOff :=
    (findUnique_eq_some_iff.mp hcomp.length).2 _ ⟨pre, _, hwire, rfl⟩
  have hbo : (pre ++ (clSentinel ++ mid)).length = bodyOff :=
    (findUnique_eq_some_iff.mp hcomp.body).2 _ ⟨pre ++ (clSentinel ++ mid), bq, hsplit, rfl⟩
  have hfront : b.build.bytes.take bodyOff = pre ++ (clSentinel ++ mid) := by
    rw [← hbo, hsplit, List.take_left]
  have hback : b.build.bytes.drop (bodyOff + bodySentinel.length) = bq := by
    rw [← hbo, hsplit, ← List.drop_drop, List.drop_left, List.drop_left]
  have hbuf : t.buf = pre ++ (clSentinel ++ (mid ++ (slot ++ bq))) := by
    have := hcomp.buf
    rw [hfront, show b.build.body.sentinel = bodySentinel from rfl, hback] at this
    rw [this]
    simp
  have hclOff : t.clOff = some pre.length := by
    rw [hcomp.clOff_eq, if_neg, hcl]
    rw [← hbo, ← hcl]
    simp only [List.length_append]
    omega
  refine ⟨hcl ▸ hcomp.length, hbo ▸ hcomp.body, slot, hcomp.slotLength, hbuf, ?_, ?_, hclOff, ?_, ?_⟩
  · rw [hcomp.bodyOff_eq, hbo]
  · rw [hcomp.bodyMax_eq, hcomp.slotLength]
  · rw [hcomp.clWidth_eq, hcls]
  · -- the terminator behind the slot bounds the first one, which therefore lies before the body
    obtain ⟨sep, hsep, hstart⟩ := hcomp.start
    have hocc : OccursAt crlfcrlf (pre ++ (clSentinel ++ mid)) (pre ++ clSentinel).length :=
      ⟨pre ++ clSentinel, bp, by rw [hmid]; simp, rfl⟩
    obtain ⟨k, hk, _⟩ := Search.find_isSome_of_occursAt hocc
    have hk' := Search.find_append_right hk (slot ++ bq)
    rw [show (pre ++ (clSentinel ++ mid)) ++ (slot ++ bq) = t.buf by rw [hbuf]; simp, hsep] at hk'
    exact ⟨k, hk, by rw [hstart, Option.some.inj hk']⟩

/-- A short template compiled from such a builder is laid out. -/
theorem EnvelopeSpecBuilder.layout_front {b : EnvelopeSpecBuilder} {t : EnvelopeTemplate}
    {bp bq : Bytes} (htpl : utf8 b.bodyTpl = bp ++ (bodySentinel ++ bq))
    (hlen : b.paddedLen < 2 ^ 32) (hc : b.build.compile = .ok (.ok t)) :
    ∃ slot, slot.length = b.maxBody ∧ Layout t b.front (crlfcrlf ++ bp) slot bq := by
  obtain ⟨_, _, slot, hslot, hs⟩ := slots_of_compile htpl hc
  refine ⟨slot, hslot, hs, ?_⟩
  rw [hs.buf]
  unfold EnvelopeSpecBuilder.paddedLen at hlen
  rw [b.wire_split, htpl] at hlen
  simp only [List.length_append] at hlen ⊢
  omega

theorem EnvelopeSpecBuilder.layout_of_compile {b : EnvelopeSpecBuilder} {t : EnvelopeTemplate}
    (hbody : ∃ i, OccursAt bodySentinel (utf8 b.bodyTpl) i) (hlen : b.paddedLen < 2 ^ 32)
    (hc : b.build.compile = .ok (.ok t)) :
    ∃ pre mid slot post, b.build.bytes = pre ++ (clSentinel ++ (mid ++ (bodySentinel ++ post))) ∧
      findUnique b.build.bytes clSentinel = some pre.length ∧
      findUnique b.build.bytes bodySentinel = some (pre ++ (clSentinel ++ mid)).length ∧
      slot.length = b.maxBody ∧ Layout t pre mid slot post := by
  obtain ⟨_, bp, bq, htpl, _⟩ := hbody
  obtain ⟨hcl, hbo, -⟩ := slots_of_compile htpl hc
  obtain ⟨slot, hslot, hlay⟩ := layout_front htpl hlen hc
  refine ⟨b.front, crlfcrlf ++ bp, slot, bq, ?_, hcl, hbo, hslot, hlay⟩
  rw [b.wire_split, htpl, List.append_assoc crlfcrlf]

/-- **Every frame is the built request with its two sentinels replaced.** For every builder input
whose body template holds the body sentinel, and every sequence of calls on the compiled template
(failed ones included), each call reports `BodyTooLarge` exactly when the encoded transaction does
not fit, and otherwise returns the built bytes with the unique body sentinel replaced by the base64
of its transaction and the unique content-length sentinel by the exact length. -/
theorem spliceAll_frames (b : EnvelopeSpecBuilder) (t : EnvelopeTemplate)
    (hbody : ∃ i, OccursAt bodySentinel (utf8 b.bodyTpl) i) (hlen : b.paddedLen < 2 ^ 32)
    (hc : b.build.compile = .ok (.ok t)) :
    ∃ pre mid post, b.build.bytes = pre ++ (clSentinel ++ (mid ++ (bodySentinel ++ post))) ∧
      (∀ i, OccursAt clSentinel b.build.bytes i → i = pre.length) ∧
      (∀ i, OccursAt bodySentinel b.build.bytes i → i = (pre ++ (clSentinel ++ mid)).length) ∧
      ∀ txs, ∃ t' rs, t.spliceAll txs = .ok (t', rs) ∧
        List.Forall₂ (FrameResult b.maxBody pre mid post) txs rs := by
  obtain ⟨pre, mid, slot, post, hsplit, hcl, hbo, hslot, hlay⟩ :=
    EnvelopeSpecBuilder.layout_of_compile hbody hlen hc
  refine ⟨pre, mid, post, hsplit, (findUnique_eq_some_iff.mp hcl).2,
    (findUnique_eq_some_iff.mp hbo).2, fun txs => ?_⟩
  rw [← hslot]
  obtain ⟨t', rs, hall, -, hres⟩ := hlay.spliceAll_results txs
  exact ⟨t', rs, hall, hres⟩

/-- A builder with a bare body template, small enough to evaluate. -/
def bareBuilder : EnvelopeSpecBuilder :=
  (EnvelopeSpecBuilder.sendTransaction "/" "h" 16).bodyTemplate "<<BODY>>"

/-- What `compile` makes of it. -/
def bareTemplate : EnvelopeTemplate where
  buf := utf8 "POST / HTTP/1.1\r\nHost: h\r\nContent-Type: application/json\r\n" ++
    utf8 "Content-Length: <<CL>>      \r\n\r\n                "
  out := []
  bodyOff := 90
  bodyMax := 16
  clOff := some 74
  clWidth := 12
  httpBodyStart := 90

theorem compile_bareBuilder : bareBuilder.build.compile = .ok (.ok bareTemplate) := by
  decide +kernel

theorem paddedLen_bareBuilder : bareBuilder.paddedLen < 2 ^ 32 := by
  decide +kernel

theorem spliceAll_frames_bare :
    bareBuilder.build.compile = .ok (.ok bareTemplate) ∧
      ∃ pre mid post,
        bareBuilder.build.bytes = pre ++ (clSentinel ++ (mid ++ (bodySentinel ++ post))) ∧
        (∀ i, OccursAt clSentinel bareBuilder.build.bytes i → i = pre.length) ∧
        (∀ i, OccursAt bodySentinel bareBuilder.build.bytes i →
          i = (pre ++ (clSentinel ++ mid)).length) ∧
        ∀ txs, ∃ t' rs, bareTemplate.spliceAll txs = .ok (t', rs) ∧
          List.Forall₂ (FrameResult 16 pre mid post) txs rs := by
  exact ⟨compile_bareBuilder,
    spliceAll_frames bareBuilder bareTemplate ⟨0, by decide⟩ paddedLen_bareBuilder
      compile_bareBuilder⟩

end TxSender.Http
