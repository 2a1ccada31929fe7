/-
# TxSender.Http.EnvelopeCompile — which request templates `compile` accepts.

User text lands before, between and behind the two sentinels and may hold, or partly overlap, either
of them. For a padded template below 4 GiB `compile` returns, and what it returns is decided by two
counts and one bound (`compile_returns`):

* the bound `8 ≤ maxBody` is tested first and reported under its own name;
* both scans must find their sentinel exactly once, and every other count is `BodySentinelMissing`;
* the blank line is always found, since no sentinel can overlap it (`sentinels_apart`), so the third
  place that reports `BodySentinelMissing` is never reached from a builder;
* every narrowing to 32 bits is of an offset into the padded template.
-/
import TxSender.Http.EnvelopeSlot
import TxSender.Lib.Occurrences

namespace TxSender.Http

open TxSender.Lib
open TxSender.Lib.Exec
open TxSender.Lib.Search (OccursAt find Clash)

/-! ## What a template records -/

namespace EnvelopeSpecBuilder

/-- Where offset `k` of the built bytes lies once the body sentinel at `i` has been widened. -/
def throughPadding (b : EnvelopeSpecBuilder) (i k : Nat) : Nat :=
  if i + bodySentinel.length ≤ k then k - bodySentinel.length + b.maxBody else k

/-- The sentinel occurs exactly once in the built bytes. -/
def Once (b : EnvelopeSpecBuilder) (sentinel : Bytes) : Prop :=
  ∃! i, OccursAt sentinel b.build.bytes i

theorem once_iff {b : EnvelopeSpecBuilder} {sentinel : Bytes} :
    b.Once sentinel ↔ ∃ i, findUnique b.build.bytes sentinel = some i := by
  unfold Once
  simp only [findUnique_eq_some_iff]
  rfl

/-- A template that records the body sentinel at `i` and the length sentinel at `j`, both where the
padding has put them. -/
structure Recorded (b : EnvelopeSpecBuilder) (t : EnvelopeTemplate) (i j : Nat) : Prop where
  buf : ∃ slot, slot.length = b.maxBody ∧
    t.buf = b.build.bytes.take i ++ (slot ++ b.build.bytes.drop (i + bodySentinel.length))
  bodyOff : t.bodyOff = b.throughPadding i i
  bodyMax : t.bodyMax = b.maxBody
  clOff : t.clOff = some (b.throughPadding i j)
  clWidth : t.clWidth = clSentinel.length
  clSlot : OccursAt clSentinel t.buf (b.throughPadding i j)
  start : ∃ sep, find crlfcrlf t.buf = some sep ∧ t.httpBodyStart = sep + 4

/-- What `compile` has to answer. -/
inductive Verdict (b : EnvelopeSpecBuilder) : Except EnvelopeError EnvelopeTemplate → Prop where
  | accepted (t : EnvelopeTemplate) (fits : 8 ≤ b.maxBody) (body : b.Once bodySentinel)
      (length : b.Once clSentinel) : Verdict b (.ok t)
  | tooSmall (small : b.maxBody < 8) : Verdict b (.error (.bodyMaxTooSmall b.maxBody 8))
  | missing (fits : 8 ≤ b.maxBody) (ambiguous : ¬ (b.Once bodySentinel ∧ b.Once clSentinel)) :
      Verdict b (.error .bodySentinelMissing)

end EnvelopeSpecBuilder

/-! ## The sentinels and the blank line -/

theorem length_bodySentinel : bodySentinel.length = 8 := by decide

/-- The two sentinels never overlap, whatever text stands around them. -/
theorem sentinels_apart {text : Bytes} {i j : Nat} (hi : OccursAt bodySentinel text i)
    (hj : OccursAt clSentinel text j) :
    i + bodySentinel.length ≤ j ∨ j + clSentinel.length ≤ i :=
  hi.apart hj (by decide) (by decide)

theorem sentinel_blank_apart {text : Bytes} {i k : Nat} (hi : OccursAt bodySentinel text i)
    (hk : OccursAt crlfcrlf text k) :
    i + bodySentinel.length ≤ k ∨ k + crlfcrlf.length ≤ i :=
  hi.apart hk (by decide) (by decide)

namespace EnvelopeSpecBuilder

variable {b : EnvelopeSpecBuilder}

theorem occursAt_blank (b : EnvelopeSpecBuilder) :
    OccursAt crlfcrlf b.build.bytes (b.front ++ clSentinel).length :=
  ⟨b.front ++ clSentinel, utf8 b.bodyTpl, by rw [b.wire_split]; simp, rfl⟩

/-- Widening the body slot leaves a blank line in the template. -/
theorem find_blank_widened {i : Nat} (hi : OccursAt bodySentinel b.build.bytes i) (slot : Bytes) :
    ∃ sep, find crlfcrlf (b.build.bytes.take i ++
      (slot ++ b.build.bytes.drop (i + bodySentinel.length))) = some sep := by
  have hmoved := b.occursAt_blank.replaceBlock (sentinel_blank_apart hi b.occursAt_blank) slot
  obtain ⟨sep, hsep, -⟩ := Search.find_isSome_of_occursAt hmoved
  exact ⟨sep, hsep⟩

theorem length_widened {i : Nat} (hi : OccursAt bodySentinel b.build.bytes i) {slot : Bytes}
    (hslot : slot.length = b.maxBody) :
    (b.build.bytes.take i ++ (slot ++ b.build.bytes.drop (i + bodySentinel.length))).length =
      b.paddedLen := by
  have hbound := hi.bound
  unfold paddedLen
  simp only [List.length_append, List.length_take, List.length_drop, hslot]
  omega

/-! ## The run of `compile` -/

/-- The padding step does not panic on offsets into a template below 4 GiB. -/
theorem padBody_returns {i j : Nat} (hi : OccursAt bodySentinel b.build.bytes i)
    (hj : OccursAt clSentinel b.build.bytes j) (hfits : 8 ≤ b.maxBody) (hlen : b.paddedLen < 2 ^ 32) :
    ∃ padded, b.build.padBody i (some j) = .ok padded := by
  have hib := hi.bound
  have hjb := hj.bound
  rw [length_bodySentinel] at hib
  unfold paddedLen at hlen
  rw [length_bodySentinel] at hlen
  unfold EnvelopeSpec.padBody
  simp only
  split
  · show ∃ padded, (do
      let front ← sliceTo b.build.bytes i
      let back ← sliceFrom b.build.bytes (i + bodySentinel.length)
      let delta ← toU32 (b.maxBody - bodySentinel.length)
      let threshold ← toU32 (i + bodySentinel.length)
      let clOff ← (some j).mapM (shiftOff · threshold delta)
      pure (front ++ (List.replicate b.maxBody space ++ back), clOff)) = .ok padded
    have hshift : shiftOff j (i + 8) (b.maxBody - 8) =
        .ok (if j ≥ i + 8 then j + (b.maxBody - 8) else j) := by
      unfold shiftOff
      split
      · exact toU32_ok (by omega)
      · rfl
    rw [length_bodySentinel, sliceTo_ok (by omega), sliceFrom_ok (by omega), toU32_ok (by omega),
      toU32_ok (by omega)]
    simp only [ok_bind, Option.mapM_some, hshift]
    exact ⟨_, rfl⟩
  · exact ⟨_, rfl⟩

/-- Once both scans have succeeded, nothing else can fail. -/
theorem compile_of_found {i j : Nat} (hi : findUnique b.build.bytes bodySentinel = some i)
    (hj : findUnique b.build.bytes clSentinel = some j) (hfits : 8 ≤ b.maxBody)
    (hlen : b.paddedLen < 2 ^ 32) : ∃ t, b.build.compile = .ok (.ok t) := by
  have hiocc := (findUnique_eq_some_iff.mp hi).1
  have hjocc := (findUnique_eq_some_iff.mp hj).1
  have hfits' : bodySentinel.length ≤ b.maxBody := by rw [length_bodySentinel]; exact hfits
  obtain ⟨padded, hpad⟩ := padBody_returns hiocc hjocc hfits hlen
  obtain ⟨slot, hslot, hbuf, -⟩ := padBody_eq_ok hfits' hiocc hpad
  obtain ⟨sep, hsep⟩ := find_blank_widened hiocc slot
  have hwide := length_widened hiocc hslot
  have hsepb := Search.find_bound hsep
  have hib := hiocc.bound
  have hjb := hjocc.bound
  have hcr : crlfcrlf.length = 4 := rfl
  have hpadlen : b.paddedLen = b.build.bytes.length - bodySentinel.length + b.maxBody := rfl
  have hfind : find crlfcrlf padded.1 = some sep := by
    rw [hbuf]
    exact hsep
  unfold EnvelopeSpec.compile
  simp only [show b.build.body.sentinel = bodySentinel from rfl,
    show b.build.body.maxLen = b.maxBody from rfl,
    show b.build.contentLength = some ⟨clSentinel, 12⟩ from rfl, hi, hj]
  rw [if_neg (by omega), toU32_ok (by omega), ok_bind]
  unfold EnvelopeSpec.compileAt
  rw [hpad, ok_bind, show b.build.body.maxLen = b.maxBody from rfl, toU32_ok (by omega), ok_bind,
    toU32_ok (by omega), ok_bind]
  simp only [hfind]
  rw [toU32_ok (by omega)]
  exact ⟨_, rfl⟩

/-- The offsets of an accepted template. -/
theorem recorded_of_compile {t : EnvelopeTemplate} {i j : Nat} (hc : b.build.compile = .ok (.ok t))
    (hi : OccursAt bodySentinel b.build.bytes i) (hj : OccursAt clSentinel b.build.bytes j) :
    b.Recorded t i j := by
  obtain ⟨bodyOff, clOff, slot, hcomp⟩ := compile_ok_inv rfl hc
  obtain rfl : i = bodyOff := (findUnique_eq_some_iff.mp hcomp.body).2 i hi
  obtain rfl : j = clOff := (findUnique_eq_some_iff.mp hcomp.length).2 j hj
  have hmax : slot.length = b.maxBody := hcomp.slotLength
  have hfits : bodySentinel.length ≤ b.maxBody := hcomp.fits
  have hself : b.throughPadding i i = i := by
    unfold throughPadding
    rw [if_neg (by rw [length_bodySentinel]; omega)]
  refine ⟨⟨slot, hmax, hcomp.buf⟩, hcomp.bodyOff_eq.trans hself.symm, hcomp.bodyMax_eq, ?_,
    hcomp.clWidth_eq, ?_, hcomp.start⟩
  · rw [hcomp.clOff_eq]
    show some (if i + bodySentinel.length ≤ j then j + (b.maxBody - bodySentinel.length) else j) = _
    unfold throughPadding
    split
    · congr 1
      omega
    · rfl
  · rw [hcomp.buf]
    have hmoved := hj.replaceBlock (sentinels_apart hi hj) slot
    rw [hmax] at hmoved
    exact hmoved

/-- `compile` returns, with the verdict. -/
theorem compile_returns (b : EnvelopeSpecBuilder) (hlen : b.paddedLen < 2 ^ 32) :
    ∃ r, b.build.compile = .ok r ∧ b.Verdict r := by
  by_cases hfits : 8 ≤ b.maxBody
  · by_cases honce : b.Once bodySentinel ∧ b.Once clSentinel
    · obtain ⟨i, hi⟩ := once_iff.mp honce.1
      obtain ⟨j, hj⟩ := once_iff.mp honce.2
      obtain ⟨t, ht⟩ := compile_of_found hi hj hfits hlen
      exact ⟨.ok t, ht, .accepted t hfits honce.1 honce.2⟩
    · refine ⟨.error .bodySentinelMissing, ?_, .missing hfits honce⟩
      unfold EnvelopeSpec.compile
      simp only [show b.build.body.sentinel = bodySentinel from rfl,
        show b.build.body.maxLen = b.maxBody from rfl,
        show b.build.contentLength = some ⟨clSentinel, 12⟩ from rfl]
      rw [if_neg (by rw [length_bodySentinel]; omega)]
      cases hi : findUnique b.build.bytes bodySentinel with
      | none => rfl
      | some i =>
          cases hj : findUnique b.build.bytes clSentinel with
          | none => rfl
          | some j => exact absurd ⟨once_iff.mpr ⟨i, hi⟩, once_iff.mpr ⟨j, hj⟩⟩ honce
  · refine ⟨.error (.bodyMaxTooSmall b.maxBody 8), ?_, .tooSmall (by omega)⟩
    unfold EnvelopeSpec.compile
    simp only [show b.build.body.sentinel = bodySentinel from rfl,
      show b.build.body.maxLen = b.maxBody from rfl, length_bodySentinel]
    rw [if_pos (by omega)]

end EnvelopeSpecBuilder

/-- **`compile` accepts exactly the unambiguous specs.** For every builder input with a padded
length below `2^32` the call returns: a template exactly when the body slot is wide enough and each
sentinel occurs once, `BodyMaxTooSmall` exactly when it is not wide enough, and
`BodySentinelMissing` in every other case. The template records both sentinels where the padding has
moved them. -/
theorem compile_accepts_iff (b : EnvelopeSpecBuilder) (hlen : b.paddedLen < 2 ^ 32) :
    ((∃ t, b.build.compile = .ok (.ok t)) ↔
      8 ≤ b.maxBody ∧ b.Once bodySentinel ∧ b.Once clSentinel) ∧
    ((∃ maxLen sentinel, b.build.compile = .ok (.error (.bodyMaxTooSmall maxLen sentinel))) ↔
      b.maxBody < 8) ∧
    (b.build.compile = .ok (.error .bodySentinelMissing) ↔
      8 ≤ b.maxBody ∧ ¬ (b.Once bodySentinel ∧ b.Once clSentinel)) ∧
    ∀ t i j, b.build.compile = .ok (.ok t) → OccursAt bodySentinel b.build.bytes i →
      OccursAt clSentinel b.build.bytes j → b.Recorded t i j := by
  obtain ⟨r, hr, hv⟩ := b.compile_returns hlen
  rw [hr]
  refine and_assoc.mp ⟨?_, ?_⟩
  · cases hv with
    | accepted t hfits hbody hcl =>
        refine ⟨⟨fun _ => ⟨hfits, hbody, hcl⟩, fun _ => ⟨t, rfl⟩⟩, ⟨fun ⟨_, _, h⟩ => ?_, fun h => ?_⟩⟩
        · cases h
        · omega
    | tooSmall hsmall =>
        refine ⟨⟨fun ⟨_, h⟩ => ?_, fun h => ?_⟩, ⟨fun _ => hsmall, fun _ => ⟨_, _, rfl⟩⟩⟩
        · cases h
        · omega
    | missing hfits honce =>
        refine ⟨⟨fun ⟨_, h⟩ => ?_, fun h => absurd h.2 honce⟩, ⟨fun ⟨_, _, h⟩ => ?_, fun h => ?_⟩⟩
        · cases h
        · cases h
        · omega
  · refine ⟨?_, fun t i j ht => EnvelopeSpecBuilder.recorded_of_compile (hr.trans ht)⟩
    cases hv with
    | accepted t hfits hbody hcl =>
        refine ⟨fun h => ?_, fun h => absurd ⟨hbody, hcl⟩ h.2⟩
        cases h
    | tooSmall hsmall =>
        refine ⟨fun h => ?_, fun h => ?_⟩
        · cases h
        · omega
    | missing hfits honce => exact ⟨fun _ => ⟨hfits, honce⟩, fun _ => rfl⟩

theorem compile_accepts_bare :
    (∃ t, bareBuilder.build.compile = .ok (.ok t)) ∧ bareBuilder.Once bodySentinel ∧
      bareBuilder.Once clSentinel :=
  have h := (compile_accepts_iff bareBuilder paddedLen_bareBuilder).1.mp
    ⟨bareTemplate, compile_bareBuilder⟩
  ⟨⟨bareTemplate, compile_bareBuilder⟩, h.2⟩

end TxSender.Http
