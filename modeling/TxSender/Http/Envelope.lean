/-
# TxSender.Http.Envelope — compiling a request template and splicing a transaction into it.

`compile` locates the two sentinels, widens the body slot to its maximum and records offsets into
the widened template. `splice` writes one request frame into a reused output buffer: the template up
to the body slot, the base64 of the transaction, the rest of the template, and then the content
length patched into its slot in place.

Sizes are 64-bit and the recorded offsets 32-bit, as in the source. A slice has at most `2^63 - 1`
bytes, so `needed` below cannot overflow 64 bits (`needed_lt`); the other additions are bounded by
buffer lengths. Arithmetic that the source leaves to the overflow check is checked here.
-/
import TxSender.Error
import TxSender.Lib.Base64
import TxSender.Lib.Search
import TxSender.Http.SpecBuilder

namespace TxSender.Http

open TxSender.Lib
open TxSender.Lib.Exec

/-- `find_unique`'s loop: `fuel` bounds the iterations left, `i` is the offset under test. -/
def findUniqueFrom (haystack needle : Bytes) : (fuel i : Nat) → Option Nat → Option Nat
  | 0, _, found => found
  | fuel + 1, i, found =>
      if i + needle.length ≤ haystack.length then
        if (haystack.drop i).take needle.length = needle then
          if found.isSome then none else findUniqueFrom haystack needle fuel (i + 1) (some i)
        else findUniqueFrom haystack needle fuel (i + 1) found
      else found

/-- The offset of the only occurrence of `needle`; `none` when there is no occurrence or a second
one. -/
def findUnique (haystack needle : Bytes) : Option Nat :=
  findUniqueFrom haystack needle (haystack.length + 1) 0 none

structure EnvelopeTemplate where
  buf : Bytes
  out : Bytes
  bodyOff : Nat
  bodyMax : Nat
  clOff : Option Nat
  clWidth : Nat
  httpBodyStart : Nat
  deriving DecidableEq, Repr

/-- The end of a header block. -/
def crlfcrlf : Bytes := [13, 10, 13, 10]

def space : UInt8 := 32

/-- An offset at or behind `threshold` moves by `delta`. -/
def shiftOff (off threshold delta : Nat) : Exec Nat :=
  if off ≥ threshold then toU32 (off + delta) else .ok off

/-- The template widened to hold a body of `maxLen` bytes, and the content-length offset in it. -/
def EnvelopeSpec.padBody (spec : EnvelopeSpec) (bodyOff : Nat) (clOff : Option Nat) :
    Exec (Bytes × Option Nat) :=
  let sentinelLen := spec.body.sentinel.length
  let maxLen := spec.body.maxLen
  if maxLen > sentinelLen then do
    let front ← sliceTo spec.bytes bodyOff
    let back ← sliceFrom spec.bytes (bodyOff + sentinelLen)
    let delta ← toU32 (maxLen - sentinelLen)
    let shiftThreshold ← toU32 (bodyOff + sentinelLen)
    let clOff ← clOff.mapM (shiftOff · shiftThreshold delta)
    pure (front ++ (List.replicate maxLen space ++ back), clOff)
  else .ok (spec.bytes, clOff)

/-- `compile`, once both sentinels have been located. -/
def EnvelopeSpec.compileAt (spec : EnvelopeSpec) (bodyOff : Nat) (clOff : Option Nat)
    (clWidth : Nat) : Exec (Except EnvelopeError EnvelopeTemplate) := do
  let padded ← spec.padBody bodyOff clOff
  let bodyMax ← toU32 spec.body.maxLen
  let bodyOff ← toU32 bodyOff
  match Search.find crlfcrlf padded.1 with
  -- a missing blank line is reported under the name of the sentinel
  | none => pure (.error .bodySentinelMissing)
  | some headerSep => do
      let httpBodyStart ← toU32 (headerSep + 4)
      pure (.ok { buf := padded.1, out := [], bodyOff, bodyMax, clOff := padded.2, clWidth,
                  httpBodyStart })

def EnvelopeSpec.compile (spec : EnvelopeSpec) : Exec (Except EnvelopeError EnvelopeTemplate) :=
  let sentinelLen := spec.body.sentinel.length
  if spec.body.maxLen < sentinelLen then
    .ok (.error (.bodyMaxTooSmall spec.body.maxLen sentinelLen))
  else
    match findUnique spec.bytes spec.body.sentinel with
    | none => .ok (.error .bodySentinelMissing)
    | some bodyOff =>
        match spec.contentLength with
        | none => spec.compileAt bodyOff none 0
        | some cl =>
            match findUnique spec.bytes cl.sentinel with
            -- so is a missing slot for the length
            | none => .ok (.error .bodySentinelMissing)
            | some off => do
                let off ← toU32 off
                spec.compileAt bodyOff (some off) cl.width

/-- `splice`'s digit loop: `pos` digits of scratch space are left, `digits` is what has been
written behind them. -/
def digitLoop : (pos n : Nat) → (digits : Bytes) → Exec Bytes
  | 0, _, _ => .error .panic
  | pos + 1, n, digits =>
      let digits := UInt8.ofNat (48 + n % 10) :: digits
      if n / 10 = 0 then .ok digits else digitLoop pos (n / 10) digits

/-- `tx.len().div_ceil(3) * 4` -/
def needed (tx : Bytes) : Nat := (tx.length + 2) / 3 * 4

theorem needed_lt {tx : Bytes} (h : tx.length < 2 ^ 63) : needed tx < 2 ^ 64 := by
  unfold needed
  omega

namespace EnvelopeTemplate

/-- The frame before its content length is patched in: `out` cleared, then filled. -/
def assemble (t : EnvelopeTemplate) (tx : Bytes) : Exec Bytes := do
  let out ← sliceTo t.buf t.bodyOff
  let bodyStart := out.length
  let out := out ++ List.replicate (needed tx) 0
  -- the encoder writes into `out[body_start..]` and panics when that is too short
  let out ← overwrite out bodyStart (Base64.encode tx)
  let out := out.take (bodyStart + (Base64.encode tx).length)
  let back ← sliceFrom t.buf (t.bodyOff + t.bodyMax)
  pure (out ++ back)

/-- Patch the content length of the assembled frame `out` into its slot. -/
def patch (t : EnvelopeTemplate) (out : Bytes) (clOff : Nat) :
    Exec (EnvelopeTemplate × Except EnvelopeError Bytes) := do
  let realLen := out.length
  let httpBodyLen ← subUsize realLen t.httpBodyStart
  let digits ← digitLoop 20 httpBodyLen []
  if digits.length > t.clWidth then
    pure ({ t with out }, .error (.contentLengthOverflow httpBodyLen t.clWidth))
  else do
    -- digits from the left, and blanks over what is left of the slot
    let out ← overwrite out clOff digits
    let out ← fill out (clOff + digits.length) (clOff + t.clWidth) space
    pure ({ t with out }, .ok (out.take realLen))

def splice (t : EnvelopeTemplate) (tx : Bytes) :
    Exec (EnvelopeTemplate × Except EnvelopeError Bytes) :=
  if needed tx > t.bodyMax then .ok (t, .error (.bodyTooLarge (needed tx) t.bodyMax))
  else do
    let out ← t.assemble tx
    match t.clOff with
    | some clOff => t.patch out clOff
    | none => pure ({ t with out }, .ok out)

/-- A sequence of `splice` calls on one template, with the result of each. -/
def spliceAll (t : EnvelopeTemplate) :
    List Bytes → Exec (EnvelopeTemplate × List (Except EnvelopeError Bytes))
  | [] => .ok (t, [])
  | tx :: txs => do
      let (t, r) ← t.splice tx
      let (t, rs) ← t.spliceAll txs
      pure (t, r :: rs)

end EnvelopeTemplate

end TxSender.Http
