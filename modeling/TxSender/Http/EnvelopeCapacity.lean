/-
# TxSender.Http.EnvelopeCapacity — `splice` never outgrows the buffer it reuses.

`compile` reserves the length of the padded template for `out`, and `splice` refills `out` statement
by statement. `spliceSteps` is `splice` with every value of the template on the way kept
(`spliceSteps_erase`: forgetting them gives `splice`). The length of `out` is then followed through
the statements with the rules of `Lib.Journal`: it is longest either while the transaction is
encoded, when it ends inside the body slot, or at the end, when the rest of the template follows.
-/
import TxSender.Http.EnvelopeCompile
import TxSender.Lib.Journal

namespace TxSender.Http

open TxSender.Lib
open TxSender.Lib.Exec

namespace EnvelopeTemplate

/-! ## The statements of `splice` -/

/-- `self.out` is changed to what `f` makes of it. -/
def updateOut (f : Bytes → Exec Bytes) : Journal EnvelopeTemplate Unit :=
  .write fun t => (f t.out).map fun out => { t with out }

/-- `self.out.clear()` -/
def clearOut : Journal EnvelopeTemplate Unit := updateOut fun _ => .ok []

/-- `self.out.extend_from_slice(src)` -/
def extendOut (src : Bytes) : Journal EnvelopeTemplate Unit := updateOut fun out => .ok (out ++ src)

/-- `self.out.resize(len, 0)` -/
def resizeOut (len : Nat) : Journal EnvelopeTemplate Unit :=
  updateOut fun out => .ok (out.take len ++ List.replicate (len - out.length) 0)

/-- `self.out.truncate(len)` -/
def truncateOut (len : Nat) : Journal EnvelopeTemplate Unit := updateOut fun out => .ok (out.take len)

/-- The content length is patched into its slot. -/
def patchSteps (clOff realLen : Nat) : Journal EnvelopeTemplate (Except EnvelopeError Bytes) := do
  let httpBodyLen ← .read fun t => subUsize realLen t.httpBodyStart
  let digits ← .read fun _ => digitLoop 20 httpBodyLen []
  let clWidth ← .read fun t => .ok t.clWidth
  if digits.length > clWidth then
    pure (.error (.contentLengthOverflow httpBodyLen clWidth))
  else do
    updateOut fun out => overwrite out clOff digits
    updateOut fun out => fill out (clOff + digits.length) (clOff + clWidth) space
    .read fun t => .ok (.ok (t.out.take realLen))

/-- What `splice` does once the frame is assembled. -/
def finishSteps (realLen : Nat) : Journal EnvelopeTemplate (Except EnvelopeError Bytes) := do
  match ← Journal.read fun t : EnvelopeTemplate => .ok t.clOff with
  | some clOff => patchSteps clOff realLen
  | none => .read fun t => .ok (.ok (t.out.take realLen))

/-- `splice`, statement by statement. -/
def spliceSteps (tx : Bytes) : Journal EnvelopeTemplate (Except EnvelopeError Bytes) := do
  let bodyMax ← .read fun t => .ok t.bodyMax
  if needed tx > bodyMax then
    pure (.error (.bodyTooLarge (needed tx) bodyMax))
  else do
    clearOut
    let front ← .read fun t => sliceTo t.buf t.bodyOff
    extendOut front
    let bodyStart ← .read fun t => .ok t.out.length
    resizeOut (bodyStart + needed tx)
    updateOut fun out => overwrite out bodyStart (Base64.encode tx)
    truncateOut (bodyStart + (Base64.encode tx).length)
    let back ← .read fun t => sliceFrom t.buf (t.bodyOff + t.bodyMax)
    extendOut back
    let realLen ← .read fun t => .ok t.out.length
    finishSteps realLen

@[simp]
theorem erase_updateOut_bind {β : Type} (f : Bytes → Exec Bytes) (k : Unit → Journal EnvelopeTemplate β)
    (t : EnvelopeTemplate) :
    (updateOut f >>= k).erase t = f t.out >>= fun out => (k ()).erase { t with out } := by
  unfold updateOut
  rw [Journal.erase_write_bind]
  cases f t.out with
  | error e => rfl
  | ok out => rfl

theorem patchSteps_erase (t : EnvelopeTemplate) (clOff : Nat) :
    (patchSteps clOff t.out.length).erase t = t.patch t.out clOff := by
  unfold patchSteps patch
  simp only [Journal.erase_read_bind, ok_bind]
  refine bind_congr fun httpBodyLen => bind_congr fun digits => ?_
  split
  · rfl
  · rw [erase_updateOut_bind]
    refine bind_congr fun out => ?_
    rw [erase_updateOut_bind]
    rfl

theorem finishSteps_erase (t : EnvelopeTemplate) :
    (finishSteps t.out.length).erase t =
      match t.clOff with
      | some clOff => t.patch t.out clOff
      | none => .ok (t, .ok t.out) := by
  unfold finishSteps
  rw [Journal.erase_read_bind, ok_bind]
  obtain ⟨buf, out, bodyOff, bodyMax, clOff, clWidth, start⟩ := t
  cases clOff with
  | none =>
      show Except.ok (_, Except.ok (List.take out.length out)) = _
      rw [List.take_length]
      rfl
  | some clOff => exact patchSteps_erase _ clOff

/-- **The statements are those of `splice`.** -/
theorem spliceSteps_erase (t : EnvelopeTemplate) (tx : Bytes) :
    (spliceSteps tx).erase t = t.splice tx := by
  unfold spliceSteps splice
  rw [Journal.erase_read_bind, ok_bind]
  split
  · rfl
  · unfold assemble clearOut extendOut resizeOut truncateOut
    simp only [erase_updateOut_bind, Journal.erase_read_bind, ok_bind, List.nil_append, bind_assoc]
    refine bind_congr fun front => ?_
    have hsized : front.take (front.length + needed tx) ++
        List.replicate (front.length + needed tx - front.length) 0 =
          front ++ List.replicate (needed tx) 0 := by
      rw [List.take_of_length_le (by omega), Nat.add_sub_cancel_left]
    rw [hsized]
    refine bind_congr fun out => bind_congr fun back => ?_
    rw [pure_eq_ok, ok_bind]
    exact finishSteps_erase { t with out := _ }

/-! ## Lengths -/

/-- What `compile` reserves for `out`: `Vec::with_capacity(cap)`, where `cap` is the length of the
padded bytes it then moves into `buf`. -/
def reserved (t : EnvelopeTemplate) : Nat := t.buf.length

/-- `t` with `out` holding `n` bytes. -/
def Filled (t : EnvelopeTemplate) (n : Nat) (s : EnvelopeTemplate) : Prop :=
  ∃ out, s = { t with out } ∧ out.length = n

/-- `t` with no more in `out` than is reserved. -/
def Within (t s : EnvelopeTemplate) : Prop := ∃ n ≤ t.reserved, Filled t n s

section

variable {t : EnvelopeTemplate} {n : Nat}

/-- An update of `out` from a known length to a known one that is still within what is reserved. -/
theorem keeps_updateOut {β : Type} {f : Bytes → Exec Bytes} {m : Nat}
    {k : Unit → Journal EnvelopeTemplate β} {Q : β → EnvelopeTemplate → Prop}
    (h : ∀ out out', out.length = n → f out = .ok out' → out'.length = m) (hn : m ≤ t.reserved)
    (hk : (k ()).Keeps (Within t) (Filled t m) Q) :
    (updateOut f >>= k).Keeps (Within t) (Filled t n) Q := by
  refine Journal.Keeps.bind (Journal.keeps_write (Q := fun _ => Filled t m) ?_) fun _ => hk
  rintro s s' ⟨out, rfl, hlen⟩ hf
  obtain ⟨out', hout, rfl⟩ := map_eq_ok.mp hf
  have hfilled : Filled t m { t with out := out' } := ⟨out', rfl, h out out' hlen hout⟩
  exact ⟨⟨m, hn, hfilled⟩, hfilled⟩

/-- A read tells what holds of the value and changes nothing. -/
theorem keeps_readOut {α β : Type} {f : EnvelopeTemplate → Exec α} {p : α → Prop}
    {k : α → Journal EnvelopeTemplate β} {Q : β → EnvelopeTemplate → Prop}
    (h : ∀ out a, out.length = n → f { t with out } = .ok a → p a)
    (hk : ∀ a, p a → (k a).Keeps (Within t) (Filled t n) Q) :
    (Journal.read f >>= k).Keeps (Within t) (Filled t n) Q := by
  refine Journal.Keeps.bind (Journal.keeps_read (Q := fun a s => p a ∧ Filled t n s) ?_) ?_
  · rintro s a ⟨out, rfl, hlen⟩ hf
    exact ⟨h out a hlen hf, out, rfl, hlen⟩
  · rintro a s ⟨ha, hs⟩
    exact hk a ha s hs

theorem keeps_patchSteps (hn : n ≤ t.reserved) (clOff realLen : Nat) :
    (patchSteps clOff realLen).Keeps (Within t) (Filled t n) fun _ _ => True := by
  refine keeps_readOut (p := fun _ => True) (fun _ _ _ _ => trivial) fun httpBodyLen _ => ?_
  refine keeps_readOut (p := fun _ => True) (fun _ _ _ _ => trivial) fun digits _ => ?_
  refine keeps_readOut (p := fun _ => True) (fun _ _ _ _ => trivial) fun clWidth _ => ?_
  split
  · exact Journal.keeps_pure fun _ _ => trivial
  · -- both writes go into the frame as it is
    refine keeps_updateOut (fun out out' hlen hw => ?_) hn ?_
    · rw [(overwrite_take hw).2.1, hlen]
    · refine keeps_updateOut (fun out out' hlen hw => ?_) hn ?_
      · rw [(fill_take hw).1, hlen]
      · exact Journal.keeps_read fun _ _ _ _ => trivial

theorem keeps_finishSteps (hn : n ≤ t.reserved) (realLen : Nat) :
    (finishSteps realLen).Keeps (Within t) (Filled t n) fun _ _ => True := by
  refine keeps_readOut (p := fun _ => True) (fun _ _ _ _ => trivial) fun clOff _ => ?_
  cases clOff with
  | none => exact Journal.keeps_read fun _ _ _ _ => trivial
  | some clOff => exact keeps_patchSteps hn clOff realLen

/-- One call stays within what is reserved, on a template whose body slot lies inside it. -/
theorem keeps_spliceSteps (hfit : t.bodyOff + t.bodyMax ≤ t.buf.length) (tx : Bytes) :
    (spliceSteps tx).Keeps (Within t) (Filled t n) fun _ _ => True := by
  have hres : t.reserved = t.buf.length := rfl
  have henc : (Base64.encode tx).length = needed tx := Base64.length_encode tx
  refine keeps_readOut (p := (· = t.bodyMax)) (fun _ _ _ h => (Except.ok.inj h).symm) ?_
  rintro bodyMax rfl
  split
  · exact Journal.keeps_pure fun _ _ => trivial
  rename_i hroom
  refine keeps_updateOut (m := 0) (fun out out' _ h => ?_) (Nat.zero_le _) ?_
  · rw [← Except.ok.inj h, List.length_nil]
  refine keeps_readOut (p := (·.length = t.bodyOff)) (fun out front _ h => ?_) fun front hfront => ?_
  · rw [sliceTo_ok (show t.bodyOff ≤ t.buf.length by omega)] at h
    rw [← Except.ok.inj h, List.length_take]
    omega
  refine keeps_updateOut (m := t.bodyOff) (fun out out' hlen h => ?_) (by omega) ?_
  · rw [← Except.ok.inj h, List.length_append, hlen, hfront, Nat.zero_add]
  refine keeps_readOut (p := (· = t.bodyOff)) (fun out _ hlen h => ?_) ?_
  · rw [← Except.ok.inj h, ← hlen]
  rintro bodyStart rfl
  refine keeps_updateOut (m := t.bodyOff + needed tx) (fun out out' hlen h => ?_) (by omega) ?_
  · rw [← Except.ok.inj h, List.length_append, List.length_take, List.length_replicate, hlen]
    omega
  refine keeps_updateOut (m := t.bodyOff + needed tx) (fun out out' hlen h => ?_) (by omega) ?_
  · rw [(overwrite_take h).2.1, hlen]
  refine keeps_updateOut (m := t.bodyOff + needed tx) (fun out out' hlen h => ?_) (by omega) ?_
  · rw [← Except.ok.inj h, List.length_take, hlen, henc, Nat.min_self]
  refine keeps_readOut (p := (·.length = t.buf.length - (t.bodyOff + t.bodyMax)))
    (fun out back _ h => ?_) fun back hback => ?_
  · rw [sliceFrom_ok hfit] at h
    rw [← Except.ok.inj h, List.length_drop]
  -- the rest of the template takes no more room than it did behind the full slot
  refine keeps_updateOut (m := t.bodyOff + needed tx + back.length) (fun out out' hlen h => ?_)
    (by omega) ?_
  · rw [← Except.ok.inj h, List.length_append, hlen]
  refine keeps_readOut (p := fun _ => True) (fun _ _ _ _ => trivial) fun realLen _ => ?_
  exact keeps_finishSteps (by omega) realLen

end

/-- Every value the template takes while `splice` is called for one transaction after another. -/
def spliceJournal (t : EnvelopeTemplate) (txs : List Bytes) : List EnvelopeTemplate :=
  Journal.calls (txs.map spliceSteps) t

theorem spliceJournal_within {t : EnvelopeTemplate} (hfit : t.bodyOff + t.bodyMax ≤ t.buf.length)
    (hout : t.out.length ≤ t.reserved) (txs : List Bytes) : ∀ s ∈ t :: t.spliceJournal txs, Within t s := by
  have hstart : Within t t := ⟨t.out.length, hout, t.out, rfl, rfl⟩
  have hcall : ∀ m ∈ txs.map spliceSteps, Journal.Keeps (Within t) (Within t) m fun _ _ => True := by
    intro m hm
    obtain ⟨tx, -, rfl⟩ := List.mem_map.mp hm
    rintro s ⟨n, -, hs⟩
    exact keeps_spliceSteps hfit tx s hs
  intro s hs
  rcases List.mem_cons.mp hs with rfl | hs
  · exact hstart
  · exact Journal.calls_keep hcall hstart s hs

end EnvelopeTemplate

/-- **`splice` never outgrows its buffer.** On a template that `compile` returned, for every sequence
of calls and at every statement of each (also when a call panics): the body slot lies inside `buf`,
`buf` is the one `compile` made, both slices of it are in range, and `out` holds no more than the
padded length `compile` reserved for it. -/
theorem splice_within_reserved (b : EnvelopeSpecBuilder) (t : EnvelopeTemplate)
    (hc : b.build.compile = .ok (.ok t)) (txs : List Bytes) :
    t.reserved = b.paddedLen ∧
      ∀ s ∈ t :: t.spliceJournal txs, s.bodyOff + s.bodyMax ≤ s.buf.length ∧ s.buf = t.buf ∧
        s.out.length ≤ t.reserved ∧ (∃ front, sliceTo s.buf s.bodyOff = .ok front) ∧
        ∃ back, sliceFrom s.buf (s.bodyOff + s.bodyMax) = .ok back := by
  obtain ⟨i, _, _, hcomp⟩ := compile_ok_inv rfl hc
  have hi := (findUnique_eq_some_iff.mp hcomp.body).1
  have hpad := EnvelopeSpecBuilder.length_widened hi hcomp.slotLength
  have hres : t.reserved = b.paddedLen := by
    rw [← hpad]
    exact congrArg List.length hcomp.buf
  have hfit : t.bodyOff + t.bodyMax ≤ t.buf.length := by
    have hbound := hi.bound
    have hlen := congrArg List.length hcomp.buf
    rw [hcomp.bodyOff_eq, hcomp.bodyMax_eq, hlen]
    simp only [List.length_append, List.length_take, hcomp.slotLength]
    omega
  have hempty : t.out.length ≤ t.reserved := by
    rw [(compile_fresh hc).1]
    exact Nat.zero_le _
  refine ⟨hres, fun s hs => ?_⟩
  obtain ⟨n, hn, out, rfl, hlen⟩ := EnvelopeTemplate.spliceJournal_within hfit hempty txs s hs
  refine ⟨hfit, rfl, hlen ▸ hn, ⟨_, sliceTo_ok ?_⟩, ⟨_, sliceFrom_ok hfit⟩⟩
  exact le_trans (Nat.le_add_right _ _) hfit

theorem splice_within_reserved_bare :
    bareTemplate.reserved = bareBuilder.paddedLen ∧
      ∀ s ∈ bareTemplate :: bareTemplate.spliceJournal [[1, 2, 3], [], List.replicate 13 7],
        s.out.length ≤ bareTemplate.reserved := by
  obtain ⟨hres, hall⟩ := splice_within_reserved bareBuilder bareTemplate compile_bareBuilder
    [[1, 2, 3], [], List.replicate 13 7]
  exact ⟨hres, fun s hs => (hall s hs).2.2.1⟩

end TxSender.Http
