/-
# TxSender.Http.Reassembly — what `bodyIfComplete` answers, and one response put together.

The first half reads `bodyIfComplete` on arbitrary bytes. `headerBlock` and `declaredLength` name the
two things it looks for, and the answer depends on nothing else: it is safe exactly when the end of
the body can be computed at all (`bodyIfComplete_safe_iff`), because the declared length is added to
the header's before anything is compared.

The second half is a single well-formed response that arrives in pieces: nothing comes out before the
last of its bytes, then its body does, and the buffer is empty (`ingest_reassembles`).
-/
import TxSender.Http.Pipeline

namespace TxSender.Http

open TxSender.Lib
open TxSender.Lib.Exec
open TxSender.Lib.Search (find)

/-! ## The two things the scan looks for -/

/-- The bytes up to and including the first blank line. -/
def headerBlock (acc : Bytes) : Option Bytes :=
  (find crlfcrlf acc).map fun sep => acc.take (sep + 4)

/-- The number on the first content-length line of a header block. -/
def declaredLength (h : Bytes) : Option Nat :=
  (decodeUtf8 h).bind fun cs => (contentLengthValue (lines cs)).bind parseUsize

theorem headerBlock_eq_some {acc h : Bytes} (hh : headerBlock acc = some h) :
    find crlfcrlf acc = some (h.length - 4) ∧ 4 ≤ h.length ∧ h <+: acc := by
  unfold headerBlock at hh
  obtain ⟨sep, hsep, rfl⟩ := Option.map_eq_some_iff.mp hh
  have hb := Search.find_bound hsep
  have hcr : crlfcrlf.length = 4 := rfl
  have hlen : (acc.take (sep + 4)).length = sep + 4 := by
    rw [List.length_take]
    omega
  rw [hlen]
  exact ⟨hsep, by omega, List.take_prefix _ _⟩

/-- Without a header block, or without a length in it, there is no body yet. -/
theorem bodyIfComplete_eq_none {acc : Bytes}
    (h : (headerBlock acc).bind declaredLength = none) : bodyIfComplete acc = .ok none := by
  unfold headerBlock declaredLength at h
  unfold bodyIfComplete
  cases hf : find crlfcrlf acc with
  | none => rfl
  | some sep =>
      rw [hf, Option.map_some, Option.bind_some] at h
      simp only
      cases hd : decodeUtf8 (acc.take (sep + 4)) with
      | none => rfl
      | some cs =>
          rw [hd, Option.bind_some] at h
          simp only [findContentLength_eq, ok_bind, h, pure_eq_ok]

/-- With both, the rest is the arithmetic on the two lengths. -/
theorem bodyIfComplete_eq {acc h : Bytes} {n : Nat} (hh : headerBlock acc = some h)
    (hn : declaredLength h = some n) :
    bodyIfComplete acc = (do
      let stop ← addUsize h.length n
      if acc.length ≥ stop then (slice acc h.length stop).map some else pure none) := by
  obtain ⟨hsep, hfour, hpre⟩ := headerBlock_eq_some hh
  obtain ⟨cs, hcs, hv⟩ := Option.bind_eq_some_iff.mp hn
  have hend : h.length - 4 + 4 = h.length := by omega
  unfold bodyIfComplete
  simp only [hsep, hend, ← List.prefix_iff_eq_take.mp hpre, hcs, findContentLength_eq, ok_bind, hv]

/-! ## Safety on arbitrary bytes -/

/-- The call returns, and what it returns is cut out of `acc` right behind the header block, as long
as the block says. -/
def SafeAnswer (acc : Bytes) : Prop :=
  bodyIfComplete acc = .ok none ∨
    ∃ h b rest, bodyIfComplete acc = .ok (some b) ∧ acc = h ++ b ++ rest ∧
      headerBlock acc = some h ∧ declaredLength h = some b.length

/-- The end of the announced body is a machine number. -/
def EndFits (acc : Bytes) : Prop :=
  ∀ h n, headerBlock acc = some h → declaredLength h = some n → h.length + n < 2 ^ 64

theorem safeAnswer_of_length {acc h : Bytes} {n : Nat} (hh : headerBlock acc = some h)
    (hn : declaredLength h = some n) (hfits : h.length + n < 2 ^ 64) : SafeAnswer acc := by
  have heq := bodyIfComplete_eq hh hn
  rw [addUsize_ok hfits, ok_bind] at heq
  obtain ⟨_, _, rest, rfl⟩ := headerBlock_eq_some hh
  by_cases hfull : (h ++ rest).length ≥ h.length + n
  · rw [if_pos hfull, slice_ok (by omega) hfull, List.drop_left, Nat.add_sub_cancel_left] at heq
    rw [List.length_append] at hfull
    refine Or.inr ⟨h, rest.take n, rest.drop n, heq, ?_, hh, ?_⟩
    · rw [List.append_assoc, List.take_append_drop]
    · rw [hn, List.length_take, Nat.min_eq_left (by omega)]
  · rw [if_neg hfull] at heq
    exact Or.inl heq

/-- **Safe exactly when the end of the body fits a machine word.** Nothing else a server can send
makes the scan fail: the blank line, the UTF-8 check, the cut behind `content-length:` and the number
are all handled. -/
theorem bodyIfComplete_safe_iff (acc : Bytes) : SafeAnswer acc ↔ EndFits acc := by
  constructor
  · intro hsafe h n hh hn
    by_contra hbig
    have hpanic : bodyIfComplete acc = .error .panic := by
      rw [bodyIfComplete_eq hh hn]
      unfold addUsize
      rw [if_neg hbig]
      rfl
    unfold SafeAnswer at hsafe
    rw [hpanic] at hsafe
    rcases hsafe with hnone | ⟨_, _, _, hsome, _⟩
    · cases hnone
    · cases hsome
  · intro hfits
    cases hl : (headerBlock acc).bind declaredLength with
    | none => exact Or.inl (bodyIfComplete_eq_none hl)
    | some n =>
        obtain ⟨h, hh, hn⟩ := Option.bind_eq_some_iff.mp hl
        exact safeAnswer_of_length hh hn (hfits h n hh hn)

/-- The largest length there is, announced in front of an empty body. -/
def hugeLength : Bytes := utf8 "Content-Length: 18446744073709551615\r\n\r\n"

/-- One header line from the server stops the thread. -/
theorem huge_length_panics : ¬ SafeAnswer hugeLength := by
  have hpanic : bodyIfComplete hugeLength = .error .panic := by decide +kernel
  unfold SafeAnswer
  rw [hpanic]
  rintro (hnone | ⟨_, _, _, hsome, _⟩)
  · cases hnone
  · cases hsome

/-! ## One response in pieces -/

/-- Successive calls on the pieces of one response, from a buffer that holds the beginning of it.
The call that adds the last byte is the one that returns. -/
theorem absorbAll_reassembles {r : Response} (hr : r.WellFormed)
    (hmax : r.bytes.length ≤ maxResponse) (ps : List Bytes) (rx : Bytes)
    (hsplit : rx ++ ps.flatten = r.bytes) (hrx : rx ≠ r.bytes) :
    ∃ k < ps.length, rx ++ (ps.take k).flatten ≠ r.bytes ∧
      rx ++ (ps.take (k + 1)).flatten = r.bytes ∧
      absorbAll rx (ps.take (k + 1)) =
        .ok ([], List.replicate k (.ok none) ++ [.ok (some r.body)]) := by
  have hshort := lt_of_le_maxResponse hmax
  induction ps generalizing rx with
  | nil =>
      rw [List.flatten_nil, List.append_nil] at hsplit
      exact absurd hsplit hrx
  | cons p ps ih =>
      rw [List.flatten_cons, ← List.append_assoc] at hsplit
      by_cases hdone : rx ++ p = r.bytes
      · -- this piece ends the response
        have hset : settle (rx ++ p) = .ok ([], .ok (some r.body)) := by
          apply settle_some
          rw [hdone]
          simpa using hr.bodyIfComplete_full hshort []
        refine ⟨0, by simp, by simpa using hrx, by simpa using hdone, ?_⟩
        exact (absorbAll_cons hset [] [] [.ok (some r.body)]).mpr ⟨[], rfl, rfl⟩
      · have hmore : ps.flatten ≠ [] := by
          intro hnil
          rw [hnil, List.append_nil] at hsplit
          exact hdone hsplit
        have hle : (rx ++ p).length ≤ maxResponse := by
          have := congrArg List.length hsplit
          rw [List.length_append] at this
          omega
        have hset : settle (rx ++ p) = .ok (rx ++ p, .ok none) :=
          settle_none (hr.bodyIfComplete_partial hshort hsplit.symm hmore) hle
        obtain ⟨k, hk, hbefore, hafter, hrun⟩ := ih (rx ++ p) hsplit hdone
        refine ⟨k + 1, by simpa using hk, by simpa using hbefore, by simpa using hafter, ?_⟩
        rw [List.take_succ_cons, absorbAll_cons hset]
        exact ⟨_, rfl, hrun⟩

/-- **Single-response reassembly.** However one response is cut, every call before the whole of it
has been fed returns nothing, the call that completes it returns its body, and the buffer is then
empty. -/
theorem ingest_reassembles {T : Type} (api : Tls T) (e : HttpEngine T) (r : Response)
    (cs ps : List Bytes) (hr : r.WellFormed) (hmax : r.bytes.length ≤ maxResponse)
    (he : e.rxPlain = []) (hd : Delivers api e.tls cs ps) (hsplit : ps.flatten = r.bytes) :
    ∃ k < cs.length, (ps.take k).flatten ≠ r.bytes ∧ (ps.take (k + 1)).flatten = r.bytes ∧
      ∃ e', e.ingestAll api (cs.take (k + 1)) =
          .ok (e', List.replicate k (.ok none) ++ [.ok (some r.body)]) ∧
        e'.rxPlain = [] := by
  have hne : [] ≠ r.bytes := by
    intro hnil
    have := hr.bytes_pos
    rw [← hnil] at this
    exact Nat.lt_irrefl 0 this
  obtain ⟨k, hk, hbefore, hafter, hrun⟩ := absorbAll_reassembles hr hmax ps [] hsplit hne
  refine ⟨k, by rwa [hd.length_eq], hbefore, hafter, ?_⟩
  have hmap := HttpEngine.ingestAll_eq (hd.take (k + 1)) e rfl
  rw [he, hrun] at hmap
  obtain ⟨⟨e', out⟩, hcalls, hpair⟩ := map_eq_ok.mp hmap
  simp only [Prod.mk.injEq] at hpair
  obtain ⟨hbuf, rfl⟩ := hpair
  exact ⟨e', hcalls, hbuf⟩

/-- A response cut inside its blank line, with empty chunks around it. -/
theorem ingest_reassembles_cut :
    ∃ k < 4, k = 2 ∧ ∃ e', (HttpEngine.new [] bareTemplate).ingestAll plainTls
        ([[], okResponse.bytes.take 37, okResponse.bytes.drop 37, []].take (k + 1)) =
          .ok (e', List.replicate k (.ok none) ++ [.ok (some okResponse.body)]) ∧
        e'.rxPlain = [] := by
  obtain ⟨hr, hmax⟩ := okResponse_servable 1 okResponse (by simp)
  obtain ⟨k, hk, hbefore, hafter, hrun⟩ :=
    ingest_reassembles plainTls (HttpEngine.new [] bareTemplate) okResponse
      [[], okResponse.bytes.take 37, okResponse.bytes.drop 37, []] _ hr hmax rfl
      (plainTls_delivers _) (by decide)
  refine ⟨k, hk, ?_, hrun⟩
  have hcases : k = 0 ∨ k = 1 ∨ k = 2 ∨ k = 3 := by
    rw [List.length_cons, List.length_cons, List.length_cons, List.length_singleton] at hk
    omega
  rcases hcases with rfl | rfl | rfl | rfl
  · exact absurd hafter (by decide)
  · exact absurd hafter (by decide)
  · rfl
  · exact absurd hbefore (by decide)

end TxSender.Http
