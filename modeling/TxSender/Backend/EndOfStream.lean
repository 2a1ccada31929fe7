/-
# TxSender.Backend.EndOfStream — the results of `poll_recv` on the two byte stream back ends.

The same receive results of the kernel reach the caller in two ways: `RawLibc::poll_recv` makes the
system call itself, `IoUring::poll_recv` finds the result of an earlier submission. Both use `Ok(0)` for
"nothing yet", and the ring uses it for the end of the stream as well.
-/
import TxSender.Backend.RawLibc
import TxSender.Backend.RingRecv

namespace TxSender.Backend

open TxSender.Lib

/-- What a receive of at most `rxCap` bytes on a connection comes to. -/
inductive KernelRecv where
  | data (bytes : Bytes) (hpos : 0 < bytes.length) (hlen : bytes.length ≤ rxCap)
  | nothing
  | eof
  | failed (errno : Errno)
  deriving DecidableEq

def eagain : Int := 11

namespace KernelRecv

/-- As `recv` returns it. -/
def raw : KernelRecv → RecvReturn
  | data bytes _ _ => .received bytes
  | nothing => .failed eagain
  | eof => .received []
  | failed errno => .failed errno.val

/-- As a receive completes with it; while there is nothing, it does not complete. -/
def completion : KernelRecv → Option (Except Errno Bytes)
  | data bytes _ _ => some (.ok bytes)
  | nothing => none
  | eof => some (.ok [])
  | failed errno => some (.error errno)

/-- The results that both back ends report alike. -/
def Plain : KernelRecv → Prop
  | data _ _ _ | nothing => True
  | eof => False
  | failed errno => (errno.val : Int) ≠ eintr ∧ (errno.val : Int) ≠ eagain

instance : DecidablePred Plain
  | data _ _ _ => inferInstanceAs (Decidable True)
  | nothing => inferInstanceAs (Decidable True)
  | eof => inferInstanceAs (Decidable False)
  | failed errno =>
      inferInstanceAs (Decidable ((errno.val : Int) ≠ eintr ∧ (errno.val : Int) ≠ eagain))

end KernelRecv

/-! ## `RawLibc` -/

/-- What one call of `RawLibc::poll_recv` after the other returns. Answers go to the present call until
it returns; `spun` are those it has had. -/
def rawPolls (conn : RawConn) (cap : Nat) (spun : List RecvReturn) :
    List RecvReturn → List (Except IoError Bytes)
  | [] => []
  | a :: rest =>
      match pollRecvFrom conn cap (spun ++ [a]) with
      | .ok (_, res) => res :: rawPolls conn cap [] rest
      | .error _ => rawPolls conn cap (spun ++ [a]) rest

theorem decodeErrorKind_wouldBlock {code : Int} : decodeErrorKind code = .wouldBlock ↔ code = eagain := by
  constructor
  · intro h
    unfold decodeErrorKind at h
    split at h <;> first | rfl | cases h
  · rintro rfl
    rfl

/-- Interrupted receives are made again. -/
theorem pollRecvFrom_spun (conn : RawConn) (cap : Nat) {spun : List RecvReturn}
    (h : ∀ a ∈ spun, a = .failed eintr) (as : List RecvReturn) :
    pollRecvFrom conn cap (spun ++ as) = pollRecvFrom conn cap as := by
  induction spun with
  | nil => rfl
  | cons a spun ih =>
      rw [h a List.mem_cons_self]
      exact ih fun b hb => h b (List.mem_cons_of_mem _ hb)

namespace KernelRecv

/-- What `RawLibc` makes of a result, but for `Ok(0)`. -/
def rawReport : KernelRecv → List (Except IoError Bytes)
  | data bytes _ _ => [.ok bytes]
  | nothing => []
  | eof => [.error (IoError.fromKind .unexpectedEof)]
  | failed errno =>
      if (errno.val : Int) = eintr ∨ (errno.val : Int) = eagain then []
      else [.error (IoError.fromRawOsError errno.val)]

/-- What `IoUring` makes of a result, but for `Ok(0)`. -/
def ringReport : KernelRecv → List (Except IoError Bytes)
  | data bytes _ _ => [.ok bytes]
  | nothing | eof => []
  | failed errno => [.error (IoError.fromRawOsError errno.val)]

end KernelRecv

open IoUring KernelRecv

theorem busy_cons (res : Except IoError Bytes) (results : List (Except IoError Bytes)) :
    busy (res :: results) = if res = .ok [] then busy results else res :: busy results := by
  by_cases hres : res = .ok []
  · simp [busy, hres]
  · simp [busy, hres]

/-- One after the other, the calls report each result by itself. -/
theorem busy_rawPolls (conn : RawConn) (rs : List KernelRecv) {spun : List RecvReturn}
    (hspun : ∀ a ∈ spun, a = .failed eintr) :
    busy (rawPolls conn rxCap spun (rs.map raw)) = rs.flatMap rawReport := by
  induction rs generalizing spun with
  | nil => rfl
  | cons r rs ih =>
      have hnext : busy (rawPolls conn rxCap [] (rs.map raw)) = rs.flatMap rawReport := ih (by simp)
      rw [List.map_cons, rawPolls, pollRecvFrom_spun conn rxCap hspun, List.flatMap_cons]
      cases r with
      | data bytes hpos hlen =>
          have hne : bytes ≠ [] := List.ne_nil_of_length_pos hpos
          simp only [raw, pollRecvFrom, gt_iff_lt, if_pos hpos, List.take_of_length_le hlen, busy_cons,
            Except.ok.injEq, if_neg hne, hnext]
          rfl
      | nothing =>
          rw [← hnext]
          rfl
      | eof =>
          rw [← hnext]
          rfl
      | failed errno =>
          simp only [raw, pollRecvFrom, rawReport, IoError.fromRawOsError, Option.some.injEq,
            decodeErrorKind_wouldBlock]
          by_cases hintr : (errno.val : Int) = eintr
          · rw [if_pos hintr, if_pos (.inl hintr), List.nil_append]
            refine ih fun a ha => ?_
            obtain ha | ha := List.mem_append.mp ha
            · exact hspun a ha
            · rw [List.mem_singleton.mp ha, hintr]
          · by_cases hagain : (errno.val : Int) = eagain
            · rw [if_neg hintr, if_pos hagain, if_pos (.inr hagain), List.nil_append, ← hnext]
              rfl
            · rw [if_neg hintr, if_neg hagain, if_neg (not_or.mpr ⟨hintr, hagain⟩), ← hnext]
              rfl

/-! ## `IoUring` -/

def reportedBy (c : Idx) : Event → Option (Except IoError Bytes)
  | .pollReturned d _ res => if d = c then some res else none
  | .pollFailed d e => if d = c then some (.error e) else none
  | _ => none

/-- What the calls of `IoUring::poll_recv` on `c` returned, in order. -/
def reportsOf (c : Idx) (log : List Event) : List (Except IoError Bytes) :=
  log.filterMap (reportedBy c)

/-- A failed submission ended a `poll_recv` on `c`. -/
def cutShort (c : Idx) : Event → Bool
  | .pollFailed d _ => d = c
  | _ => false

/-- Unless a submission fails, all that is returned comes from the results of receives. -/
theorem reportsOf_eq {c : Idx} {log : List Event} (h : ∀ e ∈ log, cutShort c e = false) :
    reportsOf c log = pollsOf c log := by
  refine List.filterMap_congr fun e he => ?_
  cases e with
  | pollFailed d err =>
      have hd : d ≠ c := by simpa [cutShort] using h _ he
      simp [reportedBy, polledBy, hd]
  | _ => rfl

theorem busy_completions (rs : List KernelRecv) :
    busy ((rs.filterMap completion).map ioResult) = rs.flatMap ringReport := by
  induction rs with
  | nil => rfl
  | cons r rs ih =>
      rw [List.flatMap_cons, ← ih]
      cases r with
      | data bytes hpos hlen =>
          have hne : bytes ≠ [] := List.ne_nil_of_length_pos hpos
          simp only [List.filterMap_cons, completion, List.map_cons, ioResult, busy_cons,
            Except.ok.injEq, if_neg hne]
          rfl
      | nothing | eof | failed => rfl

/-! ## Where they agree -/

theorem rawReport_eq_ringReport {r : KernelRecv} (h : r.Plain) : r.rawReport = r.ringReport := by
  cases r with
  | data | nothing => rfl
  | eof => cases h
  | failed errno => exact if_neg (not_or.mpr h)

/-- Each of the others shows in one of the two sequences and not in the other. -/
theorem plain_of_reports {rs : List KernelRecv} (h : rs.flatMap ringReport = rs.flatMap rawReport)
    {r : KernelRecv} (hr : r ∈ rs) : r.Plain := by
  cases r with
  | data | nothing => trivial
  | eof =>
      have hmem : .error (IoError.fromKind .unexpectedEof) ∈ rs.flatMap rawReport :=
        List.mem_flatMap.mpr ⟨eof, hr, List.mem_singleton_self _⟩
      rw [← h] at hmem
      obtain ⟨r', -, hmem⟩ := List.mem_flatMap.mp hmem
      -- every error of the ring has a number
      cases r' with
      | failed errno => simp [ringReport, IoError.fromRawOsError, IoError.fromKind] at hmem
      | data | nothing | eof => simp [ringReport] at hmem
  | failed errno =>
      by_contra hspecial
      have hmem : .error (IoError.fromRawOsError errno.val) ∈ rs.flatMap ringReport :=
        List.mem_flatMap.mpr ⟨failed errno, hr, List.mem_singleton_self _⟩
      rw [h] at hmem
      obtain ⟨r', -, hmem⟩ := List.mem_flatMap.mp hmem
      cases r' with
      | failed errno' =>
          -- and `RawLibc` reports neither of the two numbers
          simp only [rawReport] at hmem
          split at hmem
          next => cases hmem
          next hplain =>
            simp only [List.mem_singleton, IoError.fromRawOsError, Except.error.injEq, IoError.mk.injEq,
              Option.some.injEq] at hmem
            rw [← hmem.2] at hplain
            exact hspecial (not_or.mp hplain)
      | eof => simp [rawReport, IoError.fromRawOsError, IoError.fromKind] at hmem
      | data | nothing => simp [rawReport] at hmem

/-- **Where the back ends agree.** For every run of a ring in which the receives of a connection
completed with the results `rs` and all were read, with whole buffers and no failed submission: once the
idle results are removed, the ring has reported what `RawLibc` reports for the same results exactly
when none of them is an end of stream, an interruption or a would-block. -/
theorem reports_agree_iff {mode : IoUringMode} {sqpoll : Bool} {actions : List Action} {s : IoUring}
    {log : List Event} (hrun : machine.run (start mode sqpoll) actions = .ok (s, log))
    (hwhole : ∀ e ∈ log, wholeBuffer e = true) {c : Idx} {rs : List KernelRecv}
    (hrecv : receivedOn c log = rs.filterMap completion) (hread : s.unconsumed c = [])
    (hflush : ∀ e ∈ log, cutShort c e = false) (conn : RawConn) :
    busy (reportsOf c log) = busy (rawPolls conn rxCap [] (rs.map raw)) ↔ ∀ r ∈ rs, r.Plain := by
  have hring := (recvOk_run hrun).reports hwhole c
  rw [hread, hrecv, busy_completions, List.map_nil, ← busy_append, List.append_nil] at hring
  rw [reportsOf_eq hflush, busy_rawPolls conn rs (by simp), hring]
  constructor
  · exact fun hsame r hr => plain_of_reports hsame hr
  · intro hall
    exact List.flatMap_congr fun r hr => (rawReport_eq_ringReport (hall r hr)).symm

/-- A poll that pushes a receive, the receive's completion, and a poll that reads its result. -/
def readOnce (c : Idx) (res : Except Errno Bytes) : List Action :=
  .call (.pollRecv c rxCap) :: (List.replicate 3 (.caller (.ok 1)) ++
    [.recvDone 0 res, .call (.pollRecv c rxCap), .caller (.ok 0), .caller (.ok 0)])

/-- The server answers, and later resets the connection. -/
def resetActions : List Action :=
  .connect :: (readOnce 0 (.ok [72, 84]) ++ readOnce 0 (.error ⟨104, by decide⟩))

def resetResults : List KernelRecv :=
  [.data [72, 84] (by decide) (by decide), .nothing, .failed ⟨104, by decide⟩]

theorem reports_agree_reset :
    ∃ s log, machine.run (start .sqeStream false) resetActions = .ok (s, log) ∧
      busy (reportsOf 0 log) = busy (rawPolls ⟨[]⟩ rxCap [] (resetResults.map raw)) := by
  have hrun : Exec.Yields (machine.run (start .sqeStream false) resetActions) fun out =>
      (∀ e ∈ out.2, wholeBuffer e = true) ∧ receivedOn 0 out.2 = resetResults.filterMap completion ∧
        out.1.unconsumed 0 = [] ∧ ∀ e ∈ out.2, cutShort 0 e = false := by
    decide +kernel
  obtain ⟨⟨s, log⟩, hrun, hwhole, hrecv, hread, hflush⟩ := hrun
  exact ⟨s, log, hrun, (reports_agree_iff hrun hwhole hrecv hread hflush ⟨[]⟩).mpr (by decide)⟩

/-- **The ring hides the end of the stream.** The server closes the connection: `RawLibc` reports
`UnexpectedEof`, and the polls of the ring report `Ok(0)`, as if nothing had come. -/
theorem ring_hides_eof :
    (machine.run (start .sqeStream false) (.connect :: readOnce 0 (.ok []))).Yields
        (fun (_, log) => receivedOn 0 log = [KernelRecv.eof].filterMap completion ∧
          reportsOf 0 log = [.ok [], .ok []]) ∧
      rawPolls ⟨[]⟩ rxCap [] ([KernelRecv.eof].map raw) =
        [.error (IoError.fromKind .unexpectedEof)] := by
  decide +kernel

end TxSender.Backend
