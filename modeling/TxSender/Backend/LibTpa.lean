/-
# TxSender.Backend.LibTpa — a TCP connection of the user-space stack, and the write loops.

`LibTpa::submit` on a stream writes with `tpa_write` until the whole buffer is taken: a positive
count moves on, zero lets the stack run and tries again, and anything else is an error at once, an
interrupted call included. As for plain sockets, the answers of the stack are given as lists, and
`written` is what it has accepted on the connection. Only stream connections are modelled: the crate
makes no `TpaConn` with a datagram destination outside this file of the source.
-/
import TxSender.Backend.RawLibc

namespace TxSender.Backend

open TxSender.Lib
open scoped List

namespace LibTpa

/-- A connection made by `connect_tcp`. -/
structure TpaConn where
  written : Bytes
  deriving DecidableEq, Repr

/-- What `tpa_write` returned, and the error number if that was negative. -/
structure WriteReturn where
  n : Int
  errno : Int
  deriving DecidableEq, Repr

/-- The answers of the stack during one call. -/
structure TpaAnswer where
  writes : List WriteReturn
  /-- `tpa_event_poll` -/
  polled : Int
  /-- `ev.events & TPA_EVENT_IN != 0` -/
  readable : Bool
  /-- `tpa_zreadv` -/
  read : RecvReturn
  deriving DecidableEq, Repr

/-- `submit` on a stream, with `sent` bytes already accepted -/
def submitFrom (bytes : Bytes) (sent : Nat) (conn : TpaConn) :
    List WriteReturn → Exec (TpaConn × Except IoError Unit)
  | [] => if sent < bytes.length then .error .blocked else .ok (conn, .ok ())
  | a :: rest =>
      if sent < bytes.length then
        if a.n > 0 then
          submitFrom bytes (sent + a.n.toNat)
            { written := conn.written ++ (bytes.drop sent).take a.n.toNat } rest
        -- `tpa_worker_run`, which moves what was accepted and accepts nothing
        else if a.n = 0 then submitFrom bytes sent conn rest
        else .ok (conn, .error (IoError.fromRawOsError a.errno))
      else .ok (conn, .ok ())

def submit (conn : TpaConn) (bytes : Bytes) (a : TpaAnswer) :
    Exec (TpaConn × Except IoError Unit) :=
  submitFrom bytes 0 conn a.writes

/-- `recv_tcp` with a buffer of `cap` bytes -/
def recvTcp (conn : TpaConn) (cap : Nat) (a : TpaAnswer) : Exec (TpaConn × Except IoError Bytes) :=
  if a.polled ≤ 0 ∨ a.readable = false then .ok (conn, .ok [])
  else
    match a.read with
    | .failed errno => .ok (conn, .error (IoError.fromRawOsError errno))
    | .received bytes => .ok (conn, .ok (bytes.take cap))

end LibTpa

open LibTpa in
/-- The `LibTpa` back end; its `drive` runs the stack. -/
def libTpa : ByteIo TpaConn TpaAnswer where
  submit := LibTpa.submit
  pollRecv := recvTcp
  drive conn _ := conn

namespace LibTpa

/-- What `submit` makes of one return of `tpa_write`. -/
def WriteReturn.attempt (a : WriteReturn) : Attempt IoError :=
  if a.n > 0 then .took a.n.toNat
  else if a.n = 0 then .again
  else .failed (IoError.fromRawOsError a.errno)

theorem submitFrom_eq (bytes : Bytes) (sent : Nat) (conn : TpaConn) (as : List WriteReturn) :
    submitFrom bytes sent conn as =
      (writeLoop bytes sent conn.written (as.map WriteReturn.attempt)).map fun p => (⟨p.1⟩, p.2) := by
  induction as generalizing sent conn with
  | nil =>
      unfold submitFrom writeLoop
      split
      · rfl
      · rfl
  | cons a rest ih =>
      by_cases hleft : sent < bytes.length
      · rw [submitFrom, if_pos hleft, List.map_cons]
        unfold writeLoop WriteReturn.attempt
        rw [if_pos hleft]
        by_cases hn : a.n > 0
        · rw [if_pos hn, if_pos hn]
          exact ih _ _
        · rw [if_neg hn, if_neg hn]
          by_cases hzero : a.n = 0
          · rw [if_pos hzero, if_pos hzero]
            exact ih _ _
          · rw [if_neg hzero, if_neg hzero]
            rfl
      · rw [submitFrom, if_neg hleft, writeLoop_done hleft]
        rfl

end LibTpa

/-! ## What the stacks have accepted -/

/-- Of `bytes`, a call of `submit` that returned `r` had `accepted` taken. -/
def AllOrPart (bytes accepted : Bytes) : Except IoError Unit → Prop
  | .ok () => accepted = bytes
  | .error _ => accepted <+: bytes ∧ accepted ≠ bytes

/-- What a write loop leaves in the sink, from a buffer of which nothing has been sent. -/
theorem writeLoop_allOrPart {bytes out out' : Bytes} {as : List (Attempt IoError)}
    {r : Except IoError Unit} (h : writeLoop bytes 0 out as = .ok (out', r)) :
    ∃ accepted, out' = out ++ accepted ∧ AllOrPart bytes accepted r := by
  obtain ⟨more, hout, hpre, hok⟩ := writeLoop_spec h
  rw [List.drop_zero] at hpre hok
  refine ⟨more, hout, ?_⟩
  cases r with
  | ok u => exact hok.mp rfl
  | error e => exact ⟨hpre, fun hall => by cases hok.mpr hall⟩

/-- **Neither loop skips or repeats a byte.** For every buffer and whatever the write calls return:
when `submit` returns `Ok`, what the stack has accepted is the buffer, once and in order; when it
returns an error, it is a strict beginning of the buffer. -/
theorem submits_all_or_part (bytes : Bytes) :
    (∀ conn conn' answers r, submit conn bytes answers = .ok (conn', r) →
      ∃ accepted, conn'.written = conn.written ++ accepted ∧ AllOrPart bytes accepted r) ∧
    ∀ conn conn' answers r, LibTpa.submit conn bytes answers = .ok (conn', r) →
      ∃ accepted, conn'.written = conn.written ++ accepted ∧ AllOrPart bytes accepted r := by
  refine ⟨fun conn conn' answers r h => ?_, fun conn conn' answers r h => ?_⟩
  · unfold submit at h
    rw [submitFrom_eq] at h
    obtain ⟨⟨out', r'⟩, hloop, heq⟩ := map_eq_ok.mp h
    obtain ⟨rfl, rfl⟩ := Prod.mk.inj heq
    exact writeLoop_allOrPart hloop
  · unfold LibTpa.submit at h
    rw [LibTpa.submitFrom_eq] at h
    obtain ⟨⟨out', r'⟩, hloop, heq⟩ := map_eq_ok.mp h
    obtain ⟨rfl, rfl⟩ := Prod.mk.inj heq
    exact writeLoop_allOrPart hloop

/-- Two partial writes with an interruption between them; two with a full stack between them, and
then a failure. -/
theorem submits_all_or_part_runs :
    (∃ accepted, [1, 2, 3] = [] ++ accepted ∧ AllOrPart [1, 2, 3] accepted (.ok ())) ∧
      ∃ accepted, [1, 2] = [] ++ accepted ∧
        AllOrPart [1, 2, 3] accepted (.error (IoError.fromRawOsError 104)) :=
  ⟨(submits_all_or_part [1, 2, 3]).1 ⟨[]⟩ ⟨[1, 2, 3]⟩ ⟨[⟨2, 0⟩, ⟨-1, 4⟩, ⟨1, 0⟩], []⟩ _ rfl,
    (submits_all_or_part [1, 2, 3]).2 ⟨[]⟩ ⟨[1, 2]⟩
      ⟨[⟨1, 0⟩, ⟨0, 0⟩, ⟨1, 0⟩, ⟨-1, 104⟩], 0, false, .failed 0⟩ _ rfl⟩

end TxSender.Backend
