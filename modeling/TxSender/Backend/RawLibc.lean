/-
# TxSender.Backend.RawLibc — a socket written and read with plain system calls.

The kernel's answers to the system calls of one `submit` or `poll_recv` are given as lists. A call
that runs out of answers is still spinning (`Halt.blocked`). What the kernel has accepted on a
connection so far is kept in `written`.
-/
import TxSender.Conn.Basic
import TxSender.Http.Pipeline
import TxSender.Lib.WriteLoop

namespace TxSender.Backend

open TxSender.Lib
open TxSender.Http
open scoped List

/-- A connected stream socket. -/
structure RawConn where
  written : Bytes
  deriving DecidableEq, Repr

/-- What `send` returned, and the error number if that was not positive. -/
structure SendReturn where
  n : Int
  errno : Int
  deriving DecidableEq, Repr

/-- What `recv` returned: the bytes received (none at the end of the stream), or an error number. -/
inductive RecvReturn where
  | received (bytes : Bytes)
  | failed (errno : Int)
  deriving DecidableEq, Repr

/-- The kernel's answers during one call. -/
structure RawAnswer where
  sends : List SendReturn
  recvs : List RecvReturn
  deriving DecidableEq, Repr

def eintr : Int := 4

/-- `submit` on a stream, with `sent` bytes already accepted -/
def submitFrom (bytes : Bytes) (sent : Nat) (conn : RawConn) :
    List SendReturn → Exec (RawConn × Except IoError Unit)
  | [] => if sent < bytes.length then .error .blocked else .ok (conn, .ok ())
  | a :: rest =>
      if sent < bytes.length then
        if a.n > 0 then
          submitFrom bytes (sent + a.n.toNat)
            { written := conn.written ++ (bytes.drop sent).take a.n.toNat } rest
        else
          let err := IoError.fromRawOsError a.errno
          if err.rawOsError = some eintr then submitFrom bytes sent conn rest
          else if err.kind = .wouldBlock then submitFrom bytes sent conn rest
          else .ok (conn, .error err)
      else .ok (conn, .ok ())

def submit (conn : RawConn) (bytes : Bytes) (a : RawAnswer) :
    Exec (RawConn × Except IoError Unit) :=
  submitFrom bytes 0 conn a.sends

/-- `poll_recv` with a buffer of `cap` bytes -/
def pollRecvFrom (conn : RawConn) (cap : Nat) :
    List RecvReturn → Exec (RawConn × Except IoError Bytes)
  | [] => .error .blocked
  | .received bytes :: _ =>
      if bytes.length > 0 then .ok (conn, .ok (bytes.take cap))
      else .ok (conn, .error (IoError.fromKind .unexpectedEof))
  | .failed errno :: rest =>
      let err := IoError.fromRawOsError errno
      if err.rawOsError = some eintr then pollRecvFrom conn cap rest
      else if err.kind = .wouldBlock then .ok (conn, .ok [])
      else .ok (conn, .error err)

/-- The `RawLibc` back end; its `drive` does nothing. -/
def rawLibc : ByteIo RawConn RawAnswer where
  submit := submit
  pollRecv conn cap a := pollRecvFrom conn cap a.recvs
  drive conn _ := conn

/-! ## What `submit` guarantees -/

/-- What `submit` makes of one return of `send`. -/
def SendReturn.attempt (a : SendReturn) : Attempt IoError :=
  if a.n > 0 then .took a.n.toNat
  else
    let err := IoError.fromRawOsError a.errno
    if err.rawOsError = some eintr ∨ err.kind = .wouldBlock then .again else .failed err

/-- `submit` is a write loop over these. -/
theorem submitFrom_eq (bytes : Bytes) (sent : Nat) (conn : RawConn) (as : List SendReturn) :
    submitFrom bytes sent conn as =
      (writeLoop bytes sent conn.written (as.map SendReturn.attempt)).map fun p => (⟨p.1⟩, p.2) := by
  induction as generalizing sent conn with
  | nil =>
      unfold submitFrom writeLoop
      split
      · rfl
      · rfl
  | cons a rest ih =>
      by_cases hleft : sent < bytes.length
      · rw [submitFrom, if_pos hleft, List.map_cons]
        unfold writeLoop SendReturn.attempt
        rw [if_pos hleft]
        by_cases hn : a.n > 0
        · rw [if_pos hn, if_pos hn]
          exact ih _ _
        · rw [if_neg hn, if_neg hn]
          simp only
          by_cases hint : (IoError.fromRawOsError a.errno).rawOsError = some eintr
          · rw [if_pos hint, if_pos (.inl hint)]
            exact ih _ _
          · rw [if_neg hint]
            by_cases hblock : (IoError.fromRawOsError a.errno).kind = .wouldBlock
            · rw [if_pos hblock, if_pos (.inr hblock)]
              exact ih _ _
            · rw [if_neg hblock, if_neg (not_or.mpr ⟨hint, hblock⟩)]
              rfl
      · rw [submitFrom, if_neg hleft, writeLoop_done hleft]
        rfl

/-- **`submit` is all or an error.** It returns `Ok` only when the kernel has accepted every byte, and
an error only when it has accepted a proper beginning. -/
theorem submitFrom_spec {bytes : Bytes} {sent : Nat} {conn conn' : RawConn} {as : List SendReturn}
    {r : Except IoError Unit} (h : submitFrom bytes sent conn as = .ok (conn', r)) :
    ∃ more, conn'.written = conn.written ++ more ∧ more <+: bytes.drop sent ∧
      (r = .ok () ↔ more = bytes.drop sent) := by
  rw [submitFrom_eq] at h
  obtain ⟨⟨out', r'⟩, hloop, heq⟩ := map_eq_ok.mp h
  obtain ⟨rfl, rfl⟩ := Prod.mk.inj heq
  exact writeLoop_spec hloop

theorem pollRecvFrom_written {conn conn' : RawConn} {cap : Nat} {as : List RecvReturn}
    {r : Except IoError Bytes} (h : pollRecvFrom conn cap as = .ok (conn', r)) : conn' = conn := by
  induction as with
  | nil => cases h
  | cons a rest ih =>
      cases a with
      | received bytes =>
          rw [pollRecvFrom] at h
          split at h
          · exact (Prod.mk.inj (Except.ok.inj h)).1.symm
          · exact (Prod.mk.inj (Except.ok.inj h)).1.symm
      | failed errno =>
          simp only [pollRecvFrom] at h
          split at h
          · exact ih h
          · split at h
            · exact (Prod.mk.inj (Except.ok.inj h)).1.symm
            · exact (Prod.mk.inj (Except.ok.inj h)).1.symm

/-! ## A bare connection -/

/-- A new socket, under an engine that sends plain text. -/
def bareConn : HttpConn RawConn Bytes where
  io := { written := [] }
  engine := HttpEngine.new [] bareTemplate

namespace RawAnswer

/-- The kernel takes `n` bytes. -/
def takes (n : Nat) : RawAnswer where
  sends := [⟨n, 0⟩]
  recvs := []

/-- The kernel refuses to send. -/
def refuses (errno : Int) : RawAnswer where
  sends := [⟨-1, errno⟩]
  recvs := []

/-- Nothing to receive. -/
def silent : RawAnswer where
  sends := []
  recvs := [.failed 11]

def arrives (bytes : Bytes) : RawAnswer where
  sends := []
  recvs := [.received bytes]

end RawAnswer

end TxSender.Backend
