/-
# TxSender.Backend.SharedRing — several connections on one `io_uring`.

The completion maps of `IoUring` are keyed by the user data of an entry, which holds the number of its
connection and the kind of the operation. The kernel completes the entries it has taken in any order,
`io_uring_enter` may fail at any time, and with SQPOLL the kernel's polling thread takes entries while
it is awake and may go to sleep when it finds none. Nothing wakes it again: `flush_submit` makes no
system call then.

Staged buffers are numbered in the order of the `submit` calls, over all connections; an entry names
the buffer it points to. `Turn` says all that one step can do, and the modules about receives, sends
and the polling thread take their invariants from it.
-/
import Mathlib.Data.List.Perm.Basic
import Mathlib.Logic.Function.Basic
import TxSender.Backend.IoUring

namespace TxSender.Backend

open TxSender.Lib

def opSend : Nat := 0
def opRecv : Nat := 1

/-- `(idx << 1) | op`, a `u64` -/
def ud (idx op : Nat) : Nat := ((idx <<< 1) ||| op) % 2 ^ 64

/-- The number of a connection. A ring counts its connections up from 0 and does not live to see
`2 ^ 63` of them, where `ud` would lose a bit. -/
abbrev Idx := Fin (2 ^ 63)

instance neZeroIdx : NeZero (2 ^ 63 : Nat) := inferInstance

/-- Error numbers are positive. -/
abbrev Errno := { n : Nat // 0 < n }

/-- A connection; each buffer in `sendInFlight` has its number. -/
structure UringConn where
  rxBuf : Bytes
  recvInFlight : Bool
  sendInFlight : List (Nat × Bytes)
  deriving DecidableEq, Repr

def UringConn.new : UringConn where
  rxBuf := List.replicate rxCap 0
  recvInFlight := false
  sendInFlight := []

namespace IoUring

/-- A submission queue entry. -/
inductive Sqe where
  | send (idx : Idx) (buf : Nat) (bytes : Bytes)
  | recv (idx : Idx)
  deriving DecidableEq, Repr

def Sqe.userData : Sqe → Nat
  | .send idx _ _ => ud idx opSend
  | .recv idx => ud idx opRecv

/-- A completion of an entry, of which the caller sees the user data. -/
structure Cqe where
  entry : Sqe
  result : Int
  deriving DecidableEq, Repr

/-- A call of one of the three methods. -/
inductive Op where
  | submit (c : Idx) (kind : Wire) (bytes : Bytes)
  | pollRecv (c : Idx) (cap : Nat)
  | drive
  deriving DecidableEq, Repr

/-- A call that has begun. -/
inductive Call where
  | submit (c : Idx)
  | pollRecv (c : Idx) (cap : Nat)
  | drive
  deriving DecidableEq, Repr

/-- Where the caller stands. -/
inductive Pc where
  | idle
  /-- `sq.push(&entry)` -/
  | push (entry : Sqe) (loop : PushLoop) (call : Call)
  /-- the queue was full: `flush_submit` and `reap`, and once more -/
  | full (entry : Sqe) (loop : PushLoop) (call : Call)
  /-- `pending.pop_front()` -/
  | drain (call : Call)
  /-- the last `flush_submit` of `submit` and `drive_inner` -/
  | flush (call : Call)
  /-- the last `reap` of `drive_inner`, and what follows it -/
  | reap (call : Call)
  deriving DecidableEq, Repr

inductive Event where
  | began (op : Op)
  /-- `submit` put a buffer into `send_in_flight` -/
  | staged (c : Idx) (buf : Nat) (bytes : Bytes)
  | pushed (entry : Sqe)
  /-- `sq.push` found no room -/
  | full
  | enterFailed (errno : Errno)
  /-- the caller gave the entry up, which is in no queue -/
  | dropped (entry : Sqe)
  /-- the kernel completed the send of this buffer -/
  | completed (c : Idx) (buf : Nat)
  /-- the kernel completed a receive -/
  | received (c : Idx) (r : Except Errno Bytes)
  /-- `reap` put a receive completion in the place of another -/
  | overwrote (key : Nat)
  /-- `reclaim_sends` removed these buffers -/
  | reclaimed (c : Idx) (bufs : List Nat)
  /-- the polling thread went to sleep -/
  | slept
  | submitReturned (c : Idx) (r : Except IoError Unit)
  | pollReturned (c : Idx) (cap : Nat) (r : Except IoError Bytes)
  /-- `poll_recv` returned early, through `?` -/
  | pollFailed (c : Idx) (e : IoError)
  /-- `drive` dropped the result of `drive_inner` -/
  | driveReturned (r : Except IoError Unit)
  deriving DecidableEq

/-- What happens next: a connection is made, a call begins, the caller takes its next step (with the
result of `io_uring_enter`, if it makes that call), or the kernel acts. -/
inductive Action where
  | connect
  | call (op : Op)
  | caller (enter : Except Errno Nat)
  /-- the polling thread takes an entry -/
  | take
  | sleep
  /-- the kernel completes the `i`-th entry it has taken, a send -/
  | sendDone (i : Nat) (result : Int)
  /-- the kernel completes the `i`-th entry it has taken, a receive -/
  | recvDone (i : Nat) (r : Except Errno Bytes)

end IoUring

/-- The ring, its connections, and the kernel's side: `sq` and `cq` are shared, `taken` are the entries
that the kernel has and has not completed. -/
structure IoUring where
  mode : IoUringMode
  sqpoll : Bool
  nextIdx : Nat
  pending : List IoUring.Sqe
  completedSends : Nat → Option Nat
  completedRecvs : Nat → Option Int
  conns : Idx → UringConn
  sq : List IoUring.Sqe
  cq : List IoUring.Cqe
  taken : List IoUring.Sqe
  /-- the polling thread is awake -/
  awake : Bool
  /-- buffers staged so far -/
  staged : Nat
  pc : IoUring.Pc

namespace IoUring

def start (mode : IoUringMode) (sqpoll : Bool) : IoUring where
  mode := mode
  sqpoll := sqpoll
  nextIdx := 0
  pending := []
  completedSends _ := none
  completedRecvs _ := none
  conns _ := .new
  sq := []
  cq := []
  taken := []
  awake := true
  staged := 0
  pc := .idle

def setConn (r : IoUring) (c : Idx) (conn : UringConn) : IoUring :=
  { r with conns := Function.update r.conns c conn }

/-! ## The kernel -/

/-- The oldest entry of the submission queue is taken. -/
def takeOne (r : IoUring) : IoUring :=
  match r.sq with
  | [] => r
  | entry :: rest => { r with sq := rest, taken := r.taken ++ [entry] }

def takes (r : IoUring) : Nat → IoUring
  | 0 => r
  | n + 1 => r.takeOne.takes n

/-- The `i`-th entry taken is completed. -/
def complete (r : IoUring) (i : Nat) (entry : Sqe) (result : Int) : IoUring :=
  { r with taken := r.taken.eraseIdx i, cq := r.cq ++ [⟨entry, result⟩] }

def sendDone (r : IoUring) (i : Nat) (result : Int) : IoUring × List Event :=
  match r.taken[i]? with
  | some (.send idx buf bytes) => (r.complete i (.send idx buf bytes) result, [.completed idx buf])
  | _ => (r, [])

/-- The receive returns data, at most as much as the buffer holds, or an error number. -/
def recvDone (r : IoUring) (i : Nat) (res : Except Errno Bytes) : IoUring × List Event :=
  match r.taken[i]? with
  | some (.recv idx) =>
      match res with
      | .ok data =>
          let data := data.take rxCap
          let conn := r.conns idx
          ((r.complete i (.recv idx) data.length).setConn idx
            { conn with rxBuf := data ++ conn.rxBuf.drop data.length }, [.received idx (.ok data)])
      | .error errno =>
          (r.complete i (.recv idx) (-errno.val), [.received idx (.error errno)])
  | _ => (r, [])

/-! ## The calls -/

def flushSubmit (r : IoUring) (enter : Except Errno Nat) : Except Errno IoUring :=
  if r.sqpoll then .ok r
  else
    match enter with
    | .ok n => .ok (r.takes n)
    | .error errno => .error errno

/-- One round of the loop of `reap`. -/
def reapOne (r : IoUring) (cqe : Cqe) : IoUring × List Event :=
  let key := cqe.entry.userData
  if key &&& 1 = opSend then
    ({ r with
      completedSends :=
        Function.update r.completedSends key (some ((r.completedSends key).getD 0 + 1)) }, [])
  else
    ({ r with completedRecvs := Function.update r.completedRecvs key (some cqe.result) },
      if (r.completedRecvs key).isSome then [.overwrote key] else [])

def reapAll (r : IoUring) : List Cqe → IoUring × List Event
  | [] => (r, [])
  | cqe :: rest =>
      let (r, evs) := r.reapOne cqe
      let (r, evs') := r.reapAll rest
      (r, evs ++ evs')

def reap (r : IoUring) : IoUring × List Event :=
  let (r', evs) := r.reapAll r.cq
  ({ r' with cq := [] }, evs)

def reclaimSends (r : IoUring) (c : Idx) : IoUring × List Event :=
  let key := ud c opSend
  match r.completedSends key with
  | some n =>
      let conn := r.conns c
      ({ r with completedSends := Function.update r.completedSends key none }.setConn c
        { conn with sendInFlight := conn.sendInFlight.drop n },
        [.reclaimed c ((conn.sendInFlight.take n).map Prod.fst)])
  | none => (r, [])

/-- The beginning of `drive_inner`. -/
def driveInner (r : IoUring) (call : Call) : IoUring :=
  match r.mode with
  | .batchSyscall => { r with pc := .drain call }
  | .sqeStream => { r with pc := .flush call }

/-- `conn.send_in_flight.push_back(bytes.to_vec())` -/
def stage (r : IoUring) (c : Idx) (bytes : Bytes) : IoUring :=
  let conn := r.conns c
  { r with staged := r.staged + 1 }.setConn c
    { conn with sendInFlight := conn.sendInFlight ++ [(r.staged, bytes)] }

def submit (r : IoUring) (c : Idx) (kind : Wire) (bytes : Bytes) : IoUring × List Event :=
  match kind with
  | .datagram => (r, [.submitReturned c (.error (IoError.fromKind .unsupported))])
  | .stream =>
      let entry := Sqe.send c r.staged bytes
      match r.mode with
      | .sqeStream =>
          ({ r.stage c bytes with pc := .push entry .pushSqe (.submit c) },
            [.staged c r.staged bytes])
      | .batchSyscall =>
          ({ r.stage c bytes with pending := r.pending ++ [entry] },
            [.staged c r.staged bytes, .submitReturned c (.ok ())])

def pollRecv (r : IoUring) (c : Idx) (cap : Nat) : IoUring :=
  if (r.conns c).recvInFlight then r.driveInner (.pollRecv c cap)
  else { r with pc := .push (.recv c) .pushSqe (.pollRecv c cap) }

def drive (r : IoUring) : IoUring := r.driveInner .drive

def begin (r : IoUring) : Op → IoUring × List Event
  | .submit c kind bytes => r.submit c kind bytes
  | .pollRecv c cap => (r.pollRecv c cap, [])
  | .drive => (r.drive, [])

/-- What follows `push_sqe` in the call that made it. -/
def afterPush (r : IoUring) : Call → IoUring
  | .submit c => { r with pc := .flush (.submit c) }
  | .pollRecv c cap =>
      (r.setConn c { r.conns c with recvInFlight := true }).driveInner (.pollRecv c cap)
  | .drive => { r with pc := .idle }

/-- The end of `poll_recv`. -/
def pollResult (r : IoUring) (c : Idx) (cap : Nat) : Exec (IoUring × Except IoError Bytes) :=
  let key := ud c opRecv
  match r.completedRecvs key with
  | none => .ok (r, .ok [])
  | some result =>
      let r := { r with completedRecvs := Function.update r.completedRecvs key none }.setConn c
        { r.conns c with recvInFlight := false }
      if result < 0 then .ok (r, .error (IoError.fromRawOsError (-result)))
      else if result.toNat = 0 then .ok (r, .ok [])
      else do
        let bytes ← Exec.sliceTo (r.conns c).rxBuf (min result.toNat cap)
        pure (r, .ok bytes)

/-- An error that a call returns. -/
def fails (e : IoError) : Call → List Event
  | .submit c => [.submitReturned c (.error e)]
  | .pollRecv c _ => [.pollFailed c e]
  | .drive => [.driveReturned (.error e)]

/-- The next step of a call. -/
def advance (r : IoUring) (enter : Except Errno Nat) : Exec (IoUring × List Event) :=
  match r.pc with
  | .idle => .ok (r, [])
  | .push entry loop call =>
      if r.sq.length < ringEntries then
        let r := { r with sq := r.sq ++ [entry] }
        match loop with
        | .pushSqe => .ok (r.afterPush call, [.pushed entry])
        | .drainPending => .ok ({ r with pc := .drain call }, [.pushed entry])
      else .ok ({ r with pc := .full entry loop call }, [.full])
  | .full entry loop call =>
      match r.flushSubmit enter with
      | .ok r =>
          let (r, evs) := r.reap
          .ok ({ r with pc := .push entry loop call }, evs)
      -- the entry is in no queue any more
      | .error errno =>
          .ok ({ r with pc := .idle },
            .enterFailed errno :: .dropped entry :: fails (IoError.fromRawOsError errno.val) call)
  | .drain call =>
      match r.pending with
      | [] => .ok ({ r with pc := .flush call }, [])
      | entry :: rest => .ok ({ r with pending := rest, pc := .push entry .drainPending call }, [])
  | .flush call =>
      match r.flushSubmit enter with
      | .ok r =>
          match call with
          | .submit c => .ok ({ r with pc := .idle }, [.submitReturned c (.ok ())])
          | _ => .ok ({ r with pc := .reap call }, [])
      | .error errno =>
          .ok ({ r with pc := .idle },
            .enterFailed errno :: fails (IoError.fromRawOsError errno.val) call)
  | .reap call =>
      let (r, evs) := r.reap
      match call with
      | .pollRecv c cap => do
          let (r, evs') := r.reclaimSends c
          let (r, res) ← r.pollResult c cap
          pure ({ r with pc := .idle }, evs ++ (evs' ++ [.pollReturned c cap res]))
      | _ => .ok ({ r with pc := .idle }, evs ++ [.driveReturned (.ok ())])

/-- The connections that a call names have been made. -/
def knows (r : IoUring) : Op → Bool
  | .submit c _ _ | .pollRecv c _ => c.val < r.nextIdx
  | .drive => true

def step (r : IoUring) : Action → Exec (IoUring × List Event)
  | .connect => .ok (if r.pc = .idle then { r with nextIdx := r.nextIdx + 1 } else r, [])
  | .call op =>
      if r.pc = .idle ∧ r.knows op = true then
        let (r, evs) := r.begin op
        .ok (r, .began op :: evs)
      else .ok (r, [])
  | .caller enter => r.advance enter
  | .take => .ok (if r.sqpoll && r.awake then r.takeOne else r, [])
  | .sleep =>
      -- it sleeps when it has nothing to do
      if r.sqpoll && r.awake && r.sq.isEmpty then .ok ({ r with awake := false }, [.slept])
      else .ok (r, [])
  | .sendDone i result => .ok (r.sendDone i result)
  | .recvDone i res => .ok (r.recvDone i res)

def machine : Machine IoUring Action Event where
  step := step

/-! ## One step -/

/-- `flush_submit` went well: the kernel may have taken entries, unless it polls for them itself. -/
inductive Flushed (r : IoUring) : IoUring → Prop
  | polled (h : r.sqpoll = true) : Flushed r r
  | entered (h : r.sqpoll = false) (n : Nat) : Flushed r (r.takes n)

/-- **What a step can do**, with the events it writes. -/
inductive Turn (r : IoUring) : List Event → IoUring → Prop
  | stay : Turn r [] r
  | connected : Turn r [] { r with nextIdx := r.nextIdx + 1 }
  /-- `submit` of a datagram -/
  | unsupported {c : Idx} {bytes : Bytes} (hpc : r.pc = .idle) :
      Turn r [.began (.submit c .datagram bytes),
        .submitReturned c (.error (IoError.fromKind .unsupported))] r
  | queued {c : Idx} {bytes : Bytes} (hpc : r.pc = .idle) (hmode : r.mode = .batchSyscall) :
      Turn r [.began (.submit c .stream bytes), .staged c r.staged bytes, .submitReturned c (.ok ())]
        { r.stage c bytes with pending := r.pending ++ [.send c r.staged bytes] }
  | submitting {c : Idx} {bytes : Bytes} (hpc : r.pc = .idle) (hmode : r.mode = .sqeStream) :
      Turn r [.began (.submit c .stream bytes), .staged c r.staged bytes]
        { r.stage c bytes with pc := .push (.send c r.staged bytes) .pushSqe (.submit c) }
  /-- `poll_recv` with a receive in flight -/
  | polling {c : Idx} {cap : Nat} (hpc : r.pc = .idle) (hflag : (r.conns c).recvInFlight = true) :
      Turn r [.began (.pollRecv c cap)] (r.driveInner (.pollRecv c cap))
  | asking {c : Idx} {cap : Nat} (hpc : r.pc = .idle) (hflag : (r.conns c).recvInFlight = false) :
      Turn r [.began (.pollRecv c cap)]
        { r with pc := .push (.recv c) .pushSqe (.pollRecv c cap) }
  | driving (hpc : r.pc = .idle) : Turn r [.began .drive] (r.driveInner .drive)
  | pushed {entry : Sqe} {call : Call} (hpc : r.pc = .push entry .pushSqe call)
      (hroom : r.sq.length < ringEntries) :
      Turn r [.pushed entry] ({ r with sq := r.sq ++ [entry] }.afterPush call)
  | drained {entry : Sqe} {call : Call} (hpc : r.pc = .push entry .drainPending call)
      (hroom : r.sq.length < ringEntries) :
      Turn r [.pushed entry] { r with sq := r.sq ++ [entry], pc := .drain call }
  | noRoom {entry : Sqe} {loop : PushLoop} {call : Call} (hpc : r.pc = .push entry loop call)
      (hfull : ringEntries ≤ r.sq.length) : Turn r [.full] { r with pc := .full entry loop call }
  /-- the queue was full and has been flushed -/
  | retried {entry : Sqe} {loop : PushLoop} {call : Call} {r₁ : IoUring}
      (hpc : r.pc = .full entry loop call) (hflush : Flushed r r₁) :
      Turn r r₁.reap.2 { r₁.reap.1 with pc := .push entry loop call }
  | gaveUp {entry : Sqe} {loop : PushLoop} {call : Call} {errno : Errno}
      (hpc : r.pc = .full entry loop call) (hsqpoll : r.sqpoll = false) :
      Turn r (.enterFailed errno :: .dropped entry :: fails (IoError.fromRawOsError errno.val) call)
        { r with pc := .idle }
  | popped {entry : Sqe} {rest : List Sqe} {call : Call} (hpc : r.pc = .drain call)
      (hpending : r.pending = entry :: rest) :
      Turn r [] { r with pending := rest, pc := .push entry .drainPending call }
  | drainedAll {call : Call} (hpc : r.pc = .drain call) (hpending : r.pending = []) :
      Turn r [] { r with pc := .flush call }
  | submitted {c : Idx} {r₁ : IoUring} (hpc : r.pc = .flush (.submit c)) (hflush : Flushed r r₁) :
      Turn r [.submitReturned c (.ok ())] { r₁ with pc := .idle }
  | flushed {call : Call} {r₁ : IoUring} (hpc : r.pc = .flush call) (hcall : ∀ c, call ≠ .submit c)
      (hflush : Flushed r r₁) : Turn r [] { r₁ with pc := .reap call }
  | unflushed {call : Call} {errno : Errno} (hpc : r.pc = .flush call) (hsqpoll : r.sqpoll = false) :
      Turn r (.enterFailed errno :: fails (IoError.fromRawOsError errno.val) call)
        { r with pc := .idle }
  | driven {call : Call} (hpc : r.pc = .reap call) (hcall : ∀ c cap, call ≠ .pollRecv c cap) :
      Turn r (r.reap.2 ++ [.driveReturned (.ok ())]) { r.reap.1 with pc := .idle }
  | polled {c : Idx} {cap : Nat} {r₂ : IoUring} {res : Except IoError Bytes}
      (hpc : r.pc = .reap (.pollRecv c cap))
      (hresult : (r.reap.1.reclaimSends c).1.pollResult c cap = .ok (r₂, res)) :
      Turn r (r.reap.2 ++ ((r.reap.1.reclaimSends c).2 ++ [.pollReturned c cap res]))
        { r₂ with pc := .idle }
  | took (hsqpoll : r.sqpoll = true) (hawake : r.awake = true) : Turn r [] r.takeOne
  | slept (hsqpoll : r.sqpoll = true) (hsq : r.sq = []) : Turn r [.slept] { r with awake := false }
  | sent {i : Nat} {c : Idx} {buf : Nat} {bytes : Bytes} {result : Int}
      (hi : r.taken[i]? = some (.send c buf bytes)) :
      Turn r [.completed c buf] (r.complete i (.send c buf bytes) result)
  | received {i : Nat} {c : Idx} {data : Bytes} (hi : r.taken[i]? = some (.recv c))
      (hdata : data.length ≤ rxCap) :
      Turn r [.received c (.ok data)] ((r.complete i (.recv c) data.length).setConn c
        { r.conns c with rxBuf := data ++ (r.conns c).rxBuf.drop data.length })
  | recvFailed {i : Nat} {c : Idx} {errno : Errno} (hi : r.taken[i]? = some (.recv c)) :
      Turn r [.received c (.error errno)] (r.complete i (.recv c) (-errno.val))

theorem flushed_of_flushSubmit {r r₁ : IoUring} {enter : Except Errno Nat}
    (h : r.flushSubmit enter = .ok r₁) : Flushed r r₁ := by
  unfold flushSubmit at h
  split at h
  next hsqpoll =>
    cases h
    exact .polled hsqpoll
  next hsqpoll =>
    split at h
    next n =>
      cases h
      exact .entered (by simpa using hsqpoll) n
    next => cases h

theorem sqpoll_of_flushSubmit {r : IoUring} {enter : Except Errno Nat} {errno : Errno}
    (h : r.flushSubmit enter = .error errno) : r.sqpoll = false := by
  unfold flushSubmit at h
  split at h
  next => cases h
  next hsqpoll => simpa using hsqpoll

theorem begin_turn {r : IoUring} (hpc : r.pc = .idle) (op : Op) :
    Turn r (.began op :: (r.begin op).2) (r.begin op).1 := by
  cases op with
  | submit c kind bytes =>
      cases kind with
      | datagram => exact .unsupported hpc
      | stream =>
          cases hmode : r.mode with
          | batchSyscall =>
              simp only [begin, submit, hmode]
              exact .queued hpc hmode
          | sqeStream =>
              simp only [begin, submit, hmode]
              exact .submitting hpc hmode
  | pollRecv c cap =>
      simp only [begin, pollRecv]
      split
      next hflag => exact .polling hpc hflag
      next hflag => exact .asking hpc (by simpa using hflag)
  | drive => exact .driving hpc

theorem advance_turn {r r' : IoUring} {enter : Except Errno Nat} {evs : List Event}
    (h : r.advance enter = .ok (r', evs)) : Turn r evs r' := by
  unfold advance at h
  split at h
  next =>
    cases h
    exact .stay
  next entry loop call hpc =>
    split at h
    next hroom =>
      cases loop with
      | pushSqe =>
          cases h
          exact .pushed hpc hroom
      | drainPending =>
          cases h
          exact .drained hpc hroom
    next hroom =>
      cases h
      exact .noRoom hpc (Nat.le_of_not_lt hroom)
  next entry loop call hpc =>
    split at h
    next r₁ hflush =>
      cases h
      exact .retried hpc (flushed_of_flushSubmit hflush)
    next errno hflush =>
      cases h
      exact .gaveUp hpc (sqpoll_of_flushSubmit hflush)
  next call hpc =>
    split at h
    next hpending =>
      cases h
      exact .drainedAll hpc hpending
    next entry rest hpending =>
      cases h
      exact .popped hpc hpending
  next call hpc =>
    split at h
    next r₁ hflush =>
      split at h
      next c =>
        cases h
        exact .submitted hpc (flushed_of_flushSubmit hflush)
      next hcall =>
        cases h
        exact .flushed hpc hcall (flushed_of_flushSubmit hflush)
    next errno hflush =>
      cases h
      exact .unflushed hpc (sqpoll_of_flushSubmit hflush)
  next call hpc =>
    simp only at h
    split at h
    next c cap =>
      obtain ⟨⟨r₂, res⟩, hresult, h⟩ := bind_eq_ok.mp h
      cases h
      exact .polled hpc hresult
    next hcall =>
      cases h
      exact .driven hpc hcall

theorem recvDone_turn (r : IoUring) (i : Nat) (res : Except Errno Bytes) :
    Turn r (r.recvDone i res).2 (r.recvDone i res).1 := by
  unfold recvDone
  split
  next c hi =>
    cases res with
    | ok data => exact .received hi (List.length_take_le _ _)
    | error errno => exact .recvFailed hi
  next => exact .stay

theorem sendDone_turn (r : IoUring) (i : Nat) (result : Int) :
    Turn r (r.sendDone i result).2 (r.sendDone i result).1 := by
  unfold sendDone
  split
  next c buf bytes hi => exact .sent hi
  next => exact .stay

theorem step_turn {r r' : IoUring} {a : Action} {evs : List Event}
    (h : r.step a = .ok (r', evs)) : Turn r evs r' := by
  cases a with
  | connect =>
      cases h
      split
      · exact .connected
      · exact .stay
  | call op =>
      simp only [step] at h
      split at h
      next hok =>
        cases h
        exact begin_turn hok.1 op
      next =>
        cases h
        exact .stay
  | caller enter => exact advance_turn h
  | take =>
      cases h
      split
      next hon =>
        obtain ⟨hsqpoll, hawake⟩ := Bool.and_eq_true_iff.mp hon
        exact .took hsqpoll hawake
      next => exact .stay
  | sleep =>
      simp only [step] at h
      split at h
      next hon =>
        cases h
        simp only [Bool.and_eq_true, List.isEmpty_iff] at hon
        exact .slept hon.1.1 hon.2
      next =>
        cases h
        exact .stay
  | sendDone i result =>
      have hturn := sendDone_turn r i result
      rw [Except.ok.inj h] at hturn
      exact hturn
  | recvDone i res =>
      have hturn := recvDone_turn r i res
      rw [Except.ok.inj h] at hturn
      exact hturn

/-! ## What the parts of a step leave alone -/

theorem takeOne_eq (r : IoUring) :
    ∃ sq taken, r.takeOne = { r with sq, taken } ∧ taken ++ sq = r.taken ++ r.sq := by
  unfold takeOne
  split
  next hsq => exact ⟨r.sq, r.taken, rfl, rfl⟩
  next entry rest hsq =>
    refine ⟨rest, r.taken ++ [entry], rfl, ?_⟩
    rw [hsq, List.append_assoc, List.singleton_append]

theorem takes_eq (r : IoUring) (n : Nat) :
    ∃ sq taken, r.takes n = { r with sq, taken } ∧ taken ++ sq = r.taken ++ r.sq := by
  induction n generalizing r with
  | zero => exact ⟨r.sq, r.taken, rfl, rfl⟩
  | succ n ih =>
      obtain ⟨sq₁, taken₁, hone, hjoin₁⟩ := takeOne_eq r
      obtain ⟨sq, taken, hrest, hjoin⟩ := ih r.takeOne
      refine ⟨sq, taken, ?_, ?_⟩
      · rw [takes, hrest, hone]
      · rw [hjoin, hone]
        exact hjoin₁

/-- The kernel takes entries in the order they were pushed. -/
theorem Flushed.eq {r r₁ : IoUring} (h : Flushed r r₁) :
    ∃ sq taken, r₁ = { r with sq, taken } ∧ taken ++ sq = r.taken ++ r.sq := by
  cases h with
  | polled => exact ⟨r.sq, r.taken, rfl, rfl⟩
  | entered _ n => exact takes_eq r n

theorem reapAll_eq (r : IoUring) (cq : List Cqe) :
    ∃ completedSends completedRecvs,
      (r.reapAll cq).1 = { r with completedSends, completedRecvs } := by
  induction cq generalizing r with
  | nil => exact ⟨r.completedSends, r.completedRecvs, rfl⟩
  | cons q cq ih =>
      obtain ⟨sends, recvs, h⟩ := ih (r.reapOne q).1
      have hone : ∃ sends recvs, (r.reapOne q).1 =
          { r with completedSends := sends, completedRecvs := recvs } := by
        unfold reapOne
        simp only
        split
        · exact ⟨_, _, rfl⟩
        · exact ⟨_, _, rfl⟩
      obtain ⟨sends', recvs', hone⟩ := hone
      refine ⟨sends, recvs, ?_⟩
      rw [show (r.reapAll (q :: cq)).1 = ((r.reapOne q).1.reapAll cq).1 from rfl, h, hone]

theorem reap_eq (r : IoUring) :
    ∃ completedSends completedRecvs,
      r.reap.1 = { r with completedSends, completedRecvs, cq := [] } := by
  obtain ⟨sends, recvs, h⟩ := reapAll_eq r r.cq
  refine ⟨sends, recvs, ?_⟩
  simp only [reap, h]

theorem reap_pc (r : IoUring) : r.reap.1.pc = r.pc := by
  obtain ⟨sends, recvs, h⟩ := reap_eq r
  rw [h]

theorem reap_pending (r : IoUring) : r.reap.1.pending = r.pending := by
  obtain ⟨sends, recvs, h⟩ := reap_eq r
  rw [h]

/-- All that `reap` can write. -/
theorem reapAll_events (r : IoUring) (cq : List Cqe) {e : Event} (he : e ∈ (r.reapAll cq).2) :
    ∃ key, e = .overwrote key := by
  induction cq generalizing r with
  | nil => cases he
  | cons q cq ih =>
      have hone : ∀ e ∈ (r.reapOne q).2, ∃ key, e = .overwrote key := by
        intro e he
        unfold reapOne at he
        simp only at he
        split at he
        · cases he
        · split at he
          · exact ⟨_, List.mem_singleton.mp he⟩
          · cases he
      obtain he | he := List.mem_append.mp he
      · exact hone e he
      · exact ih _ he

theorem reclaimSends_eq (r : IoUring) (c : Idx) :
    ∃ completedSends sendInFlight, (r.reclaimSends c).1 =
      { r with completedSends }.setConn c { r.conns c with sendInFlight } := by
  unfold reclaimSends
  simp only
  split
  next n hn => exact ⟨_, _, rfl⟩
  next =>
    refine ⟨r.completedSends, (r.conns c).sendInFlight, ?_⟩
    rw [setConn, Function.update_eq_self]

theorem reclaimSends_events (r : IoUring) (c : Idx) :
    (r.reclaimSends c).2 = [] ∨ ∃ bufs, (r.reclaimSends c).2 = [.reclaimed c bufs] := by
  unfold reclaimSends
  simp only
  split
  · exact .inr ⟨_, rfl⟩
  · exact .inl rfl

theorem pollResult_eq {r r₂ : IoUring} {c : Idx} {cap : Nat} {res : Except IoError Bytes}
    (h : r.pollResult c cap = .ok (r₂, res)) :
    ∃ completedRecvs recvInFlight,
      r₂ = { r with completedRecvs }.setConn c { r.conns c with recvInFlight } := by
  unfold pollResult at h
  simp only at h
  split at h
  next hnone =>
    cases h
    refine ⟨r.completedRecvs, (r.conns c).recvInFlight, ?_⟩
    rw [setConn, Function.update_eq_self]
  next result hsome =>
    split at h
    next =>
      cases h
      exact ⟨_, _, rfl⟩
    next =>
      split at h
      next =>
        cases h
        exact ⟨_, _, rfl⟩
      next =>
        obtain ⟨bytes, -, h⟩ := bind_eq_ok.mp h
        cases h
        exact ⟨_, _, rfl⟩

theorem driveInner_eq (r : IoUring) (call : Call) :
    ∃ pc, r.driveInner call = { r with pc } ∧ (pc = .drain call ∨ pc = .flush call) := by
  unfold driveInner
  split
  · exact ⟨_, rfl, .inl rfl⟩
  · exact ⟨_, rfl, .inr rfl⟩

/-- The buffers of a connection's sends are apart from what its receives use. -/
theorem update_sends (conns : Idx → UringConn) (c d : Idx) (sendInFlight : List (Nat × Bytes)) :
    (Function.update conns c { conns c with sendInFlight } d).rxBuf = (conns d).rxBuf ∧
      (Function.update conns c { conns c with sendInFlight } d).recvInFlight =
        (conns d).recvInFlight := by
  by_cases hd : d = c
  · subst hd
    rw [Function.update_self]
    exact ⟨rfl, rfl⟩
  · rw [Function.update_of_ne hd]
    exact ⟨rfl, rfl⟩

theorem perm_eraseIdx {α : Type} {l : List α} {i : Nat} {a : α} (h : l[i]? = some a) :
    (a :: l.eraseIdx i).Perm l := by
  obtain ⟨hi, rfl⟩ := List.getElem?_eq_some_iff.mp h
  exact List.getElem_cons_eraseIdx_perm hi

/-! ## User data -/

theorem ud_eq (c : Idx) {op : Nat} (hop : op < 2) : ud c op = 2 * c.val + op := by
  have hc := c.isLt
  have hor : (c.val <<< 1 ||| op) = 2 * c.val + op := by
    rw [← Nat.shiftLeft_add_eq_or_of_lt (by simpa using hop), Nat.shiftLeft_eq]
    omega
  rw [ud, hor, Nat.mod_eq_of_lt (by omega)]

theorem ud_inj {c d : Idx} {op op' : Nat} (hop : op < 2) (hop' : op' < 2)
    (h : ud c op = ud d op') : c = d ∧ op = op' := by
  rw [ud_eq c hop, ud_eq d hop'] at h
  exact ⟨Fin.ext (by omega), by omega⟩

@[simp] theorem ud_recv_inj {c d : Idx} : ud c opRecv = ud d opRecv ↔ c = d :=
  ⟨fun h => (ud_inj (by decide) (by decide) h).1, fun h => by rw [h]⟩

@[simp] theorem ud_send_inj {c d : Idx} : ud c opSend = ud d opSend ↔ c = d :=
  ⟨fun h => (ud_inj (by decide) (by decide) h).1, fun h => by rw [h]⟩

theorem ud_send_and_one (c : Idx) : ud c opSend &&& 1 = opSend := by
  rw [ud_eq c (by decide), Nat.and_one_is_mod, opSend]
  omega

theorem ud_recv_and_one (c : Idx) : ud c opRecv &&& 1 ≠ opSend := by
  rw [ud_eq c (by decide), Nat.and_one_is_mod, opSend, opRecv]
  omega

theorem reapOne_send (r : IoUring) (c : Idx) (buf : Nat) (bytes : Bytes) (result : Int) :
    r.reapOne ⟨.send c buf bytes, result⟩ =
      ({ r with
        completedSends := Function.update r.completedSends (ud c opSend)
          (some ((r.completedSends (ud c opSend)).getD 0 + 1)) }, []) :=
  if_pos (ud_send_and_one c)

theorem reapOne_recv (r : IoUring) (c : Idx) (result : Int) :
    r.reapOne ⟨.recv c, result⟩ =
      ({ r with
        completedRecvs := Function.update r.completedRecvs (ud c opRecv) (some result) },
        if (r.completedRecvs (ud c opRecv)).isSome then [.overwrote (ud c opRecv)] else []) :=
  if_neg (ud_recv_and_one c)

end IoUring

end TxSender.Backend
