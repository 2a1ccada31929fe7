/-
# TxSender.Backend.IoUring — a connection on an `io_uring`.

A send is staged by `submit`, becomes a submission queue entry, is taken and executed by the kernel,
comes back as a completion and is reclaimed by a later `poll_recv`. The calls are cut into steps at
every look at a queue, so that the kernel may act in between: take entries, execute the oldest send,
complete the read. Every connection of the sender has a ring of its own; `Backend.RingAlone` shows that
this is what the shared ring of `Backend.SharedRing` does when one connection uses it.

An entry carries the bytes of its buffer where the source has a pointer into `send_in_flight`;
`Staged` says that the buffer is still there when the kernel reads it.
-/
import TxSender.Error
import TxSender.Lib.Machine

namespace TxSender.Backend

open TxSender.Lib

def rxCap : Nat := 4096
def ringEntries : Nat := 256

inductive IoUringMode where
  | batchSyscall
  | sqeStream
  deriving DecidableEq, Repr

/-- The two kinds of `Wire`; the address of a datagram is not looked at. -/
inductive Wire where
  | datagram
  | stream
  deriving DecidableEq, Repr

/-- A submission queue entry. A send has the place of its buffer in all that was submitted. -/
inductive Sqe where
  | send (off : Nat) (bytes : Bytes)
  | recv
  deriving DecidableEq, Repr

/-- A completion queue entry with its `result()`. -/
inductive Cqe where
  | send (result : Int)
  | recv (result : Int)
  deriving DecidableEq, Repr

def Cqe.isSend : Cqe → Bool
  | .send _ => true
  | .recv _ => false

inductive UringCall where
  | submit
  | pollRecv (cap : Nat)
  | drive
  deriving DecidableEq, Repr

/-- The two loops that push an entry until there is room. -/
inductive PushLoop where
  | pushSqe
  | drainPending
  deriving DecidableEq, Repr

/-- Where the caller stands. -/
inductive UringPc where
  | idle
  /-- `sq.push(&entry)` -/
  | push (entry : Sqe) (loop : PushLoop) (call : UringCall)
  /-- the queue was full: `flush_submit` and `reap`, and once more -/
  | full (entry : Sqe) (loop : PushLoop) (call : UringCall)
  /-- `pending.pop_front()` -/
  | drain (call : UringCall)
  /-- the last `flush_submit` of `submit` and `drive_inner` -/
  | flush (call : UringCall)
  /-- the last `reap` of `drive_inner`, and what follows it -/
  | reap (call : UringCall)
  deriving DecidableEq, Repr

/-- The ring, its one connection, and the kernel's side: `sq` and `cq` are shared, `taken` are the
sends and `receiving` the read that the kernel has taken. -/
structure Uring where
  mode : IoUringMode
  sqpoll : Bool
  pending : List Sqe
  completedSends : Nat
  completedRecvs : Option Int
  rxBuf : Bytes
  recvInFlight : Bool
  sendInFlight : List Bytes
  sq : List Sqe
  cq : List Cqe
  taken : List (Nat × Bytes)
  receiving : Bool
  /-- bytes submitted so far -/
  offset : Nat
  pc : UringPc
  deriving DecidableEq, Repr

/-- What happens on the connection. -/
inductive UringEvent where
  | submitted (bytes : Bytes)
  /-- the kernel executed the send of this buffer and accepted `n` bytes -/
  | sent (off : Nat) (bytes : Bytes) (n : Nat)
  /-- the entry of this buffer was taken out of one queue and did not get into the next -/
  | dropped (off : Nat) (bytes : Bytes)
  | submitReturned (r : Except IoError Unit)
  | pollReturned (r : Except IoError Bytes)

/-- What happens next: a call begins, the caller takes its next step (with the result of the system
call, if it makes one), or the kernel acts. -/
inductive UringAction where
  | submit (kind : Wire) (bytes : Bytes)
  | pollRecv (cap : Nat)
  | drive
  | caller (enter : Except Nat Nat)
  /-- the kernel's polling thread takes an entry -/
  | take
  /-- the oldest send is executed -/
  | sendDone (result : Int)
  | recvDone (r : Except Nat Bytes)

namespace Uring

def start (mode : IoUringMode) (sqpoll : Bool) : Uring where
  mode := mode
  sqpoll := sqpoll
  pending := []
  completedSends := 0
  completedRecvs := none
  rxBuf := List.replicate rxCap 0
  recvInFlight := false
  sendInFlight := []
  sq := []
  cq := []
  taken := []
  receiving := false
  offset := 0
  pc := .idle

/-! ## The kernel -/

/-- The oldest entry of the submission queue is taken. -/
def takeOne (u : Uring) : Uring :=
  match u.sq with
  | [] => u
  | .send off bytes :: rest => { u with sq := rest, taken := u.taken ++ [(off, bytes)] }
  | .recv :: rest => { u with sq := rest, receiving := true }

def takes (u : Uring) : Nat → Uring
  | 0 => u
  | n + 1 => u.takeOne.takes n

/-- How many bytes a send with this result accepts; `staged.len() as u32` were asked for. -/
def accepted (bytes : Bytes) (result : Int) : Nat := min result.toNat (bytes.length % 2 ^ 32)

def sendDone (u : Uring) (result : Int) : Uring × List UringEvent :=
  match u.taken with
  | [] => (u, [])
  | (off, bytes) :: rest =>
      ({ u with taken := rest, cq := u.cq ++ [.send result] },
        [.sent off bytes (accepted bytes result)])

/-- The read returns data, or an error number. -/
def recvDone (u : Uring) (r : Except Nat Bytes) : Uring :=
  if u.receiving then
    match r with
    | .ok data =>
        let data := data.take rxCap
        { u with
          receiving := false
          rxBuf := data ++ u.rxBuf.drop data.length
          cq := u.cq ++ [.recv data.length] }
    | .error errno => { u with receiving := false, cq := u.cq ++ [.recv (-errno)] }
  else u

/-! ## The calls -/

/-- `flush_submit`; `enter` is what `io_uring_enter` returns, the entries it took or an error number -/
def flushSubmit (u : Uring) (enter : Except Nat Nat) : Except IoError Uring :=
  if u.sqpoll then .ok u
  else
    match enter with
    | .ok n => .ok (u.takes n)
    | .error errno => .error (IoError.fromRawOsError errno)

/-- One round of the loop of `reap`. -/
def reapOne (u : Uring) : Cqe → Uring
  | .send _ => { u with completedSends := u.completedSends + 1 }
  | .recv result => { u with completedRecvs := some result }

def reap (u : Uring) : Uring := { u.cq.foldl reapOne u with cq := [] }

def reclaimSends (u : Uring) : Uring :=
  { u with sendInFlight := u.sendInFlight.drop u.completedSends, completedSends := 0 }

/-- The beginning of `drive_inner`. -/
def driveInner (u : Uring) (call : UringCall) : Uring :=
  match u.mode with
  | .batchSyscall => { u with pc := .drain call }
  | .sqeStream => { u with pc := .flush call }

def submit (u : Uring) (kind : Wire) (bytes : Bytes) : Uring × List UringEvent :=
  match kind with
  | .datagram => (u, [.submitReturned (.error (IoError.fromKind .unsupported))])
  | .stream =>
      let entry := Sqe.send u.offset bytes
      let u := { u with
        sendInFlight := u.sendInFlight ++ [bytes]
        offset := u.offset + bytes.length }
      match u.mode with
      | .sqeStream => ({ u with pc := .push entry .pushSqe .submit }, [.submitted bytes])
      | .batchSyscall =>
          ({ u with pending := u.pending ++ [entry] }, [.submitted bytes, .submitReturned (.ok ())])

def pollRecv (u : Uring) (cap : Nat) : Uring :=
  if u.recvInFlight then u.driveInner (.pollRecv cap)
  else { u with pc := .push .recv .pushSqe (.pollRecv cap) }

def drive (u : Uring) : Uring := u.driveInner .drive

/-- What follows `push_sqe` in the call that made it. -/
def afterPush (u : Uring) : UringCall → Uring
  | .submit => { u with pc := .flush .submit }
  | .pollRecv cap => { u with recvInFlight := true }.driveInner (.pollRecv cap)
  | .drive => { u with pc := .idle }

/-- The end of `poll_recv`. -/
def pollResult (u : Uring) (cap : Nat) : Exec (Uring × Except IoError Bytes) :=
  match u.completedRecvs with
  | none => .ok (u, .ok [])
  | some result =>
      let u := { u with completedRecvs := none, recvInFlight := false }
      if result < 0 then .ok (u, .error (IoError.fromRawOsError (-result)))
      else if result.toNat = 0 then .ok (u, .ok [])
      else do
        let bytes ← Exec.sliceTo u.rxBuf (min result.toNat cap)
        pure (u, .ok bytes)

/-- An error that a call returns; `drive` drops it. -/
def returns (e : IoError) : UringCall → List UringEvent
  | .submit => [.submitReturned (.error e)]
  | .pollRecv _ => [.pollReturned (.error e)]
  | .drive => []

def drops : Sqe → List UringEvent
  | .send off bytes => [.dropped off bytes]
  | .recv => []

/-- The next step of a call. -/
def advance (u : Uring) (enter : Except Nat Nat) : Exec (Uring × List UringEvent) :=
  match u.pc with
  | .idle => .ok (u, [])
  | .push entry loop call =>
      if u.sq.length < ringEntries then
        let u := { u with sq := u.sq ++ [entry] }
        match loop with
        | .pushSqe => .ok (u.afterPush call, [])
        | .drainPending => .ok ({ u with pc := .drain call }, [])
      else .ok ({ u with pc := .full entry loop call }, [])
  | .full entry loop call =>
      match u.flushSubmit enter with
      | .ok u => .ok ({ u.reap with pc := .push entry loop call }, [])
      -- the entry is in no queue any more
      | .error e => .ok ({ u with pc := .idle }, drops entry ++ returns e call)
  | .drain call =>
      match u.pending with
      | [] => .ok ({ u with pc := .flush call }, [])
      | entry :: rest => .ok ({ u with pending := rest, pc := .push entry .drainPending call }, [])
  | .flush call =>
      match u.flushSubmit enter with
      | .ok u =>
          match call with
          | .submit => .ok ({ u with pc := .idle }, [.submitReturned (.ok ())])
          | _ => .ok ({ u with pc := .reap call }, [])
      | .error e => .ok ({ u with pc := .idle }, returns e call)
  | .reap call =>
      match call with
      | .pollRecv cap => do
          let (u, r) ← u.reap.reclaimSends.pollResult cap
          pure ({ u with pc := .idle }, [.pollReturned r])
      | _ => .ok ({ u.reap with pc := .idle }, [])

def step (u : Uring) : UringAction → Exec (Uring × List UringEvent)
  | .submit kind bytes => .ok (if u.pc = .idle then u.submit kind bytes else (u, []))
  | .pollRecv cap => .ok (if u.pc = .idle then u.pollRecv cap else u, [])
  | .drive => .ok (if u.pc = .idle then u.drive else u, [])
  | .caller enter => u.advance enter
  | .take => .ok (if u.sqpoll then u.takeOne else u, [])
  | .sendDone result => .ok (u.sendDone result)
  | .recvDone r => .ok (u.recvDone r, [])

def machine : Machine Uring UringAction UringEvent where
  step := step

/-! ## The sends on their way -/

/-- The sends among some entries. -/
def sends (entries : List Sqe) : List (Nat × Bytes) :=
  entries.filterMap fun entry => match entry with
    | .send off bytes => some (off, bytes)
    | .recv => none

/-- The send that the caller holds in its hands. -/
def held : UringPc → List (Nat × Bytes)
  | .push entry _ _ | .full entry _ _ => sends [entry]
  | _ => []

/-- The sends the kernel has, or finds in the queue. -/
def queued (u : Uring) : List (Nat × Bytes) := u.taken ++ sends u.sq

/-- All sends that are neither executed nor dropped, oldest first. -/
def live (u : Uring) : List (Nat × Bytes) := u.queued ++ (held u.pc ++ sends u.pending)

/-- The sends that are executed and not reclaimed. -/
def unclaimed (u : Uring) : Nat := u.completedSends + u.cq.countP Cqe.isSend

/-- What the bookkeeping of completions and the kernel's taking of entries leave alone. -/
structure Keeps (u u' : Uring) : Prop where
  queued : u'.queued = u.queued
  pending : u'.pending = u.pending
  pc : u'.pc = u.pc
  offset : u'.offset = u.offset
  sendInFlight : u'.sendInFlight = u.sendInFlight
  unclaimed : u'.unclaimed = u.unclaimed
  mode : u'.mode = u.mode

theorem Keeps.refl (u : Uring) : Keeps u u := ⟨rfl, rfl, rfl, rfl, rfl, rfl, rfl⟩

theorem Keeps.trans {u v w : Uring} (h : Keeps u v) (h' : Keeps v w) : Keeps u w :=
  ⟨h'.queued.trans h.queued, h'.pending.trans h.pending, h'.pc.trans h.pc, h'.offset.trans h.offset,
    h'.sendInFlight.trans h.sendInFlight, h'.unclaimed.trans h.unclaimed, h'.mode.trans h.mode⟩

theorem Keeps.live {u u' : Uring} (h : Keeps u u') : u'.live = u.live := by
  unfold Uring.live
  rw [h.queued, h.pc, h.pending]

theorem sends_append (l l' : List Sqe) : sends (l ++ l') = sends l ++ sends l' :=
  List.filterMap_append

theorem keeps_takeOne (u : Uring) : Keeps u u.takeOne := by
  unfold takeOne
  split
  · exact .refl u
  · rename_i off bytes rest hsq
    refine ⟨?_, rfl, rfl, rfl, rfl, rfl, rfl⟩
    unfold Uring.queued
    rw [hsq, List.append_assoc]
    rfl
  · rename_i rest hsq
    refine ⟨?_, rfl, rfl, rfl, rfl, rfl, rfl⟩
    unfold Uring.queued
    rw [hsq]
    rfl

theorem keeps_takes (u : Uring) (n : Nat) : Keeps u (u.takes n) := by
  induction n generalizing u with
  | zero => exact .refl u
  | succ n ih => exact (keeps_takeOne u).trans (ih u.takeOne)

theorem keeps_flushSubmit {u u' : Uring} {enter : Except Nat Nat}
    (h : u.flushSubmit enter = .ok u') : Keeps u u' := by
  unfold flushSubmit at h
  split at h
  · cases h
    exact .refl u
  · split at h
    · cases h
      exact keeps_takes u _
    · cases h

theorem foldl_reapOne (cq : List Cqe) (u : Uring) :
    ∃ recvs, cq.foldl reapOne u =
      { u with
        completedSends := u.completedSends + cq.countP Cqe.isSend
        completedRecvs := recvs } := by
  induction cq generalizing u with
  | nil => exact ⟨u.completedRecvs, rfl⟩
  | cons c cq ih =>
      obtain ⟨recvs, hrest⟩ := ih (u.reapOne c)
      refine ⟨recvs, ?_⟩
      rw [List.foldl_cons, hrest]
      cases c with
      | send result =>
          rw [List.countP_cons_of_pos rfl]
          simp only [reapOne, Nat.add_comm, Nat.add_left_comm]
      | recv result =>
          rw [List.countP_cons_of_neg (by simp [Cqe.isSend])]
          rfl

theorem reap_eq (u : Uring) :
    ∃ recvs, u.reap =
      { u with cq := [], completedSends := u.unclaimed, completedRecvs := recvs } := by
  obtain ⟨recvs, h⟩ := foldl_reapOne u.cq u
  refine ⟨recvs, ?_⟩
  unfold reap
  rw [h]
  rfl

theorem keeps_reap (u : Uring) : Keeps u u.reap := by
  obtain ⟨recvs, h⟩ := reap_eq u
  rw [h]
  exact ⟨rfl, rfl, rfl, rfl, rfl, rfl, rfl⟩

theorem keeps_recvDone (u : Uring) (r : Except Nat Bytes) : Keeps u (u.recvDone r) := by
  unfold recvDone
  split
  · split
    · refine ⟨rfl, rfl, rfl, rfl, rfl, ?_, rfl⟩
      simp [Uring.unclaimed, Cqe.isSend]
    · refine ⟨rfl, rfl, rfl, rfl, rfl, ?_, rfl⟩
      simp [Uring.unclaimed, Cqe.isSend]
  · exact .refl u

/-! ## One step -/

/-- An event that only tells what a call returned. -/
def plain : UringEvent → Bool
  | .submitReturned _ | .pollReturned _ => true
  | _ => false

/-- **What a step can do** to the sends on their way: nothing, add one at the end, execute the oldest,
or drop one. -/
inductive Moves (u : Uring) (a : UringAction) (u' : Uring) : List UringEvent → Prop
  | quiet {evs : List UringEvent} (hevs : ∀ e ∈ evs, plain e = true) (hlive : u'.live = u.live)
      (hoffset : u'.offset = u.offset) (reclaimed : Nat)
      (hstaged : u'.sendInFlight = u.sendInFlight.drop reclaimed)
      (hunclaimed : u'.unclaimed + reclaimed = u.unclaimed)
      (hkernel : ∀ r, a = .sendDone r → u.taken = []) : Moves u a u' evs
  | submitted (bytes : Bytes) {evs : List UringEvent} (hevs : ∀ e ∈ evs, plain e = true)
      (hlive : u'.live = u.live ++ [(u.offset, bytes)])
      (hoffset : u'.offset = u.offset + bytes.length)
      (hstaged : u'.sendInFlight = u.sendInFlight ++ [bytes])
      (hunclaimed : u'.unclaimed = u.unclaimed) (hkernel : ∀ r, a ≠ .sendDone r) :
      Moves u a u' (.submitted bytes :: evs)
  | sent (off : Nat) (bytes : Bytes) (result : Int) (rest : List (Nat × Bytes))
      (haction : a = .sendDone result) (htaken : u.taken = (off, bytes) :: rest)
      (hlive : u.live = (off, bytes) :: u'.live) (hoffset : u'.offset = u.offset)
      (hstaged : u'.sendInFlight = u.sendInFlight) (hunclaimed : u'.unclaimed = u.unclaimed + 1) :
      Moves u a u' [.sent off bytes (accepted bytes result)]
  | dropped (off : Nat) (bytes : Bytes) (before behind : List (Nat × Bytes))
      {evs : List UringEvent} (hevs : ∀ e ∈ evs, plain e = true)
      (hlive : u.live = before ++ (off, bytes) :: behind) (hlive' : u'.live = before ++ behind)
      (hoffset : u'.offset = u.offset) (hstaged : u'.sendInFlight = u.sendInFlight)
      (hunclaimed : u'.unclaimed = u.unclaimed) (hkernel : ∀ r, a ≠ .sendDone r) :
      Moves u a u' (.dropped off bytes :: evs)

/-- What is pending is pending in one of the modes only. -/
def Batched (u : Uring) : Prop := u.mode = .sqeStream → u.pending = []

section Step

variable {u u' : Uring} {a : UringAction} {evs : List UringEvent}

/-- A step that only moves entries along. -/
theorem moves_of_live (hevs : ∀ e ∈ evs, plain e = true) (hlive : u'.live = u.live)
    (hoffset : u'.offset = u.offset) (hstaged : u'.sendInFlight = u.sendInFlight)
    (hunclaimed : u'.unclaimed = u.unclaimed) (hkernel : ∀ r, a = .sendDone r → u.taken = []) :
    Moves u a u' evs :=
  .quiet hevs hlive hoffset 0 hstaged hunclaimed hkernel

/-- A step as `Moves` says, which stages nothing for a later batch. -/
structure Goes (u : Uring) (a : UringAction) (u' : Uring) (evs : List UringEvent) : Prop where
  moves : Moves u a u' evs
  mode : u'.mode = u.mode
  pending : u.pending = [] → u'.pending = []

theorem Goes.batched (h : Goes u a u' evs) (hbatch : u.Batched) : u'.Batched :=
  fun hmode => h.pending (hbatch (h.mode.symm.trans hmode))

/-- The caller goes on with what it holds, after bookkeeping only. -/
theorem Keeps.goes {v : Uring} {pc : UringPc} (hkeeps : Keeps u v) (hheld : held pc = held u.pc)
    (hevs : ∀ e ∈ evs, plain e = true) (ha : ∀ r, a ≠ .sendDone r) : Goes u a { v with pc } evs where
  moves := by
    refine moves_of_live hevs ?_ hkeeps.offset hkeeps.sendInFlight hkeeps.unclaimed
      fun r hr => absurd hr (ha r)
    show v.queued ++ (held pc ++ sends v.pending) = u.live
    rw [hkeeps.queued, hkeeps.pending, hheld]
    rfl
  mode := hkeeps.mode
  pending := fun hp => hkeeps.pending.trans hp

theorem Keeps.goes_same {v : Uring} (hkeeps : Keeps u v) (ha : ∀ r, a ≠ .sendDone r) :
    Goes u a v [] :=
  hkeeps.goes (congrArg held hkeeps.pc) (by simp) ha

theorem plain_returns (e : IoError) (call : UringCall) : ∀ ev ∈ returns e call, plain ev = true := by
  cases call <;> simp [returns, plain]

theorem driveInner_eq (u : Uring) (call : UringCall) :
    ∃ pc, u.driveInner call = { u with pc } ∧ held pc = [] := by
  unfold driveInner
  cases u.mode with
  | batchSyscall => exact ⟨_, rfl, rfl⟩
  | sqeStream => exact ⟨_, rfl, rfl⟩

theorem afterPush_eq (u : Uring) (call : UringCall) :
    ∃ pc flag, u.afterPush call = { u with pc, recvInFlight := flag } ∧ held pc = [] := by
  cases call with
  | submit => exact ⟨_, _, rfl, rfl⟩
  | drive => exact ⟨_, _, rfl, rfl⟩
  | pollRecv cap =>
      obtain ⟨pc, h, hheld⟩ := driveInner_eq { u with recvInFlight := true } (.pollRecv cap)
      exact ⟨pc, true, h, hheld⟩

theorem pollResult_eq {cap : Nat} {r : Except IoError Bytes} (h : u.pollResult cap = .ok (u', r)) :
    ∃ recvs flag, u' = { u with completedRecvs := recvs, recvInFlight := flag } := by
  unfold pollResult at h
  split at h
  · cases h
    exact ⟨_, _, rfl⟩
  · simp only at h
    split at h
    · cases h
      exact ⟨_, _, rfl⟩
    · split at h
      · cases h
        exact ⟨_, _, rfl⟩
      · obtain ⟨bytes, -, h⟩ := bind_eq_ok.mp h
        cases h
        exact ⟨_, _, rfl⟩

section Advance

variable {enter : Except Nat Nat} {entry : Sqe} {loop : PushLoop} {call : UringCall}

/-- `sq.push`: the entry goes from the caller's hands to the queue, or stays where it is. -/
theorem advance_push (hpc : u.pc = .push entry loop call) (h : u.advance enter = .ok (u', evs)) :
    Goes u (.caller enter) u' evs := by
  simp only [advance, hpc] at h
  split at h
  · have hqueued : ∀ pc flag, held pc = [] →
        Goes u (.caller enter) { u with sq := u.sq ++ [entry], pc, recvInFlight := flag } [] := by
      intro pc flag hheld
      refine ⟨moves_of_live (by simp) ?_ rfl rfl rfl nofun, rfl, id⟩
      show (u.taken ++ sends (u.sq ++ [entry])) ++ (held pc ++ sends u.pending) = u.live
      rw [hheld, sends_append, live, hpc]
      simp [queued, held]
    cases loop with
    | pushSqe =>
        cases h
        obtain ⟨pc, flag, heq, hnone⟩ := afterPush_eq
          { u with sq := u.sq ++ [entry], pc := .push entry .pushSqe call } call
        rw [heq]
        exact hqueued pc flag hnone
    | drainPending =>
        cases h
        exact hqueued (.drain call) u.recvInFlight rfl
  · cases h
    exact (Keeps.refl u).goes (by rw [hpc]; rfl) (by simp) nofun

/-- The queue was full: the caller keeps its entry for another round, or returns without it. -/
theorem advance_full (hpc : u.pc = .full entry loop call) (h : u.advance enter = .ok (u', evs)) :
    Goes u (.caller enter) u' evs := by
  simp only [advance, hpc] at h
  split at h
  · rename_i u₁ hflush
    cases h
    exact ((keeps_flushSubmit hflush).trans (keeps_reap u₁)).goes (by rw [hpc]; rfl) (by simp) nofun
  · rename_i e hflush
    cases h
    cases entry with
    | send off bytes =>
        refine ⟨.dropped off bytes u.queued (sends u.pending) (plain_returns e call) ?_ rfl rfl rfl
          rfl nofun, rfl, id⟩
        rw [live, hpc]
        rfl
    | recv => exact (Keeps.refl u).goes (by rw [hpc]; rfl) (plain_returns e call) nofun

/-- `pending.pop_front()` puts the oldest entry into the caller's hands. -/
theorem advance_drain (hpc : u.pc = .drain call) (h : u.advance enter = .ok (u', evs)) :
    Goes u (.caller enter) u' evs := by
  simp only [advance, hpc] at h
  split at h
  · cases h
    exact (Keeps.refl u).goes (by rw [hpc]; rfl) (by simp) nofun
  · rename_i entry rest hpending
    cases h
    refine ⟨moves_of_live (by simp) ?_ rfl rfl rfl nofun, rfl, fun hp => ?_⟩
    · show u.queued ++ (sends [entry] ++ sends rest) = u.live
      rw [live, hpc, hpending, ← sends_append]
      rfl
    · rw [hpending] at hp
      cases hp

theorem advance_flush (hpc : u.pc = .flush call) (h : u.advance enter = .ok (u', evs)) :
    Goes u (.caller enter) u' evs := by
  have hempty : ∀ {pc}, held pc = [] → held pc = held u.pc := by
    intro pc hheld
    rw [hheld, hpc]
    rfl
  simp only [advance, hpc] at h
  split at h
  · rename_i u₁ hflush
    have hkeeps := keeps_flushSubmit hflush
    cases call with
    | submit =>
        cases h
        exact hkeeps.goes (hempty rfl) (by simp [plain]) nofun
    | pollRecv | drive =>
        cases h
        exact hkeeps.goes (hempty rfl) (by simp) nofun
  · rename_i e hflush
    cases h
    exact (Keeps.refl u).goes (hempty rfl) (plain_returns e call) nofun

/-- The last `reap`; `poll_recv` then reclaims the buffers of everything that was executed. -/
theorem advance_reap (hpc : u.pc = .reap call) (h : u.advance enter = .ok (u', evs)) :
    Goes u (.caller enter) u' evs := by
  have hkeeps := keeps_reap u
  have hidle : Goes u (.caller enter) { u.reap with pc := .idle } [] :=
    hkeeps.goes (by rw [hpc]; rfl) (by simp) nofun
  simp only [advance, hpc] at h
  cases call with
  | submit | drive =>
      cases h
      exact hidle
  | pollRecv cap =>
      obtain ⟨⟨u₁, r⟩, hpoll, h⟩ := bind_eq_ok.mp h
      cases h
      obtain ⟨recvs', flag, rfl⟩ := pollResult_eq hpoll
      obtain ⟨recvs, hreap⟩ := reap_eq u
      have hlive : ({ u.reap with pc := .idle } : Uring).live = u.live := by
        show u.reap.queued ++ (held .idle ++ sends u.reap.pending) = u.live
        rw [hkeeps.queued, hkeeps.pending, live, hpc]
        rfl
      refine ⟨.quiet (by simp [plain]) hlive hkeeps.offset u.unclaimed ?_ ?_ nofun, hkeeps.mode,
        hidle.pending⟩
      · show u.reap.sendInFlight.drop u.reap.completedSends = _
        rw [hreap]
      · rw [hreap]
        exact Nat.zero_add _

/-- **A step of the caller**, wherever it stands. -/
theorem advance_goes (h : u.advance enter = .ok (u', evs)) : Goes u (.caller enter) u' evs := by
  cases hpc : u.pc with
  | idle =>
      simp only [advance, hpc] at h
      cases h
      exact (Keeps.refl u).goes_same nofun
  | push entry loop call => exact advance_push hpc h
  | full entry loop call => exact advance_full hpc h
  | drain call => exact advance_drain hpc h
  | flush call => exact advance_flush hpc h
  | reap call => exact advance_reap hpc h

end Advance

theorem sendDone_moves (u : Uring) (result : Int) :
    Moves u (.sendDone result) (u.sendDone result).1 (u.sendDone result).2 := by
  unfold sendDone
  split
  · rename_i htaken
    exact moves_of_live (by simp) rfl rfl rfl rfl fun _ _ => htaken
  · rename_i off bytes rest htaken
    refine .sent off bytes result rest rfl htaken ?_ rfl rfl ?_
    · simp only [live, queued, htaken, List.cons_append]
    · simp only [unclaimed, List.countP_append, Nat.add_assoc]
      rfl

theorem submit_moves (hbatch : u.Batched) (hidle : u.pc = .idle) (kind : Wire) (bytes : Bytes) :
    Moves u (.submit kind bytes) (u.submit kind bytes).1 (u.submit kind bytes).2 ∧
      (u.submit kind bytes).1.Batched := by
  cases kind with
  | datagram => exact ⟨moves_of_live (by simp [submit, plain]) rfl rfl rfl rfl nofun, hbatch⟩
  | stream =>
      unfold submit
      cases hmode : u.mode with
      | sqeStream =>
          refine ⟨.submitted bytes (by simp) ?_ rfl rfl rfl nofun, fun _ => hbatch hmode⟩
          simp [live, queued, hidle, held, sends, hbatch hmode]
      | batchSyscall =>
          refine ⟨.submitted bytes (by simp [plain]) ?_ rfl rfl rfl nofun, fun h => (by cases h)⟩
          simp [live, queued, sends]

/-- A call begins only when the one before has returned. -/
theorem begin_goes {begun : Uring} (ha : ∀ r, a ≠ .sendDone r)
    (hbegin : u.pc = .idle → ∃ pc, begun = { u with pc } ∧ held pc = []) :
    Goes u a (if u.pc = .idle then begun else u) [] := by
  split
  · rename_i hidle
    obtain ⟨pc, rfl, hheld⟩ := hbegin hidle
    exact (Keeps.refl u).goes (by rw [hheld, hidle]; rfl) (by simp) ha
  · exact (Keeps.refl u).goes_same ha

/-- **A step of the connection.** -/
theorem step_moves (hbatch : u.Batched) (h : u.step a = .ok (u', evs)) :
    Moves u a u' evs ∧ u'.Batched := by
  have hgoes : Goes u a u' evs → Moves u a u' evs ∧ u'.Batched :=
    fun hg => ⟨hg.moves, hg.batched hbatch⟩
  cases a with
  | submit kind bytes =>
      by_cases hidle : u.pc = .idle
      · rw [step, if_pos hidle] at h
        obtain ⟨hmoves, hb⟩ := submit_moves hbatch hidle kind bytes
        rw [Except.ok.inj h] at hmoves hb
        exact ⟨hmoves, hb⟩
      · rw [step, if_neg hidle] at h
        cases h
        exact hgoes ((Keeps.refl u).goes_same nofun)
  | pollRecv cap =>
      cases h
      refine hgoes (begin_goes nofun fun _ => ?_)
      unfold pollRecv
      split
      · exact driveInner_eq u (.pollRecv cap)
      · exact ⟨_, rfl, rfl⟩
  | drive =>
      cases h
      exact hgoes (begin_goes nofun fun _ => driveInner_eq u .drive)
  | caller enter => exact hgoes (advance_goes h)
  | take =>
      cases h
      apply hgoes
      split
      · exact (keeps_takeOne u).goes_same nofun
      · exact (Keeps.refl u).goes_same nofun
  | sendDone result =>
      have hmoves := sendDone_moves u result
      have hb : (u.sendDone result).1.Batched := by
        unfold sendDone
        split
        · exact hbatch
        · exact hbatch
      rw [show u.sendDone result = (u', evs) from Except.ok.inj h] at hmoves hb
      exact ⟨hmoves, hb⟩
  | recvDone r =>
      cases h
      exact hgoes ((keeps_recvDone u r).goes_same nofun)

end Step

/-! ## The staged buffers -/

/-- Every send that is not executed still finds its buffer, behind those that will be reclaimed first. -/
structure Staged (u : Uring) : Prop where
  batched : u.Batched
  enough : u.unclaimed ≤ u.sendInFlight.length
  buffers : List.Sublist (u.live.map Prod.snd) (u.sendInFlight.drop u.unclaimed)

theorem staged_start (mode : IoUringMode) (sqpoll : Bool) : (start mode sqpoll).Staged :=
  ⟨fun _ => rfl, Nat.le_refl _, List.Sublist.refl _⟩

theorem staged_step {u u' : Uring} {a : UringAction} {evs : List UringEvent} (hs : u.Staged)
    (h : u.step a = .ok (u', evs)) : u'.Staged := by
  obtain ⟨hmoves, hbatch⟩ := step_moves hs.batched h
  have henough := hs.enough
  have hbuffers := hs.buffers
  cases hmoves with
  | quiet _ hlive _ reclaimed hstaged hunclaimed _ =>
      refine ⟨hbatch, ?_, ?_⟩
      · rw [hstaged, List.length_drop]
        omega
      · rw [hlive, hstaged, List.drop_drop, Nat.add_comm, hunclaimed]
        exact hbuffers
  | submitted bytes _ hlive _ hstaged hunclaimed _ =>
      refine ⟨hbatch, ?_, ?_⟩
      · rw [hstaged, hunclaimed, List.length_append]
        omega
      · rw [hlive, hstaged, hunclaimed, List.map_append, List.drop_append_of_le_length henough]
        exact hbuffers.append (List.Sublist.refl _)
  | sent off bytes result rest _ _ hlive _ hstaged hunclaimed =>
      rw [hlive, List.map_cons] at hbuffers
      have hlt : u.unclaimed < u.sendInFlight.length := by
        have hlen := hbuffers.length_le
        rw [List.length_cons, List.length_drop] at hlen
        omega
      refine ⟨hbatch, ?_, ?_⟩
      · rw [hstaged, hunclaimed]
        omega
      · -- the first buffer that is kept for the oldest send is not needed for the others
        rw [hstaged, hunclaimed, ← List.tail_drop]
        exact hbuffers.tail
  | dropped off bytes before behind _ hlive hlive' _ hstaged hunclaimed _ =>
      refine ⟨hbatch, by rw [hstaged, hunclaimed]; exact henough, ?_⟩
      rw [hlive', hstaged, hunclaimed]
      refine List.Sublist.trans ?_ hbuffers
      rw [hlive]
      exact ((List.sublist_cons_self _ _).append_left before).map _

/-- **No buffer is freed too early.** In every run, the kernel reads the buffer of a send while it is
staged. -/
theorem run_staged {mode : IoUringMode} {sqpoll : Bool} {actions : List UringAction} {u : Uring}
    {log : List UringEvent} (h : machine.run (start mode sqpoll) actions = .ok (u, log)) :
    ∀ send ∈ u.live, send.2 ∈ u.sendInFlight := by
  have hs : u.Staged := Machine.run_invariant machine (fun u _ => u.Staged)
    (staged_start mode sqpoll) (fun _ _ _ _ _ hs hstep => staged_step hs hstep) h
  intro send hsend
  exact List.mem_of_mem_drop (hs.buffers.subset (List.mem_map_of_mem hsend))

end Uring

end TxSender.Backend
