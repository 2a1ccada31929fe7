/-
# TxSender.Protocol.Quic — the QUIC engine over a quinn connection.

The connection itself is a parameter: the calls the engine makes on it, with everything the socket
brings in during a call as an answer of type `K`. Instants are nanoseconds.
-/
import TxSender.Error

namespace TxSender.Protocol

open TxSender.Lib

/-- The calls made on a `quinn_proto::Connection` and its endpoint. -/
structure Quinn (C K : Type) where
  isClosed : C → Bool
  isDrained : C → Bool
  /-- `streams().open(Dir::Uni)` -/
  openUni : C → C × Option Nat
  /-- `send_stream(id).write_chunks(..)`: how many bytes were taken -/
  writeChunks : C → Nat → Bytes → C × Except String Nat
  finish : C → Nat → C
  /-- `poll_transmit` until it has nothing more; the datagrams go to the socket -/
  drainTransmits : C → Nat → C
  /-- one datagram from the socket, if any, and the endpoint events it caused -/
  recvOnce : C → Nat → K → C
  handleTimeout : C → Nat → C
  pollTimeout : C → C × Option Nat

/-- `c.is_closed() || c.is_drained()` -/
def Quinn.gone {C K : Type} (q : Quinn C K) (c : C) : Bool := q.isClosed c || q.isDrained c

/-- A connection that is closed or drained stays so under the calls that are made on one. -/
structure Quinn.StaysClosed {C K : Type} (q : Quinn C K) : Prop where
  drainTransmits : ∀ c now, q.gone c = true → q.gone (q.drainTransmits c now) = true
  recvOnce : ∀ c now k, q.gone c = true → q.gone (q.recvOnce c now k) = true
  handleTimeout : ∀ c now, q.gone c = true → q.gone (q.handleTimeout c now) = true
  pollTimeout : ∀ c, q.gone c = true → q.gone (q.pollTimeout c).1 = true

structure QuicEngine (C : Type) where
  connection : Option C
  nextTimeout : Option Nat

namespace QuicEngine

variable {C K : Type}

def isClosed (q : Quinn C K) (e : QuicEngine C) : Bool :=
  match e.connection with
  | some c => q.gone c
  | none => true

/-- `self.next_timeout = self.connection.as_mut().and_then(|c| c.poll_timeout())` -/
def resetTimeout (q : Quinn C K) (e : QuicEngine C) : QuicEngine C :=
  match e.connection with
  | some c =>
      let (c, t) := q.pollTimeout c
      { connection := some c, nextTimeout := t }
  | none => { e with nextTimeout := none }

def sendTx (q : Quinn C K) (e : QuicEngine C) (tx : Bytes) (now : Nat) :
    QuicEngine C × Except TransportError Unit :=
  match e.connection with
  | none => (e, .error (.quic "connection closed"))
  | some c =>
      if q.gone c then (e, .error (.quic "connection closed"))
      else
        match q.openUni c with
        | (c, none) => ({ e with connection := some c }, .error (.quic "stream limit reached"))
        | (c, some id) =>
            match q.writeChunks c id tx with
            | (c, .error err) => ({ e with connection := some c }, .error (.quic ("write: " ++ err)))
            | (c, .ok written) =>
                if written < tx.length then
                  ({ e with connection := some c }, .error (.quic "partial write"))
                else
                  let c := q.drainTransmits (q.finish c id) now
                  (resetTimeout q { e with connection := some c }, .ok ())

/-- `drive_timeout` -/
def driveTimeout (q : Quinn C K) (e : QuicEngine C) (now : Nat) : QuicEngine C :=
  match e.nextTimeout, e.connection with
  | some deadline, some c =>
      if now < deadline then e
      else { e with connection := some (q.drainTransmits (q.handleTimeout c now) now) }
  | _, _ => e

def drive (q : Quinn C K) (e : QuicEngine C) (now : Nat) (k : K) : QuicEngine C :=
  let e := { e with connection := e.connection.map fun c => q.recvOnce c now k }
  let e := driveTimeout q e now
  let e := { e with connection := e.connection.map fun c => q.drainTransmits c now }
  resetTimeout q e

/-- A closed engine refuses to send, and stays as it is. -/
theorem sendTx_of_closed {q : Quinn C K} {e : QuicEngine C} (h : e.isClosed q = true) (tx : Bytes)
    (now : Nat) : e.sendTx q tx now = (e, .error (.quic "connection closed")) := by
  unfold isClosed at h
  unfold sendTx
  cases hc : e.connection with
  | none => rfl
  | some c =>
      rw [hc] at h
      simp only at h ⊢
      rw [if_pos h]

theorem isClosed_resetTimeout {q : Quinn C K} (hq : q.StaysClosed) {e : QuicEngine C}
    (h : e.isClosed q = true) : (e.resetTimeout q).isClosed q = true := by
  unfold isClosed at h
  unfold resetTimeout
  cases hc : e.connection with
  | none => rfl
  | some c =>
      rw [hc] at h
      exact hq.pollTimeout c h

theorem isClosed_map {q : Quinn C K} {f : C → C} {e : QuicEngine C}
    (hf : ∀ c, q.gone c = true → q.gone (f c) = true) (h : e.isClosed q = true) :
    isClosed q { e with connection := e.connection.map f } = true := by
  unfold isClosed at h ⊢
  cases hc : e.connection with
  | none => rfl
  | some c =>
      rw [hc] at h
      exact hf c h

theorem isClosed_driveTimeout {q : Quinn C K} (hq : q.StaysClosed) {e : QuicEngine C}
    (h : e.isClosed q = true) (now : Nat) : (e.driveTimeout q now).isClosed q = true := by
  unfold driveTimeout
  split
  · rename_i deadline c ht hc
    split
    · exact h
    · unfold isClosed at h ⊢
      rw [hc] at h
      exact hq.drainTransmits _ now (hq.handleTimeout c now h)
  · exact h

/-- Driving does not reopen a closed engine. -/
theorem isClosed_drive {q : Quinn C K} (hq : q.StaysClosed) {e : QuicEngine C}
    (h : e.isClosed q = true) (now : Nat) (k : K) : (e.drive q now k).isClosed q = true := by
  unfold drive
  have hrecv := isClosed_map (f := fun c => q.recvOnce c now k) (fun c => hq.recvOnce c now k) h
  have htime := isClosed_driveTimeout hq hrecv now
  have hdrain := isClosed_map (f := fun c => q.drainTransmits c now)
    (fun c => hq.drainTransmits c now) htime
  exact isClosed_resetTimeout hq hdrain

end QuicEngine

/-- A connection that takes every write, and that the peer closes with a datagram `true`; its state
says whether it is closed. -/
def flagQuinn : Quinn Bool Bool where
  isClosed c := c
  isDrained c := c
  openUni c := (c, some 2)
  writeChunks c _ tx := (c, .ok tx.length)
  finish c _ := c
  drainTransmits c _ := c
  recvOnce c _ k := c || k
  handleTimeout c _ := c
  pollTimeout c := (c, none)

theorem staysClosed_flagQuinn : flagQuinn.StaysClosed := by
  constructor
  · exact fun c now h => h
  · intro c now k h
    simp only [Quinn.gone, flagQuinn, Bool.or_self] at h ⊢
    rw [h, Bool.true_or]
  · exact fun c now h => h
  · exact fun c h => h

end TxSender.Protocol
