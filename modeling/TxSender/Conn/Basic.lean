/-
# TxSender.Conn.Basic — connections, and the two a provider holds.

A worker sees an HTTP connection through three calls (`HttpApi`) and a QUIC engine through three
others (`QuicApi`). Both are parameters of the worker; `HttpConn` below is the crate's own HTTP
connection over any byte transport and TLS session, and `quinnApi` is the QUIC engine over
quinn. What the outside answers during a call is the argument of type `A`, or `K` for QUIC.
-/
import TxSender.Http.Engine
import TxSender.Protocol.Quic
import TxSender.Sink

namespace TxSender

open TxSender.Lib
open TxSender.Http
open TxSender.Protocol

/-! ## HTTP connections -/

structure HttpApi (H A : Type) where
  sendTx : H → Bytes → A → Exec (H × Except TransportError Unit)
  pollResponse : H → A → Exec (H × Except TransportError (Option Bytes))
  drive : H → A → H

/-- `ByteIo` on one stream: the back end and its connection as one state. -/
structure ByteIo (B A : Type) where
  submit : B → Bytes → A → Exec (B × Except IoError Unit)
  /-- `poll_recv(conn, &mut buf)` with a buffer of the given size: the bytes it received -/
  pollRecv : B → Nat → A → Exec (B × Except IoError Bytes)
  drive : B → A → B

structure HttpConn (B T : Type) where
  io : B
  engine : HttpEngine T

namespace HttpConn

variable {B A T : Type}

def sendTx (io : ByteIo B A) (tls : Tls T) (c : HttpConn B T) (tx : Bytes) (a : A) :
    Exec (HttpConn B T × Except TransportError Unit) := do
  let (engine, r) ← c.engine.encode tls tx
  match r with
  | .error e => pure ({ c with engine }, .error e)
  | .ok cipher => do
      let (b, r) ← io.submit c.io cipher a
      pure ({ io := b, engine }, r.mapError .io)

def pollResponse (io : ByteIo B A) (tls : Tls T) (c : HttpConn B T) (a : A) :
    Exec (HttpConn B T × Except TransportError (Option Bytes)) := do
  let (b, r) ← io.pollRecv c.io 4096 a
  match r with
  | .error e => pure ({ c with io := b }, .error (.io e))
  | .ok rx => do
      let (engine, r) ← c.engine.ingest tls rx
      pure ({ io := b, engine }, r)

def drive (io : ByteIo B A) (c : HttpConn B T) (a : A) : HttpConn B T :=
  { c with io := io.drive c.io a }

/-- The calls a worker makes on such a connection. -/
def api (io : ByteIo B A) (tls : Tls T) : HttpApi (HttpConn B T) A where
  sendTx := sendTx io tls
  pollResponse := pollResponse io tls
  drive := drive io

end HttpConn

/-- The kinds of I/O errors that make a worker fail over. -/
def httpConnFailedIo (e : IoError) : Bool :=
  match e.kind with
  | .unexpectedEof | .brokenPipe | .connectionReset | .connectionAborted => true
  | _ => false

/-! ## QUIC connections -/

structure QuicApi (Q K : Type) where
  sendTx : Q → Bytes → Nat → K → Q × Except TransportError Unit
  drive : Q → Nat → K → Q
  isClosed : Q → Bool

def quinnApi {C K : Type} (q : Quinn C K) : QuicApi (QuicEngine C) K where
  sendTx e tx now _ := e.sendTx q tx now
  drive e now k := e.drive q now k
  isClosed e := e.isClosed q

def quicResponseWindowMs : Nat := 500

structure QuicConn (Q : Type) where
  engine : Q
  inflight : Option (JobId × Nat)
  sentAt : Option Nat

namespace QuicConn

variable {Q K : Type}

def new (engine : Q) : QuicConn Q where
  engine := engine
  inflight := none
  sentAt := none

def sendTx (api : QuicApi Q K) (q : QuicConn Q) (job : Job) (sentTsc : Nat) (tx : Bytes)
    (now : Nat) (k : K) : QuicConn Q × Except TransportError Unit :=
  match api.sendTx q.engine tx now k with
  | (engine, .error e) => ({ q with engine }, .error e)
  | (engine, .ok ()) => ({ engine, inflight := some (job.id, sentTsc), sentAt := some now }, .ok ())

/-- `poll_noresp_window`; instants are nanoseconds. -/
def pollNorespWindow (q : QuicConn Q) (now : Nat) : QuicConn Q × Option (JobId × Nat) :=
  match q.inflight, q.sentAt with
  | some entry, some sentAt =>
      if now - sentAt > quicResponseWindowMs * 1000000 then
        ({ q with inflight := none, sentAt := none }, some entry)
      else (q, none)
  | _, _ => (q, none)

def drive (api : QuicApi Q K) (q : QuicConn Q) (now : Nat) (k : K) : QuicConn Q :=
  { q with engine := api.drive q.engine now k }

def isDead (api : QuicApi Q K) (q : QuicConn Q) : Bool := api.isClosed q.engine

end QuicConn

/-! ## The two connections of a provider -/

inductive ConnState (H Q : Type) where
  | http (h : H)
  | quic (q : QuicConn Q)

/-- Both kinds of calls. -/
structure ConnApi (H A Q K : Type) where
  http : HttpApi H A
  quic : QuicApi Q K

/-- What the outside answers while a connection is driven. -/
def ConnState.drive {H A Q K : Type} (api : ConnApi H A Q K) (c : ConnState H Q) (a : A) (now : Nat)
    (k : K) : ConnState H Q :=
  match c with
  | .http h => .http (api.http.drive h a)
  | .quic q => .quic (q.drive api.quic now k)

/-- The job a QUIC connection waits for. -/
def ConnState.quicInflight {H Q : Type} : ConnState H Q → Option (JobId × Nat)
  | .http _ => none
  | .quic q => q.inflight

structure ConnSlot (C : Type) where
  conn : C
  healthy : Bool

structure DualConn (C : Type) where
  active : ConnSlot C
  standby : ConnSlot C

namespace DualConn

variable {C : Type}

def new (active standby : C) : DualConn C where
  active := { conn := active, healthy := true }
  standby := { conn := standby, healthy := true }

def swap (d : DualConn C) : DualConn C where
  active := { d.standby with healthy := true }
  standby := d.active

def replaceStandby (d : DualConn C) (conn : C) : DualConn C :=
  { d with standby := { conn, healthy := true } }

/-- The active connection after a call on it. -/
def setActive (d : DualConn C) (conn : C) : DualConn C := { d with active := { d.active with conn } }

end DualConn

/-- What `connect_one` returns: an HTTP connection, or a QUIC connection around a new engine. -/
inductive Built (H Q : Type) where
  | http (h : H)
  | quic (engine : Q)

def Built.state {H Q : Type} : Built H Q → ConnState H Q
  | .http h => .http h
  | .quic engine => .quic (QuicConn.new engine)

/-! ## Reconnect messages -/

inductive ConnKind where
  | rawLibc
  | ioUring
  | libTpa
  deriving DecidableEq, Repr

structure ReconnectReq where
  providerIdx : Nat
  kind : ConnKind
  deriving DecidableEq, Repr

/-- `ConnBox`: the connection a worker can cast the box to, or a box of another type. -/
inductive ConnBox (H Q : Type) where
  | conn (c : Built H Q)
  | other

structure ReconnectResp (H Q : Type) where
  providerIdx : Nat
  conn : ConnBox H Q

end TxSender
