/-
# TxSender.Transport.Connect — how a provider's configuration becomes a connection.

`connect_one` is the only place where connections are made: for the two a provider starts with, and
for each rebuild. What it asks of the operating system, rustls and quinn is a parameter (`Dialer`);
their answers during one `connect_one` are the argument of type `D`.
-/
import TxSender.Conn.Basic
import TxSender.Http.Envelope
import TxSender.Provider.Config

namespace TxSender

open TxSender.Lib
open TxSender.Http
open TxSender.Protocol
open TxSender.Provider

/-- The outside, for `connect_one`: byte streams `B`, TLS sessions `T`, QUIC engines `Q` with client
configurations `C`, and the answers `A` to the calls on a byte stream. -/
structure Dialer (B T A Q C D : Type) where
  /-- `make(i)`: the back end for provider `i`, or why there is none -/
  make : Nat → D → Except SenderError Unit
  /-- `io.connect(addr)` -/
  connect : String → D → Except IoError B
  /-- `ClientConnection::new(config, ServerName::try_from(name)?)` -/
  session : String → D → Except String T
  isHandshaking : T → Bool
  /-- the answers to the calls of one round of the handshake, round after round -/
  rounds : D → List A
  /-- `build_quic_client_config(profile, auth)` -/
  quicClientConfig : QuicProfile → QuicAuth → D → Except TransportError C
  /-- `QuicEngine::connect(client_cfg, addr, server_name)` -/
  quicConnect : C → String → String → D → Except TransportError Q

variable {B T A Q C D : Type}

/-! ## HTTP -/

namespace HttpConn

/-- One round of the handshake of `connect_with`. -/
def handshakeRound (io : ByteIo B A) (tls : Tls T) (c : HttpConn B T) (a : A) :
    Exec (HttpConn B T × Except TransportError Unit) := do
  let (session, out) := tls.writeTls c.engine.tls
  let c := { c with engine := { c.engine with tls := session } }
  let (b, r) ← if out = [] then .ok (c.io, .ok ()) else io.submit c.io out a
  match r with
  | .error e => pure ({ c with io := b }, .error (.io e))
  | .ok () => do
      let (b, r) ← io.pollRecv (io.drive b a) 4096 a
      match r with
      | .error e => pure ({ c with io := b }, .error (.io e))
      | .ok [] => pure ({ c with io := b }, .ok ())
      | .ok rx => do
          let (engine, r) ← c.engine.ingest tls rx
          pure ({ io := b, engine }, r.map fun _ => ())

/-- The handshake loop of `connect_with`; it spins when the answers run out. -/
def handshake (io : ByteIo B A) (tls : Tls T) (isHandshaking : T → Bool) (c : HttpConn B T) :
    List A → Exec (Except TransportError (HttpConn B T))
  | [] => if isHandshaking c.engine.tls then .error .blocked else .ok (.ok c)
  | a :: rest =>
      if isHandshaking c.engine.tls then do
        let (c, r) ← c.handshakeRound io tls a
        match r with
        | .error e => pure (.error e)
        | .ok () => c.handshake io tls isHandshaking rest
      else .ok (.ok c)

def connectWith (io : ByteIo B A) (tls : Tls T) (dial : Dialer B T A Q C D) (cfg : ProviderConfig)
    (envelope : EnvelopeTemplate) (d : D) : Exec (Except TransportError (HttpConn B T)) :=
  let addr := cfg.endpoint.host ++ ":" ++ toString cfg.endpoint.port.toNat
  match dial.connect addr d with
  | .error e => .ok (.error (.connect e))
  | .ok raw =>
      match dial.session cfg.endpoint.serverName d with
      | .error e => .ok (.error (.tls e))
      | .ok session =>
          handshake io tls dial.isHandshaking { io := raw, engine := HttpEngine.new session envelope }
            (dial.rounds d)

end HttpConn

namespace Transport

/-- Where `build_envelope` puts the credentials. -/
def authPlacement : HttpAuth → AuthPlacement
  | .none => .none
  | .header name value => .header name value
  | .urlParam key value => .urlParam key value
  | .urlPath token => .urlPath token

def buildEnvelope (p : ProviderConfig) : EnvelopeSpec :=
  let b := (EnvelopeSpecBuilder.new "POST" p.endpoint.path p.endpoint.serverName
    p.maxBody).authPlacement (authPlacement p.auth)
  let b := if p.bodyTemplate = "" then b else b.bodyTemplate p.bodyTemplate
  b.build

/-! ## One connection -/

/-- `connect_one` for an HTTP provider -/
def connectHttp (io : ByteIo B A) (tls : Tls T) (dial : Dialer B T A Q C D) (p : ProviderConfig)
    (i : Nat) (d : D) : Exec (Except SenderError (Built (HttpConn B T) Q)) := do
  match ← (buildEnvelope p).compile with
  | .error e => pure (.error (.connect (UInt16.ofNat i) (.envelope e)))
  | .ok tpl =>
      match dial.make i d with
      | .error e => pure (.error e)
      | .ok () => do
          match ← HttpConn.connectWith io tls dial p tpl d with
          | .error e => pure (.error (.connect (UInt16.ofNat i) e))
          | .ok conn => pure (.ok (.http conn))

/-- `connect_one` for a QUIC provider -/
def connectQuic {H : Type} (dial : Dialer B T A Q C D) (p : ProviderConfig) (i : Nat) (d : D) :
    Except SenderError (Built H Q) :=
  match p.quicEndpoint with
  | none => .error (.quicConfig (UInt16.ofNat i) "missing quic_endpoint")
  | some ep =>
      match p.quicProfile with
      | none => .error (.quicConfig (UInt16.ofNat i) "missing quic_profile")
      | some profile =>
          match p.quicAuth with
          | none => .error (.quicConfig (UInt16.ofNat i) "missing quic_auth")
          | some auth =>
              match dial.quicClientConfig profile auth d with
              | .error e => .error (.connect (UInt16.ofNat i) e)
              | .ok cfg =>
                  match dial.quicConnect cfg ep.addr ep.serverName d with
                  | .error e => .error (.connect (UInt16.ofNat i) e)
                  | .ok engine => .ok (.quic engine)

def connectOne (io : ByteIo B A) (tls : Tls T) (dial : Dialer B T A Q C D)
    (providers : List ProviderConfig) (i : Nat) (d : D) :
    Exec (Except SenderError (Built (HttpConn B T) Q)) := do
  let p ← Exec.index providers i
  match p.protocol with
  | .http => connectHttp io tls dial p i d
  | .quic => pure (connectQuic dial p i d)

/-- `connect_dual_all`, from provider `i` on for `n` more; `ds` holds the answers for the two
connections of each. -/
def connectDualAll {H : Type} (connectOne : Nat → D → Exec (Except SenderError (Built H Q)))
    (ds : Nat → D × D) : (n i : Nat) →
    Exec (Except SenderError (List (DualConn (ConnState H Q))))
  | 0, _ => pure (.ok [])
  | n + 1, i => do
      match ← connectOne i (ds i).1 with
      | .error e => pure (.error e)
      | .ok active => do
          match ← connectOne i (ds i).2 with
          | .error e => pure (.error e)
          | .ok standby => do
              match ← connectDualAll connectOne ds n (i + 1) with
              | .error e => pure (.error e)
              | .ok duals => pure (.ok (DualConn.new active.state standby.state :: duals))

end Transport

end TxSender
