/-
# TxSender.Provider.Config — what the user says about a provider.
-/
import TxSender.ResultLane

namespace TxSender.Provider

open TxSender.Lib

inductive Protocol where
  | http
  | quic
  deriving DecidableEq, Repr

inductive HttpAuth where
  | none
  | header (name value : String)
  | urlParam (key value : String)
  | urlPath (token : String)
  deriving DecidableEq, Repr

structure HttpEndpoint where
  host : String
  port : UInt16
  path : String
  serverName : String
  deriving DecidableEq, Repr

/-- The socket address is kept as text. -/
structure QuicEndpoint where
  addr : String
  serverName : String
  deriving DecidableEq, Repr

structure QuicProfile where
  alpn : Bytes
  idleTimeoutMs : Nat
  keepaliveIntervalSecs : Nat
  maxStreamsUni : Nat
  deriving DecidableEq, Repr

inductive QuicAuth where
  | ed25519Keypair (key : Bytes)
  | falconApiKey (key : String)
  | noCert
  deriving DecidableEq, Repr

structure ProviderConfig where
  protocol : Protocol
  endpoint : HttpEndpoint
  quicEndpoint : Option QuicEndpoint
  quicProfile : Option QuicProfile
  quicAuth : Option QuicAuth
  auth : HttpAuth
  maxBody : Nat
  bodyTemplate : String
  codec : Codec

end TxSender.Provider
