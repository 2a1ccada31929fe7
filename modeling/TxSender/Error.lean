/-
# TxSender.Error — the error types of the crate.

I/O errors carry a kind and, when they come from the kernel, the error number. The transport layer
decides on kinds and numbers alone, so both are kept; texts of TLS and QUIC errors are kept as the
strings the code builds.
-/
import TxSender.Lib.Exec

namespace TxSender

/-- `std::io::ErrorKind`, as far as socket code meets it. -/
inductive ErrorKind where
  | notFound
  | permissionDenied
  | connectionRefused
  | connectionReset
  | hostUnreachable
  | networkUnreachable
  | connectionAborted
  | notConnected
  | addrInUse
  | addrNotAvailable
  | networkDown
  | brokenPipe
  | wouldBlock
  | invalidInput
  | invalidData
  | timedOut
  | writeZero
  | interrupted
  | unsupported
  | unexpectedEof
  | outOfMemory
  | inProgress
  | other
  | uncategorized
  deriving DecidableEq, Repr

/-- The kind the standard library gives a Linux error number. Numbers no socket call returns are
left uncategorized, as the unknown ones are. -/
def decodeErrorKind : Int → ErrorKind
  | 1 => .permissionDenied
  | 2 => .notFound
  | 4 => .interrupted
  | 11 => .wouldBlock
  | 12 => .outOfMemory
  | 13 => .permissionDenied
  | 22 => .invalidInput
  | 32 => .brokenPipe
  | 38 => .unsupported
  | 95 => .unsupported
  | 98 => .addrInUse
  | 99 => .addrNotAvailable
  | 100 => .networkDown
  | 101 => .networkUnreachable
  | 103 => .connectionAborted
  | 104 => .connectionReset
  | 107 => .notConnected
  | 110 => .timedOut
  | 111 => .connectionRefused
  | 113 => .hostUnreachable
  | 115 => .inProgress
  | _ => .uncategorized

/-- `std::io::Error`: its kind, and the error number of one that came from the kernel. -/
structure IoError where
  kind : ErrorKind
  rawOsError : Option Int
  deriving DecidableEq, Repr

/-- `io::Error::from(kind)` -/
def IoError.fromKind (k : ErrorKind) : IoError := ⟨k, none⟩

/-- `io::Error::from_raw_os_error(code)` -/
def IoError.fromRawOsError (code : Int) : IoError := ⟨decodeErrorKind code, some code⟩

inductive EnvelopeError where
  | bodySentinelMissing
  | bodyMaxTooSmall (maxLen sentinel : Nat)
  | bodyTooLarge (encoded bodyMax : Nat)
  | contentLengthOverflow (value width : Nat)
  | unknownUserSlot (name : String)
  | userSlotOverflow (name : String) (value sentinel : Nat)
  deriving DecidableEq, Repr

inductive TransportError where
  | connect (e : IoError)
  | io (e : IoError)
  | tls (message : String)
  | quic (message : String)
  | envelope (e : EnvelopeError)
  | closed
  | failover
  | tpa (code : Int)
  deriving DecidableEq, Repr

inductive TriggerError where
  | backpressure
  deriving DecidableEq, Repr

inductive SenderError where
  | noProviders
  | noSource
  | noSink
  | noTransport
  | noTls
  | unsupported (e : IoError)
  | connect (provider : UInt16) (source : TransportError)
  | quicConfig (provider : UInt16) (reason : String)
  deriving DecidableEq, Repr

end TxSender
