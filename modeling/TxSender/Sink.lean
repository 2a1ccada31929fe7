/-
# TxSender.Sink — jobs, providers and outcomes.
-/
import TxSender.Error

namespace TxSender

abbrev JobId := Nat
abbrev JobCtx := Nat

structure Job where
  id : JobId
  ctx : JobCtx
  deriving DecidableEq, Repr

/-- `ProviderId(u16)` -/
structure ProviderId where
  val : UInt16
  deriving DecidableEq, Repr

/-- `ProviderId(i as u16)`, which truncates. -/
def ProviderId.ofIndex (i : Nat) : ProviderId := ⟨UInt16.ofNat i⟩

inductive OutcomeKind where
  | accepted (signature : String)
  | rejected (code : Int) (message : String)
  | transport (e : TransportError)
  | noResponse
  deriving DecidableEq, Repr

structure ProviderOutcome where
  job : JobId
  provider : ProviderId
  kind : OutcomeKind
  sentAt : Nat
  settledAt : Nat
  deriving DecidableEq, Repr

end TxSender
