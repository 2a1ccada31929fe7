/-
# TxSender.Conn.Reconnect — the thread that rebuilds connections.

Workers put requests into one bounded channel that they share; the thread takes them one at a time,
builds a connection and puts it into the bounded channel of the provider. Both sides use `try_send`
and ignore its result, so a message that finds its channel full is gone.
-/
import TxSender.Conn.Basic

namespace TxSender

open TxSender.Lib

inductive ReconnectError where
  | notSupported
  /-- with the error itself for its text -/
  | build (e : SenderError)
  deriving DecidableEq, Repr

/-- `ReconnectBuilder::build(provider_idx, kind)`; the answers of the outside are of type `D`. -/
abbrev ReconnectBuilder (H Q D : Type) :=
  Nat → ConnKind → D → Exec (Except ReconnectError (ConnBox H Q))

/-- `EngineReconnectBuilder::build`, around the engine's `connect_one` -/
def engineReconnectBuilder {H Q D : Type}
    (connectOne : Nat → D → Exec (Except SenderError (Built H Q))) : ReconnectBuilder H Q D :=
  fun idx _ d => do
    match ← connectOne idx d with
    | .error e => pure (.error (.build e))
    | .ok conn => pure (.ok (.conn conn))

/-! ## Bounded channels -/

/-- The capacity of the request channel. -/
def reqCap : Nat := 64

/-- `let _ = tx.try_send(x)` on a channel of capacity `cap` -/
def trySend {α : Type} (cap : Nat) (queue : List α) (x : α) : List α :=
  if queue.length < cap then queue ++ [x] else queue

/-! ## The thread -/

/-- Where `run_reconnect_loop` stands. -/
inductive ReconnectPc where
  /-- at the top of the loop, or in `recv_timeout` -/
  | waiting
  | building (req : ReconnectReq)
  /-- returned: its ends of the channels are dropped -/
  | exited
  deriving DecidableEq, Repr

/-- The thread with the channels: the requests, and one response channel of capacity one for each
provider. -/
structure Reconnect (H Q : Type) where
  pc : ReconnectPc
  requests : List ReconnectReq
  responses : List (Option (ReconnectResp H Q))

namespace Reconnect

variable {H Q D : Type}

/-- As `ReconnectThread::spawn` starts it, for `n` providers. -/
def spawn (n : Nat) : Reconnect H Q where
  pc := .waiting
  requests := []
  responses := List.replicate n none

/-- A worker's `req_tx.try_send(req)`; with the thread gone the channel is disconnected. -/
def request (r : Reconnect H Q) (req : ReconnectReq) : Reconnect H Q :=
  match r.pc with
  | .exited => r
  | _ => { r with requests := trySend reqCap r.requests req }

/-- A worker's `resp_rx[ch].try_recv()` -/
def tryRecv (r : Reconnect H Q) (ch : Nat) : Option (ReconnectResp H Q) := (r.responses[ch]?).join

/-- The channels after that `try_recv`. -/
def received (r : Reconnect H Q) (ch : Nat) : Reconnect H Q :=
  { r with responses := r.responses.set ch none }

/-- `resp_txs.get(idx)`, and `try_send` on it -/
def respond (r : Reconnect H Q) (idx : Nat) (conn : ConnBox H Q) : Reconnect H Q :=
  match r.responses[idx]? with
  | some none => { r with responses := r.responses.set idx (some { providerIdx := idx, conn }) }
  -- no such channel, or a connection still waits in it: the new one is dropped
  | _ => r

/-- `req_rx.recv_timeout(..)` returns: with a request, or at the timeout. -/
def take (r : Reconnect H Q) : Reconnect H Q :=
  match r.pc, r.requests with
  | .waiting, req :: rest =>
      -- connections of this kind are not rebuilt
      if req.kind = .libTpa then { r with requests := rest }
      else { r with pc := .building req, requests := rest }
  | _, _ => r

/-- `builder.build(..)` returns, and a connection is sent on. -/
def finish (r : Reconnect H Q) (builder : ReconnectBuilder H Q D) (d : D) : Exec (Reconnect H Q) :=
  match r.pc with
  | .building req => do
      let built ← builder req.providerIdx req.kind d
      let r := { r with pc := .waiting }
      match built with
      | .ok conn => pure (r.respond req.providerIdx conn)
      -- a build that failed is not tried again, and nobody is told
      | .error _ => pure r
  | _ => .ok r

/-- The thread sees the stop flag at the top of its loop and returns; what is queued is dropped. -/
def exit (r : Reconnect H Q) : Reconnect H Q :=
  match r.pc with
  | .waiting => { r with pc := .exited, requests := [] }
  | _ => r

/-! ## Wiring -/

/-- Requests are for providers there are, and what waits in channel `i` was built for `i`. -/
structure Wired (n : Nat) (kind : ConnKind) (made : Nat → Built H Q → Prop) (r : Reconnect H Q) :
    Prop where
  requests : ∀ req ∈ r.requests, req.providerIdx < n ∧ req.kind = kind
  building : ∀ req, r.pc = .building req → req.providerIdx < n ∧ req.kind = kind
  length : r.responses.length = n
  responses : ∀ (i : Nat) resp, r.responses[i]? = some (some resp) →
    resp.providerIdx = i ∧ ∃ c, resp.conn = .conn c ∧ made i c

section Wired

variable {n : Nat} {kind : ConnKind} {made : Nat → Built H Q → Prop} {r r' : Reconnect H Q}

theorem wired_spawn : (spawn n : Reconnect H Q).Wired n kind made := by
  refine ⟨by simp [spawn], by simp [spawn], List.length_replicate, fun i resp h => ?_⟩
  have := List.eq_of_mem_replicate (List.mem_of_getElem? h)
  cases this

theorem Wired.request (h : r.Wired n kind made) {req : ReconnectReq}
    (hreq : req.providerIdx < n ∧ req.kind = kind) : (r.request req).Wired n kind made := by
  unfold Reconnect.request
  split
  · exact h
  · refine ⟨fun q hq => ?_, h.building, h.length, h.responses⟩
    simp only [trySend] at hq
    split at hq
    · rcases List.mem_append.mp hq with hq | hq
      · exact h.requests q hq
      · rwa [List.mem_singleton.mp hq]
    · exact h.requests q hq

theorem Wired.received (h : r.Wired n kind made) (ch : Nat) : (r.received ch).Wired n kind made := by
  refine ⟨h.requests, h.building, List.length_set.trans h.length, fun i resp hi => ?_⟩
  by_cases hch : ch = i
  · subst hch
    have hlt := (List.getElem?_eq_some_iff.mp hi).1
    rw [Reconnect.received, List.getElem?_set_self (by simpa [Reconnect.received] using hlt)] at hi
    cases hi
  · rw [Reconnect.received, List.getElem?_set_ne hch] at hi
    exact h.responses i resp hi

theorem Wired.respond (h : r.Wired n kind made) {i : Nat} {c : Built H Q} (hc : made i c) :
    (r.respond i (.conn c)).Wired n kind made := by
  unfold Reconnect.respond
  split
  · rename_i hnone
    refine ⟨h.requests, h.building, List.length_set.trans h.length, fun j resp hj => ?_⟩
    by_cases hij : i = j
    · subst hij
      rw [List.getElem?_set_self (List.getElem?_eq_some_iff.mp hnone).1] at hj
      obtain rfl := Option.some.inj (Option.some.inj hj)
      exact ⟨rfl, c, rfl, hc⟩
    · rw [List.getElem?_set_ne hij] at hj
      exact h.responses j resp hj
  · exact h

theorem Wired.take (h : r.Wired n kind made) : r.take.Wired n kind made := by
  unfold Reconnect.take
  split
  · rename_i req rest hpc hreqs
    have hrest : ∀ q ∈ rest, q.providerIdx < n ∧ q.kind = kind := by
      intro q hq
      exact h.requests q (hreqs ▸ List.mem_cons_of_mem _ hq)
    split
    · exact ⟨hrest, h.building, h.length, h.responses⟩
    · refine ⟨hrest, fun q hq => ?_, h.length, h.responses⟩
      obtain rfl := ReconnectPc.building.inj hq
      exact h.requests req (hreqs ▸ List.mem_cons_self ..)
  · exact h

theorem Wired.exit (h : r.Wired n kind made) : r.exit.Wired n kind made := by
  unfold Reconnect.exit
  split
  · exact ⟨by simp, nofun, h.length, h.responses⟩
  · exact h

theorem Wired.idle (h : r.Wired n kind made) : ({ r with pc := .waiting }).Wired n kind made :=
  ⟨h.requests, nofun, h.length, h.responses⟩

/-- What a build that returns does, for a builder around `connect_one`. -/
theorem finish_cases {connectOne : Nat → D → Exec (Except SenderError (Built H Q))} {d : D}
    (h : r.finish (engineReconnectBuilder connectOne) d = .ok r') :
    ((∀ req, r.pc ≠ .building req) ∧ r' = r) ∨
    ∃ req, r.pc = .building req ∧
      ((∃ e, connectOne req.providerIdx d = .ok (.error e) ∧ r' = { r with pc := .waiting }) ∨
        ∃ c, connectOne req.providerIdx d = .ok (.ok c) ∧
          r' = ({ r with pc := .waiting }).respond req.providerIdx (.conn c)) := by
  unfold finish at h
  split at h
  · rename_i req hpc
    obtain ⟨built, hbuilt, h⟩ := bind_eq_ok.mp h
    obtain ⟨v, hv, hbuilt⟩ := bind_eq_ok.mp hbuilt
    refine .inr ⟨req, hpc, ?_⟩
    cases v with
    | error e =>
        obtain rfl := Except.ok.inj hbuilt
        exact .inl ⟨e, hv, (Except.ok.inj h).symm⟩
    | ok c =>
        obtain rfl := Except.ok.inj hbuilt
        exact .inr ⟨c, hv, (Except.ok.inj h).symm⟩
  · rename_i hpc
    exact .inl ⟨hpc, (Except.ok.inj h).symm⟩

end Wired

end Reconnect

end TxSender
