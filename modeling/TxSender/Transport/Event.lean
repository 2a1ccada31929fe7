/-
# TxSender.Transport.Event — what a worker reads from outside, and what it does.
-/
import TxSender.Conn.Basic
import TxSender.ResultLane

namespace TxSender.Transport

open TxSender.Lib

/-- What a worker does for one provider. Sends and polls are logged with the connection they were
made on, as it was before the call. -/
inductive Event (H A : Type) where
  /-- `send_to` was called with this job -/
  | taken (job : Job) (sent : Nat)
  | httpSend (job : Job) (sent : Nat) (h : H) (tx : Bytes) (a : A) (r : Except TransportError Unit)
  | quicSend (job : Job) (sent : Nat) (r : Except TransportError Unit)
  /-- how `send_to` ended for the job -/
  | ended (job : Job) (sent : Nat) (r : Except TransportError Unit)
  /-- `do_failover`, with what was in flight in the worker's slot and on the QUIC connection -/
  | failover (slot : Option (Job × Nat)) (quicSlot : Option (JobId × Nat))
  | request (req : ReconnectReq)
  | polled (h : H) (a : A) (r : Except TransportError (Option Bytes))
  /-- `reap` found the QUIC connection closed -/
  | dead
  /-- `try_push` on a result ring -/
  | push (ring : Nat) (resp : RawResp)
  /-- `replace_standby` -/
  | install
  /-- `publish_diag` -/
  | diag (slot : Nat) (jobsSent : Nat)

/-- The log of a worker: a job comes off the trigger ring, or something happens for provider `i`. -/
inductive Logged (H A : Type) where
  | popped (job : Job) (sent : Nat)
  | on (i : Nat) (e : Event H A)

/-- The jobs popped, each with the time stamp taken for it. -/
def poppedJobs {H A : Type} (log : List (Logged H A)) : List (Job × Nat) :=
  log.filterMap fun l => match l with
    | .popped job sent => some (job, sent)
    | .on _ _ => none

/-- What happened for provider `i`. -/
def eventsAt {H A : Type} (i : Nat) (log : List (Logged H A)) : List (Event H A) :=
  log.filterMap fun l => match l with
    | .popped _ _ => none
    | .on j e => if j = i then some e else none

/-- An entry that reports no call on a connection. -/
def Quiet {H A : Type} : Logged H A → Prop
  | .popped _ _ | .on _ (.diag _ _) => True
  | _ => False

/-- What the outside answers during one step of a worker. A step uses the parts it asks for. -/
structure Input (H A Q K : Type) where
  stop : Bool
  /-- `trigger.try_pop()` -/
  popped : Option Job
  /-- `trigger.is_empty()` -/
  empty : Bool
  /-- `rdtsc()` -/
  tsc : Nat
  /-- the scratch buffer after `source.fill(..)`, and the length it returned -/
  filled : Bytes
  len : Nat
  /-- answers to the HTTP calls of the step -/
  drive : A
  call : A
  retry : A
  /-- `Instant::now()`, and the answer to the QUIC call of the step -/
  now : Nat
  quic : K
  /-- `reconnect_resp_rx.try_recv()` -/
  delivered : Option (ReconnectResp H Q)

/-- A step in which no job and no message comes in, and every call on a connection is answered with
`a` or `k`. -/
def Input.quiet {H A Q K : Type} (a : A) (k : K) : Input H A Q K where
  stop := false
  popped := none
  empty := false
  tsc := 0
  filled := []
  len := 0
  drive := a
  call := a
  retry := a
  now := 0
  quic := k
  delivered := none

/-- `tick & PERIODIC_MASK == 0`, with `PERIODIC_MASK` the ten low bits -/
def periodic (tick : UInt32) : Bool := tick &&& 0x3FF == 0

/-- The response to a body: `RawResp::new()` with its fields set. -/
def bodyResp (job : Job) (pid : ProviderId) (sent settled : Nat) (body : Bytes) : RawResp where
  job := job.id
  provider := pid
  sentTsc := sent
  settledTsc := settled
  bytes := respBytes body
  outcomeHint := none

/-- The response to a QUIC job whose window has passed. -/
def windowResp (id : JobId) (pid : ProviderId) (sent settled : Nat) : RawResp where
  job := id
  provider := pid
  sentTsc := sent
  settledTsc := settled
  bytes := []
  outcomeHint := some .noResponse

/-! ## Reading a log -/

section Reading

variable {H A : Type}

@[simp] theorem poppedJobs_append (l l' : List (Logged H A)) :
    poppedJobs (l ++ l') = poppedJobs l ++ poppedJobs l' := List.filterMap_append

@[simp] theorem eventsAt_append (i : Nat) (l l' : List (Logged H A)) :
    eventsAt i (l ++ l') = eventsAt i l ++ eventsAt i l' := List.filterMap_append

@[simp] theorem poppedJobs_map_on (i : Nat) (evs : List (Event H A)) :
    poppedJobs (evs.map (.on i)) = [] := by simp [poppedJobs]

@[simp] theorem eventsAt_map_on (i : Nat) (evs : List (Event H A)) :
    eventsAt i (evs.map (.on i)) = evs := by simp [eventsAt]

theorem eventsAt_map_on_ne {i j : Nat} (hij : i ≠ j) (evs : List (Event H A)) :
    eventsAt j (evs.map (.on i)) = [] := by simp [eventsAt, hij]

theorem mem_eventsAt {i : Nat} {e : Event H A} {logs : List (Logged H A)} :
    e ∈ eventsAt i logs ↔ .on i e ∈ logs := by
  unfold eventsAt
  rw [List.mem_filterMap]
  constructor
  · rintro ⟨x, hx, heq⟩
    cases x with
    | popped => cases heq
    | on j ev =>
        by_cases hij : j = i
        · subst hij
          simp only [↓reduceIte, Option.some.injEq] at heq
          rwa [← heq]
        · simp [hij] at heq
  · intro h
    exact ⟨_, h, by simp⟩

end Reading

end TxSender.Transport
