/-
# TxSender.Transport.Sender — the whole sender.

`SenderBuilder::build` connects the providers and wires the workers, the reconnect thread and the
result lane together; what follows is any interleaving of their steps. A worker's channel ends are
numbers here, so that who shares what with whom is what `build` makes it.
-/
import TxSender.Conn.Reconnect
import TxSender.Provider.Config
import TxSender.Transport.Connect
import TxSender.Transport.Projection

namespace TxSender.Transport

open TxSender.Lib
open TxSender.Provider

variable {H A Q K D : Type}

/-! ## The worker threads -/

/-- One thread for all providers, or one for each. -/
inductive Workers (H Q : Type) where
  | sequential (s : SequentialWorker H Q) (pc : SequentialWorker.Pc)
  | parallel (ws : List (ParWorker H Q × ParWorker.Pc))

namespace Workers

/-- What the workers hold for provider `i`. -/
def view : Workers H Q → Nat → Option (ParWorker H Q)
  | .sequential s _, i => s.view i
  | .parallel ws, i => (ws[i]?).map Prod.fst

/-- The response channel on which the next step of thread `j` calls `try_recv`. -/
def receives : Workers H Q → Nat → Option Nat
  | .sequential s (.deliver i _), 0 => s.reconnectRespRx[i]?
  | .parallel ws, j =>
      match ws[j]? with
      | some (w, .deliver _) => some w.reconnectRespRx
      | _ => none
  | _, _ => none

/-- A step of thread `j`. -/
def step (api : ConnApi H A Q K) :
    Workers H Q → Nat → Input H A Q K → Exec (Workers H Q × List (Logged H A))
  | .sequential s pc, 0, inp => do
      let ((s, pc), evs) ← SequentialWorker.step api (s, pc) inp
      pure (.sequential s pc, evs)
  | .parallel ws, j, inp =>
      match ws[j]? with
      | some st => do
          let (st, evs) ← ParWorker.step api st inp
          pure (.parallel (ws.set j st), evs)
      | none => .ok (.parallel ws, [])
  | ws, _, _ => .ok (ws, [])

end Workers

/-! ## The sender -/

structure Sender (H Q : Type) where
  workers : Workers H Q
  reconnect : Reconnect H Q
  lane : ResultLane
  stop : Bool

/-- Who moves next, and what the outside answers. -/
inductive Action (H A Q K D : Type) where
  | worker (j : Nat) (inp : Input H A Q K)
  /-- the reconnect thread takes a request -/
  | take
  /-- its build returns -/
  | finish (d : D)
  /-- the reconnect thread sees the stop flag -/
  | exit
  /-- the result lane; `sawStop` is what it reads of the stop flag if that is set -/
  | lane (sawStop : Bool)
  | shutdown

namespace Sender

/-- What a logged event puts into a channel. -/
def absorb (s : Sender H Q) : Logged H A → Sender H Q
  | .on _ (.request req) => { s with reconnect := s.reconnect.request req }
  | .on _ (.push ring resp) => { s with lane := s.lane.push ring resp }
  | _ => s

/-- The input of a worker's step: what it finds in the channels, and the stop flag, which it may see
late. -/
def hand (s : Sender H Q) (j : Nat) (inp : Input H A Q K) : Input H A Q K :=
  { inp with
    stop := inp.stop && s.stop
    delivered := (s.workers.receives j).bind s.reconnect.tryRecv }

/-- The channels after the `try_recv` of that step. -/
def afterRecv (s : Sender H Q) (j : Nat) : Reconnect H Q :=
  match s.workers.receives j with
  | some ch => s.reconnect.received ch
  | none => s.reconnect

def step (api : ConnApi H A Q K) (builder : ReconnectBuilder H Q D) (s : Sender H Q) :
    Action H A Q K D → Exec (Sender H Q × List (Logged H A))
  | .worker j inp => do
      let (workers, evs) ← s.workers.step api j (s.hand j inp)
      -- what the step requested and pushed, in the order in which it did
      pure (evs.foldl absorb { s with workers, reconnect := s.afterRecv j }, evs)
  | .take => .ok ({ s with reconnect := s.reconnect.take }, [])
  | .finish d => do
      let reconnect ← s.reconnect.finish builder d
      pure ({ s with reconnect }, [])
  | .exit => .ok (if s.stop then { s with reconnect := s.reconnect.exit } else s, [])
  | .lane sawStop => do
      let lane ← s.lane.step (sawStop && s.stop)
      pure ({ s with lane }, [])
  | .shutdown => .ok ({ s with stop := true }, [])

/-- The sender at work: all its threads, a step at a time. -/
def machine (api : ConnApi H A Q K) (builder : ReconnectBuilder H Q D) :
    Machine (Sender H Q) (Action H A Q K D) (Logged H A) where
  step := step api builder

end Sender

/-! ## Building one -/

/-- The engines over `raw_libc` and `io_uring`; modes, tuning and thread placement are left out. -/
inductive Engine where
  | seqRaw
  | seqUring
  | parRaw
  deriving DecidableEq, Repr

def Engine.connKind : Engine → ConnKind
  | .seqRaw | .parRaw => .rawLibc
  | .seqUring => .ioUring

/-- Of the source, the sink and the TLS configuration only their presence matters to `build`. -/
structure SenderBuilder where
  transport : Option Engine
  providers : List ProviderConfig
  hasSource : Bool
  hasSink : Bool
  hasTls : Bool

/-- `spawn_parallel`, from worker `i` on -/
def spawnParallel (kind : ConnKind) (diag : List Nat) : Nat →
    List ((DualConn (ConnState H Q) × Nat) × Nat) → Exec (List (ParWorker H Q × ParWorker.Pc))
  | _, [] => pure []
  | i, ((dual, resTx), respRx) :: rest => do
      let slot ← Exec.index diag i
      let ws ← spawnParallel kind diag (i + 1) rest
      pure ((ParWorker.new i resTx dual respRx kind slot, .top) :: ws)

namespace SenderBuilder

/-- The workers of an engine; ring, channel and slot `i` are made for provider `i`. -/
def spawn (engine : Engine) (duals : List (DualConn (ConnState H Q))) (n : Nat) :
    Exec (Workers H Q) :=
  match engine with
  | .seqRaw | .seqUring =>
      pure (.sequential
        (SequentialWorker.new duals (List.range n) (List.range n) engine.connKind (List.range n)) .top)
  | .parRaw => do
      let ws ← spawnParallel engine.connKind (List.range n) 0
        ((duals.zip (List.range n)).zip (List.range n))
      pure (.parallel ws)

def build (b : SenderBuilder) (connectOne : Nat → D → Exec (Except SenderError (Built H Q)))
    (ds : Nat → D × D) : Exec (Except SenderError (Sender H Q)) :=
  match b.providers with
  | [] => pure (.error .noProviders)
  | _ =>
      match b.transport with
      | none => pure (.error .noTransport)
      | some engine =>
          -- the first thing that is missing is reported, in the order of the source
          if b.hasTls = false then pure (.error .noTls)
          else if b.hasSource = false then pure (.error .noSource)
          else if b.hasSink = false then pure (.error .noSink)
          else do
            let n := b.providers.length
            match ← connectDualAll connectOne ds n 0 with
            | .error e => pure (.error e)
            | .ok duals => do
                let workers ← spawn engine duals n
                pure (.ok {
                  workers
                  reconnect := Reconnect.spawn n
                  lane := ResultLane.new (b.providers.map ProviderConfig.codec)
                  stop := false })

end SenderBuilder

end TxSender.Transport
