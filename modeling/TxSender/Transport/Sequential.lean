/-
# TxSender.Transport.Sequential — one worker thread for all providers.

`SequentialWorker` keeps one vector for each piece of a provider's state and reaches it by position;
an index out of range is a panic. Its methods are written out here as the source has them, next to
those of `ParWorker` and not in terms of them.
-/
import TxSender.Lib.Machine
import TxSender.Transport.Event

namespace TxSender.Transport

open TxSender.Lib

/-- The vectors of channel ends hold the number of the ring or channel of each end. -/
structure SequentialWorker (H Q : Type) where
  conns : List (DualConn (ConnState H Q))
  resultTx : List Nat
  inflight : List (Option (Job × Nat))
  reconnectRespRx : List Nat
  connKind : ConnKind
  tick : UInt32
  diag : List Nat
  jobsSent : List Nat

namespace SequentialWorker

variable {H A Q K : Type}

def new (conns : List (DualConn (ConnState H Q))) (resultTx reconnectRespRx : List Nat)
    (connKind : ConnKind) (diag : List Nat) : SequentialWorker H Q where
  conns := conns
  resultTx := resultTx
  inflight := List.replicate conns.length none
  reconnectRespRx := reconnectRespRx
  connKind := connKind
  tick := 0
  diag := diag
  jobsSent := List.replicate conns.length 0

/-! ## Methods -/

/-- `self.conns[i].active.conn` -/
def activeAt (s : SequentialWorker H Q) (i : Nat) : Exec (ConnState H Q) := do
  let d ← Exec.index s.conns i
  pure d.active.conn

/-- The active connection of provider `i` after a call on it. -/
def setActiveAt (s : SequentialWorker H Q) (i : Nat) (c : ConnState H Q) :
    Exec (SequentialWorker H Q) := do
  let d ← Exec.index s.conns i
  let conns ← Exec.assign s.conns i (d.setActive c)
  pure { s with conns }

/-- `self.jobs_sent[i] += 1` -/
def countSent (s : SequentialWorker H Q) (i : Nat) : Exec (SequentialWorker H Q) := do
  let n ← Exec.index s.jobsSent i
  let jobsSent ← Exec.assign s.jobsSent i (n + 1)
  pure { s with jobsSent }

def doFailover (s : SequentialWorker H Q) (i : Nat) :
    Exec (SequentialWorker H Q × List (Event H A)) := do
  let slot ← Exec.index s.inflight i
  let inflight ← Exec.assign s.inflight i none
  let d ← Exec.index s.conns i
  let conns ← Exec.assign s.conns i d.swap
  pure ({ s with inflight, conns },
    [.failover slot d.active.conn.quicInflight, .request { providerIdx := i, kind := s.connKind }])

/-- One `send_tx` on the HTTP connection `h`, the active one, and the bookkeeping of its success. -/
def attempt (api : ConnApi H A Q K) (s : SequentialWorker H Q) (i : Nat) (h : H) (job : Job)
    (sent : Nat) (tx : Bytes) (a : A) :
    Exec (SequentialWorker H Q × Except TransportError Unit) := do
  let (h, r) ← api.http.sendTx h tx a
  let s ← s.setActiveAt i (.http h)
  match r with
  | .ok () => do
      let inflight ← Exec.assign s.inflight i (some (job, sent))
      let s ← countSent { s with inflight } i
      pure (s, .ok ())
  | .error e => pure (s, .error e)

/-- The branch of `send_to` for a connection that failed with `e`. -/
def sendAgain (api : ConnApi H A Q K) (s : SequentialWorker H Q) (i : Nat) (job : Job) (sent : Nat)
    (tx : Bytes) (a : A) (e : IoError) : Exec (SequentialWorker H Q × List (Event H A)) := do
  let (s, evs) ← s.doFailover i
  match ← s.activeAt i with
  | .http h => do
      let (s, r) ← s.attempt api i h job sent tx a
      pure (s, evs ++ [.httpSend job sent h tx a r, .ended job sent r])
  | .quic _ => pure (s, evs ++ [.ended job sent (.error (.io e))])

/-- `send_to` on an HTTP connection -/
def sendHttp (api : ConnApi H A Q K) (s : SequentialWorker H Q) (i : Nat) (h : H) (job : Job)
    (sent : Nat) (tx : Bytes) (inp : Input H A Q K) :
    Exec (SequentialWorker H Q × List (Event H A)) := do
  let (s, r) ← s.attempt api i h job sent tx inp.call
  match r with
  | .error (.io e) =>
      if httpConnFailedIo e then do
        let (s, evs) ← s.sendAgain api i job sent tx inp.retry e
        pure (s, .httpSend job sent h tx inp.call r :: evs)
      else pure (s, [.httpSend job sent h tx inp.call r, .ended job sent r])
  | _ => pure (s, [.httpSend job sent h tx inp.call r, .ended job sent r])

/-- `send_to` on a QUIC connection; `jobs_sent` counts the job even when it could not be sent. -/
def sendQuic (api : ConnApi H A Q K) (s : SequentialWorker H Q) (i : Nat) (q : QuicConn Q)
    (job : Job) (sent : Nat) (tx : Bytes) (inp : Input H A Q K) :
    Exec (SequentialWorker H Q × List (Event H A)) := do
  let (q, r) := q.sendTx api.quic job sent tx inp.now inp.quic
  let s ← s.setActiveAt i (.quic q)
  let s ← s.countSent i
  pure (s, [.quicSend job sent r, .ended job sent r])

def sendTo (api : ConnApi H A Q K) (s : SequentialWorker H Q) (i : Nat) (job : Job) (sent : Nat)
    (inp : Input H A Q K) : Exec (SequentialWorker H Q × List (Event H A)) := do
  let tx ← Exec.sliceTo inp.filled inp.len
  match ← s.activeAt i with
  | .http h => do
      let (s, evs) ← s.sendHttp api i h job sent tx inp
      pure (s, .taken job sent :: evs)
  | .quic q => do
      let (s, evs) ← s.sendQuic api i q job sent tx inp
      pure (s, .taken job sent :: evs)

/-- `let _ = self.result_tx[i].try_push(resp)` -/
def pushTo (s : SequentialWorker H Q) (i : Nat) (resp : RawResp) : Exec (List (Event H A)) := do
  let ring ← Exec.index s.resultTx i
  pure [.push ring resp]

/-- `reap` with what `poll_response` returned -/
def afterPoll (s : SequentialWorker H Q) (i : Nat) (pid : ProviderId) (tsc : Nat) :
    Except TransportError (Option Bytes) → Exec (SequentialWorker H Q × List (Event H A))
  | .ok (some body) => do
      match ← Exec.index s.inflight i with
      | some (job, sent) => do
          let inflight ← Exec.assign s.inflight i none
          let evs ← pushTo { s with inflight } i (bodyResp job pid sent tsc body)
          pure ({ s with inflight }, evs)
      | none => pure (s, [])
  | .error (.io e) => if httpConnFailedIo e then s.doFailover i else pure (s, [])
  | _ => pure (s, [])

/-- `reap` on a QUIC connection -/
def reapQuic (api : ConnApi H A Q K) (s : SequentialWorker H Q) (i : Nat) (q : QuicConn Q)
    (pid : ProviderId) (inp : Input H A Q K) : Exec (SequentialWorker H Q × List (Event H A)) :=
  if q.isDead api.quic then do
    let (s, evs) ← s.doFailover i
    pure (s, .dead :: evs)
  else
    match q.pollNorespWindow inp.now with
    | (q, some (id, sent)) => do
        let s ← s.setActiveAt i (.quic q)
        let evs ← s.pushTo i (windowResp id pid sent inp.tsc)
        pure (s, evs)
    | (q, none) => do
        let s ← s.setActiveAt i (.quic q)
        pure (s, [])

def reap (api : ConnApi H A Q K) (s : SequentialWorker H Q) (i : Nat) (pid : ProviderId)
    (inp : Input H A Q K) : Exec (SequentialWorker H Q × List (Event H A)) := do
  match ← s.activeAt i with
  | .http h => do
      let (h', r) ← api.http.pollResponse h inp.call
      let s ← s.setActiveAt i (.http h')
      let (s, evs) ← s.afterPoll i pid inp.tsc r
      pure (s, .polled h inp.call r :: evs)
  | .quic q => s.reapQuic api i q pid inp

/-- `self.conns[i].active.conn.drive()` -/
def driveActive (api : ConnApi H A Q K) (s : SequentialWorker H Q) (i : Nat)
    (inp : Input H A Q K) : Exec (SequentialWorker H Q) := do
  let c ← s.activeAt i
  s.setActiveAt i (c.drive api inp.drive inp.now inp.quic)

/-- One round of `check_standby_deliveries`. The connection goes to the provider the response names,
whichever channel it came from. -/
def checkStandbyDelivery (s : SequentialWorker H Q) (delivered : Option (ReconnectResp H Q)) :
    Exec (SequentialWorker H Q × List (Logged H A)) :=
  match delivered with
  | some ⟨idx, .conn c⟩ => do
      let d ← Exec.index s.conns idx
      let conns ← Exec.assign s.conns idx (d.replaceStandby c.state)
      pure ({ s with conns }, [.on idx .install])
  | _ => pure (s, [])

/-- `publish_diag` from the slot `i` on -/
def publishDiag (s : SequentialWorker H Q) (i : Nat) : List Nat → Exec (List (Logged H A))
  | [] => pure []
  | slot :: slots => do
      let n ← Exec.index s.jobsSent i
      let rest ← s.publishDiag (i + 1) slots
      pure (.on i (.diag slot n) :: rest)

/-! ## The loop -/

/-- Where `run` stands; the loops over the providers stand at provider `i`. -/
inductive Pc where
  | top
  | send (job : Job) (sent : Nat) (i : Nat)
  /-- the `drive` calls right after the sends -/
  | kick (i : Nat)
  /-- `drive` and `reap` -/
  | reap (i : Nat)
  | tick
  | deliver (i : Nat) (idle : Bool)
  | publish (idle : Bool)
  | idle
  | stopped
  deriving DecidableEq, Repr

def step (api : ConnApi H A Q K) (st : SequentialWorker H Q × Pc) (inp : Input H A Q K) :
    Exec ((SequentialWorker H Q × Pc) × List (Logged H A)) :=
  let (s, pc) := st
  match pc with
  | .top =>
      if inp.stop then .ok ((s, .stopped), [])
      else
        match inp.popped with
        | some job => .ok ((s, .send job inp.tsc 0), [.popped job inp.tsc])
        | none => .ok ((s, .reap 0), [])
  | .send job sent i =>
      -- one job goes to every provider, with the same time stamp
      if i < s.conns.length then do
        let (s, evs) ← s.sendTo api i job sent inp
        pure ((s, .send job sent (i + 1)), evs.map (.on i))
      else .ok ((s, .kick 0), [])
  | .kick i =>
      if i < s.conns.length then do
        let s ← s.driveActive api i inp
        pure ((s, .kick (i + 1)), [])
      else .ok ((s, .reap 0), [])
  | .reap i =>
      if i < s.conns.length then do
        let s ← s.driveActive api i inp
        let (s, evs) ← s.reap api i (ProviderId.ofIndex i) inp
        pure ((s, .reap (i + 1)), evs.map (.on i))
      else .ok ((s, .tick), [])
  | .tick =>
      let tick := s.tick + 1
      .ok (({ s with tick }, if periodic tick then .deliver 0 false else .idle), [])
  | .deliver i idle =>
      -- the loop of `check_standby_deliveries` is over the channels, not over the connections
      if i < s.reconnectRespRx.length then do
        let (s, evs) ← s.checkStandbyDelivery inp.delivered
        pure ((s, .deliver (i + 1) idle), evs)
      else .ok ((s, .publish idle), [])
  | .publish idle => do
      let evs ← s.publishDiag 0 s.diag
      pure ((s, if idle then .top else .idle), evs)
  | .idle => .ok ((s, if inp.empty then .deliver 0 true else .top), [])
  | .stopped => .ok ((s, .stopped), [])

/-- `run`, a step at a time -/
def machine (api : ConnApi H A Q K) :
    Machine (SequentialWorker H Q × Pc) (Input H A Q K) (Logged H A) where
  step := step api

end SequentialWorker

end TxSender.Transport
