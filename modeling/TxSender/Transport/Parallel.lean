/-
# TxSender.Transport.Parallel — one worker thread per provider.

`ParWorker` and its methods, and the loop of `run` cut into steps between which other threads may
act: each step makes at most one call on a shared ring or channel.
-/
import TxSender.Lib.Machine
import TxSender.Transport.Event

namespace TxSender.Transport

open TxSender.Lib

/-- The channel ends a worker holds are given by the number of their ring or channel. -/
structure ParWorker (H Q : Type) where
  providerIdx : Nat
  resultTx : Nat
  dualConn : DualConn (ConnState H Q)
  inflight : Option (Job × Nat)
  reconnectRespRx : Nat
  connKind : ConnKind
  tick : UInt32
  diag : Nat
  jobsSent : Nat

namespace ParWorker

variable {H A Q K : Type}

def new (providerIdx resultTx : Nat) (dualConn : DualConn (ConnState H Q)) (reconnectRespRx : Nat)
    (connKind : ConnKind) (diag : Nat) : ParWorker H Q where
  providerIdx := providerIdx
  resultTx := resultTx
  dualConn := dualConn
  inflight := none
  reconnectRespRx := reconnectRespRx
  connKind := connKind
  tick := 0
  diag := diag
  jobsSent := 0

/-- The active connection. -/
def active (w : ParWorker H Q) : ConnState H Q := w.dualConn.active.conn

def setActive (w : ParWorker H Q) (c : ConnState H Q) : ParWorker H Q :=
  { w with dualConn := w.dualConn.setActive c }

/-! ## Methods -/

def doFailover (w : ParWorker H Q) : ParWorker H Q × List (Event H A) :=
  ({ w with inflight := none, dualConn := w.dualConn.swap },
    [.failover w.inflight w.active.quicInflight,
      .request { providerIdx := w.providerIdx, kind := w.connKind }])

/-- One `send_tx` on the HTTP connection `h`, the active one, and the bookkeeping of its success. -/
def attempt (api : ConnApi H A Q K) (w : ParWorker H Q) (h : H) (job : Job) (sent : Nat)
    (tx : Bytes) (a : A) : Exec (ParWorker H Q × Except TransportError Unit) := do
  let (h, r) ← api.http.sendTx h tx a
  let w := w.setActive (.http h)
  match r with
  | .ok () => pure ({ w with inflight := some (job, sent), jobsSent := w.jobsSent + 1 }, .ok ())
  | .error e => pure (w, .error e)

/-- The branch of `send_to` for a connection that failed with `e`: fail over and try once more, if
the other connection is an HTTP one too. -/
def sendAgain (api : ConnApi H A Q K) (w : ParWorker H Q) (job : Job) (sent : Nat) (tx : Bytes)
    (a : A) (e : IoError) : Exec (ParWorker H Q × List (Event H A)) := do
  let (w, evs) := w.doFailover
  match w.active with
  | .http h => do
      let (w, r) ← w.attempt api h job sent tx a
      pure (w, evs ++ [.httpSend job sent h tx a r, .ended job sent r])
  -- no second attempt: the error of the first one ends the job
  | .quic _ => pure (w, evs ++ [.ended job sent (.error (.io e))])

/-- `send_to` on an HTTP connection -/
def sendHttp (api : ConnApi H A Q K) (w : ParWorker H Q) (h : H) (job : Job) (sent : Nat)
    (tx : Bytes) (inp : Input H A Q K) : Exec (ParWorker H Q × List (Event H A)) := do
  let (w, r) ← w.attempt api h job sent tx inp.call
  match r with
  | .error (.io e) =>
      if httpConnFailedIo e then do
        let (w, evs) ← w.sendAgain api job sent tx inp.retry e
        pure (w, .httpSend job sent h tx inp.call r :: evs)
      else pure (w, [.httpSend job sent h tx inp.call r, .ended job sent r])
  -- an error that is not an I/O error never makes the worker fail over
  | _ => pure (w, [.httpSend job sent h tx inp.call r, .ended job sent r])

/-- `send_to` on a QUIC connection; `jobs_sent` counts the job even when it could not be sent. -/
def sendQuic (api : ConnApi H A Q K) (w : ParWorker H Q) (q : QuicConn Q) (job : Job) (sent : Nat)
    (tx : Bytes) (inp : Input H A Q K) : ParWorker H Q × List (Event H A) :=
  let (q, r) := q.sendTx api.quic job sent tx inp.now inp.quic
  let w := w.setActive (.quic q)
  ({ w with jobsSent := w.jobsSent + 1 }, [.quicSend job sent r, .ended job sent r])

def sendTo (api : ConnApi H A Q K) (w : ParWorker H Q) (job : Job) (sent : Nat)
    (inp : Input H A Q K) : Exec (ParWorker H Q × List (Event H A)) := do
  let tx ← Exec.sliceTo inp.filled inp.len
  match w.active with
  | .http h => do
      let (w, evs) ← w.sendHttp api h job sent tx inp
      pure (w, .taken job sent :: evs)
  | .quic q =>
      let (w, evs) := w.sendQuic api q job sent tx inp
      pure (w, .taken job sent :: evs)

/-- `reap` with what `poll_response` returned -/
def afterPoll (w : ParWorker H Q) (pid : ProviderId) (tsc : Nat) :
    Except TransportError (Option Bytes) → ParWorker H Q × List (Event H A)
  | .ok (some body) =>
      match w.inflight with
      | some (job, sent) =>
          ({ w with inflight := none }, [.push w.resultTx (bodyResp job pid sent tsc body)])
      -- a body that no job waits for is dropped
      | none => (w, [])
  | .error (.io e) => if httpConnFailedIo e then w.doFailover else (w, [])
  | _ => (w, [])

/-- `reap` on a QUIC connection -/
def reapQuic (api : ConnApi H A Q K) (w : ParWorker H Q) (q : QuicConn Q) (pid : ProviderId)
    (inp : Input H A Q K) : ParWorker H Q × List (Event H A) :=
  if q.isDead api.quic then
    let (w, evs) := w.doFailover
    (w, .dead :: evs)
  else
    match q.pollNorespWindow inp.now with
    | (q, some (id, sent)) =>
        (w.setActive (.quic q), [.push w.resultTx (windowResp id pid sent inp.tsc)])
    | (q, none) => (w.setActive (.quic q), [])

def reap (api : ConnApi H A Q K) (w : ParWorker H Q) (pid : ProviderId) (inp : Input H A Q K) :
    Exec (ParWorker H Q × List (Event H A)) :=
  match w.active with
  | .http h => do
      let (h', r) ← api.http.pollResponse h inp.call
      let (w, evs) := (w.setActive (.http h')).afterPoll pid inp.tsc r
      pure (w, .polled h inp.call r :: evs)
  | .quic q => pure (w.reapQuic api q pid inp)

/-- `self.dual_conn.active.conn.drive()` -/
def driveActive (api : ConnApi H A Q K) (w : ParWorker H Q) (inp : Input H A Q K) : ParWorker H Q :=
  w.setActive (w.active.drive api inp.drive inp.now inp.quic)

def checkStandbyDelivery (w : ParWorker H Q) (delivered : Option (ReconnectResp H Q)) :
    ParWorker H Q × List (Event H A) :=
  match delivered with
  -- the provider that the response names is not looked at
  | some ⟨_, .conn c⟩ => ({ w with dualConn := w.dualConn.replaceStandby c.state }, [.install])
  | _ => (w, [])

def publishDiag (w : ParWorker H Q) : List (Event H A) := [.diag w.diag w.jobsSent]

/-! ## The loop -/

/-- Where `run` stands. -/
inductive Pc where
  /-- the test of the loop, and `try_pop` -/
  | top
  | send (job : Job) (sent : Nat)
  /-- `drive` and `reap` -/
  | reap
  | tick
  /-- the standby check and the diagnostics, every 1024 rounds or when idle -/
  | deliver (idle : Bool)
  /-- `trigger.is_empty()`, and `idle_wait` if so -/
  | idle
  | stopped
  deriving DecidableEq, Repr

def step (api : ConnApi H A Q K) (s : ParWorker H Q × Pc) (inp : Input H A Q K) :
    Exec ((ParWorker H Q × Pc) × List (Logged H A)) :=
  let (w, pc) := s
  match pc with
  | .top =>
      if inp.stop then .ok ((w, .stopped), [])
      else
        match inp.popped with
        | some job => .ok ((w, .send job inp.tsc), [.popped job inp.tsc])
        | none => .ok ((w, .reap), [])
  | .send job sent => do
      let (w, evs) ← w.sendTo api job sent inp
      pure ((w, .reap), evs.map (.on w.providerIdx))
  | .reap => do
      let (w, evs) ← (w.driveActive api inp).reap api (ProviderId.ofIndex w.providerIdx) inp
      pure ((w, .tick), evs.map (.on w.providerIdx))
  | .tick =>
      -- `wrapping_add`, as the `u32` does
      let tick := w.tick + 1
      .ok (({ w with tick }, if periodic tick then .deliver false else .idle), [])
  | .deliver idle =>
      let (w, evs) := w.checkStandbyDelivery inp.delivered
      .ok ((w, if idle then .top else .idle), (evs ++ w.publishDiag).map (.on w.providerIdx))
  | .idle => .ok ((w, if inp.empty then .deliver true else .top), [])
  | .stopped => .ok ((w, .stopped), [])

/-- `run`, a step at a time -/
def machine (api : ConnApi H A Q K) :
    Machine (ParWorker H Q × Pc) (Input H A Q K) (Logged H A) where
  step := step api

/-- The inputs of a round in which `job` is popped at time stamp `tsc`, sent and reaped, with `base`
for the steps that read nothing of them. -/
def jobRound (base : Input H A Q K) (job : Job) (tsc : Nat) (send reap : Input H A Q K) :
    List (Input H A Q K) :=
  [{ base with popped := some job, tsc }, send, reap, base, base]

/-- The inputs of a round without a job. -/
def pollRound (base reap : Input H A Q K) : List (Input H A Q K) := [base, reap, base, base]

/-- Such a round is `drive` and `reap`, and the tick. -/
theorem run_pollRound {api : ConnApi H A Q K} {w w' : ParWorker H Q} {base inp : Input H A Q K}
    {evs : List (Event H A)} (hstop : base.stop = false) (hpopped : base.popped = none)
    (hempty : base.empty = false)
    (hreap : (w.driveActive api inp).reap api (ProviderId.ofIndex w.providerIdx) inp = .ok (w', evs))
    (htick : periodic (w'.tick + 1) = false) :
    (machine api).run (w, .top) (pollRound base inp) =
      .ok (({ w' with tick := w'.tick + 1 }, .top), evs.map (.on w'.providerIdx)) := by
  simp only [pollRound, Machine.run, machine, step, hstop, hpopped, hempty, hreap, htick, ok_bind,
    pure_eq_ok, List.append_nil, List.nil_append, if_false, Bool.false_eq_true]

end ParWorker

end TxSender.Transport
