/-
# TxSender.Transport.Projection — either worker, seen from one provider.

On the entries at position `i`, the methods of `SequentialWorker` are those of `ParWorker`
(`sendTo_eq`, `reap_eq`), and they touch no other entry. So a step of either worker is, for each
provider, a few calls of `Does`; over a whole run they make up a `Runs` (`ProviderRun.runs`), and the
jobs the provider was given are those popped so far, the last of them perhaps not yet
(`ProviderRun.taken`).
-/
import TxSender.Transport.Provider
import TxSender.Transport.Sequential

namespace TxSender.Transport

open TxSender.Lib

variable {H A Q K : Type}

/-! ## The entries of one provider in the vectors -/

namespace SequentialWorker

/-- The state of provider `i`, as a worker of its own. -/
def view (s : SequentialWorker H Q) (i : Nat) : Option (ParWorker H Q) := do
  let dualConn ← s.conns[i]?
  let resultTx ← s.resultTx[i]?
  let inflight ← s.inflight[i]?
  let reconnectRespRx ← s.reconnectRespRx[i]?
  let diag ← s.diag[i]?
  let jobsSent ← s.jobsSent[i]?
  pure { providerIdx := i, resultTx, dualConn, inflight, reconnectRespRx, connKind := s.connKind,
         tick := s.tick, diag, jobsSent }

/-- The vectors with the entries at position `i` taken from `p`. -/
def put (s : SequentialWorker H Q) (i : Nat) (p : ParWorker H Q) : SequentialWorker H Q :=
  { s with
    conns := s.conns.set i p.dualConn
    inflight := s.inflight.set i p.inflight
    jobsSent := s.jobsSent.set i p.jobsSent }

/-- What the view of provider `i` says about the vectors. -/
structure Entries (s : SequentialWorker H Q) (i : Nat) (p : ParWorker H Q) : Prop where
  conns : s.conns[i]? = some p.dualConn
  resultTx : s.resultTx[i]? = some p.resultTx
  inflight : s.inflight[i]? = some p.inflight
  reconnectRespRx : s.reconnectRespRx[i]? = some p.reconnectRespRx
  diag : s.diag[i]? = some p.diag
  jobsSent : s.jobsSent[i]? = some p.jobsSent
  providerIdx : p.providerIdx = i
  connKind : p.connKind = s.connKind
  tick : p.tick = s.tick

theorem view_eq_some_iff {s : SequentialWorker H Q} {i : Nat} {p : ParWorker H Q} :
    s.view i = some p ↔ s.Entries i p := by
  constructor
  · intro h
    obtain ⟨d, hd, h⟩ := Option.bind_eq_some_iff.mp h
    obtain ⟨ring, hring, h⟩ := Option.bind_eq_some_iff.mp h
    obtain ⟨slot, hslot, h⟩ := Option.bind_eq_some_iff.mp h
    obtain ⟨rx, hrx, h⟩ := Option.bind_eq_some_iff.mp h
    obtain ⟨dg, hdg, h⟩ := Option.bind_eq_some_iff.mp h
    obtain ⟨n, hn, h⟩ := Option.bind_eq_some_iff.mp h
    obtain rfl := Option.some.inj h
    exact ⟨hd, hring, hslot, hrx, hdg, hn, rfl, rfl, rfl⟩
  · intro h
    unfold view
    rw [h.conns, h.resultTx, h.inflight, h.reconnectRespRx, h.diag, h.jobsSent]
    simp only [Option.bind_eq_bind, Option.bind_some, Option.pure_def, Option.some.injEq]
    rw [← h.connKind, ← h.tick, ← h.providerIdx]

end SequentialWorker

theorem index_eq_ok {α : Type} {v : List α} {i : Nat} {a : α} (h : v[i]? = some a) :
    Exec.index v i = .ok a := by
  rw [Exec.index, h]

theorem assign_eq_ok {α : Type} {v : List α} {i : Nat} {a : α} (h : v[i]? = some a) (b : α) :
    Exec.assign v i b = .ok (v.set i b) :=
  if_pos (List.getElem?_eq_some_iff.mp h).1

theorem set_of_getElem? {α : Type} {v : List α} {i : Nat} {a : α} (h : v[i]? = some a) :
    v.set i a = v := by
  obtain ⟨hi, rfl⟩ := List.getElem?_eq_some_iff.mp h
  exact List.set_getElem_self hi

namespace SequentialWorker

theorem Entries.put_self {s : SequentialWorker H Q} {i : Nat} {p p' : ParWorker H Q}
    (h : s.Entries i p) (hf : p.SameFrame p') : (s.put i p').Entries i p' := by
  have hset : ∀ {α : Type} {v : List α} {a : α} (b : α), v[i]? = some a → (v.set i b)[i]? = some b := by
    intro α v a b hv
    exact List.getElem?_set_self (List.getElem?_eq_some_iff.mp hv).1
  exact ⟨hset _ h.conns, by rw [hf.resultTx]; exact h.resultTx, hset _ h.inflight,
    by rw [hf.reconnectRespRx]; exact h.reconnectRespRx, by rw [hf.diag]; exact h.diag,
    hset _ h.jobsSent, by rw [hf.providerIdx, h.providerIdx], by rw [hf.connKind]; exact h.connKind,
    by rw [hf.tick]; exact h.tick⟩

theorem Entries.put_other {s : SequentialWorker H Q} {i j : Nat} {p p' : ParWorker H Q}
    (h : s.Entries j p) (hij : i ≠ j) : (s.put i p').Entries j p := by
  have hset : ∀ {α : Type} {v : List α} {a : α} (b : α), v[j]? = some a → (v.set i b)[j]? = some a := by
    intro α v a b hv
    rw [List.getElem?_set_ne hij, hv]
  exact ⟨hset _ h.conns, h.resultTx, hset _ h.inflight, h.reconnectRespRx, h.diag, hset _ h.jobsSent,
    h.providerIdx, h.connKind, h.tick⟩

theorem Entries.put_same {s : SequentialWorker H Q} {i : Nat} {p : ParWorker H Q}
    (h : s.Entries i p) : s.put i p = s := by
  rw [put, set_of_getElem? h.conns, set_of_getElem? h.inflight, set_of_getElem? h.jobsSent]

theorem put_put (s : SequentialWorker H Q) (i : Nat) (p p' : ParWorker H Q) :
    (s.put i p).put i p' = s.put i p' := by
  simp [put]

/-! ## The methods, entry by entry -/

section Methods

variable {s : SequentialWorker H Q} {i : Nat} {p : ParWorker H Q}

theorem activeAt_eq (h : s.Entries i p) : s.activeAt i = .ok p.active := by
  rw [activeAt, index_eq_ok h.conns]
  rfl

theorem setActiveAt_eq (h : s.Entries i p) (c : ConnState H Q) :
    s.setActiveAt i c = .ok (s.put i (p.setActive c)) := by
  rw [setActiveAt, index_eq_ok h.conns, ok_bind, assign_eq_ok h.conns, ok_bind, put]
  simp only [ParWorker.setActive, set_of_getElem? h.inflight, set_of_getElem? h.jobsSent, pure_eq_ok]

theorem countSent_eq (h : s.Entries i p) :
    s.countSent i = .ok (s.put i { p with jobsSent := p.jobsSent + 1 }) := by
  rw [countSent, index_eq_ok h.jobsSent, ok_bind, assign_eq_ok h.jobsSent, ok_bind, put]
  simp only [set_of_getElem? h.inflight, set_of_getElem? h.conns, pure_eq_ok]

theorem assignInflight_eq (h : s.Entries i p) (slot : Option (Job × Nat)) :
    { s with inflight := s.inflight.set i slot } = s.put i { p with inflight := slot } := by
  simp only [put, set_of_getElem? h.conns, set_of_getElem? h.jobsSent]

theorem doFailover_eq (h : s.Entries i p) :
    s.doFailover i = .ok (s.put i (p.doFailover (A := A)).1, (p.doFailover (A := A)).2) := by
  rw [doFailover, index_eq_ok h.inflight, ok_bind, assign_eq_ok h.inflight, ok_bind,
    index_eq_ok h.conns, ok_bind, assign_eq_ok h.conns, ok_bind, put]
  simp only [ParWorker.doFailover, ParWorker.active, set_of_getElem? h.jobsSent, pure_eq_ok,
    h.providerIdx, h.connKind]

theorem attempt_eq (h : s.Entries i p) (api : ConnApi H A Q K) (hc : H) (job : Job) (sent : Nat)
    (tx : Bytes) (a : A) :
    s.attempt api i hc job sent tx a =
      (p.attempt api hc job sent tx a).map fun x => (s.put i x.1, x.2) := by
  rw [attempt, ParWorker.attempt]
  cases api.http.sendTx hc tx a with
  | error e => rfl
  | ok v =>
      obtain ⟨h', r⟩ := v
      simp only [ok_bind, setActiveAt_eq h]
      have hput : (s.put i (p.setActive (.http h'))).Entries i (p.setActive (.http h')) :=
        h.put_self ⟨rfl, rfl, rfl, rfl, rfl, rfl⟩
      cases r with
      | error e => rfl
      | ok _ =>
          have hslot : (s.put i { p.setActive (.http h') with inflight := some (job, sent) }).Entries i
              { p.setActive (.http h') with inflight := some (job, sent) } :=
            h.put_self ⟨rfl, rfl, rfl, rfl, rfl, rfl⟩
          simp only [assign_eq_ok hput.inflight, ok_bind, assignInflight_eq hput, put_put]
          rw [countSent_eq hslot, ok_bind, put_put]
          rfl

theorem sameFrame_attempt {api : ConnApi H A Q K} {hc : H} {job : Job} {sent : Nat} {tx : Bytes}
    {a : A} {p' : ParWorker H Q} {r : Except TransportError Unit}
    (h : p.attempt api hc job sent tx a = .ok (p', r)) : p.SameFrame p' := by
  obtain ⟨h', -, ⟨-, rfl⟩ | ⟨e, -, rfl⟩⟩ := ParWorker.attempt_cases h
  · exact ⟨rfl, rfl, rfl, rfl, rfl, rfl⟩
  · exact ⟨rfl, rfl, rfl, rfl, rfl, rfl⟩

theorem sendAgain_eq (h : s.Entries i p) (api : ConnApi H A Q K) (job : Job) (sent : Nat) (tx : Bytes)
    (a : A) (e : IoError) :
    s.sendAgain api i job sent tx a e =
      (p.sendAgain api job sent tx a e).map fun x => (s.put i x.1, x.2) := by
  rw [sendAgain, ParWorker.sendAgain, doFailover_eq h, ok_bind]
  have hput : (s.put i (p.doFailover (A := A)).1).Entries i (p.doFailover (A := A)).1 :=
    h.put_self ⟨rfl, rfl, rfl, rfl, rfl, rfl⟩
  simp only [activeAt_eq hput, ok_bind]
  cases (p.doFailover (A := A)).1.active with
  | quic q => rfl
  | http h' =>
      simp only [attempt_eq hput, put_put]
      cases (p.doFailover (A := A)).1.attempt api h' job sent tx a with
      | error e => rfl
      | ok v => rfl

theorem sendHttp_eq (h : s.Entries i p) (api : ConnApi H A Q K) (hc : H) (job : Job) (sent : Nat)
    (tx : Bytes) (inp : Input H A Q K) :
    s.sendHttp api i hc job sent tx inp =
      (p.sendHttp api hc job sent tx inp).map fun x => (s.put i x.1, x.2) := by
  rw [sendHttp, ParWorker.sendHttp, attempt_eq h]
  cases hat : p.attempt api hc job sent tx inp.call with
  | error e => rfl
  | ok v =>
      obtain ⟨p₁, r⟩ := v
      have hput : (s.put i p₁).Entries i p₁ := h.put_self (sameFrame_attempt hat)
      simp only [Except.map, ok_bind]
      cases r with
      | ok _ => rfl
      | error err =>
          cases err with
          | io e =>
              by_cases hfail : httpConnFailedIo e = true
              · simp only [if_pos hfail, sendAgain_eq hput, put_put]
                cases p₁.sendAgain api job sent tx inp.retry e <;> rfl
              · simp only [if_neg hfail]
                rfl
          | _ => rfl

theorem sendQuic_eq (h : s.Entries i p) (api : ConnApi H A Q K) (q : QuicConn Q) (job : Job)
    (sent : Nat) (tx : Bytes) (inp : Input H A Q K) :
    s.sendQuic api i q job sent tx inp =
      .ok (s.put i (p.sendQuic api q job sent tx inp).1, (p.sendQuic api q job sent tx inp).2) := by
  rw [sendQuic, ParWorker.sendQuic]
  obtain ⟨q', r⟩ := q.sendTx api.quic job sent tx inp.now inp.quic
  have hput : (s.put i (p.setActive (.quic q'))).Entries i (p.setActive (.quic q')) :=
    h.put_self ⟨rfl, rfl, rfl, rfl, rfl, rfl⟩
  simp only [setActiveAt_eq h, ok_bind, countSent_eq hput, put_put, pure_eq_ok]

/-- `send_to` for provider `i` is `send_to` of a worker that has only this provider. -/
theorem sendTo_eq (h : s.Entries i p) (api : ConnApi H A Q K) (job : Job) (sent : Nat)
    (inp : Input H A Q K) :
    s.sendTo api i job sent inp = (p.sendTo api job sent inp).map fun x => (s.put i x.1, x.2) := by
  rw [sendTo, ParWorker.sendTo]
  cases Exec.sliceTo inp.filled inp.len with
  | error e => rfl
  | ok tx =>
      simp only [ok_bind, activeAt_eq h]
      cases p.active with
      | http hc =>
          simp only [sendHttp_eq h]
          cases p.sendHttp api hc job sent tx inp <;> rfl
      | quic q =>
          simp only [sendQuic_eq h]
          rfl

theorem pushTo_eq (h : s.Entries i p) (resp : RawResp) :
    (s.pushTo i resp : Exec (List (Event H A))) = .ok [.push p.resultTx resp] := by
  rw [pushTo, index_eq_ok h.resultTx]
  rfl

theorem afterPoll_eq (h : s.Entries i p) (pid : ProviderId) (tsc : Nat)
    (r : Except TransportError (Option Bytes)) :
    s.afterPoll i pid tsc r =
      .ok (s.put i (p.afterPoll (A := A) pid tsc r).1, (p.afterPoll (A := A) pid tsc r).2) := by
  cases r with
  | ok found =>
      cases found with
      | none => simp only [afterPoll, ParWorker.afterPoll, h.put_same, pure_eq_ok]
      | some body =>
          simp only [afterPoll, ParWorker.afterPoll, index_eq_ok h.inflight, ok_bind]
          cases hslot : p.inflight with
          | none => simp only [h.put_same, pure_eq_ok]
          | some entry =>
              obtain ⟨job, sent⟩ := entry
              have hput : (s.put i { p with inflight := none }).Entries i { p with inflight := none } :=
                h.put_self ⟨rfl, rfl, rfl, rfl, rfl, rfl⟩
              simp only [assign_eq_ok h.inflight, ok_bind, assignInflight_eq h, pushTo_eq hput,
                pure_eq_ok]
  | error err =>
      cases err with
      | io e =>
          by_cases hfail : httpConnFailedIo e = true
          · simp only [afterPoll, ParWorker.afterPoll, if_pos hfail, doFailover_eq h]
          · simp only [afterPoll, ParWorker.afterPoll, if_neg hfail, h.put_same, pure_eq_ok]
      | _ => simp only [afterPoll, ParWorker.afterPoll, h.put_same, pure_eq_ok]

theorem reapQuic_eq (h : s.Entries i p) (api : ConnApi H A Q K) (q : QuicConn Q) (pid : ProviderId)
    (inp : Input H A Q K) :
    s.reapQuic api i q pid inp =
      .ok (s.put i (p.reapQuic api q pid inp).1, (p.reapQuic api q pid inp).2) := by
  unfold reapQuic ParWorker.reapQuic
  by_cases hdead : q.isDead api.quic = true
  · rw [if_pos hdead, if_pos hdead, doFailover_eq h]
    rfl
  · rw [if_neg hdead, if_neg hdead]
    rcases q.pollNorespWindow inp.now with ⟨q', _ | ⟨id, sent⟩⟩
    · simp only [setActiveAt_eq h, ok_bind, pure_eq_ok]
    · have hput : (s.put i (p.setActive (.quic q'))).Entries i (p.setActive (.quic q')) :=
        h.put_self ⟨rfl, rfl, rfl, rfl, rfl, rfl⟩
      simp only [setActiveAt_eq h, ok_bind, pushTo_eq hput, pure_eq_ok]
      rfl

/-- `reap` for provider `i` is `reap` of a worker that has only this provider. -/
theorem reap_eq (h : s.Entries i p) (api : ConnApi H A Q K) (pid : ProviderId)
    (inp : Input H A Q K) :
    s.reap api i pid inp = (p.reap api pid inp).map fun x => (s.put i x.1, x.2) := by
  rw [reap, ParWorker.reap, activeAt_eq h, ok_bind]
  cases p.active with
  | quic q =>
      simp only [reapQuic_eq h]
      rfl
  | http hc =>
      simp only
      cases api.http.pollResponse hc inp.call with
      | error e => rfl
      | ok v =>
          obtain ⟨h', r⟩ := v
          have hput : (s.put i (p.setActive (.http h'))).Entries i (p.setActive (.http h')) :=
            h.put_self ⟨rfl, rfl, rfl, rfl, rfl, rfl⟩
          simp only [ok_bind, setActiveAt_eq h, afterPoll_eq hput, put_put, pure_eq_ok]
          rfl

theorem driveActive_eq (h : s.Entries i p) (api : ConnApi H A Q K) (inp : Input H A Q K) :
    s.driveActive api i inp = .ok (s.put i (p.driveActive api inp)) := by
  rw [driveActive, activeAt_eq h, ok_bind, setActiveAt_eq h]
  rfl

end Methods

/-! ## One step -/

/-- One entry for each provider in every vector, as `SenderBuilder::build` makes them. -/
structure Sized (s : SequentialWorker H Q) : Prop where
  resultTx : s.resultTx.length = s.conns.length
  inflight : s.inflight.length = s.conns.length
  reconnectRespRx : s.reconnectRespRx.length = s.conns.length
  diag : s.diag.length = s.conns.length
  jobsSent : s.jobsSent.length = s.conns.length

theorem Sized.entries {s : SequentialWorker H Q} (h : s.Sized) {i : Nat} (hi : i < s.conns.length) :
    ∃ p, s.Entries i p := by
  have hring : i < s.resultTx.length := by rw [h.resultTx]; exact hi
  have hslot : i < s.inflight.length := by rw [h.inflight]; exact hi
  have hrx : i < s.reconnectRespRx.length := by rw [h.reconnectRespRx]; exact hi
  have hdiag : i < s.diag.length := by rw [h.diag]; exact hi
  have hsent : i < s.jobsSent.length := by rw [h.jobsSent]; exact hi
  exact ⟨{ providerIdx := i, resultTx := s.resultTx[i], dualConn := s.conns[i],
           inflight := s.inflight[i], reconnectRespRx := s.reconnectRespRx[i],
           connKind := s.connKind, tick := s.tick, diag := s.diag[i], jobsSent := s.jobsSent[i] },
    List.getElem?_eq_getElem hi, List.getElem?_eq_getElem hring, List.getElem?_eq_getElem hslot,
    List.getElem?_eq_getElem hrx, List.getElem?_eq_getElem hdiag, List.getElem?_eq_getElem hsent,
    rfl, rfl, rfl⟩

theorem Sized.put {s : SequentialWorker H Q} (h : s.Sized) (i : Nat) (p : ParWorker H Q) :
    (s.put i p).Sized := by
  constructor <;> simp only [SequentialWorker.put, List.length_set]
  · exact h.resultTx
  · exact h.inflight
  · exact h.reconnectRespRx
  · exact h.diag
  · exact h.jobsSent

section Turn

variable {api : ConnApi H A Q K} {s s' : SequentialWorker H Q} {k : Nat} {p : ParWorker H Q}
  {inp : Input H A Q K} {job : Job} {sent : Nat}

theorem step_send (h : s.Entries k p) :
    step api (s, .send job sent k) inp = (p.sendTo api job sent inp).map fun x =>
      ((s.put k x.1, .send job sent (k + 1)), x.2.map (.on k)) := by
  have hk := (List.getElem?_eq_some_iff.mp h.conns).1
  simp only [step, if_pos hk, sendTo_eq h]
  cases p.sendTo api job sent inp with
  | error e => rfl
  | ok x => rfl

theorem step_kick (h : s.Entries k p) :
    step api (s, .kick k) inp = .ok ((s.put k (p.driveActive api inp), .kick (k + 1)), []) := by
  have hk := (List.getElem?_eq_some_iff.mp h.conns).1
  simp only [step, if_pos hk, driveActive_eq h]
  rfl

theorem step_reap (h : s.Entries k p) :
    step api (s, .reap k) inp =
      ((p.driveActive api inp).reap api (ProviderId.ofIndex k) inp).map fun x =>
        ((s.put k x.1, .reap (k + 1)), x.2.map (.on k)) := by
  have hk := (List.getElem?_eq_some_iff.mp h.conns).1
  have hput : (s.put k (p.driveActive api inp)).Entries k (p.driveActive api inp) :=
    h.put_self ⟨rfl, rfl, rfl, rfl, rfl, rfl⟩
  simp only [step, if_pos hk, driveActive_eq h, ok_bind, reap_eq hput, put_put]
  cases (p.driveActive api inp).reap api (ProviderId.ofIndex k) inp with
  | error e => rfl
  | ok x => rfl

/-- A connection goes to the provider that the response names. -/
theorem checkStandbyDelivery_conn (h : s.Entries k p) (c : Built H Q) :
    s.checkStandbyDelivery (A := A) (some ⟨k, .conn c⟩) =
      .ok (s.put k { p with dualConn := p.dualConn.replaceStandby c.state }, [.on k .install]) := by
  rw [checkStandbyDelivery, index_eq_ok h.conns, ok_bind, assign_eq_ok h.conns, ok_bind]
  simp only [put, set_of_getElem? h.inflight, set_of_getElem? h.jobsSent]
  rfl

/-- **What a step of the loop can be**: where it stands, the method of one provider's worker that it
runs, and where it goes on. -/
inductive Turn (api : ConnApi H A Q K) (s : SequentialWorker H Q) (inp : Input H A Q K) :
    Pc → SequentialWorker H Q → Pc → List (Logged H A) → Prop
  | stop (hstop : inp.stop = true) : Turn api s inp .top s .stopped []
  | pop (job : Job) (hstop : inp.stop = false) (hpop : inp.popped = some job) :
      Turn api s inp .top s (.send job inp.tsc 0) [.popped job inp.tsc]
  | nothing (hstop : inp.stop = false) (hpop : inp.popped = none) :
      Turn api s inp .top s (.reap 0) []
  | send (job : Job) (sent k : Nat) {p p' : ParWorker H Q} {evs : List (Event H A)}
      (hp : s.Entries k p) (hsend : p.sendTo api job sent inp = .ok (p', evs)) :
      Turn api s inp (.send job sent k) (s.put k p') (.send job sent (k + 1)) (evs.map (.on k))
  | sendEnd (job : Job) (sent k : Nat) (hk : s.conns.length ≤ k) :
      Turn api s inp (.send job sent k) s (.kick 0) []
  | kick (k : Nat) {p : ParWorker H Q} (hp : s.Entries k p) :
      Turn api s inp (.kick k) (s.put k (p.driveActive api inp)) (.kick (k + 1)) []
  | kickEnd (k : Nat) (hk : s.conns.length ≤ k) : Turn api s inp (.kick k) s (.reap 0) []
  | reap (k : Nat) {p p' : ParWorker H Q} {evs : List (Event H A)} (hp : s.Entries k p)
      (hreap : (p.driveActive api inp).reap api (ProviderId.ofIndex k) inp = .ok (p', evs)) :
      Turn api s inp (.reap k) (s.put k p') (.reap (k + 1)) (evs.map (.on k))
  | reapEnd (k : Nat) (hk : s.conns.length ≤ k) : Turn api s inp (.reap k) s .tick []
  | tick :
      Turn api s inp .tick { s with tick := s.tick + 1 }
        (if periodic (s.tick + 1) then .deliver 0 false else .idle) []
  | install (k : Nat) (idle : Bool) (idx : Nat) (c : Built H Q) {p : ParWorker H Q}
      (hk : k < s.conns.length) (hdel : inp.delivered = some ⟨idx, .conn c⟩) (hp : s.Entries idx p) :
      Turn api s inp (.deliver k idle)
        (s.put idx { p with dualConn := p.dualConn.replaceStandby c.state }) (.deliver (k + 1) idle)
        [.on idx .install]
  | noInstall (k : Nat) (idle : Bool) (hk : k < s.conns.length)
      (hdel : ∀ idx c, inp.delivered ≠ some ⟨idx, .conn c⟩) :
      Turn api s inp (.deliver k idle) s (.deliver (k + 1) idle) []
  | deliverEnd (k : Nat) (idle : Bool) (hk : s.conns.length ≤ k) :
      Turn api s inp (.deliver k idle) s (.publish idle) []
  | publish (idle : Bool) {logs : List (Logged H A)} (hpub : s.publishDiag 0 s.diag = .ok logs) :
      Turn api s inp (.publish idle) s (if idle then .top else .idle) logs
  | idle : Turn api s inp .idle s (if inp.empty then .deliver 0 true else .top) []
  | stopped : Turn api s inp .stopped s .stopped []

theorem deliver_turn {idle : Bool} {logs : List (Logged H A)} (hs : s.Sized)
    (hk : k < s.conns.length) (h : s.checkStandbyDelivery inp.delivered = .ok (s', logs)) :
    Turn api s inp (.deliver k idle) s' (.deliver (k + 1) idle) logs := by
  rcases hdel : inp.delivered with _ | ⟨idx, c | _⟩
  · rw [hdel] at h
    cases h
    exact .noInstall k idle hk (by simp [hdel])
  · rw [hdel] at h
    have hidx : idx < s.conns.length := by
      -- a response for a provider that is not there would have panicked
      obtain ⟨d, hd, -⟩ := bind_eq_ok.mp h
      by_contra hge
      rw [Exec.index, List.getElem?_eq_none (by omega)] at hd
      cases hd
    obtain ⟨p, hp⟩ := hs.entries hidx
    rw [checkStandbyDelivery_conn hp] at h
    cases h
    exact .install k idle idx c hk hdel hp
  · rw [hdel] at h
    cases h
    exact .noInstall k idle hk (by simp [hdel])

/-- A step of the loop is a turn. -/
theorem step_turn {pc pc' : Pc} {logs : List (Logged H A)} (hs : s.Sized)
    (h : step api (s, pc) inp = .ok ((s', pc'), logs)) : Turn api s inp pc s' pc' logs := by
  cases pc with
  | top =>
      simp only [step] at h
      split at h
      · rename_i hstop
        cases h
        exact .stop hstop
      · rename_i hstop
        have hgo : inp.stop = false := by simpa using hstop
        split at h
        · rename_i job hpop
          cases h
          exact .pop job hgo hpop
        · rename_i hpop
          cases h
          exact .nothing hgo hpop
  | send job sent k =>
      by_cases hk : k < s.conns.length
      · obtain ⟨p, hp⟩ := hs.entries hk
        rw [step_send hp] at h
        obtain ⟨⟨p', evs⟩, hsend, hx⟩ := map_eq_ok.mp h
        cases hx
        exact .send job sent k hp hsend
      · simp only [step, if_neg hk] at h
        cases h
        exact .sendEnd job sent k (by omega)
  | kick k =>
      by_cases hk : k < s.conns.length
      · obtain ⟨p, hp⟩ := hs.entries hk
        rw [step_kick hp] at h
        cases h
        exact .kick k hp
      · simp only [step, if_neg hk] at h
        cases h
        exact .kickEnd k (by omega)
  | reap k =>
      by_cases hk : k < s.conns.length
      · obtain ⟨p, hp⟩ := hs.entries hk
        rw [step_reap hp] at h
        obtain ⟨⟨p', evs⟩, hreap, hx⟩ := map_eq_ok.mp h
        cases hx
        exact .reap k hp hreap
      · simp only [step, if_neg hk] at h
        cases h
        exact .reapEnd k (by omega)
  | tick =>
      cases h
      exact .tick
  | deliver k idle =>
      simp only [step, hs.reconnectRespRx] at h
      split at h
      · rename_i hk
        obtain ⟨⟨s₁, evs⟩, hcheck, h⟩ := bind_eq_ok.mp h
        cases h
        exact deliver_turn hs hk hcheck
      · rename_i hk
        cases h
        exact .deliverEnd k idle (by omega)
  | publish idle =>
      obtain ⟨evs, hpub, h⟩ := bind_eq_ok.mp h
      cases h
      exact .publish idle hpub
  | idle =>
      cases h
      exact .idle
  | stopped =>
      cases h
      exact .stopped

/-- `drive` and `reap` of one provider. -/
theorem driveReap_does {p' : ParWorker H Q} {evs : List (Event H A)} (h : s.Entries k p)
    (hreap : (p.driveActive api inp).reap api (ProviderId.ofIndex k) inp = .ok (p', evs)) :
    Does api (p.driveActive api inp) evs p' ∧ p.SameFrame p' := by
  rw [← show (p.driveActive api inp).providerIdx = k from h.providerIdx] at hreap
  have hdoes := ParWorker.reap_does hreap
  have hframe := hdoes.sameFrame
  exact ⟨hdoes, hframe.providerIdx, hframe.resultTx, hframe.reconnectRespRx, hframe.connKind,
    hframe.tick, hframe.diag⟩

end Turn

/-- The job the loop has popped and not yet given to provider `j`. -/
def pending (pc : Pc) (j : Nat) : List (Job × Nat) :=
  match pc with
  | .send job sent i => if i ≤ j then [(job, sent)] else []
  | _ => []

theorem pending_send (job : Job) (sent i j : Nat) :
    pending (.send job sent i) j =
      (if i = j then [(job, sent)] else []) ++ pending (.send job sent (i + 1)) j := by
  simp only [pending]
  rcases Nat.lt_trichotomy i j with hlt | rfl | hgt
  · rw [if_pos (by omega), if_neg (by omega), if_pos (by omega)]
    rfl
  · rw [if_pos (le_refl i), if_pos rfl, if_neg (by omega)]
    rfl
  · rw [if_neg (by omega), if_neg (by omega), if_neg (by omega)]
    rfl

/-- What a step did for the provider at `j`, whose entries were `p`: every popped job is either taken
or still pending. -/
structure Moved (api : ConnApi H A Q K) (got : Option (ReconnectResp H Q)) (j : Nat)
    (p : ParWorker H Q) (pc : Pc) (s' : SequentialWorker H Q) (pc' : Pc) (logs : List (Logged H A))
    (p' : ParWorker H Q) : Prop where
  entries : s'.Entries j p'
  act : Act api got p (eventsAt j logs) p'
  jobs : pending pc j ++ poppedJobs logs = takenJobs (eventsAt j logs) ++ pending pc' j

theorem entries_unique {s : SequentialWorker H Q} {i : Nat} {p p' : ParWorker H Q}
    (h : s.Entries i p) (h' : s.Entries i p') : p = p' := by
  have hview := view_eq_some_iff.mpr h
  rw [view_eq_some_iff.mpr h'] at hview
  exact (Option.some.inj hview).symm

/-- A call on the entries at `i` moves provider `i`, and no other. -/
theorem moved_put {api : ConnApi H A Q K} {got : Option (ReconnectResp H Q)}
    {s : SequentialWorker H Q} {i j : Nat} {pc pc' : Pc} {p p' pj : ParWorker H Q}
    {evs : List (Event H A)} (hi : s.Entries i p) (hj : s.Entries j pj) (hf : p.SameFrame p')
    (hact : Act api got p evs p')
    (hjobs : pending pc j = (if i = j then takenJobs evs else []) ++ pending pc' j) :
    ∃ pj', Moved api got j pj pc (s.put i p') pc' (evs.map (.on i)) pj' := by
  by_cases hij : i = j
  · subst hij
    obtain rfl := entries_unique hi hj
    refine ⟨p', hi.put_self hf, by rwa [eventsAt_map_on], ?_⟩
    rw [eventsAt_map_on, poppedJobs_map_on, List.append_nil, hjobs, if_pos rfl]
  · refine ⟨pj, hj.put_other hij, ?_, ?_⟩
    · rw [eventsAt_map_on_ne hij]
      exact .stay
    · rw [eventsAt_map_on_ne hij, poppedJobs_map_on, List.append_nil, hjobs, if_neg hij]
      rfl

/-- What a step does to the whole worker. -/
structure Stepped (api : ConnApi H A Q K) (got : Option (ReconnectResp H Q))
    (s : SequentialWorker H Q) (pc : Pc) (s' : SequentialWorker H Q) (pc' : Pc)
    (logs : List (Logged H A)) : Prop where
  sized : s'.Sized
  length : s'.conns.length = s.conns.length
  resultTx : s'.resultTx = s.resultTx
  reconnectRespRx : s'.reconnectRespRx = s.reconnectRespRx
  connKind : s'.connKind = s.connKind
  /-- no call is made, or calls on one provider -/
  about : (∀ e ∈ logs, Quiet e) ∨
    ∃ i p, ∃ evs : List (Event H A), s.Entries i p ∧ logs = evs.map (.on i)
  installed : ∀ j, .on j .install ∈ logs → ∃ c, got = some ⟨j, .conn c⟩
  moved : ∀ j p, s.Entries j p → ∃ p', Moved api got j p pc s' pc' logs p'

/-- A step of the loop that touches no connection. -/
theorem stepped_stay {api : ConnApi H A Q K} {got : Option (ReconnectResp H Q)}
    {s : SequentialWorker H Q} {pc pc' : Pc} {logs : List (Logged H A)} (hs : s.Sized)
    (hlogs : ∀ e ∈ logs, ∃ job sent, e = .popped job sent)
    (hjobs : ∀ j < s.conns.length, pending pc j ++ poppedJobs logs = pending pc' j) :
    Stepped api got s pc s pc' logs := by
  refine ⟨hs, rfl, rfl, rfl, rfl, .inl fun e he => ?_, fun j hj => ?_, fun j p hp => ⟨p, hp, ?_, ?_⟩⟩
  · obtain ⟨job, sent, rfl⟩ := hlogs e he
    exact trivial
  · obtain ⟨job, sent, heq⟩ := hlogs _ hj
    cases heq
  all_goals
    have hnone : eventsAt j logs = [] := by
      refine List.filterMap_eq_nil_iff.mpr fun e he => ?_
      obtain ⟨job, sent, rfl⟩ := hlogs e he
      rfl
    rw [hnone]
  · exact .stay
  · exact hjobs j (List.getElem?_eq_some_iff.mp hp.conns).1

/-- A step that makes a call on provider `i`. -/
theorem stepped_put {api : ConnApi H A Q K} {got : Option (ReconnectResp H Q)}
    {s : SequentialWorker H Q} {i : Nat} {pc pc' : Pc} {p p' : ParWorker H Q}
    {evs : List (Event H A)} (hs : s.Sized) (hi : s.Entries i p) (hf : p.SameFrame p')
    (hact : Act api got p evs p') (hinst : .install ∈ evs → ∃ c, got = some ⟨i, .conn c⟩)
    (hjobs : ∀ j, pending pc j = (if i = j then takenJobs evs else []) ++ pending pc' j) :
    Stepped api got s pc (s.put i p') pc' (evs.map (.on i)) := by
  refine ⟨hs.put i p', List.length_set, rfl, rfl, rfl, .inr ⟨i, p, evs, hi, rfl⟩, fun j hj => ?_,
    fun j pj hj => moved_put hi hj hf hact (hjobs j)⟩
  obtain ⟨ev, hev, heq⟩ := List.mem_map.mp hj
  obtain ⟨rfl, rfl⟩ := Logged.on.inj heq
  exact hinst hev

theorem publishDiag_at {s : SequentialWorker H Q} {j n : Nat} (hn : s.jobsSent[j]? = some n)
    (slots : List Nat) (i : Nat) {logs : List (Logged H A)}
    (h : s.publishDiag i slots = .ok logs) :
    poppedJobs logs = [] ∧ eventsAt j logs =
      (if i ≤ j then (slots[j - i]?.map fun slot => Event.diag slot n).toList else []) := by
  induction slots generalizing i logs with
  | nil =>
      obtain rfl := Except.ok.inj h
      refine ⟨rfl, ?_⟩
      split <;> simp [eventsAt]
  | cons slot slots ih =>
      rw [publishDiag] at h
      obtain ⟨m, hm, h⟩ := bind_eq_ok.mp h
      obtain ⟨rest, hrest, h⟩ := bind_eq_ok.mp h
      obtain rfl := Except.ok.inj h
      obtain ⟨hpop, hat⟩ := ih (i + 1) hrest
      have hcons : ∀ j', eventsAt j' (Logged.on i (Event.diag slot m) :: rest) =
          (if i = j' then [Event.diag slot m] else []) ++ eventsAt j' rest := by
        intro j'
        by_cases hij : i = j' <;> simp [eventsAt, hij]
      refine ⟨hpop, ?_⟩
      rw [hcons, hat]
      rcases Nat.lt_trichotomy i j with hlt | rfl | hgt
      · obtain ⟨d, rfl⟩ : ∃ d, j = i + 1 + d := ⟨j - (i + 1), by omega⟩
        rw [if_neg (by omega), if_pos (by omega), if_pos (by omega), List.nil_append,
          show i + 1 + d - (i + 1) = d by omega, show i + 1 + d - i = d + 1 by omega,
          List.getElem?_cons_succ]
      · rw [index_eq_ok hn] at hm
        obtain rfl := Except.ok.inj hm
        rw [if_pos rfl, if_neg (by omega), if_pos (le_refl i), Nat.sub_self]
        rfl
      · rw [if_neg (by omega), if_neg (by omega), if_neg (by omega)]
        rfl

theorem publishDiag_log {s : SequentialWorker H Q} {slots : List Nat} {i : Nat}
    {logs : List (Logged H A)} (h : s.publishDiag i slots = .ok logs) :
    ∀ e ∈ logs, ∃ j slot n, e = .on j (.diag slot n) := by
  induction slots generalizing i logs with
  | nil =>
      obtain rfl := Except.ok.inj h
      simp
  | cons slot slots ih =>
      rw [publishDiag] at h
      obtain ⟨m, -, h⟩ := bind_eq_ok.mp h
      obtain ⟨rest, hrest, h⟩ := bind_eq_ok.mp h
      obtain rfl := Except.ok.inj h
      exact List.forall_mem_cons.mpr ⟨⟨i, slot, m, rfl⟩, ih hrest⟩

/-- **A step of the sequential worker.** -/
theorem step_stepped {api : ConnApi H A Q K} {s s' : SequentialWorker H Q} {pc pc' : Pc}
    {inp : Input H A Q K} {logs : List (Logged H A)} (hs : s.Sized)
    (h : step api (s, pc) inp = .ok ((s', pc'), logs)) :
    Stepped api inp.delivered s pc s' pc' logs := by
  cases step_turn hs h with
  | stop | pop | nothing | kickEnd | reapEnd | noInstall | deliverEnd | stopped =>
      exact stepped_stay hs (by simp) fun j _ => rfl
  | send job sent k hp hsend =>
      have hdoes := ParWorker.sendTo_does hsend
      have hnot := ParWorker.sendTo_not_install hsend
      refine stepped_put hs hp hdoes.sameFrame (.send hdoes hnot) (absurd · hnot) fun j => ?_
      rw [ParWorker.sendTo_taken hsend]
      exact pending_send job sent k j
  | sendEnd job sent k hk =>
      refine stepped_stay hs (by simp) fun j hj => ?_
      rw [pending, if_neg (by omega)]
      rfl
  | @kick k p hp =>
      have hframe : p.SameFrame (p.driveActive api inp) := ⟨rfl, rfl, rfl, rfl, rfl, rfl⟩
      have hact : Act api inp.delivered p [] (p.driveActive api inp) :=
        .kick inp.drive inp.now inp.quic
      refine stepped_put hs hp hframe hact (by simp) fun j => ?_
      split <;> rfl
  | @reap k p p' evs hp hreap =>
      obtain ⟨hdoes, hframe⟩ := driveReap_does hp hreap
      have hnot : .install ∉ evs := fun hm => ParWorker.reap_log hreap _ hm
      refine stepped_put hs hp hframe (.reap inp.drive inp.now inp.quic hdoes hnot) (absurd · hnot)
        fun j => ?_
      rw [ParWorker.reap_taken hreap]
      split <;> rfl
  | tick =>
      refine ⟨⟨hs.resultTx, hs.inflight, hs.reconnectRespRx, hs.diag, hs.jobsSent⟩, rfl, rfl, rfl, rfl,
        .inl (by simp), by simp, fun j p hp => ⟨{ p with tick := p.tick + 1 }, ?_, .tick, ?_⟩⟩
      · exact ⟨hp.conns, hp.resultTx, hp.inflight, hp.reconnectRespRx, hp.diag, hp.jobsSent,
          hp.providerIdx, hp.connKind, by rw [hp.tick]⟩
      · split <;> rfl
  | @install k idle idx c p hk hdel hp =>
      have hframe : p.SameFrame { p with dualConn := p.dualConn.replaceStandby c.state } :=
        ⟨rfl, rfl, rfl, rfl, rfl, rfl⟩
      refine stepped_put hs hp hframe (.install hdel (.inl rfl)) (fun _ => ⟨c, hdel⟩) fun j => ?_
      split <;> rfl
  | publish idle hpub =>
      have hdiags := publishDiag_log hpub
      refine ⟨hs, rfl, rfl, rfl, rfl, .inl fun e he => ?_, fun j hj => ?_, fun j p hp => ?_⟩
      · obtain ⟨j, slot, n, rfl⟩ := hdiags e he
        exact trivial
      · obtain ⟨j', slot, n, heq⟩ := hdiags _ hj
        cases heq
      obtain ⟨hpop, hat⟩ := publishDiag_at hp.jobsSent s.diag 0 hpub
      rw [if_pos (Nat.zero_le j), Nat.sub_zero, hp.diag] at hat
      have hdiag : eventsAt j logs = p.publishDiag := hat
      refine ⟨p, hp, ?_, ?_⟩
      · rw [hdiag]
        exact .publish
      · rw [hpop, hdiag]
        cases idle <;> rfl
  | idle =>
      refine stepped_stay hs (by simp) fun j _ => ?_
      split <;> rfl

end SequentialWorker

/-! ## The parallel worker -/

namespace ParWorker

/-- The job the loop has popped and not yet sent. -/
def pending : Pc → List (Job × Nat)
  | .send job sent => [(job, sent)]
  | _ => []

/-- What a step does to the worker. -/
structure Stepped (api : ConnApi H A Q K) (got : Option (ReconnectResp H Q)) (w : ParWorker H Q)
    (pc : Pc) (w' : ParWorker H Q) (pc' : Pc) (logs : List (Logged H A)) : Prop where
  own : (∀ e ∈ logs, ∃ job sent, e = .popped job sent) ∨
    ∃ evs : List (Event H A), logs = evs.map (.on w.providerIdx)
  act : Act api got w (eventsAt w.providerIdx logs) w'
  jobs : pending pc ++ poppedJobs logs = takenJobs (eventsAt w.providerIdx logs) ++ pending pc'

theorem stepped_of_act {api : ConnApi H A Q K} {got : Option (ReconnectResp H Q)}
    {w w' : ParWorker H Q} {pc pc' : Pc} {evs : List (Event H A)} (hact : Act api got w evs w')
    (hjobs : pending pc = takenJobs evs ++ pending pc') :
    Stepped api got w pc w' pc' (evs.map (.on w.providerIdx)) := by
  refine ⟨.inr ⟨evs, rfl⟩, by rwa [eventsAt_map_on], ?_⟩
  rw [eventsAt_map_on, poppedJobs_map_on, List.append_nil, hjobs]

theorem checkStandbyDelivery_act (api : ConnApi H A Q K) (w : ParWorker H Q)
    (delivered : Option (ReconnectResp H Q)) :
    Act api delivered w ((w.checkStandbyDelivery delivered).2 ++
        (w.checkStandbyDelivery (A := A) delivered).1.publishDiag)
      (w.checkStandbyDelivery (A := A) delivered).1 := by
  rcases delivered with _ | ⟨idx, c | _⟩
  · exact .publish
  · exact .install rfl (.inr rfl)
  · exact .publish

/-- **A step of the parallel worker.** -/
theorem step_stepped {api : ConnApi H A Q K} {w w' : ParWorker H Q} {pc pc' : Pc}
    {inp : Input H A Q K} {logs : List (Logged H A)}
    (h : step api (w, pc) inp = .ok ((w', pc'), logs)) :
    Stepped api inp.delivered w pc w' pc' logs := by
  cases pc with
  | top =>
      simp only [step] at h
      split at h
      · cases h
        exact ⟨.inl (by simp), .stay, rfl⟩
      · split at h
        · cases h
          exact ⟨.inl (by simp), .stay, rfl⟩
        · cases h
          exact ⟨.inl (by simp), .stay, rfl⟩
  | send job sent =>
      obtain ⟨⟨w₁, evs⟩, hsend, h⟩ := bind_eq_ok.mp h
      cases h
      have hdoes := sendTo_does hsend
      rw [hdoes.sameFrame.providerIdx]
      refine stepped_of_act (.send hdoes (sendTo_not_install hsend)) ?_
      rw [sendTo_taken hsend]
      rfl
  | reap =>
      obtain ⟨⟨w₁, evs⟩, hreap, h⟩ := bind_eq_ok.mp h
      cases h
      have hdoes : Does api (w.driveActive api inp) evs w' := reap_does hreap
      have hidx : w'.providerIdx = w.providerIdx := hdoes.sameFrame.providerIdx
      rw [hidx]
      refine stepped_of_act (.reap inp.drive inp.now inp.quic hdoes fun hm => reap_log hreap _ hm) ?_
      rw [reap_taken hreap]
      rfl
  | tick =>
      cases h
      refine ⟨.inl (by simp), .tick, ?_⟩
      split <;> rfl
  | deliver idle =>
      have hact := checkStandbyDelivery_act api w inp.delivered
      have hidx : (w.checkStandbyDelivery (A := A) inp.delivered).1.providerIdx = w.providerIdx :=
        hact.runs.sameWires.providerIdx
      have htaken : takenJobs (w.checkStandbyDelivery (A := A) inp.delivered).2 = [] := by
        rcases inp.delivered with _ | ⟨idx, c | _⟩ <;> rfl
      have hstep : step api (w, .deliver idle) inp =
          .ok (((w.checkStandbyDelivery (A := A) inp.delivered).1, if idle then .top else .idle),
            ((w.checkStandbyDelivery inp.delivered).2 ++
              (w.checkStandbyDelivery (A := A) inp.delivered).1.publishDiag).map
              (.on (w.checkStandbyDelivery (A := A) inp.delivered).1.providerIdx)) := rfl
      generalize w.checkStandbyDelivery (A := A) inp.delivered = v at hact hidx htaken hstep
      rw [hstep] at h
      cases h
      rw [hidx]
      refine stepped_of_act hact ?_
      rw [takenJobs_append, htaken]
      cases idle <;> rfl
  | idle =>
      cases h
      refine ⟨.inl (by simp), .stay, ?_⟩
      split <;> rfl
  | stopped =>
      cases h
      exact ⟨.inl (by simp), .stay, rfl⟩

end ParWorker

/-! ## Whole runs -/

/-- The worker a provider starts with: two connections as `connect_one` made them. -/
def startedPar (idx ring rx : Nat) (kind : ConnKind) (diag : Nat) (a b : Built H Q) : ParWorker H Q :=
  ParWorker.new idx ring (DualConn.new a.state b.state) rx kind diag

/-- The sequential worker as it starts: two connections for each provider. -/
def startedSeq (conns : List (Built H Q × Built H Q)) (rings rxs : List Nat) (kind : ConnKind)
    (diags : List Nat) : SequentialWorker H Q :=
  SequentialWorker.new (conns.map fun c => DualConn.new c.1.state c.2.state) rings rxs kind diags

/-- A run of either worker, from its start, as one of its providers lived it: its state at the start,
the jobs popped so far, its part of the log, its state now. -/
inductive ProviderRun (api : ConnApi H A Q K) :
    ParWorker H Q → List (Job × Nat) → List (Event H A) → ParWorker H Q → Prop
  | parallel {idx ring rx diag : Nat} {kind : ConnKind} {a b : Built H Q}
      {inputs : List (Input H A Q K)} {w : ParWorker H Q} {pc : ParWorker.Pc}
      {log : List (Logged H A)}
      (hrun : (ParWorker.machine api).run (startedPar idx ring rx kind diag a b, .top) inputs =
        .ok ((w, pc), log)) :
      ProviderRun api (startedPar idx ring rx kind diag a b) (poppedJobs log) (eventsAt idx log) w
  | sequential {conns : List (Built H Q × Built H Q)} {rings rxs diags : List Nat} {kind : ConnKind}
      {inputs : List (Input H A Q K)} {s : SequentialWorker H Q} {pc : SequentialWorker.Pc}
      {log : List (Logged H A)} {i : Nat} {p₀ p : ParWorker H Q}
      (hrings : rings.length = conns.length) (hrxs : rxs.length = conns.length)
      (hdiags : diags.length = conns.length)
      (hrun : (SequentialWorker.machine api).run (startedSeq conns rings rxs kind diags, .top) inputs =
        .ok ((s, pc), log))
      (hstart : (startedSeq conns rings rxs kind diags).view i = some p₀) (hnow : s.view i = some p) :
      ProviderRun api p₀ (poppedJobs log) (eventsAt i log) p

theorem sized_startedSeq {conns : List (Built H Q × Built H Q)} {rings rxs diags : List Nat}
    (kind : ConnKind) (hrings : rings.length = conns.length) (hrxs : rxs.length = conns.length)
    (hdiags : diags.length = conns.length) : (startedSeq conns rings rxs kind diags).Sized := by
  constructor
  · simpa [startedSeq, SequentialWorker.new] using hrings
  · simp [startedSeq, SequentialWorker.new]
  · simpa [startedSeq, SequentialWorker.new] using hrxs
  · simpa [startedSeq, SequentialWorker.new] using hdiags
  · simp [startedSeq, SequentialWorker.new]

/-- Over a run of the sequential worker: the calls on provider `j`, and the jobs it was given. -/
theorem SequentialWorker.run_moved {api : ConnApi H A Q K} {s₀ s : SequentialWorker H Q} {pc : Pc}
    {inputs : List (Input H A Q K)} {log : List (Logged H A)} (hs : s₀.Sized)
    (h : (machine api).run (s₀, .top) inputs = .ok ((s, pc), log)) :
    s.Sized ∧ ∀ j p₀, s₀.Entries j p₀ → ∃ p, s.Entries j p ∧ Runs api p₀ (eventsAt j log) p ∧
      poppedJobs log = takenJobs (eventsAt j log) ++ pending pc j := by
  refine Machine.run_invariant (machine api)
    (fun st log => st.1.Sized ∧ ∀ j p₀, s₀.Entries j p₀ → ∃ p, st.1.Entries j p ∧
      Runs api p₀ (eventsAt j log) p ∧
      poppedJobs log = takenJobs (eventsAt j log) ++ pending st.2 j) ?_ ?_ h
  · exact ⟨hs, fun j p₀ hp => ⟨p₀, hp, .start, rfl⟩⟩
  · rintro ⟨s₁, pc₁⟩ log₁ inp ⟨s₂, pc₂⟩ evs ⟨hsized, hall⟩ hstep
    have hstepped := step_stepped hsized hstep
    refine ⟨hstepped.sized, fun j p₀ hp₀ => ?_⟩
    obtain ⟨p₁, hp₁, hruns, hjobs⟩ := hall j p₀ hp₀
    obtain ⟨p₂, hp₂⟩ := hstepped.moved j p₁ hp₁
    refine ⟨p₂, hp₂.entries, ?_, ?_⟩
    · rw [eventsAt_append]
      exact hruns.trans hp₂.act.runs
    · rw [poppedJobs_append, hjobs, List.append_assoc, hp₂.jobs, eventsAt_append, takenJobs_append,
        List.append_assoc]

theorem ParWorker.run_moved {api : ConnApi H A Q K} {w₀ w : ParWorker H Q} {pc : Pc}
    {inputs : List (Input H A Q K)} {log : List (Logged H A)}
    (h : (machine api).run (w₀, .top) inputs = .ok ((w, pc), log)) :
    Runs api w₀ (eventsAt w₀.providerIdx log) w ∧
      poppedJobs log = takenJobs (eventsAt w₀.providerIdx log) ++ pending pc := by
  refine Machine.run_invariant (machine api)
    (fun st log => Runs api w₀ (eventsAt w₀.providerIdx log) st.1 ∧
      poppedJobs log = takenJobs (eventsAt w₀.providerIdx log) ++ pending st.2) ?_ ?_ h
  · exact ⟨.start, rfl⟩
  · rintro ⟨w₁, pc₁⟩ log₁ inp ⟨w₂, pc₂⟩ evs ⟨hruns, hjobs⟩ hstep
    have hstepped := step_stepped hstep
    have hact := hstepped.act
    have hnext := hstepped.jobs
    rw [hruns.sameWires.providerIdx] at hact hnext
    refine ⟨?_, ?_⟩
    · rw [eventsAt_append]
      exact hruns.trans hact.runs
    · rw [poppedJobs_append, hjobs, List.append_assoc, hnext, eventsAt_append, takenJobs_append,
        List.append_assoc]

namespace ProviderRun

variable {api : ConnApi H A Q K} {p₀ p : ParWorker H Q} {popped : List (Job × Nat)}
  {log : List (Event H A)}

/-- Every provider starts with two connections as `connect_one` made them. -/
theorem started (h : ProviderRun api p₀ popped log p) :
    ∃ idx ring rx kind diag a b, p₀ = startedPar idx ring rx kind diag a b := by
  cases h with
  | @parallel idx ring rx diag kind a b => exact ⟨idx, ring, rx, kind, diag, a, b, rfl⟩
  | @sequential conns rings rxs diags kind _ _ _ _ i _ _ _ _ _ _ hstart =>
      have he := SequentialWorker.view_eq_some_iff.mp hstart
      have hconn : (conns.map fun c => DualConn.new c.1.state c.2.state)[i]? = some p₀.dualConn :=
        he.conns
      rw [List.getElem?_map, Option.map_eq_some_iff] at hconn
      obtain ⟨c, -, hd⟩ := hconn
      have hslot := List.eq_of_mem_replicate (List.mem_of_getElem? he.inflight)
      have hsent := List.eq_of_mem_replicate (List.mem_of_getElem? he.jobsSent)
      refine ⟨i, p₀.resultTx, p₀.reconnectRespRx, kind, p₀.diag, c.1, c.2, ?_⟩
      unfold startedPar ParWorker.new
      rw [hd]
      have hidx := he.providerIdx
      have hkind : p₀.connKind = kind := he.connKind
      have htick : p₀.tick = 0 := he.tick
      cases p₀
      simp only at hslot hsent hidx hkind htick
      subst hslot hsent hidx hkind htick
      rfl

/-- A run is a sequence of calls on the provider. -/
theorem runs (h : ProviderRun api p₀ popped log p) : Runs api p₀ log p := by
  cases h with
  | parallel hrun => exact (ParWorker.run_moved hrun).1
  | sequential hrings hrxs hdiags hrun hstart hnow =>
      have hmoved := SequentialWorker.run_moved (sized_startedSeq _ hrings hrxs hdiags) hrun
      obtain ⟨p', hp', hruns, -⟩ := hmoved.2 _ p₀ (SequentialWorker.view_eq_some_iff.mp hstart)
      rwa [SequentialWorker.entries_unique (SequentialWorker.view_eq_some_iff.mp hnow) hp']

/-- The provider was given the popped jobs, in that order, except perhaps the last. -/
theorem taken (h : ProviderRun api p₀ popped log p) : takenJobs log <+: popped := by
  cases h with
  | parallel hrun => exact ⟨_, (ParWorker.run_moved hrun).2.symm⟩
  | sequential hrings hrxs hdiags hrun hstart hnow =>
      have hmoved := SequentialWorker.run_moved (sized_startedSeq _ hrings hrxs hdiags) hrun
      obtain ⟨p', -, -, hjobs⟩ := hmoved.2 _ p₀ (SequentialWorker.view_eq_some_iff.mp hstart)
      exact ⟨_, hjobs.symm⟩

/-- A run of `ParWorker` on given inputs, which the property `P` holds of. -/
theorem of_inputs (api : ConnApi H A Q K) (a b : Built H Q) (inputs : List (Input H A Q K))
    (popped : List (Job × Nat)) (P : List (Event H A) → ParWorker H Q → Prop)
    [∀ log w, Decidable (P log w)]
    (h : ((ParWorker.machine api).run (startedPar 0 0 0 .rawLibc 0 a b, .top) inputs).map
      (fun r => decide (poppedJobs r.2 = popped ∧ P (eventsAt 0 r.2) r.1.1)) = .ok true) :
    ∃ log w, ProviderRun api (startedPar 0 0 0 .rawLibc 0 a b) popped log w ∧ P log w := by
  obtain ⟨⟨⟨w, pc⟩, log⟩, hrun, hdecide⟩ := map_eq_ok.mp h
  obtain ⟨rfl, hP⟩ := of_decide_eq_true hdecide
  exact ⟨_, w, .parallel hrun, hP⟩

end ProviderRun

end TxSender.Transport
