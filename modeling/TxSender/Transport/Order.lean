/-
# TxSender.Transport.Order — at most one response for each job, in the order of the jobs.

A job in flight waits in one of two places: the worker's slot, or the QUIC connection it was sent
on. `slot` is the one a response can come from now. The invariant says that what was emitted,
followed by the slot, is a subsequence of the jobs sent; it survives a failover because a standby
QUIC connection that still holds a job is closed, and a closed one never reports.
-/
import TxSender.Backend.RawLibc
import TxSender.Transport.Projection

namespace TxSender.Transport

open TxSender.Lib
open TxSender.Http
open TxSender.Protocol
open TxSender.Backend
open scoped List

variable {H A Q K : Type}

/-! ## What a log says -/

/-- What a response says about the job it is for. -/
def key (entry : Job × Nat) : JobId × Nat := (entry.1.id, entry.2)

/-- The jobs that were sent with success, in order. -/
def okSent (log : List (Event H A)) : List (Job × Nat) :=
  log.filterMap fun e => match e with
    | .httpSend job sent _ _ _ (.ok ()) => some (job, sent)
    | .quicSend job sent (.ok ()) => some (job, sent)
    | _ => none

/-- The responses emitted, in order. -/
def emitted (log : List (Event H A)) : List RawResp :=
  log.filterMap fun e => match e with
    | .push _ resp => some resp
    | _ => none

/-- The job and time stamp a response carries. -/
def respKey (r : RawResp) : JobId × Nat := (r.job, r.sentTsc)

theorem okSent_append (l l' : List (Event H A)) : okSent (l ++ l') = okSent l ++ okSent l' :=
  List.filterMap_append

theorem emitted_append (l l' : List (Event H A)) : emitted (l ++ l') = emitted l ++ emitted l' :=
  List.filterMap_append

/-- A call sends only the job it was called with. -/
theorem Does.okSent_sublist {api : ConnApi H A Q K} {w w' : ParWorker H Q} {evs : List (Event H A)}
    (h : Does api w evs w') : okSent evs <+ takenJobs evs := by
  cases h with
  | sent => exact List.Sublist.refl _
  | refused => exact List.nil_sublist _
  | resent => exact List.Sublist.refl _
  | lost => exact List.nil_sublist _
  | dropped => exact List.nil_sublist _
  | @quicSent job sent _ _ _ _ _ r =>
      cases r with
      | ok _ => exact List.Sublist.refl _
      | error _ => exact List.nil_sublist _
  | drove => exact List.Sublist.refl _
  | quiet => exact List.Sublist.refl _
  | answered => exact List.Sublist.refl _
  | unasked => exact List.Sublist.refl _
  | failed => exact List.Sublist.refl _
  | died => exact List.Sublist.refl _
  | expired => exact List.Sublist.refl _
  | waiting => exact List.Sublist.refl _
  | installed => exact List.Sublist.refl _
  | published => exact List.Sublist.refl _

theorem Runs.okSent_sublist {api : ConnApi H A Q K} {w w' : ParWorker H Q}
    {log : List (Event H A)} (h : Runs api w log w') : okSent log <+ takenJobs log := by
  induction h with
  | start => exact List.Sublist.refl _
  | step _ hdoes ih =>
      rw [okSent_append, takenJobs_append]
      exact List.Sublist.append ih hdoes.okSent_sublist
  | tick _ ih => exact ih

/-! ## Closed QUIC engines -/

/-- A closed engine stays closed, and sends nothing. -/
structure StaysClosed (api : QuicApi Q K) : Prop where
  drive : ∀ e now k, api.isClosed e = true → api.isClosed (api.drive e now k) = true
  send : ∀ e tx now k, api.isClosed e = true →
    api.isClosed (api.sendTx e tx now k).1 = true ∧ (api.sendTx e tx now k).2 ≠ .ok ()

theorem staysClosed_quinnApi {C K : Type} {q : Quinn C K} (hq : q.StaysClosed) :
    StaysClosed (quinnApi q) where
  drive := fun e now k h => QuicEngine.isClosed_drive hq h now k
  send := fun e tx now k h => by
    have hsend := QuicEngine.sendTx_of_closed h tx now
    show QuicEngine.isClosed q (e.sendTx q tx now).1 = true ∧ (e.sendTx q tx now).2 ≠ .ok ()
    rw [hsend]
    exact ⟨h, by simp⟩

/-! ## The invariant -/

/-- The jobs a response could be emitted for now. -/
def slot (api : ConnApi H A Q K) (w : ParWorker H Q) : List (JobId × Nat) :=
  match w.active with
  | .http _ => (w.inflight.map key).toList
  | .quic q => if q.isDead api.quic then [] else q.inflight.toList

/-- A connection that waits for no job, or is closed. -/
def Spent (api : ConnApi H A Q K) : ConnState H Q → Prop
  | .http _ => True
  | .quic q => q.isDead api.quic = true ∨ q.inflight = none

structure InOrder (api : ConnApi H A Q K) (log : List (Event H A)) (w : ParWorker H Q) : Prop where
  order : (emitted log).map respKey ++ slot api w <+ (okSent log).map key
  /-- the worker's slot belongs to HTTP connections -/
  quic : ∀ q, w.active = .quic q → w.inflight = none
  standby : Spent api w.dualConn.standby.conn

/-- Failing over leaves no job to report. -/
theorem slot_failedOver {api : ConnApi H A Q K} {w : ParWorker H Q}
    (h : Spent api w.dualConn.standby.conn) : slot api w.failedOver = [] := by
  unfold slot
  have hact : w.failedOver.active = w.dualConn.standby.conn := rfl
  rw [hact]
  cases hc : w.dualConn.standby.conn with
  | http h' => rfl
  | quic q =>
      rw [hc] at h
      simp only
      split
      · rfl
      · rename_i hdead
        rcases h with h | h
        · exact absurd h hdead
        · rw [h]
          rfl

theorem window_some {q q' : QuicConn Q} {now : Nat} {entry : JobId × Nat}
    (h : q.pollNorespWindow now = (q', some entry)) : q.inflight = some entry ∧ q'.inflight = none := by
  unfold QuicConn.pollNorespWindow at h
  split at h
  · rename_i e s he hs
    split at h
    · obtain ⟨rfl, heq⟩ := Prod.mk.inj h
      exact ⟨by rw [he, Option.some.inj heq], rfl⟩
    · cases (Prod.mk.inj h).2
  · cases (Prod.mk.inj h).2

theorem window_none {q q' : QuicConn Q} {now : Nat} (h : q.pollNorespWindow now = (q', none)) :
    q' = q := by
  unfold QuicConn.pollNorespWindow at h
  split at h
  · split at h
    · cases (Prod.mk.inj h).2
    · exact (Prod.mk.inj h).1.symm
  · exact (Prod.mk.inj h).1.symm

/-- The log grew by events that emit and send nothing, and the slot did not grow. -/
theorem InOrder.shrink {api : ConnApi H A Q K} {log evs : List (Event H A)} {w w' : ParWorker H Q}
    (h : InOrder api log w) (hem : emitted evs = []) (hok : okSent evs = [])
    (hslot : slot api w' <+ slot api w) (hquic : ∀ q, w'.active = .quic q → w'.inflight = none)
    (hstandby : Spent api w'.dualConn.standby.conn) : InOrder api (log ++ evs) w' := by
  refine ⟨?_, hquic, hstandby⟩
  rw [emitted_append, okSent_append, hem, hok, List.append_nil, List.append_nil]
  exact (List.Sublist.append_left hslot _).trans h.order

/-- The log grew by one job sent, and that job is now in the slot. -/
theorem InOrder.sent {api : ConnApi H A Q K} {log evs : List (Event H A)} {w w' : ParWorker H Q}
    (entry : Job × Nat) (h : InOrder api log w) (hem : emitted evs = []) (hok : okSent evs = [entry])
    (hslot : slot api w' <+ [key entry]) (hquic : ∀ q, w'.active = .quic q → w'.inflight = none)
    (hstandby : Spent api w'.dualConn.standby.conn) : InOrder api (log ++ evs) w' := by
  refine ⟨?_, hquic, hstandby⟩
  rw [emitted_append, okSent_append, hem, hok, List.append_nil, List.map_append]
  have hold : (emitted log).map respKey <+ (okSent log).map key :=
    (List.sublist_append_left _ _).trans h.order
  exact List.Sublist.append hold hslot

/-- The log grew by a response for the job that was in the slot, which is now empty. -/
theorem InOrder.reported {api : ConnApi H A Q K} {log evs : List (Event H A)} {w w' : ParWorker H Q}
    {resp : RawResp} (h : InOrder api log w) (hem : emitted evs = [resp]) (hok : okSent evs = [])
    (hslot : slot api w = [respKey resp]) (hslot' : slot api w' = [])
    (hquic : ∀ q, w'.active = .quic q → w'.inflight = none)
    (hstandby : Spent api w'.dualConn.standby.conn) : InOrder api (log ++ evs) w' := by
  refine ⟨?_, hquic, hstandby⟩
  rw [emitted_append, okSent_append, hem, hok, hslot', List.append_nil, List.append_nil,
    List.map_append, List.map_singleton, ← hslot]
  exact h.order

/-- A QUIC call that does not send leaves the slot as it was, or closes the connection. -/
theorem slot_quic_shrinks {api : ConnApi H A Q K} {w : ParWorker H Q} {q q' : QuicConn Q}
    (hact : w.active = .quic q) (hin : q'.inflight = q.inflight)
    (hdead : q.isDead api.quic = true → q'.isDead api.quic = true) :
    slot api (w.setActive (.quic q')) <+ slot api w := by
  have hact' : (w.setActive (.quic q')).active = .quic q' := rfl
  simp only [slot, hact, hact', hin]
  by_cases hd : q'.isDead api.quic = true
  · rw [if_pos hd]
    exact List.nil_sublist _
  · rw [if_neg hd, if_neg (fun hq => hd (hdead hq))]

/-- What a QUIC send leaves: the job in flight if it was sent, else what was there. -/
theorem quicSend_cases {api : QuicApi Q K} {q q' : QuicConn Q} {job : Job} {sent : Nat} {tx : Bytes}
    {now : Nat} {k : K} {r : Except TransportError Unit}
    (h : q.sendTx api job sent tx now k = (q', r)) :
    (r = .ok () ∧ q'.inflight = some (job.id, sent)) ∨ ((∃ e, r = .error e) ∧ q'.inflight = q.inflight) := by
  unfold QuicConn.sendTx at h
  split at h
  · obtain ⟨rfl, rfl⟩ := Prod.mk.inj h
    exact Or.inr ⟨⟨_, rfl⟩, rfl⟩
  · obtain ⟨rfl, rfl⟩ := Prod.mk.inj h
    exact Or.inl ⟨rfl, rfl⟩

/-- A closed QUIC connection takes no job and stays closed. -/
theorem quicSend_of_dead {api : QuicApi Q K} (hapi : StaysClosed api) {q q' : QuicConn Q} {job : Job}
    {sent : Nat} {tx : Bytes} {now : Nat} {k : K} {r : Except TransportError Unit}
    (h : q.sendTx api job sent tx now k = (q', r)) (hdead : q.isDead api = true) :
    r ≠ .ok () ∧ q'.isDead api = true := by
  obtain ⟨hclosed, hne⟩ := hapi.send q.engine tx now k hdead
  unfold QuicConn.sendTx at h
  split at h
  · rename_i engine e heq
    obtain ⟨rfl, rfl⟩ := Prod.mk.inj h
    rw [heq] at hclosed
    exact ⟨by simp, hclosed⟩
  · rename_i engine heq
    rw [heq] at hne
    exact absurd rfl hne

/-- **One call keeps the order.** -/
theorem Does.inOrder {api : ConnApi H A Q K} (hapi : StaysClosed api.quic) {w w' : ParWorker H Q}
    {log evs : List (Event H A)} (h : InOrder api log w) (hdoes : Does api w evs w') :
    InOrder api (log ++ evs) w' := by
  have hhttp : ∀ {v : ParWorker H Q} {hc : H}, v.active = .http hc →
      ∀ q, v.active = .quic q → v.inflight = none := by
    intro v hc hv q hq
    rw [hv] at hq
    cases hq
  cases hdoes with
  | @sent job sent =>
      exact h.sent (job, sent) rfl rfl (List.Sublist.refl _) (hhttp rfl) h.standby
  | refused hact =>
      refine h.shrink rfl rfl ?_ (hhttp rfl) h.standby
      simp only [slot, hact]
      exact List.Sublist.refl _
  | @resent job sent =>
      exact h.sent (job, sent) rfl rfl (List.Sublist.refl _) (hhttp rfl) trivial
  | lost => exact h.shrink rfl rfl (List.nil_sublist _) (hhttp rfl) trivial
  | @dropped job sent hc h' =>
      refine h.shrink rfl rfl ?_ (fun _ _ => rfl) trivial
      have hnil : slot api (w.setActive (.http h')).failedOver = [] := slot_failedOver h.standby
      rw [hnil]
      exact List.nil_sublist _
  | @quicSent job sent q q' tx now k r hact hsend =>
      rcases quicSend_cases hsend with ⟨rfl, hin⟩ | ⟨⟨e, rfl⟩, hin⟩
      · refine h.sent (job, sent) rfl rfl ?_ (fun _ _ => h.quic q hact) h.standby
        have hact' : (w.setActive (.quic q')).active = .quic q' := rfl
        show slot api (w.setActive (.quic q')) <+ _
        simp only [slot, hact', hin]
        split
        · exact List.nil_sublist _
        · exact List.Sublist.refl _
      · refine h.shrink rfl rfl ?_ (fun _ _ => h.quic q hact) h.standby
        exact slot_quic_shrinks hact hin fun hd => (quicSend_of_dead hapi hsend hd).2
  | drove a now k =>
      cases hact : w.active with
      | http hc =>
          refine h.shrink rfl rfl ?_ (hhttp rfl) h.standby
          simp only [slot, hact]
          exact List.Sublist.refl _
      | quic q =>
          refine h.shrink rfl rfl ?_ (fun _ _ => h.quic q hact) h.standby
          exact slot_quic_shrinks hact rfl fun hd => hapi.drive q.engine now k hd
  | quiet hact =>
      refine h.shrink rfl rfl ?_ (hhttp rfl) h.standby
      simp only [slot, hact]
      exact List.Sublist.refl _
  | @answered hc h' a body job sent tsc hact hpoll hslot =>
      refine h.reported rfl rfl ?_ rfl (hhttp rfl) h.standby
      simp only [slot, hact, hslot]
      rfl
  | unasked hact =>
      refine h.shrink rfl rfl ?_ (hhttp rfl) h.standby
      simp only [slot, hact]
      exact List.Sublist.refl _
  | @failed hc h' a e hact hpoll he =>
      refine h.shrink rfl rfl ?_ (fun _ _ => rfl) trivial
      have hnil : slot api (w.setActive (.http h')).failedOver = [] := slot_failedOver h.standby
      rw [hnil]
      exact List.nil_sublist _
  | @died q hact hdead =>
      refine h.shrink rfl rfl ?_ (fun _ _ => rfl) ?_
      · rw [slot_failedOver h.standby]
        exact List.nil_sublist _
      · show Spent api w.active
        rw [hact]
        exact Or.inl hdead
  | @expired q q' now id sent tsc hact hdead hwin =>
      obtain ⟨hin, hin'⟩ := window_some hwin
      have hact' : (w.setActive (.quic q')).active = .quic q' := rfl
      refine h.reported rfl rfl ?_ ?_ (fun _ _ => h.quic q hact) h.standby
      · simp only [slot, hact, hdead, hin]
        rfl
      · simp only [slot, hact', hin']
        split <;> rfl
  | @waiting q q' now hact hdead hwin =>
      obtain rfl := window_none hwin
      exact h.shrink rfl rfl (slot_quic_shrinks hact rfl id) (fun _ _ => h.quic q' hact) h.standby
  | installed c =>
      refine h.shrink rfl rfl (List.Sublist.refl _) h.quic ?_
      cases c with
      | http hc => exact trivial
      | quic engine => exact Or.inr rfl
  | published => exact h.shrink rfl rfl (List.Sublist.refl _) h.quic h.standby

theorem inOrder_start {api : ConnApi H A Q K} (idx ring rx : Nat) (kind : ConnKind) (diag : Nat)
    (a b : Built H Q) : InOrder api ([] : List (Event H A)) (startedPar idx ring rx kind diag a b) := by
  refine ⟨?_, fun _ _ => rfl, ?_⟩
  · cases a with
    | http hc => exact List.Sublist.refl _
    | quic engine =>
        show slot api (startedPar idx ring rx kind diag (.quic engine) b) <+ []
        have hact : (startedPar idx ring rx kind diag (.quic engine) b : ParWorker H Q).active =
          .quic (QuicConn.new engine) := rfl
        simp only [slot, hact]
        split <;> exact List.Sublist.refl _
  · cases b with
    | http hc => exact trivial
    | quic engine => exact Or.inr rfl

theorem Runs.inOrder {api : ConnApi H A Q K} (hapi : StaysClosed api.quic) {w₀ w : ParWorker H Q}
    {log : List (Event H A)} (h : Runs api w₀ log w) (h₀ : InOrder api [] w₀) :
    InOrder api log w := by
  induction h with
  | start => exact h₀
  | step _ hdoes ih => exact hdoes.inOrder hapi ih
  | tick _ ih => exact ⟨ih.order, ih.quic, ih.standby⟩

/-- **At most one response for each job, in order.** In every run of either worker, the responses
emitted for a provider are, in order, those of some of the jobs sent to it with success, and these
are some of the jobs popped, in the order they were popped. -/
theorem emitted_in_pop_order {C : Type} (http : HttpApi H A) (quinn : Quinn C K)
    (hq : quinn.StaysClosed) {p₀ p : ParWorker H (QuicEngine C)} {popped : List (Job × Nat)}
    {log : List (Event H A)} (h : ProviderRun ⟨http, quinnApi quinn⟩ p₀ popped log p) :
    (emitted log).map respKey <+ (okSent log).map key ∧ okSent log <+ popped := by
  obtain ⟨idx, ring, rx, kind, diag, a, b, rfl⟩ := h.started
  have hinv := h.runs.inOrder (staysClosed_quinnApi hq) (inOrder_start idx ring rx kind diag a b)
  refine ⟨(List.sublist_append_left _ _).trans hinv.order, ?_⟩
  exact h.runs.okSent_sublist.trans h.taken.sublist

/-- Job 1 is sent by QUIC and its window passes; job 2 is sent and the connection closes; job 3 is
sent on the HTTP standby and answered. -/
def closingInputs : List (Input (HttpConn RawConn Bytes) RawAnswer (QuicEngine Bool) Bool) :=
  let base := Input.quiet RawAnswer.silent false
  ParWorker.jobRound base ⟨1, 0⟩ 10 base { base with now := 600000000 } ++
    (ParWorker.jobRound base ⟨2, 0⟩ 20 { base with now := 600000001 } { base with quic := true } ++
      (ParWorker.jobRound base ⟨3, 0⟩ 30 { base with call := .takes 90 } base ++
        ParWorker.pollRound base { base with call := .arrives okResponse.bytes }))

theorem emitted_in_pop_order_closing :
    ∃ log p, ProviderRun ⟨HttpConn.api rawLibc plainTls, quinnApi flagQuinn⟩
        (startedPar 0 0 0 .rawLibc 0 (.quic ⟨some false, none⟩) (.http bareConn))
        [(⟨1, 0⟩, 10), (⟨2, 0⟩, 20), (⟨3, 0⟩, 30)] log p ∧
      (emitted log).map respKey = [(1, 10), (3, 30)] ∧
      (emitted log).map respKey <+ (okSent log).map key ∧
      okSent log <+ [(⟨1, 0⟩, 10), (⟨2, 0⟩, 20), (⟨3, 0⟩, 30)] := by
  obtain ⟨log, p, hrun, hemitted⟩ := ProviderRun.of_inputs
    ⟨HttpConn.api rawLibc plainTls, quinnApi flagQuinn⟩ (.quic ⟨some false, none⟩) (.http bareConn)
    closingInputs [(⟨1, 0⟩, 10), (⟨2, 0⟩, 20), (⟨3, 0⟩, 30)]
    (fun log _ => (emitted log).map respKey = [(1, 10), (3, 30)]) (by decide +kernel)
  exact ⟨log, p, hrun, hemitted, emitted_in_pop_order _ _ staysClosed_flagQuinn hrun⟩

end TxSender.Transport
