/-
# TxSender.Transport.Provider — all that can happen with one provider.

`Does` lists what one method call on a provider can do, with every branch of `send_to` and `reap` and
the condition under which it is taken; `Runs` is any sequence of such calls. The methods of
`ParWorker` do nothing else (`sendTo_runs`, `reap_runs`), so what holds in every `Runs` holds of every
run of the worker.
-/
import TxSender.Transport.Parallel

namespace TxSender.Transport

open TxSender.Lib

variable {H A Q K : Type}

namespace ParWorker

/-- The worker after `do_failover`. -/
def failedOver (w : ParWorker H Q) : ParWorker H Q :=
  { w with inflight := none, dualConn := w.dualConn.swap }

/-- What `do_failover` logs. -/
def failoverLog (w : ParWorker H Q) : List (Event H A) :=
  [.failover w.inflight w.active.quicInflight,
    .request { providerIdx := w.providerIdx, kind := w.connKind }]

theorem doFailover_eq_pair (w : ParWorker H Q) :
    (w.doFailover : ParWorker H Q × List (Event H A)) = (w.failedOver, w.failoverLog) := rfl

/-- The worker after the job was written on its active HTTP connection, now `h`. -/
def accepted (w : ParWorker H Q) (h : H) (job : Job) (sent : Nat) : ParWorker H Q :=
  { w.setActive (.http h) with inflight := some (job, sent), jobsSent := w.jobsSent + 1 }

end ParWorker

/-- An error of an HTTP connection that makes the worker fail over. -/
def Failing : TransportError → Prop
  | .io e => httpConnFailedIo e = true
  | _ => False

instance (e : TransportError) : Decidable (Failing e) :=
  match e with
  | .io e => inferInstanceAs (Decidable (httpConnFailedIo e = true))
  | .connect _ | .tls _ | .quic _ | .envelope _ | .closed | .failover | .tpa _ =>
      inferInstanceAs (Decidable False)

/-! ## One call -/

/-- What a call on provider `w` can log, and what it leaves. -/
inductive Does (api : ConnApi H A Q K) (w : ParWorker H Q) :
    List (Event H A) → ParWorker H Q → Prop
  /-- `send_to`: written on the active connection -/
  | sent {job : Job} {sent : Nat} {h h' : H} {tx : Bytes} {a : A} (hact : w.active = .http h)
      (hsend : api.http.sendTx h tx a = .ok (h', .ok ())) :
      Does api w [.taken job sent, .httpSend job sent h tx a (.ok ()), .ended job sent (.ok ())]
        (w.accepted h' job sent)
  /-- `send_to`: an error that is not taken for a failed connection -/
  | refused {job : Job} {sent : Nat} {h h' : H} {tx : Bytes} {a : A} {e : TransportError}
      (hact : w.active = .http h) (hsend : api.http.sendTx h tx a = .ok (h', .error e))
      (he : ¬ Failing e) :
      Does api w
        [.taken job sent, .httpSend job sent h tx a (.error e), .ended job sent (.error e)]
        (w.setActive (.http h'))
  /-- `send_to`: failed over, and written on the other connection -/
  | resent {job : Job} {sent : Nat} {h h' h₂ h₂' : H} {tx : Bytes} {a a₂ : A} {e : TransportError}
      (hact : w.active = .http h) (hsend : api.http.sendTx h tx a = .ok (h', .error e))
      (he : Failing e) (hact₂ : (w.setActive (.http h')).failedOver.active = .http h₂)
      (hsend₂ : api.http.sendTx h₂ tx a₂ = .ok (h₂', .ok ())) :
      Does api w
        ([.taken job sent, .httpSend job sent h tx a (.error e)] ++
          ((w.setActive (.http h')).failoverLog ++
            [.httpSend job sent h₂ tx a₂ (.ok ()), .ended job sent (.ok ())]))
        ((w.setActive (.http h')).failedOver.accepted h₂' job sent)
  /-- `send_to`: failed over, and refused by the other connection too -/
  | lost {job : Job} {sent : Nat} {h h' h₂ h₂' : H} {tx : Bytes} {a a₂ : A} {e e₂ : TransportError}
      (hact : w.active = .http h) (hsend : api.http.sendTx h tx a = .ok (h', .error e))
      (he : Failing e) (hact₂ : (w.setActive (.http h')).failedOver.active = .http h₂)
      (hsend₂ : api.http.sendTx h₂ tx a₂ = .ok (h₂', .error e₂)) :
      Does api w
        ([.taken job sent, .httpSend job sent h tx a (.error e)] ++
          ((w.setActive (.http h')).failoverLog ++
            [.httpSend job sent h₂ tx a₂ (.error e₂), .ended job sent (.error e₂)]))
        ((w.setActive (.http h')).failedOver.setActive (.http h₂'))
  /-- `send_to`: failed over to a QUIC connection, on which the job is not tried -/
  | dropped {job : Job} {sent : Nat} {h h' : H} {q : QuicConn Q} {tx : Bytes} {a : A}
      {e : TransportError} (hact : w.active = .http h)
      (hsend : api.http.sendTx h tx a = .ok (h', .error e)) (he : Failing e)
      (hact₂ : (w.setActive (.http h')).failedOver.active = .quic q) :
      Does api w
        ([.taken job sent, .httpSend job sent h tx a (.error e)] ++
          ((w.setActive (.http h')).failoverLog ++ [.ended job sent (.error e)]))
        (w.setActive (.http h')).failedOver
  /-- `send_to` on a QUIC connection -/
  | quicSent {job : Job} {sent : Nat} {q q' : QuicConn Q} {tx : Bytes} {now : Nat} {k : K}
      {r : Except TransportError Unit} (hact : w.active = .quic q)
      (hsend : q.sendTx api.quic job sent tx now k = (q', r)) :
      Does api w [.taken job sent, .quicSend job sent r, .ended job sent r]
        { w.setActive (.quic q') with jobsSent := w.jobsSent + 1 }
  | drove (a : A) (now : Nat) (k : K) : Does api w [] (w.setActive (w.active.drive api a now k))
  /-- `reap`: no response yet, or an error that is not taken for a failed connection -/
  | quiet {h h' : H} {a : A} {r : Except TransportError (Option Bytes)} (hact : w.active = .http h)
      (hpoll : api.http.pollResponse h a = .ok (h', r)) (hr : ∀ body, r ≠ .ok (some body))
      (he : ∀ e, r = .error e → ¬ Failing e) :
      Does api w [.polled h a r] (w.setActive (.http h'))
  /-- `reap`: a response, reported for the job in the slot -/
  | answered {h h' : H} {a : A} {body : Bytes} {job : Job} {sent tsc : Nat}
      (hact : w.active = .http h) (hpoll : api.http.pollResponse h a = .ok (h', .ok (some body)))
      (hslot : w.inflight = some (job, sent)) :
      Does api w
        [.polled h a (.ok (some body)),
          .push w.resultTx (bodyResp job (ProviderId.ofIndex w.providerIdx) sent tsc body)]
        { w.setActive (.http h') with inflight := none }
  /-- `reap`: a response while the slot is empty -/
  | unasked {h h' : H} {a : A} {body : Bytes} (hact : w.active = .http h)
      (hpoll : api.http.pollResponse h a = .ok (h', .ok (some body))) (hslot : w.inflight = none) :
      Does api w [.polled h a (.ok (some body))] (w.setActive (.http h'))
  /-- `reap`: the connection failed -/
  | failed {h h' : H} {a : A} {e : TransportError} (hact : w.active = .http h)
      (hpoll : api.http.pollResponse h a = .ok (h', .error e)) (he : Failing e) :
      Does api w (.polled h a (.error e) :: (w.setActive (.http h')).failoverLog)
        (w.setActive (.http h')).failedOver
  /-- `reap`: the QUIC connection is closed -/
  | died {q : QuicConn Q} (hact : w.active = .quic q) (hdead : q.isDead api.quic = true) :
      Does api w (.dead :: w.failoverLog) w.failedOver
  /-- `reap`: the window of the QUIC job has passed -/
  | expired {q q' : QuicConn Q} {now id sent tsc : Nat} (hact : w.active = .quic q)
      (hdead : q.isDead api.quic = false) (hwin : q.pollNorespWindow now = (q', some (id, sent))) :
      Does api w [.push w.resultTx (windowResp id (ProviderId.ofIndex w.providerIdx) sent tsc)]
        (w.setActive (.quic q'))
  /-- `reap`: nothing to report on the QUIC connection -/
  | waiting {q q' : QuicConn Q} {now : Nat} (hact : w.active = .quic q)
      (hdead : q.isDead api.quic = false) (hwin : q.pollNorespWindow now = (q', none)) :
      Does api w [] (w.setActive (.quic q'))
  | installed (c : Built H Q) :
      Does api w [.install] { w with dualConn := w.dualConn.replaceStandby c.state }
  | published : Does api w w.publishDiag w

/-- Any number of calls, with the log they write; the worker counts its rounds in between. -/
inductive Runs (api : ConnApi H A Q K) (w₀ : ParWorker H Q) :
    List (Event H A) → ParWorker H Q → Prop
  | start : Runs api w₀ [] w₀
  | step {log evs : List (Event H A)} {w w' : ParWorker H Q} : Runs api w₀ log w →
      Does api w evs w' → Runs api w₀ (log ++ evs) w'
  | tick {log : List (Event H A)} {w : ParWorker H Q} : Runs api w₀ log w →
      Runs api w₀ log { w with tick := w.tick + 1 }

theorem Does.runs {api : ConnApi H A Q K} {w w' : ParWorker H Q} {evs : List (Event H A)}
    (h : Does api w evs w') : Runs api w evs w' := by
  have := Runs.step .start h
  rwa [List.nil_append] at this

theorem Runs.trans {api : ConnApi H A Q K} {w₀ w w' : ParWorker H Q} {log log' : List (Event H A)}
    (h : Runs api w₀ log w) (h' : Runs api w log' w') : Runs api w₀ (log ++ log') w' := by
  induction h' with
  | start => rwa [List.append_nil]
  | step _ hdoes ih =>
      rw [← List.append_assoc]
      exact .step ih hdoes
  | tick _ ih => exact .tick ih

/-- What no call changes: which provider, rings and channels the worker serves, and its round. -/
structure ParWorker.SameFrame (p p' : ParWorker H Q) : Prop where
  providerIdx : p'.providerIdx = p.providerIdx
  resultTx : p'.resultTx = p.resultTx
  reconnectRespRx : p'.reconnectRespRx = p.reconnectRespRx
  connKind : p'.connKind = p.connKind
  tick : p'.tick = p.tick
  diag : p'.diag = p.diag

theorem Does.sameFrame {api : ConnApi H A Q K} {w w' : ParWorker H Q} {evs : List (Event H A)}
    (h : Does api w evs w') : w.SameFrame w' := by
  cases h <;> exact ⟨rfl, rfl, rfl, rfl, rfl, rfl⟩

/-- What no call and no round changes. -/
structure ParWorker.SameWires (p p' : ParWorker H Q) : Prop where
  providerIdx : p'.providerIdx = p.providerIdx
  resultTx : p'.resultTx = p.resultTx
  reconnectRespRx : p'.reconnectRespRx = p.reconnectRespRx
  connKind : p'.connKind = p.connKind

theorem Runs.sameWires {api : ConnApi H A Q K} {w w' : ParWorker H Q} {log : List (Event H A)}
    (h : Runs api w log w') : w.SameWires w' := by
  induction h with
  | start => exact ⟨rfl, rfl, rfl, rfl⟩
  | step _ hdoes ih =>
      have hframe := hdoes.sameFrame
      exact ⟨hframe.providerIdx.trans ih.providerIdx, hframe.resultTx.trans ih.resultTx,
        hframe.reconnectRespRx.trans ih.reconnectRespRx, hframe.connKind.trans ih.connKind⟩
  | tick _ ih => exact ⟨ih.providerIdx, ih.resultTx, ih.reconnectRespRx, ih.connKind⟩

/-! ## The methods -/

namespace ParWorker

variable {api : ConnApi H A Q K} {w w' : ParWorker H Q} {evs : List (Event H A)}

/-- What one `send_tx` leaves. -/
theorem attempt_cases {h : H} {job : Job} {sent : Nat} {tx : Bytes} {a : A}
    {r : Except TransportError Unit} (hat : w.attempt api h job sent tx a = .ok (w', r)) :
    ∃ h', api.http.sendTx h tx a = .ok (h', r) ∧
      ((r = .ok () ∧ w' = w.accepted h' job sent) ∨
        ∃ e, r = .error e ∧ w' = w.setActive (.http h')) := by
  rw [attempt] at hat
  obtain ⟨⟨h', r'⟩, hsend, hat⟩ := bind_eq_ok.mp hat
  cases r' with
  | ok u =>
      obtain ⟨rfl, rfl⟩ := Prod.mk.inj (Except.ok.inj hat)
      exact ⟨h', hsend, Or.inl ⟨rfl, rfl⟩⟩
  | error e =>
      obtain ⟨rfl, rfl⟩ := Prod.mk.inj (Except.ok.inj hat)
      exact ⟨h', hsend, Or.inr ⟨e, rfl, rfl⟩⟩

/-- The second half of `send_to` on a failed connection. -/
theorem sendAgain_cases {job : Job} {sent : Nat} {tx : Bytes} {a : A} {e : IoError}
    (h : w.sendAgain api job sent tx a e = .ok (w', evs)) :
    (∃ h₂ h₂', w.failedOver.active = .http h₂ ∧ api.http.sendTx h₂ tx a = .ok (h₂', .ok ()) ∧
      w' = w.failedOver.accepted h₂' job sent ∧
      evs = w.failoverLog ++ [.httpSend job sent h₂ tx a (.ok ()), .ended job sent (.ok ())]) ∨
    (∃ h₂ h₂' e₂, w.failedOver.active = .http h₂ ∧
      api.http.sendTx h₂ tx a = .ok (h₂', .error e₂) ∧
      w' = w.failedOver.setActive (.http h₂') ∧
      evs = w.failoverLog ++ [.httpSend job sent h₂ tx a (.error e₂), .ended job sent (.error e₂)]) ∨
    (∃ q, w.failedOver.active = .quic q ∧ w' = w.failedOver ∧
      evs = w.failoverLog ++ [.ended job sent (.error (.io e))]) := by
  rw [sendAgain, doFailover_eq_pair] at h
  simp only at h
  cases hact : w.failedOver.active with
  | quic q =>
      rw [hact] at h
      obtain ⟨rfl, rfl⟩ := Prod.mk.inj (Except.ok.inj h)
      exact Or.inr (Or.inr ⟨q, rfl, rfl, rfl⟩)
  | http h₂ =>
      rw [hact] at h
      obtain ⟨⟨w₁, r⟩, hat, h⟩ := bind_eq_ok.mp h
      obtain ⟨rfl, rfl⟩ := Prod.mk.inj (Except.ok.inj h)
      obtain ⟨h₂', hsend, ⟨rfl, rfl⟩ | ⟨e₂, rfl, rfl⟩⟩ := attempt_cases hat
      · exact Or.inl ⟨h₂, h₂', rfl, hsend, rfl, rfl⟩
      · exact Or.inr (Or.inl ⟨h₂, h₂', e₂, rfl, hsend, rfl, rfl⟩)

theorem sendHttp_does {h : H} {job : Job} {sent : Nat} {tx : Bytes} {inp : Input H A Q K}
    (hact : w.active = .http h) (hrun : w.sendHttp api h job sent tx inp = .ok (w', evs)) :
    Does api w (.taken job sent :: evs) w' := by
  rw [sendHttp] at hrun
  obtain ⟨⟨w₁, r⟩, hat, hrun⟩ := bind_eq_ok.mp hrun
  obtain ⟨h', hsend, ⟨rfl, rfl⟩ | ⟨e, rfl, rfl⟩⟩ := attempt_cases hat
  · obtain ⟨rfl, rfl⟩ := Prod.mk.inj (Except.ok.inj hrun)
    exact .sent hact hsend
  · by_cases he : Failing e
    · -- only an I/O error of one of the four kinds gets here
      obtain ⟨io, rfl, hio⟩ : ∃ io, e = .io io ∧ httpConnFailedIo io = true := by
        cases e <;> first | exact ⟨_, rfl, he⟩ | exact he.elim
      simp only [if_pos hio] at hrun
      obtain ⟨⟨w₂, evs₂⟩, hagain, hrun⟩ := bind_eq_ok.mp hrun
      obtain ⟨rfl, rfl⟩ := Prod.mk.inj (Except.ok.inj hrun)
      rcases sendAgain_cases hagain with ⟨h₂, h₂', hact₂, hsend₂, rfl, rfl⟩ |
        ⟨h₂, h₂', e₂, hact₂, hsend₂, rfl, rfl⟩ | ⟨q, hact₂, rfl, rfl⟩
      · exact .resent hact hsend he hact₂ hsend₂
      · exact .lost hact hsend he hact₂ hsend₂
      · exact .dropped hact hsend he hact₂
    · have hend : evs = [.httpSend job sent h tx inp.call (.error e), .ended job sent (.error e)] ∧
          w' = w.setActive (.http h') := by
        cases e with
        | io io =>
            simp only [if_neg (show ¬ httpConnFailedIo io = true from he)] at hrun
            obtain ⟨rfl, rfl⟩ := Prod.mk.inj (Except.ok.inj hrun)
            exact ⟨rfl, rfl⟩
        | _ =>
            obtain ⟨rfl, rfl⟩ := Prod.mk.inj (Except.ok.inj hrun)
            exact ⟨rfl, rfl⟩
      obtain ⟨rfl, rfl⟩ := hend
      exact .refused hact hsend he

/-- Every branch of `send_to`. -/
theorem sendTo_does {job : Job} {sent : Nat} {inp : Input H A Q K}
    (h : w.sendTo api job sent inp = .ok (w', evs)) : Does api w evs w' := by
  rw [sendTo] at h
  obtain ⟨tx, -, h⟩ := bind_eq_ok.mp h
  cases hact : w.active with
  | http hc =>
      rw [hact] at h
      obtain ⟨⟨w₁, evs₁⟩, hsend, h⟩ := bind_eq_ok.mp h
      obtain ⟨rfl, rfl⟩ := Prod.mk.inj (Except.ok.inj h)
      exact sendHttp_does hact hsend
  | quic q =>
      rw [hact] at h
      obtain ⟨rfl, rfl⟩ := Prod.mk.inj (Except.ok.inj h)
      exact .quicSent hact rfl

theorem afterPoll_does {h h' : H} {a : A} {tsc : Nat} {r : Except TransportError (Option Bytes)}
    (hact : w.active = .http h) (hpoll : api.http.pollResponse h a = .ok (h', r)) :
    Does api w
      (.polled h a r ::
        ((w.setActive (.http h')).afterPoll (ProviderId.ofIndex w.providerIdx) tsc r).2)
      ((w.setActive (.http h')).afterPoll (A := A) (ProviderId.ofIndex w.providerIdx) tsc r).1 := by
  cases r with
  | ok found =>
      cases found with
      | none => exact .quiet hact hpoll (by simp) (by simp)
      | some body =>
          have hkeep : (w.setActive (.http h')).inflight = w.inflight := rfl
          cases hslot : w.inflight with
          | none =>
              simp only [afterPoll, hkeep, hslot]
              exact .unasked hact hpoll hslot
          | some entry =>
              simp only [afterPoll, hkeep, hslot]
              exact .answered hact hpoll hslot
  | error e =>
      by_cases he : Failing e
      · obtain ⟨io, rfl, hio⟩ : ∃ io, e = .io io ∧ httpConnFailedIo io = true := by
          cases e <;> first | exact ⟨_, rfl, he⟩ | exact he.elim
        simp only [afterPoll, if_pos hio]
        exact .failed hact hpoll he
      · have hquiet := Does.quiet hact hpoll (by simp) (fun e' heq => by
          obtain rfl := Except.error.inj heq
          exact he)
        cases e with
        | io io =>
            simp only [afterPoll, if_neg (show ¬ httpConnFailedIo io = true from he)]
            exact hquiet
        | _ => exact hquiet

theorem reapQuic_does {q : QuicConn Q} {inp : Input H A Q K} (hact : w.active = .quic q) :
    Does api w (w.reapQuic api q (ProviderId.ofIndex w.providerIdx) inp).2
      (w.reapQuic api q (ProviderId.ofIndex w.providerIdx) inp).1 := by
  unfold reapQuic
  by_cases hdead : q.isDead api.quic = true
  · rw [if_pos hdead]
    exact .died hact hdead
  · rw [if_neg hdead]
    rw [Bool.not_eq_true] at hdead
    rcases hwin : q.pollNorespWindow inp.now with ⟨q', _ | ⟨id, sent⟩⟩
    · exact .waiting hact hdead hwin
    · exact .expired hact hdead hwin

/-- Every branch of `reap`. -/
theorem reap_does {inp : Input H A Q K}
    (h : w.reap api (ProviderId.ofIndex w.providerIdx) inp = .ok (w', evs)) :
    Does api w evs w' := by
  rw [reap] at h
  cases hact : w.active with
  | quic q =>
      rw [hact] at h
      have heq := Except.ok.inj h
      have hdoes : Does api w (w.reapQuic api q (ProviderId.ofIndex w.providerIdx) inp).2
          (w.reapQuic api q (ProviderId.ofIndex w.providerIdx) inp).1 := reapQuic_does hact
      rw [heq] at hdoes
      exact hdoes
  | http hc =>
      rw [hact] at h
      obtain ⟨⟨h', r⟩, hpoll, h⟩ := bind_eq_ok.mp h
      obtain ⟨rfl, rfl⟩ := Prod.mk.inj (Except.ok.inj h)
      exact afterPoll_does hact hpoll

end ParWorker

/-! ## The jobs taken -/

/-- The jobs `send_to` was called with. -/
def takenJobs (log : List (Event H A)) : List (Job × Nat) :=
  log.filterMap fun e => match e with
    | .taken job sent => some (job, sent)
    | _ => none

theorem takenJobs_append (l l' : List (Event H A)) :
    takenJobs (l ++ l') = takenJobs l ++ takenJobs l' := List.filterMap_append

/-- A call takes a job if its log begins with one, and then only that one. -/
theorem Does.taken_cons {api : ConnApi H A Q K} {w w' : ParWorker H Q} {job : Job} {sent : Nat}
    {evs : List (Event H A)} (h : Does api w (.taken job sent :: evs) w') :
    takenJobs (.taken job sent :: evs) = [(job, sent)] := by
  cases h <;> rfl

theorem ParWorker.sendTo_log {api : ConnApi H A Q K} {w w' : ParWorker H Q} {job : Job} {sent : Nat}
    {inp : Input H A Q K} {evs : List (Event H A)} (h : w.sendTo api job sent inp = .ok (w', evs)) :
    ∃ rest, evs = .taken job sent :: rest := by
  rw [sendTo] at h
  obtain ⟨tx, -, h⟩ := bind_eq_ok.mp h
  cases hact : w.active with
  | http hc =>
      rw [hact] at h
      obtain ⟨v, -, h⟩ := bind_eq_ok.mp h
      exact ⟨v.2, (Prod.mk.inj (Except.ok.inj h)).2.symm⟩
  | quic q =>
      rw [hact] at h
      exact ⟨_, (Prod.mk.inj (Except.ok.inj h)).2.symm⟩

theorem ParWorker.sendTo_taken {api : ConnApi H A Q K} {w w' : ParWorker H Q} {job : Job}
    {sent : Nat} {inp : Input H A Q K} {evs : List (Event H A)}
    (h : w.sendTo api job sent inp = .ok (w', evs)) : takenJobs evs = [(job, sent)] := by
  obtain ⟨rest, rfl⟩ := sendTo_log h
  exact (sendTo_does h).taken_cons

/-- A call that logs an installed standby logs nothing else. -/
theorem Does.eq_install {api : ConnApi H A Q K} {w w' : ParWorker H Q} {evs : List (Event H A)}
    (h : Does api w evs w') (hm : .install ∈ evs) : evs = [.install] := by
  cases h with
  | installed => rfl
  | _ => simp [ParWorker.failoverLog, ParWorker.publishDiag] at hm

theorem ParWorker.sendTo_not_install {api : ConnApi H A Q K} {w w' : ParWorker H Q} {job : Job}
    {sent : Nat} {inp : Input H A Q K} {evs : List (Event H A)}
    (h : w.sendTo api job sent inp = .ok (w', evs)) : .install ∉ evs := by
  intro hm
  obtain ⟨rest, rfl⟩ := sendTo_log h
  cases (sendTo_does h).eq_install hm

/-- Neither takes a job nor installs a connection. -/
def FromReap : Event H A → Prop
  | .taken _ _ | .install => False
  | _ => True

theorem ParWorker.reap_log {api : ConnApi H A Q K} {w w' : ParWorker H Q} {pid : ProviderId}
    {inp : Input H A Q K} {evs : List (Event H A)} (h : w.reap api pid inp = .ok (w', evs)) :
    ∀ e ∈ evs, FromReap e := by
  have hpoll : ∀ (v : ParWorker H Q) (r : Except TransportError (Option Bytes)),
      ∀ e ∈ (v.afterPoll (A := A) pid inp.tsc r).2, FromReap e := by
    intro v r
    unfold afterPoll
    split
    · split <;> simp [FromReap]
    · split <;> simp [FromReap, doFailover]
    · simp
  rw [reap] at h
  cases hact : w.active with
  | http hc =>
      rw [hact] at h
      obtain ⟨⟨h', r⟩, -, h⟩ := bind_eq_ok.mp h
      obtain ⟨-, rfl⟩ := Prod.mk.inj (Except.ok.inj h)
      exact List.forall_mem_cons.mpr ⟨trivial, hpoll _ r⟩
  | quic q =>
      rw [hact] at h
      have heq : w.reapQuic api q pid inp = (w', evs) := Except.ok.inj h
      have hquic : ∀ e ∈ (w.reapQuic api q pid inp).2, FromReap e := by
        unfold reapQuic
        split
        · simp [FromReap, doFailover]
        · split <;> simp [FromReap]
      rw [heq] at hquic
      exact hquic

theorem ParWorker.reap_taken {api : ConnApi H A Q K} {w w' : ParWorker H Q} {pid : ProviderId}
    {inp : Input H A Q K} {evs : List (Event H A)} (h : w.reap api pid inp = .ok (w', evs)) :
    takenJobs evs = [] := by
  refine List.filterMap_eq_nil_iff.mpr fun e he => ?_
  have hfrom := reap_log h e he
  cases e with
  | taken => exact hfrom.elim
  | _ => rfl

/-! ## One step of a loop -/

/-- What one step of either loop does for a provider; `got` is what the step received from a response
channel. -/
inductive Act (api : ConnApi H A Q K) (got : Option (ReconnectResp H Q)) (p : ParWorker H Q) :
    List (Event H A) → ParWorker H Q → Prop
  | stay : Act api got p [] p
  | tick : Act api got p [] { p with tick := p.tick + 1 }
  | kick (a : A) (now : Nat) (k : K) :
      Act api got p [] (p.setActive (p.active.drive api a now k))
  | send {evs : List (Event H A)} {p' : ParWorker H Q} (hdoes : Does api p evs p')
      (hevs : .install ∉ evs) : Act api got p evs p'
  | reap {evs : List (Event H A)} {p' : ParWorker H Q} (a : A) (now : Nat) (k : K)
      (hdoes : Does api (p.setActive (p.active.drive api a now k)) evs p')
      (hevs : .install ∉ evs) : Act api got p evs p'
  /-- a standby arrived; `ParWorker` publishes its diagnostics in the same step -/
  | install {idx : Nat} {c : Built H Q} {tail : List (Event H A)}
      (hgot : got = some ⟨idx, .conn c⟩) (htail : tail = [] ∨ tail = p.publishDiag) :
      Act api got p (.install :: tail) { p with dualConn := p.dualConn.replaceStandby c.state }
  | publish : Act api got p p.publishDiag p

theorem Act.runs {api : ConnApi H A Q K} {got : Option (ReconnectResp H Q)} {p p' : ParWorker H Q}
    {evs : List (Event H A)} (h : Act api got p evs p') : Runs api p evs p' := by
  cases h with
  | stay => exact .start
  | tick => exact .tick .start
  | kick a now k => exact (Does.drove a now k).runs
  | send hdoes => exact hdoes.runs
  | reap a now k hdoes => exact (Does.drove a now k).runs.trans hdoes.runs
  | install _ htail =>
      rcases htail with rfl | rfl
      · exact (Does.installed _).runs
      · exact (Does.installed _).runs.trans Does.published.runs
  | publish => exact Does.published.runs

/-- Only a received connection is installed. -/
theorem Act.got_of_install {api : ConnApi H A Q K} {got : Option (ReconnectResp H Q)}
    {p p' : ParWorker H Q} {evs : List (Event H A)} (h : Act api got p evs p')
    (hm : .install ∈ evs) : ∃ r, got = some r := by
  cases h with
  | send _ hevs => exact absurd hm hevs
  | reap _ _ _ _ hevs => exact absurd hm hevs
  | install hgot => exact ⟨_, hgot⟩
  | _ => simp [ParWorker.publishDiag] at hm

/-- A request is for the provider itself. -/
theorem Does.request_eq {api : ConnApi H A Q K} {w w' : ParWorker H Q} {evs : List (Event H A)}
    {req : ReconnectReq} (h : Does api w evs w') (hm : .request req ∈ evs) :
    req = ⟨w.providerIdx, w.connKind⟩ := by
  cases h <;> simp [ParWorker.failoverLog, ParWorker.publishDiag] at hm <;> exact hm

theorem Act.request_eq {api : ConnApi H A Q K} {got : Option (ReconnectResp H Q)}
    {p p' : ParWorker H Q} {evs : List (Event H A)} {req : ReconnectReq} (h : Act api got p evs p')
    (hm : .request req ∈ evs) : req = ⟨p.providerIdx, p.connKind⟩ := by
  cases h with
  | send hdoes => exact hdoes.request_eq hm
  | reap _ _ _ hdoes => exact hdoes.request_eq hm
  | install _ htail =>
      rcases htail with rfl | rfl <;> simp [ParWorker.publishDiag] at hm
  | _ => simp [ParWorker.publishDiag] at hm

end TxSender.Transport
