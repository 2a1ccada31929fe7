/-
# TxSender.Transport.InFlight — the slot and the wire (`RawLibc`).

A job in the worker's slot has its whole request on the connection that is active now, written there
since it last became active; and the whole request of a job is written at most once in a run. Both
come from `submitFrom_spec`: a `send_tx` that returns an error has left an incomplete request behind,
so trying again on the standby cannot make two complete ones.
-/
import TxSender.Backend.RawLibc
import TxSender.Transport.Projection

namespace TxSender.Transport

open TxSender.Lib
open TxSender.Http
open TxSender.Protocol
open TxSender.Backend
open scoped List

variable {T Q K : Type}

/-! ## One request -/

/-- The calls of a worker whose HTTP connections are `RawLibc` sockets. -/
def rawApi (tls : Tls T) (quic : QuicApi Q K) : ConnApi (HttpConn RawConn T) RawAnswer Q K where
  http := HttpConn.api rawLibc tls
  quic := quic

/-- The ciphertext of the request for `tx`. -/
def cipherOf (tls : Tls T) (h : HttpConn RawConn T) (tx : Bytes) : Option Bytes :=
  match h.engine.encode tls tx with
  | .ok (_, .ok cipher) => some cipher
  | _ => none

/-- During this `send_tx`, the kernel accepted the whole request. -/
def wroteAll (tls : Tls T) (h : HttpConn RawConn T) (tx : Bytes) (a : RawAnswer) : Bool :=
  match cipherOf tls h tx with
  | none => false
  | some cipher =>
      match submit h.io cipher a with
      | .ok (io, _) => io.written == h.io.written ++ cipher
      | .error _ => false

/-- **`send_tx` succeeds exactly when the whole request was accepted**, and never takes bytes back. -/
theorem sendTx_spec {tls : Tls T} {h h' : HttpConn RawConn T} {tx : Bytes} {a : RawAnswer}
    {r : Except TransportError Unit} (hsend : HttpConn.sendTx rawLibc tls h tx a = .ok (h', r)) :
    h.io.written <+: h'.io.written ∧ (wroteAll tls h tx a = true ↔ r = .ok ()) ∧
      (r = .ok () → ∃ cipher, cipherOf tls h tx = some cipher ∧
        h'.io.written = h.io.written ++ cipher) := by
  rw [HttpConn.sendTx] at hsend
  obtain ⟨⟨engine, enc⟩, henc, hsend⟩ := bind_eq_ok.mp hsend
  cases enc with
  | error e =>
      obtain ⟨rfl, rfl⟩ := Prod.mk.inj (Except.ok.inj hsend)
      have hnone : cipherOf tls h tx = none := by rw [cipherOf, henc]
      refine ⟨List.prefix_refl _, ?_, by simp⟩
      simp [wroteAll, hnone]
  | ok cipher =>
      obtain ⟨⟨io, sub⟩, hsub, hsend⟩ := bind_eq_ok.mp hsend
      obtain ⟨rfl, rfl⟩ := Prod.mk.inj (Except.ok.inj hsend)
      have hsub' : submit h.io cipher a = .ok (io, sub) := hsub
      have hsome : cipherOf tls h tx = some cipher := by rw [cipherOf, henc]
      obtain ⟨more, hw, -, hiff⟩ := submitFrom_spec hsub'
      rw [List.drop_zero] at hiff
      have hok : sub.mapError TransportError.io = .ok () ↔ sub = .ok () := by
        cases sub <;> simp [Except.mapError]
      have hall : wroteAll tls h tx a = true ↔ more = cipher := by
        simp [wroteAll, hsome, hsub', hw]
      refine ⟨⟨more, hw.symm⟩, by rw [hall, hok, hiff], ?_⟩
      intro hr
      exact ⟨cipher, hsome, by rw [hw, hiff.mp (hok.mp hr)]⟩

theorem pollResponse_io {tls : Tls T} {h h' : HttpConn RawConn T} {a : RawAnswer}
    {r : Except TransportError (Option Bytes)}
    (hpoll : HttpConn.pollResponse rawLibc tls h a = .ok (h', r)) : h'.io = h.io := by
  rw [HttpConn.pollResponse] at hpoll
  obtain ⟨⟨io, rx⟩, hrecv, hpoll⟩ := bind_eq_ok.mp hpoll
  have hio : io = h.io := pollRecvFrom_written hrecv
  cases rx with
  | error e =>
      obtain ⟨rfl, -⟩ := Prod.mk.inj (Except.ok.inj hpoll)
      exact hio
  | ok bytes =>
      obtain ⟨v, -, hpoll⟩ := bind_eq_ok.mp hpoll
      obtain ⟨rfl, -⟩ := Prod.mk.inj (Except.ok.inj hpoll)
      exact hio

/-! ## The slot -/

/-- The event is a failover. -/
def IsFailover {H A : Type} : Event H A → Prop
  | .failover _ _ => True
  | _ => False

/-- The whole request of the job was written since the last failover, and the bytes the kernel has
accepted on `now` begin with those that were there after it. -/
def OnWire (tls : Tls T) (log : List (Event (HttpConn RawConn T) RawAnswer)) (job : Job) (sent : Nat)
    (now : HttpConn RawConn T) : Prop :=
  ∃ l₁ l₂ h tx a cipher, log = l₁ ++ .httpSend job sent h tx a (.ok ()) :: l₂ ∧
    (∀ e ∈ l₂, ¬ IsFailover e) ∧ cipherOf tls h tx = some cipher ∧ wroteAll tls h tx a = true ∧
    h.io.written ++ cipher <+: now.io.written

theorem OnWire.grow {tls : Tls T} {log evs : List (Event (HttpConn RawConn T) RawAnswer)} {job : Job}
    {sent : Nat} {now now' : HttpConn RawConn T} (h : OnWire tls log job sent now)
    (hevs : ∀ e ∈ evs, ¬ IsFailover e) (hio : now.io.written <+: now'.io.written) :
    OnWire tls (log ++ evs) job sent now' := by
  obtain ⟨l₁, l₂, hc, tx, a, cipher, rfl, hl₂, hcipher, hall, hpre⟩ := h
  refine ⟨l₁, l₂ ++ evs, hc, tx, a, cipher, by simp, ?_, hcipher, hall, hpre.trans hio⟩
  intro e he
  rcases List.mem_append.mp he with he | he
  · exact hl₂ e he
  · exact hevs e he

/-- The slot's job is on the wire of the active connection. -/
def Coherent (tls : Tls T) (log : List (Event (HttpConn RawConn T) RawAnswer))
    (w : ParWorker (HttpConn RawConn T) Q) : Prop :=
  ∀ job sent, w.inflight = some (job, sent) →
    ∃ now, w.active = .http now ∧ OnWire tls log job sent now

/-- A call that works on the active connection, and neither fails over nor fills the slot. -/
theorem Coherent.keep {tls : Tls T} {log evs : List (Event (HttpConn RawConn T) RawAnswer)}
    {w w' : ParWorker (HttpConn RawConn T) Q} {hc h' : HttpConn RawConn T} (h : Coherent tls log w)
    (hact : w.active = .http hc) (hact' : w'.active = .http h')
    (hslot : w'.inflight = none ∨ w'.inflight = w.inflight)
    (hio : hc.io.written <+: h'.io.written) (hevs : ∀ e ∈ evs, ¬ IsFailover e) :
    Coherent tls (log ++ evs) w' := by
  intro job sent hjob
  rcases hslot with hnone | hsame
  · rw [hnone] at hjob
    cases hjob
  · obtain ⟨now, hnow, hwire⟩ := h job sent (hsame ▸ hjob)
    rw [hact] at hnow
    obtain rfl := ConnState.http.inj hnow
    exact ⟨h', hact', hwire.grow hevs hio⟩

/-- With an empty slot there is nothing to show. -/
theorem coherent_of_empty {tls : Tls T} {log : List (Event (HttpConn RawConn T) RawAnswer)}
    {w : ParWorker (HttpConn RawConn T) Q} (h : w.inflight = none) : Coherent tls log w := by
  intro job sent hjob
  rw [h] at hjob
  cases hjob

/-- While a QUIC connection is active the slot is empty. -/
theorem Coherent.empty_of_quic {tls : Tls T} {log : List (Event (HttpConn RawConn T) RawAnswer)}
    {w : ParWorker (HttpConn RawConn T) Q} {q : QuicConn Q} (h : Coherent tls log w)
    (hact : w.active = .quic q) : w.inflight = none := by
  cases hslot : w.inflight with
  | none => rfl
  | some entry =>
      obtain ⟨now, hnow, -⟩ := h entry.1 entry.2 hslot
      rw [hact] at hnow
      cases hnow

/-- The end of a `send_to` that wrote the job on the connection active now. -/
theorem coherent_accepted {tls : Tls T} {h h' : HttpConn RawConn T} {tx : Bytes} {a : RawAnswer}
    (log : List (Event (HttpConn RawConn T) RawAnswer)) (w : ParWorker (HttpConn RawConn T) Q)
    (job : Job) (sent : Nat) (hsend : HttpConn.sendTx rawLibc tls h tx a = .ok (h', .ok ())) :
    Coherent tls (log ++ [.httpSend job sent h tx a (.ok ()), .ended job sent (.ok ())])
      (w.accepted h' job sent) := by
  intro job' sent' hslot
  obtain ⟨rfl, rfl⟩ := Prod.mk.inj (Option.some.inj hslot)
  obtain ⟨-, hall, hcipher⟩ := sendTx_spec hsend
  obtain ⟨cipher, hc, hw⟩ := hcipher rfl
  refine ⟨h', rfl, log, [.ended job sent (.ok ())], h, tx, a, cipher, rfl, ?_, hc, hall.mpr rfl, ?_⟩
  · simp [IsFailover]
  · rw [hw]

theorem Does.coherent {tls : Tls T} {quic : QuicApi Q K} {w w' : ParWorker (HttpConn RawConn T) Q}
    {log evs : List (Event (HttpConn RawConn T) RawAnswer)} (h : Coherent tls log w)
    (hdoes : Does (rawApi tls quic) w evs w') : Coherent tls (log ++ evs) w' := by
  cases hdoes with
  | @sent job sent _ _ _ _ hact hsend =>
      rw [List.append_cons]
      exact coherent_accepted _ w job sent hsend
  | refused hact hsend he =>
      exact h.keep hact rfl (.inr rfl) (sendTx_spec hsend).1 (by simp [IsFailover])
  | resent hact hsend he hact₂ hsend₂ =>
      rw [← List.append_assoc, ← List.append_assoc]
      exact coherent_accepted _ _ _ _ hsend₂
  | lost => exact coherent_of_empty rfl
  | dropped => exact coherent_of_empty rfl
  | quicSent hact => exact coherent_of_empty (h.empty_of_quic hact)
  | drove a now k =>
      cases hact : w.active with
      | http hc =>
          have hact' : (w.setActive (.http hc)).active = .http hc := rfl
          exact h.keep hact hact' (.inr rfl) (List.prefix_refl _) (by simp)
      | quic q => exact coherent_of_empty (h.empty_of_quic hact)
  | quiet hact hpoll =>
      exact h.keep hact rfl (.inr rfl) (by rw [pollResponse_io hpoll]) (by simp [IsFailover])
  | answered hact hpoll => exact coherent_of_empty rfl
  | unasked hact hpoll hslot => exact coherent_of_empty hslot
  | failed => exact coherent_of_empty rfl
  | died => exact coherent_of_empty rfl
  | expired hact => exact coherent_of_empty (h.empty_of_quic hact)
  | waiting hact => exact coherent_of_empty (h.empty_of_quic hact)
  | installed c =>
      cases hact : w.active with
      | http hc => exact h.keep hact hact (.inr rfl) (List.prefix_refl _) (by simp [IsFailover])
      | quic q => exact coherent_of_empty (h.empty_of_quic hact)
  | published =>
      cases hact : w.active with
      | http hc =>
          refine h.keep hact hact (.inr rfl) (List.prefix_refl _) ?_
          simp [ParWorker.publishDiag, IsFailover]
      | quic q => exact coherent_of_empty (h.empty_of_quic hact)

theorem Runs.coherent {tls : Tls T} {quic : QuicApi Q K} {w₀ w : ParWorker (HttpConn RawConn T) Q}
    {log : List (Event (HttpConn RawConn T) RawAnswer)} (hw₀ : w₀.inflight = none)
    (h : Runs (rawApi tls quic) w₀ log w) : Coherent tls log w := by
  induction h with
  | start => exact coherent_of_empty hw₀
  | step _ hdoes ih => exact hdoes.coherent ih
  | tick _ ih => exact ih

/-! ## Whole requests -/

/-- The jobs of which the kernel accepted a whole request, once for each time. -/
def wholeRequests (tls : Tls T) (log : List (Event (HttpConn RawConn T) RawAnswer)) :
    List (Job × Nat) :=
  log.filterMap fun
    | .httpSend job sent h tx a _ => if wroteAll tls h tx a then some (job, sent) else none
    | _ => none

theorem wholeRequests_append (tls : Tls T)
    (log log' : List (Event (HttpConn RawConn T) RawAnswer)) :
    wholeRequests tls (log ++ log') = wholeRequests tls log ++ wholeRequests tls log' :=
  List.filterMap_append

section Wrote

variable {tls : Tls T} {quic : QuicApi Q K} {h h' : HttpConn RawConn T} {tx : Bytes} {a : RawAnswer}
  {log : List (Event (HttpConn RawConn T) RawAnswer)} {r : Except TransportError Unit}

/-- A `send_tx` that succeeded wrote the request. -/
theorem wholeRequests_ok (hsend : (rawApi tls quic).http.sendTx h tx a = .ok (h', .ok ()))
    (job : Job) (sent : Nat) :
    wholeRequests tls (.httpSend job sent h tx a r :: log) = (job, sent) :: wholeRequests tls log :=
  List.filterMap_cons_some (if_pos ((sendTx_spec hsend).2.1.mpr rfl))

/-- One that failed did not. -/
theorem wholeRequests_error {e : TransportError}
    (hsend : (rawApi tls quic).http.sendTx h tx a = .ok (h', .error e)) (job : Job) (sent : Nat) :
    wholeRequests tls (.httpSend job sent h tx a r :: log) = wholeRequests tls log := by
  apply List.filterMap_cons_none
  apply if_neg
  intro hwrote
  cases (sendTx_spec hsend).2.1.mp hwrote

end Wrote

/-- A `send_to` writes a whole request once, or never. -/
theorem Does.wholeRequests_sublist {tls : Tls T} {quic : QuicApi Q K}
    {w w' : ParWorker (HttpConn RawConn T) Q} {evs : List (Event (HttpConn RawConn T) RawAnswer)}
    (hdoes : Does (rawApi tls quic) w evs w') : wholeRequests tls evs <+ takenJobs evs := by
  cases hdoes with
  | @sent job sent h h' tx a hact hsend =>
      show wholeRequests tls (.httpSend job sent h tx a (.ok ()) :: _) <+ [(job, sent)]
      rw [wholeRequests_ok hsend]
      exact .refl _
  | @refused job sent h h' tx a e hact hsend =>
      show wholeRequests tls (.httpSend job sent h tx a (.error e) :: _) <+ [(job, sent)]
      rw [wholeRequests_error hsend]
      exact List.nil_sublist _
  | @resent job sent h h' h₂ h₂' tx a a₂ e hact hsend he hact₂ hsend₂ =>
      show wholeRequests tls (.httpSend job sent h tx a (.error e) :: _) <+ [(job, sent)]
      rw [wholeRequests_error hsend]
      show wholeRequests tls (.httpSend job sent h₂ tx a₂ (.ok ()) :: _) <+ [(job, sent)]
      rw [wholeRequests_ok hsend₂]
      exact .refl _
  | @lost job sent h h' h₂ h₂' tx a a₂ e e₂ hact hsend he hact₂ hsend₂ =>
      show wholeRequests tls (.httpSend job sent h tx a (.error e) :: _) <+ [(job, sent)]
      rw [wholeRequests_error hsend]
      show wholeRequests tls (.httpSend job sent h₂ tx a₂ (.error e₂) :: _) <+ [(job, sent)]
      rw [wholeRequests_error hsend₂]
      exact List.nil_sublist _
  | @dropped job sent h h' q tx a e hact hsend =>
      show wholeRequests tls (.httpSend job sent h tx a (.error e) :: _) <+ [(job, sent)]
      rw [wholeRequests_error hsend]
      exact List.nil_sublist _
  | _ => exact List.nil_sublist _

theorem Runs.wholeRequests_sublist {tls : Tls T} {quic : QuicApi Q K}
    {w₀ w : ParWorker (HttpConn RawConn T) Q} {log : List (Event (HttpConn RawConn T) RawAnswer)}
    (h : Runs (rawApi tls quic) w₀ log w) : wholeRequests tls log <+ takenJobs log := by
  induction h with
  | start => exact List.Sublist.slnil
  | step _ hdoes ih =>
      rw [wholeRequests_append, takenJobs_append]
      exact ih.append hdoes.wholeRequests_sublist
  | tick _ ih => exact ih

/-- **In-flight coherence, and no double submission** (`RawLibc`): in every run of either worker,
the job in a provider's slot has its whole request on the connection active now, written there since
the last failover; and the whole requests written for the provider, on all its connections together,
are those of a sublist of the popped jobs, so no popped job's is written twice. -/
theorem slot_on_wire {tls : Tls T} {quic : QuicApi Q K} {p₀ p : ParWorker (HttpConn RawConn T) Q}
    {popped : List (Job × Nat)} {log : List (Event (HttpConn RawConn T) RawAnswer)}
    (h : ProviderRun (rawApi tls quic) p₀ popped log p) :
    (∀ job sent, p.inflight = some (job, sent) →
      ∃ now, p.active = .http now ∧ OnWire tls log job sent now) ∧
    wholeRequests tls log <+ popped := by
  obtain ⟨idx, ring, rx, kind, diag, a, b, rfl⟩ := h.started
  constructor
  · exact h.runs.coherent rfl
  · exact h.runs.wholeRequests_sublist.trans h.taken.sublist

/-- The first connection takes half of the request and breaks; the job is then written on the
standby, in two pieces. -/
def brokenInputs : List (Input (HttpConn RawConn Bytes) RawAnswer (QuicEngine Bool) Bool) :=
  let base := Input.quiet RawAnswer.silent false
  ParWorker.jobRound base ⟨1, 0⟩ 10
    { base with
      call := { sends := [⟨45, 0⟩, ⟨-1, 4⟩, ⟨-1, 104⟩], recvs := [] }
      retry := { sends := [⟨60, 0⟩, ⟨-1, 11⟩, ⟨30, 0⟩], recvs := [] } }
    base

theorem slot_on_wire_broken :
    ∃ log p now, ProviderRun (rawApi plainTls (quinnApi flagQuinn))
        (startedPar 0 0 0 .rawLibc 0 (.http bareConn) (.http bareConn)) [(⟨1, 0⟩, 10)] log p ∧
      p.inflight = some (⟨1, 0⟩, 10) ∧ p.active = .http now ∧
      OnWire plainTls log ⟨1, 0⟩ 10 now ∧ wholeRequests plainTls log <+ [(⟨1, 0⟩, 10)] := by
  obtain ⟨log, p, hrun, hslot⟩ := ProviderRun.of_inputs (rawApi plainTls (quinnApi flagQuinn))
    (.http bareConn) (.http bareConn) brokenInputs [(⟨1, 0⟩, 10)]
    (fun _ p => p.inflight = some (⟨1, 0⟩, 10)) (by decide +kernel)
  obtain ⟨hcoherent, hwhole⟩ := slot_on_wire hrun
  obtain ⟨now, hnow, hwire⟩ := hcoherent _ _ hslot
  exact ⟨log, p, now, hrun, hslot, hnow, hwire, hwhole⟩

end TxSender.Transport
