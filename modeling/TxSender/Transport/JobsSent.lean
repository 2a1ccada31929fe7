/-
# TxSender.Transport.JobsSent — what `jobs_sent` counts.

The counter goes up in three places of `send_to`: after the first HTTP send, after the HTTP send on
the standby, and on a QUIC connection. The first two are reached only when the send succeeded, the
third in any case. So the counter is the number of successful sends plus the number of QUIC sends
that failed, and `publish_diag` reports that sum.
-/
import TxSender.Lib.Trace
import TxSender.Transport.Order

namespace TxSender.Transport

open TxSender.Lib
open TxSender.Http
open TxSender.Protocol
open TxSender.Backend
open scoped List

variable {H A Q K : Type}

/-! ## Failed QUIC sends -/

/-- A `send_tx` on a QUIC connection that returned an error. -/
def isQuicFailure : Event H A → Bool
  | .quicSend _ _ (.error _) => true
  | _ => false

def quicFailures (log : List (Event H A)) : Nat := log.countP isQuicFailure

theorem quicFailures_append (l l' : List (Event H A)) :
    quicFailures (l ++ l') = quicFailures l + quicFailures l' := List.countP_append

/-- What the counter counts. -/
def counted (log : List (Event H A)) : Nat := (okSent log).length + quicFailures log

theorem counted_append (l l' : List (Event H A)) : counted (l ++ l') = counted l + counted l' := by
  unfold counted
  rw [okSent_append, quicFailures_append, List.length_append]
  omega

theorem Does.jobsSent_eq {api : ConnApi H A Q K} {w w' : ParWorker H Q} {evs : List (Event H A)}
    (h : Does api w evs w') : w'.jobsSent = w.jobsSent + counted evs := by
  cases h with
  | @quicSent job sent _ _ _ _ _ r =>
      -- the counter does not look at the result, and neither does the sum
      cases r with
      | ok _ => rfl
      | error _ => rfl
  | _ => rfl

/-! ## What is published -/

/-- The counter that `publish_diag` writes. -/
def diagOf : Event H A → Option Nat
  | .diag _ n => some n
  | _ => none

/-- What is published is at most the number of successful sends so far. -/
def Published (past : List (Event H A)) (e : Event H A) : Prop :=
  ∀ n ∈ diagOf e, n ≤ (okSent past).length

instance (past : List (Event H A)) (e : Event H A) : Decidable (Published past e) :=
  inferInstanceAs (Decidable (∀ n ∈ diagOf e, _))

/-- What is published is the count so far. -/
def Tallied (past : List (Event H A)) (e : Event H A) : Prop := ∀ n ∈ diagOf e, n = counted past

theorem tallied_of_silent {log evs : List (Event H A)} (h : evs.filterMap diagOf = []) :
    Along Tallied log evs := by
  apply along_of_forall
  intro e he past n hn
  rw [List.filterMap_eq_nil_iff.mp h e he] at hn
  cases hn

/-- Only `publish_diag` publishes. -/
theorem Does.tallied {api : ConnApi H A Q K} {w w' : ParWorker H Q} {log evs : List (Event H A)}
    (hw : w.jobsSent = counted log) (h : Does api w evs w') : Along Tallied log evs := by
  cases h with
  | published => exact ⟨fun n hn => (Option.some.inj hn).symm.trans hw, trivial⟩
  | _ => exact tallied_of_silent rfl

theorem Runs.counted {api : ConnApi H A Q K} {w₀ w : ParWorker H Q} {log : List (Event H A)}
    (hw₀ : w₀.jobsSent = 0) (h : Runs api w₀ log w) :
    w.jobsSent = counted log ∧ Along Tallied [] log := by
  induction h with
  | start => exact ⟨hw₀, trivial⟩
  | step _ hdoes ih =>
      refine ⟨?_, along_append.mpr ⟨ih.2, hdoes.tallied ih.1⟩⟩
      rw [hdoes.jobsSent_eq, counted_append, ih.1]
  | tick _ ih => exact ih

/-- Without failed QUIC sends the sum is the number of successful sends. -/
theorem published_of_tallied {past log : List (Event H A)} (h : Along Tallied past log)
    (hpast : quicFailures past = 0) (hlog : quicFailures log = 0) : Along Published past log := by
  induction log generalizing past with
  | nil => trivial
  | cons e log ih =>
      rw [← List.singleton_append, quicFailures_append] at hlog
      obtain ⟨he, hrest⟩ := h
      refine ⟨?_, ih hrest ?_ (by omega)⟩
      · intro n hn
        rw [he n hn, counted, hpast]
        exact Nat.le_refl _
      · rw [quicFailures_append]
        omega

/-- **`jobs_sent` counts submissions exactly when no QUIC send failed.** In every run of either
worker, the counter of a provider is the number of popped jobs that some `send_tx` of the provider
accepted, each counted once, and no published value exceeds it, if and only if every `send_tx` on a
QUIC connection returned `Ok`. -/
theorem jobs_sent_iff {api : ConnApi H A Q K} {p₀ p : ParWorker H Q} {popped : List (Job × Nat)}
    {log : List (Event H A)} (h : ProviderRun api p₀ popped log p) :
    (p.jobsSent = (okSent log).length ∧ okSent log <+ popped ∧ Along Published [] log) ↔
      ∀ e ∈ log, isQuicFailure e = false := by
  obtain ⟨idx, ring, rx, kind, diag, a, b, rfl⟩ := h.started
  obtain ⟨hcount, htallied⟩ := h.runs.counted rfl
  have hnone : (∀ e ∈ log, isQuicFailure e = false) ↔ quicFailures log = 0 := by
    unfold quicFailures
    rw [List.countP_eq_zero]
    simp only [Bool.not_eq_true]
  rw [hnone, hcount, counted]
  constructor
  · rintro ⟨hsum, -⟩
    omega
  · intro hzero
    exact ⟨by omega, h.runs.okSent_sublist.trans h.taken.sublist,
      published_of_tallied htallied rfl hzero⟩

theorem jobs_sent_closing :
    ∃ log p, ProviderRun ⟨HttpConn.api rawLibc plainTls, quinnApi flagQuinn⟩
        (startedPar 0 0 0 .rawLibc 0 (.quic ⟨some false, none⟩) (.http bareConn))
        [(⟨1, 0⟩, 10), (⟨2, 0⟩, 20), (⟨3, 0⟩, 30)] log p ∧
      p.jobsSent = (okSent log).length ∧ (okSent log).length = 3 := by
  obtain ⟨log, p, hrun, hfine, hsent⟩ := ProviderRun.of_inputs
    ⟨HttpConn.api rawLibc plainTls, quinnApi flagQuinn⟩ (.quic ⟨some false, none⟩) (.http bareConn)
    closingInputs
    [(⟨1, 0⟩, 10), (⟨2, 0⟩, 20), (⟨3, 0⟩, 30)]
    (fun log _ => (∀ e ∈ log, isQuicFailure e = false) ∧ (okSent log).length = 3)
    (by decide +kernel)
  exact ⟨log, p, hrun, ((jobs_sent_iff hrun).mpr hfine).1, hsent⟩

/-- Both QUIC connections close, one after the other; a job is popped before either is rebuilt, and
then the trigger ring is empty. -/
def bothClosedInputs : List (Input (HttpConn RawConn Bytes) RawAnswer (QuicEngine Bool) Bool) :=
  let base := Input.quiet RawAnswer.silent false
  ParWorker.pollRound base { base with quic := true } ++
    (ParWorker.pollRound base { base with quic := true } ++
      (ParWorker.jobRound base ⟨1, 0⟩ 10 base base ++
        [base, base, base, { base with empty := true }, base]))

/-- The job is refused and lost, and the published counter says that one job was sent. -/
theorem refused_job_counted :
    ∃ log p, ProviderRun ⟨HttpConn.api rawLibc plainTls, quinnApi flagQuinn⟩
        (startedPar 0 0 0 .rawLibc 0 (.quic ⟨some false, none⟩) (.quic ⟨some false, none⟩))
        [(⟨1, 0⟩, 10)] log p ∧
      okSent log = [] ∧ p.jobsSent = 1 ∧ ¬ Along Published [] log :=
  ProviderRun.of_inputs ⟨HttpConn.api rawLibc plainTls, quinnApi flagQuinn⟩
    (.quic ⟨some false, none⟩) (.quic ⟨some false, none⟩) bothClosedInputs [(⟨1, 0⟩, 10)]
    (fun log p => okSent log = [] ∧ p.jobsSent = 1 ∧ ¬ Along Published [] log) (by decide +kernel)

end TxSender.Transport
