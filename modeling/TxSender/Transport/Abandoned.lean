/-
# TxSender.Transport.Abandoned — jobs a worker gives up.

A job is given up when its last `send_tx` fails, or when `do_failover` clears the slot it is in. Each
such job should reach the sink as one `Transport` outcome. None does: a worker pushes only bodies and
`NoResponse`, and `parse_one` looks at no other hint.
-/
import TxSender.Provider.Response
import TxSender.Transport.InFlight
import TxSender.Transport.Order

namespace TxSender.Transport

open TxSender.Lib
open TxSender.Http
open TxSender.Protocol
open TxSender.Backend

variable {H A Q K : Type}

/-! ## What is given up, and what is reported -/

/-- Why a job was given up: `send_tx` failed for good, or its connection was swapped out. -/
inductive Cause where
  | send (e : TransportError)
  | swap
  deriving DecidableEq, Repr

/-- The jobs an event gives up. -/
def abandons : Event H A → List ((JobId × Nat) × Cause)
  | .ended job sent (.error e) => [((job.id, sent), .send e)]
  | .failover slot quicSlot =>
      (slot.map key).toList.map (·, .swap) ++ quicSlot.toList.map (·, .swap)
  | _ => []

def givenUp (log : List (Event H A)) : List ((JobId × Nat) × Cause) := log.flatMap abandons

/-- The outcomes `parse_one` makes of what was pushed. -/
def outcomes (codec : Codec) (log : List (Event H A)) : List ProviderOutcome :=
  (emitted log).map (parseOne · codec)

/-- The `Transport` outcomes for a job and a provider. -/
def reports (codec : Codec) (pid : ProviderId) (id : JobId) (log : List (Event H A)) :
    List TransportError :=
  (outcomes codec log).filterMap fun o =>
    match o.kind with
    | .transport e => if o.job = id ∧ o.provider = pid then some e else none
    | _ => none

/-- The job was reported once as a transport error, as `Failover` if it was swapped out. -/
def Reported (codec : Codec) (pid : ProviderId) (log : List (Event H A))
    (g : (JobId × Nat) × Cause) : Prop :=
  ∃ e, reports codec pid g.1.1 log = [e] ∧ (g.2 = .swap → e = .failover)

/-! ## What is pushed -/

/-- A pushed response carries no hint, or the hint that there is no response. -/
def PlainHint (r : RawResp) : Prop := r.outcomeHint = none ∨ r.outcomeHint = some .noResponse

theorem Does.plainHint {api : ConnApi H A Q K} {w w' : ParWorker H Q} {evs : List (Event H A)}
    (h : Does api w evs w') : ∀ r ∈ emitted evs, PlainHint r := by
  cases h with
  | answered =>
      intro r hr
      obtain rfl := List.mem_singleton.mp hr
      exact Or.inl rfl
  | expired =>
      intro r hr
      obtain rfl := List.mem_singleton.mp hr
      exact Or.inr rfl
  | _ => exact fun r hr => absurd hr List.not_mem_nil

theorem Runs.plainHint {api : ConnApi H A Q K} {w₀ w : ParWorker H Q} {log : List (Event H A)}
    (h : Runs api w₀ log w) : ∀ r ∈ emitted log, PlainHint r := by
  induction h with
  | start => exact fun r hr => absurd hr List.not_mem_nil
  | step _ hdoes ih =>
      intro r hr
      rw [emitted_append] at hr
      rcases List.mem_append.mp hr with hr | hr
      · exact ih r hr
      · exact hdoes.plainHint r hr
  | tick _ ih => exact ih

/-- `parse_one` makes a transport error only where the codec does. -/
theorem parseOne_ne_transport {codec : Codec} (hcodec : ∀ b e, codec b ≠ .transport e) (r : RawResp)
    (e : TransportError) : (parseOne r codec).kind ≠ .transport e := by
  unfold parseOne
  simp only
  split
  · simp
  · exact hcodec _ e

theorem reports_eq_nil {codec : Codec} (hcodec : ∀ b e, codec b ≠ .transport e) (pid : ProviderId)
    (id : JobId) (log : List (Event H A)) : reports codec pid id log = [] := by
  refine List.filterMap_eq_nil_iff.mpr fun o ho => ?_
  obtain ⟨r, -, rfl⟩ := List.mem_map.mp ho
  split
  · rename_i e hkind
    exact absurd hkind (parseOne_ne_transport hcodec r e)
  · rfl

theorem jsonRpcParse_ne_transport (b : Bytes) (e : TransportError) :
    Provider.jsonRpcParse b ≠ .transport e := by
  unfold Provider.jsonRpcParse
  split
  · simp
  · split <;> simp

/-- **A job that is given up is never reported.** In every run of either worker, with a codec that
reads no transport errors into bodies: no response is pushed with a transport error, and no job that
was given up has a `Transport` outcome. -/
theorem given_up_never_reported {api : ConnApi H A Q K} {p₀ p : ParWorker H Q}
    {popped : List (Job × Nat)} {log : List (Event H A)} {codec : Codec}
    (hcodec : ∀ b e, codec b ≠ .transport e) (h : ProviderRun api p₀ popped log p) :
    (∀ r ∈ emitted log, PlainHint r) ∧
      ∀ g ∈ givenUp log, ¬ Reported codec (ProviderId.ofIndex p.providerIdx) log g := by
  refine ⟨h.runs.plainHint, ?_⟩
  rintro g - ⟨e, hone, -⟩
  rw [reports_eq_nil hcodec] at hone
  cases hone

/-- Job 1 is sent, and the connection is reset before it is answered; then both connections refuse
job 2. -/
def resetInputs : List (Input (HttpConn RawConn Bytes) RawAnswer (QuicEngine Bool) Bool) :=
  let base := Input.quiet RawAnswer.silent false
  ParWorker.jobRound base ⟨1, 0⟩ 10 { base with call := .takes 90 }
      { base with call := { sends := [], recvs := [.failed 104] } } ++
    ParWorker.jobRound base ⟨2, 0⟩ 20 { base with call := .refuses 32, retry := .refuses 32 } base

theorem given_up_never_reported_reset :
    ∃ log p, ProviderRun (rawApi plainTls (quinnApi flagQuinn))
        (startedPar 0 0 0 .rawLibc 0 (.http bareConn) (.http bareConn))
        [(⟨1, 0⟩, 10), (⟨2, 0⟩, 20)] log p ∧
      ((1, 10), .swap) ∈ givenUp log ∧
      ¬ Reported Provider.jsonRpcParse (ProviderId.ofIndex p.providerIdx) log ((1, 10), .swap) := by
  obtain ⟨log, p, hrun, hup⟩ := ProviderRun.of_inputs (rawApi plainTls (quinnApi flagQuinn))
    (.http bareConn) (.http bareConn) resetInputs [(⟨1, 0⟩, 10), (⟨2, 0⟩, 20)]
    (fun log _ => ((1, 10), Cause.swap) ∈ givenUp log) (by decide +kernel)
  exact ⟨log, p, hrun, hup, (given_up_never_reported jsonRpcParse_ne_transport hrun).2 _ hup⟩

/-- Both jobs are given up, and nothing at all is pushed. -/
theorem reset_jobs_lost :
    ∃ log p, ProviderRun (rawApi plainTls (quinnApi flagQuinn))
        (startedPar 0 0 0 .rawLibc 0 (.http bareConn) (.http bareConn))
        [(⟨1, 0⟩, 10), (⟨2, 0⟩, 20)] log p ∧
      givenUp log = [((1, 10), .swap), ((2, 20), .send (.io (IoError.fromRawOsError 32)))] ∧
      emitted log = [] ∧
      ∀ g ∈ givenUp log, ¬ Reported Provider.jsonRpcParse (ProviderId.ofIndex 0) log g := by
  obtain ⟨log, p, hrun, hup, hemitted⟩ := ProviderRun.of_inputs
    (rawApi plainTls (quinnApi flagQuinn)) (.http bareConn) (.http bareConn) resetInputs
    [(⟨1, 0⟩, 10), (⟨2, 0⟩, 20)]
    (fun log _ =>
      givenUp log = [((1, 10), .swap), ((2, 20), .send (.io (IoError.fromRawOsError 32)))] ∧
        emitted log = [])
    (by decide +kernel)
  refine ⟨log, p, hrun, hup, hemitted, ?_⟩
  rintro g - ⟨e, hone, -⟩
  rw [reports, outcomes, hemitted] at hone
  cases hone

end TxSender.Transport
