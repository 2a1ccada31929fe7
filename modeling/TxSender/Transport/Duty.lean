/-
# TxSender.Transport.Duty — the calls in which a worker thread can halt.

A worker indexes vectors, counts and publishes all the time, but where it is wired as `build` left it, all
this returns. What is left are the two calls that a thread makes for a provider, `send_to` and `reap`: a
thread halts in one of them or not at all (`Workers.step_halts_iff`). The worker of several providers makes
the calls for all of them in one thread, and the provider it is busy with stands where its own worker would
(`parPc`).
-/
import TxSender.Transport.Wiring

namespace TxSender.Transport

open TxSender.Lib
open TxSender.Http
open TxSender.Protocol

variable {H A Q K D : Type}

/-! ## The calls -/

/-- What a thread does for a provider in one step, as far as it can halt. -/
inductive Duty where
  | send (job : Job) (sent : Nat)
  | reap
  deriving DecidableEq, Repr

/-- The call behind it. -/
def Duty.call (api : ConnApi H A Q K) (i : Nat) (p : ParWorker H Q) (inp : Input H A Q K) :
    Duty → Exec (ParWorker H Q × List (Event H A))
  | .send job sent => p.sendTo api job sent inp
  | .reap => (p.driveActive api inp).reap api (ProviderId.ofIndex i) inp

def ParWorker.Pc.duty : ParWorker.Pc → Option Duty
  | .send job sent => some (.send job sent)
  | .reap => some .reap
  | _ => none

/-- What thread `j` is about to do, and for which provider. -/
def Workers.duty : Workers H Q → Nat → Option (Nat × Duty)
  | .sequential s (.send job sent i), 0 =>
      if i < s.conns.length then some (i, .send job sent) else none
  | .sequential s (.reap i), 0 => if i < s.conns.length then some (i, .reap) else none
  | .sequential _ _, _ => none
  | .parallel ws, j => (ws[j]?).bind fun st => st.2.duty.map fun duty => (j, duty)

/-- Where the worker of provider `i` stands meanwhile. -/
def SequentialWorker.parPc (i : Nat) : SequentialWorker.Pc → ParWorker.Pc
  | .top => .top
  | .send job sent k => if k ≤ i then .send job sent else .reap
  | .kick _ => .reap
  | .reap k => if k ≤ i then .reap else .tick
  | .tick => .tick
  | .deliver k idle => if k ≤ i then .deliver idle else if idle then .top else .idle
  | .publish idle => if idle then .top else .idle
  | .idle => .idle
  | .stopped => .stopped

/-- Where the worker of provider `i` stands. -/
def Workers.parPc (i : Nat) : Workers H Q → ParWorker.Pc
  | .sequential _ pc => SequentialWorker.parPc i pc
  | .parallel ws => ((ws[i]?).map Prod.snd).getD .stopped

/-- The sequential worker is about to make this call, for a provider that it has. -/
theorem SequentialWorker.pc_of_duty {s : SequentialWorker H Q} {pc : Pc} {i : Nat} {duty : Duty}
    (h : (Workers.sequential s pc).duty 0 = some (i, duty)) :
    i < s.conns.length ∧ ((∃ job sent, pc = .send job sent i ∧ duty = .send job sent) ∨
      (pc = .reap i ∧ duty = .reap)) := by
  cases pc with
  | send job sent k =>
      simp only [Workers.duty] at h
      split at h
      · cases h
        exact ⟨by assumption, .inl ⟨job, sent, rfl, rfl⟩⟩
      · cases h
  | reap k =>
      simp only [Workers.duty] at h
      split at h
      · cases h
        exact ⟨by assumption, .inr ⟨rfl, rfl⟩⟩
      · cases h
  | _ => cases h

/-- There is one thread only. -/
theorem SequentialWorker.duty_succ (s : SequentialWorker H Q) (pc : Pc) (j : Nat) :
    (Workers.sequential s pc).duty (j + 1) = none := by
  cases pc <;> rfl

/-- A provider whose call is next stands before that call. -/
theorem Workers.duty_parPc {ws : Workers H Q} {j i : Nat} {duty : Duty}
    (h : ws.duty j = some (i, duty)) : (ws.parPc i).duty = some duty := by
  cases ws with
  | sequential s pc =>
      cases j with
      | succ j =>
          rw [SequentialWorker.duty_succ] at h
          cases h
      | zero =>
          obtain ⟨-, ⟨job, sent, rfl, rfl⟩ | ⟨rfl, rfl⟩⟩ := SequentialWorker.pc_of_duty h
          · simp [Workers.parPc, SequentialWorker.parPc, ParWorker.Pc.duty]
          · simp [Workers.parPc, SequentialWorker.parPc, ParWorker.Pc.duty]
  | parallel ws =>
      obtain ⟨st, hst, h⟩ := Option.bind_eq_some_iff.mp h
      obtain ⟨duty', hpc, heq⟩ := Option.map_eq_some_iff.mp h
      cases heq
      show (((ws[j]?).map Prod.snd).getD .stopped).duty = _
      rw [hst]
      exact hpc

/-! ## No index is out of range -/

theorem SequentialWorker.publishDiag_ok {s : SequentialWorker H Q} {slots : List Nat} {i : Nat}
    (h : i + slots.length ≤ s.jobsSent.length) :
    ∃ logs : List (Logged H A), s.publishDiag i slots = .ok logs := by
  induction slots generalizing i with
  | nil => exact ⟨[], rfl⟩
  | cons slot slots ih =>
      rw [List.length_cons] at h
      obtain ⟨rest, hrest⟩ := ih (i := i + 1) (by omega)
      rw [publishDiag, index_eq_ok (List.getElem?_eq_getElem (by omega)), ok_bind, hrest]
      exact ⟨_, rfl⟩

/-- Every vector of the sequential worker has one entry for each provider. -/
theorem Workers.Wired.length {n : Nat} {kind : ConnKind} {s : SequentialWorker H Q}
    {pc : SequentialWorker.Pc} (hw : (Workers.sequential s pc).Wired n kind) :
    s.conns.length = n := by
  rcases Nat.lt_trichotomy s.conns.length n with hlt | heq | hgt
  · obtain ⟨p, hp⟩ := hw.here _ hlt
    have hin := (List.getElem?_eq_some_iff.mp (SequentialWorker.view_eq_some_iff.mp hp).conns).1
    exact absurd hin (Nat.lt_irrefl _)
  · exact heq
  · obtain ⟨p, hp⟩ := (hw.sized s pc rfl).entries hgt
    have hin := (hw.ends n p (SequentialWorker.view_eq_some_iff.mpr hp)).lt
    exact absurd hin (Nat.lt_irrefl _)

/-- What a worker finds in its channel is meant for a provider that there is. -/
theorem Sender.Wired.hand_lt {n : Nat} {kind : ConnKind} {made : Nat → Built H Q → Prop}
    {s : Sender H Q} (hw : s.Wired n kind made) (j : Nat) (inp : Input H A Q K) (idx : Nat)
    (c : Built H Q) (h : (s.hand j inp).delivered = some ⟨idx, .conn c⟩) : idx < n := by
  obtain ⟨-, hslot⟩ := Sender.hand_delivered hw h
  rw [← hw.reconnect.length]
  exact (List.getElem?_eq_some_iff.mp hslot).1

/-! ## Where a step halts -/

theorem ParWorker.step_halts_iff {api : ConnApi H A Q K} {p : ParWorker H Q} {pc : Pc}
    {inp : Input H A Q K} {e : Halt} :
    step api (p, pc) inp = .error e ↔
      ∃ duty, pc.duty = some duty ∧ duty.call api p.providerIdx p inp = .error e := by
  have hreturns : ∀ {f : ParWorker H Q × List (Event H A) →
      (ParWorker H Q × Pc) × List (Logged H A)} (duty : Duty),
      (do let x ← duty.call api p.providerIdx p inp; pure (f x)) = .error e ↔
        ∃ duty', some duty = some duty' ∧ duty'.call api p.providerIdx p inp = .error e := by
    intro f duty
    rw [bind_eq_error]
    constructor
    · rintro (h | ⟨x, -, h⟩)
      · exact ⟨duty, rfl, h⟩
      · cases h
    · rintro ⟨duty', heq, h⟩
      obtain rfl := Option.some.inj heq
      exact .inl h
  cases pc with
  | send job sent => exact hreturns (.send job sent)
  | reap => exact hreturns .reap
  | top =>
      refine iff_of_false ?_ ?_
      · simp only [step]
        split
        · intro h
          cases h
        · split
          · intro h
            cases h
          · intro h
            cases h
      · rintro ⟨duty, h, -⟩
        cases h
  | _ =>
      refine iff_of_false ?_ ?_
      · intro h
        cases h
      · rintro ⟨duty, h, -⟩
        cases h

/-- A step in which the sequential worker calls nothing that can halt returns. -/
theorem SequentialWorker.step_returns {api : ConnApi H A Q K} {s : SequentialWorker H Q} {pc : Pc}
    {inp : Input H A Q K} (hs : s.Sized)
    (hgot : ∀ idx c, inp.delivered = some ⟨idx, .conn c⟩ → idx < s.conns.length)
    (hduty : (Workers.sequential s pc).duty 0 = none) : ∃ out, step api (s, pc) inp = .ok out := by
  cases pc with
  | top =>
      simp only [step]
      split
      · exact ⟨_, rfl⟩
      · split
        · exact ⟨_, rfl⟩
        · exact ⟨_, rfl⟩
  | send job sent i =>
      have hi : ¬ i < s.conns.length := by
        intro hi
        simp only [Workers.duty, if_pos hi] at hduty
        cases hduty
      simp only [step, if_neg hi]
      exact ⟨_, rfl⟩
  | kick i =>
      by_cases hi : i < s.conns.length
      · obtain ⟨p, hp⟩ := hs.entries hi
        exact ⟨_, step_kick hp⟩
      · simp only [step, if_neg hi]
        exact ⟨_, rfl⟩
  | reap i =>
      have hi : ¬ i < s.conns.length := by
        intro hi
        simp only [Workers.duty, if_pos hi] at hduty
        cases hduty
      simp only [step, if_neg hi]
      exact ⟨_, rfl⟩
  | deliver i idle =>
      simp only [step]
      split
      · rcases hdel : inp.delivered with _ | ⟨idx, c | _⟩
        · exact ⟨_, rfl⟩
        · obtain ⟨p, hp⟩ := hs.entries (hgot idx c hdel)
          rw [checkStandbyDelivery_conn hp]
          exact ⟨_, rfl⟩
        · exact ⟨_, rfl⟩
      · exact ⟨_, rfl⟩
  | publish idle =>
      have hlen : 0 + s.diag.length ≤ s.jobsSent.length := by rw [hs.diag, hs.jobsSent, Nat.zero_add]
      obtain ⟨logs, hlogs⟩ := publishDiag_ok (A := A) hlen
      simp only [step, hlogs]
      exact ⟨_, rfl⟩
  | tick => exact ⟨_, rfl⟩
  | idle => exact ⟨_, rfl⟩
  | stopped => exact ⟨_, rfl⟩

theorem SequentialWorker.step_halts_iff {api : ConnApi H A Q K} {s : SequentialWorker H Q} {pc : Pc}
    {inp : Input H A Q K} {e : Halt} (hs : s.Sized)
    (hgot : ∀ idx c, inp.delivered = some ⟨idx, .conn c⟩ → idx < s.conns.length) :
    step api (s, pc) inp = .error e ↔
      ∃ i duty p, (Workers.sequential s pc).duty 0 = some (i, duty) ∧ s.Entries i p ∧
        duty.call api i p inp = .error e := by
  cases hduty : (Workers.sequential s pc).duty 0 with
  | none =>
      obtain ⟨out, hout⟩ := step_returns hs hgot hduty
      rw [hout]
      constructor
      · intro h
        cases h
      · rintro ⟨i, duty, p, h, -⟩
        cases h
  | some x =>
      obtain ⟨i, duty⟩ := x
      obtain ⟨hi, hpc⟩ := pc_of_duty hduty
      obtain ⟨p, hp⟩ := hs.entries hi
      have hcall : step api (s, pc) inp = .error e ↔ duty.call api i p inp = .error e := by
        rcases hpc with ⟨job, sent, rfl, rfl⟩ | ⟨rfl, rfl⟩
        · rw [step_send hp, map_eq_error]
          rfl
        · rw [step_reap hp, map_eq_error]
          rfl
      rw [hcall]
      constructor
      · intro h
        exact ⟨i, duty, p, rfl, hp, h⟩
      · rintro ⟨i', duty', p', heq, hp', h⟩
        cases heq
        obtain rfl := Option.some.inj ((view_eq_some_iff.mpr hp).symm.trans (view_eq_some_iff.mpr hp'))
        exact h

/-- A thread halts in the call it makes for a provider, or not at all. -/
theorem Workers.step_halts_iff {api : ConnApi H A Q K} {n : Nat} {kind : ConnKind}
    {ws : Workers H Q} {j : Nat} {inp : Input H A Q K} {e : Halt} (hw : ws.Wired n kind)
    (hgot : ∀ idx c, inp.delivered = some ⟨idx, .conn c⟩ → idx < n) :
    ws.step api j inp = .error e ↔
      ∃ i duty p, ws.duty j = some (i, duty) ∧ ws.view i = some p ∧
        duty.call api i p inp = .error e := by
  cases ws with
  | sequential s pc =>
      cases j with
      | succ j =>
          rw [SequentialWorker.duty_succ]
          simp [Workers.step]
      | zero =>
          have hin : ∀ idx c, inp.delivered = some ⟨idx, .conn c⟩ → idx < s.conns.length := by
            intro idx c hc
            rw [hw.length]
            exact hgot idx c hc
          simp only [Workers.step, bind_eq_error]
          rw [SequentialWorker.step_halts_iff (hw.sized s pc rfl) hin]
          simp only [Workers.view, SequentialWorker.view_eq_some_iff]
          constructor
          · rintro (h | ⟨x, -, h⟩)
            · exact h
            · cases h
          · exact Or.inl
  | parallel ws =>
      simp only [Workers.step, Workers.duty, Workers.view]
      cases hst : ws[j]? with
      | none => simp
      | some st =>
          obtain ⟨p, pc⟩ := st
          have hview : (Workers.parallel ws).view j = some p := congrArg (Option.map Prod.fst) hst
          have hidx := (hw.ends j p hview).providerIdx
          simp only [Option.bind_some, bind_eq_error, ParWorker.step_halts_iff, hidx]
          constructor
          · rintro (⟨duty, hduty, h⟩ | ⟨x, -, h⟩)
            · exact ⟨j, duty, p, by rw [hduty]; rfl, hview, h⟩
            · cases h
          · rintro ⟨i, duty, p', hduty, hp', h⟩
            obtain ⟨duty', hpc, heq⟩ := Option.map_eq_some_iff.mp hduty
            cases heq
            obtain rfl := Option.some.inj (hview.symm.trans hp')
            exact .inl ⟨duty, hpc, h⟩

/-- The same as a step of the one provider's own worker. -/
theorem Workers.step_halts {api : ConnApi H A Q K} {n : Nat} {kind : ConnKind} {ws : Workers H Q}
    {j : Nat} {inp : Input H A Q K} {e : Halt} (hw : ws.Wired n kind)
    (hgot : ∀ idx c, inp.delivered = some ⟨idx, .conn c⟩ → idx < n)
    (h : ws.step api j inp = .error e) :
    ∃ i p, ws.view i = some p ∧ ParWorker.step api (p, ws.parPc i) inp = .error e := by
  obtain ⟨i, duty, p, hduty, hp, hcall⟩ := (Workers.step_halts_iff hw hgot).mp h
  refine ⟨i, p, hp, ParWorker.step_halts_iff.mpr ⟨duty, Workers.duty_parPc hduty, ?_⟩⟩
  rw [(hw.ends i p hp).providerIdx]
  exact hcall

/-- The call that thread `j` is about to make returns, if it is one for a provider in `P`. -/
def Workers.CallReturns (api : ConnApi H A Q K) (P : Nat → Prop) (ws : Workers H Q) (j : Nat)
    (inp : Input H A Q K) : Prop :=
  ∀ i duty p, ws.duty j = some (i, duty) → P i → ws.view i = some p →
    ∃ out, duty.call api i p inp = .ok out

/-- **A step returns exactly when the call it makes does.** -/
theorem Workers.step_returns_iff {api : ConnApi H A Q K} {n : Nat} {kind : ConnKind}
    {ws : Workers H Q} {j : Nat} {inp : Input H A Q K} (hw : ws.Wired n kind)
    (hgot : ∀ idx c, inp.delivered = some ⟨idx, .conn c⟩ → idx < n) :
    (∃ out, ws.step api j inp = .ok out) ↔ ws.CallReturns api (fun _ => True) j inp := by
  constructor
  · rintro ⟨out, hout⟩ i duty p hduty - hp
    cases hcall : duty.call api i p inp with
    | ok out' => exact ⟨out', rfl⟩
    | error e =>
        have hhalt := (Workers.step_halts_iff hw hgot).mpr ⟨i, duty, p, hduty, hp, hcall⟩
        rw [hhalt] at hout
        cases hout
  · intro hreturns
    cases hstep : ws.step api j inp with
    | ok out => exact ⟨out, rfl⟩
    | error e =>
        obtain ⟨i, duty, p, hduty, hp, hcall⟩ := (Workers.step_halts_iff hw hgot).mp hstep
        obtain ⟨out, hout⟩ := hreturns i duty p hduty trivial hp
        rw [hcall] at hout
        cases hout

theorem Workers.CallReturns.mono {api : ConnApi H A Q K} {P P' : Nat → Prop} {ws : Workers H Q}
    {j : Nat} {inp : Input H A Q K} (h : ws.CallReturns api P j inp) (hP : ∀ i, P' i → P i) :
    ws.CallReturns api P' j inp :=
  fun i duty p hduty hi hp => h i duty p hduty (hP i hi) hp

end TxSender.Transport
