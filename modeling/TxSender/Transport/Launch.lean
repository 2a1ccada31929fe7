/-
# TxSender.Transport.Launch — what a failed `build` leaves running.

`build` starts the result lane before it connects anybody, and leaves through `?` when a connection
cannot be made. The handle of the lane and the only end of the stop flag that somebody would set are
local variables of the call, so they are gone with it; the lane keeps an end of its own, which it only
reads. `launch` is `build` with the threads it has started and the flag they read (`launch_build`:
without them it is `build`), and with the engine over the user-space stack, whose workers connect in
their own threads. A process is what runs after the call, a step of some thread at a time.
-/
import TxSender.Transport.Wiring

namespace TxSender.Transport

open TxSender.Lib
open TxSender.Http
open TxSender.Protocol
open TxSender.Backend
open TxSender.Provider

variable {H Q D : Type}

/-! ## Threads and the flag -/

inductive Thread where
  | lane
  | reconnect
  | worker (j : Nat)
  deriving DecidableEq, Repr

/-- The background threads of one call of `build` that have not returned, the lane as far as it has
come, and the stop flag they share. -/
structure Process where
  running : List Thread
  lane : ResultLane
  stop : Bool
  /-- there is a `Sender` with the flag; its `shutdown` is the only place that sets it -/
  held : Bool

/-- Who moves next; a thread may read an old value of the flag. -/
inductive Move where
  | lane (sawStop : Bool)
  /-- another thread at the top of its loop; what else may end it (a channel whose other ends are gone,
  a worker that cannot connect) is left out -/
  | top (t : Thread) (sawStop : Bool)
  | shutdown
  deriving DecidableEq, Repr

namespace Process

/-- Before anything is started. -/
def idle : Process where
  running := []
  lane := ResultLane.new []
  stop := false
  held := false

def step (p : Process) : Move → Exec (Process × List Unit)
  | .lane sawStop =>
      if .lane ∈ p.running then do
        let lane ← p.lane.step (sawStop && p.stop)
        let running := if lane.pc = .stopped then p.running.erase .lane else p.running
        pure ({ p with lane, running }, [])
      else .ok (p, [])
  | .top t sawStop =>
      if t ≠ .lane ∧ sawStop && p.stop then .ok ({ p with running := p.running.erase t }, [])
      else .ok (p, [])
  | .shutdown => .ok (if p.held then { p with stop := true } else p, [])

def machine : Machine Process Move Unit where
  step := step

/-- **A step of the process.** -/
theorem step_cases {p p' : Process} {m : Move} {log : List Unit} (h : p.step m = .ok (p', log)) :
    (∃ sawStop lane, p.lane.step (sawStop && p.stop) = .ok lane ∧
      p' = { p with
        lane, running := if lane.pc = .stopped then p.running.erase .lane else p.running }) ∨
    (∃ t, t ≠ .lane ∧ p.stop = true ∧ p' = { p with running := p.running.erase t }) ∨
    (p.held = true ∧ p' = { p with stop := true }) ∨
    p' = p := by
  cases m with
  | lane sawStop =>
      simp only [step] at h
      split at h
      · obtain ⟨lane, hlane, h⟩ := bind_eq_ok.mp h
        exact .inl ⟨sawStop, lane, hlane, (Prod.mk.inj (Except.ok.inj h)).1.symm⟩
      · exact .inr (.inr (.inr (Prod.mk.inj (Except.ok.inj h)).1.symm))
  | top t sawStop =>
      simp only [step] at h
      split at h
      · rename_i hcond
        refine .inr (.inl ⟨t, hcond.1, ?_, (Prod.mk.inj (Except.ok.inj h)).1.symm⟩)
        exact (Bool.and_eq_true_iff.mp hcond.2).2
      · exact .inr (.inr (.inr (Prod.mk.inj (Except.ok.inj h)).1.symm))
  | shutdown =>
      have hp := (Prod.mk.inj (Except.ok.inj h)).1
      split at hp
      · rename_i hheld
        exact .inr (.inr (.inl ⟨hheld, hp.symm⟩))
      · exact .inr (.inr (.inr hp.symm))

/-- Something can still happen that sets the flag. -/
def Settable (p : Process) : Prop :=
  ∃ moves p' log, machine.run p moves = .ok (p', log) ∧ p'.stop = true

/-- No thread is left to run on with a flag that nobody can set. -/
def NothingLeft (p : Process) : Prop := ∀ t ∈ p.running, p.Settable

end Process

/-! ## Building, with the threads -/

/-- Every engine: the three that connect before the workers start, and the one whose workers connect
themselves. -/
inductive EngineKind where
  | socket (engine : Engine)
  | parTpa
  deriving DecidableEq, Repr

/-- A `SenderBuilder` for any of them. -/
structure LaunchSpec where
  transport : Option EngineKind
  providers : List ProviderConfig
  hasSource : Bool
  hasSink : Bool
  hasTls : Bool

def SenderBuilder.spec (b : SenderBuilder) : LaunchSpec where
  transport := b.transport.map .socket
  providers := b.providers
  hasSource := b.hasSource
  hasSink := b.hasSink
  hasTls := b.hasTls

/-- The worker threads of an engine. -/
def Workers.threads : Workers H Q → List Thread
  | .sequential _ _ => [.worker 0]
  | .parallel ws => (List.range ws.length).map .worker

namespace LaunchSpec

/-- Nothing is missing, so `build` gets to the point where it starts threads. -/
def Complete (b : LaunchSpec) : Prop :=
  b.providers ≠ [] ∧ b.transport.isSome ∧ b.hasTls = true ∧ b.hasSource = true ∧ b.hasSink = true

instance (b : LaunchSpec) : Decidable b.Complete :=
  decidable_of_iff (b.providers.isEmpty = false ∧ b.transport.isSome ∧ b.hasTls = true ∧
    b.hasSource = true ∧ b.hasSink = true) (by simp [Complete])

/-- `build` from the point where nothing is missing. -/
def start (engine : EngineKind) (providers : List ProviderConfig)
    (connectOne : Nat → D → Exec (Except SenderError (Built H Q))) (ds : Nat → D × D)
    (tpaStart : Except TransportError Unit) : Exec (Except SenderError Unit × Process) :=
  let n := providers.length
  -- `std::thread::spawn(move || lane.run(&lane_stop))`
  let p := { Process.idle with
    running := [.lane], lane := ResultLane.new (providers.map ProviderConfig.codec) }
  match engine with
  | .socket engine => do
      match ← connectDualAll connectOne ds n 0 with
      -- `?` returns, and this call's end of the flag and the handle of the lane are dropped
      | .error e => pure (.error e, p)
      | .ok duals => do
          let workers ← SenderBuilder.spawn engine duals n
          pure (.ok (), { p with
            running := p.running ++ .reconnect :: workers.threads, held := true })
  | .parTpa =>
      match tpaStart with
      | .error e => pure (.error (.connect 0 e), p)
      | .ok () =>
          pure (.ok (), { p with
            running := p.running ++ .reconnect :: (List.range n).map .worker, held := true })

def launch (b : LaunchSpec) (connectOne : Nat → D → Exec (Except SenderError (Built H Q)))
    (ds : Nat → D × D) (tpaStart : Except TransportError Unit) :
    Exec (Except SenderError Unit × Process) :=
  match b.providers with
  | [] => pure (.error .noProviders, .idle)
  | _ =>
      match b.transport with
      | none => pure (.error .noTransport, .idle)
      | some engine =>
          if b.hasTls = false then pure (.error .noTls, .idle)
          else if b.hasSource = false then pure (.error .noSource, .idle)
          else if b.hasSink = false then pure (.error .noSink, .idle)
          else start engine b.providers connectOne ds tpaStart

/-- **Without the threads, `launch` is `build`.** -/
theorem launch_build (b : SenderBuilder)
    (connectOne : Nat → D → Exec (Except SenderError (Built H Q))) (ds : Nat → D × D)
    (tpaStart : Except TransportError Unit) :
    (b.spec.launch connectOne ds tpaStart).map Prod.fst =
      (b.build connectOne ds).map fun r => r.map fun _ => () := by
  obtain ⟨transport, providers, hasSource, hasSink, hasTls⟩ := b
  cases providers with
  | nil => rfl
  | cons p ps =>
      cases transport with
      | none => rfl
      | some engine =>
          unfold launch SenderBuilder.build SenderBuilder.spec
          simp only [Option.map_some]
          split
          · rfl
          · split
            · rfl
            · split
              · rfl
              · unfold start
                simp only
                cases connectDualAll connectOne ds (p :: ps).length 0 with
                | error e => rfl
                | ok duals =>
                    cases duals with
                    | error e => rfl
                    | ok duals =>
                        simp only [ok_bind]
                        cases SenderBuilder.spawn engine duals (p :: ps).length with
                        | error e => rfl
                        | ok workers => rfl

/-! ## What is left -/

/-- What a failed `build` left behind when it had got as far as connecting: the lane. -/
theorem start_failed {engine : EngineKind} {providers : List ProviderConfig}
    {connectOne : Nat → D → Exec (Except SenderError (Built H Q))} {ds : Nat → D × D}
    {tpaStart : Except TransportError Unit} {e : SenderError} {p : Process}
    (h : start engine providers connectOne ds tpaStart = .ok (.error e, p)) :
    p = { Process.idle with
      running := [.lane], lane := ResultLane.new (providers.map ProviderConfig.codec) } := by
  cases engine with
  | socket engine =>
      obtain ⟨duals, -, h⟩ := bind_eq_ok.mp h
      cases duals with
      | error e' => exact (Prod.mk.inj (Except.ok.inj h)).2.symm
      | ok duals =>
          obtain ⟨workers, -, h⟩ := bind_eq_ok.mp h
          cases h
  | parTpa =>
      cases tpaStart with
      | error e' => exact (Prod.mk.inj (Except.ok.inj h)).2.symm
      | ok _ => cases h

/-- And nothing when something was missing. -/
theorem launch_failed {b : LaunchSpec} {connectOne : Nat → D → Exec (Except SenderError (Built H Q))}
    {ds : Nat → D × D} {tpaStart : Except TransportError Unit} {e : SenderError} {p : Process}
    (h : b.launch connectOne ds tpaStart = .ok (.error e, p)) :
    (¬ b.Complete ∧ p = .idle) ∨
      (b.Complete ∧ p = { Process.idle with
        running := [.lane], lane := ResultLane.new (b.providers.map ProviderConfig.codec) }) := by
  obtain ⟨transport, providers, hasSource, hasSink, hasTls⟩ := b
  have missing : ∀ {err : SenderError},
      (pure (.error err, .idle) : Exec (Except SenderError Unit × Process)) = .ok (.error e, p) →
        p = .idle := by
    intro err heq
    exact (Prod.mk.inj (Except.ok.inj heq)).2.symm
  unfold launch at h
  cases providers with
  | nil => exact .inl ⟨fun hb => hb.1 rfl, missing h⟩
  | cons q qs =>
      cases transport with
      | none => exact .inl ⟨fun hb => by simp [Complete] at hb, missing h⟩
      | some engine =>
          cases hasTls with
          | false => exact .inl ⟨fun hb => by simp [Complete] at hb, missing h⟩
          | true =>
              cases hasSource with
              | false => exact .inl ⟨fun hb => by simp [Complete] at hb, missing h⟩
              | true =>
                  cases hasSink with
                  | false => exact .inl ⟨fun hb => by simp [Complete] at hb, missing h⟩
                  | true => exact .inr ⟨by simp [Complete], start_failed h⟩

end LaunchSpec

namespace Process

/-- The lane runs, the flag is not set, and nobody has it. -/
structure Orphaned (p : Process) : Prop where
  lane : .lane ∈ p.running
  going : p.lane.pc ≠ .stopped
  stop : p.stop = false
  held : p.held = false

/-- No thread can change that. -/
theorem Orphaned.step {p p' : Process} {m : Move} {log : List Unit} (h : p.Orphaned)
    (hs : p.step m = .ok (p', log)) : p'.Orphaned := by
  rcases step_cases hs with ⟨sawStop, lane, hlane, rfl⟩ | ⟨_, -, hset, -⟩ | ⟨hheld, -⟩ | rfl
  · -- a lane that does not read a set flag goes on
    rw [h.stop, Bool.and_false] at hlane
    have hgoing : lane.pc ≠ .stopped := by
      rcases ResultLane.step_cases hlane with ⟨-, rfl⟩ | ⟨_, _, _, _, -, -, -, rfl⟩ |
        ⟨_, pc, -, hpc, rfl⟩ | ⟨hpc, rfl⟩
      · exact nofun
      · show p.lane.pc ≠ .stopped
        exact h.going
      · exact hpc
      · exact absurd hpc h.going
    rw [if_neg hgoing]
    exact ⟨h.lane, hgoing, h.stop, h.held⟩
  · rw [h.stop] at hset
    cases hset
  · rw [h.held] at hheld
    cases hheld
  · exact h

/-- **An orphaned lane runs for ever.** -/
theorem Orphaned.run {p p' : Process} {moves : List Move} {log : List Unit} (h : p.Orphaned)
    (hr : machine.run p moves = .ok (p', log)) : p'.Orphaned := by
  refine Machine.run_invariant machine (fun s _ => s.Orphaned) h ?_ hr
  intro s log m s' evs hs hstep
  exact hs.step hstep

theorem Orphaned.not_nothingLeft {p : Process} (h : p.Orphaned) : ¬ p.NothingLeft := by
  intro hnone
  obtain ⟨moves, p', log, hrun, hset⟩ := hnone .lane h.lane
  have hstop := (h.run hrun).stop
  rw [hset] at hstop
  cases hstop

end Process

/-- **A failed build is clean exactly when it failed before it started a thread.** For every engine,
every list of providers and whatever the outside answers: when `build` returns an error, no thread of
that call is left to run with a flag that nobody can set if and only if something was missing from the
builder. When connecting fails, the result lane is. -/
theorem failed_build_clean_iff (b : LaunchSpec)
    (connectOne : Nat → D → Exec (Except SenderError (Built H Q))) (ds : Nat → D × D)
    (tpaStart : Except TransportError Unit) (e : SenderError) (p : Process)
    (h : b.launch connectOne ds tpaStart = .ok (.error e, p)) : p.NothingLeft ↔ ¬ b.Complete := by
  rcases LaunchSpec.launch_failed h with ⟨hmissing, rfl⟩ | ⟨hcomplete, rfl⟩
  · refine ⟨fun _ => hmissing, fun _ t ht => ?_⟩
    exact absurd ht List.not_mem_nil
  · have horphan : Process.Orphaned { Process.idle with
        running := [.lane], lane := ResultLane.new (b.providers.map ProviderConfig.codec) } :=
      ⟨List.mem_singleton.mpr rfl, nofun, rfl, rfl⟩
    exact ⟨fun hnone => absurd hnone horphan.not_nothingLeft, fun hb => absurd hcomplete hb⟩

/-- A builder with one provider. -/
def oneProviderSpec (engine : EngineKind) : LaunchSpec where
  transport := some engine
  providers := [bareProvider .noResponse]
  hasSource := true
  hasSink := true
  hasTls := true

/-- What is left when its first connection cannot be made. -/
def leftover : Process where
  running := [.lane]
  lane := ResultLane.new [fun _ => .noResponse]
  stop := false
  held := false

theorem orphaned_leftover : leftover.Orphaned := ⟨List.mem_singleton.mpr rfl, nofun, rfl, rfl⟩

/-- **A refused connection leaves the lane running.** The first connection of the only provider is
refused; `build` returns that error, and whatever happens afterwards the lane is still running and the
flag is not set. -/
theorem refused_build_leaks :
    (oneProviderSpec (.socket .seqRaw)).launch (bareConnectOne [bareProvider .noResponse])
        (fun _ => (false, false)) (.ok ()) =
      .ok (.error (.connect 0 (.connect (.fromRawOsError 111))), leftover) ∧
    ¬ leftover.NothingLeft ∧
    ∀ moves p' log, Process.machine.run leftover moves = .ok (p', log) →
      .lane ∈ p'.running ∧ p'.stop = false := by
  have hone : bareConnectOne [bareProvider .noResponse] 0 false =
      .ok (.error (.connect 0 (.connect (.fromRawOsError 111)))) := by
    have hcode : (bareConnectOne [bareProvider .noResponse] 0 false).map (fun r => r.map fun _ => ()) =
        .ok (.error (.connect 0 (.connect (.fromRawOsError 111)))) := by decide +kernel
    obtain ⟨r, hr, hcode⟩ := map_eq_ok.mp hcode
    cases r with
    | error e => rw [hr, Except.error.inj hcode]
    | ok c => cases hcode
  refine ⟨?_, orphaned_leftover.not_nothingLeft, fun moves p' log hrun => ?_⟩
  · show LaunchSpec.start (.socket .seqRaw) [bareProvider .noResponse]
      (bareConnectOne [bareProvider .noResponse]) (fun _ => (false, false)) (.ok ()) = _
    simp only [LaunchSpec.start, List.length_singleton, connectDualAll, hone]
    rfl
  · have horphan := orphaned_leftover.run hrun
    exact ⟨horphan.lane, horphan.stop⟩

theorem failed_build_tpa :
    (oneProviderSpec .parTpa).launch (bareConnectOne []) (fun _ => (false, false)) (.error (.tpa (-1))) =
        .ok (.error (.connect 0 (.tpa (-1))), leftover) ∧
      (leftover.NothingLeft ↔ ¬ (oneProviderSpec .parTpa).Complete) :=
  ⟨rfl, failed_build_clean_iff (oneProviderSpec .parTpa) (bareConnectOne []) (fun _ => (false, false))
    (.error (.tpa (-1))) _ leftover rfl⟩

end TxSender.Transport
