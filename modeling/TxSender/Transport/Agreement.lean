/-
# TxSender.Transport.Agreement — the sequential worker is the parallel workers, in one thread.

Seen from provider `i`, a run of `SequentialWorker` is a run of `ParWorker` on those inputs of it that
concern `i`, with one more `drive` after each job. The two loops differ in where they stand: while the
sequential worker is busy with the other providers, the worker of `i` waits at `parPc i`, and it has
published its diagnostics a little earlier (`owed`). They also differ in what ends them. The sequential
worker makes the calls for all providers in one thread, so a call for another provider that panics or
does not return ends the thread for `i` too, and only then do the engines disagree (`engines_agree_iff`).
-/
import TxSender.Http.Reassembly
import TxSender.Transport.Isolation

namespace TxSender.Transport

open TxSender.Lib
open TxSender.Http
open TxSender.Protocol
open TxSender.Backend
open TxSender.Provider

variable {H A Q K D : Type}

/-! ## A worker that is driven once in a while -/

/-- A step of `run`, or one more `drive` of the active connection. -/
inductive DrivenInput (H A Q K : Type) where
  | step (inp : Input H A Q K)
  | drive (inp : Input H A Q K)

namespace ParWorker

def drivenStep (api : ConnApi H A Q K) (st : ParWorker H Q × Pc) :
    DrivenInput H A Q K → Exec ((ParWorker H Q × Pc) × List (Logged H A))
  | .step inp => step api st inp
  | .drive inp => .ok ((st.1.driveActive api inp, st.2), [])

/-- `run`, up to extra calls of `drive` -/
def driven (api : ConnApi H A Q K) :
    Machine (ParWorker H Q × Pc) (DrivenInput H A Q K) (Logged H A) where
  step := drivenStep api

/-- Without extra calls these are the runs of `machine`. -/
theorem driven_run (api : ConnApi H A Q K) (st : ParWorker H Q × Pc)
    (inputs : List (Input H A Q K)) :
    (driven api).run st (inputs.map .step) = (machine api).run st inputs := by
  induction inputs generalizing st with
  | nil => rfl
  | cons inp inputs ih =>
      show (step api st inp >>= _) = (step api st inp >>= _)
      congr 1
      funext out
      simp only [ih]

end ParWorker

/-! ## The projection -/

namespace SequentialWorker

/-- What provider `i` sees of the input of a step. -/
def project (i : Nat) (pc : Pc) (inp : Input H A Q K) : Option (DrivenInput H A Q K) :=
  match pc with
  | .top | .tick | .idle | .stopped => some (.step inp)
  | .send _ _ k | .reap k | .deliver k _ => if k = i then some (.step inp) else none
  | .kick k => if k = i then some (.drive inp) else none
  | .publish _ => none

/-- The diagnostics of provider `i`, between its own standby check and `publish_diag`. -/
def owed (i : Nat) (p : ParWorker H Q) : Pc → List (Logged H A)
  | .deliver k _ => if k ≤ i then [] else p.publishDiag.map (.on i)
  | .publish _ => p.publishDiag.map (.on i)
  | _ => []

end SequentialWorker

/-- The log as far as it concerns provider `i`: the jobs, and what happened for `i`. -/
def logAt (i : Nat) (log : List (Logged H A)) : List (Logged H A) :=
  log.filter fun l => match l with
    | .popped _ _ => true
    | .on j _ => j = i

@[simp] theorem logAt_append (i : Nat) (l l' : List (Logged H A)) :
    logAt i (l ++ l') = logAt i l ++ logAt i l' := List.filter_append ..

theorem logAt_map_on (i : Nat) (evs : List (Event H A)) :
    logAt i (evs.map (.on i)) = evs.map (.on i) := by
  simp [logAt]

theorem logAt_map_on_ne {i j : Nat} (hij : i ≠ j) (evs : List (Event H A)) :
    logAt j (evs.map (.on i)) = [] := by
  simp [logAt, hij]

theorem logAt_of_no_jobs {i : Nat} {logs : List (Logged H A)} (h : poppedJobs logs = []) :
    logAt i logs = (eventsAt i logs).map (.on i) := by
  induction logs with
  | nil => rfl
  | cons e logs ih =>
      cases e with
      | popped job sent => cases h
      | on j ev =>
          have hrest : logAt i logs = (eventsAt i logs).map (.on i) := ih h
          by_cases hji : j = i
          · subst hji
            simpa [logAt, eventsAt] using hrest
          · simpa [logAt, eventsAt, hji] using hrest

/-! ## One step -/

namespace SequentialWorker

/-- What the worker of provider `i` does during a step. -/
def Follows (api : ConnApi H A Q K) (i : Nat) (p : ParWorker H Q) (pc : Pc) (inp : Input H A Q K)
    (s' : SequentialWorker H Q) (pc' : Pc) (logs : List (Logged H A)) : Prop :=
  ∃ p' own, s'.Entries i p' ∧
    (ParWorker.driven api).run (p, parPc i pc) (project i pc inp).toList =
      .ok ((p', parPc i pc'), own) ∧
    owed i p pc ++ own = logAt i logs ++ owed i p' pc'

section Step

variable {api : ConnApi H A Q K} {i k : Nat} {p pk : ParWorker H Q} {pc pc' : Pc}
  {s s' : SequentialWorker H Q} {inp : Input H A Q K} {logs own : List (Logged H A)}

/-- The worker of `i` takes the same step. -/
theorem follows_step {p' : ParWorker H Q} {x : DrivenInput H A Q K} (hx : project i pc inp = some x)
    (hp' : s'.Entries i p')
    (hstep : ParWorker.drivenStep api (p, parPc i pc) x = .ok ((p', parPc i pc'), own))
    (hlog : owed i p pc ++ own = logAt i logs ++ owed i p' pc') :
    Follows api i p pc inp s' pc' logs := by
  refine ⟨p', own, hp', ?_, hlog⟩
  rw [hx]
  exact Machine.run_cons_eq_ok.mpr ⟨_, own, [], hstep, rfl, (List.append_nil own).symm⟩

/-- The worker of `i` waits. -/
theorem follows_wait (hx : project i pc inp = none) (hp : s'.Entries i p)
    (hpc : parPc i pc' = parPc i pc) (hlog : owed i p pc = logAt i logs ++ owed i p pc') :
    Follows api i p pc inp s' pc' logs := by
  refine ⟨p, [], hp, ?_, by rw [List.append_nil, hlog]⟩
  rw [hx, hpc]
  rfl

/-- A call on the entries at `k`, as `p` at `i` sees it. -/
theorem follows_call {p' : ParWorker H Q} {evs : List (Event H A)} {x : DrivenInput H A Q K}
    (hp : s.Entries i p) (hpk : s.Entries k pk) (hframe : pk.SameFrame p')
    (hx : project i pc inp = if k = i then some x else none)
    (hstep : k = i → ParWorker.drivenStep api (pk, parPc k pc) x =
      .ok ((p', parPc k pc'), evs.map (.on k) ++ owed k p' pc'))
    (hpc : k ≠ i → parPc i pc' = parPc i pc)
    (howed : k = i → owed k pk pc = ([] : List (Logged H A)))
    (howed' : k ≠ i → (owed i p pc : List (Logged H A)) = owed i p pc') :
    Follows api i p pc inp (s.put k p') pc' (evs.map (.on k)) := by
  by_cases hki : k = i
  · subst hki
    obtain rfl := entries_unique hp hpk
    rw [if_pos rfl] at hx
    refine follows_step hx (hp.put_self hframe) (hstep rfl) ?_
    rw [howed rfl, logAt_map_on]
    rfl
  · rw [if_neg hki] at hx
    refine follows_wait hx (hp.put_other hki) (hpc hki) ?_
    rw [logAt_map_on_ne hki, howed' hki]
    rfl

/-- A step of the loop that touches no connection, in which the worker of `i` takes the same step. -/
theorem follows_loop (hp : s.Entries i p) (hx : project i pc inp = some (.step inp))
    (hstep : ParWorker.step api (p, parPc i pc) inp = .ok ((p, parPc i pc'), logs))
    (howed : (owed i p pc : List (Logged H A)) = []) (hlogs : logAt i logs = logs)
    (howed' : (owed i p pc' : List (Logged H A)) = []) : Follows api i p pc inp s pc' logs := by
  refine follows_step hx hp hstep ?_
  rw [howed, howed', hlogs, List.append_nil]
  rfl

/-- A loop over the providers that passes another one does not pass `i`. -/
theorem ite_le_succ {α : Type} {k i : Nat} (hne : k ≠ i) (x y : α) :
    (if k + 1 ≤ i then x else y) = if k ≤ i then x else y := by
  by_cases hk : k ≤ i
  · rw [if_pos hk, if_pos (by omega)]
  · rw [if_neg hk, if_neg (by omega)]

theorem sameFrame_checkStandbyDelivery (p : ParWorker H Q)
    (delivered : Option (ReconnectResp H Q)) :
    p.SameFrame (p.checkStandbyDelivery (A := A) delivered).1 := by
  rcases delivered with _ | ⟨idx, c | _⟩ <;> exact ⟨rfl, rfl, rfl, rfl, rfl, rfl⟩

theorem checkStandbyDelivery_none {delivered : Option (ReconnectResp H Q)}
    (h : ∀ idx c, delivered ≠ some ⟨idx, .conn c⟩) :
    p.checkStandbyDelivery (A := A) delivered = (p, []) := by
  rcases delivered with _ | ⟨idx, c | _⟩
  · rfl
  · exact absurd rfl (h idx c)
  · rfl

/-- One round of the deliveries, with a response that is meant for `k`. -/
theorem follows_deliver {idle : Bool} (hp : s.Entries i p) (hpk : s.Entries k pk) :
    Follows api i p (.deliver k idle) inp
      (s.put k (pk.checkStandbyDelivery (A := A) inp.delivered).1) (.deliver (k + 1) idle)
      ((pk.checkStandbyDelivery inp.delivered).2.map (.on k)) := by
  have hframe := sameFrame_checkStandbyDelivery (A := A) pk inp.delivered
  refine follows_call hp hpk hframe rfl ?_ ?_ ?_ ?_
  · intro _
    simp [parPc, ParWorker.drivenStep, ParWorker.step, hframe.providerIdx, hpk.providerIdx, owed]
  · intro hne
    exact ite_le_succ hne _ _
  · intro _
    exact if_pos (Nat.le_refl k)
  · intro hne
    exact (ite_le_succ hne _ _).symm

/-- All providers tick at once. -/
theorem follows_tick (hp : s.Entries i p) :
    Follows api i p .tick inp { s with tick := s.tick + 1 }
      (if periodic (s.tick + 1) then .deliver 0 false else .idle) [] := by
  have hp' : ({ s with tick := s.tick + 1 } : SequentialWorker H Q).Entries i
      { p with tick := p.tick + 1 } :=
    ⟨hp.conns, hp.resultTx, hp.inflight, hp.reconnectRespRx, hp.diag, hp.jobsSent,
      hp.providerIdx, hp.connKind, by rw [hp.tick]⟩
  have hstep : ParWorker.drivenStep api (p, parPc i .tick) (.step inp) =
      .ok (({ p with tick := p.tick + 1 },
        parPc i (if periodic (s.tick + 1) then .deliver 0 false else .idle)), []) := by
    rw [← hp.tick]
    cases hper : periodic (p.tick + 1) with
    | true => simp [parPc, ParWorker.drivenStep, ParWorker.step, hper]
    | false => simp [parPc, ParWorker.drivenStep, ParWorker.step, hper]
  refine follows_step rfl hp' hstep ?_
  cases periodic (s.tick + 1) with
  | true => simp [owed, logAt]
  | false => simp [owed, logAt]

theorem step_follows (hs : s.Sized) (hp : s.Entries i p)
    (hmeant : ∀ k idle r, pc = .deliver k idle → inp.delivered = some r → r.providerIdx = k)
    (h : step api (s, pc) inp = .ok ((s', pc'), logs)) : Follows api i p pc inp s' pc' logs := by
  have hi : i < s.conns.length := (List.getElem?_eq_some_iff.mp hp.conns).1
  cases step_turn hs h with
  | stop hstop => exact follows_loop hp rfl (by simp [parPc, ParWorker.step, hstop]) rfl rfl rfl
  | pop job hstop hpop =>
      exact follows_loop hp rfl (by simp [parPc, ParWorker.step, hstop, hpop]) rfl rfl rfl
  | nothing hstop hpop =>
      exact follows_loop hp rfl (by simp [parPc, ParWorker.step, hstop, hpop]) rfl rfl rfl
  | send job sent k hpk hsend =>
      have hframe := (ParWorker.sendTo_does hsend).sameFrame
      refine follows_call hp hpk hframe rfl ?_ ?_ (fun _ => rfl) (fun _ => rfl)
      · intro _
        simp [parPc, ParWorker.drivenStep, ParWorker.step, hsend, hframe.providerIdx,
          hpk.providerIdx, owed]
      · intro hne
        exact ite_le_succ hne _ _
  | sendEnd job sent k hk =>
      refine follows_wait (if_neg (by omega)) hp ?_ rfl
      exact (if_neg (by omega)).symm
  | @kick k pk hpk =>
      have hframe : pk.SameFrame (pk.driveActive api inp) := ⟨rfl, rfl, rfl, rfl, rfl, rfl⟩
      show Follows api i p (.kick k) inp _ _ (([] : List (Event H A)).map (.on k))
      exact follows_call hp hpk hframe rfl (fun _ => rfl) (fun _ => rfl) (fun _ => rfl) (fun _ => rfl)
  | kickEnd k hk =>
      refine follows_wait (if_neg (by omega)) hp ?_ rfl
      simp [parPc]
  | reap k hpk hreap =>
      obtain ⟨-, hframe⟩ := driveReap_does hpk hreap
      refine follows_call hp hpk hframe rfl ?_ ?_ (fun _ => rfl) (fun _ => rfl)
      · intro _
        simp [parPc, ParWorker.drivenStep, ParWorker.step, hreap, hframe.providerIdx,
          hpk.providerIdx, owed]
      · intro hne
        exact ite_le_succ hne _ _
  | reapEnd k hk =>
      refine follows_wait (if_neg (by omega)) hp ?_ rfl
      exact (if_neg (by omega)).symm
  | tick => exact follows_tick hp
  | install k idle idx c hk hdel hpk =>
      obtain rfl : idx = k := hmeant k idle _ rfl hdel
      have hfollows : Follows api i p (.deliver idx idle) inp _ _ _ := follows_deliver hp hpk
      rw [hdel] at hfollows
      exact hfollows
  | noInstall k idle hk hdel =>
      obtain ⟨pk, hpk⟩ := hs.entries hk
      have hfollows : Follows api i p (.deliver k idle) inp _ _ _ := follows_deliver hp hpk
      -- a round that installs nothing is a call that changes nothing
      rw [checkStandbyDelivery_none hdel, hpk.put_same] at hfollows
      exact hfollows
  | deliverEnd k idle hk =>
      refine follows_wait (if_neg (by omega)) hp ?_ ?_
      · exact (if_neg (by omega)).symm
      · exact if_neg (by omega)
  | publish idle hpub =>
      -- the worker of `i` has published in its own step, and what it owed is paid here
      obtain ⟨hpop, hat⟩ := publishDiag_at hp.jobsSent s.diag 0 hpub
      rw [if_pos (Nat.zero_le i), Nat.sub_zero, hp.diag] at hat
      refine follows_wait rfl hp ?_ ?_
      · cases idle <;> rfl
      · rw [logAt_of_no_jobs hpop, hat]
        cases idle <;> rfl
  | idle =>
      cases hempty : inp.empty with
      | true => exact follows_loop hp rfl (by simp [parPc, ParWorker.step, hempty]) rfl rfl rfl
      | false => exact follows_loop hp rfl (by simp [parPc, ParWorker.step, hempty]) rfl rfl rfl
  | stopped => exact follows_loop hp rfl rfl rfl rfl rfl

end Step

end SequentialWorker

/-! ## The sender -/

/-- The diagnostics of provider `i` that are not published yet. -/
def Workers.owed (i : Nat) : Workers H Q → List (Logged H A)
  | .sequential s pc =>
      match s.view i with
      | some p => SequentialWorker.owed i p pc
      | none => []
  | .parallel _ => []

namespace Sender

/-- What provider `i` sees of an action. -/
def projected (i : Nat) (s : Sender H Q) : Action H A Q K D → Option (DrivenInput H A Q K)
  | .worker 0 inp =>
      match s.workers with
      | .sequential _ pc => SequentialWorker.project i pc (s.hand 0 inp)
      | .parallel _ => none
  | _ => none

/-- What provider `i` sees of a run. -/
def projectRun (api : ConnApi H A Q K) (builder : ReconnectBuilder H Q D) (i : Nat) (s : Sender H Q) :
    List (Action H A Q K D) → List (DrivenInput H A Q K)
  | [] => []
  | a :: actions =>
      (s.projected i a).toList ++
        match step api builder s a with
        | .ok (s', _) => projectRun api builder i s' actions
        | .error _ => []

section Step

variable {n : Nat} {kind : ConnKind} {made : Nat → Built H Q → Prop} {s s' : Sender H Q}
  {api : ConnApi H A Q K} {w : SequentialWorker H Q} {pc : SequentialWorker.Pc}

/-- What a sequential worker finds in response channel `k` is meant for provider `k`. -/
theorem hand_meant (hw : s.Wired n kind made) (hseq : s.workers = .sequential w pc)
    {inp : Input H A Q K} {k : Nat} {idle : Bool} {r : ReconnectResp H Q} (hpc : pc = .deliver k idle)
    (hr : (s.hand 0 inp).delivered = some r) : r.providerIdx = k := by
  have hrecv := (hand_delivered hw hr).1
  have hworkers := hw.workers
  rw [hseq, hpc] at hrecv hworkers
  have hrx : w.reconnectRespRx[k]? = some r.providerIdx := hrecv
  have hsized := hworkers.sized w _ rfl
  have hk : k < w.conns.length := by
    rw [← hsized.reconnectRespRx]
    exact (List.getElem?_eq_some_iff.mp hrx).1
  obtain ⟨pk, hpk⟩ := hsized.entries hk
  have hends := hworkers.ends k pk (SequentialWorker.view_eq_some_iff.mpr hpk)
  rw [hpk.reconnectRespRx, hends.reconnectRespRx] at hrx
  exact (Option.some.inj hrx).symm

/-- **One step**, seen from provider `i`. -/
theorem step_follows {builder : ReconnectBuilder H Q D} (hw : s.Wired n kind made)
    (hseq : s.workers = .sequential w pc) {i : Nat} {p : ParWorker H Q} (hp : w.Entries i p)
    {a : Action H A Q K D} {logs : List (Logged H A)} (h : step api builder s a = .ok (s', logs)) :
    ∃ w' pc' p' own, s'.workers = .sequential w' pc' ∧ w'.Entries i p' ∧
      (ParWorker.driven api).run (p, SequentialWorker.parPc i pc) (s.projected i a).toList =
        .ok ((p', SequentialWorker.parPc i pc'), own) ∧
      SequentialWorker.owed i p pc ++ own = logAt i logs ++ SequentialWorker.owed i p' pc' := by
  have hstay : s'.workers = s.workers → logs = [] → s.projected i a = none →
      ∃ w' pc' p' own, s'.workers = .sequential w' pc' ∧ w'.Entries i p' ∧
        (ParWorker.driven api).run (p, SequentialWorker.parPc i pc) (s.projected i a).toList =
          .ok ((p', SequentialWorker.parPc i pc'), own) ∧
        SequentialWorker.owed i p pc ++ own = logAt i logs ++ SequentialWorker.owed i p' pc' := by
    intro hworkers hlogs hnone
    refine ⟨w, pc, p, [], hworkers.trans hseq, hp, ?_, ?_⟩
    · rw [hnone]
      rfl
    · rw [hlogs, List.append_nil]
      rfl
  rcases step_cases h with ⟨j, inp, rfl, hstep, -⟩ | ⟨hlogs, hworkers, hworker, -⟩
  · rw [hseq] at hstep
    cases j with
    | succ j =>
        obtain ⟨hsame, hnone⟩ := Prod.mk.inj (Except.ok.inj hstep)
        exact hstay (hsame.symm.trans hseq.symm) hnone.symm rfl
    | zero =>
        obtain ⟨⟨⟨w', pc'⟩, evs⟩, hone, hstep⟩ := bind_eq_ok.mp hstep
        obtain ⟨hworkers, rfl⟩ := Prod.mk.inj (Except.ok.inj hstep)
        obtain ⟨p', own, hp', hrun, hlog⟩ := SequentialWorker.step_follows
          ((hseq ▸ hw.workers).sized w pc rfl) hp (fun k idle r => hand_meant hw hseq) hone
        refine ⟨w', pc', p', own, hworkers.symm, hp', ?_, hlog⟩
        rw [projected, hseq]
        exact hrun
  · refine hstay hworkers hlogs ?_
    cases a with
    | worker j inp => exact absurd rfl (hworker j inp)
    | _ => rfl

/-- **A run**, seen from provider `i`. -/
theorem run_follows {connectOne : Nat → D → Exec (Except SenderError (Built H Q))} {i : Nat}
    {actions : List (Action H A Q K D)} {log : List (Logged H A)} {p : ParWorker H Q}
    (hw : s.Wired n kind fun i c => ∃ d, connectOne i d = .ok (.ok c))
    (hseq : s.workers = .sequential w pc) (hp : w.Entries i p)
    (h : (machine api (engineReconnectBuilder connectOne)).run s actions = .ok (s', log)) :
    ∃ w' pc' p' own, s'.workers = .sequential w' pc' ∧ w'.Entries i p' ∧
      (ParWorker.driven api).run (p, SequentialWorker.parPc i pc)
          (projectRun api (engineReconnectBuilder connectOne) i s actions) =
        .ok ((p', SequentialWorker.parPc i pc'), own) ∧
      SequentialWorker.owed i p pc ++ own = logAt i log ++ SequentialWorker.owed i p' pc' := by
  induction actions generalizing s w pc p log with
  | nil =>
      cases h
      exact ⟨w, pc, p, [], hseq, hp, rfl, by rw [List.append_nil]; rfl⟩
  | cons a actions ih =>
      obtain ⟨s₁, logs, rest, hone, hrest, rfl⟩ := Machine.run_cons_eq_ok.mp h
      have hone' : step api (engineReconnectBuilder connectOne) s a = .ok (s₁, logs) := hone
      obtain ⟨w₁, pc₁, p₁, own₁, hseq₁, hp₁, hrun₁, hlog₁⟩ := step_follows hw hseq hp hone'
      obtain ⟨w', pc', p', own, hseq', hp', hrun', hlog'⟩ :=
        ih (wired_step hw hone') hseq₁ hp₁ hrest
      refine ⟨w', pc', p', own₁ ++ own, hseq', hp', ?_, ?_⟩
      · rw [projectRun, hone']
        exact Machine.run_append hrun₁ hrun'
      · rw [← List.append_assoc, hlog₁, List.append_assoc, hlog', logAt_append, List.append_assoc]

end Step

/-! ## Threads that halt -/

/-- If the action is the end of a rebuild, that rebuild returns. -/
def RebuildReturns (builder : ReconnectBuilder H Q D) (s : Sender H Q) : Action H A Q K D → Prop
  | .finish d => ∃ rc, s.reconnect.finish builder d = .ok rc
  | _ => True

/-- If the action makes a call for a provider other than `i`, that call returns. -/
def OthersReturn (api : ConnApi H A Q K) (i : Nat) (s : Sender H Q) : Action H A Q K D → Prop
  | .worker j inp => s.workers.CallReturns api (· ≠ i) j (s.hand j inp)
  | _ => True

/-- What a run comes to for provider `i`: where it stands and what was logged for it, or that the thread
halted. -/
def outcomeAt (i : Nat) (out : Exec (Sender H Q × List (Logged H A))) :
    Exec ((Option (ParWorker H Q) × ParWorker.Pc) × List (Logged H A)) :=
  out.map fun x => ((x.1.workers.view i, x.1.workers.parPc i), logAt i x.2 ++ x.1.workers.owed i)

section Halts

variable {n : Nat} {kind : ConnKind} {made : Nat → Built H Q → Prop} {codecs : List Codec}
  {s s' : Sender H Q} {api : ConnApi H A Q K} {w : SequentialWorker H Q} {pc : SequentialWorker.Pc}
  {i : Nat} {p : ParWorker H Q} {a : Action H A Q K D} {log logs : List (Logged H A)} {e : Halt}

theorem othersReturn_of_step {builder : ReconnectBuilder H Q D} (hw : s.Wired n kind made)
    (h : step api builder s a = .ok (s', logs)) : s.OthersReturn api i a := by
  cases a with
  | worker j inp =>
      obtain ⟨x, hstep, -⟩ := bind_eq_ok.mp h
      have hreturns := (Workers.step_returns_iff hw.workers (hw.hand_lt j inp)).mp ⟨x, hstep⟩
      exact hreturns.mono fun _ _ => trivial
  | _ => trivial

theorem rebuildReturns_of_step {builder : ReconnectBuilder H Q D}
    (h : step api builder s a = .ok (s', logs)) : s.RebuildReturns builder a := by
  cases a with
  | finish d =>
      obtain ⟨rc, hrc, -⟩ := bind_eq_ok.mp h
      exact ⟨rc, hrc⟩
  | _ => trivial

/-- Only a worker halts, if rebuilds return: in a call for some provider. -/
theorem worker_of_step_halts {builder : ReconnectBuilder H Q D}
    (hkept : Kept api made n kind codecs s log) (hrebuild : s.RebuildReturns builder a)
    (h : step api builder s a = .error e) :
    ∃ j inp k duty p, a = .worker j inp ∧ s.workers.duty j = some (k, duty) ∧
      s.workers.view k = some p ∧ duty.call api k p (s.hand j inp) = .error e := by
  cases a with
  | worker j inp =>
      rcases bind_eq_error.mp h with hstep | ⟨x, -, hrest⟩
      · obtain ⟨k, duty, p, hduty, hp, hcall⟩ := (Workers.step_halts_iff hkept.wired.workers
          (hkept.wired.hand_lt j inp)).mp hstep
        exact ⟨j, inp, k, duty, p, rfl, hduty, hp, hcall⟩
      · cases hrest
  | finish d =>
      obtain ⟨rc, hrc⟩ := hrebuild
      simp only [step, hrc, ok_bind] at h
      cases h
  | lane sawStop =>
      obtain ⟨lane, hlane⟩ := hkept.lane.step_ok (sawStop && s.stop)
      simp only [step, hlane, ok_bind] at h
      cases h
  | take | exit | shutdown => cases h

/-- **A halting step**, seen from provider `i`: its own worker halts there too, or it is not concerned. -/
theorem step_halts_follows {builder : ReconnectBuilder H Q D}
    (hkept : Kept api made n kind codecs s log) (hseq : s.workers = .sequential w pc)
    (hp : w.Entries i p) (hrebuild : s.RebuildReturns builder a)
    (h : step api builder s a = .error e) :
    (s.OthersReturn api i a ∧
      (ParWorker.driven api).run (p, SequentialWorker.parPc i pc) (s.projected i a).toList =
        .error e) ∨
    (¬ s.OthersReturn api i a ∧ s.projected i a = none) := by
  obtain ⟨j, inp, k, duty, pk, rfl, hduty, hpk, hcall⟩ := worker_of_step_halts hkept hrebuild h
  have hthread : j = 0 := by
    cases j with
    | zero => rfl
    | succ j =>
        rw [hseq, SequentialWorker.duty_succ] at hduty
        cases hduty
  subst hthread
  have hproject : s.projected i (.worker 0 inp : Action H A Q K D) =
      if k = i then some (.step (s.hand 0 inp)) else none := by
    rw [hseq] at hduty
    simp only [projected, hseq]
    obtain ⟨-, ⟨job, sent, rfl, rfl⟩ | ⟨rfl, rfl⟩⟩ := SequentialWorker.pc_of_duty hduty
    · rfl
    · rfl
  by_cases hki : k = i
  · subst hki
    refine .inl ⟨?_, ?_⟩
    · intro k' duty' p' hduty' hne
      rw [hduty] at hduty'
      cases hduty'
      exact absurd rfl hne
    · have hview : s.workers.view k = some p := by
        rw [hseq]
        exact SequentialWorker.view_eq_some_iff.mpr hp
      obtain rfl := Option.some.inj (hpk.symm.trans hview)
      have hpc := Workers.duty_parPc hduty
      rw [hseq] at hpc
      have hhalt : ParWorker.step api (pk, SequentialWorker.parPc k pc) (s.hand 0 inp) = .error e := by
        refine ParWorker.step_halts_iff.mpr ⟨duty, hpc, ?_⟩
        rw [hp.providerIdx]
        exact hcall
      rw [hproject, if_pos rfl]
      show ParWorker.step api (pk, SequentialWorker.parPc k pc) (s.hand 0 inp) >>= _ = _
      rw [hhalt]
      rfl
  · refine .inr ⟨?_, ?_⟩
    · intro hothers
      obtain ⟨out, hout⟩ := hothers k duty pk hduty hki hpk
      rw [hcall] at hout
      cases hout
    · rw [hproject, if_neg hki]

/-- **A halting run**, seen from provider `i`: if the calls for the others returned, then its own worker
halts as the thread did, and otherwise its own worker goes on. -/
theorem run_halts_follows {connectOne : Nat → D → Exec (Except SenderError (Built H Q))}
    {actions : List (Action H A Q K D)}
    (hkept : Kept api (fun i c => ∃ d, connectOne i d = .ok (.ok c)) n kind codecs s log)
    (hseq : s.workers = .sequential w pc) (hp : w.Entries i p)
    (hrebuilds : (machine api (engineReconnectBuilder connectOne)).Meets
      (RebuildReturns (engineReconnectBuilder connectOne)) s actions)
    (h : (machine api (engineReconnectBuilder connectOne)).run s actions = .error e) :
    ((machine api (engineReconnectBuilder connectOne)).Meets (OthersReturn api i) s actions ∧
      (ParWorker.driven api).run (p, SequentialWorker.parPc i pc)
        (projectRun api (engineReconnectBuilder connectOne) i s actions) = .error e) ∨
    (¬ (machine api (engineReconnectBuilder connectOne)).Meets (OthersReturn api i) s actions ∧
      ∃ out, (ParWorker.driven api).run (p, SequentialWorker.parPc i pc)
        (projectRun api (engineReconnectBuilder connectOne) i s actions) = .ok out) := by
  induction actions generalizing s w pc p log with
  | nil => cases h
  | cons a actions ih =>
      cases hone : step api (engineReconnectBuilder connectOne) s a with
      | error e' =>
          obtain rfl : e' = e := by
            rcases bind_eq_error.mp h with hstep | ⟨x, hstep, -⟩
            · exact Except.error.inj (hone.symm.trans hstep)
            · cases hone.symm.trans hstep
          rw [projectRun, hone, List.append_nil]
          rcases step_halts_follows hkept hseq hp hrebuilds.1 hone with ⟨hothers, hpar⟩ | ⟨hnot, hnone⟩
          · refine .inl ⟨⟨hothers, ?_⟩, hpar⟩
            intro s' evs hstep
            cases hone.symm.trans hstep
          · refine .inr ⟨fun hmeets => hnot hmeets.1, ?_⟩
            rw [hnone]
            exact ⟨_, rfl⟩
      | ok x =>
          obtain ⟨s₁, logs⟩ := x
          have hrest : (machine api (engineReconnectBuilder connectOne)).run s₁ actions = .error e := by
            rcases bind_eq_error.mp h with hstep | ⟨x, hstep, hrest⟩
            · cases hone.symm.trans hstep
            · cases hone.symm.trans hstep
              rcases bind_eq_error.mp hrest with hrest | ⟨y, -, hpure⟩
              · exact hrest
              · cases hpure
          obtain ⟨w₁, pc₁, p₁, own₁, hseq₁, hp₁, hrun₁, -⟩ := step_follows hkept.wired hseq hp hone
          rw [projectRun, hone]
          rcases ih (kept_step hkept hone) hseq₁ hp₁ (hrebuilds.2 _ _ hone) hrest with
            ⟨hmeets, hpar⟩ | ⟨hnot, out, hpar⟩
          · refine .inl ⟨⟨othersReturn_of_step hkept.wired hone, ?_⟩, ?_⟩
            · intro s' evs hstep
              cases hone.symm.trans hstep
              exact hmeets
            · exact Machine.run_append_error hrun₁ hpar
          · refine .inr ⟨fun hmeets => hnot (hmeets.2 _ _ hone), ?_⟩
            exact ⟨_, Machine.run_append hrun₁ hpar⟩

end Halts

end Sender

/-- What the provider's own worker comes to. -/
def ParWorker.outcome (out : Exec ((ParWorker H Q × Pc) × List (Logged H A))) :
    Exec ((Option (ParWorker H Q) × Pc) × List (Logged H A)) :=
  out.map fun x => ((some x.1.1, x.1.2), x.2)

section Build

variable {api : ConnApi H A Q K} {b : SenderBuilder} {ds : Nat → D × D} {s₀ s : Sender H Q}
  {connectOne : Nat → D → Exec (Except SenderError (Built H Q))} {i : Nat}
  {actions : List (Action H A Q K D)} {log : List (Logged H A)} {p₀ : ParWorker H Q}

theorem build_sequential (hbuild : b.build connectOne ds = .ok (.ok s₀))
    (hseq : b.transport ≠ some .parRaw) : ∃ w, s₀.workers = .sequential w .top := by
  obtain ⟨engine, duals, ws, htr, -, hspawn, rfl⟩ := build_eq_ok hbuild
  cases engine with
  | seqRaw =>
      cases hspawn
      exact ⟨_, rfl⟩
  | seqUring =>
      cases hspawn
      exact ⟨_, rfl⟩
  | parRaw => exact absurd htr hseq

/-- The worker of provider `i` at its start. -/
theorem build_starts (hbuild : b.build connectOne ds = .ok (.ok s₀))
    (hseq : b.transport ≠ some .parRaw) (hi : i < b.providers.length) :
    ∃ engine p₀, b.transport = some engine ∧ s₀.workers.view i = some p₀ ∧
      Fresh engine.connKind (fun i c => ∃ d, connectOne i d = .ok (.ok c)) i p₀ ∧
      ∃ w₀, s₀.workers = .sequential w₀ .top ∧ w₀.Entries i p₀ := by
  obtain ⟨engine, htr, hw, hfresh, -, -⟩ := build_spec hbuild
  obtain ⟨w₀, hw₀⟩ := build_sequential hbuild hseq
  obtain ⟨p₀, hp₀⟩ := hw.workers.here i hi
  have hentries : w₀.Entries i p₀ := by
    rw [hw₀] at hp₀
    exact SequentialWorker.view_eq_some_iff.mp hp₀
  exact ⟨engine, p₀, htr, hp₀, hfresh i p₀ hp₀, w₀, hw₀, hentries⟩

/-- The worker of provider `i`, from its start on. -/
theorem build_follows {w₀ : SequentialWorker H Q} (hbuild : b.build connectOne ds = .ok (.ok s₀))
    (hw₀ : s₀.workers = .sequential w₀ .top) (hp₀ : w₀.Entries i p₀)
    (hrun : (Sender.machine api (engineReconnectBuilder connectOne)).run s₀ actions = .ok (s, log)) :
    ∃ p, s.workers.view i = some p ∧
      (ParWorker.driven api).run (p₀, .top)
          (Sender.projectRun api (engineReconnectBuilder connectOne) i s₀ actions) =
        .ok ((p, s.workers.parPc i), logAt i log ++ s.workers.owed i) := by
  obtain ⟨engine, -, hw, -⟩ := build_spec hbuild
  obtain ⟨w, pc, p, own, hseq', hp, hpar, hlog⟩ := Sender.run_follows hw hw₀ hp₀ hrun
  have hview : w.view i = some p := SequentialWorker.view_eq_some_iff.mpr hp
  refine ⟨p, ?_, ?_⟩
  · rw [hseq']
    exact hview
  · have howed : (s.workers.owed i : List (Logged H A)) = SequentialWorker.owed i p pc := by
      rw [hseq']
      simp only [Workers.owed, hview]
    rw [howed, ← hlog, hseq']
    exact hpar

/-- The two workers come to the same for provider `i` exactly when the calls for the others returned. -/
theorem build_agrees_iff {w₀ : SequentialWorker H Q} (hbuild : b.build connectOne ds = .ok (.ok s₀))
    (hw₀ : s₀.workers = .sequential w₀ .top) (hp₀ : w₀.Entries i p₀)
    (hrebuilds : (Sender.machine api (engineReconnectBuilder connectOne)).Meets
      (Sender.RebuildReturns (engineReconnectBuilder connectOne)) s₀ actions) :
    Sender.outcomeAt i ((Sender.machine api (engineReconnectBuilder connectOne)).run s₀ actions) =
        ParWorker.outcome ((ParWorker.driven api).run (p₀, .top)
          (Sender.projectRun api (engineReconnectBuilder connectOne) i s₀ actions)) ↔
      (Sender.machine api (engineReconnectBuilder connectOne)).Meets (Sender.OthersReturn api i) s₀
        actions := by
  obtain ⟨kind, hkept⟩ := kept_build api hbuild
  cases hrun : (Sender.machine api (engineReconnectBuilder connectOne)).run s₀ actions with
  | ok x =>
      obtain ⟨s, log⟩ := x
      refine iff_of_true ?_ ?_
      · obtain ⟨p, hp, hpar⟩ := build_follows hbuild hw₀ hp₀ hrun
        rw [hpar]
        simp only [Sender.outcomeAt, ParWorker.outcome, Except.map, hp]
      · refine Machine.meets_of_run _
          (fun s => s.Wired b.providers.length kind fun i c => ∃ d, connectOne i d = .ok (.ok c)) _ ?_
          hkept.wired hrun
        intro s a s' evs hw hone
        exact ⟨Sender.wired_step hw hone, Sender.othersReturn_of_step hw hone⟩
  | error e =>
      rcases Sender.run_halts_follows hkept hw₀ hp₀ hrebuilds hrun with ⟨hmeets, hpar⟩ | ⟨hnot, out, hpar⟩
      · refine iff_of_true ?_ hmeets
        have hpar' : (ParWorker.driven api).run (p₀, .top)
            (Sender.projectRun api (engineReconnectBuilder connectOne) i s₀ actions) = .error e := hpar
        rw [hpar']
        rfl
      · refine iff_of_false ?_ hnot
        have hpar' : (ParWorker.driven api).run (p₀, .top)
            (Sender.projectRun api (engineReconnectBuilder connectOne) i s₀ actions) = .ok out := hpar
        rw [hpar']
        intro hsame
        cases hsame

end Build

/-- **When the engines agree.** Seen from provider `i`, every run of a sender with a sequential engine is a
run of the parallel worker of `i`, started with the same connections, on the inputs that concern `i` and
with extra calls of `drive` at most: the same entries of the log, up to diagnostics that are yet to be
published, and the same state of `i`. Whether the thread halts is the same too, if and only if no call for
another provider halts, provided that rebuilds return. Then two runs in which `i` starts alike and sees the
same inputs are alike for `i`, whatever the other providers do. -/
theorem engines_agree_iff {api : ConnApi H A Q K} {b : SenderBuilder} {ds : Nat → D × D}
    {connectOne : Nat → D → Exec (Except SenderError (Built H Q))} {s₀ : Sender H Q} {i : Nat}
    {actions : List (Action H A Q K D)}
    (hbuild : b.build connectOne ds = .ok (.ok s₀)) (hseq : b.transport ≠ some .parRaw)
    (hi : i < b.providers.length)
    (hrebuilds : (Sender.machine api (engineReconnectBuilder connectOne)).Meets
      (Sender.RebuildReturns (engineReconnectBuilder connectOne)) s₀ actions) :
    ∃ engine p₀, b.transport = some engine ∧ s₀.workers.view i = some p₀ ∧
      Fresh engine.connKind (fun i c => ∃ d, connectOne i d = .ok (.ok c)) i p₀ ∧
      (∀ s log, (Sender.machine api (engineReconnectBuilder connectOne)).run s₀ actions =
          .ok (s, log) →
        ∃ p, s.workers.view i = some p ∧
          (ParWorker.driven api).run (p₀, .top)
              (Sender.projectRun api (engineReconnectBuilder connectOne) i s₀ actions) =
            .ok ((p, s.workers.parPc i), logAt i log ++ s.workers.owed i)) ∧
      (Sender.outcomeAt i
            ((Sender.machine api (engineReconnectBuilder connectOne)).run s₀ actions) =
          ParWorker.outcome ((ParWorker.driven api).run (p₀, .top)
            (Sender.projectRun api (engineReconnectBuilder connectOne) i s₀ actions)) ↔
        (Sender.machine api (engineReconnectBuilder connectOne)).Meets (Sender.OthersReturn api i)
          s₀ actions) ∧
      ∀ {b' : SenderBuilder} {ds' : Nat → D × D}
        {connectOne' : Nat → D → Exec (Except SenderError (Built H Q))} {s₀' : Sender H Q}
        {actions' : List (Action H A Q K D)},
        b'.build connectOne' ds' = .ok (.ok s₀') → b'.transport ≠ some .parRaw →
        i < b'.providers.length → s₀'.workers.view i = s₀.workers.view i →
        (Sender.machine api (engineReconnectBuilder connectOne')).Meets
          (Sender.RebuildReturns (engineReconnectBuilder connectOne')) s₀' actions' →
        Sender.projectRun api (engineReconnectBuilder connectOne') i s₀' actions' =
          Sender.projectRun api (engineReconnectBuilder connectOne) i s₀ actions →
        (Sender.machine api (engineReconnectBuilder connectOne)).Meets (Sender.OthersReturn api i)
          s₀ actions →
        (Sender.machine api (engineReconnectBuilder connectOne')).Meets (Sender.OthersReturn api i)
          s₀' actions' →
        Sender.outcomeAt i
            ((Sender.machine api (engineReconnectBuilder connectOne')).run s₀' actions') =
          Sender.outcomeAt i
            ((Sender.machine api (engineReconnectBuilder connectOne)).run s₀ actions) := by
  obtain ⟨engine, p₀, htr, hview, hfresh, w₀, hw₀, hp₀⟩ := build_starts hbuild hseq hi
  have hagrees := build_agrees_iff hbuild hw₀ hp₀ hrebuilds
  refine ⟨engine, p₀, htr, hview, hfresh, ?_, hagrees, ?_⟩
  · intro s log hrun
    exact build_follows hbuild hw₀ hp₀ hrun
  · intro b' ds' connectOne' s₀' actions' hbuild' hseq' hi' hsame hrebuilds' hinputs hothers hothers'
    obtain ⟨_, p₀', -, hview', -, w₀', hw₀', hp₀'⟩ := build_starts hbuild' hseq' hi'
    obtain rfl : p₀' = p₀ := Option.some.inj (hview'.symm.trans (hsame.trans hview))
    rw [(build_agrees_iff hbuild' hw₀' hp₀' hrebuilds').mpr hothers', hinputs, hagrees.mpr hothers]

/-- Two providers; a job is sent to both and the second answers. -/
def secondAnswers : List (Action (HttpConn RawConn Bytes) RawAnswer (QuicEngine Bool) Bool Bool) :=
  let base := Input.quiet RawAnswer.silent false
  let send := { base with call := .takes 90 }
  [{ base with popped := some ⟨1, 0⟩, tsc := 10 }, send, send, base, base, base, base, base,
    { base with call := .arrives okResponse.bytes }, base].map (.worker 0)

theorem engines_agree_second_answers :
    ∃ s₀ s log p₀, (bareSender .seqRaw twoProviders).build (bareConnectOne twoProviders)
        (fun _ => (true, true)) = .ok (.ok s₀) ∧
      (bareMachine twoProviders).run s₀ secondAnswers = .ok (s, log) ∧
      (pushesIn log).map (fun x => (x.1, x.2.job)) = [(1, 1)] ∧
      s₀.workers.view 1 = some p₀ ∧
      (bareMachine twoProviders).Meets
        (Sender.OthersReturn (rawApi plainTls (quinnApi flagQuinn)) 1) s₀ secondAnswers ∧
      Sender.outcomeAt 1 ((bareMachine twoProviders).run s₀ secondAnswers) =
        ParWorker.outcome ((ParWorker.driven (rawApi plainTls (quinnApi flagQuinn))).run (p₀, .top)
          (Sender.projectRun (rawApi plainTls (quinnApi flagQuinn))
            (engineReconnectBuilder (bareConnectOne twoProviders)) 1 s₀ secondAnswers)) := by
  obtain ⟨s₀, hbuild, out, hout, hpushed⟩ := exists_built (bareSender .seqRaw twoProviders)
    (bareConnectOne twoProviders) (fun _ => (true, true))
    (fun s₀ => ∃ out ∈ ((bareMachine twoProviders).run s₀ secondAnswers).toOption,
      (pushesIn out.2).map (fun x => (x.1, x.2.job)) = [(1, 1)]) (by decide +kernel)
  have hrun := eq_ok_of_mem_toOption hout
  obtain ⟨kind, hkept⟩ := kept_build (rawApi plainTls (quinnApi flagQuinn)) hbuild
  -- the run returned, so every rebuild and every call in it did
  have hrebuilds : (bareMachine twoProviders).Meets (Sender.RebuildReturns _) s₀ secondAnswers :=
    Machine.meets_of_run _ (fun _ => True) _
      (fun s a s' evs _ hone => ⟨trivial, Sender.rebuildReturns_of_step hone⟩) trivial hrun
  have hothers : (bareMachine twoProviders).Meets
      (Sender.OthersReturn (rawApi plainTls (quinnApi flagQuinn)) 1) s₀ secondAnswers :=
    Machine.meets_of_run _ (fun s => s.Wired 2 kind fun i c => ∃ d,
        bareConnectOne twoProviders i d = .ok (.ok c)) _
      (fun s a s' evs hw hone => ⟨Sender.wired_step hw hone, Sender.othersReturn_of_step hw hone⟩)
      hkept.wired hrun
  obtain ⟨_, p₀, -, hp₀, -, -, hiff, -⟩ :=
    engines_agree_iff hbuild (by decide) (show 1 < 2 by decide) hrebuilds
  exact ⟨s₀, out.1, out.2, p₀, hbuild, hrun, hpushed, hp₀, hothers, hiff.mpr hothers⟩

/-- A job is sent to both providers. Provider 1 answers `first` in the first round, and provider 0 answers
the job in the second. -/
def answersIn (first : RawAnswer) :
    List (Action (HttpConn RawConn Bytes) RawAnswer (QuicEngine Bool) Bool Bool) :=
  let base := Input.quiet RawAnswer.silent false
  let send := { base with call := .takes 90 }
  ([{ base with popped := some ⟨1, 0⟩, tsc := 10 }, send, send] ++ List.replicate 5 base ++
    [{ base with call := first }] ++ List.replicate 4 base ++
    [{ base with call := .arrives okResponse.bytes }]).map (.worker 0)

/-- The server of provider 1 announces a body that ends beyond every address: the thread panics, and the
answer of provider 0, which is on its way, is pushed by nobody. Had provider 1 said nothing, it would have
been; and the worker of provider 0 alone is not concerned. -/
theorem announced_length_ends_neighbour :
    ∃ s₀ s log p₀, (bareSender .seqRaw twoProviders).build (bareConnectOne twoProviders)
        (fun _ => (true, true)) = .ok (.ok s₀) ∧ s₀.workers.view 0 = some p₀ ∧
      (bareMachine twoProviders).run s₀ (answersIn .silent) = .ok (s, log) ∧
      (pushesIn log).map (fun x => (x.1, x.2.job)) = [(0, 1)] ∧
      (bareMachine twoProviders).run s₀ (answersIn (.arrives hugeLength)) = .error .panic ∧
      Sender.outcomeAt 0 ((bareMachine twoProviders).run s₀ (answersIn (.arrives hugeLength))) ≠
        ParWorker.outcome ((ParWorker.driven (rawApi plainTls (quinnApi flagQuinn))).run (p₀, .top)
          (Sender.projectRun (rawApi plainTls (quinnApi flagQuinn))
            (engineReconnectBuilder (bareConnectOne twoProviders)) 0 s₀
            (answersIn (.arrives hugeLength)))) := by
  obtain ⟨s₀, hbuild, out, hout, hpushed, hpanics, p₀, hp₀, hreturns⟩ :=
    exists_built (bareSender .seqRaw twoProviders)
    (bareConnectOne twoProviders) (fun _ => (true, true))
    (fun s₀ => ∃ out ∈ ((bareMachine twoProviders).run s₀ (answersIn .silent)).toOption,
      (pushesIn out.2).map (fun x => (x.1, x.2.job)) = [(0, 1)] ∧
      ((bareMachine twoProviders).run s₀ (answersIn (.arrives hugeLength))).map (fun _ => ()) =
        .error .panic ∧
      ∃ p₀ ∈ s₀.workers.view 0, ((ParWorker.driven (rawApi plainTls (quinnApi flagQuinn))).run (p₀, .top)
        (Sender.projectRun (rawApi plainTls (quinnApi flagQuinn))
          (engineReconnectBuilder (bareConnectOne twoProviders)) 0 s₀
          (answersIn (.arrives hugeLength)))).toOption.isSome = true) (by decide +kernel)
  have hpanic := map_eq_error.mp hpanics
  obtain ⟨alone, halone⟩ := Option.isSome_iff_exists.mp hreturns
  refine ⟨s₀, out.1, out.2, p₀, hbuild, hp₀, eq_ok_of_mem_toOption hout, hpushed, hpanic, ?_⟩
  rw [hpanic, eq_ok_of_mem_toOption halone]
  intro hsame
  cases hsame

end TxSender.Transport
