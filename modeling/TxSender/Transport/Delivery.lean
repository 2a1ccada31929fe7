/-
# TxSender.Transport.Delivery — from `trigger` to the sink.

`Service` puts the trigger rings in front of the sender: one caller pushes a job into the ring of each
worker thread in turn, a worker pops what stands at the front of its ring, and everything behind that is
the sender. Any interleaving of the caller, the workers, the reconnect thread and the lane is a run. The
senders here are those of the engines over `raw_libc` and `io_uring`; the one over libtpa, whose threads
connect themselves, is in `Transport.TpaEngine`.

What comes out at the end is accounted for by what went in: for each provider, the outcomes the sink
was handed belong to distinct calls of `trigger`, in the order of the calls (`delivered_in_trigger_order`).
The argument goes down the pipe: a ring hands out what was pushed into it, in order; a provider gets the
popped jobs; its responses follow the jobs it was given; the lane keeps the order of each ring. The last
three are the lemmas on runs of a provider and on the accounts of a lane.
-/
import TxSender.Transport.Order
import TxSender.Transport.Trigger
import TxSender.Transport.Wiring

namespace TxSender.Transport

open TxSender.Lib
open TxSender.Http
open TxSender.Protocol
open TxSender.Backend
open TxSender.Provider
open scoped List

variable {H A Q K D : Type}

/-! ## Which thread serves a provider -/

namespace Workers

/-- How many threads there are; each has a trigger ring. -/
def count : Workers H Q → Nat
  | .sequential _ _ => 1
  | .parallel ws => ws.length

/-- The thread that serves provider `i`. -/
def thread : Workers H Q → Nat → Nat
  | .sequential _ _, _ => 0
  | .parallel _, i => i

/-- The job that was popped for provider `i` and not yet given to it. -/
def pending : Workers H Q → Nat → List (Job × Nat)
  | .sequential _ pc, i => SequentialWorker.pending pc i
  | .parallel ws, i =>
      match ws[i]? with
      | some (_, pc) => ParWorker.pending pc
      | none => []

variable {api : ConnApi H A Q K} {n : Nat} {kind : ConnKind} {ws ws' : Workers H Q} {j : Nat}
  {inp : Input H A Q K} {logs : List (Logged H A)}

/-- A thread pops one job at a time, from its own ring. -/
theorem step_popped (hw : ws.Wired n kind) (h : ws.step api j inp = .ok (ws', logs)) :
    poppedJobs logs = [] ∨ ∃ job, inp.popped = some job ∧ poppedJobs logs = [(job, inp.tsc)] := by
  have hquiet : ∀ (i : Nat) (evs : List (Event H A)), poppedJobs (evs.map (.on i)) = [] := by
    intro i evs
    exact poppedJobs_map_on i evs
  cases ws with
  | sequential s pc =>
      cases j with
      | succ j =>
          cases h
          exact .inl rfl
      | zero =>
          obtain ⟨⟨⟨s', pc'⟩, evs⟩, hstep, h⟩ := bind_eq_ok.mp h
          cases h
          cases SequentialWorker.step_turn (hw.sized s pc rfl) hstep with
          | pop job _ hpop => exact .inr ⟨job, hpop, rfl⟩
          | send => exact .inl (hquiet _ _)
          | reap => exact .inl (hquiet _ _)
          | publish idle hpub =>
              refine .inl (List.filterMap_eq_nil_iff.mpr fun e he => ?_)
              obtain ⟨i, slot, k, rfl⟩ := SequentialWorker.publishDiag_log hpub e he
              rfl
          | _ => exact .inl rfl
  | parallel ws =>
      simp only [step] at h
      cases hj : ws[j]? with
      | none =>
          rw [hj] at h
          cases h
          exact .inl rfl
      | some st =>
          obtain ⟨w, pc⟩ := st
          rw [hj] at h
          obtain ⟨⟨⟨w', pc'⟩, evs⟩, hstep, h⟩ := bind_eq_ok.mp h
          cases h
          cases pc with
          | top =>
              simp only [ParWorker.step] at hstep
              split at hstep
              · cases hstep
                exact .inl rfl
              · split at hstep
                · rename_i job hpop
                  cases hstep
                  exact .inr ⟨job, hpop, rfl⟩
                · cases hstep
                  exact .inl rfl
          | send job sent =>
              obtain ⟨⟨w₁, evs⟩, -, hstep⟩ := bind_eq_ok.mp hstep
              cases hstep
              exact .inl (hquiet _ _)
          | reap =>
              obtain ⟨⟨w₁, evs⟩, -, hstep⟩ := bind_eq_ok.mp hstep
              cases hstep
              exact .inl (hquiet _ _)
          | deliver idle =>
              cases hstep
              exact .inl (hquiet _ _)
          | tick | idle | stopped =>
              cases hstep
              exact .inl rfl

/-- What a thread pops goes to each of its providers, and to no other. -/
theorem step_jobs (hw : ws.Wired n kind) (h : ws.step api j inp = .ok (ws', logs)) {i : Nat}
    {p : ParWorker H Q} (hp : ws.view i = some p) :
    ws'.thread i = ws.thread i ∧
      ws.pending i ++ (if j = ws.thread i then poppedJobs logs else []) =
        takenJobs (eventsAt i logs) ++ ws'.pending i := by
  cases ws with
  | sequential s pc =>
      cases j with
      | succ j =>
          cases h
          refine ⟨rfl, ?_⟩
          rw [if_neg (show ¬ j + 1 = (Workers.sequential s pc).thread i from Nat.succ_ne_zero j)]
          exact List.append_nil _
      | zero =>
          obtain ⟨⟨⟨s', pc'⟩, evs⟩, hstep, h⟩ := bind_eq_ok.mp h
          cases h
          have hmoved := (SequentialWorker.step_stepped (hw.sized s pc rfl) hstep).moved i p
            (SequentialWorker.view_eq_some_iff.mp hp)
          obtain ⟨p', hp'⟩ := hmoved
          exact ⟨rfl, hp'.jobs⟩
  | parallel ws =>
      simp only [step] at h
      cases hj : ws[j]? with
      | none =>
          rw [hj] at h
          cases h
          refine ⟨rfl, ?_⟩
          have hne : j ≠ i := by
            rintro rfl
            have hview : (ws[j]?).map Prod.fst = some p := hp
            rw [hj] at hview
            cases hview
          rw [if_neg (show ¬ j = (Workers.parallel ws).thread i from hne)]
          exact List.append_nil _
      | some st =>
          obtain ⟨w, pc⟩ := st
          rw [hj] at h
          obtain ⟨⟨⟨w', pc'⟩, evs⟩, hstep, h⟩ := bind_eq_ok.mp h
          cases h
          have hlt := (List.getElem?_eq_some_iff.mp hj).1
          have hstepped := ParWorker.step_stepped hstep
          have hidx : w.providerIdx = j :=
            (hw.ends j w (congrArg (Option.map Prod.fst) hj)).providerIdx
          refine ⟨rfl, ?_⟩
          by_cases hij : j = i
          · subst hij
            rw [if_pos (show j = (Workers.parallel ws).thread j from rfl)]
            simp only [pending, hj, List.getElem?_set_self hlt]
            have hjobs := hstepped.jobs
            rwa [hidx] at hjobs
          · -- another provider's thread has moved
            rw [if_neg (show ¬ j = (Workers.parallel ws).thread i from hij), List.append_nil]
            have hnone : eventsAt i evs = [] := by
              rcases hstepped.own with hpop | ⟨evs', rfl⟩
              · refine List.filterMap_eq_nil_iff.mpr fun e he => ?_
                obtain ⟨job, sent, rfl⟩ := hpop e he
                rfl
              · rw [hidx]
                exact eventsAt_map_on_ne hij _
            simp only [pending, hnone, List.getElem?_set_ne hij]
            rfl

/-- Nobody has popped a job when the threads start. -/
theorem pending_spawn {engine : Engine} {duals : List (DualConn (ConnState H Q))} {n : Nat}
    (h : SenderBuilder.spawn engine duals n = .ok ws) (i : Nat) : ws.pending i = [] := by
  cases engine with
  | seqRaw | seqUring =>
      cases h
      rfl
  | parRaw =>
      obtain ⟨started, hstarted, h⟩ := bind_eq_ok.mp h
      cases h
      simp only [pending]
      split
      · rename_i w pc hi
        obtain ⟨dual, tx, rx, slot, -, -, heq⟩ := (spawnParallel_spec hstarted).2 i _ hi
        obtain ⟨-, rfl⟩ := Prod.mk.inj heq
        rfl
      · rfl

end Workers

/-! ## The rings in front of the sender -/

/-- The caller of `trigger`. There is one: the rings take one producer. -/
inductive Caller where
  | idle
  /-- about to push the job into ring `k`, with the flag so far -/
  | pushing (job : Job) (k : Nat) (ok : Bool)
  deriving DecidableEq, Repr

structure Service (H Q : Type) where
  rings : List (List Job)
  caller : Caller
  sender : Sender H Q

inductive ServiceAction (H A Q K D : Type) where
  /-- `trigger(job)` is called -/
  | call (job : Job)
  /-- the next push of the call, or its return -/
  | push
  | act (a : Action H A Q K D)

/-- The log of a service: the calls, and what the worker threads log. -/
inductive ServiceEvent (H A : Type) where
  | called (job : Job)
  | returned (job : Job) (r : Except TriggerError Unit)
  | thread (j : Nat) (l : Logged H A)

/-- The jobs `trigger` was called with, in order. -/
def triggered (log : List (ServiceEvent H A)) : List Job :=
  log.filterMap fun e => match e with
    | .called job => some job
    | _ => none

/-- What the worker threads logged. -/
def workerLog (log : List (ServiceEvent H A)) : List (Logged H A) :=
  log.filterMap fun e => match e with
    | .thread _ l => some l
    | _ => none

/-- What thread `j` popped, each job with its time stamp. -/
def poppedBy (j : Nat) (log : List (ServiceEvent H A)) : List (Job × Nat) :=
  poppedJobs (log.filterMap fun e => match e with
    | .thread k l => if k = j then some l else none
    | _ => none)

namespace Service

/-- What stands in ring `j`. -/
def ring (s : Service H Q) (j : Nat) : List Job := (s.rings[j]?).getD []

/-- A worker finds its own ring. -/
def supplied (s : Service H Q) : Action H A Q K D → Action H A Q K D
  | .worker j inp => .worker j { inp with popped := (s.ring j).head?, empty := (s.ring j).isEmpty }
  | a => a

/-- The rings after a step that popped what it logged. -/
def afterPops (s : Service H Q) (a : Action H A Q K D) (logs : List (Logged H A)) :
    List (List Job) :=
  match a with
  | .worker j _ => s.rings.modify j (·.drop (poppedJobs logs).length)
  | _ => s.rings

/-- The thread whose log a step writes. -/
def mover : Action H A Q K D → Nat
  | .worker j _ => j
  | _ => 0

def step (api : ConnApi H A Q K) (builder : ReconnectBuilder H Q D) (s : Service H Q) :
    ServiceAction H A Q K D → Exec (Service H Q × List (ServiceEvent H A))
  | .call job =>
      match s.caller with
      | .idle => .ok ({ s with caller := .pushing job 0 true }, [.called job])
      | .pushing _ _ _ => .ok (s, [])
  | .push =>
      match s.caller with
      | .idle => .ok (s, [])
      | .pushing job k ok =>
          match s.rings[k]? with
          | some ring =>
              let (ring, r) := tryPush ring job
              .ok ({ s with
                rings := s.rings.set k ring
                caller := .pushing job (k + 1) (ok && r.isOk) }, [])
          | none =>
              .ok ({ s with caller := .idle },
                [.returned job (if ok then .ok () else .error .backpressure)])
  | .act a => do
      let (sender, logs) ← s.sender.step api builder (s.supplied a)
      pure ({ s with sender, rings := s.afterPops a logs }, logs.map (.thread (mover a)))

def machine (api : ConnApi H A Q K) (builder : ReconnectBuilder H Q D) :
    Machine (Service H Q) (ServiceAction H A Q K D) (ServiceEvent H A) where
  step := step api builder

/-- As `build` makes it: an empty ring for each worker thread. -/
def start (sender : Sender H Q) : Service H Q where
  rings := List.replicate sender.workers.count []
  caller := .idle
  sender := sender

/-- What a step can do. -/
inductive Turn (api : ConnApi H A Q K) (builder : ReconnectBuilder H Q D) (s : Service H Q) :
    Service H Q → List (ServiceEvent H A) → Prop
  /-- a call while another one is under way, or a push without a call -/
  | stay : Turn api builder s s []
  | call (job : Job) (hidle : s.caller = .idle) :
      Turn api builder s { s with caller := .pushing job 0 true } [.called job]
  | push (job : Job) (k : Nat) (ok : Bool) (queue : List Job) (hcall : s.caller = .pushing job k ok)
      (hring : s.rings[k]? = some queue) :
      Turn api builder s
        { s with
          rings := s.rings.set k (tryPush queue job).1
          caller := .pushing job (k + 1) (ok && (tryPush queue job).2.isOk) } []
  | ret (job : Job) (k : Nat) (ok : Bool) (hcall : s.caller = .pushing job k ok)
      (hend : s.rings[k]? = none) :
      Turn api builder s { s with caller := .idle }
        [.returned job (if ok then .ok () else .error .backpressure)]
  | act (a : Action H A Q K D) (sender : Sender H Q) (logs : List (Logged H A))
      (hsender : s.sender.step api builder (s.supplied a) = .ok (sender, logs)) :
      Turn api builder s { s with sender, rings := s.afterPops a logs }
        (logs.map (.thread (mover a)))

theorem step_turn {api : ConnApi H A Q K} {builder : ReconnectBuilder H Q D} {s s' : Service H Q}
    {a : ServiceAction H A Q K D} {evs : List (ServiceEvent H A)}
    (h : s.step api builder a = .ok (s', evs)) : Turn api builder s s' evs := by
  cases a with
  | call job =>
      simp only [step] at h
      split at h
      · rename_i hidle
        cases h
        exact .call job hidle
      · cases h
        exact .stay
  | push =>
      simp only [step] at h
      split at h
      · cases h
        exact .stay
      · rename_i job k ok hcall
        split at h
        · rename_i queue hring
          cases h
          exact .push job k ok queue hcall hring
        · rename_i hend
          cases h
          exact .ret job k ok hcall hend
  | act a =>
      obtain ⟨⟨sender, logs⟩, hsender, h⟩ := bind_eq_ok.mp h
      cases h
      exact .act a sender logs hsender

end Service

/-! ## Reading the log -/

section Reading

variable (log log' : List (ServiceEvent H A))

theorem triggered_append : triggered (log ++ log') = triggered log ++ triggered log' :=
  List.filterMap_append

theorem workerLog_append : workerLog (log ++ log') = workerLog log ++ workerLog log' :=
  List.filterMap_append

theorem poppedBy_append (j : Nat) : poppedBy j (log ++ log') = poppedBy j log ++ poppedBy j log' := by
  unfold poppedBy
  rw [List.filterMap_append, poppedJobs_append]

theorem triggered_map_thread (j : Nat) (logs : List (Logged H A)) :
    triggered (logs.map (.thread j)) = [] := by simp [triggered]

theorem workerLog_map_thread (j : Nat) (logs : List (Logged H A)) :
    workerLog (logs.map (.thread j)) = logs := by simp [workerLog]

theorem poppedBy_map_thread (i j : Nat) (logs : List (Logged H A)) :
    poppedBy i (logs.map (.thread j)) = if j = i then poppedJobs logs else [] := by
  unfold poppedBy
  by_cases hij : j = i
  · simp [hij]
  · simp [hij, poppedJobs]

end Reading

/-! ## What a ring hands out -/

namespace Service

variable {api : ConnApi H A Q K} {builder : ReconnectBuilder H Q D} {s s' : Service H Q}
  {log evs : List (ServiceEvent H A)}

/-- The jobs of the calls so far that have had their turn at ring `j`. -/
def reached (s : Service H Q) (log : List (ServiceEvent H A)) (j : Nat) : List Job :=
  match s.caller with
  | .idle => triggered log
  | .pushing _ k _ => if k ≤ j then (triggered log).dropLast else triggered log

/-- A ring has handed out and still holds some of the jobs that had their turn at it, in order. -/
def Fed (s : Service H Q) (log : List (ServiceEvent H A)) : Prop :=
  (∀ job k ok, s.caller = .pushing job k ok → ∃ earlier, triggered log = earlier ++ [job]) ∧
    ∀ j, (poppedBy j log).map Prod.fst ++ s.ring j <+ s.reached log j

theorem reached_sublist (s : Service H Q) (log : List (ServiceEvent H A)) (j : Nat) :
    s.reached log j <+ triggered log := by
  unfold reached
  split
  · exact List.Sublist.refl _
  · split
    · exact List.dropLast_sublist _
    · exact List.Sublist.refl _

theorem fed_call {job : Job} (h : s.Fed log) (hidle : s.caller = .idle) :
    Fed { s with caller := .pushing job 0 true } (log ++ [.called job]) := by
  have htrig : triggered (log ++ [.called job]) = triggered log ++ [job] := triggered_append _ _
  refine ⟨fun job' k ok heq => ?_, fun j => ?_⟩
  · obtain ⟨rfl, -, -⟩ := Caller.pushing.inj heq
    exact ⟨triggered log, htrig⟩
  · have hj := h.2 j
    have hpop : poppedBy j (log ++ [.called job]) = poppedBy j log := by
      rw [poppedBy_append]
      exact List.append_nil _
    unfold reached at hj ⊢
    rw [hidle] at hj
    simp only [Nat.zero_le, if_true, htrig, List.dropLast_concat, hpop]
    exact hj

theorem fed_push {job : Job} {k : Nat} {ok ok' : Bool} {queue : List Job} (h : s.Fed log)
    (hcall : s.caller = .pushing job k ok) (hring : s.rings[k]? = some queue) :
    Fed { s with rings := s.rings.set k (tryPush queue job).1, caller := .pushing job (k + 1) ok' }
      log := by
  obtain ⟨earlier, htrig⟩ := h.1 job k ok hcall
  refine ⟨fun job' k' ok'' heq => ?_, fun j => ?_⟩
  · obtain ⟨rfl, -, -⟩ := Caller.pushing.inj heq
    exact ⟨earlier, htrig⟩
  · have hj := h.2 j
    unfold reached ring at hj ⊢
    rw [hcall] at hj
    simp only [htrig, List.dropLast_concat] at hj ⊢
    rcases Nat.lt_trichotomy j k with hlt | rfl | hgt
    · rw [List.getElem?_set_ne (by omega), if_neg (by omega)]
      rwa [if_neg (by omega)] at hj
    · -- the ring whose turn it is takes the job, or is full
      rw [List.getElem?_set_self (List.getElem?_eq_some_iff.mp hring).1, if_neg (by omega)]
      rw [hring, if_pos (Nat.le_refl _)] at hj
      simp only [Option.getD_some] at hj ⊢
      unfold tryPush
      split
      · rw [← List.append_assoc]
        exact hj.append (List.Sublist.refl _)
      · exact hj.trans (List.sublist_append_left _ _)
    · rw [List.getElem?_set_ne (by omega), if_pos (by omega)]
      rwa [if_pos (by omega)] at hj

theorem fed_return {job : Job} {r : Except TriggerError Unit} (h : s.Fed log) :
    Fed { s with caller := .idle } (log ++ [.returned job r]) := by
  have htrig : triggered (log ++ [.returned job r]) = triggered log := by
    rw [triggered_append]
    exact List.append_nil _
  refine ⟨fun job' k' ok' heq => (by cases heq), fun j => ?_⟩
  have hpop : poppedBy j (log ++ [.returned job r]) = poppedBy j log := by
    rw [poppedBy_append]
    exact List.append_nil _
  show (poppedBy j (log ++ [.returned job r])).map Prod.fst ++ s.ring j <+ triggered _
  rw [htrig, hpop]
  exact (h.2 j).trans (reached_sublist s log j)

/-- A worker's pop moves the front of its ring into its hands. -/
theorem ring_afterPops {j : Nat} {inp : Input H A Q K} {logs : List (Logged H A)}
    (hpop : poppedJobs logs = [] ∨
      ∃ job, (s.ring j).head? = some job ∧ poppedJobs logs = [(job, inp.tsc)]) (i : Nat) :
    (if j = i then (poppedJobs logs).map Prod.fst else []) ++
        ((s.afterPops (.worker j inp : Action H A Q K D) logs)[i]?).getD [] = s.ring i := by
  unfold afterPops ring at *
  rw [List.getElem?_modify]
  by_cases hij : j = i
  · subst hij
    simp only [if_true]
    cases hring : s.rings[j]? with
    | none =>
        rw [hring] at hpop
        rcases hpop with hnone | ⟨job, hhead, -⟩
        · rw [hnone]
          rfl
        · cases hhead
    | some queue =>
        rw [hring] at hpop
        rcases hpop with hnone | ⟨job, hhead, hone⟩
        · rw [hnone]
          rfl
        · rw [hone]
          cases queue with
          | nil => cases hhead
          | cons x xs =>
              obtain rfl := Option.some.inj hhead
              rfl
  · simp [hij]

/-- What is popped and what is left is what was popped and left before. -/
theorem popped_ring_act {n : Nat} {kind : ConnKind} (log : List (ServiceEvent H A))
    {a : Action H A Q K D} (hw : s.sender.workers.Wired n kind) {sender : Sender H Q}
    {logs : List (Logged H A)}
    (hstep : s.sender.step api builder (s.supplied a) = .ok (sender, logs)) (j : Nat) :
    (poppedBy j (log ++ logs.map (.thread (mover a)))).map Prod.fst ++
        ring { s with sender, rings := s.afterPops a logs } j =
      (poppedBy j log).map Prod.fst ++ s.ring j := by
  have hsame : (if mover a = j then (poppedJobs logs).map Prod.fst else []) ++
      ((s.afterPops a logs)[j]?).getD [] = s.ring j := by
    rcases Sender.step_cases hstep with ⟨j', inp, heq, hworkers, -⟩ | ⟨rfl, -, hother, -⟩
    · cases a with
      | worker j'' inp' =>
          obtain ⟨rfl, rfl⟩ := Action.worker.inj heq
          exact ring_afterPops (D := D) (Workers.step_popped hw hworkers) j
      | take | finish _ | exit | lane _ | shutdown => cases heq
    · cases a with
      | worker j' inp => exact absurd rfl (hother j' _)
      | take | finish _ | exit | lane _ | shutdown =>
          simp only [afterPops, poppedJobs, List.filterMap_nil, List.map_nil, ite_self,
            List.nil_append]
          rfl
  rw [poppedBy_append, poppedBy_map_thread, List.map_append, List.append_assoc, ← hsame]
  congr 1
  unfold ring
  split <;> rfl

theorem fed_act {n : Nat} {kind : ConnKind} (h : s.Fed log) {a : Action H A Q K D}
    (hw : s.sender.workers.Wired n kind) {sender : Sender H Q} {logs : List (Logged H A)}
    (hstep : s.sender.step api builder (s.supplied a) = .ok (sender, logs)) :
    Fed { s with sender, rings := s.afterPops a logs } (log ++ logs.map (.thread (mover a))) := by
  have htrig : triggered (log ++ logs.map (.thread (mover a))) = triggered log := by
    rw [triggered_append, triggered_map_thread, List.append_nil]
  refine ⟨fun job k ok hcall => ?_, fun j => ?_⟩
  · rw [htrig]
    exact h.1 job k ok hcall
  · have hreach : reached { s with sender, rings := s.afterPops a logs }
        (log ++ logs.map (.thread (mover a))) j = s.reached log j := by
      unfold reached
      rw [htrig]
    rw [hreach, popped_ring_act log hw hstep]
    exact h.2 j

end Service

/-! ## What a provider is given, and what reaches its ring -/

section Calls

variable {api : ConnApi H A Q K} {w w' : ParWorker H Q} {evs : List (Event H A)} {ring : Nat}
  {resp : RawResp}

theorem Does.push_ring (h : Does api w evs w') (hm : .push ring resp ∈ evs) : ring = w.resultTx := by
  cases h with
  | answered | expired =>
      simp only [List.mem_cons, reduceCtorEq, Event.push.injEq, List.not_mem_nil, or_false,
        false_or] at hm
      exact hm.1
  | _ => simp [ParWorker.failoverLog, ParWorker.publishDiag] at hm

/-- A step pushes into the ring of the provider it is about. -/
theorem Act.push_ring {got : Option (ReconnectResp H Q)} (h : Act api got w evs w')
    (hm : .push ring resp ∈ evs) : ring = w.resultTx := by
  cases h with
  | send hdoes => exact hdoes.push_ring hm
  | reap _ _ _ hdoes => exact hdoes.push_ring hm
  | install _ htail =>
      rcases htail with rfl | rfl <;> simp [ParWorker.publishDiag] at hm
  | _ => simp [ParWorker.publishDiag] at hm

end Calls

namespace Service

variable {api : ConnApi H A Q K} {builder : ReconnectBuilder H Q D} {s s' : Service H Q}
  {log evs : List (ServiceEvent H A)}

/-- Provider `i` has been given what its thread popped, except for a job under way, and has lived
through the calls logged for it. -/
def Served (api : ConnApi H A Q K) (s : Service H Q) (log : List (ServiceEvent H A)) : Prop :=
  ∀ i p, s.sender.workers.view i = some p →
    poppedBy (s.sender.workers.thread i) log =
        takenJobs (eventsAt i (workerLog log)) ++ s.sender.workers.pending i ∧
      ∃ idx ring rx kind diag a b,
        Runs api (startedPar idx ring rx kind diag a b) (eventsAt i (workerLog log)) p

/-- The lane was handed some of the responses emitted for each provider, in order. -/
def Carried (codecs : List Codec) (s : Service H Q) (log : List (ServiceEvent H A)) : Prop :=
  ∃ taken, s.sender.lane.Accounted codecs taken ∧
    ∀ i, ResultLane.pushedTo i taken <+ emitted (eventsAt i (workerLog log))

/-- Calls of `trigger` change nothing behind the rings. -/
theorem served_of_quiet (h : s.Served api log) (hsender : s'.sender = s.sender)
    (hlog : workerLog evs = []) (hpop : ∀ j, poppedBy j evs = []) : s'.Served api (log ++ evs) := by
  intro i p hp
  rw [hsender] at hp ⊢
  rw [poppedBy_append, hpop, List.append_nil, workerLog_append, hlog, List.append_nil]
  exact h i p hp

theorem served_act {n : Nat} {kind : ConnKind} {made : Nat → Built H Q → Prop} (h : s.Served api log)
    {a : Action H A Q K D} (hw : s.sender.Wired n kind made) {sender : Sender H Q}
    {logs : List (Logged H A)}
    (hstep : s.sender.step api builder (s.supplied a) = .ok (sender, logs)) :
    Served api { s with sender, rings := s.afterPops a logs }
      (log ++ logs.map (.thread (mover a))) := by
  intro i p' hp'
  rw [poppedBy_append, poppedBy_map_thread, workerLog_append, workerLog_map_thread, eventsAt_append,
    takenJobs_append]
  cases a with
  | worker j inp =>
      obtain ⟨hone, -, hacts, -, -, -⟩ := Sender.step_worker hw hstep
      obtain ⟨p, hp⟩ := hacts.back i p' hp'
      obtain ⟨p'', hp'', hact⟩ := hacts.act i p hp
      obtain rfl := Option.some.inj (hp''.symm.trans hp')
      obtain ⟨hjobs, idx, ring, rx, kind', diag, c, d, hruns⟩ := h i p hp
      obtain ⟨hthread, hnext⟩ := Workers.step_jobs hw.workers hone hp
      refine ⟨?_, idx, ring, rx, kind', diag, c, d, hruns.trans hact.runs⟩
      show poppedBy (sender.workers.thread i) log ++ _ = _
      rw [hthread, hjobs, List.append_assoc, List.append_assoc]
      congr 1
  | take | finish _ | exit | lane _ | shutdown =>
      rcases Sender.step_cases hstep with ⟨_, _, heq, -⟩ | ⟨rfl, hworkers, -, -⟩
      · cases heq
      · rw [hworkers] at hp'
        obtain ⟨hjobs, hruns⟩ := h i p' hp'
        simp only [hworkers, poppedJobs, eventsAt, takenJobs, List.filterMap_nil, ite_self,
          List.append_nil]
        exact ⟨hjobs, hruns⟩

/-- A provider's responses go to its own ring. -/
theorem emitted_eq_pushedTo {n : Nat} {kind : ConnKind} {ch : Option Nat}
    {got : Option (ReconnectResp H Q)} {ws ws' : Workers H Q} {logs : List (Logged H A)}
    (hw : ws.Wired n kind) (hacts : Workers.Acts api ch got ws ws' logs) (i : Nat) :
    emitted (eventsAt i logs) = ResultLane.pushedTo i (pushesIn logs) := by
  rcases hacts.about with hquiet | ⟨k, p, evs, hp, rfl⟩
  · have hpushes : pushesIn logs = [] := by
      refine List.filterMap_eq_nil_iff.mpr fun e he => ?_
      have hq := hquiet e he
      cases e with
      | popped => rfl
      | on l ev =>
          cases ev with
          | push => exact hq.elim
          | _ => rfl
    rw [hpushes]
    refine List.filterMap_eq_nil_iff.mpr fun e he => ?_
    cases e with
    | push ring resp => exact (hquiet _ (mem_eventsAt.mp he)).elim
    | _ => rfl
  · obtain ⟨p', -, hact⟩ := hacts.act k p hp
    rw [eventsAt_map_on] at hact
    have hring : ∀ ring resp, Event.push ring resp ∈ evs → ring = k := by
      intro ring resp hm
      rw [← (hw.ends k p hp).resultTx]
      exact hact.push_ring hm
    by_cases hki : k = i
    · subst hki
      rw [eventsAt_map_on]
      clear hact hacts
      induction evs with
      | nil => rfl
      | cons e evs ih =>
          have hrest := ih fun ring resp hm => hring ring resp (List.mem_cons_of_mem _ hm)
          cases e with
          | push ring resp =>
              obtain rfl := hring ring resp (List.mem_cons_self ..)
              simp only [emitted, pushesIn, ResultLane.pushedTo, List.map_cons, List.filterMap_cons,
                List.filter_cons, decide_true, if_true] at hrest ⊢
              rw [hrest]
          | _ => exact hrest
    · rw [eventsAt_map_on_ne hki]
      symm
      refine List.map_eq_nil_iff.mpr (List.filter_eq_nil_iff.mpr fun x hx hxi => hki ?_)
      obtain ⟨l, hl⟩ := mem_pushesIn.mp (show (x.1, x.2) ∈ _ from hx)
      obtain ⟨ev, hev, heq⟩ := List.mem_map.mp hl
      obtain ⟨-, rfl⟩ := Logged.on.inj heq
      rw [← hring x.1 x.2 hev]
      exact of_decide_eq_true hxi

/-- A full ring loses a response; the others keep their order. -/
theorem taken_sublist (l : ResultLane) (xs : List (Nat × RawResp)) : l.taken xs <+ xs := by
  induction xs generalizing l with
  | nil => exact List.Sublist.refl _
  | cons x xs ih =>
      obtain ⟨ring, resp⟩ := x
      rw [ResultLane.taken]
      have hhead : (if l.accepts ring then [(ring, resp)] else []) <+ [(ring, resp)] := by
        split
        · exact List.Sublist.refl _
        · exact List.nil_sublist _
      exact hhead.append (ih _)

theorem pushedTo_sublist {xs ys : List (Nat × RawResp)} (h : xs <+ ys) (i : Nat) :
    ResultLane.pushedTo i xs <+ ResultLane.pushedTo i ys :=
  (h.filter _).map _

theorem carried_of_quiet {codecs : List Codec} (h : s.Carried codecs log)
    (hsender : s'.sender = s.sender) (hlog : workerLog evs = []) : s'.Carried codecs (log ++ evs) := by
  obtain ⟨taken, hacc, hsub⟩ := h
  refine ⟨taken, hsender ▸ hacc, fun i => ?_⟩
  rw [workerLog_append, hlog, List.append_nil]
  exact hsub i

theorem carried_act {n : Nat} {kind : ConnKind} {made : Nat → Built H Q → Prop} {codecs : List Codec}
    (h : s.Carried codecs log) {a : Action H A Q K D} (hw : s.sender.Wired n kind made)
    {sender : Sender H Q} {logs : List (Logged H A)}
    (hstep : s.sender.step api builder (s.supplied a) = .ok (sender, logs)) :
    Carried codecs { s with sender, rings := s.afterPops a logs }
      (log ++ logs.map (.thread (mover a))) := by
  obtain ⟨taken, hacc, hsub⟩ := h
  unfold Carried
  rw [workerLog_append, workerLog_map_thread]
  cases a with
  | worker j inp =>
      obtain ⟨-, -, hacts, -, hlane, -⟩ := Sender.step_worker hw hstep
      refine ⟨taken ++ s.sender.lane.taken (pushesIn logs), ?_, fun i => ?_⟩
      · show sender.lane.Accounted codecs _
        rw [hlane]
        exact hacc.pushes _
      · rw [ResultLane.pushedTo_append, eventsAt_append, emitted_append]
        refine (hsub i).append ?_
        rw [emitted_eq_pushedTo hw.workers hacts i]
        exact pushedTo_sublist (taken_sublist _ _) i
  | take | finish _ | exit | lane _ | shutdown =>
      rcases Sender.step_cases hstep with ⟨_, _, heq, -⟩ | ⟨rfl, -, -, hlane⟩
      · cases heq
      · refine ⟨taken, ?_, fun i => ?_⟩
        · show sender.lane.Accounted codecs _
          rcases hlane with ⟨sawStop, -, hlane⟩ | ⟨hlane, -⟩
          · exact hacc.step hlane
          · rw [hlane]
            exact hacc
        · rw [List.append_nil]
          exact hsub i

/-! ## Whole runs -/

/-- Everything that is kept along a run. -/
structure Piped (api : ConnApi H A Q K) (made : Nat → Built H Q → Prop) (n : Nat) (kind : ConnKind)
    (codecs : List Codec) (s : Service H Q) (log : List (ServiceEvent H A)) : Prop where
  wired : s.sender.Wired n kind made
  fed : s.Fed log
  served : s.Served api log
  carried : s.Carried codecs log

/-- **One step** of the caller or of any thread. -/
theorem piped_step {connectOne : Nat → D → Exec (Except SenderError (Built H Q))} {n : Nat}
    {kind : ConnKind} {codecs : List Codec} {a : ServiceAction H A Q K D}
    (h : Piped api (fun i c => ∃ d, connectOne i d = .ok (.ok c)) n kind codecs s log)
    (hstep : s.step api (engineReconnectBuilder connectOne) a = .ok (s', evs)) :
    Piped api (fun i c => ∃ d, connectOne i d = .ok (.ok c)) n kind codecs s' (log ++ evs) := by
  cases step_turn hstep with
  | stay => rwa [List.append_nil]
  | call job hidle =>
      exact ⟨h.wired, fed_call h.fed hidle, served_of_quiet h.served rfl rfl fun _ => rfl,
        carried_of_quiet h.carried rfl rfl⟩
  | push job k ok queue hcall hring =>
      rw [List.append_nil]
      exact ⟨h.wired, fed_push h.fed hcall hring, h.served, h.carried⟩
  | ret job k ok hcall hend =>
      exact ⟨h.wired, fed_return h.fed, served_of_quiet h.served rfl rfl fun _ => rfl,
        carried_of_quiet h.carried rfl rfl⟩
  | act a sender logs hsender =>
      exact ⟨Sender.wired_step h.wired hsender, fed_act h.fed h.wired.workers hsender,
        served_act h.served h.wired hsender, carried_act h.carried h.wired hsender⟩

theorem piped_start {b : SenderBuilder} {connectOne : Nat → D → Exec (Except SenderError (Built H Q))}
    {ds : Nat → D × D} {sender : Sender H Q} (h : b.build connectOne ds = .ok (.ok sender)) :
    ∃ kind, Piped (A := A) api (fun i c => ∃ d, connectOne i d = .ok (.ok c)) b.providers.length kind
      (b.providers.map ProviderConfig.codec) (start sender) [] := by
  obtain ⟨engine, -, hw, hfresh, -, hlane⟩ := build_spec h
  refine ⟨engine.connKind, hw, ⟨fun job k ok heq => (by cases heq), fun j => ?_⟩, fun i p hp => ?_, ?_⟩
  · have hring : (start sender).ring j = [] := by
      unfold ring start
      rw [List.getElem?_replicate]
      split <;> rfl
    rw [hring]
    exact List.Sublist.refl _
  · obtain ⟨a, c, -, -, rfl⟩ := hfresh i p hp
    refine ⟨?_, i, i, i, _, i, a, c, .start⟩
    obtain ⟨_, _, ws, -, -, hws, rfl⟩ := build_eq_ok h
    show [] = ws.pending i
    exact (Workers.pending_spawn hws i).symm
  · refine ⟨[], ?_, fun i => List.nil_sublist _⟩
    show sender.lane.Accounted _ []
    rw [hlane]
    exact ResultLane.accounted_new

section Accounts

variable {n : Nat} {kind : ConnKind} {made : Nat → Built H Q → Prop} {codecs : List Codec}

/-- The sink was handed the outcomes of some of the responses emitted for a provider, in order. -/
theorem Piped.outcomes_emitted (h : Piped api made n kind codecs s log) {i : Nat} (hi : i < n)
    (hn : codecs.length = n) :
    ∃ codec popped, s.sender.lane.outcomes i = popped.map (parseOne · codec) ∧
      popped <+ emitted (eventsAt i (workerLog log)) := by
  obtain ⟨taken, hacc, hsub⟩ := h.carried
  have hcodec := List.getElem?_eq_getElem (hn.symm ▸ hi : i < codecs.length)
  have hring := List.getElem?_eq_getElem
    (show i < s.sender.lane.rings.length by rw [hacc.length, hn]; exact hi)
  obtain ⟨popped, hpushed, hout⟩ := hacc.rings i _ _ hcodec hring
  refine ⟨_, popped, hout, List.Sublist.trans ?_ (hsub i)⟩
  rw [hpushed]
  exact List.sublist_append_left _ _

/-- The responses emitted for a provider are those of some of the jobs its thread popped, in order,
each with the time stamp of the pop. -/
theorem Piped.emitted_popped (h : Piped api made n kind codecs s log)
    (hclosed : StaysClosed api.quic) {i : Nat} (hi : i < n) :
    (emitted (eventsAt i (workerLog log))).map respKey <+
      (poppedBy (s.sender.workers.thread i) log).map key := by
  obtain ⟨p, hp⟩ := h.wired.workers.here i hi
  obtain ⟨hjobs, idx, ring, rx, kind', diag, a, b, hruns⟩ := h.served i p hp
  calc (emitted (eventsAt i (workerLog log))).map respKey
      <+ (okSent (eventsAt i (workerLog log))).map key := by
        have hinv := hruns.inOrder hclosed (inOrder_start idx ring rx kind' diag a b)
        exact (List.sublist_append_left _ _).trans hinv.order
    _ <+ (takenJobs (eventsAt i (workerLog log))).map key := hruns.okSent_sublist.map _
    _ <+ (poppedBy (s.sender.workers.thread i) log).map key := by
        rw [hjobs]
        exact (List.sublist_append_left _ _).map _

/-- Down the pipe: the outcomes of a provider, the responses emitted for it, the jobs its thread
popped, the calls of `trigger`. -/
theorem Piped.in_order (h : Piped api made n kind codecs s log) (hclosed : StaysClosed api.quic)
    {i : Nat} (hi : i < n) (hn : codecs.length = n) :
    (s.sender.lane.outcomes i).map (·.job) <+ (triggered log).map Job.id := by
  obtain ⟨codec, popped, hout, hsub⟩ := h.outcomes_emitted hi hn
  calc (s.sender.lane.outcomes i).map (·.job)
      = (popped.map respKey).map Prod.fst := by
        rw [hout, List.map_map, List.map_map]
        rfl
    _ <+ ((emitted (eventsAt i (workerLog log))).map respKey).map Prod.fst := (hsub.map _).map _
    _ <+ ((poppedBy (s.sender.workers.thread i) log).map key).map Prod.fst :=
        (h.emitted_popped hclosed hi).map _
    _ = ((poppedBy (s.sender.workers.thread i) log).map Prod.fst).map Job.id := by
        rw [List.map_map, List.map_map]
        rfl
    _ <+ (triggered log).map Job.id := by
        refine List.Sublist.map _ (List.Sublist.trans ?_ (h.fed.2 (s.sender.workers.thread i)))
          |>.trans ((reached_sublist s log _).map _)
        exact List.sublist_append_left _ _

end Accounts

end Service

/-- **At most one outcome for each call and provider, in the order of the calls.** For every sender that
`build` makes with an engine over `raw_libc` or `io_uring` and every interleaving of the caller of `trigger`,
the worker threads, the reconnect thread and the result lane, with whatever the connections answer: the jobs
of the outcomes handed to the sink for a provider are some of the jobs `trigger` was called with, each call
at most once and in the order of the calls. A QUIC connection that is closed is assumed to stay closed. -/
theorem delivered_in_trigger_order {C : Type} (http : HttpApi H A) (quinn : Quinn C K)
    (hq : quinn.StaysClosed) (b : SenderBuilder)
    (connectOne : Nat → D → Exec (Except SenderError (Built H (QuicEngine C)))) (ds : Nat → D × D)
    (s₀ : Sender H (QuicEngine C)) (s : Service H (QuicEngine C))
    (actions : List (ServiceAction H A (QuicEngine C) K D)) (log : List (ServiceEvent H A))
    (hbuild : b.build connectOne ds = .ok (.ok s₀))
    (hrun : (Service.machine ⟨http, quinnApi quinn⟩ (engineReconnectBuilder connectOne)).run
      (.start s₀) actions = .ok (s, log)) :
    ∀ i < b.providers.length,
      (s.sender.lane.outcomes i).map (·.job) <+ (triggered log).map Job.id := by
  obtain ⟨kind, hstart⟩ := Service.piped_start hbuild
  have hpiped := Machine.run_invariant _ (Service.Piped ⟨http, quinnApi quinn⟩ _ _ kind _) hstart
    (fun s log a s' evs h hstep => Service.piped_step h hstep) hrun
  intro i hi
  exact hpiped.in_order (staysClosed_quinnApi hq) hi (List.length_map _)

/-- Two jobs are triggered while the worker is busy; the first is answered, the second is not. -/
def twoCalls : List (ServiceAction (HttpConn RawConn Bytes) RawAnswer (QuicEngine Bool) Bool Bool) :=
  let base := Input.quiet RawAnswer.silent false
  let worker := fun inp => ServiceAction.act (.worker 0 inp)
  [.call ⟨1, 0⟩, .push, .push, .call ⟨2, 0⟩, .push, worker { base with tsc := 10 }, .push,
    worker { base with call := .takes 90 }, worker { base with call := .arrives okResponse.bytes },
    worker base, worker base, worker base, worker { base with call := .takes 90 }] ++
    List.replicate 4 (.act (.lane false))

theorem delivered_in_trigger_order_two_calls :
    ∃ s₀ s log, (bareSender .parRaw [bareProvider (.accepted "signature")]).build
        (bareConnectOne [bareProvider (.accepted "signature")]) (fun _ => (true, true)) =
          .ok (.ok s₀) ∧
      (Service.machine (rawApi plainTls (quinnApi flagQuinn)) (engineReconnectBuilder
        (bareConnectOne [bareProvider (.accepted "signature")]))).run (.start s₀) twoCalls =
          .ok (s, log) ∧
      (triggered log).map Job.id = [1, 2] ∧ (s.sender.lane.outcomes 0).map (·.job) = [1] ∧
      (s.sender.lane.outcomes 0).map (·.job) <+ (triggered log).map Job.id := by
  obtain ⟨s₀, hbuild, out, hout, hcalls, hjobs⟩ :=
    exists_built (bareSender .parRaw [bareProvider (.accepted "signature")])
      (bareConnectOne [bareProvider (.accepted "signature")]) (fun _ => (true, true))
      (fun s₀ => ∃ out ∈ ((Service.machine (rawApi plainTls (quinnApi flagQuinn))
          (engineReconnectBuilder (bareConnectOne [bareProvider (.accepted "signature")]))).run
            (.start s₀) twoCalls).toOption,
        (triggered out.2).map Job.id = [1, 2] ∧ (out.1.sender.lane.outcomes 0).map (·.job) = [1])
      (by decide +kernel)
  have hrun := eq_ok_of_mem_toOption hout
  exact ⟨s₀, out.1, out.2, hbuild, hrun, hcalls, hjobs,
    delivered_in_trigger_order _ flagQuinn staysClosed_flagQuinn _ _ _ s₀ out.1 twoCalls out.2 hbuild
      hrun 0 (by decide)⟩

end TxSender.Transport
