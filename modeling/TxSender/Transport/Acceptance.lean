/-
# TxSender.Transport.Acceptance — what `Ok` from `trigger` is worth.

`trigger` answers `Ok` when every ring took the job. From then on the job is in each ring, in the hands of
its thread, or has been given to the provider, in the order of the calls (`accepted_given`): nothing between
the caller and `send_to` loses a job. A ring holds 256 jobs and a thread one, so the calls that are answered
with `Ok` are never more than 257 ahead of any provider; a thread that stops serves as the limit for all.
This is for the engines over `raw_libc` and `io_uring`, as in `Transport.Delivery`.
-/
import TxSender.Transport.Delivery

namespace TxSender.Transport

open TxSender.Lib
open TxSender.Http
open TxSender.Protocol
open TxSender.Backend
open TxSender.Provider
open scoped List

variable {H A Q K D : Type}

/-- The jobs for which `trigger` returned `Ok`, in the order of the calls. -/
def accepted (log : List (ServiceEvent H A)) : List Job :=
  log.filterMap fun e => match e with
    | .returned job (.ok ()) => some job
    | _ => none

theorem accepted_append (log log' : List (ServiceEvent H A)) :
    accepted (log ++ log') = accepted log ++ accepted log' := List.filterMap_append

theorem accepted_map_thread (j : Nat) (logs : List (Logged H A)) :
    accepted (logs.map (.thread j)) = [] := by simp [accepted]

/-! ## The threads stay as many as they are -/

theorem Workers.count_step {api : ConnApi H A Q K} {ws ws' : Workers H Q} {j : Nat}
    {inp : Input H A Q K} {logs : List (Logged H A)} (h : ws.step api j inp = .ok (ws', logs)) :
    ws'.count = ws.count := by
  cases ws with
  | sequential s pc =>
      cases j with
      | zero =>
          obtain ⟨⟨⟨s', pc'⟩, evs⟩, -, h⟩ := bind_eq_ok.mp h
          cases h
          rfl
      | succ j =>
          cases h
          rfl
  | parallel ws =>
      simp only [Workers.step] at h
      split at h
      · obtain ⟨⟨st', evs⟩, -, h⟩ := bind_eq_ok.mp h
        cases h
        exact List.length_set
      · cases h
        rfl

theorem Workers.thread_lt {ws : Workers H Q} {i : Nat} {p : ParWorker H Q} (h : ws.view i = some p) :
    ws.thread i < ws.count := by
  cases ws with
  | sequential s pc => exact Nat.one_pos
  | parallel ws =>
      obtain ⟨st, hst, -⟩ := Option.map_eq_some_iff.mp h
      exact (List.getElem?_eq_some_iff.mp hst).1

/-- A thread has at most one job in its hands. -/
theorem Workers.length_pending (ws : Workers H Q) (i : Nat) : (ws.pending i).length ≤ 1 := by
  cases ws with
  | sequential s pc =>
      show (SequentialWorker.pending pc i).length ≤ 1
      unfold SequentialWorker.pending
      split
      · split
        · exact Nat.le_refl 1
        · exact Nat.zero_le 1
      · exact Nat.zero_le 1
  | parallel ws =>
      simp only [Workers.pending]
      split
      · unfold ParWorker.pending
        split
        · exact Nat.le_refl 1
        · exact Nat.zero_le 1
      · exact Nat.zero_le 1

namespace Service

variable {api : ConnApi H A Q K} {builder : ReconnectBuilder H Q D} {s s' : Service H Q}
  {log evs : List (ServiceEvent H A)}

/-! ## What a ring owes the caller -/

/-- The accepted jobs, with the job of a call that ring `j` and all others so far have taken. -/
def credited (jobs : List Job) (j : Nat) : Caller → List Job
  | .idle => jobs
  | .pushing job k ok => if ok = true ∧ j < k then jobs ++ [job] else jobs

/-- Each ring has handed out or still holds what was credited to it, and no ring is overfull. -/
structure Owed (s : Service H Q) (log : List (ServiceEvent H A)) : Prop where
  rings : s.rings.length = s.sender.workers.count
  held : ∀ j < s.rings.length,
    credited (accepted log) j s.caller <+ (poppedBy j log).map Prod.fst ++ s.ring j
  room : ∀ j, (s.ring j).length ≤ triggerRing

theorem sublist_credited (jobs : List Job) (j : Nat) (caller : Caller) :
    jobs <+ credited jobs j caller := by
  cases caller with
  | idle => exact List.Sublist.refl _
  | pushing job k ok =>
      rw [credited]
      split
      · exact List.sublist_append_left _ _
      · exact List.Sublist.refl _

theorem owed_call {job : Job} (h : s.Owed log) :
    Owed { s with caller := .pushing job 0 true } (log ++ [.called job]) := by
  refine ⟨h.rings, ?_, h.room⟩
  intro j hj
  have hpop : poppedBy j (log ++ [.called job]) = poppedBy j log := by
    rw [poppedBy_append]
    exact List.append_nil _
  have hjobs : accepted (log ++ [.called job]) = accepted log := by
    rw [accepted_append]
    exact List.append_nil _
  rw [hpop, hjobs, credited, if_neg (by omega)]
  exact (sublist_credited _ j _).trans (h.held j hj)

/-- The ring whose turn it is takes the job, or ends the credit of the call. -/
theorem owed_push {job : Job} {k : Nat} {ok : Bool} {queue : List Job} (h : s.Owed log)
    (hcall : s.caller = .pushing job k ok) (hring : s.rings[k]? = some queue) :
    Owed { s with
      rings := s.rings.set k (tryPush queue job).1
      caller := .pushing job (k + 1) (ok && (tryPush queue job).2.isOk) } log := by
  have hk := (List.getElem?_eq_some_iff.mp hring).1
  have hqueue : s.ring k = queue := by
    unfold ring
    rw [hring]
    rfl
  have hpushed : ∀ j, ((s.rings.set k (tryPush queue job).1)[j]?).getD [] =
      if k = j then (tryPush queue job).1 else s.ring j := by
    intro j
    by_cases hkj : k = j
    · subst hkj
      rw [List.getElem?_set_self hk, if_pos rfl]
      rfl
    · rw [List.getElem?_set_ne hkj, if_neg hkj]
      rfl
  have hroom := hqueue ▸ h.room k
  refine ⟨by rw [List.length_set]; exact h.rings, ?_, ?_⟩
  · intro j hj
    rw [List.length_set] at hj
    have hheld := h.held j hj
    rw [hcall, credited] at hheld
    show credited _ j _ <+ _ ++ ((s.rings.set k (tryPush queue job).1)[j]?).getD []
    rw [hpushed, credited]
    rcases Nat.lt_trichotomy j k with hlt | rfl | hgt
    · -- this ring had its turn before
      rw [if_neg (show ¬ k = j by omega)]
      refine List.Sublist.trans ?_ hheld
      by_cases hok : ok = true
      · rw [if_pos (show ok = true ∧ j < k from ⟨hok, hlt⟩)]
        split
        · exact List.Sublist.refl _
        · exact List.sublist_append_left _ _
      · rw [if_neg (by simp [hok]), if_neg (by simp [hok])]
    · rw [if_pos rfl]
      rw [if_neg (by omega), hqueue] at hheld
      unfold tryPush
      by_cases hfits : queue.length < triggerRing
      · rw [if_pos hfits, ← List.append_assoc]
        split
        · exact hheld.append (List.Sublist.refl _)
        · exact hheld.trans (List.sublist_append_left _ _)
      · -- the job is not in this ring, but the call will not return `Ok` either
        rw [if_neg hfits, if_neg (by simp [Except.isOk, Except.toBool])]
        exact hheld
    · rw [if_neg (show ¬ k = j by omega), if_neg (by omega)]
      rwa [if_neg (by omega)] at hheld
  · intro j
    show (((s.rings.set k (tryPush queue job).1)[j]?).getD []).length ≤ triggerRing
    rw [hpushed]
    split
    · unfold tryPush
      split
      · rw [List.length_append, List.length_singleton]
        omega
      · exact hroom
    · exact h.room j

/-- When the call returns, every ring has had its turn. -/
theorem owed_return {job : Job} {k : Nat} {ok : Bool} (h : s.Owed log)
    (hcall : s.caller = .pushing job k ok) (hend : s.rings[k]? = none) :
    Owed { s with caller := .idle }
      (log ++ [.returned job (if ok then .ok () else .error .backpressure)]) := by
  refine ⟨h.rings, ?_, h.room⟩
  intro j hj
  have hlast : j < k := Nat.lt_of_lt_of_le hj (List.getElem?_eq_none_iff.mp hend)
  have hheld := h.held j hj
  have hpop : ∀ r, poppedBy j (log ++ [.returned job r]) = poppedBy j log := by
    intro r
    rw [poppedBy_append]
    exact List.append_nil _
  show accepted (log ++ _) <+ (poppedBy j (log ++ _)).map Prod.fst ++ s.ring j
  rw [hpop, accepted_append]
  rw [hcall, credited] at hheld
  cases ok with
  | true =>
      rw [if_pos ⟨rfl, hlast⟩] at hheld
      exact hheld
  | false =>
      rw [if_neg (by simp)] at hheld
      rw [show accepted [.returned job _] = [] from rfl, List.append_nil]
      exact hheld

theorem owed_act {n : Nat} {kind : ConnKind} {made : Nat → Built H Q → Prop} (h : s.Owed log)
    {a : Action H A Q K D} (hw : s.sender.Wired n kind made) {sender : Sender H Q}
    {logs : List (Logged H A)}
    (hstep : s.sender.step api builder (s.supplied a) = .ok (sender, logs)) :
    Owed { s with sender, rings := s.afterPops a logs } (log ++ logs.map (.thread (mover a))) := by
  have hlength : (s.afterPops a logs).length = s.rings.length := by
    cases a with
    | worker j inp => exact List.length_modify ..
    | take | finish _ | exit | lane _ | shutdown => rfl
  have hsame := popped_ring_act log hw.workers hstep
  refine ⟨?_, ?_, ?_⟩
  · show (s.afterPops a logs).length = sender.workers.count
    rw [hlength, h.rings]
    rcases Sender.step_cases hstep with ⟨j, inp, -, hworkers, -⟩ | ⟨-, hworkers, -⟩
    · exact (Workers.count_step hworkers).symm
    · rw [hworkers]
  · intro j hj
    rw [hsame, accepted_append, accepted_map_thread, List.append_nil]
    exact h.held j (hlength ▸ hj)
  · intro j
    -- what is popped comes out of the ring
    have hlen := congrArg List.length (hsame j)
    rw [List.length_append, List.length_append, List.length_map, List.length_map, poppedBy_append,
      List.length_append] at hlen
    have hroom := h.room j
    omega

/-- **One step** of the caller or of any thread. -/
theorem owed_step {n : Nat} {kind : ConnKind} {made : Nat → Built H Q → Prop}
    {a : ServiceAction H A Q K D} (h : s.Owed log) (hw : s.sender.Wired n kind made)
    (hstep : s.step api builder a = .ok (s', evs)) : s'.Owed (log ++ evs) := by
  cases step_turn hstep with
  | stay => rwa [List.append_nil]
  | call job hidle => exact owed_call h
  | push job k ok queue hcall hring =>
      rw [List.append_nil]
      exact owed_push h hcall hring
  | ret job k ok hcall hend => exact owed_return h hcall hend
  | act a sender logs hsender => exact owed_act h hw hsender

theorem owed_start (sender : Sender H Q) : (start sender).Owed ([] : List (ServiceEvent H A)) := by
  have hring : ∀ j, (start sender).ring j = [] := by
    intro j
    unfold ring start
    rw [List.getElem?_replicate]
    split
    · rfl
    · rfl
  refine ⟨List.length_replicate, ?_, ?_⟩
  · intro j _
    exact List.nil_sublist _
  · intro j
    rw [hring]
    exact Nat.zero_le _

end Service

/-- **An accepted job reaches every provider.** For every sender that `build` makes with an engine over
`raw_libc` or `io_uring`, every interleaving of the caller of `trigger` with all threads, and whatever the
connections answer: for each provider, the jobs that `trigger` returned `Ok` for are, in the order of the
calls, among those the provider was given, the one its thread has in hand and those in the thread's ring. They
are at most 257 more than the provider was given. -/
theorem accepted_given (api : ConnApi H A Q K) (b : SenderBuilder)
    (connectOne : Nat → D → Exec (Except SenderError (Built H Q))) (ds : Nat → D × D)
    (s₀ : Sender H Q) (s : Service H Q) (actions : List (ServiceAction H A Q K D))
    (log : List (ServiceEvent H A)) (hbuild : b.build connectOne ds = .ok (.ok s₀))
    (hrun : (Service.machine api (engineReconnectBuilder connectOne)).run (.start s₀) actions =
      .ok (s, log)) :
    ∀ i < b.providers.length,
      accepted log <+ (takenJobs (eventsAt i (workerLog log)) ++ s.sender.workers.pending i).map
          Prod.fst ++ s.ring (s.sender.workers.thread i) ∧
        (accepted log).length ≤ (takenJobs (eventsAt i (workerLog log))).length + 257 := by
  obtain ⟨kind, hstart⟩ := Service.piped_start hbuild
  have hend := Machine.run_invariant _
    (fun s log => Service.Piped api (fun i c => ∃ d, connectOne i d = .ok (.ok c)) b.providers.length
      kind (b.providers.map ProviderConfig.codec) s log ∧ s.Owed log)
    ⟨hstart, Service.owed_start s₀⟩
    (fun s log a s' evs h hstep =>
      ⟨Service.piped_step h.1 hstep, Service.owed_step h.2 h.1.wired hstep⟩) hrun
  obtain ⟨hpiped, howed⟩ := hend
  intro i hi
  obtain ⟨p, hp⟩ := hpiped.wired.workers.here i hi
  obtain ⟨hjobs, -⟩ := hpiped.served i p hp
  have hthread : s.sender.workers.thread i < s.rings.length := by
    rw [howed.rings]
    exact Workers.thread_lt hp
  have hsub := (Service.sublist_credited _ _ _).trans (howed.held _ hthread)
  rw [hjobs] at hsub
  refine ⟨hsub, ?_⟩
  have hlen := hsub.length_le
  have hring : (s.ring (s.sender.workers.thread i)).length ≤ 256 := howed.room _
  have hhand := s.sender.workers.length_pending i
  rw [List.length_append, List.length_map, List.length_append] at hlen
  omega

/-- Two providers with a thread each. -/
def bothProviders : List ProviderConfig :=
  [bareProvider (.accepted "signature"), bareProvider .noResponse]

/-- Two calls return; then the first thread goes round its loop and pops again. -/
def acceptedTwice : List (ServiceAction (HttpConn RawConn Bytes) RawAnswer (QuicEngine Bool) Bool Bool) :=
  let base := Input.quiet RawAnswer.silent false
  let worker := fun inp => ServiceAction.act (.worker 0 inp)
  [.call ⟨1, 0⟩, .push, .push, .push, .call ⟨2, 0⟩, .push, .push, .push, worker base,
    worker { base with call := .takes 90 }, worker base, worker base, worker base, worker base]

/-- Provider 0 was given the first job and its thread has the second in hand, while nobody has looked into the
ring of provider 1. -/
theorem accepted_given_twice :
    ∃ s₀ s log, (bareSender .parRaw bothProviders).build (bareConnectOne bothProviders)
        (fun _ => (true, true)) = .ok (.ok s₀) ∧
      (Service.machine (rawApi plainTls (quinnApi flagQuinn)) (engineReconnectBuilder
        (bareConnectOne bothProviders))).run (.start s₀) acceptedTwice = .ok (s, log) ∧
      ((accepted log).map Job.id = [1, 2] ∧
        (takenJobs (eventsAt 0 (workerLog log))).map (fun x => x.1.id) = [1] ∧
        (s.sender.workers.pending 0).map (fun x => x.1.id) = [2] ∧
        (s.ring 1).map Job.id = [1, 2]) ∧
      accepted log <+ (takenJobs (eventsAt 1 (workerLog log)) ++ s.sender.workers.pending 1).map
        Prod.fst ++ s.ring (s.sender.workers.thread 1) := by
  obtain ⟨s₀, hbuild, out, hout, hwhere⟩ := exists_built (bareSender .parRaw bothProviders)
    (bareConnectOne bothProviders) (fun _ => (true, true))
    (fun s₀ => ∃ out ∈ ((Service.machine (rawApi plainTls (quinnApi flagQuinn))
        (engineReconnectBuilder (bareConnectOne bothProviders))).run (.start s₀)
          acceptedTwice).toOption,
      (accepted out.2).map Job.id = [1, 2] ∧
        (takenJobs (eventsAt 0 (workerLog out.2))).map (fun x => x.1.id) = [1] ∧
        (out.1.sender.workers.pending 0).map (fun x => x.1.id) = [2] ∧
        (out.1.ring 1).map Job.id = [1, 2])
    (by decide +kernel)
  have hrun := eq_ok_of_mem_toOption hout
  have hgiven := accepted_given _ _ _ _ s₀ out.1 acceptedTwice out.2 hbuild hrun 1 (by decide)
  exact ⟨s₀, out.1, out.2, hbuild, hrun, hwhere, hgiven.1⟩

end TxSender.Transport
