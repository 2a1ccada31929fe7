/-
# TxSender.Transport.Stamps — the time stamps of an outcome.

A worker reads the time stamp counter at two places: when it pops a job, and when it pushes a response. An
outcome carries both readings, as `sent_at` and `settled_at`, and a sink subtracts the one from the other.

`outcome_times` says what the readings are worth. The pair of job and `sent_at` is that of one pop of the
provider's thread, each pop at most once and in order; and when the counter does not run backwards on the
thread, no outcome settles before it was sent. The clock is an assumption on what the thread read, in the
order it read it (`stamps`): nothing is assumed about the counters of two threads. The senders are those of
`Transport.Delivery`, with an engine over `raw_libc` or `io_uring`.
-/
import TxSender.Transport.Delivery

namespace TxSender.Transport

open TxSender.Lib
open TxSender.Http
open TxSender.Protocol
open TxSender.Backend
open TxSender.Provider
open scoped List

variable {H A Q K D : Type}

/-! ## What the log records of the clock -/

/-- The reading of `rdtsc` behind a line of a worker's log. -/
def stamp : Logged H A → Option Nat
  | .popped _ sent => some sent
  | .on _ (.push _ resp) => some resp.settledTsc
  | .on _ _ => none

/-- The readings of thread `j`, in the order they were made. -/
def stamps (j : Nat) (log : List (ServiceEvent H A)) : List Nat :=
  log.filterMap fun e => match e with
    | .thread k l => if k = j then stamp l else none
    | _ => none

theorem stamps_append (j : Nat) (log log' : List (ServiceEvent H A)) :
    stamps j (log ++ log') = stamps j log ++ stamps j log' := List.filterMap_append

theorem mem_stamps {j t : Nat} {log : List (ServiceEvent H A)} {l : Logged H A}
    (hl : .thread j l ∈ log) (ht : stamp l = some t) : t ∈ stamps j log := by
  refine List.mem_filterMap.mpr ⟨_, hl, ?_⟩
  show (if j = j then stamp l else none) = some t
  rw [if_pos rfl, ht]

/-- The time stamp of a pop is a reading of the thread. -/
theorem mem_stamps_of_popped {j : Nat} {log : List (ServiceEvent H A)} {x : Job × Nat}
    (h : x ∈ poppedBy j log) : x.2 ∈ stamps j log := by
  obtain ⟨l, hl, hx⟩ := List.mem_filterMap.mp h
  obtain ⟨e, he, hel⟩ := List.mem_filterMap.mp hl
  cases e with
  | called job => cases hel
  | returned job r => cases hel
  | thread k l' =>
      simp only [Option.ite_none_right_eq_some, Option.some.injEq] at hel
      obtain ⟨rfl, rfl⟩ := hel
      refine mem_stamps he ?_
      cases l' with
      | popped job sent =>
          obtain rfl := Option.some.inj hx
          rfl
      | on i ev => cases hx

/-! ## Who pushes for a provider -/

namespace Workers

variable {api : ConnApi H A Q K} {n : Nat} {kind : ConnKind} {ws ws' : Workers H Q} {i j : Nat}
  {inp : Input H A Q K} {logs : List (Logged H A)}

/-- What is logged for a provider is logged by the thread that serves it. -/
theorem thread_of_logged (hw : ws.Wired n kind) (h : ws.step api j inp = .ok (ws', logs))
    {ev : Event H A} (hm : .on i ev ∈ logs) : ws.thread i = j := by
  cases ws with
  | sequential s pc =>
      cases j with
      | zero => rfl
      | succ j =>
          cases h
          cases hm
  | parallel ws =>
      simp only [step] at h
      cases hj : ws[j]? with
      | none =>
          rw [hj] at h
          cases h
          cases hm
      | some st =>
          obtain ⟨w, pc⟩ := st
          rw [hj] at h
          obtain ⟨⟨⟨w', pc'⟩, evs⟩, hstep, h⟩ := bind_eq_ok.mp h
          cases h
          have hidx : w.providerIdx = j :=
            (hw.ends j w (congrArg (Option.map Prod.fst) hj)).providerIdx
          show i = j
          rcases (ParWorker.step_stepped hstep).own with hpop | ⟨evs', rfl⟩
          · obtain ⟨job, sent, heq⟩ := hpop _ hm
            cases heq
          · obtain ⟨ev', -, heq⟩ := List.mem_map.mp hm
            obtain ⟨hi, -⟩ := Logged.on.inj heq
            exact hi.symm.trans hidx

/-- A step that pushes a response pops nothing. -/
theorem poppedJobs_of_push {ch : Option Nat} {got : Option (ReconnectResp H Q)}
    (hacts : Acts api ch got ws ws' logs) {ring : Nat} {resp : RawResp}
    (hm : .on i (.push ring resp) ∈ logs) : poppedJobs logs = [] := by
  rcases hacts.about with hquiet | ⟨k, p, evs, -, rfl⟩
  · exact (hquiet _ hm).elim
  · exact poppedJobs_map_on k evs

end Workers

/-! ## The readings of one response -/

namespace Service

variable {api : ConnApi H A Q K} {builder : ReconnectBuilder H Q D} {s s' : Service H Q}
  {log evs : List (ServiceEvent H A)} {n : Nat} {kind : ConnKind}

/-- Where the clock of its thread does not run backwards, no response settles before it was sent. -/
def Timely (n : Nat) (s : Service H Q) (log : List (ServiceEvent H A)) : Prop :=
  ∀ i < n, (stamps (s.sender.workers.thread i) log).Pairwise (· ≤ ·) →
    ∀ resp ∈ emitted (eventsAt i (workerLog log)), resp.sentTsc ≤ resp.settledTsc

theorem timely_of_quiet (h : s.Timely n log) (hworkers : s'.sender.workers = s.sender.workers)
    (hlog : workerLog evs = []) : s'.Timely n (log ++ evs) := by
  intro i hi hclock resp hresp
  rw [hworkers, stamps_append] at hclock
  rw [workerLog_append, hlog, List.append_nil] at hresp
  exact h i hi (List.pairwise_append.mp hclock).1 resp hresp

/-- The response that a step pushes belongs to a job popped in an earlier one. -/
theorem timely_act {made : Nat → Built H Q → Prop} {codecs : List Codec} (h : s.Timely n log)
    (hclosed : StaysClosed api.quic) {j : Nat} {inp : Input H A Q K}
    (hw : s.sender.Wired n kind made) {sender : Sender H Q} {logs : List (Logged H A)}
    (hstep : s.sender.step api builder (s.supplied (.worker j inp : Action H A Q K D)) =
      .ok (sender, logs))
    (hafter : Piped api made n kind codecs
      { s with sender, rings := s.afterPops (.worker j inp : Action H A Q K D) logs }
      (log ++ logs.map (.thread j))) :
    Timely n { s with sender, rings := s.afterPops (.worker j inp : Action H A Q K D) logs }
      (log ++ logs.map (.thread j)) := by
  obtain ⟨hone, -, hacts, -, -, -⟩ := Sender.step_worker hw hstep
  intro i hi hclock resp hresp
  obtain ⟨p, hp⟩ := hw.workers.here i hi
  have hthread : sender.workers.thread i = s.sender.workers.thread i :=
    (Workers.step_jobs hw.workers hone hp).1
  have hkeys := hafter.emitted_popped hclosed hi
  change (stamps (sender.workers.thread i) _).Pairwise _ at hclock
  change _ <+ (poppedBy (sender.workers.thread i) _).map key at hkeys
  rw [hthread, stamps_append] at hclock
  obtain ⟨hbefore, -, hle⟩ := List.pairwise_append.mp hclock
  have hall := hresp
  rw [workerLog_append, workerLog_map_thread, eventsAt_append, emitted_append] at hresp
  rcases List.mem_append.mp hresp with hold | hnew
  · exact h i hi hbefore resp hold
  · -- a response of this step
    obtain ⟨ev, hev, hpush⟩ := List.mem_filterMap.mp hnew
    cases ev with
    | push ring resp' =>
        obtain rfl := Option.some.inj hpush
        have hm := mem_eventsAt.mp hev
        have hj : s.sender.workers.thread i = j := Workers.thread_of_logged hw.workers hone hm
        have hkey := hkeys.subset (List.mem_map_of_mem hall)
        rw [hthread, hj, poppedBy_append, poppedBy_map_thread, if_pos rfl,
          Workers.poppedJobs_of_push hacts hm, List.append_nil] at hkey
        obtain ⟨x, hx, heq⟩ := List.mem_map.mp hkey
        have hsent : x.2 = resp'.sentTsc := congrArg Prod.snd heq
        rw [← hsent]
        rw [hj] at hle
        exact hle _ (mem_stamps_of_popped hx) _
          (mem_stamps (List.mem_map_of_mem hm) rfl)
    | _ => cases hpush

/-- **One step** of the caller or of any thread. -/
theorem timely_step {connectOne : Nat → D → Exec (Except SenderError (Built H Q))}
    {codecs : List Codec} {a : ServiceAction H A Q K D} (hclosed : StaysClosed api.quic)
    (hpiped : Piped api (fun i c => ∃ d, connectOne i d = .ok (.ok c)) n kind codecs s log)
    (h : s.Timely n log)
    (hstep : s.step api (engineReconnectBuilder connectOne) a = .ok (s', evs)) :
    s'.Timely n (log ++ evs) := by
  have hafter := piped_step hpiped hstep
  cases step_turn hstep with
  | stay | call job hidle | push job k ok queue hcall hring | ret job k ok hcall hend =>
      exact timely_of_quiet h rfl rfl
  | act a sender logs hsender =>
      cases a with
      | worker j inp => exact timely_act h hclosed hpiped.wired hsender hafter
      | take | finish _ | exit | lane _ | shutdown =>
          rcases Sender.step_cases hsender with ⟨_, _, heq, -⟩ | ⟨rfl, hworkers, -, -⟩
          · cases heq
          · exact timely_of_quiet h hworkers rfl

end Service

/-- **The time stamps of an outcome.** For every sender that `build` makes with an engine over `raw_libc` or
`io_uring` and every interleaving of the caller of `trigger` with all threads, whatever the connections
answer: the outcomes handed to the sink for a provider, each as its job and `sent_at`, are some of the pops of
the provider's thread, each as the job and the time stamp of the pop, in order and each at most once. If in
addition the time stamp counter does not run backwards on that thread, every outcome has
`sent_at <= settled_at`. A QUIC connection that is closed is assumed to stay closed. -/
theorem outcome_times {C : Type} (http : HttpApi H A) (quinn : Quinn C K) (hq : quinn.StaysClosed)
    (b : SenderBuilder) (connectOne : Nat → D → Exec (Except SenderError (Built H (QuicEngine C))))
    (ds : Nat → D × D) (s₀ : Sender H (QuicEngine C)) (s : Service H (QuicEngine C))
    (actions : List (ServiceAction H A (QuicEngine C) K D)) (log : List (ServiceEvent H A))
    (hbuild : b.build connectOne ds = .ok (.ok s₀))
    (hrun : (Service.machine ⟨http, quinnApi quinn⟩ (engineReconnectBuilder connectOne)).run
      (.start s₀) actions = .ok (s, log)) :
    ∀ i < b.providers.length,
      (s.sender.lane.outcomes i).map (fun o => (o.job, o.sentAt)) <+
          (poppedBy (s.sender.workers.thread i) log).map (fun x => (x.1.id, x.2)) ∧
        ((stamps (s.sender.workers.thread i) log).Pairwise (· ≤ ·) →
          ∀ o ∈ s.sender.lane.outcomes i, o.sentAt ≤ o.settledAt) := by
  have hclosed := staysClosed_quinnApi hq
  obtain ⟨kind, hstart⟩ := Service.piped_start hbuild
  have hend := Machine.run_invariant _
    (fun s log => Service.Piped ⟨http, quinnApi quinn⟩ (fun i c => ∃ d, connectOne i d = .ok (.ok c))
      b.providers.length kind (b.providers.map ProviderConfig.codec) s log ∧
        s.Timely b.providers.length log)
    ⟨hstart, fun i _ _ resp hresp => absurd hresp List.not_mem_nil⟩
    (fun s log a s' evs h hstep =>
      ⟨Service.piped_step h.1 hstep, Service.timely_step hclosed h.1 h.2 hstep⟩) hrun
  obtain ⟨hpiped, htimely⟩ := hend
  intro i hi
  obtain ⟨codec, popped, hout, hsub⟩ := hpiped.outcomes_emitted hi (List.length_map _)
  constructor
  · rw [hout, List.map_map]
    exact (hsub.map respKey).trans (hpiped.emitted_popped hclosed hi)
  · intro hclock o ho
    rw [hout] at ho
    obtain ⟨resp, hresp, rfl⟩ := List.mem_map.mp ho
    exact htimely i hi hclock resp (hsub.subset hresp)

/-- One job is popped at 10 and answered at 35. -/
def answeredLater : List (ServiceAction (HttpConn RawConn Bytes) RawAnswer (QuicEngine Bool) Bool Bool) :=
  let base := Input.quiet RawAnswer.silent false
  let worker := fun inp => ServiceAction.act (.worker 0 inp)
  [.call ⟨1, 0⟩, .push, .push, worker { base with tsc := 10 },
    worker { base with call := .takes 90, tsc := 20 },
    worker { base with call := .arrives okResponse.bytes, tsc := 35 }] ++
    List.replicate 4 (.act (.lane false))

theorem outcome_times_answered :
    ∃ s₀ s log, (bareSender .parRaw [bareProvider (.accepted "signature")]).build
        (bareConnectOne [bareProvider (.accepted "signature")]) (fun _ => (true, true)) =
          .ok (.ok s₀) ∧
      (Service.machine (rawApi plainTls (quinnApi flagQuinn)) (engineReconnectBuilder
        (bareConnectOne [bareProvider (.accepted "signature")]))).run (.start s₀) answeredLater =
          .ok (s, log) ∧
      stamps 0 log = [10, 35] ∧
      (s.sender.lane.outcomes 0).map (fun o => (o.job, o.sentAt, o.settledAt)) = [(1, 10, 35)] ∧
      ∀ o ∈ s.sender.lane.outcomes 0, o.sentAt ≤ o.settledAt := by
  obtain ⟨s₀, hbuild, out, hout, hstamps, hthread, hone⟩ :=
    exists_built (bareSender .parRaw [bareProvider (.accepted "signature")])
      (bareConnectOne [bareProvider (.accepted "signature")]) (fun _ => (true, true))
      (fun s₀ => ∃ out ∈ ((Service.machine (rawApi plainTls (quinnApi flagQuinn))
          (engineReconnectBuilder (bareConnectOne [bareProvider (.accepted "signature")]))).run
            (.start s₀) answeredLater).toOption,
        stamps 0 out.2 = [10, 35] ∧ out.1.sender.workers.thread 0 = 0 ∧
          (out.1.sender.lane.outcomes 0).map (fun o => (o.job, o.sentAt, o.settledAt)) =
            [(1, 10, 35)])
      (by decide +kernel)
  have hrun := eq_ok_of_mem_toOption hout
  have htimes := outcome_times _ flagQuinn staysClosed_flagQuinn _ _ _ s₀ out.1 answeredLater out.2 hbuild
    hrun 0 (by decide)
  refine ⟨s₀, out.1, out.2, hbuild, hrun, hstamps, hone, htimes.2 ?_⟩
  rw [hthread, hstamps]
  decide

end TxSender.Transport
