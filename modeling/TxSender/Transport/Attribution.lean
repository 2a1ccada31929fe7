/-
# TxSender.Transport.Attribution — which job a response is reported for.

The worker has one slot, and a response is reported for the job that is in it: the one sent last.
That is the job the server answered when it was the only one waiting for an answer. With two jobs
waiting, the first answer is reported for the second job and the second answer is thrown away.
-/
import TxSender.Lib.Trace
import TxSender.Transport.InFlight
import TxSender.Transport.Order

namespace TxSender.Transport

open TxSender.Lib
open TxSender.Http
open TxSender.Protocol
open TxSender.Backend
open scoped List

variable {H A Q K : Type}

/-! ## Runs in which nothing fails -/

/-- The body the event read, if it did. -/
def bodyOf : Event H A → Option Bytes
  | .polled _ _ (.ok (some body)) => some body
  | _ => none

/-- The response bodies read, in order. -/
def bodies (log : List (Event H A)) : List Bytes := log.filterMap bodyOf

theorem bodies_append (l l' : List (Event H A)) : bodies (l ++ l') = bodies l ++ bodies l' :=
  List.filterMap_append

/-- Not a failed send, and not a failover. -/
def smooth : Event H A → Bool
  | .httpSend _ _ _ _ _ (.error _) | .failover _ _ => false
  | _ => true

/-- The server has answered fewer requests than it was sent, at every answer. -/
def Answers (past : List (Event H A)) (e : Event H A) : Prop :=
  (bodyOf e).isSome = true → (bodies past).length < (okSent past).length

instance (past : List (Event H A)) (e : Event H A) : Decidable (Answers past e) :=
  inferInstanceAs (Decidable (_ → _))

/-- All sends succeed, no connection fails, and the server answers what it was sent. -/
structure Calm (log : List (Event H A)) : Prop where
  smooth : ∀ e ∈ log, smooth e = true
  answers : Along Answers [] log

/-- When a body is read, exactly one request is waiting for its answer. -/
def Alone (past : List (Event H A)) (e : Event H A) : Prop :=
  (bodyOf e).isSome = true → (okSent past).length = (bodies past).length + 1

instance (past : List (Event H A)) (e : Event H A) : Decidable (Alone past e) :=
  inferInstanceAs (Decidable (_ → _))

/-- What the response to `body` has to say when `entry` was the job. -/
def row (entry : Job × Nat) (body : Bytes) : (JobId × Nat) × Bytes := (key entry, respBytes body)

/-- The `k`-th body read is reported, once, for the `k`-th job sent. -/
def Attributed (log : List (Event H A)) : Prop :=
  (emitted log).map (fun r => (respKey r, r.bytes)) = List.zipWith row (okSent log) (bodies log)

/-! ## The invariant -/

/-- All responses so far are right, and the slot is empty or holds the job sent last. -/
structure Right (log : List (Event H A)) (w : ParWorker H Q) : Prop where
  attributed : Attributed log
  slot : (w.inflight = none ∧ (okSent log).length = (bodies log).length) ∨
    ∃ older entry, okSent log = older ++ [entry] ∧ w.inflight = some entry ∧
      (bodies log).length ≤ older.length

/-- Some response was reported for a job sent after the one that was answered. -/
def Crossed (log : List (Event H A)) : Prop :=
  ∃ (k j : Nat) (entry : Job × Nat) (r : RawResp), k < j ∧ (okSent log)[j]? = some entry ∧
    (emitted log)[k]? = some r ∧ respKey r = key entry

theorem Crossed.append {log : List (Event H A)} (h : Crossed log) (evs : List (Event H A)) :
    Crossed (log ++ evs) := by
  obtain ⟨k, j, entry, r, hkj, hj, hk, heq⟩ := h
  refine ⟨k, j, entry, r, hkj, ?_, ?_, heq⟩
  · rw [okSent_append, List.getElem?_append_left (List.getElem?_eq_some_iff.mp hj).1]
    exact hj
  · rw [emitted_append, List.getElem?_append_left (List.getElem?_eq_some_iff.mp hk).1]
    exact hk

/-- With distinct jobs, a crossed response is a wrong one. -/
theorem Crossed.not_attributed {log : List (Event H A)} (h : Crossed log)
    (hdistinct : ((okSent log).map key).Nodup) : ¬ Attributed log := by
  intro hatt
  obtain ⟨k, j, entry, r, hkj, hj, hk, heq⟩ := h
  have hrow : ((emitted log).map fun r => (respKey r, r.bytes))[k]? = some (respKey r, r.bytes) := by
    rw [List.getElem?_map, hk]
    rfl
  rw [hatt, List.getElem?_zipWith_eq_some] at hrow
  obtain ⟨first, body, hfirst, -, hsame⟩ := hrow
  have hkey : key first = key entry := (Prod.mk.inj hsame).1.trans heq
  have hklt : k < ((okSent log).map key).length := by
    rw [List.length_map]
    exact (List.getElem?_eq_some_iff.mp hfirst).1
  have hkj' : k = j := by
    refine (List.getElem?_inj hklt hdistinct).mp ?_
    rw [List.getElem?_map, List.getElem?_map, hfirst, hj, Option.map_some, Option.map_some, hkey]
  omega

/-- A job that was sent and not answered does not change the rows. -/
theorem zipWith_row_append {older newer : List (Job × Nat)} {bs : List Bytes}
    (h : bs.length ≤ older.length) :
    List.zipWith row (older ++ newer) bs = List.zipWith row older bs := by
  induction older generalizing bs with
  | nil =>
      rw [List.length_nil, Nat.le_zero, List.length_eq_zero_iff] at h
      rw [h, List.zipWith_nil_right, List.zipWith_nil_right]
  | cons entry older ih =>
      cases bs with
      | nil => rfl
      | cons b bs => rw [List.cons_append, List.zipWith_cons_cons, List.zipWith_cons_cons, ih
          (Nat.le_of_succ_le_succ h)]

theorem Right.le {log : List (Event H A)} {w : ParWorker H Q} (h : Right log w) :
    (bodies log).length ≤ (okSent log).length := by
  rcases h.slot with ⟨-, heq⟩ | ⟨older, entry, hsent, -, hle⟩
  · exact heq.ge
  · rw [hsent, List.length_append]
    omega

/-- As many responses as bodies. -/
theorem Right.length_emitted {log : List (Event H A)} {w : ParWorker H Q} (h : Right log w) :
    (emitted log).length = (bodies log).length := by
  have hlen := congrArg List.length h.attributed
  rw [List.length_map, List.length_zipWith] at hlen
  have := h.le
  omega

/-- A call that sends nothing, reads no body and leaves the slot alone. -/
theorem Right.keep {log evs : List (Event H A)} {w w' : ParWorker H Q} (h : Right log w)
    (hsent : okSent evs = []) (hbodies : bodies evs = []) (hemitted : emitted evs = [])
    (hslot : w'.inflight = w.inflight) : Right (log ++ evs) w' := by
  refine ⟨?_, ?_⟩
  · unfold Attributed
    rw [okSent_append, bodies_append, emitted_append, hsent, hbodies, hemitted, List.append_nil,
      List.append_nil, List.append_nil]
    exact h.attributed
  · rw [okSent_append, bodies_append, hsent, hbodies, List.append_nil, List.append_nil, hslot]
    exact h.slot

/-- The job in the slot is the one sent last. -/
theorem Right.last {log : List (Event H A)} {w : ParWorker H Q} {entry : Job × Nat}
    (h : Right log w) (hslot : w.inflight = some entry) :
    ∃ older, okSent log = older ++ [entry] ∧ (bodies log).length ≤ older.length := by
  rcases h.slot with ⟨hnone, -⟩ | ⟨older, entry', hsent, hsome, hle⟩
  · rw [hslot] at hnone
    cases hnone
  · rw [hslot] at hsome
    obtain rfl := Option.some.inj hsome
    exact ⟨older, hsent, hle⟩

theorem Right.sent {log : List (Event H A)} {w : ParWorker H Q} (h : Right log w) (job : Job)
    (sent : Nat) (hc h' : H) (tx : Bytes) (a : A) :
    Right (log ++ [.taken job sent, .httpSend job sent hc tx a (.ok ()), .ended job sent (.ok ())])
      (w.accepted h' job sent) := by
  have hokSent : okSent (log ++ [.taken job sent, .httpSend job sent hc tx a (.ok ()),
      .ended job sent (.ok ())]) = okSent log ++ [(job, sent)] := okSent_append ..
  have hbodies : bodies (log ++ [.taken job sent, .httpSend job sent hc tx a (.ok ()),
      .ended job sent (.ok ())]) = bodies log := by
    rw [bodies_append]
    exact List.append_nil _
  refine ⟨?_, Or.inr ⟨okSent log, (job, sent), hokSent, rfl, ?_⟩⟩
  · unfold Attributed
    rw [hokSent, hbodies, emitted_append, zipWith_row_append h.le]
    exact (congrArg _ (List.append_nil _)).trans h.attributed
  · rw [hbodies]
    exact h.le

/-- A body read while the slot's job is the only one waiting is reported for that job. -/
theorem Right.answered {log : List (Event H A)} {w w' : ParWorker H Q} {job : Job}
    {sent ring tsc : Nat} {pid : ProviderId} {hc : H} {a : A} {body : Bytes} (h : Right log w)
    (hslot : w.inflight = some (job, sent)) (hslot' : w'.inflight = none)
    (hone : (okSent log).length = (bodies log).length + 1) :
    Right (log ++ [.polled hc a (.ok (some body)), .push ring (bodyResp job pid sent tsc body)])
      w' := by
  obtain ⟨older, hsent, hle⟩ := h.last hslot
  have holder : older.length = (bodies log).length := by
    rw [hsent, List.length_append, List.length_singleton] at hone
    omega
  have hokSent : okSent (log ++ [.polled hc a (.ok (some body)),
      .push ring (bodyResp job pid sent tsc body)]) = older ++ [(job, sent)] := by
    rw [okSent_append, hsent]
    exact List.append_nil _
  have hbodies : bodies (log ++ [.polled hc a (.ok (some body)),
      .push ring (bodyResp job pid sent tsc body)]) = bodies log ++ [body] := bodies_append ..
  refine ⟨?_, Or.inl ⟨hslot', ?_⟩⟩
  · have hold := h.attributed
    unfold Attributed at hold ⊢
    rw [hsent, zipWith_row_append hle] at hold
    rw [hokSent, hbodies, List.zipWith_append holder, ← hold, emitted_append, List.map_append]
    rfl
  · rw [hokSent, hbodies, List.length_append, List.length_append, holder]
    rfl

/-- A body read while another request was written after the one it answers. -/
theorem Right.crossed {log : List (Event H A)} {w : ParWorker H Q} {job : Job} {sent ring tsc : Nat}
    {pid : ProviderId} {hc : H} {a : A} {body : Bytes} (h : Right log w)
    (hslot : w.inflight = some (job, sent)) (hmore : (bodies log).length + 1 < (okSent log).length) :
    Crossed
      (log ++ [.polled hc a (.ok (some body)), .push ring (bodyResp job pid sent tsc body)]) := by
  obtain ⟨older, hsent, hle⟩ := h.last hslot
  refine ⟨(bodies log).length, older.length, (job, sent), bodyResp job pid sent tsc body, ?_, ?_, ?_,
    rfl⟩
  · rw [hsent, List.length_append, List.length_singleton] at hmore
    omega
  · rw [okSent_append, hsent]
    simp
  · rw [emitted_append, ← h.length_emitted]
    exact List.getElem?_concat_length

/-! ## One call, and runs -/

/-- The responses are right as long as each body was read with one request waiting; where one was
not, some response is crossed. -/
structure Sorted (log : List (Event H A)) (w : ParWorker H Q) : Prop where
  right : Along Alone [] log → Right log w
  crossed : ¬ Along Alone [] log → Crossed log

theorem Sorted.of_right {log evs : List (Event H A)} {w : ParWorker H Q} (hevs : Along Alone log evs)
    (hright : Along Alone [] log → Right (log ++ evs) w) (hcrossed : ¬ Along Alone [] log → Crossed log) :
    Sorted (log ++ evs) w where
  right h := hright (along_append.mp h).1
  crossed h := (hcrossed fun hlog => h (along_append.mpr ⟨hlog, hevs⟩)).append evs

/-- A call that reads no body. -/
theorem along_alone_of_bodies {log evs : List (Event H A)} (h : ∀ e ∈ evs, bodyOf e = none) :
    Along Alone log evs := by
  refine along_of_forall fun e he past hsome => ?_
  rw [h e he] at hsome
  cases hsome

/-- What a call on an HTTP connection does when nothing fails. -/
inductive Calmly (w : ParWorker H Q) : List (Event H A) → ParWorker H Q → Prop
  | sent (job : Job) (sent : Nat) (hc h' : H) (tx : Bytes) (a : A) :
      Calmly w [.taken job sent, .httpSend job sent hc tx a (.ok ()), .ended job sent (.ok ())]
        (w.accepted h' job sent)
  | answered {w' : ParWorker H Q} {job : Job} {sent ring tsc : Nat} {pid : ProviderId} {hc : H}
      {a : A} {body : Bytes} (hslot : w.inflight = some (job, sent)) (hslot' : w'.inflight = none) :
      Calmly w
        [.polled hc a (.ok (some body)), .push ring (bodyResp job pid sent tsc body)] w'
  | unasked {w' : ParWorker H Q} (hc : H) (a : A) (body : Bytes) (hslot : w.inflight = none) :
      Calmly w [.polled hc a (.ok (some body))] w'
  | other {evs : List (Event H A)} {w' : ParWorker H Q} (hsent : okSent evs = [])
      (hbody : ∀ e ∈ evs, bodyOf e = none) (hemitted : emitted evs = [])
      (hslot : w'.inflight = w.inflight) : Calmly w evs w'

theorem Does.calmly {api : ConnApi H A Q K} {w w' : ParWorker H Q} {evs : List (Event H A)}
    (hdoes : Does api w evs w') (hact : ∃ h, w.active = .http h)
    (hsmooth : ∀ e ∈ evs, smooth e = true) : Calmly w evs w' ∧ ∃ h, w'.active = .http h := by
  obtain ⟨h₀, hact⟩ := hact
  cases hdoes with
  | sent => exact ⟨.sent .., _, rfl⟩
  | answered _ _ hslot => exact ⟨.answered hslot rfl, _, rfl⟩
  | unasked _ _ hslot => exact ⟨.unasked _ _ _ hslot, _, rfl⟩
  | quiet _ _ hr =>
      refine ⟨.other rfl ?_ rfl rfl, _, rfl⟩
      intro e he
      obtain rfl := List.mem_singleton.mp he
      unfold bodyOf
      split
      · rename_i heq
        exact absurd (Event.polled.inj heq).2.2 (hr _)
      · rfl
  | drove a now k =>
      rw [hact]
      exact ⟨.other rfl (by simp) rfl rfl, _, rfl⟩
  | installed c => exact ⟨.other rfl (by simp [bodyOf]) rfl rfl, h₀, hact⟩
  | published => exact ⟨.other rfl (by simp [ParWorker.publishDiag, bodyOf]) rfl rfl, h₀, hact⟩
  | refused => cases hsmooth _ (List.mem_cons_of_mem _ (List.mem_cons_self ..))
  | resent => cases hsmooth _ (List.mem_cons_of_mem _ (List.mem_cons_self ..))
  | lost => cases hsmooth _ (List.mem_cons_of_mem _ (List.mem_cons_self ..))
  | dropped => cases hsmooth _ (List.mem_cons_of_mem _ (List.mem_cons_self ..))
  | failed => cases hsmooth _ (List.mem_cons_of_mem _ (List.mem_cons_self ..))
  | died => cases hsmooth _ (List.mem_cons_of_mem _ (List.mem_cons_self ..))
  | quicSent hq =>
      rw [hact] at hq
      cases hq
  | expired hq =>
      rw [hact] at hq
      cases hq
  | waiting hq =>
      rw [hact] at hq
      cases hq

theorem Calmly.sorted {log evs : List (Event H A)} {w w' : ParWorker H Q} (h : Calmly w evs w')
    (hsorted : Sorted log w) (hanswers : Along Answers log evs) : Sorted (log ++ evs) w' := by
  cases h with
  | sent job sent hc h' tx a =>
      refine .of_right (along_alone_of_bodies (by simp [bodyOf])) (fun hlog => ?_) hsorted.crossed
      exact (hsorted.right hlog).sent job sent hc h' tx a
  | other hsent hbody hemitted hslot =>
      refine .of_right (along_alone_of_bodies hbody) (fun hlog => ?_) hsorted.crossed
      exact (hsorted.right hlog).keep hsent (List.filterMap_eq_nil_iff.mpr hbody) hemitted hslot
  | unasked hc a body hslot =>
      -- an answer finds the slot empty only where an earlier one was crossed
      have hlt : (bodies log).length < (okSent log).length := hanswers.1 rfl
      have hbad : ¬ Along Alone [] log := by
        intro hlog
        rcases (hsorted.right hlog).slot with ⟨-, heq⟩ | ⟨_, _, _, hsome, _⟩
        · omega
        · rw [hslot] at hsome
          cases hsome
      refine ⟨fun hall => absurd (along_append.mp hall).1 hbad, fun _ => ?_⟩
      exact (hsorted.crossed hbad).append _
  | answered hslot hslot' =>
      have hlt : (bodies log).length < (okSent log).length := hanswers.1 rfl
      constructor
      · intro hall
        obtain ⟨hlog, halone⟩ := along_append.mp hall
        exact (hsorted.right hlog).answered hslot hslot' (halone.1 rfl)
      · intro hbad
        by_cases hlog : Along Alone [] log
        · refine (hsorted.right hlog).crossed hslot ?_
          by_contra hle
          refine hbad (along_append.mpr ⟨hlog, fun _ => ?_, fun hpush => ?_, trivial⟩)
          · show (okSent log).length = (bodies log).length + 1
            omega
          · cases hpush
        · exact (hsorted.crossed hlog).append _

theorem Runs.sorted {api : ConnApi H A Q K} {w₀ w : ParWorker H Q} {log : List (Event H A)}
    (h : Runs api w₀ log w) (hact : ∃ h, w₀.active = .http h) (hslot : w₀.inflight = none)
    (hcalm : Calm log) : Sorted log w ∧ ∃ h, w.active = .http h := by
  induction h with
  | start => exact ⟨⟨fun _ => ⟨rfl, .inl ⟨hslot, rfl⟩⟩, fun hbad => absurd trivial hbad⟩, hact⟩
  | @step log evs w w' _ hdoes ih =>
      obtain ⟨hpast, hanswers⟩ := along_append.mp hcalm.answers
      obtain ⟨hsorted, hhttp⟩ := ih
        ⟨fun e he => hcalm.smooth e (List.mem_append_left _ he), hpast⟩
      obtain ⟨hcalmly, hhttp'⟩ := hdoes.calmly hhttp
        fun e he => hcalm.smooth e (List.mem_append_right _ he)
      exact ⟨hcalmly.sorted hsorted hanswers, hhttp'⟩
  | tick _ ih =>
      obtain ⟨hsorted, hhttp⟩ := ih hcalm
      refine ⟨⟨fun halone => ?_, hsorted.crossed⟩, hhttp⟩
      exact ⟨(hsorted.right halone).attributed, (hsorted.right halone).slot⟩

/-- **Attribution of responses.** In a run of either worker in which the provider's connection is
HTTP, all sends succeed, nothing fails and the server answers in order, every response is reported for
the job it answers if each body was read while exactly one request was waiting for its answer; and
for jobs that can be told apart, only if. -/
theorem attributed_iff_alone {api : ConnApi H A Q K} {p₀ p : ParWorker H Q}
    {popped : List (Job × Nat)} {log : List (Event H A)} (h : ProviderRun api p₀ popped log p)
    (hhttp : ∃ h, p₀.active = .http h) (hcalm : Calm log) :
    (Along Alone [] log → Attributed log) ∧
      (((okSent log).map key).Nodup → Attributed log → Along Alone [] log) := by
  obtain ⟨idx, ring, rx, kind, diag, a, b, rfl⟩ := h.started
  obtain ⟨hsorted, -⟩ := h.runs.sorted hhttp rfl hcalm
  refine ⟨fun halone => (hsorted.right halone).attributed, fun hdistinct hatt => ?_⟩
  by_contra hbad
  exact (hsorted.crossed hbad).not_attributed hdistinct hatt

/-- Two jobs are sent before the first answer comes; then both answers come, one at a time. -/
def overlappingInputs : List (Input (HttpConn RawConn Bytes) RawAnswer (QuicEngine Bool) Bool) :=
  let base := Input.quiet RawAnswer.silent false
  let send := { base with call := .takes 90 }
  ParWorker.jobRound base ⟨1, 0⟩ 10 send base ++
    (ParWorker.jobRound base ⟨2, 0⟩ 20 send base ++
      (ParWorker.pollRound base { base with call := .arrives okResponse.bytes } ++
        ParWorker.pollRound base { base with call := .arrives okResponse.bytes }))

/-- The answer to job 1 is reported for job 2, and the answer to job 2 for none. -/
theorem overlapping_not_attributed :
    ∃ log p, ProviderRun (rawApi plainTls (quinnApi flagQuinn))
        (startedPar 0 0 0 .rawLibc 0 (.http bareConn) (.http bareConn))
        [(⟨1, 0⟩, 10), (⟨2, 0⟩, 20)] log p ∧
      Calm log ∧ okSent log = [(⟨1, 0⟩, 10), (⟨2, 0⟩, 20)] ∧
      bodies log = [okResponse.body, okResponse.body] ∧
      (emitted log).map respKey = [(2, 20)] ∧ ¬ Attributed log := by
  obtain ⟨log, p, hrun, hsmooth, hanswers, hsent, hbodies, hemitted⟩ := ProviderRun.of_inputs
    (rawApi plainTls (quinnApi flagQuinn)) (.http bareConn) (.http bareConn) overlappingInputs
    [(⟨1, 0⟩, 10), (⟨2, 0⟩, 20)]
    (fun log _ => (∀ e ∈ log, smooth e = true) ∧ Along Answers [] log ∧
      okSent log = [(⟨1, 0⟩, 10), (⟨2, 0⟩, 20)] ∧ bodies log = [okResponse.body, okResponse.body] ∧
      (emitted log).map respKey = [(2, 20)])
    (by decide +kernel)
  refine ⟨log, p, hrun, ⟨hsmooth, hanswers⟩, hsent, hbodies, hemitted, ?_⟩
  intro hatt
  have hlen := congrArg List.length hatt
  have hone := congrArg List.length hemitted
  rw [List.length_map] at hlen hone
  rw [hsent, hbodies, hone] at hlen
  cases hlen

/-- Each answer comes before the next job. -/
def alternatingInputs : List (Input (HttpConn RawConn Bytes) RawAnswer (QuicEngine Bool) Bool) :=
  let base := Input.quiet RawAnswer.silent false
  let send := { base with call := .takes 90 }
  ParWorker.jobRound base ⟨1, 0⟩ 10 send { base with call := .arrives okResponse.bytes } ++
    (ParWorker.jobRound base ⟨2, 0⟩ 20 send base ++
      ParWorker.pollRound base { base with call := .arrives okResponse.bytes })

theorem attributed_iff_alone_alternating :
    ∃ log p, ProviderRun (rawApi plainTls (quinnApi flagQuinn))
        (startedPar 0 0 0 .rawLibc 0 (.http bareConn) (.http bareConn))
        [(⟨1, 0⟩, 10), (⟨2, 0⟩, 20)] log p ∧
      bodies log = [okResponse.body, okResponse.body] ∧ Attributed log := by
  obtain ⟨log, p, hrun, hsmooth, hanswers, halone, hbodies⟩ := ProviderRun.of_inputs
    (rawApi plainTls (quinnApi flagQuinn)) (.http bareConn) (.http bareConn) alternatingInputs
    [(⟨1, 0⟩, 10), (⟨2, 0⟩, 20)]
    (fun log _ => (∀ e ∈ log, smooth e = true) ∧ Along Answers [] log ∧ Along Alone [] log ∧
      bodies log = [okResponse.body, okResponse.body])
    (by decide +kernel)
  exact ⟨log, p, hrun, hbodies,
    (attributed_iff_alone hrun ⟨bareConn, rfl⟩ ⟨hsmooth, hanswers⟩).1 halone⟩

end TxSender.Transport
