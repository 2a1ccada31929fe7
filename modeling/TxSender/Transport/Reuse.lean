/-
# TxSender.Transport.Reuse — jobs on connections that have failed.

`marks` follows the two connections of a provider through its log and says which of them has failed
since it was built: an HTTP connection one of whose calls returned an `Io` or `Tls` error, a QUIC
connection that `reap` found dead. The worker fails over on four kinds of `Io` errors only, it tries
the standby without looking what became of it, and a second failover brings the first failed
connection back unless it was replaced in between.
-/
import TxSender.Lib.Trace
import TxSender.Transport.InFlight

namespace TxSender.Transport

open TxSender.Lib
open TxSender.Http
open TxSender.Protocol
open TxSender.Backend

variable {H A Q K : Type}

/-! ## Failed connections -/

/-- `TransportError::Io` or `TransportError::Tls` -/
def connError : TransportError → Bool
  | .io _ | .tls _ => true
  | _ => false

theorem connError_of_failing {e : TransportError} (h : Failing e) : connError e = true := by
  cases e with
  | io e => rfl
  | _ => cases h

/-- The event shows that the active connection has failed. -/
def breaks : Event H A → Bool
  | .httpSend _ _ _ _ _ (.error e) | .polled _ _ (.error e) => connError e
  | .dead => true
  | _ => false

/-- A job is submitted on the active connection. -/
def submits : Event H A → Bool
  | .httpSend .. | .quicSend .. => true
  | _ => false

/-- Which of the two connections has failed since it was built. -/
structure Marks where
  active : Bool
  standby : Bool
  deriving DecidableEq, Repr

/-- A failover swaps the two; `replace_standby` brings in a new one. -/
def Marks.after (m : Marks) : Event H A → Marks
  | .failover _ _ => { active := m.standby, standby := m.active }
  | .install => { m with standby := false }
  | e => { m with active := m.active || breaks e }

def marks (log : List (Event H A)) : Marks := log.foldl Marks.after ⟨false, false⟩

instance (e : Event H A) : Decidable (IsFailover e) :=
  match e with
  | .failover .. => inferInstanceAs (Decidable True)
  | .taken .. | .httpSend .. | .quicSend .. | .ended .. | .request _ | .polled .. | .dead
  | .push .. | .install | .diag .. => inferInstanceAs (Decidable False)

/-- No job goes to a connection that has failed, and no failover activates one. -/
def Unused (past : List (Event H A)) (e : Event H A) : Prop :=
  (submits e = true → (marks past).active = false) ∧ (IsFailover e → (marks past).standby = false)

instance (past : List (Event H A)) (e : Event H A) : Decidable (Unused past e) :=
  inferInstanceAs (Decidable ((_ → _) ∧ (_ → _)))

/-! ## The condition -/

/-- The next send is the retry after a failover. -/
def retrying (past : List (Event H A)) : Bool :=
  match past.getLast? with
  | some (.request _) => true
  | _ => false

/-- The errors an HTTP connection may give: an `Io` or `Tls` error is of a kind the worker fails over
on, and does not come from the retry. -/
def Detected (past : List (Event H A)) : Event H A → Prop
  | .httpSend _ _ _ _ _ (.error e) => connError e = true → Failing e ∧ retrying past = false
  | .polled _ _ (.error e) => connError e = true → Failing e
  | _ => True

instance (past : List (Event H A)) (e : Event H A) : Decidable (Detected past e) :=
  match e with
  | .httpSend _ _ _ _ _ (.error _) => inferInstanceAs (Decidable (_ → _))
  | .polled _ _ (.error _) => inferInstanceAs (Decidable (_ → _))
  | .httpSend _ _ _ _ _ (.ok _) | .polled _ _ (.ok _) | .taken .. | .quicSend .. | .ended ..
  | .failover .. | .request _ | .dead | .push .. | .install | .diag .. =>
      inferInstanceAs (Decidable True)

/-- `fresh` after one more event -/
def freshAfter (b : Bool) : Event H A → Bool
  | .failover _ _ => false
  | .install => true
  | _ => b

/-- Whether the standby is as it was built: nothing failed over since the start or since the last
replacement. -/
def fresh (log : List (Event H A)) : Bool := log.foldl freshAfter true

/-- A failover finds a standby that was built since the last one. -/
def Rebuilt (past : List (Event H A)) (e : Event H A) : Prop := IsFailover e → fresh past = true

instance (past : List (Event H A)) (e : Event H A) : Decidable (Rebuilt past e) :=
  inferInstanceAs (Decidable (_ → _))

/-! ## One call -/

theorem marks_append (l l' : List (Event H A)) : marks (l ++ l') = l'.foldl Marks.after (marks l) :=
  List.foldl_append

theorem fresh_append (l l' : List (Event H A)) : fresh (l ++ l') = l'.foldl freshAfter (fresh l) :=
  List.foldl_append

/-- Between calls only a standby that is not fresh is marked. -/
def Marked (log : List (Event H A)) : Prop := marks log = ⟨false, !fresh log⟩

/-- What a call does to the marks, and when it uses a failed connection. -/
structure Watched (log evs : List (Event H A)) : Prop where
  good : Along Rebuilt log evs → Along Unused log evs ∧ Marked (log ++ evs)
  bad : ¬ Along Rebuilt log evs → ¬ Along Unused log evs

/-- The event shows no failure and moves no connection. -/
def steady : Event H A → Bool
  | .failover _ _ | .install => false
  | e => !breaks e

section Steady

variable {log evs : List (Event H A)} {e : Event H A}

theorem not_isFailover_of_steady (h : steady e = true) : ¬ IsFailover e := by
  intro hf
  cases e with
  | failover => cases h
  | _ => exact hf

theorem not_breaks_of_steady (h : steady e = true) : breaks e = false := by
  unfold steady at h
  split at h
  · cases h
  · cases h
  · rwa [Bool.not_eq_true'] at h

theorem after_of_steady (h : steady e = true) (m : Marks) : m.after e = m := by
  cases e with
  | failover => cases h
  | install => cases h
  | _ => simp only [Marks.after, not_breaks_of_steady h, Bool.or_false]

theorem marks_steady (h : ∀ e ∈ evs, steady e = true) : marks (log ++ evs) = marks log := by
  rw [marks_append]
  induction evs with
  | nil => rfl
  | cons e evs ih =>
      rw [List.foldl_cons, after_of_steady (h e (List.mem_cons_self ..))]
      exact ih fun x hx => h x (List.mem_cons_of_mem _ hx)

theorem fresh_steady (h : ∀ e ∈ evs, steady e = true) : fresh (log ++ evs) = fresh log := by
  rw [fresh_append]
  induction evs with
  | nil => rfl
  | cons e evs ih =>
      have he : freshAfter (fresh log) e = fresh log := by
        have hs := h e (List.mem_cons_self ..)
        cases e <;> first | rfl | cases hs
      rw [List.foldl_cons, he]
      exact ih fun x hx => h x (List.mem_cons_of_mem _ hx)

theorem along_rebuilt_steady (h : ∀ e ∈ evs, steady e = true) : Along Rebuilt log evs :=
  along_of_forall fun e he _ hf => absurd hf (not_isFailover_of_steady (h e he))

/-- Steady events use no failed connection where the active one has not failed. -/
theorem along_unused_steady (h : ∀ e ∈ evs, steady e = true) (hm : (marks log).active = false) :
    Along Unused log evs := by
  induction evs generalizing log with
  | nil => exact trivial
  | cons e evs ih =>
      have he := h e (List.mem_cons_self ..)
      refine ⟨⟨fun _ => hm, fun hf => absurd hf (not_isFailover_of_steady he)⟩, ?_⟩
      refine ih (fun x hx => h x (List.mem_cons_of_mem _ hx)) ?_
      rw [marks_append]
      exact (congrArg Marks.active (after_of_steady he _)).trans hm

/-- A call in which nothing fails. -/
theorem watched_steady (hm : Marked log) (h : ∀ e ∈ evs, steady e = true) : Watched log evs where
  good _ := by
    refine ⟨along_unused_steady h (by rw [hm]), ?_⟩
    unfold Marked
    rw [marks_steady h, fresh_steady h]
    exact hm
  bad hbad := absurd (along_rebuilt_steady h) hbad

/-- An event that shows a failure marks the active connection, and does nothing else. -/
theorem after_of_breaks (h : breaks e = true) (m : Marks) :
    m.after e = { m with active := true } := by
  cases e with
  | failover => cases h
  | install => cases h
  | _ => simp only [Marks.after, h, Bool.or_true]

theorem freshAfter_of_breaks (h : breaks e = true) (b : Bool) : freshAfter b e = b := by
  cases e <;> first | rfl | cases h

theorem not_isFailover_of_breaks (h : breaks e = true) : ¬ IsFailover e := by
  intro hf
  cases e with
  | failover => cases h
  | _ => exact hf

/-- A call that finds the active connection failed, in its last event before the failover. -/
theorem watched_failover (before : List (Event H A)) {post : List (Event H A)} {slot : Option (Job × Nat)}
    {quicSlot : Option (JobId × Nat)} (hm : Marked log) (hbefore : ∀ e ∈ before, steady e = true)
    (hbroken : breaks e = true) (hpost : ∀ e ∈ post, steady e = true) :
    Watched log (before ++ e :: .failover slot quicSlot :: post) := by
  have hone : marks (log ++ before) = ⟨false, !fresh log⟩ := (marks_steady hbefore).trans hm
  have htwo : marks (log ++ before ++ [e]) = ⟨true, !fresh log⟩ := by
    rw [marks_append, hone]
    exact after_of_breaks hbroken _
  have hfresh : fresh (log ++ before ++ [e]) = fresh log := by
    rw [fresh_append, fresh_steady hbefore]
    exact freshAfter_of_breaks hbroken _
  constructor
  · intro h
    have hf : fresh log = true := by
      rw [← hfresh]
      exact (along_append.mp h).2.2.1 trivial
    rw [hf] at htwo
    have hthree : marks (log ++ before ++ [e] ++ [.failover slot quicSlot]) = ⟨false, true⟩ := by
      rw [marks_append, htwo]
      rfl
    have hfour : fresh (log ++ before ++ [e] ++ [.failover slot quicSlot]) = false := by
      rw [fresh_append]
      rfl
    refine ⟨along_append.mpr ⟨along_unused_steady hbefore (by rw [hm]), ?_, ?_, ?_⟩, ?_⟩
    · exact ⟨fun _ => by rw [hone], fun h => absurd h (not_isFailover_of_breaks hbroken)⟩
    · exact ⟨nofun, fun _ => by rw [htwo]; rfl⟩
    · exact along_unused_steady hpost (by rw [hthree])
    · have hlog : log ++ (before ++ e :: .failover slot quicSlot :: post) =
          log ++ before ++ [e] ++ [.failover slot quicSlot] ++ post := by simp
      unfold Marked
      rw [hlog, marks_steady hpost, fresh_steady hpost, hthree, hfour]
      rfl
  · -- the failover brings back a connection that is marked
    intro hbad hunused
    have hstandby := (along_append.mp hunused).2.2.1.2 trivial
    rw [htwo, Bool.not_eq_false'] at hstandby
    refine hbad (along_append.mpr ⟨along_rebuilt_steady hbefore, ?_, ?_, ?_⟩)
    · exact fun h => absurd h (not_isFailover_of_breaks hbroken)
    · exact fun _ => hfresh.trans hstandby
    · exact along_rebuilt_steady hpost

/-- A new standby. -/
theorem watched_install (hm : Marked log) : Watched log [.install] where
  good _ := by
    refine ⟨⟨⟨nofun, nofun⟩, trivial⟩, ?_⟩
    unfold Marked at hm ⊢
    rw [marks_append, fresh_append, hm]
    rfl
  bad hbad := absurd ⟨nofun, trivial⟩ hbad

end Steady

theorem Does.watched {api : ConnApi H A Q K} {w w' : ParWorker H Q} {log evs : List (Event H A)}
    (h : Does api w evs w') (hdet : Along Detected log evs) (hm : Marked log) : Watched log evs := by
  cases h with
  | sent => exact watched_steady hm (List.all_eq_true.mp rfl)
  | refused _ _ he =>
      have hce : connError _ = false := Bool.eq_false_iff.mpr fun hce => he (hdet.2.1 hce).1
      exact watched_steady hm (by simp [steady, breaks, hce])
  | resent _ _ he =>
      exact watched_failover [.taken _ _] hm (List.all_eq_true.mp rfl)
        (connError_of_failing he) (List.all_eq_true.mp rfl)
  | lost _ _ he =>
      have hce : connError _ = false := Bool.eq_false_iff.mpr fun hce => by
        have := (hdet.2.2.2.2.1 hce).2
        simp [retrying] at this
      exact watched_failover [.taken _ _] hm (List.all_eq_true.mp rfl)
        (connError_of_failing he) (by simp [steady, breaks, hce])
  | dropped _ _ he =>
      exact watched_failover [.taken _ _] hm (List.all_eq_true.mp rfl)
        (connError_of_failing he) (List.all_eq_true.mp rfl)
  | quicSent => exact watched_steady hm (List.all_eq_true.mp rfl)
  | drove => exact watched_steady hm (List.all_eq_true.mp rfl)
  | @quiet _ _ _ r _ _ _ he =>
      refine watched_steady hm ?_
      intro e hmem
      obtain rfl := List.mem_singleton.mp hmem
      cases r with
      | ok _ => rfl
      | error e =>
          have hce : connError e = false := Bool.eq_false_iff.mpr fun hce => he e rfl (hdet.1 hce)
          simp [steady, breaks, hce]
  | answered => exact watched_steady hm (List.all_eq_true.mp rfl)
  | unasked => exact watched_steady hm (List.all_eq_true.mp rfl)
  | failed _ _ he =>
      exact watched_failover [] hm (List.all_eq_true.mp rfl) (connError_of_failing he)
        (List.all_eq_true.mp rfl)
  | died => exact watched_failover [] hm (List.all_eq_true.mp rfl) rfl (List.all_eq_true.mp rfl)
  | expired => exact watched_steady hm (List.all_eq_true.mp rfl)
  | waiting => exact watched_steady hm (List.all_eq_true.mp rfl)
  | installed => exact watched_install hm
  | published => exact watched_steady hm (List.all_eq_true.mp rfl)

theorem Runs.watched {api : ConnApi H A Q K} {w₀ w : ParWorker H Q} {log : List (Event H A)}
    (h : Runs api w₀ log w) (hdet : Along Detected [] log) : Watched [] log := by
  induction h with
  | start => exact watched_steady rfl (by simp)
  | @step log evs _ _ _ hdoes ih =>
      obtain ⟨hpast, hevs⟩ := along_append.mp hdet
      have hlog := ih hpast
      constructor
      · intro hreb
        obtain ⟨hreb, hreb'⟩ := along_append.mp hreb
        obtain ⟨hunused, hm⟩ := hlog.good hreb
        obtain ⟨hunused', hm'⟩ := (hdoes.watched hevs hm).good hreb'
        exact ⟨along_append.mpr ⟨hunused, hunused'⟩, hm'⟩
      · intro hbad hall
        obtain ⟨hunused, hunused'⟩ := along_append.mp hall
        by_cases hreb : Along Rebuilt [] log
        · refine (hdoes.watched hevs (hlog.good hreb).2).bad (fun hreb' => ?_) hunused'
          exact hbad (along_append.mpr ⟨hreb, hreb'⟩)
        · exact hlog.bad hreb hunused
  | tick _ ih => exact ih hdet

/-- **A failed connection is not reused**, in runs of either worker whose HTTP connections give only
errors the worker detects: no job goes to a failed connection and no failover activates one exactly
when every failover finds a standby built since the last one. -/
theorem unused_iff_rebuilt {api : ConnApi H A Q K} {p₀ p : ParWorker H Q}
    {popped : List (Job × Nat)} {log : List (Event H A)} (h : ProviderRun api p₀ popped log p)
    (hdet : Along Detected [] log) : Along Unused [] log ↔ Along Rebuilt [] log := by
  have hwatched := h.runs.watched hdet
  refine ⟨fun hunused => ?_, fun hreb => (hwatched.good hreb).1⟩
  by_contra hbad
  exact hwatched.bad hbad hunused

/-- Both connections are reset in turn, and a job is sent; nothing was rebuilt. -/
def twoResets : List (Input (HttpConn RawConn Bytes) RawAnswer (QuicEngine Bool) Bool) :=
  let base := Input.quiet RawAnswer.silent false
  let reset := { base with call := { sends := [], recvs := [.failed 104] } }
  ParWorker.pollRound base reset ++
    (ParWorker.pollRound base reset ++
      ParWorker.jobRound base ⟨1, 0⟩ 10 { base with call := .takes 90 } base)

/-- The connection times out, and a job is sent. -/
def timedOut : List (Input (HttpConn RawConn Bytes) RawAnswer (QuicEngine Bool) Bool) :=
  let base := Input.quiet RawAnswer.silent false
  ParWorker.pollRound base { base with call := { sends := [], recvs := [.failed 110] } } ++
    ParWorker.jobRound base ⟨1, 0⟩ 10 { base with call := .takes 90 } base

/-- A failed connection is used again: brought back by a second failover, or never left. -/
theorem failed_connection_used :
    (∃ log p, ProviderRun (rawApi plainTls (quinnApi flagQuinn))
        (startedPar 0 0 0 .rawLibc 0 (.http bareConn) (.http bareConn)) [(⟨1, 0⟩, 10)] log p ∧
      Along Detected [] log ∧ ¬ Along Unused [] log) ∧
    ∃ log p, ProviderRun (rawApi plainTls (quinnApi flagQuinn))
        (startedPar 0 0 0 .rawLibc 0 (.http bareConn) (.http bareConn)) [(⟨1, 0⟩, 10)] log p ∧
      (∀ e ∈ log, ¬ IsFailover e) ∧ ¬ Along Unused [] log := by
  constructor
  · exact ProviderRun.of_inputs (rawApi plainTls (quinnApi flagQuinn)) (.http bareConn)
      (.http bareConn) twoResets [(⟨1, 0⟩, 10)]
      (fun log _ => Along Detected [] log ∧ ¬ Along Unused [] log) (by decide +kernel)
  · exact ProviderRun.of_inputs (rawApi plainTls (quinnApi flagQuinn)) (.http bareConn)
      (.http bareConn) timedOut [(⟨1, 0⟩, 10)]
      (fun log _ => (∀ e ∈ log, ¬ IsFailover e) ∧ ¬ Along Unused [] log) (by decide +kernel)

/-- As `twoResets`, with a new standby delivered after the first. -/
def twoResetsRebuilt : List (Input (HttpConn RawConn Bytes) RawAnswer (QuicEngine Bool) Bool) :=
  let base := Input.quiet RawAnswer.silent false
  let reset := { base with call := { sends := [], recvs := [.failed 104] } }
  [base, reset, base, { base with empty := true },
    { base with delivered := some ⟨0, .conn (.http bareConn)⟩ }] ++
    (ParWorker.pollRound base reset ++
      ParWorker.jobRound base ⟨1, 0⟩ 10 { base with call := .takes 90 } base)

theorem unused_iff_rebuilt_two_resets :
    ∃ log p, ProviderRun (rawApi plainTls (quinnApi flagQuinn))
        (startedPar 0 0 0 .rawLibc 0 (.http bareConn) (.http bareConn)) [(⟨1, 0⟩, 10)] log p ∧
      (log.filter fun e => decide (IsFailover e)).length = 2 ∧ Along Unused [] log := by
  obtain ⟨log, p, hrun, htwice, hdet, hreb⟩ := ProviderRun.of_inputs
    (rawApi plainTls (quinnApi flagQuinn)) (.http bareConn) (.http bareConn) twoResetsRebuilt
    [(⟨1, 0⟩, 10)]
    (fun log _ => (log.filter fun e => decide (IsFailover e)).length = 2 ∧
      Along Detected [] log ∧ Along Rebuilt [] log)
    (by decide +kernel)
  exact ⟨log, p, hrun, htwice, (unused_iff_rebuilt hrun hdet).mpr hreb⟩

end TxSender.Transport
