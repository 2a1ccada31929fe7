/-
# TxSender.Conn.Window — the response window of a QUIC connection.

A QUIC send gets no answer, so `poll_noresp_window` settles it when half a second has passed. The
connection remembers one send: a `send_tx` takes the place of the one before, however long ago that
was, unless a poll came in between that was late enough to settle it; the earlier job is then settled by
no poll. Runs of calls on one connection are followed here by what the connection waits for (`waiting`)
and by the log of what the calls returned.
-/
import Mathlib.Data.List.Forall2
import TxSender.Conn.Basic
import TxSender.Lib.Machine
import TxSender.Lib.Trace

namespace TxSender

open TxSender.Lib
open TxSender.Protocol
open scoped List

namespace QuicConn

variable {Q K : Type}

/-! ## Calls and what they return -/

inductive Call (K : Type) where
  | sendTx (job : Job) (sentTsc : Nat) (tx : Bytes) (now : Nat) (k : K)
  | pollNorespWindow (now : Nat)
  | drive (now : Nat) (k : K)

/-- What a call returned, with the instant it was made at. -/
inductive Return where
  | sent (entry : JobId × Nat) (now : Nat)
  | refused (now : Nat)
  | polled (r : Option (JobId × Nat)) (now : Nat)
  | driven (now : Nat)
  deriving DecidableEq, Repr

def Return.now : Return → Nat
  | .sent _ now | .refused now | .polled _ now | .driven now => now

def call (api : QuicApi Q K) (q : QuicConn Q) : Call K → QuicConn Q × Return
  | .sendTx job sentTsc tx now k =>
      match q.sendTx api job sentTsc tx now k with
      | (q, .ok ()) => (q, .sent (job.id, sentTsc) now)
      | (q, .error _) => (q, .refused now)
  | .pollNorespWindow now =>
      let (q, r) := q.pollNorespWindow now
      (q, .polled r now)
  | .drive now k => (q.drive api now k, .driven now)

def machine (api : QuicApi Q K) : Machine (QuicConn Q) (Call K) Return where
  step q c :=
    let (q, r) := q.call api c
    .ok (q, [r])

/-! ## What one call does -/

/-- The window, in nanoseconds. -/
def window : Nat := quicResponseWindowMs * 1000000

/-- The send that waits for its window to pass, with its instant. -/
def waiting (q : QuicConn Q) : Option ((JobId × Nat) × Nat) :=
  match q.inflight, q.sentAt with
  | some entry, some sentAt => some (entry, sentAt)
  | _, _ => none

/-- What a call returns and what it leaves waiting, given what waited before. -/
inductive Turn : Option ((JobId × Nat) × Nat) → Return → Option ((JobId × Nat) × Nat) → Prop
  /-- whatever waited is forgotten -/
  | sent {w entry now} : Turn w (.sent entry now) (some (entry, now))
  | passed {entry sentAt now} (h : sentAt + window < now) :
      Turn (some (entry, sentAt)) (.polled (some entry) now) none
  | early {w now} (h : ∀ s ∈ w, now ≤ s.2 + window) : Turn w (.polled none now) w
  | refused {w now} : Turn w (.refused now) w
  | driven {w now} : Turn w (.driven now) w

theorem sendTx_turn {api : QuicApi Q K} (q : QuicConn Q) (job : Job) (sentTsc : Nat) (tx : Bytes)
    (now : Nat) (k : K) :
    Turn q.waiting (q.call api (.sendTx job sentTsc tx now k)).2
      (q.call api (.sendTx job sentTsc tx now k)).1.waiting := by
  simp only [call, sendTx]
  obtain ⟨engine, _ | ⟨⟩⟩ := api.sendTx q.engine tx now k
  · exact .refused
  · exact .sent

theorem pollNorespWindow_turn (q : QuicConn Q) (now : Nat) :
    Turn q.waiting (.polled (q.pollNorespWindow now).2 now) (q.pollNorespWindow now).1.waiting := by
  obtain ⟨engine, inflight, sentAt⟩ := q
  match inflight, sentAt with
  | some entry, some sentAt =>
      simp only [pollNorespWindow]
      split
      next hlate => exact .passed (Nat.add_lt_of_lt_sub' hlate)
      next hearly =>
        refine .early ?_
        rintro s ⟨⟩
        unfold window
        omega
  | none, _ => exact .early nofun
  | some _, none => exact .early nofun

theorem call_turn (api : QuicApi Q K) (q : QuicConn Q) (c : Call K) :
    Turn q.waiting (q.call api c).2 (q.call api c).1.waiting := by
  cases c with
  | sendTx job sentTsc tx now k => exact sendTx_turn q job sentTsc tx now k
  | pollNorespWindow now => exact pollNorespWindow_turn q now
  | drive now k => exact .driven

/-! ## Sends and settlements of a run -/

def sentOf : Return → Option ((JobId × Nat) × Nat)
  | .sent entry now => some (entry, now)
  | _ => none

def settledOf : Return → Option ((JobId × Nat) × Nat)
  | .polled (some entry) now => some (entry, now)
  | _ => none

/-- The successful sends, each with its instant. -/
def sends (log : List Return) : List ((JobId × Nat) × Nat) := log.filterMap sentOf

/-- What the polls returned, each with the instant of the poll. -/
def settlements (log : List Return) : List ((JobId × Nat) × Nat) := log.filterMap settledOf

theorem sends_append (l l' : List Return) : sends (l ++ l') = sends l ++ sends l' :=
  List.filterMap_append

theorem settlements_append (l l' : List Return) :
    settlements (l ++ l') = settlements l ++ settlements l' := List.filterMap_append

/-- The poll `r` settled the send `s`, after its window. -/
def Settles (s r : (JobId × Nat) × Nat) : Prop := s.1 = r.1 ∧ s.2 + window < r.2

theorem map_fst_of_settles {l l' : List ((JobId × Nat) × Nat)} (h : List.Forall₂ Settles l l') :
    l.map Prod.fst = l'.map Prod.fst := by
  induction h with
  | nil => rfl
  | cons hone _ ih => rw [List.map_cons, List.map_cons, hone.1, ih]

/-- A poll made more than the window after every send. -/
def Late (log : List Return) : Return → Prop
  | .polled _ now => ∀ s ∈ sends log, s.2 + window < now
  | _ => False

instance (log : List Return) : DecidablePred (Late log)
  | .polled _ now => inferInstanceAs (Decidable (∀ s ∈ sends log, s.2 + window < now))
  | .sent .. | .refused _ | .driven _ => inferInstanceAs (Decidable False)

/-- There were at least as many late polls as sends. -/
def Polled (log : List Return) : Prop := (sends log).length ≤ log.countP (Late log ·)

instance (log : List Return) : Decidable (Polled log) := inferInstanceAs (Decidable (_ ≤ _))

/-- Every send is settled once: in order, after its window, and at the latest by as many late polls as
there are sends. -/
structure AllSettled (log : List Return) : Prop where
  inOrder : ∃ settled, settled <+ sends log ∧ List.Forall₂ Settles settled (settlements log)
  all : Polled log → (settlements log).map Prod.fst = (sends log).map Prod.fst

/-- A poll made more than the window after the send `s`. -/
def Overdue (s : (JobId × Nat) × Nat) : Return → Prop
  | .polled _ now => s.2 + window < now
  | _ => False

instance (s : (JobId × Nat) × Nat) : DecidablePred (Overdue s)
  | .polled _ now => inferInstanceAs (Decidable (s.2 + window < now))
  | .sent .. | .refused _ | .driven _ => inferInstanceAs (Decidable False)

/-- Every send was followed by a poll after its window, whatever that poll returned. -/
def WindowsPassed (log : List Return) : Prop := ∀ s ∈ sends log, ∃ r ∈ log, Overdue s r

instance (log : List Return) : Decidable (WindowsPassed log) :=
  inferInstanceAs (Decidable (∀ s ∈ sends log, ∃ r ∈ log, Overdue s r))

/-- Between a send and each send before it there is a poll more than the window after the earlier one. -/
def Unhurried (past : List Return) (r : Return) : Prop :=
  (sentOf r).isSome = true → WindowsPassed past

instance (past : List Return) (r : Return) : Decidable (Unhurried past r) :=
  inferInstanceAs (Decidable (_ → _))

theorem windowsPassed_append {log : List Return} {r : Return} (h : WindowsPassed log)
    (hsent : sentOf r = none) : WindowsPassed (log ++ [r]) := by
  intro s hs
  have hbefore : s ∈ sends log := by
    simpa [sends, hsent] using hs
  obtain ⟨p, hp, hoverdue⟩ := h s hbefore
  exact ⟨p, List.mem_append_left _ hp, hoverdue⟩

/-! ## What waits, against the instants of the calls -/

/-- What waits is the last send, and no poll came after its window; if nothing waits, then every window
has passed. -/
structure Outstanding (w : Option ((JobId × Nat) × Nat)) (log : List Return) : Prop where
  last : ∀ s ∈ w, ∀ s' ∈ sends log, s'.2 ≤ s.2
  unpolled : ∀ s ∈ w, ∀ r ∈ log, ¬ Overdue s r
  passed : w = none → WindowsPassed log

namespace Outstanding

variable {w w' : Option ((JobId × Nat) × Nat)} {log : List Return} {r : Return}

/-- A return that is neither a send nor a poll after the window of what waits. -/
theorem idle (h : Outstanding w log) (hsent : sentOf r = none) (hearly : ∀ s ∈ w, ¬ Overdue s r) :
    Outstanding w (log ++ [r]) where
  last := by
    intro s hs s' hs'
    apply h.last s hs s'
    simpa [sends, hsent] using hs'
  unpolled := by
    intro s hs r' hr'
    obtain hin | hlast := List.mem_append.mp hr'
    · exact h.unpolled s hs r' hin
    · rw [List.mem_singleton.mp hlast]
      exact hearly s hs
  passed := fun hw => windowsPassed_append (h.passed hw) hsent

/-- Instants do not go back, so nothing before a send is later than it. -/
theorem send {entry : JobId × Nat} {now : Nat} (hbefore : ∀ r ∈ log, r.now ≤ now) :
    Outstanding (some (entry, now)) (log ++ [.sent entry now]) where
  last := by
    rintro s ⟨⟩ s' hs'
    obtain ⟨r, hr, hsent⟩ := List.mem_filterMap.mp hs'
    have hnow : r.now = s'.2 := by
      cases r with
      | sent e t =>
          cases hsent
          rfl
      | _ => cases hsent
    show s'.2 ≤ now
    obtain hin | hlast := List.mem_append.mp hr
    · exact hnow ▸ hbefore r hin
    · rw [← hnow, List.mem_singleton.mp hlast]
      exact Nat.le_refl _
  unpolled := by
    rintro s ⟨⟩ r hr hoverdue
    cases r with
    | polled e t =>
        have hle : t ≤ now := hbefore _ ((List.mem_append.mp hr).resolve_right nofun)
        have hlt : now + window < t := hoverdue
        omega
    | _ => cases hoverdue
  passed := nofun

/-- A poll after the window of the last send comes after the windows of all of them. -/
theorem settle {entry : JobId × Nat} {sentAt now : Nat} (h : Outstanding (some (entry, sentAt)) log)
    (hnow : sentAt + window < now) : Outstanding none (log ++ [.polled (some entry) now]) where
  last := nofun
  unpolled := nofun
  passed := by
    intro _ s hs
    have hle : s.2 ≤ sentAt := by
      apply h.last _ rfl
      simpa [sends, sentOf] using hs
    refine ⟨.polled (some entry) now, List.mem_append_right _ (.head _), ?_⟩
    show s.2 + window < now
    omega

theorem turn (h : Outstanding w log) (hsorted : ((log ++ [r]).map Return.now).Pairwise (· ≤ ·))
    (hturn : Turn w r w') : Outstanding w' (log ++ [r]) := by
  cases hturn with
  | sent =>
      apply send
      intro r' hr'
      rw [List.map_append, List.pairwise_append] at hsorted
      exact hsorted.2.2 _ (List.mem_map_of_mem hr') _ (.head _)
  | passed hlate => exact h.settle hlate
  | early hearly => exact h.idle rfl fun s hs => Nat.not_lt.mpr (hearly s hs)
  | refused => exact h.idle rfl fun _ _ => id
  | driven => exact h.idle rfl fun _ _ => id

end Outstanding

/-! ## Sends against settlements -/

/-- How the log accounts for what is waiting. -/
structure Accounted (w : Option ((JobId × Nat) × Nat)) (log : List Return) : Prop where
  order : ∃ settled, settled ++ w.toList <+ sends log ∧
    List.Forall₂ Settles settled (settlements log)
  exact_iff : (settlements log).length + w.toList.length = (sends log).length ↔
    Along Unhurried [] log

namespace Accounted

variable {w w' : Option ((JobId × Nat) × Nat)} {log : List Return} {r : Return}

theorem length_le (h : Accounted w log) :
    (settlements log).length + w.toList.length ≤ (sends log).length := by
  obtain ⟨settled, hsub, hsettles⟩ := h.order
  rw [← hsettles.length_eq, ← List.length_append]
  exact hsub.length_le

theorem mem_sends (h : Accounted w log) {s : (JobId × Nat) × Nat} (hs : s ∈ w) : s ∈ sends log := by
  obtain ⟨settled, hsub, -⟩ := h.order
  exact hsub.subset (List.mem_append_right _ (Option.mem_toList.mpr hs))

/-- A return that is neither a send nor a settlement. -/
theorem idle (h : Accounted w log) (hsent : sentOf r = none) (hsettled : settledOf r = none) :
    Accounted w (log ++ [r]) := by
  have hsends : sends (log ++ [r]) = sends log := by
    simp [sends, hsent]
  have hsettlements : settlements (log ++ [r]) = settlements log := by
    simp [settlements, hsettled]
  refine ⟨?_, ?_⟩
  · rw [hsends, hsettlements]
    exact h.order
  · rw [hsends, hsettlements, along_append, h.exact_iff]
    refine (and_iff_left ⟨fun hs => ?_, trivial⟩).symm
    rw [hsent] at hs
    cases hs

theorem send (h : Accounted w log) (houtstanding : Outstanding w log) (entry : JobId × Nat)
    (now : Nat) : Accounted (some (entry, now)) (log ++ [.sent entry now]) := by
  have hsends : sends (log ++ [.sent entry now]) = sends log ++ [(entry, now)] := sends_append ..
  have hsettlements : settlements (log ++ [.sent entry now]) = settlements log := by
    rw [settlements_append]
    exact List.append_nil _
  refine ⟨?_, ?_⟩
  · obtain ⟨settled, hsub, hsettles⟩ := h.order
    rw [hsends, hsettlements]
    exact ⟨settled, ((List.sublist_append_left _ _).trans hsub).append (List.Sublist.refl _), hsettles⟩
  · -- what waited is lost, so the sums agree only if nothing waited
    have hle := h.length_le
    have hwaits : WindowsPassed log ↔ w = none := by
      refine ⟨fun hpassed => ?_, houtstanding.passed⟩
      by_contra hsome
      obtain ⟨s, hs⟩ := Option.ne_none_iff_exists'.mp hsome
      obtain ⟨r, hr, hoverdue⟩ := hpassed s (h.mem_sends hs)
      exact houtstanding.unpolled s hs r hr hoverdue
    have hnone : w = none ↔ w.toList.length = 0 := by
      cases w with
      | none => simp
      | some s => simp
    rw [hsends, hsettlements, along_append, ← h.exact_iff]
    simp only [Along, Unhurried, sentOf, Option.toList_some, List.length_append, List.length_cons,
      List.length_nil, List.nil_append, Option.isSome_some, forall_const, and_true, hwaits, hnone]
    omega

theorem settle {entry : JobId × Nat} {sentAt now : Nat} (h : Accounted (some (entry, sentAt)) log)
    (hnow : sentAt + window < now) : Accounted none (log ++ [.polled (some entry) now]) := by
  have hsends : sends (log ++ [.polled (some entry) now]) = sends log := by
    rw [sends_append]
    exact List.append_nil _
  have hsettlements : settlements (log ++ [.polled (some entry) now]) =
      settlements log ++ [(entry, now)] := settlements_append ..
  refine ⟨?_, ?_⟩
  · obtain ⟨settled, hsub, hsettles⟩ := h.order
    rw [hsends, hsettlements]
    refine ⟨settled ++ [(entry, sentAt)], ?_, List.rel_append hsettles (.cons ⟨rfl, hnow⟩ .nil)⟩
    rwa [Option.toList_none, List.append_nil]
  · rw [hsends, hsettlements, along_append, ← h.exact_iff]
    simp [Along, Unhurried, sentOf]

theorem turn (h : Accounted w log) (houtstanding : Outstanding w log) (hturn : Turn w r w') :
    Accounted w' (log ++ [r]) := by
  cases hturn with
  | sent => exact h.send houtstanding _ _
  | passed hlate => exact h.settle hlate
  | early _ => exact h.idle rfl rfl
  | refused => exact h.idle rfl rfl
  | driven => exact h.idle rfl rfl

/-- After a late poll nothing waits. -/
theorem cleared (h : Accounted w log) (houtstanding : Outstanding w log) (hr : r ∈ log)
    (hlate : Late log r) : w = none := by
  rcases w with _ | s
  · rfl
  · refine absurd ?_ (houtstanding.unpolled s rfl r hr)
    cases r with
    | polled e now => exact hlate s (h.mem_sends rfl)
    | _ => cases hlate

end Accounted

/-! ## Runs -/

theorem run_accounted {api : QuicApi Q K} {engine : Q} {calls : List (Call K)} {q : QuicConn Q}
    {log : List Return} (h : (machine api).run (new engine) calls = .ok (q, log))
    (hsorted : (log.map Return.now).Pairwise (· ≤ ·)) :
    Accounted q.waiting log ∧ Outstanding q.waiting log := by
  refine (machine api).run_invariant
    (fun q log => (log.map Return.now).Pairwise (· ≤ ·) →
      Accounted q.waiting log ∧ Outstanding q.waiting log) ?_ ?_ h hsorted
  · intro _
    refine ⟨⟨⟨[], .refl _, .nil⟩, ?_⟩, nofun, nofun, fun _ => nofun⟩
    simp [settlements, sends, waiting, new, Along]
  · intro q log c q' evs hinv hstep hsorted
    obtain ⟨rfl, rfl⟩ := Prod.mk.inj (Except.ok.inj hstep)
    have hturn := call_turn api q c
    have hbefore : (log.map Return.now).Pairwise (· ≤ ·) := by
      rw [List.map_append] at hsorted
      exact (List.pairwise_append.mp hsorted).1
    obtain ⟨haccounted, houtstanding⟩ := hinv hbefore
    exact ⟨haccounted.turn houtstanding hturn, houtstanding.turn hsorted hturn⟩

/-- **Every send is settled exactly when a late enough poll stands between sends.** For every run of calls
on a new connection at instants that do not go back: the jobs that the polls return are some of the jobs
sent, in order and each once, each after its window, and all of them once there were as many late polls
as sends, if and only if, in a run with that many late polls, there was a poll between any two sends that
came more than the window after the earlier one. -/
theorem all_settled_iff_unhurried {api : QuicApi Q K} {engine : Q} {calls : List (Call K)}
    {q : QuicConn Q} {log : List Return}
    (h : (machine api).run (new engine) calls = .ok (q, log))
    (hsorted : (log.map Return.now).Pairwise (· ≤ ·)) :
    AllSettled log ↔ (Polled log → Along Unhurried [] log) := by
  obtain ⟨haccounted, houtstanding⟩ := run_accounted h hsorted
  have hle := haccounted.length_le
  constructor
  · intro hsettled hpolled
    have hlen := congrArg List.length (hsettled.all hpolled)
    rw [List.length_map, List.length_map] at hlen
    exact haccounted.exact_iff.mp (by omega)
  · intro hunhurried
    obtain ⟨settled, hsub, hsettles⟩ := haccounted.order
    have hsub' := (List.sublist_append_left _ _).trans hsub
    refine ⟨⟨settled, hsub', hsettles⟩, fun hpolled => ?_⟩
    have hsum := haccounted.exact_iff.mpr (hunhurried hpolled)
    -- either nothing was sent, or there is a late poll, and then nothing waits
    have hlen : settled.length = (sends log).length := by
      rw [hsettles.length_eq]
      by_cases hnone : (sends log).length = 0
      · omega
      · obtain ⟨r, hr, hlate⟩ := List.countP_pos_iff.mp (Nat.lt_of_lt_of_le (by omega) hpolled)
        rw [haccounted.cleared houtstanding hr (of_decide_eq_true hlate)] at hsum
        exact hsum
    rw [← hsub'.eq_of_length hlen, map_fst_of_settles hsettles]

/-- Two jobs, with a poll in between that comes after the window of the first. -/
def spacedCalls : List (Call Bool) :=
  [.sendTx ⟨1, 0⟩ 10 [] 0 false, .pollNorespWindow 500000001, .sendTx ⟨2, 0⟩ 20 [] 600000000 false,
    .drive 700000000 false, .pollNorespWindow 1200000000, .pollNorespWindow 1300000000]

theorem all_settled_spaced :
    ∃ q log, (machine (quinnApi flagQuinn)).run (new ⟨some false, none⟩) spacedCalls = .ok (q, log) ∧
      Polled log ∧ AllSettled log := by
  obtain ⟨q, log, hrun, hsorted, hpolled, hunhurried⟩ :
      ∃ q log, (machine (quinnApi flagQuinn)).run (new ⟨some false, none⟩) spacedCalls =
          .ok (q, log) ∧
        (log.map Return.now).Pairwise (· ≤ ·) ∧ Polled log ∧ Along Unhurried [] log :=
    ⟨_, _, rfl, by decide, by decide, by decide⟩
  exact ⟨q, log, hrun, hpolled, (all_settled_iff_unhurried hrun hsorted).mpr fun _ => hunhurried⟩

/-- Two jobs within one window, and polls for both. -/
def hurriedCalls : List (Call Bool) :=
  [.sendTx ⟨1, 0⟩ 10 [] 0 false, .sendTx ⟨2, 0⟩ 20 [] 1000000 false, .pollNorespWindow 600000000,
    .pollNorespWindow 700000000]

/-- The first job is settled by no poll. -/
theorem hurried_send_lost :
    ∃ q log, (machine (quinnApi flagQuinn)).run (new ⟨some false, none⟩) hurriedCalls = .ok (q, log) ∧
      (log.map Return.now).Pairwise (· ≤ ·) ∧ Polled log ∧
      sends log = [((1, 10), 0), ((2, 20), 1000000)] ∧ settlements log = [((2, 20), 600000000)] ∧
      q.waiting = none ∧ ¬ AllSettled log := by
  refine ⟨_, _, rfl, by decide, by decide, rfl, rfl, rfl, fun h => ?_⟩
  have hall := h.all (by decide)
  revert hall
  decide

end QuicConn

end TxSender
