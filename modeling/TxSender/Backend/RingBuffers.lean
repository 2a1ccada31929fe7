/-
# TxSender.Backend.RingBuffers — how long the buffers of sends live.

`reap` counts the completed sends of a connection, and `reclaim_sends` removes as many buffers from the
front of `send_in_flight`. So the buffers reclaimed are the first of those staged, one for each
completion, whichever sends the completions were of. They are the right ones exactly when no send
completes before an older one of its connection.
-/
import Mathlib.Data.List.Perm.Subperm
import TxSender.Backend.RingSend
import TxSender.Lib.Trace

namespace TxSender.Backend

open TxSender.Lib

/-! ## The first of a sorted list -/

/-- In a sorted list, what is less than one of the first elements is one of them. -/
theorem mem_take_of_lt {l : List Nat} (hsorted : l.Pairwise (· < ·)) {k a b : Nat} (ha : a ∈ l)
    (hb : b ∈ l.take k) (hlt : a < b) : a ∈ l.take k := by
  rw [← List.take_append_drop k l] at ha hsorted
  obtain ha | ha := List.mem_append.mp ha
  · exact ha
  · have hgt := (List.pairwise_append.mp hsorted).2.2 b hb a ha
    omega

/-- As many of the first elements as there are of `done` are all in `done`, exactly when `done` leaves
none out below one of its own. -/
theorem take_subset_iff {l done : List Nat} (hsorted : l.Pairwise (· < ·)) (hnodup : done.Nodup)
    (hsub : done ⊆ l) :
    l.take done.length ⊆ done ↔ ∀ b ∈ done, ∀ a ∈ l, a < b → a ∈ done := by
  have hfirst : (l.take done.length).Nodup :=
    (hsorted.imp fun h => Nat.ne_of_lt h).sublist (List.take_sublist _ _)
  have hlength : (l.take done.length).length = done.length := by
    rw [List.length_take]
    exact Nat.min_eq_left (hnodup.subperm hsub).length_le
  constructor
  · intro htake b hb a ha hlt
    have hperm := (hfirst.subperm htake).perm_of_length_le (Nat.le_of_eq hlength.symm)
    exact htake (mem_take_of_lt hsorted ha (hperm.mem_iff.mpr hb) hlt)
  · intro hclosed b hb
    by_contra hnot
    -- otherwise all of `done` lies below `b`, and fills the place of `b` as well
    have hbelow : done ⊆ l.take done.length := by
      intro a ha
      have hmem := List.mem_of_mem_take hb
      have hlt : a < b := by
        by_contra hge
        have hne : a ≠ b := fun heq => hnot (heq ▸ ha)
        exact hnot (hclosed a ha b hmem (by omega))
      exact mem_take_of_lt hsorted (hsub ha) hb hlt
    have hperm := (hnodup.subperm hbelow).perm_of_length_le (Nat.le_of_eq hlength)
    exact hnot (hperm.mem_iff.mpr hb)

namespace IoUring

/-! ## The buffers of one connection -/

def stagedFor (c : Idx) : Event → Option Nat
  | .staged d buf _ => if d = c then some buf else none
  | _ => none

def completedFor (c : Idx) : Event → Option Nat
  | .completed d buf => if d = c then some buf else none
  | _ => none

def reclaimedFor (c : Idx) : Event → List Nat
  | .reclaimed d bufs => if d = c then bufs else []
  | _ => []

def stagedOn (c : Idx) (log : List Event) : List Nat := log.filterMap (stagedFor c)

def completedOn (c : Idx) (log : List Event) : List Nat := log.filterMap (completedFor c)

def reclaimedOn (c : Idx) (log : List Event) : List Nat := log.flatMap (reclaimedFor c)

/-- The completed sends of `c` that `reap` has not counted yet. -/
def uncounted (c : Idx) (cq : List Cqe) : Nat :=
  cq.countP fun q => match q.entry with
    | .send d _ _ => d = c
    | .recv _ => false

/-- The completed sends of `c` whose buffers are not reclaimed. -/
def unclaimed (r : IoUring) (c : Idx) : Nat :=
  (r.completedSends (ud c opSend)).getD 0 + uncounted c r.cq

/-- An event that is about no buffer. -/
def idleBuf : Event → Bool
  | .staged _ _ _ | .completed _ _ | .reclaimed _ _ => false
  | _ => true

theorem stagedOn_append (c : Idx) (l l' : List Event) :
    stagedOn c (l ++ l') = stagedOn c l ++ stagedOn c l' := List.filterMap_append

theorem completedOn_append (c : Idx) (l l' : List Event) :
    completedOn c (l ++ l') = completedOn c l ++ completedOn c l' := List.filterMap_append

theorem reclaimedOn_append (c : Idx) (l l' : List Event) :
    reclaimedOn c (l ++ l') = reclaimedOn c l ++ reclaimedOn c l' := List.flatMap_append

theorem idle_bufs {evs : List Event} (h : ∀ e ∈ evs, idleBuf e = true) (c : Idx) :
    stagedOn c evs = [] ∧ completedOn c evs = [] ∧ reclaimedOn c evs = [] := by
  refine ⟨List.filterMap_eq_nil_iff.mpr fun e he => ?_, List.filterMap_eq_nil_iff.mpr fun e he => ?_,
    List.flatMap_eq_nil_iff.mpr fun e he => ?_⟩
  · cases e with
    | staged => cases h _ he
    | _ => rfl
  · cases e with
    | completed => cases h _ he
    | _ => rfl
  · cases e with
    | reclaimed => cases h _ he
    | _ => rfl

theorem idleBuf_fails (e : IoError) (call : Call) : ∀ ev ∈ fails e call, idleBuf ev = true := by
  cases call <;> simp [fails, idleBuf]

theorem idleBuf_reap (r : IoUring) : ∀ ev ∈ r.reap.2, idleBuf ev = true := by
  intro ev hev
  obtain ⟨key, rfl⟩ := reapAll_events r r.cq hev
  rfl

theorem uncounted_append (c : Idx) (l l' : List Cqe) :
    uncounted c (l ++ l') = uncounted c l + uncounted c l' := List.countP_append ..

/-- `reap` counts each completed send for its connection. -/
theorem reapAll_sends (r : IoUring) (cq : List Cqe) (c : Idx) :
    ((r.reapAll cq).1.completedSends (ud c opSend)).getD 0 =
      (r.completedSends (ud c opSend)).getD 0 + uncounted c cq := by
  induction cq generalizing r with
  | nil => rfl
  | cons q cq ih =>
      obtain ⟨entry, result⟩ := q
      rw [show (r.reapAll (⟨entry, result⟩ :: cq)).1 = ((r.reapOne ⟨entry, result⟩).1.reapAll cq).1 from rfl,
        ih]
      cases entry with
      | send d buf bytes =>
          rw [reapOne_send]
          by_cases hcd : d = c
          · subst hcd
            simp [uncounted]
            omega
          · simp [Function.update_of_ne (mt ud_send_inj.mp (Ne.symm hcd)), uncounted, hcd]
      | recv d =>
          rw [reapOne_recv]
          simp [uncounted]

theorem reap_unclaimed (r : IoUring) (c : Idx) : r.reap.1.unclaimed c = r.unclaimed c :=
  reapAll_sends r r.cq c

/-! ## The invariant -/

structure BufOk (r : IoUring) (log : List Event) : Prop where
  /-- the buffers leave from the front -/
  inFlight : ∀ c, reclaimedOn c log ++ (r.conns c).sendInFlight.map Prod.fst = stagedOn c log
  /-- one buffer leaves for each completion -/
  count : ∀ c, (reclaimedOn c log).length + r.unclaimed c = (completedOn c log).length

theorem bufOk_start (mode : IoUringMode) (sqpoll : Bool) : BufOk (start mode sqpoll) [] where
  inFlight _ := rfl
  count _ := rfl

/-- The completed sends of a connection are among those staged, which are numbered in order. -/
structure Completions (c : Idx) (log : List Event) : Prop where
  sorted : (stagedOn c log).Pairwise (· < ·)
  nodup : (completedOn c log).Nodup
  subset : completedOn c log ⊆ stagedOn c log

/-- The buffer of a key, if it is of this connection. -/
def bufIn (c : Idx) (k : Idx × Nat) : Option Nat := if k.1 = c then some k.2 else none

theorem stagedOn_eq (c : Idx) (log : List Event) :
    stagedOn c log = (keys (stagedSends log)).filterMap (bufIn c) := by
  rw [keys, stagedSends, List.filterMap_filterMap, List.filterMap_filterMap]
  refine List.filterMap_congr fun e _ => ?_
  cases e <;> rfl

theorem completedOn_eq (c : Idx) (log : List Event) :
    completedOn c log = (completedKeys log).filterMap (bufIn c) := by
  rw [completedKeys, List.filterMap_filterMap]
  refine List.filterMap_congr fun e _ => ?_
  cases e <;> rfl

theorem bufIn_eq_some {c : Idx} {k : Idx × Nat} {buf : Nat} : bufIn c k = some buf ↔ k = (c, buf) := by
  unfold bufIn
  split
  next hc => simp [Prod.ext_iff, hc]
  next hc => simp [Prod.ext_iff, hc]

theorem SendOk.completions {r : IoUring} {log : List Event} (h : SendOk r log) (c : Idx) :
    Completions c log := by
  -- the completed sends, and the others of those staged
  have hperm : (completedKeys log ++ (keys (r.taken ++ r.sq) ++ (keys r.waiting ++
      keys (droppedSends log)))).Perm (keys (stagedSends log)) := by
    have hall := h.all.filterMap Sqe.key
    rw [List.filterMap_append, List.filterMap_append] at hall
    rw [← List.append_assoc]
    refine (h.sent.symm.append_right _).trans ?_
    rwa [← List.append_assoc]
  constructor
  · have hlt : (keys (stagedSends log)).Pairwise fun k k' => k.2 < k'.2 := by
      refine List.pairwise_map.mp ?_
      rw [h.numbers]
      exact List.pairwise_lt_range
    rw [stagedOn_eq]
    refine hlt.filterMap (bufIn c) fun k k' hkk b hb b' hb' => ?_
    rw [bufIn_eq_some.mp hb, bufIn_eq_some.mp hb'] at hkk
    exact hkk
  · rw [completedOn_eq]
    refine List.Nodup.filterMap (fun k k' b hb hb' => ?_)
      (List.nodup_append.mp (hperm.nodup_iff.mpr h.nodup)).1
    rw [bufIn_eq_some.mp hb, bufIn_eq_some.mp hb']
  · intro b hb
    rw [completedOn_eq] at hb
    obtain ⟨k, hk, hkb⟩ := List.mem_filterMap.mp hb
    rw [stagedOn_eq]
    exact List.mem_filterMap.mpr ⟨k, hperm.mem_iff.mp (List.mem_append_left _ hk), hkb⟩

namespace BufOk

variable {r r' : IoUring} {log evs : List Event}

/-- A step that leaves the buffers and the completions alone. -/
theorem keep (h : BufOk r log) (hevs : ∀ e ∈ evs, idleBuf e = true)
    (hflight : ∀ c, (r'.conns c).sendInFlight = (r.conns c).sendInFlight)
    (hunclaimed : ∀ c, r'.unclaimed c = r.unclaimed c) : BufOk r' (log ++ evs) := by
  constructor
  · intro c
    obtain ⟨hs, -, hr⟩ := idle_bufs hevs c
    rw [reclaimedOn_append, stagedOn_append, hr, hs, List.append_nil, List.append_nil, hflight]
    exact h.inFlight c
  · intro c
    obtain ⟨-, hc, hr⟩ := idle_bufs hevs c
    rw [reclaimedOn_append, completedOn_append, hr, hc, List.append_nil, List.append_nil, hunclaimed]
    exact h.count c

/-- `submit` stages a buffer. -/
theorem stage (h : BufOk r log) {c : Idx} {bytes : Bytes}
    (hs : ∀ d, stagedOn d evs = if c = d then [r.staged] else [])
    (hevs : ∀ d, completedOn d evs = [] ∧ reclaimedOn d evs = [])
    (hconns : r'.conns = (r.stage c bytes).conns) (hunclaimed : ∀ d, r'.unclaimed d = r.unclaimed d) :
    BufOk r' (log ++ evs) := by
  constructor
  · intro d
    rw [reclaimedOn_append, stagedOn_append, (hevs d).2, List.append_nil, hs, ← h.inFlight d, hconns,
      List.append_assoc]
    by_cases hd : d = c
    · subst hd
      simp [IoUring.stage, setConn]
    · simp [IoUring.stage, setConn, Function.update_of_ne hd, Ne.symm hd]
  · intro d
    rw [reclaimedOn_append, completedOn_append, (hevs d).1, (hevs d).2, List.append_nil, List.append_nil,
      hunclaimed]
    exact h.count d

theorem reap (h : BufOk r log) : BufOk r.reap.1 log := by
  have hkeep : BufOk r.reap.1 (log ++ []) := by
    refine h.keep (List.forall_mem_nil _) (fun c => ?_) (reap_unclaimed r)
    obtain ⟨sends, recvs, heq⟩ := reap_eq r
    rw [heq]
  rwa [List.append_nil] at hkeep

/-- The kernel completes a send. -/
theorem complete (h : BufOk r log) (i : Nat) (c : Idx) (buf : Nat) (bytes : Bytes) (result : Int) :
    BufOk (r.complete i (.send c buf bytes) result) (log ++ [.completed c buf]) := by
  constructor
  · intro d
    rw [reclaimedOn_append, stagedOn_append]
    simp only [reclaimedOn, reclaimedFor, stagedOn, stagedFor, List.flatMap_cons, List.flatMap_nil,
      List.filterMap_cons, List.filterMap_nil, List.append_nil]
    exact h.inFlight d
  · intro d
    have hcount := h.count d
    have hone : uncounted d [⟨.send c buf bytes, result⟩] = (completedOn d [.completed c buf]).length := by
      by_cases hcd : c = d
      · simp [uncounted, completedOn, completedFor, hcd]
      · simp [uncounted, completedOn, completedFor, hcd]
    rw [reclaimedOn_append, completedOn_append, List.length_append, List.length_append, ← hone]
    simp only [unclaimed, IoUring.complete, uncounted_append] at hcount ⊢
    simp only [reclaimedOn, reclaimedFor, List.flatMap_cons, List.flatMap_nil, List.append_nil,
      List.length_nil] at hcount ⊢
    omega

/-- `reclaim_sends` removes the first buffers of the connection, as many as its sends have completed. -/
theorem reclaim (h : BufOk r log) {c : Idx} (hle : (completedOn c log).length ≤ (stagedOn c log).length)
    (hcq : r.cq = []) :
    BufOk (r.reclaimSends c).1 (log ++ (r.reclaimSends c).2) ∧
      ∀ bufs, .reclaimed c bufs ∈ (r.reclaimSends c).2 →
        reclaimedOn c log ++ bufs = (stagedOn c log).take (completedOn c log).length := by
  unfold reclaimSends
  simp only
  split
  next n hn =>
    have hcount := h.count c
    have hstaged := h.inFlight c
    simp only [unclaimed, hn, hcq, Option.getD_some] at hcount
    change _ + (n + 0) = _ at hcount
    -- there are buffers enough
    have hroom : n ≤ (r.conns c).sendInFlight.length := by
      have hlength := congrArg List.length hstaged
      rw [List.length_append, List.length_map] at hlength
      omega
    refine ⟨⟨fun d => ?_, fun d => ?_⟩, fun bufs hbufs => ?_⟩
    · rw [reclaimedOn_append, stagedOn_append, ← h.inFlight d, List.append_assoc]
      by_cases hd : d = c
      · subst hd
        simp [reclaimedOn, reclaimedFor, stagedOn, stagedFor, setConn, List.map_take, List.map_drop]
      · simp [reclaimedOn, reclaimedFor, stagedOn, stagedFor, setConn, Ne.symm hd,
          Function.update_of_ne hd]
    · have hcompleted : completedOn d (log ++ [.reclaimed c ((r.conns c).sendInFlight.take n |>.map Prod.fst)]) =
          completedOn d log := by
        rw [completedOn_append]
        exact List.append_nil _
      rw [reclaimedOn_append, hcompleted, ← h.count d, List.length_append, Nat.add_assoc]
      refine congrArg _ ?_
      by_cases hd : d = c
      · subst hd
        simp [reclaimedOn, reclaimedFor, unclaimed, setConn, hcq, hn, uncounted, hroom]
      · simp [reclaimedOn, reclaimedFor, unclaimed, setConn, Ne.symm hd,
          Function.update_of_ne (mt ud_send_inj.mp hd)]
    · cases List.mem_singleton.mp hbufs
      rw [← hstaged, ← hcount, Nat.add_zero, List.take_length_add_append, List.map_take]
  next => exact ⟨by rwa [List.append_nil], fun _ hbufs => absurd hbufs List.not_mem_nil⟩

end BufOk

/-! ## Runs -/

/-- At a reclaim: the completed sends are known, and the buffers reclaimed so far are as many of the
first as have completed. -/
def FirstReclaimed (past : List Event) : Event → Prop
  | .reclaimed c bufs => Completions c past ∧
      reclaimedOn c past ++ bufs = (stagedOn c past).take (completedOn c past).length
  | _ => True

theorem along_idle {evs past : List Event} (h : ∀ e ∈ evs, idleBuf e = true) :
    Along FirstReclaimed past evs := by
  refine along_of_forall fun e he _ => ?_
  cases e with
  | reclaimed => cases h _ he
  | _ => trivial

theorem update_sendInFlight (conns : Idx → UringConn) {c : Idx} {conn : UringConn}
    (h : conn.sendInFlight = (conns c).sendInFlight) (d : Idx) :
    (Function.update conns c conn d).sendInFlight = (conns d).sendInFlight := by
  by_cases hd : d = c
  · subst hd
    rw [Function.update_self, h]
  · rw [Function.update_of_ne hd]

namespace BufOk

variable {r r' : IoUring} {log evs : List Event}

/-- What a step does to the buffers, and that what it reclaims are the first. -/
def Goes (r' : IoUring) (log evs : List Event) : Prop :=
  BufOk r' (log ++ evs) ∧ Along FirstReclaimed log evs

theorem goes (h : BufOk r log) (hevs : ∀ e ∈ evs, idleBuf e = true)
    (hflight : ∀ c, (r'.conns c).sendInFlight = (r.conns c).sendInFlight)
    (hunclaimed : ∀ c, r'.unclaimed c = r.unclaimed c) : Goes r' log evs :=
  ⟨h.keep hevs hflight hunclaimed, along_idle hevs⟩

theorem pushed (h : BufOk r log) (entry : Sqe) (call : Call) :
    Goes ({ r with sq := r.sq ++ [entry] }.afterPush call) log [.pushed entry] := by
  cases call with
  | submit | drive => exact h.goes (by simp [idleBuf]) (fun _ => rfl) fun _ => rfl
  | pollRecv c cap =>
      obtain ⟨pc, heq, -⟩ := driveInner_eq ({ r with sq := r.sq ++ [entry] }.setConn c
        { r.conns c with recvInFlight := true }) (.pollRecv c cap)
      simp only [afterPush, heq]
      exact h.goes (by simp [idleBuf]) (update_sendInFlight r.conns rfl) fun _ => rfl

theorem reaped (h : BufOk r log) {pc : Pc} (hevs : ∀ e ∈ evs, idleBuf e = true) :
    Goes { r.reap.1 with pc } log evs :=
  h.reap.goes hevs (fun _ => rfl) fun _ => rfl

theorem unclaimed_answer (r : IoUring) (i : Nat) (c : Idx) (result : Int) (d : Idx) :
    (r.complete i (.recv c) result).unclaimed d = r.unclaimed d := by
  simp only [unclaimed, IoUring.complete, uncounted_append]
  simp [uncounted]

/-- The kernel completes a receive. -/
theorem answer (h : BufOk r log) (i : Nat) (c : Idx) (result : Int) (rx : Bytes)
    (res : Except Errno Bytes) :
    Goes ((r.complete i (.recv c) result).setConn c { r.conns c with rxBuf := rx }) log
      [.received c res] := by
  exact h.goes (by simp [idleBuf]) (update_sendInFlight r.conns rfl) (unclaimed_answer r i c result)

/-- The end of `poll_recv`. -/
theorem polled (h : BufOk r log) (hsend : SendOk r log) (hreap : r.reap.2 = []) {c : Idx} {cap : Nat}
    {r₂ : IoUring} {res : Except IoError Bytes}
    (hresult : (r.reap.1.reclaimSends c).1.pollResult c cap = .ok (r₂, res)) :
    Goes { r₂ with pc := .idle } log
      (r.reap.2 ++ ((r.reap.1.reclaimSends c).2 ++ [.pollReturned c cap res])) := by
  have hdone := hsend.completions c
  have hcq : r.reap.1.cq = [] := rfl
  obtain ⟨hok, hfirst⟩ := h.reap.reclaim (hdone.nodup.subperm hdone.subset).length_le hcq
  obtain ⟨recvs, flag, rfl⟩ := pollResult_eq hresult
  have hlast : Goes { { (r.reap.1.reclaimSends c).1 with completedRecvs := recvs }.setConn c
      { (r.reap.1.reclaimSends c).1.conns c with recvInFlight := flag } with pc := .idle }
      (log ++ (r.reap.1.reclaimSends c).2) [.pollReturned c cap res] :=
    hok.goes (by simp [idleBuf]) (update_sendInFlight _ rfl) fun _ => rfl
  rw [hreap, List.nil_append]
  refine ⟨?_, along_append.mpr ⟨?_, hlast.2⟩⟩
  · rw [← List.append_assoc]
    exact hlast.1
  · obtain hevs | ⟨bufs, hevs⟩ := reclaimSends_events r.reap.1 c
    · rw [hevs]
      trivial
    · rw [hevs] at hfirst ⊢
      exact ⟨⟨hdone, hfirst bufs (List.mem_singleton_self _)⟩, trivial⟩

theorem turn (h : BufOk r log) (hsend : SendOk r log) (hrecv : RecvOk r log) (hturn : Turn r evs r') :
    Goes r' log evs := by
  cases hturn with
  | stay => exact ⟨by rwa [List.append_nil], trivial⟩
  | connected => exact h.goes (by simp) (fun _ => rfl) fun _ => rfl
  | unsupported => exact h.goes (by simp [idleBuf]) (fun _ => rfl) fun _ => rfl
  | @queued c bytes hpc hmode =>
      refine ⟨h.stage (c := c) (fun d => ?_) (fun _ => ⟨rfl, rfl⟩) rfl fun _ => rfl, trivial, trivial,
        trivial, trivial⟩
      by_cases hcd : c = d <;> simp [stagedOn, stagedFor, List.filterMap_cons, hcd]
  | @submitting c bytes hpc hmode =>
      refine ⟨h.stage (c := c) (fun d => ?_) (fun _ => ⟨rfl, rfl⟩) rfl fun _ => rfl, trivial, trivial,
        trivial⟩
      by_cases hcd : c = d <;> simp [stagedOn, stagedFor, List.filterMap_cons, hcd]
  | polling hpc =>
      obtain ⟨pc, heq, -⟩ := driveInner_eq r _
      rw [heq]
      exact h.goes (by simp [idleBuf]) (fun _ => rfl) fun _ => rfl
  | driving hpc =>
      obtain ⟨pc, heq, -⟩ := driveInner_eq r .drive
      rw [heq]
      exact h.goes (by simp [idleBuf]) (fun _ => rfl) fun _ => rfl
  | asking | drained | noRoom | slept => exact h.goes (by simp [idleBuf]) (fun _ => rfl) fun _ => rfl
  | pushed hpc => exact h.pushed _ _
  | popped | drainedAll => exact h.goes (by simp) (fun _ => rfl) fun _ => rfl
  | retried hpc hflush =>
      obtain ⟨sq, taken, rfl, -⟩ := hflush.eq
      have htaken : BufOk { r with sq, taken } log := ⟨h.inFlight, h.count⟩
      exact htaken.reaped (idleBuf_reap _)
  | gaveUp | unflushed =>
      refine h.goes ?_ (fun _ => rfl) fun _ => rfl
      simpa [idleBuf] using idleBuf_fails _ _
  | submitted hpc hflush =>
      obtain ⟨sq, taken, rfl, -⟩ := hflush.eq
      exact h.goes (by simp [idleBuf]) (fun _ => rfl) fun _ => rfl
  | flushed hpc hcall hflush =>
      obtain ⟨sq, taken, rfl, -⟩ := hflush.eq
      exact h.goes (by simp) (fun _ => rfl) fun _ => rfl
  | driven hpc =>
      rw [hrecv.reap_spec.1]
      exact h.reaped (by simp [idleBuf])
  | polled hpc hresult => exact h.polled hsend hrecv.reap_spec.1 hresult
  | took =>
      obtain ⟨sq, taken, heq, -⟩ := takeOne_eq r
      rw [heq]
      exact h.goes (by simp) (fun _ => rfl) fun _ => rfl
  | sent hi => exact ⟨h.complete _ _ _ _ _, trivial, trivial⟩
  | received hi => exact h.answer _ _ _ _ _
  | recvFailed hi =>
      exact h.goes (by simp [idleBuf]) (fun _ => rfl) (unclaimed_answer r _ _ _)

end BufOk

structure Buffered (r : IoUring) (log : List Event) : Prop where
  recvs : RecvOk r log
  sends : SendOk r log
  bufs : BufOk r log
  first : Along FirstReclaimed [] log

theorem Buffered.step {r r' : IoUring} {log evs : List Event} (h : Buffered r log) {a : Action}
    (hone : r.step a = .ok (r', evs)) : Buffered r' (log ++ evs) := by
  have hturn := step_turn hone
  obtain ⟨hbufs, hfirst⟩ := h.bufs.turn h.sends h.recvs hturn
  exact ⟨h.recvs.turn hturn, h.sends.turn h.recvs.pc hturn, hbufs, along_append.mpr ⟨h.first, hfirst⟩⟩

/-! ## When the buffers outlive their sends -/

/-- A buffer is reclaimed after the completion of its own send. -/
def Outlives (past : List Event) : Event → Prop
  | .reclaimed c bufs => bufs ⊆ completedOn c past
  | _ => True

/-- When buffers are reclaimed, no send has completed before an older one of its connection. -/
def InTurn (past : List Event) : Event → Prop
  | .reclaimed c _ => ∀ b ∈ completedOn c past, ∀ a ∈ stagedOn c past, a < b → a ∈ completedOn c past
  | _ => True

/-- Everything reclaimed so far was completed. -/
def AllOutlive (past : List Event) : Event → Prop
  | .reclaimed c bufs => reclaimedOn c past ++ bufs ⊆ completedOn c past
  | _ => True

theorem outlives_iff_allOutlive {past : List Event} (log : List Event)
    (hpast : ∀ c, reclaimedOn c past ⊆ completedOn c past) :
    Along Outlives past log ↔ Along AllOutlive past log := by
  induction log generalizing past with
  | nil => exact Iff.rfl
  | cons e log ih =>
      have hhead : Outlives past e ↔ AllOutlive past e := by
        cases e with
        | reclaimed c bufs =>
            simp only [Outlives, AllOutlive, List.append_subset]
            exact (and_iff_right (hpast c)).symm
        | _ => exact Iff.rfl
      simp only [Along, ← hhead]
      refine and_congr_right fun he => ih fun c => ?_
      rw [reclaimedOn_append, completedOn_append]
      refine List.append_subset.mpr ⟨?_, ?_⟩
      · exact fun b hb => List.mem_append_left _ (hpast c hb)
      · intro b hb
        simp only [reclaimedOn, List.flatMap_singleton] at hb
        unfold reclaimedFor at hb
        split at hb
        next d bufs =>
          split at hb
          next hd =>
            subst hd
            exact List.mem_append_left _ (he hb)
          next => cases hb
        next => cases hb

theorem allOutlive_iff_inTurn {past : List Event} {e : Event} (h : FirstReclaimed past e) :
    AllOutlive past e ↔ InTurn past e := by
  cases e with
  | reclaimed c bufs =>
      obtain ⟨hdone, hfirst⟩ := h
      simp only [AllOutlive, InTurn]
      rw [hfirst]
      exact take_subset_iff hdone.sorted hdone.nodup hdone.subset
  | _ => exact Iff.rfl

/-- **When buffers outlive their sends.** Calls in any order, completions in any order, and submissions
that fail: `reclaim_sends` removes each buffer only after the completion of the send that refers to it,
exactly when at each reclaim no send of the connection has completed before an older one. -/
theorem buffers_outlive_sends_iff (mode : IoUringMode) (sqpoll : Bool) (actions : List Action) :
    ∃ s log, machine.run (start mode sqpoll) actions = .ok (s, log) ∧
      (Along Outlives [] log ↔ Along InTurn [] log) := by
  obtain ⟨s, log, hrun, h⟩ := machine.exists_run Buffered
    (fun r log a h => by
      obtain ⟨r', evs, hone⟩ := h.recvs.step_ok a
      exact ⟨r', evs, hone, h.step hone⟩)
    ⟨recvOk_start mode sqpoll, sendOk_start mode sqpoll, bufOk_start mode sqpoll, trivial⟩ actions
  refine ⟨s, log, hrun, ?_⟩
  rw [outlives_iff_allOutlive log fun _ => List.Subset.refl _]
  exact along_congr h.first fun past e _ hfirst => allOutlive_iff_inTurn hfirst

/-- Two sends of one connection, of which the kernel completes the second first. -/
def overtaken : List Action :=
  [.connect, .call (.submit 0 .stream [1]), .caller (.ok 1), .caller (.ok 1),
    .call (.submit 0 .stream [2]), .caller (.ok 1), .caller (.ok 1), .sendDone 1 1,
    .call (.pollRecv 0 rxCap), .caller (.ok 1), .caller (.ok 1), .caller (.ok 1)]

/-- The buffer of the first send is gone, and the kernel may still read it. -/
theorem buffer_freed_early :
    (machine.run (start .sqeStream false) overtaken).Yields fun (s, log) =>
      .reclaimed 0 [0] ∈ log ∧ .completed 0 1 ∈ log ∧ .completed 0 0 ∉ log ∧
        .send 0 0 [1] ∈ s.taken ∧ (s.conns 0).sendInFlight = [(1, [2])] := by
  decide +kernel

end IoUring

end TxSender.Backend
