/-
# TxSender.Backend.RingSend — where the sends of a ring are.

A send that `submit` staged waits in `pending`, or with the loop that is pushing it, until it is in the
submission queue; then the kernel takes it and completes it. The only way out is a loop that gives up
with an entry in hand. So the sends pushed, waiting and given up are those staged (`SendOk.all`), and
without the ones given up they are in the order of the calls (`SendOk.order`).
-/
import Mathlib.Data.List.Nodup
import TxSender.Backend.RingRecv

namespace TxSender.Backend

open TxSender.Lib

namespace IoUring

/-! ## Sends in a queue and in a log -/

def sends (entries : List Sqe) : List Sqe := entries.filter Sqe.isSend

/-- The connection and the buffer of a send. -/
def Sqe.key : Sqe → Option (Idx × Nat)
  | .send c buf _ => some (c, buf)
  | .recv _ => none

def keys (entries : List Sqe) : List (Idx × Nat) := entries.filterMap Sqe.key

/-- The entry that a loop is pushing. -/
def held : Pc → List Sqe
  | .push entry _ _ | .full entry _ _ => [entry]
  | _ => []

/-- The sends that are not yet in the submission queue, oldest first. -/
def waiting (r : IoUring) : List Sqe := sends (held r.pc ++ r.pending)

def stagedBy : Event → Option Sqe
  | .staged c buf bytes => some (.send c buf bytes)
  | _ => none

def pushedBy : Event → Option Sqe
  | .pushed (.send c buf bytes) => some (.send c buf bytes)
  | _ => none

def droppedBy : Event → Option Sqe
  | .dropped (.send c buf bytes) => some (.send c buf bytes)
  | _ => none

def completedBy : Event → Option (Idx × Nat)
  | .completed c buf => some (c, buf)
  | _ => none

/-- The sends that `submit` accepted. -/
def stagedSends (log : List Event) : List Sqe := log.filterMap stagedBy

/-- The sends that were put into the submission queue. -/
def pushedSends (log : List Event) : List Sqe := log.filterMap pushedBy

/-- The sends that a loop gave up. -/
def droppedSends (log : List Event) : List Sqe := log.filterMap droppedBy

/-- The sends that the kernel completed. -/
def completedKeys (log : List Event) : List (Idx × Nat) := log.filterMap completedBy

/-- An event that moves no send. -/
def idleSend : Event → Bool
  | .staged _ _ _ | .pushed (.send _ _ _) | .dropped (.send _ _ _) | .completed _ _ => false
  | _ => true

theorem sends_append (l l' : List Sqe) : sends (l ++ l') = sends l ++ sends l' := List.filter_append ..

theorem keys_append (l l' : List Sqe) : keys (l ++ l') = keys l ++ keys l' := List.filterMap_append

theorem stagedSends_append (l l' : List Event) :
    stagedSends (l ++ l') = stagedSends l ++ stagedSends l' := List.filterMap_append

theorem pushedSends_append (l l' : List Event) :
    pushedSends (l ++ l') = pushedSends l ++ pushedSends l' := List.filterMap_append

theorem droppedSends_append (l l' : List Event) :
    droppedSends (l ++ l') = droppedSends l ++ droppedSends l' := List.filterMap_append

theorem completedKeys_append (l l' : List Event) :
    completedKeys (l ++ l') = completedKeys l ++ completedKeys l' := List.filterMap_append

theorem by_of_idle {e : Event} (h : idleSend e = true) :
    stagedBy e = none ∧ pushedBy e = none ∧ droppedBy e = none ∧ completedBy e = none := by
  cases e with
  | staged | completed => cases h
  | pushed entry | dropped entry =>
      cases entry with
      | send => cases h
      | recv => exact ⟨rfl, rfl, rfl, rfl⟩
  | _ => exact ⟨rfl, rfl, rfl, rfl⟩

theorem idle_sends {evs : List Event} (h : ∀ e ∈ evs, idleSend e = true) :
    stagedSends evs = [] ∧ pushedSends evs = [] ∧ droppedSends evs = [] ∧ completedKeys evs = [] := by
  refine ⟨?_, ?_, ?_, ?_⟩
  · exact List.filterMap_eq_nil_iff.mpr fun e he => (by_of_idle (h e he)).1
  · exact List.filterMap_eq_nil_iff.mpr fun e he => (by_of_idle (h e he)).2.1
  · exact List.filterMap_eq_nil_iff.mpr fun e he => (by_of_idle (h e he)).2.2.1
  · exact List.filterMap_eq_nil_iff.mpr fun e he => (by_of_idle (h e he)).2.2.2

theorem idle_fails (e : IoError) (call : Call) : ∀ ev ∈ fails e call, idleSend ev = true := by
  cases call <;> simp [fails, idleSend]

theorem idle_reap (r : IoUring) : ∀ ev ∈ r.reap.2, idleSend ev = true := by
  intro ev hev
  obtain ⟨key, rfl⟩ := reapAll_events r r.cq hev
  rfl

theorem idle_reclaim (r : IoUring) (c : Idx) : ∀ ev ∈ (r.reclaimSends c).2, idleSend ev = true := by
  unfold reclaimSends
  simp only
  split <;> simp [idleSend]

/-! ## The invariant -/

/-- Where the caller comes only when nothing is pending. -/
def Emptied : Pc → Prop
  | .flush _ | .reap _ | .push _ .pushSqe (.submit _) | .full _ .pushSqe (.submit _) => True
  | _ => False

structure SendOk (r : IoUring) (log : List Event) : Prop where
  /-- what was pushed is completed, or in the kernel, or in the queue -/
  sent : (keys (pushedSends log)).Perm (completedKeys log ++ keys (r.taken ++ r.sq))
  /-- what was staged is pushed, or waits, or was given up -/
  all : (pushedSends log ++ r.waiting ++ droppedSends log).Perm (stagedSends log)
  order : (pushedSends log ++ r.waiting).Sublist (stagedSends log)
  numbers : (keys (stagedSends log)).map Prod.snd = List.range r.staged
  batched : r.mode = .sqeStream → r.pending = []
  emptied : Emptied r.pc → r.pending = []

theorem sendOk_start (mode : IoUringMode) (sqpoll : Bool) : SendOk (start mode sqpoll) [] where
  sent := .nil
  all := .nil
  order := .slnil
  numbers := rfl
  batched _ := rfl
  emptied _ := rfl

namespace SendOk

variable {r r' : IoUring} {log evs : List Event}

/-- A step that leaves the sends where they are. -/
theorem keep (h : SendOk r log) (hevs : ∀ e ∈ evs, idleSend e = true)
    (hkeys : (keys (r.taken ++ r.sq)).Perm (keys (r'.taken ++ r'.sq)))
    (hwaiting : r'.waiting = r.waiting) (hstaged : r'.staged = r.staged)
    (hbatched : r'.mode = .sqeStream → r'.pending = []) (hemptied : Emptied r'.pc → r'.pending = []) :
    SendOk r' (log ++ evs) := by
  obtain ⟨hs, hp, hd, hc⟩ := idle_sends hevs
  constructor
  · rw [pushedSends_append, completedKeys_append, hp, hc, List.append_nil, List.append_nil]
    exact h.sent.trans (hkeys.append_left _)
  · rw [pushedSends_append, droppedSends_append, stagedSends_append, hp, hd, hs, hwaiting]
    simpa using h.all
  · rw [pushedSends_append, stagedSends_append, hp, hs, hwaiting, List.append_nil, List.append_nil]
    exact h.order
  · rw [stagedSends_append, hs, List.append_nil, hstaged]
    exact h.numbers
  · exact hbatched
  · exact hemptied

/-- `submit` stages a send. -/
theorem stage (h : SendOk r log) {c : Idx} {bytes : Bytes}
    (hs : stagedSends evs = [.send c r.staged bytes]) (hp : pushedSends evs = [])
    (hd : droppedSends evs = []) (hc : completedKeys evs = [])
    (hkeys : r'.taken ++ r'.sq = r.taken ++ r.sq)
    (hwaiting : r'.waiting = r.waiting ++ [.send c r.staged bytes]) (hstaged : r'.staged = r.staged + 1)
    (hbatched : r'.mode = .sqeStream → r'.pending = []) (hemptied : Emptied r'.pc → r'.pending = []) :
    SendOk r' (log ++ evs) := by
  constructor
  · rw [pushedSends_append, completedKeys_append, hp, hc, hkeys, List.append_nil, List.append_nil]
    exact h.sent
  · rw [pushedSends_append, droppedSends_append, stagedSends_append, hp, hd, hs, hwaiting,
      List.append_nil, List.append_nil]
    -- the new send moves to the end
    have hmove : (pushedSends log ++ (r.waiting ++ [Sqe.send c r.staged bytes]) ++ droppedSends log).Perm
        (pushedSends log ++ r.waiting ++ droppedSends log ++ [Sqe.send c r.staged bytes]) := by
      simp only [List.append_assoc]
      exact ((List.perm_append_comm).append_left _).append_left _
    exact hmove.trans (h.all.append_right _)
  · rw [pushedSends_append, stagedSends_append, hp, hs, hwaiting, List.append_nil, ← List.append_assoc]
    exact h.order.append_right _
  · rw [stagedSends_append, hs, keys_append, List.map_append, h.numbers, hstaged, List.range_succ]
    rfl
  · exact hbatched
  · exact hemptied

/-- The oldest waiting send goes into the submission queue. -/
theorem push (h : SendOk r log) {c : Idx} {buf : Nat} {bytes : Bytes}
    (hevs : evs = [.pushed (.send c buf bytes)])
    (hkeys : r'.taken ++ r'.sq = r.taken ++ r.sq ++ [.send c buf bytes])
    (hwaiting : r.waiting = .send c buf bytes :: r'.waiting) (hstaged : r'.staged = r.staged)
    (hbatched : r'.mode = .sqeStream → r'.pending = []) (hemptied : Emptied r'.pc → r'.pending = []) :
    SendOk r' (log ++ evs) := by
  subst hevs
  have hjoin : pushedSends (log ++ [.pushed (.send c buf bytes)]) ++ r'.waiting =
      pushedSends log ++ r.waiting := by
    rw [pushedSends_append, hwaiting, List.append_assoc]
    rfl
  have hs : stagedSends (log ++ [.pushed (.send c buf bytes)]) = stagedSends log := by
    rw [stagedSends_append]
    exact List.append_nil _
  have hd : droppedSends (log ++ [.pushed (.send c buf bytes)]) = droppedSends log := by
    rw [droppedSends_append]
    exact List.append_nil _
  constructor
  · rw [pushedSends_append, completedKeys_append, keys_append, hkeys, keys_append (r.taken ++ r.sq),
      ← List.append_assoc]
    refine List.Perm.append_right _ ?_
    rw [show completedKeys [.pushed (.send c buf bytes)] = [] from rfl, List.append_nil]
    exact h.sent
  · rw [hjoin, hd, hs]
    exact h.all
  · rw [hjoin, hs]
    exact h.order
  · rw [hs, hstaged]
    exact h.numbers
  · exact hbatched
  · exact hemptied

/-- A loop gives up with a send in hand. -/
theorem drop (h : SendOk r log) {c : Idx} {buf : Nat} {bytes : Bytes}
    (hs : stagedSends evs = []) (hp : pushedSends evs = [])
    (hd : droppedSends evs = [.send c buf bytes]) (hc : completedKeys evs = [])
    (hkeys : r'.taken ++ r'.sq = r.taken ++ r.sq)
    (hwaiting : r.waiting = .send c buf bytes :: r'.waiting) (hstaged : r'.staged = r.staged)
    (hbatched : r'.mode = .sqeStream → r'.pending = []) (hemptied : Emptied r'.pc → r'.pending = []) :
    SendOk r' (log ++ evs) := by
  constructor
  · rw [pushedSends_append, completedKeys_append, hp, hc, hkeys, List.append_nil, List.append_nil]
    exact h.sent
  · rw [pushedSends_append, droppedSends_append, stagedSends_append, hp, hd, hs, List.append_nil,
      List.append_nil]
    have hmove : (pushedSends log ++ r'.waiting ++ (droppedSends log ++ [Sqe.send c buf bytes])).Perm
        (pushedSends log ++ r.waiting ++ droppedSends log) := by
      rw [hwaiting]
      simp only [List.append_assoc, List.cons_append]
      refine List.Perm.append_left _ ?_
      rw [← List.append_assoc]
      exact List.perm_append_singleton ..
    exact hmove.trans h.all
  · rw [pushedSends_append, stagedSends_append, hp, hs, List.append_nil, List.append_nil]
    refine List.Sublist.trans ?_ h.order
    rw [hwaiting]
    exact (List.sublist_cons_self ..).append_left _
  · rw [stagedSends_append, hs, List.append_nil, hstaged]
    exact h.numbers
  · exact hbatched
  · exact hemptied

/-- The kernel completes a send. -/
theorem complete (h : SendOk r log) {i : Nat} {c : Idx} {buf : Nat} {bytes : Bytes} {result : Int}
    (hi : r.taken[i]? = some (.send c buf bytes)) :
    SendOk (r.complete i (.send c buf bytes) result) (log ++ [.completed c buf]) := by
  have hperm := perm_eraseIdx hi
  have hs : stagedSends (log ++ [.completed c buf]) = stagedSends log := by
    rw [stagedSends_append]
    exact List.append_nil _
  have hp : pushedSends (log ++ [.completed c buf]) = pushedSends log := by
    rw [pushedSends_append]
    exact List.append_nil _
  have hd : droppedSends (log ++ [.completed c buf]) = droppedSends log := by
    rw [droppedSends_append]
    exact List.append_nil _
  constructor
  · have hkeys : (keys (r.taken ++ r.sq)).Perm ((c, buf) :: keys (r.taken.eraseIdx i ++ r.sq)) :=
      ((hperm.append_right r.sq).filterMap Sqe.key).symm
    rw [hp, completedKeys_append, List.append_assoc]
    exact h.sent.trans (hkeys.append_left _)
  · rw [hs, hp, hd]
    exact h.all
  · rw [hs, hp]
    exact h.order
  · rw [hs]
    exact h.numbers
  · exact h.batched
  · exact h.emptied

/-- The kernel completes a receive. -/
theorem answer (h : SendOk r log) {i : Nat} {c : Idx} (hi : r.taken[i]? = some (.recv c))
    (result : Int) (conns : Idx → UringConn) (res : Except Errno Bytes) :
    SendOk { r.complete i (.recv c) result with conns } (log ++ [.received c res]) := by
  have hperm := perm_eraseIdx hi
  exact h.keep (by simp [idleSend]) ((hperm.append_right r.sq).filterMap Sqe.key).symm rfl rfl h.batched
    h.emptied

/-- The kernel takes entries. -/
theorem taken (h : SendOk r log) {sq taken : List Sqe} (hjoin : taken ++ sq = r.taken ++ r.sq) :
    SendOk { r with sq, taken } log := by
  have hkeep : SendOk { r with sq, taken } (log ++ []) :=
    h.keep nofun (by rw [hjoin]) rfl rfl h.batched h.emptied
  rwa [List.append_nil] at hkeep

/-- Only the place of the caller changes, and it holds what it held. -/
theorem goto (h : SendOk r log) (hevs : ∀ e ∈ evs, idleSend e = true) {pc : Pc}
    (hheld : sends (held pc) = sends (held r.pc)) (hemptied : Emptied pc → r.pending = []) :
    SendOk { r with pc } (log ++ evs) := by
  refine h.keep hevs .rfl ?_ rfl h.batched hemptied
  rw [waiting, waiting, sends_append, sends_append, hheld]

theorem reap (h : SendOk r log) : SendOk r.reap.1 log := by
  obtain ⟨completedSends, completedRecvs, heq⟩ := reap_eq r
  rw [heq]
  have hkeep : SendOk { r with completedSends, completedRecvs, cq := [] } (log ++ []) :=
    h.keep nofun .rfl rfl rfl h.batched h.emptied
  rwa [List.append_nil] at hkeep

theorem flush {r₁ : IoUring} (h : SendOk r log) (hflush : Flushed r r₁) : SendOk r₁ log := by
  obtain ⟨sq, taken, rfl, hjoin⟩ := hflush.eq
  exact h.taken hjoin

theorem driveInner (h : SendOk r log) (hevs : ∀ e ∈ evs, idleSend e = true)
    (hheld : sends (held r.pc) = []) (call : Call) : SendOk (r.driveInner call) (log ++ evs) := by
  unfold IoUring.driveInner
  split
  next hmode => exact h.goto hevs (by rw [hheld]; rfl) nofun
  next hmode => exact h.goto hevs (by rw [hheld]; rfl) fun _ => h.batched hmode

theorem pushed (h : SendOk r log) (hfits : r.PcFits) {entry : Sqe} {call : Call}
    (hpc : r.pc = .push entry .pushSqe call) :
    SendOk ({ r with sq := r.sq ++ [entry] }.afterPush call) (log ++ [.pushed entry]) := by
  simp only [PcFits, hpc] at hfits
  cases entry with
  | send c buf bytes =>
      cases call with
      | submit d =>
          have hpending : r.pending = [] := h.emptied (by rw [hpc]; trivial)
          refine h.push rfl (List.append_assoc ..).symm ?_ rfl h.batched fun _ => hpending
          rw [waiting, hpc]
          rfl
      | pollRecv | drive => cases hfits
  | recv c =>
      cases call with
      | pollRecv d cap =>
          have hkeys : keys (r.taken ++ (r.sq ++ [Sqe.recv c])) = keys (r.taken ++ r.sq) := by
            rw [← List.append_assoc, keys_append]
            exact List.append_nil _
          have hbase : SendOk ({ r with sq := r.sq ++ [Sqe.recv c] }.setConn d
              { r.conns d with recvInFlight := true }) (log ++ [.pushed (.recv c)]) :=
            h.keep (by simp [idleSend]) (by simp only [setConn, hkeys]; exact .rfl) rfl rfl h.batched
              h.emptied
          have hdrive := hbase.driveInner (List.forall_mem_nil _) (by simp [setConn, hpc, held, sends, Sqe.isSend])
            (.pollRecv d cap)
          rwa [List.append_nil] at hdrive
      | submit | drive => cases hfits

theorem gaveUp (h : SendOk r log) {entry : Sqe} {loop : PushLoop} {call : Call} {errno : Errno}
    (hpc : r.pc = .full entry loop call) :
    SendOk { r with pc := .idle } (log ++
      (.enterFailed errno :: .dropped entry :: fails (IoError.fromRawOsError errno.val) call)) := by
  obtain ⟨hs, hp, hd, hc⟩ := idle_sends (idle_fails (IoError.fromRawOsError errno.val) call)
  cases entry with
  | send c buf bytes =>
      refine h.drop hs hp (congrArg (Sqe.send c buf bytes :: ·) hd) hc rfl ?_ rfl h.batched nofun
      rw [waiting, hpc]
      rfl
  | recv c =>
      refine h.goto ?_ (by rw [hpc]; rfl) nofun
      simpa [idleSend] using idle_fails _ _

theorem polled (h : SendOk r log) {c : Idx} {cap : Nat} {r₂ : IoUring} {res : Except IoError Bytes}
    (hpc : r.pc = .reap (.pollRecv c cap))
    (hresult : (r.reap.1.reclaimSends c).1.pollResult c cap = .ok (r₂, res)) :
    SendOk { r₂ with pc := .idle }
      (log ++ (r.reap.2 ++ ((r.reap.1.reclaimSends c).2 ++ [.pollReturned c cap res]))) := by
  obtain ⟨recvs, flag, rfl⟩ := pollResult_eq hresult
  obtain ⟨sends', inFlight, hclaim⟩ := reclaimSends_eq r.reap.1 c
  obtain ⟨sends, recvs', hreap⟩ := reap_eq r
  have hevs : ∀ e ∈ r.reap.2 ++ ((r.reap.1.reclaimSends c).2 ++ [.pollReturned c cap res]),
      idleSend e = true := by
    intro e he
    obtain he | he := List.mem_append.mp he
    · exact idle_reap r e he
    · obtain he | he := List.mem_append.mp he
      · exact idle_reclaim _ _ e he
      · rw [List.mem_singleton.mp he]
        rfl
  refine h.keep hevs ?_ ?_ ?_ ?_ nofun
  · rw [hclaim, hreap]
    exact .rfl
  · rw [hclaim, hreap, waiting, waiting, hpc]
    rfl
  · rw [hclaim, hreap]
    rfl
  · rw [hclaim, hreap]
    exact h.batched

theorem turn (h : SendOk r log) (hfits : r.PcFits) (hturn : Turn r evs r') : SendOk r' (log ++ evs) := by
  cases hturn with
  | stay => rwa [List.append_nil]
  | connected => exact h.keep (List.forall_mem_nil _) .rfl rfl rfl h.batched h.emptied
  | unsupported => exact h.keep (by simp [idleSend]) .rfl rfl rfl h.batched h.emptied
  | queued hpc hmode =>
      refine h.stage rfl rfl rfl rfl rfl ?_ rfl ?_ ?_
      · rw [waiting, waiting, ← List.append_assoc, sends_append]
        rfl
      · simp [IoUring.stage, setConn, hmode]
      · simp [IoUring.stage, setConn, hpc, Emptied]
  | submitting hpc hmode =>
      have hpending := h.batched hmode
      refine h.stage rfl rfl rfl rfl rfl ?_ rfl (fun _ => hpending) fun _ => hpending
      simp [waiting, IoUring.stage, setConn, hpc, hpending, held, sends, Sqe.isSend]
  | polling hpc => exact h.driveInner (by simp [idleSend]) (by rw [hpc]; rfl) _
  | asking hpc => exact h.goto (by simp [idleSend]) (by rw [hpc]; rfl) False.elim
  | driving hpc => exact h.driveInner (by simp [idleSend]) (by rw [hpc]; rfl) _
  | pushed hpc => exact h.pushed hfits hpc
  | @drained entry call hpc =>
      simp only [PcFits, hpc] at hfits
      cases entry with
      | send c buf bytes =>
          refine h.push rfl (List.append_assoc ..).symm ?_ rfl h.batched False.elim
          rw [waiting, hpc]
          rfl
      | recv c => cases hfits
  | @noRoom entry loop call hpc =>
      refine h.goto (by simp [idleSend]) (by rw [hpc]; rfl) fun hpush => h.emptied ?_
      rw [hpc]
      cases loop <;> cases call <;> exact hpush
  | @retried entry loop call r₁ hpc hflush =>
      obtain ⟨sq, taken, rfl, hjoin⟩ := hflush.eq
      refine (h.taken hjoin).reap.goto (idle_reap _) ?_ fun hpush => ?_
      · rw [reap_pc, hpc]
        rfl
      · rw [reap_pending]
        refine h.emptied ?_
        rw [hpc]
        cases loop <;> cases call <;> exact hpush
  | gaveUp hpc => exact h.gaveUp hpc
  | popped hpc hpending =>
      refine h.keep (List.forall_mem_nil _) .rfl ?_ rfl (fun hmode => ?_) False.elim
      · rw [waiting, waiting, hpc, hpending]
        rfl
      · rw [h.batched hmode] at hpending
        cases hpending
  | drainedAll hpc hpending => exact h.goto (by simp) (by rw [hpc]; rfl) fun _ => hpending
  | submitted hpc hflush =>
      obtain ⟨sq, taken, rfl, hjoin⟩ := hflush.eq
      exact (h.taken hjoin).goto (by simp [idleSend]) (by simp only [hpc]; rfl) False.elim
  | flushed hpc hcall hflush =>
      obtain ⟨sq, taken, rfl, hjoin⟩ := hflush.eq
      exact (h.taken hjoin).goto (by simp) (by simp only [hpc]; rfl) fun _ =>
        h.emptied (by rw [hpc]; trivial)
  | unflushed hpc =>
      refine h.goto ?_ (by rw [hpc]; rfl) False.elim
      simpa [idleSend] using idle_fails _ _
  | driven hpc =>
      refine h.reap.goto ?_ (by rw [reap_pc, hpc]; rfl) False.elim
      intro e he
      obtain he | he := List.mem_append.mp he
      · exact idle_reap r e he
      · rw [List.mem_singleton.mp he]
        rfl
  | polled hpc hresult => exact h.polled hpc hresult
  | took =>
      obtain ⟨sq, taken, heq, hjoin⟩ := takeOne_eq r
      rw [heq, List.append_nil]
      exact h.taken hjoin
  | slept => exact h.keep (by simp [idleSend]) .rfl rfl rfl h.batched h.emptied
  | sent hi => exact h.complete hi
  | received hi => exact h.answer hi _ _ _
  | recvFailed hi => exact h.answer hi _ r.conns _

end SendOk

theorem sendOk_run {mode : IoUringMode} {sqpoll : Bool} {actions : List Action} {s : IoUring}
    {log : List Event} (h : machine.run (start mode sqpoll) actions = .ok (s, log)) : SendOk s log := by
  have hboth := machine.run_invariant (fun s log => RecvOk s log ∧ SendOk s log)
    ⟨recvOk_start mode sqpoll, sendOk_start mode sqpoll⟩
    (fun s log _ s' evs ⟨hrecv, hsend⟩ hone =>
      ⟨hrecv.turn (step_turn hone), hsend.turn hrecv.pc (step_turn hone)⟩) h
  exact hboth.2

/-! ## Where each send is -/

/-- Each send that `submit` accepted is in exactly one place: not yet pushed, in the submission queue,
with the kernel, or completed. Those not yet pushed are in the order of their calls. -/
def InOnePlace (r : IoUring) (log : List Event) : Prop :=
  (∀ k ∈ keys (stagedSends log), (keys r.waiting).count k + (keys r.sq).count k + (keys r.taken).count k +
    (completedKeys log).count k = 1) ∧ (keys r.waiting).Sublist (keys (stagedSends log))

theorem SendOk.nodup {r : IoUring} {log : List Event} (h : SendOk r log) :
    (keys (stagedSends log)).Nodup := by
  refine List.Nodup.of_map Prod.snd ?_
  rw [h.numbers]
  exact List.nodup_range

/-- Only sends are among the sends given up. -/
theorem keys_droppedSends {log : List Event} (h : keys (droppedSends log) = []) :
    droppedSends log = [] := by
  refine List.eq_nil_iff_forall_not_mem.mpr fun entry hentry => ?_
  have hnone := List.filterMap_eq_nil_iff.mp h entry hentry
  obtain ⟨e, -, he⟩ := List.mem_filterMap.mp hentry
  unfold droppedBy at he
  split at he
  · cases he
    cases hnone
  · cases he

/-- A send is in no place only if a loop gave it up. -/
theorem SendOk.inOnePlace_iff {r : IoUring} {log : List Event} (h : SendOk r log) :
    InOnePlace r log ↔ droppedSends log = [] := by
  have hall := h.all.filterMap Sqe.key
  have hcount : ∀ k ∈ keys (stagedSends log), (keys r.waiting).count k + (keys r.sq).count k +
      (keys r.taken).count k + (completedKeys log).count k + (keys (droppedSends log)).count k = 1 := by
    intro k hk
    have hone := List.count_eq_one_of_mem h.nodup hk
    have hsum := hall.count_eq k
    have hsent := h.sent.count_eq k
    simp only [keys, List.filterMap_append, List.count_append] at hone hsum hsent ⊢
    omega
  constructor
  · intro hplace
    refine keys_droppedSends (List.eq_nil_iff_forall_not_mem.mpr fun k hk => ?_)
    have hstaged : k ∈ keys (stagedSends log) := by
      refine hall.mem_iff.mp ?_
      rw [List.filterMap_append]
      exact List.mem_append_right _ hk
    have hlost := List.count_pos_iff.mpr hk
    have := hcount k hstaged
    have := hplace.1 k hstaged
    omega
  · intro hdropped
    refine ⟨fun k hk => ?_, ?_⟩
    · have hsum := hcount k hk
      rw [hdropped] at hsum
      exact hsum
    · exact ((List.sublist_append_right ..).trans h.order).filterMap Sqe.key

/-- The caller's next step: a send found the queue full, and `io_uring_enter` fails. -/
def GivesUp (r : IoUring) : Action → Prop
  | .caller (.error _) =>
      r.sqpoll = false ∧ ∃ entry loop call, r.pc = .full entry loop call ∧ entry.isSend = true
  | _ => False

theorem droppedSends_of_idle {evs : List Event} (h : ∀ e ∈ evs, idleSend e = true) :
    droppedSends evs = [] := (idle_sends h).2.2.1

/-- The one step that gives a send up. -/
theorem droppedSends_full {r r' : IoUring} {enter : Except Errno Nat} {evs : List Event} {entry : Sqe}
    {loop : PushLoop} {call : Call} (hpc : r.pc = .full entry loop call)
    (h : r.advance enter = .ok (r', evs)) :
    droppedSends evs = [] ↔ ¬ GivesUp r (.caller enter) := by
  simp only [advance, hpc] at h
  cases henter : r.flushSubmit enter with
  | ok r₁ =>
      simp only [henter] at h
      cases h
      refine iff_of_true (droppedSends_of_idle (idle_reap _)) fun hgives => ?_
      cases enter with
      | ok n => exact hgives
      | error errno => simp [flushSubmit, hgives.1] at henter
  | error errno =>
      have hsqpoll := sqpoll_of_flushSubmit henter
      simp only [henter] at h
      cases h
      have hfails : droppedSends (fails (IoError.fromRawOsError errno.val) call) = [] :=
        droppedSends_of_idle (idle_fails _ _)
      cases enter with
      | ok n => simp [flushSubmit, hsqpoll] at henter
      | error errno' =>
          cases entry with
          | send c buf bytes =>
              refine iff_of_false (List.cons_ne_nil _ _) (not_not.mpr ?_)
              exact ⟨hsqpoll, _, _, _, hpc, rfl⟩
          | recv c =>
              refine iff_of_true hfails ?_
              rintro ⟨-, entry, loop', call', hpc', hsend⟩
              rw [hpc] at hpc'
              cases hpc'
              cases hsend

/-- Nothing is given up elsewhere. -/
theorem Turn.drops {r r' : IoUring} {evs : List Event} (h : Turn r evs r') :
    IoUring.droppedSends evs = [] ∨
      (∃ entry loop call, r.pc = .full entry loop call) ∧ ∃ errno, .enterFailed errno ∈ evs := by
  cases h with
  | gaveUp hfull => exact .inr ⟨⟨_, _, _, hfull⟩, _, List.mem_cons_self⟩
  | retried => exact .inl (droppedSends_of_idle (idle_reap _))
  | @unflushed call errno =>
      have hfails := droppedSends_of_idle (idle_fails (IoError.fromRawOsError errno.val) call)
      exact .inl hfails
  | driven =>
      rw [droppedSends_append, droppedSends_of_idle (idle_reap _)]
      exact .inl rfl
  | polled =>
      rw [droppedSends_append, droppedSends_append, droppedSends_of_idle (idle_reap _),
        droppedSends_of_idle (idle_reclaim _ _)]
      exact .inl rfl
  | _ => exact .inl rfl

theorem droppedSends_step {r r' : IoUring} {a : Action} {evs : List Event}
    (h : r.step a = .ok (r', evs)) : droppedSends evs = [] ↔ ¬ GivesUp r a := by
  cases a with
  | caller enter =>
      by_cases hfull : ∃ entry loop call, r.pc = .full entry loop call
      · obtain ⟨entry, loop, call, hpc⟩ := hfull
        exact droppedSends_full hpc h
      · refine iff_of_true ((step_turn h).drops.resolve_right fun hdrops => hfull hdrops.1) ?_
        intro hgives
        cases enter with
        | ok n => exact hgives
        | error errno =>
            obtain ⟨-, entry, loop, call, hpc, -⟩ := hgives
            exact hfull ⟨entry, loop, call, hpc⟩
  | call op =>
      refine iff_of_true ?_ id
      by_cases hidle : r.pc = .idle
      · refine (step_turn h).drops.resolve_right ?_
        simp [hidle]
      · simp only [step, hidle, false_and, if_false] at h
        cases h
        rfl
  | connect | take =>
      cases h
      exact iff_of_true rfl id
  | sleep =>
      refine iff_of_true ?_ id
      simp only [step] at h
      split at h <;> cases h <;> rfl
  | sendDone i result =>
      refine iff_of_true ?_ id
      rw [← (Prod.mk.inj (Except.ok.inj h)).2]
      split <;> rfl
  | recvDone i res =>
      refine iff_of_true ?_ id
      rw [← (Prod.mk.inj (Except.ok.inj h)).2]
      split
      · cases res <;> rfl
      · rfl

/-- **Sends in one place.** In `BatchSyscall` mode, each send accepted is at all times pending, in the
submission queue, with the kernel or completed, and in one of them only, and the pending ones are in
order, exactly when `io_uring_enter` never fails while a loop has a send in hand for which it found no
room. -/
theorem sends_in_one_place_iff (sqpoll : Bool) (actions : List Action) :
    machine.Always InOnePlace (start .batchSyscall sqpoll) [] actions ↔
      machine.Guarded (fun r _ a => ¬ GivesUp r a) (start .batchSyscall sqpoll) [] actions := by
  have hstart := sendOk_start .batchSyscall sqpoll
  refine machine.always_iff_guarded (fun r log => RecvOk r log ∧ SendOk r log) _ _ ?_
    ⟨recvOk_start _ _, hstart⟩ (hstart.inOnePlace_iff.mpr rfl)
  intro r log a r' evs ⟨hrecv, hsend⟩ hplace hone
  have hturn := step_turn hone
  have hsend' := hsend.turn hrecv.pc hturn
  refine ⟨⟨hrecv.turn hturn, hsend'⟩, ?_⟩
  rw [hsend'.inOnePlace_iff, droppedSends_append, hsend.inOnePlace_iff.mp hplace, List.nil_append]
  exact droppedSends_step hone

/-- One more send than the queue has room for, a `drive`, and a failure when the queue is full. -/
def overfull : List Action :=
  .connect :: (List.replicate 257 (.call (.submit 0 .stream [1])) ++
    .call .drive :: (List.replicate 514 (.caller (.ok 0)) ++ [.caller (.error ⟨16, by decide⟩)]))

/-- The last send is nowhere, and `drive` drops the error. -/
theorem last_send_lost :
    (machine.run (start .batchSyscall false) overfull).Yields fun (s, log) =>
      (0, 256) ∈ keys (stagedSends log) ∧ (0, 256) ∉ keys s.waiting ∧ (0, 256) ∉ keys s.sq ∧
        (0, 256) ∉ keys s.taken ∧ (0, 256) ∉ completedKeys log := by
  decide +kernel

end IoUring

end TxSender.Backend
