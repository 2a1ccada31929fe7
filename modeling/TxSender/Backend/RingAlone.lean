/-
# TxSender.Backend.RingAlone — a shared ring on which one connection is used.

`IoUring` and `Uring` are two models of one driver: `Uring` has the bytes of its one connection at their
places in the stream, `IoUring` has numbered buffers, completion maps and a kernel that completes entries
in any order. `alone` forgets what a single connection does not need, and each function of the driver is
the same below and above it. So every run of `IoUring` that uses one connection, and in which the kernel
executes its sends in the order they were taken, is a run of `Uring` with the same log (`alone_run`). What
is proved of the one then holds of the other, as for the buffers of the sends (`alone_staged`).
-/
import TxSender.Backend.RingSend

namespace TxSender.Backend

open TxSender.Lib

/-- What the logs of the two models both tell. -/
inductive Told where
  | submitted (bytes : Bytes)
  | executed (off : Nat)
  | dropped (off : Nat) (bytes : Bytes)
  | submitReturned (r : Except IoError Unit)
  | pollReturned (r : Except IoError Bytes)

def UringEvent.told : UringEvent → Option Told
  | .submitted bytes => some (.submitted bytes)
  | .sent off _ _ => some (.executed off)
  | .dropped off bytes => some (.dropped off bytes)
  | .submitReturned r => some (.submitReturned r)
  | .pollReturned r => some (.pollReturned r)

namespace IoUring

/-! ## Forgetting the numbers

`place` says where in all that was submitted a buffer begins. -/

section Alone

variable (place : Nat → Nat)

def Event.told : Event → Option Told
  | .staged _ _ bytes => some (.submitted bytes)
  | .completed _ buf => some (.executed (place buf))
  | .dropped (.send _ buf bytes) => some (.dropped (place buf) bytes)
  | .submitReturned _ r => some (.submitReturned r)
  | .pollReturned _ _ r => some (.pollReturned r)
  | .pollFailed _ e => some (.pollReturned (.error e))
  | _ => none

def Sqe.alone : Sqe → Backend.Sqe
  | .send _ buf bytes => .send (place buf) bytes
  | .recv _ => .recv

def Cqe.alone (q : Cqe) : Backend.Cqe :=
  match q.entry with
  | .send _ _ _ => .send q.result
  | .recv _ => .recv q.result

def Call.alone : Call → UringCall
  | .submit _ => .submit
  | .pollRecv _ cap => .pollRecv cap
  | .drive => .drive

def Pc.alone : Pc → UringPc
  | .idle => .idle
  | .push entry loop call => .push (entry.alone place) loop call.alone
  | .full entry loop call => .full (entry.alone place) loop call.alone
  | .drain call => .drain call.alone
  | .flush call => .flush call.alone
  | .reap call => .reap call.alone

/-- The ring as its connection 0 sees it. -/
def alone (r : IoUring) : Uring where
  mode := r.mode
  sqpoll := r.sqpoll
  pending := r.pending.map (Sqe.alone place)
  completedSends := (r.completedSends (ud (0 : Idx) opSend)).getD 0
  completedRecvs := r.completedRecvs (ud (0 : Idx) opRecv)
  rxBuf := (r.conns 0).rxBuf
  recvInFlight := (r.conns 0).recvInFlight
  sendInFlight := (r.conns 0).sendInFlight.map Prod.snd
  sq := r.sq.map (Sqe.alone place)
  cq := r.cq.map Cqe.alone
  taken := Uring.sends (r.taken.map (Sqe.alone place))
  receiving := r.taken.any fun entry => !entry.isSend
  offset := place r.staged
  pc := r.pc.alone place

/-! ## One connection -/

def Sqe.conn : Sqe → Idx
  | .send c _ _ => c
  | .recv c => c

def Call.conn : Call → Idx
  | .submit c => c
  | .pollRecv c _ => c
  | .drive => 0

def Op.conn : Op → Idx
  | .submit c _ _ => c
  | .pollRecv c _ => c
  | .drive => 0

def Pc.call : Pc → Call
  | .idle => .drive
  | .push _ _ call | .full _ _ call | .drain call | .flush call | .reap call => call

/-- All that is on its way belongs to connection 0. -/
structure Lone (r : IoUring) : Prop where
  waiting : ∀ entry ∈ held r.pc ++ r.pending, entry.conn = 0
  queued : ∀ entry ∈ r.taken ++ r.sq, entry.conn = 0
  completed : ∀ q ∈ r.cq, q.entry.conn = 0
  call : r.pc.call.conn = 0

theorem lone_start (mode : IoUringMode) (sqpoll : Bool) : (start mode sqpoll).Lone :=
  ⟨nofun, nofun, nofun, rfl⟩

namespace Lone

variable {r r' : IoUring} {evs : List Event}

theorem goto (h : r.Lone) {pc : Pc} (hheld : ∀ entry ∈ held pc, entry.conn = 0)
    (hcall : pc.call.conn = 0) : Lone { r with pc } := by
  refine ⟨?_, h.queued, h.completed, hcall⟩
  intro entry hentry
  obtain hentry | hentry := List.mem_append.mp hentry
  · exact hheld entry hentry
  · exact h.waiting entry (List.mem_append_right _ hentry)

theorem pcCall (h : r.Lone) {pc : Pc} (hpc : r.pc = pc) : pc.call.conn = 0 := by
  rw [← hpc]
  exact h.call

theorem pcHeld (h : r.Lone) {pc : Pc} (hpc : r.pc = pc) : ∀ entry ∈ held pc, entry.conn = 0 := by
  rw [← hpc]
  exact fun entry hentry => h.waiting entry (List.mem_append_left _ hentry)

theorem flush {r₁ : IoUring} (h : r.Lone) (hflush : Flushed r r₁) : r₁.Lone := by
  obtain ⟨sq, taken, rfl, hjoin⟩ := hflush.eq
  refine ⟨h.waiting, ?_, h.completed, h.call⟩
  show ∀ entry ∈ taken ++ sq, entry.conn = 0
  rw [hjoin]
  exact h.queued

theorem reap (h : r.Lone) : r.reap.1.Lone := by
  obtain ⟨sends, recvs, heq⟩ := reap_eq r
  rw [heq]
  exact ⟨h.waiting, h.queued, nofun, h.call⟩

theorem push (h : r.Lone) {entry : Sqe} (hentry : entry.conn = 0) :
    Lone { r with sq := r.sq ++ [entry] } := by
  refine ⟨h.waiting, ?_, h.completed, h.call⟩
  intro e he
  rw [← List.append_assoc] at he
  obtain he | he := List.mem_append.mp he
  · exact h.queued e he
  · rw [List.mem_singleton.mp he]
    exact hentry

theorem stage (h : r.Lone) (c : Idx) (bytes : Bytes) : (r.stage c bytes).Lone :=
  ⟨h.waiting, h.queued, h.completed, h.call⟩

theorem driveInner (h : r.Lone) {call : Call} (hcall : call.conn = 0) : (r.driveInner call).Lone := by
  obtain ⟨pc, heq, hpc⟩ := driveInner_eq r call
  rw [heq]
  obtain rfl | rfl := hpc
  · exact h.goto nofun hcall
  · exact h.goto nofun hcall

theorem complete (h : r.Lone) {i : Nat} {entry : Sqe} (hi : r.taken[i]? = some entry) (result : Int) :
    (r.complete i entry result).Lone := by
  refine ⟨h.waiting, ?_, ?_, h.call⟩
  · intro e he
    apply h.queued
    obtain he | he := List.mem_append.mp he
    · exact List.mem_append_left _ ((List.eraseIdx_sublist r.taken i).subset he)
    · exact List.mem_append_right _ he
  · intro q hq
    obtain hq | hq := List.mem_append.mp hq
    · exact h.completed q hq
    · rw [List.mem_singleton.mp hq]
      exact h.queued entry (List.mem_append_left _ (List.mem_of_getElem? hi))

/-- As long as every call is on connection 0, so is everything that comes of the calls. -/
theorem turn (h : r.Lone) (hbegan : ∀ op, .began op ∈ evs → op.conn = 0) (hturn : Turn r evs r') :
    r'.Lone := by
  cases hturn with
  | stay | unsupported => exact h
  | connected | slept => exact ⟨h.waiting, h.queued, h.completed, h.call⟩
  | @queued c bytes hpc =>
      have hc : c = 0 := hbegan _ List.mem_cons_self
      refine ⟨?_, h.queued, h.completed, h.call⟩
      intro entry hentry
      have hmem : entry ∈ (held r.pc ++ r.pending) ++ [.send c r.staged bytes] := by
        rw [List.append_assoc]
        exact hentry
      obtain hold | hnew := List.mem_append.mp hmem
      · exact h.waiting entry hold
      · rw [List.mem_singleton.mp hnew]
        exact hc
  | @submitting c bytes =>
      have hc : c = 0 := hbegan _ List.mem_cons_self
      refine (h.stage c bytes).goto ?_ hc
      intro entry hentry
      rw [List.mem_singleton.mp hentry]
      exact hc
  | polling => exact h.driveInner (hbegan _ List.mem_cons_self)
  | @asking c cap =>
      have hc : c = 0 := hbegan _ List.mem_cons_self
      refine h.goto ?_ hc
      intro entry hentry
      rw [List.mem_singleton.mp hentry]
      exact hc
  | driving => exact h.driveInner rfl
  | @pushed entry call hpc =>
      have hpush := h.push (h.pcHeld hpc entry List.mem_cons_self)
      have hcall : call.conn = 0 := h.pcCall hpc
      cases call with
      | submit c => exact hpush.goto nofun hcall
      | drive => exact hpush.goto nofun rfl
      | pollRecv c cap =>
          have hset : Lone ({ r with sq := r.sq ++ [entry] }.setConn c
              { r.conns c with recvInFlight := true }) :=
            ⟨hpush.waiting, hpush.queued, hpush.completed, hpush.call⟩
          exact hset.driveInner hcall
  | drained hpc =>
      have hcall := h.pcCall hpc
      exact (h.push (h.pcHeld hpc _ List.mem_cons_self)).goto nofun hcall
  | noRoom hpc =>
      have hheld := h.pcHeld hpc
      have hcall := h.pcCall hpc
      exact h.goto hheld hcall
  | retried hpc hflush =>
      have hheld := h.pcHeld hpc
      have hcall := h.pcCall hpc
      exact (h.flush hflush).reap.goto hheld hcall
  | gaveUp | unflushed => exact h.goto nofun rfl
  | @popped entry rest call hpc hpending =>
      have hcall := h.pcCall hpc
      refine ⟨?_, h.queued, h.completed, hcall⟩
      intro e he
      apply h.waiting
      rw [hpending]
      exact List.mem_append_right _ he
  | drainedAll hpc =>
      have hcall := h.pcCall hpc
      exact h.goto nofun hcall
  | submitted hpc hflush => exact (h.flush hflush).goto nofun rfl
  | flushed hpc _ hflush =>
      have hcall := h.pcCall hpc
      exact (h.flush hflush).goto nofun hcall
  | driven => exact h.reap.goto nofun rfl
  | @polled c cap r₂ res hpc hresult =>
      obtain ⟨sends, inFlight, hreclaim⟩ := reclaimSends_eq r.reap.1 c
      obtain ⟨recvs, flag, hpoll⟩ := pollResult_eq hresult
      have hreap := h.reap
      have hend : r₂.Lone := by
        rw [hpoll, hreclaim]
        exact ⟨hreap.waiting, hreap.queued, hreap.completed, hreap.call⟩
      exact hend.goto nofun rfl
  | took =>
      obtain ⟨sq, taken, heq, hjoin⟩ := takeOne_eq r
      rw [heq]
      refine ⟨h.waiting, ?_, h.completed, h.call⟩
      show ∀ entry ∈ taken ++ sq, entry.conn = 0
      rw [hjoin]
      exact h.queued
  | sent hi => exact h.complete hi _
  | @received i c data hi =>
      have hcomplete := h.complete hi data.length
      exact ⟨hcomplete.waiting, hcomplete.queued, hcomplete.completed, hcomplete.call⟩
  | recvFailed hi => exact h.complete hi _

end Lone

/-! ## The functions of the driver -/

theorem takeOne_alone (r : IoUring) : r.takeOne.alone place = (r.alone place).takeOne := by
  unfold takeOne Uring.takeOne
  cases hsq : r.sq with
  | nil => simp only [alone, hsq, List.map_nil]
  | cons entry rest =>
      cases entry with
      | send c buf bytes => simp [alone, hsq, Sqe.alone, Uring.sends, Sqe.isSend]
      | recv c => simp [alone, hsq, Sqe.alone, Uring.sends, Sqe.isSend]

theorem takes_alone (r : IoUring) (n : Nat) : (r.takes n).alone place = (r.alone place).takes n := by
  induction n generalizing r with
  | zero => rfl
  | succ n ih => rw [takes, ih, takeOne_alone, Uring.takes]

theorem flushSubmit_alone (r : IoUring) (enter : Except Errno Nat) :
    (r.alone place).flushSubmit (enter.mapError Subtype.val) =
      ((r.flushSubmit enter).map (alone place)).mapError fun errno => IoError.fromRawOsError errno.val := by
  unfold flushSubmit Uring.flushSubmit
  rw [show (r.alone place).sqpoll = r.sqpoll from rfl]
  split
  next => rfl
  next =>
    cases enter with
    | ok n => exact congrArg Except.ok (takes_alone place r n).symm
    | error errno => rfl

theorem reapOne_alone (r : IoUring) {q : Cqe} (hq : q.entry.conn = 0) :
    (r.reapOne q).1.alone place = (r.alone place).reapOne q.alone := by
  obtain ⟨entry, result⟩ := q
  cases entry with
  | send c buf bytes =>
      obtain rfl : c = 0 := hq
      rw [reapOne_send]
      simp only [alone, Cqe.alone, Uring.reapOne, Function.update_self, Option.getD_some]
  | recv c =>
      obtain rfl : c = 0 := hq
      rw [reapOne_recv]
      simp only [alone, Cqe.alone, Uring.reapOne, Function.update_self]

theorem reapAll_alone (r : IoUring) (cq : List Cqe) (hcq : ∀ q ∈ cq, q.entry.conn = 0) :
    (r.reapAll cq).1.alone place = (cq.map Cqe.alone).foldl Uring.reapOne (r.alone place) := by
  induction cq generalizing r with
  | nil => rfl
  | cons q cq ih =>
      rw [List.map_cons, List.foldl_cons, ← reapOne_alone place r (hcq q List.mem_cons_self),
        ← ih (r.reapOne q).1 fun q hq => hcq q (List.mem_cons_of_mem _ hq)]
      rfl

theorem reap_alone {r : IoUring} (hcq : ∀ q ∈ r.cq, q.entry.conn = 0) :
    r.reap.1.alone place = (r.alone place).reap := by
  show ({ (r.reapAll r.cq).1.alone place with cq := [] } : Uring) = _
  rw [reapAll_alone place r r.cq hcq]
  rfl

theorem reclaimSends_alone (r : IoUring) :
    (r.reclaimSends 0).1.alone place = (r.alone place).reclaimSends := by
  unfold reclaimSends Uring.reclaimSends
  cases hsends : r.completedSends (ud (0 : Idx) opSend) with
  | some n =>
      simp only [hsends, alone, setConn, Function.update_self, List.map_drop, Option.getD_some,
        Option.getD_none]
  | none => simp only [hsends, alone, Option.getD_none, List.drop_zero]

theorem driveInner_alone (r : IoUring) (call : Call) :
    (r.driveInner call).alone place = (r.alone place).driveInner call.alone := by
  unfold driveInner Uring.driveInner
  rw [show (r.alone place).mode = r.mode from rfl]
  cases r.mode with
  | batchSyscall => rfl
  | sqeStream => rfl

/-- `submit` puts the next buffer where all that was submitted before it ends. -/
theorem submit_alone (r : IoUring) (kind : Wire) (bytes : Bytes)
    (hplace : kind = .stream → place (r.staged + 1) = place r.staged + bytes.length) :
    (r.submit 0 kind bytes).1.alone place = ((r.alone place).submit kind bytes).1 ∧
      ((r.alone place).submit kind bytes).2.filterMap UringEvent.told =
        (r.submit 0 kind bytes).2.filterMap (Event.told place) := by
  cases kind with
  | datagram => exact ⟨rfl, rfl⟩
  | stream =>
      unfold submit Uring.submit
      simp only [show (r.alone place).mode = r.mode from rfl]
      cases hmode : r.mode with
      | sqeStream =>
          refine ⟨?_, rfl⟩
          simp [alone, stage, setConn, Pc.alone, Sqe.alone, Call.alone, hplace rfl, hmode]
      | batchSyscall =>
          refine ⟨?_, rfl⟩
          simp [alone, stage, setConn, Sqe.alone, hplace rfl, hmode]

theorem pollRecv_alone (r : IoUring) (cap : Nat) :
    (r.pollRecv 0 cap).alone place = (r.alone place).pollRecv cap := by
  unfold pollRecv Uring.pollRecv
  rw [show (r.alone place).recvInFlight = (r.conns 0).recvInFlight from rfl]
  split
  next => exact driveInner_alone place r (.pollRecv 0 cap)
  next => rfl

theorem afterPush_alone (r : IoUring) {call : Call} (hcall : call.conn = 0) :
    (r.afterPush call).alone place = (r.alone place).afterPush call.alone := by
  cases call with
  | submit c => rfl
  | drive => rfl
  | pollRecv c cap =>
      obtain rfl : c = 0 := hcall
      rw [afterPush, driveInner_alone, Call.alone, Uring.afterPush]
      simp [alone, setConn]

theorem pollResult_alone {r r₂ : IoUring} {cap : Nat} {res : Except IoError Bytes}
    (h : r.pollResult 0 cap = .ok (r₂, res)) :
    (r.alone place).pollResult cap = .ok (r₂.alone place, res) := by
  unfold pollResult at h
  unfold Uring.pollResult
  rw [show (r.alone place).completedRecvs = r.completedRecvs (ud (0 : Idx) opRecv) from rfl]
  have hresult : ({ r with
      completedRecvs := Function.update r.completedRecvs (ud (0 : Idx) opRecv) none }.setConn 0
        { r.conns 0 with recvInFlight := false }).alone place =
      { r.alone place with completedRecvs := none, recvInFlight := false } := by
    simp [alone, setConn]
  cases hsome : r.completedRecvs (ud (0 : Idx) opRecv) with
  | none =>
      simp only [hsome] at h ⊢
      cases h
      rfl
  | some result =>
      simp only [hsome] at h ⊢
      split at h
      next hneg =>
        cases h
        rw [if_pos hneg, hresult]
      next hneg =>
        rw [if_neg hneg]
        split at h
        next hzero =>
          cases h
          rw [if_pos hzero, hresult]
        next hzero =>
          rw [if_neg hzero]
          obtain ⟨bytes, hslice, h⟩ := bind_eq_ok.mp h
          cases h
          rw [hresult]
          simp only [setConn, Function.update_self] at hslice
          exact bind_eq_ok.mpr ⟨bytes, hslice, rfl⟩

/-! ## The kernel -/

/-- The kernel executes the sends in the order it has taken them. -/
def OldestFirst (r : IoUring) : Action → Prop
  | .sendDone i _ => ∀ entry ∈ r.taken.take i, entry.isSend = false
  | _ => True

theorem sends_of_recvs {entries : List Sqe} (h : ∀ entry ∈ entries, entry.isSend = false) :
    Uring.sends (entries.map (Sqe.alone place)) = [] := by
  refine List.filterMap_eq_nil_iff.mpr fun entry hentry => ?_
  obtain ⟨e, he, rfl⟩ := List.mem_map.mp hentry
  cases e with
  | send c buf bytes => cases h _ he
  | recv c => rfl

theorem split_of_getElem? {α : Type} {l : List α} {i : Nat} {a : α} (h : l[i]? = some a) :
    l = l.take i ++ a :: l.drop (i + 1) ∧ l.eraseIdx i = l.take i ++ l.drop (i + 1) := by
  obtain ⟨hi, rfl⟩ := List.getElem?_eq_some_iff.mp h
  refine ⟨?_, List.eraseIdx_eq_take_drop_succ l i⟩
  rw [← List.drop_eq_getElem_cons hi, List.take_append_drop]

theorem sent_alone {r : IoUring} {i : Nat} {c : Idx} {buf : Nat} {bytes : Bytes}
    (hi : r.taken[i]? = some (.send c buf bytes)) (horder : ∀ entry ∈ r.taken.take i, entry.isSend = false)
    (result : Int) :
    (r.alone place).sendDone result =
      ((r.complete i (.send c buf bytes) result).alone place,
        [.sent (place buf) bytes (Uring.accepted bytes result)]) := by
  obtain ⟨htaken, herase⟩ := split_of_getElem? hi
  -- what stands before the send are receives
  have hfirst : (r.alone place).taken =
      (place buf, bytes) :: Uring.sends ((r.taken.drop (i + 1)).map (Sqe.alone place)) := by
    show Uring.sends (r.taken.map (Sqe.alone place)) = _
    conv => lhs; rw [htaken]
    rw [List.map_append, Uring.sends_append, sends_of_recvs place horder]
    rfl
  have hrest : Uring.sends ((r.taken.eraseIdx i).map (Sqe.alone place)) =
      Uring.sends ((r.taken.drop (i + 1)).map (Sqe.alone place)) := by
    rw [herase, List.map_append, Uring.sends_append, sends_of_recvs place horder, List.nil_append]
  have hreceiving : ((r.taken.eraseIdx i).any fun entry => !entry.isSend) =
      r.taken.any fun entry => !entry.isSend := by
    rw [herase]
    conv => rhs; rw [htaken]
    simp [Sqe.isSend]
  unfold Uring.sendDone
  rw [hfirst]
  simp only [alone, complete, hrest, hreceiving, List.map_append, List.map_cons, List.map_nil, Cqe.alone]

/-- The receive that the kernel completes is the only one it has. -/
theorem receiving_eraseIdx {r : IoUring} {log : List Event} (hrecv : RecvOk r log) (hlone : r.Lone) {i : Nat}
    (hi : r.taken[i]? = some (.recv 0)) : ((r.taken.eraseIdx i).any fun entry => !entry.isSend) = false := by
  have hcount := hrecv.count 0
  have hentries : (r.taken ++ r.sq).count (.recv 0) =
      (r.taken.eraseIdx i).count (.recv 0) + 1 + r.sq.count (.recv 0) := by
    rw [List.count_append, ← (perm_eraseIdx hi).count_eq, List.count_cons_self]
  have hnone : Sqe.recv 0 ∉ r.taken.eraseIdx i := by
    apply List.count_eq_zero.mp
    unfold receives at hcount
    split at hcount <;> omega
  rw [List.any_eq_false]
  intro entry hentry
  cases entry with
  | send c buf bytes => simp [Sqe.isSend]
  | recv c =>
      obtain rfl : c = 0 :=
        hlone.queued _ (List.mem_append_left _ ((List.eraseIdx_sublist r.taken i).subset hentry))
      exact absurd hentry hnone

theorem recvDone_alone {r : IoUring} {log : List Event} (hrecv : RecvOk r log) (hlone : r.Lone) {i : Nat}
    {c : Idx} (hi : r.taken[i]? = some (.recv c)) (res : Except Errno Bytes) :
    (r.recvDone i res).1.alone place = (r.alone place).recvDone (res.mapError Subtype.val) := by
  obtain rfl : c = 0 := hlone.queued _ (List.mem_append_left _ (List.mem_of_getElem? hi))
  have hreceiving : (r.alone place).receiving = true := by
    apply List.any_eq_true.mpr
    exact ⟨_, List.mem_of_getElem? hi, rfl⟩
  have hrest := receiving_eraseIdx hrecv hlone hi
  have hsends : Uring.sends ((r.taken.eraseIdx i).map (Sqe.alone place)) = (r.alone place).taken := by
    obtain ⟨htaken, herase⟩ := split_of_getElem? hi
    show _ = Uring.sends (r.taken.map (Sqe.alone place))
    conv => rhs; rw [htaken]
    rw [herase, List.map_append, List.map_append, Uring.sends_append, Uring.sends_append]
    rfl
  unfold recvDone Uring.recvDone
  rw [hi, if_pos hreceiving]
  cases res with
  | ok data => simp [alone, complete, setConn, hrest, hsends, Cqe.alone, Except.mapError]
  | error errno => simp [alone, complete, hrest, hsends, Cqe.alone, Except.mapError]

/-! ## A step of a call -/

theorem told_reap (r : IoUring) : r.reap.2.filterMap (Event.told place) = [] := by
  refine List.filterMap_eq_nil_iff.mpr fun e he => ?_
  obtain ⟨key, rfl⟩ := reapAll_events r r.cq he
  rfl

theorem told_reclaim (r : IoUring) (c : Idx) :
    (r.reclaimSends c).2.filterMap (Event.told place) = [] := by
  obtain hnone | ⟨bufs, hone⟩ := reclaimSends_events r c
  · rw [hnone]
    rfl
  · rw [hone]
    rfl

theorem told_fails (e : IoError) (call : Call) :
    (Uring.returns e call.alone).filterMap UringEvent.told = (fails e call).filterMap (Event.told place) := by
  cases call with
  | submit c => rfl
  | pollRecv c cap => rfl
  | drive => rfl

theorem told_drops (entry : Sqe) :
    (Uring.drops (entry.alone place)).filterMap UringEvent.told =
      [Event.dropped entry].filterMap (Event.told place) := by
  cases entry with
  | send c buf bytes => rfl
  | recv c => rfl

section Advance

variable {r r' : IoUring} {enter : Except Errno Nat} {evs : List Event} {entry : Sqe} {loop : PushLoop}
  {call : Call}

/-- The caller of the ring with one connection takes the same step, and the logs tell the same. -/
def Follows (r r' : IoUring) (enter : Except Errno Nat) (evs : List Event) : Prop :=
  ∃ u uevs, (r.alone place).advance (enter.mapError Subtype.val) = .ok (u, uevs) ∧ r'.alone place = u ∧
    uevs.filterMap UringEvent.told = evs.filterMap (Event.told place)

theorem push_alone (r : IoUring) (entry : Sqe) (pc : Pc) :
    ({ r with sq := r.sq ++ [entry], pc } : IoUring).alone place =
      { r.alone place with sq := (r.alone place).sq ++ [entry.alone place], pc := pc.alone place } := by
  simp only [alone, List.map_append, List.map_cons, List.map_nil]

theorem advance_push_alone (hlone : r.Lone) (hpc : r.pc = .push entry loop call)
    (h : r.advance enter = .ok (r', evs)) : Follows place r r' enter evs := by
  have hpc' : (r.alone place).pc = .push (entry.alone place) loop call.alone := congrArg (Pc.alone place) hpc
  have hcall : call.conn = 0 := by
    have hc := hlone.call
    rwa [hpc] at hc
  have hlength : (r.alone place).sq.length = r.sq.length := List.length_map ..
  unfold Follows
  simp only [advance, hpc] at h
  simp only [Uring.advance, hpc', hlength]
  split at h
  next hroom =>
    rw [if_pos hroom]
    cases loop with
    | pushSqe =>
        cases h
        refine ⟨_, [], rfl, ?_, rfl⟩
        rw [afterPush_alone place _ hcall, push_alone]
        rfl
    | drainPending =>
        cases h
        exact ⟨_, [], rfl, push_alone place r entry (.drain call), rfl⟩
  next hroom =>
    cases h
    rw [if_neg hroom]
    exact ⟨_, [], rfl, rfl, rfl⟩

theorem flushSubmit_ok_alone {r₁ : IoUring} (h : r.flushSubmit enter = .ok r₁) :
    (r.alone place).flushSubmit (enter.mapError Subtype.val) = .ok (r₁.alone place) := by
  rw [flushSubmit_alone, h]
  rfl

theorem flushSubmit_error_alone {errno : Errno} (h : r.flushSubmit enter = .error errno) :
    (r.alone place).flushSubmit (enter.mapError Subtype.val) =
      .error (IoError.fromRawOsError errno.val) := by
  rw [flushSubmit_alone, h]
  rfl

theorem advance_full_alone (hlone : r.Lone) (hpc : r.pc = .full entry loop call)
    (h : r.advance enter = .ok (r', evs)) : Follows place r r' enter evs := by
  have hpc' : (r.alone place).pc = .full (entry.alone place) loop call.alone := congrArg (Pc.alone place) hpc
  unfold Follows
  simp only [advance, hpc] at h
  simp only [Uring.advance, hpc']
  split at h
  next r₁ hflush =>
    cases h
    rw [flushSubmit_ok_alone place hflush]
    refine ⟨_, [], rfl, ?_, (told_reap place r₁).symm⟩
    rw [← reap_alone place (hlone.flush (flushed_of_flushSubmit hflush)).completed]
    rfl
  next errno hflush =>
    cases h
    rw [flushSubmit_error_alone place hflush]
    refine ⟨_, _, rfl, rfl, ?_⟩
    rw [List.filterMap_append, told_drops, told_fails place, ← List.filterMap_append]
    rfl

theorem advance_drain_alone (hpc : r.pc = .drain call) (h : r.advance enter = .ok (r', evs)) :
    Follows place r r' enter evs := by
  have hpc' : (r.alone place).pc = .drain call.alone := congrArg (Pc.alone place) hpc
  unfold Follows
  simp only [advance, hpc] at h
  simp only [Uring.advance, hpc']
  cases hpending : r.pending with
  | nil =>
      rw [hpending] at h
      cases h
      rw [show (r.alone place).pending = [] from congrArg (List.map (Sqe.alone place)) hpending]
      exact ⟨_, [], rfl, rfl, rfl⟩
  | cons entry rest =>
      rw [hpending] at h
      cases h
      rw [show (r.alone place).pending = entry.alone place :: rest.map (Sqe.alone place) from
        congrArg (List.map (Sqe.alone place)) hpending]
      exact ⟨_, [], rfl, rfl, rfl⟩

theorem advance_flush_alone (hpc : r.pc = .flush call) (h : r.advance enter = .ok (r', evs)) :
    Follows place r r' enter evs := by
  have hpc' : (r.alone place).pc = .flush call.alone := congrArg (Pc.alone place) hpc
  unfold Follows
  simp only [advance, hpc] at h
  simp only [Uring.advance, hpc']
  split at h
  next r₁ hflush =>
    rw [flushSubmit_ok_alone place hflush]
    cases call with
    | submit c =>
        cases h
        exact ⟨_, [.submitReturned (.ok ())], rfl, rfl, rfl⟩
    | pollRecv c cap =>
        cases h
        exact ⟨_, [], rfl, rfl, rfl⟩
    | drive =>
        cases h
        exact ⟨_, [], rfl, rfl, rfl⟩
  next errno hflush =>
    cases h
    rw [flushSubmit_error_alone place hflush]
    exact ⟨_, _, rfl, rfl, told_fails place _ call⟩

theorem advance_reap_alone (hlone : r.Lone) (hpc : r.pc = .reap call)
    (h : r.advance enter = .ok (r', evs)) : Follows place r r' enter evs := by
  have hpc' : (r.alone place).pc = .reap call.alone := congrArg (Pc.alone place) hpc
  have hreap := reap_alone place hlone.completed
  unfold Follows
  simp only [advance, hpc] at h
  simp only [Uring.advance, hpc']
  cases call with
  | submit c | drive =>
      cases h
      refine ⟨_, [], rfl, ?_, ?_⟩
      · rw [← hreap]
        rfl
      · rw [List.filterMap_append, told_reap]
        rfl
  | pollRecv c cap =>
      obtain rfl : c = 0 := by
        have hc := hlone.call
        rwa [hpc] at hc
      obtain ⟨⟨r₂, res⟩, hresult, h⟩ := bind_eq_ok.mp h
      cases h
      refine ⟨_, [.pollReturned res], ?_, rfl, ?_⟩
      · have hpoll := pollResult_alone place hresult
        rw [reclaimSends_alone, hreap] at hpoll
        exact bind_eq_ok.mpr ⟨_, hpoll, rfl⟩
      · rw [List.filterMap_append, List.filterMap_append, told_reap, told_reclaim]
        rfl

/-- **A step of a call**, wherever the caller stands. -/
theorem advance_alone (hlone : r.Lone) (h : r.advance enter = .ok (r', evs)) :
    Follows place r r' enter evs := by
  cases hpc : r.pc with
  | idle =>
      have hpc' : (r.alone place).pc = .idle := congrArg (Pc.alone place) hpc
      simp only [advance, hpc] at h
      cases h
      refine ⟨_, [], ?_, rfl, rfl⟩
      rw [Uring.advance, hpc']
  | push entry loop call => exact advance_push_alone place hlone hpc h
  | full entry loop call => exact advance_full_alone place hlone hpc h
  | drain call => exact advance_drain_alone place hpc h
  | flush call => exact advance_flush_alone place hpc h
  | reap call => exact advance_reap_alone place hlone hpc h

end Advance

/-! ## Runs -/

/-- The event is of connection 0, and a buffer that is staged begins where the one before it ends. -/
def Sits : Event → Prop
  | .began op => op.conn = 0
  | .staged _ buf bytes => place (buf + 1) = place buf + bytes.length
  | _ => True

/-- The ring with one connection comes from what `r` is for it to what `r'` is, in some steps or in none, and
the logs tell the same. -/
def Answered (r r' : IoUring) (evs : List Event) : Prop :=
  ∃ actions uevs, Uring.machine.run (r.alone place) actions = .ok (r'.alone place, uevs) ∧
    uevs.filterMap UringEvent.told = evs.filterMap (Event.told place)

section Step

variable {r r' : IoUring} {evs : List Event}

/-- A step that the ring with one connection does not see. -/
theorem answered_of_same (hsame : r'.alone place = r.alone place)
    (hevs : evs.filterMap (Event.told place) = []) : Answered place r r' evs := by
  refine ⟨[], [], ?_, hevs.symm⟩
  rw [hsame]
  rfl

theorem answered_of_step (a : UringAction) (uevs : List UringEvent)
    (hstep : Uring.machine.step (r.alone place) a = .ok (r'.alone place, uevs))
    (htold : uevs.filterMap UringEvent.told = evs.filterMap (Event.told place)) :
    Answered place r r' evs :=
  ⟨[a], uevs, Machine.run_concat (Machine.run_nil _ _) hstep, htold⟩

/-- The beginning of a call. -/
theorem begin_alone (hpc : r.pc = .idle) {op : Op} (hop : op.conn = 0)
    (hplace : ∀ e ∈ (r.begin op).2, Sits place e) :
    Answered place r (r.begin op).1 (.began op :: (r.begin op).2) := by
  have hidle : (r.alone place).pc = .idle := congrArg (Pc.alone place) hpc
  cases op with
  | submit c kind bytes =>
      obtain rfl : c = 0 := hop
      have hnext : kind = .stream → place (r.staged + 1) = place r.staged + bytes.length := by
        rintro rfl
        apply hplace (.staged 0 r.staged bytes)
        simp only [begin, submit]
        split
        · exact List.mem_cons_self
        · exact List.mem_cons_self
      obtain ⟨hstate, htold⟩ := submit_alone place r kind bytes hnext
      refine answered_of_step place (.submit kind bytes) _ ?_ htold
      show Except.ok (if (r.alone place).pc = .idle then _ else _) = _
      rw [if_pos hidle]
      exact congrArg (fun u : Uring => Except.ok (u, ((r.alone place).submit kind bytes).2)) hstate.symm
  | pollRecv c cap =>
      obtain rfl : c = 0 := hop
      refine answered_of_step place (.pollRecv cap) [] ?_ rfl
      show Except.ok (if (r.alone place).pc = .idle then _ else _, []) = _
      rw [if_pos hidle, ← pollRecv_alone]
      rfl
  | drive =>
      refine answered_of_step place .drive [] ?_ rfl
      show Except.ok (if (r.alone place).pc = .idle then _ else _, []) = _
      rw [if_pos hidle]
      exact congrArg (fun u : Uring => Except.ok (u, [])) (driveInner_alone place r .drive).symm

/-- **One step.** -/
theorem step_alone {log : List Event} {a : Action} (hrecv : RecvOk r log) (hlone : r.Lone)
    (horder : r.OldestFirst a) (hsits : ∀ e ∈ evs, Sits place e) (h : r.step a = .ok (r', evs)) :
    Answered place r r' evs := by
  cases a with
  | connect =>
      cases h
      refine answered_of_same place ?_ rfl
      split <;> rfl
  | call op =>
      simp only [step] at h
      split at h
      next hok =>
        cases h
        exact begin_alone place hok.1 (hsits _ List.mem_cons_self)
          fun e he => hsits e (List.mem_cons_of_mem _ he)
      next =>
        cases h
        exact answered_of_same place rfl rfl
  | caller enter =>
      obtain ⟨u, uevs, hstep, rfl, htold⟩ := advance_alone place hlone h
      exact answered_of_step place (.caller (enter.mapError Subtype.val)) uevs hstep htold
  | take =>
      cases h
      split
      next hon =>
        obtain ⟨hsqpoll, -⟩ := Bool.and_eq_true_iff.mp hon
        refine answered_of_step place .take [] ?_ rfl
        show Except.ok (if (r.alone place).sqpoll = true then _ else _, []) = _
        rw [if_pos (show (r.alone place).sqpoll = true from hsqpoll), ← takeOne_alone]
      next => exact answered_of_same place rfl rfl
  | sleep =>
      simp only [step] at h
      split at h
      · cases h
        exact answered_of_same place rfl rfl
      · cases h
        exact answered_of_same place rfl rfl
  | sendDone i result =>
      cases hi : r.taken[i]? with
      | none =>
          simp only [step, sendDone, hi] at h
          cases h
          exact answered_of_same place rfl rfl
      | some entry =>
          simp only [step, sendDone, hi] at h
          cases entry with
          | recv c =>
              cases h
              exact answered_of_same place rfl rfl
          | send c buf bytes =>
              cases h
              exact answered_of_step place (.sendDone result) _
                (congrArg Except.ok (sent_alone place hi horder result)) rfl
  | recvDone i res =>
      have hstate : r.recvDone i res = (r', evs) := Except.ok.inj h
      cases hi : r.taken[i]? with
      | none =>
          simp only [recvDone, hi] at hstate
          cases hstate
          exact answered_of_same place rfl rfl
      | some entry =>
          cases entry with
          | send c buf bytes =>
              simp only [recvDone, hi] at hstate
              cases hstate
              exact answered_of_same place rfl rfl
          | recv c =>
              have hdone := recvDone_alone place hrecv hlone hi res
              have htold : (r.recvDone i res).2.filterMap (Event.told place) = [] := by
                unfold recvDone
                rw [hi]
                cases res with
                | ok data => rfl
                | error errno => rfl
              rw [hstate] at hdone htold
              refine answered_of_step place (.recvDone (res.mapError Subtype.val)) [] ?_ htold.symm
              exact congrArg (fun u : Uring => Except.ok (u, [])) hdone.symm

end Step

end Alone

/-! ## Places -/

def Sqe.size : Sqe → Nat
  | .send _ _ bytes => bytes.length
  | .recv _ => 0

/-- Where the buffer with this number begins in all that was submitted. -/
def placeIn (log : List Event) (buf : Nat) : Nat := (((stagedSends log).take buf).map Sqe.size).sum

/-- Buffers are numbered in the order in which they are staged. -/
theorem stagedSends_getElem? {r : IoUring} {log : List Event} (h : SendOk r log) {c : Idx} {buf : Nat}
    {bytes : Bytes} (hmem : .staged c buf bytes ∈ log) :
    (stagedSends log)[buf]? = some (.send c buf bytes) := by
  have hsend : .send c buf bytes ∈ stagedSends log := List.mem_filterMap.mpr ⟨_, hmem, rfl⟩
  obtain ⟨j, hj⟩ := List.getElem?_of_mem hsend
  suffices hbuf : buf = j by
    rw [hbuf] at hj ⊢
    exact hj
  have hall : ∀ entry ∈ (stagedSends log).take j, (Sqe.key entry).isSome = true := by
    intro entry hentry
    obtain ⟨e, -, he⟩ := List.mem_filterMap.mp (List.mem_of_mem_take hentry)
    cases e with
    | staged c buf bytes =>
        cases he
        rfl
    | _ => cases he
  have hlength : (keys ((stagedSends log).take j)).length = j := by
    rw [keys, List.filterMap_length_eq_length.mpr hall, List.length_take]
    have hlt := (List.getElem?_eq_some_iff.mp hj).1
    omega
  -- the number at this place of the list is the place
  have hnumbers := h.numbers
  rw [(split_of_getElem? hj).1, keys_append, List.map_append] at hnumbers
  have hat : (List.range r.staged)[j]? = some buf := by
    rw [← hnumbers, List.getElem?_append_right (Nat.le_of_eq ((List.length_map _).trans hlength)),
      List.length_map, hlength, Nat.sub_self]
    rfl
  obtain ⟨hlt, heq⟩ := List.getElem?_eq_some_iff.mp hat
  rw [List.getElem_range] at heq
  exact heq.symm

theorem placeIn_succ {r : IoUring} {log : List Event} (h : SendOk r log) {c : Idx} {buf : Nat}
    {bytes : Bytes} (hmem : .staged c buf bytes ∈ log) :
    placeIn log (buf + 1) = placeIn log buf + bytes.length := by
  unfold placeIn
  rw [List.take_add_one, stagedSends_getElem? h hmem, List.map_append, List.sum_append]
  rfl

/-- **A ring with one connection.** In either mode, with submissions that fail and a polling thread that
sleeps: a run of the shared ring in which every call is on connection 0 and the kernel executes the sends
in the order it has taken them is a run of `Uring`, from its start, that ends in the state that connection
0 sees and tells the same. -/
theorem alone_run {mode : IoUringMode} {sqpoll : Bool} {actions : List Action} {s : IoUring}
    {log : List Event} (hone : ∀ op, .began op ∈ log → op.conn = 0)
    (horder : machine.Meets OldestFirst (start mode sqpoll) actions)
    (hrun : machine.run (start mode sqpoll) actions = .ok (s, log)) :
    ∃ uactions ulog, Uring.machine.run (Uring.start mode sqpoll) uactions =
        .ok (s.alone (placeIn log), ulog) ∧
      ulog.filterMap UringEvent.told = log.filterMap (Event.told (placeIn log)) := by
  have hsent : SendOk s log := sendOk_run hrun
  have hsits : ∀ e ∈ log, Sits (placeIn log) e := by
    intro e he
    cases e with
    | began op => exact hone op he
    | staged c buf bytes => exact placeIn_succ hsent he
    | _ => trivial
  obtain ⟨uactions, u, ulog, hurun, ⟨rfl, -, -⟩, htold⟩ := machine.run_simulates Uring.machine
    (fun r past u => u = r.alone (placeIn log) ∧ RecvOk r past ∧ r.Lone) OldestFirst (Sits (placeIn log))
    (Event.told (placeIn log)) UringEvent.told
    (by
      rintro r past u a r' evs ⟨rfl, hrecv, hlone⟩ hfirst hevs hstep
      obtain ⟨js, uevs, hjs, htold⟩ := step_alone (placeIn log) hrecv hlone hfirst hevs hstep
      have hturn := step_turn hstep
      refine ⟨js, _, uevs, hjs, ⟨rfl, hrecv.turn hturn, ?_⟩, htold⟩
      exact hlone.turn (fun op hop => hevs _ hop) hturn)
    ⟨rfl, recvOk_start mode sqpoll, lone_start mode sqpoll⟩ horder hsits hrun
  exact ⟨uactions, ulog, hurun, htold⟩

/-- In such a run, the kernel reads the buffer of a send while it is staged. -/
theorem alone_staged {mode : IoUringMode} {sqpoll : Bool} {actions : List Action} {s : IoUring}
    {log : List Event} (hone : ∀ op, .began op ∈ log → op.conn = 0)
    (horder : machine.Meets OldestFirst (start mode sqpoll) actions)
    (hrun : machine.run (start mode sqpoll) actions = .ok (s, log)) {c : Idx} {buf : Nat} {bytes : Bytes}
    (hsend : .send c buf bytes ∈ s.taken ++ s.sq) :
    bytes ∈ (s.conns 0).sendInFlight.map Prod.snd := by
  obtain ⟨uactions, ulog, hurun, -⟩ := alone_run hone horder hrun
  have hlive : (placeIn log buf, bytes) ∈ (s.alone (placeIn log)).live := by
    apply List.mem_append_left
    show _ ∈ Uring.sends (s.taken.map _) ++ Uring.sends (s.sq.map _)
    rw [← Uring.sends_append, ← List.map_append]
    exact List.mem_filterMap.mpr ⟨_, List.mem_map_of_mem hsend, rfl⟩
  exact Uring.run_staged hurun _ hlive

end IoUring

end TxSender.Backend
