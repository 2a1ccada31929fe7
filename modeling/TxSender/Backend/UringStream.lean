/-
# TxSender.Backend.UringStream — what the kernel accepts, against what was submitted.

`RawLibc::submit` goes on until the kernel has accepted every byte or it has an error to return. On
the ring nobody looks at the result of a send: what a send leaves out is never sent again and never
reported, nor is an entry that a failing `drive` drops. The stream stays whole up to the first error
that a call returns exactly as long as no send accepts bytes behind such a gap (`uring_stream_iff`).
-/
import Mathlib.Data.List.Induction
import TxSender.Backend.IoUring
import TxSender.Lib.Trace

namespace TxSender.Backend

open TxSender.Lib
open scoped List

/-! ## Reading the log -/

/-- All that was submitted. -/
def submittedBytes (log : List UringEvent) : Bytes :=
  log.flatMap fun e => match e with
    | .submitted bytes => bytes
    | _ => []

/-- All that the kernel accepted. -/
def wireBytes (log : List UringEvent) : Bytes :=
  log.flatMap fun e => match e with
    | .sent _ bytes n => bytes.take n
    | _ => []

/-- A call returned an error. -/
def reportsError : UringEvent → Bool
  | .submitReturned (.error _) | .pollReturned (.error _) => true
  | _ => false

def reported (log : List UringEvent) : Bool := log.any reportsError

/-- How many bytes in front of `off` one event has left out: the rest of a send that was cut short or
failed, or a dropped buffer. -/
def leavesOut (off : Nat) : UringEvent → Nat
  | .sent o bytes n => if o < off then bytes.length - n else 0
  | .dropped o bytes => if o < off then bytes.length else 0
  | _ => 0

def leftOut (off : Nat) (log : List UringEvent) : Nat := (log.map (leavesOut off)).sum

/-- When bytes of a buffer are accepted, the wire carries all that was submitted before it and nothing
else, unless an error was reported before. -/
def InStream (past : List UringEvent) : UringEvent → Prop
  | .sent off bytes n =>
      0 < n → reported past = false →
        wireBytes past = (submittedBytes past).take off ∧ bytes <+: (submittedBytes past).drop off
  | _ => True

section Reading

variable (log log' : List UringEvent)

@[simp] theorem submittedBytes_append :
    submittedBytes (log ++ log') = submittedBytes log ++ submittedBytes log' := List.flatMap_append

@[simp] theorem wireBytes_append :
    wireBytes (log ++ log') = wireBytes log ++ wireBytes log' := List.flatMap_append

@[simp] theorem reported_append : reported (log ++ log') = (reported log || reported log') :=
  List.any_append

@[simp] theorem leftOut_append (off : Nat) :
    leftOut off (log ++ log') = leftOut off log + leftOut off log' := by
  simp [leftOut]

@[simp] theorem leftOut_sent (off o n : Nat) (bytes : Bytes) :
    leftOut off [.sent o bytes n] = if o < off then bytes.length - n else 0 := by
  simp [leftOut, leavesOut]

@[simp] theorem leftOut_dropped (off o : Nat) (bytes : Bytes) :
    leftOut off [.dropped o bytes] = if o < off then bytes.length else 0 := by
  simp [leftOut, leavesOut]

@[simp] theorem wireBytes_sent (off n : Nat) (bytes : Bytes) :
    wireBytes [.sent off bytes n] = bytes.take n := by
  simp [wireBytes]

end Reading

/-- Events that tell what a call returned say nothing about the stream. -/
theorem plain_log {evs : List UringEvent} (h : ∀ e ∈ evs, Uring.plain e = true) (off : Nat)
    (past : List UringEvent) :
    submittedBytes evs = [] ∧ wireBytes evs = [] ∧ leftOut off evs = 0 ∧ Along InStream past evs := by
  induction evs generalizing past with
  | nil => exact ⟨rfl, rfl, rfl, trivial⟩
  | cons e evs ih =>
      obtain ⟨hsub, hwire, hleft, halong⟩ :=
        ih (fun e he => h e (List.mem_cons_of_mem _ he)) (past ++ [e])
      have hplain := h e (List.mem_cons_self ..)
      cases e with
      | submitReturned r => exact ⟨hsub, hwire, (Nat.zero_add _).trans hleft, trivial, halong⟩
      | pollReturned r => exact ⟨hsub, hwire, (Nat.zero_add _).trans hleft, trivial, halong⟩
      | _ => cases hplain

/-- **Nothing skipped, byte for byte.** As long as no error is reported, a stream kept in this way is a
beginning of what was submitted. -/
theorem wireBytes_prefix {log : List UringEvent} (h : Along InStream [] log)
    (hno : reported log = false) : wireBytes log <+: submittedBytes log := by
  induction log using List.reverseRecOn with
  | nil => exact List.nil_prefix
  | append_singleton log e ih =>
      obtain ⟨hlog, hlast, -⟩ := along_append.mp h
      rw [reported_append, Bool.or_eq_false_iff] at hno
      rw [List.nil_append] at hlast
      have hpre := ih hlog hno.1
      rw [wireBytes_append, submittedBytes_append]
      cases e with
      | sent off bytes n =>
          rcases Nat.eq_zero_or_pos n with rfl | hpos
          · simpa [wireBytes, submittedBytes] using hpre
          · obtain ⟨hwire, rest, hrest⟩ := hlast hpos hno.1
            -- the accepted part continues the stream where it stood
            refine ⟨bytes.drop n ++ rest, ?_⟩
            calc wireBytes log ++ wireBytes [.sent off bytes n] ++ (bytes.drop n ++ rest)
                = (submittedBytes log).take off ++ (bytes.take n ++ bytes.drop n ++ rest) := by
                  rw [wireBytes_sent, hwire]
                  simp only [List.append_assoc]
              _ = submittedBytes log := by
                  rw [List.take_append_drop, hrest]
                  exact List.take_append_drop off _
              _ = submittedBytes log ++ submittedBytes [.sent off bytes n] :=
                  (List.append_nil _).symm
      | submitted bytes =>
          rw [show wireBytes [.submitted bytes] = [] from rfl, List.append_nil]
          exact hpre.trans (List.prefix_append _ _)
      | dropped off bytes => simpa [wireBytes, submittedBytes] using hpre
      | submitReturned r => simpa [wireBytes, submittedBytes] using hpre
      | pollReturned r => simpa [wireBytes, submittedBytes] using hpre

/-! ## Where the sends on their way belong -/

/-- The sends lie in order in what was submitted. In front of each lie exactly the bytes accepted so far,
the sends before it, and the bytes left out; and so at the end of all that was submitted, `total`. -/
def Placed (log : List UringEvent) (total : Nat) : Nat → List (Nat × Bytes) → Prop
  | front, [] => front + leftOut total log = total
  | front, (off, bytes) :: rest =>
      front + leftOut off log = off ∧ bytes <+: (submittedBytes log).drop off ∧
        (∀ send ∈ rest, off + bytes.length ≤ send.1) ∧ off + bytes.length ≤ total ∧
        Placed log total (front + bytes.length) rest

/-- `k` bytes more are left out in front of all these sends. -/
theorem Placed.leave {log evs : List UringEvent} {total front k : Nat} {l : List (Nat × Bytes)}
    (h : Placed log total (front + k) l) (hsub : submittedBytes evs = [])
    (hleft : ∀ off, off = total ∨ (∃ bytes, (off, bytes) ∈ l) → leftOut off evs = k) :
    Placed (log ++ evs) total front l := by
  induction l generalizing front with
  | nil =>
      show front + leftOut total (log ++ evs) = total
      have hend : front + k + leftOut total log = total := h
      rw [leftOut_append, hleft total (.inl rfl)]
      omega
  | cons send l ih =>
      obtain ⟨off, bytes⟩ := send
      obtain ⟨hfront, hbytes, horder, htotal, hrest⟩ := h
      refine ⟨?_, ?_, horder, htotal, ?_⟩
      · rw [leftOut_append, hleft off (.inr ⟨bytes, List.mem_cons_self ..⟩)]
        omega
      · rw [submittedBytes_append, hsub, List.append_nil]
        exact hbytes
      · rw [Nat.add_right_comm] at hrest
        refine ih hrest fun o ho => hleft o (ho.imp_right ?_)
        rintro ⟨b, hb⟩
        exact ⟨b, List.mem_cons_of_mem _ hb⟩

/-- The oldest send is executed. -/
theorem Placed.sent {log : List UringEvent} {total front off n : Nat} {bytes : Bytes}
    {rest : List (Nat × Bytes)} (h : Placed log total front ((off, bytes) :: rest))
    (hn : n ≤ bytes.length) : Placed (log ++ [.sent off bytes n]) total (front + n) rest := by
  obtain ⟨-, -, horder, htotal, hrest⟩ := h
  have hlen : front + bytes.length = front + n + (bytes.length - n) := by omega
  rw [hlen] at hrest
  refine hrest.leave rfl fun o ho => ?_
  have hge : off + bytes.length ≤ o := by
    rcases ho with rfl | ⟨b, hb⟩
    · exact htotal
    · exact horder _ hb
  rw [leftOut_sent]
  split
  · rfl
  · omega

/-- A send in the middle is dropped. -/
theorem Placed.dropped {log : List UringEvent} {total front off : Nat} {bytes : Bytes}
    {before behind : List (Nat × Bytes)}
    (h : Placed log total front (before ++ (off, bytes) :: behind)) :
    Placed (log ++ [.dropped off bytes]) total front (before ++ behind) := by
  induction before generalizing front with
  | nil =>
      obtain ⟨-, -, horder, htotal, hrest⟩ := h
      refine hrest.leave rfl fun o ho => ?_
      have hge : off + bytes.length ≤ o := by
        rcases ho with rfl | ⟨b, hb⟩
        · exact htotal
        · exact horder _ hb
      rw [leftOut_dropped]
      split
      · rfl
      · omega
  | cons send before ih =>
      obtain ⟨o, b⟩ := send
      obtain ⟨hfront, hbytes, horder, htotal, hrest⟩ := h
      have hbefore : o + b.length ≤ off := horder (off, bytes) (by simp)
      refine ⟨?_, ?_, fun send hsend => horder send ?_, htotal, ih hrest⟩
      · -- the gap lies behind this send
        rw [leftOut_append, leftOut_dropped, if_neg (show ¬ off < o by omega)]
        exact hfront
      · rw [submittedBytes_append]
        simpa [submittedBytes] using hbytes
      · rcases List.mem_append.mp hsend with hs | hs
        · exact List.mem_append_left _ hs
        · exact List.mem_append_right _ (List.mem_cons_of_mem _ hs)

theorem Placed.bound {log : List UringEvent} {total front : Nat} {l : List (Nat × Bytes)}
    (h : Placed log total front l) : ∀ send ∈ l, send.1 + send.2.length ≤ total := by
  induction l generalizing front with
  | nil => simp
  | cons send l ih =>
      obtain ⟨-, -, -, htotal, hrest⟩ := h
      exact List.forall_mem_cons.mpr ⟨htotal, ih hrest⟩

/-- A buffer is submitted: its send comes last. -/
theorem Placed.submitted {log : List UringEvent} {total front : Nat} {l : List (Nat × Bytes)}
    (h : Placed log total front l) (htotal : total = (submittedBytes log).length)
    (hbound : ∀ off, total ≤ off → leftOut off log = leftOut total log) (bytes : Bytes) :
    Placed (log ++ [.submitted bytes]) (total + bytes.length) front (l ++ [(total, bytes)]) := by
  have hleft : ∀ off, leftOut off (log ++ [.submitted bytes]) = leftOut off log := by
    intro off
    rw [leftOut_append]
    rfl
  have hsub : submittedBytes (log ++ [.submitted bytes]) = submittedBytes log ++ bytes := by
    simp [submittedBytes]
  induction l generalizing front with
  | nil =>
      have hend : front + leftOut total log = total := h
      refine ⟨?_, ?_, by simp, Nat.le_refl _, ?_⟩
      · rw [hleft]
        exact hend
      · refine ⟨[], ?_⟩
        rw [List.append_nil, hsub, htotal, List.drop_left]
      · show front + bytes.length + leftOut (total + bytes.length) _ = total + bytes.length
        rw [hleft, hbound _ (Nat.le_add_right ..)]
        omega
  | cons send l ih =>
      obtain ⟨off, b⟩ := send
      obtain ⟨hfront, hbytes, horder, hle, hrest⟩ := h
      refine ⟨?_, ?_, ?_, by omega, ih hrest⟩
      · rw [hleft]
        exact hfront
      · rw [hsub, List.drop_append_of_le_length (by omega)]
        exact hbytes.trans (List.prefix_append _ _)
      · intro send hsend
        rcases List.mem_append.mp hsend with hs | hs
        · exact horder send hs
        · rw [List.mem_singleton.mp hs]
          exact hle

/-- The books of the connection. -/
structure Uring.Booked (u : Uring) (log : List UringEvent) : Prop where
  batched : u.Batched
  offset : u.offset = (submittedBytes log).length
  bound : ∀ off, u.offset ≤ off → leftOut off log = leftOut u.offset log
  placed : Placed log u.offset (wireBytes log).length u.live

namespace Uring

theorem booked_start (mode : IoUringMode) (sqpoll : Bool) : (start mode sqpoll).Booked [] :=
  ⟨fun _ => rfl, rfl, fun _ _ => rfl, rfl⟩

theorem accepted_le (bytes : Bytes) (result : Int) : accepted bytes result ≤ bytes.length :=
  Nat.le_trans (Nat.min_le_right ..) (Nat.mod_le ..)

/-- What a call returns does not count. -/
theorem Booked.plain {u : Uring} {log evs : List UringEvent} (hb : u.Booked log)
    (hevs : ∀ e ∈ evs, Uring.plain e = true) : u.Booked (log ++ evs) := by
  have hsub := (plain_log hevs 0 []).1
  have hwire := (plain_log hevs 0 []).2.1
  have hleft := fun off => (plain_log hevs off []).2.2.1
  refine ⟨hb.batched, ?_, fun off hoff => ?_, ?_⟩
  · rw [submittedBytes_append, hsub, List.append_nil]
    exact hb.offset
  · rw [leftOut_append, leftOut_append, hleft, hleft, hb.bound off hoff]
  · rw [wireBytes_append, hwire, List.append_nil]
    exact hb.placed.leave hsub fun off _ => hleft off

theorem Booked.of_same {u u' : Uring} {log : List UringEvent} (hb : u.Booked log)
    (hbatch : u'.Batched) (hlive : u'.live = u.live) (hoffset : u'.offset = u.offset) :
    u'.Booked log := by
  refine ⟨hbatch, ?_, ?_, ?_⟩
  · rw [hoffset]
    exact hb.offset
  · rw [hoffset]
    exact hb.bound
  · rw [hlive, hoffset]
    exact hb.placed

theorem booked_step {u u' : Uring} {a : UringAction} {log evs : List UringEvent}
    (hb : u.Booked log) (h : u.step a = .ok (u', evs)) : u'.Booked (log ++ evs) := by
  obtain ⟨hmoves, hbatch⟩ := step_moves hb.batched h
  cases hmoves with
  | quiet hevs hlive hoffset => exact (hb.of_same hbatch hlive hoffset).plain hevs
  | submitted bytes hevs hlive hoffset =>
      have hone : u'.Booked (log ++ [.submitted bytes]) := by
        refine ⟨hbatch, ?_, fun off hoff => ?_, ?_⟩
        · rw [hoffset, hb.offset, submittedBytes_append, List.length_append]
          simp [submittedBytes]
        · rw [hoffset] at hoff ⊢
          rw [leftOut_append, leftOut_append, hb.bound off (by omega),
            hb.bound _ (Nat.le_add_right ..)]
          rfl
        · rw [hlive, hoffset, wireBytes_append]
          simpa [wireBytes] using hb.placed.submitted hb.offset hb.bound bytes
      rw [List.append_cons]
      exact hone.plain hevs
  | sent off bytes result rest _ _ hlive hoffset =>
      -- the oldest send leaves the front of `live`; what it did not accept is a gap from now on
      have hplaced := hb.placed
      rw [hlive] at hplaced
      have hle : off + bytes.length ≤ u.offset := hplaced.2.2.2.1
      refine ⟨hbatch, ?_, fun o ho => ?_, ?_⟩
      · rw [hoffset, hb.offset, submittedBytes_append]
        simp [submittedBytes]
      · rw [hoffset] at ho ⊢
        rw [leftOut_append, leftOut_append, hb.bound o ho, leftOut_sent, leftOut_sent]
        split <;> split <;> omega
      · rw [hoffset, wireBytes_append, List.length_append, wireBytes_sent,
          List.length_take_of_le (accepted_le bytes result)]
        exact hplaced.sent (accepted_le bytes result)
  | dropped off bytes before behind hevs hlive hlive' hoffset =>
      have hplaced := hb.placed
      rw [hlive] at hplaced
      have hle : off + bytes.length ≤ u.offset := hplaced.bound (off, bytes) (by simp)
      have hone : u'.Booked (log ++ [.dropped off bytes]) := by
        refine ⟨hbatch, ?_, fun o ho => ?_, ?_⟩
        · rw [hoffset, hb.offset, submittedBytes_append]
          simp [submittedBytes]
        · rw [hoffset] at ho ⊢
          rw [leftOut_append, leftOut_append, hb.bound o ho, leftOut_dropped, leftOut_dropped]
          split <;> split <;> omega
        · rw [hoffset, hlive', wireBytes_append]
          simpa [wireBytes] using hplaced.dropped
      rw [List.append_cons]
      exact hone.plain hevs

/-! ## Gaps -/

/-- A send that accepts bytes accepts them when nothing in front of its buffer was left out, unless an
error was reported before. -/
def Whole (u : Uring) (log : List UringEvent) : UringAction → Prop
  | .sendDone result =>
      match u.taken with
      | (off, bytes) :: _ =>
          0 < accepted bytes result → reported log = false → leftOut off log = 0
      | [] => True
  | _ => True

theorem whole_of_not_sent {u : Uring} {log : List UringEvent} {a : UringAction}
    (h : ∀ r, a = .sendDone r → u.taken = []) : u.Whole log a := by
  cases a with
  | sendDone r =>
      unfold Whole
      rw [h r rfl]
      trivial
  | _ => trivial

/-- The next bytes are in the stream exactly when nothing is missing in front of them. -/
theorem inStream_sent {u : Uring} {log : List UringEvent} {off n : Nat} {bytes : Bytes}
    {rest : List (Nat × Bytes)} (hb : u.Booked log) (hlog : Along InStream [] log)
    (hlive : u.live = (off, bytes) :: rest) :
    InStream log (.sent off bytes n) ↔ (0 < n → reported log = false → leftOut off log = 0) := by
  have hplaced := hb.placed
  rw [hlive] at hplaced
  obtain ⟨hfront, hbytes, -, hle, -⟩ := hplaced
  rw [hb.offset] at hle
  show (0 < n → reported log = false → _) ↔ _
  refine forall_congr' fun _ => forall_congr' fun hno => ?_
  constructor
  · rintro ⟨hwire, -⟩
    rw [hwire, List.length_take_of_le (by omega)] at hfront
    omega
  · intro hleft
    refine ⟨?_, hbytes⟩
    -- no error so far, so the wire is a beginning of what was submitted, and it ends at `off`
    have hpre := wireBytes_prefix hlog hno
    have hlen : (wireBytes log).length = off := by omega
    rw [← hlen]
    exact List.prefix_iff_eq_take.mp hpre

/-- **One step.** -/
theorem inStream_step {u u' : Uring} {a : UringAction} {log evs : List UringEvent}
    (hb : u.Booked log) (hlog : Along InStream [] log) (h : u.step a = .ok (u', evs)) :
    Along InStream [] (log ++ evs) ↔ u.Whole log a := by
  rw [along_append, List.nil_append]
  obtain ⟨hmoves, -⟩ := step_moves hb.batched h
  cases hmoves with
  | quiet hevs _ _ _ _ _ hkernel =>
      exact iff_of_true ⟨hlog, (plain_log hevs 0 log).2.2.2⟩ (whole_of_not_sent hkernel)
  | submitted bytes hevs _ _ _ _ hkernel =>
      exact iff_of_true ⟨hlog, trivial, (plain_log hevs 0 _).2.2.2⟩
        (whole_of_not_sent fun r hr => absurd hr (hkernel r))
  | dropped off bytes before behind hevs _ _ _ _ _ hkernel =>
      exact iff_of_true ⟨hlog, trivial, (plain_log hevs 0 _).2.2.2⟩
        (whole_of_not_sent fun r hr => absurd hr (hkernel r))
  | sent off bytes result rest haction htaken hlive _ _ _ =>
      have hiff := inStream_sent (n := accepted bytes result) hb hlog hlive
      subst haction
      unfold Whole
      rw [htaken]
      exact ⟨fun ⟨_, hsent, _⟩ => hiff.mp hsent, fun hwhole => ⟨hlog, hiff.mpr hwhole, trivial⟩⟩

end Uring

/-- **The stream on a ring.** In either mode and whatever the kernel answers, the bytes it accepts
continue what was submitted without a gap, up to the first error that a call reports, if and only if no
send accepts bytes behind a gap left by a send that was cut short or failed, or by a dropped entry. -/
theorem uring_stream_iff (mode : IoUringMode) (sqpoll : Bool) (actions : List UringAction) :
    Uring.machine.Always
        (fun _ log => Along InStream [] log ∧
          (reported log = false → wireBytes log <+: submittedBytes log))
        (Uring.start mode sqpoll) [] actions ↔
      Uring.machine.Guarded (fun u log a => u.Whole log a) (Uring.start mode sqpoll) [] actions := by
  apply Machine.always_iff_guarded _ (fun u log => u.Booked log) _ _ _
    (Uring.booked_start mode sqpoll) ⟨trivial, fun _ => List.prefix_rfl⟩
  rintro u log a u' evs hb ⟨hlog, -⟩ hstep
  have hiff := Uring.inStream_step hb hlog hstep
  refine ⟨Uring.booked_step hb hstep, fun h => hiff.mp h.1, fun hwhole => ?_⟩
  have hlog' := hiff.mpr hwhole
  exact ⟨hlog', wireBytes_prefix hlog'⟩

/-- A buffer is submitted on a streaming ring, and the kernel accepts `n` bytes of it. -/
def submitAndSend (bytes : Bytes) (n : Int) : List UringAction :=
  [.submit .stream bytes, .caller (.ok 0), .caller (.ok 1), .sendDone n]

/-- Of `ab` the kernel accepts one byte, of `cd` both: the wire carries `acd`, and no call returned an
error. -/
theorem short_send_skips :
    (Uring.machine.run (Uring.start .sqeStream false)
        (submitAndSend [97, 98] 1 ++ submitAndSend [99, 100] 2)).toOption.map
      (fun out => (submittedBytes out.2, wireBytes out.2, reported out.2)) =
        some ([97, 98, 99, 100], [97, 99, 100], false) ∧
      ¬ ([97, 99, 100] : Bytes) <+: [97, 98, 99, 100] := by
  decide +kernel

end TxSender.Backend
