/-
# TxSender.Backend.RingRecv — the receives of the connections on a ring.

`recv_in_flight` of a connection stands for exactly one receive: an entry in the submission queue or
with the kernel, a completion in the completion queue, or a result in `completed_recvs`. That is why
no result is overwritten, and why the connection's buffer still holds what a receive put there when
`poll_recv` copies it out.
-/
import TxSender.Backend.SharedRing

namespace TxSender.Backend

open TxSender.Lib

namespace IoUring

/-! ## Receives on their way -/

/-- The results of the receives of `c` in the completion queue. -/
def resultsIn (c : Idx) (cq : List Cqe) : List Int :=
  cq.filterMap fun q => if q.entry = .recv c then some q.result else none

/-- The results of `c` that no `poll_recv` has consumed. -/
def unconsumed (r : IoUring) (c : Idx) : List Int :=
  (r.completedRecvs (ud c opRecv)).toList ++ resultsIn c r.cq

/-- The receives of `c` that are queued, in the kernel or unconsumed. -/
def receives (r : IoUring) (c : Idx) : Nat :=
  (r.taken ++ r.sq).count (.recv c) + (r.unconsumed c).length

/-- Which entry a loop pushes for which call; a receive is pushed only for a connection that has none
in flight. -/
def Fits (conns : Idx → UringConn) : Sqe → PushLoop → Call → Prop
  | .send _ _ _, .pushSqe, .submit _ => True
  | .recv c, .pushSqe, .pollRecv d _ => c = d ∧ (conns c).recvInFlight = false
  | .send _ _ _, .drainPending, _ => True
  | _, _, _ => False

def PcFits (r : IoUring) : Prop :=
  match r.pc with
  | .push entry loop call | .full entry loop call => Fits r.conns entry loop call
  | _ => True

theorem Fits.of_flags {conns conns' : Idx → UringConn}
    (h : ∀ c, (conns' c).recvInFlight = (conns c).recvInFlight) {entry : Sqe} {loop : PushLoop}
    {call : Call} (hfits : Fits conns entry loop call) : Fits conns' entry loop call := by
  cases entry with
  | send => cases loop <;> cases call <;> exact hfits
  | recv c =>
      cases loop with
      | drainPending => exact hfits
      | pushSqe =>
          cases call with
          | pollRecv d cap => exact ⟨hfits.1, (h c).trans hfits.2⟩
          | submit | drive => exact hfits

theorem PcFits.of_flags {r r' : IoUring} (hpc : r'.pc = r.pc)
    (h : ∀ c, (r'.conns c).recvInFlight = (r.conns c).recvInFlight) (hfits : r.PcFits) :
    r'.PcFits := by
  unfold PcFits at hfits ⊢
  rw [hpc]
  split
  next entry loop call heq =>
    rw [heq] at hfits
    exact hfits.of_flags h
  next entry loop call heq =>
    rw [heq] at hfits
    exact hfits.of_flags h
  next => trivial

/-- Only `push` and `full` hold an entry. -/
theorem pcFits_of_ne {r : IoUring}
    (h : ∀ entry loop call, r.pc ≠ .push entry loop call ∧ r.pc ≠ .full entry loop call) :
    r.PcFits := by
  unfold PcFits
  split
  next entry loop call heq => exact absurd heq (h entry loop call).1
  next entry loop call heq => exact absurd heq (h entry loop call).2
  next => trivial

def Sqe.isSend : Sqe → Bool
  | .send _ _ _ => true
  | .recv _ => false

theorem resultsIn_append (c : Idx) (l l' : List Cqe) :
    resultsIn c (l ++ l') = resultsIn c l ++ resultsIn c l' := List.filterMap_append

/-! ## What calls return, and what the kernel returned -/

/-- What `poll_recv` makes of a result, with a buffer that is large enough. -/
def report (rxBuf : Bytes) (result : Int) : Except IoError Bytes :=
  if result < 0 then .error (IoError.fromRawOsError (-result)) else .ok (rxBuf.take result.toNat)

def ioResult : Except Errno Bytes → Except IoError Bytes
  | .ok data => .ok data
  | .error errno => .error (IoError.fromRawOsError errno.val)

theorem report_ok (data rest : Bytes) : report (data ++ rest) data.length = ioResult (.ok data) := by
  rw [report, if_neg (by omega), Int.toNat_natCast, List.take_left]
  rfl

theorem report_error (errno : Errno) (rxBuf : Bytes) :
    report rxBuf (-errno.val) = ioResult (.error errno) := by
  have hpos := errno.property
  rw [report, if_pos (by omega), Int.neg_neg]
  rfl

def receivedBy (c : Idx) : Event → Option (Except Errno Bytes)
  | .received d res => if d = c then some res else none
  | _ => none

/-- What the receives of `c` completed with, in order. -/
def receivedOn (c : Idx) (log : List Event) : List (Except Errno Bytes) :=
  log.filterMap (receivedBy c)

def polledBy (c : Idx) : Event → Option (Except IoError Bytes)
  | .pollReturned d _ res => if d = c then some res else none
  | _ => none

/-- What the calls of `poll_recv` on `c` returned, in order, but for those a failed submission ended. -/
def pollsOf (c : Idx) (log : List Event) : List (Except IoError Bytes) := log.filterMap (polledBy c)

/-- The results that are not an idle `Ok(0)`. -/
def busy (results : List (Except IoError Bytes)) : List (Except IoError Bytes) :=
  results.filter fun res => res ≠ .ok []

/-- A `poll_recv` whose buffer holds all that a receive can return. -/
def wholeBuffer : Event → Bool
  | .pollReturned _ cap _ => rxCap ≤ cap
  | _ => true

/-- An event that is about no receive. -/
def silent : Event → Bool
  | .received _ _ | .pollReturned _ _ _ | .overwrote _ => false
  | _ => true

/-- No receive of `c` has completed since a `poll_recv` on `c` last returned. -/
def settled (c : Idx) (log : List Event) : Bool :=
  log.foldl (fun b e => (polledBy c e).isSome || b && (receivedBy c e).isNone) true

theorem receivedOn_append (c : Idx) (l l' : List Event) :
    receivedOn c (l ++ l') = receivedOn c l ++ receivedOn c l' := List.filterMap_append

theorem pollsOf_append (c : Idx) (l l' : List Event) :
    pollsOf c (l ++ l') = pollsOf c l ++ pollsOf c l' := List.filterMap_append

theorem busy_append (l l' : List (Except IoError Bytes)) : busy (l ++ l') = busy l ++ busy l' :=
  List.filter_append ..

theorem receivedOn_of_silent {evs : List Event} (h : ∀ e ∈ evs, silent e = true) (c : Idx) :
    receivedOn c evs = [] := by
  refine List.filterMap_eq_nil_iff.mpr fun e he => ?_
  cases e with
  | received => cases h _ he
  | _ => rfl

theorem pollsOf_of_silent {evs : List Event} (h : ∀ e ∈ evs, silent e = true) (c : Idx) :
    pollsOf c evs = [] := by
  refine List.filterMap_eq_nil_iff.mpr fun e he => ?_
  cases e with
  | pollReturned => cases h _ he
  | _ => rfl

theorem settled_append {c : Idx} {evs : List Event} (hreceived : receivedOn c evs = [])
    (hpolls : pollsOf c evs = []) (log : List Event) : settled c (log ++ evs) = settled c log := by
  have hone : ∀ e ∈ evs, receivedBy c e = none := List.filterMap_eq_nil_iff.mp hreceived
  have hone' : ∀ e ∈ evs, polledBy c e = none := List.filterMap_eq_nil_iff.mp hpolls
  clear hreceived hpolls
  unfold settled
  rw [List.foldl_append]
  generalize log.foldl _ true = b
  induction evs with
  | nil => rfl
  | cons e evs ih =>
      rw [List.foldl_cons, hone e List.mem_cons_self, hone' e List.mem_cons_self, Option.isSome_none,
        Option.isNone_none, Bool.false_or, Bool.and_true]
      exact ih (fun e he => hone e (List.mem_cons_of_mem _ he))
        fun e he => hone' e (List.mem_cons_of_mem _ he)

/-! ## The invariant -/

structure RecvOk (r : IoUring) (log : List Event) : Prop where
  pending : ∀ entry ∈ r.pending, entry.isSend = true
  pc : r.PcFits
  rxBuf : ∀ c, (r.conns c).rxBuf.length = rxCap
  results : ∀ c, ∀ result ∈ r.unconsumed c, result ≤ rxCap
  /-- the flag stands for one receive -/
  count : ∀ c, r.receives c = if (r.conns c).recvInFlight then 1 else 0
  kept : ∀ key, .overwrote key ∉ log
  /-- a `poll_recv` leaves nothing that was completed before it returned -/
  settled : ∀ c, settled c log = true → r.unconsumed c = []
  /-- what the polls returned and what they have yet to return is what the kernel returned -/
  reports : (∀ e ∈ log, wholeBuffer e = true) → ∀ c,
    busy (pollsOf c log) ++ busy ((r.unconsumed c).map (report (r.conns c).rxBuf)) =
      busy ((receivedOn c log).map ioResult)

theorem recvOk_start (mode : IoUringMode) (sqpoll : Bool) : RecvOk (start mode sqpoll) [] where
  pending := nofun
  pc := trivial
  rxBuf _ := List.length_replicate
  results _ := nofun
  count _ := rfl
  kept _ := nofun
  settled _ _ := rfl
  reports _ _ := rfl

namespace RecvOk

variable {r r' : IoUring} {log evs : List Event}

theorem length_unconsumed_le (h : RecvOk r log) (c : Idx) : (r.unconsumed c).length ≤ 1 := by
  have hcount := h.count c
  unfold receives at hcount
  split at hcount <;> omega

/-- A step that leaves the receives alone. -/
theorem keep (h : RecvOk r log) (hevs : ∀ e ∈ evs, silent e = true)
    (hpending : ∀ entry ∈ r'.pending, entry.isSend = true) (hpc : r'.PcFits)
    (hentries : ∀ c, (r'.taken ++ r'.sq).count (.recv c) = (r.taken ++ r.sq).count (.recv c))
    (hresults : ∀ c, r'.unconsumed c = r.unconsumed c)
    (hrx : ∀ c, (r'.conns c).rxBuf = (r.conns c).rxBuf)
    (hflag : ∀ c, (r'.conns c).recvInFlight = (r.conns c).recvInFlight) :
    RecvOk r' (log ++ evs) where
  pending := hpending
  pc := hpc
  rxBuf c := by rw [hrx, h.rxBuf]
  results c := by
    rw [hresults]
    exact h.results c
  count c := by
    have hcount := h.count c
    unfold receives at hcount ⊢
    rw [hentries, hresults, hflag, hcount]
  kept key hmem := by
    obtain hmem | hmem := List.mem_append.mp hmem
    · exact h.kept key hmem
    · cases hevs _ hmem
  settled c hsettled := by
    rw [settled_append (receivedOn_of_silent hevs c) (pollsOf_of_silent hevs c)] at hsettled
    rw [hresults]
    exact h.settled c hsettled
  reports hwhole c := by
    rw [receivedOn_append, pollsOf_append, receivedOn_of_silent hevs, pollsOf_of_silent hevs,
      List.append_nil, List.append_nil, hresults, hrx]
    exact h.reports (fun e he => hwhole e (List.mem_append_left _ he)) c

/-- The same, when only the place of the caller has changed. -/
theorem goto (h : RecvOk r log) (hevs : ∀ e ∈ evs, silent e = true) {pc : Pc}
    (hpc : PcFits { r with pc }) : RecvOk { r with pc } (log ++ evs) :=
  h.keep hevs h.pending hpc (fun _ => rfl) (fun _ => rfl) (fun _ => rfl) fun _ => rfl

end RecvOk

/-! ## `reap` -/

/-- With at most one result for each connection, `reap` overwrites nothing and loses nothing. -/
theorem reapAll_recvs (r : IoUring) (cq : List Cqe)
    (hone : ∀ c : Idx, ((r.completedRecvs (ud c opRecv)).toList ++ resultsIn c cq).length ≤ 1) :
    (r.reapAll cq).2 = [] ∧ ∀ c : Idx, ((r.reapAll cq).1.completedRecvs (ud c opRecv)).toList =
      (r.completedRecvs (ud c opRecv)).toList ++ resultsIn c cq := by
  induction cq generalizing r with
  | nil => exact ⟨rfl, fun c => (List.append_nil _).symm⟩
  | cons q cq ih =>
      obtain ⟨entry, result⟩ := q
      cases entry with
      | send d buf bytes =>
          simp only [reapAll, reapOne_send, List.nil_append]
          exact ih _ hone
      | recv d =>
          -- a result that is there already would be a second one
          have hnone : r.completedRecvs (ud d opRecv) = none := by
            have hd := hone d
            cases hsome : r.completedRecvs (ud d opRecv) with
            | none => rfl
            | some x =>
                rw [hsome] at hd
                simp [resultsIn] at hd
          have hmove : ∀ c : Idx, (Function.update r.completedRecvs (ud d opRecv) (some result)
                (ud c opRecv)).toList ++ resultsIn c cq =
              (r.completedRecvs (ud c opRecv)).toList ++ resultsIn c (⟨.recv d, result⟩ :: cq) := by
            intro c
            by_cases hcd : c = d
            · subst hcd
              rw [Function.update_self, hnone]
              simp [resultsIn]
            · rw [Function.update_of_ne (by simpa using hcd)]
              simp [resultsIn, Ne.symm hcd]
          have hone' : ∀ c : Idx, ((Function.update r.completedRecvs (ud d opRecv) (some result)
              (ud c opRecv)).toList ++ resultsIn c cq).length ≤ 1 := by
            intro c
            rw [hmove]
            exact hone c
          simp only [reapAll, reapOne_recv, hnone, Option.isSome_none, Bool.false_eq_true, if_false,
            List.nil_append]
          obtain ⟨hevs, hall⟩ := ih
            { r with completedRecvs := Function.update r.completedRecvs (ud d opRecv) (some result) }
            hone'
          exact ⟨hevs, fun c => (hall c).trans (hmove c)⟩

namespace RecvOk

variable {r r' : IoUring} {log evs : List Event}

theorem reap_spec (h : RecvOk r log) :
    r.reap.2 = [] ∧ ∀ c, r.reap.1.unconsumed c = r.unconsumed c := by
  obtain ⟨hevs, hall⟩ := reapAll_recvs r r.cq h.length_unconsumed_le
  refine ⟨hevs, fun c => ?_⟩
  exact (List.append_nil _).trans (hall c)

/-- `flush_submit`, and then `reap`. -/
theorem flush {r₁ : IoUring} (h : RecvOk r log) (hflush : Flushed r r₁) : RecvOk r₁ log := by
  obtain ⟨sq, taken, rfl, hjoin⟩ := hflush.eq
  have hkeep : RecvOk { r with sq, taken } (log ++ []) :=
    h.keep nofun h.pending h.pc (fun c => by rw [hjoin]) (fun _ => rfl) (fun _ => rfl) fun _ => rfl
  rwa [List.append_nil] at hkeep

theorem reap (h : RecvOk r log) : RecvOk r.reap.1 log := by
  obtain ⟨-, hresults⟩ := h.reap_spec
  obtain ⟨sends, recvs, heq⟩ := reap_eq r
  rw [heq] at hresults ⊢
  have hkeep : RecvOk { r with completedSends := sends, completedRecvs := recvs, cq := [] } (log ++ []) :=
    h.keep nofun h.pending h.pc (fun _ => rfl) hresults (fun _ => rfl) fun _ => rfl
  rwa [List.append_nil] at hkeep

/-! ## The steps that move a receive -/

/-- Nothing changes for the receives of `d`. -/
structure Unmoved (r r' : IoUring) (evs : List Event) (d : Idx) : Prop where
  entries : (r'.taken ++ r'.sq).count (.recv d) = (r.taken ++ r.sq).count (.recv d)
  results : r'.unconsumed d = r.unconsumed d
  conn : r'.conns d = r.conns d
  received : receivedOn d evs = []
  polls : pollsOf d evs = []

/-- A step that moves a receive of `c`. -/
theorem move (h : RecvOk r log) {c : Idx} (hothers : ∀ d, d ≠ c → Unmoved r r' evs d)
    (hpending : ∀ entry ∈ r'.pending, entry.isSend = true) (hpc : r'.PcFits)
    (hrx : (r'.conns c).rxBuf.length = rxCap) (hresults : ∀ result ∈ r'.unconsumed c, result ≤ rxCap)
    (hcount : r'.receives c = if (r'.conns c).recvInFlight then 1 else 0)
    (hkept : ∀ key, .overwrote key ∉ evs)
    (hsettled : IoUring.settled c (log ++ evs) = true → r'.unconsumed c = [])
    (hreports : (∀ e ∈ evs, wholeBuffer e = true) →
      busy (pollsOf c evs) ++ busy ((r'.unconsumed c).map (report (r'.conns c).rxBuf)) =
        busy ((r.unconsumed c).map (report (r.conns c).rxBuf)) ++
          busy ((receivedOn c evs).map ioResult)) :
    RecvOk r' (log ++ evs) where
  pending := hpending
  pc := hpc
  rxBuf d := by
    by_cases hd : d = c
    · rw [hd, hrx]
    · rw [(hothers d hd).conn, h.rxBuf]
  results d := by
    by_cases hd : d = c
    · rw [hd]
      exact hresults
    · rw [(hothers d hd).results]
      exact h.results d
  count d := by
    by_cases hd : d = c
    · rw [hd, hcount]
    · have hunmoved := hothers d hd
      have hold := h.count d
      unfold receives at hold ⊢
      rw [hunmoved.entries, hunmoved.results, hunmoved.conn, hold]
  kept key hmem := by
    obtain hmem | hmem := List.mem_append.mp hmem
    · exact h.kept key hmem
    · exact hkept key hmem
  settled d hd' := by
    by_cases hd : d = c
    · subst hd
      exact hsettled hd'
    · have hunmoved := hothers d hd
      rw [settled_append hunmoved.received hunmoved.polls] at hd'
      rw [hunmoved.results]
      exact h.settled d hd'
  reports hwhole d := by
    have hold := h.reports (fun e he => hwhole e (List.mem_append_left _ he)) d
    rw [receivedOn_append, pollsOf_append]
    by_cases hd : d = c
    · subst hd
      have hnew := hreports fun e he => hwhole e (List.mem_append_right _ he)
      rw [busy_append, List.append_assoc, hnew, ← List.append_assoc, hold, List.map_append, busy_append]
    · have hunmoved := hothers d hd
      rw [hunmoved.received, hunmoved.polls, List.append_nil, List.append_nil, hunmoved.results,
        hunmoved.conn, hold]

/-- A receive that is pushed is the only one of its connection, and the flag is set. -/
theorem push_recv (h : RecvOk r log) {c : Idx} {pc : Pc} (hflag : (r.conns c).recvInFlight = false)
    (hpc : ∀ entry loop call, pc ≠ .push entry loop call ∧ pc ≠ .full entry loop call) :
    RecvOk
      { { r with sq := r.sq ++ [Sqe.recv c] }.setConn c { r.conns c with recvInFlight := true } with pc }
      (log ++ [.pushed (.recv c)]) := by
  have hcount := h.count c
  simp only [receives, hflag, Bool.false_eq_true, if_false] at hcount
  have hconn : Function.update r.conns c { r.conns c with recvInFlight := true } c =
      { r.conns c with recvInFlight := true } := Function.update_self ..
  have hsilent : ∀ e ∈ [Event.pushed (.recv c)], silent e = true := by simp [silent]
  refine h.move (c := c) (fun d hd => ⟨?_, rfl, Function.update_of_ne hd _ _, rfl, rfl⟩) h.pending ?_
    ?_ (h.results c) ?_ (by simp) ?_ ?_
  · have hne : (Sqe.recv c == Sqe.recv d) = false := by simp [Ne.symm hd]
    simp only [setConn, List.count_append, List.count_singleton, hne]
    simp
  · exact pcFits_of_ne hpc
  · simp only [setConn, hconn]
    exact h.rxBuf c
  · have hentries : (r.taken ++ (r.sq ++ [Sqe.recv c])).count (.recv c) =
        (r.taken ++ r.sq).count (.recv c) + 1 := by
      rw [← List.append_assoc, List.count_append, List.count_singleton_self]
    simp only [receives, setConn, hconn, if_true, hentries]
    show _ + (r.unconsumed c).length = 1
    omega
  · rw [settled_append (receivedOn_of_silent hsilent c) (pollsOf_of_silent hsilent c)]
    exact h.settled c
  · intro _
    simp only [setConn, hconn]
    rw [pollsOf_of_silent hsilent, receivedOn_of_silent hsilent]
    exact (List.append_nil _).symm

/-- The kernel completes a receive: its result is the only one of its connection. -/
theorem answer (h : RecvOk r log) {i : Nat} {c : Idx} (hi : r.taken[i]? = some (.recv c))
    {result : Int} {rx : Bytes} {res : Except Errno Bytes} (hrx : rx.length = rxCap)
    (hresult : result ≤ rxCap) (hreport : report rx result = ioResult res) :
    RecvOk ((r.complete i (.recv c) result).setConn c { r.conns c with rxBuf := rx })
      (log ++ [.received c res]) := by
  have hperm : (Sqe.recv c :: r.taken.eraseIdx i).Perm r.taken := perm_eraseIdx hi
  have hentries : (r.taken ++ r.sq).count (.recv c) =
      (r.taken.eraseIdx i ++ r.sq).count (.recv c) + 1 := by
    rw [← (hperm.append_right r.sq).count_eq, List.cons_append, List.count_cons_self]
  -- the entry with the kernel was the only receive of its connection
  have hcount := h.count c
  simp only [receives, hentries] at hcount
  have hflag : (r.conns c).recvInFlight = true := by
    by_contra hflag
    rw [if_neg hflag] at hcount
    omega
  rw [if_pos hflag] at hcount
  have hempty : r.unconsumed c = [] := List.eq_nil_of_length_eq_zero (by omega)
  have hconn : Function.update r.conns c { r.conns c with rxBuf := rx } c =
      { r.conns c with rxBuf := rx } := Function.update_self ..
  have hnew : ((r.complete i (.recv c) result).setConn c { r.conns c with rxBuf := rx }).unconsumed c =
      [result] := by
    have hold := hempty
    unfold unconsumed at hold ⊢
    simp only [complete, setConn, resultsIn_append, ← List.append_assoc, hold]
    simp [resultsIn]
  refine h.move (c := c) (fun d hd => ⟨?_, ?_, Function.update_of_ne hd _ _, ?_, rfl⟩) h.pending ?_
    ?_ ?_ ?_ (by simp) ?_ ?_
  · have hne : Sqe.recv d ≠ Sqe.recv c := by simp [hd]
    show (r.taken.eraseIdx i ++ r.sq).count (.recv d) = _
    rw [← (hperm.append_right r.sq).count_eq, List.cons_append, List.count_cons_of_ne hne.symm]
  · have hne : Sqe.recv c ≠ Sqe.recv d := by simp [Ne.symm hd]
    unfold unconsumed
    simp only [complete, setConn, resultsIn_append]
    simp [resultsIn, hne]
  · simp [receivedOn, receivedBy, Ne.symm hd]
  · refine PcFits.of_flags (r := r) rfl (fun d => ?_) h.pc
    by_cases hd : d = c
    · subst hd
      simp only [setConn, complete, hconn]
    · simp only [setConn, complete, Function.update_of_ne hd]
  · simp only [setConn, complete, hconn]
    exact hrx
  · rw [hnew]
    simpa using hresult
  · rw [receives, hnew]
    simp only [setConn, complete, hconn]
    rw [if_pos hflag, List.length_singleton]
    omega
  · -- what has just completed is not polled yet
    intro hsettled
    simp [IoUring.settled, polledBy, receivedBy] at hsettled
  · intro _
    rw [hnew, hempty]
    simp only [setConn, complete, hconn]
    simp only [List.map_cons, List.map_nil, hreport, receivedOn, receivedBy, List.filterMap_cons,
      List.filterMap_nil, if_true]
    rfl

/-- The result is taken out, and its connection may receive again. -/
theorem consume (h : RecvOk r log) (hcq : r.cq = []) {c : Idx} {cap : Nat} {result : Int}
    {res : Except IoError Bytes} (hsome : r.completedRecvs (ud c opRecv) = some result)
    (hres : rxCap ≤ cap → res = report (r.conns c).rxBuf result) {pc : Pc}
    (hpc : ∀ entry loop call, pc ≠ .push entry loop call ∧ pc ≠ .full entry loop call) :
    RecvOk { { r with
        completedRecvs := Function.update r.completedRecvs (ud c opRecv) none }.setConn c
          { r.conns c with recvInFlight := false } with pc } (log ++ [.pollReturned c cap res]) := by
  have hold : r.unconsumed c = [result] := by
    rw [unconsumed, hsome, hcq]
    rfl
  have hcount := h.count c
  rw [receives, hold, List.length_singleton] at hcount
  have hentries : (r.taken ++ r.sq).count (.recv c) = 0 := by
    split at hcount <;> omega
  have hconn : Function.update r.conns c { r.conns c with recvInFlight := false } c =
      { r.conns c with recvInFlight := false } := Function.update_self ..
  have hnew : IoUring.unconsumed { { r with
        completedRecvs := Function.update r.completedRecvs (ud c opRecv) none }.setConn c
          { r.conns c with recvInFlight := false } with pc } c = [] := by
    simp only [unconsumed, setConn, Function.update_self, hcq]
    rfl
  refine h.move (c := c) (fun d hd => ⟨rfl, ?_, Function.update_of_ne hd _ _, rfl, ?_⟩) h.pending
    (pcFits_of_ne hpc) ?_ ?_ ?_ (by simp) (fun _ => hnew) ?_
  · simp only [unconsumed, setConn, Function.update_of_ne (mt ud_recv_inj.mp hd)]
  · simp [pollsOf, polledBy, Ne.symm hd]
  · simp only [setConn, hconn]
    exact h.rxBuf c
  · rw [hnew]
    simp
  · rw [receives, hnew]
    simp only [setConn, hconn]
    exact hentries
  · intro hwhole
    have hcap : rxCap ≤ cap := by simpa [wholeBuffer] using hwhole
    rw [hnew, hold, hres hcap]
    simp [pollsOf, polledBy, receivedOn, receivedBy, busy]

/-- A `poll_recv` that finds no result. -/
theorem idle (h : RecvOk r log) (hcq : r.cq = []) {c : Idx} {cap : Nat} {pc : Pc}
    (hnone : r.completedRecvs (ud c opRecv) = none)
    (hpc : ∀ entry loop call, pc ≠ .push entry loop call ∧ pc ≠ .full entry loop call) :
    RecvOk { r with pc } (log ++ [.pollReturned c cap (.ok [])]) := by
  have hempty : r.unconsumed c = [] := by
    rw [unconsumed, hnone, hcq]
    rfl
  refine h.move (c := c) (fun d hd => ⟨rfl, rfl, rfl, rfl, ?_⟩) h.pending (pcFits_of_ne hpc) (h.rxBuf c)
    (h.results c) (h.count c) (by simp) (fun _ => hempty) ?_
  · simp [pollsOf, polledBy, Ne.symm hd]
  · intro _
    have hpolls : busy (pollsOf c [.pollReturned c cap (.ok [])]) = [] := by
      simp [pollsOf, polledBy, busy]
    rw [hpolls]
    exact (List.append_nil _).symm

/-- Copying out never reads past the buffer. -/
theorem pollResult_some (h : RecvOk r log) {c : Idx} {result : Int}
    (hsome : r.completedRecvs (ud c opRecv) = some result) (cap : Nat) :
    ∃ res, r.pollResult c cap = .ok ({ r with
        completedRecvs := Function.update r.completedRecvs (ud c opRecv) none }.setConn c
          { r.conns c with recvInFlight := false }, res) ∧
      (rxCap ≤ cap → res = report (r.conns c).rxBuf result) := by
  have hle : result ≤ rxCap := h.results c result (by simp [unconsumed, hsome])
  simp only [pollResult, hsome]
  by_cases hneg : result < 0
  · rw [if_pos hneg]
    exact ⟨_, rfl, fun _ => (if_pos hneg).symm⟩
  · rw [if_neg hneg]
    by_cases hzero : result.toNat = 0
    · rw [if_pos hzero]
      refine ⟨_, rfl, fun _ => ?_⟩
      rw [report, if_neg hneg, hzero]
      rfl
    · rw [if_neg hzero]
      simp only [setConn, Function.update_self]
      rw [Exec.sliceTo_ok (by rw [h.rxBuf]; omega)]
      refine ⟨_, rfl, fun hcap => ?_⟩
      rw [report, if_neg hneg, Nat.min_eq_left (by omega)]

theorem pollResult_ok (h : RecvOk r log) (c : Idx) (cap : Nat) : ∃ out, r.pollResult c cap = .ok out := by
  cases hresult : r.completedRecvs (ud c opRecv) with
  | none =>
      simp only [pollResult, hresult]
      exact ⟨_, rfl⟩
  | some result =>
      obtain ⟨res, hpoll, -⟩ := h.pollResult_some hresult cap
      exact ⟨_, hpoll⟩

theorem pollResult_spec (h : RecvOk r log) (hcq : r.cq = []) {c : Idx} {cap : Nat} {r₂ : IoUring}
    {res : Except IoError Bytes} (hpoll : r.pollResult c cap = .ok (r₂, res)) :
    RecvOk { r₂ with pc := .idle } (log ++ [.pollReturned c cap res]) := by
  cases hresult : r.completedRecvs (ud c opRecv) with
  | none =>
      simp only [pollResult, hresult] at hpoll
      cases hpoll
      exact h.idle hcq hresult (by simp)
  | some result =>
      obtain ⟨res', hpoll', hres⟩ := h.pollResult_some hresult cap
      rw [hpoll'] at hpoll
      cases hpoll
      exact h.consume hcq hresult hres (by simp)

/-- A step that takes entries, stages a buffer or reclaims buffers. -/
theorem keep_sends (h : RecvOk r log) (hevs : ∀ e ∈ evs, silent e = true) {c : Idx}
    {sendInFlight : List (Nat × Bytes)} (hconns : r'.conns =
      Function.update r.conns c { r.conns c with sendInFlight })
    (hpending : ∀ entry ∈ r'.pending, entry.isSend = true) (hpc : r'.PcFits)
    (hentries : r'.taken ++ r'.sq = r.taken ++ r.sq)
    (hresults : ∀ c, r'.unconsumed c = r.unconsumed c) : RecvOk r' (log ++ evs) := by
  refine h.keep hevs hpending hpc (fun _ => by rw [hentries]) hresults (fun d => ?_) fun d => ?_
  · rw [hconns, (update_sends r.conns c d sendInFlight).1]
  · rw [hconns, (update_sends r.conns c d sendInFlight).2]

theorem driveInner (h : RecvOk r log) (hevs : ∀ e ∈ evs, silent e = true) (call : Call) :
    RecvOk (r.driveInner call) (log ++ evs) := by
  obtain ⟨pc, heq, hpc⟩ := driveInner_eq r call
  rw [heq]
  refine h.goto hevs (pcFits_of_ne ?_)
  obtain rfl | rfl := hpc <;> simp

theorem push_send (h : RecvOk r log) {c : Idx} {buf : Nat} {bytes : Bytes} {pc : Pc}
    (hpc : ∀ entry loop call, pc ≠ .push entry loop call ∧ pc ≠ .full entry loop call) :
    RecvOk { r with sq := r.sq ++ [Sqe.send c buf bytes], pc }
      (log ++ [.pushed (.send c buf bytes)]) := by
  refine h.keep (by simp [silent]) h.pending (pcFits_of_ne hpc) (fun d => ?_) (fun _ => rfl)
    (fun _ => rfl) fun _ => rfl
  have hne : Sqe.recv d ∉ [Sqe.send c buf bytes] := by simp
  rw [← List.append_assoc, List.count_append, List.count_eq_zero_of_not_mem hne, Nat.add_zero]

theorem pushed (h : RecvOk r log) {entry : Sqe} {call : Call} (hpc : r.pc = .push entry .pushSqe call) :
    RecvOk ({ r with sq := r.sq ++ [entry] }.afterPush call) (log ++ [.pushed entry]) := by
  have hfits := h.pc
  simp only [PcFits, hpc] at hfits
  cases entry with
  | send c buf bytes =>
      cases call with
      | submit d => exact h.push_send (by simp)
      | pollRecv | drive => cases hfits
  | recv c =>
      cases call with
      | pollRecv d cap =>
          obtain ⟨rfl, hflag⟩ := hfits
          obtain ⟨pc, heq, hpc'⟩ := driveInner_eq
            ({ r with sq := r.sq ++ [Sqe.recv c] }.setConn c { r.conns c with recvInFlight := true })
            (.pollRecv c cap)
          simp only [afterPush]
          rw [heq]
          refine h.push_recv hflag ?_
          obtain rfl | rfl := hpc' <;> simp
      | submit | drive => cases hfits

theorem drained (h : RecvOk r log) {entry : Sqe} {call : Call}
    (hpc : r.pc = .push entry .drainPending call) :
    RecvOk { r with sq := r.sq ++ [entry], pc := .drain call } (log ++ [.pushed entry]) := by
  have hfits := h.pc
  simp only [PcFits, hpc] at hfits
  cases entry with
  | send c buf bytes => exact h.push_send (by simp)
  | recv c => cases hfits

/-- The queue is flushed and reaped, and the caller tries again. -/
theorem retried (h : RecvOk r log) {entry : Sqe} {loop : PushLoop} {call : Call} {r₁ : IoUring}
    (hpc : r.pc = .full entry loop call) (hflush : Flushed r r₁) :
    RecvOk { r₁.reap.1 with pc := .push entry loop call } (log ++ r₁.reap.2) := by
  have hreap := (h.flush hflush).reap
  have hfits := h.pc
  simp only [PcFits, hpc] at hfits
  rw [(h.flush hflush).reap_spec.1]
  refine hreap.goto (by simp) ?_
  obtain ⟨sq, taken, rfl, -⟩ := hflush.eq
  obtain ⟨sends, recvs, heq⟩ := reap_eq { r with sq, taken }
  rw [heq]
  exact hfits

theorem popped (h : RecvOk r log) {entry : Sqe} {rest : List Sqe} {call : Call}
    (hpending : r.pending = entry :: rest) :
    RecvOk { r with pending := rest, pc := .push entry .drainPending call } (log ++ []) := by
  have hsends := h.pending
  rw [hpending] at hsends
  refine h.keep nofun (fun e he => hsends e (List.mem_cons_of_mem _ he)) ?_ (fun _ => rfl)
    (fun _ => rfl) (fun _ => rfl) fun _ => rfl
  have hsend := hsends entry List.mem_cons_self
  cases entry with
  | send c buf bytes => trivial
  | recv c => cases hsend

/-- The buffers of completed sends are reclaimed after `reap`. -/
theorem reclaimed (h : RecvOk r log) {call : Call} (hpc : r.pc = .reap call) (c : Idx) :
    RecvOk (r.reap.1.reclaimSends c).1 (log ++ (r.reap.1.reclaimSends c).2) ∧
      (r.reap.1.reclaimSends c).1.cq = [] := by
  obtain ⟨sends, recvs, hreq⟩ := reap_eq r
  obtain ⟨sends', inFlight, heq⟩ := reclaimSends_eq r.reap.1 c
  have hconns : (r.reap.1.reclaimSends c).1.conns =
      Function.update r.reap.1.conns c { r.reap.1.conns c with sendInFlight := inFlight } := by
    rw [heq]
    rfl
  constructor
  · refine h.reap.keep_sends ?_ hconns ?_ ?_ ?_ ?_
    · unfold reclaimSends
      simp only
      split <;> simp [silent]
    · rw [heq]
      exact h.reap.pending
    · refine pcFits_of_ne ?_
      rw [heq, hreq]
      simp [setConn, hpc]
    · rw [heq]
      rfl
    · intro d
      rw [heq]
      rfl
  · rw [heq, hreq]
    rfl

theorem polled (h : RecvOk r log) {c : Idx} {cap : Nat} {r₂ : IoUring} {res : Except IoError Bytes}
    (hpc : r.pc = .reap (.pollRecv c cap))
    (hresult : (r.reap.1.reclaimSends c).1.pollResult c cap = .ok (r₂, res)) :
    RecvOk { r₂ with pc := .idle }
      (log ++ (r.reap.2 ++ ((r.reap.1.reclaimSends c).2 ++ [.pollReturned c cap res]))) := by
  obtain ⟨hok, hcq⟩ := h.reclaimed hpc c
  rw [h.reap_spec.1, List.nil_append, ← List.append_assoc]
  exact hok.pollResult_spec hcq hresult

/-- A completed send is no receive. -/
theorem sent (h : RecvOk r log) {i : Nat} {c : Idx} {buf : Nat} {bytes : Bytes} {result : Int}
    (hi : r.taken[i]? = some (.send c buf bytes)) :
    RecvOk (r.complete i (.send c buf bytes) result) (log ++ [.completed c buf]) := by
  have hperm := perm_eraseIdx hi
  refine h.keep (by simp [silent]) h.pending h.pc (fun d => ?_) (fun d => ?_) (fun _ => rfl) fun _ => rfl
  · rw [← (hperm.append_right r.sq).count_eq, List.cons_append, List.count_cons_of_ne (by simp)]
    rfl
  · simp only [unconsumed, complete, resultsIn_append]
    simp [resultsIn]

theorem fails_silent (e : IoError) (call : Call) : ∀ ev ∈ fails e call, silent ev = true := by
  cases call <;> simp [fails, silent]

theorem turn (h : RecvOk r log) (hturn : Turn r evs r') : RecvOk r' (log ++ evs) := by
  cases hturn with
  | stay => rwa [List.append_nil]
  | connected =>
      exact h.keep nofun h.pending h.pc (fun _ => rfl) (fun _ => rfl) (fun _ => rfl) fun _ => rfl
  | unsupported =>
      exact h.keep (by simp [silent]) h.pending h.pc (fun _ => rfl) (fun _ => rfl) (fun _ => rfl)
        fun _ => rfl
  | queued hpc =>
      refine h.keep_sends (by simp [silent]) rfl ?_ (pcFits_of_ne ?_) rfl fun _ => rfl
      · intro entry hmem
        obtain hmem | hmem := List.mem_append.mp hmem
        · exact h.pending entry hmem
        · rw [List.mem_singleton.mp hmem]
          rfl
      · simp [stage, setConn, hpc]
  | submitting => exact h.keep_sends (by simp [silent]) rfl h.pending trivial rfl fun _ => rfl
  | polling => exact h.driveInner (by simp [silent]) _
  | asking hpc hflag => exact h.goto (by simp [silent]) ⟨rfl, hflag⟩
  | driving => exact h.driveInner (by simp [silent]) _
  | pushed hpc => exact h.pushed hpc
  | drained hpc => exact h.drained hpc
  | noRoom hpc =>
      have hfits := h.pc
      simp only [PcFits, hpc] at hfits
      exact h.goto (by simp [silent]) hfits
  | retried hpc hflush => exact h.retried hpc hflush
  | gaveUp =>
      refine h.goto ?_ trivial
      simpa [silent] using fails_silent _ _
  | popped hpc hpending => exact h.popped hpending
  | drainedAll => exact h.goto (by simp) trivial
  | submitted hpc hflush => exact (h.flush hflush).goto (by simp [silent]) trivial
  | flushed hpc hcall hflush => exact (h.flush hflush).goto (by simp) trivial
  | unflushed =>
      refine h.goto ?_ trivial
      simpa [silent] using fails_silent _ _
  | driven =>
      rw [h.reap_spec.1]
      exact h.reap.goto (by simp [silent]) trivial
  | polled hpc hresult => exact h.polled hpc hresult
  | took =>
      obtain ⟨sq, taken, heq, hjoin⟩ := takeOne_eq r
      rw [heq]
      exact h.keep nofun h.pending h.pc (fun _ => by rw [hjoin]) (fun _ => rfl) (fun _ => rfl) fun _ => rfl
  | slept =>
      exact h.keep (by simp [silent]) h.pending h.pc (fun _ => rfl) (fun _ => rfl) (fun _ => rfl)
        fun _ => rfl
  | sent hi => exact h.sent hi
  | received hi hdata =>
      refine h.answer hi ?_ (by exact_mod_cast hdata) (report_ok _ _)
      rw [List.length_append, List.length_drop, h.rxBuf]
      omega
  | @recvFailed i c errno hi =>
      have hanswer := h.answer hi (h.rxBuf c) (by omega) (report_error errno _)
      -- the buffer is as it was
      rwa [setConn, show (r.complete i (.recv c) (-errno.val)).conns = r.conns from rfl,
        Function.update_eq_self] at hanswer

/-- No step panics. -/
theorem step_ok (h : RecvOk r log) (a : Action) : ∃ r' evs, r.step a = .ok (r', evs) := by
  cases a with
  | connect | take | sendDone | recvDone => exact ⟨_, _, rfl⟩
  | call op =>
      simp only [step]
      split <;> exact ⟨_, _, rfl⟩
  | sleep =>
      simp only [step]
      split <;> exact ⟨_, _, rfl⟩
  | caller enter =>
      simp only [step, advance]
      split
      next => exact ⟨_, _, rfl⟩
      next entry loop call hpc =>
        split
        · cases loop <;> exact ⟨_, _, rfl⟩
        · exact ⟨_, _, rfl⟩
      next =>
        split <;> exact ⟨_, _, rfl⟩
      next =>
        split <;> exact ⟨_, _, rfl⟩
      next =>
        split
        · split <;> exact ⟨_, _, rfl⟩
        · exact ⟨_, _, rfl⟩
      next call hpc =>
        split
        next c cap =>
          obtain ⟨⟨r₂, res⟩, hresult⟩ := (h.reclaimed hpc c).1.pollResult_ok c cap
          exact ⟨_, _, bind_eq_ok.mpr ⟨_, hresult, rfl⟩⟩
        next => exact ⟨_, _, rfl⟩

end RecvOk

/-- Every run goes on, and keeps the invariant. -/
theorem exists_recvOk (mode : IoUringMode) (sqpoll : Bool) (actions : List Action) :
    ∃ s log, machine.run (start mode sqpoll) actions = .ok (s, log) ∧ RecvOk s log := by
  refine machine.exists_run RecvOk (fun r log a h => ?_) (recvOk_start mode sqpoll) actions
  obtain ⟨r', evs, hone⟩ := h.step_ok a
  exact ⟨r', evs, hone, h.turn (step_turn hone)⟩

theorem recvOk_run {mode : IoUringMode} {sqpoll : Bool} {actions : List Action} {s : IoUring}
    {log : List Event} (h : machine.run (start mode sqpoll) actions = .ok (s, log)) : RecvOk s log :=
  machine.run_invariant RecvOk (recvOk_start mode sqpoll)
    (fun _ _ _ _ _ hinv hone => hinv.turn (step_turn hone)) h

/-! ## Bytes -/

def bytesOf {ε : Type} : Except ε Bytes → Bytes
  | .ok data => data
  | .error _ => []

/-- The bytes that `poll_recv` returned for `c`. -/
def returnedBytes (c : Idx) (log : List Event) : Bytes := (pollsOf c log).flatMap bytesOf

/-- The bytes that the receives of `c` completed with. -/
def receivedBytes (c : Idx) (log : List Event) : Bytes := (receivedOn c log).flatMap bytesOf

/-- The bytes that wait in the buffer of `c` for a `poll_recv`. -/
def unreadBytes (r : IoUring) (c : Idx) : Bytes :=
  (r.unconsumed c).flatMap fun result => (r.conns c).rxBuf.take result.toNat

theorem flatMap_busy (results : List (Except IoError Bytes)) :
    (busy results).flatMap bytesOf = results.flatMap bytesOf := by
  induction results with
  | nil => rfl
  | cons res results ih =>
      by_cases hres : res = .ok []
      · subst hres
        simpa [busy, bytesOf] using ih
      · simp only [busy, List.filter_cons, hres, ne_eq, not_false_eq_true, decide_true, if_true,
          List.flatMap_cons]
        rw [← ih]
        rfl

theorem bytesOf_report (rxBuf : Bytes) (result : Int) :
    bytesOf (report rxBuf result) = rxBuf.take result.toNat := by
  unfold report
  split
  next hneg =>
    rw [Int.toNat_of_nonpos (by omega)]
    rfl
  next => rfl

theorem bytesOf_ioResult (res : Except Errno Bytes) : bytesOf (ioResult res) = bytesOf res := by
  cases res <;> rfl

/-- **Receive integrity.** Any number of connections, calls in either mode, completions in any order
and submissions that fail: `recv_in_flight` of a connection is set exactly while one receive of its own
is on its way or unconsumed, no result is overwritten, and when a `poll_recv` has returned nothing
completed of its connection is left unconsumed until a receive completes again. With whole buffers the
bytes returned, and those still to be returned, are the bytes received. -/
theorem recvs_intact (mode : IoUringMode) (sqpoll : Bool) (actions : List Action) :
    ∃ s log, machine.run (start mode sqpoll) actions = .ok (s, log) ∧
      (∀ c, s.receives c = if (s.conns c).recvInFlight then 1 else 0) ∧
      (∀ key, .overwrote key ∉ log) ∧
      (∀ c, settled c log = true → s.unconsumed c = []) ∧
      ((∀ e ∈ log, wholeBuffer e = true) → ∀ c,
        returnedBytes c log ++ s.unreadBytes c = receivedBytes c log) := by
  obtain ⟨s, log, hrun, h⟩ := exists_recvOk mode sqpoll actions
  refine ⟨s, log, hrun, h.count, h.kept, h.settled, fun hwhole c => ?_⟩
  have hbytes := congrArg (List.flatMap bytesOf) (h.reports hwhole c)
  rw [List.flatMap_append, flatMap_busy, flatMap_busy, flatMap_busy, List.flatMap_map,
    List.flatMap_map] at hbytes
  simp only [bytesOf_report, bytesOf_ioResult] at hbytes
  exact hbytes

end IoUring

end TxSender.Backend
