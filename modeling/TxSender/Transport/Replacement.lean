/-
# TxSender.Transport.Replacement — what a rebuilt connection replaces.

Every failover asks for a rebuild, also one that finds the rebuild of an earlier failover still under
way. So several rebuilds of one provider may be in the pipeline, and each one that arrives replaces the
standby, whatever became of that: two that arrive without a failover in between discard a connection
that was never used. `one_rebuild_iff_guarded` says which failovers let a pipeline fill so far.
-/
import TxSender.Transport.Rebuild

namespace TxSender

open TxSender.Lib

/-! ## The pipeline of a provider -/

namespace Reconnect

variable {H Q D : Type}

/-- How many rebuilds of provider `i` are requested, being built, or waiting to be installed. -/
def backlog (r : Reconnect H Q) (i : Nat) : Nat :=
  (r.pc.underWay.toList ++ r.requests).countP (fun req => req.providerIdx == i) +
    (r.tryRecv i).toList.length

/-- The channel takes a request. -/
def Room (r : Reconnect H Q) : Prop := r.requests.length < reqCap ∧ r.pc ≠ .exited

instance (r : Reconnect H Q) : Decidable r.Room := inferInstanceAs (Decidable (_ ∧ _))

variable {r r' : Reconnect H Q} {i : Nat}

theorem backlog_spawn (n i : Nat) : (spawn n : Reconnect H Q).backlog i = 0 := by
  have hnone : (spawn n : Reconnect H Q).tryRecv i = none := by
    rw [tryRecv, spawn, List.getElem?_replicate]
    split
    · rfl
    · rfl
  rw [backlog, hnone]
  rfl

theorem request_of_room {req : ReconnectReq} (h : r.Room) :
    r.request req = { r with requests := r.requests ++ [req] } := by
  unfold Reconnect.request
  split
  · rename_i hpc
    exact absurd hpc h.2
  · rw [trySend, if_pos h.1]

theorem request_of_not_room {req : ReconnectReq} (h : ¬ r.Room) : r.request req = r := by
  unfold Reconnect.request
  split
  · rfl
  · rename_i hpc
    have hfull : ¬ r.requests.length < reqCap := fun hlt => h ⟨hlt, hpc⟩
    rw [trySend, if_neg hfull]

theorem backlog_request_ne {req : ReconnectReq} (h : req.providerIdx ≠ i) :
    (r.request req).backlog i = r.backlog i := by
  by_cases hroom : r.Room
  · rw [request_of_room hroom]
    simp [backlog, tryRecv, h]
  · rw [request_of_not_room hroom]

theorem backlog_request_self (req : ReconnectReq) :
    (r.request req).backlog req.providerIdx =
      r.backlog req.providerIdx + if r.Room then 1 else 0 := by
  by_cases hroom : r.Room
  · rw [request_of_room hroom, if_pos hroom]
    simp only [backlog, tryRecv, List.countP_append, List.countP_singleton, beq_self_eq_true, if_true]
    omega
  · rw [request_of_not_room hroom, if_neg hroom, Nat.add_zero]

theorem backlog_received_ne {ch : Nat} (h : ch ≠ i) : (r.received ch).backlog i = r.backlog i := by
  simp only [backlog, tryRecv, received, List.getElem?_set_ne h]

/-- Out of a channel that holds a connection, one rebuild is taken. -/
theorem backlog_received_self {resp : ReconnectResp H Q} (h : r.tryRecv i = some resp) :
    r.backlog i = (r.received i).backlog i + 1 := by
  have hslot : r.responses[i]? = some (some resp) := Option.join_eq_some_iff.mp h
  have hnone : (r.received i).tryRecv i = none := by
    rw [tryRecv, received, List.getElem?_set_self (List.getElem?_eq_some_iff.mp hslot).1]
    rfl
  unfold backlog
  rw [h, hnone]
  rfl

theorem backlog_take_le : r.take.backlog i ≤ r.backlog i := by
  unfold Reconnect.take
  split
  · rename_i req rest hpc hreqs
    split
    · simp only [backlog, tryRecv, hpc, hreqs, List.countP_append, List.countP_cons]
      omega
    · simp only [backlog, tryRecv, hpc, hreqs, ReconnectPc.underWay, Option.toList, List.countP_append,
        List.countP_cons, List.countP_nil]
      omega
  · exact Nat.le_refl _

/-- Without the build that is under way. -/
theorem backlog_idle {req : ReconnectReq} (hpc : r.pc = .building req) :
    r.backlog i = ({ r with pc := .waiting }).backlog i + if req.providerIdx = i then 1 else 0 := by
  simp only [backlog, tryRecv, hpc, ReconnectPc.underWay, Option.toList, List.countP_append,
    List.countP_singleton, List.countP_nil, beq_iff_eq]
  omega

theorem backlog_respond_le (idx : Nat) (conn : ConnBox H Q) :
    (r.respond idx conn).backlog i ≤ r.backlog i + if idx = i then 1 else 0 := by
  unfold Reconnect.respond
  split
  · rename_i hslot
    by_cases hi : idx = i
    · subst hi
      have hlt := (List.getElem?_eq_some_iff.mp hslot).1
      simp only [backlog, tryRecv, List.getElem?_set_self hlt, hslot, if_true]
      exact Nat.le_refl _
    · simp only [backlog, tryRecv, List.getElem?_set_ne hi]
      exact Nat.le_add_right ..
  · exact Nat.le_add_right ..

/-- A build that returns leaves the pipeline, or moves on to its channel. -/
theorem backlog_finish_le {connectOne : Nat → D → Exec (Except SenderError (Built H Q))} {d : D}
    (h : r.finish (engineReconnectBuilder connectOne) d = .ok r') : r'.backlog i ≤ r.backlog i := by
  rcases finish_cases h with ⟨-, rfl⟩ | ⟨req, hpc, ⟨e, -, rfl⟩ | ⟨c, -, rfl⟩⟩
  · exact Nat.le_refl _
  · rw [backlog_idle hpc]
    exact Nat.le_add_right ..
  · rw [backlog_idle hpc]
    exact backlog_respond_le ..

theorem backlog_exit_le : r.exit.backlog i ≤ r.backlog i := by
  unfold Reconnect.exit
  split
  · rename_i hpc
    simp only [backlog, tryRecv, hpc, ReconnectPc.underWay, Option.toList, List.countP_append,
      List.countP_nil]
    omega
  · exact Nat.le_refl _

end Reconnect

end TxSender

namespace TxSender.Transport

open TxSender.Lib
open TxSender.Http
open TxSender.Protocol
open TxSender.Backend
open TxSender.Provider

variable {H A Q K D : Type}

/-! ## Replacements -/

/-- The event is a call of `replace_standby`. -/
def installs : Event H A → Bool
  | .install => true
  | _ => false

/-- `P` holds of the log whenever a standby is replaced. -/
def AtInstall (P : List (Event H A) → Prop) (past : List (Event H A)) (e : Event H A) : Prop :=
  installs e = true → P past

instance {P : List (Event H A) → Prop} [DecidablePred P] (past : List (Event H A)) (e : Event H A) :
    Decidable (AtInstall P past e) := inferInstanceAs (Decidable (_ → _))

/-- The connection that is overwritten has failed since it was installed. -/
def ReplacesFailed : List (Event H A) → Event H A → Prop :=
  AtInstall fun past => (marks past).standby = true

/-- A rebuilt connection has been installed, and the provider has not failed over since. -/
def supplied (log : List (Event H A)) : Bool := log.foldl freshAfter false

/-- Between two replacements the provider fails over. -/
def Apart : List (Event H A) → Event H A → Prop := AtInstall fun past => supplied past = false

instance (past : List (Event H A)) (e : Event H A) : Decidable (ReplacesFailed past e) :=
  inferInstanceAs (Decidable (AtInstall _ past e))

instance (past : List (Event H A)) (e : Event H A) : Decidable (Apart past e) :=
  inferInstanceAs (Decidable (AtInstall _ past e))

section Log

variable {P : List (Event H A) → Prop} {past evs : List (Event H A)}

theorem not_installs_of_plain {e : Event H A} (h : plain e = true) : installs e = false := by
  cases e <;> first | rfl | cases h

theorem along_of_not_installs (h : ∀ e ∈ evs, installs e = false) : Along (AtInstall P) past evs := by
  apply along_of_forall
  intro e he past hinst
  rw [h e he] at hinst
  cases hinst

theorem along_of_plain (h : ∀ e ∈ evs, plain e = true) : Along (AtInstall P) past evs :=
  along_of_not_installs fun e he => not_installs_of_plain (h e he)

theorem along_failover {before post : List (Event H A)} {e : Event H A} {req : ReconnectReq}
    {slot : Option (Job × Nat)} {quicSlot : Option (JobId × Nat)}
    (hbefore : ∀ e ∈ before, plain e = true) (hbroken : breaks e = true)
    (hpost : ∀ e ∈ post, plain e = true) :
    Along (AtInstall P) past (before ++ e :: .failover slot quicSlot :: .request req :: post) := by
  refine along_append.mpr ⟨along_of_plain hbefore, ?_, nofun, nofun, along_of_plain hpost⟩
  intro hinst
  rw [not_installs_of_plain (plain_of_breaks hbroken)] at hinst
  cases hinst

theorem along_install {tail : List (Event H A)} (htail : ∀ e ∈ tail, plain e = true) (h : P past) :
    Along (AtInstall P) past (.install :: tail) :=
  ⟨fun _ => h, along_of_plain htail⟩

theorem freshAfter_of_plain (h : ∀ e ∈ evs, plain e = true) (b : Bool) :
    evs.foldl freshAfter b = b := by
  induction evs with
  | nil => rfl
  | cons e evs ih =>
      have he : freshAfter b e = b := by
        have hplain := h e (List.mem_cons_self ..)
        cases e <;> first | rfl | cases hplain
      rw [List.foldl_cons, he]
      exact ih fun x hx => h x (List.mem_cons_of_mem _ hx)

theorem supplied_append (l l' : List (Event H A)) :
    supplied (l ++ l') = l'.foldl freshAfter (supplied l) := List.foldl_append

theorem supplied_failover {before post : List (Event H A)} {e : Event H A} {req : ReconnectReq}
    {slot : Option (Job × Nat)} {quicSlot : Option (JobId × Nat)} (hpost : ∀ e ∈ post, plain e = true)
    (b : Bool) :
    (before ++ e :: .failover slot quicSlot :: .request req :: post).foldl freshAfter b = false := by
  rw [List.foldl_append, List.foldl_cons, List.foldl_cons, List.foldl_cons, freshAfter_of_plain hpost]
  rfl

end Log

/-! ## One step, provider by provider -/

/-- What a step of the sender does for provider `i`, and to its pipeline. -/
inductive Seen (r r' : Reconnect H Q) (i : Nat) : List (Event H A) → Prop
  | plain {evs : List (Event H A)} (h : ∀ e ∈ evs, plain e = true)
      (hle : r'.backlog i ≤ r.backlog i) : Seen r r' i evs
  | failover (before : List (Event H A)) {post : List (Event H A)} {e : Event H A} {req : ReconnectReq}
      {slot : Option (Job × Nat)} {quicSlot : Option (JobId × Nat)}
      (hbefore : ∀ e ∈ before, Transport.plain e = true) (hbroken : breaks e = true)
      (hpost : ∀ e ∈ post, Transport.plain e = true)
      (hone : r'.backlog i = r.backlog i + if r.Room then 1 else 0) :
      Seen r r' i (before ++ e :: .failover slot quicSlot :: .request req :: post)
  | install {tail : List (Event H A)} (htail : ∀ e ∈ tail, Transport.plain e = true)
      (hone : r.backlog i = r'.backlog i + 1) : Seen r r' i (.install :: tail)

section Step

variable {n : Nat} {kind : ConnKind} {made : Nat → Built H Q → Prop} {s s' : Sender H Q}
  {api : ConnApi H A Q K} {logs : List (Logged H A)} {r r' : Reconnect H Q} {i : Nat}
  {connectOne : Nat → D → Exec (Except SenderError (Built H Q))}

theorem seen_nothing (hle : r'.backlog i ≤ r.backlog i) : Seen r r' i ([] : List (Event H A)) :=
  .plain (by simp) hle

theorem StandbyMoves.seen (h : StandbyMoves r r' logs) (i : Nat) : Seen r r' i (eventsAt i logs) := by
  cases h with
  | plain hplain => exact .plain (hplain i) (Nat.le_refl _)
  | failover req before hbefore hbroken hpost =>
      by_cases hreq : req.providerIdx = i
      · subst hreq
        rw [eventsAt_map_on]
        exact .failover before hbefore hbroken hpost (Reconnect.backlog_request_self req)
      · rw [eventsAt_map_on_ne hreq]
        exact seen_nothing (Nat.le_of_eq (Reconnect.backlog_request_ne hreq))
  | @install i₀ resp tail hgot htail =>
      by_cases hch : i₀ = i
      · subst hch
        rw [eventsAt_map_on]
        exact .install htail (Reconnect.backlog_received_self hgot)
      · rw [eventsAt_map_on_ne hch]
        exact seen_nothing (Nat.le_of_eq (Reconnect.backlog_received_ne hch))

/-- **A step of any thread.** Those of the reconnect thread and of the lane log nothing and bring
nothing into a pipeline. -/
theorem step_seen (hw : s.Wired n kind made) {a : Action H A Q K D}
    (h : Sender.step api (engineReconnectBuilder connectOne) s a = .ok (s', logs)) (i : Nat) :
    Seen s.reconnect s'.reconnect i (eventsAt i logs) := by
  cases a with
  | worker j inp => exact (worker_moves hw h).seen i
  | take =>
      cases h
      exact seen_nothing Reconnect.backlog_take_le
  | finish d =>
      obtain ⟨r', hfin, h⟩ := bind_eq_ok.mp h
      cases h
      exact seen_nothing (Reconnect.backlog_finish_le hfin)
  | exit =>
      cases h
      split
      · exact seen_nothing Reconnect.backlog_exit_le
      · exact seen_nothing (Nat.le_refl _)
  | lane sawStop =>
      obtain ⟨lane, -, h⟩ := bind_eq_ok.mp h
      cases h
      exact seen_nothing (Nat.le_refl _)
  | shutdown =>
      cases h
      exact seen_nothing (Nat.le_refl _)

/-! ## Every run -/

variable {past evs : List (Event H A)}

/-- Where a rebuild is in the pipeline the provider has failed over, and the mark of its standby
follows from what came last: a failover or a replacement. -/
structure Tracked (r : Reconnect H Q) (i : Nat) (past : List (Event H A)) : Prop where
  standby : 0 < r.backlog i → (marks past).standby = !supplied past
  along : Along (AtInstall fun past => (marks past).standby = !supplied past) [] past

/-- A step keeps this: the first request comes with the failover that asks for it. -/
theorem Tracked.step (h : Tracked r i past) (hseen : Seen r r' i evs) :
    Tracked r' i (past ++ evs) := by
  cases hseen with
  | plain hplain hle =>
      constructor
      · intro hpos
        rw [marks_append, supplied_append, standby_plain hplain, freshAfter_of_plain hplain]
        exact h.standby (Nat.lt_of_lt_of_le hpos hle)
      · exact along_append.mpr ⟨h.along, along_of_plain hplain⟩
  | failover before hbefore hbroken hpost =>
      constructor
      · intro _
        rw [marks_append, supplied_append, standby_failover hbroken hpost, supplied_failover hpost]
        rfl
      · exact along_append.mpr ⟨h.along, along_failover hbefore hbroken hpost⟩
  | install htail hone =>
      constructor
      · intro _
        rw [marks_append, supplied_append, List.foldl_cons, List.foldl_cons, standby_plain htail,
          freshAfter_of_plain htail]
        rfl
      · have hpos : 0 < r.backlog i := by
          rw [hone]
          exact Nat.succ_pos _
        exact along_append.mpr ⟨h.along, along_install htail (h.standby hpos)⟩

theorem tracked_spawn (n i : Nat) :
    Tracked (Reconnect.spawn n : Reconnect H Q) i ([] : List (Event H A)) := by
  refine ⟨fun hpos => ?_, trivial⟩
  rw [Reconnect.backlog_spawn] at hpos
  cases hpos

theorem tracked_run {b : SenderBuilder} {ds : Nat → D × D} {log : List (Logged H A)}
    (hbuild : b.build connectOne ds = .ok (.ok s)) {actions : List (Action H A Q K D)}
    (hrun : (Sender.machine api (engineReconnectBuilder connectOne)).run s actions = .ok (s', log))
    (i : Nat) : Tracked s'.reconnect i (eventsAt i log) := by
  obtain ⟨engine, -, hw, -, hspawn, -⟩ := build_spec hbuild
  refine (Machine.run_invariant _ (fun s log => s.Wired b.providers.length engine.connKind
    (fun i c => ∃ d, connectOne i d = .ok (.ok c)) ∧ Tracked s.reconnect i (eventsAt i log))
    ⟨hw, hspawn ▸ tracked_spawn _ i⟩ ?_ hrun).2
  intro s log a s' logs hinv hstep
  rw [eventsAt_append]
  exact ⟨Sender.wired_step hinv.1 hstep, hinv.2.step (step_seen hinv.1 hstep i)⟩

/-- **Which rebuilds replace a failed standby.** However the threads of a new sender interleave, every
connection of provider `i` that `replace_standby` overwrites has failed since it was installed exactly
when the provider fails over between any two of its replacements. -/
theorem replaces_failed_iff_apart {b : SenderBuilder} {ds : Nat → D × D} {log : List (Logged H A)}
    (hbuild : b.build connectOne ds = .ok (.ok s)) {actions : List (Action H A Q K D)}
    (hrun : (Sender.machine api (engineReconnectBuilder connectOne)).run s actions = .ok (s', log))
    (i : Nat) : Along ReplacesFailed [] (eventsAt i log) ↔ Along Apart [] (eventsAt i log) := by
  refine along_congr (tracked_run hbuild hrun i).along ?_
  intro past e _ hagree
  apply imp_congr_right
  intro hinst
  show (marks past).standby = true ↔ supplied past = false
  rw [hagree hinst, Bool.not_eq_true']

end Step

/-- A round of the worker of provider 0 without a job: the poll is answered with `recv`, and before the
standby is looked for the threads `others` move. -/
def pollingRound (recv : RecvReturn)
    (others : List (Action (HttpConn RawConn Bytes) RawAnswer (QuicEngine Bool) Bool Bool)) :
    List (Action (HttpConn RawConn Bytes) RawAnswer (QuicEngine Bool) Bool Bool) :=
  let base := Input.quiet RawAnswer.silent false
  [.worker 0 base, .worker 0 { base with call := { sends := [], recvs := [recv] } }, .worker 0 base,
    .worker 0 { base with empty := true }] ++ others ++ [.worker 0 base]

/-- Both connections are reset, and the first one is closed when it is polled again. By then the worker
has failed over three times; the rebuilds come in one round after the other. -/
def resetBoth : List (Action (HttpConn RawConn Bytes) RawAnswer (QuicEngine Bool) Bool Bool) :=
  pollingRound (.failed 104) [] ++ pollingRound (.failed 104) [.take, .finish true] ++
    pollingRound (.received []) [.take, .finish true] ++ pollingRound (.failed 11) [.take, .finish true]

/-- The second rebuild replaces the dead connection, and the third one the second. -/
theorem third_rebuild_discards_second :
    ∃ s, (bareSender .parRaw [bareProvider .noResponse]).build
        (bareConnectOne [bareProvider .noResponse]) (fun _ => (true, true)) = .ok (.ok s) ∧
      ∃ out ∈ ((bareMachine [bareProvider .noResponse]).run s resetBoth).toOption,
        (eventsAt 0 out.2).countP installs = 3 ∧ ¬ Along ReplacesFailed [] (eventsAt 0 out.2) :=
  exists_built _ _ _ _ (by decide +kernel)

/-- One reset, whose rebuild arrives. -/
theorem replaces_failed_iff_apart_once :
    ∃ s, (bareSender .parRaw [bareProvider .noResponse]).build
        (bareConnectOne [bareProvider .noResponse]) (fun _ => (true, true)) = .ok (.ok s) ∧
      ∃ out, (bareMachine [bareProvider .noResponse]).run s
          (pollingRound (.failed 104) [.take, .finish true]) = .ok out ∧
        (eventsAt 0 out.2).countP installs = 1 ∧ Along ReplacesFailed [] (eventsAt 0 out.2) := by
  obtain ⟨s, hbuild, out, hout, hinstalls, hapart⟩ :=
    exists_built (bareSender .parRaw [bareProvider .noResponse])
      (bareConnectOne [bareProvider .noResponse]) (fun _ => (true, true))
      (fun s => ∃ out ∈ ((bareMachine [bareProvider .noResponse]).run s
          (pollingRound (.failed 104) [.take, .finish true])).toOption,
        (eventsAt 0 out.2).countP installs = 1 ∧ Along Apart [] (eventsAt 0 out.2)) (by decide +kernel)
  have hrun := eq_ok_of_mem_toOption hout
  exact ⟨s, hbuild, out, hrun, hinstalls, (replaces_failed_iff_apart hbuild hrun 0).mpr hapart⟩

/-! ## One rebuild at a time -/

section Alone

variable {s s' : Sender H Q} {api : ConnApi H A Q K} {logs : List (Logged H A)}
  {r r' : Reconnect H Q} {i : Nat} {past evs : List (Event H A)}
  {connectOne : Nat → D → Exec (Except SenderError (Built H Q))}

/-- At most one rebuild of the provider is in the pipeline, only where the standby has failed, and no
other standby was replaced. -/
structure OneRebuild (r : Reconnect H Q) (i : Nat) (past : List (Event H A)) : Prop where
  backlog : r.backlog i ≤ (marks past).standby.toNat
  replaced : Along ReplacesFailed [] past

/-- A step keeps this exactly when a failover finds no rebuild in the pipeline, or no room for one. -/
theorem OneRebuild.step_iff (h : OneRebuild r i past) (hseen : Seen r r' i evs) :
    OneRebuild r' i (past ++ evs) ↔
      ∀ slot quicSlot, .failover slot quicSlot ∈ evs → r.backlog i = 0 ∨ ¬ r.Room := by
  cases hseen with
  | plain hplain hle =>
      constructor
      · intro _ slot quicSlot hmem
        cases hplain _ hmem
      · intro _
        refine ⟨?_, along_append.mpr ⟨h.replaced, along_of_plain hplain⟩⟩
        rw [marks_append, standby_plain hplain]
        exact Nat.le_trans hle h.backlog
  | @failover before post e req slot quicSlot hbefore hbroken hpost hone =>
      constructor
      · intro h' _ _ _
        have hle := h'.backlog
        rw [marks_append, standby_failover hbroken hpost, hone] at hle
        by_cases hroom : r.Room
        · rw [if_pos hroom] at hle
          exact .inl (Nat.le_zero.mp (Nat.le_of_succ_le_succ hle))
        · exact .inr hroom
      · intro hguard
        refine ⟨?_, along_append.mpr ⟨h.replaced, along_failover hbefore hbroken hpost⟩⟩
        rw [marks_append, standby_failover hbroken hpost, hone]
        rcases hguard slot quicSlot (by simp) with hzero | hfull
        · rw [hzero, Nat.zero_add]
          split
          · exact Nat.le_refl _
          · exact Nat.zero_le _
        · rw [if_neg hfull]
          exact Nat.le_trans h.backlog (Bool.toNat_le _)
  | install htail hone =>
      constructor
      · intro _ slot quicSlot hmem
        rcases List.mem_cons.mp hmem with hmem | hmem
        · cases hmem
        · cases htail _ hmem
      · intro _
        have hle := h.backlog
        -- something was in the pipeline, so the standby is marked and nothing else is on its way
        cases hmark : (marks past).standby with
        | false =>
            rw [hmark, hone] at hle
            cases hle
        | true =>
            rw [hmark, hone] at hle
            refine ⟨?_, along_append.mpr ⟨h.replaced, along_install htail hmark⟩⟩
            exact Nat.le_trans (Nat.le_of_succ_le_succ hle) (Nat.zero_le _)

/-- When a step may be taken: its failovers find no rebuild of their provider in the pipeline, or no
room for another request. -/
def AloneGuard (api : ConnApi H A Q K) (s : Sender H Q) : Action H A Q K D → Prop
  | .worker j inp => ∀ out ∈ (s.workers.step api j (s.hand j inp)).toOption,
      ∀ e ∈ out.2, ∀ i ∈ failsOver e, s.reconnect.backlog i = 0 ∨ ¬ s.reconnect.Room
  | _ => True

instance (api : ConnApi H A Q K) (s : Sender H Q) :
    ∀ a : Action H A Q K D, Decidable (AloneGuard api s a)
  | .worker j inp => inferInstanceAs (Decidable
      (∀ out ∈ (s.workers.step api j (s.hand j inp)).toOption, ∀ e ∈ out.2, ∀ i ∈ failsOver e, _))
  | .take | .finish _ | .exit | .lane _ | .shutdown => isTrue trivial

theorem aloneGuard_iff {a : Action H A Q K D}
    (h : Sender.step api (engineReconnectBuilder connectOne) s a = .ok (s', logs)) :
    AloneGuard api s a ↔ ∀ i slot quicSlot, .failover slot quicSlot ∈ eventsAt i logs →
      s.reconnect.backlog i = 0 ∨ ¬ s.reconnect.Room := by
  rcases Sender.step_cases h with ⟨j, inp, rfl, hstep, -⟩ | ⟨rfl, -, hother, -⟩
  · simp only [AloneGuard, hstep]
    constructor
    · intro hguard i slot quicSlot hmem
      exact hguard _ rfl _ (mem_eventsAt.mp hmem) i rfl
    · intro hall out hout e he i hi
      obtain rfl := Option.some.inj hout
      obtain ⟨slot, quicSlot, rfl⟩ := mem_failsOver.mp hi
      exact hall i slot quicSlot (mem_eventsAt.mpr he)
  · constructor
    · intro _ i slot quicSlot hmem
      cases hmem
    · intro _
      cases a with
      | worker j inp => exact absurd rfl (hother j inp)
      | _ => exact trivial

/-- **One rebuild at a time**, in every pipeline and at every moment, exactly when every failover finds
the pipeline of its provider empty, or its request gets lost. -/
theorem one_rebuild_iff_guarded {b : SenderBuilder} {ds : Nat → D × D}
    (hbuild : b.build connectOne ds = .ok (.ok s)) (actions : List (Action H A Q K D)) :
    (Sender.machine api (engineReconnectBuilder connectOne)).Always
        (fun s log => ∀ i, OneRebuild s.reconnect i (eventsAt i log)) s [] actions ↔
      (Sender.machine api (engineReconnectBuilder connectOne)).Guarded
        (fun s _ => AloneGuard api s) s [] actions := by
  obtain ⟨engine, -, hw, -, hspawn, -⟩ := build_spec hbuild
  refine Machine.always_iff_guarded _
    (fun s _ => s.Wired b.providers.length engine.connKind fun i c => ∃ d, connectOne i d = .ok (.ok c))
    _ _ (fun s log a s' logs hinv hone hstep => ⟨Sender.wired_step hinv hstep, ?_⟩) hw (fun i => ?_)
  · rw [aloneGuard_iff hstep]
    apply forall_congr'
    intro i
    rw [eventsAt_append]
    exact (hone i).step_iff (step_seen hinv hstep i)
  · refine ⟨?_, trivial⟩
    rw [hspawn, Reconnect.backlog_spawn]
    exact Nat.zero_le _

/-- In such a run no live standby is discarded. -/
theorem replaces_failed_of_guarded {b : SenderBuilder} {ds : Nat → D × D} {log : List (Logged H A)}
    (hbuild : b.build connectOne ds = .ok (.ok s)) {actions : List (Action H A Q K D)}
    (hguarded : (Sender.machine api (engineReconnectBuilder connectOne)).Guarded
      (fun s _ => AloneGuard api s) s [] actions)
    (hrun : (Sender.machine api (engineReconnectBuilder connectOne)).run s actions = .ok (s', log))
    (i : Nat) : Along ReplacesFailed [] (eventsAt i log) :=
  (((one_rebuild_iff_guarded hbuild actions).mpr hguarded).last hrun i).replaced

end Alone

end TxSender.Transport
