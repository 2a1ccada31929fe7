/-
# TxSender.Transport.Rebuild — whether a failed standby is being rebuilt.

A worker that fails over asks for a rebuild once and never again. The request gets lost when the shared
channel is full, and it comes to nothing when the build fails; unless another rebuild of the same
provider is under way, the failed standby then stays. These are the only ways: a response that finds
its channel full is not missed, for the channel already holds one.
-/
import TxSender.Transport.Reuse
import TxSender.Transport.Wiring

namespace TxSender

/-! ## Pending rebuilds -/

/-- The request whose build is under way. -/
def ReconnectPc.underWay : ReconnectPc → Option ReconnectReq
  | .building req => some req
  | _ => none

theorem ReconnectPc.mem_underWay {pc : ReconnectPc} {req : ReconnectReq} :
    req ∈ pc.underWay ↔ pc = .building req := by
  cases pc <;> simp [underWay, eq_comm]

namespace Reconnect

variable {H Q : Type}

/-- A rebuild of provider `i` is requested, being built, or waiting to be installed. -/
def Pending (r : Reconnect H Q) (i : Nat) : Prop :=
  (∃ req ∈ r.requests, req.providerIdx = i) ∨ (∃ req, r.pc = .building req ∧ req.providerIdx = i) ∨
    ∃ resp, r.responses[i]? = some (some resp)

variable {r : Reconnect H Q} {i : Nat}

theorem isSome_tryRecv : (r.tryRecv i).isSome = true ↔ ∃ resp, r.responses[i]? = some (some resp) := by
  rw [Option.isSome_iff_exists]
  exact exists_congr fun resp => Option.join_eq_some_iff

instance : Decidable (r.Pending i) :=
  decidable_of_iff ((∃ req ∈ r.requests, req.providerIdx = i) ∨
      (∃ req ∈ r.pc.underWay, req.providerIdx = i) ∨ (r.tryRecv i).isSome = true) <| by
    simp only [Pending, ReconnectPc.mem_underWay, isSome_tryRecv]

theorem Pending.lt {n : Nat} {kind : ConnKind} {made : Nat → Built H Q → Prop} (h : r.Pending i)
    (hw : r.Wired n kind made) : i < n := by
  rcases h with ⟨req, hreq, rfl⟩ | ⟨req, hpc, rfl⟩ | ⟨resp, hresp⟩
  · exact (hw.requests req hreq).1
  · exact (hw.building req hpc).1
  · rw [← hw.length]
    exact (List.getElem?_eq_some_iff.mp hresp).1

/-- A request that the channel takes makes a rebuild pending, and changes nothing else. -/
theorem pending_request {req : ReconnectReq} :
    (r.request req).Pending i ↔
      r.Pending i ∨ (req.providerIdx = i ∧ r.requests.length < reqCap ∧ r.pc ≠ .exited) := by
  unfold Reconnect.request
  split
  · rename_i hpc
    exact ⟨.inl, fun h => h.elim id fun h => absurd hpc h.2.2⟩
  · rename_i hpc
    by_cases hroom : r.requests.length < reqCap
    · simp only [Pending, trySend, if_pos hroom, List.mem_append, List.mem_singleton]
      constructor
      · rintro (⟨q, hq | rfl, hqi⟩ | h)
        · exact .inl (.inl ⟨q, hq, hqi⟩)
        · exact .inr ⟨hqi, hroom, hpc⟩
        · exact .inl (.inr h)
      · rintro ((⟨q, hq, hqi⟩ | h) | ⟨hqi, -, -⟩)
        · exact .inl ⟨q, .inl hq, hqi⟩
        · exact .inr h
        · exact .inl ⟨req, .inr rfl, hqi⟩
    · simp only [Pending, trySend, if_neg hroom]
      exact ⟨.inl, fun h => h.elim id fun h => absurd h.2.1 hroom⟩

/-- Emptying a channel concerns its own provider only. -/
theorem pending_received_ne {ch : Nat} (h : ch ≠ i) : (r.received ch).Pending i ↔ r.Pending i := by
  unfold Pending
  rw [Reconnect.received, List.getElem?_set_ne h]

/-- A `try_recv` that finds nothing. -/
theorem received_of_none {ch : Nat} (h : r.tryRecv ch = none) : r.received ch = r := by
  unfold Reconnect.received
  have hset : r.responses.set ch none = r.responses := by
    cases hslot : r.responses[ch]? with
    | none => exact List.set_eq_of_length_le (List.getElem?_eq_none_iff.mp hslot)
    | some slot =>
        rw [tryRecv, hslot] at h
        obtain rfl : slot = none := h
        exact Transport.set_of_getElem? hslot
  rw [hset]

theorem Pending.take {n : Nat} {kind : ConnKind} {made : Nat → Built H Q → Prop}
    (h : r.Pending i) (hw : r.Wired n kind made) (hkind : kind ≠ .libTpa) : r.take.Pending i := by
  unfold Reconnect.take
  split
  · rename_i req rest hpc hreqs
    have hreq := (hw.requests req (hreqs ▸ List.mem_cons_self ..)).2
    rw [if_neg (hreq ▸ hkind)]
    rcases h with ⟨q, hq, hqi⟩ | ⟨q, hq, -⟩ | hresp
    · rw [hreqs] at hq
      rcases List.mem_cons.mp hq with rfl | hq
      · exact .inr (.inl ⟨q, rfl, hqi⟩)
      · exact .inl ⟨q, hq, hqi⟩
    · rw [hpc] at hq
      cases hq
    · exact .inr (.inr hresp)
  · exact h

/-- A response makes a rebuild pending, also where its channel was full. -/
theorem pending_respond {idx : Nat} (hidx : idx < r.responses.length) (conn : ConnBox H Q) :
    (r.respond idx conn).Pending i ↔ r.Pending i ∨ idx = i := by
  have hslot := List.getElem?_eq_getElem hidx
  unfold Reconnect.respond
  split
  · unfold Pending
    by_cases hi : idx = i
    · subst hi
      simp [hidx]
    · simp [List.getElem?_set_ne hi, hi]
  · rename_i hfull
    refine ⟨.inl, fun h => h.elim id ?_⟩
    rintro rfl
    cases hresp : r.responses[idx] with
    | none => exact absurd (hslot.trans (congrArg some hresp)) hfull
    | some resp => exact .inr (.inr ⟨resp, hslot.trans (congrArg some hresp)⟩)

/-- Giving up a build concerns the provider it was for only. -/
theorem Pending.idle {req : ReconnectReq} (h : r.Pending i) (hpc : r.pc = .building req)
    (hi : req.providerIdx ≠ i) : ({ r with pc := .waiting }).Pending i := by
  rcases h with hreq | ⟨q, hq, hqi⟩ | hresp
  · exact .inl hreq
  · rw [hpc] at hq
    obtain rfl := ReconnectPc.building.inj hq
    exact absurd hqi hi
  · exact .inr (.inr hresp)

/-- A thread that exits drops the requests. -/
theorem pending_exit (hpc : r.pc = .waiting) :
    r.exit.Pending i ↔ ∃ resp, r.responses[i]? = some (some resp) := by
  simp [Reconnect.exit, hpc, Pending]

end Reconnect

end TxSender

namespace TxSender.Transport

open TxSender.Lib
open TxSender.Http
open TxSender.Protocol
open TxSender.Backend
open TxSender.Provider

variable {H A Q K D : Type}

/-! ## What a step does to the standby -/

/-- The event moves no connection and asks for none. -/
def plain : Event H A → Bool
  | .failover _ _ | .install | .request _ => false
  | _ => true

/-- What a call or a step logs for a provider: nothing of interest, one failover with its request, or
one installed standby. -/
inductive Shape (p : ParWorker H Q) : List (Event H A) → Prop
  | plain {evs : List (Event H A)} (h : ∀ e ∈ evs, plain e = true) : Shape p evs
  | failover (before : List (Event H A)) {post : List (Event H A)} {e : Event H A}
      {slot : Option (Job × Nat)} {quicSlot : Option (JobId × Nat)} (hbefore : ∀ e ∈ before, Transport.plain e = true)
      (hbroken : breaks e = true) (hpost : ∀ e ∈ post, Transport.plain e = true) :
      Shape p (before ++
        e :: .failover slot quicSlot :: .request ⟨p.providerIdx, p.connKind⟩ :: post)
  | install {tail : List (Event H A)} (htail : ∀ e ∈ tail, Transport.plain e = true) :
      Shape p (.install :: tail)

theorem Does.shape {api : ConnApi H A Q K} {w w' : ParWorker H Q} {evs : List (Event H A)}
    (h : Does api w evs w') : Shape w evs := by
  have htaken : ∀ (job : Job) (sent : Nat), ∀ e ∈ [(.taken job sent : Event H A)], plain e = true :=
    fun _ _ => List.all_eq_true.mp rfl
  cases h with
  | resent _ _ he =>
      exact .failover _ (htaken _ _) (connError_of_failing he) (List.all_eq_true.mp rfl)
  | lost _ _ he =>
      exact .failover _ (htaken _ _) (connError_of_failing he) (List.all_eq_true.mp rfl)
  | dropped _ _ he =>
      exact .failover _ (htaken _ _) (connError_of_failing he) (List.all_eq_true.mp rfl)
  | failed _ _ he => exact .failover [] (List.all_eq_true.mp rfl) (connError_of_failing he) (List.all_eq_true.mp rfl)
  | died => exact .failover [] (List.all_eq_true.mp rfl) rfl (List.all_eq_true.mp rfl)
  | installed => exact .install (List.all_eq_true.mp rfl)
  | _ => exact .plain (List.all_eq_true.mp rfl)

theorem Act.shape {api : ConnApi H A Q K} {got : Option (ReconnectResp H Q)} {p p' : ParWorker H Q}
    {evs : List (Event H A)} (h : Act api got p evs p') : Shape p evs := by
  cases h with
  | send hdoes => exact hdoes.shape
  | reap a now k hdoes =>
      cases hdoes.shape with
      | plain h => exact .plain h
      | failover before hbefore hbroken hpost => exact .failover before hbefore hbroken hpost
      | install htail => exact .install htail
  | install _ htail =>
      refine .install ?_
      rcases htail with rfl | rfl
      · exact List.all_eq_true.mp rfl
      · exact List.all_eq_true.mp rfl
  | _ => exact .plain (List.all_eq_true.mp rfl)

theorem standby_after_plain {e : Event H A} (h : plain e = true) (m : Marks) :
    (m.after e).standby = m.standby := by
  cases e <;> first | rfl | cases h

theorem standby_plain {evs : List (Event H A)} (h : ∀ e ∈ evs, plain e = true) (m : Marks) :
    (evs.foldl Marks.after m).standby = m.standby := by
  induction evs generalizing m with
  | nil => rfl
  | cons e evs ih =>
      rw [List.foldl_cons, ih fun x hx => h x (List.mem_cons_of_mem _ hx)]
      exact standby_after_plain (h e (List.mem_cons_self ..)) m

/-- After a failover the standby is marked: it was active, and had just failed. -/
theorem standby_failover {before post : List (Event H A)} {e : Event H A} {req : ReconnectReq}
    {slot : Option (Job × Nat)} {quicSlot : Option (JobId × Nat)} (hbroken : breaks e = true)
    (hpost : ∀ e ∈ post, plain e = true) (m : Marks) :
    ((before ++ e :: .failover slot quicSlot :: .request req :: post).foldl Marks.after m).standby =
      true := by
  rw [List.foldl_append, List.foldl_cons, after_of_breaks hbroken, List.foldl_cons, List.foldl_cons,
    standby_plain hpost]
  rfl

/-- What a step of a worker thread logs, over all providers. -/
theorem Workers.Acts.shape {api : ConnApi H A Q K} {ch : Option Nat}
    {got : Option (ReconnectResp H Q)} {ws ws' : Workers H Q} {logs : List (Logged H A)}
    (h : Workers.Acts api ch got ws ws' logs) :
    (∀ i, ∀ e ∈ eventsAt i logs, plain e = true) ∨
      ∃ i p, ∃ evs : List (Event H A), ws.view i = some p ∧ logs = evs.map (.on i) ∧ Shape p evs := by
  rcases h.about with hquiet | ⟨i, p, evs, hp, rfl⟩
  · refine .inl fun i e he => ?_
    have hq := hquiet _ (mem_eventsAt.mp he)
    cases e <;> first | rfl | exact hq.elim
  · obtain ⟨p', -, hact⟩ := h.act i p hp
    rw [eventsAt_map_on] at hact
    exact .inr ⟨i, p, evs, hp, rfl, hact.shape⟩

/-- A connection that a step receives is installed in that step. -/
theorem Workers.step_installs {api : ConnApi H A Q K} {ws ws' : Workers H Q} {j ch : Nat}
    {inp : Input H A Q K} {logs : List (Logged H A)} {idx : Nat} {c : Built H Q}
    (h : ws.step api j inp = .ok (ws', logs)) (hch : ws.receives j = some ch)
    (hgot : inp.delivered = some ⟨idx, .conn c⟩) : ∃ i, .on i .install ∈ logs := by
  cases ws with
  | sequential s pc =>
      cases j with
      | succ j => cases pc <;> cases hch
      | zero =>
          cases pc with
          | deliver i idle =>
              obtain ⟨⟨⟨s', pc'⟩, evs⟩, hstep, h⟩ := bind_eq_ok.mp h
              cases h
              have hi : i < s.reconnectRespRx.length := (List.getElem?_eq_some_iff.mp hch).1
              simp only [SequentialWorker.step, if_pos hi] at hstep
              obtain ⟨⟨s₁, evs₁⟩, hcheck, hstep⟩ := bind_eq_ok.mp hstep
              cases hstep
              rw [hgot, SequentialWorker.checkStandbyDelivery] at hcheck
              obtain ⟨d, -, hcheck⟩ := bind_eq_ok.mp hcheck
              obtain ⟨conns, -, hcheck⟩ := bind_eq_ok.mp hcheck
              cases hcheck
              exact ⟨idx, List.mem_singleton.mpr rfl⟩
          | _ => cases hch
  | parallel ws =>
      simp only [Workers.step] at h
      simp only [Workers.receives] at hch
      cases hst : ws[j]? with
      | none =>
          rw [hst] at hch
          cases hch
      | some st =>
          obtain ⟨w, pc⟩ := st
          rw [hst] at h hch
          obtain ⟨⟨st', evs⟩, hstep, h⟩ := bind_eq_ok.mp h
          cases h
          cases pc with
          | deliver idle =>
              simp only [ParWorker.step, hgot, ParWorker.checkStandbyDelivery] at hstep
              cases hstep
              exact ⟨w.providerIdx, List.mem_cons_self ..⟩
          | _ => cases hch

/-! ## Lost rebuilds -/

/-- A standby that has failed since it was installed has a rebuild pending. -/
def NoLostRebuild (s : Sender H Q) (log : List (Logged H A)) : Prop :=
  ∀ i, (marks (eventsAt i log)).standby = true → s.reconnect.Pending i

/-- The provider that fails over. -/
def failsOver : Logged H A → Option Nat
  | .on i (.failover _ _) => some i
  | _ => none

/-- Every failover of the step finds a rebuild of its provider pending, or room for a request. -/
def HasRoom (s : Sender H Q) (logs : List (Logged H A)) : Prop :=
  ∀ e ∈ logs, ∀ i ∈ failsOver e,
    s.reconnect.Pending i ∨ (s.reconnect.requests.length < reqCap ∧ s.reconnect.pc ≠ .exited)

/-- `connect_one` returned an error. -/
def refused : Exec (Except SenderError (Built H Q)) → Bool
  | .ok (.error _) => true
  | _ => false

/-- When a step may be taken: its failovers have room, and a build fails, or the reconnect thread
exits, only where no failed standby depends on it. -/
def Guard (api : ConnApi H A Q K) (connectOne : Nat → D → Exec (Except SenderError (Built H Q)))
    (s : Sender H Q) (log : List (Logged H A)) : Action H A Q K D → Prop
  | .worker j inp => ∀ out ∈ (s.workers.step api j (s.hand j inp)).toOption, HasRoom s out.2
  | .finish d => ∀ req ∈ s.reconnect.pc.underWay, refused (connectOne req.providerIdx d) = true →
      (marks (eventsAt req.providerIdx log)).standby = true →
      ({ s.reconnect with pc := .waiting }).Pending req.providerIdx
  | .exit => s.stop = true → s.reconnect.pc = .waiting →
      ∀ i < s.reconnect.responses.length, (marks (eventsAt i log)).standby = true →
        (s.reconnect.tryRecv i).isSome = true
  | _ => True

instance (s : Sender H Q) (logs : List (Logged H A)) : Decidable (HasRoom s logs) :=
  inferInstanceAs (Decidable (∀ e ∈ logs, ∀ i ∈ failsOver e, _))

instance (api : ConnApi H A Q K) (connectOne : Nat → D → Exec (Except SenderError (Built H Q)))
    (s : Sender H Q) (log : List (Logged H A)) : ∀ a, Decidable (Guard api connectOne s log a)
  | .worker j inp => inferInstanceAs
      (Decidable (∀ out ∈ (s.workers.step api j (s.hand j inp)).toOption, HasRoom s out.2))
  | .finish d => inferInstanceAs
      (Decidable (∀ req ∈ s.reconnect.pc.underWay, refused (connectOne req.providerIdx d) = true → _ → _))
  | .exit => inferInstanceAs (Decidable (_ → _ → ∀ i < s.reconnect.responses.length, _ → _))
  | .take | .lane _ | .shutdown => isTrue trivial

theorem mem_failsOver {e : Logged H A} {i : Nat} :
    i ∈ failsOver e ↔ ∃ slot quicSlot, e = .on i (.failover slot quicSlot) := by
  cases e with
  | popped => simp [failsOver]
  | on j ev => cases ev <;> simp [failsOver, eq_comm]

theorem hasRoom_iff {s : Sender H Q} {logs : List (Logged H A)} :
    HasRoom s logs ↔ ∀ i slot quicSlot, .on i (.failover slot quicSlot) ∈ logs →
      s.reconnect.Pending i ∨ (s.reconnect.requests.length < reqCap ∧ s.reconnect.pc ≠ .exited) := by
  constructor
  · exact fun h i slot quicSlot hmem => h _ hmem i rfl
  · intro h e he i hi
    obtain ⟨slot, quicSlot, rfl⟩ := mem_failsOver.mp hi
    exact h i slot quicSlot he

section Step

variable {n : Nat} {kind : ConnKind} {made : Nat → Built H Q → Prop} {s s' : Sender H Q}
  {api : ConnApi H A Q K} {builder : ReconnectBuilder H Q D} {log logs : List (Logged H A)}
  {connectOne : Nat → D → Exec (Except SenderError (Built H Q))}

theorem plain_of_breaks {e : Event H A} (h : breaks e = true) : plain e = true := by
  cases e <;> first | rfl | cases h

theorem plain_map_on {evs : List (Event H A)} (h : ∀ e ∈ evs, plain e = true) (i₀ i : Nat) :
    ∀ e ∈ eventsAt i (evs.map (.on i₀)), plain e = true := by
  intro e he
  obtain ⟨ev, hev, heq⟩ := List.mem_map.mp (mem_eventsAt.mp he)
  obtain ⟨-, rfl⟩ := Logged.on.inj heq
  exact h ev hev

theorem requestsIn_plain (h : ∀ i, ∀ e ∈ eventsAt i logs, plain e = true) : requestsIn logs = [] := by
  refine List.eq_nil_iff_forall_not_mem.mpr fun req hreq => ?_
  obtain ⟨i, hi⟩ := mem_requestsIn.mp hreq
  cases h i _ (mem_eventsAt.mpr hi)

theorem requestsIn_append (l₁ l₂ : List (Logged H A)) :
    requestsIn (l₁ ++ l₂) = requestsIn l₁ ++ requestsIn l₂ := List.filterMap_append

/-- A failover makes the one request. -/
theorem requestsIn_failover {before post : List (Event H A)} {e : Event H A} {req : ReconnectReq}
    {slot : Option (Job × Nat)} {quicSlot : Option (JobId × Nat)} {i₀ : Nat}
    (hbefore : ∀ e ∈ before, plain e = true) (hbroken : breaks e = true)
    (hpost : ∀ e ∈ post, plain e = true) :
    requestsIn ((before ++ e :: .failover slot quicSlot :: .request req :: post).map (.on i₀)) =
      [req] := by
  have hhead : ∀ x ∈ before ++ [e], plain x = true := by
    intro x hx
    rcases List.mem_append.mp hx with hx | hx
    · exact hbefore x hx
    · rw [List.mem_singleton.mp hx]
      exact plain_of_breaks hbroken
  have hsplit : (before ++ e :: .failover slot quicSlot :: .request req :: post).map (Logged.on i₀) =
      (before ++ [e]).map (.on i₀) ++
        ([.on i₀ (.failover slot quicSlot), .on i₀ (.request req)] ++ post.map (.on i₀)) := by
    simp
  rw [hsplit, requestsIn_append, requestsIn_append, requestsIn_plain (plain_map_on hhead i₀),
    requestsIn_plain (plain_map_on hpost i₀)]
  rfl

theorem requestsIn_install {tail : List (Event H A)} {i₀ : Nat} (htail : ∀ e ∈ tail, plain e = true) :
    requestsIn ((.install :: tail).map (.on i₀)) = [] := by
  rw [List.map_cons, ← List.singleton_append, requestsIn_append,
    requestsIn_plain (plain_map_on htail i₀)]
  rfl

/-- A step that installs nothing has taken nothing out of a channel. -/
theorem afterRecv_of_not_install (hw : s.Wired n kind made) {j : Nat} {inp : Input H A Q K}
    {ws' : Workers H Q} (hstep : s.workers.step api j (s.hand j inp) = .ok (ws', logs))
    (hnot : ∀ i, .on i .install ∉ logs) : s.afterRecv j = s.reconnect := by
  unfold Sender.afterRecv
  split
  · rename_i ch hch
    refine Reconnect.received_of_none ?_
    cases hrecv : s.reconnect.tryRecv ch with
    | none => rfl
    | some resp =>
        have hgot : (s.hand j inp).delivered = some resp :=
          (congrArg (Option.bind · s.reconnect.tryRecv) hch).trans hrecv
        obtain ⟨-, hslot⟩ := Sender.hand_delivered hw hgot
        obtain ⟨-, c, hc, -⟩ := hw.reconnect.responses _ _ hslot
        obtain ⟨idx, conn⟩ := resp
        obtain rfl : conn = .conn c := hc
        obtain ⟨i, hi⟩ := Workers.step_installs hstep hch hgot
        exact absurd hi (hnot i)
  · rfl

/-- What a step of a worker does to the standbys and to the channels: nothing, one failover with its
request, or one connection taken out of the channel of its provider and installed. -/
inductive StandbyMoves (r : Reconnect H Q) : Reconnect H Q → List (Logged H A) → Prop
  | plain {logs : List (Logged H A)} (h : ∀ i, ∀ e ∈ eventsAt i logs, plain e = true) : StandbyMoves r r logs
  | failover (req : ReconnectReq) (before : List (Event H A)) {post : List (Event H A)} {e : Event H A}
      {slot : Option (Job × Nat)} {quicSlot : Option (JobId × Nat)}
      (hbefore : ∀ e ∈ before, Transport.plain e = true) (hbroken : breaks e = true)
      (hpost : ∀ e ∈ post, Transport.plain e = true) :
      StandbyMoves r (r.request req)
        ((before ++ e :: .failover slot quicSlot :: .request req :: post).map (.on req.providerIdx))
  | install {i : Nat} {resp : ReconnectResp H Q} {tail : List (Event H A)}
      (hgot : r.tryRecv i = some resp) (htail : ∀ e ∈ tail, Transport.plain e = true) :
      StandbyMoves r (r.received i) ((.install :: tail).map (.on i))

theorem moves_of_plain (hw : s.Wired n kind made) {j : Nat} {inp : Input H A Q K}
    (hstep : s.workers.step api j (s.hand j inp) = .ok (s'.workers, logs))
    (hrec : s'.reconnect = (requestsIn logs).foldl Reconnect.request (s.afterRecv j))
    (hplain : ∀ i, ∀ e ∈ eventsAt i logs, plain e = true) : StandbyMoves s.reconnect s'.reconnect logs := by
  have hnot : ∀ i, .on i .install ∉ logs := fun i hi => by cases hplain i _ (mem_eventsAt.mpr hi)
  rw [requestsIn_plain hplain, List.foldl_nil, afterRecv_of_not_install hw hstep hnot] at hrec
  rw [hrec]
  exact .plain hplain

/-- **A step of a worker**, as far as the standbys are concerned. -/
theorem worker_moves (hw : s.Wired n kind made) {j : Nat} {inp : Input H A Q K}
    (h : Sender.step api builder s (.worker j inp) = .ok (s', logs)) :
    StandbyMoves s.reconnect s'.reconnect logs := by
  obtain ⟨hstep, -, hacts, hrec, -, -⟩ := Sender.step_worker hw h
  rcases hacts.shape with hplain | ⟨i₀, p, evs, hp, rfl, hshape⟩
  · exact moves_of_plain hw hstep hrec hplain
  · have hidx := (hw.workers.ends i₀ p hp).providerIdx
    cases hshape with
    | plain hevs => exact moves_of_plain hw hstep hrec (plain_map_on hevs i₀)
    | @failover before post e slot quicSlot hbefore hbroken hpost =>
        have hnot : ∀ i, .on i .install ∉ (before ++ e :: .failover slot quicSlot ::
            .request ⟨p.providerIdx, p.connKind⟩ :: post).map (Logged.on (A := A) i₀) := by
          intro i hi
          obtain ⟨x, hx, heq⟩ := List.mem_map.mp hi
          obtain ⟨-, rfl⟩ := Logged.on.inj heq
          simp only [List.mem_append, List.mem_cons, reduceCtorEq, false_or] at hx
          rcases hx with hx | rfl | hx
          · cases hbefore _ hx
          · cases hbroken
          · cases hpost _ hx
        rw [requestsIn_failover hbefore hbroken hpost, afterRecv_of_not_install hw hstep hnot] at hrec
        rw [hrec, ← hidx]
        exact .failover ⟨p.providerIdx, p.connKind⟩ before hbefore hbroken hpost
    | @install tail htail =>
        -- the channel that was read is the one of the provider that gets the connection
        have hch : s.workers.receives j = some i₀ := hacts.installed i₀ (List.mem_cons_self ..)
        obtain ⟨p', -, hact⟩ := hacts.act i₀ p hp
        rw [eventsAt_map_on] at hact
        obtain ⟨resp, hgot⟩ := hact.got_of_install (List.mem_cons_self ..)
        have hrecv : s.reconnect.tryRecv i₀ = some resp :=
          (congrArg (Option.bind · s.reconnect.tryRecv) hch).symm.trans hgot
        rw [requestsIn_install htail, List.foldl_nil, Sender.afterRecv, hch] at hrec
        rw [hrec]
        exact .install hrecv htail

/-- A step that leaves the channels and the marks of the standbys as they are. -/
theorem noLost_same (hP : NoLostRebuild s log) (hrec : s'.reconnect = s.reconnect)
    (hplain : ∀ i, ∀ e ∈ eventsAt i logs, plain e = true) : NoLostRebuild s' (log ++ logs) := by
  intro i hi
  rw [eventsAt_append, marks_append, standby_plain (hplain i)] at hi
  rw [hrec]
  exact hP i hi

/-- A failover keeps the property exactly when its request is taken, or not needed. -/
theorem noLost_failover (hP : NoLostRebuild s log) {i₀ : Nat} {req : ReconnectReq}
    {evs : List (Event H A)} (hreq : req.providerIdx = i₀) (hrec : s'.reconnect = s.reconnect.request req)
    (hfail : ∃ slot quicSlot, .failover slot quicSlot ∈ evs)
    (hmark : ∀ m : Marks, (evs.foldl Marks.after m).standby = true) :
    NoLostRebuild s' (log ++ evs.map (.on i₀)) ↔ HasRoom s (evs.map (.on i₀)) := by
  have hpending : s'.reconnect.Pending i₀ ↔ s.reconnect.Pending i₀ ∨
      (s.reconnect.requests.length < reqCap ∧ s.reconnect.pc ≠ .exited) := by
    rw [hrec, Reconnect.pending_request]
    simp [hreq]
  rw [hasRoom_iff]
  constructor
  · intro h i slot quicSlot hmem
    obtain ⟨e, -, heq⟩ := List.mem_map.mp hmem
    obtain ⟨rfl, -⟩ := Logged.on.inj heq
    refine hpending.mp (h i₀ ?_)
    rw [eventsAt_append, marks_append, eventsAt_map_on]
    exact hmark _
  · intro h i hi
    by_cases hii : i = i₀
    · subst hii
      obtain ⟨slot, quicSlot, hmem⟩ := hfail
      exact hpending.mpr (h i slot quicSlot (List.mem_map.mpr ⟨_, hmem, rfl⟩))
    · -- the others keep what was pending for them: a request never removes another
      rw [eventsAt_append, eventsAt_map_on_ne (Ne.symm hii), List.append_nil] at hi
      rw [hrec, Reconnect.pending_request]
      exact .inl (hP i hi)

/-- Installing a standby keeps the property: the standby is new, and its channel was only its own. -/
theorem noLost_install (hP : NoLostRebuild s log) {i₀ : Nat} {tail : List (Event H A)}
    (hrec : s'.reconnect = s.reconnect.received i₀) (htail : ∀ e ∈ tail, plain e = true) :
    NoLostRebuild s' (log ++ (.install :: tail).map (.on i₀)) := by
  intro i hi
  by_cases hii : i = i₀
  · subst hii
    rw [eventsAt_append, marks_append, eventsAt_map_on, List.foldl_cons, standby_plain htail] at hi
    cases hi
  · rw [eventsAt_append, eventsAt_map_on_ne (Ne.symm hii), List.append_nil] at hi
    rw [hrec, Reconnect.pending_received_ne (Ne.symm hii)]
    exact hP i hi

/-- **A step of a worker** keeps the property exactly when its failovers have room. -/
theorem noLost_worker (hP : NoLostRebuild s log) {r' : Reconnect H Q}
    (hrec : s'.reconnect = r') (h : StandbyMoves s.reconnect r' logs) :
    NoLostRebuild s' (log ++ logs) ↔ HasRoom s logs := by
  cases h with
  | plain hplain =>
      refine ⟨fun _ => hasRoom_iff.mpr fun i slot quicSlot hmem => ?_,
        fun _ => noLost_same hP hrec hplain⟩
      cases hplain i _ (mem_eventsAt.mpr hmem)
  | @failover req before post e slot quicSlot hbefore hbroken hpost =>
      exact noLost_failover hP rfl hrec ⟨slot, quicSlot, by simp⟩ (standby_failover hbroken hpost)
  | @install i₀ resp tail hgot htail =>
      refine ⟨fun _ => hasRoom_iff.mpr fun i slot quicSlot hmem => ?_,
        fun _ => noLost_install hP hrec htail⟩
      obtain ⟨x, hx, heq⟩ := List.mem_map.mp hmem
      obtain ⟨-, rfl⟩ := Logged.on.inj heq
      rcases List.mem_cons.mp hx with hx | hx
      · cases hx
      · cases htail _ hx

/-- A build that returns keeps the property exactly when it succeeds or was not needed. -/
theorem noLost_finish (hw : s.Wired n kind made) (hP : NoLostRebuild s log) {d : D}
    {r' : Reconnect H Q}
    (h : s.reconnect.finish (engineReconnectBuilder connectOne) d = .ok r') :
    NoLostRebuild { s with reconnect := r' } log ↔ Guard api connectOne s log (.finish d) := by
  rcases Reconnect.finish_cases h with ⟨hnot, rfl⟩ | ⟨req, hpc, ⟨e, he, rfl⟩ | ⟨c, hc, rfl⟩⟩
  · exact ⟨fun _ req hreq => absurd (ReconnectPc.mem_underWay.mp hreq) (hnot req), fun _ => hP⟩
  · constructor
    · exact fun hP' req' _ _ hmark => hP' req'.providerIdx hmark
    · intro hguard i hmark
      by_cases hi : req.providerIdx = i
      · subst hi
        exact hguard req (ReconnectPc.mem_underWay.mpr hpc) (by rw [he]; rfl) hmark
      · exact (hP i hmark).idle hpc hi
  · constructor
    · intro _ req' hreq' hrefused
      obtain rfl := ReconnectPc.building.inj (hpc.symm.trans (ReconnectPc.mem_underWay.mp hreq'))
      rw [hc] at hrefused
      cases hrefused
    · intro _ i hmark
      have hlt : req.providerIdx < ({ s.reconnect with pc := .waiting }).responses.length := by
        rw [hw.reconnect.length]
        exact (hw.reconnect.building req hpc).1
      refine (Reconnect.pending_respond hlt (.conn c)).mpr ?_
      by_cases hi : req.providerIdx = i
      · exact .inr hi
      · exact .inl ((hP i hmark).idle hpc hi)

theorem noLost_exit (hw : s.Wired n kind made) (hP : NoLostRebuild s log) :
    NoLostRebuild (if s.stop then { s with reconnect := s.reconnect.exit } else s) log ↔
      Guard api connectOne s log (.exit : Action H A Q K D) := by
  by_cases hstop : s.stop = true
  · rw [if_pos hstop]
    by_cases hpc : s.reconnect.pc = .waiting
    · -- the queue is dropped: what was pending has to be in a response channel already
      constructor
      · exact fun hP' _ _ i _ hmark =>
          Reconnect.isSome_tryRecv.mpr ((Reconnect.pending_exit hpc).mp (hP' i hmark))
      · intro hguard i hmark
        have hlt : i < s.reconnect.responses.length := by
          rw [hw.reconnect.length]
          exact (hP i hmark).lt hw.reconnect
        exact (Reconnect.pending_exit hpc).mpr
          (Reconnect.isSome_tryRecv.mp (hguard hstop hpc i hlt hmark))
    · refine ⟨fun _ _ h => absurd h hpc, fun _ i hmark => ?_⟩
      have hexit : s.reconnect.exit = s.reconnect := by
        unfold Reconnect.exit
        split
        · contradiction
        · rfl
      rw [hexit]
      exact hP i hmark
  · rw [if_neg hstop]
    exact ⟨fun _ h => absurd h hstop, fun _ => hP⟩

/-- **A step of the sender** keeps the property exactly when it meets the guard. -/
theorem noLost_step (hkind : kind ≠ .libTpa)
    (hw : s.Wired n kind fun i c => ∃ d, connectOne i d = .ok (.ok c)) (hP : NoLostRebuild s log)
    {a : Action H A Q K D}
    (h : Sender.step api (engineReconnectBuilder connectOne) s a = .ok (s', logs)) :
    NoLostRebuild s' (log ++ logs) ↔ Guard api connectOne s log a := by
  cases a with
  | worker j inp =>
      obtain ⟨hstep, -⟩ := Sender.step_worker hw h
      rw [noLost_worker hP rfl (worker_moves hw h)]
      simp only [Guard, hstep]
      exact ⟨fun hroom out hout => by obtain rfl := Option.some.inj hout; exact hroom,
        fun hguard => hguard _ rfl⟩
  | take =>
      cases h
      rw [List.append_nil]
      exact ⟨fun _ => trivial, fun _ i hmark => (hP i hmark).take hw.reconnect hkind⟩
  | finish d =>
      obtain ⟨r', hfin, h⟩ := bind_eq_ok.mp h
      cases h
      rw [List.append_nil]
      exact noLost_finish hw hP hfin
  | exit =>
      cases h
      rw [List.append_nil]
      exact noLost_exit hw hP
  | lane sawStop =>
      obtain ⟨lane, -, h⟩ := bind_eq_ok.mp h
      cases h
      rw [List.append_nil]
      exact ⟨fun _ => trivial, fun _ => hP⟩
  | shutdown =>
      cases h
      rw [List.append_nil]
      exact ⟨fun _ => trivial, fun _ => hP⟩

/-- **Lost rebuilds.** However the threads of a new sender interleave, a failed standby has a rebuild
pending at every moment exactly when every step that is taken meets the guard. -/
theorem no_lost_rebuild_iff_guarded {b : SenderBuilder} {ds : Nat → D × D}
    (hbuild : b.build connectOne ds = .ok (.ok s)) (actions : List (Action H A Q K D)) :
    (Sender.machine api (engineReconnectBuilder connectOne)).Always NoLostRebuild s [] actions ↔
      (Sender.machine api (engineReconnectBuilder connectOne)).Guarded (Guard api connectOne) s []
        actions := by
  obtain ⟨engine, -, hw, -⟩ := build_spec hbuild
  have hkind : engine.connKind ≠ .libTpa := by cases engine <;> nofun
  refine Machine.always_iff_guarded _
    (fun s _ => s.Wired b.providers.length engine.connKind fun i c => ∃ d, connectOne i d = .ok (.ok c))
    NoLostRebuild _ (fun s log a s' evs hinv hP hone => ?_) hw nofun
  exact ⟨Sender.wired_step hinv hone, noLost_step hkind hinv hP hone⟩

end Step

/-- Provider 0 is reset and fails over; the reconnect thread takes the request, and its build
succeeds or not. -/
def resetThenBuild (up : Bool) :
    List (Action (HttpConn RawConn Bytes) RawAnswer (QuicEngine Bool) Bool Bool) :=
  let base := Input.quiet RawAnswer.silent false
  [.worker 0 base, .worker 0 { base with call := { sends := [], recvs := [.failed 104] } }, .take,
    .finish up]

/-- The idle worker looks into its response channel. -/
def installing : List (Action (HttpConn RawConn Bytes) RawAnswer (QuicEngine Bool) Bool Bool) :=
  let base := Input.quiet RawAnswer.silent false
  [.worker 0 base, .worker 0 { base with empty := true }, .worker 0 base]

/-- One build that fails, and nothing is pending for the failed standby. -/
theorem failed_build_loses_rebuild :
    ∃ s, (bareSender .parRaw [bareProvider .noResponse]).build
        (bareConnectOne [bareProvider .noResponse]) (fun _ => (true, true)) = .ok (.ok s) ∧
      ∃ out ∈ ((bareMachine [bareProvider .noResponse]).run s (resetThenBuild false)).toOption,
        (marks (eventsAt 0 out.2)).standby = true ∧ ¬ out.1.reconnect.Pending 0 :=
  exists_built _ _ _ _ (by decide +kernel)

theorem no_lost_rebuild_iff_guarded_rebuilt :
    ∃ s, (bareSender .parRaw [bareProvider .noResponse]).build
        (bareConnectOne [bareProvider .noResponse]) (fun _ => (true, true)) = .ok (.ok s) ∧
      (bareMachine [bareProvider .noResponse]).Always NoLostRebuild s []
        (resetThenBuild true ++ installing) ∧
      ∃ out ∈ ((bareMachine [bareProvider .noResponse]).run s
          (resetThenBuild true ++ installing)).toOption,
        out.2.any (fun e => (failsOver e).isSome) = true ∧
          (marks (eventsAt 0 out.2)).standby = false := by
  obtain ⟨s, hbuild, hguarded, hrun⟩ := exists_built (bareSender .parRaw [bareProvider .noResponse])
    (bareConnectOne [bareProvider .noResponse]) (fun _ => (true, true))
    (fun s => (bareMachine [bareProvider .noResponse]).Guarded
        (Guard (rawApi plainTls (quinnApi flagQuinn)) (bareConnectOne [bareProvider .noResponse])) s []
          (resetThenBuild true ++ installing) ∧
      ∃ out ∈ ((bareMachine [bareProvider .noResponse]).run s
          (resetThenBuild true ++ installing)).toOption,
        out.2.any (fun e => (failsOver e).isSome) = true ∧
          (marks (eventsAt 0 out.2)).standby = false) (by decide +kernel)
  exact ⟨s, hbuild, (no_lost_rebuild_iff_guarded hbuild _).mpr hguarded, hrun⟩

end TxSender.Transport
