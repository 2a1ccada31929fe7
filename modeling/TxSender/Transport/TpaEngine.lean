/-
# TxSender.Transport.TpaEngine — the engine whose workers connect themselves.

With `libtpa` a connection belongs to the thread that made it, so `build` starts the worker threads first
and each of them attaches to the stack and connects twice before it enters its loop. Two things follow that
no other engine shows. A thread that fails on the way returns, and nobody is told: its trigger ring is still
there and nobody pops it (`unserved_provider_refuses`). And a worker's request for a new connection is passed
over by the reconnect thread, so that a worker goes back and forth between the two connections it started
with (`tpa_conns_alternate`).
-/
import TxSender.Transport.Delivery
import TxSender.Transport.Isolation

namespace TxSender.Transport

open TxSender.Lib
open TxSender.Protocol
open TxSender.Backend
open TxSender.Provider

variable {H A Q K D : Type}

/-! ## The threads -/

/-- Where the thread of a provider stands. -/
inductive TpaThread (H Q : Type) where
  /-- before `attach_worker` -/
  | attaching
  /-- in `connect_one`, for the active connection -/
  | connecting
  /-- in `connect_one`, for the standby -/
  | connectingStandby (active : Built H Q)
  /-- in `worker.run` -/
  | running (w : ParWorker H Q) (pc : ParWorker.Pc)
  /-- returned before that, its ends of the channels dropped -/
  | gaveUp

namespace TpaThread

/-- The thread is in its loop. -/
def inLoop : TpaThread H Q → Bool
  | .running _ _ => true
  | _ => false

/-- The response channel on which the next step calls `try_recv`. -/
def receives : TpaThread H Q → Option Nat
  | .running w (.deliver _) => some w.reconnectRespRx
  | _ => none

/-- The next step of the thread of provider `i`: with what `attach_worker` and `connect_one` answer before
the loop, with the input of the worker in it. -/
def step (api : ConnApi H A Q K) (connectOne : Nat → D → Exec (Except SenderError (Built H Q))) (i : Nat)
    (attached : Bool) (d : D) (inp : Input H A Q K) :
    TpaThread H Q → Exec (TpaThread H Q × List (Logged H A))
  | .attaching => .ok (if attached then .connecting else .gaveUp, [])
  | .connecting => do
      match ← connectOne i d with
      | .ok active => pure (.connectingStandby active, [])
      -- `let Ok(..) = .. else { return }`: the error goes nowhere
      | .error _ => pure (.gaveUp, [])
  | .connectingStandby active => do
      match ← connectOne i d with
      | .ok standby => pure (.running (startedPar i i i .libTpa i active standby) .top, [])
      | .error _ => pure (.gaveUp, [])
  | .running w pc => do
      let ((w, pc), logs) ← ParWorker.step api (w, pc) inp
      pure (.running w pc, logs)
  | .gaveUp => .ok (.gaveUp, [])

/-- What a step of a thread can do. -/
inductive Moves (api : ConnApi H A Q K) (connectOne : Nat → D → Exec (Except SenderError (Built H Q)))
    (i : Nat) (inp : Input H A Q K) :
    TpaThread H Q → TpaThread H Q → List (Logged H A) → Prop
  | attached : Moves api connectOne i inp .attaching .connecting []
  | gaveUp {t : TpaThread H Q} (ht : t.inLoop = false) : Moves api connectOne i inp t .gaveUp []
  | connected {d : D} {active : Built H Q} (h : connectOne i d = .ok (.ok active)) :
      Moves api connectOne i inp .connecting (.connectingStandby active) []
  | entered {d : D} {active standby : Built H Q} (h : connectOne i d = .ok (.ok standby)) :
      Moves api connectOne i inp (.connectingStandby active)
        (.running (startedPar i i i .libTpa i active standby) .top) []
  | worked {w w' : ParWorker H Q} {pc pc' : ParWorker.Pc} {logs : List (Logged H A)}
      (h : ParWorker.step api (w, pc) inp = .ok ((w', pc'), logs)) :
      Moves api connectOne i inp (.running w pc) (.running w' pc') logs

theorem step_moves {api : ConnApi H A Q K} {connectOne : Nat → D → Exec (Except SenderError (Built H Q))}
    {i : Nat} {attached : Bool} {d : D} {inp : Input H A Q K} {t t' : TpaThread H Q}
    {logs : List (Logged H A)} (h : t.step api connectOne i attached d inp = .ok (t', logs)) :
    Moves api connectOne i inp t t' logs := by
  cases t with
  | attaching =>
      obtain ⟨rfl, rfl⟩ := Prod.mk.inj (Except.ok.inj h)
      cases attached with
      | true => exact .attached
      | false => exact .gaveUp rfl
  | connecting =>
      obtain ⟨r, hr, h⟩ := bind_eq_ok.mp h
      cases r with
      | ok active =>
          obtain ⟨rfl, rfl⟩ := Prod.mk.inj (Except.ok.inj h)
          exact .connected hr
      | error e =>
          obtain ⟨rfl, rfl⟩ := Prod.mk.inj (Except.ok.inj h)
          exact .gaveUp rfl
  | connectingStandby active =>
      obtain ⟨r, hr, h⟩ := bind_eq_ok.mp h
      cases r with
      | ok standby =>
          obtain ⟨rfl, rfl⟩ := Prod.mk.inj (Except.ok.inj h)
          exact .entered hr
      | error e =>
          obtain ⟨rfl, rfl⟩ := Prod.mk.inj (Except.ok.inj h)
          exact .gaveUp rfl
  | running w pc =>
      obtain ⟨⟨⟨w', pc'⟩, logs'⟩, hstep, h⟩ := bind_eq_ok.mp h
      obtain ⟨rfl, rfl⟩ := Prod.mk.inj (Except.ok.inj h)
      exact .worked hstep
  | gaveUp =>
      obtain ⟨rfl, rfl⟩ := Prod.mk.inj (Except.ok.inj h)
      exact .gaveUp rfl

end TpaThread

/-! ## The engine -/

/-- The trigger rings and the caller in front of them, the worker threads, and what they share. -/
structure TpaSender (H Q : Type) where
  rings : List (List Job)
  caller : Caller
  threads : List (TpaThread H Q)
  reconnect : Reconnect H Q
  lane : ResultLane
  stop : Bool

inductive TpaAction (H A Q K D : Type) where
  /-- `trigger(job)` is called -/
  | call (job : Job)
  /-- the next push of the call, or its return -/
  | push
  | thread (i : Nat) (attached : Bool) (d : D) (inp : Input H A Q K)
  /-- the reconnect thread takes a request -/
  | take
  /-- its build returns -/
  | finish (d : D)
  /-- the reconnect thread sees the stop flag -/
  | exit
  | lane (sawStop : Bool)
  | shutdown

/-- `TpaReconnectBuilder::build` -/
def tpaReconnectBuilder : ReconnectBuilder H Q D := fun _ _ _ => .ok (.error .notSupported)

namespace TpaSender

/-- As `build` leaves it: the threads are started and have done nothing yet. -/
def spawn (providers : List ProviderConfig) : TpaSender H Q where
  rings := List.replicate providers.length []
  caller := .idle
  threads := List.replicate providers.length .attaching
  reconnect := .spawn providers.length
  lane := ResultLane.new (providers.map ProviderConfig.codec)
  stop := false

/-- What stands in the ring of provider `i`. -/
def ring (s : TpaSender H Q) (i : Nat) : List Job := (s.rings[i]?).getD []

/-- What the thread `t` of provider `i` finds in its ring, its channel and the stop flag, which it may see
late. -/
def hand (s : TpaSender H Q) (i : Nat) (t : TpaThread H Q) (inp : Input H A Q K) : Input H A Q K :=
  { inp with
    stop := inp.stop && s.stop
    popped := (s.ring i).head?
    empty := (s.ring i).isEmpty
    delivered := t.receives.bind s.reconnect.tryRecv }

/-- The channels after the `try_recv` of that step. -/
def afterRecv (s : TpaSender H Q) (t : TpaThread H Q) : Reconnect H Q :=
  match t.receives with
  | some ch => s.reconnect.received ch
  | none => s.reconnect

/-- The sender after a step of the thread of provider `i` from `t` to `t'`, with what the step took from
and put into the rings and channels. -/
def absorb (s : TpaSender H Q) (i : Nat) (t t' : TpaThread H Q) (logs : List (Logged H A)) :
    TpaSender H Q :=
  { s with
    rings := s.rings.modify i (·.drop (poppedJobs logs).length)
    threads := s.threads.set i t'
    reconnect := (requestsIn logs).foldl Reconnect.request (s.afterRecv t)
    lane := (pushesIn logs).foldl (fun l x => l.push x.1 x.2) s.lane }

def step (api : ConnApi H A Q K) (connectOne : Nat → D → Exec (Except SenderError (Built H Q)))
    (s : TpaSender H Q) :
    TpaAction H A Q K D → Exec (TpaSender H Q × List (ServiceEvent H A))
  | .call job =>
      match s.caller with
      | .idle => .ok ({ s with caller := .pushing job 0 true }, [.called job])
      | .pushing _ _ _ => .ok (s, [])
  | .push =>
      match s.caller with
      | .idle => .ok (s, [])
      | .pushing job k ok =>
          match s.rings[k]? with
          | some ring =>
              let (ring, r) := tryPush ring job
              .ok ({ s with
                rings := s.rings.set k ring
                caller := .pushing job (k + 1) (ok && r.isOk) }, [])
          | none =>
              .ok ({ s with caller := .idle },
                [.returned job (if ok then .ok () else .error .backpressure)])
  | .thread i attached d inp =>
      match s.threads[i]? with
      | none => .ok (s, [])
      | some t => do
          let (t', logs) ← t.step api connectOne i attached d (s.hand i t inp)
          pure (s.absorb i t t' logs, logs.map (.thread i))
  | .take => .ok ({ s with reconnect := s.reconnect.take }, [])
  | .finish d => do
      let reconnect ← s.reconnect.finish tpaReconnectBuilder d
      pure ({ s with reconnect }, [])
  | .exit => .ok (if s.stop then { s with reconnect := s.reconnect.exit } else s, [])
  | .lane sawStop => do
      let lane ← s.lane.step (sawStop && s.stop)
      pure ({ s with lane }, [])
  | .shutdown => .ok ({ s with stop := true }, [])

def machine (api : ConnApi H A Q K) (connectOne : Nat → D → Exec (Except SenderError (Built H Q))) :
    Machine (TpaSender H Q) (TpaAction H A Q K D) (ServiceEvent H A) where
  step := step api connectOne

/-- What a step can do to the rings and the threads; the channels of the reconnect thread and the lane are
changed besides. -/
inductive Turn (api : ConnApi H A Q K) (connectOne : Nat → D → Exec (Except SenderError (Built H Q)))
    (s : TpaSender H Q) : TpaSender H Q → List (ServiceEvent H A) → Prop
  | call (job : Job) (hidle : s.caller = .idle) :
      Turn api connectOne s { s with caller := .pushing job 0 true } [.called job]
  | push (job : Job) (k : Nat) (ok : Bool) (ring : List Job) (hpush : s.caller = .pushing job k ok)
      (hring : s.rings[k]? = some ring) :
      Turn api connectOne s
        { s with
          rings := s.rings.set k (tryPush ring job).1
          caller := .pushing job (k + 1) (ok && (tryPush ring job).2.isOk) } []
  | ret (job : Job) (k : Nat) (ok : Bool) (hpush : s.caller = .pushing job k ok)
      (hend : s.rings.length ≤ k) :
      Turn api connectOne s { s with caller := .idle }
        [.returned job (if ok then .ok () else .error .backpressure)]
  | thread (i : Nat) (t t' : TpaThread H Q) (inp : Input H A Q K) (logs : List (Logged H A))
      (ht : s.threads[i]? = some t) (hmove : TpaThread.Moves api connectOne i (s.hand i t inp) t t' logs) :
      Turn api connectOne s (s.absorb i t t' logs) (logs.map (.thread i))
  /-- a step of the reconnect thread, which builds nothing -/
  | reconnect (rc : Reconnect H Q)
      (hrc : rc = s.reconnect ∨ rc = s.reconnect.take ∨ rc = s.reconnect.exit ∨
        rc = { s.reconnect with pc := .waiting }) :
      Turn api connectOne s { s with reconnect := rc } []
  | lane (lane : ResultLane) : Turn api connectOne s { s with lane } []
  | shutdown : Turn api connectOne s { s with stop := true } []

section Absorb

variable {s : TpaSender H Q} {i j : Nat} {t t' : TpaThread H Q} {logs : List (Logged H A)}

theorem absorb_threads_self (ht : s.threads[i]? = some t) :
    (s.absorb i t t' logs).threads[i]? = some t' :=
  List.getElem?_set_self (List.getElem?_eq_some_iff.mp ht).1

theorem absorb_threads_ne (hij : i ≠ j) : (s.absorb i t t' logs).threads[j]? = s.threads[j]? :=
  List.getElem?_set_ne hij

theorem absorb_ring_ne (hij : i ≠ j) : (s.absorb i t t' logs).ring j = s.ring j := by
  show ((s.rings.modify i (·.drop (poppedJobs logs).length))[j]?).getD [] = (s.rings[j]?).getD []
  simp only [List.getElem?_modify, hij, if_false]
  cases s.rings[j]? with
  | none => rfl
  | some ring => rfl

/-- A step outside the loop pops nothing. -/
theorem absorb_ring_nil : (s.absorb i t t' ([] : List (Logged H A))).ring j = s.ring j := by
  show ((s.rings.modify i (·.drop 0))[j]?).getD [] = (s.rings[j]?).getD []
  simp only [List.getElem?_modify]
  cases s.rings[j]? with
  | none => rfl
  | some ring => split <;> rfl

end Absorb

theorem finish_tpa {rc rc' : Reconnect H Q} {d : D} (h : rc.finish tpaReconnectBuilder d = .ok rc') :
    rc' = rc ∨ rc' = { rc with pc := .waiting } := by
  unfold Reconnect.finish at h
  split at h
  · exact .inr (Except.ok.inj h).symm
  · exact .inl (Except.ok.inj h).symm

variable {api : ConnApi H A Q K} {connectOne : Nat → D → Exec (Except SenderError (Built H Q))}
  {s s' : TpaSender H Q} {a : TpaAction H A Q K D} {evs : List (ServiceEvent H A)}

theorem step_turn (h : s.step api connectOne a = .ok (s', evs)) : Turn api connectOne s s' evs := by
  cases a with
  | call job =>
      simp only [step] at h
      split at h
      · rename_i hidle
        obtain ⟨rfl, rfl⟩ := Prod.mk.inj (Except.ok.inj h)
        exact .call job hidle
      · obtain ⟨rfl, rfl⟩ := Prod.mk.inj (Except.ok.inj h)
        exact .reconnect _ (.inl rfl)
  | push =>
      simp only [step] at h
      split at h
      · obtain ⟨rfl, rfl⟩ := Prod.mk.inj (Except.ok.inj h)
        exact .reconnect _ (.inl rfl)
      · rename_i job k ok hpush
        split at h
        · rename_i ring hring
          obtain ⟨rfl, rfl⟩ := Prod.mk.inj (Except.ok.inj h)
          exact .push job k ok ring hpush hring
        · rename_i hnone
          obtain ⟨rfl, rfl⟩ := Prod.mk.inj (Except.ok.inj h)
          exact .ret job k ok hpush (List.getElem?_eq_none_iff.mp hnone)
  | thread i attached d inp =>
      simp only [step] at h
      cases ht : s.threads[i]? with
      | none =>
          rw [ht] at h
          obtain ⟨rfl, rfl⟩ := Prod.mk.inj (Except.ok.inj h)
          exact .reconnect _ (.inl rfl)
      | some t =>
          rw [ht] at h
          obtain ⟨⟨t', logs⟩, hstep, h⟩ := bind_eq_ok.mp h
          obtain ⟨rfl, rfl⟩ := Prod.mk.inj (Except.ok.inj h)
          exact .thread i t t' inp logs ht (TpaThread.step_moves hstep)
  | take =>
      obtain ⟨rfl, rfl⟩ := Prod.mk.inj (Except.ok.inj h)
      exact .reconnect _ (.inr (.inl rfl))
  | finish d =>
      obtain ⟨rc, hfin, h⟩ := bind_eq_ok.mp h
      obtain ⟨rfl, rfl⟩ := Prod.mk.inj (Except.ok.inj h)
      rcases finish_tpa hfin with rfl | rfl
      · exact .reconnect _ (.inl rfl)
      · exact .reconnect _ (.inr (.inr (.inr rfl)))
  | exit =>
      obtain ⟨rfl, rfl⟩ := Prod.mk.inj (Except.ok.inj h)
      split
      · exact .reconnect _ (.inr (.inr (.inl rfl)))
      · exact .reconnect _ (.inl rfl)
  | lane sawStop =>
      obtain ⟨lane, -, h⟩ := bind_eq_ok.mp h
      obtain ⟨rfl, rfl⟩ := Prod.mk.inj (Except.ok.inj h)
      exact .lane lane
  | shutdown =>
      obtain ⟨rfl, rfl⟩ := Prod.mk.inj (Except.ok.inj h)
      exact .shutdown

end TpaSender

/-! ## Two connections -/

/-- What the connection `c` has become, after any calls on it. -/
def Descends (api : ConnApi H A Q K) (c : Built H Q) : ConnState H Q → Prop :=
  Held api (fun _ x => x = c) 0

/-- The active connection was once `a`, the standby `b`. -/
structure Paired (api : ConnApi H A Q K) (a b : Built H Q) (w : ParWorker H Q) : Prop where
  active : Descends api a w.dualConn.active.conn
  standby : Descends api b w.dualConn.standby.conn

/-- How often the provider has failed over. -/
def failovers (log : List (Event H A)) : Nat :=
  log.countP fun e => match e with
    | .failover _ _ => true
    | _ => false

theorem failovers_append (l l' : List (Event H A)) : failovers (l ++ l') = failovers l + failovers l' :=
  List.countP_append

/-- After `k` failovers: on the first connection again if `k` is even, on the second if it is odd. -/
def Alternates (api : ConnApi H A Q K) (a b : Built H Q) (k : Nat) (w : ParWorker H Q) : Prop :=
  (k % 2 = 0 ∧ Paired api a b w) ∨ (k % 2 = 1 ∧ Paired api b a w)

section Pairs

variable {api : ConnApi H A Q K} {a b : Built H Q} {w w' : ParWorker H Q} {evs : List (Event H A)}

/-- A worker starts on the first. -/
theorem Alternates.start (api : ConnApi H A Q K) (a b : Built H Q) {i tx rx slot : Nat} {kind : ConnKind} :
    Alternates api a b 0 (startedPar i tx rx kind slot a b) := by
  refine .inl ⟨rfl, ?_, ?_⟩
  · exact Held.built rfl
  · exact Held.built rfl

theorem Paired.setActive (h : Paired api a b w) {c : ConnState H Q} (hc : Descends api a c) :
    Paired api a b (w.setActive c) := ⟨hc, h.standby⟩

theorem Paired.failedOver (h : Paired api a b w) : Paired api b a w.failedOver :=
  ⟨h.standby, h.active⟩

/-- The slot and the counter of the worker are not part of its connections. -/
theorem Paired.of_dualConn (h : Paired api a b w) (heq : w'.dualConn = w.dualConn) :
    Paired api a b w' := by
  constructor
  · rw [heq]
    exact h.active
  · rw [heq]
    exact h.standby

theorem Paired.sent (h : Paired api a b w) {hc hc' : H} {tx : Bytes} {x : A}
    {r : Except TransportError Unit} (hact : w.active = .http hc)
    (hsend : api.http.sendTx hc tx x = .ok (hc', r)) : Paired api a b (w.setActive (.http hc')) := by
  apply h.setActive
  have hheld : Descends api a (.http hc) := hact ▸ h.active
  exact Held.sent hheld hsend

theorem Paired.polled (h : Paired api a b w) {hc hc' : H} {x : A}
    {r : Except TransportError (Option Bytes)} (hact : w.active = .http hc)
    (hpoll : api.http.pollResponse hc x = .ok (hc', r)) : Paired api a b (w.setActive (.http hc')) := by
  apply h.setActive
  have hheld : Descends api a (.http hc) := hact ▸ h.active
  exact Held.polled hheld hpoll

theorem Paired.quicSent (h : Paired api a b w) {q q' : QuicConn Q} {job : Job} {sent now : Nat}
    {tx : Bytes} {k : K} {r : Except TransportError Unit} (hact : w.active = .quic q)
    (hsend : q.sendTx api.quic job sent tx now k = (q', r)) : Paired api a b (w.setActive (.quic q')) := by
  apply h.setActive
  have hheld : Descends api a (.quic q) := hact ▸ h.active
  exact Held.quicSent hheld hsend

theorem Paired.looked (h : Paired api a b w) {q q' : QuicConn Q} {now : Nat} {r : Option (JobId × Nat)}
    (hact : w.active = .quic q) (hwin : q.pollNorespWindow now = (q', r)) :
    Paired api a b (w.setActive (.quic q')) := by
  apply h.setActive
  have hheld : Descends api a (.quic q) := hact ▸ h.active
  exact Held.looked hheld hwin

/-- **One call** leaves both connections in their places, or fails over once and exchanges them. -/
theorem Does.paired (h : Does api w evs w') (hnot : .install ∉ evs) (hw : Paired api a b w) :
    (failovers evs = 0 ∧ Paired api a b w') ∨ (failovers evs = 1 ∧ Paired api b a w') := by
  cases h with
  | sent hact hsend => exact .inl ⟨rfl, (hw.sent hact hsend).of_dualConn rfl⟩
  | refused hact hsend => exact .inl ⟨rfl, hw.sent hact hsend⟩
  | resent hact hsend _ hact₂ hsend₂ =>
      have hover := (hw.sent hact hsend).failedOver
      exact .inr ⟨rfl, (hover.sent hact₂ hsend₂).of_dualConn rfl⟩
  | lost hact hsend _ hact₂ hsend₂ =>
      have hover := (hw.sent hact hsend).failedOver
      exact .inr ⟨rfl, hover.sent hact₂ hsend₂⟩
  | dropped hact hsend => exact .inr ⟨rfl, (hw.sent hact hsend).failedOver⟩
  | quicSent hact hsend => exact .inl ⟨rfl, (hw.quicSent hact hsend).of_dualConn rfl⟩
  | drove x now k => exact .inl ⟨rfl, hw.setActive (Held.drove hw.active x now k)⟩
  | quiet hact hpoll => exact .inl ⟨rfl, hw.polled hact hpoll⟩
  | answered hact hpoll => exact .inl ⟨rfl, (hw.polled hact hpoll).of_dualConn rfl⟩
  | unasked hact hpoll => exact .inl ⟨rfl, hw.polled hact hpoll⟩
  | failed hact hpoll => exact .inr ⟨rfl, (hw.polled hact hpoll).failedOver⟩
  | died => exact .inr ⟨rfl, hw.failedOver⟩
  | expired hact _ hwin => exact .inl ⟨rfl, hw.looked hact hwin⟩
  | waiting hact _ hwin => exact .inl ⟨rfl, hw.looked hact hwin⟩
  | installed => exact absurd (List.mem_singleton.mpr rfl) hnot
  | published => exact .inl ⟨rfl, hw⟩

/-- The same for a step of the loop to which nothing is delivered. -/
theorem Act.paired (h : Act api none w evs w') (hw : Paired api a b w) :
    (failovers evs = 0 ∧ Paired api a b w') ∨ (failovers evs = 1 ∧ Paired api b a w') := by
  cases h with
  | stay => exact .inl ⟨rfl, hw⟩
  | tick => exact .inl ⟨rfl, hw.of_dualConn rfl⟩
  | kick x now k => exact .inl ⟨rfl, hw.setActive (Held.drove hw.active x now k)⟩
  | send hdoes hevs => exact hdoes.paired hevs hw
  | reap x now k hdoes hevs =>
      have hdriven := hw.setActive (Held.drove hw.active x now k)
      exact hdoes.paired hevs hdriven
  | install hgot => cases hgot
  | publish => exact .inl ⟨rfl, hw⟩

theorem Act.alternates (h : Act api none w evs w') {k : Nat} (hw : Alternates api a b k w) :
    Alternates api a b (k + failovers evs) w' := by
  rcases hw with ⟨heven, hpair⟩ | ⟨hodd, hpair⟩
  · rcases h.paired hpair with ⟨hnone, hpair'⟩ | ⟨hone, hpair'⟩
    · exact .inl ⟨by omega, hpair'⟩
    · exact .inr ⟨by omega, hpair'⟩
  · rcases h.paired hpair with ⟨hnone, hpair'⟩ | ⟨hone, hpair'⟩
    · exact .inr ⟨by omega, hpair'⟩
    · exact .inl ⟨by omega, hpair'⟩

end Pairs

/-! ## Nothing is rebuilt -/

/-- Every request is one that is passed over, nothing is being built, and nothing waits. -/
structure Unserved (rc : Reconnect H Q) : Prop where
  requests : ∀ req ∈ rc.requests, req.kind = .libTpa
  building : ∀ req, rc.pc ≠ .building req
  responses : ∀ resp ∈ rc.responses, resp = none

namespace Unserved

variable {rc : Reconnect H Q}

theorem spawn (n : Nat) : Unserved (Reconnect.spawn n : Reconnect H Q) := by
  refine ⟨?_, ?_, ?_⟩
  · intro req hreq
    cases hreq
  · intro req hpc
    cases hpc
  · intro resp hresp
    exact List.eq_of_mem_replicate hresp

theorem tryRecv (h : Unserved rc) (ch : Nat) : rc.tryRecv ch = none := by
  unfold Reconnect.tryRecv
  cases hch : rc.responses[ch]? with
  | none => rfl
  | some resp =>
      rw [h.responses resp (List.mem_of_getElem? hch)]
      rfl

theorem received (h : Unserved rc) (ch : Nat) : Unserved (rc.received ch) := by
  refine ⟨h.requests, h.building, ?_⟩
  intro resp hresp
  rcases List.mem_or_eq_of_mem_set hresp with hmem | rfl
  · exact h.responses resp hmem
  · rfl

theorem request (h : Unserved rc) {req : ReconnectReq} (hkind : req.kind = .libTpa) :
    Unserved (rc.request req) := by
  unfold Reconnect.request
  split
  · exact h
  · refine ⟨?_, h.building, h.responses⟩
    intro q hq
    simp only [trySend] at hq
    split at hq
    · rcases List.mem_append.mp hq with hq | hq
      · exact h.requests q hq
      · rw [List.mem_singleton.mp hq]
        exact hkind
    · exact h.requests q hq

theorem foldl_request {reqs : List ReconnectReq} (h : Unserved rc)
    (hkind : ∀ req ∈ reqs, req.kind = .libTpa) : Unserved (reqs.foldl Reconnect.request rc) := by
  induction reqs generalizing rc with
  | nil => exact h
  | cons req reqs ih =>
      apply ih (h.request (hkind req List.mem_cons_self))
      intro q hq
      exact hkind q (List.mem_cons_of_mem _ hq)

/-- A request of this kind is taken and forgotten. -/
theorem take (h : Unserved rc) : Unserved rc.take := by
  unfold Reconnect.take
  split
  · rename_i req rest hpc hreqs
    have hkind : req.kind = .libTpa := h.requests req (hreqs ▸ List.mem_cons_self)
    rw [if_pos hkind]
    refine ⟨?_, h.building, h.responses⟩
    intro q hq
    exact h.requests q (hreqs ▸ List.mem_cons_of_mem _ hq)
  · exact h

theorem exit (h : Unserved rc) : Unserved rc.exit := by
  unfold Reconnect.exit
  split
  · refine ⟨?_, ?_, h.responses⟩
    · intro req hreq
      cases hreq
    · intro req hpc
      cases hpc
  · exact h

theorem wait (h : Unserved rc) : Unserved { rc with pc := .waiting } := by
  refine ⟨h.requests, ?_, h.responses⟩
  intro req hpc
  cases hpc

end Unserved

/-! ## Whole runs -/

/-- What the log says of provider `i`. -/
def seen (i : Nat) (log : List (ServiceEvent H A)) : List (Event H A) := eventsAt i (workerLog log)

theorem seen_append (i : Nat) (log log' : List (ServiceEvent H A)) :
    seen i (log ++ log') = seen i log ++ seen i log' := by
  unfold seen
  rw [workerLog_append, eventsAt_append]

theorem seen_map_thread (i j : Nat) (logs : List (Logged H A)) :
    seen i (logs.map (.thread j)) = eventsAt i logs := by
  unfold seen
  rw [workerLog_map_thread]

/-- What holds of the thread of provider `i`, with what the log says of it. -/
def ThreadKept (made : Built H Q → Prop) (i : Nat) (log : List (Event H A)) : TpaThread H Q → Prop
  | .running w _ => w.providerIdx = i ∧ w.connKind = .libTpa ∧ .install ∉ log
  | .connectingStandby active => log = [] ∧ made active
  | _ => log = []

section Threads

variable {api : ConnApi H A Q K} {connectOne : Nat → D → Exec (Except SenderError (Built H Q))} {i : Nat}
  {inp : Input H A Q K} {t t' : TpaThread H Q} {logs : List (Logged H A)} {log : List (Event H A)}

theorem ThreadKept.log_eq_nil {made : Built H Q → Prop} (h : ThreadKept made i log t)
    (ht : t.inLoop = false) : log = [] := by
  cases t with
  | running w pc => cases ht
  | connectingStandby active => exact h.1
  | attaching | connecting | gaveUp => exact h

/-- **One step of a thread** keeps it, if nothing is delivered. -/
theorem TpaThread.Moves.kept (h : Moves api connectOne i inp t t' logs) (hinp : inp.delivered = none)
    (ht : ThreadKept (fun c => ∃ d, connectOne i d = .ok (.ok c)) i log t) :
    ThreadKept (fun c => ∃ d, connectOne i d = .ok (.ok c)) i (log ++ eventsAt i logs) t' := by
  cases h with
  | attached =>
      show log ++ [] = []
      rw [List.append_nil]
      exact ht
  | gaveUp hout =>
      show log ++ [] = []
      rw [ht.log_eq_nil hout, List.append_nil]
  | connected hconn =>
      have hlog : log = [] := ht
      exact ⟨by rw [hlog]; rfl, _, hconn⟩
  | entered hconn =>
      have hlog : log = [] := ht.1
      subst hlog
      exact ⟨rfl, rfl, List.not_mem_nil⟩
  | @worked w w' pc pc' _ hstep =>
      obtain ⟨hidx, hkind, hno⟩ := ht
      have hact := (ParWorker.step_stepped hstep).act
      rw [hinp, hidx] at hact
      have hwires := hact.runs.sameWires
      refine ⟨hwires.providerIdx.trans hidx, hwires.connKind.trans hkind, ?_⟩
      intro hmem
      rcases List.mem_append.mp hmem with hold | hnew
      · exact hno hold
      · obtain ⟨r, hr⟩ := hact.got_of_install hnew
        cases hr

/-- In the loop it leaves both connections in their places, or exchanges them. -/
theorem TpaThread.Moves.alternates {a b : Built H Q} {k : Nat} {w : ParWorker H Q} {pc : ParWorker.Pc}
    (h : Moves api connectOne i inp (.running w pc) t' logs) (hinp : inp.delivered = none)
    (hidx : w.providerIdx = i) (hw : Alternates api a b k w) :
    ∃ w' pc', t' = .running w' pc' ∧ Alternates api a b (k + failovers (eventsAt i logs)) w' := by
  cases h with
  | gaveUp hout => cases hout
  | @worked _ w' _ pc' _ hstep =>
      have hact := (ParWorker.step_stepped hstep).act
      rw [hinp, hidx] at hact
      exact ⟨w', pc', rfl, hact.alternates hw⟩

/-- The step with which it enters its loop. -/
theorem TpaThread.Moves.enters (h : Moves api connectOne i inp t t' logs) (ht : t.inLoop = false)
    (ht' : t'.inLoop = true) :
    ∃ active standby, t = .connectingStandby active ∧
      t' = .running (startedPar i i i .libTpa i active standby) .top ∧ logs = [] ∧
      ∃ d, connectOne i d = .ok (.ok standby) := by
  cases h with
  | attached | connected | gaveUp => cases ht'
  | worked => cases ht
  | entered hconn => exact ⟨_, _, rfl, rfl, rfl, _, hconn⟩

/-- It logs nothing for another provider. -/
theorem TpaThread.Moves.other (h : Moves api connectOne i inp t t' logs) {made : Built H Q → Prop}
    (ht : ThreadKept made i log t) {j : Nat} (hj : i ≠ j) : eventsAt j logs = [] := by
  cases h with
  | attached | gaveUp | connected | entered => rfl
  | worked hstep =>
      rcases (ParWorker.step_stepped hstep).own with hpop | ⟨evs, rfl⟩
      · apply List.filterMap_eq_nil_iff.mpr
        intro e he
        obtain ⟨job, sent, rfl⟩ := hpop e he
        rfl
      · rw [ht.1]
        exact eventsAt_map_on_ne hj evs

/-- A thread that is not in its loop has not been there. -/
theorem TpaThread.Moves.outside (h : Moves api connectOne i inp t t' logs) (ht' : t'.inLoop = false) :
    t.inLoop = false ∧ logs = [] := by
  cases h with
  | attached | connected => exact ⟨rfl, rfl⟩
  | gaveUp hout => exact ⟨hout, rfl⟩
  | entered | worked => cases ht'

/-- A step asks for nothing that is served. -/
theorem TpaThread.Moves.requests (h : Moves api connectOne i inp t t' logs) {made : Built H Q → Prop}
    (ht : ThreadKept made i log t) : ∀ req ∈ requestsIn logs, req.kind = .libTpa := by
  cases h with
  | attached | gaveUp | connected | entered =>
      intro req hreq
      cases hreq
  | @worked w w' pc pc' _ hstep =>
      intro req hreq
      obtain ⟨j, hj⟩ := mem_requestsIn.mp hreq
      have hstepped := ParWorker.step_stepped hstep
      have hmem : .request req ∈ eventsAt w.providerIdx logs := by
        rcases hstepped.own with hpop | ⟨evs, rfl⟩
        · obtain ⟨job, sent, heq⟩ := hpop _ hj
          cases heq
        · rw [eventsAt_map_on]
          obtain ⟨e, he, heq⟩ := List.mem_map.mp hj
          cases heq
          exact he
      rw [hstepped.act.request_eq hmem]
      exact ht.2.1

end Threads

namespace TpaSender

/-- What every run keeps. -/
structure Kept (connectOne : Nat → D → Exec (Except SenderError (Built H Q))) (s : TpaSender H Q)
    (log : List (ServiceEvent H A)) : Prop where
  unserved : Unserved s.reconnect
  threads : ∀ i t, s.threads[i]? = some t →
    ThreadKept (fun c => ∃ d, connectOne i d = .ok (.ok c)) i (seen i log) t

variable {api : ConnApi H A Q K} {connectOne : Nat → D → Exec (Except SenderError (Built H Q))}
  {s s' : TpaSender H Q} {log evs : List (ServiceEvent H A)}

theorem kept_spawn (providers : List ProviderConfig) :
    Kept connectOne (spawn providers : TpaSender H Q) ([] : List (ServiceEvent H A)) := by
  refine ⟨Unserved.spawn _, ?_⟩
  intro i t ht
  rw [List.eq_of_mem_replicate (List.mem_of_getElem? ht)]
  rfl

theorem Unserved.afterRecv (h : Unserved s.reconnect) (t : TpaThread H Q) : Unserved (s.afterRecv t) := by
  unfold TpaSender.afterRecv
  split
  · exact h.received _
  · exact h

theorem seen_eq_nil {evs : List (ServiceEvent H A)} (i : Nat) (h : workerLog evs = []) :
    seen i evs = [] := by
  rw [seen, h]
  rfl

/-- **A step, for the thread of provider `i`**: it is left alone, or it moves, and nothing is delivered to
it. -/
theorem turn_at (h : Kept connectOne s log) (hturn : Turn api connectOne s s' evs) (i : Nat) :
    (s'.threads[i]? = s.threads[i]? ∧ seen i evs = []) ∨
    ∃ t t' inp logs, s.threads[i]? = some t ∧ s'.threads[i]? = some t' ∧ inp.delivered = none ∧
      TpaThread.Moves api connectOne i inp t t' logs ∧ evs = logs.map (.thread i) := by
  cases hturn with
  | call | push | ret | lane | shutdown | reconnect => exact .inl ⟨rfl, seen_eq_nil i rfl⟩
  | thread j t t' inp logs ht hmove =>
      by_cases hij : j = i
      · subst hij
        refine .inr ⟨t, t', s.hand j t inp, logs, ht, absorb_threads_self ht, ?_, hmove, rfl⟩
        show t.receives.bind s.reconnect.tryRecv = none
        cases t.receives with
        | none => rfl
        | some ch => exact h.unserved.tryRecv ch
      · refine .inl ⟨absorb_threads_ne hij, ?_⟩
        rw [seen_map_thread]
        exact hmove.other (h.threads j t ht) hij

theorem kept_turn (h : Kept connectOne s log) (hturn : Turn api connectOne s s' evs) :
    Kept connectOne s' (log ++ evs) := by
  refine ⟨?_, ?_⟩
  · cases hturn with
    | call | push | ret | lane | shutdown => exact h.unserved
    | reconnect rc hrc =>
        rcases hrc with rfl | rfl | rfl | rfl
        · exact h.unserved
        · exact h.unserved.take
        · exact h.unserved.exit
        · exact h.unserved.wait
    | thread i t t' inp logs ht hmove =>
        exact (Unserved.afterRecv h.unserved t).foldl_request (hmove.requests (h.threads i t ht))
  · intro i u hu
    rw [seen_append]
    rcases turn_at h hturn i with ⟨hsame, hseen⟩ | ⟨t, t', inp, logs, ht, ht', hnone, hmove, rfl⟩
    · rw [hseen, List.append_nil]
      exact h.threads i u (hsame ▸ hu)
    · obtain rfl := Option.some.inj (hu.symm.trans ht')
      rw [seen_map_thread]
      exact hmove.kept hnone (h.threads i t ht)

theorem kept_run {providers : List ProviderConfig} {actions : List (TpaAction H A Q K D)}
    (h : (machine api connectOne).run (spawn providers) actions = .ok (s, log)) :
    Kept connectOne s log := by
  refine Machine.run_invariant (machine api connectOne) (Kept connectOne) (kept_spawn providers) ?_ h
  intro s log a s' evs hs hstep
  exact kept_turn hs (step_turn hstep)

end TpaSender

namespace TpaSender

/-- The thread of provider `i` is in its loop. -/
def inLoop (i : Nat) (s : TpaSender H Q) : Bool := (s.threads[i]?).any TpaThread.inLoop

/-- In the run of these actions there is a step with which the thread of provider `i` enters its loop: it had
made the connection `active` before, and makes `standby` with this step. -/
def Enters (api : ConnApi H A Q K) (connectOne : Nat → D → Exec (Except SenderError (Built H Q))) (i : Nat)
    (s : TpaSender H Q) (actions : List (TpaAction H A Q K D)) (active standby : Built H Q) : Prop :=
  ∃ before enter after s₁ s₂ log₁ evs, actions = before ++ enter :: after ∧
    (machine api connectOne).run s before = .ok (s₁, log₁) ∧
    s₁.threads[i]? = some (.connectingStandby active) ∧
    s₁.step api connectOne enter = .ok (s₂, evs) ∧
    s₂.threads[i]? = some (.running (startedPar i i i .libTpa i active standby) .top)

variable {api : ConnApi H A Q K} {connectOne : Nat → D → Exec (Except SenderError (Built H Q))}
  {s s' : TpaSender H Q} {log evs : List (ServiceEvent H A)} {i : Nat} {a b : Built H Q}
  {w : ParWorker H Q} {pc : ParWorker.Pc}

theorem inLoop_spawn (providers : List ProviderConfig) (i : Nat) :
    (spawn providers : TpaSender H Q).inLoop i = false := by
  unfold inLoop spawn
  rw [List.getElem?_replicate]
  split
  · rfl
  · rfl

theorem enters_turn (h : Kept connectOne s log) (hturn : Turn api connectOne s s' evs)
    (hout : s.inLoop i = false) (hin : s'.inLoop i = true) :
    ∃ active standby, s.threads[i]? = some (.connectingStandby active) ∧
      s'.threads[i]? = some (.running (startedPar i i i .libTpa i active standby) .top) ∧ evs = [] ∧
      ∃ d, connectOne i d = .ok (.ok standby) := by
  unfold inLoop at hout hin
  rcases turn_at h hturn i with ⟨hsame, -⟩ | ⟨t, t', inp, logs, ht, ht', -, hmove, rfl⟩
  · rw [hsame, hout] at hin
    cases hin
  · rw [ht] at hout
    rw [ht'] at hin
    obtain ⟨active, standby, rfl, rfl, rfl, hstandby⟩ := hmove.enters hout hin
    exact ⟨active, standby, ht, ht', rfl, hstandby⟩

/-- **One step** of the engine, for a worker in its loop. -/
theorem alternates_turn (h : Kept connectOne s log) (hturn : Turn api connectOne s s' evs)
    (ht : s.threads[i]? = some (.running w pc)) {k : Nat} (hw : Alternates api a b k w) :
    ∃ w' pc', s'.threads[i]? = some (.running w' pc') ∧
      Alternates api a b (k + failovers (seen i evs)) w' := by
  rcases turn_at h hturn i with ⟨hsame, hseen⟩ | ⟨t, t', inp, logs, ht₀, ht', hnone, hmove, rfl⟩
  · rw [hseen]
    exact ⟨w, pc, hsame.trans ht, hw⟩
  · obtain rfl := Option.some.inj (ht.symm.trans ht₀)
    obtain ⟨w', pc', rfl, hw'⟩ := hmove.alternates hnone (h.threads i _ ht).1 hw
    rw [seen_map_thread]
    exact ⟨w', pc', ht', hw'⟩

/-- **A run** of the engine from there on. -/
theorem alternates_run (h : Kept connectOne s log) (ht : s.threads[i]? = some (.running w pc))
    (hw : Alternates api a b 0 w) {actions : List (TpaAction H A Q K D)}
    {log' : List (ServiceEvent H A)} (hrun : (machine api connectOne).run s actions = .ok (s', log')) :
    ∃ w' pc', s'.threads[i]? = some (.running w' pc') ∧
      Alternates api a b (failovers (seen i log')) w' := by
  refine (Machine.run_invariant (machine api connectOne)
    (fun s log' => Kept connectOne s (log ++ log') ∧ ∃ w' pc', s.threads[i]? = some (.running w' pc') ∧
      Alternates api a b (failovers (seen i log')) w') ?_ ?_ hrun).2
  · rw [List.append_nil]
    exact ⟨h, w, pc, ht, hw⟩
  · rintro s log' action s' evs ⟨hkept, w', pc', ht, hw⟩ hstep
    have hturn := step_turn hstep
    rw [← List.append_assoc, seen_append, failovers_append]
    exact ⟨kept_turn hkept hturn, alternates_turn hkept hturn ht hw⟩

end TpaSender

/-- **A worker goes back and forth between two connections.** In every run of the engine, whatever its
connections answer and however often each of them has failed: the worker of a provider has the two
connections with which its thread entered the loop, with the calls made on them since, and no other was ever
installed. After an even number of failovers it works on the one that was made first, after an odd number on
the other. -/
theorem tpa_conns_alternate (api : ConnApi H A Q K)
    (connectOne : Nat → D → Exec (Except SenderError (Built H Q))) (providers : List ProviderConfig)
    (actions : List (TpaAction H A Q K D)) (s : TpaSender H Q) (log : List (ServiceEvent H A)) (i : Nat)
    (w : ParWorker H Q) (pc : ParWorker.Pc)
    (hrun : (TpaSender.machine api connectOne).run (.spawn providers) actions = .ok (s, log))
    (hrunning : s.threads[i]? = some (.running w pc)) :
    ∃ active standby d₁ d₂, connectOne i d₁ = .ok (.ok active) ∧ connectOne i d₂ = .ok (.ok standby) ∧
      TpaSender.Enters api connectOne i (.spawn providers) actions active standby ∧
      Alternates api active standby (failovers (seen i log)) w ∧ .install ∉ seen i log := by
  have hin : s.inLoop i = true := by
    rw [TpaSender.inLoop, hrunning]
    rfl
  obtain ⟨before, enter, after, s₁, s₂, log₁, evs, log₂, rfl, hbefore, hout₁, hstep, hin₂, hafter, rfl⟩ :=
    Machine.run_enters _ (TpaSender.inLoop i) hrun (TpaSender.inLoop_spawn providers i) hin
  have hkept₁ := TpaSender.kept_run hbefore
  obtain ⟨active, standby, ht₁, ht₂, rfl, d₂, hstandby⟩ :=
    TpaSender.enters_turn hkept₁ (TpaSender.step_turn hstep) hout₁ hin₂
  obtain ⟨hnothing, d₁, hactive⟩ := hkept₁.threads i _ ht₁
  have hkept₂ := TpaSender.kept_turn hkept₁ (TpaSender.step_turn hstep)
  refine ⟨active, standby, d₁, d₂, hactive, hstandby,
    ⟨before, enter, after, s₁, s₂, log₁, [], rfl, hbefore, ht₁, hstep, ht₂⟩, ?_, ?_⟩
  · obtain ⟨w', pc', hend, halt⟩ := TpaSender.alternates_run hkept₂ ht₂ (Alternates.start api active standby) hafter
    obtain ⟨rfl, rfl⟩ := TpaThread.running.inj (Option.some.inj (hend.symm.trans hrunning))
    rw [seen_append, hnothing]
    exact halt
  · exact ((TpaSender.kept_run hrun).threads i _ hrunning).2.2

/-- The engine over the connections of `bareMachine`. -/
def bareTpa (providers : List ProviderConfig) : Machine
    (TpaSender (HttpConn RawConn Bytes) (QuicEngine Bool))
    (TpaAction (HttpConn RawConn Bytes) RawAnswer (QuicEngine Bool) Bool Bool)
    (ServiceEvent (HttpConn RawConn Bytes) RawAnswer) :=
  TpaSender.machine (rawApi Http.plainTls (quinnApi flagQuinn)) (bareConnectOne providers)

/-- The thread gets to its loop, and both connections are reset in turn. -/
def resetEach : List (TpaAction (HttpConn RawConn Bytes) RawAnswer (QuicEngine Bool) Bool Bool) :=
  let base := Input.quiet RawAnswer.silent false
  let reset := { base with call := { sends := [], recvs := [.failed 104] } }
  [base, base, base, base, reset, base, base, base, base, reset].map (.thread 0 true true)

theorem tpa_conns_alternate_reset_both :
    ∃ s log w pc, (bareTpa [bareProvider .noResponse]).run (.spawn [bareProvider .noResponse]) resetEach =
        .ok (s, log) ∧ s.threads[0]? = some (.running w pc) ∧ failovers (seen 0 log) = 2 ∧
      ∃ active standby d₁ d₂, bareConnectOne [bareProvider .noResponse] 0 d₁ = .ok (.ok active) ∧
        bareConnectOne [bareProvider .noResponse] 0 d₂ = .ok (.ok standby) ∧
        TpaSender.Enters (rawApi Http.plainTls (quinnApi flagQuinn))
          (bareConnectOne [bareProvider .noResponse]) 0 (.spawn [bareProvider .noResponse]) resetEach
          active standby ∧
        Alternates (rawApi Http.plainTls (quinnApi flagQuinn)) active standby (failovers (seen 0 log)) w ∧
        .install ∉ seen 0 log := by
  obtain ⟨out, hout, htwo, hin⟩ :
      ∃ out ∈ ((bareTpa [bareProvider .noResponse]).run (.spawn [bareProvider .noResponse])
        resetEach).toOption, failovers (seen 0 out.2) = 2 ∧
          (out.1.threads[0]?).any TpaThread.inLoop = true := by decide +kernel
  have hrun := eq_ok_of_mem_toOption hout
  cases ht : out.1.threads[0]? with
  | none =>
      rw [ht] at hin
      cases hin
  | some t =>
      rw [ht] at hin
      cases t with
      | running w pc =>
          exact ⟨out.1, out.2, w, pc, hrun, ht, htwo,
            tpa_conns_alternate _ _ _ _ out.1 out.2 0 w pc hrun ht⟩
      | attaching | connecting | connectingStandby | gaveUp => cases hin

/-! ## A ring that nobody pops -/

/-- What the calls of `trigger` returned, in order. -/
def results (log : List (ServiceEvent H A)) : List (Except TriggerError Unit) :=
  log.filterMap fun e => match e with
    | .returned _ r => some r
    | _ => none

theorem results_append (log log' : List (ServiceEvent H A)) :
    results (log ++ log') = results log ++ results log' := List.filterMap_append

theorem results_map_thread (j : Nat) (logs : List (Logged H A)) : results (logs.map (.thread j)) = [] := by
  simp [results]

namespace Caller

/-- The call under way has tried ring `i`. -/
def tried (i : Nat) : Caller → Nat
  | .idle => 0
  | .pushing _ k _ => if i < k then 1 else 0

/-- The job of the call under way is the last one of `jobs`, after `m` others. -/
def Calls (m : Nat) (jobs : List Job) : Caller → Prop
  | .idle => jobs.length = m
  | .pushing job _ _ => ∃ before, jobs = before ++ [job] ∧ before.length = m

end Caller

namespace TpaSender

/-- The ring of provider `i` holds the jobs of the first calls, as many as there is room for, and the calls
for which there was none are refused. -/
structure Clogged (i : Nat) (s : TpaSender H Q) (log : List (ServiceEvent H A)) : Prop where
  ring : s.ring i = (triggered log).take (min triggerRing ((results log).length + s.caller.tried i))
  flag : ∀ job k, s.caller = .pushing job k true → i < k → (results log).length < triggerRing
  refused : ∀ k r, (results log)[k]? = some r → triggerRing ≤ k → r = .error .backpressure

/-- What every run keeps of the rings. -/
structure Served (s : TpaSender H Q) (log : List (ServiceEvent H A)) : Prop where
  rings : s.rings.length = s.threads.length
  calls : s.caller.Calls (results log).length (triggered log)
  clogged : ∀ i t, s.threads[i]? = some t → t.inLoop = false → s.Clogged i log

variable {api : ConnApi H A Q K} {connectOne : Nat → D → Exec (Except SenderError (Built H Q))}
  {s s' : TpaSender H Q} {log evs : List (ServiceEvent H A)} {i : Nat}

theorem served_spawn (providers : List ProviderConfig) : Served (spawn providers : TpaSender H Q) ([] :
    List (ServiceEvent H A)) := by
  refine ⟨?_, rfl, ?_⟩
  · simp only [spawn, List.length_replicate]
  intro i t ht hout
  refine ⟨?_, ?_, ?_⟩
  · show (((List.replicate providers.length [])[i]?).getD [] : List Job) = [].take _
    rw [List.take_nil, List.getElem?_replicate]
    split <;> rfl
  · intro job k hpush
    cases hpush
  · intro k r hk
    cases hk

/-- A step that touches neither the calls nor ring `i`. -/
theorem Clogged.frame (h : s.Clogged i log) (hring : s'.ring i = s.ring i) (hcaller : s'.caller = s.caller)
    (hres : results evs = []) (htrig : triggered evs = []) : s'.Clogged i (log ++ evs) := by
  constructor
  · rw [hring, hcaller, results_append, triggered_append, hres, htrig, List.append_nil, List.append_nil]
    exact h.ring
  · rw [hcaller, results_append, hres, List.append_nil]
    exact h.flag
  · rw [results_append, hres, List.append_nil]
    exact h.refused

/-- **A call** starts; the job is not in the ring yet. -/
theorem Clogged.call (h : s.Clogged i log) (hcalls : s.caller.Calls (results log).length (triggered log))
    (hidle : s.caller = .idle) (job : Job) :
    ({ s with caller := .pushing job 0 true } : TpaSender H Q).Clogged i
      (log ++ [.called job] : List (ServiceEvent H A)) := by
  rw [hidle] at hcalls
  have hlen : (triggered log).length = (results log).length := hcalls
  have hring := h.ring
  rw [hidle] at hring
  have hres : results (log ++ [.called job] : List (ServiceEvent H A)) = results log := by
    rw [results_append]
    exact List.append_nil _
  constructor
  · show s.ring i = _
    rw [hres, hring, triggered_append]
    simp only [Caller.tried, Nat.not_lt_zero, if_false, Nat.add_zero]
    rw [List.take_append_of_le_length]
    omega
  · intro job' k hpush hik
    obtain ⟨-, rfl, -⟩ := Caller.pushing.inj hpush
    exact absurd hik (Nat.not_lt_zero i)
  · rw [hres]
    exact h.refused

/-- **A push** into ring `k`. -/
theorem Clogged.push (h : s.Clogged i log) (hcalls : s.caller.Calls (results log).length (triggered log))
    {job : Job} {k : Nat} {ok : Bool} {ring : List Job} (hpush : s.caller = .pushing job k ok)
    (hk : s.rings[k]? = some ring) :
    ({ s with
        rings := s.rings.set k (tryPush ring job).1
        caller := .pushing job (k + 1) (ok && (tryPush ring job).2.isOk) } : TpaSender H Q).Clogged i log := by
  rw [hpush] at hcalls
  obtain ⟨before, hjobs, hbefore⟩ := hcalls
  have hring := h.ring
  have hflag := h.flag
  rw [hpush] at hring hflag
  simp only [Caller.tried] at hring
  by_cases hik : k = i
  · subst hik
    have hold : s.ring k = ring := by
      show (s.rings[k]?).getD [] = ring
      rw [hk]
      rfl
    rw [if_neg (Nat.lt_irrefl k), Nat.add_zero, hold] at hring
    have hnew : (({ s with
        rings := s.rings.set k (tryPush ring job).1
        caller := .pushing job (k + 1) (ok && (tryPush ring job).2.isOk) } : TpaSender H Q)).ring k =
        (tryPush ring job).1 := by
      show ((s.rings.set k _)[k]?).getD [] = _
      rw [List.getElem?_set_self (List.getElem?_eq_some_iff.mp hk).1]
      rfl
    have hlen : ring.length = min triggerRing (results log).length := by
      rw [hring, hjobs, List.length_take, List.length_append, List.length_singleton]
      omega
    by_cases hroom : (results log).length < triggerRing
    · have hpushed : tryPush ring job = (ring ++ [job], .ok ()) := if_pos (by omega)
      refine ⟨?_, fun _ _ _ _ => hroom, h.refused⟩
      rw [hnew, hpushed, hring, hjobs]
      simp only [Caller.tried, Nat.lt_succ_self, if_true]
      rw [show min triggerRing (results log).length = before.length by omega, List.take_left,
        List.take_of_length_le]
      rw [List.length_append, List.length_singleton]
      omega
    · have hfull : tryPush ring job = (ring, .error job) := if_neg (by omega)
      refine ⟨?_, ?_, h.refused⟩
      · rw [hnew, hfull, hring]
        simp only [Caller.tried, Nat.lt_succ_self, if_true]
        rw [show min triggerRing (results log).length = min triggerRing ((results log).length + 1) by omega]
      · intro job' k' hcaller
        rw [hfull] at hcaller
        have hfalse : (ok && false) = true := (Caller.pushing.inj hcaller).2.2
        rw [Bool.and_false] at hfalse
        cases hfalse
  · have hsame : (({ s with
        rings := s.rings.set k (tryPush ring job).1
        caller := .pushing job (k + 1) (ok && (tryPush ring job).2.isOk) } : TpaSender H Q)).ring i =
        s.ring i := by
      show ((s.rings.set k _)[i]?).getD [] = _
      rw [List.getElem?_set_ne hik]
      rfl
    have htried : (if i < k + 1 then 1 else 0) = if i < k then 1 else 0 := by
      split <;> split <;> omega
    refine ⟨?_, ?_, h.refused⟩
    · rw [hsame, hring]
      simp only [Caller.tried]
      rw [htried]
    · intro job' k' hcaller hik'
      obtain ⟨rfl, rfl, hok⟩ := Caller.pushing.inj hcaller
      obtain ⟨rfl, -⟩ := Bool.and_eq_true_iff.mp hok
      exact hflag job k rfl (by omega)

/-- **The return** of a call that has tried every ring. -/
theorem Clogged.ret (h : s.Clogged i log) {job : Job} {k : Nat} {ok : Bool}
    (hpush : s.caller = .pushing job k ok) (hik : i < k) :
    ({ s with caller := .idle } : TpaSender H Q).Clogged i
      (log ++ [.returned job (if ok then .ok () else .error .backpressure)] : List (ServiceEvent H A)) := by
  have hring := h.ring
  rw [hpush] at hring
  simp only [Caller.tried, hik, if_true] at hring
  have hres : results (log ++ [.returned job (if ok then .ok () else .error .backpressure)] :
      List (ServiceEvent H A)) = results log ++ [if ok then .ok () else .error .backpressure] :=
    results_append _ _
  have htrig : triggered (log ++ [.returned job (if ok then .ok () else .error .backpressure)] :
      List (ServiceEvent H A)) = triggered log := by
    rw [triggered_append]
    exact List.append_nil _
  refine ⟨?_, ?_, ?_⟩
  · show s.ring i = _
    rw [hres, htrig, hring]
    simp only [Caller.tried, List.length_append, List.length_singleton, Nat.add_zero]
  · intro job' k' hcaller
    cases hcaller
  · intro m r hm hfull
    rw [hres] at hm
    rcases Nat.lt_or_ge m (results log).length with hlt | hge
    · rw [List.getElem?_append_left hlt] at hm
      exact h.refused m r hm hfull
    · rw [List.getElem?_append_right hge] at hm
      obtain ⟨hzero, hr⟩ := List.getElem?_eq_some_iff.mp hm
      -- with no room left when it started, the flag of the call is down
      cases ok with
      | true =>
          have hlt := h.flag job k hpush hik
          rw [List.length_singleton] at hzero
          omega
      | false =>
          have hlast : m - (results log).length = 0 := by
            rw [List.length_singleton] at hzero
            omega
          simp only [hlast] at hr
          exact hr.symm

theorem calls_turn (h : s.Served log) (hturn : Turn api connectOne s s' evs) :
    s'.caller.Calls (results (log ++ evs)).length (triggered (log ++ evs)) := by
  rw [results_append, triggered_append]
  have hcalls := h.calls
  cases hturn with
  | call job hidle =>
      rw [hidle] at hcalls
      refine ⟨triggered log, rfl, ?_⟩
      rw [List.length_append]
      exact hcalls
  | push job k ok ring hpush hring =>
      rw [hpush] at hcalls
      obtain ⟨before, hjobs, hlen⟩ := hcalls
      refine ⟨before, ?_, ?_⟩
      · rw [hjobs]
        exact List.append_nil _
      · rw [hlen]
        exact (congrArg List.length (List.append_nil (results log))).symm
  | ret job k ok hpush hend =>
      rw [hpush] at hcalls
      obtain ⟨before, hjobs, hlen⟩ := hcalls
      show (triggered log ++ []).length = (results log ++ [_]).length
      rw [List.append_nil, hjobs, List.length_append, List.length_append, hlen, List.length_singleton,
        List.length_singleton]
  | thread i t t' inp logs ht hmove =>
      rw [results_map_thread, triggered_map_thread, List.append_nil, List.append_nil]
      exact hcalls
  | reconnect | lane | shutdown =>
      show s.caller.Calls (results log ++ []).length (triggered log ++ [])
      rw [List.append_nil, List.append_nil]
      exact hcalls

/-- **One step** of the engine. -/
theorem served_turn (h : s.Served log) (hturn : Turn api connectOne s s' evs) : s'.Served (log ++ evs) := by
  have hcalls := calls_turn h hturn
  cases hturn with
  | call job hidle =>
      exact ⟨h.rings, hcalls, fun i t ht hout => (h.clogged i t ht hout).call h.calls hidle job⟩
  | push job k ok ring hpush hring =>
      refine ⟨List.length_set.trans h.rings, hcalls, fun i t ht hout => ?_⟩
      rw [List.append_nil]
      exact (h.clogged i t ht hout).push h.calls hpush hring
  | ret job k ok hpush hend =>
      refine ⟨h.rings, hcalls, fun i t ht hout => ?_⟩
      apply (h.clogged i t ht hout).ret hpush
      have hi : i < s.threads.length := (List.getElem?_eq_some_iff.mp ht).1
      have hrings := h.rings
      omega
  | thread j t t' inp logs ht hmove =>
      refine ⟨?_, hcalls, ?_⟩
      · show (s.rings.modify j _).length = (s.threads.set j t').length
        rw [List.length_modify, List.length_set]
        exact h.rings
      intro i u hu hout
      have hframe : ∀ {v}, s.threads[i]? = some v → v.inLoop = false →
          (s.absorb j t t' logs).ring i = s.ring i →
          (s.absorb j t t' logs).Clogged i (log ++ logs.map (.thread j)) := by
        intro v hv hvout hring
        exact (h.clogged i v hv hvout).frame hring rfl (results_map_thread j logs)
          (triggered_map_thread j logs)
      by_cases hij : j = i
      · subst hij
        rw [absorb_threads_self ht] at hu
        obtain rfl := Option.some.inj hu
        obtain ⟨htout, rfl⟩ := hmove.outside hout
        exact hframe ht htout absorb_ring_nil
      · rw [absorb_threads_ne hij] at hu
        exact hframe hu hout (absorb_ring_ne hij)
  | reconnect rc =>
      exact ⟨h.rings, hcalls, fun i t ht hout => (h.clogged i t ht hout).frame rfl rfl rfl rfl⟩
  | lane lane =>
      exact ⟨h.rings, hcalls, fun i t ht hout => (h.clogged i t ht hout).frame rfl rfl rfl rfl⟩
  | shutdown =>
      exact ⟨h.rings, hcalls, fun i t ht hout => (h.clogged i t ht hout).frame rfl rfl rfl rfl⟩

end TpaSender

/-- **A provider whose thread never gets to its loop makes `trigger` fail.** Take any run of the engine and a
provider whose thread is not in its loop, because it could not attach or connect and returned, or because it
is still connecting. Nothing was sent for that provider and it never reported itself alive. Its ring holds
the jobs of the first calls, each of them, as long as there was room, the one of a call under way included
when it has been there. And from the call on for which there was no room in it, `trigger` reports backpressure
for every job, whatever the other providers did with it. -/
theorem unserved_provider_refuses (api : ConnApi H A Q K)
    (connectOne : Nat → D → Exec (Except SenderError (Built H Q))) (providers : List ProviderConfig)
    (actions : List (TpaAction H A Q K D)) (s : TpaSender H Q) (log : List (ServiceEvent H A)) (i : Nat)
    (t : TpaThread H Q)
    (hrun : (TpaSender.machine api connectOne).run (.spawn providers) actions = .ok (s, log))
    (ht : s.threads[i]? = some t) (hout : t.inLoop = false) :
    (∀ k r, (results log)[k]? = some r → triggerRing ≤ k → r = .error .backpressure) ∧
      s.ring i = (triggered log).take (min triggerRing ((results log).length + s.caller.tried i)) ∧
      seen i log = [] := by
  have hserved := Machine.run_invariant (TpaSender.machine api connectOne) TpaSender.Served
    (TpaSender.served_spawn providers)
    (fun _ _ _ _ _ hs hstep => TpaSender.served_turn hs (TpaSender.step_turn hstep)) hrun
  have hclogged := hserved.clogged i t ht hout
  exact ⟨hclogged.refused, hclogged.ring, ((TpaSender.kept_run hrun).threads i t ht).log_eq_nil hout⟩

/-- The thread cannot attach, and more jobs are triggered than its ring holds. -/
def overfill : List (TpaAction (HttpConn RawConn Bytes) RawAnswer (QuicEngine Bool) Bool Bool) :=
  .thread 0 false true (Input.quiet RawAnswer.silent false) ::
    (List.replicate 257 [.call ⟨1, 0⟩, .push, .push]).flatten

theorem unserved_provider_refuses_overfill :
    ∃ s log, (bareTpa [bareProvider .noResponse]).run (.spawn [bareProvider .noResponse]) overfill =
        .ok (s, log) ∧ s.threads[0]? = some .gaveUp ∧ (results log).length = 257 ∧
      (∀ k r, (results log)[k]? = some r → triggerRing ≤ k → r = .error .backpressure) ∧
      s.ring 0 = (triggered log).take (min triggerRing ((results log).length + s.caller.tried 0)) ∧
      seen 0 log = [] := by
  obtain ⟨out, hout, hlen, hin⟩ :
      ∃ out ∈ ((bareTpa [bareProvider .noResponse]).run (.spawn [bareProvider .noResponse])
        overfill).toOption, (results out.2).length = 257 ∧
          (out.1.threads[0]?).any (fun t => match t with | .gaveUp => true | _ => false) = true := by
    decide +kernel
  have hrun := eq_ok_of_mem_toOption hout
  cases ht : out.1.threads[0]? with
  | none =>
      rw [ht] at hin
      cases hin
  | some t =>
      rw [ht] at hin
      cases t with
      | gaveUp =>
          exact ⟨out.1, out.2, hrun, ht, hlen,
            unserved_provider_refuses _ _ _ _ out.1 out.2 0 .gaveUp hrun ht rfl⟩
      | attaching | connecting | connectingStandby | running => cases hin

end TxSender.Transport
