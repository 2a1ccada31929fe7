/-
# TxSender.Transport.Isolation — nothing of one provider reaches another.

Which provider a connection, a response or an outcome belongs to is a matter of positions only: in the
vectors of a worker, in the response channels, in the rings and among the codecs. Here the origin of
each is followed through a whole run: a connection that is `Held` for provider `i` came out of
`connect_one` for `i`, a response that is `Received` for `i` holds a body polled on such a connection,
and an outcome was parsed with the codec of the ring it came from.
-/
import TxSender.Transport.Duty

namespace TxSender.Transport

open TxSender.Lib
open TxSender.Http
open TxSender.Protocol
open TxSender.Backend
open TxSender.Provider

variable {H A Q K D : Type}

/-! ## Connections -/

/-- A connection made for provider `i`, after any calls on it. -/
inductive Held (api : ConnApi H A Q K) (made : Nat → Built H Q → Prop) (i : Nat) :
    ConnState H Q → Prop
  | built {c : Built H Q} (hmade : made i c) : Held api made i c.state
  | sent {h h' : H} {tx : Bytes} {a : A} {r : Except TransportError Unit}
      (hheld : Held api made i (.http h)) (hsend : api.http.sendTx h tx a = .ok (h', r)) :
      Held api made i (.http h')
  | polled {h h' : H} {a : A} {r : Except TransportError (Option Bytes)}
      (hheld : Held api made i (.http h)) (hpoll : api.http.pollResponse h a = .ok (h', r)) :
      Held api made i (.http h')
  | drove {c : ConnState H Q} (hheld : Held api made i c) (a : A) (now : Nat) (k : K) :
      Held api made i (c.drive api a now k)
  | quicSent {q q' : QuicConn Q} {job : Job} {sent now : Nat} {tx : Bytes} {k : K}
      {r : Except TransportError Unit} (hheld : Held api made i (.quic q))
      (hsend : q.sendTx api.quic job sent tx now k = (q', r)) : Held api made i (.quic q')
  | looked {q q' : QuicConn Q} {now : Nat} {r : Option (JobId × Nat)}
      (hheld : Held api made i (.quic q)) (hwin : q.pollNorespWindow now = (q', r)) :
      Held api made i (.quic q')

/-- Both connections of a provider are its own. -/
structure Owned (api : ConnApi H A Q K) (made : Nat → Built H Q → Prop) (i : Nat)
    (p : ParWorker H Q) : Prop where
  active : Held api made i p.dualConn.active.conn
  standby : Held api made i p.dualConn.standby.conn

/-- The response holds a body polled on a connection of provider `i`, or reports a window in which
nothing was received. -/
def Received (api : ConnApi H A Q K) (made : Nat → Built H Q → Prop) (i : Nat)
    (log : List (Event H A)) (resp : RawResp) : Prop :=
  (∃ h a body, Held api made i (.http h) ∧ .polled h a (.ok (some body)) ∈ log ∧
    resp.bytes = respBytes body ∧ resp.outcomeHint = none) ∨
  (resp.bytes = [] ∧ resp.outcomeHint = some .noResponse)

section Calls

variable {api : ConnApi H A Q K} {made : Nat → Built H Q → Prop} {i : Nat} {w w' : ParWorker H Q}
  {evs : List (Event H A)}

theorem Owned.http (h : Owned api made i w) {hc : H} (hact : w.active = .http hc) :
    Held api made i (.http hc) := hact ▸ h.active

theorem Owned.quic (h : Owned api made i w) {q : QuicConn Q} (hact : w.active = .quic q) :
    Held api made i (.quic q) := hact ▸ h.active

theorem Owned.setActive (h : Owned api made i w) {c : ConnState H Q} (hc : Held api made i c) :
    Owned api made i (w.setActive c) := ⟨hc, h.standby⟩

theorem Owned.failedOver (h : Owned api made i w) : Owned api made i w.failedOver :=
  ⟨h.standby, h.active⟩

/-- A call that installs nothing leaves a provider its own connections. -/
theorem Does.owned (h : Does api w evs w') (hnot : .install ∉ evs) (hw : Owned api made i w) :
    Owned api made i w' := by
  cases h with
  | sent hact hsend =>
      obtain ⟨hactive, hstandby⟩ := hw.setActive ((hw.http hact).sent hsend)
      exact ⟨hactive, hstandby⟩
  | refused hact hsend => exact hw.setActive ((hw.http hact).sent hsend)
  | resent hact hsend _ hact₂ hsend₂ =>
      have hover := (hw.setActive ((hw.http hact).sent hsend)).failedOver
      obtain ⟨hactive, hstandby⟩ := hover.setActive ((hover.http hact₂).sent hsend₂)
      exact ⟨hactive, hstandby⟩
  | lost hact hsend _ hact₂ hsend₂ =>
      have hover := (hw.setActive ((hw.http hact).sent hsend)).failedOver
      exact hover.setActive ((hover.http hact₂).sent hsend₂)
  | dropped hact hsend => exact (hw.setActive ((hw.http hact).sent hsend)).failedOver
  | quicSent hact hsend =>
      obtain ⟨hactive, hstandby⟩ := hw.setActive ((hw.quic hact).quicSent hsend)
      exact ⟨hactive, hstandby⟩
  | drove a now k => exact hw.setActive (hw.active.drove a now k)
  | quiet hact hpoll => exact hw.setActive ((hw.http hact).polled hpoll)
  | answered hact hpoll =>
      obtain ⟨hactive, hstandby⟩ := hw.setActive ((hw.http hact).polled hpoll)
      exact ⟨hactive, hstandby⟩
  | unasked hact hpoll => exact hw.setActive ((hw.http hact).polled hpoll)
  | failed hact hpoll => exact (hw.setActive ((hw.http hact).polled hpoll)).failedOver
  | died => exact hw.failedOver
  | expired hact _ hwin => exact hw.setActive ((hw.quic hact).looked hwin)
  | waiting hact _ hwin => exact hw.setActive ((hw.quic hact).looked hwin)
  | installed => exact absurd (List.mem_singleton.mpr rfl) hnot
  | published => exact hw

/-- What a call pushes goes to the provider's ring, under its number, with what it received. -/
theorem Does.pushed (h : Does api w evs w') (hw : Owned api made i w) {ring : Nat} {resp : RawResp}
    (hm : .push ring resp ∈ evs) :
    ring = w.resultTx ∧ resp.provider = ProviderId.ofIndex w.providerIdx ∧
      Received api made i evs resp := by
  cases h with
  | @answered hc _ a body _ _ _ hact _ _ =>
      simp only [List.mem_cons, reduceCtorEq, Event.push.injEq, List.not_mem_nil, or_false,
        false_or] at hm
      obtain ⟨rfl, rfl⟩ := hm
      exact ⟨rfl, rfl, .inl ⟨hc, a, body, hw.http hact, List.mem_cons_self .., rfl, rfl⟩⟩
  | expired =>
      simp only [List.mem_singleton, Event.push.injEq] at hm
      obtain ⟨rfl, rfl⟩ := hm
      exact ⟨rfl, rfl, .inr ⟨rfl, rfl⟩⟩
  | _ => simp [ParWorker.failoverLog, ParWorker.publishDiag] at hm

/-- The same for a step, if what arrives was made for the provider. -/
theorem Act.owned {got : Option (ReconnectResp H Q)} (h : Act api got w evs w')
    (hgot : .install ∈ evs → ∀ idx c, got = some ⟨idx, .conn c⟩ → made i c)
    (hw : Owned api made i w) : Owned api made i w' := by
  cases h with
  | stay => exact hw
  | tick => exact ⟨hw.active, hw.standby⟩
  | kick a now k => exact hw.setActive (hw.active.drove a now k)
  | send hdoes hevs => exact hdoes.owned hevs hw
  | reap a now k hdoes hevs => exact hdoes.owned hevs (hw.setActive (hw.active.drove a now k))
  | install hc => exact ⟨hw.active, .built (hgot (List.mem_cons_self ..) _ _ hc)⟩
  | publish => exact hw

theorem Act.pushed {got : Option (ReconnectResp H Q)} (h : Act api got w evs w')
    (hw : Owned api made i w) {ring : Nat} {resp : RawResp} (hm : .push ring resp ∈ evs) :
    ring = w.resultTx ∧ resp.provider = ProviderId.ofIndex w.providerIdx ∧
      Received api made i evs resp := by
  cases h with
  | send hdoes => exact hdoes.pushed hw hm
  | reap a now k hdoes => exact hdoes.pushed (hw.setActive (hw.active.drove a now k)) hm
  | install _ htail =>
      rcases htail with rfl | rfl <;> simp [ParWorker.publishDiag] at hm
  | _ => simp [ParWorker.publishDiag] at hm

theorem Received.mono {log log' : List (Event H A)} {resp : RawResp}
    (h : Received api made i log resp) (hsub : log ⊆ log') : Received api made i log' resp := by
  rcases h with ⟨hc, a, body, hheld, hpoll, hbytes⟩ | h
  · exact .inl ⟨hc, a, body, hheld, hsub hpoll, hbytes⟩
  · exact .inr h

end Calls

/-! ## The whole sender -/

/-- Provider `i`'s own response. -/
def Own (api : ConnApi H A Q K) (made : Nat → Built H Q → Prop) (log : List (Logged H A)) (i : Nat)
    (resp : RawResp) : Prop :=
  resp.provider = ProviderId.ofIndex i ∧ Received api made i (eventsAt i log) resp

theorem Own.append {api : ConnApi H A Q K} {made : Nat → Built H Q → Prop}
    {log : List (Logged H A)} {i : Nat} {resp : RawResp} (h : Own api made log i resp)
    (logs : List (Logged H A)) : Own api made (log ++ logs) i resp := by
  refine ⟨h.1, h.2.mono ?_⟩
  rw [eventsAt_append]
  exact List.subset_append_left ..

/-- What is kept along a run. -/
structure Kept (api : ConnApi H A Q K) (made : Nat → Built H Q → Prop) (n : Nat) (kind : ConnKind)
    (codecs : List Codec) (s : Sender H Q) (log : List (Logged H A)) : Prop where
  wired : s.Wired n kind made
  owned : ∀ i p, s.workers.view i = some p → Owned api made i p
  lane : s.lane.Tracked codecs (Own api made log)

section Step

variable {api : ConnApi H A Q K} {made : Nat → Built H Q → Prop} {n : Nat} {kind : ConnKind}
  {codecs : List Codec} {builder : ReconnectBuilder H Q D} {s s' : Sender H Q}
  {log logs : List (Logged H A)}

/-- What a worker installs was made for the provider that gets it. -/
theorem made_of_install (hw : s.Wired n kind made) {j : Nat} {inp : Input H A Q K}
    {ws' : Workers H Q} (hacts : Workers.Acts api (s.workers.receives j) (s.hand j inp).delivered
      s.workers ws' logs) {i idx : Nat} {c : Built H Q} (hm : .on i .install ∈ logs)
    (hgot : (s.hand j inp).delivered = some ⟨idx, .conn c⟩) : made i c := by
  obtain ⟨hch, hslot⟩ := Sender.hand_delivered hw hgot
  -- the channel read is the one of the response's own provider, and of the one that installs it
  obtain rfl : idx = i := Option.some.inj (hch.symm.trans (hacts.installed i hm))
  obtain ⟨-, c', hc', hmade⟩ := hw.reconnect.responses idx _ hslot
  obtain rfl := ConnBox.conn.inj hc'
  exact hmade

theorem owned_worker (hkept : Kept api made n kind codecs s log) {j : Nat} {inp : Input H A Q K}
    (h : Sender.step api builder s (.worker j inp) = .ok (s', logs)) {i : Nat} {p' : ParWorker H Q}
    (hp' : s'.workers.view i = some p') : Owned api made i p' := by
  obtain ⟨-, -, hacts, -⟩ := Sender.step_worker hkept.wired h
  obtain ⟨p, hp⟩ := hacts.back i p' hp'
  obtain ⟨p'', hp'', hact⟩ := hacts.act i p hp
  obtain rfl := Option.some.inj (hp'.symm.trans hp'')
  refine hact.owned (fun hm idx c hgot => ?_) (hkept.owned i p hp)
  exact made_of_install hkept.wired hacts (mem_eventsAt.mp hm) hgot

/-- A worker pushes into a ring only what is its provider's own. -/
theorem own_of_pushed (hkept : Kept api made n kind codecs s log) {j : Nat} {inp : Input H A Q K}
    (h : Sender.step api builder s (.worker j inp) = .ok (s', logs)) {ring : Nat} {resp : RawResp}
    (hpush : (ring, resp) ∈ pushesIn logs) : Own api made (log ++ logs) ring resp := by
  obtain ⟨-, -, hacts, -⟩ := Sender.step_worker hkept.wired h
  obtain ⟨i, hm⟩ := mem_pushesIn.mp hpush
  rcases hacts.about with hquiet | ⟨i', p, evs, hp, rfl⟩
  · exact (hquiet _ hm).elim
  · obtain ⟨ev, hev, heq⟩ := List.mem_map.mp hm
    obtain ⟨rfl, rfl⟩ := Logged.on.inj heq
    obtain ⟨p', -, hact⟩ := hacts.act i' p hp
    rw [eventsAt_map_on] at hact
    obtain ⟨rfl, hprovider, hreceived⟩ := hact.pushed (hkept.owned i' p hp) hev
    have hends := hkept.wired.workers.ends i' p hp
    rw [hends.providerIdx] at hprovider
    rw [hends.resultTx]
    refine ⟨hprovider, hreceived.mono ?_⟩
    rw [eventsAt_append, eventsAt_map_on]
    exact List.subset_append_right ..

theorem tracked_foldl_push {cs : List Codec} {src : Nat → RawResp → Prop} {l : ResultLane}
    (h : l.Tracked cs src) {xs : List (Nat × RawResp)} (hxs : ∀ x ∈ xs, src x.1 x.2) :
    (xs.foldl (fun l x => l.push x.1 x.2) l).Tracked cs src := by
  induction xs generalizing l with
  | nil => exact h
  | cons x xs ih =>
      exact ih (h.push (hxs x (List.mem_cons_self ..))) fun y hy => hxs y (List.mem_cons_of_mem _ hy)

end Step

/-- **A step of the sender** keeps every provider to itself. -/
theorem kept_step {connectOne : Nat → D → Exec (Except SenderError (Built H Q))}
    {api : ConnApi H A Q K} {n : Nat} {kind : ConnKind} {codecs : List Codec} {s s' : Sender H Q}
    {log logs : List (Logged H A)} {a : Action H A Q K D}
    (hkept : Kept api (fun i c => ∃ d, connectOne i d = .ok (.ok c)) n kind codecs s log)
    (h : Sender.step api (engineReconnectBuilder connectOne) s a = .ok (s', logs)) :
    Kept api (fun i c => ∃ d, connectOne i d = .ok (.ok c)) n kind codecs s' (log ++ logs) := by
  have hwired := Sender.wired_step hkept.wired h
  cases a with
  | worker j inp =>
      refine ⟨hwired, fun i p' hp' => owned_worker hkept h hp', ?_⟩
      obtain ⟨-, -, -, -, hlane, -⟩ := Sender.step_worker hkept.wired h
      rw [hlane]
      refine tracked_foldl_push (hkept.lane.mono fun i resp hown => hown.append logs) ?_
      rintro ⟨ring, resp⟩ hx
      exact own_of_pushed hkept h hx
  | take =>
      cases h
      rw [List.append_nil]
      exact ⟨hwired, hkept.owned, hkept.lane⟩
  | finish d =>
      obtain ⟨r', -, h⟩ := bind_eq_ok.mp h
      cases h
      rw [List.append_nil]
      exact ⟨hwired, hkept.owned, hkept.lane⟩
  | exit =>
      cases h
      rw [List.append_nil]
      refine ⟨hwired, ?_, ?_⟩
      · split
        · exact hkept.owned
        · exact hkept.owned
      · split
        · exact hkept.lane
        · exact hkept.lane
  | lane sawStop =>
      obtain ⟨lane, hlane, h⟩ := bind_eq_ok.mp h
      cases h
      rw [List.append_nil]
      exact ⟨hwired, hkept.owned, hkept.lane.step hlane⟩
  | shutdown =>
      cases h
      rw [List.append_nil]
      exact ⟨hwired, hkept.owned, hkept.lane⟩

theorem kept_build {b : SenderBuilder} {connectOne : Nat → D → Exec (Except SenderError (Built H Q))}
    {ds : Nat → D × D} {s : Sender H Q} (api : ConnApi H A Q K)
    (h : b.build connectOne ds = .ok (.ok s)) :
    ∃ kind, Kept api (fun i c => ∃ d, connectOne i d = .ok (.ok c)) b.providers.length kind
      (b.providers.map ProviderConfig.codec) s [] := by
  obtain ⟨engine, -, hwired, hfresh, -, hlane⟩ := build_spec h
  refine ⟨engine.connKind, hwired, fun i p hp => ?_, ?_⟩
  · obtain ⟨a, b, ha, hb, rfl⟩ := hfresh i p hp
    exact ⟨.built ha, .built hb⟩
  · rw [hlane]
    exact ResultLane.tracked_new

/-- What no provider shares with another, in a state of the sender and the run to it. -/
structure Isolated (api : ConnApi H A Q K) (made : Nat → Built H Q → Prop)
    (providers : List ProviderConfig) (s : Sender H Q) (log : List (Logged H A)) : Prop where
  /-- there is a worker for every provider, and both connections it has are the provider's own -/
  conns : ∀ i < providers.length, ∃ p, s.workers.view i = some p ∧ Owned api made i p
  /-- what is in ring `i` carries the number of provider `i` and what its connections received -/
  rings : ∀ (i : Nat) queue, s.lane.rings[i]? = some queue → ∀ resp ∈ queue,
    resp.provider = ProviderId.ofIndex i ∧ Received api made i (eventsAt i log) resp
  /-- an outcome of provider `i` came from ring `i`, and was parsed with the codec of `i` -/
  sink : ∀ d ∈ s.lane.sink, ∀ i < providers.length, d.outcome.provider = ProviderId.ofIndex i →
    d.ring = i ∧ Received api made i (eventsAt i log) d.resp ∧
      ∃ cfg, providers[i]? = some cfg ∧ d.outcome = parseOne d.resp cfg.codec
  /-- every vector of the sequential worker has an entry for each provider -/
  vectors : ∀ w pc, s.workers = .sequential w pc → w.Sized ∧ w.conns.length = providers.length
  /-- a worker halts only where one with a single provider, and no vectors, halts at the same place -/
  workers : ∀ j inp e, s.workers.step api j (s.hand j inp) = .error e →
    ∃ i p, s.workers.view i = some p ∧
      ParWorker.step api (p, s.workers.parPc i) (s.hand j inp) = .error e
  lane : ∀ stop, ∃ l, s.lane.step stop = .ok l

theorem ofIndex_inj {i j : Nat} (hi : i < 65536) (hj : j < 65536)
    (h : ProviderId.ofIndex i = ProviderId.ofIndex j) : i = j := by
  have heq : UInt16.ofNat i = UInt16.ofNat j := congrArg ProviderId.val h
  have hnat := congrArg UInt16.toNat heq
  rwa [UInt16.toNat_ofNat_of_lt' hi, UInt16.toNat_ofNat_of_lt' hj] at hnat

theorem Kept.isolated {api : ConnApi H A Q K} {made : Nat → Built H Q → Prop} {kind : ConnKind}
    {providers : List ProviderConfig} {s : Sender H Q} {log : List (Logged H A)}
    (h : Kept api made providers.length kind (providers.map ProviderConfig.codec) s log)
    (hn : providers.length ≤ 65536) : Isolated api made providers s log := by
  refine ⟨fun i hi => ?_, h.lane.rings, fun d hd i hi hprovider => ?_, fun w pc hseq => ?_,
    fun j inp e hhalt => ?_, h.lane.step_ok⟩
  · obtain ⟨p, hp⟩ := h.wired.workers.here i hi
    exact ⟨p, hp, h.owned i p hp⟩
  · obtain ⟨⟨hown, hreceived⟩, codec, hcodec, hout⟩ := h.lane.sink d hd
    rw [List.getElem?_map] at hcodec
    obtain ⟨cfg, hcfg, rfl⟩ := Option.map_eq_some_iff.mp hcodec
    have hring : d.ring < providers.length := (List.getElem?_eq_some_iff.mp hcfg).1
    -- the outcome carries the number of the ring, and numbers this small are not truncated
    have hsame : ProviderId.ofIndex d.ring = ProviderId.ofIndex i := by
      rw [← hown, ← hprovider, hout]
      rfl
    obtain rfl := ofIndex_inj (by omega) (by omega) hsame
    exact ⟨rfl, hreceived, cfg, hcfg, hout⟩
  · have hw := h.wired.workers
    rw [hseq] at hw
    exact ⟨hw.sized w pc rfl, hw.length⟩
  · exact Workers.step_halts h.wired.workers (h.wired.hand_lt j inp) hhalt

/-- **Isolation.** Whatever a sender that `build` made does, in whatever order, no connection, response
or outcome of one provider ends up with another. -/
theorem providers_isolated {B T C : Type} (io : ByteIo B A) (tls : Tls T) (quic : QuicApi Q K)
    (dial : Dialer B T A Q C D) {b : SenderBuilder} {ds : Nat → D × D}
    {s₀ s : Sender (HttpConn B T) Q} {actions : List (Action (HttpConn B T) A Q K D)}
    {log : List (Logged (HttpConn B T) A)} (hn : b.providers.length ≤ 65536)
    (hbuild : b.build (connectOne io tls dial b.providers) ds = .ok (.ok s₀))
    (hrun : (Sender.machine ⟨HttpConn.api io tls, quic⟩
      (engineReconnectBuilder (connectOne io tls dial b.providers))).run s₀ actions = .ok (s, log)) :
    Isolated ⟨HttpConn.api io tls, quic⟩
      (fun i c => ∃ d, connectOne io tls dial b.providers i d = .ok (.ok c)) b.providers s log := by
  obtain ⟨kind, hkept⟩ := kept_build ⟨HttpConn.api io tls, quic⟩ hbuild
  have hend := Machine.run_invariant _
    (Kept ⟨HttpConn.api io tls, quic⟩
      (fun i c => ∃ d, connectOne io tls dial b.providers i d = .ok (.ok c)) b.providers.length kind
      (b.providers.map ProviderConfig.codec))
    hkept (fun s log a s' evs hk hone => kept_step hk hone) hrun
  exact hend.isolated hn

/-- Two providers whose codecs differ. -/
def twoProviders : List ProviderConfig :=
  [bareProvider (.accepted "first"), bareProvider (.accepted "second")]

/-- Provider 0 answers while provider 1 is reset; the new connection is delivered, and the lane hands
the answer on. -/
def answerAndReset : List (Action (HttpConn RawConn Bytes) RawAnswer (QuicEngine Bool) Bool Bool) :=
  let base := Input.quiet RawAnswer.silent false
  let send := { base with call := .takes 90 }
  let steps := [{ base with popped := some ⟨1, 0⟩, tsc := 10 }, send, send, base, base, base, base,
    { base with call := .arrives okResponse.bytes },
    { base with call := { sends := [], recvs := [.failed 104] } }, base]
  steps.map (.worker 0) ++ [.take, .finish true] ++
    [base, { base with empty := true }, base, base].map (.worker 0) ++ [.lane false, .lane false]

theorem providers_isolated_answer_and_reset :
    ∃ s₀ s log, (bareSender .seqRaw twoProviders).build (bareConnectOne twoProviders)
        (fun _ => (true, true)) = .ok (.ok s₀) ∧
      (bareMachine twoProviders).run s₀ answerAndReset = .ok (s, log) ∧
      s.lane.sink.map (fun d => (d.ring, d.outcome.kind)) = [(0, .accepted "first")] ∧
      (eventsAt 1 log).any (fun e => match e with | .install => true | _ => false) = true ∧
      Isolated (rawApi plainTls (quinnApi flagQuinn))
        (fun i c => ∃ d, bareConnectOne twoProviders i d = .ok (.ok c)) twoProviders s log := by
  obtain ⟨s₀, hbuild, out, hout, hsink, hinst⟩ := exists_built (bareSender .seqRaw twoProviders)
    (bareConnectOne twoProviders) (fun _ => (true, true))
    (fun s₀ => ∃ out ∈ ((bareMachine twoProviders).run s₀ answerAndReset).toOption,
      out.1.lane.sink.map (fun d => (d.ring, d.outcome.kind)) = [(0, .accepted "first")] ∧
      (eventsAt 1 out.2).any (fun e => match e with | .install => true | _ => false) = true)
    (by decide +kernel)
  have hrun := eq_ok_of_mem_toOption hout
  exact ⟨s₀, out.1, out.2, hbuild, hrun, hsink, hinst,
    providers_isolated rawLibc plainTls (quinnApi flagQuinn) bareDialer (by decide) hbuild hrun⟩

end TxSender.Transport
