/-
# TxSender.Transport.Handshake — how long connecting takes.

`quic_handshake` reads the clock in every round and gives up five seconds after it started, so
`QuicEngine::connect` returns (`quic_handshake_ends`), if the loops inside a round do. The handshake loop of
`HttpConn::connect_with` reads no clock: a peer that accepts the connection and then says nothing keeps it
spinning, and with it `build`, or the reconnect thread, that called it (`silent_provider_hangs`).
-/
import TxSender.Lib.Drain
import TxSender.Protocol.QuicDatagrams
import TxSender.Transport.Wiring

namespace TxSender.Protocol

open TxSender.Lib

/-! ## The QUIC handshake -/

/-- What `Endpoint::handle` makes of a datagram. -/
inductive DatagramEvent (V : Type) where
  | connectionEvent (ev : V)
  | response (transmit : Transmit)
  | newConnection

/-- What `Connection::poll` reports, as far as the handshake looks at it. -/
inductive QuicEvent where
  | connected
  | connectionLost (reason : String)
  | other
  deriving DecidableEq, Repr

/-- The calls of the handshake on a connection `C` and an endpoint `E`; `V` and `X` are the events they
exchange. -/
structure HandshakeApi (C E V X : Type) where
  pollTransmit : PollTransmit C
  /-- `endpoint.handle(now, addr, None, None, data, buf)` -/
  handle : E → Nat → Bytes → E × Option (DatagramEvent V)
  /-- `connection.handle_event(ev)` -/
  handleEvent : C → V → C
  pollTimeout : C → Option Nat
  handleTimeout : C → Nat → C
  pollEndpointEvents : C → C × Option X
  /-- `endpoint.handle_event(handle, ev)` -/
  routeEvent : E → X → E × Option V
  poll : C → C × Option QuicEvent
  isHandshaking : C → Bool

structure Party (C E : Type) where
  connection : C
  endpoint : E

/-- What the outside answers in one round. -/
structure Round where
  /-- `Instant::now()`, in nanoseconds -/
  now : Nat
  /-- what `recv_dgram` received, empty if nothing -/
  datagram : Bytes
  /-- the clock of `drain_handshake`, if the round gets there -/
  later : Nat

/-- `Duration::from_secs(5)` -/
def handshakeTimeout : Nat := 5000000000

def timeoutError : TransportError := .quic "handshake timeout (5s)"

def rejectedError (reason : String) : TransportError := .quic ("handshake rejected: " ++ reason)

/-- What the loop has done: the transmits handed to `udp_sendto`, the events polled, and what it returned. -/
structure HandshakeEnd (C E R : Type) where
  party : Party C E
  sent : List Transmit
  events : List QuicEvent
  result : R

namespace HandshakeApi

variable {C E V X : Type} (api : HandshakeApi C E V X)

/-- `while let Some(transmit) = connection.poll_transmit(now, 1, buf)` -/
def sendAll (fuel : Nat) (now : Nat) (c : C) : Exec (Drained C Transmit Unit) :=
  drain (fun c => api.pollTransmit c now 1) fuel c

/-- A datagram comes in, or none; with the transmit that answers it, if there is one. -/
def receive (p : Party C E) (now : Nat) (datagram : Bytes) : Party C E × List Transmit :=
  if datagram = [] then (p, [])
  else
    match api.handle p.endpoint now datagram with
    | (endpoint, some (.connectionEvent ev)) =>
        ({ connection := api.handleEvent p.connection ev, endpoint }, [])
    | (endpoint, some (.response transmit)) => ({ p with endpoint }, [transmit])
    | (endpoint, some .newConnection) | (endpoint, none) => ({ p with endpoint }, [])

/-- `handle_timeout`, if the timer is due -/
def expire (c : C) (now : Nat) : C :=
  match api.pollTimeout c with
  | some t => if t ≤ now then api.handleTimeout c now else c
  | none => c

/-- One endpoint event, passed to the endpoint and its answer back to the connection. -/
def route (p : Party C E) : Party C E × Option Unit :=
  match api.pollEndpointEvents p.connection with
  | (connection, none) => ({ p with connection }, none)
  | (connection, some ev) =>
      match api.routeEvent p.endpoint ev with
      | (endpoint, some back) => ({ connection := api.handleEvent connection back, endpoint }, some ())
      | (endpoint, none) => ({ connection, endpoint }, some ())

/-- The events at which the handshake is over. -/
def decides : QuicEvent → Option (Except TransportError Unit)
  | .connected => some (.ok ())
  | .connectionLost reason => some (.error (rejectedError reason))
  | .other => none

/-- A round up to its last poll, with what the event decides that ended the polls, if one did. -/
def exchange (fuel : Nat) (p : Party C E) (r : Round) :
    Exec (HandshakeEnd C E (Option (Except TransportError Unit))) := do
  let sends ← api.sendAll fuel r.now p.connection
  let (p, answer) := api.receive { p with connection := sends.state } r.now r.datagram
  let p := { p with connection := api.expire p.connection r.now }
  let routed ← drain api.route fuel p
  let polled ← drainUntil api.poll decides fuel routed.state.connection
  pure ⟨{ routed.state with connection := polled.state }, sends.items ++ answer, polled.items,
    polled.result⟩

/-- One round of the loop; without a result there is another. -/
def round (fuel deadline : Nat) (p : Party C E) (r : Round) :
    Exec (HandshakeEnd C E (Option (Except TransportError Unit))) :=
  if deadline < r.now then .ok ⟨p, [], [], some (.error timeoutError)⟩
  else do
    let x ← api.exchange fuel p r
    let outcome := match x.result with
      | some result => some result
      | none => if api.isHandshaking x.party.connection then none else some (.ok ())
    match outcome with
    | some (.ok ()) => do
        -- `drain_handshake`, with a clock of its own
        let rest ← api.sendAll fuel r.later x.party.connection
        pure ⟨{ x.party with connection := rest.state }, x.sent ++ rest.items, x.events, some (.ok ())⟩
    | outcome => pure ⟨x.party, x.sent, x.events, outcome⟩

/-- `quic_handshake`, from a round on -/
def loop (fuel deadline : Nat) (p : Party C E) :
    List Round → Exec (HandshakeEnd C E (Except TransportError Unit))
  | [] => .error .blocked
  | r :: rounds => do
      let turn ← api.round fuel deadline p r
      match turn.result with
      | some result => pure ⟨turn.party, turn.sent, turn.events, result⟩
      | none => do
          let rest ← loop fuel deadline turn.party rounds
          pure ⟨rest.party, turn.sent ++ rest.sent, turn.events ++ rest.events, rest.result⟩

/-- `quic_handshake`, started when the clock showed `start` -/
def quicHandshake (fuel start : Nat) (p : Party C E) (rounds : List Round) :
    Exec (HandshakeEnd C E (Except TransportError Unit)) :=
  api.loop fuel (start + handshakeTimeout) p rounds

/-! ## What the loops inside a round are given -/

/-- The loops inside a round end. -/
structure Settles (fuel : Nat) : Prop where
  transmits : ∀ c now, ∃ out, api.sendAll fuel now c = .ok out
  routes : ∀ p, ∃ out, drain api.route fuel p = .ok out
  events : ∀ c, ∃ out, drainUntil api.poll decides fuel c = .ok out

/-- A transmit that may hold one datagram holds one, and so does an answer of the endpoint. -/
structure OneDatagram : Prop where
  transmits : ∀ c now c' t, api.pollTransmit c now 1 = (c', some t) → t.Single
  responses : ∀ e now data e' t, api.handle e now data = (e', some (.response t)) → t.Single

/-- The rounds lead from one state of the parties to another without a result; with what they sent and
polled. -/
inductive Undecided (fuel deadline : Nat) :
    Party C E → List Round → List Transmit → List QuicEvent → Party C E → Prop
  | nil (p : Party C E) : Undecided fuel deadline p [] [] [] p
  | cons {p q : Party C E} {r : Round} {rounds : List Round} {sent : List Transmit}
      {events : List QuicEvent} {turn : HandshakeEnd C E (Option (Except TransportError Unit))}
      (hround : api.round fuel deadline p r = .ok turn) (hnone : turn.result = none)
      (hrest : Undecided fuel deadline turn.party rounds sent events q) :
      Undecided fuel deadline p (r :: rounds) (turn.sent ++ sent) (turn.events ++ events) q

/-- How the handshake is over, in a round with the answers `r` that began with `q`. -/
inductive Ends (fuel deadline : Nat) (q : Party C E) (r : Round) :
    HandshakeEnd C E (Except TransportError Unit) → Prop
  /-- the clock was past the deadline when the round began -/
  | timedOut (hlate : deadline < r.now) :
      Ends fuel deadline q r ⟨q, [], [], .error timeoutError⟩
  /-- the connection was lost in time -/
  | rejected {x : HandshakeEnd C E (Option (Except TransportError Unit))} {reason : String}
      (hintime : r.now ≤ deadline) (hexchange : api.exchange fuel q r = .ok x)
      (hlast : x.events.getLast? = some (.connectionLost reason)) :
      Ends fuel deadline q r ⟨x.party, x.sent, x.events, .error (rejectedError reason)⟩
  /-- it was established in time, by the last event polled or as the polls left it, and what it had to transmit
  was polled until there was nothing more -/
  | established {x : HandshakeEnd C E (Option (Except TransportError Unit))}
      {rest : Drained C Transmit Unit} (hintime : r.now ≤ deadline)
      (hexchange : api.exchange fuel q r = .ok x)
      (hover : x.events.getLast? = some .connected ∨
        (∀ ev ∈ x.events, ev = .other) ∧ api.isHandshaking x.party.connection = false)
      (hrest : api.sendAll fuel r.later x.party.connection = .ok rest)
      (hsent : ∃ c, Polls (fun c => api.pollTransmit c r.later 1) x.party.connection rest.items c ∧
        api.pollTransmit c r.later 1 = (rest.state, none)) :
      Ends fuel deadline q r
        ⟨{ x.party with connection := rest.state }, x.sent ++ rest.items, x.events, .ok ()⟩

section Proofs

variable {api} {fuel deadline : Nat} {p : Party C E} {r : Round}

theorem receive_single (hone : api.OneDatagram) (p : Party C E) (now : Nat) (data : Bytes) :
    ∀ t ∈ (api.receive p now data).2, t.Single := by
  intro t ht
  unfold receive at ht
  split at ht
  · cases ht
  · split at ht
    · cases ht
    · rename_i endpoint transmit hhandle
      rw [List.mem_singleton.mp ht]
      exact hone.responses _ _ _ _ _ hhandle
    · cases ht
    · cases ht

theorem sendAll_single (hone : api.OneDatagram) {now : Nat} {c : C} {out : Drained C Transmit Unit}
    (h : api.sendAll fuel now c = .ok out) : ∀ t ∈ out.items, t.Single := by
  intro t ht
  obtain ⟨c₀, c₁, hpoll⟩ := drainUntil_items h ht
  exact hone.transmits c₀ now c₁ t hpoll

theorem sendAll_done {now : Nat} {c : C} {out : Drained C Transmit Unit}
    (h : api.sendAll fuel now c = .ok out) :
    ∃ c', Polls (fun c => api.pollTransmit c now 1) c out.items c' ∧
      api.pollTransmit c' now 1 = (out.state, none) := by
  rcases drainUntil_cases h with ⟨-, -, hend⟩ | ⟨_, _, _, -, hret, -⟩
  · exact hend
  · cases hret

theorem eq_other_of_decides {ev : QuicEvent} (h : decides ev = none) : ev = .other := by
  cases ev with
  | other => rfl
  | connected => cases h
  | connectionLost reason => cases h

/-- **Up to the last poll**: everything handed over is a single datagram, and the last event decided, or
none did. -/
theorem exchange_spec {x : HandshakeEnd C E (Option (Except TransportError Unit))}
    (hone : api.OneDatagram) (h : api.exchange fuel p r = .ok x) :
    (∀ t ∈ x.sent, t.Single) ∧
      ((x.result = none ∧ ∀ ev ∈ x.events, ev = .other) ∨
        ∃ ev result, x.events.getLast? = some ev ∧ decides ev = some result ∧ x.result = some result) := by
  unfold exchange at h
  obtain ⟨sends, hsends, h⟩ := bind_eq_ok.mp h
  have hanswer := receive_single hone { p with connection := sends.state } r.now r.datagram
  obtain ⟨routed, hrouted, h⟩ := bind_eq_ok.mp h
  obtain ⟨polled, hpolled, h⟩ := bind_eq_ok.mp h
  obtain rfl := Except.ok.inj h
  refine ⟨?_, ?_⟩
  · intro t ht
    rcases List.mem_append.mp ht with ht | ht
    · exact sendAll_single hone hsends t ht
    · exact hanswer t ht
  · rcases drainUntil_cases hpolled with ⟨hnone, hall, -⟩ | ⟨before, ev, result, hitems, hdecides, hresult, -⟩
    · exact .inl ⟨hnone, fun ev hev => eq_other_of_decides (hall ev hev)⟩
    · refine .inr ⟨ev, result, ?_, hdecides, hresult⟩
      show polled.items.getLast? = some ev
      rw [hitems]
      exact List.getLast?_concat

/-- **One round** before the deadline: everything handed over is a single datagram, and if the round is the
last one it says how the handshake ended. -/
theorem round_spec {turn : HandshakeEnd C E (Option (Except TransportError Unit))}
    (hone : api.OneDatagram) (hintime : r.now ≤ deadline) (h : api.round fuel deadline p r = .ok turn) :
    (∀ t ∈ turn.sent, t.Single) ∧
      ∀ result, turn.result = some result →
        api.Ends fuel deadline p r ⟨turn.party, turn.sent, turn.events, result⟩ := by
  rw [round, if_neg (Nat.not_lt.mpr hintime)] at h
  obtain ⟨x, hexchange, h⟩ := bind_eq_ok.mp h
  obtain ⟨hsent, hdecided⟩ := exchange_spec hone hexchange
  -- the two ways out with a connection go through `drain_handshake`
  have established : (x.events.getLast? = some .connected ∨
        (∀ ev ∈ x.events, ev = .other) ∧ api.isHandshaking x.party.connection = false) →
      (do
        let rest ← api.sendAll fuel r.later x.party.connection
        pure (⟨{ x.party with connection := rest.state }, x.sent ++ rest.items, x.events, some (.ok ())⟩ :
          HandshakeEnd C E (Option (Except TransportError Unit)))) = .ok turn →
      (∀ t ∈ turn.sent, t.Single) ∧
        ∀ result, turn.result = some result →
          api.Ends fuel deadline p r ⟨turn.party, turn.sent, turn.events, result⟩ := by
    intro hover h
    obtain ⟨rest, hrest, h⟩ := bind_eq_ok.mp h
    obtain rfl := Except.ok.inj h
    refine ⟨?_, ?_⟩
    · intro t ht
      rcases List.mem_append.mp ht with ht | ht
      · exact hsent t ht
      · exact sendAll_single hone hrest t ht
    · intro result hresult
      obtain rfl := Option.some.inj hresult
      exact .established hintime hexchange hover hrest (sendAll_done hrest)
  rcases hdecided with ⟨hnone, hother⟩ | ⟨ev, result, hlast, hdecides, hresult⟩
  · rw [hnone] at h
    by_cases hshaking : api.isHandshaking x.party.connection = true
    · simp only [hshaking, if_true] at h
      obtain rfl := Except.ok.inj h
      refine ⟨hsent, ?_⟩
      intro result hresult
      cases hresult
    · simp only [hshaking, Bool.false_eq_true, if_false] at h
      exact established (.inr ⟨hother, Bool.eq_false_iff.mpr hshaking⟩) h
  · rw [hresult] at h
    cases ev with
    | connected =>
        obtain rfl := Option.some.inj hdecides
        exact established (.inl hlast) h
    | connectionLost reason =>
        obtain rfl := Option.some.inj hdecides
        obtain rfl := Except.ok.inj h
        refine ⟨hsent, ?_⟩
        intro result hresult
        obtain rfl := Option.some.inj hresult
        exact .rejected (x := x) hintime hexchange hlast
    | other => cases hdecides

theorem exists_exchange (hs : api.Settles fuel) (p : Party C E) (r : Round) :
    ∃ x, api.exchange fuel p r = .ok x := by
  unfold exchange
  obtain ⟨sends, hsends⟩ := hs.transmits p.connection r.now
  rw [hsends]
  simp only [ok_bind]
  obtain ⟨routed, hrouted⟩ := hs.routes
    { (api.receive { p with connection := sends.state } r.now r.datagram).1 with
      connection := api.expire (api.receive { p with connection := sends.state } r.now
        r.datagram).1.connection r.now }
  rw [hrouted]
  simp only [ok_bind]
  obtain ⟨polled, hpolled⟩ := hs.events routed.state.connection
  rw [hpolled]
  exact ⟨_, rfl⟩

theorem exists_round (hs : api.Settles fuel) (deadline : Nat) (p : Party C E) (r : Round) :
    ∃ turn, api.round fuel deadline p r = .ok turn := by
  unfold round
  split
  · exact ⟨_, rfl⟩
  obtain ⟨x, hx⟩ := exists_exchange hs p r
  rw [hx]
  simp only [ok_bind]
  split
  · obtain ⟨rest, hrest⟩ := hs.transmits x.party.connection r.later
    rw [hrest]
    exact ⟨_, rfl⟩
  · exact ⟨_, rfl⟩

/-- **The whole loop**, by induction on the rounds up to the first one past the deadline. -/
theorem loop_ends (hs : api.Settles fuel) (hone : api.OneDatagram) {rounds : List Round}
    (hpast : ∃ r ∈ rounds, deadline < r.now) :
    ∃ before last after q sent events final, rounds = before ++ last :: after ∧
      (∀ r ∈ before, r.now ≤ deadline) ∧ api.Undecided fuel deadline p before sent events q ∧
      api.Ends fuel deadline q last final ∧ (∀ t ∈ sent ++ final.sent, t.Single) ∧
      api.loop fuel deadline p rounds =
        .ok ⟨final.party, sent ++ final.sent, events ++ final.events, final.result⟩ := by
  induction rounds generalizing p with
  | nil =>
      obtain ⟨r, hr, -⟩ := hpast
      cases hr
  | cons r rounds ih =>
      rw [loop]
      by_cases hlate : deadline < r.now
      · have hround : api.round fuel deadline p r = .ok ⟨p, [], [], some (.error timeoutError)⟩ := if_pos hlate
        rw [hround]
        refine ⟨[], r, rounds, p, [], [], _, rfl, ?_, .nil p, .timedOut hlate, ?_, rfl⟩
        · intro x hx
          cases hx
        · intro t ht
          cases ht
      have hintime : r.now ≤ deadline := Nat.not_lt.mp hlate
      obtain ⟨turn, hturn⟩ := exists_round hs deadline p r
      obtain ⟨hsingle, hends⟩ := round_spec hone hintime hturn
      rw [hturn]
      cases hresult : turn.result with
      | some result =>
          simp only [ok_bind, hresult]
          refine ⟨[], r, rounds, p, [], [], _, rfl, ?_, .nil p, hends result hresult, hsingle, rfl⟩
          intro x hx
          cases hx
      | none =>
          have hrest : ∃ r ∈ rounds, deadline < r.now := by
            obtain ⟨x, hx, hxlate⟩ := hpast
            rcases List.mem_cons.mp hx with rfl | hx
            · exact absurd hxlate hlate
            · exact ⟨x, hx, hxlate⟩
          obtain ⟨before, last, after, q, sent, events, final, hsplit, hbefore, hundecided, hend, hsent, hloop⟩ :=
            ih (p := turn.party) hrest
          simp only [ok_bind, hresult, hloop, pure_eq_ok]
          refine ⟨r :: before, last, after, q, turn.sent ++ sent, turn.events ++ events, final, ?_, ?_,
            .cons hturn hresult hundecided, hend, ?_, ?_⟩
          · rw [hsplit]
            rfl
          · exact List.forall_mem_cons.mpr ⟨hintime, hbefore⟩
          · intro t ht
            rw [List.append_assoc] at ht
            rcases List.mem_append.mp ht with ht | ht
            · exact hsingle t ht
            · exact hsent t ht
          · rw [List.append_assoc, List.append_assoc]

end Proofs

end HandshakeApi

/-- **The QUIC handshake ends.** Whatever the peer sends and quinn makes of it, if the loops inside a round
end and the clock goes past five seconds after the start: `quic_handshake` returns, at the latest in the
first round that reads a clock past that, after rounds that came to no result. It reports the timeout exactly
when it gets to such a round, a rejection when the last event polled in its last round says that the
connection is lost, and success when that event says that it is established, or when the connection that the
polls of that round left is not handshaking any more; then everything the connection had to transmit has been
handed to the socket. What it handed over, it handed over datagram by datagram. -/
theorem quic_handshake_ends {C E V X : Type} (api : HandshakeApi C E V X) (fuel start : Nat)
    (p : Party C E) (rounds : List Round) (hsettles : api.Settles fuel) (hone : api.OneDatagram)
    (hpast : ∃ r ∈ rounds, start + handshakeTimeout < r.now) :
    ∃ before last after q sent events final, rounds = before ++ last :: after ∧
      (∀ r ∈ before, r.now ≤ start + handshakeTimeout) ∧
      api.Undecided fuel (start + handshakeTimeout) p before sent events q ∧
      api.Ends fuel (start + handshakeTimeout) q last final ∧
      api.quicHandshake fuel start p rounds =
        .ok ⟨final.party, sent ++ final.sent, events ++ final.events, final.result⟩ ∧
      (sent ++ final.sent).map Transmit.contents = (sent ++ final.sent).flatMap Transmit.datagrams := by
  obtain ⟨before, last, after, q, sent, events, final, hsplit, hbefore, hundecided, hend, hsent, hloop⟩ :=
    HandshakeApi.loop_ends (p := p) hsettles hone hpast
  exact ⟨before, last, after, q, sent, events, final, hsplit, hbefore, hundecided, hend, hloop,
    (contents_eq_flatMap_iff _).mpr hsent⟩

/-- A connection with a packet to send and an event to report, or without. -/
def helloQuinn : HandshakeApi (Bool × Bool) Unit Unit Unit where
  pollTransmit c _ _ :=
    if c.1 then ((false, c.2), some ⟨[1], 1, none, rfl, by simp⟩) else (c, none)
  handle e _ _ := (e, some (.connectionEvent ()))
  handleEvent _ _ := (true, true)
  pollTimeout _ := none
  handleTimeout c _ := c
  pollEndpointEvents c := (c, none)
  routeEvent e _ := (e, none)
  poll c := if c.2 then ((c.1, false), some .connected) else (c, none)
  isHandshaking _ := true

theorem settles_helloQuinn : helloQuinn.Settles 2 := by
  refine ⟨?_, ?_, ?_⟩
  · intro c now
    refine exists_drainUntil (fun c => if c.1 then 1 else 0) ?_ ?_
    · rintro ⟨hello, ev⟩ s' t hpoll
      cases hello with
      | true =>
          obtain ⟨rfl, -⟩ := Prod.mk.inj hpoll
          exact Nat.zero_lt_one
      | false => cases hpoll
    · split <;> decide
  · intro p
    exact ⟨⟨p, [], none⟩, rfl⟩
  · intro c
    refine exists_drainUntil (fun c => if c.2 then 1 else 0) ?_ ?_
    · rintro ⟨hello, ev⟩ s' t hpoll
      cases ev with
      | true =>
          obtain ⟨rfl, -⟩ := Prod.mk.inj hpoll
          exact Nat.zero_lt_one
      | false => cases hpoll
    · split <;> decide

theorem oneDatagram_helloQuinn : helloQuinn.OneDatagram := by
  refine ⟨?_, ?_⟩
  · rintro ⟨hello, ev⟩ now c' t hpoll
    cases hello with
    | true =>
        obtain ⟨-, ht⟩ := Prod.mk.inj hpoll
        obtain rfl := Option.some.inj ht
        intro s hs
        cases hs
    | false => cases hpoll
  · intro e now data e' t hhandle
    obtain ⟨-, ht⟩ := Prod.mk.inj hhandle
    cases ht

/-- The peer answers in the second round; the clock would be past the deadline in the third. -/
def helloRounds : List Round := [⟨1, [], 1⟩, ⟨2, [7], 3⟩, ⟨handshakeTimeout + 1, [], 0⟩]

theorem quic_handshake_ends_hello :
    ((helloQuinn.quicHandshake 2 0 ⟨(true, false), ()⟩ helloRounds).toOption.map fun out =>
        (out.result, out.sent.map Transmit.contents)) = some (.ok (), [[1], [1]]) ∧
      ∃ before last after q sent events final, helloRounds = before ++ last :: after ∧
        (∀ r ∈ before, r.now ≤ 0 + handshakeTimeout) ∧
        helloQuinn.Undecided 2 (0 + handshakeTimeout) ⟨(true, false), ()⟩ before sent events q ∧
        helloQuinn.Ends 2 (0 + handshakeTimeout) q last final ∧
        helloQuinn.quicHandshake 2 0 ⟨(true, false), ()⟩ helloRounds =
          .ok ⟨final.party, sent ++ final.sent, events ++ final.events, final.result⟩ ∧
        (sent ++ final.sent).map Transmit.contents = (sent ++ final.sent).flatMap Transmit.datagrams := by
  refine ⟨by decide +kernel, ?_⟩
  apply quic_handshake_ends helloQuinn 2 0 _ helloRounds settles_helloQuinn oneDatagram_helloQuinn
  exact ⟨⟨handshakeTimeout + 1, [], 0⟩, by simp [helloRounds], by decide⟩

end TxSender.Protocol

namespace TxSender

open TxSender.Lib
open TxSender.Http
open TxSender.Protocol
open TxSender.Provider

variable {B T A Q C D : Type}

/-! ## The TLS handshake -/

/-- The session after `n` calls of `handshake_ciphertext` and no input. -/
def unanswered (tls : Tls T) (t : T) (n : Nat) : T := Nat.iterate (fun t => (tls.writeTls t).1) n t

/-- Without input from its peer the session `t` does not get through its handshake. -/
def Waits (tls : Tls T) (isHandshaking : T → Bool) (t : T) : Prop :=
  ∀ n, isHandshaking (unanswered tls t n) = true

/-- The back end takes in the round whatever the unanswered session `t` has to send, and nothing comes. -/
structure ByteIo.Silent (io : ByteIo B A) (tls : Tls T) (t : T) (a : A) : Prop where
  submit : ∀ b n, (tls.writeTls (unanswered tls t n)).2 ≠ [] →
    ∃ b', io.submit b (tls.writeTls (unanswered tls t n)).2 a = .ok (b', .ok ())
  pollRecv : ∀ b n, ∃ b', io.pollRecv b n a = .ok (b', .ok [])

theorem Waits.next {tls : Tls T} {isHandshaking : T → Bool} {t : T} (h : Waits tls isHandshaking t) :
    Waits tls isHandshaking (tls.writeTls t).1 := by
  intro n
  exact h (n + 1)

theorem Waits.now {tls : Tls T} {isHandshaking : T → Bool} {t : T} (h : Waits tls isHandshaking t) :
    isHandshaking t = true := h 0

theorem ByteIo.Silent.next {io : ByteIo B A} {tls : Tls T} {t : T} {a : A} (h : io.Silent tls t a) :
    io.Silent tls (tls.writeTls t).1 a := by
  refine ⟨?_, h.pollRecv⟩
  intro b n hout
  exact h.submit b (n + 1) hout

namespace HttpConn

variable {io : ByteIo B A} {tls : Tls T}

/-- **One silent round** sends what the session has to send, and changes nothing else about it. -/
theorem handshakeRound_silent {c : HttpConn B T} {a : A} (h : io.Silent tls c.engine.tls a) :
    ∃ c', c.handshakeRound io tls a = .ok (c', .ok ()) ∧ c'.engine.tls = (tls.writeTls c.engine.tls).1 := by
  have hnow := h.submit c.io 0
  have hzero : unanswered tls c.engine.tls 0 = c.engine.tls := rfl
  rw [hzero] at hnow
  cases hwrite : tls.writeTls c.engine.tls with
  | mk session out =>
      rw [hwrite] at hnow
      by_cases hout : out = []
      · obtain ⟨b', hb'⟩ := h.pollRecv (io.drive c.io a) 4096
        refine ⟨{ io := b', engine := { c.engine with tls := session } }, ?_, rfl⟩
        unfold handshakeRound
        simp only [hwrite, hout, if_true, ok_bind, hb', pure_eq_ok]
      · obtain ⟨b, hb⟩ := hnow hout
        obtain ⟨b', hb'⟩ := h.pollRecv (io.drive b a) 4096
        refine ⟨{ io := b', engine := { c.engine with tls := session } }, ?_, rfl⟩
        unfold handshakeRound
        simp only [hwrite, hout, if_false, hb, ok_bind, hb', pure_eq_ok]

/-- **No number of silent rounds is enough.** -/
theorem handshake_silent {c : HttpConn B T} {isHandshaking : T → Bool} {rounds : List A}
    (hsilent : ∀ a ∈ rounds, io.Silent tls c.engine.tls a)
    (hwaits : Waits tls isHandshaking c.engine.tls) :
    c.handshake io tls isHandshaking rounds = .error .blocked := by
  induction rounds generalizing c with
  | nil =>
      rw [handshake]
      exact if_pos hwaits.now
  | cons a rounds ih =>
      obtain ⟨c', hround, htls⟩ := handshakeRound_silent (hsilent a List.mem_cons_self)
      rw [handshake, if_pos hwaits.now, hround]
      simp only [ok_bind]
      apply ih
      · intro x hx
        rw [htls]
        exact (hsilent x (List.mem_cons_of_mem _ hx)).next
      · rw [htls]
        exact hwaits.next

end HttpConn

namespace Transport

open TxSender.Backend

/-- An HTTP provider whose peer accepts the connection and says nothing during the handshake. -/
structure SilentProvider (io : ByteIo B A) (tls : Tls T) (dial : Dialer B T A Q C D) (p : ProviderConfig)
    (i : Nat) (d : D) : Prop where
  http : p.protocol = .http
  compiles : ∃ tpl, (buildEnvelope p).compile = .ok (.ok tpl)
  made : dial.make i d = .ok ()
  accepted : ∃ raw, dial.connect (p.endpoint.host ++ ":" ++ toString p.endpoint.port.toNat) d = .ok raw
  session : ∃ t, dial.session p.endpoint.serverName d = .ok t ∧ Waits tls dial.isHandshaking t ∧
    ∀ a ∈ dial.rounds d, io.Silent tls t a

section Silent

variable {io : ByteIo B A} {tls : Tls T} {dial : Dialer B T A Q C D} {providers : List ProviderConfig}
  {p : ProviderConfig} {i : Nat} {d : D}

theorem SilentProvider.connectOne (h : SilentProvider io tls dial p i d) (hp : providers[i]? = some p) :
    connectOne io tls dial providers i d = .error .blocked := by
  obtain ⟨tpl, htpl⟩ := h.compiles
  obtain ⟨raw, hraw⟩ := h.accepted
  obtain ⟨t, ht, hwaits, hsilent⟩ := h.session
  have hspins : HttpConn.connectWith io tls dial p tpl d = .error .blocked := by
    unfold HttpConn.connectWith
    simp only [hraw, ht]
    exact HttpConn.handshake_silent hsilent hwaits
  unfold Transport.connectOne
  rw [index_eq_ok hp]
  simp only [ok_bind, h.http]
  unfold connectHttp
  simp only [htpl, ok_bind, h.made, hspins]
  rfl

/-- The providers before it connect. -/
def ConnectsBefore {H : Type} (connectOne : Nat → D → Exec (Except SenderError (Built H Q)))
    (ds : Nat → D × D) (i : Nat) : Prop :=
  ∀ j < i, ∃ a b, connectOne j (ds j).1 = .ok (.ok a) ∧ connectOne j (ds j).2 = .ok (.ok b)

theorem connectDualAll_halts {H : Type} {connectOne : Nat → D → Exec (Except SenderError (Built H Q))}
    {ds : Nat → D × D} {halt : Halt} {k : Nat} :
    ∀ {n i : Nat}, k < n → (∀ j < k, ∃ a b, connectOne (i + j) (ds (i + j)).1 = .ok (.ok a) ∧
        connectOne (i + j) (ds (i + j)).2 = .ok (.ok b)) →
      (connectOne (i + k) (ds (i + k)).1 = .error halt ∨
        (∃ a, connectOne (i + k) (ds (i + k)).1 = .ok (.ok a)) ∧
          connectOne (i + k) (ds (i + k)).2 = .error halt) →
      connectDualAll connectOne ds n i = .error halt := by
  induction k with
  | zero =>
      intro n i hn _ hhalt
      obtain ⟨m, rfl⟩ : ∃ m, n = m + 1 := ⟨n - 1, by omega⟩
      rw [Nat.add_zero] at hhalt
      rw [connectDualAll]
      rcases hhalt with hfirst | ⟨⟨a, ha⟩, hsecond⟩
      · rw [hfirst]
        rfl
      · simp only [ha, ok_bind, hsecond]
        rfl
  | succ k ih =>
      intro n i hn hbefore hhalt
      obtain ⟨m, rfl⟩ : ∃ m, n = m + 1 := ⟨n - 1, by omega⟩
      obtain ⟨a, b, ha, hb⟩ := hbefore 0 (Nat.zero_lt_succ k)
      rw [Nat.add_zero] at ha hb
      have hshift : i + (k + 1) = i + 1 + k := by omega
      rw [hshift] at hhalt
      have hrest := ih (n := m) (i := i + 1) (by omega) ?_ hhalt
      · rw [connectDualAll]
        simp only [ha, ok_bind, hb, hrest]
        rfl
      · intro j hj
        have hnext := hbefore (j + 1) (by omega)
        rw [show i + (j + 1) = i + 1 + j by omega] at hnext
        exact hnext

end Silent

/-- **A silent provider hangs whoever connects to it.** Take any of the engines over `raw_libc` and `io_uring`,
which connect in `build`, and any list of providers, one of which is an HTTP provider whose peer accepts the
connection and then says nothing. If the
providers before it connect, `build` does not return, however many rounds the handshake is given, whether it
is the first connection of the provider that meets with silence or the second. And a reconnect thread that
rebuilds a connection to it does not get back to its loop, where it would see the stop flag. -/
theorem silent_provider_hangs (io : ByteIo B A) (tls : Tls T) (dial : Dialer B T A Q C D)
    (b : SenderBuilder) (engine : Engine) (ds : Nat → D × D) (i : Nat) (p : ProviderConfig)
    (hengine : b.transport = some engine)
    (hparts : b.hasTls = true ∧ b.hasSource = true ∧ b.hasSink = true) (hp : b.providers[i]? = some p)
    (hbefore : ConnectsBefore (connectOne io tls dial b.providers) ds i)
    (hsilent : SilentProvider io tls dial p i (ds i).1 ∨
      (∃ a, connectOne io tls dial b.providers i (ds i).1 = .ok (.ok a)) ∧
        SilentProvider io tls dial p i (ds i).2) :
    b.build (connectOne io tls dial b.providers) ds = .error .blocked ∧
      ∀ (rc : Reconnect (HttpConn B T) Q) (req : ReconnectReq) (d : D), rc.pc = .building req →
        req.providerIdx = i → SilentProvider io tls dial p i d →
        rc.finish (engineReconnectBuilder (connectOne io tls dial b.providers)) d = .error .blocked := by
  have hi := (List.getElem?_eq_some_iff.mp hp).1
  constructor
  · have hduals : connectDualAll (connectOne io tls dial b.providers) ds b.providers.length 0 =
        .error .blocked := by
      apply connectDualAll_halts hi
      · intro j hj
        rw [Nat.zero_add]
        exact hbefore j hj
      · rw [Nat.zero_add]
        rcases hsilent with hfirst | ⟨hmade, hsecond⟩
        · exact .inl (hfirst.connectOne hp)
        · exact .inr ⟨hmade, hsecond.connectOne hp⟩
    obtain ⟨htls, hsource, hsink⟩ := hparts
    unfold SenderBuilder.build
    split
    · rename_i hnil
      rw [hnil] at hi
      exact absurd hi (Nat.not_lt_zero i)
    · simp only [hengine, htls, hsource, hsink, Bool.true_eq_false, if_false, hduals]
      rfl
  · intro rc req d hpc hidx hd
    unfold Reconnect.finish
    rw [hpc]
    simp only [engineReconnectBuilder, hidx, hd.connectOne hp]
    rfl

/-- The session has a hello to send; the peer takes it and never answers, for `n` rounds. -/
def muteDialer : Dialer RawConn Bytes RawAnswer (QuicEngine Bool) Unit Nat where
  make _ _ := .ok ()
  connect _ _ := .ok { written := [] }
  session _ _ := .ok [1]
  isHandshaking _ := true
  rounds n := List.replicate n { sends := [⟨1, 0⟩], recvs := [.failed 11] }
  quicClientConfig _ _ _ := .ok ()
  quicConnect _ _ _ _ := .error (.quic "refused")

theorem unanswered_plainTls (n : Nat) : unanswered plainTls [] n = [] := by
  induction n with
  | zero => rfl
  | succ n ih => exact ih

theorem silentProvider_mute (n : Nat) :
    SilentProvider rawLibc plainTls muteDialer (bareProvider .noResponse) 0 n := by
  refine ⟨rfl, ?_, rfl, ⟨_, rfl⟩, [1], rfl, fun _ => rfl, ?_⟩
  · obtain ⟨r, hr, tpl, htpl, -⟩ : ∃ r ∈ (buildEnvelope (bareProvider .noResponse)).compile.toOption,
        ∃ tpl ∈ r.toOption, True := by decide +kernel
    have hcompile := eq_ok_of_mem_toOption hr
    cases r with
    | error e => cases htpl
    | ok tpl => exact ⟨tpl, hcompile⟩
  · intro a ha
    rw [List.eq_of_mem_replicate ha]
    refine ⟨?_, ?_⟩
    · intro b n hout
      cases n with
      | zero => exact ⟨_, rfl⟩
      | succ n => exact absurd (unanswered_plainTls n) hout
    · intro b n
      exact ⟨b, rfl⟩

theorem silent_provider_hangs_mute :
    (bareSender .parRaw [bareProvider .noResponse]).build
        (connectOne rawLibc plainTls muteDialer [bareProvider .noResponse]) (fun _ => (3, 3)) =
      .error .blocked := by
  refine (silent_provider_hangs rawLibc plainTls muteDialer (bareSender .parRaw [bareProvider .noResponse])
    .parRaw (fun _ => (3, 3)) 0 (bareProvider .noResponse) rfl ⟨rfl, rfl, rfl⟩ rfl ?_
    (.inl (silentProvider_mute 3))).1
  intro j hj
  exact absurd hj (Nat.not_lt_zero j)

end Transport

end TxSender
