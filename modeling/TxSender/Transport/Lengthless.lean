/-
# TxSender.Transport.Lengthless — a response without a length silences its connection.

`body_if_complete` waits for a content length. A server that answers without one, with `Transfer-Encoding:
chunked` for instance, leaves a header block in `rx_plain` that stays the first for good: nothing clears the
buffer but a complete response, and what arrives later is appended behind (`HttpConn.Stuck`). The error that
`ingest` reports above the limit is not one for which `reap` fails over, and there is no timeout; so the worker
goes on sending jobs on the connection, and no response comes out of it until the connection breaks.
-/
import TxSender.Transport.Buffering
import TxSender.Transport.Panics

namespace TxSender

open TxSender.Lib
open TxSender.Http
open TxSender.Protocol
open TxSender.Backend
open TxSender.Provider
open TxSender.Transport

/-! ## The first header block -/

namespace Http

theorem headerBlock_append {acc h : Bytes} (hh : headerBlock acc = some h) (more : Bytes) :
    headerBlock (acc ++ more) = some h := by
  obtain ⟨hfind, hfour, hpre⟩ := headerBlock_eq_some hh
  unfold headerBlock
  rw [Search.find_append_right hfind, Option.map_some, Nat.sub_add_cancel hfour,
    List.take_append_of_le_length hpre.length_le, ← List.prefix_iff_eq_take.mp hpre]

/-- A complete header block that names no length. -/
def Lengthless (acc : Bytes) : Prop := ∃ h, headerBlock acc = some h ∧ declaredLength h = none

instance (acc : Bytes) : Decidable (Lengthless acc) :=
  match hh : headerBlock acc with
  | none => isFalse fun ⟨_, hsome, _⟩ => by rw [hh] at hsome; cases hsome
  | some h =>
      if hn : declaredLength h = none then isTrue ⟨h, hh, hn⟩
      else isFalse fun ⟨_, hsome, hnone⟩ => hn (Option.some.inj (hh.symm.trans hsome) ▸ hnone)

theorem Lengthless.append {acc : Bytes} (h : Lengthless acc) (more : Bytes) :
    Lengthless (acc ++ more) := by
  obtain ⟨head, hh, hn⟩ := h
  exact ⟨head, headerBlock_append hh more, hn⟩

theorem Lengthless.no_body {acc : Bytes} (h : Lengthless acc) : bodyIfComplete acc = .ok none := by
  obtain ⟨head, hh, hn⟩ := h
  apply bodyIfComplete_eq_none
  rw [hh, Option.bind_some]
  exact hn

variable {T : Type} {tls : Tls T} {e e' : HttpEngine T} {cipher : Bytes}

theorem HttpEngine.mem_scanned {acc : Bytes} (h : acc ∈ e.scanned tls cipher) :
    ∃ more, acc = e.rxPlain ++ more := by
  unfold HttpEngine.scanned at h
  by_cases hempty : cipher = []
  · rw [if_pos hempty] at h
    exact ⟨[], by rw [List.append_nil]; exact (Option.some.inj h).symm⟩
  · rw [if_neg hempty] at h
    split at h
    · cases h
    · exact ⟨_, (Option.some.inj h).symm⟩

/-- What `ingest` hands out was found in what it looked through. -/
theorem HttpEngine.ingest_body {body : Bytes} (h : e.ingest tls cipher = .ok (e', .ok (some body))) :
    ∃ acc ∈ e.scanned tls cipher, bodyIfComplete acc = .ok (some body) := by
  have hsettle : ∀ {rx rest : Bytes}, settle rx = .ok (rest, .ok (some body)) →
      bodyIfComplete rx = .ok (some body) := by
    intro rx rest hs
    obtain ⟨found, hfound, hs⟩ := bind_eq_ok.mp hs
    cases found with
    | some b =>
        cases hs
        exact hfound
    | none =>
        simp only at hs
        split at hs
        · cases hs
        · cases hs
  unfold HttpEngine.ingest at h
  unfold HttpEngine.scanned
  by_cases hempty : cipher = []
  · rw [if_pos hempty] at h ⊢
    obtain ⟨⟨rx, r⟩, hs, h⟩ := bind_eq_ok.mp h
    cases h
    exact ⟨_, rfl, hsettle hs⟩
  · rw [if_neg hempty] at h ⊢
    generalize tls.feed e.tls cipher = fed at h ⊢
    obtain ⟨session, plain, err⟩ := fed
    cases err with
    | some err => cases h
    | none =>
        obtain ⟨⟨rx, r⟩, hs, h⟩ := bind_eq_ok.mp h
        cases h
        exact ⟨_, rfl, hsettle hs⟩

end Http

/-! ## One connection -/

namespace HttpConn

variable {B A T : Type} {io : ByteIo B A} {tls : Tls T} {c c' : HttpConn B T}

/-- The connection waits for a length that has not come. -/
def Stuck (c : HttpConn B T) : Prop := Lengthless c.engine.rxPlain

theorem Stuck.sendTx (h : c.Stuck) {tx : Bytes} {a : A} {r : Except TransportError Unit}
    (hsend : c.sendTx io tls tx a = .ok (c', r)) : c'.Stuck := by
  unfold Stuck
  rw [sendTx_rxPlain hsend]
  exact h

/-- No poll returns a body, whatever arrives. -/
theorem Stuck.no_response (h : c.Stuck) {a : A} {body : Bytes} :
    c.pollResponse io tls a ≠ .ok (c', .ok (some body)) := by
  intro hpoll
  obtain ⟨⟨b, received⟩, -, hpoll⟩ := bind_eq_ok.mp hpoll
  cases received with
  | error e => cases hpoll
  | ok rx =>
      obtain ⟨⟨engine, r⟩, hingest, hpoll⟩ := bind_eq_ok.mp hpoll
      cases hpoll
      obtain ⟨acc, hacc, hfound⟩ := HttpEngine.ingest_body hingest
      obtain ⟨more, rfl⟩ := HttpEngine.mem_scanned hacc
      rw [(h.append more).no_body] at hfound
      cases hfound

theorem Stuck.pollResponse (h : c.Stuck) {a : A} {r : Except TransportError (Option Bytes)}
    (hpoll : c.pollResponse io tls a = .ok (c', r)) : c'.Stuck := by
  obtain ⟨body, rfl, -⟩ | ⟨-, hkept⟩ := pollResponse_rxPlain hpoll
  · exact absurd hpoll h.no_response
  · unfold Stuck
    rw [hkept]
    exact h.append _

end HttpConn

namespace Transport

variable {B A T Q K C D : Type} {io : ByteIo B A} {tls : Tls T} {quic : QuicApi Q K}

/-! ## One provider -/

/-- The active connection of the provider is stuck. -/
def Silenced (p : ParWorker (HttpConn B T) Q) : Prop := ∃ c, p.active = .http c ∧ c.Stuck

instance (p : ParWorker (HttpConn B T) Q) : Decidable (Silenced p) :=
  match hact : p.active with
  | .http c =>
      if hc : Lengthless c.engine.rxPlain then isTrue ⟨c, hact, hc⟩
      else isFalse fun ⟨_, hsame, hstuck⟩ =>
        hc (ConnState.http.inj (hact.symm.trans hsame) ▸ hstuck)
  | .quic _ => isFalse fun ⟨_, hsame, _⟩ => by rw [hact] at hsame; cases hsame

def Event.isFailover {H : Type} : Event H A → Bool
  | .failover _ _ => true
  | _ => false

/-- A failover is logged. -/
def FailsOver {H : Type} (evs : List (Event H A)) : Prop := ∃ e ∈ evs, e.isFailover = true

instance {H : Type} (evs : List (Event H A)) : Decidable (FailsOver evs) :=
  inferInstanceAs (Decidable (∃ e ∈ evs, _))

theorem failsOver_log {H : Type} (w : ParWorker H Q) (l r : List (Event H A)) :
    FailsOver (l ++ (w.failoverLog ++ r)) :=
  ⟨.failover w.inflight w.active.quicInflight, by simp [ParWorker.failoverLog], rfl⟩

/-- A call on a stuck connection fails over, or leaves it stuck and reports nothing. -/
theorem Does.silenced {w w' : ParWorker (HttpConn B T) Q} {evs : List (Event (HttpConn B T) A)}
    (h : Does ⟨HttpConn.api io tls, quic⟩ w evs w') (hw : Silenced w) :
    FailsOver evs ∨ Silenced w' ∧ ∀ ring resp, .push ring resp ∉ evs := by
  obtain ⟨c, hc, hstuck⟩ := hw
  have hsame : ∀ {c₁ : HttpConn B T}, w.active = .http c₁ → c₁.Stuck := by
    intro c₁ hc₁
    obtain rfl := ConnState.http.inj (hc.symm.trans hc₁)
    exact hstuck
  have hnot : ∀ {q : QuicConn Q}, w.active ≠ .quic q := by
    intro q hq
    rw [hc] at hq
    cases hq
  cases h with
  | sent hact hsend => exact .inr ⟨⟨_, rfl, (hsame hact).sendTx hsend⟩, by simp⟩
  | refused hact hsend => exact .inr ⟨⟨_, rfl, (hsame hact).sendTx hsend⟩, by simp⟩
  | resent => exact .inl (failsOver_log _ _ _)
  | lost => exact .inl (failsOver_log _ _ _)
  | dropped => exact .inl (failsOver_log _ _ _)
  | quicSent hact => exact absurd hact hnot
  | drove a now k =>
      refine .inr ⟨⟨c.drive io a, ?_, hstuck⟩, by simp⟩
      show w.active.drive _ a now k = _
      rw [hc]
      rfl
  | quiet hact hpoll => exact .inr ⟨⟨_, rfl, (hsame hact).pollResponse hpoll⟩, by simp⟩
  | answered hact hpoll => exact absurd hpoll (hsame hact).no_response
  | unasked hact hpoll => exact absurd hpoll (hsame hact).no_response
  | @failed h h' a e hact =>
      have hlog := failsOver_log (w.setActive (.http h')) [.polled h a (.error e)] []
      rw [List.append_nil] at hlog
      exact .inl hlog
  | died hact => exact absurd hact hnot
  | expired hact => exact absurd hact hnot
  | waiting hact => exact absurd hact hnot
  | installed => exact .inr ⟨⟨c, hc, hstuck⟩, by simp⟩
  | published => exact .inr ⟨⟨c, hc, hstuck⟩, by simp [ParWorker.publishDiag]⟩

theorem Act.silenced {w w' : ParWorker (HttpConn B T) Q} {evs : List (Event (HttpConn B T) A)}
    {got : Option (ReconnectResp (HttpConn B T) Q)}
    (h : Act ⟨HttpConn.api io tls, quic⟩ got w evs w') (hw : Silenced w) :
    FailsOver evs ∨ Silenced w' ∧ ∀ ring resp, .push ring resp ∉ evs := by
  have hdrove : ∀ (a : A) (now : Nat) (k : K), Silenced
      (w.setActive (w.active.drive (⟨HttpConn.api io tls, quic⟩ : ConnApi _ A Q K) a now k)) := by
    intro a now k
    obtain ⟨c, hc, hstuck⟩ := hw
    refine ⟨c.drive io a, ?_, hstuck⟩
    show w.active.drive _ a now k = _
    rw [hc]
    rfl
  cases h with
  | stay => exact .inr ⟨hw, by simp⟩
  | tick => exact .inr ⟨hw, by simp⟩
  | kick a now k => exact .inr ⟨hdrove a now k, by simp⟩
  | send hdoes => exact hdoes.silenced hw
  | reap a now k hdoes => exact hdoes.silenced (hdrove a now k)
  | install _ htail =>
      refine .inr ⟨hw, ?_⟩
      rcases htail with rfl | rfl
      · simp
      · simp [ParWorker.publishDiag]
  | publish => exact .inr ⟨hw, by simp [ParWorker.publishDiag]⟩

/-! ## The sender -/

/-- **A step of the sender** leaves provider `i` silenced, unless it fails over for `i`. -/
theorem silenced_step {connectOne : Nat → D → Exec (Except SenderError (Built (HttpConn B T) Q))}
    {n i : Nat} {kind : ConnKind} {made : Nat → Built (HttpConn B T) Q → Prop}
    {s s' : Sender (HttpConn B T) Q} {logs : List (Logged (HttpConn B T) A)}
    {a : Action (HttpConn B T) A Q K D} (hw : s.Wired n kind made)
    (h : Sender.step ⟨HttpConn.api io tls, quic⟩ (engineReconnectBuilder connectOne) s a =
      .ok (s', logs))
    (hi : ∃ p, s.workers.view i = some p ∧ Silenced p) :
    FailsOver (eventsAt i logs) ∨ (∃ p, s'.workers.view i = some p ∧ Silenced p) ∧
      ∀ ring resp, .push ring resp ∉ eventsAt i logs := by
  obtain ⟨p, hp, hsilent⟩ := hi
  rcases Sender.step_cases h with ⟨j, inp, rfl, -, -⟩ | ⟨rfl, hworkers, -⟩
  · obtain ⟨-, -, hacts, -⟩ := Sender.step_worker hw h
    obtain ⟨p', hp', hact⟩ := hacts.act i p hp
    rcases hact.silenced hsilent with hover | ⟨hkept, hpush⟩
    · exact .inl hover
    · exact .inr ⟨⟨p', hp', hkept⟩, hpush⟩
  · exact .inr ⟨⟨p, hworkers ▸ hp, hsilent⟩, by simp [eventsAt]⟩

/-- **A response without a length silences its provider.** Take any sender that `build` made, with the
sequential or the parallel engine, any back end and any TLS session, and a state it can get into in which the active connection of a
provider has received a header block without a content length. Whatever arrives from then on, on this or any
other connection, and however often the provider is sent a job: until the worker fails over for it no response
is pushed for the provider, and the connection stays as it is. -/
theorem lengthless_silences (io : ByteIo B A) (tls : Tls T) (quic : QuicApi Q K)
    (connectOne : Nat → D → Exec (Except SenderError (Built (HttpConn B T) Q))) (b : SenderBuilder)
    (ds : Nat → D × D) (s₀ s s' : Sender (HttpConn B T) Q)
    (before after : List (Action (HttpConn B T) A Q K D)) (log₀ log : List (Logged (HttpConn B T) A))
    (hbuild : b.build connectOne ds = .ok (.ok s₀))
    (hbefore : (Sender.machine ⟨HttpConn.api io tls, quic⟩ (engineReconnectBuilder connectOne)).run s₀
      before = .ok (s, log₀))
    (i : Nat) (p : ParWorker (HttpConn B T) Q) (c : HttpConn B T) (hp : s.workers.view i = some p)
    (hc : p.active = .http c) (hstuck : c.Stuck)
    (hafter : (Sender.machine ⟨HttpConn.api io tls, quic⟩ (engineReconnectBuilder connectOne)).run s
      after = .ok (s', log))
    (hover : ¬ FailsOver (eventsAt i log)) :
    (∀ ring resp, .push ring resp ∉ eventsAt i log) ∧
      ∃ p' c', s'.workers.view i = some p' ∧ p'.active = .http c' ∧ c'.Stuck := by
  obtain ⟨engine, -, hwired₀, -⟩ := build_spec hbuild
  have hwired := Machine.run_invariant _
    (fun s _ => s.Wired b.providers.length engine.connKind
      (fun i c => ∃ d, connectOne i d = .ok (.ok c)))
    hwired₀ (fun s log a s' evs hw hstep => Sender.wired_step hw hstep) hbefore
  have hend := Machine.run_invariant _
    (fun s log => s.Wired b.providers.length engine.connKind
        (fun i c => ∃ d, connectOne i d = .ok (.ok c)) ∧
      (¬ FailsOver (eventsAt i log) → (∃ p, s.workers.view i = some p ∧ Silenced p) ∧
        ∀ ring resp, .push ring resp ∉ eventsAt i log))
    ⟨hwired, fun _ => ⟨⟨p, hp, c, hc, hstuck⟩, by simp [eventsAt]⟩⟩ ?_ hafter
  · obtain ⟨⟨p', hp', c', hc', hstuck'⟩, hpush⟩ := hend.2 hover
    exact ⟨hpush, p', c', hp', hc', hstuck'⟩
  rintro s log a s' evs ⟨hw, hsilent⟩ hstep
  refine ⟨Sender.wired_step hw hstep, ?_⟩
  intro hnot
  rw [eventsAt_append] at hnot ⊢
  have hold : ¬ FailsOver (eventsAt i log) := by
    rintro ⟨e, hm, he⟩
    exact hnot ⟨e, List.mem_append_left _ hm, he⟩
  obtain ⟨hi, hquiet⟩ := hsilent hold
  rcases silenced_step hw hstep hi with ⟨e, hm, he⟩ | ⟨hkept, hnone⟩
  · exact absurd ⟨e, List.mem_append_right _ hm, he⟩ hnot
  · refine ⟨hkept, ?_⟩
    intro ring resp hm
    rcases List.mem_append.mp hm with hm | hm
    · exact hquiet ring resp hm
    · exact hnone ring resp hm

/-- An answer in chunks. -/
def chunkedResponse : Bytes := utf8 "HTTP/1.1 200 OK\r\nTransfer-Encoding: chunked\r\n\r\n0\r\n\r\n"

/-- A job is answered in chunks. -/
def answeredInChunks :
    List (Action (HttpConn RawConn Bytes) RawAnswer (QuicEngine Bool) Bool Bool) :=
  let base := Input.quiet RawAnswer.silent false
  [{ base with popped := some ⟨1, 0⟩ }, { base with call := .takes 90 },
    { base with call := .arrives chunkedResponse }, base, base].map (.worker 0)

/-- The next job is answered as it should be. -/
def answeredAgain :
    List (Action (HttpConn RawConn Bytes) RawAnswer (QuicEngine Bool) Bool Bool) :=
  let base := Input.quiet RawAnswer.silent false
  [{ base with popped := some ⟨2, 0⟩ }, { base with call := .takes 90 },
    { base with call := .arrives okResponse.bytes }, base, base].map (.worker 0)

/-- The second answer is complete, and nobody hears of it. -/
theorem lengthless_silences_answer :
    ∃ s₀ s s' log₀ log p c, (bareSender .parRaw [bareProvider (.accepted "signature")]).build
        (bareConnectOne [bareProvider (.accepted "signature")]) (fun _ => (true, true)) =
          .ok (.ok s₀) ∧
      (bareMachine [bareProvider (.accepted "signature")]).run s₀ answeredInChunks = .ok (s, log₀) ∧
      s.workers.view 0 = some p ∧ p.active = .http c ∧ c.Stuck ∧
      (bareMachine [bareProvider (.accepted "signature")]).run s answeredAgain = .ok (s', log) ∧
      (takenJobs (eventsAt 0 log)).map (fun x => x.1.id) = [2] ∧
      ∀ ring resp, .push ring resp ∉ eventsAt 0 log := by
  obtain ⟨s₀, hbuild, ⟨s, log₀⟩, hout, ⟨p, hp, c, hc, hstuck⟩, ⟨s', log⟩, hout', htaken, hover⟩ :=
    exists_built (bareSender .parRaw [bareProvider (.accepted "signature")])
      (bareConnectOne [bareProvider (.accepted "signature")]) (fun _ => (true, true))
      (fun s₀ => ∃ out ∈ ((bareMachine [bareProvider (.accepted "signature")]).run s₀
          answeredInChunks).toOption, (∃ p ∈ out.1.workers.view 0, Silenced p) ∧
        ∃ out' ∈ ((bareMachine [bareProvider (.accepted "signature")]).run out.1
            answeredAgain).toOption,
          (takenJobs (eventsAt 0 out'.2)).map (fun x => x.1.id) = [2] ∧
            ¬ FailsOver (eventsAt 0 out'.2))
      (by decide +kernel)
  have hbefore := eq_ok_of_mem_toOption hout
  have hafter := eq_ok_of_mem_toOption hout'
  have hsilent := lengthless_silences rawLibc plainTls (quinnApi flagQuinn) _ _ _ s₀ s s' answeredInChunks
    answeredAgain log₀ log hbuild hbefore 0 p c hp hc hstuck hafter hover
  exact ⟨s₀, s, s', log₀, log, p, c, hbuild, hbefore, hp, hc, hstuck, hafter, htaken, hsilent.1⟩

end Transport

end TxSender
