/-
# TxSender.Transport.Panics — when a worker thread dies.

A worker slices, indexes and adds all the time, and any of it could panic. Of all these places two are left:
the slice of the scratch buffer, when the source reports more bytes than the buffer holds, and the sum of the
two lengths in `body_if_complete`, when a server announces a body that ends beyond the largest machine number
(`worker_panics_iff`). The second is in the hands of whoever answers. Envelopes are not among them: a connection
that `connect_one` made keeps its template laid out through all calls (`Held.spliceable`).
-/
import TxSender.Http.Reassembly
import TxSender.Provider.Registry
import TxSender.Transport.Isolation

namespace TxSender

open TxSender.Lib
open TxSender.Http
open TxSender.Protocol
open TxSender.Provider

/-! ## Looking for a response -/

namespace Http

/-- `body_if_complete` panics exactly when the end of the announced body is no machine number. -/
theorem bodyIfComplete_panics_iff {acc : Bytes} :
    bodyIfComplete acc = .error .panic ↔ ¬ EndFits acc := by
  cases hl : (headerBlock acc).bind declaredLength with
  | none =>
      rw [bodyIfComplete_eq_none hl]
      constructor
      · intro h
        cases h
      · intro h
        apply absurd _ h
        intro head n hh hn
        rw [hh, Option.bind_some, hn] at hl
        cases hl
  | some n =>
      obtain ⟨head, hh, hn⟩ := Option.bind_eq_some_iff.mp hl
      have hiff : EndFits acc ↔ head.length + n < 2 ^ 64 := by
        constructor
        · intro h
          exact h head n hh hn
        · intro h head' n' hh' hn'
          obtain rfl := Option.some.inj (hh.symm.trans hh')
          obtain rfl := Option.some.inj (hn.symm.trans hn')
          exact h
      rw [hiff]
      by_cases hfits : head.length + n < 2 ^ 64
      · refine iff_of_false ?_ (not_not.mpr hfits)
        intro hpanic
        rcases safeAnswer_of_length hh hn hfits with hnone | ⟨_, b, _, hsome, -⟩
        · rw [hnone] at hpanic
          cases hpanic
        · rw [hsome] at hpanic
          cases hpanic
      · refine iff_of_true ?_ hfits
        rw [bodyIfComplete_eq hh hn, Exec.addUsize, if_neg hfits]
        rfl

theorem settle_panics_iff {rx : Bytes} : settle rx = .error .panic ↔ ¬ EndFits rx := by
  rw [← bodyIfComplete_panics_iff]
  unfold settle
  rw [bind_eq_error]
  constructor
  · rintro (h | ⟨r, -, h⟩)
    · exact h
    · cases r with
      | some body => cases h
      | none =>
          simp only at h
          split at h
          · cases h
          · cases h
  · exact Or.inl

variable {T : Type}

/-- The plaintext `ingest` looks through, unless it returns an error before it does. -/
def HttpEngine.scanned (tls : Tls T) (e : HttpEngine T) (cipher : Bytes) : Option Bytes :=
  if cipher = [] then some e.rxPlain
  else
    match tls.feed e.tls cipher with
    | (_, _, some _) => none
    | (_, plain, none) => some (e.rxPlain ++ plain)

theorem HttpEngine.ingest_panics_iff {tls : Tls T} {e : HttpEngine T} {cipher : Bytes} :
    e.ingest tls cipher = .error .panic ↔ ∃ acc ∈ e.scanned tls cipher, ¬ EndFits acc := by
  have hsettle : ∀ {f : Bytes × Except TransportError (Option Bytes) → HttpEngine T ×
      Except TransportError (Option Bytes)} {rx : Bytes},
      (do let x ← settle rx; pure (f x)) = .error .panic ↔ ¬ EndFits rx := by
    intro f rx
    rw [bind_eq_error, settle_panics_iff]
    constructor
    · rintro (h | ⟨x, -, h⟩)
      · exact h
      · cases h
    · exact Or.inl
  unfold HttpEngine.ingest HttpEngine.scanned
  by_cases hempty : cipher = []
  · rw [if_pos hempty, if_pos hempty]
    simp only [Option.mem_def, Option.some.injEq, exists_eq_left']
    exact hsettle
  · rw [if_neg hempty, if_neg hempty]
    obtain ⟨session, plain, err⟩ := tls.feed e.tls cipher
    cases err with
    | some err => simp
    | none =>
        simp only [Option.mem_def, Option.some.injEq, exists_eq_left']
        exact hsettle

/-- The template is laid out, so that every `splice` returns. -/
def EnvelopeTemplate.Spliceable (t : EnvelopeTemplate) : Prop :=
  ∃ pre mid slot post, Layout t pre mid slot post

theorem HttpEngine.encode_returns (tls : Tls T) {e : HttpEngine T} (h : e.envelope.Spliceable)
    (tx : Bytes) :
    ∃ e' r, e.encode tls tx = .ok (e', r) ∧ e'.envelope.Spliceable := by
  obtain ⟨pre, mid, slot, post, hlay⟩ := h
  obtain ⟨t', r, hsplice, hlay', -⟩ := hlay.splice_result tx
  unfold HttpEngine.encode
  rw [hsplice, ok_bind]
  cases r with
  | error err => exact ⟨_, _, rfl, pre, mid, slot, post, hlay'⟩
  | ok frame =>
      simp only
      obtain ⟨session, w⟩ := tls.writeAll e.tls frame
      cases w with
      | error err => exact ⟨_, _, rfl, pre, mid, slot, post, hlay'⟩
      | ok _ => exact ⟨_, _, rfl, pre, mid, slot, post, hlay'⟩

theorem HttpEngine.ingest_envelope {tls : Tls T} {e e' : HttpEngine T} {cipher : Bytes}
    {r : Except TransportError (Option Bytes)} (h : e.ingest tls cipher = .ok (e', r)) :
    e'.envelope = e.envelope := by
  unfold HttpEngine.ingest at h
  by_cases hempty : cipher = []
  · rw [if_pos hempty] at h
    obtain ⟨x, -, h⟩ := bind_eq_ok.mp h
    cases h
    rfl
  · rw [if_neg hempty] at h
    generalize tls.feed e.tls cipher = fed at h
    obtain ⟨session, plain, err⟩ := fed
    cases err with
    | some err =>
        cases h
        rfl
    | none =>
        obtain ⟨x, -, h⟩ := bind_eq_ok.mp h
        cases h
        rfl

end Http

/-! ## One connection -/

/-- The back end does not panic. -/
structure ByteIo.Calm {B A : Type} (io : ByteIo B A) : Prop where
  submit : ∀ b bytes a, io.submit b bytes a ≠ .error .panic
  pollRecv : ∀ b n a, io.pollRecv b n a ≠ .error .panic

theorem calm_rawLibc : ByteIo.Calm Backend.rawLibc := by
  refine ⟨?_, ?_⟩
  · intro conn bytes a
    show Backend.submitFrom bytes 0 conn a.sends ≠ .error .panic
    generalize a.sends = as
    generalize 0 = sent
    induction as generalizing sent conn with
    | nil =>
        unfold Backend.submitFrom
        split
        · simp
        · simp
    | cons x rest ih =>
        unfold Backend.submitFrom
        simp only
        split
        · split
          · exact ih _ _
          · split
            · exact ih _ _
            · split
              · exact ih _ _
              · simp
        · simp
  · intro conn cap a
    show Backend.pollRecvFrom conn cap a.recvs ≠ .error .panic
    generalize a.recvs = as
    induction as with
    | nil => simp [Backend.pollRecvFrom]
    | cons x rest ih =>
        cases x with
        | received bytes =>
            simp only [Backend.pollRecvFrom]
            split
            · simp
            · simp
        | failed errno =>
            simp only [Backend.pollRecvFrom]
            split
            · exact ih
            · split
              · simp
              · simp

namespace HttpConn

variable {B A T Q C D : Type} {io : ByteIo B A} {tls : Tls T} {c c' : HttpConn B T}

/-- With what this poll receives, the server has announced a body that ends beyond every address. -/
def Overruns (io : ByteIo B A) (tls : Tls T) (c : HttpConn B T) (a : A) : Prop :=
  ∃ b rx, io.pollRecv c.io 4096 a = .ok (b, .ok rx) ∧
    ∃ acc ∈ c.engine.scanned tls rx, ¬ EndFits acc

theorem pollResponse_panics_iff (hio : io.Calm) {a : A} :
    c.pollResponse io tls a = .error .panic ↔ c.Overruns io tls a := by
  unfold pollResponse
  rw [bind_eq_error]
  constructor
  · rintro (h | ⟨⟨b, r⟩, hpoll, h⟩)
    · exact absurd h (hio.pollRecv _ _ _)
    · cases r with
      | error e => cases h
      | ok rx =>
          rcases bind_eq_error.mp h with h | ⟨x, -, h⟩
          · exact ⟨b, rx, hpoll, HttpEngine.ingest_panics_iff.mp h⟩
          · cases h
  · rintro ⟨b, rx, hpoll, hover⟩
    refine .inr ⟨(b, .ok rx), hpoll, ?_⟩
    exact bind_eq_error.mpr (.inl (HttpEngine.ingest_panics_iff.mpr hover))

theorem pollResponse_envelope {a : A} {r : Except TransportError (Option Bytes)}
    (h : c.pollResponse io tls a = .ok (c', r)) : c'.engine.envelope = c.engine.envelope := by
  obtain ⟨⟨b, rx⟩, -, h⟩ := bind_eq_ok.mp h
  cases rx with
  | error e =>
      cases h
      rfl
  | ok rx =>
      obtain ⟨⟨engine, r'⟩, hingest, h⟩ := bind_eq_ok.mp h
      cases h
      exact HttpEngine.ingest_envelope hingest

theorem sendTx_ne_panic (hio : io.Calm) (h : c.engine.envelope.Spliceable) (tx : Bytes) (a : A) :
    c.sendTx io tls tx a ≠ .error .panic := by
  obtain ⟨e', r, hencode, -⟩ := HttpEngine.encode_returns tls h tx
  unfold sendTx
  rw [hencode, ok_bind]
  intro hpanic
  cases r with
  | error e => cases hpanic
  | ok cipher =>
      rcases bind_eq_error.mp hpanic with hsubmit | ⟨x, -, hrest⟩
      · exact hio.submit _ _ _ hsubmit
      · cases hrest

theorem sendTx_spliceable (h : c.engine.envelope.Spliceable) {tx : Bytes} {a : A}
    {r : Except TransportError Unit} (hsend : c.sendTx io tls tx a = .ok (c', r)) :
    c'.engine.envelope.Spliceable := by
  obtain ⟨e', r', hencode, hkept⟩ := HttpEngine.encode_returns tls h tx
  unfold sendTx at hsend
  rw [hencode, ok_bind] at hsend
  cases r' with
  | error e =>
      cases hsend
      exact hkept
  | ok cipher =>
      obtain ⟨x, -, hsend⟩ := bind_eq_ok.mp hsend
      cases hsend
      exact hkept

/-! ## The template behind a new connection -/

theorem handshakeRound_envelope {a : A} {r : Except TransportError Unit}
    (h : c.handshakeRound io tls a = .ok (c', r)) : c'.engine.envelope = c.engine.envelope := by
  simp only [handshakeRound] at h
  -- the same follows whether there was something to send or not
  split at h
  all_goals
    obtain ⟨⟨b, submitted⟩, -, h⟩ := bind_eq_ok.mp h
    cases submitted with
    | error e =>
        cases h
        rfl
    | ok _ =>
        obtain ⟨⟨b', received⟩, -, h⟩ := bind_eq_ok.mp h
        rcases received with e | _ | ⟨x, rx⟩
        · cases h
          rfl
        · cases h
          rfl
        · obtain ⟨⟨engine, r'⟩, hingest, h⟩ := bind_eq_ok.mp h
          cases h
          have hkept := HttpEngine.ingest_envelope hingest
          exact hkept

theorem handshake_envelope {isHandshaking : T → Bool} {rounds : List A}
    (h : c.handshake io tls isHandshaking rounds = .ok (.ok c')) :
    c'.engine.envelope = c.engine.envelope := by
  induction rounds generalizing c with
  | nil =>
      rw [handshake] at h
      split at h
      · cases h
      · cases h
        rfl
  | cons a rounds ih =>
      rw [handshake] at h
      split at h
      · obtain ⟨⟨c₁, r⟩, hround, h⟩ := bind_eq_ok.mp h
        cases r with
        | error e => cases h
        | ok _ => rw [ih h, handshakeRound_envelope hround]
      · cases h
        rfl

theorem connectWith_envelope {dial : Dialer B T A Q C D} {cfg : ProviderConfig}
    {envelope : EnvelopeTemplate} {d : D} (h : connectWith io tls dial cfg envelope d = .ok (.ok c)) :
    c.engine.envelope = envelope := by
  unfold connectWith at h
  simp only at h
  split at h
  · cases h
  · split at h
    · cases h
    · exact handshake_envelope h

end HttpConn

namespace Transport

variable {H B A T Q K C D : Type} {io : ByteIo B A} {tls : Tls T} {quic : QuicApi Q K}

/-- The template of an HTTP connection is laid out. -/
def ConnState.Spliceable : ConnState (HttpConn B T) Q → Prop
  | .http c => c.engine.envelope.Spliceable
  | .quic _ => True

/-- A request whose body template holds its sentinel and whose template stays below `2^32` bytes. -/
def Fillable (p : ProviderConfig) : Prop :=
  (∃ i, Search.OccursAt bodySentinel (utf8 (Registry.envelopeBuilder p).bodyTpl) i) ∧
    (Registry.envelopeBuilder p).paddedLen < 2 ^ 32

theorem connectOne_spliceable {dial : Dialer B T A Q C D} {providers : List ProviderConfig}
    (hfill : ∀ p ∈ providers, p.protocol = .http → Fillable p) {i : Nat} {d : D}
    {c : Built (HttpConn B T) Q} (h : connectOne io tls dial providers i d = .ok (.ok c)) :
    ConnState.Spliceable c.state := by
  obtain ⟨p, hp, h⟩ := bind_eq_ok.mp h
  have hmem : p ∈ providers := by
    unfold Exec.index at hp
    split at hp
    · next q hq =>
        cases hp
        exact List.mem_of_getElem? hq
    · cases hp
  cases hproto : p.protocol with
  | quic =>
      rw [hproto] at h
      cases c with
      | quic engine => trivial
      | http c =>
          simp only [connectQuic, pure_eq_ok, Except.ok.injEq] at h
          repeat' split at h
          all_goals cases h
  | http =>
      rw [hproto] at h
      obtain ⟨⟨i, hocc⟩, hshort⟩ := hfill p hmem hproto
      obtain ⟨r, hcompile, h⟩ := bind_eq_ok.mp h
      cases r with
      | error e => cases h
      | ok tpl =>
          simp only at h
          split at h
          · cases h
          · obtain ⟨r, hconnect, h⟩ := bind_eq_ok.mp h
            cases r with
            | error e => cases h
            | ok conn =>
                cases h
                show conn.engine.envelope.Spliceable
                rw [HttpConn.connectWith_envelope hconnect]
                obtain ⟨pre, mid, slot, post, -, -, -, -, hlay⟩ :=
                  EnvelopeSpecBuilder.layout_of_compile ⟨i, hocc⟩ hshort hcompile
                exact ⟨pre, mid, slot, post, hlay⟩

/-- Every call leaves a connection with a template that is laid out. -/
theorem Held.spliceable {made : Nat → Built (HttpConn B T) Q → Prop}
    (hmade : ∀ i c, made i c → ConnState.Spliceable c.state) {i : Nat}
    {c : ConnState (HttpConn B T) Q} (h : Held ⟨HttpConn.api io tls, quic⟩ made i c) :
    ConnState.Spliceable c := by
  induction h with
  | built hb => exact hmade i _ hb
  | sent _ hsend ih => exact HttpConn.sendTx_spliceable ih hsend
  | polled _ hpoll ih =>
      show EnvelopeTemplate.Spliceable _
      rw [HttpConn.pollResponse_envelope hpoll]
      exact ih
  | @drove c _ a now k ih =>
      cases c with
      | http h => exact ih
      | quic q => trivial
  | quicSent => trivial
  | looked => trivial

/-! ## One provider -/

theorem attempt_ne_panic (hio : io.Calm) {w : ParWorker (HttpConn B T) Q} {c : HttpConn B T}
    (hc : c.engine.envelope.Spliceable) {job : Job} {sent : Nat} {tx : Bytes} {a : A} :
    w.attempt ⟨HttpConn.api io tls, quic⟩ c job sent tx a ≠ .error .panic := by
  intro h
  rcases bind_eq_error.mp h with hsend | ⟨⟨c', r⟩, -, hrest⟩
  · exact HttpConn.sendTx_ne_panic hio hc tx a hsend
  · cases r with
    | error e => cases hrest
    | ok _ => cases hrest

theorem sendAgain_ne_panic (hio : io.Calm) {w : ParWorker (HttpConn B T) Q}
    (hstandby : ConnState.Spliceable w.dualConn.standby.conn) {job : Job} {sent : Nat} {tx : Bytes}
    {a : A} {e : IoError} :
    w.sendAgain ⟨HttpConn.api io tls, quic⟩ job sent tx a e ≠ .error .panic := by
  intro h
  unfold ParWorker.sendAgain at h
  simp only at h
  split at h
  case h_1 c hactive =>
    -- after the failover the standby is the active connection
    have hc : ConnState.Spliceable (.http c : ConnState (HttpConn B T) Q) := by
      rw [← hactive]
      exact hstandby
    rcases bind_eq_error.mp h with hat | ⟨x, -, hrest⟩
    · exact attempt_ne_panic hio hc hat
    · cases hrest
  case h_2 => cases h

theorem sendHttp_ne_panic (hio : io.Calm) {w : ParWorker (HttpConn B T) Q} {c : HttpConn B T}
    (hc : c.engine.envelope.Spliceable) (hstandby : ConnState.Spliceable w.dualConn.standby.conn)
    {job : Job} {sent : Nat} {tx : Bytes} {inp : Input (HttpConn B T) A Q K} :
    w.sendHttp ⟨HttpConn.api io tls, quic⟩ c job sent tx inp ≠ .error .panic := by
  intro h
  rcases bind_eq_error.mp h with hat | ⟨⟨w', r⟩, hat, hrest⟩
  · exact attempt_ne_panic hio hc hat
  · have hkept : w'.dualConn.standby = w.dualConn.standby := by
      obtain ⟨⟨c', r'⟩, -, hx⟩ := bind_eq_ok.mp hat
      cases r' with
      | error e =>
          cases hx
          rfl
      | ok _ =>
          cases hx
          rfl
    simp only at hrest
    split at hrest
    · split at hrest
      · rcases bind_eq_error.mp hrest with hagain | ⟨x, -, hrest⟩
        · exact sendAgain_ne_panic hio (hkept ▸ hstandby) hagain
        · cases hrest
      · cases hrest
    · cases hrest

/-- `send_to` panics at the slice of the scratch buffer and nowhere else. -/
theorem sendTo_panics_iff (hio : io.Calm) {p : ParWorker (HttpConn B T) Q}
    (hactive : ConnState.Spliceable p.dualConn.active.conn)
    (hstandby : ConnState.Spliceable p.dualConn.standby.conn) {job : Job} {sent : Nat}
    {inp : Input (HttpConn B T) A Q K} :
    p.sendTo ⟨HttpConn.api io tls, quic⟩ job sent inp = .error .panic ↔ inp.filled.length < inp.len := by
  unfold ParWorker.sendTo Exec.sliceTo
  by_cases hlen : inp.len ≤ inp.filled.length
  · rw [if_pos hlen, ok_bind]
    refine iff_of_false ?_ (by omega)
    intro h
    cases hact : p.active with
    | http c =>
        simp only [hact] at h
        have hc : ConnState.Spliceable (.http c : ConnState (HttpConn B T) Q) := by
          rw [← hact]
          exact hactive
        rcases bind_eq_error.mp h with hsend | ⟨x, -, hrest⟩
        · exact sendHttp_ne_panic hio hc hstandby hsend
        · cases hrest
    | quic q =>
        simp only [hact] at h
        cases h
  · rw [if_neg hlen]
    exact iff_of_true rfl (by omega)

/-- `reap` panics in `body_if_complete` and nowhere else. -/
theorem reap_panics_iff (hio : io.Calm) {p : ParWorker (HttpConn B T) Q} {pid : ProviderId}
    {inp : Input (HttpConn B T) A Q K} :
    (p.driveActive ⟨HttpConn.api io tls, quic⟩ inp).reap ⟨HttpConn.api io tls, quic⟩ pid inp =
        .error .panic ↔
      ∃ c, p.active = .http c ∧ (c.drive io inp.drive).Overruns io tls inp.call := by
  cases hact : p.active with
  | http c =>
      have hdrove : (p.driveActive ⟨HttpConn.api io tls, quic⟩ inp).active =
          .http (c.drive io inp.drive) := by
        show p.active.drive _ _ _ _ = _
        rw [hact]
        rfl
      unfold ParWorker.reap
      rw [hdrove]
      constructor
      · intro h
        rcases bind_eq_error.mp h with hpoll | ⟨x, -, hrest⟩
        · exact ⟨c, rfl, (HttpConn.pollResponse_panics_iff hio).mp hpoll⟩
        · cases hrest
      · rintro ⟨c', hc', hover⟩
        obtain rfl := ConnState.http.inj hc'
        exact bind_eq_error.mpr (.inl ((HttpConn.pollResponse_panics_iff hio).mpr hover))
  | quic q =>
      have hdrove : (p.driveActive ⟨HttpConn.api io tls, quic⟩ inp).active =
          .quic (q.drive quic inp.now inp.quic) := by
        show p.active.drive _ _ _ _ = _
        rw [hact]
        rfl
      unfold ParWorker.reap
      rw [hdrove]
      constructor
      · intro h
        cases h
      · rintro ⟨c, hc, -⟩
        cases hc

/-! ## The sender -/

/-- **When a worker panics.** Take any back end that does not panic itself, any sender that `build` made, with
the sequential or the parallel engine, whose HTTP requests can be filled, and any run of its threads. The next step of a thread panics
exactly when it slices the scratch buffer behind its end, for a source that reported more than it filled, or
polls a connection on which the server has announced a body that ends beyond the largest machine number. -/
theorem worker_panics_iff (io : ByteIo B A) (hio : io.Calm) (tls : Tls T) (quic : QuicApi Q K)
    (dial : Dialer B T A Q C D) (b : SenderBuilder) (ds : Nat → D × D)
    (hfill : ∀ p ∈ b.providers, p.protocol = .http → Fillable p) (s₀ s : Sender (HttpConn B T) Q)
    (actions : List (Action (HttpConn B T) A Q K D)) (log : List (Logged (HttpConn B T) A))
    (hbuild : b.build (connectOne io tls dial b.providers) ds = .ok (.ok s₀))
    (hrun : (Sender.machine ⟨HttpConn.api io tls, quic⟩
      (engineReconnectBuilder (connectOne io tls dial b.providers))).run s₀ actions = .ok (s, log))
    (j : Nat) (inp : Input (HttpConn B T) A Q K) :
    s.workers.step ⟨HttpConn.api io tls, quic⟩ j (s.hand j inp) = .error .panic ↔
      ∃ i p, s.workers.view i = some p ∧
        ((∃ job sent, s.workers.duty j = some (i, .send job sent) ∧ inp.filled.length < inp.len) ∨
          s.workers.duty j = some (i, .reap) ∧
            ∃ c, p.active = .http c ∧ (c.drive io inp.drive).Overruns io tls inp.call) := by
  obtain ⟨kind, hkept⟩ := kept_build ⟨HttpConn.api io tls, quic⟩ hbuild
  have hend := Machine.run_invariant _
    (Kept ⟨HttpConn.api io tls, quic⟩
      (fun i c => ∃ d, connectOne io tls dial b.providers i d = .ok (.ok c)) b.providers.length kind
      (b.providers.map ProviderConfig.codec))
    hkept (fun s log a s' evs hk hone => kept_step hk hone) hrun
  have hmade : ∀ i c, (∃ d, connectOne io tls dial b.providers i d = .ok (.ok c)) →
      ConnState.Spliceable (c : Built (HttpConn B T) Q).state := by
    rintro i c ⟨d, hd⟩
    exact connectOne_spliceable hfill hd
  have hcall : ∀ i p, s.workers.view i = some p → ∀ duty : Duty,
      duty.call ⟨HttpConn.api io tls, quic⟩ i p (s.hand j inp) = .error .panic ↔
        (∃ job sent, duty = .send job sent ∧ inp.filled.length < inp.len) ∨
          duty = .reap ∧
            ∃ c, p.active = .http c ∧ (c.drive io inp.drive).Overruns io tls inp.call := by
    intro i p hp duty
    obtain ⟨hactive, hstandby⟩ := hend.owned i p hp
    cases duty with
    | send job sent =>
        show p.sendTo _ job sent (s.hand j inp) = .error .panic ↔ _
        rw [sendTo_panics_iff hio (hactive.spliceable hmade) (hstandby.spliceable hmade)]
        constructor
        · intro h
          exact .inl ⟨job, sent, rfl, h⟩
        · rintro (⟨_, _, -, h⟩ | ⟨h, -⟩)
          · exact h
          · cases h
    | reap =>
        show (p.driveActive _ (s.hand j inp)).reap _ _ (s.hand j inp) = .error .panic ↔ _
        rw [reap_panics_iff hio]
        constructor
        · intro h
          exact .inr ⟨rfl, h⟩
        · rintro (⟨_, _, h, -⟩ | ⟨-, h⟩)
          · cases h
          · exact h
  rw [Workers.step_halts_iff hend.wired.workers (hend.wired.hand_lt j inp)]
  constructor
  · rintro ⟨i, duty, p, hduty, hp, h⟩
    refine ⟨i, p, hp, ?_⟩
    rcases (hcall i p hp duty).mp h with ⟨job, sent, rfl, hlen⟩ | ⟨rfl, hover⟩
    · exact .inl ⟨job, sent, hduty, hlen⟩
    · exact .inr ⟨hduty, hover⟩
  · rintro ⟨i, p, hp, ⟨job, sent, hduty, hlen⟩ | ⟨hduty, hover⟩⟩
    · exact ⟨i, _, p, hduty, hp, (hcall i p hp _).mpr (.inl ⟨job, sent, rfl, hlen⟩)⟩
    · exact ⟨i, _, p, hduty, hp, (hcall i p hp _).mpr (.inr ⟨rfl, hover⟩)⟩

/-- The server of provider 1 announces the largest body there is, and the thread that serves provider 0 too
is gone. -/
theorem worker_panics_iff_announced :
    ∃ s₀ s log, (bareSender .seqRaw twoProviders).build (bareConnectOne twoProviders)
        (fun _ => (true, true)) = .ok (.ok s₀) ∧
      (bareMachine twoProviders).run s₀
        (List.replicate 2 (.worker 0 (Input.quiet Backend.RawAnswer.silent false))) = .ok (s, log) ∧
      s.workers.duty 0 = some (1, .reap) ∧
      s.workers.step (rawApi plainTls (quinnApi flagQuinn)) 0
        (s.hand 0 { Input.quiet Backend.RawAnswer.silent false with call := .arrives hugeLength }) =
          .error .panic ∧
      ∃ p c, s.workers.view 1 = some p ∧ p.active = .http c ∧
        (c.drive Backend.rawLibc .silent).Overruns Backend.rawLibc plainTls (.arrives hugeLength) := by
  have hpanics : ∃ s₀, (bareSender .seqRaw twoProviders).build (bareConnectOne twoProviders)
      (fun _ => (true, true)) = .ok (.ok s₀) ∧ ∃ out ∈ ((bareMachine twoProviders).run s₀
        (List.replicate 2 (.worker 0 (Input.quiet Backend.RawAnswer.silent false)))).toOption,
      out.1.workers.duty 0 = some (1, .reap) ∧
      (out.1.workers.step (rawApi plainTls (quinnApi flagQuinn)) 0 (out.1.hand 0
        { Input.quiet Backend.RawAnswer.silent false with call := .arrives hugeLength })).map
          (fun _ => ()) = .error .panic :=
    exists_built _ _ _ _ (by decide +kernel)
  obtain ⟨s₀, hbuild, ⟨s, log⟩, hout, hduty, hstep⟩ := hpanics
  have hrun := eq_ok_of_mem_toOption hout
  have hpanic := map_eq_error.mp hstep
  have hfill : ∀ p ∈ twoProviders, p.protocol = .http → Fillable p := by
    intro p hp _
    rcases List.mem_pair.mp hp with rfl | rfl
    · exact ⟨⟨0, by decide +kernel⟩, by decide +kernel⟩
    · exact ⟨⟨0, by decide +kernel⟩, by decide +kernel⟩
  have hwhy := (worker_panics_iff Backend.rawLibc calm_rawLibc plainTls (quinnApi flagQuinn) bareDialer
    (bareSender .seqRaw twoProviders) (fun _ => (true, true)) hfill s₀ s _ log hbuild hrun 0
    { Input.quiet Backend.RawAnswer.silent false with call := .arrives hugeLength }).mp hpanic
  obtain ⟨i, p, hp, ⟨job, sent, hsend, -⟩ | ⟨hreap, c, hc, hover⟩⟩ := hwhy
  · rw [hduty] at hsend
    cases hsend
  · rw [hduty] at hreap
    cases hreap
    exact ⟨s₀, s, log, hbuild, hrun, hduty, hpanic, p, c, hp, hc, hover⟩

end Transport

end TxSender
