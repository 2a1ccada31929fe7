/-
# TxSender.Conn.TlsStream — the TLS records of a connection, and what of them is on the wire.

A TLS session makes records at three places: in the handshake, for each request, and in answer to what it
reads (the end of the handshake, a key update, an alert). `HttpConn` takes them out of the session in two
places only: in each round of the handshake, before it reads, and in `send_tx`. So what the session makes
of the last bytes it reads in the handshake is still in the session when `connect_with` returns, and
nothing but `send_tx` moves it.

Of the session only its output is described here (`Tls.Output`), and of the back end what it does with a
buffer (`ByteIo.Stream`); both `RawLibc` and `LibTpa` are such back ends.
-/
import TxSender.Backend.LibTpa
import TxSender.Transport.Buffering

namespace TxSender

open TxSender.Lib
open TxSender.Http
open TxSender.Protocol
open TxSender.Backend
open TxSender.Provider

/-! ## Sessions and streams -/

/-- What a session does with its records: it makes them one after the other, and `write_tls` hands out
those that have not been. -/
structure Http.Tls.Output {T : Type} (api : Tls T) where
  /-- all records made so far -/
  produced : T → Bytes
  /-- how many bytes of them have been handed out -/
  taken : T → Nat
  taken_le : ∀ t, taken t ≤ (produced t).length
  writeAll : ∀ t b, produced t <+: produced (api.writeAll t b).1 ∧
    taken (api.writeAll t b).1 = taken t
  writeTls : ∀ t, produced (api.writeTls t).1 = produced t ∧
    taken (api.writeTls t).1 = (produced t).length ∧
    (api.writeTls t).2 = (produced t).drop (taken t)
  readTls : ∀ t b, produced t <+: produced (api.readTls t b).1 ∧ taken (api.readTls t b).1 = taken t
  processNewPackets : ∀ t, produced t <+: produced (api.processNewPackets t).1 ∧
    taken (api.processNewPackets t).1 = taken t
  readPlain : ∀ t, produced t <+: produced (api.readPlain t).1 ∧ taken (api.readPlain t).1 = taken t

/-- A back end whose connection is a stream: `submit` appends the buffer to it, or a part of the buffer
and fails, and nothing else does. -/
structure ByteIo.Stream {B A : Type} (io : ByteIo B A) where
  written : B → Bytes
  submit : ∀ b b' bytes a r, io.submit b bytes a = .ok (b', r) →
    ∃ accepted, written b' = written b ++ accepted ∧ AllOrPart bytes accepted r
  pollRecv : ∀ b b' n a r, io.pollRecv b n a = .ok (b', r) → written b' = written b
  drive : ∀ b a, written (io.drive b a) = written b

theorem rawLibc_submit {conn conn' : RawConn} {bytes : Bytes} {a : RawAnswer} {r : Except IoError Unit}
    (h : rawLibc.submit conn bytes a = .ok (conn', r)) :
    ∃ accepted, conn'.written = conn.written ++ accepted ∧ AllOrPart bytes accepted r := by
  have hfrom : submitFrom bytes 0 conn a.sends = .ok (conn', r) := h
  rw [submitFrom_eq] at hfrom
  obtain ⟨⟨out', r'⟩, hloop, heq⟩ := map_eq_ok.mp hfrom
  obtain ⟨rfl, rfl⟩ := Prod.mk.inj heq
  exact writeLoop_allOrPart hloop

theorem libTpa_submit {conn conn' : LibTpa.TpaConn} {bytes : Bytes} {a : LibTpa.TpaAnswer}
    {r : Except IoError Unit} (h : libTpa.submit conn bytes a = .ok (conn', r)) :
    ∃ accepted, conn'.written = conn.written ++ accepted ∧ AllOrPart bytes accepted r := by
  have hfrom : LibTpa.submitFrom bytes 0 conn a.writes = .ok (conn', r) := h
  rw [LibTpa.submitFrom_eq] at hfrom
  obtain ⟨⟨out', r'⟩, hloop, heq⟩ := map_eq_ok.mp hfrom
  obtain ⟨rfl, rfl⟩ := Prod.mk.inj heq
  exact writeLoop_allOrPart hloop

theorem libTpa_pollRecv {conn conn' : LibTpa.TpaConn} {cap : Nat} {a : LibTpa.TpaAnswer}
    {r : Except IoError Bytes} (h : libTpa.pollRecv conn cap a = .ok (conn', r)) : conn' = conn := by
  have hrecv : LibTpa.recvTcp conn cap a = .ok (conn', r) := h
  unfold LibTpa.recvTcp at hrecv
  split at hrecv
  · exact (Prod.mk.inj (Except.ok.inj hrecv)).1.symm
  · split at hrecv
    · exact (Prod.mk.inj (Except.ok.inj hrecv)).1.symm
    · exact (Prod.mk.inj (Except.ok.inj hrecv)).1.symm

def rawLibcStream : rawLibc.Stream where
  written := RawConn.written
  submit _ _ _ _ _ h := rawLibc_submit h
  pollRecv _ _ _ _ _ h := congrArg RawConn.written (pollRecvFrom_written h)
  drive _ _ := rfl

def libTpaStream : libTpa.Stream where
  written := LibTpa.TpaConn.written
  submit _ _ _ _ _ h := libTpa_submit h
  pollRecv _ _ _ _ _ h := congrArg LibTpa.TpaConn.written (libTpa_pollRecv h)
  drive _ _ := rfl

namespace Http.Tls.Output

variable {T : Type} {tls : Tls T} (out : tls.Output)

/-- What the session has made and not handed out. -/
def unsent (t : T) : Bytes := (out.produced t).drop (out.taken t)

/-- A call that hands nothing out. -/
def Grows (t t' : T) : Prop := out.produced t <+: out.produced t' ∧ out.taken t' = out.taken t

variable {out} {t t' t'' : T}

theorem Grows.refl (t : T) : out.Grows t t := ⟨List.prefix_refl _, rfl⟩

theorem Grows.trans (h : out.Grows t t') (h' : out.Grows t' t'') : out.Grows t t'' :=
  ⟨h.1.trans h'.1, h'.2.trans h.2⟩

theorem Grows.take_eq (h : out.Grows t t') :
    (out.produced t').take (out.taken t') = (out.produced t).take (out.taken t) := by
  obtain ⟨⟨more, hmore⟩, htaken⟩ := h
  rw [htaken, ← hmore, List.take_append_of_le_length (out.taken_le t)]

theorem grows_readLoop (fuel : Nat) (t : T) (cipher : Bytes) :
    out.Grows t (tls.readLoop fuel t cipher).1 := by
  induction fuel generalizing t cipher with
  | zero => exact .refl t
  | succ fuel ih =>
      unfold Tls.readLoop
      split
      · exact .refl t
      · have hread := out.readTls t cipher
        split
        · rename_i t₁ e heq
          rw [heq] at hread
          exact hread
        · rename_i t₁ n heq
          rw [heq] at hread
          split
          · exact hread
          · have hprocess := out.processNewPackets t₁
            split
            · rename_i t₂ e heq₂
              rw [heq₂] at hprocess
              exact Grows.trans hread hprocess
            · rename_i t₂ heq₂
              rw [heq₂] at hprocess
              exact (Grows.trans hread hprocess).trans (ih t₂ _)

theorem grows_feed (t : T) (cipher : Bytes) : out.Grows t (tls.feed t cipher).1 := by
  have hloop : out.Grows t (tls.readLoop cipher.length t cipher).1 := grows_readLoop _ t cipher
  unfold Tls.feed
  split
  · rename_i t₁ e heq
    rw [heq] at hloop
    exact hloop
  · rename_i t₁ heq
    rw [heq] at hloop
    have hplain := out.readPlain t₁
    split
    · rename_i t₂ plain heq₂
      rw [heq₂] at hplain
      exact Grows.trans hloop hplain
    · rename_i t₂ plain e heq₂
      rw [heq₂] at hplain
      exact Grows.trans hloop hplain

/-- Reading hands nothing out. -/
theorem grows_ingest {e e' : HttpEngine T} {cipher : Bytes} {r : Except TransportError (Option Bytes)}
    (h : e.ingest tls cipher = .ok (e', r)) : out.Grows e.tls e'.tls := by
  unfold HttpEngine.ingest at h
  split at h
  · obtain ⟨⟨rx, _⟩, -, h⟩ := bind_eq_ok.mp h
    obtain ⟨rfl, -⟩ := Prod.mk.inj (Except.ok.inj h)
    exact .refl _
  · have hfeed : out.Grows e.tls (tls.feed e.tls cipher).1 := grows_feed _ _
    split at h
    · rename_i t₁ plain err heq
      obtain ⟨rfl, -⟩ := Prod.mk.inj (Except.ok.inj h)
      rw [heq] at hfeed
      exact hfeed
    · rename_i t₁ plain heq
      obtain ⟨⟨rx, _⟩, -, h⟩ := bind_eq_ok.mp h
      obtain ⟨rfl, -⟩ := Prod.mk.inj (Except.ok.inj h)
      rw [heq] at hfeed
      exact hfeed

/-- `encode` fails and hands nothing out, or hands out everything there is. -/
theorem encode_spec (out : tls.Output) {e e' : HttpEngine T} {tx : Bytes} {r : Except TransportError Bytes}
    (h : e.encode tls tx = .ok (e', r)) :
    (∃ err, r = .error err ∧ out.Grows e.tls e'.tls) ∨
      ∃ cipher, r = .ok cipher ∧ out.produced e.tls <+: out.produced e'.tls ∧
        out.taken e'.tls = (out.produced e'.tls).length ∧
        cipher = (out.produced e'.tls).drop (out.taken e.tls) := by
  obtain ⟨⟨envelope, spliced⟩, -, h⟩ := bind_eq_ok.mp h
  cases spliced with
  | error err =>
      obtain ⟨rfl, rfl⟩ := Prod.mk.inj (Except.ok.inj h)
      exact .inl ⟨_, rfl, .refl _⟩
  | ok frame =>
      simp only at h
      have hwrite := out.writeAll e.tls frame
      split at h
      · rename_i t₁ err heq
        obtain ⟨rfl, rfl⟩ := Prod.mk.inj (Except.ok.inj h)
        rw [heq] at hwrite
        exact .inl ⟨_, rfl, hwrite⟩
      · rename_i t₁ heq
        obtain ⟨rfl, rfl⟩ := Prod.mk.inj (Except.ok.inj h)
        rw [heq] at hwrite
        obtain ⟨hsame, htaken, hout⟩ := out.writeTls t₁
        refine .inr ⟨_, rfl, ?_, ?_, ?_⟩
        · show out.produced e.tls <+: out.produced (tls.writeTls t₁).1
          rw [hsame]
          exact hwrite.1
        · show out.taken (tls.writeTls t₁).1 = (out.produced (tls.writeTls t₁).1).length
          rw [hsame, htaken]
        · show (tls.writeTls t₁).2 = (out.produced (tls.writeTls t₁).1).drop (out.taken e.tls)
          rw [hsame, hout, hwrite.2]

end Http.Tls.Output

/-! ## One connection -/

namespace HttpConn

variable {B A T : Type} {io : ByteIo B A} {tls : Tls T} {st : io.Stream} {out : tls.Output}
  {c c' : HttpConn B T}

/-- Everything that was handed out is on the wire: nothing is missing, nothing is there twice and nothing
else is there. -/
def Whole (st : io.Stream) (out : tls.Output) (c : HttpConn B T) : Prop :=
  st.written c.io = (out.produced c.engine.tls).take (out.taken c.engine.tls)

/-- Some of what was handed out is not on the wire. -/
def Short (st : io.Stream) (out : tls.Output) (c : HttpConn B T) : Prop :=
  (st.written c.io).length < out.taken c.engine.tls

/-- What `submit` returned, if `send_tx` gets that far. -/
def submitted (io : ByteIo B A) (tls : Tls T) (c : HttpConn B T) (tx : Bytes) (a : A) :
    Option (Except IoError Unit) :=
  match c.engine.encode tls tx with
  | .ok (_, .ok cipher) =>
      match io.submit c.io cipher a with
      | .ok (_, r) => some r
      | .error _ => none
  | _ => none

/-- The calls of a worker, with what `submit` returned in each. -/
def submits (io : ByteIo B A) (tls : Tls T) :
    Machine (HttpConn B T) (Call A) (Except IoError Unit) where
  step c
    | .sendTx tx a => do
        let (c', _) ← c.sendTx io tls tx a
        pure (c', (c.submitted io tls tx a).toList)
    | .pollResponse a => do
        let (c', _) ← c.pollResponse io tls a
        pure (c', [])
    | .drive a => .ok (c.drive io a, [])

/-- A call other than a send that got as far as the back end. -/
theorem Whole.grows (h : c.Whole st out) (hio : st.written c'.io = st.written c.io)
    (hgrows : out.Grows c.engine.tls c'.engine.tls) : c'.Whole st out := by
  unfold Whole
  rw [hio, hgrows.take_eq]
  exact h

theorem Short.grows (h : c.Short st out) (hio : st.written c'.io = st.written c.io)
    (hgrows : out.Grows c.engine.tls c'.engine.tls) : c'.Short st out := by
  unfold Short
  rw [hio, hgrows.2]
  exact h

/-- What a buffer with everything unsent leaves behind, when the back end returned `r`. -/
structure Flushed (st : io.Stream) (out : tls.Output) (c c' : HttpConn B T) (r : Except IoError Unit) :
    Prop where
  unsent : out.unsent c'.engine.tls = []
  whole : r = .ok () → c.Whole st out → c'.Whole st out
  short : r ≠ .ok () → c.Whole st out ∨ c.Short st out → c'.Short st out
  stays : c.Short st out → c'.Short st out

theorem flushed_of_submit {cipher : Bytes} {a : A} {r : Except IoError Unit}
    (hsubmit : io.submit c.io cipher a = .ok (c'.io, r))
    (hgrows : out.produced c.engine.tls <+: out.produced c'.engine.tls)
    (htaken : out.taken c'.engine.tls = (out.produced c'.engine.tls).length)
    (hcipher : cipher = (out.produced c'.engine.tls).drop (out.taken c.engine.tls)) :
    Flushed st out c c' r := by
  obtain ⟨accepted, hwritten, hpart⟩ := st.submit _ _ _ _ _ hsubmit
  have hle := out.taken_le c.engine.tls
  have hlen := hgrows.length_le
  have htake : (out.produced c'.engine.tls).take (out.taken c.engine.tls) =
      (out.produced c.engine.tls).take (out.taken c.engine.tls) := by
    obtain ⟨more, hmore⟩ := hgrows
    rw [← hmore, List.take_append_of_le_length hle]
  -- however far the back end got, it is no further than the session
  have hshort : r ≠ .ok () ∨ c.Short st out →
      (st.written c.io).length ≤ out.taken c.engine.tls → c'.Short st out := by
    intro hwhy hbefore
    unfold Short
    have haccepted : accepted.length ≤ cipher.length ∧ (r ≠ .ok () → accepted.length < cipher.length) := by
      cases r with
      | ok u => exact ⟨by rw [show accepted = cipher from hpart], fun h => absurd rfl h⟩
      | error e =>
          have hlt : accepted.length < cipher.length := by
            refine Nat.lt_of_le_of_ne hpart.1.length_le fun heq => hpart.2 ?_
            exact hpart.1.eq_of_length heq
          exact ⟨Nat.le_of_lt hlt, fun _ => hlt⟩
    have hsize : cipher.length = (out.produced c'.engine.tls).length - out.taken c.engine.tls := by
      rw [hcipher, List.length_drop]
    rw [hwritten, htaken, List.length_append]
    rcases hwhy with hr | hs
    · have := haccepted.2 hr
      omega
    · have hlt : (st.written c.io).length < out.taken c.engine.tls := hs
      omega
  have hbound : c.Whole st out → (st.written c.io).length ≤ out.taken c.engine.tls := by
    intro h
    rw [h, List.length_take]
    omega
  refine ⟨?_, fun hr hw => ?_, fun hr hbefore => ?_, fun hs => hshort (.inr hs) (Nat.le_of_lt hs)⟩
  · unfold Http.Tls.Output.unsent
    rw [htaken, List.drop_length]
  · subst hr
    have hall : accepted = cipher := hpart
    unfold Whole
    rw [hwritten, hw, hall, hcipher, ← htake, List.take_append_drop, htaken, List.take_length]
  · rcases hbefore with hw | hs
    · exact hshort (.inl hr) (hbound hw)
    · exact hshort (.inl hr) (Nat.le_of_lt hs)

/-- **`send_tx`** flushes the session, or leaves the wire alone. -/
theorem sendTx_flushes (st : io.Stream) (out : tls.Output) {tx : Bytes} {a : A} {r : Except TransportError Unit}
    (h : c.sendTx io tls tx a = .ok (c', r)) :
    (c.submitted io tls tx a = none ∧ r ≠ .ok () ∧ st.written c'.io = st.written c.io ∧
        out.Grows c.engine.tls c'.engine.tls) ∨
      ∃ sub, c.submitted io tls tx a = some sub ∧ (r = .ok () ↔ sub = .ok ()) ∧
        Flushed st out c c' sub := by
  rw [sendTx] at h
  obtain ⟨⟨engine, encoded⟩, hencode, h⟩ := bind_eq_ok.mp h
  rcases out.encode_spec hencode with
    ⟨err, rfl, hgrows⟩ | ⟨cipher, rfl, hgrows, htaken, hcipher⟩
  · obtain ⟨rfl, rfl⟩ := Prod.mk.inj (Except.ok.inj h)
    refine .inl ⟨?_, by simp, rfl, hgrows⟩
    rw [submitted, hencode]
  · obtain ⟨⟨b, sub⟩, hsubmit, h⟩ := bind_eq_ok.mp h
    obtain ⟨rfl, rfl⟩ := Prod.mk.inj (Except.ok.inj h)
    refine .inr ⟨sub, ?_, ?_, flushed_of_submit hsubmit hgrows htaken hcipher⟩
    · rw [submitted, hencode]
      simp only [hsubmit]
    · cases sub <;> simp [Except.mapError]

theorem pollResponse_grows (st : io.Stream) (out : tls.Output) {a : A}
    {r : Except TransportError (Option Bytes)} (h : c.pollResponse io tls a = .ok (c', r)) :
    st.written c'.io = st.written c.io ∧ out.Grows c.engine.tls c'.engine.tls := by
  rw [pollResponse] at h
  obtain ⟨⟨b, rx⟩, hrecv, h⟩ := bind_eq_ok.mp h
  have hio := st.pollRecv _ _ _ _ _ hrecv
  cases rx with
  | error e =>
      obtain ⟨rfl, -⟩ := Prod.mk.inj (Except.ok.inj h)
      exact ⟨hio, .refl _⟩
  | ok bytes =>
      obtain ⟨⟨engine, _⟩, hingest, h⟩ := bind_eq_ok.mp h
      obtain ⟨rfl, -⟩ := Prod.mk.inj (Except.ok.inj h)
      exact ⟨hio, Http.Tls.Output.grows_ingest hingest⟩

/-! ## The handshake -/

/-- A round that does not end the loop: what is sent, and what is read then. -/
theorem handshakeRound_inv (st : io.Stream) (out : tls.Output) {a : A}
    (h : c.handshakeRound io tls a = .ok (c', .ok ())) :
    ∃ b, ((tls.writeTls c.engine.tls).2 = [] ∧ b = c.io ∨
        io.submit c.io (tls.writeTls c.engine.tls).2 a = .ok (b, .ok ())) ∧
      st.written c'.io = st.written b ∧ out.Grows (tls.writeTls c.engine.tls).1 c'.engine.tls := by
  simp only [handshakeRound] at h
  split at h
  all_goals
    rename_i hout
    obtain ⟨⟨b, sub⟩, hsubmit, h⟩ := bind_eq_ok.mp h
    cases sub with
    | error e => cases h
    | ok _ =>
        obtain ⟨⟨b', received⟩, hrecv, h⟩ := bind_eq_ok.mp h
        have hio : st.written b' = st.written b := (st.pollRecv _ _ _ _ _ hrecv).trans (st.drive _ _)
        refine ⟨b, ?_, ?_⟩
        · first
          | exact .inl ⟨hout, (Prod.mk.inj (Except.ok.inj hsubmit)).1.symm⟩
          | exact .inr hsubmit
        · cases received with
          | error e => cases h
          | ok rx =>
              cases rx with
              | nil =>
                  cases h
                  exact ⟨hio, .refl _⟩
              | cons x rx =>
                  obtain ⟨⟨engine, r⟩, hingest, h⟩ := bind_eq_ok.mp h
                  obtain ⟨rfl, -⟩ := Prod.mk.inj (Except.ok.inj h)
                  exact ⟨hio, Http.Tls.Output.grows_ingest hingest⟩

theorem handshakeRound_whole {a : A} (hw : c.Whole st out)
    (h : c.handshakeRound io tls a = .ok (c', .ok ())) : c'.Whole st out := by
  obtain ⟨b, hsent, hio, hgrows⟩ := handshakeRound_inv st out h
  obtain ⟨hsame, htaken, hout⟩ := out.writeTls c.engine.tls
  -- before it reads, the round leaves the connection flushed
  have hflushed : Whole st out
      { io := b, engine := { c.engine with tls := (tls.writeTls c.engine.tls).1 } } := by
    rcases hsent with ⟨hnone, rfl⟩ | hsubmit
    · have hall : (out.produced c.engine.tls).take (out.taken c.engine.tls) =
          out.produced c.engine.tls := by
        rw [hnone] at hout
        exact List.take_of_length_le (List.drop_eq_nil_iff.mp hout.symm)
      show st.written c.io = (out.produced (tls.writeTls c.engine.tls).1).take
        (out.taken (tls.writeTls c.engine.tls).1)
      rw [hsame, htaken, List.take_length, ← hall]
      exact hw
    · refine (flushed_of_submit hsubmit ?_ ?_ ?_).whole rfl hw
      · show out.produced c.engine.tls <+: out.produced (tls.writeTls c.engine.tls).1
        rw [hsame]
      · show out.taken (tls.writeTls c.engine.tls).1 = (out.produced (tls.writeTls c.engine.tls).1).length
        rw [htaken, hsame]
      · show (tls.writeTls c.engine.tls).2 =
          (out.produced (tls.writeTls c.engine.tls).1).drop (out.taken c.engine.tls)
        rw [hout, hsame]
  exact hflushed.grows hio hgrows

theorem handshake_whole {isHandshaking : T → Bool} {rounds : List A} (hw : c.Whole st out)
    (h : c.handshake io tls isHandshaking rounds = .ok (.ok c')) : c'.Whole st out := by
  induction rounds generalizing c with
  | nil =>
      rw [handshake] at h
      split at h
      · cases h
      · obtain rfl := Except.ok.inj (Except.ok.inj h)
        exact hw
  | cons a rounds ih =>
      rw [handshake] at h
      split at h
      · obtain ⟨⟨c₁, r⟩, hround, h⟩ := bind_eq_ok.mp h
        cases r with
        | error e => cases Except.ok.inj h
        | ok u => exact ih (handshakeRound_whole hw hround) h
      · obtain rfl := Except.ok.inj (Except.ok.inj h)
        exact hw

/-- What `connect_with` starts from: nothing has been written, and the session has handed nothing out. -/
structure Untouched {Q C D : Type} (st : io.Stream) (out : tls.Output) (dial : Dialer B T A Q C D) :
    Prop where
  connect : ∀ addr d b, dial.connect addr d = .ok b → st.written b = []
  session : ∀ name d t, dial.session name d = .ok t → out.taken t = 0

theorem connectWith_whole {Q C D : Type} {dial : Dialer B T A Q C D} {cfg : ProviderConfig}
    {envelope : EnvelopeTemplate} {d : D} (hnew : Untouched st out dial)
    (h : connectWith io tls dial cfg envelope d = .ok (.ok c)) : c.Whole st out := by
  unfold connectWith at h
  simp only at h
  split at h
  · cases Except.ok.inj h
  · rename_i b hconnect
    split at h
    · cases Except.ok.inj h
    · rename_i t hsession
      refine handshake_whole ?_ h
      unfold Whole
      rw [hnew.connect _ _ _ hconnect]
      show _ = (out.produced t).take (out.taken t)
      rw [hnew.session _ _ _ hsession, List.take_zero]

/-! ## Whole runs -/

/-- The stream is whole as long as every `submit` returned `Ok`, and short from then on. -/
structure Kept (st : io.Stream) (out : tls.Output) (c : HttpConn B T) (log : List (Except IoError Unit)) :
    Prop where
  whole : (∀ r ∈ log, r = .ok ()) → c.Whole st out
  short : ¬ (∀ r ∈ log, r = .ok ()) → c.Short st out

theorem kept_step {call : Call A} {log evs : List (Except IoError Unit)} (h : Kept st out c log)
    (hstep : (submits io tls).step c call = .ok (c', evs)) : Kept st out c' (log ++ evs) := by
  have quiet : st.written c'.io = st.written c.io → out.Grows c.engine.tls c'.engine.tls →
      Kept st out c' (log ++ []) := by
    intro hio hgrows
    rw [List.append_nil]
    exact ⟨fun hall => (h.whole hall).grows hio hgrows, fun hnot => (h.short hnot).grows hio hgrows⟩
  cases call with
  | sendTx tx a =>
      obtain ⟨⟨c₁, r⟩, hsend, hstep⟩ := bind_eq_ok.mp hstep
      obtain ⟨rfl, rfl⟩ := Prod.mk.inj (Except.ok.inj hstep)
      rcases sendTx_flushes st out hsend with
        ⟨hnone, -, hio, hgrows⟩ | ⟨sub, hsome, -, hflushed⟩
      · rw [hnone]
        exact quiet hio hgrows
      · rw [hsome, Option.toList_some]
        constructor
        · intro hall
          have hsub : sub = .ok () := hall sub (List.mem_append_right _ (List.mem_singleton_self _))
          exact hflushed.whole hsub (h.whole fun r hr => hall r (List.mem_append_left _ hr))
        · intro hnot
          by_cases hbefore : ∀ r ∈ log, r = .ok ()
          · have hsub : sub ≠ .ok () := by
              intro hok
              refine hnot fun r hr => ?_
              rcases List.mem_append.mp hr with hr | hr
              · exact hbefore r hr
              · rw [List.mem_singleton.mp hr, hok]
            exact hflushed.short hsub (.inl (h.whole hbefore))
          · exact hflushed.stays (h.short hbefore)
  | pollResponse a =>
      obtain ⟨⟨c₁, r⟩, hpoll, hstep⟩ := bind_eq_ok.mp hstep
      obtain ⟨rfl, rfl⟩ := Prod.mk.inj (Except.ok.inj hstep)
      obtain ⟨hio, hgrows⟩ := pollResponse_grows st out hpoll
      exact quiet hio hgrows
  | drive a =>
      obtain ⟨rfl, rfl⟩ := Prod.mk.inj (Except.ok.inj hstep)
      exact quiet (st.drive _ _) (.refl _)

theorem Whole.append_unsent (h : c.Whole st out) :
    st.written c.io ++ out.unsent c.engine.tls = out.produced c.engine.tls := by
  rw [h]
  exact List.take_append_drop _ _

theorem Short.append_unsent_ne (h : c.Short st out) :
    st.written c.io ++ out.unsent c.engine.tls ≠ out.produced c.engine.tls := by
  intro heq
  have hlen := congrArg List.length heq
  rw [List.length_append, Http.Tls.Output.unsent, List.length_drop] at hlen
  have hlt : (st.written c.io).length < out.taken c.engine.tls := h
  have hle := out.taken_le c.engine.tls
  omega

/-- A call other than `send_tx` writes nothing. -/
theorem written_step (st : io.Stream) (out : tls.Output) {call : Call A} {evs : List (Except IoError Unit)}
    (hcall : ∀ tx a, call ≠ .sendTx tx a) (hstep : (submits io tls).step c call = .ok (c', evs)) :
    st.written c'.io = st.written c.io := by
  cases call with
  | sendTx tx a => exact absurd rfl (hcall tx a)
  | pollResponse a =>
      obtain ⟨⟨c₁, r⟩, hpoll, hstep⟩ := bind_eq_ok.mp hstep
      obtain ⟨rfl, rfl⟩ := Prod.mk.inj (Except.ok.inj hstep)
      exact (pollResponse_grows st out hpoll).1
  | drive a =>
      obtain ⟨rfl, rfl⟩ := Prod.mk.inj (Except.ok.inj hstep)
      exact st.drive _ _

theorem written_run (st : io.Stream) (out : tls.Output) {calls : List (Call A)}
    {log : List (Except IoError Unit)} (hcalls : ∀ tx a, .sendTx tx a ∉ calls)
    (h : (submits io tls).run c calls = .ok (c', log)) : st.written c'.io = st.written c.io := by
  induction calls generalizing c log with
  | nil =>
      cases h
      rfl
  | cons call calls ih =>
      obtain ⟨c₁, evs, rest, hone, hrest, rfl⟩ := Machine.run_cons_eq_ok.mp h
      have hlater := ih (fun tx a hm => hcalls tx a (List.mem_cons_of_mem _ hm)) hrest
      refine hlater.trans (written_step st out (fun tx a heq => hcalls tx a ?_) hone)
      rw [heq]
      exact List.mem_cons_self ..

/-- **The records of a connection.** For every connection that `connect_with` makes, over any back end that
is a stream and any session, and whatever is called on it afterwards: what has been written and what the
session still has are together all the records the session has made, once and in order, exactly as long as
no `submit` has failed. Only `send_tx` writes, so the end of the handshake waits for the first of them; and
a `send_tx` that returns `Ok` leaves nothing in the session. -/
theorem tls_stream_iff {Q C D : Type} (st : io.Stream) (out : tls.Output) (dial : Dialer B T A Q C D)
    (hnew : Untouched st out dial) (cfg : ProviderConfig) (envelope : EnvelopeTemplate) (d : D)
    (c₀ c : HttpConn B T) (hconnect : connectWith io tls dial cfg envelope d = .ok (.ok c₀))
    (calls : List (Call A)) (log : List (Except IoError Unit))
    (hrun : (submits io tls).run c₀ calls = .ok (c, log)) :
    (st.written c.io ++ out.unsent c.engine.tls = out.produced c.engine.tls ↔ ∀ r ∈ log, r = .ok ()) ∧
      ((∀ tx a, .sendTx tx a ∉ calls) → st.written c.io = st.written c₀.io) ∧
      ∀ tx a c', c.sendTx io tls tx a = .ok (c', .ok ()) → out.unsent c'.engine.tls = [] := by
  have hstart : Kept st out c₀ [] :=
    ⟨fun _ => connectWith_whole hnew hconnect, fun hnot => absurd (fun r hr => absurd hr List.not_mem_nil) hnot⟩
  have hkept := Machine.run_invariant (submits io tls) (Kept st out) hstart
    (fun _ _ _ _ _ h hstep => kept_step h hstep) hrun
  refine ⟨⟨fun hwhole => ?_, fun hall => (hkept.whole hall).append_unsent⟩,
    fun hcalls => written_run st out hcalls hrun, fun tx a c' hsend => ?_⟩
  · by_contra hnot
    exact (hkept.short hnot).append_unsent_ne hwhole
  · rcases sendTx_flushes st out hsend with ⟨-, hnot, -, -⟩ | ⟨sub, -, -, hflushed⟩
    · exact absurd rfl hnot
    · exact hflushed.unsent

/-- A session that answers what it reads with a record, and seals nothing: its records, and those it has
not handed out. -/
def echoTls : Tls (Bytes × Bytes) where
  writeAll t b := ((t.1, t.2 ++ b), .ok ())
  writeTls t := ((t.1 ++ t.2, []), t.2)
  readTls t b := (t, .ok b.length)
  processNewPackets t := ((t.1, t.2 ++ [20]), .ok ())
  readPlain t := (t, [], none)

def echoOutput : echoTls.Output where
  produced t := t.1 ++ t.2
  taken t := t.1.length
  taken_le _ := by simp
  writeAll _ b := ⟨⟨b, List.append_assoc ..⟩, rfl⟩
  writeTls _ := ⟨List.append_nil _, rfl, List.drop_left.symm⟩
  readTls _ _ := ⟨List.prefix_refl _, rfl⟩
  processNewPackets _ := ⟨⟨[20], List.append_assoc ..⟩, rfl⟩
  readPlain _ := ⟨List.prefix_refl _, rfl⟩

/-- The peer answers the first record, which ends the handshake. -/
def echoDialer : Dialer RawConn (Bytes × Bytes) RawAnswer Unit Unit Unit where
  make _ _ := .ok ()
  connect _ _ := .ok { written := [] }
  session _ _ := .ok ([], [22])
  isHandshaking t := (t.1 ++ t.2).length < 2
  rounds _ := [⟨[⟨1, 0⟩], [.received [2]]⟩]
  quicClientConfig _ _ _ := .ok ()
  quicConnect _ _ _ _ := .ok ()

/-- A connection that is only polled never sends the end of its handshake. -/
theorem tls_stream_iff_polled :
    ∃ c₀ c : HttpConn RawConn (Bytes × Bytes),
      connectWith rawLibc echoTls echoDialer (Transport.bareProvider .noResponse) bareTemplate () =
        .ok (.ok c₀) ∧
      (submits rawLibc echoTls).run c₀ [.pollResponse ⟨[], [.failed 11]⟩] = .ok (c, []) ∧
      c.io.written = [22] ∧ c.io.written ++ echoOutput.unsent c.engine.tls = [22, 20] := by
  obtain ⟨hiff, hquiet, -⟩ := tls_stream_iff rawLibcStream echoOutput echoDialer
    ⟨fun _ _ _ h => by cases h; rfl, fun _ _ _ h => by cases h; rfl⟩
    (Transport.bareProvider .noResponse) bareTemplate ()
    { io := ⟨[22]⟩, engine := HttpEngine.new ([22], [20]) bareTemplate } _ rfl
    [.pollResponse ⟨[], [.failed 11]⟩] [] rfl
  exact ⟨_, _, rfl, rfl, hquiet (by simp), hiff.mpr (by simp)⟩

end HttpConn

end TxSender
