/-
# TxSender.Transport.Buffering — how long `rx_plain` gets.

`ingest` reports an error when more than `MAX_RESPONSE` octets are buffered and no response is
complete, but it keeps them, and `reap` does nothing about that error: the connection stays active, and
the next poll appends to the same buffer. So the buffer holds the plaintext received since the last
complete response, whatever was reported in between.
-/
import TxSender.Backend.RawLibc
import TxSender.Lib.Trace
import TxSender.Transport.Isolation

namespace TxSender

open TxSender.Lib
open TxSender.Lib.Search
open TxSender.Http
open TxSender.Protocol
open TxSender.Backend
open TxSender.Transport

namespace HttpConn

variable {B A T : Type}

/-! ## Calls on a connection -/

inductive Call (A : Type) where
  | sendTx (tx : Bytes) (a : A)
  | pollResponse (a : A)
  | drive (a : A)

/-- A poll: the plaintext that `ingest` appended, the length that `rx_plain` had then, and what the
poll returned. -/
structure Poll where
  plain : Bytes
  filled : Nat
  result : Except TransportError (Option Bytes)
  deriving DecidableEq

/-- The poll handed out a body. -/
def Poll.completes (p : Poll) : Bool :=
  match p.result with
  | .ok (some _) => true
  | _ => false

/-- What a poll appends to `rx_plain`. -/
def released (io : ByteIo B A) (tls : Tls T) (c : HttpConn B T) (a : A) : Bytes :=
  match io.pollRecv c.io 4096 a with
  | .ok (_, .ok rx) => if rx = [] then [] else (tls.feed c.engine.tls rx).2.1
  | _ => []

def machine (io : ByteIo B A) (tls : Tls T) : Machine (HttpConn B T) (Call A) Poll where
  step c
    | .sendTx tx a => do
        let (c, _) ← c.sendTx io tls tx a
        pure (c, [])
    | .pollResponse a => do
        let (c', r) ← c.pollResponse io tls a
        let plain := c.released io tls a
        pure (c', [⟨plain, (c.engine.rxPlain ++ plain).length, r⟩])
    | .drive a => .ok (c.drive io a, [])

theorem step_sendTx {io : ByteIo B A} {tls : Tls T} {c c' : HttpConn B T} {tx : Bytes} {a : A}
    {r : Except TransportError Unit} (h : c.sendTx io tls tx a = .ok (c', r)) :
    (machine io tls).step c (.sendTx tx a) = .ok (c', []) := by
  simp only [machine, h, ok_bind, pure_eq_ok]

theorem step_pollResponse {io : ByteIo B A} {tls : Tls T} {c c' : HttpConn B T} {a : A}
    {r : Except TransportError (Option Bytes)} (h : c.pollResponse io tls a = .ok (c', r)) :
    (machine io tls).step c (.pollResponse a) =
      .ok (c', [⟨c.released io tls a, (c.engine.rxPlain ++ c.released io tls a).length, r⟩]) := by
  simp only [machine, h, ok_bind, pure_eq_ok]

/-! ## What a call does to the buffer -/

theorem encode_rxPlain {tls : Tls T} {e e' : HttpEngine T} {tx : Bytes}
    {r : Except TransportError Bytes} (h : e.encode tls tx = .ok (e', r)) : e'.rxPlain = e.rxPlain := by
  obtain ⟨⟨envelope, spliced⟩, -, h⟩ := bind_eq_ok.mp h
  cases spliced with
  | error err =>
      cases h
      rfl
  | ok frame =>
      simp only at h
      split at h
      next =>
        cases h
        rfl
      next =>
        cases h
        rfl

theorem sendTx_rxPlain {io : ByteIo B A} {tls : Tls T} {c c' : HttpConn B T} {tx : Bytes} {a : A}
    {r : Except TransportError Unit} (h : c.sendTx io tls tx a = .ok (c', r)) :
    c'.engine.rxPlain = c.engine.rxPlain := by
  obtain ⟨⟨engine, encoded⟩, hencode, h⟩ := bind_eq_ok.mp h
  have hkeep := encode_rxPlain hencode
  cases encoded with
  | error e =>
      cases h
      exact hkeep
  | ok cipher =>
      obtain ⟨⟨b, _⟩, -, h⟩ := bind_eq_ok.mp h
      cases h
      exact hkeep

theorem settle_spec {acc rx : Bytes} {r : Except TransportError (Option Bytes)}
    (h : settle acc = .ok (rx, r)) :
    (∃ body, r = .ok (some body) ∧ rx = []) ∨
      (∀ body, r ≠ .ok (some body)) ∧ rx = acc ∧ (r = .ok none → acc.length ≤ maxResponse) := by
  obtain ⟨found, -, h⟩ := bind_eq_ok.mp h
  cases found with
  | some body =>
      cases h
      exact .inl ⟨body, rfl, rfl⟩
  | none =>
      simp only at h
      split at h
      next =>
        cases h
        exact .inr ⟨nofun, rfl, nofun⟩
      next hle =>
        cases h
        exact .inr ⟨nofun, rfl, fun _ => Nat.le_of_not_lt hle⟩

/-- `ingest` clears the buffer when it hands out a body, and otherwise leaves in it what it appended
to; only a buffer within the limit is left without an error. -/
theorem ingest_rxPlain {tls : Tls T} {e e' : HttpEngine T} {cipher : Bytes}
    {r : Except TransportError (Option Bytes)} (h : e.ingest tls cipher = .ok (e', r)) :
    (∃ body, r = .ok (some body) ∧ e'.rxPlain = []) ∨
      (∀ body, r ≠ .ok (some body)) ∧
        e'.rxPlain = e.rxPlain ++ (if cipher = [] then [] else (tls.feed e.tls cipher).2.1) ∧
        (r = .ok none → e'.rxPlain.length ≤ maxResponse) := by
  unfold HttpEngine.ingest at h
  split at h
  next hnil =>
    obtain ⟨⟨rx, res⟩, hsettle, h⟩ := bind_eq_ok.mp h
    cases h
    rw [if_pos hnil, List.append_nil]
    obtain ⟨body, rfl, rfl⟩ | ⟨hnone, rfl, hle⟩ := settle_spec hsettle
    · exact .inl ⟨body, rfl, rfl⟩
    · exact .inr ⟨hnone, rfl, hle⟩
  next hne =>
    rw [if_neg hne]
    split at h
    next session plain err hfeed =>
      cases h
      rw [hfeed]
      exact .inr ⟨nofun, rfl, nofun⟩
    next session plain hfeed =>
      obtain ⟨⟨rx, res⟩, hsettle, h⟩ := bind_eq_ok.mp h
      cases h
      rw [hfeed]
      obtain ⟨body, rfl, rfl⟩ | ⟨hnone, rfl, hle⟩ := settle_spec hsettle
      · exact .inl ⟨body, rfl, rfl⟩
      · exact .inr ⟨hnone, rfl, hle⟩

theorem pollResponse_rxPlain {io : ByteIo B A} {tls : Tls T} {c c' : HttpConn B T} {a : A}
    {r : Except TransportError (Option Bytes)} (h : c.pollResponse io tls a = .ok (c', r)) :
    (∃ body, r = .ok (some body) ∧ c'.engine.rxPlain = []) ∨
      (∀ body, r ≠ .ok (some body)) ∧
        c'.engine.rxPlain = c.engine.rxPlain ++ c.released io tls a := by
  obtain ⟨⟨b, received⟩, hrecv, h⟩ := bind_eq_ok.mp h
  unfold released
  rw [hrecv]
  cases received with
  | error e =>
      cases h
      exact .inr ⟨nofun, (List.append_nil _).symm⟩
  | ok rx =>
      obtain ⟨⟨engine, res⟩, hingest, h⟩ := bind_eq_ok.mp h
      cases h
      obtain hbody | ⟨hnone, hkeep, -⟩ := ingest_rxPlain hingest
      · exact .inl hbody
      · exact .inr ⟨hnone, hkeep⟩

end HttpConn

namespace Transport

/-! ## Polls that receive zero octets -/

def zeros (n : Nat) : Bytes := List.replicate n 0

theorem length_zeros (n : Nat) : (zeros n).length = n := List.length_replicate

/-- A connection that has received `n` zero octets. -/
def zeroConn (n : Nat) : HttpConn RawConn Bytes :=
  { bareConn with engine := { bareConn.engine with rxPlain := zeros n } }

theorem bodyIfComplete_zeros (n : Nat) : bodyIfComplete (zeros n) = .ok none := by
  have hnone : find crlfcrlf (zeros n) = none := by
    rw [find_eq_none_iff]
    rintro j ⟨pre, post, heq, -⟩
    have hmem : (13 : UInt8) ∈ zeros n := by
      rw [heq]
      simp [crlfcrlf]
    exact absurd (List.eq_of_mem_replicate hmem) (by decide)
  simp only [bodyIfComplete, hnone]

/-- What a poll reports with `n` octets in the buffer and no response complete. -/
def limitCheck (n : Nat) : Except TransportError (Option Bytes) :=
  if n > maxResponse then .error (.tls "response exceeds maximum size") else .ok none

/-- A poll that receives `m` zero octets after `n`. -/
def zeroPoll (n m : Nat) : HttpConn.Poll := ⟨zeros m, n + m, limitCheck (n + m)⟩

theorem completes_zeroPoll (n m : Nat) : (zeroPoll n m).completes = false := by
  unfold HttpConn.Poll.completes zeroPoll limitCheck
  split
  next heq =>
    simp only at heq
    split at heq <;> cases heq
  next => rfl

theorem settle_zeros (n : Nat) : settle (zeros n) = .ok (zeros n, limitCheck n) := by
  rw [settle, bodyIfComplete_zeros, limitCheck]
  simp only [ok_bind, length_zeros, pure_eq_ok]
  split <;> rfl

theorem pollResponse_silent (n : Nat) :
    (zeroConn n).pollResponse rawLibc plainTls .silent = .ok (zeroConn n, limitCheck n) := by
  have hrecv : rawLibc.pollRecv (zeroConn n).io 4096 .silent = .ok ((zeroConn n).io, .ok []) := rfl
  have hingest : (zeroConn n).engine.ingest plainTls [] = .ok ((zeroConn n).engine, limitCheck n) := by
    rw [HttpEngine.ingest, if_pos rfl, show (zeroConn n).engine.rxPlain = zeros n from rfl,
      settle_zeros]
    rfl
  rw [HttpConn.pollResponse, hrecv]
  simp only [ok_bind, hingest, pure_eq_ok]

theorem step_silent (n : Nat) :
    (HttpConn.machine rawLibc plainTls).step (zeroConn n) (.pollResponse .silent) =
      .ok (zeroConn n, [zeroPoll n 0]) := by
  rw [HttpConn.step_pollResponse (pollResponse_silent n),
    show (zeroConn n).released rawLibc plainTls .silent = [] from rfl, List.append_nil,
    show (zeroConn n).engine.rxPlain.length = n from length_zeros n]
  rfl

section
variable {m : Nat} (hpos : 0 < m) (hsize : m ≤ 4096)
include hpos hsize

theorem pollRecv_zeros (conn : RawConn) :
    rawLibc.pollRecv conn 4096 (.arrives (zeros m)) = .ok (conn, .ok (zeros m)) := by
  have hlen : (zeros m).length > 0 := by
    rw [length_zeros]
    exact hpos
  have htake : (zeros m).take 4096 = zeros m := by
    apply List.take_of_length_le
    rw [length_zeros]
    exact hsize
  simp only [rawLibc, RawAnswer.arrives, pollRecvFrom, if_pos hlen, htake]

theorem pollResponse_zeros (n : Nat) :
    (zeroConn n).pollResponse rawLibc plainTls (.arrives (zeros m)) =
      .ok (zeroConn (n + m), limitCheck (n + m)) := by
  have hne : zeros m ≠ [] := by
    apply List.ne_nil_of_length_pos
    rw [length_zeros]
    exact hpos
  have hsettle : settle (zeros n ++ zeros m) = .ok (zeros (n + m), limitCheck (n + m)) := by
    rw [show zeros n ++ zeros m = zeros (n + m) from List.replicate_append_replicate]
    exact settle_zeros (n + m)
  have hingest : (zeroConn n).engine.ingest plainTls (zeros m) =
      .ok ((zeroConn (n + m)).engine, limitCheck (n + m)) := by
    have hfeed : plainTls.feed (zeroConn n).engine.tls (zeros m) = ([], zeros m, none) :=
      plainTls_feed _
    rw [HttpEngine.ingest, if_neg hne, hfeed]
    simp only [zeroConn, hsettle, ok_bind, pure_eq_ok]
    rfl
  rw [HttpConn.pollResponse, pollRecv_zeros hpos hsize]
  simp only [ok_bind, hingest, pure_eq_ok]
  rfl

theorem released_zeros (n : Nat) :
    (zeroConn n).released rawLibc plainTls (.arrives (zeros m)) = zeros m := by
  rw [HttpConn.released, pollRecv_zeros hpos hsize]
  simp only
  split
  next hnil => exact hnil.symm
  next => rw [show (zeroConn n).engine.tls = [] from rfl, plainTls_feed]

theorem step_zeros (n : Nat) :
    (HttpConn.machine rawLibc plainTls).step (zeroConn n) (.pollResponse (.arrives (zeros m))) =
      .ok (zeroConn (n + m), [zeroPoll n m]) := by
  rw [HttpConn.step_pollResponse (pollResponse_zeros hpos hsize n), released_zeros hpos hsize,
    List.length_append, length_zeros, show (zeroConn n).engine.rxPlain.length = n from length_zeros n]
  rfl

end

end Transport

namespace HttpConn

variable {B A T : Type}

/-! ## Runs -/

/-- The plaintext received since the last complete response, with `n` octets at the start. -/
def pending (n : Nat) (log : List Poll) : Nat :=
  log.foldl (fun n p => if p.completes then 0 else n + p.plain.length) n

theorem pending_concat (n : Nat) (log : List Poll) (p : Poll) :
    pending n (log ++ [p]) = if p.completes then 0 else pending n log + p.plain.length := by
  rw [pending, List.foldl_append]
  rfl

/-- In a poll the buffer grows to what is pending and what the poll appends. -/
def Fills (n : Nat) (past : List Poll) (p : Poll) : Prop :=
  p.filled = pending n past + p.plain.length

theorem step_rxPlain {io : ByteIo B A} {tls : Tls T} {n : Nat} {c c' : HttpConn B T} {call : Call A}
    {log evs : List Poll} (hpending : c.engine.rxPlain.length = pending n log)
    (h : (machine io tls).step c call = .ok (c', evs)) :
    c'.engine.rxPlain.length = pending n (log ++ evs) ∧ Along (Fills n) log evs := by
  cases call with
  | sendTx tx a =>
      obtain ⟨⟨c₁, _⟩, hsend, h⟩ := bind_eq_ok.mp h
      cases h
      rw [List.append_nil, sendTx_rxPlain hsend]
      exact ⟨hpending, trivial⟩
  | drive a =>
      cases h
      rw [List.append_nil]
      exact ⟨hpending, trivial⟩
  | pollResponse a =>
      obtain ⟨⟨c₁, r⟩, hpoll, h⟩ := bind_eq_ok.mp h
      cases h
      refine ⟨?_, ?_, trivial⟩
      · rw [pending_concat]
        obtain ⟨body, rfl, hclear⟩ | ⟨hnone, hkeep⟩ := pollResponse_rxPlain hpoll
        · rw [hclear]
          rfl
        · have hopen : Poll.completes ⟨c.released io tls a,
              (c.engine.rxPlain ++ c.released io tls a).length, r⟩ = false := by
            unfold Poll.completes
            split
            next body heq => exact absurd heq (hnone body)
            next => rfl
          rw [hopen, hkeep, List.length_append, hpending]
          rfl
      · rw [Fills, List.length_append, hpending]

theorem run_rxPlain {io : ByteIo B A} {tls : Tls T} {c₀ c : HttpConn B T} {calls : List (Call A)}
    {log : List Poll} (h : (machine io tls).run c₀ calls = .ok (c, log)) :
    c.engine.rxPlain.length = pending c₀.engine.rxPlain.length log ∧
      Along (Fills c₀.engine.rxPlain.length) [] log := by
  refine (machine io tls).run_invariant
    (fun c log => c.engine.rxPlain.length = pending c₀.engine.rxPlain.length log ∧
      Along (Fills c₀.engine.rxPlain.length) [] log) ⟨rfl, trivial⟩ ?_ h
  intro c log call c' evs hinv hstep
  obtain ⟨hlength, hfills⟩ := step_rxPlain hinv.1 hstep
  exact ⟨hlength, along_append.mpr ⟨hinv.2, hfills⟩⟩

/-- The buffer is never longer than `bound`: not in any poll, and not now. -/
structure Bounded (bound : Nat) (c : HttpConn B T) (log : List Poll) : Prop where
  polls : ∀ p ∈ log, p.filled ≤ bound
  now : c.engine.rxPlain.length ≤ bound

/-- Once more than `MAX_RESPONSE` octets are pending, no more arrive than `bound` allows. -/
def Spared (bound n : Nat) (past : List Poll) (p : Poll) : Prop :=
  maxResponse < pending n past → pending n past + p.plain.length ≤ bound

theorem pending_le {n bound : Nat} {log : List Poll} (hn : n ≤ bound) (hfills : Along (Fills n) [] log)
    (hpolls : ∀ p ∈ log, p.filled ≤ bound) : pending n log ≤ bound := by
  rcases List.eq_nil_or_concat log with rfl | ⟨past, p, rfl⟩
  · exact hn
  · rw [List.concat_eq_append] at hfills hpolls ⊢
    have hlast : p.filled = pending n past + p.plain.length := (along_append.mp hfills).2.1
    have hle := hpolls p (by simp)
    rw [pending_concat]
    split
    · exact Nat.zero_le _
    · omega

/-- **When buffering is bounded.** For every run of calls on a connection that starts with at most
`MAX_RESPONSE` octets buffered, and every `m` such that no `ingest` of the run appends more than `m`
octets: `rx_plain` never exceeds `MAX_RESPONSE + m` exactly when the server, once it has sent more than
`MAX_RESPONSE` octets that complete no response, sends no more than that bound allows before it
completes one. -/
theorem rx_plain_bounded_iff {io : ByteIo B A} {tls : Tls T} {c₀ c : HttpConn B T}
    {calls : List (Call A)} {log : List Poll} {m : Nat}
    (hstart : c₀.engine.rxPlain.length ≤ maxResponse)
    (h : (machine io tls).run c₀ calls = .ok (c, log)) (hm : ∀ p ∈ log, p.plain.length ≤ m) :
    Bounded (maxResponse + m) c log ↔
      Along (Spared (maxResponse + m) c₀.engine.rxPlain.length) [] log := by
  obtain ⟨hlength, hfills⟩ := run_rxPlain h
  have hpolls : (∀ p ∈ log, p.filled ≤ maxResponse + m) ↔
      Along (Spared (maxResponse + m) c₀.engine.rxPlain.length) [] log := by
    rw [← along_const]
    refine along_congr hfills fun past p hp hfill => ?_
    have hone := hm p hp
    unfold Fills at hfill
    unfold Spared
    omega
  rw [← hpolls]
  constructor
  · exact fun hbounded => hbounded.polls
  · intro hall
    refine ⟨hall, ?_⟩
    rw [hlength]
    exact pending_le (by omega) hfills hall

/-- A connection with `MAX_RESPONSE` octets buffered receives one read more and then nothing: the buffer
stays at the bound. -/
theorem rx_plain_bounded_answer :
    ∃ c log, (machine rawLibc plainTls).run (zeroConn maxResponse)
        [.pollResponse (.arrives (zeros 4096)), .pollResponse .silent] = .ok (c, log) ∧
      c.engine.rxPlain.length = maxResponse + 4096 ∧ Bounded (maxResponse + 4096) c log := by
  have hstart : (zeroConn maxResponse).engine.rxPlain.length = maxResponse := length_zeros _
  have hread := step_zeros (m := 4096) (by decide) (by decide) maxResponse
  have hrun := Machine.run_concat (Machine.run_concat (Machine.run_nil _ _) hread) (step_silent _)
  have hsmall : ∀ p ∈ [zeroPoll maxResponse 4096, zeroPoll (maxResponse + 4096) 0],
      p.plain.length ≤ 4096 := by
    intro p hp
    rcases List.mem_pair.mp hp with rfl | rfl
    · exact Nat.le_of_eq (length_zeros 4096)
    · exact Nat.zero_le _
  refine ⟨_, _, hrun, length_zeros _, ?_⟩
  apply (rx_plain_bounded_iff (Nat.le_of_eq hstart) hrun hsmall).mpr
  rw [hstart]
  refine ⟨fun habove => absurd habove (Nat.lt_irrefl _), fun _ => ?_, trivial⟩
  -- what is pending before the second poll is what the first one has brought
  have hpending : pending maxResponse [zeroPoll maxResponse 4096] = maxResponse + 4096 := by
    rw [← List.nil_append [zeroPoll _ _], pending_concat, completes_zeroPoll,
      if_neg Bool.false_ne_true, show (zeroPoll maxResponse 4096).plain.length = 4096 from length_zeros 4096,
      show pending maxResponse [] = maxResponse from rfl]
  rw [List.nil_append, hpending, show (zeroPoll (maxResponse + 4096) 0).plain.length = 0 from rfl,
    Nat.add_zero]

/-! ## The connections of a sender -/

theorem handshakeRound_rxPlain {io : ByteIo B A} {tls : Tls T} {c c' : HttpConn B T} {a : A}
    (hc : c.engine.rxPlain.length ≤ maxResponse)
    (h : c.handshakeRound io tls a = .ok (c', .ok ())) : c'.engine.rxPlain.length ≤ maxResponse := by
  simp only [handshakeRound] at h
  -- the same follows whether there was something to send or not
  split at h
  all_goals
    obtain ⟨⟨b, submitted⟩, -, h⟩ := bind_eq_ok.mp h
    cases submitted with
    | error e => cases h
    | ok _ =>
        obtain ⟨⟨b', received⟩, -, h⟩ := bind_eq_ok.mp h
        match received with
        | .error e => cases h
        | .ok [] =>
            cases h
            exact hc
        | .ok (x :: rx) =>
            obtain ⟨⟨engine, r⟩, hingest, h⟩ := bind_eq_ok.mp h
            -- an `ingest` without an error leaves the buffer empty or within the limit
            obtain ⟨body, rfl, hclear⟩ | ⟨hnone, -, hle⟩ := ingest_rxPlain hingest
            · cases h
              rw [hclear]
              exact Nat.zero_le _
            · match r with
              | .error e => cases h
              | .ok none =>
                  cases h
                  exact hle rfl
              | .ok (some body) => exact absurd rfl (hnone body)

theorem handshake_rxPlain {io : ByteIo B A} {tls : Tls T} {isHandshaking : T → Bool}
    {c c' : HttpConn B T} {rounds : List A} (hc : c.engine.rxPlain.length ≤ maxResponse)
    (h : c.handshake io tls isHandshaking rounds = .ok (.ok c')) :
    c'.engine.rxPlain.length ≤ maxResponse := by
  induction rounds generalizing c with
  | nil =>
      rw [handshake] at h
      split at h
      next => cases h
      next =>
        cases h
        exact hc
  | cons a rounds ih =>
      rw [handshake] at h
      split at h
      next =>
        obtain ⟨⟨c₁, r⟩, hround, h⟩ := bind_eq_ok.mp h
        cases r with
        | error e => cases h
        | ok _ => exact ih (handshakeRound_rxPlain hc hround) h
      next =>
        cases h
        exact hc

/-- What `connect_with` returns is within the limit. -/
theorem connectWith_rxPlain {Q C D : Type} {io : ByteIo B A} {tls : Tls T}
    {dial : Dialer B T A Q C D} {cfg : Provider.ProviderConfig} {envelope : EnvelopeTemplate} {d : D}
    {c : HttpConn B T} (h : connectWith io tls dial cfg envelope d = .ok (.ok c)) :
    c.engine.rxPlain.length ≤ maxResponse := by
  unfold connectWith at h
  simp only at h
  split at h
  next => cases h
  next =>
    split at h
    next => cases h
    next => exact handshake_rxPlain (Nat.zero_le _) h

end HttpConn

namespace Transport

variable {B A T Q K : Type}

/-- Every connection of a provider is what a run of calls made of one that was built for it. -/
theorem Held.exists_run {io : ByteIo B A} {tls : Tls T} {quic : QuicApi Q K}
    {made : Nat → Built (HttpConn B T) Q → Prop} {i : Nat} {c : HttpConn B T}
    (h : Held ⟨HttpConn.api io tls, quic⟩ made i (.http c)) :
    ∃ c₀ calls log, made i (.http c₀) ∧ (HttpConn.machine io tls).run c₀ calls = .ok (c, log) := by
  generalize hstate : ConnState.http c = state at h
  induction h generalizing c with
  | @built b hmade =>
      cases b with
      | http c₀ =>
          obtain rfl := ConnState.http.inj hstate
          exact ⟨c, [], [], hmade, rfl⟩
      | quic engine => cases hstate
  | sent _ hsend ih =>
      obtain rfl := ConnState.http.inj hstate
      obtain ⟨c₀, calls, log, hmade, hrun⟩ := ih rfl
      exact ⟨c₀, _, _, hmade, Machine.run_concat hrun (HttpConn.step_sendTx hsend)⟩
  | polled _ hpoll ih =>
      obtain rfl := ConnState.http.inj hstate
      obtain ⟨c₀, calls, log, hmade, hrun⟩ := ih rfl
      exact ⟨c₀, _, _, hmade, Machine.run_concat hrun (HttpConn.step_pollResponse hpoll)⟩
  | @drove state _ a now k ih =>
      cases state with
      | quic q => cases hstate
      | http c₁ =>
          obtain rfl := ConnState.http.inj hstate
          obtain ⟨c₀, calls, log, hmade, hrun⟩ := ih rfl
          exact ⟨c₀, calls ++ [.drive a], _, hmade, Machine.run_concat hrun rfl⟩
  | quicSent => cases hstate
  | looked => cases hstate

theorem connectOne_rxPlain {C D : Type} {io : ByteIo B A} {tls : Tls T} {dial : Dialer B T A Q C D}
    {providers : List Provider.ProviderConfig} {i : Nat} {d : D} {c : HttpConn B T}
    (h : connectOne io tls dial providers i d = .ok (.ok (.http c))) :
    c.engine.rxPlain.length ≤ maxResponse := by
  obtain ⟨p, -, h⟩ := bind_eq_ok.mp h
  cases hprotocol : p.protocol with
  | quic =>
      rw [hprotocol] at h
      simp only [connectQuic, pure_eq_ok, Except.ok.injEq] at h
      repeat' split at h
      all_goals cases h
  | http =>
      rw [hprotocol] at h
      obtain ⟨compiled, -, h⟩ := bind_eq_ok.mp h
      cases compiled with
      | error e => cases h
      | ok tpl =>
          simp only at h
          split at h
          next => cases h
          next =>
            obtain ⟨connected, hconnect, h⟩ := bind_eq_ok.mp h
            cases connected with
            | error e => cases h
            | ok conn =>
                cases h
                exact HttpConn.connectWith_rxPlain hconnect

/-- **Where the connections of a sender come from.** Whatever a sender that `build` made does, every
HTTP connection that one of its workers holds is what a run of calls made of a connection that started
within the limit. -/
theorem exists_history {C D : Type} {io : ByteIo B A} {tls : Tls T} {quic : QuicApi Q K}
    {dial : Dialer B T A Q C D} {b : SenderBuilder} {ds : Nat → D × D}
    {s₀ s : Sender (HttpConn B T) Q} {actions : List (Action (HttpConn B T) A Q K D)}
    {log : List (Logged (HttpConn B T) A)}
    (hbuild : b.build (connectOne io tls dial b.providers) ds = .ok (.ok s₀))
    (hrun : (Sender.machine ⟨HttpConn.api io tls, quic⟩
      (engineReconnectBuilder (connectOne io tls dial b.providers))).run s₀ actions = .ok (s, log))
    {i : Nat} {p : ParWorker (HttpConn B T) Q} {c : HttpConn B T} (hp : s.workers.view i = some p)
    (hc : p.dualConn.active.conn = .http c ∨ p.dualConn.standby.conn = .http c) :
    ∃ c₀ calls polls, c₀.engine.rxPlain.length ≤ maxResponse ∧
      (HttpConn.machine io tls).run c₀ calls = .ok (c, polls) := by
  obtain ⟨kind, hkept⟩ := kept_build ⟨HttpConn.api io tls, quic⟩ hbuild
  have hend := Machine.run_invariant _
    (Kept ⟨HttpConn.api io tls, quic⟩
      (fun i c => ∃ d, connectOne io tls dial b.providers i d = .ok (.ok c)) b.providers.length kind
      (b.providers.map Provider.ProviderConfig.codec))
    hkept (fun s log a s' evs hk hone => kept_step hk hone) hrun
  obtain ⟨hactive, hstandby⟩ := hend.owned i p hp
  have hheld : Held ⟨HttpConn.api io tls, quic⟩
      (fun i c => ∃ d, connectOne io tls dial b.providers i d = .ok (.ok c)) i (.http c) := by
    obtain heq | heq := hc
    · rw [← heq]
      exact hactive
    · rw [← heq]
      exact hstandby
  obtain ⟨c₀, calls, polls, ⟨d, hmade⟩, hrun⟩ := hheld.exists_run
  exact ⟨c₀, calls, polls, connectOne_rxPlain hmade, hrun⟩

/-! ## A server that never completes a response -/

section
variable {m : Nat} (hpos : 0 < m) (hsize : m ≤ 4096)
include hpos hsize

/-- Polls that each receive `m` zero octets. -/
theorem run_zeros (k : Nat) :
    ∃ log, (HttpConn.machine rawLibc plainTls).run bareConn
        (List.replicate k (.pollResponse (.arrives (zeros m)))) = .ok (zeroConn (m * k), log) ∧
      ∀ p ∈ log, p.plain.length ≤ m := by
  induction k with
  | zero => exact ⟨[], rfl, nofun⟩
  | succ k ih =>
      obtain ⟨log, hrun, hsmall⟩ := ih
      rw [List.replicate_succ', Nat.mul_succ]
      refine ⟨_, Machine.run_concat hrun (step_zeros hpos hsize (m * k)), fun p hp => ?_⟩
      obtain hp | hp := List.mem_append.mp hp
      · exact hsmall p hp
      · rw [List.mem_singleton.mp hp]
        exact Nat.le_of_eq (length_zeros m)

end

/-- A worker that has polled `k` times on a connection that received `m` zero octets each time. -/
def zeroWorker (m k : Nat) : ParWorker (HttpConn RawConn Bytes) (QuicEngine Bool) where
  providerIdx := 0
  resultTx := 0
  dualConn := DualConn.new (.http (zeroConn (m * k))) (.http bareConn)
  inflight := none
  reconnectRespRx := 0
  connKind := .rawLibc
  tick := UInt32.ofNat k
  diag := 0
  jobsSent := 0

/-- The inputs of a round of the worker in which the connection receives zero octets. -/
def zeroRound (m : Nat) : List (Input (HttpConn RawConn Bytes) RawAnswer (QuicEngine Bool) Bool) :=
  let base := Input.quiet RawAnswer.silent false
  ParWorker.pollRound base { base with call := .arrives (zeros m) }

/-- The error of a full buffer is not one that `reap` acts on. -/
theorem afterPoll_limitCheck {H A Q : Type} (w : ParWorker H Q) (pid : ProviderId) (tsc n : Nat) :
    w.afterPoll (A := A) pid tsc (limitCheck n) = (w, []) := by
  unfold limitCheck
  split <;> rfl

theorem run_zeroRound {m k : Nat} (hpos : 0 < m) (hsize : m ≤ 4096)
    (hk : periodic (UInt32.ofNat k + 1) = false) :
    ∃ log, (ParWorker.machine ⟨HttpConn.api rawLibc plainTls, quinnApi flagQuinn⟩).run
      (zeroWorker m k, .top) (zeroRound m) = .ok ((zeroWorker m (k + 1), .top), log) := by
  have hpoll : (HttpConn.api rawLibc plainTls).pollResponse (zeroConn (m * k)) (.arrives (zeros m)) =
      .ok (zeroConn (m * (k + 1)), limitCheck (m * (k + 1))) := by
    rw [Nat.mul_succ]
    exact pollResponse_zeros hpos hsize (m * k)
  have hdrive : (zeroWorker m k).driveActive ⟨HttpConn.api rawLibc plainTls, quinnApi flagQuinn⟩
      { Input.quiet RawAnswer.silent false with call := .arrives (zeros m) } = zeroWorker m k := rfl
  have hreap : ((zeroWorker m k).driveActive ⟨HttpConn.api rawLibc plainTls, quinnApi flagQuinn⟩
        { Input.quiet RawAnswer.silent false with call := .arrives (zeros m) }).reap
        ⟨HttpConn.api rawLibc plainTls, quinnApi flagQuinn⟩ (ProviderId.ofIndex 0)
        { Input.quiet RawAnswer.silent false with call := .arrives (zeros m) } =
      .ok ({ zeroWorker m (k + 1) with tick := UInt32.ofNat k },
        [.polled (zeroConn (m * k)) (.arrives (zeros m)) (limitCheck (m * (k + 1)))]) := by
    rw [hdrive]
    simp only [ParWorker.reap, ParWorker.active, zeroWorker, DualConn.new, hpoll, ok_bind,
      afterPoll_limitCheck, pure_eq_ok]
    rfl
  have htick : UInt32.ofNat (k + 1) = UInt32.ofNat k + 1 := UInt32.ofNat_add k 1
  have hworker : zeroWorker m (k + 1) =
      { zeroWorker m (k + 1) with tick := UInt32.ofNat k + 1 } := by
    rw [← htick]
    rfl
  rw [hworker]
  exact ⟨_, ParWorker.run_pollRound rfl rfl rfl hreap hk⟩

theorem run_zeroRounds {m k : Nat} (hpos : 0 < m) (hsize : m ≤ 4096)
    (hk : ∀ j < k, periodic (UInt32.ofNat j + 1) = false) :
    ∃ log, (ParWorker.machine ⟨HttpConn.api rawLibc plainTls, quinnApi flagQuinn⟩).run
      (zeroWorker m 0, .top) (List.replicate k (zeroRound m)).flatten =
        .ok ((zeroWorker m k, .top), log) := by
  induction k with
  | zero => exact ⟨[], rfl⟩
  | succ k ih =>
      obtain ⟨log, hrun⟩ := ih fun j hj => hk j (by omega)
      obtain ⟨log', hround⟩ := run_zeroRound hpos hsize (hk k (by omega))
      rw [List.replicate_succ', List.flatten_append, List.flatten_singleton]
      exact ⟨log ++ log', Machine.run_append hrun hround⟩

theorem not_bounded_zeroConn {bound n : Nat} (h : bound < n) (log : List HttpConn.Poll) :
    ¬ HttpConn.Bounded bound (zeroConn n) log := by
  intro hbounded
  have hnow : (zeros n).length ≤ bound := hbounded.now
  rw [length_zeros] at hnow
  omega

/-- Eighteen full reads without a complete response: the buffer outgrows the bound, and the worker
polls on. -/
theorem buffer_outgrows_bound :
    ∃ c polls, (HttpConn.machine rawLibc plainTls).run bareConn
        (List.replicate 18 (.pollResponse (.arrives (zeros 4096)))) = .ok (c, polls) ∧
      (∀ p ∈ polls, p.plain.length ≤ 4096) ∧ ¬ HttpConn.Bounded (maxResponse + 4096) c polls ∧
      ∃ popped log p, ProviderRun ⟨HttpConn.api rawLibc plainTls, quinnApi flagQuinn⟩
        (startedPar 0 0 0 .rawLibc 0 (.http bareConn) (.http bareConn)) popped log p ∧
        p.active = .http c := by
  obtain ⟨polls, hpolls, hsmall⟩ := run_zeros (m := 4096) (by decide) (by decide) 18
  obtain ⟨log, hlog⟩ := run_zeroRounds (m := 4096) (k := 18) (by decide) (by decide) (by decide)
  refine ⟨_, polls, hpolls, hsmall, not_bounded_zeroConn (by decide) polls, _, _, _, .parallel hlog, ?_⟩
  rfl

end Transport

end TxSender
