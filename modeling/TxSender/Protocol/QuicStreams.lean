/-
# TxSender.Protocol.QuicStreams — what a failed `send_tx` leaves on the connection.

`send_tx` opens a stream, writes to it and finishes it, and returns early when one of these does not
do what it should. The stream it opened is not reset on the way out. `Documented` is what is assumed of
quinn: opening allocates a stream, writing queues the bytes it reports, and what fails changes
neither. Over any such connection a failed send leaves the streams and the queues as they were exactly
when it failed before it had a stream.
-/
import TxSender.Protocol.Quic

namespace TxSender.Protocol

open TxSender.Lib

/-! ## The send side of a connection -/

/-- What a connection holds for its outgoing streams. -/
structure SendSide (C : Type) where
  /-- the streams that are open for sending -/
  opened : C → List Nat
  /-- what is queued for transmission on a stream -/
  queued : C → Nat → Bytes

variable {C K : Type}

/-- No stream of `c'` is new, and the queues of `c` are the queues of `c'`. -/
def SendSide.Same (v : SendSide C) (c c' : C) : Prop :=
  (∀ id ∈ v.opened c', id ∈ v.opened c) ∧ ∀ id, v.queued c' id = v.queued c id

/-- The documented behaviour of `open` and `write_chunks`. -/
structure Quinn.Documented (q : Quinn C K) (v : SendSide C) : Prop where
  /-- a stream is allocated, and nothing else changes -/
  opens : ∀ c c' id, q.openUni c = (c', some id) →
    id ∉ v.opened c ∧ id ∈ v.opened c' ∧ ∀ j, v.queued c' j = v.queued c j
  refuses : ∀ c c', q.openUni c = (c', none) → v.Same c c'
  /-- the bytes reported written are queued, and no stream is closed by it -/
  writes : ∀ c c' id tx n, q.writeChunks c id tx = (c', .ok n) →
    v.queued c' id = v.queued c id ++ tx.take n ∧ ∀ j ∈ v.opened c, j ∈ v.opened c'
  blocks : ∀ c c' id tx err, q.writeChunks c id tx = (c', .error err) →
    v.Same c c' ∧ ∀ j ∈ v.opened c, j ∈ v.opened c'

/-! ## A connection with its streams in the open -/

/-- A connection whose peer allows so many streams and so many bytes. Streams are numbered in the
order in which they are opened. -/
structure StreamTable where
  next : Nat
  maxStreams : Nat
  opened : List Nat
  window : Nat
  queue : List (Nat × Bytes)
  /-- what has gone to the socket -/
  wire : List (Nat × Bytes)
  numbered : ∀ id ∈ opened, id < next
  deriving DecidableEq

namespace StreamTable

def openNext (c : StreamTable) : StreamTable where
  next := c.next + 1
  maxStreams := c.maxStreams
  opened := c.opened ++ [c.next]
  window := c.window
  queue := c.queue
  wire := c.wire
  numbered := by
    intro id hid
    rcases List.mem_append.mp hid with h | h
    · exact Nat.lt_succ_of_lt (c.numbered id h)
    · rw [List.mem_singleton.mp h]
      exact Nat.lt_succ_self _

def close (c : StreamTable) (id : Nat) : StreamTable where
  next := c.next
  maxStreams := c.maxStreams
  opened := c.opened.erase id
  window := c.window
  queue := c.queue
  wire := c.wire
  numbered := fun j hj => c.numbered j (List.mem_of_mem_erase hj)

/-- Nothing sent yet. -/
def fresh (maxStreams window : Nat) : StreamTable where
  next := 0
  maxStreams := maxStreams
  opened := []
  window := window
  queue := []
  wire := []
  numbered := by simp

end StreamTable

/-- The calls on it; a datagram from the peer grants more bytes. -/
def windowQuinn : Quinn StreamTable Nat where
  isClosed _ := false
  isDrained _ := false
  openUni c := if c.next < c.maxStreams then (c.openNext, some c.next) else (c, none)
  writeChunks c id tx :=
    if c.window = 0 then (c, .error "Blocked")
    else
      let n := min c.window tx.length
      ({ c with window := c.window - n, queue := c.queue ++ [(id, tx.take n)] }, .ok n)
  finish c id := c.close id
  drainTransmits c _ := { c with queue := [], wire := c.wire ++ c.queue }
  recvOnce c _ k := { c with window := c.window + k }
  handleTimeout c _ := c
  pollTimeout c := (c, none)

def streamView : SendSide StreamTable where
  opened := StreamTable.opened
  queued c id := ((c.queue.filter (·.1 == id)).map Prod.snd).flatten

theorem documented_windowQuinn : windowQuinn.Documented streamView := by
  constructor
  · intro c c' id h
    simp only [windowQuinn] at h
    split at h
    · obtain ⟨rfl, hid⟩ := Prod.mk.inj h
      obtain rfl := Option.some.inj hid
      refine ⟨fun hmem => ?_, List.mem_append_right _ (List.mem_singleton.mpr rfl), fun j => rfl⟩
      exact Nat.lt_irrefl _ (c.numbered _ hmem)
    · cases (Prod.mk.inj h).2
  · intro c c' h
    simp only [windowQuinn] at h
    split at h
    · cases (Prod.mk.inj h).2
    · obtain ⟨rfl, -⟩ := Prod.mk.inj h
      exact ⟨fun id hid => hid, fun id => rfl⟩
  · intro c c' id tx n h
    simp only [windowQuinn] at h
    split at h
    · cases (Prod.mk.inj h).2
    · obtain ⟨rfl, hn⟩ := Prod.mk.inj h
      obtain rfl := Except.ok.inj hn
      refine ⟨?_, fun j hj => hj⟩
      simp [streamView]
  · intro c c' id tx err h
    simp only [windowQuinn] at h
    split at h
    · obtain ⟨rfl, -⟩ := Prod.mk.inj h
      exact ⟨⟨fun id hid => hid, fun id => rfl⟩, fun j hj => hj⟩
    · cases (Prod.mk.inj h).2

/-- The engine over it. -/
def windowEngine (maxStreams window : Nat) : QuicEngine StreamTable where
  connection := some (.fresh maxStreams window)
  nextTimeout := none

/-! ## Failed sends -/

namespace QuicEngine

/-- **The ways in which `send_tx` fails.** -/
theorem sendTx_failed {q : Quinn C K} {e e' : QuicEngine C} {tx : Bytes} {now : Nat}
    {err : TransportError} (h : e.sendTx q tx now = (e', .error err)) :
    (e' = e ∧ ∀ c, e.connection = some c → q.gone c = true) ∨
    ∃ c, e.connection = some c ∧ q.gone c = false ∧
      ((∃ c', q.openUni c = (c', none) ∧ e' = { e with connection := some c' }) ∨
       ∃ c₁ id c', q.openUni c = (c₁, some id) ∧ e' = { e with connection := some c' } ∧
        ((∃ reason, q.writeChunks c₁ id tx = (c', .error reason)) ∨
         ∃ n < tx.length, q.writeChunks c₁ id tx = (c', .ok n))) := by
  unfold sendTx at h
  cases hc : e.connection with
  | none =>
      rw [hc] at h
      exact .inl ⟨(Prod.mk.inj h).1.symm, fun c hc' => by cases hc'⟩
  | some c =>
      rw [hc] at h
      simp only at h
      by_cases hgone : q.gone c = true
      · rw [if_pos hgone] at h
        refine .inl ⟨(Prod.mk.inj h).1.symm, fun c' hc' => ?_⟩
        obtain rfl := Option.some.inj hc'
        exact hgone
      · rw [if_neg hgone] at h
        refine .inr ⟨c, rfl, Bool.eq_false_iff.mpr hgone, ?_⟩
        split at h
        · rename_i c₁ hopen
          exact .inl ⟨c₁, hopen, (Prod.mk.inj h).1.symm⟩
        · rename_i c₁ id hopen
          split at h
          · rename_i c₂ reason hwrite
            exact .inr ⟨c₁, id, c₂, hopen, (Prod.mk.inj h).1.symm, .inl ⟨reason, hwrite⟩⟩
          · rename_i c₂ n hwrite
            split at h
            · rename_i hshort
              exact .inr ⟨c₁, id, c₂, hopen, (Prod.mk.inj h).1.symm, .inr ⟨n, hshort, hwrite⟩⟩
            · cases (Prod.mk.inj h).2

/-- No byte more is queued on the engine's connection, and no stream more is open. -/
def Untouched (v : SendSide C) (e e' : QuicEngine C) : Prop :=
  ∀ c c', e.connection = some c → e'.connection = some c' → v.Same c c'

/-- The connection has no stream to give: it is closed, or the limit is reached. -/
def NoStream (q : Quinn C K) (e : QuicEngine C) : Prop :=
  ∀ c, e.connection = some c → q.gone c = true ∨ (q.openUni c).2 = none

/-- **A failed send leaves the connection as it was exactly when it got no stream.** Over every
connection that behaves as documented, in every state and for every transaction. -/
theorem failed_send_untouched_iff (q : Quinn C K) (v : SendSide C) (hq : q.Documented v)
    (e e' : QuicEngine C) (tx : Bytes) (now : Nat) (err : TransportError)
    (h : e.sendTx q tx now = (e', .error err)) : e.Untouched v e' ↔ e.NoStream q := by
  rcases sendTx_failed h with ⟨rfl, hgone⟩ | ⟨c, hc, hopen, hcase⟩
  · refine ⟨fun _ c hc => .inl (hgone c hc), fun _ c c' hc hc' => ?_⟩
    obtain rfl := Option.some.inj (hc.symm.trans hc')
    exact ⟨fun id hid => hid, fun id => rfl⟩
  · rcases hcase with ⟨c', hnone, rfl⟩ | ⟨c₁, id, c', hsome, rfl, hwrite⟩
    · refine ⟨fun _ d hd => ?_, fun _ d d' hd hd' => ?_⟩
      · obtain rfl := Option.some.inj (hc.symm.trans hd)
        exact .inr (by rw [hnone])
      · obtain rfl := Option.some.inj (hc.symm.trans hd)
        obtain rfl := Option.some.inj hd'
        exact hq.refuses c c' hnone
    · -- a stream was opened; whatever came of the write, it is still there
      obtain ⟨hnew, hin, -⟩ := hq.opens c c₁ id hsome
      have hstays : id ∈ v.opened c' := by
        rcases hwrite with ⟨reason, hfail⟩ | ⟨n, -, hpart⟩
        · exact (hq.blocks c₁ c' id tx reason hfail).2 id hin
        · exact (hq.writes c₁ c' id tx n hpart).2 id hin
      refine ⟨fun huntouched => ?_, fun hno => ?_⟩
      · exact absurd ((huntouched c c' hc rfl).1 id hstays) hnew
      · rcases hno c hc with hgone | hnone
        · rw [hopen] at hgone
          cases hgone
        · rw [hsome] at hnone
          cases hnone

end QuicEngine

/-- **Bytes of a refused transaction are sent, and its stream is lost.** The peer allows one stream
and two bytes. Of three bytes two are queued before the send is refused; the next `drive` sends them,
and the next transaction finds no stream. -/
theorem partial_write_is_sent :
    ∃ e', (windowEngine 1 2).sendTx windowQuinn [7, 8, 9] 0 = (e', .error (.quic "partial write")) ∧
      ¬ (windowEngine 1 2).Untouched streamView e' ∧
      (e'.drive windowQuinn 1 100).connection.map StreamTable.wire = some [(0, [7, 8])] ∧
      ((e'.drive windowQuinn 1 100).sendTx windowQuinn [5] 2).2 =
        .error (.quic "stream limit reached") := by
  refine ⟨_, rfl, fun h => ?_, by decide, by decide⟩
  have hnew := (h _ _ rfl rfl).1 0 (by decide)
  exact absurd hnew (by decide)

theorem failed_send_blocked :
    ∃ e', (windowEngine 4 0).sendTx windowQuinn [7] 0 = (e', .error (.quic "write: Blocked")) ∧
      ((windowEngine 4 0).Untouched streamView e' ↔ (windowEngine 4 0).NoStream windowQuinn) :=
  ⟨_, rfl, QuicEngine.failed_send_untouched_iff windowQuinn streamView documented_windowQuinn
    (windowEngine 4 0) _ [7] 0 (.quic "write: Blocked") rfl⟩

end TxSender.Protocol
