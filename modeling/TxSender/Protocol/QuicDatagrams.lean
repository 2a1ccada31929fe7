/-
# TxSender.Protocol.QuicDatagrams — what `drain_transmits` hands to the socket.

`poll_transmit` may pack several datagrams of one size into one buffer and says so in the segment
size of the transmit. The loop hands each buffer to `udp_sendto` as it is, so its datagrams are the
ones the transmits stand for exactly when every transmit is a single datagram
(`drainTransmits_datagrams_iff`).

`Quinn` takes the whole loop as one call on the connection; `drainTransmits_connection` says that the
loop here leaves the connection that call leaves.
-/
import TxSender.Protocol.Quic

namespace TxSender.Protocol

open TxSender.Lib
open TxSender.Lib.Exec

/-! ## Transmits and their datagrams -/

/-- What `poll_transmit` returned together with the bytes it wrote into the cleared buffer. -/
structure Transmit where
  contents : Bytes
  size : Nat
  segmentSize : Option Nat
  sized : contents.length = size
  positive : ∀ s ∈ segmentSize, 0 < s

/-- Consecutive pieces of `s` bytes, the last possibly shorter. Each piece takes at least one byte, so
as many rounds as there are bytes are enough. -/
def segments (s : Nat) : (fuel : Nat) → Bytes → List Bytes
  | 0, b => [b]
  | fuel + 1, b => if b.length ≤ s then [b] else b.take s :: segments s fuel (b.drop s)

/-- The datagrams a transmit stands for. -/
def Transmit.datagrams (t : Transmit) : List Bytes :=
  match t.segmentSize with
  | none => [t.contents]
  | some s => segments s t.size t.contents

/-- The transmit is a single datagram. -/
def Transmit.Single (t : Transmit) : Prop := ∀ s ∈ t.segmentSize, t.size ≤ s

instance (t : Transmit) : Decidable t.Single :=
  inferInstanceAs (Decidable (∀ s ∈ t.segmentSize, t.size ≤ s))

theorem segments_ne_nil (s fuel : Nat) (b : Bytes) : segments s fuel b ≠ [] := by
  cases fuel with
  | zero => simp [segments]
  | succ fuel =>
      unfold segments
      split <;> simp

/-- The pieces hold all the bytes, each has at most the segment size, and each but the last has
exactly that. -/
theorem segments_spec {s : Nat} (hs : 0 < s) {fuel : Nat} {b : Bytes} (hf : b.length ≤ fuel) :
    (segments s fuel b).flatten = b ∧ (∀ d ∈ segments s fuel b, d.length ≤ s) ∧
      ∀ d ∈ (segments s fuel b).dropLast, d.length = s := by
  induction fuel generalizing b with
  | zero =>
      obtain rfl : b = [] := List.length_eq_zero_iff.mp (by omega)
      simp [segments]
  | succ fuel ih =>
      unfold segments
      split
      · rename_i hle
        simpa using hle
      · rename_i hgt
        obtain ⟨hflat, hall, hinit⟩ := ih (b := b.drop s) (by rw [List.length_drop]; omega)
        have hlen : (b.take s).length = s := by
          rw [List.length_take]
          omega
        refine ⟨?_, ?_, ?_⟩
        · rw [List.flatten_cons, hflat, List.take_append_drop]
        · intro d hd
          rcases List.mem_cons.mp hd with rfl | hd
          · exact Nat.le_of_eq hlen
          · exact hall d hd
        · intro d hd
          rw [List.dropLast_cons_of_ne_nil (segments_ne_nil s fuel _)] at hd
          rcases List.mem_cons.mp hd with rfl | hd
          · exact hlen
          · exact hinit d hd

namespace Transmit

theorem datagrams_ne_nil (t : Transmit) : t.datagrams ≠ [] := by
  unfold datagrams
  split
  · simp
  · exact segments_ne_nil _ _ _

/-- Whatever the segment size, the datagrams hold the bytes of the buffer. -/
theorem flatten_datagrams (t : Transmit) : t.datagrams.flatten = t.contents := by
  unfold datagrams
  split
  · simp
  · rename_i s hs
    exact (segments_spec (t.positive s (by simp [hs])) (Nat.le_of_eq t.sized)).1

/-- A transmit stands for its buffer exactly when it is a single datagram. -/
theorem datagrams_eq_iff (t : Transmit) : t.datagrams = [t.contents] ↔ t.Single := by
  unfold datagrams Single
  cases hseg : t.segmentSize with
  | none => simp
  | some s =>
      simp only [Option.mem_def, Option.some.injEq, forall_eq']
      have hspec := segments_spec (t.positive s (by simp [hseg])) (Nat.le_of_eq t.sized)
      constructor
      · intro heq
        have := hspec.2.1 t.contents (by rw [heq]; simp)
        rwa [t.sized] at this
      · intro hle
        cases hsize : t.size with
        | zero => rfl
        | succ n =>
            unfold segments
            rw [if_pos (by rw [t.sized]; exact hle)]

end Transmit

/-! ## The loop -/

/-- `poll_transmit(now, max_datagrams, buf)` -/
abbrev PollTransmit (C : Type) := C → Nat → Nat → C × Option Transmit

/-- How many datagrams a transmit may hold. -/
def maxDatagrams : Nat := 8

section Loop

variable {C K : Type} (poll : PollTransmit C) (now : Nat)

/-- `while let Some(transmit) = conn.poll_transmit(..)`: the connection behind it and the buffers
handed to `udp_sendto`, whose result is ignored. -/
def drainLoop : (fuel : Nat) → C → Exec (C × List Bytes)
  | 0, _ => .error .blocked
  | fuel + 1, c =>
      match poll c now maxDatagrams with
      | (c, none) => .ok (c, [])
      | (c, some transmit) => do
          let datagram ← sliceTo transmit.contents transmit.size
          let (c, rest) ← drainLoop fuel c
          pure (c, datagram :: rest)

/-- `drain_transmits` -/
def QuicEngine.drainTransmits (fuel : Nat) (e : QuicEngine C) :
    Exec (QuicEngine C × List Bytes) :=
  match e.connection with
  | none => .ok (e, [])
  | some c => do
      let (c, sent) ← drainLoop poll now fuel c
      pure ({ e with connection := some c }, sent)

/-- From `c` the connection has the transmits `ts` to send and is then `c'`. -/
inductive Produces : C → List Transmit → C → Prop
  | done {c c' : C} : poll c now maxDatagrams = (c', none) → Produces c [] c'
  | next {c c₁ c' : C} {t : Transmit} {ts : List Transmit} :
      poll c now maxDatagrams = (c₁, some t) → Produces c₁ ts c' → Produces c (t :: ts) c'

variable {poll now}

/-- The loop takes one round for each transmit, and hands over each buffer in one piece. -/
theorem drainLoop_eq {c c' : C} {ts : List Transmit} (h : Produces poll now c ts c') {fuel : Nat}
    (hf : ts.length < fuel) :
    drainLoop poll now fuel c = .ok (c', ts.map Transmit.contents) := by
  induction h generalizing fuel with
  | done hpoll =>
      obtain ⟨n, rfl⟩ : ∃ n, fuel = n + 1 := ⟨fuel - 1, by omega⟩
      rw [drainLoop, hpoll]
      rfl
  | @next c c₁ c' t ts hpoll _ ih =>
      obtain ⟨n, rfl⟩ : ∃ n, fuel = n + 1 := ⟨fuel - 1, by omega⟩
      rw [List.length_cons] at hf
      have hslice : sliceTo t.contents t.size = .ok t.contents := by
        rw [← t.sized, sliceTo_ok (Nat.le_refl _), List.take_length]
      rw [drainLoop, hpoll]
      simp only [hslice, ok_bind, ih (show ts.length < n by omega), pure_eq_ok, List.map_cons]

/-- A call of the connection that stands for the whole loop. -/
def Quinn.Drains (q : Quinn C K) (poll : PollTransmit C) : Prop :=
  ∀ c now ts c', Produces poll now c ts c' → q.drainTransmits c now = c'

/-- The loop leaves the connection the abstract call leaves. -/
theorem drainTransmits_connection {q : Quinn C K} (hq : q.Drains poll) {e : QuicEngine C} {c c' : C}
    {ts : List Transmit} (he : e.connection = some c) (h : Produces poll now c ts c') {fuel : Nat}
    (hf : ts.length < fuel) :
    e.drainTransmits poll now fuel =
      .ok ({ e with connection := e.connection.map (q.drainTransmits · now) },
        ts.map Transmit.contents) := by
  unfold QuicEngine.drainTransmits
  rw [he]
  simp only [drainLoop_eq h hf, ok_bind, pure_eq_ok, Option.map_some, hq c now ts c' h]

/-! ## Datagram boundaries -/

/-- Every transmit stands for at least one datagram, so equal lists pair them off one to one. -/
theorem contents_eq_flatMap_iff (ts : List Transmit) :
    ts.map Transmit.contents = ts.flatMap Transmit.datagrams ↔ ∀ t ∈ ts, t.Single := by
  have hcount : ∀ us : List Transmit, us.length ≤ (us.flatMap Transmit.datagrams).length := by
    intro us
    induction us with
    | nil => simp
    | cons u us ih =>
        have hpos := List.length_pos_iff.mpr u.datagrams_ne_nil
        rw [List.flatMap_cons, List.length_append, List.length_cons]
        omega
  induction ts with
  | nil => simp
  | cons t ts ih =>
      rw [List.map_cons, List.flatMap_cons, List.forall_mem_cons]
      refine Iff.trans ?_ (and_congr t.datagrams_eq_iff ih)
      constructor
      · intro heq
        have hlen := congrArg List.length heq
        have hrest := hcount ts
        have hpos := List.length_pos_iff.mpr t.datagrams_ne_nil
        rw [List.length_cons, List.length_append, List.length_map] at hlen
        obtain ⟨d, hd⟩ := List.length_eq_one_iff.mp (show t.datagrams.length = 1 by omega)
        rw [hd, List.singleton_append, List.cons.injEq] at heq
        exact ⟨by rw [hd, heq.1], heq.2⟩
      · rintro ⟨hd, hts⟩
        rw [hd, List.singleton_append, hts]

/-- **Datagram boundaries survive exactly when every transmit is a single datagram.** For every
sequence of transmits the connection produces, the loop ends, hands over every byte in order, and the
datagrams it hands over are the ones the transmits stand for if and only if no transmit holds two. -/
theorem drainTransmits_datagrams_iff (poll : PollTransmit C) (now fuel : Nat) (e : QuicEngine C)
    (c c' : C) (ts : List Transmit) (he : e.connection = some c) (h : Produces poll now c ts c')
    (hf : ts.length < fuel) :
    ∃ sent, e.drainTransmits poll now fuel = .ok ({ e with connection := some c' }, sent) ∧
      sent.flatten = (ts.flatMap Transmit.datagrams).flatten ∧
      (sent = ts.flatMap Transmit.datagrams ↔ ∀ t ∈ ts, t.Single) := by
  refine ⟨ts.map Transmit.contents, ?_, ?_, contents_eq_flatMap_iff ts⟩
  · unfold QuicEngine.drainTransmits
    rw [he]
    simp only [drainLoop_eq h hf, ok_bind, pure_eq_ok]
  · clear h hf
    induction ts with
    | nil => rfl
    | cons t ts ih =>
        rw [List.map_cons, List.flatten_cons, List.flatMap_cons, List.flatten_append, ih,
          t.flatten_datagrams]

end Loop

/-! ## A connection with a list of transmits to send -/

/-- The connection state is the transmits still to come. -/
def listPoll : PollTransmit (List Transmit) := fun ts _ _ =>
  match ts with
  | [] => ([], none)
  | t :: ts => (ts, some t)

theorem produces_listPoll (now : Nat) (ts : List Transmit) : Produces listPoll now ts ts [] := by
  induction ts with
  | nil => exact .done rfl
  | cons t ts ih => exact .next rfl ih

/-- Two datagrams of two bytes in one buffer. -/
def twoSegments : Transmit := ⟨[1, 2, 3, 4], 4, some 2, rfl, by simp⟩

/-- They leave as one datagram of four bytes. -/
theorem drain_merges_segments :
    twoSegments.datagrams = [[1, 2], [3, 4]] ∧
      QuicEngine.drainTransmits listPoll 0 2 ⟨some [twoSegments], none⟩ =
        .ok (⟨some [], none⟩, [[1, 2, 3, 4]]) ∧
      [[1, 2, 3, 4]] ≠ [twoSegments].flatMap Transmit.datagrams :=
  ⟨rfl, rfl, by decide⟩

theorem positive_none : ∀ s ∈ (none : Option Nat), 0 < s := by simp

theorem positive_two : ∀ s ∈ some 2, 0 < s := by simp

/-- One datagram without and one with a segment size. -/
theorem drainTransmits_datagrams_iff_single :
    ∃ sent, QuicEngine.drainTransmits listPoll 0 3
        ⟨some [⟨[1, 2], 2, none, rfl, positive_none⟩, ⟨[3], 1, some 2, rfl, positive_two⟩], none⟩ =
          .ok (⟨some [], none⟩, sent) ∧
      sent = [[1, 2], [3]] := by
  obtain ⟨sent, hrun, -, hiff⟩ := drainTransmits_datagrams_iff listPoll 0 3
    ⟨some [⟨[1, 2], 2, none, rfl, positive_none⟩, ⟨[3], 1, some 2, rfl, positive_two⟩], none⟩ _ [] _ rfl
    (produces_listPoll 0 _) (by simp)
  exact ⟨sent, hrun, hiff.mpr (by decide)⟩

end TxSender.Protocol
