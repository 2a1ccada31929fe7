/-
# TxSender.Http.Pipeline — several responses on one connection.

A list of well-formed responses arrives as one plaintext stream, cut into chunks in any way. The
engine returns every body, and keeps every byte that follows a returned body, exactly when each
response ends where some chunk ends (`ingest_lossless_iff`): `settle` clears the whole buffer when
it hands out a body, so the bytes of a later response that came in the same chunk are gone.

The proof works on the plaintext alone (`absorbAll`); `ingestAll_eq` carries it to the engine over
any TLS session that delivers the chunks.
-/
import TxSender.Http.EnvelopeFrame
import TxSender.Http.Response

namespace TxSender.Http

open TxSender.Lib
open TxSender.Lib.Exec

/-! ## The plaintext half of successive calls -/

/-- The concatenation of the responses. -/
def stream (rs : List Response) : Bytes := (rs.map Response.bytes).flatten

/-- Successive `ingest` calls, read on the plaintext each one adds. -/
def absorbAll (rx : Bytes) : List Bytes → Exec (Bytes × List (Except TransportError (Option Bytes)))
  | [] => .ok (rx, [])
  | p :: ps => do
      let (rx, r) ← settle (rx ++ p)
      let (rx, rs) ← absorbAll rx ps
      pure (rx, r :: rs)

/-- The session turns the ciphertext chunks `cs` into the plaintext chunks `ps`, without an error. -/
inductive Delivers {T : Type} (api : Tls T) : T → List Bytes → List Bytes → Prop
  | nil {t : T} : Delivers api t [] []
  | idle {t : T} {cs ps : List Bytes} : Delivers api t cs ps → Delivers api t ([] :: cs) ([] :: ps)
  | chunk {t t' : T} {c p : Bytes} {cs ps : List Bytes} : c ≠ [] → api.feed t c = (t', p, none) →
      Delivers api t' cs ps → Delivers api t (c :: cs) (p :: ps)

theorem Delivers.take {T : Type} {api : Tls T} {t : T} {cs ps : List Bytes}
    (h : Delivers api t cs ps) (m : Nat) : Delivers api t (cs.take m) (ps.take m) := by
  induction h generalizing m with
  | nil => simpa using Delivers.nil
  | idle _ ih =>
      cases m with
      | zero => exact .nil
      | succ m => exact .idle (ih m)
  | chunk hc hfeed _ ih =>
      cases m with
      | zero => exact .nil
      | succ m => exact .chunk hc hfeed (ih m)

theorem Delivers.idles {T : Type} {api : Tls T} {t : T} (k : Nat) :
    Delivers api t (List.replicate k []) (List.replicate k []) := by
  induction k with
  | zero => exact .nil
  | succ k ih => exact .idle ih

theorem Delivers.append_idles {T : Type} {api : Tls T} {t : T} {cs ps : List Bytes}
    (h : Delivers api t cs ps) (k : Nat) :
    Delivers api t (cs ++ List.replicate k []) (ps ++ List.replicate k []) := by
  induction h with
  | nil => exact .idles k
  | idle _ ih => exact .idle ih
  | chunk hc hfeed _ ih => exact .chunk hc hfeed ih

theorem Delivers.length_eq {T : Type} {api : Tls T} {t : T} {cs ps : List Bytes}
    (h : Delivers api t cs ps) : cs.length = ps.length := by
  induction h with
  | nil => rfl
  | idle _ ih => simp [ih]
  | chunk _ _ _ ih => simp [ih]

/-- The engine's calls are the plaintext calls: same results, same buffer. -/
theorem HttpEngine.ingestAll_eq {T : Type} {api : Tls T} {t : T} {cs ps : List Bytes}
    (h : Delivers api t cs ps) (e : HttpEngine T) (he : e.tls = t) :
    (e.ingestAll api cs).map (fun x => (x.1.rxPlain, x.2)) = absorbAll e.rxPlain ps := by
  induction h generalizing e with
  | nil => rfl
  | idle _ ih =>
      unfold HttpEngine.ingestAll absorbAll HttpEngine.ingest
      rw [if_pos rfl, List.append_nil]
      cases hs : settle e.rxPlain with
      | error x => rfl
      | ok v =>
          have := ih { e with rxPlain := v.1 } he
          simp only [ok_bind, pure_eq_ok, ← this]
          cases HttpEngine.ingestAll api { e with rxPlain := v.1 } _ <;> rfl
  | @chunk t t' c p cs ps hc hfeed _ ih =>
      unfold HttpEngine.ingestAll absorbAll HttpEngine.ingest
      rw [if_neg hc, he, hfeed]
      simp only
      cases hs : settle (e.rxPlain ++ p) with
      | error x => rfl
      | ok v =>
          have := ih { e with tls := t', rxPlain := v.1 } rfl
          simp only [ok_bind, pure_eq_ok, ← this]
          cases HttpEngine.ingestAll api { e with tls := t', rxPlain := v.1 } _ <;> rfl

/-! ## What `settle` does with well-formed input -/

theorem settle_none {rx : Bytes} (h : bodyIfComplete rx = .ok none) (hmax : rx.length ≤ maxResponse) :
    settle rx = .ok (rx, .ok none) := by
  unfold settle
  rw [h, ok_bind]
  simp only
  rw [if_neg (by omega)]
  rfl

theorem settle_some {rx body : Bytes} (h : bodyIfComplete rx = .ok (some body)) :
    settle rx = .ok ([], .ok (some body)) := by
  unfold settle
  rw [h, ok_bind]
  rfl

/-- A call that returns a body leaves an empty buffer; any other leaves the buffer as it is. -/
theorem settle_cases {rx rx' : Bytes} {r : Except TransportError (Option Bytes)}
    (h : settle rx = .ok (rx', r)) :
    (∃ body, r = .ok (some body) ∧ rx' = []) ∨ ((∀ body, r ≠ .ok (some body)) ∧ rx' = rx) := by
  unfold settle at h
  obtain ⟨found, _, h⟩ := bind_eq_ok.mp h
  cases found with
  | some body =>
      simp only [pure_eq_ok, Except.ok.injEq, Prod.mk.injEq] at h
      exact Or.inl ⟨body, h.2.symm, h.1.symm⟩
  | none =>
      simp only at h
      split at h
      · simp only [pure_eq_ok, Except.ok.injEq, Prod.mk.injEq] at h
        exact Or.inr ⟨by rw [← h.2]; simp, h.1.symm⟩
      · simp only [pure_eq_ok, Except.ok.injEq, Prod.mk.injEq] at h
        exact Or.inr ⟨by rw [← h.2]; simp, h.1.symm⟩

theorem settle_empty : settle [] = .ok ([], .ok none) := settle_none rfl (by decide)

theorem returned_cons_body (body : Bytes) (rs : List (Except TransportError (Option Bytes))) :
    returned (.ok (some body) :: rs) = body :: returned rs := rfl

theorem returned_cons_other {r : Except TransportError (Option Bytes)}
    (h : ∀ body, r ≠ .ok (some body)) (rs : List (Except TransportError (Option Bytes))) :
    returned (r :: rs) = returned rs := by
  unfold returned
  rcases r with e | (_ | body)
  · rfl
  · rfl
  · exact absurd rfl (h body)

/-- Nothing comes out of an empty buffer. -/
theorem absorbAll_idles (k : Nat) :
    ∃ out, absorbAll [] (List.replicate k []) = .ok ([], out) ∧ returned out = [] := by
  induction k with
  | zero => exact ⟨[], rfl, rfl⟩
  | succ k ih =>
      obtain ⟨out, hout, hret⟩ := ih
      refine ⟨.ok none :: out, ?_, by rw [returned_cons_other (by simp), hret]⟩
      rw [List.replicate_succ]
      unfold absorbAll
      rw [List.append_nil, settle_empty, ok_bind]
      simp only [hout, ok_bind, pure_eq_ok]

/-! ## Lossless delivery and aligned chunks, from a partly filled buffer -/

/-- With `rx` in the buffer, the calls return the bodies of `rs`, and after each of them the bytes
received are the returned responses followed by the buffer. -/
structure LosslessFrom (rx : Bytes) (rs : List Response) (ps : List Bytes) : Prop where
  bodies : ∃ k0, ∀ k, k0 ≤ k → ∃ rx' out,
    absorbAll rx (ps ++ List.replicate k []) = .ok (rx', out) ∧ returned out = rs.map Response.body
  kept : ∀ m, m ≤ ps.length → ∃ rx' out, absorbAll rx (ps.take m) = .ok (rx', out) ∧
    rx ++ (ps.take m).flatten = stream (rs.take (returned out).length) ++ rx'

/-- With `rx` in the buffer, every response of `rs` ends at the end of a chunk. -/
def AlignedFrom (rx : Bytes) (rs : List Response) (ps : List Bytes) : Prop :=
  ∀ k, 1 ≤ k → k ≤ rs.length → ∃ m, m ≤ ps.length ∧ rx ++ (ps.take m).flatten = stream (rs.take k)

theorem absorbAll_cons {rx rx1 p : Bytes} {r : Except TransportError (Option Bytes)}
    (h : settle (rx ++ p) = .ok (rx1, r)) (ps : List Bytes) (x : Bytes)
    (out : List (Except TransportError (Option Bytes))) :
    absorbAll rx (p :: ps) = .ok (x, out) ↔
      ∃ out', out = r :: out' ∧ absorbAll rx1 ps = .ok (x, out') := by
  rw [absorbAll, h, ok_bind]
  constructor
  · intro hx
    obtain ⟨⟨rx2, out'⟩, hrest, hx⟩ := bind_eq_ok.mp hx
    simp only [pure_eq_ok, Except.ok.injEq, Prod.mk.injEq] at hx
    obtain ⟨rfl, rfl⟩ := hx
    exact ⟨out', rfl, hrest⟩
  · rintro ⟨out', rfl, hrest⟩
    simp only [hrest, ok_bind, pure_eq_ok]

/-- A first chunk that yields no body. -/
theorem losslessFrom_cons_other {rx p : Bytes} {rs : List Response} {ps : List Bytes}
    {r : Except TransportError (Option Bytes)} (hr : ∀ body, r ≠ .ok (some body))
    (h : settle (rx ++ p) = .ok (rx ++ p, r)) :
    LosslessFrom rx rs (p :: ps) ↔ LosslessFrom (rx ++ p) rs ps := by
  constructor
  · rintro ⟨⟨k0, hb⟩, hk⟩
    refine ⟨⟨k0, fun k hk0 => ?_⟩, fun m hm => ?_⟩
    · obtain ⟨rx', out, hrun, hret⟩ := hb k hk0
      rw [List.cons_append, absorbAll_cons h] at hrun
      obtain ⟨out', rfl, hrun⟩ := hrun
      exact ⟨rx', out', hrun, by rwa [returned_cons_other hr] at hret⟩
    · obtain ⟨rx', out, hrun, hsplit⟩ := hk (m + 1) (by simpa using hm)
      rw [List.take_succ_cons, absorbAll_cons h] at hrun
      obtain ⟨out', rfl, hrun⟩ := hrun
      refine ⟨rx', out', hrun, ?_⟩
      rw [returned_cons_other hr] at hsplit
      simpa using hsplit
  · rintro ⟨⟨k0, hb⟩, hk⟩
    refine ⟨⟨k0, fun k hk0 => ?_⟩, fun m hm => ?_⟩
    · obtain ⟨rx', out, hrun, hret⟩ := hb k hk0
      refine ⟨rx', r :: out, ?_, by rw [returned_cons_other hr, hret]⟩
      rw [List.cons_append, absorbAll_cons h]
      exact ⟨out, rfl, hrun⟩
    · cases m with
      | zero => exact ⟨rx, [], rfl, by simp [stream, returned]⟩
      | succ m =>
          obtain ⟨rx', out, hrun, hsplit⟩ := hk m (by simpa using hm)
          refine ⟨rx', r :: out, ?_, ?_⟩
          · rw [List.take_succ_cons, absorbAll_cons h]
            exact ⟨out, rfl, hrun⟩
          · rw [returned_cons_other hr]
            simpa using hsplit

/-- A first chunk that ends the first response. -/
theorem losslessFrom_cons_body {rx p : Bytes} {resp : Response} {rs : List Response}
    {ps : List Bytes} (hp : rx ++ p = resp.bytes)
    (h : settle (rx ++ p) = .ok ([], .ok (some resp.body))) :
    LosslessFrom rx (resp :: rs) (p :: ps) ↔ LosslessFrom [] rs ps := by
  constructor
  · rintro ⟨⟨k0, hb⟩, hk⟩
    refine ⟨⟨k0, fun k hk0 => ?_⟩, fun m hm => ?_⟩
    · obtain ⟨rx', out, hrun, hret⟩ := hb k hk0
      rw [List.cons_append, absorbAll_cons h] at hrun
      obtain ⟨out', rfl, hrun⟩ := hrun
      rw [returned_cons_body, List.map_cons, List.cons.injEq] at hret
      exact ⟨rx', out', hrun, hret.2⟩
    · obtain ⟨rx', out, hrun, hsplit⟩ := hk (m + 1) (by simpa using hm)
      rw [List.take_succ_cons, absorbAll_cons h] at hrun
      obtain ⟨out', rfl, hrun⟩ := hrun
      refine ⟨rx', out', hrun, ?_⟩
      rw [returned_cons_body, List.length_cons, List.take_succ_cons, List.take_succ_cons,
        List.flatten_cons, ← List.append_assoc, hp, stream, List.map_cons, List.flatten_cons,
        List.append_assoc] at hsplit
      exact List.append_cancel_left hsplit
  · rintro ⟨⟨k0, hb⟩, hk⟩
    refine ⟨⟨k0, fun k hk0 => ?_⟩, fun m hm => ?_⟩
    · obtain ⟨rx', out, hrun, hret⟩ := hb k hk0
      refine ⟨rx', .ok (some resp.body) :: out, ?_, by rw [returned_cons_body, hret]; rfl⟩
      rw [List.cons_append, absorbAll_cons h]
      exact ⟨out, rfl, hrun⟩
    · cases m with
      | zero => exact ⟨rx, [], rfl, by simp [stream, returned]⟩
      | succ m =>
          obtain ⟨rx', out, hrun, hsplit⟩ := hk m (by simpa using hm)
          refine ⟨rx', .ok (some resp.body) :: out, ?_, ?_⟩
          · rw [List.take_succ_cons, absorbAll_cons h]
            exact ⟨out, rfl, hrun⟩
          · rw [returned_cons_body, List.length_cons, List.take_succ_cons, List.take_succ_cons,
              List.flatten_cons, ← List.append_assoc, hp, stream, List.map_cons, List.flatten_cons,
              List.append_assoc]
            exact congrArg (resp.bytes ++ ·) hsplit

/-! ## Lossless exactly when aligned -/

theorem stream_cons (r : Response) (rs : List Response) : stream (r :: rs) = r.bytes ++ stream rs :=
  rfl

/-- The responses of a stream: well formed, and none above the limit. -/
def Servable (rs : List Response) : Prop :=
  ∀ r ∈ rs, r.WellFormed ∧ r.bytes.length ≤ maxResponse

theorem lt_of_le_maxResponse {n : Nat} (h : n ≤ maxResponse) : n < 2 ^ 64 := by
  have : maxResponse < 2 ^ 64 := by decide
  omega

/-- The first response is not in the buffer yet, so it can only end after the first chunk. -/
theorem alignedFrom_tail {rx p : Bytes} {r : Response} {rs : List Response} {ps : List Bytes}
    (hrx : rx.length < r.bytes.length) (h : AlignedFrom rx (r :: rs) (p :: ps)) (k : Nat)
    (hk : k ≤ rs.length) :
    ∃ m, m ≤ ps.length ∧ (rx ++ p) ++ (ps.take m).flatten = r.bytes ++ stream (rs.take k) := by
  obtain ⟨m, hm, heq⟩ := h (k + 1) (by omega) (by simpa using hk)
  rw [List.take_succ_cons, stream_cons] at heq
  cases m with
  | zero =>
      have hlen := congrArg List.length heq
      simp only [List.take_zero, List.flatten_nil, List.append_nil, List.length_append] at hlen
      omega
  | succ m =>
      refine ⟨m, by simpa using hm, ?_⟩
      rw [← heq, List.take_succ_cons, List.flatten_cons, List.append_assoc]

/-- Aligned chunks lose nothing. The buffer always holds a proper piece of the next response, and a
body comes out exactly when that response is complete and nothing else is there. -/
theorem losslessFrom_of_aligned (ps : List Bytes) (rx : Bytes) (rs : List Response)
    (hrs : Servable rs) (hsplit : rx ++ ps.flatten = stream rs)
    (hrx : ∀ r ∈ rs.head?, rx.length < r.bytes.length) (h : AlignedFrom rx rs ps) :
    LosslessFrom rx rs ps := by
  induction ps generalizing rx rs with
  | nil =>
      rw [List.flatten_nil, List.append_nil] at hsplit
      cases rs with
      | nil =>
          subst hsplit
          refine ⟨⟨0, fun k _ => ?_⟩, fun m _ => ⟨[], [], by simp [absorbAll, stream], by simp⟩⟩
          obtain ⟨out, hout, hret⟩ := absorbAll_idles k
          exact ⟨[], out, hout, hret⟩
      | cons r rs =>
          have hlt := hrx r rfl
          rw [hsplit, stream_cons, List.length_append] at hlt
          omega
  | cons p ps ih =>
      rw [List.flatten_cons, ← List.append_assoc] at hsplit
      cases rs with
      | nil =>
          have hnil : rx ++ p = [] := (List.append_eq_nil_iff.mp hsplit).1
          have hset : settle (rx ++ p) = .ok (rx ++ p, .ok none) := by rw [hnil, settle_empty]
          rw [losslessFrom_cons_other (by simp) hset]
          exact ih (rx ++ p) [] hrs hsplit (by simp) (fun k h1 h2 => by simp at h2; omega)
      | cons r rs =>
          have hlt := hrx r rfl
          obtain ⟨hwf, hmax⟩ := hrs r (by simp)
          have hshort := lt_of_le_maxResponse hmax
          have htail := alignedFrom_tail hlt h
          obtain ⟨m0, hm0, hfirst⟩ := htail 0 (by omega)
          rw [List.take_zero, show stream [] = [] from rfl, List.append_nil] at hfirst
          -- either the first response ends with this chunk, or more of it is to come
          by_cases hmore : (ps.take m0).flatten = []
          · rw [hmore, List.append_nil] at hfirst
            have hset : settle (rx ++ p) = .ok ([], .ok (some r.body)) := by
              refine settle_some ?_
              have hfull := hwf.bodyIfComplete_full hshort []
              rwa [List.append_nil, ← hfirst] at hfull
            rw [losslessFrom_cons_body hfirst hset]
            rw [hfirst, stream_cons] at hsplit
            refine ih [] rs (fun r' hr' => hrs r' (by simp [hr'])) (List.append_cancel_left hsplit)
              (fun r' hr' => (hrs r' ?_).1.bytes_pos) (fun k h1 h2 => ?_)
            · exact List.mem_cons_of_mem r (List.mem_of_mem_head? hr')
            · obtain ⟨m, hm, heq⟩ := htail k h2
              rw [hfirst] at heq
              exact ⟨m, hm, List.append_cancel_left heq⟩
          · have hlen := congrArg List.length hfirst
            have hpos := List.length_pos_iff.mpr hmore
            rw [List.length_append] at hlen
            have hset : settle (rx ++ p) = .ok (rx ++ p, .ok none) :=
              settle_none (hwf.bodyIfComplete_partial hshort hfirst.symm hmore) (by omega)
            rw [losslessFrom_cons_other (by simp) hset]
            refine ih (rx ++ p) (r :: rs) hrs hsplit (fun r' hr' => ?_) (fun k h1 h2 => ?_)
            · rw [List.head?_cons, Option.mem_some] at hr'
              subst hr'
              omega
            · obtain ⟨k, rfl⟩ : ∃ k', k = k' + 1 := ⟨k - 1, by omega⟩
              exact htail k (by simpa using h2)

/-- What a whole stream left in the buffer gives: its first body, and nothing after it. -/
theorem absorbAll_stream {r : Response} {rs : List Response} (hwf : r.WellFormed)
    (hshort : r.bytes.length < 2 ^ 64) (k : Nat) :
    ∃ out, absorbAll (stream (r :: rs)) (List.replicate (k + 1) []) = .ok ([], out) ∧
      returned out = [r.body] := by
  obtain ⟨out, hout, hret⟩ := absorbAll_idles k
  refine ⟨.ok (some r.body) :: out, ?_, by rw [returned_cons_body, hret]⟩
  have hset : settle (stream (r :: rs) ++ []) = .ok ([], .ok (some r.body)) := by
    rw [List.append_nil, stream_cons]
    exact settle_some (hwf.bodyIfComplete_full hshort (stream rs))
  rw [List.replicate_succ, absorbAll_cons hset]
  exact ⟨out, rfl, hout⟩

/-- A chunk that ends with the first response, before aligned chunks. -/
theorem AlignedFrom.cons_body {rx p : Bytes} {r : Response} {rs : List Response} {ps : List Bytes}
    (hp : rx ++ p = r.bytes) (h : AlignedFrom [] rs ps) : AlignedFrom rx (r :: rs) (p :: ps) := by
  intro k h1 h2
  obtain ⟨k, rfl⟩ : ∃ k', k = k' + 1 := ⟨k - 1, by omega⟩
  rw [List.take_succ_cons, stream_cons]
  cases k with
  | zero => exact ⟨1, by simp, by simp [hp, stream]⟩
  | succ k =>
      obtain ⟨m, hm, heq⟩ := h (k + 1) (by omega) (by simpa using h2)
      refine ⟨m + 1, by simpa using hm, ?_⟩
      rw [List.take_succ_cons, List.flatten_cons, ← List.append_assoc, hp, ← heq, List.nil_append]

/-- A chunk that stays in the buffer. -/
theorem AlignedFrom.cons_other {rx p : Bytes} {rs : List Response} {ps : List Bytes}
    (h : AlignedFrom (rx ++ p) rs ps) : AlignedFrom rx rs (p :: ps) := by
  intro k h1 h2
  obtain ⟨m, hm, heq⟩ := h k h1 h2
  refine ⟨m + 1, by simpa using hm, ?_⟩
  rw [List.take_succ_cons, List.flatten_cons, ← List.append_assoc, heq]

/-- Lossless delivery needs aligned chunks: a body that comes out empties the buffer, so nothing of
the next response may be in it. -/
theorem aligned_of_losslessFrom (ps : List Bytes) (rx : Bytes) (rs : List Response)
    (hrs : Servable rs) (hsplit : rx ++ ps.flatten = stream rs) (h : LosslessFrom rx rs ps) :
    AlignedFrom rx rs ps := by
  induction ps generalizing rx rs with
  | nil =>
      rw [List.flatten_nil, List.append_nil] at hsplit
      cases rs with
      | nil => exact fun k h1 h2 => by simp at h2; omega
      | cons r rs =>
          obtain ⟨k0, hb⟩ := h.bodies
          obtain ⟨rx', out, hrun, hret⟩ := hb (k0 + 1) (by omega)
          obtain ⟨hwf, hmax⟩ := hrs r (by simp)
          obtain ⟨out', hrun', hret'⟩ :=
            @absorbAll_stream r rs hwf (lt_of_le_maxResponse hmax) k0
          rw [List.nil_append, hsplit, hrun'] at hrun
          obtain ⟨-, rfl⟩ : [] = rx' ∧ out' = out := by simpa using hrun
          rw [hret', List.map_cons, List.cons.injEq] at hret
          obtain rfl : rs = [] := by simpa using hret.2
          intro k h1 h2
          obtain rfl : k = 1 := by
            rw [List.length_singleton] at h2
            omega
          exact ⟨0, by omega, by simpa using hsplit⟩
  | cons p ps ih =>
      rw [List.flatten_cons, ← List.append_assoc] at hsplit
      obtain ⟨rx1, out1, hrun1, hkept1⟩ := h.kept 1 (by simp)
      rw [List.take_succ_cons, List.take_zero] at hrun1 hkept1
      obtain ⟨⟨rx', r0⟩, hset, -⟩ := bind_eq_ok.mp (by rwa [absorbAll] at hrun1)
      rcases settle_cases hset with ⟨body, rfl, rfl⟩ | ⟨hother, rfl⟩
      · -- a body came out: what was received so far is the first response and no more
        rw [absorbAll_cons hset] at hrun1
        obtain ⟨out', rfl, hnil⟩ := hrun1
        obtain ⟨rfl, rfl⟩ : [] = rx1 ∧ [] = out' := by simpa [absorbAll] using hnil
        obtain ⟨k0, hb⟩ := h.bodies
        obtain ⟨rx2, out2, hrun2, hret⟩ := hb k0 (le_refl k0)
        rw [List.cons_append, absorbAll_cons hset] at hrun2
        obtain ⟨out2, rfl, -⟩ := hrun2
        rw [returned_cons_body] at hret
        cases rs with
        | nil => simp at hret
        | cons r rs =>
            rw [List.map_cons, List.cons.injEq] at hret
            have hp : rx ++ p = r.bytes := by
              simpa [returned_cons_body, returned, stream] using hkept1
            rw [hret.1] at hset
            rw [losslessFrom_cons_body hp hset] at h
            rw [hp, stream_cons] at hsplit
            exact .cons_body hp (ih [] rs (fun r' hr' => hrs r' (by simp [hr']))
              (List.append_cancel_left hsplit) h)
      · rw [losslessFrom_cons_other hother hset] at h
        exact .cons_other (ih (rx ++ p) rs hrs hsplit h)

/-! ## The engine -/

/-- The calls on `cs`, followed by enough calls without input, return the bodies of `rs` in order,
each once; and after every call the plaintext received so far is the responses returned so far,
followed by what is in `rxPlain`. -/
structure Lossless {T : Type} (api : Tls T) (e : HttpEngine T) (rs : List Response)
    (cs ps : List Bytes) : Prop where
  bodies : ∃ k0, ∀ k, k0 ≤ k → ∃ e' out,
    e.ingestAll api (cs ++ List.replicate k []) = .ok (e', out) ∧
      returned out = rs.map Response.body
  kept : ∀ m, m ≤ cs.length → ∃ e' out, e.ingestAll api (cs.take m) = .ok (e', out) ∧
    (ps.take m).flatten = stream (rs.take (returned out).length) ++ e'.rxPlain

/-- Every response ends where a chunk ends. -/
def Aligned (rs : List Response) (ps : List Bytes) : Prop :=
  ∀ k, k ≤ rs.length → ∃ m, m ≤ ps.length ∧ (ps.take m).flatten = stream (rs.take k)

theorem aligned_iff_alignedFrom (rs : List Response) (ps : List Bytes) :
    Aligned rs ps ↔ AlignedFrom [] rs ps := by
  constructor
  · exact fun h k _ hk => h k hk
  · intro h k hk
    rcases Nat.eq_zero_or_pos k with rfl | hpos
    · exact ⟨0, by omega, rfl⟩
    · exact h k hpos hk

theorem HttpEngine.ingestAll_eq_ok_iff {T : Type} {api : Tls T} {cs ps : List Bytes}
    {e : HttpEngine T} {rx0 : Bytes} (he : e.rxPlain = rx0) (h : Delivers api e.tls cs ps)
    (rx : Bytes) (out : List (Except TransportError (Option Bytes))) :
    (∃ e', e.ingestAll api cs = .ok (e', out) ∧ e'.rxPlain = rx) ↔
      absorbAll rx0 ps = .ok (rx, out) := by
  rw [← he, ← HttpEngine.ingestAll_eq h e rfl]
  cases e.ingestAll api cs with
  | error x => simp [Except.map]
  | ok v =>
      obtain ⟨e', out'⟩ := v
      simp only [Except.map, Except.ok.injEq, Prod.mk.injEq]
      constructor
      · rintro ⟨_, ⟨rfl, rfl⟩, rfl⟩
        exact ⟨rfl, rfl⟩
      · rintro ⟨rfl, rfl⟩
        exact ⟨e', ⟨rfl, rfl⟩, rfl⟩

theorem lossless_iff_losslessFrom {T : Type} {api : Tls T} {e : HttpEngine T} {rs : List Response}
    {cs ps : List Bytes} (he : e.rxPlain = []) (hd : Delivers api e.tls cs ps) :
    Lossless api e rs cs ps ↔ LosslessFrom [] rs ps := by
  constructor
  · rintro ⟨⟨k0, hb⟩, hk⟩
    refine ⟨⟨k0, fun k hk0 => ?_⟩, fun m hm => ?_⟩
    · obtain ⟨e', out, hrun, hret⟩ := hb k hk0
      exact ⟨e'.rxPlain, out,
        (HttpEngine.ingestAll_eq_ok_iff he (hd.append_idles k) _ out).mp ⟨e', hrun, rfl⟩, hret⟩
    · obtain ⟨e', out, hrun, hsplit⟩ := hk m (by rwa [hd.length_eq])
      exact ⟨e'.rxPlain, out,
        (HttpEngine.ingestAll_eq_ok_iff he (hd.take m) _ out).mp ⟨e', hrun, rfl⟩, hsplit⟩
  · rintro ⟨⟨k0, hb⟩, hk⟩
    refine ⟨⟨k0, fun k hk0 => ?_⟩, fun m hm => ?_⟩
    · obtain ⟨rx', out, hrun, hret⟩ := hb k hk0
      obtain ⟨e', hrun, -⟩ :=
        (HttpEngine.ingestAll_eq_ok_iff he (hd.append_idles k) rx' out).mpr hrun
      exact ⟨e', out, hrun, hret⟩
    · obtain ⟨rx', out, hrun, hsplit⟩ := hk m (by rwa [← hd.length_eq])
      obtain ⟨e', hrun', rfl⟩ :=
        (HttpEngine.ingestAll_eq_ok_iff he (hd.take m) rx' out).mpr hrun
      exact ⟨e', out, hrun', hsplit⟩

theorem losslessFrom_iff_aligned {rs : List Response} {ps : List Bytes} (hrs : Servable rs)
    (hsplit : ps.flatten = stream rs) : LosslessFrom [] rs ps ↔ Aligned rs ps := by
  rw [aligned_iff_alignedFrom]
  constructor
  · exact aligned_of_losslessFrom ps [] rs hrs hsplit
  · refine losslessFrom_of_aligned ps [] rs hrs hsplit (fun r hr => ?_)
    exact (hrs r (List.mem_of_mem_head? hr)).1.bytes_pos

/-- **Pipelined responses.** Over any TLS session that delivers the chunks `ps`, an engine with an
empty buffer loses nothing of the responses `rs` exactly when every response ends where a chunk
ends. -/
theorem ingest_lossless_iff {T : Type} (api : Tls T) (e : HttpEngine T) (rs : List Response)
    (cs ps : List Bytes) (hrs : Servable rs) (he : e.rxPlain = [])
    (hd : Delivers api e.tls cs ps) (hsplit : ps.flatten = stream rs) :
    Lossless api e rs cs ps ↔ Aligned rs ps := by
  rw [lossless_iff_losslessFrom he hd]
  exact losslessFrom_iff_aligned hrs hsplit

/-- A session that passes octets through unchanged; its state is what it has yet to hand out. -/
def plainTls : Tls Bytes where
  writeAll t frame := (t ++ frame, .ok ())
  writeTls t := ([], t)
  readTls t cipher := (t ++ cipher, .ok cipher.length)
  processNewPackets t := (t, .ok ())
  readPlain t := ([], t, none)

theorem plainTls_feed (c : Bytes) : plainTls.feed [] c = ([], c, none) := by
  cases c with
  | nil => rfl
  | cons b c =>
      unfold Tls.feed
      rw [List.length_cons, Tls.readLoop]
      simp only [plainTls, List.length_cons, reduceCtorEq, if_false, Nat.add_eq_zero_iff, one_ne_zero,
        and_false, List.nil_append]
      rw [show (b :: c).drop (c.length + 1) = [] from List.drop_length]
      cases c <;> rfl

theorem plainTls_delivers (cs : List Bytes) : Delivers plainTls [] cs cs := by
  induction cs with
  | nil => exact .nil
  | cons c cs ih =>
      by_cases hc : c = []
      · subst hc
        exact .idle ih
      · exact .chunk hc (plainTls_feed c) ih

/-- `HTTP/1.1 200 OK` with a two-byte body. -/
def okResponse : Response where
  header := utf8 "HTTP/1.1 200 OK\r\nContent-Length: 2\r\n\r\n"
  body := utf8 "\x7b\x7d"

theorem okResponse_servable (n : Nat) : Servable (List.replicate n okResponse) := by
  intro r hr
  obtain rfl := List.eq_of_mem_replicate hr
  refine ⟨⟨by decide +kernel, ?_⟩, by decide⟩
  exact ⟨"HTTP/1.1 200 OK\r\nContent-Length: 2\r\n\r\n".toList, rfl, by decide +kernel⟩

/-- Two responses that arrive in one chunk: the second is lost. -/
theorem ingest_drops_second :
    Servable [okResponse, okResponse] ∧
      Delivers plainTls (HttpEngine.new [] bareTemplate).tls [stream [okResponse, okResponse]]
        [stream [okResponse, okResponse]] ∧
      ¬ Lossless plainTls (HttpEngine.new [] bareTemplate) [okResponse, okResponse]
        [stream [okResponse, okResponse]] [stream [okResponse, okResponse]] := by
  have hserv : Servable [okResponse, okResponse] := okResponse_servable 2
  have hd := plainTls_delivers [stream [okResponse, okResponse]]
  refine ⟨hserv, hd, ?_⟩
  rw [lossless_iff_losslessFrom rfl hd, losslessFrom_iff_aligned hserv (by simp)]
  intro h
  obtain ⟨m, hm, heq⟩ := h 1 (by decide)
  have hm' : m = 0 ∨ m = 1 := by
    rw [List.length_singleton] at hm
    omega
  rcases hm' with rfl | rfl
  · exact absurd heq (by decide)
  · exact absurd heq (by decide)

/-- Two responses, the first of them cut in two chunks. -/
theorem ingest_lossless_iff_split :
    Lossless plainTls (HttpEngine.new [] bareTemplate) [okResponse, okResponse]
      [okResponse.bytes.take 20, okResponse.bytes.drop 20, okResponse.bytes]
      [okResponse.bytes.take 20, okResponse.bytes.drop 20, okResponse.bytes] := by
  have haligned : Aligned [okResponse, okResponse]
      [okResponse.bytes.take 20, okResponse.bytes.drop 20, okResponse.bytes] := by
    intro k hk
    have hk' : k = 0 ∨ k = 1 ∨ k = 2 := by
      rw [show [okResponse, okResponse].length = 2 from rfl] at hk
      omega
    rcases hk' with rfl | rfl | rfl
    · exact ⟨0, by decide, rfl⟩
    · exact ⟨2, by decide, by decide⟩
    · exact ⟨3, by decide, by decide⟩
  apply (ingest_lossless_iff plainTls (HttpEngine.new [] bareTemplate) [okResponse, okResponse] _ _
    (okResponse_servable 2) rfl (plainTls_delivers _) (by decide)).mpr
  exact haligned

end TxSender.Http
