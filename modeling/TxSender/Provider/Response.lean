/-
# TxSender.Provider.Response — reading a JSON-RPC answer by substring search.

`JsonRpcCodec` does not parse: it looks for `"result"`, takes the next colon and the quoted text
behind it. On a well-formed object that text is the top-level result only if the first mention of
the word leads to it (`parse_honest_iff`).
-/
import TxSender.Lib.JsonScan
import TxSender.Sink

namespace TxSender.Provider

open TxSender.Lib
open TxSender.Lib.Search
open TxSender.Lib.Json

/-! ## The codec -/

/-- The text behind the first `"key"`. Offsets count characters here, octets in the source; both
cut at the same places. -/
def afterKey (body : Bytes) (key : String) : Option (List Char) := do
  let text ← decodeUtf8 body
  let needle := quotedWord key.toList
  let keyPos ← find needle text
  pure (text.drop (keyPos + needle.length))

/-- The text behind the first colon, without white space at its start. -/
def afterColon (after : List Char) : Option (List Char) := do
  let colon ← find [':'] after
  pure (trimStart (after.drop (colon + 1)))

/-- `rest.strip_prefix('"')`, then up to the next quote. -/
def quotedPrefix : List Char → Option (List Char)
  | '"' :: rest => do
      let stop ← find ['"'] rest
      pure (rest.take stop)
  | _ => none

def jsonStringAfter (body : Bytes) (key : String) : Option String := do
  let after ← afterKey body key
  let rest ← afterColon after
  let value ← quotedPrefix rest
  pure (String.ofList value)

def jsonI64After (body : Bytes) (key : String) : Option Int := do
  let after ← afterKey body key
  let rest ← afterColon after
  parseI64 (rest.takeWhile fun c => c.isDigit || c == '-')

/-- `JsonRpcCodec::parse` -/
def jsonRpcParse (body : Bytes) : OutcomeKind :=
  match jsonStringAfter body "result" with
  | some sig => .accepted sig
  | none =>
      if (find (utf8 "\"error\"") body).isSome then
        .rejected ((jsonI64After body "code").getD 0) ((jsonStringAfter body "message").getD "")
      else .noResponse

theorem jsonRpcParse_accepted_iff {body : Bytes} {sig : String} :
    jsonRpcParse body = .accepted sig ↔ jsonStringAfter body "result" = some sig := by
  unfold jsonRpcParse
  cases jsonStringAfter body "result" with
  | some s => simp
  | none =>
      simp only [reduceCtorEq, iff_false]
      split <;> simp

/-! ## The search on a text -/

theorem find_char_split {c : Char} {l : List Char} {i : Nat} (h : find [c] l = some i) :
    l = l.take i ++ c :: l.drop (i + 1) ∧ c ∉ l.take i := by
  obtain ⟨⟨pre, post, rfl, rfl⟩, hmin⟩ := find_eq_some_iff.mp h
  have htake : (pre ++ ([c] ++ post)).take pre.length = pre := List.take_left
  have hdrop : (pre ++ ([c] ++ post)).drop (pre.length + 1) = post := by simp
  rw [htake, hdrop]
  refine ⟨rfl, fun hmem => ?_⟩
  obtain ⟨a, b, rfl⟩ := List.append_of_mem hmem
  exact hmin a.length (by simp) ⟨a, b ++ ([c] ++ post), by simp, rfl⟩

theorem find_char_of_split {c : Char} {a b : List Char} (h : c ∉ a) :
    find [c] (a ++ c :: b) = some a.length := by
  refine find_eq_some_iff.mpr ⟨⟨a, b, rfl, rfl⟩, fun j hj hocc => ?_⟩
  obtain ⟨pre, post, heq, rfl⟩ := hocc
  rw [List.singleton_append] at heq
  have hpre : c ∉ pre := by
    intro hmem
    have htake := congrArg (List.take pre.length) heq
    rw [List.take_append_of_le_length (by omega), List.take_left] at htake
    exact h (List.mem_of_mem_take (htake ▸ hmem))
  have := (split_unique heq h hpre).1
  rw [this] at hj
  omega

theorem quotedPrefix_eq_some_iff {l q : List Char} :
    quotedPrefix l = some q ↔ ∃ rest, l = '"' :: (q ++ '"' :: rest) ∧ '"' ∉ q := by
  constructor
  · intro h
    unfold quotedPrefix at h
    split at h
    · rename_i rest
      obtain ⟨stop, hstop, hq⟩ := Option.bind_eq_some_iff.mp h
      obtain rfl : rest.take stop = q := by simpa using hq
      obtain ⟨hsplit, hnot⟩ := find_char_split hstop
      exact ⟨rest.drop (stop + 1), congrArg ('"' :: ·) hsplit, hnot⟩
    · simp at h
  · rintro ⟨rest, rfl, hq⟩
    simp [quotedPrefix, find_char_of_split hq]

/-- The two searches behind the key find what `Quoted` describes. -/
theorem afterColon_quotedPrefix_iff {l q : List Char} :
    (afterColon l).bind quotedPrefix = some q ↔ Quoted l q := by
  constructor
  · intro h
    obtain ⟨r, hr, hq⟩ := Option.bind_eq_some_iff.mp h
    obtain ⟨colon, hcolon, hr⟩ := Option.bind_eq_some_iff.mp hr
    obtain ⟨hsplit, hnot⟩ := find_char_split hcolon
    obtain ⟨rest, hrest, hnoquote⟩ := quotedPrefix_eq_some_iff.mp hq
    obtain rfl : trimStart (l.drop (colon + 1)) = r := by simpa using hr
    refine ⟨l.take colon, (l.drop (colon + 1)).takeWhile isWhitespace, rest, ?_, hnot, ?_,
      hnoquote⟩
    · rw [← hrest, trimStart, List.takeWhile_append_dropWhile]
      exact hsplit
    · exact fun c hc => List.mem_takeWhile_imp hc
  · rintro ⟨a, w, rest, rfl, ha, hw, hq⟩
    refine Option.bind_eq_some_iff.mpr ⟨'"' :: (q ++ '"' :: rest), ?_,
      quotedPrefix_eq_some_iff.mpr ⟨rest, rfl, hq⟩⟩
    have hdrop : (a ++ ':' :: (w ++ '"' :: (q ++ '"' :: rest))).drop (a.length + 1) =
        w ++ '"' :: (q ++ '"' :: rest) := by
      simp
    have hquote : isWhitespace '"' = false := by decide
    simp only [afterColon, find_char_of_split ha, Option.bind_eq_bind, Option.bind_some, hdrop,
      trimStart, List.dropWhile_append_of_pos hw, Option.pure_def, Option.some.injEq]
    rw [List.dropWhile_cons_of_neg (by simp [hquote])]

/-- The key searched for, as a word of a text. -/
theorem resultWord : Word "result".toList := ⟨by decide, by decide, by decide⟩

/-- On the text of an object, the search reads what stands behind the first mention of the key. -/
theorem jsonStringAfter_result_iff (o : ObjectText) (sig : String) :
    jsonStringAfter (encodeUtf8 o.text) "result" = some sig ↔
      ∃ post, afterMention "result".toList o.toks = some post ∧ Quoted (text post) sig.toList := by
  have hkey : afterKey (encodeUtf8 o.text) "result" =
      (afterMention "result".toList o.toks).map text := by
    rw [← find_word resultWord o.toks o.bare]
    · rw [afterKey, decodeUtf8_encodeUtf8]
      simp only [Option.bind_eq_bind, Option.bind_some, Option.pure_def]
      exact Option.map_eq_bind.symm
    · intro c hc
      obtain rfl : 'r' = c := by simpa using hc
      exact o.spaced (by decide)
  have hread : jsonStringAfter (encodeUtf8 o.text) "result" =
      ((afterMention "result".toList o.toks).bind fun post =>
        (afterColon (text post)).bind quotedPrefix).map String.ofList := by
    rw [jsonStringAfter, hkey]
    cases afterMention "result".toList o.toks with
    | none => rfl
    | some post =>
        simp only [Option.map_some, Option.bind_eq_bind, Option.bind_some, Option.pure_def]
        cases afterColon (text post) with
        | none => rfl
        | some rest => cases hq : quotedPrefix rest <;> simp [hq]
  rw [hread, Option.map_eq_some_iff]
  constructor
  · rintro ⟨q, hq, rfl⟩
    obtain ⟨post, hpost, hq⟩ := Option.bind_eq_some_iff.mp hq
    refine ⟨post, hpost, ?_⟩
    rw [String.toList_ofList]
    exact afterColon_quotedPrefix_iff.mp hq
  · rintro ⟨post, hpost, hq⟩
    refine ⟨sig.toList, ?_, String.ofList_toList⟩
    rw [hpost, Option.bind_some]
    exact afterColon_quotedPrefix_iff.mpr hq

theorem bare_afterMention {w : List Char} {ts post : List Tok} (hbare : Bare ts)
    (h : afterMention w ts = some post) : Bare post := by
  induction ts with
  | nil => simp [afterMention] at h
  | cons t ts ih =>
      cases t with
      | punct c => exact ih hbare.tail h
      | str s =>
          rw [afterMention] at h
          split at h
          · obtain rfl : ts = post := by simpa using h
            exact hbare.tail
          · exact ih hbare.tail h

/-! ## When an acceptance can be believed -/

/-- A top-level member of this name. -/
def HasMember (o : ObjectText) (name : String) (v : Value) : Prop :=
  ∃ n, (n, v) ∈ o.list ∧ denote n = some name.toList

/-- Some top-level `result` member is the string `q`. -/
def ResultDenotes (o : ObjectText) (q : List Char) : Prop :=
  ∃ s, HasMember o "result" (.str s) ∧ denote s = some q

/-- What an outcome may say about an object: an error without a result string is not accepted, and
an accepted signature is the top-level result. -/
structure Honest (o : ObjectText) (kind : OutcomeKind) : Prop where
  error : (∃ v, HasMember o "error" v) → (¬ ∃ s, HasMember o "result" (.str s)) →
    ∀ sig, kind ≠ .accepted sig
  accepted : ∀ sig, kind = .accepted sig → ResultDenotes o sig.toList

/-- Behind the first literal that is, or ends in, `"result"`: a literal that follows the next colon
is the top-level result, written without a backslash. The other two clauses are accidents, in which
the wrong place happens to show the right text: the start of that literal, or the gap that follows a
literal ending in a colon, is what the top-level result stands for. -/
def WellAimed (o : ObjectText) : Prop :=
  ∀ post, afterMention "result".toList o.toks = some post →
    (∀ s, ValueBehind post s →
      (HasMember o "result" (.str s) ∧ Plain s) ∨ ResultDenotes o (upToQuote s)) ∧
    ∀ gap, GapBehind post gap → ResultDenotes o gap

theorem resultDenotes_of_plain {o : ObjectText} {s : Lit} (h : HasMember o "result" (.str s))
    (hs : Plain s) : ResultDenotes o (upToQuote s) :=
  ⟨s, h, by rw [upToQuote_of_plain hs, denote_of_plain hs]⟩

/-- **When the codec can be believed.** On the text of every well-formed object, the codec's outcome
is honest exactly when the first mention of `"result"` leads to the top-level result. -/
theorem parse_honest_iff (o : ObjectText) :
    Honest o (jsonRpcParse (encodeUtf8 o.text)) ↔ WellAimed o := by
  constructor
  · intro h post hpost
    have hread : ∀ q, Quoted (text post) q → ResultDenotes o q := by
      intro q hq
      have hacc := h.accepted (String.ofList q) (jsonRpcParse_accepted_iff.mpr
        ((jsonStringAfter_result_iff o _).mpr ⟨post, hpost, by rwa [String.toList_ofList]⟩))
      rwa [String.toList_ofList] at hacc
    have hbare := bare_afterMention o.bare hpost
    refine ⟨fun s hs => Or.inr (hread _ ?_), fun gap hgap => hread _ ?_⟩
    · exact (quoted_iff post hbare _).mpr (Or.inl ⟨s, hs, rfl⟩)
    · exact (quoted_iff post hbare _).mpr (Or.inr hgap)
  · intro h
    have haccepted : ∀ sig, jsonRpcParse (encodeUtf8 o.text) = .accepted sig →
        ResultDenotes o sig.toList := by
      intro sig hsig
      obtain ⟨post, hpost, hq⟩ :=
        (jsonStringAfter_result_iff o sig).mp (jsonRpcParse_accepted_iff.mp hsig)
      obtain ⟨hvalue, hgap⟩ := h post hpost
      rcases (quoted_iff post (bare_afterMention o.bare hpost) _).mp hq with ⟨s, hs, heq⟩ | hg
      · rw [heq]
        rcases hvalue s hs with ⟨hmem, hplain⟩ | haccident
        · exact resultDenotes_of_plain hmem hplain
        · exact haccident
      · exact hgap _ hg
    refine ⟨fun _ hno sig hsig => ?_, haccepted⟩
    obtain ⟨s, hs, -⟩ := haccepted sig hsig
    exact hno ⟨s, hs⟩

/-- `{"error":{"code":1,"data":{"result":"sig"}},"id":1}`: an error whose data mentions a result. -/
def nestedResult : ObjectText where
  before := []
  members := .inr (.more [] (plainLit "error") [] []
    (.obj (.more [] (plainLit "code") [] [] (.number ⟨false, [1], [], none, by decide, by decide⟩) []
      (.one [] (plainLit "data") [] []
        (.obj (.one [] (plainLit "result") [] [] (.str (plainLit "sig")) [])) []))) []
    (.one [] (plainLit "id") [] [] (.number ⟨false, [1], [], none, by decide, by decide⟩) []))
  after := []

/-- The codec accepts an error response. -/
theorem parse_accepts_error :
    nestedResult.text =
        "\x7b\"error\":\x7b\"code\":1,\"data\":\x7b\"result\":\"sig\"\x7d\x7d,\"id\":1\x7d".toList ∧
      jsonRpcParse (encodeUtf8 nestedResult.text) = .accepted "sig" ∧
      ¬ Honest nestedResult (jsonRpcParse (encodeUtf8 nestedResult.text)) := by
  have hacc : jsonRpcParse (encodeUtf8 nestedResult.text) = .accepted "sig" := by
    rw [jsonRpcParse_accepted_iff, jsonStringAfter, afterKey, decodeUtf8_encodeUtf8]
    decide +kernel
  refine ⟨by decide +kernel, hacc, fun h => ?_⟩
  obtain ⟨s, ⟨n, hmem, hname⟩, -⟩ := h.accepted "sig" hacc
  have hlist : nestedResult.list.map Prod.fst = [plainLit "error", plainLit "id"] := rfl
  have hn : n ∈ nestedResult.list.map Prod.fst := List.mem_map_of_mem hmem
  rw [hlist] at hn
  rcases List.mem_cons.mp hn with rfl | hn
  · exact absurd hname (by decide)
  · obtain rfl := List.mem_singleton.mp hn
    exact absurd hname (by decide)

end TxSender.Provider
