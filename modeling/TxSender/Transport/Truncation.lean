/-
# TxSender.Transport.Truncation — the codec reads at most `RESP_CAP` octets of a body.

A worker copies the first 1024 octets of a body into the response, and the lane parses the copy. What
the codec looks for is read by committed readers, so a cut behind it does not matter, as long as the
copy is still text: the codec converts the whole copy first, and a cut inside a character makes that
fail.
-/
import TxSender.Lib.Reader
import TxSender.Provider.Response
import TxSender.Transport.Event

namespace TxSender.Transport

open TxSender.Lib
open TxSender.Lib.Search
open TxSender.Lib.Json
open TxSender.Provider

/-! ## The codec's searches as readers -/

/-- To behind the colon that follows the first `"key"`. -/
def place (key : String) : Reader Char Unit :=
  andThen (beyond (quotedWord key.toList)) (beyond [':'])

/-- To behind the closing quote of the string at that place. -/
def readString (key : String) : Reader Char (List Char) :=
  andThen (place key) (skipWhile isWhitespace (andThen (exactly '"') (before '"')))

def codeChar (c : Char) : Bool := c.isDigit || c == '-'

/-- To behind the character that ends the number at that place. -/
def readCode (key : String) : Reader Char (List Char) :=
  andThen (place key) (skipWhile isWhitespace (token codeChar))

theorem committed_place (key : String) : Committed (place key) :=
  committed_andThen (committed_beyond (List.cons_ne_nil _ _)) (committed_beyond (List.cons_ne_nil _ _))

theorem committed_readString (key : String) : Committed (readString key) := by
  apply committed_andThen (committed_place key)
  apply committed_skipWhile
  exact committed_andThen (committed_exactly '"') (committed_before '"')

theorem committed_readCode (key : String) : Committed (readCode key) := by
  apply committed_andThen (committed_place key)
  exact committed_skipWhile _ (committed_token _)

theorem afterKey_eq {body : Bytes} {cs : List Char} (h : decodeUtf8 body = some cs) (key : String) :
    afterKey body key = (beyond (quotedWord key.toList) cs).map Prod.snd := by
  simp only [afterKey, h, beyond, Option.bind_eq_bind, Option.bind_some, Option.pure_def,
    Option.map_map]
  exact Option.map_eq_bind.symm

theorem afterColon_eq (l : List Char) :
    afterColon l = (beyond [':'] l).map fun r => trimStart r.2 := by
  simp only [afterColon, beyond, Option.bind_eq_bind, Option.pure_def, Option.map_map]
  exact Option.map_eq_bind.symm

theorem quotedPrefix_eq (l : List Char) :
    quotedPrefix l = (andThen (exactly '"') (before '"') l).map Prod.fst := by
  unfold quotedPrefix
  split
  next rest =>
    simp only [andThen, exactly, if_true, Option.bind_some, before, Option.map_map,
      Option.bind_eq_bind, Option.pure_def]
    exact Option.map_eq_bind.symm
  next hne =>
    cases l with
    | nil => rfl
    | cons c l =>
        have hc : c ≠ '"' := by
          rintro rfl
          exact hne l rfl
        simp only [andThen, exactly, if_neg hc, Option.bind_none, Option.map_none]

/-- The two searches of `json_string_after` and `json_i64_after` up to the colon. -/
theorem afterKey_afterColon_eq {body : Bytes} {cs : List Char} (h : decodeUtf8 body = some cs)
    (key : String) :
    (afterKey body key).bind afterColon = (place key cs).map fun r => trimStart r.2 := by
  rw [afterKey_eq h, place, andThen]
  cases beyond (quotedWord key.toList) cs with
  | none => rfl
  | some r => exact afterColon_eq r.2

theorem jsonStringAfter_eq {body : Bytes} {cs : List Char} (h : decodeUtf8 body = some cs)
    (key : String) :
    jsonStringAfter body key = (readString key cs).map fun r => String.ofList r.1 := by
  have hsplit : jsonStringAfter body key =
      (((afterKey body key).bind afterColon).bind quotedPrefix).map String.ofList := by
    rw [jsonStringAfter, Option.bind_assoc, Option.map_bind]
    cases afterKey body key with
    | none => rfl
    | some after =>
        cases hcolon : afterColon after with
        | none => simp [hcolon]
        | some rest =>
            simp only [hcolon, Option.bind_eq_bind, Option.bind_some, Function.comp, Option.pure_def]
            exact Option.map_eq_bind.symm
  rw [hsplit, afterKey_afterColon_eq h, readString, andThen]
  cases place key cs with
  | none => rfl
  | some r =>
      simp only [Option.map_some, Option.bind_some, quotedPrefix_eq, Option.map_map]
      rfl

theorem jsonI64After_eq {body : Bytes} {cs : List Char} (h : decodeUtf8 body = some cs)
    (key : String) :
    jsonI64After body key =
      (place key cs).bind fun r => parseI64 ((trimStart r.2).takeWhile codeChar) := by
  have hsplit : jsonI64After body key =
      ((afterKey body key).bind afterColon).bind fun r => parseI64 (r.takeWhile codeChar) := by
    rw [jsonI64After, Option.bind_assoc]
    rfl
  rw [hsplit, afterKey_afterColon_eq h, Option.bind_map]
  rfl

theorem jsonI64After_of_readCode {body : Bytes} {cs tok rest : List Char} {key : String}
    (h : decodeUtf8 body = some cs) (hread : readCode key cs = some (tok, rest)) :
    jsonI64After body key = parseI64 tok := by
  obtain ⟨r, hplace, htoken⟩ := Option.bind_eq_some_iff.mp hread
  rw [jsonI64After_eq h, hplace, Option.bind_some]
  unfold skipWhile token at htoken
  split at htoken
  next => cases htoken
  next => rw [← (Prod.mk.inj (Option.some.inj htoken)).1, trimStart]

/-! ## What has to lie before the cut -/

/-- All of the text but `rest` lies within the first `RESP_CAP` octets. -/
def Within (cs rest : List Char) : Prop :=
  (encodeUtf8 cs).length ≤ respCap + (encodeUtf8 rest).length

instance (cs rest : List Char) : Decidable (Within cs rest) := inferInstanceAs (Decidable (_ ≤ _))

/-- The key `"error"`, the code with the character that ends it, and the closing quote of the message,
where the body has them. -/
structure ErrorFits (body : Bytes) (cs : List Char) : Prop where
  key : ∃ i ∈ find (utf8 "\"error\"") body, i + (utf8 "\"error\"").length ≤ respCap
  code : place "code" cs = none ∨ ∃ r ∈ readCode "code" cs, Within cs r.2
  message : ∀ r ∈ readString "message" cs, Within cs r.2

/-- An accepted body with the closing quote of its signature before the cut, or a rejected one with
all the parts of its error. -/
def Fits (body : Bytes) (cs : List Char) : Prop :=
  (∃ sig, jsonRpcParse body = .accepted sig ∧ ∀ r ∈ readString "result" cs, Within cs r.2) ∨
    ∃ code message, jsonRpcParse body = .rejected code message ∧ ErrorFits body cs

/-! ## Reading the copy -/

theorem respBytes_of_le {body : Bytes} (h : body.length ≤ respCap) : respBytes body = body := by
  rw [respBytes, Nat.min_eq_left h, List.take_length]

theorem length_respBytes {body : Bytes} (h : respCap ≤ body.length) :
    (respBytes body).length = respCap := by
  rw [respBytes, Nat.min_eq_right h, List.length_take, Nat.min_eq_left h]

theorem prefix_respBytes (body : Bytes) : respBytes body <+: body := List.take_prefix _ _

/-- What the lane makes of a worker's response to a body. -/
theorem kind_parseOne_bodyResp (job : Job) (pid : ProviderId) (sent settled : Nat) (body : Bytes)
    (codec : Codec) :
    (parseOne (bodyResp job pid sent settled body) codec).kind = codec (respBytes body) := rfl

/-- A text that is cut at the cap. -/
structure Cut (cs p : List Char) : Prop where
  isPrefix : p <+: cs
  length : (encodeUtf8 p).length = respCap

/-- What lies before the cut is read from the cut text. -/
theorem Cut.read {β : Type} {f : Reader Char β} {cs p rest : List Char} {v : β} (h : Cut cs p)
    (hf : Committed f) (hread : f cs = some (v, rest)) (hwithin : Within cs rest) :
    ∃ rest', f p = some (v, rest') := by
  apply hf.read_of_cut hread
  rintro upto rfl
  apply prefix_of_length_encodeUtf8_le (List.prefix_append upto rest) h.isPrefix
  unfold Within at hwithin
  rw [encodeUtf8_append, List.length_append] at hwithin
  rw [h.length]
  omega

section
variable {body copy : Bytes} {cs p : List Char}

theorem Cut.jsonStringAfter_eq (h : Cut cs p) (hbody : decodeUtf8 body = some cs)
    (hcopy : decodeUtf8 copy = some p) {key : String}
    (hwithin : ∀ r ∈ readString key cs, Within cs r.2) :
    jsonStringAfter copy key = jsonStringAfter body key := by
  rw [Transport.jsonStringAfter_eq hbody, Transport.jsonStringAfter_eq hcopy]
  cases hread : readString key cs with
  | none => rw [(committed_readString key).none_of_cut hread h.isPrefix]
  | some r =>
      obtain ⟨rest', hrest'⟩ := h.read (committed_readString key) hread (hwithin r hread)
      rw [hrest']
      rfl

theorem Cut.jsonI64After_eq (h : Cut cs p) (hbody : decodeUtf8 body = some cs)
    (hcopy : decodeUtf8 copy = some p) {key : String}
    (hwithin : place key cs = none ∨ ∃ r ∈ readCode key cs, Within cs r.2) :
    jsonI64After copy key = jsonI64After body key := by
  obtain hnone | ⟨⟨tok, rest⟩, hread, hrest⟩ := hwithin
  · rw [Transport.jsonI64After_eq hbody, Transport.jsonI64After_eq hcopy, hnone,
      (committed_place key).none_of_cut hnone h.isPrefix]
  · obtain ⟨rest', hread'⟩ := h.read (committed_readCode key) hread hrest
    rw [jsonI64After_of_readCode hbody hread, jsonI64After_of_readCode hcopy hread']

theorem jsonRpcParse_eq_rejected_iff {code : Int} {message : String} :
    jsonRpcParse body = .rejected code message ↔
      jsonStringAfter body "result" = none ∧ (find (utf8 "\"error\"") body).isSome = true ∧
        (jsonI64After body "code").getD 0 = code ∧
        (jsonStringAfter body "message").getD "" = message := by
  unfold jsonRpcParse
  cases jsonStringAfter body "result" with
  | some sig => simp
  | none =>
      simp only [true_and]
      split
      next herror => simp [herror]
      next herror => simp [herror]

theorem find_error_respBytes (hkey : ∃ i ∈ find (utf8 "\"error\"") body,
      i + (utf8 "\"error\"").length ≤ respCap) :
    (find (utf8 "\"error\"") (respBytes body)).isSome = true := by
  obtain ⟨i, hi, hle⟩ := hkey
  have hocc := (find_eq_some_iff.mp hi).1
  have hin : OccursAt (utf8 "\"error\"") (respBytes body) i := by
    obtain ⟨rest, hrest⟩ := prefix_respBytes body
    rw [← hrest] at hocc
    apply hocc.of_append_right
    obtain hshort | hlong := Nat.le_total body.length respCap
    · rw [respBytes_of_le hshort]
      exact find_bound hi
    · rw [length_respBytes hlong]
      exact hle
  obtain ⟨k, hk, -⟩ := find_isSome_of_occursAt hin
  rw [hk]
  rfl

/-- A copy that is not text is never accepted, and all that is read from it is whether the key
`"error"` is there. -/
theorem jsonRpcParse_of_not_text (h : decodeUtf8 copy = none) :
    jsonRpcParse copy =
      if (find (utf8 "\"error\"") copy).isSome then .rejected 0 "" else .noResponse := by
  have hkey : ∀ key, afterKey copy key = none := by
    intro key
    rw [afterKey, h]
    rfl
  have hstring : ∀ key, jsonStringAfter copy key = none := by
    intro key
    rw [jsonStringAfter, hkey]
    rfl
  have hcode : ∀ key, jsonI64After copy key = none := by
    intro key
    rw [jsonI64After, hkey]
    rfl
  rw [jsonRpcParse, hstring, hstring, hcode]
  rfl

theorem Cut.jsonRpcParse_eq (h : Cut cs p) (hbody : decodeUtf8 body = some cs)
    (hcopy : decodeUtf8 (respBytes body) = some p) (hfits : Fits body cs) :
    jsonRpcParse (respBytes body) = jsonRpcParse body := by
  obtain ⟨sig, haccepted, hwithin⟩ | ⟨code, message, hrejected, hfits⟩ := hfits
  · rw [haccepted, jsonRpcParse_accepted_iff, h.jsonStringAfter_eq hbody hcopy hwithin]
    exact jsonRpcParse_accepted_iff.mp haccepted
  · rw [hrejected]
    obtain ⟨hresult, -, hcode, hmessage⟩ := jsonRpcParse_eq_rejected_iff.mp hrejected
    refine jsonRpcParse_eq_rejected_iff.mpr ⟨?_, find_error_respBytes hfits.key, ?_, ?_⟩
    · rw [Transport.jsonStringAfter_eq hbody, Option.map_eq_none_iff] at hresult
      rw [Transport.jsonStringAfter_eq hcopy,
        (committed_readString "result").none_of_cut hresult h.isPrefix]
      rfl
    · rw [h.jsonI64After_eq hbody hcopy hfits.code]
      exact hcode
    · rw [h.jsonStringAfter_eq hbody hcopy hfits.message]
      exact hmessage

/-- **When a truncated body is read as the whole one.** For every body that is text and whose outcome
lies before the cut, the outcome that a worker and the lane make of it is that of the whole body
exactly when the first `RESP_CAP` octets are text, or the whole body already gives a rejection with
code 0 and no message. -/
theorem truncated_outcome_iff (hbody : decodeUtf8 body = some cs) (hfits : Fits body cs) (job : Job)
    (pid : ProviderId) (sent settled : Nat) :
    (parseOne (bodyResp job pid sent settled body) jsonRpcParse).kind = jsonRpcParse body ↔
      (decodeUtf8 (respBytes body)).isSome = true ∨ jsonRpcParse body = .rejected 0 "" := by
  rw [kind_parseOne_bodyResp]
  obtain hshort | hlong := Nat.le_total body.length respCap
  · rw [respBytes_of_le hshort, hbody]
    simp
  · cases hcopy : decodeUtf8 (respBytes body) with
    | some p =>
        have hcut : Cut cs p := by
          refine ⟨prefix_of_encodeUtf8 ?_, ?_⟩
          · rw [← decodeUtf8_eq_some_iff.mp hcopy, ← decodeUtf8_eq_some_iff.mp hbody]
            exact prefix_respBytes body
          · rw [← decodeUtf8_eq_some_iff.mp hcopy]
            exact length_respBytes hlong
        rw [hcut.jsonRpcParse_eq hbody hcopy hfits]
        simp
    | none =>
        rw [jsonRpcParse_of_not_text hcopy]
        simp only [Option.isSome_none, Bool.false_eq_true, false_or]
        obtain ⟨sig, haccepted, -⟩ | ⟨code, message, -, hfits⟩ := hfits
        · rw [haccepted]
          split <;> simp
        · rw [if_pos (find_error_respBytes hfits.key)]
          exact eq_comm

end

/-- A rejection with more than `RESP_CAP` octets of data behind it. -/
def longError : List Char :=
  "\x7b\"error\":\x7b\"code\":-32002,\"message\":\"blockhash not found\",\"data\":\"".toList ++
    (List.replicate 1100 'a' ++ "\"\x7d\x7d".toList)

theorem truncated_outcome_long :
    respCap < (encodeUtf8 longError).length ∧
      (parseOne (bodyResp ⟨1, 0⟩ (ProviderId.ofIndex 0) 10 20 (encodeUtf8 longError))
        jsonRpcParse).kind = .rejected (-32002) "blockhash not found" := by
  have htext := decodeUtf8_encodeUtf8 longError
  have hparse : jsonRpcParse (encodeUtf8 longError) = .rejected (-32002) "blockhash not found" := by
    rw [jsonRpcParse_eq_rejected_iff, jsonStringAfter_eq htext, jsonStringAfter_eq htext,
      jsonI64After_eq htext]
    decide +kernel
  have hfits : Fits (encodeUtf8 longError) longError :=
    .inr ⟨_, _, hparse, by decide +kernel, by decide +kernel, by decide +kernel⟩
  refine ⟨by decide +kernel, ?_⟩
  rw [← hparse]
  apply (truncated_outcome_iff htext hfits ⟨1, 0⟩ (ProviderId.ofIndex 0) 10 20).mpr
  left
  rw [respBytes, decodeUtf8_take_isSome_iff]
  exact ⟨longError.take 1024, List.take_prefix _ _, by decide +kernel⟩

/-- An acceptance with a two-octet character at offset 1023. -/
def splitBefore : List Char :=
  "\x7b\"result\":\"sig\",\"logs\":\"".toList ++ List.replicate 999 'a'

def splitText : List Char := splitBefore ++ 'é' :: "\"\x7d".toList

/-- The signature lies before the cut, and the lane reports that there was no response. -/
theorem split_character_drops_signature :
    decodeUtf8 (encodeUtf8 splitText) = some splitText ∧ Fits (encodeUtf8 splitText) splitText ∧
      jsonRpcParse (encodeUtf8 splitText) = .accepted "sig" ∧
      (parseOne (bodyResp ⟨1, 0⟩ (ProviderId.ofIndex 0) 10 20 (encodeUtf8 splitText))
        jsonRpcParse).kind = .noResponse := by
  have htext := decodeUtf8_encodeUtf8 splitText
  have hparse : jsonRpcParse (encodeUtf8 splitText) = .accepted "sig" := by
    rw [jsonRpcParse_accepted_iff, jsonStringAfter_eq htext]
    decide +kernel
  have hcopy : decodeUtf8 (respBytes (encodeUtf8 splitText)) = none := by
    have hcap : min (encodeUtf8 splitText).length respCap = 1024 := by
      decide +kernel
    rw [respBytes, hcap]
    exact decodeUtf8_take_of_split (by decide +kernel) (by decide +kernel)
  refine ⟨htext, .inl ⟨_, hparse, by decide +kernel⟩, hparse, ?_⟩
  rw [kind_parseOne_bodyResp, jsonRpcParse_of_not_text hcopy, if_neg]
  decide +kernel

end TxSender.Transport
