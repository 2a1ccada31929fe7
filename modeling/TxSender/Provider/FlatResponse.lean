/-
# TxSender.Provider.FlatResponse — the codec on plain result and error responses.

A node answers with `{"jsonrpc":"2.0","id":1,"result":"…"}` or with an error object that has a code
and a message. The codec finds each of its fields by a search of its own for the quoted key. The
texts below leave white space and member order open, and a text between quotes stands as it is, with
neither a quote nor a backslash in it. Then no other key or value diverts a search
(`parse_flat`): the one that can stop too early, a message `code` in front of the code, still leads
to the colon of the code.
-/
import TxSender.Lib.WordScan
import TxSender.Provider.Response

namespace TxSender.Provider

open TxSender.Lib
open TxSender.Lib.Search
open TxSender.Lib.Json

/-! ## The two documents -/

/-- A member, given by its name and the text of its value. -/
def entry (name : String) (value : List Char) : List Char × List Char := (name.toList, value)

/-- A number without a fraction and an exponent. -/
def Integral (n : Number) : Prop := n.frac = [] ∧ n.exponent = none

/-- A document: an object with white space around it. -/
def Renders (ms : List (List Char × List Char)) (text : List Char) : Prop :=
  ∃ a b object, RendersObject ms object ∧ text = wsText a ++ (object ++ wsText b)

/-- The texts of `{jsonrpc: "2.0", id: <integer>, result: "s"}`, in any member order. -/
def RendersResult (s text : List Char) : Prop :=
  ∃ id ms, Integral id ∧ Renders ms text ∧
    ms.Perm [entry "jsonrpc" (quotedWord "2.0".toList), entry "id" id.text,
      entry "result" (quotedWord s)]

/-- The texts of `{jsonrpc: "2.0", id: <integer>, error: {code: c, message: m}}`, in any order of the
outer and of the inner members. -/
def RendersError (c : Int) (m text : List Char) : Prop :=
  ∃ id inner errorText ms, Integral id ∧ RendersObject inner errorText ∧ Renders ms text ∧
    inner.Perm [entry "code" (signedDigits c), entry "message" (quotedWord m)] ∧
    ms.Perm [entry "jsonrpc" (quotedWord "2.0".toList), entry "id" id.text, entry "error" errorText]

/-! ## The searches of the codec -/

theorem afterKey_eq (text : List Char) (key : String) :
    afterKey (encodeUtf8 text) key = behind key.toList text := by
  rw [afterKey, decodeUtf8_encodeUtf8]
  simp only [Option.bind_eq_bind, Option.bind_some, Option.pure_def]
  exact Option.map_eq_bind.symm

theorem searchWord_key {key : String} (h : key ∈ ["result", "code", "message"]) :
    SearchWord key.toList := by
  simp only [List.mem_cons, List.not_mem_nil, or_false] at h
  rcases h with rfl | rfl | rfl
  · exact ⟨by decide, 'r', "esult".toList, by decide, by decide⟩
  · exact ⟨by decide, 'c', "ode".toList, by decide, by decide⟩
  · exact ⟨by decide, 'm', "essage".toList, by decide, by decide⟩

/-- Behind the first colon of `l` and white space stands the decimal of `c`. -/
def Numbered (c : Int) (l : List Char) : Prop :=
  ∃ a w rest, l = a ++ ':' :: (w ++ (signedDigits c ++ rest)) ∧ ':' ∉ a ∧
    (∀ x ∈ w, isWhitespace x = true) ∧ Delimited rest

theorem signedDigits_chars {c : Int} {x : Char} (h : x ∈ signedDigits c) :
    x.isDigit = true ∨ x = '-' := by
  unfold signedDigits at h
  split at h
  · rcases List.mem_cons.mp h with rfl | h
    · exact Or.inr rfl
    · exact Or.inl (Nat.isDigit_of_mem_toDigits (by omega) (by omega) h)
  · exact Or.inl (Nat.isDigit_of_mem_toDigits (by omega) (by omega) h)

theorem signedDigits_ne_nil (c : Int) : signedDigits c ≠ [] := by
  unfold signedDigits
  split
  · simp
  · exact Nat.toDigits_ne_nil

/-- The number search reads the number. -/
theorem Numbered.read {c : Int} {l : List Char} (h : Numbered c l) (hlo : -2 ^ 63 ≤ c)
    (hhi : c < 2 ^ 63) :
    ((afterColon l).bind fun rest => parseI64 (rest.takeWhile fun x => x.isDigit || x == '-')) =
      some c := by
  obtain ⟨a, w, rest, rfl, ha, hw, hrest⟩ := h
  have hdrop : (a ++ ':' :: (w ++ (signedDigits c ++ rest))).drop (a.length + 1) =
      w ++ (signedDigits c ++ rest) := by
    simp
  have hstart : trimStart (w ++ (signedDigits c ++ rest)) = signedDigits c ++ rest := by
    unfold trimStart
    rw [List.dropWhile_append_of_pos hw]
    obtain ⟨x, xs, hx⟩ := List.exists_cons_of_ne_nil (signedDigits_ne_nil c)
    have hblank : isWhitespace x = false := by
      rcases signedDigits_chars (c := c) (x := x) (by rw [hx]; simp) with hd | rfl
      · exact isWhitespace_of_isDigit hd
      · decide
    rw [hx, List.cons_append, List.dropWhile_cons_of_neg (by simp [hblank])]
  have htake : (signedDigits c ++ rest).takeWhile (fun x => x.isDigit || x == '-') =
      signedDigits c := by
    rw [List.takeWhile_append_of_pos]
    · have hstop : rest.takeWhile (fun x => x.isDigit || x == '-') = [] := by
        cases rest with
        | nil => rfl
        | cons x rest =>
            have hstop : (delimiters.all fun d => !(d.isDigit || d == '-')) = true := by decide
            have hx := List.all_eq_true.mp hstop x (hrest x (by simp))
            rw [List.takeWhile_cons_of_neg]
            simpa using hx
      rw [hstop, List.append_nil]
    · intro x hx
      rcases signedDigits_chars hx with hd | rfl
      · simp [hd]
      · decide
  simp only [afterColon, find_char_of_split ha, Option.bind_eq_bind, Option.bind_some, hdrop, hstart,
    Option.pure_def, htake]
  exact parseI64_signedDigits hlo hhi

theorem jsonStringAfter_eq {text x s : List Char} {key : String}
    (h : behind key.toList text = some x) (hq : Quoted x s) :
    jsonStringAfter (encodeUtf8 text) key = some (String.ofList s) := by
  have hread := afterColon_quotedPrefix_iff.mpr hq
  obtain ⟨rest, hrest, hvalue⟩ := Option.bind_eq_some_iff.mp hread
  rw [jsonStringAfter, afterKey_eq, h]
  simp only [Option.bind_eq_bind, Option.bind_some, hrest, hvalue, Option.pure_def]

theorem jsonI64After_eq {text x : List Char} {c : Int} {key : String}
    (h : behind key.toList text = some x) (hn : Numbered c x) (hlo : -2 ^ 63 ≤ c)
    (hhi : c < 2 ^ 63) : jsonI64After (encodeUtf8 text) key = some c := by
  rw [jsonI64After, afterKey_eq, h]
  exact hn.read hlo hhi

/-! ## Searches over the documents -/

section Searches

variable {w : List Char} {P : List Char → Prop} {ms : List (List Char × List Char)}
  {text : List Char}

/-- A search that finds its word in one of the members finds it in the document. -/
theorem Renders.behind_some (hw : SearchWord w) (ht : Renders ms text)
    (h : ∀ p ∈ ms, Passes w p ∨ Leads w p P) (hex : ∃ p ∈ ms, Leads w p P) :
    ∃ x, behind w text = some x ∧ P x := by
  obtain ⟨a, b, object, hobject, rfl⟩ := ht
  rw [behind_gap (quote_not_mem_wsText a)]
  apply hobject.finds_member hw h hex
  have := delimited_ws b (r := []) (by intro c hc; cases hc)
  rwa [List.append_nil] at this

theorem Renders.behind_none (hw : SearchWord w) (ht : Renders ms text)
    (h : ∀ p ∈ ms, Passes w p) : behind w text = none := by
  obtain ⟨a, b, object, hobject, rfl⟩ := ht
  have hend := delimited_ws b (r := []) (by intro c hc; cases hc)
  rw [List.append_nil] at hend
  rw [behind_gap (quote_not_mem_wsText a), hobject.transparent hw h _ hend,
    behind_eq_none (quote_not_mem_wsText b)]

end Searches

theorem quote_not_mem_number (n : Number) : '"' ∉ n.text := by
  intro h
  exact bare_number n '"' (List.mem_map_of_mem h) rfl

theorem passes_entry {w : List Char} {name : String} {value : List Char} (hq : '"' ∉ name.toList)
    (hn : name.toList ≠ w) (hv : Transparent w value) : Passes w (entry name value) :=
  ⟨hq, hn, hv⟩

/-- No search of the codec stops in the version or the id. -/
theorem passes_version {key : String} (h : key ∈ ["result", "code", "message"]) :
    Passes key.toList (entry "jsonrpc" (quotedWord "2.0".toList)) := by
  have hne : "jsonrpc".toList ≠ key.toList ∧ "2.0".toList ≠ key.toList := by
    revert h
    simp only [List.mem_cons, List.not_mem_nil, or_false]
    rintro (rfl | rfl | rfl) <;> decide
  exact passes_entry (by decide) hne.1 (transparent_quoted (searchWord_key h) (by decide) hne.2)

theorem passes_id {key : String} (h : key ∈ ["result", "code", "message"]) (id : Number) :
    Passes key.toList (entry "id" id.text) := by
  have hne : "id".toList ≠ key.toList := by
    revert h
    simp only [List.mem_cons, List.not_mem_nil, or_false]
    rintro (rfl | rfl | rfl) <;> decide
  exact passes_entry (by decide) hne (transparent_gap (quote_not_mem_number id))

/-- A member that holds a quoted text is read by a search for its name. -/
theorem leads_quoted {key : String} {s : List Char} (hs : '"' ∉ s) :
    Leads key.toList (entry key (quotedWord s)) (Quoted · s) := by
  apply leads_of_name
  intro b c r _
  refine ⟨wsText b, wsText c, r, by simp [quotedWord], ?_, fun x hx => isWhitespace_wsText hx, hs⟩
  exact not_mem_of_whitespace (by decide) fun x hx => isWhitespace_wsText hx

theorem leads_number (c : Int) :
    Leads "code".toList (entry "code" (signedDigits c)) (Numbered c) := by
  apply leads_of_name
  intro b d r hr
  refine ⟨wsText b, wsText d, r, rfl, ?_, fun x hx => isWhitespace_wsText hx, hr⟩
  exact not_mem_of_whitespace (by decide) fun x hx => isWhitespace_wsText hx

theorem quote_not_mem_signedDigits (c : Int) : '"' ∉ signedDigits c := by
  intro h
  rcases signedDigits_chars h with hd | hd
  · exact absurd hd (by decide)
  · exact absurd hd (by decide)

/-- A message that is the word `code` and stands in front of the code: the search for the code stops
at the message, and the next colon is the one behind the key it was looking for. -/
theorem finds_code_behind_message {c : Int} {t : List Char}
    (ht : MembersText [entry "message" (quotedWord "code".toList), entry "code" (signedDigits c)] t) :
    Finds "code".toList t (Numbered c) := by
  have hcode : SearchWord "code".toList := searchWord_key (by simp)
  intro r hr
  obtain ⟨a, b, d, e, a', b', d', e', rfl⟩ : ∃ a b d e a' b' d' e',
      t = memberText "message".toList (quotedWord "code".toList) a b d e ++
        ',' :: memberText "code".toList (signedDigits c) a' b' d' e' := by
    rcases ht with _ | ⟨_, _, a, b, d, e, ht⟩
    rcases ht with ⟨_, _, a', b', d', e'⟩ | ⟨_, _, _, _, _, _, ht⟩
    · exact ⟨a, b, d, e, a', b', d', e', rfl⟩
    · cases ht
  rw [List.append_assoc, behind_member hcode (by decide) (by decide), behind_hit]
  refine ⟨_, rfl, wsText e ++ ',' :: (wsText a' ++ (quotedWord "code".toList ++ wsText b')),
    wsText d', wsText e' ++ r, by simp [memberText], ?_, fun x hx => isWhitespace_wsText hx,
    delimited_ws e' hr⟩
  have hws : ∀ z : Ws, ':' ∉ wsText z := fun z =>
    not_mem_of_whitespace (by decide) fun x hx => isWhitespace_wsText hx
  simp only [List.mem_append, List.mem_cons, not_or]
  exact ⟨hws e, by decide, hws a', by decide, hws b'⟩

/-- The search for the code ends at the code of the error object, whatever the message is. -/
theorem finds_code {c : Int} {m text : List Char} {inner : List (List Char × List Char)}
    (ht : RendersObject inner text) (hm : '"' ∉ m)
    (hperm : inner.Perm [entry "code" (signedDigits c), entry "message" (quotedWord m)]) :
    Finds "code".toList text (Numbered c) := by
  have hcode : SearchWord "code".toList := searchWord_key (by simp)
  by_cases hmc : m = "code".toList
  · subst hmc
    apply ht.finds
    intro t hmem
    -- the two orders: the code first, or the message that looks like its key first
    obtain ⟨p, q, rfl⟩ : ∃ p q, inner = [p, q] := by
      have := hperm.length_eq
      exact List.length_eq_two.mp this
    have hp := hperm.mem_iff.mp (List.mem_cons_self)
    simp only [List.mem_cons, List.not_mem_nil, or_false] at hp
    rcases hp with rfl | rfl
    · exact finds_of_head hmem (leads_number c)
    · have hq := (List.perm_cons _).mp (hperm.trans (List.Perm.swap _ _ []))
      obtain rfl := List.singleton_perm_singleton.mp hq
      exact finds_code_behind_message hmem
  · refine ht.finds_member hcode ?_ ⟨_, hperm.mem_iff.mpr (by simp), leads_number c⟩
    intro p hp
    have hp' := hperm.mem_iff.mp hp
    simp only [List.mem_cons, List.not_mem_nil, or_false] at hp'
    rcases hp' with rfl | rfl
    · exact Or.inr (leads_number c)
    · exact Or.inl (passes_entry (by decide) (by decide) (transparent_quoted hcode hm hmc))

/-! ## What the codec returns -/

theorem parse_result {s text : List Char} (hs : '"' ∉ s) (h : RendersResult s text) :
    jsonRpcParse (encodeUtf8 text) = .accepted (String.ofList s) := by
  obtain ⟨id, ms, _, ht, hperm⟩ := h
  have hkey : "result" ∈ ["result", "code", "message"] := by simp
  have hlead : Leads "result".toList (entry "result" (quotedWord s)) (Quoted · s) := leads_quoted hs
  obtain ⟨x, hx, hquoted⟩ := ht.behind_some (P := (Quoted · s)) (searchWord_key hkey) (by
    intro p hp
    have hp' := hperm.mem_iff.mp hp
    simp only [List.mem_cons, List.not_mem_nil, or_false] at hp'
    rcases hp' with rfl | rfl | rfl
    · exact Or.inl (passes_version hkey)
    · exact Or.inl (passes_id hkey id)
    · exact Or.inr hlead) ⟨_, hperm.mem_iff.mpr (by simp), hlead⟩
  exact jsonRpcParse_accepted_iff.mpr (jsonStringAfter_eq hx hquoted)

/-- The window search for the error key, on the octets. -/
theorem error_found {ms : List (List Char × List Char)} {text v : List Char} (ht : Renders ms text)
    (h : entry "error" v ∈ ms) : (find (utf8 "\"error\"") (encodeUtf8 text)).isSome = true := by
  obtain ⟨a, b, object, ⟨t, hmem, rfl⟩, rfl⟩ := ht
  obtain ⟨x, y, rfl⟩ := hmem.mentions h
  have hocc : OccursAt (utf8 "\"error\"")
      (encodeUtf8 (wsText a ++ ('\x7b' :: (x ++ (quotedWord "error".toList ++ y) ++ ['\x7d']) ++
        wsText b))) (encodeUtf8 (wsText a ++ '\x7b' :: x)).length := by
    refine ⟨encodeUtf8 (wsText a ++ '\x7b' :: x), encodeUtf8 (y ++ '\x7d' :: wsText b), ?_, rfl⟩
    rw [utf8, ← encodeUtf8_append, ← encodeUtf8_append]
    congr 1
    simp [quotedWord]
  obtain ⟨k, hk, _⟩ := find_isSome_of_occursAt hocc
  rw [hk]
  rfl

theorem parse_error {c : Int} {m text : List Char} (hlo : -2 ^ 63 ≤ c) (hhi : c < 2 ^ 63)
    (hm : '"' ∉ m) (hne : m ≠ "result".toList) (h : RendersError c m text) :
    jsonRpcParse (encodeUtf8 text) = .rejected c (String.ofList m) := by
  obtain ⟨id, inner, errorText, ms, _, hinner, ht, hperm, houter⟩ := h
  -- a search that passes the version and the id, and is settled in the error object
  have hsearch : ∀ {key : String} {P : List Char → Prop}, key ∈ ["result", "code", "message"] →
      "error".toList ≠ key.toList → Finds key.toList errorText P →
      ∃ x, behind key.toList text = some x ∧ P x := by
    intro key P hkey herr hfinds
    have hlead : Leads key.toList (entry "error" errorText) P :=
      leads_of_value (searchWord_key hkey) (by decide) herr hfinds
    refine ht.behind_some (searchWord_key hkey) ?_ ⟨_, houter.mem_iff.mpr (by simp), hlead⟩
    intro p hp
    have hp' := houter.mem_iff.mp hp
    simp only [List.mem_cons, List.not_mem_nil, or_false] at hp'
    rcases hp' with rfl | rfl | rfl
    · exact Or.inl (passes_version hkey)
    · exact Or.inl (passes_id hkey id)
    · exact Or.inr hlead
  have hresult : jsonStringAfter (encodeUtf8 text) "result" = none := by
    have hkey : "result" ∈ ["result", "code", "message"] := by simp
    have hw := searchWord_key hkey
    have hpass : ∀ p ∈ inner, Passes "result".toList p := by
      intro p hp
      have hp' := hperm.mem_iff.mp hp
      simp only [List.mem_cons, List.not_mem_nil, or_false] at hp'
      rcases hp' with rfl | rfl
      · exact passes_entry (by decide) (by decide) (transparent_gap (quote_not_mem_signedDigits c))
      · exact passes_entry (by decide) (by decide) (transparent_quoted hw hm hne)
    have hnone := ht.behind_none hw (by
      intro p hp
      have hp' := houter.mem_iff.mp hp
      simp only [List.mem_cons, List.not_mem_nil, or_false] at hp'
      rcases hp' with rfl | rfl | rfl
      · exact passes_version hkey
      · exact passes_id hkey id
      · exact passes_entry (by decide) (by decide) (hinner.transparent hw hpass))
    rw [jsonStringAfter, afterKey_eq, hnone]
    rfl
  obtain ⟨x, hx, hnumber⟩ := hsearch (by simp) (by decide) (finds_code hinner hm hperm)
  have hmessage : Finds "message".toList errorText (Quoted · m) := by
    have hlead : Leads "message".toList (entry "message" (quotedWord m)) (Quoted · m) :=
      leads_quoted hm
    refine hinner.finds_member (searchWord_key (by simp)) ?_
      ⟨_, hperm.mem_iff.mpr (by simp), hlead⟩
    intro p hp
    have hp' := hperm.mem_iff.mp hp
    simp only [List.mem_cons, List.not_mem_nil, or_false] at hp'
    rcases hp' with rfl | rfl
    · exact Or.inl (passes_entry (by decide) (by decide)
        (transparent_gap (quote_not_mem_signedDigits c)))
    · exact Or.inr hlead
  obtain ⟨y, hy, hquoted⟩ := hsearch (by simp) (by decide) hmessage
  have herror := error_found ht (houter.mem_iff.mpr (show entry "error" errorText ∈ _ by simp))
  unfold jsonRpcParse
  rw [hresult]
  simp only [herror, if_true, jsonI64After_eq hx hnumber hlo hhi, jsonStringAfter_eq hy hquoted,
    Option.getD_some]

/-- **The codec reads flat responses back.** For every rendering of a plain result response the codec
accepts with the signature, and for every rendering of a plain error response whose message is not
the word `result` it rejects with the code and the message. -/
theorem parse_flat :
    (∀ s text : List Char, '"' ∉ s → '\\' ∉ s → RendersResult s text →
        jsonRpcParse (encodeUtf8 text) = .accepted (String.ofList s)) ∧
      ∀ (c : Int) (m text : List Char), -2 ^ 63 ≤ c → c < 2 ^ 63 → '"' ∉ m → '\\' ∉ m →
        m ≠ "result".toList → RendersError c m text →
        jsonRpcParse (encodeUtf8 text) = .rejected c (String.ofList m) :=
  ⟨fun _ _ hs _ h => parse_result hs h, fun _ _ _ hlo hhi hm _ hne h => parse_error hlo hhi hm hne h⟩

/-- A result behind other members, and an error whose message is the key of its code. -/
theorem parse_flat_code_message :
    jsonRpcParse (utf8 "\x7b\"id\":7,\"jsonrpc\":\"2.0\",\"result\" : \"5x\"\x7d") =
        .accepted "5x" ∧
      jsonRpcParse (utf8
        "\x7b\"error\":\x7b\"message\":\"code\",\"code\":-9\x7d,\"id\":7,\"jsonrpc\":\"2.0\"\x7d") =
        .rejected (-9) "code" := by
  have hid : Integral ⟨false, [7], [], none, by decide, by decide⟩ := ⟨rfl, rfl⟩
  have hresult : RendersObject [entry "id" "7".toList, entry "jsonrpc" (quotedWord "2.0".toList),
      entry "result" (quotedWord "5x".toList)]
      "\x7b\"id\":7,\"jsonrpc\":\"2.0\",\"result\" : \"5x\"\x7d".toList :=
    ⟨_, .more _ _ [] [] [] [] (.more _ _ [] [] [] [] (.one _ _ [] [.space] [.space] [])), by decide⟩
  have hinner : RendersObject [entry "message" (quotedWord "code".toList),
      entry "code" (signedDigits (-9))] "\x7b\"message\":\"code\",\"code\":-9\x7d".toList :=
    ⟨_, .more _ _ [] [] [] [] (.one _ _ [] [] [] []), by decide⟩
  have herror : RendersObject [entry "error" "\x7b\"message\":\"code\",\"code\":-9\x7d".toList,
      entry "id" "7".toList, entry "jsonrpc" (quotedWord "2.0".toList)]
      "\x7b\"error\":\x7b\"message\":\"code\",\"code\":-9\x7d,\"id\":7,\"jsonrpc\":\"2.0\"\x7d".toList :=
    ⟨_, .more _ _ [] [] [] [] (.more _ _ [] [] [] [] (.one _ _ [] [] [] [])), by decide⟩
  refine ⟨?_, ?_⟩
  · exact parse_flat.1 "5x".toList _ (by decide) (by decide)
      ⟨_, _, hid, ⟨[], [], _, hresult, by decide⟩, by decide⟩
  · exact parse_flat.2 (-9) "code".toList _ (by decide) (by decide) (by decide) (by decide)
      (by decide) ⟨_, _, _, _, hid, hinner, ⟨[], [], _, herror, by decide⟩, by decide, by decide⟩

end TxSender.Provider
