/-
# TxSender.Provider.Registry — the ready-made HTTP providers, and that each can carry every
transaction.

A preset puts the user's token into the path, the query or a header of its request and fixes the
rest. No constant of a preset holds a piece of a sentinel next to the place where the token goes
(`Unmarked.append`), so a token that holds neither sentinel cannot complete one; the token may hold
anything else, line breaks included. `maxBody` is the encoded length of the longest transaction with
nothing to spare.
-/
import TxSender.Http.EnvelopeCompile
import TxSender.Provider.Response
import TxSender.Transport.Connect

namespace TxSender.Provider.Registry

open TxSender.Lib
open TxSender.Lib.Search (OccursAt occurrences)
open TxSender.Http
open TxSender.Transport (buildEnvelope authPlacement)

/-! ## The presets -/

def maxBody : Nat := 1644

/-- `MAX_TX_LEN` -/
def maxTxLen : Nat := 1232

def httpCfg (host : String) (port : UInt16) (path serverName : String) (auth : HttpAuth)
    (bodyTemplate : String) : ProviderConfig where
  protocol := .http
  endpoint := { host, port, path, serverName }
  quicEndpoint := none
  quicProfile := none
  quicAuth := none
  auth := auth
  maxBody := maxBody
  bodyTemplate := bodyTemplate
  codec := jsonRpcParse

def jitoTransaction (token : String) : ProviderConfig :=
  let host := "mainnet.block-engine.jito.wtf"
  httpCfg host 443 ("/api/v1/transactions?uuid=" ++ token) host (.header "x-jito-auth" token)
    "\x7b\"jsonrpc\":\"2.0\",\"id\":1,\"method\":\"sendTransaction\",\"params\":[\"<<BODY>>\",\x7b\"encoding\":\"base64\"\x7d]\x7d"

def jitoBundle (token : String) : ProviderConfig :=
  let host := "mainnet.block-engine.jito.wtf"
  httpCfg host 443 ("/api/v1/bundles?uuid=" ++ token) host (.header "x-jito-auth" token)
    "\x7b\"jsonrpc\":\"2.0\",\"id\":1,\"method\":\"sendBundle\",\"params\":[[\"<<BODY>>\"],\x7b\"encoding\":\"base64\"\x7d]\x7d"

def nextblock (token : String) : ProviderConfig :=
  let host := "fra.nextblock.io"
  httpCfg host 443 "/api/v2/submit" host (.header "Authorization" token)
    "\x7b\"transaction\":\x7b\"content\":\"<<BODY>>\"\x7d,\"frontRunningProtection\":false\x7d"

def zeroslot (token : String) : ProviderConfig :=
  let host := "de.0slot.trade"
  httpCfg host 443 "/" host (.urlParam "api-key" token)
    "\x7b\"jsonrpc\":\"2.0\",\"id\":1,\"method\":\"sendTransaction\",\"params\":[\"<<BODY>>\",\x7b\"encoding\":\"base64\",\"skipPreflight\":true\x7d]\x7d"

def temporal (token : String) : ProviderConfig :=
  let host := "ny.temporal.xyz"
  httpCfg host 443 "/" host (.urlParam "c" token)
    "\x7b\"jsonrpc\":\"2.0\",\"id\":1,\"method\":\"sendTransaction\",\"params\":[\"<<BODY>>\",\x7b\"encoding\":\"base64\"\x7d]\x7d"

def bloxroute (token : String) : ProviderConfig :=
  let host := "virginia.solana.dex.blxrbdn.com"
  httpCfg host 443 "/api/v2/submit" host (.header "Authorization" token)
    "\x7b\"transaction\":\x7b\"content\":\"<<BODY>>\"\x7d,\"frontRunningProtection\":false,\"useStakedRPCs\":true\x7d"

def node1 (token : String) : ProviderConfig :=
  let host := "rpc.node1.io"
  httpCfg host 443 "/" host (.header "api-key" token)
    "\x7b\"jsonrpc\":\"2.0\",\"id\":1,\"method\":\"sendTransaction\",\"params\":[\"<<BODY>>\",\x7b\"encoding\":\"base64\",\"skipPreflight\":true\x7d]\x7d"

def flashblock (token : String) : ProviderConfig :=
  let host := "fra.flashblock.io"
  httpCfg host 443 "/api/v2/submit-batch" host (.header "Authorization" token)
    "\x7b\"transactions\":[\"<<BODY>>\"]\x7d"

def blockrazor (token : String) : ProviderConfig :=
  let host := "solana.blockrazor.xyz"
  httpCfg host 443 "/sendTransaction" host (.header "apikey" token)
    "\x7b\"transaction\":\"<<BODY>>\",\"mode\":\"fast\"\x7d"

def astralane (token : String) : ProviderConfig :=
  let host := "solana-ny.astralane.io"
  httpCfg host 443 "/" host (.header "api_key" token)
    "\x7b\"jsonrpc\":\"2.0\",\"id\":1,\"method\":\"sendTransaction\",\"params\":[\"<<BODY>>\",\x7b\"encoding\":\"base64\",\"skipPreflight\":true\x7d,\x7b\"mevProtect\":false\x7d]\x7d"

def stellium (token : String) : ProviderConfig :=
  let host := "tx.stellium.io"
  httpCfg host 443 ("/" ++ token) host .none
    "\x7b\"jsonrpc\":\"2.0\",\"id\":1,\"method\":\"sendTransaction\",\"params\":[\"<<BODY>>\",\x7b\"encoding\":\"base64\"\x7d]\x7d"

def lightspeed (token : String) : ProviderConfig :=
  let host := "solana.lightspeed.supply"
  httpCfg host 443 "/" host (.urlParam "api_key" token)
    "\x7b\"jsonrpc\":\"2.0\",\"id\":1,\"method\":\"sendTransaction\",\"params\":[\"<<BODY>>\",\x7b\"encoding\":\"base64\",\"skipPreflight\":true,\"preflightCommitment\":\"processed\",\"maxRetries\":0\x7d]\x7d"

def helius (token : String) : ProviderConfig :=
  let host := "mainnet.helius-rpc.com"
  httpCfg host 443 "/" host (.urlParam "api-key" token)
    "\x7b\"jsonrpc\":\"2.0\",\"id\":1,\"method\":\"sendTransaction\",\"params\":[\"<<BODY>>\",\x7b\"encoding\":\"base64\",\"skipPreflight\":true,\"maxRetries\":0\x7d]\x7d"

/-- The HTTP presets of the registry. -/
def httpPresets : List (String → ProviderConfig) :=
  [jitoTransaction, jitoBundle, nextblock, zeroslot, temporal, bloxroute, node1,
    flashblock, blockrazor, astralane, stellium, lightspeed, helius]

/-! ## Texts without sentinels -/

/-- The part of the content-length sentinel that is not blank. -/
def clStem : Bytes := utf8 "<<CL>>"

/-- `s.contains(sub)` -/
def Contains (s sub : String) : Prop := ∃ i, OccursAt (utf8 sub) (utf8 s) i

/-- Neither sentinel occurs. -/
def Unmarked (text : Bytes) : Prop := occurrences bodySentinel text = 0 ∧ occurrences clStem text = 0

instance (text : Bytes) : Decidable (Unmarked text) := inferInstanceAs (Decidable (_ ∧ _))

theorem unmarked_of_not_contains {s : String} (hbody : ¬ Contains s "<<BODY>>")
    (hcl : ¬ Contains s "<<CL>>") : Unmarked (utf8 s) := by
  refine ⟨Search.occurrences_eq_zero_iff.mpr fun i h => hbody ⟨i, h⟩, ?_⟩
  exact Search.occurrences_eq_zero_iff.mpr fun i h => hcl ⟨i, h⟩

/-- A literal is checked as the list of its characters. -/
theorem unmarked_literal {s : String} {cs : List Char} (hs : s = String.ofList cs)
    (h : Unmarked (encodeUtf8 cs)) : Unmarked (utf8 s) := by
  rw [hs, utf8, String.toList_ofList]
  exact h

/-- A byte of neither sentinel stands where the two texts meet. -/
def Meet (l r : Bytes) : Prop :=
  (∃ c ∈ l.getLast?, c ∉ bodySentinel ++ clStem) ∨ ∃ c ∈ r.head?, c ∉ bodySentinel ++ clStem

instance (l r : Bytes) : Decidable (Meet l r) := inferInstanceAs (Decidable (_ ∨ _))

theorem Meet.occurrences {l r pat : Bytes} (h : Meet l r) (hpat : pat = bodySentinel ∨ pat = clStem) :
    occurrences pat (l ++ r) = occurrences pat l + occurrences pat r := by
  have hsub : ∀ c, c ∉ bodySentinel ++ clStem → c ∉ pat := by
    intro c hc hmem
    apply hc
    rcases hpat with rfl | rfl
    · exact List.mem_append_left _ hmem
    · exact List.mem_append_right _ hmem
  apply Search.occurrences_append
  · rcases hpat with rfl | rfl
    · decide
    · decide
  · rcases h with ⟨c, hc, hne⟩ | ⟨c, hc, hne⟩
    · exact .inl ⟨c, hc, hsub c hne⟩
    · exact .inr ⟨c, hc, hsub c hne⟩

theorem Unmarked.append {l r : Bytes} (hl : Unmarked l) (hr : Unmarked r) (h : Meet l r) :
    Unmarked (l ++ r) := by
  refine ⟨?_, ?_⟩
  · rw [h.occurrences (.inl rfl), hl.1, hr.1]
  · rw [h.occurrences (.inr rfl), hl.2, hr.2]

/-- A constant between two texts, with a byte of neither sentinel at both ends. -/
theorem Unmarked.join {l r : Bytes} (hl : Unmarked l) (hr : Unmarked r) (s : String)
    (hs : Unmarked (utf8 s)) (hfirst : Meet [] (utf8 s)) (hlast : Meet (utf8 s) []) :
    Unmarked (l ++ utf8 s ++ r) := by
  have hleft : Unmarked (l ++ utf8 s) := by
    refine hl.append hs ?_
    rcases hfirst with ⟨c, hc, -⟩ | h
    · cases hc
    · exact .inr h
  refine hleft.append hr (.inl ?_)
  rcases hlast with ⟨c, hc, hne⟩ | ⟨c, hc, -⟩
  · exact ⟨c, by rw [List.getLast?_append, Option.mem_def.mp hc]; rfl, hne⟩
  · cases hc

/-! ## Requests without stray sentinels -/

/-- The builder `build_envelope` fills in. -/
def envelopeBuilder (p : ProviderConfig) : EnvelopeSpecBuilder :=
  let b := (EnvelopeSpecBuilder.new "POST" p.endpoint.path p.endpoint.serverName
    p.maxBody).authPlacement (authPlacement p.auth)
  if p.bodyTemplate = "" then b else b.bodyTemplate p.bodyTemplate

theorem buildEnvelope_eq (p : ProviderConfig) : buildEnvelope p = (envelopeBuilder p).build := rfl

/-- Nothing before the content-length line holds a sentinel, and the body template holds the one it
must. -/
structure Clear (b : EnvelopeSpecBuilder) : Prop where
  head : Unmarked (utf8 b.head)
  ends : (utf8 b.head).getLast? = some 10
  body : occurrences bodySentinel (utf8 b.bodyTpl) = 1
  noLength : occurrences clStem (utf8 b.bodyTpl) = 0

/-- What the built bytes hold is what their parts hold. -/
theorem Clear.occurrences {b : EnvelopeSpecBuilder} (h : Clear b) {pat : Bytes}
    (hpat : pat = bodySentinel ∨ pat = clStem) :
    occurrences pat b.build.bytes =
      occurrences pat (utf8 "Content-Length: <<CL>>      \r\n\r\n") +
        occurrences pat (utf8 b.bodyTpl) := by
  have hbytes : b.build.bytes =
      utf8 b.head ++ (utf8 "Content-Length: <<CL>>      \r\n\r\n" ++ utf8 b.bodyTpl) := by
    show utf8 b.wire = _
    unfold EnvelopeSpecBuilder.wire
    rw [utf8_append, utf8_append, utf8_append, List.append_assoc, List.append_assoc, ← List.append_assoc _ (utf8 "\r\n"),
      ← utf8_append]
    rfl
  have hhead : Search.occurrences pat (utf8 b.head) = 0 := by
    rcases hpat with rfl | rfl
    · exact h.head.1
    · exact h.head.2
  rw [hbytes, Meet.occurrences (.inl ⟨10, h.ends, by decide⟩) hpat, hhead, Nat.zero_add,
    Meet.occurrences (.inl ⟨10, by decide, by decide⟩) hpat]

/-- Both sentinels occur exactly once. -/
theorem Clear.once {b : EnvelopeSpecBuilder} (h : Clear b) :
    b.Once bodySentinel ∧ b.Once clSentinel := by
  have hline : Search.occurrences bodySentinel (utf8 "Content-Length: <<CL>>      \r\n\r\n") = 0 ∧
      Search.occurrences clStem (utf8 "Content-Length: <<CL>>      \r\n\r\n") = 1 := by decide
  refine ⟨?_, ?_⟩
  · apply Search.occurrences_eq_one_iff.mp
    rw [h.occurrences (.inl rfl), hline.1, h.body]
  · have hone : Search.occurrences clStem b.build.bytes = 1 := by
      rw [h.occurrences (.inr rfl), hline.2, h.noLength]
    obtain ⟨i, -, huniq⟩ := Search.occurrences_eq_one_iff.mp hone
    have hstem : ∀ j, OccursAt clSentinel b.build.bytes j → j = i := by
      intro j hj
      rw [show clSentinel = clStem ++ utf8 "      " by decide] at hj
      exact huniq j hj.stem
    have hat : OccursAt clSentinel b.build.bytes b.front.length := ⟨b.front, _, b.wire_split, rfl⟩
    refine ⟨b.front.length, hat, fun j hj => ?_⟩
    show j = b.front.length
    rw [hstem j hj, hstem _ hat]

/-- One header line. -/
theorem unmarked_headerLine {name value : String} (hname : Unmarked (utf8 name))
    (hvalue : Unmarked (utf8 value)) :
    Unmarked (utf8 (EnvelopeSpecBuilder.headerLine name value)) := by
  unfold EnvelopeSpecBuilder.headerLine
  rw [utf8_append, utf8_append, utf8_append]
  refine (hname.join hvalue ": " (by decide) (by decide) (by decide)).append (by decide) ?_
  exact .inr ⟨13, by decide, by decide⟩

/-- The parts of a request that are not fixed by `build`: the path, the host and a header. -/
theorem clear_of_parts {b : EnvelopeSpecBuilder} (hmethod : b.httpMethod = "POST")
    (hextra : b.extraHeaders = []) (hpath : Unmarked (utf8 b.path)) (hhost : Unmarked (utf8 b.host))
    (hauth : ∀ name value, b.auth = .header name value →
      Unmarked (utf8 name) ∧ Unmarked (utf8 value))
    (hbody : occurrences bodySentinel (utf8 b.bodyTpl) = 1)
    (hcl : occurrences clStem (utf8 b.bodyTpl) = 0) : Clear b := by
  have hends : ∀ (l : Bytes) (s : String) (c : UInt8), (utf8 s).getLast? = some c →
      (l ++ utf8 s).getLast? = some c := by
    intro l s c hs
    rw [List.getLast?_append, hs]
    rfl
  -- up to the fixed headers, whatever the authentication
  have hline : Unmarked (utf8 "POST" ++ utf8 " " ++ utf8 b.path) :=
    Unmarked.append (by decide) hpath (.inl ⟨32, by decide, by decide⟩)
  have htarget := hline.join (show Unmarked (utf8 "Host: ") by decide) " HTTP/1.1\r\n" (by decide)
    (by decide) (by decide)
  have hnamed := htarget.append hhost (.inl ⟨32, hends _ "Host: " 32 (by decide), by decide⟩)
  have hfixed := hnamed.join (show Unmarked (utf8 "Content-Type: application/json\r\n") by decide +kernel) "\r\n" (by decide)
    (by decide) (by decide)
  have hhead : Unmarked (utf8 b.head) ∧ (utf8 b.head).getLast? = some 10 := by
    unfold EnvelopeSpecBuilder.head
    simp only [hmethod, hextra, List.foldl_nil]
    cases hb : b.auth with
    | header name value =>
        obtain ⟨hname, hvalue⟩ := hauth name value hb
        simp only [utf8_append]
        refine ⟨hfixed.append (unmarked_headerLine hname hvalue) ?_, ?_⟩
        · exact .inl ⟨10, hends _ "Content-Type: application/json\r\n" 10 (by decide +kernel), by decide⟩
        · unfold EnvelopeSpecBuilder.headerLine
          rw [utf8_append, utf8_append, utf8_append, ← List.append_assoc]
          exact hends _ "\r\n" 10 (by decide)
    | _ =>
        simp only [utf8_append]
        exact ⟨hfixed, hends _ _ 10 (by decide +kernel)⟩
  exact ⟨hhead.1, hhead.2, hbody, hcl⟩

/-! ## Every preset -/

theorem unmarked_constant_append {s token : String} (hs : Unmarked (utf8 s)) (hend : Meet (utf8 s) [])
    (htoken : Unmarked (utf8 token)) : Unmarked (utf8 (s ++ token)) := by
  rw [utf8_append]
  refine hs.append htoken (.inl ?_)
  rcases hend with h | ⟨c, hc, -⟩
  · exact h
  · cases hc

/-- A query parameter behind a fixed path. -/
theorem unmarked_query {path key token : String} (hpath : Unmarked (utf8 path))
    (hkey : Unmarked (utf8 key)) (htoken : Unmarked (utf8 token)) :
    Unmarked (utf8 (path ++ "?" ++ key ++ "=" ++ token)) := by
  simp only [utf8_append]
  exact (hpath.join hkey "?" (by decide) (by decide) (by decide)).join htoken "=" (by decide)
    (by decide) (by decide)

/-- What a request body has to hold. -/
def OneBody (body : Bytes) : Prop := occurrences bodySentinel body = 1 ∧ occurrences clStem body = 0

instance (body : Bytes) : Decidable (OneBody body) := inferInstanceAs (Decidable (_ ∧ _))

theorem oneBody_literal {s : String} {cs : List Char} (hs : s = String.ofList cs)
    (h : OneBody (encodeUtf8 cs)) : OneBody (utf8 s) := by
  rw [hs, utf8, String.toList_ofList]
  exact h

theorem envelopeBuilder_httpCfg {host path serverName body : String} {port : UInt16}
    {auth : HttpAuth} (hbody : OneBody (utf8 body)) :
    envelopeBuilder (httpCfg host port path serverName auth body) =
      { httpMethod := "POST", basePath := path, host := serverName, extraHeaders := [],
        bodyTpl := body, maxBody, auth := authPlacement auth } := by
  have hne : body ≠ "" := by
    rintro rfl
    exact absurd hbody (by decide)
  exact if_neg hne

/-- The token in a header, and perhaps in the path. -/
theorem clear_header {host path serverName name token body : String} {port : UInt16}
    (hpath : Unmarked (utf8 path)) (hserver : Unmarked (utf8 serverName))
    (hname : Unmarked (utf8 name)) (htoken : Unmarked (utf8 token)) (hbody : OneBody (utf8 body)) :
    Clear (envelopeBuilder (httpCfg host port path serverName (.header name token) body)) := by
  rw [envelopeBuilder_httpCfg hbody]
  refine clear_of_parts rfl rfl hpath hserver ?_ hbody.1 hbody.2
  intro name' token' h
  obtain ⟨rfl, rfl⟩ := AuthPlacement.header.inj h
  exact ⟨hname, htoken⟩

/-- The token in the query. -/
theorem clear_query {host path serverName key token body : String} {port : UInt16}
    (hpath : Unmarked (utf8 path)) (hserver : Unmarked (utf8 serverName))
    (hkey : Unmarked (utf8 key)) (htoken : Unmarked (utf8 token)) (hbody : OneBody (utf8 body)) :
    Clear (envelopeBuilder (httpCfg host port path serverName (.urlParam key token) body)) := by
  rw [envelopeBuilder_httpCfg hbody]
  refine clear_of_parts rfl rfl (unmarked_query hpath hkey htoken) hserver ?_ hbody.1 hbody.2
  intro name value h
  cases h

/-- The token in the path alone. -/
theorem clear_path {host path serverName body : String} {port : UInt16}
    (hpath : Unmarked (utf8 path)) (hserver : Unmarked (utf8 serverName)) (hbody : OneBody (utf8 body)) :
    Clear (envelopeBuilder (httpCfg host port path serverName .none body)) := by
  rw [envelopeBuilder_httpCfg hbody]
  refine clear_of_parts rfl rfl hpath hserver ?_ hbody.1 hbody.2
  intro name value h
  cases h

-- the literals of a request body are longer than the default depth allows for
set_option maxRecDepth 4000 in
theorem clear_preset {preset : String → ProviderConfig} (hp : preset ∈ httpPresets) {token : String}
    (htoken : Unmarked (utf8 token)) : Clear (envelopeBuilder (preset token)) := by
  have hslash : Unmarked (utf8 "/") := by decide
  simp only [httpPresets, List.mem_cons, List.not_mem_nil, or_false] at hp
  rcases hp with rfl | rfl | rfl | rfl | rfl | rfl | rfl | rfl | rfl | rfl | rfl | rfl | rfl
  · -- the token stands in the path too
    exact clear_header (unmarked_constant_append (unmarked_literal rfl (by decide +kernel)) (by decide +kernel) htoken)
      (unmarked_literal rfl (by decide +kernel)) (unmarked_literal rfl (by decide +kernel)) htoken
      (oneBody_literal rfl (by decide +kernel))
  · -- the token stands in the path too
    exact clear_header (unmarked_constant_append (unmarked_literal rfl (by decide +kernel)) (by decide +kernel) htoken)
      (unmarked_literal rfl (by decide +kernel)) (unmarked_literal rfl (by decide +kernel)) htoken
      (oneBody_literal rfl (by decide +kernel))
  · exact clear_header (unmarked_literal rfl (by decide +kernel)) (unmarked_literal rfl (by decide +kernel))
      (unmarked_literal rfl (by decide +kernel)) htoken (oneBody_literal rfl (by decide +kernel))
  · exact clear_query hslash (unmarked_literal rfl (by decide +kernel))
      (unmarked_literal rfl (by decide +kernel)) htoken (oneBody_literal rfl (by decide +kernel))
  · exact clear_query hslash (unmarked_literal rfl (by decide +kernel))
      (unmarked_literal rfl (by decide +kernel)) htoken (oneBody_literal rfl (by decide +kernel))
  · exact clear_header (unmarked_literal rfl (by decide +kernel)) (unmarked_literal rfl (by decide +kernel))
      (unmarked_literal rfl (by decide +kernel)) htoken (oneBody_literal rfl (by decide +kernel))
  · exact clear_header hslash (unmarked_literal rfl (by decide +kernel))
      (unmarked_literal rfl (by decide +kernel)) htoken (oneBody_literal rfl (by decide +kernel))
  · exact clear_header (unmarked_literal rfl (by decide +kernel)) (unmarked_literal rfl (by decide +kernel))
      (unmarked_literal rfl (by decide +kernel)) htoken (oneBody_literal rfl (by decide +kernel))
  · exact clear_header (unmarked_literal rfl (by decide +kernel)) (unmarked_literal rfl (by decide +kernel))
      (unmarked_literal rfl (by decide +kernel)) htoken (oneBody_literal rfl (by decide +kernel))
  · exact clear_header hslash (unmarked_literal rfl (by decide +kernel))
      (unmarked_literal rfl (by decide +kernel)) htoken (oneBody_literal rfl (by decide +kernel))
  · exact clear_path (unmarked_constant_append hslash (by decide) htoken)
      (unmarked_literal rfl (by decide +kernel)) (oneBody_literal rfl (by decide +kernel))
  · exact clear_query hslash (unmarked_literal rfl (by decide +kernel))
      (unmarked_literal rfl (by decide +kernel)) htoken (oneBody_literal rfl (by decide +kernel))
  · exact clear_query hslash (unmarked_literal rfl (by decide +kernel))
      (unmarked_literal rfl (by decide +kernel)) htoken (oneBody_literal rfl (by decide +kernel))

theorem maxBody_preset {preset : String → ProviderConfig} (hp : preset ∈ httpPresets)
    (token : String) : (envelopeBuilder (preset token)).maxBody = maxBody := by
  have hkept : ∀ p : ProviderConfig, (envelopeBuilder p).maxBody = p.maxBody := by
    intro p
    unfold envelopeBuilder
    split
    · rfl
    · rfl
  rw [hkept]
  simp only [httpPresets, List.mem_cons, List.not_mem_nil, or_false] at hp
  rcases hp with rfl | rfl | rfl | rfl | rfl | rfl | rfl | rfl | rfl | rfl | rfl | rfl | rfl
  all_goals rfl

/-! ## Every transaction -/

/-- **Every preset carries every transaction.** For each HTTP preset and every token that holds
neither `<<BODY>>` nor `<<CL>>`, with the padded template below `2^32` bytes: the request compiles,
and after any history of calls the frame of every transaction of at most `MAX_TX_LEN` bytes is
returned. -/
theorem preset_carries (preset : String → ProviderConfig) (hp : preset ∈ httpPresets)
    (token : String) (hbody : ¬ Contains token "<<BODY>>") (hcl : ¬ Contains token "<<CL>>")
    (hshort : (envelopeBuilder (preset token)).paddedLen < 2 ^ 32) :
    ∃ t, (buildEnvelope (preset token)).compile = .ok (.ok t) ∧
      ∀ history tx, tx.length ≤ maxTxLen →
        ∃ t' rs, t.spliceAll history = .ok (t', rs) ∧
          ∃ t'' frame, t'.splice tx = .ok (t'', .ok frame) := by
  have hclear := clear_preset hp (unmarked_of_not_contains hbody hcl)
  have hmax := maxBody_preset hp token
  rw [buildEnvelope_eq]
  set b := envelopeBuilder (preset token)
  obtain ⟨i, hi⟩ := EnvelopeSpecBuilder.once_iff.mp hclear.once.1
  obtain ⟨j, hj⟩ := EnvelopeSpecBuilder.once_iff.mp hclear.once.2
  obtain ⟨t, ht⟩ := EnvelopeSpecBuilder.compile_of_found hi hj (by rw [hmax]; decide) hshort
  refine ⟨t, ht, fun history tx htx => ?_⟩
  obtain ⟨k, hk, -⟩ := Search.occurrences_eq_one_iff.mp hclear.body
  obtain ⟨pre, mid, slot, post, -, -, -, hslot, hlay⟩ :=
    EnvelopeSpecBuilder.layout_of_compile ⟨k, hk⟩ hshort ht
  obtain ⟨t', rs, hall, hlay', -⟩ := hlay.spliceAll_results history
  obtain ⟨t'', r, hr, -, hres⟩ := hlay'.splice_result tx
  -- 1232 bytes encode to exactly the 1644 the slot holds
  have hroom : ¬ slot.length < 4 * ((tx.length + 2) / 3) := by
    rw [hslot, hmax]
    unfold maxTxLen at htx
    unfold maxBody
    omega
  unfold FrameResult at hres
  rw [if_neg hroom] at hres
  obtain ⟨frame, -, rfl, -⟩ := hres
  exact ⟨t', rs, hall, t'', frame, hr⟩

theorem preset_carries_flashblock :
    (envelopeBuilder (flashblock "tok")).paddedLen < 2 ^ 32 ∧
      ∃ t, (buildEnvelope (flashblock "tok")).compile = .ok (.ok t) ∧
        ∃ t' frame, t.splice (List.replicate 1232 7) = .ok (t', .ok frame) := by
  have hshort : (envelopeBuilder (flashblock "tok")).paddedLen < 2 ^ 32 := by decide +kernel
  have habsent : ∀ pat, 3 < pat.length → ∀ i, ¬ OccursAt pat (utf8 "tok") i := by
    intro pat hlong i h
    have hbound := h.bound
    rw [show (utf8 "tok").length = 3 by decide] at hbound
    omega
  have hbody : ¬ Contains "tok" "<<BODY>>" := fun ⟨i, h⟩ => habsent _ (by decide) i h
  have hcl : ¬ Contains "tok" "<<CL>>" := fun ⟨i, h⟩ => habsent _ (by decide) i h
  obtain ⟨t, ht, hall⟩ := preset_carries flashblock (by simp [httpPresets]) "tok" hbody hcl hshort
  obtain ⟨t', rs, hnone, t'', frame, hframe⟩ := hall [] (List.replicate 1232 7)
    (by rw [List.length_replicate]; exact le_refl _)
  obtain ⟨rfl, -⟩ := Prod.mk.inj (Except.ok.inj hnone)
  exact ⟨hshort, t, ht, t'', frame, hframe⟩

end TxSender.Provider.Registry
