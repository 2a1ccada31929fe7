/-
# TxSender.Provider.Payload — what a provider finds in a request.

The body template of a preset is a JSON text in which one string is the placeholder. A request body
is that text with the base64 of a transaction as the string (`JsonTemplate.body_eq`), so whoever
reads it as JSON, follows the same path and decodes the string holds the transaction. The header
block in front of it is read by the crate's own parser, as long as the token adds no line to it.
-/
import TxSender.Lib.JsonPath
import TxSender.Http.RequestFrame
import TxSender.Provider.Registry

namespace TxSender.Provider.Registry

open TxSender.Lib
open TxSender.Lib.Json (Value Step Lit raw denote text plainLit object array string digit)
open TxSender.Lib.Search (find)
open TxSender.Http
open TxSender.Transport (buildEnvelope authPlacement)

/-! ## The payload as a string literal -/

/-- The characters of an ASCII text. -/
def ascii (b : Bytes) : List Char := b.map fun s => Char.ofNat s.toNat

theorem symbol_ascii {s : UInt8} (h : Base64.IsSymbol s) :
    String.utf8EncodeChar (Char.ofNat s.toNat) = [s] ∧ Char.ofNat s.toNat ≠ '"' ∧
      Char.ofNat s.toNat ≠ '\\' ∧ 32 ≤ (Char.ofNat s.toNat).toNat := by
  rcases h with rfl | ⟨v, hv, rfl⟩
  · decide
  · have hall : ∀ w : Fin 64, String.utf8EncodeChar (Char.ofNat (Base64.symbol w).toNat) =
        [Base64.symbol w] ∧ Char.ofNat (Base64.symbol w).toNat ≠ '"' ∧
          Char.ofNat (Base64.symbol w).toNat ≠ '\\' ∧
          32 ≤ (Char.ofNat (Base64.symbol w).toNat).toNat := by decide
    exact hall ⟨v, hv⟩

/-- The string a transaction is sent as. -/
def payload (tx : Bytes) : Lit := plainLit (String.ofList (ascii (Base64.encode tx)))

theorem payload_plain (tx : Bytes) :
    ∀ c ∈ (String.ofList (ascii (Base64.encode tx))).toList, c ≠ '"' ∧ c ≠ '\\' ∧ 32 ≤ c.toNat := by
  intro c hc
  rw [String.toList_ofList] at hc
  obtain ⟨s, hs, rfl⟩ := List.mem_map.mp hc
  exact (symbol_ascii (Base64.mem_encode hs)).2

theorem encodeUtf8_ascii {b : Bytes} (h : ∀ s ∈ b, Base64.IsSymbol s) :
    encodeUtf8 (ascii b) = b := by
  induction b with
  | nil => rfl
  | cons s b ih =>
      show encodeUtf8 (Char.ofNat s.toNat :: ascii b) = s :: b
      rw [encodeUtf8_cons, (symbol_ascii (h s (by simp))).1, ih fun r hr => h r (by simp [hr])]
      rfl

theorem encodeUtf8_payload (tx : Bytes) : encodeUtf8 (raw (payload tx)) = Base64.encode tx := by
  unfold payload
  rw [Json.raw_plainLit (payload_plain tx), String.toList_ofList]
  exact encodeUtf8_ascii fun s hs => Base64.mem_encode hs

/-- What a receiver makes of a JSON string that holds base64. -/
def decoded (s : Lit) : Option Bytes := (denote s).bind fun cs => Base64.decode (encodeUtf8 cs)

theorem decoded_payload (tx : Bytes) : decoded (payload tx) = some tx := by
  unfold decoded payload
  rw [Json.denote_plainLit (payload_plain tx), Option.bind_some, String.toList_ofList,
    encodeUtf8_ascii fun s hs => Base64.mem_encode hs]
  exact Base64.decode_encode tx

/-! ## Templates that are JSON -/

/-- A body template that is a JSON text with the placeholder as one of its strings. -/
structure JsonTemplate (template : String) where
  value : Value
  /-- Where the placeholder stands. -/
  path : List Step
  spells : template = String.ofList (text value.toks)
  hole : value.follow path = some (string "<<BODY>>")

/-- The tree of the request that carries a transaction. -/
def JsonTemplate.filled {template : String} (j : JsonTemplate template) (tx : Bytes) : Value :=
  j.value.fill j.path (.str (payload tx))

theorem encodeUtf8_text_str (s : Lit) :
    encodeUtf8 (text (Value.str s).toks) = 34 :: (encodeUtf8 (raw s) ++ [34]) := by
  show encodeUtf8 (('"' :: (raw s ++ ['"'])) ++ []) = _
  rw [List.append_nil, encodeUtf8_cons, encodeUtf8_append]
  rfl

/-- The template around its placeholder, and the request around its payload. -/
theorem JsonTemplate.body_eq {template : String} (j : JsonTemplate template) :
    ∃ bp bq, utf8 template = bp ++ (bodySentinel ++ bq) ∧
      ∀ tx, encodeUtf8 (text (j.filled tx).toks) = bp ++ (Base64.encode tx ++ bq) := by
  obtain ⟨l, r, hl, hput⟩ := Value.fill_toks j.hole
  have hsplit : ∀ s : Lit, encodeUtf8 (text (l ++ ((Value.str s).toks ++ r))) =
      (encodeUtf8 (text l) ++ [34]) ++ (encodeUtf8 (raw s) ++ (34 :: encodeUtf8 (text r))) := by
    intro s
    rw [Json.text_append, Json.text_append, encodeUtf8_append, encodeUtf8_append,
      encodeUtf8_text_str]
    simp only [List.append_assoc, List.cons_append, List.nil_append]
  refine ⟨encodeUtf8 (text l) ++ [34], 34 :: encodeUtf8 (text r), ?_, ?_⟩
  · have hmark : encodeUtf8 (raw (plainLit "<<BODY>>")) = bodySentinel := by decide +kernel
    rw [← hmark, ← hsplit, j.spells, utf8, String.toList_ofList, hl]
    rfl
  · intro tx
    show encodeUtf8 (text (j.value.fill j.path (.str (payload tx))).toks) = _
    rw [show (j.value.fill j.path (.str (payload tx))).toks = _ from hput _, hsplit,
      encodeUtf8_payload]

/-! ## One request -/

/-- The frame of a transaction that fits is a message with the filled template as its body. -/
theorem frame_message {b : EnvelopeSpecBuilder} (hhead : b.PlainHead) {bp bq tx : Bytes} {n : Nat}
    {r : Except EnvelopeError Bytes} (hfit : 4 * ((tx.length + 2) / 3) ≤ n)
    (h : FrameResult n b.front (crlfcrlf ++ bp) bq tx r) :
    r = .ok (frameMessage b (bp ++ (Base64.encode tx ++ bq))).bytes := by
  unfold FrameResult at h
  rw [if_neg (by omega)] at h
  obtain ⟨frame, sep, rfl, hfind, hframe⟩ := h
  set m := frame.length - (sep + 4) with hm
  have hsplit : frame =
      (b.front ++ (clField 12 m ++ crlfcrlf)) ++ (bp ++ (Base64.encode tx ++ bq)) := by
    rw [hframe]
    simp only [List.append_assoc]
  -- the first blank line is the one behind the number, so the number is the length of the body
  have hends := find_frameHeader hhead.oneLine m
  have hbound := Search.find_bound hends
  have hcr : crlfcrlf.length = 4 := rfl
  have hsep : sep = (b.front ++ (clField 12 m ++ crlfcrlf)).length - 4 := by
    have hright := Search.find_append_right hends (bp ++ (Base64.encode tx ++ bq))
    rw [← hsplit, hfind] at hright
    exact Option.some.inj hright
  have hlen : m = (bp ++ (Base64.encode tx ++ bq)).length := by
    have htotal := congrArg List.length hsplit
    rw [List.length_append] at htotal
    omega
  rw [hsplit, hlen]
  rfl

/-- What a receiver reads in the body of a message: a JSON text with this transaction at the end of
the path. -/
def Carries (body : Bytes) (path : List Step) (tx : Bytes) : Prop :=
  ∃ (v : Value) (s : Lit), body = encodeUtf8 (text v.toks) ∧ v.follow path = some (.str s) ∧
    decoded s = some tx

theorem JsonTemplate.carries {template : String} (j : JsonTemplate template) (tx : Bytes) :
    Carries (encodeUtf8 (text (j.filled tx).toks)) j.path tx :=
  ⟨j.filled tx, payload tx, rfl, Value.follow_fill j.hole _, decoded_payload tx⟩

/-- A compiled JSON template, after any calls: the frame of a transaction that fits parses to a body
that carries it. -/
theorem JsonTemplate.reads_back {template : String} (j : JsonTemplate template)
    {b : EnvelopeSpecBuilder} (hb : b.bodyTpl = template) (hhead : b.PlainHead)
    (hshort : b.paddedLen < 2 ^ 32) {t : EnvelopeTemplate} (hc : b.build.compile = .ok (.ok t))
    (history : List Bytes) {tx : Bytes} (hfit : 4 * ((tx.length + 2) / 3) ≤ b.maxBody) :
    ∃ t' rs, t.spliceAll history = .ok (t', rs) ∧
      ∃ t'' frame body, t'.splice tx = .ok (t'', .ok frame) ∧
        bodyIfComplete frame = .ok (some body) ∧ Carries body j.path tx := by
  obtain ⟨bp, bq, htpl, hbody⟩ := j.body_eq
  rw [← hb] at htpl
  obtain ⟨slot, hslot, hlay⟩ := EnvelopeSpecBuilder.layout_front htpl hshort hc
  obtain ⟨t', rs, hall, hlay', -⟩ := hlay.spliceAll_results history
  obtain ⟨t'', r, hr, -, hres⟩ := hlay'.splice_result tx
  obtain rfl := frame_message hhead (by rw [hslot]; exact hfit) hres
  refine ⟨t', rs, hall, t'', _, _, hr, ?_, hbody tx ▸ j.carries tx⟩
  -- the message is no longer than the template it was made from
  have hroom := hlay.short
  have hload := Base64.length_encode tx
  rw [hlay.buf] at hroom
  simp only [List.length_append] at hroom
  set body := bp ++ (Base64.encode tx ++ bq) with hdef
  have hbody32 : b.front.length + body.length < 2 ^ 32 := by
    rw [hdef, List.length_append, List.length_append]
    omega
  have hfield : (clField 12 body.length).length = 12 :=
    length_clField (length_decimal_le (by omega) (by omega))
  have hbytes : (frameMessage b body).bytes.length < 2 ^ 64 := by
    show ((b.front ++ (clField 12 body.length ++ crlfcrlf)) ++ body).length < 2 ^ 64
    have hcr : crlfcrlf.length = 4 := rfl
    simp only [List.length_append]
    omega
  have hfull := (frameMessage_wellFormed hhead (by omega)).bodyIfComplete_full hbytes []
  rw [List.append_nil] at hfull
  exact hfull

/-! ## The head of a preset's request -/

/-- A line that starts with neither `c` nor `C` does not name the content length. -/
theorem not_isClLine_of_head {l : List Char} {x : UInt8} (h : (encodeUtf8 l).head? = some x)
    (hx : toAsciiLower x ≠ 99) : isClLine l = false := by
  cases l with
  | nil => cases h
  | cons c cs =>
      rw [encodeUtf8_cons] at h
      obtain ⟨y, ys, henc⟩ := List.exists_cons_of_length_pos
        (show 0 < (String.utf8EncodeChar c).length by
          rw [String.length_utf8EncodeChar]
          exact c.utf8Size_pos)
      obtain rfl : y = x := by
        rw [henc] at h
        exact Option.some.inj h
      rw [Bool.eq_false_iff]
      intro hline
      have hlow : (encodeUtf8 ((c :: cs).take clPrefix.length)).map toAsciiLower =
          clPrefix.map toAsciiLower := by simpa [isClLine, eqIgnoreAsciiCase] using hline
      rw [show clPrefix.length = 14 + 1 by decide, List.take_succ_cons, encodeUtf8_cons, henc] at hlow
      exact hx (Option.some.inj (congrArg List.head? hlow))

theorem OneLine.append {s t : String} (hs : OneLine s) (ht : OneLine t) : OneLine (s ++ t) := by
  unfold OneLine
  rw [String.toList_append, List.mem_append, List.mem_append, not_or, not_or]
  exact ⟨⟨hs.1, ht.1⟩, hs.2, ht.2⟩

/-- A header name that is one line and starts with neither `c` nor `C`. -/
def PlainName (name : String) : Prop :=
  OneLine name ∧ ∃ x ∈ (utf8 name).head?, toAsciiLower x ≠ 99

instance (name : String) : Decidable (PlainName name) := inferInstanceAs (Decidable (_ ∧ _))

/-- The authentication adds no line of its own making. -/
def PlainAuth : AuthPlacement → Prop
  | .none => True
  | .header name value => PlainName name ∧ OneLine value
  | .urlParam key value => OneLine key ∧ OneLine value
  | .urlPath token => OneLine token

/-- A request as `build_envelope` makes it, whatever its body. -/
theorem plainHead_httpCfg {host path serverName body : String} {port : UInt16} {auth : HttpAuth}
    (hpath : OneLine path) (hserver : OneLine serverName) (hauth : PlainAuth (authPlacement auth)) :
    (envelopeBuilder (httpCfg host port path serverName auth body)).PlainHead := by
  have hpost : ∀ target : String,
      isClLine ("POST" ++ " " ++ target ++ " HTTP/1.1").toList = false := by
    intro target
    apply not_isClLine_of_head (x := 80)
    · rw [String.append_assoc, String.append_assoc, String.toList_append, encodeUtf8_append]
      rfl
    · decide
  have hstrings : ∀ rest : List String, (∀ s ∈ rest, OneLine s) →
      ∀ s ∈ "POST" :: path :: serverName :: rest, OneLine s := by
    intro rest hrest
    exact List.forall_mem_cons.mpr ⟨by decide, List.forall_mem_cons.mpr ⟨hpath,
      List.forall_mem_cons.mpr ⟨hserver, hrest⟩⟩⟩
  have hplain : ((EnvelopeSpecBuilder.new "POST" path serverName maxBody).authPlacement
      (authPlacement auth)).PlainHead := by
    cases ha : authPlacement auth with
    | none => exact ⟨hstrings [] (by simp), List.forall_mem_singleton.mpr (hpost _)⟩
    | header name value =>
        rw [ha] at hauth
        obtain ⟨⟨hname, x, hx, hne⟩, hvalue⟩ := hauth
        refine ⟨hstrings [name, value] (by simp [hname, hvalue]), ?_⟩
        refine List.forall_mem_cons.mpr ⟨hpost _, List.forall_mem_singleton.mpr ?_⟩
        apply not_isClLine_of_head _ hne
        show (utf8 (name ++ ": " ++ value)).head? = some x
        rw [utf8_append, utf8_append, List.append_assoc, List.head?_append, Option.mem_def.mp hx]
        rfl
    | urlParam key value =>
        rw [ha] at hauth
        exact ⟨hstrings [key, value] (by simp [hauth.1, hauth.2]),
          List.forall_mem_singleton.mpr (hpost _)⟩
    | urlPath token =>
        rw [ha] at hauth
        exact ⟨hstrings [token] (List.forall_mem_singleton.mpr hauth),
          List.forall_mem_singleton.mpr (hpost _)⟩
  show EnvelopeSpecBuilder.PlainHead (if body = "" then _ else _)
  by_cases hempty : body = ""
  · rw [if_pos hempty]
    exact hplain
  · rw [if_neg hempty]
    exact ⟨hplain.oneLine, hplain.notLength⟩

theorem plainHead_preset {preset : String → ProviderConfig} (hp : preset ∈ httpPresets)
    {token : String} (htoken : OneLine token) :
    (envelopeBuilder (preset token)).PlainHead := by
  have hheader : ∀ {name : String}, PlainName name → PlainAuth (authPlacement (.header name token)) :=
    fun hname => ⟨hname, htoken⟩
  have hquery : ∀ {key : String}, OneLine key → PlainAuth (authPlacement (.urlParam key token)) :=
    fun hkey => ⟨hkey, htoken⟩
  have hroot : OneLine "/" := by decide
  simp only [httpPresets, List.mem_cons, List.not_mem_nil, or_false] at hp
  rcases hp with rfl | rfl | rfl | rfl | rfl | rfl | rfl | rfl | rfl | rfl | rfl | rfl | rfl
  · -- the token stands in the path too
    have hpath : OneLine ("/api/v1/transactions?uuid=" ++ token) :=
      OneLine.append (by decide +kernel) htoken
    exact plainHead_httpCfg hpath (by decide +kernel) (hheader (by decide +kernel))
  · have hpath : OneLine ("/api/v1/bundles?uuid=" ++ token) :=
      OneLine.append (by decide +kernel) htoken
    exact plainHead_httpCfg hpath (by decide +kernel) (hheader (by decide +kernel))
  · exact plainHead_httpCfg (by decide +kernel) (by decide +kernel) (hheader (by decide +kernel))
  · exact plainHead_httpCfg hroot (by decide +kernel) (hquery (by decide +kernel))
  · exact plainHead_httpCfg hroot (by decide +kernel) (hquery (by decide +kernel))
  · exact plainHead_httpCfg (by decide +kernel) (by decide +kernel) (hheader (by decide +kernel))
  · exact plainHead_httpCfg hroot (by decide +kernel) (hheader (by decide +kernel))
  · exact plainHead_httpCfg (by decide +kernel) (by decide +kernel) (hheader (by decide +kernel))
  · exact plainHead_httpCfg (by decide +kernel) (by decide +kernel) (hheader (by decide +kernel))
  · exact plainHead_httpCfg hroot (by decide +kernel) (hheader (by decide +kernel))
  · -- the token is the path
    exact plainHead_httpCfg (OneLine.append hroot htoken) (by decide +kernel) trivial
  · exact plainHead_httpCfg hroot (by decide +kernel) (hquery (by decide +kernel))
  · exact plainHead_httpCfg hroot (by decide +kernel) (hquery (by decide +kernel))

/-! ## The body of a preset's request -/

theorem one_lt_ten : 1 < 10 := by decide

/-- A JSON-RPC call. -/
def rpc (method : String) (params : List Value) : Value :=
  object [("jsonrpc", string "2.0"), ("id", digit ⟨1, one_lt_ten⟩), ("method", string method),
    ("params", array params)]

/-- The options of a submission, the encoding first. -/
def options (more : List (String × Value)) : Value := object (("encoding", string "base64") :: more)

/-- The string the payload goes into. -/
def hole : Value := string "<<BODY>>"

/-- The first parameter of a call. -/
def firstParam : List Step := [.member (plainLit "params"), .index 0]

theorem follow_firstParam (method : String) (v : Value) (vs : List Value) (p : List Step) :
    (rpc method (v :: vs)).follow (firstParam ++ p) = v.follow p := by
  have hparams : (rpc method (v :: vs)).child (.member (plainLit "params")) =
      some (array (v :: vs)) := rfl
  have hfirst : (array (v :: vs)).child (.index 0) = some v := by
    cases vs with
    | nil => rfl
    | cons w vs => rfl
  show ((rpc method (v :: vs)).child (.member (plainLit "params"))).bind _ = _
  rw [hparams, Option.bind_some]
  show ((array (v :: vs)).child (.index 0)).bind (Value.follow p) = _
  rw [hfirst, Option.bind_some]

/-- A template with its tree, at a path that does not depend on the token. -/
def HoleAt (preset : String → ProviderConfig) (path : List Step) : Prop :=
  ∀ token, ∃ j : JsonTemplate (preset token).bodyTemplate, j.path = path

theorem HoleAt.of_tree {preset : String → ProviderConfig} {path : List Step} (v : Value)
    (hspells : ∀ token, (preset token).bodyTemplate = String.ofList (text v.toks))
    (hhole : v.follow path = some hole) : HoleAt preset path :=
  fun token => ⟨⟨v, path, hspells token, hhole⟩, rfl⟩

/-- The payload is the first parameter of a call. -/
theorem HoleAt.of_rpc {preset : String → ProviderConfig} (method : String) (vs : List Value)
    (hspells : ∀ token, (preset token).bodyTemplate =
      String.ofList (text (rpc method (hole :: vs)).toks)) : HoleAt preset firstParam := by
  apply HoleAt.of_tree _ hspells
  rw [← List.append_nil firstParam, follow_firstParam]
  rfl

-- the literals of a request body are longer than the default depth allows for
set_option maxRecDepth 4000 in
theorem holeAt_preset {preset : String → ProviderConfig} (hp : preset ∈ httpPresets) :
    ∃ path, HoleAt preset path := by
  simp only [httpPresets, List.mem_cons, List.not_mem_nil, or_false] at hp
  rcases hp with rfl | rfl | rfl | rfl | rfl | rfl | rfl | rfl | rfl | rfl | rfl | rfl | rfl
  · exact ⟨_, .of_rpc "sendTransaction" [options []] fun _ => rfl⟩
  · -- a bundle is a list of transactions
    refine ⟨firstParam ++ [.index 0], .of_tree (rpc "sendBundle" [array [hole], options []])
      (fun _ => rfl) ?_⟩
    rw [follow_firstParam]
    rfl
  · exact ⟨[.member (plainLit "transaction"), .member (plainLit "content")],
      .of_tree (object [("transaction", object [("content", hole)]),
        ("frontRunningProtection", .false)]) (fun _ => rfl) rfl⟩
  · exact ⟨_, .of_rpc "sendTransaction" [options [("skipPreflight", .true)]] fun _ => rfl⟩
  · exact ⟨_, .of_rpc "sendTransaction" [options []] fun _ => rfl⟩
  · exact ⟨[.member (plainLit "transaction"), .member (plainLit "content")],
      .of_tree (object [("transaction", object [("content", hole)]),
        ("frontRunningProtection", .false), ("useStakedRPCs", .true)]) (fun _ => rfl) rfl⟩
  · exact ⟨_, .of_rpc "sendTransaction" [options [("skipPreflight", .true)]] fun _ => rfl⟩
  · exact ⟨[.member (plainLit "transactions"), .index 0],
      .of_tree (object [("transactions", array [hole])]) (fun _ => rfl) rfl⟩
  · exact ⟨[.member (plainLit "transaction")],
      .of_tree (object [("transaction", hole), ("mode", string "fast")]) (fun _ => rfl) rfl⟩
  · exact ⟨_, .of_rpc "sendTransaction" [options [("skipPreflight", .true)],
      object [("mevProtect", .false)]] fun _ => rfl⟩
  · exact ⟨_, .of_rpc "sendTransaction" [options []] fun _ => rfl⟩
  · exact ⟨_, .of_rpc "sendTransaction" [options [("skipPreflight", .true),
      ("preflightCommitment", string "processed"), ("maxRetries", digit 0)]] fun _ => rfl⟩
  · exact ⟨_, .of_rpc "sendTransaction" [options [("skipPreflight", .true),
      ("maxRetries", digit 0)]] fun _ => rfl⟩

/-- A JSON template is not empty, so it is the one the request is built with. -/
theorem JsonTemplate.bodyTpl_eq {p : ProviderConfig} (j : JsonTemplate p.bodyTemplate) :
    (envelopeBuilder p).bodyTpl = p.bodyTemplate := by
  have hne : p.bodyTemplate ≠ "" := by
    intro hempty
    obtain ⟨bp, bq, htpl, -⟩ := j.body_eq
    have hlen := congrArg List.length htpl
    rw [hempty, List.length_append, List.length_append, length_bodySentinel] at hlen
    exact absurd hlen (by
      show 0 ≠ _
      omega)
  unfold envelopeBuilder
  rw [if_neg hne]
  rfl

/-! ## Every transaction is read back -/

/-- **What a provider reads is what was triggered.** Every HTTP preset has a place in its body such
that, for every token of one line that holds neither sentinel, with the padded template below `2^32`
bytes: the request compiles, and after any history of calls the frame of every transaction of at most
`MAX_TX_LEN` bytes parses to a JSON text whose string at that place is the base64 of the
transaction. -/
theorem preset_request_reads_back (preset : String → ProviderConfig) (hp : preset ∈ httpPresets) :
    ∃ path, ∀ token, OneLine token → ¬ Contains token "<<BODY>>" → ¬ Contains token "<<CL>>" →
      (envelopeBuilder (preset token)).paddedLen < 2 ^ 32 →
      ∃ t, (buildEnvelope (preset token)).compile = .ok (.ok t) ∧
        ∀ history tx, tx.length ≤ maxTxLen →
          ∃ t' rs, t.spliceAll history = .ok (t', rs) ∧
            ∃ t'' frame body, t'.splice tx = .ok (t'', .ok frame) ∧
              bodyIfComplete frame = .ok (some body) ∧ Carries body path tx := by
  obtain ⟨path, hpath⟩ := holeAt_preset hp
  refine ⟨path, ?_⟩
  intro token hline hbody hcl hshort
  have hclear := clear_preset hp (unmarked_of_not_contains hbody hcl)
  have hmax := maxBody_preset hp token
  have hhead := plainHead_preset hp hline
  obtain ⟨j, rfl⟩ := hpath token
  rw [buildEnvelope_eq]
  obtain ⟨i, hi⟩ := EnvelopeSpecBuilder.once_iff.mp hclear.once.1
  obtain ⟨k, hk⟩ := EnvelopeSpecBuilder.once_iff.mp hclear.once.2
  obtain ⟨t, ht⟩ := EnvelopeSpecBuilder.compile_of_found hi hk (by rw [hmax]; decide) hshort
  refine ⟨t, ht, ?_⟩
  intro history tx htx
  -- 1232 bytes encode to exactly the 1644 the slot holds
  have hfit : 4 * ((tx.length + 2) / 3) ≤ (envelopeBuilder (preset token)).maxBody := by
    rw [hmax]
    unfold maxTxLen at htx
    unfold maxBody
    omega
  exact j.reads_back j.bodyTpl_eq hhead hshort ht history hfit

/-- The longest transaction, behind one call that was refused. -/
theorem preset_request_reads_back_flashblock :
    ∃ path t, (buildEnvelope (flashblock "tok")).compile = .ok (.ok t) ∧
      ∃ t' rs t'' frame body, t.spliceAll [List.replicate 2000 1] = .ok (t', rs) ∧
        t'.splice (List.replicate 1232 7) = .ok (t'', .ok frame) ∧
        bodyIfComplete frame = .ok (some body) ∧ Carries body path (List.replicate 1232 7) := by
  have hclean : ∀ sub : String, 3 < (utf8 sub).length → ¬ Contains "tok" sub := by
    rintro sub hlong ⟨i, h⟩
    have hbound := h.bound
    rw [show (utf8 "tok").length = 3 by decide] at hbound
    omega
  obtain ⟨path, hpath⟩ := preset_request_reads_back flashblock (by simp [httpPresets])
  obtain ⟨t, ht, hall⟩ := hpath "tok" (by decide) (hclean _ (by decide)) (hclean _ (by decide))
    (by decide +kernel)
  obtain ⟨t', rs, hrun, t'', frame, body, hframe, hbody, hcarries⟩ := hall [List.replicate 2000 1]
    (List.replicate 1232 7) (by rw [List.length_replicate]; exact le_refl _)
  exact ⟨path, t, ht, t', rs, t'', frame, body, hrun, hframe, hbody, hcarries⟩

end TxSender.Provider.Registry
