/-
# TxSender.Http.SpecBuilder — the request template before compilation.

`EnvelopeSpecBuilder::build` writes the request line, the header block and the body template into
one byte string. Two sentinels mark what changes per job: `<<BODY>>` for the encoded transaction
and a 12-byte slot for the content length.
-/
import TxSender.Lib.Text

namespace TxSender.Http

open TxSender.Lib

structure BodyPlaceholder where
  sentinel : Bytes
  maxLen : Nat
  deriving DecidableEq, Repr

structure ContentLengthSpec where
  sentinel : Bytes
  width : Nat
  deriving DecidableEq, Repr

structure EnvelopeSpec where
  bytes : Bytes
  body : BodyPlaceholder
  contentLength : Option ContentLengthSpec
  deriving DecidableEq, Repr

inductive AuthPlacement where
  | none
  | header (name value : String)
  | urlParam (key value : String)
  | urlPath (token : String)
  deriving DecidableEq, Repr

structure EnvelopeSpecBuilder where
  httpMethod : String
  basePath : String
  host : String
  extraHeaders : List (String × String)
  bodyTpl : String
  maxBody : Nat
  auth : AuthPlacement
  deriving DecidableEq, Repr

/-- `str::trim_end_matches(c)` -/
def trimEndMatches (s : String) (c : Char) : String :=
  String.ofList (s.toList.rdropWhile (· == c))

/-- The body template used when the caller sets none. -/
def defaultBody : String :=
  "\x7b\"jsonrpc\":\"2.0\",\"id\":1,\"method\":\"sendTransaction\",\"params\":[\"<<BODY>>\",\x7b\"encoding\":\"base64\",\"skipPreflight\":true,\"maxRetries\":0\x7d]\x7d"

def bodySentinel : Bytes := utf8 "<<BODY>>"

def clSentinel : Bytes := utf8 "<<CL>>      "

namespace EnvelopeSpecBuilder

def new (method path host : String) (maxBody : Nat) : EnvelopeSpecBuilder where
  httpMethod := method
  basePath := path
  host := host
  extraHeaders := []
  bodyTpl := defaultBody
  maxBody := maxBody
  auth := .none

def sendTransaction (path host : String) (maxBody : Nat) : EnvelopeSpecBuilder :=
  new "POST" path host maxBody

def authPlacement (b : EnvelopeSpecBuilder) (a : AuthPlacement) : EnvelopeSpecBuilder :=
  { b with auth := a }

def bodyTemplate (b : EnvelopeSpecBuilder) (tpl : String) : EnvelopeSpecBuilder :=
  { b with bodyTpl := tpl }

def header (b : EnvelopeSpecBuilder) (name value : String) : EnvelopeSpecBuilder :=
  { b with extraHeaders := b.extraHeaders ++ [(name, value)] }

/-- The request target, with the authentication that goes into it. -/
def path (b : EnvelopeSpecBuilder) : String :=
  match b.auth with
  | .urlParam key value => b.basePath ++ "?" ++ key ++ "=" ++ value
  | .urlPath token => trimEndMatches b.basePath '/' ++ "/" ++ token
  | _ => b.basePath

/-- One `name: value` header line. -/
def headerLine (name value : String) : String := name ++ ": " ++ value ++ "\r\n"

/-- Everything `build` writes before the content-length line. -/
def head (b : EnvelopeSpecBuilder) : String :=
  let wire := b.httpMethod ++ " " ++ b.path ++ " HTTP/1.1\r\n"
  let wire := wire ++ "Host: " ++ b.host ++ "\r\n"
  let wire := wire ++ "Content-Type: application/json\r\n"
  let wire := match b.auth with
    | .header name value => wire ++ headerLine name value
    | _ => wire
  b.extraHeaders.foldl (fun wire h => wire ++ headerLine h.1 h.2) wire

/-- The whole request, sentinels included. -/
def wire (b : EnvelopeSpecBuilder) : String :=
  b.head ++ "Content-Length: <<CL>>      \r\n" ++ "\r\n" ++ b.bodyTpl

def build (b : EnvelopeSpecBuilder) : EnvelopeSpec where
  bytes := utf8 b.wire
  body := { sentinel := bodySentinel, maxLen := b.maxBody }
  contentLength := some { sentinel := clSentinel, width := 12 }

end EnvelopeSpecBuilder

end TxSender.Http
