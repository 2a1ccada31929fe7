/-
# TxSender.Http.Engine — HTTP/1.1 over TLS: encoding requests, reassembling responses.

The engine owns the TLS session, the request template and the plaintext received so far. The TLS
library is a parameter: `Tls` lists the calls the engine makes on a session. `ingest` runs received
ciphertext through the session, appends the plaintext to `rxPlain` and looks for one complete
response there.
-/
import TxSender.Http.Envelope

namespace TxSender.Http

open TxSender.Lib
open TxSender.Lib.Exec

def maxResponse : Nat := 64 * 1024

/-! ## Looking for a complete response -/

/-- `b"content-length:"` -/
def clPrefix : Bytes := utf8 "content-length:"

/-- The header scan: the trimmed value of the first line that starts with the prefix, in any letter
case. The value is cut at an octet offset, which is why the scan can panic. -/
def findContentLength : List (List Char) → Exec (Option (List Char))
  | [] => .ok none
  | l :: ls =>
      let bytes := encodeUtf8 l
      if bytes.length ≥ clPrefix.length ∧
          eqIgnoreAsciiCase (bytes.take clPrefix.length) clPrefix then do
        let value ← strFrom l clPrefix.length
        pure (some (trim value))
      else findContentLength ls

/-- The body of the response at the front of `acc`, if all of it is there. -/
def bodyIfComplete (acc : Bytes) : Exec (Option Bytes) :=
  match Search.find crlfcrlf acc with
  | none => .ok none
  | some sep =>
      let headerEnd := sep + 4
      match decodeUtf8 (acc.take headerEnd) with
      | none => .ok none
      | some headers => do
          let cl ← findContentLength (lines headers)
          match cl.bind parseUsize with
          | none => pure none
          | some len => do
              let stop ← addUsize headerEnd len
              if acc.length ≥ stop then (slice acc headerEnd stop).map some else pure none

/-! ## The engine -/

/-- The calls made on a TLS session. `writeTls` and `readPlain` stand for the loops that move
everything pending into a vector. -/
structure Tls (T : Type) where
  /-- `writer().write_all(frame)` -/
  writeAll : T → Bytes → T × Except IoError Unit
  /-- `while wants_write() { write_tls(&mut vec) }` -/
  writeTls : T → T × Bytes
  /-- `read_tls(&mut cipher)`: how many bytes were taken off the front -/
  readTls : T → Bytes → T × Except IoError Nat
  processNewPackets : T → T × Except String Unit
  /-- `reader().read(..)` until it has nothing more, or fails -/
  readPlain : T → T × Bytes × Option IoError

structure HttpEngine (T : Type) where
  tls : T
  envelope : EnvelopeTemplate
  rxPlain : Bytes
  ciphertext : Bytes

variable {T : Type}

/-- `ingest`'s first loop. Each round takes at least one byte, so `cipher.length` rounds are
enough. -/
def Tls.readLoop (api : Tls T) : (fuel : Nat) → T → Bytes → T × Option TransportError
  | 0, t, _ => (t, none)
  | fuel + 1, t, cipher =>
      if cipher = [] then (t, none)
      else
        match api.readTls t cipher with
        | (t, .error e) => (t, some (.io e))
        | (t, .ok n) =>
            if n = 0 then (t, none)
            else
              match api.processNewPackets t with
              | (t, .error e) => (t, some (.tls e))
              | (t, .ok ()) => api.readLoop fuel t (cipher.drop n)

/-- Both loops of `ingest`: the session after them, the plaintext it released and the error that
ended them early. -/
def Tls.feed (api : Tls T) (t : T) (cipher : Bytes) : T × Bytes × Option TransportError :=
  match api.readLoop cipher.length t cipher with
  | (t, some e) => (t, [], some e)
  | (t, none) =>
      match api.readPlain t with
      | (t, plain, none) => (t, plain, none)
      | (t, plain, some e) => (t, plain, some (.io e))

/-- `ingest`, once the plaintext has been appended: hand out one complete response and clear the
buffer, or keep waiting, or give up above the limit. -/
def settle (rxPlain : Bytes) : Exec (Bytes × Except TransportError (Option Bytes)) := do
  match ← bodyIfComplete rxPlain with
  | some body => pure ([], .ok (some body))
  | none =>
      if rxPlain.length > maxResponse then
        pure (rxPlain, .error (.tls "response exceeds maximum size"))
      else pure (rxPlain, .ok none)

namespace HttpEngine

/-- A fresh engine around a TLS session. -/
def new (session : T) (envelope : EnvelopeTemplate) : HttpEngine T where
  tls := session
  envelope := envelope
  rxPlain := []
  ciphertext := []

def encode (api : Tls T) (e : HttpEngine T) (tx : Bytes) :
    Exec (HttpEngine T × Except TransportError Bytes) := do
  let (envelope, r) ← e.envelope.splice tx
  match r with
  | .error err => pure ({ e with envelope }, .error (.envelope err))
  | .ok frame =>
      match api.writeAll e.tls frame with
      | (session, .error err) => pure ({ e with envelope, tls := session }, .error (.io err))
      | (session, .ok ()) =>
          let (session, cipher) := api.writeTls session
          pure ({ e with envelope, tls := session, ciphertext := cipher }, .ok cipher)

def ingest (api : Tls T) (e : HttpEngine T) (cipher : Bytes) :
    Exec (HttpEngine T × Except TransportError (Option Bytes)) :=
  if cipher = [] then do
    let (rxPlain, r) ← settle e.rxPlain
    pure ({ e with rxPlain }, r)
  else
    match api.feed e.tls cipher with
    | (session, plain, some err) =>
        .ok ({ e with tls := session, rxPlain := e.rxPlain ++ plain }, .error err)
    | (session, plain, none) => do
        let (rxPlain, r) ← settle (e.rxPlain ++ plain)
        pure ({ e with tls := session, rxPlain }, r)

/-- Successive `ingest` calls, with the result of each. -/
def ingestAll (api : Tls T) (e : HttpEngine T) :
    List Bytes → Exec (HttpEngine T × List (Except TransportError (Option Bytes)))
  | [] => .ok (e, [])
  | c :: cs => do
      let (e, r) ← e.ingest api c
      let (e, rs) ← e.ingestAll api cs
      pure (e, r :: rs)

end HttpEngine

/-- The bodies among the results of successive calls. -/
def returned (rs : List (Except TransportError (Option Bytes))) : List Bytes :=
  rs.filterMap fun r => match r with
    | .ok body => body
    | .error _ => none

end TxSender.Http
