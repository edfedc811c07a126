/-
ArmatureH1.Write — response serialization, from `write.rs`.

The source appends to a caller's buffer; here every function returns the
bytes it would append. `write_head_for` makes one walk over the handler's
fields, judges the two framing fields by it, and then writes the fields; the
walk is `FieldScan`, the judgements are `staleTransferEncoding` and
`handlerLengthIsStale`, the loop body is `writeField`.

The `Date` value is an argument, as it is in the source: `DateCache` formats
it with a library.
-/
import ArmatureH1.Chunked
import ArmatureH1.Lib.Numeral

namespace ArmatureH1

open ByteString

/-! ## Numbers -/

/-- `write_u64`: a scratch array of 20 cells, filled from the back. -/
def writeU64 (v : Nat) : Bytes := Numeral.render 10 (fun d => (48 + d).toUInt8) 20 v []

/-- The `HEX` table of `write_hex`. -/
def hexDigit (d : Nat) : UInt8 := (ascii "0123456789abcdef").getD d 0

/-- `write_hex`: a scratch array of 16 cells, filled from the back. -/
def writeHex (v : Nat) : Bytes := Numeral.render 16 hexDigit 16 v []

/-! ## Chunked bodies -/

/-- `valid_field_value`. -/
def validFieldValue (value : Bytes) : Bool := !value.any fun b => b == CR || b == LF || b == 0

/-- `writable`. -/
def writable (id : HeaderId) (value : Bytes) : Bool :=
  let nameOk := match id with
    | .other name => validFieldName name.bytes
    | _ => true
  nameOk && validFieldValue value

/-- `name ": " value CRLF`, as every field is written. -/
def writeFieldLine (name value : Bytes) : Bytes := name ++ ascii ": " ++ value ++ crlf

/-- `write_chunk`. -/
def writeChunk (data : Bytes) : Bytes := writeHex data.length ++ crlf ++ data ++ crlf

/-- The loop body of `write_last_chunk`. -/
def writeTrailer (f : HeaderId × Bytes) : Bytes :=
  if f.1.canonical.forbiddenInTrailers then []
  else if writable f.1 f.2 = false then []
  else writeFieldLine f.1.asStr f.2

/-- `write_last_chunk`. -/
def writeLastChunk (trailers : HeaderVec) : Bytes :=
  ascii "0\r\n" ++ trailers.flatMap writeTrailer ++ crlf

/-! ## Response heads -/

/-- `OutBody`. -/
inductive OutBody where
  | none
  | fixed (b : Bytes)
  | chunked
  deriving DecidableEq

/-- `ResponseHead`. -/
structure ResponseHead where
  status : Nat
  headers : HeaderVec

/-- `reason_phrase`. -/
def reasonPhrase (status : Nat) : Bytes :=
  match status with
  | 100 => ascii "Continue"
  | 101 => ascii "Switching Protocols"
  | 200 => ascii "OK"
  | 201 => ascii "Created"
  | 202 => ascii "Accepted"
  | 204 => ascii "No Content"
  | 206 => ascii "Partial Content"
  | 301 => ascii "Moved Permanently"
  | 302 => ascii "Found"
  | 303 => ascii "See Other"
  | 304 => ascii "Not Modified"
  | 307 => ascii "Temporary Redirect"
  | 308 => ascii "Permanent Redirect"
  | 400 => ascii "Bad Request"
  | 401 => ascii "Unauthorized"
  | 403 => ascii "Forbidden"
  | 404 => ascii "Not Found"
  | 405 => ascii "Method Not Allowed"
  | 406 => ascii "Not Acceptable"
  | 408 => ascii "Request Timeout"
  | 409 => ascii "Conflict"
  | 411 => ascii "Length Required"
  | 412 => ascii "Precondition Failed"
  | 413 => ascii "Content Too Large"
  | 414 => ascii "URI Too Long"
  | 415 => ascii "Unsupported Media Type"
  | 416 => ascii "Range Not Satisfiable"
  | 417 => ascii "Expectation Failed"
  | 421 => ascii "Misdirected Request"
  | 422 => ascii "Unprocessable Content"
  | 426 => ascii "Upgrade Required"
  | 428 => ascii "Precondition Required"
  | 429 => ascii "Too Many Requests"
  | 431 => ascii "Request Header Fields Too Large"
  | 500 => ascii "Internal Server Error"
  | 501 => ascii "Not Implemented"
  | 502 => ascii "Bad Gateway"
  | 503 => ascii "Service Unavailable"
  | 504 => ascii "Gateway Timeout"
  | 505 => ascii "HTTP Version Not Supported"
  | _ => []

/-- `forbids_body_framing`. -/
def forbidsBodyFraming (status : Nat) : Bool :=
  status == 204 || status == 304 || (100 ≤ status && status < 200)

/-- `content_length_is_descriptive`. -/
def contentLengthIsDescriptive (status : Nat) : Bool := status == 304

/-- `is_final_status`. -/
def isFinalStatus (status : Nat) (upgradeRequested : Bool) : Bool :=
  (200 ≤ status && status ≤ 599) || (status == 101 && upgradeRequested)

/-- `connection_tokens`. -/
def connectionTokens (value : Bytes) : List Bytes :=
  ((value.splitOn 44).map trimOws).filter fun t =>
    !t.isEmpty && t.all isTchar
      && !eqIgnoreAsciiCase t (ascii "close")
      && !eqIgnoreAsciiCase t (ascii "keep-alive")
      && !eqIgnoreAsciiCase t (ascii "content-length")
      && !eqIgnoreAsciiCase t (ascii "transfer-encoding")

/-- Tokens as one comma list. -/
def joinTokens : List Bytes → Bytes
  | [] => []
  | first :: rest => first ++ rest.flatMap fun t => ascii ", " ++ t

/-- `write_connection_tokens`. -/
def writeConnectionTokens (value : Bytes) : Bytes :=
  match connectionTokens value with
  | [] => []
  | first :: rest =>
    ascii "connection: " ++ first ++ rest.flatMap (fun t => ascii ", " ++ t) ++ crlf

/-- The number a digit string stands for. -/
def decimal (v : Bytes) : Nat := Numeral.value 10 (v.map fun b => b.toNat - 48)

/-- `parse_len`. -/
def parseLen (v : Bytes) : Option Nat :=
  if v = [] ∨ v.all isAsciiDigit = false then none
  else if decimal v < 2 ^ 64 then some (decimal v) else none

/-- `te_frames_chunked`. -/
def teFramesChunked (v : Bytes) : Bool :=
  isAscii v &&
    (((v.splitOn 44).map trimOws).reverse.find? fun c => !c.isEmpty).any
      (eqIgnoreAsciiCase · (ascii "chunked"))

/-- `handler_length_is_stale`. -/
def handlerLengthIsStale (value : Bytes) (instances status : Nat) (headRequest : Bool)
    (bodyLen : Option Nat) (competingTe : Bool) : Bool :=
  if instances > 1 ∨ (forbidsBodyFraming status && !contentLengthIsDescriptive status) = true then
    true
  else if contentLengthIsDescriptive status || (headRequest && !forbidsBodyFraming status) then
    (parseLen value).isNone || competingTe
  else bodyLen.isNone || parseLen value != bodyLen

/-- `connection_field`. -/
def connectionField : Version → Bool → Option Bytes
  | .http11, true => none
  | .http10, true => some (ascii "keep-alive")
  | _, false => some (ascii "close")

/-- What the walk over the handler's fields collects. -/
structure FieldScan where
  hasDate : Bool
  handlerLen : Option Bytes
  handlerTe : Option Bytes
  lenCount : Nat
  teCount : Nat

namespace FieldScan

def empty : FieldScan := ⟨false, none, none, 0, 0⟩

/-- One field of the walk: only what will be written counts. -/
def step (s : FieldScan) (f : HeaderId × Bytes) : FieldScan :=
  if writable f.1 f.2 = false then s
  else
    match f.1.canonical with
    | .date => { s with hasDate := true }
    | .contentLength =>
      { s with lenCount := s.lenCount + 1, handlerLen := s.handlerLen.or (some f.2) }
    | .transferEncoding =>
      { s with teCount := s.teCount + 1, handlerTe := s.handlerTe.or (some f.2) }
    | _ => s

def ofHeaders (headers : HeaderVec) : FieldScan := headers.foldl step empty

end FieldScan

/-- The length a body frames itself with. -/
def OutBody.len : OutBody → Option Nat
  | .fixed b => some b.length
  | .none => some 0
  | .chunked => Option.none

/-- `stale_transfer_encoding`. -/
def staleTransferEncoding (scan : FieldScan) (body : OutBody) (closeDelimited : Bool)
    (status : Nat) : Bool :=
  scan.handlerTe.any fun v =>
    scan.teCount > 1 || body != .chunked || closeDelimited || forbidsBodyFraming status
      || !teFramesChunked v

/-- `stale_content_length`. -/
def staleContentLength (scan : FieldScan) (body : OutBody) (status : Nat) (headRequest : Bool)
    (staleTe : Bool) : Bool :=
  scan.handlerLen.any fun v =>
    handlerLengthIsStale v scan.lenCount status headRequest body.len
      (scan.handlerTe.isSome && !staleTe)

/-- The loop body that writes a handler's field. -/
def writeField (staleLen staleTe : Bool) (f : HeaderId × Bytes) : Bytes :=
  let id := f.1.canonical
  if staleLen && id == .contentLength then []
  else if staleTe && id == .transferEncoding then []
  else if id == .connection then writeConnectionTokens f.2
  else if writable f.1 f.2 = false then []
  else writeFieldLine id.asStr f.2

/-- The framing field the writer adds for a body. -/
def writeFraming (body : OutBody) (closeDelimited : Bool) : Bytes :=
  match body with
  | .fixed b => writeFieldLine (ascii "content-length") (writeU64 b.length)
  | .chunked =>
    if closeDelimited then [] else writeFieldLine (ascii "transfer-encoding") (ascii "chunked")
  | .none => writeFieldLine (ascii "content-length") (ascii "0")

/-- The status line of `write_head_for`. -/
def writeStatusLine (version : Version) (status : Nat) : Bytes :=
  version.asBytes ++ [SP] ++ writeU64 status
    ++ (if (reasonPhrase status).isEmpty then [] else [SP] ++ reasonPhrase status) ++ crlf

/-- `write_head_for`. -/
def writeHeadFor (version : Version) (resp : ResponseHead) (body : OutBody) (date : Bytes)
    (keepAlive headRequest : Bool) : Bytes :=
  let closeDelimited := version == .http10 && body == .chunked
  let scan := FieldScan.ofHeaders resp.headers
  let staleTe := staleTransferEncoding scan body closeDelimited resp.status
  let staleLen := staleContentLength scan body resp.status headRequest staleTe
  let handlerFramed := (!staleLen && scan.handlerLen.isSome) || (!staleTe && scan.handlerTe.isSome)
  writeStatusLine version resp.status
    ++ resp.headers.flatMap (writeField staleLen staleTe)
    ++ (if scan.hasDate then [] else writeFieldLine (ascii "date") date)
    ++ (if !handlerFramed && !forbidsBodyFraming resp.status then writeFraming body closeDelimited
        else [])
    ++ (if resp.status ≠ 101 then
          match connectionField version keepAlive with
          | some token => writeFieldLine (ascii "connection") token
          | none => []
        else [])
    ++ crlf

/-- `write_head`. -/
def writeHead (version : Version) (resp : ResponseHead) (body : OutBody) (date : Bytes)
    (keepAlive : Bool) : Bytes :=
  let keepAlive := keepAlive
    && !(version == .http10 && body == .chunked && !forbidsBodyFraming resp.status)
  writeHeadFor version resp body date keepAlive false

end ArmatureH1
