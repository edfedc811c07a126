/-
ArmatureH1.Bridge — the hyper backend's bridge, `backend/hyper/bridge.rs`.

hyper parses the request and writes the response; the bridge stands between
it and the handler. `convertHead` takes over a request head and makes the
checks that hyper does not make, and `Bridge.call` from the handler's
response on, with `convertResponse`, builds the response that hyper is
handed.

The types of the `http` crate are carriers here. A request's target is the
string that its `Uri` gives back, a `HeaderMap` is the list of fields in the
order of its iteration, and a `HeaderValue` is its bytes. What the crate
decides (which names and values it takes, which numbers are a status) is a
parameter, `HttpCrate`. What `call` does to the phase clock is in `PhaseClock`;
the upgrade slot is left out: no decision about the response reads either.
-/
import ArmatureH1.Conn

namespace ArmatureH1

open ByteString

/-! ## 1. `str::trim` and `u64::from_str` -/

/-- The characters of the Unicode property `White_Space`, in UTF-8. -/
def whitespaceChars : List Bytes :=
  [[0x09], [0x0a], [0x0b], [0x0c], [0x0d], [0x20], [0xc2, 0x85], [0xc2, 0xa0], [0xe1, 0x9a, 0x80],
   [0xe2, 0x80, 0x80], [0xe2, 0x80, 0x81], [0xe2, 0x80, 0x82], [0xe2, 0x80, 0x83],
   [0xe2, 0x80, 0x84], [0xe2, 0x80, 0x85], [0xe2, 0x80, 0x86], [0xe2, 0x80, 0x87],
   [0xe2, 0x80, 0x88], [0xe2, 0x80, 0x89], [0xe2, 0x80, 0x8a], [0xe2, 0x80, 0xa8],
   [0xe2, 0x80, 0xa9], [0xe2, 0x80, 0xaf], [0xe2, 0x81, 0x9f], [0xe3, 0x80, 0x80]]

/-- Strip the given strings from the front, as often as one is there. -/
def stripAny (chars : List Bytes) : Nat → Bytes → Bytes
  | 0, s => s
  | fuel + 1, s =>
    match chars.find? (·.isPrefixOf s) with
    | none => s
    | some c => stripAny chars fuel (s.drop c.length)

/-- `str::trim`, on the bytes of the string. -/
def trim (s : Bytes) : Bytes :=
  let s := stripAny whitespaceChars s.length s
  (stripAny (whitespaceChars.map List.reverse) s.length s.reverse).reverse

/-- `u64::from_str`: one `+` may stand in front of the digits. -/
def parseU64 (s : Bytes) : Option Nat :=
  match s with
  | 0x2b :: digits => parseLen digits
  | digits => parseLen digits

/-! ## 2. The request's head -/

/-- `http::Version`. -/
inductive WireVersion where
  | http09 | http10 | http11 | http2 | http3
  deriving DecidableEq

/-- `from_wire`. -/
def fromWire : WireVersion → Option Version
  | .http11 => some .http11
  | .http10 => some .http10
  | _ => none

/-- What the bridge reads of `http::request::Parts`. -/
structure Parts where
  method : ByteStr
  target : ByteStr
  version : WireVersion
  headers : List (ByteStr × Bytes)

/-- `REQUEST_LINE_FIXED`. -/
def requestLineFixed : Nat := 1 + 1 + 8 + 2

/-- `HEAD_TERMINATOR`. -/
def headTerminator : Nat := 2

/-- The id the bridge gives a name. -/
def bridgeId (name : ByteStr) : HeaderId := (HeaderId.fromBytes name.bytes).getD (intern name)

/-- The variables of the loop in `convert_head`. -/
structure ConvertLoop where
  cumulative : Nat
  headers : HeaderVec
  declaredLen : Option Nat

/-- One field of the loop. A length that does not parse leaves the check to
the body reader. -/
def ConvertLoop.step (s : ConvertLoop) (f : ByteStr × Bytes) : ConvertLoop where
  cumulative := s.cumulative + (f.1.bytes.length + 2 + f.2.length + 2)
  headers := s.headers ++ [(bridgeId f.1, f.2)]
  declaredLen :=
    if bridgeId f.1 = .contentLength ∧ isUtf8 f.2 = true then
      (parseU64 (trim f.2)).or s.declaredLen
    else s.declaredLen

/-- The method of `convert_head`. -/
def bridgeMethod (token : ByteStr) : Method := (Method.fromBytes token.bytes).getD (.other token)

/-- `convert_head`. -/
def convertHead (parts : Parts) (limits : Limits) : Except Nat Head :=
  match fromWire parts.version with
  | none => .error 505
  | some version =>
    let method := bridgeMethod parts.method
    if parts.headers.length > limits.maxHeaders then .error 431
    else
      let start := parts.method.bytes.length + parts.target.bytes.length + requestLineFixed
        + headTerminator
      let loop := parts.headers.foldl ConvertLoop.step ⟨start, [], none⟩
      if loop.cumulative > limits.maxHeadBytes then .error 431
      else
        match validateRequestTarget parts.target.bytes method with
        | .error _ => .error 400
        | .ok () =>
          if loop.declaredLen.any (· > limits.maxBodyBytes) then .error 413
          else .ok ⟨method, parts.target, version, loop.headers⟩

/-! ## 3. The handler's response -/

/-- What the bridge asks of the `http` crate: `StatusCode::from_u16`,
`HeaderName::from_bytes` with the name it makes, and whether
`HeaderValue::from_bytes` takes a value. -/
structure HttpCrate where
  statusCode : Nat → Option Nat
  headerName : Bytes → Option Bytes
  headerValue : Bytes → Bool

/-- The `http::Response` that hyper is handed. -/
structure HyperResponse where
  version : Version
  status : Nat
  headers : List (Bytes × Bytes)
  body : ResponseBody

/-- The length a body calls for, in `convert_response`. -/
def expectedLen : ResponseBody → Option Nat
  | .empty => some 0
  | .full b => some b.length
  | .stream => none

/-- The variables of the loop in `convert_response`. -/
structure RespondLoop where
  hasServer : Bool
  connectionTokens : List Bytes
  headers : List (Bytes × Bytes)

/-- One field of the loop, judged by its canonical name. -/
def RespondLoop.step (http : HttpCrate) (stale : Bytes → Bool) (s : RespondLoop)
    (f : HeaderId × Bytes) : RespondLoop :=
  let id := f.1.canonical
  if id = .contentLength ∧ stale f.2 = true then s
  else if id = .transferEncoding then s
  else if id = .connection then
    { s with connectionTokens := s.connectionTokens ++ ArmatureH1.connectionTokens f.2 }
  else
    match http.headerName id.asStr with
    | none => s
    | some name =>
      if http.headerValue f.2 then
        { s with
          hasServer := s.hasServer || id == .server
          headers := s.headers ++ [(name, f.2)] }
      else s

/-- The `Connection` field: the handler's tokens and the server's own, in
one value. -/
def connectionHeader (http : HttpCrate) (tokens : List Bytes) (serverToken : Option Bytes) :
    List (Bytes × Bytes) :=
  if tokens = [] then serverToken.toList.map fun field => (ascii "connection", field)
  else
    let value := joinTokens (tokens ++ serverToken.toList)
    if http.headerValue value then [(ascii "connection", value)] else []

/-- Whether the connection persists, as `convert_response` has it. -/
def persistsAfter (keepAlive : Bool) (headers : HeaderVec) : Bool :=
  keepAlive && !Answer.saysClose headers

/-- `convert_response`. -/
def convertResponse (http : HttpCrate) (serverName : Option Bytes) (resp : Response)
    (version : Version) (keepAlive headRequest : Bool) : HyperResponse :=
  let status := (http.statusCode resp.status).getD 500
  let body := if forbidsBodyFraming status then .empty else resp.body
  let lengthInstances := (resp.headers.filter fun f =>
    f.1.canonical == .contentLength && validFieldValue f.2).length
  let keepAlive := persistsAfter keepAlive resp.headers
  let stale := fun v =>
    handlerLengthIsStale v lengthInstances status headRequest (expectedLen body) false
  let loop := resp.headers.foldl (RespondLoop.step http stale) ⟨false, [], []⟩
  let server :=
    if loop.hasServer then []
    else (serverName.filter http.headerValue).toList.map fun name => (ascii "server", name)
  let serverToken := if status ≠ 101 then connectionField version keepAlive else none
  { version := version
    status := status
    headers := loop.headers ++ server ++ connectionHeader http loop.connectionTokens serverToken
    body := body }

namespace Bridge

/-- `impossible_status`. -/
def impossibleStatus (h : Head) (resp : Response) : Bool :=
  !isFinalStatus resp.status (Call.ofHead h).wantsUpgrade

/-- The response that is converted: a bare 500 in place of an impossible
one. -/
def degraded (h : Head) (resp : Response) : Response :=
  if impossibleStatus h resp then ⟨500, [], .empty⟩ else resp

/-- The `keep_alive` that `call` passes on. -/
def keepAlive (h : Head) (resp : Response) (fullyRead : Bool) : Bool :=
  let final := degraded h resp
  let wantsUpgrade := h.version == .http11 && h.count .upgrade > 0
    && h.connectionHasToken (ascii "upgrade")
  let upgrading := final.status == 101 && wantsUpgrade && fullyRead
  let forceClose := !upgrading && (!fullyRead || impossibleStatus h resp)
  let closeDelimited := h.version == .http10 && final.body == .stream && !(h.method == .head)
    && !forbidsBodyFraming final.status
  h.isKeepAlive && !forceClose && !closeDelimited

/-- `Bridge::call`, from the handler's response on. -/
def call (http : HttpCrate) (serverName : Option Bytes) (h : Head) (resp : Response)
    (fullyRead : Bool) : HyperResponse :=
  convertResponse http serverName (degraded h resp) h.version (keepAlive h resp fullyRead)
    (h.method == .head)

end Bridge

end ArmatureH1
