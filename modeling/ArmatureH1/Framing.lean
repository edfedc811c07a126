/-
ArmatureH1.Framing — how long the request body is, from `framing.rs`.

`decide` applies its rules in the order of the source: `Host`, the conflict
of the two framing fields, `Transfer-Encoding`, `Content-Length`, the size
limit. Every rule can only refuse, so the order decides which error a request
with several faults is answered with, and nothing else.
-/
import ArmatureH1.Head
import ArmatureH1.Chunked

namespace ArmatureH1

open ByteString

/-- `BodyKind`. -/
inductive BodyKind where
  | none
  | length (n : Nat)
  | chunked
  deriving DecidableEq, Repr

/-- `FramingError`. -/
inductive FramingError where
  | lengthAndTransferEncoding | duplicateContentLength | invalidContentLength | chunkedNotFinal
  | unsupportedTransferEncoding | transferEncodingOnHttp10 | missingHost | multipleHost
  | invalidHost | invalidAuthority | unsupportedScheme | hostMismatch | bodyTooLarge
  deriving DecidableEq, Repr

/-- `FramingError::status`. -/
def FramingError.status : FramingError → Nat
  | .bodyTooLarge => 413
  | .unsupportedTransferEncoding => 501
  | _ => 400

/-! ## Authorities -/

/-- The `REG_NAME` table. -/
def isRegNameByte (b : UInt8) : Bool :=
  isAsciiAlphanumeric b || (ascii "-._~!$&'()*+,;=").contains b

/-- The slow pass of `valid_reg_name`: a `%` takes two hex digits along. -/
def validPercentEncoded : Bytes → Bool
  | [] => true
  | b :: rest =>
    if b = 0x25 then
      match rest with
      | h1 :: h2 :: rest' =>
        isAsciiHexdigit h1 && isAsciiHexdigit h2 && validPercentEncoded rest'
      | _ => false
    else isRegNameByte b && validPercentEncoded rest

/-- `valid_reg_name`. -/
def validRegName (host : Bytes) : Bool :=
  if host.all isRegNameByte then true else validPercentEncoded host

/-- The port part of `parse_authority`: `none` refuses, `some none` is the
default port. -/
def parsePort (rest : Bytes) : Option (Option Nat) :=
  match rest with
  | [] => some none
  | 0x3a :: digits =>
    if digits = [] then some none
    else if digits.length > 5 ∨ digits.all isAsciiDigit = false then none
    else
      let n := digits.foldl (fun n d => n * 10 + (d.toNat - 48)) 0
      if n < 2 ^ 16 then some (some n) else none
  | _ => none

/-- `parse_authority`. -/
def parseAuthority (a : Bytes) : Option (Bytes × Option Nat) :=
  if a.head? = some 0x5b then
    match memchr 0x5d a with
    | none => none
    | some close =>
      let inner := (a.take close).drop 1
      if inner = [] ∨ inner.all (fun b => isAsciiHexdigit b || b == 0x3a || b == 0x2e) = false then
        none
      else (parsePort (a.drop (close + 1))).map fun port => (a.take (close + 1), port)
  else
    let host := a.takeWhile (· != 0x3a)
    if host = [] ∨ validRegName host = false then none
    else (parsePort (a.dropWhile (· != 0x3a))).map fun port => (host, port)

/-- The `Host` of `check_authority`: absent and empty are no authority. -/
def hostAuthority (host : Option Bytes) : Except FramingError (Option (Bytes × Option Nat)) :=
  match host with
  | none => .ok none
  | some v =>
    if v = [] then .ok none
    else
      match parseAuthority v with
      | none => .error .invalidHost
      | some a => .ok (some a)

/-- `check_authority`. -/
def checkAuthority (head : Head) : Except FramingError Unit :=
  let hostField := head.get .host
  let emptyHost := hostField.any List.isEmpty
  match hostAuthority hostField with
  | .error e => .error e
  | .ok host =>
    if head.method = .connect then
      match (parseAuthority head.target.bytes).filter fun a => a.2.isSome with
      | none => .error .invalidAuthority
      | some (targetHost, targetPort) =>
        if emptyHost then .error .hostMismatch
        else
          match host with
          | none => .ok ()
          | some (h, port) =>
            let samePort := match port with
              | some p => targetPort == some p
              | none => targetPort == some 80 || targetPort == some 443
            if eqIgnoreAsciiCase h targetHost && samePort then .ok () else .error .hostMismatch
    else
      match head.absoluteScheme with
      | none => .ok ()
      | some scheme =>
        let defaultPort :=
          if eqIgnoreAsciiCase scheme (ascii "http") then some 80
          else if eqIgnoreAsciiCase scheme (ascii "https") then some 443
          else none
        match defaultPort with
        | none => .error .unsupportedScheme
        | some dflt =>
          match parseAuthority (head.authority.getD []) with
          | none => .error .invalidAuthority
          | some (targetHost, targetPort) =>
            if emptyHost then .error .hostMismatch
            else
              match host with
              | none => .ok ()
              | some (h, port) =>
                if eqIgnoreAsciiCase h targetHost && port.getD dflt == targetPort.getD dflt then
                  .ok ()
                else .error .hostMismatch

/-! ## The two framing fields -/

/-- The codings of one `Transfer-Encoding` value. -/
def codingsOf (value : Bytes) : List Bytes :=
  ((value.splitOn 44).map trimOws).filter fun c => !c.isEmpty

/-- The collection loop over the `Transfer-Encoding` values. -/
def collectCodings : List Bytes → Except FramingError (List Bytes)
  | [] => .ok []
  | value :: rest =>
    if isAscii value = false then .error .chunkedNotFinal
    else (collectCodings rest).map (codingsOf value ++ ·)

/-- Rule 3 of `decide`, from the collected codings on. -/
def decideCodings (codings : List Bytes) : Except FramingError BodyKind :=
  let isChunked := fun c => eqIgnoreAsciiCase c (ascii "chunked")
  let chunkedCount := (codings.filter isChunked).length
  if chunkedCount = 1 ∧ codings.getLast?.any isChunked = true then
    if codings.length = 1 then .ok .chunked else .error .unsupportedTransferEncoding
  else if chunkedCount ≥ 1 then .error .chunkedNotFinal
  else .error .unsupportedTransferEncoding

/-- The fold of `parse_content_length`. -/
def contentLengthLoop : Nat → Bytes → Except FramingError Nat
  | acc, [] => .ok acc
  | acc, b :: rest =>
    if isAsciiDigit b = false then .error .invalidContentLength
    else
      match (checkedMul acc 10).bind (checkedAdd · (b.toNat - 48)) with
      | none => .error .invalidContentLength
      | some acc' => contentLengthLoop acc' rest

/-- `parse_content_length`. -/
def parseContentLength (bytes : Bytes) : Except FramingError Nat :=
  if bytes = [] then .error .invalidContentLength else contentLengthLoop 0 bytes

/-- The agreement loop over the elements of every `Content-Length` value. -/
def agreeLengths : Option Nat → List Bytes → Except FramingError (Option Nat)
  | agreed, [] => .ok agreed
  | agreed, element :: rest =>
    match parseContentLength (trimOws element) with
    | .error e => .error e
    | .ok n =>
      match agreed with
      | none => agreeLengths (some n) rest
      | some prev => if prev = n then agreeLengths agreed rest else .error .duplicateContentLength

/-! ## The decision -/

/-- `decide`. -/
def decideFraming (head : Head) (limits : Limits) : Except FramingError BodyKind :=
  let hostCount := head.count .host
  let hasLen := head.headers.any fun f => f.1 == .contentLength
  let hasTe := head.headers.any fun f => f.1 == .transferEncoding
  if hostCount = 0 ∧ head.version = .http11 then .error .missingHost
  else if hostCount > 1 then .error .multipleHost
  else
    match checkAuthority head with
    | .error e => .error e
    | .ok () =>
      if hasLen && hasTe then .error .lengthAndTransferEncoding
      else if hasTe then
        if head.version = .http10 then .error .transferEncodingOnHttp10
        else
          match collectCodings (head.all .transferEncoding) with
          | .error e => .error e
          | .ok codings => decideCodings codings
      else if hasLen then
        match agreeLengths none ((head.all .contentLength).flatMap (·.splitOn 44)) with
        | .error e => .error e
        | .ok none => .error .invalidContentLength
        | .ok (some len) =>
          if len > limits.maxBodyBytes then .error .bodyTooLarge else .ok (.length len)
      else .ok .none

end ArmatureH1
