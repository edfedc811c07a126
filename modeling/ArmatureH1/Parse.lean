/-
ArmatureH1.Parse — request heads, from `parse.rs`.

The tokenizer, `httparse`, is a library and a parameter here: `Httparse` is
its one entry point as the source calls it, a scratch size and a region in,
the request line's tokens and the fields out. Everything around it is the
source's: where a head ends, the strict-CRLF prescan, the two scratch tiers,
and the checks on what the tokenizer found.
-/
import ArmatureH1.Head
import ArmatureH1.Chunked

namespace ArmatureH1

open ByteString

/-- `ParseError`. -/
inductive ParseError where
  | bareCr | bareLf | obsFold | whitespaceBeforeColon | invalidHeaderName | invalidRequestLine
  | invalidMethod | nonUtf8Target | invalidTarget | unsupportedVersion | headTooLarge
  | tooManyHeaders
  deriving DecidableEq, Repr

/-- `ParseError::status`. -/
def ParseError.status : ParseError → Nat
  | .headTooLarge | .tooManyHeaders => 431
  | .unsupportedVersion => 505
  | _ => 400

/-! ## Where a head begins and ends -/

/-- `begins_request`. -/
def beginsRequest (bytes : Bytes) : Bool := bytes.any fun b => b != CR && b != LF

/-- The empty line that ends a head, with the CRLF before it. -/
def headEnd : Bytes := [CR, LF, CR, LF]

/-- `find_head_end`. -/
def findHeadEnd (buf : Bytes) : Option Nat := (memmem headEnd buf).map (· + 4)

/-! ## The prescan -/

/-- The CR pass of `prescan`. -/
def prescanCr : Bytes → Except ParseError Unit
  | [] => .ok ()
  | b :: rest =>
    if b = CR then
      if rest[0]? ≠ some LF then .error .bareCr
      else if rest[1]? = some SP ∨ rest[1]? = some HTAB then .error .obsFold
      else prescanCr rest
    else prescanCr rest

/-- The LF pass of `prescan`; `prev` is the byte before the rest. -/
def prescanLf : Option UInt8 → Bytes → Except ParseError Unit
  | _, [] => .ok ()
  | prev, b :: rest =>
    if b = LF ∧ prev ≠ some CR then .error .bareLf else prescanLf (some b) rest

/-- `prescan`. -/
def prescan (head : Bytes) : Except ParseError Unit :=
  match prescanCr head with
  | .error e => .error e
  | .ok () => prescanLf none head

/-! ## The tokenizer -/

/-- `httparse::Error`. -/
inductive HttparseError where
  | headerName | headerValue | newLine | status | token | tooManyHeaders | version
  deriving DecidableEq, Repr

/-- The fields of `httparse::Request` after a complete parse. -/
structure HttparseRequest where
  method : Option Bytes
  path : Option Bytes
  version : Option Nat
  headers : List (Bytes × Bytes)

/-- `httparse::Request::parse` with a scratch array of the given size:
`ok none` is `Status::Partial`. -/
abbrev Httparse := Nat → Bytes → Except HttparseError (Option HttparseRequest)

/-- `map_httparse`. -/
def mapHttparse : HttparseError → ParseError
  | .headerName => .whitespaceBeforeColon
  | .version => .unsupportedVersion
  | .token => .invalidMethod
  | .tooManyHeaders => .tooManyHeaders
  | _ => .invalidRequestLine

/-! ## The request target -/

def isTargetByte (b : UInt8) : Bool :=
  isAsciiAlphanumeric b || (ascii "-._~:/?[]@!$&'()*+,;=%").contains b

/-- The loop of `validate_target`. -/
def validTargetBytes : Bytes → Bool
  | [] => true
  | b :: rest =>
    (b != 0x25 || (rest[0]?.any isAsciiHexdigit && rest[1]?.any isAsciiHexdigit))
      && isTargetByte b && validTargetBytes rest

/-- `validate_target`. -/
def validateTarget (target : Bytes) : Except ParseError Unit :=
  if target = [] ∨ validTargetBytes target = false then .error .invalidTarget else .ok ()

/-- `validate_target_form`. -/
def validateTargetForm (target : Bytes) (method : Method) : Except ParseError Unit :=
  if target = [0x2a] then
    if method = .options then .ok () else .error .invalidTarget
  else if method = .connect then
    if (memmem (ascii "://") target).isNone ∧ 0x3a ∈ target ∧ target.head? ≠ some 0x2f then .ok ()
    else .error .invalidTarget
  else if target.head? = some 0x2f then .ok ()
  else
    match memmem (ascii "://") target with
    | none => .error .invalidTarget
    | some i => if validScheme (target.take i) then .ok () else .error .invalidTarget

/-- `validate_request_target`. -/
def validateRequestTarget (target : Bytes) (method : Method) : Except ParseError Unit :=
  match validateTarget target with
  | .error e => .error e
  | .ok () => validateTargetForm target method

/-! ## The head -/

/-- The method of `finish_parse_head`. -/
def parseMethod (token : Bytes) : Except ParseError Method :=
  match Method.fromBytes token with
  | some m => .ok m
  | none =>
    if token = [] then .error .invalidMethod
    else
      match ByteStr.fromUtf8 token with
      | none => .error .invalidMethod
      | some t => .ok (.other t)

/-- The field loop of `finish_parse_head`. -/
def parseFields : List (Bytes × Bytes) → Except ParseError HeaderVec
  | [] => .ok []
  | (name, value) :: rest =>
    match fieldId name with
    | none => .error .invalidHeaderName
    | some id => (parseFields rest).map ((id, value) :: ·)

/-- `finish_parse_head`. -/
def finishParseHead (parsed : Option HttparseRequest) (limits : Limits) : Except ParseError Head :=
  match parsed with
  | none => .error .invalidRequestLine
  | some req =>
    match req.version.bind Version.fromHttparse with
    | none => .error .unsupportedVersion
    | some version =>
      match req.method with
      | none => .error .invalidRequestLine
      | some methodToken =>
        match parseMethod methodToken with
        | .error e => .error e
        | .ok method =>
          match req.path with
          | none => .error .invalidRequestLine
          | some targetToken =>
            match validateRequestTarget targetToken method with
            | .error e => .error e
            | .ok () =>
              match ByteStr.fromUtf8 targetToken with
              | none => .error .nonUtf8Target
              | some target =>
                if req.headers.length > limits.maxHeaders then .error .tooManyHeaders
                else
                  match parseFields req.headers with
                  | .error e => .error e
                  | .ok headers => .ok ⟨method, target, version, headers⟩

/-- `HEADER_SCRATCH_TIER1`. -/
def headerScratchTier1 : Nat := 32

/-- `MAX_HEADERS_CEILING`. -/
def maxHeadersCeiling : Nat := 128

/-- `parse_head_region`, on the region itself. -/
def parseHeadRegion (httparse : Httparse) (region : Bytes) (limits : Limits) :
    Except ParseError Head :=
  if region.length > limits.maxHeadBytes then .error .headTooLarge
  else
    match prescan region with
    | .error e => .error e
    | .ok () =>
      match httparse headerScratchTier1 region with
      | .ok parsed => finishParseHead parsed limits
      | .error e =>
        if e = .tooManyHeaders ∧ limits.maxHeaders > headerScratchTier1 then
          match httparse maxHeadersCeiling region with
          | .ok parsed => finishParseHead parsed limits
          | .error e => .error (mapHttparse e)
        else .error (mapHttparse e)

end ArmatureH1
