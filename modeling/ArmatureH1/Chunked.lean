/-
ArmatureH1.Chunked — the chunked decoder of `chunked.rs`.

`ChunkedDecoder.poll` is a loop over a six-state machine. One turn of that
loop is `ChunkedDecoder.turn`: it either goes round again or returns, and
`poll` iterates it. The iteration is bounded by the buffer: every turn that
goes round again consumes at least the two bytes of a line terminator, so
`buf.length + 1` turns are enough (`pollFuel_eq` in
`ArmatureH1.ChunkedTheorems`).

Sizes are `Nat` with the checked `u64` operations of the source written out.
A decoder keeps its state and its buffer on an error exactly as the source
does: a line that fails to parse is left unread, a declared size that breaks
the budget or a refused trailer has already been consumed.
-/
import ArmatureH1.Header

namespace ArmatureH1

open ByteString

/-! ## Events and errors -/

/-- `ChunkEvent`. -/
inductive ChunkEvent where
  | data (d : Bytes)
  | trailers (t : HeaderVec)
  | ended
  deriving DecidableEq

/-- `ChunkedError`. -/
inductive ChunkedError where
  | badSize | sizeOverflow | missingCrlf | bodyTooLarge | badTrailer | forbiddenTrailer
  | badExtension | trailerTooLarge
  deriving DecidableEq, Repr

/-- `ChunkedError::status`. -/
def ChunkedError.status : ChunkedError → Nat
  | .bodyTooLarge => 413
  | _ => 400

/-! ## Lines -/

/-- `MAX_SIZE_DIGITS`. -/
def maxSizeDigits : Nat := 16

/-- The bound `poll` puts on a size line's content. -/
def maxSizeLine : Nat := maxSizeDigits + 256

/-- `find_line`: the first CRLF-terminated line as its content length and
the length with the terminator. `ok none` is an incomplete line. -/
def findLine (buf : Bytes) (max : Nat) (tooLong : ChunkedError) :
    Except ChunkedError (Option (Nat × Nat)) :=
  match memchr LF buf with
  | none => if buf.length > max then .error tooLong else .ok none
  | some i =>
    if i = 0 ∨ buf[i - 1]? ≠ some CR then .error .missingCrlf
    else if i - 1 > max then .error tooLong
    else .ok (some (i - 1, i + 1))

/-! ## Chunk extensions -/

/-- `bws` of `check_chunk_ext`. -/
def skipBws (s : Bytes) : Bytes := s.dropWhile isOws

/-- `token` of `check_chunk_ext`: skip a non-empty run of `tchar`. -/
def skipToken (s : Bytes) : Except ChunkedError Bytes :=
  if (s.takeWhile isTchar).length = 0 then .error .badExtension
  else .ok (s.dropWhile isTchar)

/-- The bytes a quoted string may hold, bare or behind a backslash. -/
def isQuotable (b : UInt8) : Bool :=
  b == HTAB || b == SP || (0x21 ≤ b && b ≤ 0x7e) || 0x80 ≤ b

/-- The scan of `quoted` past the opening DQUOTE: up to and over the closing
one, with a backslash taking the byte after it along. -/
def skipQuoted : Bytes → Except ChunkedError Bytes
  | [] => .error .badExtension
  | b :: rest =>
    if b = 0x22 then .ok rest
    else if b = 0x5c then
      match rest with
      | c :: rest' => if isQuotable c then skipQuoted rest' else .error .badExtension
      | [] => .error .badExtension
    else if isQuotable b then skipQuoted rest
    else .error .badExtension

/-- `chunk-ext-val`: a quoted string when it opens with a DQUOTE, else a
token. -/
def skipExtValue (v : Bytes) : Except ChunkedError Bytes :=
  if v.head? = some 0x22 then skipQuoted v.tail else skipToken v

/-- What follows an extension's name: an optional `=` and a value. -/
def skipExtAssign (ext : Bytes) : Except ChunkedError Bytes :=
  match skipBws ext with
  | 0x3d :: afterEq => skipExtValue (skipBws afterEq)
  | _ => .ok ext

/-- One round of the loop of `check_chunk_ext`, past the `;`. -/
def skipExt (afterSemi : Bytes) : Except ChunkedError Bytes :=
  (skipToken (skipBws afterSemi)).bind skipExtAssign

/-- The loop of `check_chunk_ext`. Every round eats a `;` and a token, so
the length of the input bounds the rounds. -/
def extLoop : Nat → Bytes → Except ChunkedError Unit
  | 0, _ => .error .badExtension
  | fuel + 1, ext =>
    match skipBws ext with
    | [] => .ok ()
    | b :: rest =>
      if b = 0x3b then (skipExt rest).bind (extLoop fuel) else .error .badExtension

/-- `check_chunk_ext`. -/
def checkChunkExt (ext : Bytes) : Except ChunkedError Unit := extLoop (ext.length + 1) ext

/-! ## Chunk sizes -/

/-- `u64::checked_mul`. -/
def checkedMul (a b : Nat) : Option Nat := if a * b < 2 ^ 64 then some (a * b) else none

/-- `u64::checked_add`. -/
def checkedAdd (a b : Nat) : Option Nat := if a + b < 2 ^ 64 then some (a + b) else none

/-- The digit ladder of `parse_chunk_size`. -/
def hexValue (b : UInt8) : Option Nat :=
  if 48 ≤ b ∧ b ≤ 57 then some (b.toNat - 48)
  else if 97 ≤ b ∧ b ≤ 102 then some (b.toNat - 97 + 10)
  else if 65 ≤ b ∧ b ≤ 70 then some (b.toNat - 65 + 10)
  else none

/-- The accumulation loop of `parse_chunk_size`. -/
def sizeLoop : Nat → Bytes → Except ChunkedError Nat
  | size, [] => .ok size
  | size, b :: rest =>
    match hexValue b with
    | none => .error .badSize
    | some d =>
      match (checkedMul size 16).bind (checkedAdd · d) with
      | none => .error .sizeOverflow
      | some size' => sizeLoop size' rest

/-- What may stand right after the digits: an extension's start. -/
def startsExt (ext : Bytes) : Bool :=
  match ext.head? with
  | none => true
  | some b => b == 0x3b || isOws b

/-- `parse_chunk_size`. -/
def parseChunkSize (line : Bytes) : Except ChunkedError Nat :=
  let digits := line.takeWhile isAsciiHexdigit
  let ext := line.dropWhile isAsciiHexdigit
  if digits = [] ∨ startsExt ext = false then .error .badSize
  else
    match if ext = [] then Except.ok () else checkChunkExt ext with
    | .error e => .error e
    | .ok () =>
      let significant := digits.dropWhile (· == 48)
      if significant.length > maxSizeDigits then .error .sizeOverflow
      else sizeLoop 0 significant

/-! ## Trailer fields -/

/-- `write::valid_field_name`. -/
def validFieldName (name : Bytes) : Bool := !name.isEmpty && name.all isTchar

/-- The bytes RFC 9110 section 5.5 keeps out of a value. -/
def isCtl (b : UInt8) : Bool := (b < 0x20 && b != HTAB) || b == 0x7f

/-- The id `push_trailer` gives a name, as `finish_parse_head` does. -/
def fieldId (name : Bytes) : Option HeaderId :=
  match HeaderId.fromBytes name with
  | some id => some id
  | none =>
    (ByteStr.fromUtf8 (if name.any isAsciiUppercase then lowercase name else name)).map .other

/-- `ChunkedDecoder::push_trailer`, on the fields stored so far. -/
def pushTrailer (maxTrailers : Nat) (trailers : Option HeaderVec) (line : Bytes) :
    Except ChunkedError HeaderVec :=
  if line.head? = some SP ∨ line.head? = some HTAB then .error .badTrailer
  else if (trailers.getD []).length ≥ maxTrailers then .error .badTrailer
  else
    match memchr 0x3a line with
    | none => .error .badTrailer
    | some colon =>
      let name := line.take colon
      if name = [] then .error .badTrailer
      else if (name.getLast?.any isAsciiWhitespace) = true then .error .badTrailer
      else if (isUtf8 name && validFieldName name) = false then .error .badTrailer
      else
        match fieldId name with
        | none => .error .badTrailer
        | some id =>
          if id.forbiddenInTrailers then .error .forbiddenTrailer
          else
            let value := trimOws (line.drop (colon + 1))
            if value.any isCtl then .error .badTrailer
            else .ok (trailers.getD [] ++ [(id, value)])

/-! ## The decoder -/

/-- `State`. -/
inductive ChunkedState where
  | size | data | dataCrlf | trailers | ending | done
  deriving DecidableEq, Repr

/-- `ChunkedDecoder`. -/
structure ChunkedDecoder where
  state : ChunkedState
  remaining : Nat
  decoded : Nat
  maxBody : Nat
  maxTrailer : Nat
  maxTrailers : Nat
  trailerBytes : Nat
  trailers : Option HeaderVec
  deriving DecidableEq

namespace ChunkedDecoder

/-- `ChunkedDecoder::new`. -/
def new (limits : Limits) : ChunkedDecoder where
  state := .size
  remaining := 0
  decoded := 0
  maxBody := limits.maxBodyBytes
  maxTrailer := limits.maxHeadBytes
  maxTrailers := limits.maxHeaders
  trailerBytes := 0
  trailers := none

/-- What one call of `poll` returns. -/
abbrev PollResult := Except ChunkedError (Option ChunkEvent)

/-- How one turn of the loop in `poll` ends. -/
inductive Turn where
  | again (d : ChunkedDecoder) (buf : Bytes)
  | ret (r : PollResult) (d : ChunkedDecoder) (buf : Bytes)

/-- The `State::Size` arm, once the line is there: `buf` still starts with
it, `rest` is what follows it. -/
def onSizeLine (d : ChunkedDecoder) (line buf rest : Bytes) : Turn :=
  match parseChunkSize line with
  | .error e => .ret (.error e) d buf
  | .ok size =>
    if (checkedAdd d.decoded size).all fun total => total > d.maxBody then
      .ret (.error .bodyTooLarge) d rest
    else if size = 0 then .again { d with state := .trailers } rest
    else .again { d with remaining := size, state := .data } rest

/-- The `State::Size` arm. -/
def turnSize (d : ChunkedDecoder) (buf : Bytes) : Turn :=
  match findLine buf maxSizeLine .missingCrlf with
  | .error e => .ret (.error e) d buf
  | .ok none => .ret (.ok none) d buf
  | .ok (some (contentLen, consumed)) =>
    d.onSizeLine (buf.take contentLen) buf (buf.drop consumed)

/-- The `State::Data` arm. -/
def turnData (d : ChunkedDecoder) (buf : Bytes) : Turn :=
  if buf = [] then .ret (.ok none) d buf
  else
    let take := min buf.length d.remaining
    let remaining := d.remaining - take
    .ret (.ok (some (.data (buf.take take))))
      { d with
        remaining := remaining
        decoded := d.decoded + take
        state := if remaining = 0 then .dataCrlf else .data }
      (buf.drop take)

/-- The `State::DataCrlf` arm. -/
def turnDataCrlf (d : ChunkedDecoder) (buf : Bytes) : Turn :=
  if buf.length < 2 then .ret (.ok none) d buf
  else if buf.take 2 ≠ crlf then .ret (.error .missingCrlf) d buf
  else .again { d with state := .size } (buf.drop 2)

/-- The `State::Trailers` arm, once the line is there. -/
def onTrailerLine (d : ChunkedDecoder) (line buf rest : Bytes) : Turn :=
  if d.trailerBytes > d.maxTrailer then .ret (.error .trailerTooLarge) d buf
  else if line.length = 0 then
    match d.trailers with
    | none => .again { d with state := .ending } rest
    | some t => .ret (.ok (some (.trailers t))) { d with state := .ending, trailers := none } rest
  else
    match pushTrailer d.maxTrailers d.trailers line with
    | .error e => .ret (.error e) d rest
    | .ok t => .again { d with trailers := some t } rest

/-- The `State::Trailers` arm. -/
def turnTrailers (d : ChunkedDecoder) (buf : Bytes) : Turn :=
  match findLine buf d.maxTrailer .trailerTooLarge with
  | .error e => .ret (.error e) d buf
  | .ok none => .ret (.ok none) d buf
  | .ok (some (contentLen, consumed)) =>
    onTrailerLine { d with trailerBytes := d.trailerBytes + consumed }
      (buf.take contentLen) buf (buf.drop consumed)

/-- One turn of the loop in `ChunkedDecoder::poll`. -/
def turn (d : ChunkedDecoder) (buf : Bytes) : Turn :=
  match d.state with
  | .done => .ret (.ok (some .ended)) d buf
  | .ending => .ret (.ok (some .ended)) { d with state := .done } buf
  | .size => turnSize d buf
  | .data => turnData d buf
  | .dataCrlf => turnDataCrlf d buf
  | .trailers => turnTrailers d buf

def pollFuel : Nat → ChunkedDecoder → Bytes → PollResult × ChunkedDecoder × Bytes
  | 0, d, buf => (.ok none, d, buf)
  | fuel + 1, d, buf =>
    match d.turn buf with
    | .again d' buf' => pollFuel fuel d' buf'
    | .ret r d' buf' => (r, d', buf')

/-- `ChunkedDecoder::poll`: the result, and the decoder and the buffer it
leaves behind. -/
def poll (d : ChunkedDecoder) (buf : Bytes) : PollResult × ChunkedDecoder × Bytes :=
  pollFuel (buf.length + 1) d buf

end ChunkedDecoder

end ArmatureH1
