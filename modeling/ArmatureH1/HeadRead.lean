/-
ArmatureH1.HeadRead — waiting for a request head, from `conn.rs`.

`has_complete_head` strips blank lines off the front of the buffer and then
searches for the end of a head, from where the last search left off. The
loop of `read_until_head_or_idle` calls it on entry and after every read,
and bounds what it buffers after a read that did not complete a head.
-/
import ArmatureH1.Parse
import ArmatureH1.Body

namespace ArmatureH1

open ByteString

/-- How many whole CRLF pairs a buffer starts with. -/
def blankPairs : Bytes → Nat
  | a :: b :: rest => if a = CR ∧ b = LF then blankPairs rest + 1 else 0
  | _ => 0

/-- What is left of a byte string behind its leading blank lines. -/
def skipBlank (s : Bytes) : Bytes := s.drop (2 * blankPairs s)

/-- A run of empty lines. -/
def blankLines (n : Nat) : Bytes := (List.replicate n crlf).flatten

namespace IoState

/-- The blank lines `has_complete_head` discards. -/
def stripBlank (st : IoState) : IoState :=
  let blank := 2 * blankPairs st.buf
  if blank > 0 then { st with buf := st.buf.drop blank, scanned := st.scanned - blank } else st

/-- `has_complete_head`. -/
def hasCompleteHead (st : IoState) : Bool × IoState :=
  let st := st.stripBlank
  if st.buf.length ≤ st.scanned then (false, st)
  else
    let start := st.scanned - 3
    match findHeadEnd (st.buf.drop start) with
    | some e => (true, { st with headEnd := some (start + e) })
    | none => (false, { st with scanned := st.buf.length })

end IoState

/-- What a read in `read_until_head_or_idle` comes to. -/
inductive HeadStep where
  | ready
  | failed (status : Nat)
  | more (started : Bool)
  deriving DecidableEq

/-- The rest of the loop body of `read_until_head_or_idle`, behind a read
that delivered a non-empty `b`. -/
def headRead (limits : Limits) (started : Bool) (b : Bytes) (st : IoState) : HeadStep × IoState :=
  let (complete, st) := (st.readMore b).hasCompleteHead
  if complete then (.ready, st)
  else if st.buf.length > limits.maxHeadBytes then (.failed 431, st)
  else (.more (started || beginsRequest b), st)

/-- Where the head in the buffer ends: what the scanner found, or a search
from the front. -/
def IoState.headLength (st : IoState) : Option Nat :=
  st.headEnd.or (findHeadEnd st.buf)

/-- Split the head off the buffer. -/
def IoState.splitHead (st : IoState) (n : Nat) : Bytes × IoState :=
  (st.buf.take n, { st with buf := st.buf.drop n }.resetScan)

/-- The loop of `read_until_head_or_idle`, on reads that deliver the given
pieces and nothing more. -/
def readHead (limits : Limits) : Bool → List Bytes → IoState → HeadStep × IoState
  | started, [], st => (.more started, st)
  | started, b :: rest, st =>
    match headRead limits started b st with
    | (.ready, st) => (.ready, st)
    | (.failed status, st) => (.failed status, st)
    | (.more started, st) => readHead limits started rest st

/-- `read_until_head_or_idle`, with nothing held back and no deadline
expiring. -/
def readUntilHeadOrIdle (limits : Limits) (reads : List Bytes) (st : IoState) :
    HeadStep × IoState :=
  let (complete, st) := st.hasCompleteHead
  if complete then (.ready, st) else readHead limits (beginsRequest st.buf) reads st

/-- What waiting for a head comes to, and what `parse_head_region` makes of
one that arrived. -/
inductive HeadResult where
  | waiting
  | unterminated (status : Nat)
  | region (head : Bytes) (parsed : Except ParseError Head)
  | closed

/-- The status of the error response. -/
def HeadResult.status : HeadResult → Option Nat
  | .unterminated status => some status
  | .region _ (.error e) => some e.status
  | _ => none

/-- `serve`, from the wait for a head to the parsed head. -/
def awaitHead (httparse : Httparse) (limits : Limits) (reads : List Bytes) (st : IoState) :
    HeadResult :=
  match readUntilHeadOrIdle limits reads st with
  | (.more _, _) => .waiting
  | (.failed status, _) => .unterminated status
  | (.ready, st) =>
    match st.headLength with
    | none => .closed
    | some n => .region (st.splitHead n).1 (parseHeadRegion httparse (st.splitHead n).1 limits)

end ArmatureH1
