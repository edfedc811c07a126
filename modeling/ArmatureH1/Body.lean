/-
ArmatureH1.Body — request bodies and the state they share with the
connection, from `service.rs` and the `BodyIo` half of `conn.rs`.

Three buffers hold the bytes of a connection: the transport, `IoState.buf`,
and the `buffered` of the body being read. The transport is modelled by its
history, what it has delivered and what it has accepted; whatever it does
next is an answer from the environment (`ReadAnswer`, `WriteAnswer`,
`FlushAnswer`). A poll takes the answers to the calls it will make and stops
at the first one that is missing, as a poll stops at `Pending`.

`body_read` is one cell that the connection shares with every body it ever
makes, so it stands beside the `IoState` in `Shared` and not in the body.
-/
import ArmatureH1.Chunked
import ArmatureH1.Framing

namespace ArmatureH1

open ByteString

/-! ## The transport -/

/-- What a transport has done so far. -/
structure Transport where
  received : Bytes
  sent : Bytes
  deriving DecidableEq

/-- An answer of `poll_read`. `ok []` is end of file. -/
inductive ReadAnswer where
  | pending
  | ok (b : Bytes)
  | err

/-- An answer of `poll_write`: how many bytes were accepted. -/
inductive WriteAnswer where
  | pending
  | ok (n : Nat)
  | err

/-- An answer of `poll_flush`. -/
inductive FlushAnswer where
  | pending
  | ok
  | err

/-- `Poll<io::Result<()>>`. -/
inductive PollIo where
  | pending
  | ready
  | err
  deriving DecidableEq

def FlushAnswer.poll : FlushAnswer → PollIo
  | .pending => .pending
  | .ok => .ready
  | .err => .err

/-! ## `IoState` -/

/-- `CONTINUE`. -/
def continueBytes : Bytes := ascii "HTTP/1.1 100 Continue\r\n\r\n"

/-- `IoState`. -/
structure IoState where
  io : Transport
  buf : Bytes
  scanned : Nat
  headEnd : Option Nat
  bodyFinished : Bool
  bodyGeneration : Nat
  pendingContinue : Nat
  deriving DecidableEq

namespace IoState

/-- `reset_scan`. -/
def resetScan (st : IoState) : IoState := { st with scanned := 0, headEnd := none }

/-- The transport delivers `b`, unread so far. -/
def receive (st : IoState) (b : Bytes) : IoState :=
  { st with io := { st.io with received := st.io.received ++ b } }

/-- The transport accepts `b`. -/
def send (st : IoState) (b : Bytes) : IoState :=
  { st with io := { st.io with sent := st.io.sent ++ b } }

/-- `poll_read_more`, on a read that delivers `b`. -/
def readMore (st : IoState) (b : Bytes) : IoState :=
  let st := st.receive b
  { st with buf := st.buf ++ b }

/-- `poll_fill`, on a read that delivers a non-empty `b`: the new bytes are
split off again. -/
def fill (st : IoState) (b : Bytes) : Bytes × IoState :=
  let before := st.buf.length
  let st := st.readMore b
  (st.buf.drop before, { st with buf := st.buf.take before }.resetScan)

/-- `take_buffered`. -/
def takeBuffered (st : IoState) (max : Nat) : Bytes × IoState :=
  let n := min st.buf.length max
  (st.buf.take n, { st with buf := st.buf.drop n }.resetScan)

/-- `push_back`. -/
def pushBack (st : IoState) (bytes : Bytes) : IoState :=
  if bytes = [] then st
  else
    let st := st.resetScan
    { st with buf := bytes ++ st.buf }

/-- `body_started`: the generation that is current from now on. -/
def bodyStarted (st : IoState) : IoState :=
  { st with bodyGeneration := (st.bodyGeneration + 1) % 2 ^ 64, bodyFinished := false }

/-- `body_finished`. -/
def finishBody (st : IoState) (generation : Nat) : IoState :=
  if generation = st.bodyGeneration then { st with bodyFinished := true } else st

/-- The part of the interim response that is still owed. -/
def owedContinue (st : IoState) : Bytes :=
  continueBytes.drop (continueBytes.length - st.pendingContinue)

/-- One accepted write of `poll_send_continue`. -/
def sendContinue (st : IoState) (n : Nat) : IoState :=
  { st.send (st.owedContinue.take n) with
    pendingContinue := st.pendingContinue - min n st.pendingContinue }

/-- `poll_send_continue`, with the answers to its writes and to the flush
behind them. -/
def pollSendContinue (flush : FlushAnswer) : List WriteAnswer → IoState → PollIo × IoState
  | writes, st =>
    if st.pendingContinue = 0 then (flush.poll, st)
    else
      match writes with
      | [] => (.pending, st)
      | .pending :: _ => (.pending, st)
      | .err :: _ => (.err, st)
      | .ok n :: rest =>
        if n = 0 then (.err, st) else pollSendContinue flush rest (st.sendContinue n)

end IoState

/-! ## Bodies -/

/-- What the connection shares with its bodies: the transport with its
buffer, and the `body_read` cell. -/
structure Shared where
  io : IoState
  bodyRead : Bool
  deriving DecidableEq

/-- `BodyError`. -/
inductive BodyError where
  | io
  | incomplete
  | chunked (e : ChunkedError)
  | tooLarge
  deriving DecidableEq

/-- The `BodyState` of a body that reads from a connection. -/
structure BodyState where
  kind : BodyKind
  buffered : Bytes
  remaining : Nat
  decoder : Option ChunkedDecoder
  trailers : Option HeaderVec
  trailersReady : Bool
  generation : Nat
  notified : Bool
  continueSent : Bool
  needsContinue : Bool
  done : Bool
  deriving DecidableEq

/-- `Poll<Option<Result<Bytes, BodyError>>>`. -/
inductive PollChunk where
  | pending
  | ended
  | chunk (b : Bytes)
  | error (e : BodyError)
  deriving DecidableEq

namespace BodyState

/-- `Body::new`: the body, and the shared state once it is registered. -/
def new (kind : BodyKind) (needsContinue : Bool) (limits : Limits) (sh : Shared) :
    BodyState × Shared :=
  let (remaining, done) := match kind with
    | .none => (0, true)
    | .length n => (n, n == 0)
    | .chunked => (0, false)
  let io := sh.io.bodyStarted
  let generation := io.bodyGeneration
  let io := if done then io.finishBody generation else io
  ({ kind := kind
     buffered := []
     remaining := remaining
     decoder := if kind = .chunked then some (ChunkedDecoder.new limits) else none
     trailers := none
     trailersReady := done
     generation := generation
     notified := done
     continueSent := !needsContinue
     needsContinue := needsContinue
     done := done },
   { io := io, bodyRead := done })

/-- `notify_finished`. -/
def notifyFinished (sh : Shared) (s : BodyState) : Shared × BodyState :=
  if s.notified then (sh, s)
  else ({ sh with io := sh.io.finishBody s.generation }, { s with notified := true })

/-- `finish`. -/
def finish (sh : Shared) (s : BodyState) : Shared × BodyState :=
  notifyFinished { sh with bodyRead := true } { s with done := true }

/-- `fail`. -/
def fail (sh : Shared) (s : BodyState) : Shared × BodyState :=
  notifyFinished { sh with bodyRead := false } { s with done := true }

/-- Fail, and report the error. -/
def failWith (e : BodyError) (sh : Shared) (s : BodyState) : PollChunk × Shared × BodyState :=
  let (sh, s) := fail sh s
  (.error e, sh, s)

/-- Finish, mark the trailers final, and return what was read past the end. -/
def finishAndReturn (sh : Shared) (s : BodyState) : Shared × BodyState :=
  let (sh, s) := finish sh s
  ({ sh with io := sh.io.pushBack s.buffered }, { s with trailersReady := true, buffered := [] })

/-- Draw on the connection's buffer when the body has nothing left, up to
`max` bytes. -/
def draw (max : Nat) (sh : Shared) (s : BodyState) : Shared × BodyState :=
  if s.buffered = [] then
    let (got, io) := sh.io.takeBuffered max
    ({ sh with io := io }, { s with buffered := got })
  else (sh, s)

/-- What one round of the loop in `poll_chunk` comes to before it reads:
`none` when it has to. -/
abbrev Round := Option PollChunk × Shared × BodyState

/-- The `BodyKind::Length` round. -/
def lengthRound (sh : Shared) (s : BodyState) : Round :=
  let (sh, s) := if s.remaining > 0 then draw s.remaining sh s else (sh, s)
  if s.buffered ≠ [] then
    let take := min s.buffered.length s.remaining
    let chunk := s.buffered.take take
    let s := { s with buffered := s.buffered.drop take, remaining := s.remaining - take }
    let (sh, s) := if s.remaining = 0 then finishAndReturn sh s else (sh, s)
    (some (.chunk chunk), sh, s)
  else if s.remaining = 0 then
    let (sh, s) := finish sh s
    (some .ended, sh, { s with trailersReady := true })
  else (none, sh, s)

/-- The `BodyKind::Chunked` round. A `Trailers` event goes round again
without reading, and only the end can follow it, so a second turn is the
last (`chunkedRound_enough`). -/
def chunkedRound : Nat → Shared → BodyState → Round
  | 0, sh, s => (none, sh, s)
  | turns + 1, sh, s =>
    let (sh, s) := draw sh.io.buf.length sh s
    match s.decoder with
    | none => (none, sh, s)
    | some d =>
      let (r, d, rest) := d.poll s.buffered
      let s := { s with decoder := some d, buffered := rest }
      match r with
      | .error e =>
        let (r, sh, s) := failWith (.chunked e) sh s
        (some r, sh, s)
      | .ok (some (.data x)) => (some (.chunk x), sh, s)
      | .ok (some (.trailers t)) => chunkedRound turns sh { s with trailers := some t }
      | .ok (some .ended) =>
        let (sh, s) := finishAndReturn sh s
        (some .ended, sh, s)
      | .ok none => (none, sh, s)

/-- One round of the loop in `poll_chunk`. -/
def round (sh : Shared) (s : BodyState) : Round :=
  match s.kind with
  | .none =>
    let (sh, s) := finish sh s
    (some .ended, sh, s)
  | .length _ => lengthRound sh s
  | .chunked => chunkedRound 2 sh s

/-- The loop of `poll_chunk`: a round, and a `fill` when it asks for one.
The reads are the answers to the calls of `poll_fill`. -/
def pollLoop : List ReadAnswer → Shared → BodyState → PollChunk × Shared × BodyState
  | reads, sh, s =>
    match round sh s with
    | (some r, sh, s) => (r, sh, s)
    | (none, sh, s) =>
      match reads with
      | [] => (.pending, sh, s)
      | .pending :: _ => (.pending, sh, s)
      | .err :: _ => failWith .io sh s
      | .ok b :: rest =>
        if b = [] then failWith .incomplete sh s
        else
          let (fresh, io) := sh.io.fill b
          pollLoop rest { sh with io := io } { s with buffered := s.buffered ++ fresh }

/-- The environment's answers to one `poll_chunk`. -/
structure PollAnswers where
  writes : List WriteAnswer
  flush : FlushAnswer
  reads : List ReadAnswer

/-- `Body::poll_chunk`. -/
def pollChunk (a : PollAnswers) (sh : Shared) (s : BodyState) : PollChunk × Shared × BodyState :=
  if s.done then (.ended, sh, s)
  else if s.continueSent then pollLoop a.reads sh s
  else
    match sh.io.pollSendContinue a.flush a.writes with
    | (.pending, io) => (.pending, { sh with io := io }, s)
    | (.err, io) => failWith .io { sh with io := io } s
    | (.ready, io) => pollLoop a.reads { sh with io := io } { s with continueSent := true }

/-- `Drop for BodyState`. -/
def drop (sh : Shared) (s : BodyState) : Shared := (notifyFinished sh s).1

end BodyState

end ArmatureH1
