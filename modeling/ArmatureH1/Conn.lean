/-
ArmatureH1.Conn — the connection loop of `conn.rs`.

`Connection::serve` is an async function; here it is a machine. A `Pc` is a
place where it waits, an `Event` is what the outside world does there: the
transport answers a read, a write or a flush, a deadline expires, the
handler or its stream is polled and answers, and anyone who still holds a
request body polls it, gives it up or drops it, at any time. `step` runs the
code from one wait to the next. An event that does not fit the place where
the loop waits changes nothing.

Beside the source's state the machine keeps a history: for every request
whose head was split off, an `Exchange` with the head, what the polls of its
body returned, what its handler answered, the interim bytes that went out
for it, and the reply. Nothing in the loop reads the history.
-/
import ArmatureH1.Framing
import ArmatureH1.Write
import ArmatureH1.HeadRead

namespace ArmatureH1

open ByteString

/-! ## 1. Configuration -/

/-- `STREAM_FLUSH_BYTES`. -/
def streamFlushBytes : Nat := 8 * 1024

/-- `PIPELINE_FLUSH_BYTES`. -/
def pipelineFlushBytes : Nat := 32 * 1024

/-- How much output may be held back. -/
structure Coalescing where
  pipeline : Nat
  stream : Nat

/-- What the source holds back. -/
def Coalescing.source : Coalescing := ⟨pipelineFlushBytes, streamFlushBytes⟩

/-- Nothing is held back: every response and every chunk is flushed. -/
def Coalescing.eager : Coalescing := ⟨0, 0⟩

/-- What a connection is made with: `ConnConfig`, the two thresholds, the
tokenizer, and the `Date` value of each head in the order they are written. -/
structure Env where
  limits : Limits
  serverName : Option Bytes
  coalescing : Coalescing
  httparse : Httparse
  date : Nat → Bytes

/-! ## 2. Requests and responses -/

/-- What the loop keeps of a request's head while it is served. -/
structure Call where
  version : Version
  keepAlive : Bool
  wantsUpgrade : Bool
  expectsContinue : Bool
  isHeadRequest : Bool
  deriving DecidableEq

def Call.ofHead (h : Head) : Call where
  version := h.version
  keepAlive := h.isKeepAlive
  wantsUpgrade :=
    h.version == .http11 && h.count .upgrade > 0 && h.connectionHasToken (ascii "upgrade")
  expectsContinue :=
    h.version == .http11
      && (h.all .expect).getLast?.any (eqIgnoreAsciiCase · (ascii "100-continue"))
  isHeadRequest := h.method == .head

/-- `ResponseBody`. The items of a stream are events. -/
inductive ResponseBody where
  | empty
  | full (b : Bytes)
  | stream
  deriving DecidableEq

/-- `Response`. -/
structure Response where
  status : Nat
  headers : HeaderVec
  body : ResponseBody

/-- `Disposition`. -/
inductive Disposition where
  | keepAlive
  | close
  | upgrade
  deriving DecidableEq

/-- What `write_response` makes of a handler's response before it writes. -/
structure Answer where
  version : Version
  status : Nat
  headers : HeaderVec
  body : ResponseBody
  keepAlive : Bool
  upgrading : Bool
  closeDelimited : Bool
  isHeadRequest : Bool
  deriving DecidableEq

namespace Answer

/-- The handler's `Connection: close`. -/
def saysClose (headers : HeaderVec) : Bool :=
  headers.any fun f => f.1.canonical == .connection && valueHasToken f.2 (ascii "close")

/-- The `Server` field, when one is configured and the handler set none. -/
def withServer (name : Option Bytes) (headers : HeaderVec) : HeaderVec :=
  match name with
  | some n => if headers.any (fun f => f.1.canonical == .server) then headers
      else headers ++ [(.server, n)]
  | none => headers

/-- The decisions of `write_response`. -/
def of (serverName : Option Bytes) (call : Call) (resp : Response) (bodyConsumed : Bool) : Answer :=
  let upgrading := resp.status == 101 && call.wantsUpgrade && bodyConsumed
  let keepAlive := (call.keepAlive && bodyConsumed) && !upgrading
  let final := isFinalStatus resp.status call.wantsUpgrade
  let status := if final then resp.status else 500
  let headers := if final then resp.headers else []
  let body := if final then resp.body else .empty
  let keepAlive := keepAlive && final && !saysClose headers
  let closeDelimited := call.version == .http10 && body == .stream && !call.isHeadRequest
    && !forbidsBodyFraming status
  { version := call.version
    status := status
    headers := withServer serverName headers
    body := body
    keepAlive := keepAlive && !closeDelimited
    upgrading := upgrading
    closeDelimited := closeDelimited
    isHeadRequest := call.isHeadRequest }

def outBody (a : Answer) : OutBody :=
  match a.body with
  | .empty => .none
  | .full b => .fixed b
  | .stream => .chunked

/-- The head of the response. -/
def head (a : Answer) (date : Bytes) : Bytes :=
  writeHeadFor a.version ⟨a.status, a.headers⟩ a.outBody date a.keepAlive a.isHeadRequest

/-- Whether the response's body is written at all. -/
def writesBody (a : Answer) : Bool :=
  !a.isHeadRequest && !a.upgrading && !forbidsBodyFraming a.status

/-- An item of the stream, as it is written. -/
def frame (a : Answer) (chunk : Bytes) : Bytes :=
  if a.closeDelimited then chunk else writeChunk chunk

/-- What is written when the stream ends. -/
def terminator (a : Answer) : Bytes := if a.closeDelimited then [] else writeLastChunk []

/-- What becomes of the connection behind the response. -/
def disposition (a : Answer) : Disposition :=
  if a.upgrading then .upgrade else if a.keepAlive then .keepAlive else .close

end Answer

/-! ## 3. The history -/

/-- A response as far as it has been produced. -/
structure Reply where
  answer : Answer
  date : Bytes
  items : List Bytes
  ended : Bool

/-- The bytes of its body. -/
def Reply.body (r : Reply) : Bytes :=
  if r.answer.writesBody then
    match r.answer.body with
    | .empty => []
    | .full b => b
    | .stream => r.items.flatMap r.answer.frame ++ (if r.ended then r.answer.terminator else [])
  else []

def Reply.bytes (r : Reply) : Bytes := r.answer.head r.date ++ r.body

def Reply.addItem (b : Bytes) (r : Reply) : Reply := { r with items := r.items ++ [b] }

def Reply.finish (r : Reply) : Reply := { r with ended := true }

/-- A response of `write_error`. -/
structure Fault where
  version : Version
  status : Nat
  date : Bytes

def Fault.bytes (f : Fault) : Bytes := writeHead f.version ⟨f.status, []⟩ .none f.date false

/-- A request whose head was split off, and what the polls of its body
returned. -/
structure Incoming where
  head : Bytes
  polls : List PollChunk

/-- A request, what its handler answered, and what was written for it.
`polledFirst` says that its body was polled before the head of its response
was written. -/
structure Exchange where
  request : Incoming
  response : Option Response
  polledFirst : Bool
  interim : Bytes
  reply : Option Reply

namespace Exchange

def start (head : Bytes) : Exchange := ⟨⟨head, []⟩, none, false, [], none⟩

def responded (resp : Response) (x : Exchange) : Exchange := { x with response := some resp }

def answer (r : Reply) (x : Exchange) : Exchange := { x with reply := some r }

def onReply (f : Reply → Reply) (x : Exchange) : Exchange := { x with reply := x.reply.map f }

def sentInterim (b : Bytes) (x : Exchange) : Exchange := { x with interim := x.interim ++ b }

/-- Record a poll of the body, and what went out during it. -/
def polled (r : PollChunk) (b : Bytes) (unanswered : Bool) (x : Exchange) : Exchange :=
  { x with
    request := { x.request with polls := x.request.polls ++ [r] }
    polledFirst := x.polledFirst || (unanswered && x.reply.isNone)
    interim := x.interim ++ b }

/-- What goes out for the request. -/
def wire (x : Exchange) : Bytes := x.interim ++ (x.reply.map Reply.bytes).getD []

end Exchange

/-! ## 4. The machine -/

/-- What happens once the pending buffer is out. -/
inductive AfterFlush where
  | read
  | call (c : Call)
  | wait (c : Call)
  | stream (a : Answer) (parked : Bool)
  | close
  | finish (a : Answer)
  | errorWritten

/-- What happens once an owed `100 Continue` is resolved. -/
inductive AfterSettle where
  | respond (a : Answer)
  | error (version : Version) (status : Nat)

/-- How `serve` returns. -/
inductive Ended where
  | closed
  | upgraded (buffered : Bytes)
  | ioError
  | panicked

/-- Where the loop waits. -/
inductive Pc where
  | reading (started : Bool)
  | flushing (written : Nat) (next : AfterFlush)
  | settling (next : AfterSettle)
  | firstPoll (call : Call) (held : Bytes)
  | handling (call : Call)
  | streaming (a : Answer) (parked : Bool)
  | ended (r : Ended)

/-- A connection. `current` is the body of the request being served while
anyone holds it, `stale` the bodies of earlier requests that are still held,
`heads` the number of response heads written. -/
structure Conn where
  shared : Shared
  current : Option BodyState
  stale : List BodyState
  out : Bytes
  pc : Pc
  heads : Nat
  past : List Exchange
  now : Option Exchange
  fault : Option Fault

/-- What a holder of a body does with it. `abandon` is `collect` giving up
on a body that outgrew its cap. -/
inductive BodyOp where
  | poll (a : BodyState.PollAnswers)
  | abandon
  | drop

/-- A poll of the handler. The number is what the transport accepts of the
held output when the handler panics. -/
inductive HandlerAnswer where
  | pending
  | ready (resp : Response)
  | panic (accepted : Nat)

/-- A poll of a response's stream. -/
inductive StreamAnswer where
  | pending
  | item (b : Bytes)
  | failed
  | ended
  | panic

/-- The items in an answer of a stream. -/
def StreamAnswer.items : StreamAnswer → List Bytes
  | .item b => [b]
  | _ => []

inductive Event where
  | read (a : ReadAnswer)
  | write (a : WriteAnswer)
  | flush (a : FlushAnswer)
  | settle (writes : List WriteAnswer) (flush : FlushAnswer)
  | handler (a : HandlerAnswer)
  | stream (a : StreamAnswer)
  | body (op : BodyOp)
  | staleBody (i : Nat) (op : BodyOp)
  | headDeadline
  | bodyDeadline
  | handlerDeadline
  | writeDeadline

namespace Conn

def setIo (c : Conn) (io : IoState) : Conn := { c with shared := { c.shared with io := io } }

/-- Bytes accepted by the transport. -/
def send (c : Conn) (b : Bytes) : Conn := c.setIo (c.shared.io.send b)

/-! ### Errors -/

/-- `flush`: nothing to write is nothing to wait for. -/
def flushOr (next : AfterFlush) (c done : Conn) : Conn :=
  if c.out = [] then done else { c with pc := .flushing 0 next }

/-- An interim response that was not begun is no longer owed. -/
def dropContinue (c : Conn) : Conn := c.setIo { c.shared.io with pendingContinue := 0 }

/-- `settle_continue`: an interim response not yet begun is dropped, one
half sent is finished first. -/
def settleContinue (next : AfterSettle) (c : Conn) (go : Conn → Conn) : Conn :=
  if c.shared.io.pendingContinue = continueBytes.length then
    go c.dropContinue
  else if c.shared.io.pendingContinue = 0 then go c
  else { c with pc := .settling next }

/-- `write_error`, behind `settle_continue`. -/
def writeErrorHead (env : Env) (version : Version) (status : Nat) (c : Conn) : Conn :=
  let f : Fault := ⟨version, status, env.date c.heads⟩
  let c := { c with out := c.out ++ f.bytes, heads := c.heads + 1, fault := some f }
  flushOr .errorWritten c { c with pc := .ended .closed }

/-- `write_error`. -/
def writeError (env : Env) (version : Version) (status : Nat) (c : Conn) : Conn :=
  settleContinue (.error version status) c (writeErrorHead env version status)

/-! ### The next request -/

/-- `serve`, from an accepted head to the handler's call. -/
def callHandler (env : Env) (h : Head) (kind : BodyKind) (c : Conn) : Conn :=
  let call := Call.ofHead h
  let io := { c.shared.io with
    pendingContinue := if call.expectsContinue then continueBytes.length else 0
    bodyFinished := false }
  let (body, shared) := BodyState.new kind call.expectsContinue env.limits ⟨io, false⟩
  let c := { c with shared := shared, current := some body }
  if c.out = [] then { c with pc := .handling call }
  else if call.expectsContinue then { c with pc := .flushing 0 (.call call) }
  else { c with out := [], pc := .firstPoll call c.out }

/-- `serve`, from a complete head in the buffer. -/
def startRequest (env : Env) (c : Conn) : Conn :=
  match c.shared.io.headLength with
  | none => { c with pc := .ended .closed }
  | some n =>
    let (head, io) := c.shared.io.splitHead n
    let c := { c.setIo io with
      current := none
      stale := c.current.toList ++ c.stale
      past := c.past ++ c.now.toList
      now := some (Exchange.start head) }
    match parseHeadRegion env.httparse head env.limits with
    | .error e => writeError env .http11 e.status c
    | .ok h =>
      match decideFraming h env.limits with
      | .error e => writeError env h.version e.status c
      | .ok kind => callHandler env h kind c

/-- `read_until_head_or_idle`, up to its first read. -/
def enterRead (env : Env) (c : Conn) : Conn :=
  let (complete, io) := c.shared.io.hasCompleteHead
  let c := c.setIo io
  if complete then startRequest env c
  else flushOr .read c { c with pc := .reading (beginsRequest c.shared.io.buf) }

/-- What `serve` does with a disposition. The transport is handed over only
when no body holds on to it. -/
def dispose (env : Env) (c : Conn) : Disposition → Conn
  | .keepAlive => enterRead env c
  | .close => { c with pc := .ended .closed }
  | .upgrade =>
    if c.current.isSome ∨ c.stale ≠ [] then { c with pc := .ended .closed }
    else { c with pc := .ended (.upgraded c.shared.io.buf) }

/-! ### The response -/

/-- `write_response`, behind the body: hold the response back, or flush it. -/
def conclude (env : Env) (a : Answer) (c : Conn) : Conn :=
  if a.keepAlive && !a.upgrading && c.out.length < env.coalescing.pipeline then
    let (complete, io) := c.shared.io.hasCompleteHead
    let c := c.setIo io
    if complete then dispose env c a.disposition
    else flushOr (.finish a) c (dispose env c a.disposition)
  else flushOr (.finish a) c (dispose env c a.disposition)

/-- `write_response`, from the head on. -/
def respondHead (env : Env) (a : Answer) (c : Conn) : Conn :=
  let r : Reply := ⟨a, env.date c.heads, [], false⟩
  let c := { c with
    out := c.out ++ a.head r.date
    heads := c.heads + 1
    now := c.now.map (Exchange.answer r) }
  if a.writesBody then
    match a.body with
    | .empty => conclude env a c
    | .full b => conclude env a { c with out := c.out ++ b }
    | .stream => flushOr (.stream a false) c { c with pc := .streaming a false }
  else conclude env a c

/-- `write_response`. -/
def respond (env : Env) (call : Call) (resp : Response) (c : Conn) : Conn :=
  let a := Answer.of env.serverName call resp c.shared.bodyRead
  settleContinue (.respond a) { c with now := c.now.map (Exchange.responded resp) }
    (respondHead env a)

/-! ### Waits -/

/-- Behind a flush. -/
def proceed (env : Env) (c : Conn) : AfterFlush → Conn
  | .read => { c with pc := .reading (beginsRequest c.shared.io.buf) }
  | .call call => { c with pc := .handling call }
  | .wait call => { c with pc := .handling call }
  | .stream a parked => { c with pc := .streaming a parked }
  | .close => { c with pc := .ended .closed }
  | .finish a => dispose env c a.disposition
  | .errorWritten => { c with pc := .ended .closed }

/-- A flush that failed: `write_error` does not look, everything else ends
with the error. -/
def failFlush (c : Conn) : AfterFlush → Conn
  | .errorWritten => { c with out := [], pc := .ended .closed }
  | _ => { c with out := [], pc := .ended .ioError }

def stepFlushing (env : Env) (c : Conn) (written : Nat) (next : AfterFlush) : Event → Conn
  | .write .err => if written < c.out.length then failFlush c next else c
  | .write (.ok n) =>
    if written < c.out.length then
      if n = 0 then failFlush c next
      else
        { c.send ((c.out.drop written).take n) with
          pc := .flushing (written + min n (c.out.length - written)) next }
    else c
  | .flush .ok => if written < c.out.length then c else proceed env { c with out := [] } next
  | .flush .err => if written < c.out.length then c else failFlush c next
  | .writeDeadline => failFlush c next
  | _ => c

/-- Behind an interim response that was half sent. -/
def settled (env : Env) (c : Conn) : AfterSettle → Conn
  | .respond a => respondHead env a c
  | .error version status => writeErrorHead env version status c

def failSettle (c : Conn) : AfterSettle → Conn
  | .respond _ => { c with pc := .ended .ioError }
  | .error _ _ => { c with pc := .ended .closed }

/-- A change of the transport, with what it was sent entered in the history. -/
def record (c : Conn) (io : IoState) : Conn :=
  { c.setIo io with
    now := c.now.map (Exchange.sentInterim (io.io.sent.drop c.shared.io.io.sent.length)) }

def stepSettling (env : Env) (c : Conn) (next : AfterSettle) : Event → Conn
  | .settle writes flush =>
    match c.shared.io.pollSendContinue flush writes with
    | (.pending, io) => c.record io
    | (.ready, io) => settled env (c.record io) next
    | (.err, io) => failSettle (c.record io) next
  | .writeDeadline => failSettle c next
  | _ => c

def stepReading (env : Env) (c : Conn) (started : Bool) : Event → Conn
  | .read .err => { c with pc := .ended .ioError }
  | .read (.ok b) =>
    if b = [] then { c with pc := .ended .closed }
    else
      match headRead env.limits started b c.shared.io with
      | (.ready, io) => startRequest env (c.setIo io)
      | (.failed status, io) => writeError env .http11 status (c.setIo io)
      | (.more started, io) => { c.setIo io with pc := .reading started }
  | .headDeadline =>
    if started then writeError env .http11 408 c else { c with pc := .ended .closed }
  | _ => c

/-- The handler's first poll, while earlier responses are held. -/
def stepFirstPoll (env : Env) (c : Conn) (call : Call) (held : Bytes) : Event → Conn
  | .handler .pending =>
    let c := { c with out := held ++ c.out }
    flushOr (.wait call) c { c with pc := .handling call }
  | .handler (.ready resp) => respond env call resp { c with out := held ++ c.out }
  | .handler (.panic n) => { c.send (held.take n) with pc := .ended .panicked }
  | _ => c

def stepHandling (env : Env) (c : Conn) (call : Call) : Event → Conn
  | .handler (.ready resp) => respond env call resp c
  | .handler (.panic _) => { c with pc := .ended .panicked }
  | .bodyDeadline => if c.shared.io.bodyFinished then c else writeError env call.version 408 c
  | .handlerDeadline => writeError env call.version 503 c
  | _ => c

/-- An item of the stream enters the output and the history. -/
def addItem (a : Answer) (b : Bytes) (c : Conn) : Conn :=
  { c with
    out := c.out ++ a.frame b
    now := c.now.map (Exchange.onReply (Reply.addItem b)) }

/-- The end of the stream enters the output and the history. -/
def addEnd (a : Answer) (c : Conn) : Conn :=
  { c with
    out := c.out ++ a.terminator
    now := c.now.map (Exchange.onReply Reply.finish) }

def stepStreaming (env : Env) (c : Conn) (a : Answer) (parked : Bool) : Event → Conn
  | .stream .pending =>
    if parked then c else flushOr (.stream a true) c { c with pc := .streaming a true }
  | .stream (.item b) =>
    let c := { addItem a b c with pc := .streaming a false }
    if c.out.length ≥ env.coalescing.stream then flushOr (.stream a false) c c else c
  | .stream .failed => flushOr .close c { c with pc := .ended .closed }
  | .stream .ended => conclude env a (addEnd a c)
  | .stream .panic => { c with pc := .ended .panicked }
  | .bodyDeadline =>
    if parked && !c.shared.io.bodyFinished then { c with pc := .ended .closed } else c
  | _ => c

/-! ### Bodies -/

/-- An operation on the body of the current request. -/
def stepBody (c : Conn) (b : BodyState) : BodyOp → Conn
  | .poll a =>
    let (r, sh, b) := b.pollChunk a c.shared
    { c with
      shared := sh
      current := some b
      now := c.now.map (Exchange.polled r (sh.io.io.sent.drop c.shared.io.io.sent.length)
        c.fault.isNone) }
  | .abandon =>
    if b.done then c
    else
      let (sh, b) := b.fail c.shared
      { c with
        shared := sh
        current := some b
        now := c.now.map (Exchange.polled (.error .tooLarge) [] false) }
  | .drop => { c with shared := b.drop c.shared, current := none }

/-- An operation on a body that was kept past its response. -/
def stepStale (c : Conn) (i : Nat) (b : BodyState) : BodyOp → Conn
  | .poll a =>
    let (_, sh, b) := b.pollChunk a c.shared
    { c with shared := sh, stale := c.stale.set i b }
  | .abandon =>
    if b.done then c
    else
      let (sh, b) := b.fail c.shared
      { c with shared := sh, stale := c.stale.set i b }
  | .drop => { c with shared := b.drop c.shared, stale := c.stale.eraseIdx i }

/-- Whether anyone can hold the current body yet: while earlier responses
are flushed ahead of a `100 Continue`, the handler has not been called. -/
def bodyHeld (c : Conn) : Bool :=
  match c.pc with
  | .flushing _ (.call _) => false
  | .ended _ => false
  | _ => true

/-- One step of the connection. -/
def step (env : Env) (c : Conn) (e : Event) : Conn :=
  match e with
  | .body op =>
    match c.current with
    | some b => if c.bodyHeld then stepBody c b op else c
    | none => c
  | .staleBody i op =>
    match c.stale[i]? with
    | some b => match c.pc with
      | .ended _ => c
      | _ => stepStale c i b op
    | none => c
  | e =>
    match c.pc with
    | .reading started => stepReading env c started e
    | .flushing written next => stepFlushing env c written next e
    | .settling next => stepSettling env c next e
    | .firstPoll call held => stepFirstPoll env c call held e
    | .handling call => stepHandling env c call e
    | .streaming a parked => stepStreaming env c a parked e
    | .ended _ => c

/-- `Connection::with_buffered`, as `serve` begins. -/
def init (env : Env) (buffered : Bytes) : Conn :=
  enterRead env
    { shared :=
        { io :=
            { io := { received := buffered, sent := [] }
              buf := buffered
              scanned := 0
              headEnd := none
              bodyFinished := false
              bodyGeneration := 0
              pendingContinue := 0 }
          bodyRead := false }
      current := none
      stale := []
      out := []
      pc := .reading false
      heads := 0
      past := []
      now := none
      fault := none }

/-- The connection after any sequence of events. -/
def run (env : Env) (buffered : Bytes) (events : List Event) : Conn :=
  events.foldl (step env) (init env buffered)

end Conn

end ArmatureH1
