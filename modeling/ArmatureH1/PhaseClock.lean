/-
ArmatureH1.PhaseClock — the clock of the hyper backend, `backend/hyper/mod.rs`.

hyper's connection future has no deadlines of its own, so the backend keeps a
clock beside it: which of four phases the connection is in, since when, whether
bytes of the current response are on the wire, whether its body has ended. The
IO adapter (`io.rs`), the service bridge (`bridge.rs`) and the bodies
(`body.rs`) move it. `ClockEvent` lists what they do, each event a stretch of
the source with no `await` in it: everything runs on one thread, so nothing
else sees the clock in the middle of one. In particular the bridge enters
`Handler` and sets the body's deadline in one event, and it enters `Write` and
says whether the response streams in one event.

Two things of the standard library have a model of their own. An
`Rc<Cell<bool>>` is an index into the cells made so far, so that `Rc::ptr_eq`
is equality of indices. `tokio::sync::Notify` is the number of calls of
`notify_waiters`: a `notified()` future is done when that number has moved
since the future was made.
-/
import ArmatureH1.BridgeResponse
import ArmatureH1.Deadline

namespace ArmatureH1

open ByteString

/-! ## 1. The clock -/

/-- `Phase`. -/
inductive Phase where
  | idle
  | head
  | handler
  | write
  deriving DecidableEq, Repr

/-- The four deadlines of `Limits`, in nanoseconds. -/
structure Timeouts where
  idle : Nat
  header : Nat
  body : Nat
  write : Nat
  deriving DecidableEq, Repr

/-- `Limits::default`, its deadlines. -/
def Timeouts.default : Timeouts where
  idle := 75 * 10 ^ 9
  header := 10 * 10 ^ 9
  body := 30 * 10 ^ 9
  write := 30 * 10 ^ 9

/-- `phase_timeout`. -/
def phaseTimeout (limits : Timeouts) : Phase → Nat
  | .idle => limits.idle
  | .head => limits.header
  | .handler => limits.body
  | .write => limits.write

/-- `PhaseClock`. -/
structure PhaseClock where
  phase : Phase
  /-- A `u64`. -/
  generation : Nat
  wroteBytes : Bool
  bodyDone : Bool
  detached : Bool
  /-- The flags of all requests so far, true once the body is finished. -/
  flags : List Bool
  /-- `request_body_finished`: which of the flags is the current request's. -/
  requestBodyFinished : Nat
  bodyDeadlineAt : Option Nat
  responseStreams : Bool
  phaseSince : Nat
  /-- `notify`: how often `notify_waiters` was called. -/
  notifies : Nat
  deriving DecidableEq, Repr

namespace PhaseClock

/-- `PhaseClock::new`. -/
def new (phase : Phase) (now : Nat) : PhaseClock where
  phase := phase
  generation := 0
  wroteBytes := false
  bodyDone := false
  detached := false
  flags := [false]
  requestBodyFinished := 0
  bodyDeadlineAt := none
  responseStreams := false
  phaseSince := now
  notifies := 0

/-- Whether the current request's body is finished. -/
def bodyFinished (c : PhaseClock) : Bool := c.flags.getD c.requestBodyFinished false

/-- `PhaseClock::detach`. -/
def detach (c : PhaseClock) : PhaseClock := { c with detached := true }

/-- `PhaseClock::bump`. -/
def bump (c : PhaseClock) (now : Nat) : PhaseClock :=
  { c with
    generation := (c.generation + 1) % 2 ^ 64
    phaseSince := now
    notifies := c.notifies + 1 }

/-- `PhaseClock::set`. -/
def set (c : PhaseClock) (p : Phase) (now : Nat) : PhaseClock :=
  if c.detached then c
  else
    let c :=
      if p = .idle ∨ p = .handler then { c with wroteBytes := false, bodyDone := false } else c
    let c :=
      if p = .handler then
        { c with
          flags := c.flags ++ [false]
          requestBodyFinished := c.flags.length
          responseStreams := false }
      else c
    bump { c with phase := p } now

/-- `PhaseClock::note_write`. -/
def noteWrite (c : PhaseClock) (now : Nat) : PhaseClock :=
  if c.detached then c
  else
    let c := if c.phase = .write ∨ c.phase = .head then { c with wroteBytes := true } else c
    if c.phase = .write then c.bump now else c

/-- `PhaseClock::set_body_deadline`. -/
def setBodyDeadline (c : PhaseClock) (deadline : Option Nat) : PhaseClock :=
  { c with bodyDeadlineAt := deadline }

/-- `PhaseClock::note_body_end`. -/
def noteBodyEnd (c : PhaseClock) : PhaseClock := { c with bodyDone := true }

/-- `PhaseClock::note_flush`. -/
def noteFlush (c : PhaseClock) (now : Nat) : PhaseClock :=
  if c.detached then c
  else if c.phase = .write ∧ c.bodyDone = true then c.set .idle now else c

/-- `PhaseClock::note_request_body_finished`. A flag that is no longer the
current one is set all the same, but wakes nobody. -/
def noteRequestBodyFinished (c : PhaseClock) (flag : Nat) : PhaseClock :=
  { c with
    flags := c.flags.set flag true
    notifies := if flag = c.requestBodyFinished then c.notifies + 1 else c.notifies }

/-- `PhaseClock::set_response_streams`. -/
def setResponseStreams (c : PhaseClock) (streams : Bool) : PhaseClock :=
  { c with responseStreams := streams }

/-! ## 2. Who moves it -/

/-- `IoShared::note_read`, for the bytes of one read. -/
def noteRead (c : PhaseClock) (bytes : Bytes) (now : Nat) : PhaseClock :=
  if c.phase = .idle ∧ beginsRequest bytes = true then c.set .head now else c

/-- `IoShared::note_write`, for a write of `n` bytes. -/
def noteWritten (c : PhaseClock) (n now : Nat) : PhaseClock := if n > 0 then c.noteWrite now else c

/-- `Bridge::call`, once `leave_write` has let it through. -/
def enterHandler (instantMax : Nat) (limits : Timeouts) (c : PhaseClock) (now : Nat) : PhaseClock :=
  (c.set .handler now).setBodyDeadline (instantAdd instantMax now limits.body)

/-- Whether a body has ended before it starts, in `HyperOutBody::new`. -/
def endsAtOnce : ResponseBody → Bool
  | .empty => true
  | .full b => b.isEmpty
  | .stream => false

/-- `HyperOutBody::new`. -/
def outBody (c : PhaseClock) (body : ResponseBody) : PhaseClock :=
  if endsAtOnce body then c.noteBodyEnd else c

/-- `Bridge::call` where it answers with `reject`: its response has no body. -/
def reject (c : PhaseClock) (now : Nat) : PhaseClock := (c.set .write now).outBody .empty

/-- What the end of `Bridge::call` tells the clock about the response: whether
the request was a `HEAD`, whether hyper will poll a stream, and the body that
`convert_response` hands over. -/
structure HandedOver where
  isHeadRequest : Bool
  streams : Bool
  body : ResponseBody
  deriving DecidableEq

/-- `Bridge::call`, from the end of the handler on. A `HEAD` response's body is
never polled, so its end is noted here. -/
def handOver (c : PhaseClock) (out : HandedOver) (now : Nat) : PhaseClock :=
  let c := c.set .write now
  let c := if out.isHeadRequest then c.noteBodyEnd else c
  (c.setResponseStreams out.streams).outBody out.body

end PhaseClock

/-- What `Bridge.call` hands over for a handler's response. -/
def Bridge.handedOver (http : HttpCrate) (serverName : Option Bytes) (h : Head) (resp : Response)
    (fullyRead : Bool) : PhaseClock.HandedOver where
  isHeadRequest := h.method == .head
  streams := (degraded h resp).body == .stream && !(h.method == .head)
    && !forbidsBodyFraming (degraded h resp).status
  body := (Bridge.call http serverName h resp fullyRead).body

/-- The clock is told of a stream exactly when hyper is handed one that it will
poll. -/
theorem Bridge.handedOver_streams {http : HttpCrate} (hhttp : http.Documented)
    (serverName : Option Bytes) (h : Head) (resp : Response) (fullyRead : Bool) :
    (Bridge.handedOver http serverName h resp fullyRead).streams =
      ((Bridge.handedOver http serverName h resp fullyRead).body == .stream &&
        !(Bridge.handedOver http serverName h resp fullyRead).isHeadRequest) := by
  have hstatus := statusCode_degraded h resp hhttp
  simp only [Bridge.handedOver, Bridge.call, convertResponse, hstatus]
  cases forbidsBodyFraming (degraded h resp).status <;> simp

/-- What moves the clock while a connection is served. -/
inductive ClockEvent where
  | read (bytes : Bytes)
  | write (n : Nat)
  | flush
  | bodyEnd
  | requestBodyFinished (flag : Nat)
  | enterHandler
  | reject
  | handOver (out : PhaseClock.HandedOver)
  deriving DecidableEq

namespace ClockEvent

def apply (instantMax : Nat) (limits : Timeouts) (now : Nat) (c : PhaseClock) :
    ClockEvent → PhaseClock
  | .read bytes => c.noteRead bytes now
  | .write n => c.noteWritten n now
  | .flush => c.noteFlush now
  | .bodyEnd => c.noteBodyEnd
  | .requestBodyFinished flag => c.noteRequestBodyFinished flag
  | .enterHandler => c.enterHandler instantMax limits now
  | .reject => c.reject now
  | .handOver out => c.handOver out now

/-- The events that enter a phase. -/
def enters (c : PhaseClock) : ClockEvent → Bool
  | .read bytes => c.phase == .idle && beginsRequest bytes
  | .flush => c.phase == .write && c.bodyDone
  | .enterHandler => true
  | .reject => true
  | .handOver _ => true
  | _ => false

/-- The events that are progress of a write. -/
def progresses (c : PhaseClock) : ClockEvent → Bool
  | .write n => c.phase == .write && decide (n > 0)
  | _ => false

end ClockEvent

/-! ## 3. What an event changes

While the connection is served the clock is not detached, and every event keeps
it so. -/

namespace PhaseClock

section Attached

variable {c : PhaseClock} (hc : c.detached = false)

include hc

/-- What `set` leaves, with the two resets of a fresh response. -/
theorem set_spec (p : Phase) (now : Nat) :
    (c.set p now).phase = p ∧ (c.set p now).phaseSince = now ∧
      (c.set p now).notifies = c.notifies + 1 ∧ (c.set p now).detached = false ∧
      (c.set p now).bodyDone = (if p = .idle ∨ p = .handler then false else c.bodyDone) ∧
      (c.set p now).wroteBytes = (if p = .idle ∨ p = .handler then false else c.wroteBytes) := by
  unfold set
  cases p <;> simp [hc, bump]

theorem noteWrite_spec (now : Nat) :
    (c.noteWrite now).phase = c.phase ∧ (c.noteWrite now).bodyDone = c.bodyDone ∧
      (c.noteWrite now).wroteBytes =
        (c.wroteBytes || decide (c.phase = .write ∨ c.phase = .head)) := by
  unfold noteWrite
  cases hp : c.phase <;> simp [hc, hp, bump]

theorem noteWritten_spec (n now : Nat) :
    (c.noteWritten n now).phase = c.phase ∧ (c.noteWritten n now).bodyDone = c.bodyDone ∧
      (c.noteWritten n now).wroteBytes =
        (c.wroteBytes || (decide (n > 0) && decide (c.phase = .write ∨ c.phase = .head))) := by
  obtain ⟨hphase, hdone, hwrote⟩ := noteWrite_spec hc now
  unfold noteWritten
  split <;> simp_all

theorem noteFlush_spec (now : Nat) :
    c.noteFlush now = if c.phase = .write ∧ c.bodyDone = true then c.set .idle now else c := by
  unfold noteFlush
  simp [hc]

end Attached

theorem outBody_eq (c : PhaseClock) (body : ResponseBody) :
    c.outBody body = { c with bodyDone := c.bodyDone || endsAtOnce body } := by
  unfold outBody
  cases endsAtOnce body <;> simp [noteBodyEnd]

/-- What is left of `handOver` after the phase is entered. -/
theorem handOver_eq (c : PhaseClock) (out : HandedOver) (now : Nat) :
    c.handOver out now =
      { c.set .write now with
        responseStreams := out.streams
        bodyDone := (c.set .write now).bodyDone || out.isHeadRequest || endsAtOnce out.body } := by
  unfold handOver
  rw [outBody_eq]
  cases out.isHeadRequest <;> simp [noteBodyEnd, setResponseStreams]

theorem reject_eq (c : PhaseClock) (now : Nat) :
    c.reject now = { c.set .write now with bodyDone := true } := by
  unfold reject
  rw [outBody_eq]
  simp [endsAtOnce]

/-- Two clocks that a waiting watchdog cannot tell apart. -/
structure SameView (c c' : PhaseClock) : Prop where
  phase : c'.phase = c.phase
  generation : c'.generation = c.generation
  bodyFinished : c'.bodyFinished = c.bodyFinished
  bodyDeadlineAt : c'.bodyDeadlineAt = c.bodyDeadlineAt
  responseStreams : c'.responseStreams = c.responseStreams
  phaseSince : c'.phaseSince = c.phaseSince
  notifies : c'.notifies = c.notifies

theorem SameView.refl (c : PhaseClock) : SameView c c := ⟨rfl, rfl, rfl, rfl, rfl, rfl, rfl⟩

/-- The clock has moved: its phase was entered, or its write progressed. -/
structure Moved (c c' : PhaseClock) (now : Nat) : Prop where
  detached : c'.detached = false
  phaseSince : c'.phaseSince = now
  notifies : c'.notifies = c.notifies + 1

theorem moved_set {c : PhaseClock} (hc : c.detached = false) (p : Phase) (now : Nat) :
    Moved c (c.set p now) now := by
  obtain ⟨-, hsince, hnotifies, hdetached, -, -⟩ := set_spec hc p now
  exact ⟨hdetached, hsince, hnotifies⟩

/-- The clock has not moved. A watchdog may still have been notified, of a
finished body; if not, its view is the same. -/
structure Stayed (c c' : PhaseClock) : Prop where
  detached : c'.detached = false
  phase : c'.phase = c.phase
  phaseSince : c'.phaseSince = c.phaseSince
  heard : c.notifies < c'.notifies ∨ SameView c c'

theorem Stayed.refl {c : PhaseClock} (hc : c.detached = false) : Stayed c c :=
  ⟨hc, rfl, rfl, .inr (.refl c)⟩

/-- A write outside of `Write` is remembered at most. -/
theorem stayed_noteWrite {c : PhaseClock} (hc : c.detached = false) (hphase : c.phase ≠ .write)
    (now : Nat) : Stayed c (c.noteWrite now) := by
  unfold noteWrite
  simp only [hc, hphase, false_or, Bool.false_eq_true, if_false]
  split
  · exact ⟨rfl, rfl, rfl, .inr ⟨rfl, rfl, rfl, rfl, rfl, rfl, rfl⟩⟩
  · exact .refl hc

theorem moved_noteWrite {c : PhaseClock} (hc : c.detached = false) (hphase : c.phase = .write)
    (now : Nat) : Moved c (c.noteWrite now) now := by
  constructor <;> simp [noteWrite, hc, hphase, bump]

/-- A flag that is not the current request's is not part of the view. -/
theorem stayed_noteRequestBodyFinished {c : PhaseClock} (hc : c.detached = false) (flag : Nat) :
    Stayed c (c.noteRequestBodyFinished flag) := by
  refine ⟨hc, rfl, rfl, ?_⟩
  by_cases hflag : flag = c.requestBodyFinished
  · left
    simp [noteRequestBodyFinished, hflag]
  · right
    refine ⟨rfl, rfl, ?_, rfl, rfl, rfl, ?_⟩
    · show (c.flags.set flag true).getD c.requestBodyFinished false = _
      simp [List.getD, List.getElem?_set_ne hflag, bodyFinished]
    · simp [noteRequestBodyFinished, hflag]

end PhaseClock

namespace ClockEvent

open PhaseClock

/-- What an event can do: enter a phase, be the progress of a write, or leave
the clock where it is. -/
theorem apply_cases {c : PhaseClock} (hc : c.detached = false) (instantMax : Nat)
    (limits : Timeouts) (now : Nat) (e : ClockEvent) :
    e.enters c = true ∧ Moved c (e.apply instantMax limits now c) now ∨
      e.enters c = false ∧ e.progresses c = true ∧
        (e.apply instantMax limits now c).phase = .write ∧
        Moved c (e.apply instantMax limits now c) now ∨
      e.enters c = false ∧ e.progresses c = false ∧
        Stayed c (e.apply instantMax limits now c) := by
  cases e with
  | read bytes =>
    simp only [apply, noteRead]
    by_cases h : c.phase = .idle ∧ beginsRequest bytes = true
    · rw [if_pos h]
      exact .inl ⟨by simp [enters, h], moved_set hc .head now⟩
    · rw [if_neg h]
      exact .inr (.inr ⟨by simpa [enters] using h, rfl, .refl hc⟩)
  | write n =>
    right
    simp only [apply, noteWritten]
    by_cases hn : n > 0
    · rw [if_pos hn]
      by_cases hphase : c.phase = .write
      · refine .inl ⟨rfl, by simp [progresses, hphase, hn], ?_, moved_noteWrite hc hphase now⟩
        exact (noteWrite_spec hc now).1.trans hphase
      · exact .inr ⟨rfl, by simp [progresses, hphase], stayed_noteWrite hc hphase now⟩
    · rw [if_neg hn]
      exact .inr ⟨rfl, by simp [progresses, hn], .refl hc⟩
  | flush =>
    simp only [apply, noteFlush_spec hc]
    by_cases h : c.phase = .write ∧ c.bodyDone = true
    · rw [if_pos h]
      exact .inl ⟨by simp [enters, h], moved_set hc .idle now⟩
    · rw [if_neg h]
      exact .inr (.inr ⟨by simpa [enters] using h, rfl, .refl hc⟩)
  | bodyEnd =>
    exact .inr (.inr ⟨rfl, rfl, hc, rfl, rfl, .inr ⟨rfl, rfl, rfl, rfl, rfl, rfl, rfl⟩⟩)
  | requestBodyFinished flag =>
    exact .inr (.inr ⟨rfl, rfl, stayed_noteRequestBodyFinished hc flag⟩)
  | enterHandler =>
    have hmoved := moved_set hc .handler now
    exact .inl ⟨rfl, hmoved.detached, hmoved.phaseSince, hmoved.notifies⟩
  | reject =>
    have hmoved := moved_set hc .write now
    simp only [apply, reject_eq]
    exact .inl ⟨rfl, hmoved.detached, hmoved.phaseSince, hmoved.notifies⟩
  | handOver out =>
    have hmoved := moved_set hc .write now
    simp only [apply, handOver_eq]
    exact .inl ⟨rfl, hmoved.detached, hmoved.phaseSince, hmoved.notifies⟩

section Attached

variable {c : PhaseClock} (hc : c.detached = false) (instantMax : Nat) (limits : Timeouts)
  (now : Nat)

include hc

theorem apply_detached (e : ClockEvent) : (e.apply instantMax limits now c).detached = false := by
  obtain ⟨-, hmoved⟩ | ⟨-, -, -, hmoved⟩ | ⟨-, -, hstayed⟩ := e.apply_cases hc instantMax limits now
  · exact hmoved.detached
  · exact hmoved.detached
  · exact hstayed.detached

/-- An event is heard by whoever waits on the clock, or changes nothing that a
watchdog reads. -/
theorem heard_or_sameView (e : ClockEvent) :
    c.notifies < (e.apply instantMax limits now c).notifies ∨
      SameView c (e.apply instantMax limits now c) := by
  obtain ⟨-, hmoved⟩ | ⟨-, -, -, hmoved⟩ | ⟨-, -, hstayed⟩ := e.apply_cases hc instantMax limits now
  · exact .inl (by rw [hmoved.notifies]; exact Nat.lt_succ_self _)
  · exact .inl (by rw [hmoved.notifies]; exact Nat.lt_succ_self _)
  · exact hstayed.heard

/-- `phase_since` moves with a phase that is entered and with the progress of a
write, and with nothing else. -/
theorem apply_phaseSince (e : ClockEvent) :
    (e.apply instantMax limits now c).phaseSince =
      if e.enters c || e.progresses c then now else c.phaseSince := by
  obtain ⟨henters, hmoved⟩ | ⟨henters, hprogress, -, hmoved⟩ | ⟨henters, hprogress, hstayed⟩ :=
    e.apply_cases hc instantMax limits now
  · rw [henters, hmoved.phaseSince]
    rfl
  · rw [henters, hprogress, hmoved.phaseSince]
    rfl
  · rw [henters, hprogress, hstayed.phaseSince]
    rfl

end Attached

end ClockEvent

end ArmatureH1
