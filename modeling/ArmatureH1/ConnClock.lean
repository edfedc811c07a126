/-
ArmatureH1.ConnClock — the deadlines of the connection loop, with the time.

In `Conn` a deadline is an event that may come at any time. Here it comes when
the loop looks at a timer that has run out. A connection has one
`ConnDeadline` for all its waits: it is armed as a wait begins, with the
timeout of that wait, once more when the first byte of a head arrives, and for
a request's body it is pointed at one instant (`body_deadline_at`) from two
places, the handler's wait and a parked stream. A second deadline, made only
when `handler_timeout` is set, belongs to the handler.

The loop is written over any timer (`Timer`), so that it can be run on the
lazy one of the source and on one that is nothing but an instant. That the two
cannot be told apart is `one_timer_is_enough`; what each wait may last is then
read off the second (`ConnWaits`).

`since` and `entered` are history: when the deadline of the present wait was
armed, and when the wait began.
-/
import ArmatureH1.ConnPast
import ArmatureH1.PhaseClock

namespace ArmatureH1

open ByteString Conn

/-! ## 1. Timers -/

/-- What the loop does with a deadline. -/
structure Timer (δ : Type) where
  arm : δ → Nat → Nat → δ
  disarm : δ → δ
  poll : δ → Nat → Bool × δ

namespace Timer

/-- `ConnDeadline`. -/
def source (instantMax : Nat) : Timer ConnDeadline where
  arm d now after := d.arm instantMax now after
  disarm d := d.disarm
  poll d now := ((d.pollExpired now).expiry == .ready, (d.pollExpired now).deadline)

/-- A deadline that is an instant, and looks at the time. -/
def plain (instantMax tick : Nat) : Timer (Option Nat) where
  arm _ now after := some (ConnDeadline.armTarget instantMax tick now after)
  disarm _ := none
  poll d now := (d.any (· ≤ now), d)

/-- Two timers that answer alike, as long as `R` relates what they hold. -/
structure Alike {δ ε : Type} (t : Timer δ) (u : Timer ε) (R : δ → ε → Prop) : Prop where
  arm : ∀ d e now after, R d e → R (t.arm d now after) (u.arm e now after)
  disarm : ∀ d e, R d e → R (t.disarm d) (u.disarm e)
  poll : ∀ d e now, R d e → (t.poll d now).1 = (u.poll e now).1 ∧
    R (t.poll d now).2 (u.poll e now).2

/-- The source's timer holds the instant, and is not late for it. -/
def Holds (tick : Nat) (d : ConnDeadline) (at_ : Option Nat) : Prop :=
  d.NotLate ∧ d.tick = tick ∧ d.target = at_

theorem source_alike_plain (instantMax tick : Nat) :
    (source instantMax).Alike (plain instantMax tick) (Holds tick) where
  arm := by
    intro d e now after h
    obtain ⟨-, htick, -⟩ := h
    refine ⟨ConnDeadline.arm_notLate instantMax d now after, ?_, ?_⟩
    · exact (ConnDeadline.arm_tick instantMax d now after).trans htick
    · rw [← htick]
      exact ConnDeadline.arm_target instantMax d now after
  disarm := by
    intro d e h
    obtain ⟨-, htick, -⟩ := h
    refine ⟨?_, htick, rfl⟩
    intro target htarget
    cases htarget
  poll := by
    intro d e now h
    obtain ⟨hlate, htick, htarget⟩ := h
    have hready := ConnDeadline.pollExpired_ready_iff hlate now
    refine ⟨?_, ConnDeadline.pollExpired_notLate hlate now, ?_, ?_⟩
    · rw [Bool.eq_iff_iff]
      simp [source, plain, hready, htarget, Option.any_eq_true]
    · exact (ConnDeadline.pollExpired_tick d now).trans htick
    · exact (ConnDeadline.pollExpired_target d now).trans htarget

end Timer

/-! ## 2. The loop with its clocks -/

/-- What the clocks of a connection depend on. -/
structure Clocks where
  env : Env
  limits : Timeouts
  handlerTimeout : Option Nat
  tick : Nat
  instantMax : Nat

/-- A connection with its deadlines. `bodyArmed` is the local of that name of
the handler's wait, and `bounded.is_some()` of a parked stream's. -/
structure Clocked (δ : Type) where
  conn : Conn
  deadline : δ
  handlerDeadline : Option δ
  bodyDeadlineAt : Option Nat
  heldInOut : Bool
  bodyArmed : Bool
  since : Nat
  entered : Nat

namespace Clocked

variable {δ : Type}

/-- What a wait is for has come, so that it is over whatever comes behind it:
the flush is back, the handler has answered, the stream has yielded. -/
def ends (c : Conn) (e : Event) : Bool :=
  match c.pc, e with
  | .flushing written _, .flush .ok => decide (c.out.length ≤ written)
  | .firstPoll _ _, .handler (.ready _) => true
  | .handling _, .handler (.ready _) => true
  | .streaming _ _, .stream (.item _) => true
  | .streaming _ _, .stream .ended => true
  | _, _ => false

/-- Two places of one wait. -/
def sameWait : Pc → Pc → Bool
  | .reading _, .reading _ => true
  | .flushing _ _, .flushing _ _ => true
  | .settling _, .settling _ => true
  | .firstPoll _ _, .firstPoll _ _ => true
  | .handling _, .handling _ => true
  | .streaming _ parked, .streaming _ parked' => parked == parked'
  | .ended _, .ended _ => true
  | _, _ => false

/-- The event leaves the loop in the wait it was in. -/
def stays (c : Conn) (e : Event) (pc : Pc) : Bool := !ends c e && sameWait c.pc pc

/-- The first byte of a request has come. -/
def begins : Pc → Pc → Bool
  | .reading false, .reading true => true
  | _, _ => false

/-- The handler's first poll returned its response. -/
def answersAtOnce : Pc → Event → Bool
  | .firstPoll _ _, .handler (.ready _) => true
  | _, _ => false

/-- `start_body_deadline`. -/
def startBodyDeadline (k : Clocks) (now : Nat) (s : Clocked δ) : Clocked δ :=
  { s with bodyDeadlineAt := instantAdd k.instantMax now k.limits.body }

/-- Arm the deadline for a wait that begins. -/
def armFor (tm : Timer δ) (now after : Nat) (s : Clocked δ) : Clocked δ :=
  { s with deadline := tm.arm s.deadline now after }

/-- Point the deadline at the body's, when there is one and the body is still
awaited. -/
def armBody (tm : Timer δ) (now : Nat) (s : Clocked δ) : Clocked δ :=
  match s.bodyDeadlineAt with
  | some bodyAt =>
    if s.conn.shared.io.bodyFinished then { s with bodyArmed := false }
    else { armFor tm now (bodyAt - now) s with bodyArmed := true }
  | none => { s with bodyArmed := false }

/-- Arm the handler's deadline, when it is configured. -/
def armHandler (k : Clocks) (tm : Timer δ) (now : Nat) (s : Clocked δ) : Clocked δ :=
  match k.handlerTimeout with
  | some after => { s with handlerDeadline := s.handlerDeadline.map fun d => tm.arm d now after }
  | none => s

/-- A wait ends. -/
def leave (tm : Timer δ) (s : Clocked δ) : Clocked δ :=
  match s.conn.pc with
  | .flushing _ _ => { s with deadline := tm.disarm s.deadline }
  | .settling _ => { s with deadline := tm.disarm s.deadline }
  | .handling _ =>
    { s with
      deadline := if s.bodyArmed then tm.disarm s.deadline else s.deadline
      handlerDeadline := s.handlerDeadline.map tm.disarm }
  | .streaming _ true =>
    { s with deadline := if s.bodyArmed then tm.disarm s.deadline else s.deadline }
  | _ => s

/-- The next wait begins. The body's deadline starts with the handler's call,
and again when the responses ahead of it are out: those are out before the
handler's wait begins, and before the first chunk of a response that was ready
at the first poll. -/
def enter (k : Clocks) (tm : Timer δ) (now : Nat) (s : Clocked δ) : Clocked δ :=
  let s := { s with since := now, entered := now }
  match s.conn.pc with
  | .reading started => armFor tm now (if started then k.limits.header else k.limits.idle) s
  | .flushing _ (.call _) =>
    armFor tm now k.limits.write { startBodyDeadline k now s with heldInOut := false }
  | .flushing _ _ => armFor tm now k.limits.write s
  | .settling _ => armFor tm now k.limits.write s
  | .firstPoll _ _ => { startBodyDeadline k now s with heldInOut := false }
  | .handling _ =>
    armBody tm now (armHandler k tm now { startBodyDeadline k now s with heldInOut := false })
  | .streaming _ true => armBody tm now s
  | .streaming _ false =>
    if s.heldInOut then { startBodyDeadline k now s with heldInOut := false } else s
  | .ended _ => s

/-- Something happens to the connection, and its deadlines follow. -/
def hear (k : Clocks) (tm : Timer δ) (now : Nat) (e : Event) (s : Clocked δ) : Clocked δ :=
  let c := step k.env s.conn e
  if stays s.conn e c.pc then
    if begins s.conn.pc c.pc then
      { armFor tm now k.limits.header s with conn := c, since := now }
    else { s with conn := c }
  else
    enter k tm now
      { leave tm s with conn := c, heldInOut := s.heldInOut || answersAtOnce s.conn.pc e }

/-- The deadline that the wait looks at before anything else. -/
def watches (s : Clocked δ) : Option Event :=
  match s.conn.pc with
  | .reading _ => some .headDeadline
  | .flushing _ _ => some .writeDeadline
  | .settling _ => some .writeDeadline
  | .handling _ =>
    if s.bodyArmed && !s.conn.shared.io.bodyFinished then some .bodyDeadline else none
  | .streaming _ true =>
    if s.bodyArmed && !s.conn.shared.io.bodyFinished then some .bodyDeadline else none
  | _ => none

/-- The loop waits for a handler. -/
def handles (s : Clocked δ) : Bool :=
  match s.conn.pc with
  | .handling _ => true
  | _ => false

/-- The handler's own deadline. -/
def pollHandlerDeadline (k : Clocks) (tm : Timer δ) (now : Nat) (s : Clocked δ) : Clocked δ :=
  match s.handlerDeadline with
  | some d =>
    let (expired, d) := tm.poll d now
    let s := { s with handlerDeadline := some d }
    if expired then hear k tm now .handlerDeadline s else s
  | none => s

/-- What is ready is taken, if anything is. -/
def take (k : Clocks) (tm : Timer δ) (now : Nat) (s : Clocked δ) : Option Event → Clocked δ
  | some e => hear k tm now e s
  | none => s

/-- A handler that has not answered is asked for its deadline. -/
def attend (k : Clocks) (tm : Timer δ) (now : Nat) (e : Option Event) (s : Clocked δ) :
    Clocked δ :=
  let s' := take k tm now s e
  if s.handles && s'.handles && !e.any (ends s.conn) then pollHandlerDeadline k tm now s' else s'

/-- A poll of the task. -/
def poll (k : Clocks) (tm : Timer δ) (now : Nat) (e : Option Event) (s : Clocked δ) :
    Clocked δ :=
  match s.watches with
  | some d =>
    let (expired, deadline) := tm.poll s.deadline now
    let s := { s with deadline := deadline }
    if expired then hear k tm now d s else attend k tm now e s
  | none => attend k tm now e s

/-- What happens at a time: the task is polled and finds the transport, the
handler or the stream ready; or it is polled and finds nothing, which is all a
timer can bring about; or a holder of a body uses it, without the task. -/
def act (k : Clocks) (tm : Timer δ) (s : Clocked δ) : Nat × Event → Clocked δ
  | (_, .body op) => { s with conn := step k.env s.conn (.body op) }
  | (_, .staleBody i op) => { s with conn := step k.env s.conn (.staleBody i op) }
  | (now, .headDeadline) => poll k tm now none s
  | (now, .bodyDeadline) => poll k tm now none s
  | (now, .handlerDeadline) => poll k tm now none s
  | (now, .writeDeadline) => poll k tm now none s
  | (now, e) => poll k tm now (some e) s

/-- `with_buffered`, and what `serve` does up to its first wait. `fresh` is a
deadline that was made for the connection. -/
def accepted (k : Clocks) (fresh : δ) (now : Nat) (buffered : Bytes) : Clocked δ where
  conn := init k.env buffered
  deadline := fresh
  handlerDeadline := k.handlerTimeout.map fun _ => fresh
  bodyDeadlineAt := none
  heldInOut := false
  bodyArmed := false
  since := now
  entered := now

def start (k : Clocks) (tm : Timer δ) (fresh : δ) (now : Nat) (buffered : Bytes) : Clocked δ :=
  enter k tm now (accepted k fresh now buffered)

def run (k : Clocks) (tm : Timer δ) (fresh : δ) (now : Nat) (buffered : Bytes)
    (events : List (Nat × Event)) : Clocked δ :=
  events.foldl (act k tm) (start k tm fresh now buffered)

/-! ## 3. The connection in it -/

@[simp] theorem enter_conn (k : Clocks) (tm : Timer δ) (now : Nat) (s : Clocked δ) :
    (enter k tm now s).conn = s.conn := by
  have hbody : ∀ s : Clocked δ, (armBody tm now s).conn = s.conn := by
    intro s
    unfold armBody
    split
    · split <;> rfl
    · rfl
  have hhandler : ∀ s : Clocked δ, (armHandler k tm now s).conn = s.conn := by
    intro s
    unfold armHandler
    split <;> rfl
  unfold enter
  simp only
  split
  · rfl
  · rfl
  · rfl
  · rfl
  · rfl
  · exact (hbody _).trans (hhandler _)
  · exact hbody _
  · split <;> rfl
  · rfl

@[simp] theorem hear_conn (k : Clocks) (tm : Timer δ) (now : Nat) (e : Event) (s : Clocked δ) :
    (hear k tm now e s).conn = step k.env s.conn e := by
  unfold hear
  simp only
  split
  · split <;> rfl
  · exact enter_conn k tm now _

/-- The events a deadline can add. -/
def isDeadline : Event → Bool
  | .headDeadline => true
  | .bodyDeadline => true
  | .handlerDeadline => true
  | .writeDeadline => true
  | _ => false

theorem watches_isDeadline {s : Clocked δ} {d : Event} (h : s.watches = some d) :
    isDeadline d = true := by
  unfold watches at h
  split at h
  · cases h; rfl
  · cases h; rfl
  · cases h; rfl
  · split at h
    · cases h; rfl
    · cases h
  · split at h
    · cases h; rfl
    · cases h
  · cases h

/-- What a poll makes of what is ready: it is taken or not, and a deadline
comes in its place or behind it. -/
structure Heard (k : Clocks) (e : Option Event) (c c' : Conn) (events : List Event) : Prop where
  conn : c' = events.foldl (step k.env) c
  taken : (events.filter fun e => !isDeadline e).Sublist e.toList

theorem Heard.deadline {k : Clocks} {e : Option Event} {c c' : Conn} {events : List Event}
    (h : Heard k e c c' events) {d : Event} (hd : isDeadline d = true) :
    Heard k e c (step k.env c' d) (events ++ [d]) := by
  refine ⟨by rw [h.conn, List.foldl_append]; rfl, ?_⟩
  rw [List.filter_append]
  simpa [hd] using h.taken

theorem pollHandlerDeadline_heard {k : Clocks} {tm : Timer δ} {now : Nat} {e : Option Event}
    {c : Conn} {s : Clocked δ} {events : List Event} (h : Heard k e c s.conn events) :
    ∃ events, Heard k e c (pollHandlerDeadline k tm now s).conn events := by
  unfold pollHandlerDeadline
  split
  · simp only
    split
    · rw [hear_conn]
      exact ⟨_, h.deadline rfl⟩
    · exact ⟨events, h⟩
  · exact ⟨events, h⟩

theorem attend_heard (k : Clocks) (tm : Timer δ) (now : Nat) {e : Option Event}
    (he : ∀ x ∈ e, isDeadline x = false) (s : Clocked δ) :
    ∃ events, Heard k e s.conn (attend k tm now e s).conn events := by
  have hheard : Heard k e s.conn (take k tm now s e).conn e.toList := by
    cases e with
    | none => exact ⟨rfl, List.Sublist.refl []⟩
    | some e =>
        refine ⟨hear_conn k tm now e s, ?_⟩
        simp [he e rfl]
  unfold attend
  simp only
  split
  · exact pollHandlerDeadline_heard hheard
  · exact ⟨_, hheard⟩

theorem poll_heard (k : Clocks) (tm : Timer δ) (now : Nat) {e : Option Event}
    (he : ∀ x ∈ e, isDeadline x = false) (s : Clocked δ) :
    ∃ events, Heard k e s.conn (poll k tm now e s).conn events := by
  unfold poll
  split
  · rename_i d hwatch
    simp only
    split
    · rw [hear_conn]
      exact ⟨[d], ⟨rfl, by simp [watches_isDeadline hwatch]⟩⟩
    · exact attend_heard k tm now he { s with deadline := (tm.poll s.deadline now).2 }
  · exact attend_heard k tm now he s

/-- What an input is without its deadlines: those are wake-ups. -/
def ready (e : Event) : Option Event := if isDeadline e then none else some e

theorem act_heard (k : Clocks) (tm : Timer δ) (s : Clocked δ) (now : Nat) (e : Event) :
    ∃ events, Heard k (ready e) s.conn (act k tm s (now, e)).conn events := by
  have hnone : ∀ x ∈ (none : Option Event), isDeadline x = false := by simp
  cases e with
  | body op => exact ⟨[.body op], ⟨rfl, List.Sublist.refl _⟩⟩
  | staleBody i op => exact ⟨[.staleBody i op], ⟨rfl, List.Sublist.refl _⟩⟩
  | headDeadline => exact poll_heard k tm now hnone s
  | bodyDeadline => exact poll_heard k tm now hnone s
  | handlerDeadline => exact poll_heard k tm now hnone s
  | writeDeadline => exact poll_heard k tm now hnone s
  | read a => exact poll_heard k tm now (e := some (.read a)) (by simp [isDeadline]) s
  | write a => exact poll_heard k tm now (e := some (.write a)) (by simp [isDeadline]) s
  | flush a => exact poll_heard k tm now (e := some (.flush a)) (by simp [isDeadline]) s
  | settle w f => exact poll_heard k tm now (e := some (.settle w f)) (by simp [isDeadline]) s
  | handler a => exact poll_heard k tm now (e := some (.handler a)) (by simp [isDeadline]) s
  | stream a => exact poll_heard k tm now (e := some (.stream a)) (by simp [isDeadline]) s

theorem run_append (k : Clocks) (tm : Timer δ) (fresh : δ) (now : Nat) (buffered : Bytes)
    (events : List (Nat × Event)) (e : Nat × Event) :
    run k tm fresh now buffered (events ++ [e])
      = act k tm (run k tm fresh now buffered events) e := by
  simp [run, List.foldl_append]

/-- **The clock only chooses.** With its deadlines the loop does nothing that
it could not do without: every timed run is a run of `Conn`, in which what was
ready is taken in its order or not at all, and the rest are deadlines. So what
holds of every run of the loop holds of every timed one. -/
theorem timed_run_is_run (k : Clocks) (tm : Timer δ) (fresh : δ) (now : Nat) (buffered : Bytes)
    (events : List (Nat × Event)) :
    ∃ untimed, (run k tm fresh now buffered events).conn = Conn.run k.env buffered untimed ∧
      (untimed.filter fun e => !isDeadline e).Sublist (events.filterMap fun e => ready e.2) := by
  induction events using List.reverseRecOn with
  | nil => exact ⟨[], enter_conn k tm now _, List.Sublist.refl _⟩
  | append_singleton events e ih =>
      obtain ⟨untimed, hconn, htaken⟩ := ih
      obtain ⟨heard, h⟩ := act_heard k tm (run k tm fresh now buffered events) e.1 e.2
      refine ⟨untimed ++ heard, ?_, ?_⟩
      · rw [run_append, h.conn, hconn, Conn.run, Conn.run, List.foldl_append]
      · rw [List.filter_append, List.filterMap_append]
        refine htaken.append ?_
        have hone : ([e].filterMap fun e => ready e.2) = (ready e.2).toList := by
          cases hready : ready e.2 <;> simp [hready]
        rw [hone]
        exact h.taken

/-! ## 4. One timer for every wait -/

/-- The same, but for what the two timers hold. -/
structure Like {ε : Type} (R : δ → ε → Prop) (s : Clocked δ) (s' : Clocked ε) : Prop where
  conn : s'.conn = s.conn
  deadline : R s.deadline s'.deadline
  handlerDeadline : Option.Rel R s.handlerDeadline s'.handlerDeadline
  bodyDeadlineAt : s'.bodyDeadlineAt = s.bodyDeadlineAt
  heldInOut : s'.heldInOut = s.heldInOut
  bodyArmed : s'.bodyArmed = s.bodyArmed
  since : s'.since = s.since
  entered : s'.entered = s.entered

section

variable {ε : Type} {R : δ → ε → Prop} {tm : Timer δ} {tm' : Timer ε} {s : Clocked δ}
  {s' : Clocked ε}

theorem rel_map {f : δ → δ} {g : ε → ε} (hfg : ∀ d e, R d e → R (f d) (g e)) {d : Option δ}
    {e : Option ε} (h : Option.Rel R d e) : Option.Rel R (d.map f) (e.map g) := by
  cases h with
  | none => exact .none
  | some h => exact .some (hfg _ _ h)

theorem Like.armFor (h : Like R s s') (ht : tm.Alike tm' R) (now after : Nat) :
    Like R (armFor tm now after s) (armFor tm' now after s') :=
  { h with deadline := ht.arm _ _ now after h.deadline }

theorem Like.startBodyDeadline (h : Like R s s') (k : Clocks) (now : Nat) :
    Like R { startBodyDeadline k now s with heldInOut := false }
      { startBodyDeadline k now s' with heldInOut := false } :=
  { h with bodyDeadlineAt := rfl, heldInOut := rfl }

theorem Like.armBody (h : Like R s s') (ht : tm.Alike tm' R) (now : Nat) :
    Like R (armBody tm now s) (armBody tm' now s') := by
  unfold Clocked.armBody
  rw [h.bodyDeadlineAt, h.conn]
  split
  · split
    · exact { h with conn := rfl, bodyDeadlineAt := rfl, bodyArmed := rfl }
    · exact { h.armFor ht now _ with bodyArmed := rfl }
  · exact { h with conn := rfl, bodyDeadlineAt := rfl, bodyArmed := rfl }

theorem Like.armHandler (h : Like R s s') (ht : tm.Alike tm' R) (k : Clocks) (now : Nat) :
    Like R (armHandler k tm now s) (armHandler k tm' now s') := by
  unfold Clocked.armHandler
  split
  · exact { h with
      handlerDeadline := rel_map (fun d e => ht.arm d e now _) h.handlerDeadline }
  · exact h

theorem Like.leave (h : Like R s s') (ht : tm.Alike tm' R) :
    Like R (leave tm s) (leave tm' s') := by
  have harmed : R (if s.bodyArmed then tm.disarm s.deadline else s.deadline)
      (if s'.bodyArmed then tm'.disarm s'.deadline else s'.deadline) := by
    rw [h.bodyArmed]
    split
    · exact ht.disarm _ _ h.deadline
    · exact h.deadline
  unfold Clocked.leave
  rw [h.conn]
  split
  · exact { h with conn := rfl, deadline := ht.disarm _ _ h.deadline }
  · exact { h with conn := rfl, deadline := ht.disarm _ _ h.deadline }
  · exact { h with
      conn := rfl
      deadline := harmed
      handlerDeadline := rel_map ht.disarm h.handlerDeadline }
  · exact { h with conn := rfl, deadline := harmed }
  · exact h

theorem Like.enter (h : Like R s s') (ht : tm.Alike tm' R) (k : Clocks) (now : Nat) :
    Like R (enter k tm now s) (enter k tm' now s') := by
  have hnow : Like R { s with since := now, entered := now }
      { s' with conn := s.conn, since := now, entered := now } :=
    { h with conn := rfl, since := rfl, entered := rfl }
  unfold Clocked.enter
  simp only [h.conn]
  split
  · exact hnow.armFor ht now _
  · exact (hnow.startBodyDeadline k now).armFor ht now _
  · exact hnow.armFor ht now _
  · exact hnow.armFor ht now _
  · exact hnow.startBodyDeadline k now
  · exact ((hnow.startBodyDeadline k now).armHandler ht k now).armBody ht now
  · exact hnow.armBody ht now
  · rw [h.heldInOut]
    split
    · exact hnow.startBodyDeadline k now
    · exact { hnow with heldInOut := rfl }
  · exact hnow

theorem Like.hear (h : Like R s s') (ht : tm.Alike tm' R) (k : Clocks) (now : Nat) (e : Event) :
    Like R (hear k tm now e s) (hear k tm' now e s') := by
  unfold Clocked.hear
  simp only [h.conn]
  split
  · split
    · exact { h.armFor ht now _ with conn := rfl, since := rfl }
    · exact { h with conn := rfl }
  · refine Like.enter ?_ ht k now
    exact { h.leave ht with conn := rfl, heldInOut := by rw [h.heldInOut] }

theorem Like.take (h : Like R s s') (ht : tm.Alike tm' R) (k : Clocks) (now : Nat)
    (e : Option Event) : Like R (take k tm now s e) (take k tm' now s' e) := by
  cases e with
  | none => exact h
  | some e => exact h.hear ht k now e

theorem Like.pollHandlerDeadline (h : Like R s s') (ht : tm.Alike tm' R) (k : Clocks)
    (now : Nat) : Like R (pollHandlerDeadline k tm now s) (pollHandlerDeadline k tm' now s') := by
  have hhandler := h.handlerDeadline
  unfold Clocked.pollHandlerDeadline
  generalize s.handlerDeadline = d, s'.handlerDeadline = d' at hhandler
  cases hhandler with
  | none => exact h
  | some hrel =>
      obtain ⟨hanswer, hpolled⟩ := ht.poll _ _ now hrel
      have hlike := { h with handlerDeadline := Option.Rel.some hpolled : Like R
        { s with handlerDeadline := some _ } { s' with handlerDeadline := some _ } }
      simp only [hanswer]
      split
      · exact hlike.hear ht k now _
      · exact hlike

theorem Like.attend (h : Like R s s') (ht : tm.Alike tm' R) (k : Clocks) (now : Nat)
    (e : Option Event) : Like R (attend k tm now e s) (attend k tm' now e s') := by
  have htake := h.take ht k now e
  have hhandles : (s'.handles && (Clocked.take k tm' now s' e).handles && !e.any (ends s'.conn))
      = (s.handles && (Clocked.take k tm now s e).handles && !e.any (ends s.conn)) := by
    unfold handles
    rw [h.conn, htake.conn]
  unfold Clocked.attend
  simp only [hhandles]
  split
  · exact htake.pollHandlerDeadline ht k now
  · exact htake

theorem Like.poll (h : Like R s s') (ht : tm.Alike tm' R) (k : Clocks) (now : Nat)
    (e : Option Event) : Like R (poll k tm now e s) (poll k tm' now e s') := by
  have hwatches : s'.watches = s.watches := by
    unfold watches
    rw [h.conn, h.bodyArmed]
  obtain ⟨hanswer, hpolled⟩ := ht.poll _ _ now h.deadline
  have hlike : Like R { s with deadline := (tm.poll s.deadline now).2 }
      { s' with deadline := (tm'.poll s'.deadline now).2 } := { h with deadline := hpolled }
  unfold Clocked.poll
  rw [hwatches]
  split
  · simp only [hanswer]
    split
    · exact hlike.hear ht k now _
    · exact hlike.attend ht k now e
  · exact h.attend ht k now e

theorem Like.act (h : Like R s s') (ht : tm.Alike tm' R) (k : Clocks) (e : Nat × Event) :
    Like R (act k tm s e) (act k tm' s' e) := by
  obtain ⟨now, e⟩ := e
  cases e with
  | body op => exact { h with conn := by simp only [Clocked.act, h.conn] }
  | staleBody i op => exact { h with conn := by simp only [Clocked.act, h.conn] }
  | headDeadline => exact h.poll ht k now none
  | bodyDeadline => exact h.poll ht k now none
  | handlerDeadline => exact h.poll ht k now none
  | writeDeadline => exact h.poll ht k now none
  | read a => exact h.poll ht k now (some (.read a))
  | write a => exact h.poll ht k now (some (.write a))
  | flush a => exact h.poll ht k now (some (.flush a))
  | settle writes flush => exact h.poll ht k now (some (.settle writes flush))
  | handler a => exact h.poll ht k now (some (.handler a))
  | stream a => exact h.poll ht k now (some (.stream a))

theorem like_run (ht : tm.Alike tm' R) (k : Clocks) {fresh : δ} {fresh' : ε}
    (hfresh : R fresh fresh') (now : Nat) (buffered : Bytes) (events : List (Nat × Event)) :
    Like R (run k tm fresh now buffered events) (run k tm' fresh' now buffered events) := by
  have hhandler : Option.Rel R (k.handlerTimeout.map fun _ => fresh)
      (k.handlerTimeout.map fun _ => fresh') := by
    cases k.handlerTimeout with
    | none => exact .none
    | some after => exact .some hfresh
  have haccepted : Like R (accepted k fresh now buffered) (accepted k fresh' now buffered) :=
    ⟨rfl, hfresh, hhandler, rfl, rfl, rfl, rfl, rfl⟩
  have hstart : Like R (start k tm fresh now buffered) (start k tm' fresh' now buffered) :=
    haccepted.enter ht k now
  induction events using List.reverseRecOn with
  | nil => exact hstart
  | append_singleton events e ih =>
      rw [run_append, run_append]
      exact ih.act ht k e

end

/-- The loop with deadlines that are instants. -/
abbrev Plain := Clocked (Option Nat)

/-- Its timer. -/
def plainTimer (k : Clocks) : Timer (Option Nat) := Timer.plain k.instantMax (coarsened k.tick)

def plainRun (k : Clocks) (start : Nat) (buffered : Bytes) (events : List (Nat × Event)) : Plain :=
  run k (plainTimer k) none start buffered events

/-- The connection of the source: one lazy deadline, and one for the handler. -/
def sourceRun (k : Clocks) (made start : Nat) (buffered : Bytes) (events : List (Nat × Event)) :
    Clocked ConnDeadline :=
  run k (Timer.source k.instantMax) (ConnDeadline.new made k.tick) start buffered events

theorem source_like_plain (k : Clocks) (made start : Nat) (buffered : Bytes)
    (events : List (Nat × Event)) :
    Like (Timer.Holds (coarsened k.tick)) (sourceRun k made start buffered events)
      (plainRun k start buffered events) := by
  refine like_run (Timer.source_alike_plain k.instantMax _) k ?_ start buffered events
  refine ⟨?_, rfl, rfl⟩
  intro target htarget
  cases htarget

/-- **One lazy timer is as good as an instant for each wait.** The source arms
one `ConnDeadline` for every wait of a connection, disarms it in some, and lets
its timer lie wherever the last wait left it. Whatever happens and whenever,
the connection is where it would be if each deadline were just an instant that
the loop compares with the time. -/
theorem one_timer_is_enough (k : Clocks) (made start : Nat) (buffered : Bytes)
    (events : List (Nat × Event)) :
    (sourceRun k made start buffered events).conn = (plainRun k start buffered events).conn :=
  (source_like_plain k made start buffered events).conn.symm

end Clocked

end ArmatureH1
