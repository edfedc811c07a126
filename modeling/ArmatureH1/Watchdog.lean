/-
ArmatureH1.Watchdog — the watchdog of the hyper backend, in time.

`watchdog` (`backend/hyper/mod.rs`) looks at the clock, arms a deadline for
what it saw, and waits for the clock to move or for the deadline to run out;
when the deadline runs out first, it reports the phase it looked at. What it
arms comes from five cells of the clock, and the report is right only if all
five still hold what was read.

Why they do is one fact (`Timed.Inv.current`): while the watchdog waits and no
notification has come, a look at the clock now would give the very snapshot it
holds. Every event that changes a cell the watchdog reads also notifies it
(`ClockEvent.heard_or_sameView`).

`Timed` puts clock and watchdog under one time that never goes back. The
deadline is a parameter here, `ripe`: whether one that was armed at some
instant for some duration may have run out by a third. The result asks of it
that it does not run out before its instant, and the deadline of `deadline.rs`
does not (`deadlineRipe_not_early`).
-/
import ArmatureH1.PhaseClock

namespace ArmatureH1

/-! ## 1. The watchdog -/

/-- What one turn of the loop reads and arms. -/
structure Snapshot where
  generation : Nat
  phase : Phase
  /-- The body's deadline, while the body is still awaited. -/
  bodyAt : Option Nat
  /-- The notifications before `notified()` was made. -/
  seen : Nat
  armedAt : Nat
  armFor : Nat
  deriving DecidableEq, Repr

/-- Where the watchdog is. -/
inductive Watchdog where
  /-- At the top of its loop. -/
  | top
  /-- In `select!`, between the notification and the deadline. -/
  | select (s : Snapshot)
  /-- Awaiting a notification alone, with the deadline disarmed. -/
  | parked (seen : Nat)
  | returned (p : Phase)
  deriving DecidableEq, Repr

namespace Watchdog

/-- The duration a turn arms. -/
def armFor (limits : Timeouts) (c : PhaseClock) (bodyAt : Option Nat) (now : Nat) : Nat :=
  let remaining := phaseTimeout limits c.phase - (now - c.phaseSince)
  match c.phase, bodyAt with
  | .handler, some limit => limit - now
  | .write, some limit => if c.responseStreams then min remaining (limit - now) else remaining
  | _, _ => remaining

theorem armFor_own {limits : Timeouts} {c : PhaseClock} (hhandler : c.phase ≠ .handler)
    (hwrite : c.phase ≠ .write) (bodyAt : Option Nat) (now : Nat) :
    armFor limits c bodyAt now = phaseTimeout limits c.phase - (now - c.phaseSince) := by
  cases hp : c.phase <;> simp_all [armFor]

theorem armFor_handler {limits : Timeouts} {c : PhaseClock} (hp : c.phase = .handler)
    (limit now : Nat) : armFor limits c (some limit) now = limit - now := by
  simp [armFor, hp]

theorem armFor_write_none {limits : Timeouts} {c : PhaseClock} (hp : c.phase = .write) (now : Nat) :
    armFor limits c none now = limits.write - (now - c.phaseSince) := by
  simp [armFor, hp, phaseTimeout]

theorem armFor_write_some {limits : Timeouts} {c : PhaseClock} (hp : c.phase = .write)
    (limit now : Nat) :
    armFor limits c (some limit) now =
      if c.responseStreams then min (limits.write - (now - c.phaseSince)) (limit - now)
      else limits.write - (now - c.phaseSince) := by
  simp [armFor, hp, phaseTimeout]

/-- The top of the loop, up to `select!`. -/
def turn (limits : Timeouts) (c : PhaseClock) (now : Nat) : Snapshot :=
  let bodyAt := c.bodyDeadlineAt.filter fun _ => !c.bodyFinished
  { generation := c.generation
    phase := c.phase
    bodyAt := bodyAt
    seen := c.notifies
    armedAt := now
    armFor := armFor limits c bodyAt now }

/-- The arm of `select!` for a deadline that ran out. -/
def onExpired (c : PhaseClock) (s : Snapshot) : Watchdog :=
  if c.generation ≠ s.generation then .top
  else if s.phase = .handler ∧ c.bodyFinished = true then .parked c.notifies
  else if s.phase = .write ∧ s.bodyAt.isSome = true ∧ c.bodyFinished = true then .top
  else .returned s.phase

/-- A poll of the watchdog, up to the next point where it can wait. `select!`
is biased: a notification goes before the deadline. -/
def poll (limits : Timeouts) (c : PhaseClock) (now : Nat) (expired : Bool) : Watchdog → Watchdog
  | .top => .select (turn limits c now)
  | .select s =>
    if c.notifies ≠ s.seen then .top
    else if expired then onExpired c s
    else .select s
  | .parked seen => if c.notifies ≠ seen then .top else .parked seen
  | .returned p => .returned p

end Watchdog

/-! ## 2. Clock and watchdog in time -/

/-- A connection being served: the time, the clock and the watchdog, and, for
the statement, when the current phase was entered and when it was last entered
or a write made progress. -/
structure Timed where
  now : Nat
  clock : PhaseClock
  dog : Watchdog
  entered : Nat
  moved : Nat
  deriving DecidableEq, Repr

/-- What happens next: time passes, the clock is moved, the watchdog is
polled. -/
inductive TimedAction where
  | wait (till : Nat)
  | event (e : ClockEvent)
  | poll (expired : Bool)
  deriving DecidableEq

namespace Timed

/-- `serve` at its start. -/
def start (now : Nat) : Timed where
  now := now
  clock := .new .idle now
  dog := .top
  entered := now
  moved := now

section Actions

variable (instantMax : Nat) (limits : Timeouts) (ripe : Nat → Nat → Nat → Bool)

/-- Whether `deadline.expired()` may be done, in the arm of `select!` that
waits for it. -/
def expires (s : Timed) : Bool :=
  match s.dog with
  | .select snapshot => ripe snapshot.armedAt snapshot.armFor s.now
  | _ => false

/-- An event on the clock. -/
def event (s : Timed) (e : ClockEvent) : Timed :=
  { s with
    clock := e.apply instantMax limits s.now s.clock
    entered := if e.enters s.clock then s.now else s.entered
    moved := if e.enters s.clock || e.progresses s.clock then s.now else s.moved }

/-- One action. Nothing happens any more once the watchdog has returned:
`serve` drops hyper's future then. -/
def act (s : Timed) (a : TimedAction) : Option Timed :=
  match s.dog with
  | .returned _ => none
  | dog =>
    match a with
    | .wait till => if s.now ≤ till then some { s with now := till } else none
    | .event e => some (s.event instantMax limits e)
    | .poll expired =>
      if expired && !s.expires ripe then none
      else some { s with dog := dog.poll limits s.clock s.now expired }

def run (s : Timed) : List TimedAction → Option Timed
  | [] => some s
  | a :: rest => (s.act instantMax limits ripe a).bind fun s' => run s' rest

end Actions

/-- What an action can be, and what it leaves. -/
theorem act_cases {instantMax : Nat} {limits : Timeouts} {ripe : Nat → Nat → Nat → Bool}
    {s s' : Timed} {a : TimedAction} (h : s.act instantMax limits ripe a = some s') :
    (∀ p, s.dog ≠ .returned p) ∧
      ((∃ till, a = .wait till ∧ s.now ≤ till ∧ s' = { s with now := till }) ∨
        (∃ e, a = .event e ∧ s' = s.event instantMax limits e) ∨
        ∃ expired, a = .poll expired ∧ (expired = true → s.expires ripe = true) ∧
          s' = { s with dog := s.dog.poll limits s.clock s.now expired }) := by
  unfold act at h
  split at h
  · cases h
  · next hrunning =>
    refine ⟨hrunning, ?_⟩
    cases a with
    | wait till =>
      dsimp only at h
      split_ifs at h with htill
      exact .inl ⟨till, rfl, htill, (Option.some.inj h).symm⟩
    | event e => exact .inr (.inl ⟨e, rfl, (Option.some.inj h).symm⟩)
    | poll expired =>
      dsimp only at h
      split_ifs at h with hearly
      refine .inr (.inr ⟨expired, rfl, ?_, (Option.some.inj h).symm⟩)
      intro hexpired
      simpa [hexpired] using hearly

/-! ## 3. The invariant -/

/-- What holds of a snapshot that the watchdog waits on. -/
structure Holds (limits : Timeouts) (c : PhaseClock) (now : Nat) (snapshot : Snapshot) : Prop where
  seen_le : snapshot.seen ≤ c.notifies
  armedAt_le : snapshot.armedAt ≤ now
  /-- Until a notification comes, the snapshot is what a look at the clock
  would give. -/
  current : c.notifies = snapshot.seen →
    snapshot = Watchdog.turn limits c snapshot.armedAt ∧ c.phaseSince ≤ snapshot.armedAt

/-- What holds of a connection that is being served. -/
structure Inv (limits : Timeouts) (s : Timed) : Prop where
  attached : s.clock.detached = false
  since_le : s.clock.phaseSince ≤ s.now
  moved : s.moved = s.clock.phaseSince
  entered : s.clock.phase ≠ .write → s.entered = s.clock.phaseSince
  snapshot : ∀ snapshot, s.dog = .select snapshot → Holds limits s.clock s.now snapshot

theorem Inv.start (limits : Timeouts) (now : Nat) : Inv limits (Timed.start now) where
  attached := rfl
  since_le := le_refl now
  moved := rfl
  entered := fun _ => rfl
  snapshot := by intro snapshot h; cases h

/-- A turn reads nothing that two clocks alike to a watchdog differ in. -/
theorem turn_congr {c c' : PhaseClock} (h : PhaseClock.SameView c c') (limits : Timeouts)
    (now : Nat) : Watchdog.turn limits c' now = Watchdog.turn limits c now := by
  have harm : ∀ bodyAt,
      Watchdog.armFor limits c' bodyAt now = Watchdog.armFor limits c bodyAt now := by
    intro bodyAt
    unfold Watchdog.armFor
    rw [h.phase, h.phaseSince, h.responseStreams]
  unfold Watchdog.turn
  dsimp only
  rw [h.generation, h.phase, h.bodyDeadlineAt, h.bodyFinished, h.notifies, harm]

/-- An event keeps a snapshot good: it is heard, or it leaves the view. -/
theorem Holds.event {limits : Timeouts} {c : PhaseClock} {now : Nat} {snapshot : Snapshot}
    (h : Holds limits c now snapshot) (hc : c.detached = false) (instantMax : Nat)
    (e : ClockEvent) : Holds limits (e.apply instantMax limits now c) now snapshot := by
  rcases e.heard_or_sameView hc instantMax limits now with hheard | hview
  · have hseen := h.seen_le
    exact ⟨by omega, h.armedAt_le, fun heq => by omega⟩
  · refine ⟨by rw [hview.notifies]; exact h.seen_le, h.armedAt_le, ?_⟩
    intro heq
    rw [hview.notifies] at heq
    obtain ⟨hturn, hsince⟩ := h.current heq
    rw [turn_congr hview, hview.phaseSince]
    exact ⟨hturn, hsince⟩

theorem Inv.event {limits : Timeouts} {s : Timed} (h : Inv limits s) (instantMax : Nat)
    (e : ClockEvent) :
    Inv limits (s.event instantMax limits e) where
  attached := e.apply_detached h.attached instantMax limits s.now
  since_le := by
    have hsince := h.since_le
    show (e.apply instantMax limits s.now s.clock).phaseSince ≤ s.now
    rw [e.apply_phaseSince h.attached]
    split <;> omega
  moved := by
    show (if e.enters s.clock || e.progresses s.clock then s.now else s.moved) =
      (e.apply instantMax limits s.now s.clock).phaseSince
    rw [e.apply_phaseSince h.attached, h.moved]
  entered := by
    intro hphase
    show (if e.enters s.clock then s.now else s.entered) =
      (e.apply instantMax limits s.now s.clock).phaseSince
    obtain ⟨henters, hmoved⟩ | ⟨-, -, hwrite, -⟩ | ⟨henters, -, hstayed⟩ :=
      e.apply_cases h.attached instantMax limits s.now
    · rw [henters, hmoved.phaseSince]
      rfl
    · exact absurd hwrite hphase
    · rw [henters, hstayed.phaseSince]
      exact h.entered fun hw => hphase (hstayed.phase.trans hw)
  snapshot := fun snapshot hdog => (h.snapshot snapshot hdog).event h.attached instantMax e

theorem Inv.wait {limits : Timeouts} {s : Timed} (h : Inv limits s) {till : Nat}
    (htill : s.now ≤ till) : Inv limits { s with now := till } where
  attached := h.attached
  since_le := le_trans h.since_le htill
  moved := h.moved
  entered := h.entered
  snapshot := by
    intro snapshot hdog
    have hs := h.snapshot snapshot hdog
    exact ⟨hs.seen_le, le_trans hs.armedAt_le htill, hs.current⟩

/-- A deadline that ran out starts no new wait for a deadline, and reports the
phase of the snapshot or nothing. -/
theorem onExpired_cases (c : PhaseClock) (s : Snapshot) :
    Watchdog.onExpired c s = .top ∨ Watchdog.onExpired c s = .parked c.notifies ∨
      Watchdog.onExpired c s = .returned s.phase ∧
        ¬ (s.phase = .handler ∧ c.bodyFinished = true) ∧
        ¬ (s.phase = .write ∧ s.bodyAt.isSome = true ∧ c.bodyFinished = true) := by
  unfold Watchdog.onExpired
  split_ifs with hgen hhandler hwrite
  · exact .inl rfl
  · exact .inr (.inl rfl)
  · exact .inl rfl
  · exact .inr (.inr ⟨rfl, hhandler, hwrite⟩)

/-- A poll starts no wait but the one of the top of the loop. -/
theorem poll_select {limits : Timeouts} {c : PhaseClock} {now : Nat} {expired : Bool}
    {dog : Watchdog} {snapshot : Snapshot} (h : dog.poll limits c now expired = .select snapshot) :
    snapshot = Watchdog.turn limits c now ∨ dog = .select snapshot := by
  cases dog with
  | top => exact .inl (Watchdog.select.inj h).symm
  | select s =>
    simp only [Watchdog.poll] at h
    split_ifs at h
    · rcases onExpired_cases c s with heq | heq | ⟨heq, -, -⟩ <;> rw [heq] at h <;> cases h
    · exact .inr h
  | parked seen =>
    simp only [Watchdog.poll] at h
    split_ifs at h
  | returned p => cases h

theorem Inv.poll {limits : Timeouts} {s : Timed} (h : Inv limits s) (expired : Bool) :
    Inv limits { s with dog := s.dog.poll limits s.clock s.now expired } where
  attached := h.attached
  since_le := h.since_le
  moved := h.moved
  entered := h.entered
  snapshot := by
    intro snapshot hdog
    rcases poll_select hdog with rfl | hold
    · exact ⟨le_refl _, le_refl _, fun _ => ⟨rfl, h.since_le⟩⟩
    · exact h.snapshot snapshot hold

theorem Inv.act {instantMax : Nat} {limits : Timeouts} {ripe : Nat → Nat → Nat → Bool}
    {s s' : Timed} (h : Inv limits s) {a : TimedAction}
    (ha : s.act instantMax limits ripe a = some s') :
    Inv limits s' := by
  obtain ⟨-, ⟨till, -, htill, rfl⟩ | ⟨e, -, rfl⟩ | ⟨expired, -, -, rfl⟩⟩ := act_cases ha
  · exact h.wait htill
  · exact h.event instantMax e
  · exact h.poll expired

/-! ## 4. What a report means -/

/-- That the time of a phase is over: for `Idle` and `Head` its own timeout
since it was entered; for `Handler` the deadline of a body that is still
awaited; for `Write` its own timeout since the last progress, or, under a
streamed response, the deadline of a body still awaited. -/
def Due (limits : Timeouts) (s : Timed) : Phase → Prop
  | .idle => s.entered + limits.idle ≤ s.now
  | .head => s.entered + limits.header ≤ s.now
  | .handler => s.clock.bodyFinished = false ∧
      ∀ limit, s.clock.bodyDeadlineAt = some limit → limit ≤ s.now
  | .write => s.moved + limits.write ≤ s.now ∨
      s.clock.responseStreams = true ∧ s.clock.bodyFinished = false ∧
        ∃ limit, s.clock.bodyDeadlineAt = some limit ∧ limit ≤ s.now

/-- Arming what is left of a timeout does not shorten it. -/
theorem remaining_elapsed {since armedAt timeout now : Nat} (hsince : since ≤ armedAt)
    (h : armedAt + (timeout - (armedAt - since)) ≤ now) : since + timeout ≤ now := by
  omega

/-- The snapshot of a body that is not finished has the body's deadline. -/
theorem turn_bodyAt {limits : Timeouts} {c : PhaseClock} {now : Nat}
    (h : c.bodyFinished = false) : (Watchdog.turn limits c now).bodyAt = c.bodyDeadlineAt := by
  show (c.bodyDeadlineAt.filter fun _ => !c.bodyFinished) = c.bodyDeadlineAt
  rw [h]
  cases c.bodyDeadlineAt <;> rfl

/-- A deadline armed by a turn on this very clock has run out: the phase's time
is over, unless the body it was armed for is finished. -/
theorem due_of_turn {limits : Timeouts} {s : Timed} (h : Inv limits s) {armedAt : Nat}
    (hsince : s.clock.phaseSince ≤ armedAt)
    (hpast : armedAt + (Watchdog.turn limits s.clock armedAt).armFor ≤ s.now)
    (hhandler : ¬ (s.clock.phase = .handler ∧ s.clock.bodyFinished = true))
    (hwrite : ¬ (s.clock.phase = .write ∧
      (Watchdog.turn limits s.clock armedAt).bodyAt.isSome = true ∧
      s.clock.bodyFinished = true)) : Due limits s s.clock.phase := by
  have harm : (Watchdog.turn limits s.clock armedAt).armFor =
      Watchdog.armFor limits s.clock (Watchdog.turn limits s.clock armedAt).bodyAt armedAt := rfl
  cases hp : s.clock.phase with
  | idle =>
    rw [harm, Watchdog.armFor_own (by simp [hp]) (by simp [hp]), hp] at hpast
    show s.entered + limits.idle ≤ s.now
    rw [h.entered (by simp [hp])]
    exact remaining_elapsed hsince hpast
  | head =>
    rw [harm, Watchdog.armFor_own (by simp [hp]) (by simp [hp]), hp] at hpast
    show s.entered + limits.header ≤ s.now
    rw [h.entered (by simp [hp])]
    exact remaining_elapsed hsince hpast
  | handler =>
    have hopen : s.clock.bodyFinished = false := by
      cases hfin : s.clock.bodyFinished with
      | false => rfl
      | true => exact absurd ⟨hp, hfin⟩ hhandler
    refine ⟨hopen, ?_⟩
    intro limit hlimit
    rw [harm, turn_bodyAt hopen, hlimit, Watchdog.armFor_handler hp] at hpast
    omega
  | write =>
    show s.moved + limits.write ≤ s.now ∨ _
    rw [h.moved]
    cases hbody : (Watchdog.turn limits s.clock armedAt).bodyAt with
    | none =>
      rw [harm, hbody, Watchdog.armFor_write_none hp] at hpast
      exact .inl (remaining_elapsed hsince hpast)
    | some limit =>
      have hopen : s.clock.bodyFinished = false := by
        cases hfin : s.clock.bodyFinished with
        | false => rfl
        | true => exact absurd ⟨hp, by rw [hbody]; rfl, hfin⟩ hwrite
      have hlimit := hbody
      rw [turn_bodyAt hopen] at hlimit
      rw [harm, hbody, Watchdog.armFor_write_some hp] at hpast
      cases hstreams : s.clock.responseStreams with
      | false =>
        rw [hstreams] at hpast
        exact .inl (remaining_elapsed hsince hpast)
      | true =>
        -- the nearer of the two clocks was armed
        rw [hstreams, if_pos rfl] at hpast
        rcases min_choice (limits.write - (armedAt - s.clock.phaseSince)) (limit - armedAt)
          with hmin | hmin <;> rw [hmin] at hpast
        · exact .inl (remaining_elapsed hsince hpast)
        · exact .inr ⟨rfl, hopen, limit, hlimit, by omega⟩

/-- What a report rests on: the clock is in that phase, a turn on this very
clock armed a deadline that has run out, and neither of the two checks of a
finished body applies. -/
structure Reported (limits : Timeouts) (ripe : Nat → Nat → Nat → Bool) (s : Timed) (p : Phase) :
    Prop where
  phase : s.clock.phase = p
  ripe : ∃ armedAt, s.clock.phaseSince ≤ armedAt ∧
    ripe armedAt (Watchdog.turn limits s.clock armedAt).armFor s.now = true ∧
    ¬ (s.clock.phase = .handler ∧ s.clock.bodyFinished = true) ∧
    ¬ (s.clock.phase = .write ∧ (Watchdog.turn limits s.clock armedAt).bodyAt.isSome = true ∧
      s.clock.bodyFinished = true)

section Reports

variable {instantMax : Nat} {limits : Timeouts} {ripe : Nat → Nat → Nat → Bool}

/-- A poll that reports a phase. -/
theorem poll_reported {s : Timed} (h : Inv limits s) (hrunning : ∀ p, s.dog ≠ .returned p)
    {expired : Bool} (hexpires : expired = true → s.expires ripe = true) {p : Phase}
    (hpoll : s.dog.poll limits s.clock s.now expired = .returned p) : Reported limits ripe s p := by
  cases hdog : s.dog with
  | top => rw [hdog] at hpoll; cases hpoll
  | parked seen =>
    rw [hdog] at hpoll
    simp only [Watchdog.poll] at hpoll
    split_ifs at hpoll
  | returned q => exact absurd hdog (hrunning q)
  | select snapshot =>
    rw [hdog] at hpoll
    simp only [Watchdog.poll] at hpoll
    split_ifs at hpoll with hheard hexpired
    -- no notification has come, so the snapshot is still what the clock says
    have hquiet : s.clock.notifies = snapshot.seen := not_not.mp hheard
    obtain ⟨hturn, hsince⟩ := (h.snapshot snapshot hdog).current hquiet
    have hready := hexpires hexpired
    rw [Timed.expires, hdog] at hready
    rcases onExpired_cases s.clock snapshot with heq | heq | ⟨heq, hhandler, hwrite⟩ <;>
      rw [heq] at hpoll
    · cases hpoll
    · cases hpoll
    · obtain rfl := Watchdog.returned.inj hpoll
      have hphase : s.clock.phase = snapshot.phase := by rw [hturn]; rfl
      rw [← hphase] at hhandler hwrite
      rw [hturn] at hready hwrite
      exact ⟨hphase, snapshot.armedAt, hsince, hready, hhandler, hwrite⟩

/-- An action that ends in a report. -/
theorem act_reported {s s' : Timed} (h : Inv limits s) {a : TimedAction}
    (ha : s.act instantMax limits ripe a = some s') {p : Phase} (hp : s'.dog = .returned p) :
    Reported limits ripe s' p := by
  obtain ⟨hrunning, ⟨till, -, -, rfl⟩ | ⟨e, -, rfl⟩ | ⟨expired, -, hexpires, rfl⟩⟩ := act_cases ha
  · exact absurd hp (hrunning p)
  · exact absurd hp (hrunning p)
  · have hreported := poll_reported h hrunning hexpires hp
    exact ⟨hreported.phase, hreported.ripe⟩

/-- A run keeps the invariant, and a phase reported at its end was reported
with cause. -/
theorem run_reported {s s' : Timed} (h : Inv limits s)
    (hs : ∀ p, s.dog = .returned p → Reported limits ripe s p) {actions : List TimedAction}
    (hrun : s.run instantMax limits ripe actions = some s') :
    Inv limits s' ∧ ∀ p, s'.dog = .returned p → Reported limits ripe s' p := by
  induction actions generalizing s with
  | nil =>
    obtain rfl := Option.some.inj hrun
    exact ⟨h, hs⟩
  | cons a rest ih =>
    obtain ⟨mid, ha, hrest⟩ := Option.bind_eq_some_iff.1 hrun
    exact ih (h.act ha) (fun _ hp => act_reported h ha hp) hrest

/-- The watchdog never fires early, nor for a phase that is over: in every run
of clock events and polls in time, from the start of `serve` on, a phase that
the watchdog reports is the clock's own, and its time is over. -/
theorem watchdog_never_early
    (hripe : ∀ armedAt armFor t, ripe armedAt armFor t = true → armedAt + armFor ≤ t)
    {now : Nat} {actions : List TimedAction} {s : Timed} {p : Phase}
    (hrun : (Timed.start now).run instantMax limits ripe actions = some s)
    (hp : s.dog = .returned p) : s.clock.phase = p ∧ Due limits s p := by
  obtain ⟨hinv, hreported⟩ := run_reported (Inv.start limits now) (by intro p h; cases h) hrun
  obtain ⟨hphase, armedAt, hsince, hready, hhandler, hwrite⟩ := hreported p hp
  have hdue := due_of_turn hinv hsince (hripe _ _ _ hready) hhandler hwrite
  rw [hphase] at hdue
  exact ⟨hphase, hdue⟩

end Reports

/-! ## 5. The deadline of `deadline.rs` -/

/-- `ConnDeadline::expired` after an `arm`, for durations that fit a `u64` and
instants that do not overflow. -/
def deadlineRipe (instantMax : Nat) (d : ConnDeadline) (armedAt armFor t : Nat) : Bool :=
  decide (armFor < 2 ^ 64 ∧ armedAt + roundUp armFor d.tick ≤ instantMax) &&
    ((d.arm instantMax armedAt armFor).pollExpired t).expiry == .ready

/-- It is as the watchdog needs it. -/
theorem deadlineRipe_not_early {instantMax : Nat} {d : ConnDeadline} (htick : 0 < d.tick)
    {armedAt armFor t : Nat} (h : deadlineRipe instantMax d armedAt armFor t = true) :
    armedAt + armFor ≤ t := by
  simp only [deadlineRipe, Bool.and_eq_true, decide_eq_true_eq, beq_iff_eq] at h
  obtain ⟨⟨hfits, hadd⟩, hready⟩ := h
  exact ConnDeadline.armed_instant_passed htick hfits hadd hready

theorem deadlineRipe_eq (instantMax : Nat) (d : ConnDeadline) :
    deadlineRipe instantMax d = fun armedAt armFor t =>
      decide (armFor < 2 ^ 64 ∧ armedAt + roundUp armFor d.tick ≤ instantMax) &&
        decide (ConnDeadline.armTarget instantMax d.tick armedAt armFor ≤ t) := by
  funext armedAt armFor t
  have hready : (((d.arm instantMax armedAt armFor).pollExpired t).expiry == .ready) =
      decide (ConnDeadline.armTarget instantMax d.tick armedAt armFor ≤ t) := by
    rw [Bool.eq_iff_iff, beq_iff_eq, decide_eq_true_eq,
      ConnDeadline.pollExpired_ready_iff (ConnDeadline.arm_notLate instantMax d armedAt armFor),
      ConnDeadline.arm_target]
    simp
  rw [deadlineRipe, hready]

/-- A streamed response over a request body that stalls: writes make progress,
and the body's deadline still ends it. -/
def stalledBody : List TimedAction :=
  [.event (.read [0x47]), .poll false, .event .enterHandler, .wait (10 ^ 9),
    .event (.handOver ⟨false, true, .stream⟩), .poll false, .wait (20 * 10 ^ 9), .event (.write 5),
    .poll false, .wait (30 * 10 ^ 9), .poll true]

theorem watchdog_reports_stalled_body :
    ∃ s, (Timed.start 0).run (2 ^ 63) .default (deadlineRipe (2 ^ 63) (.new 0 (10 ^ 8)))
        stalledBody = some s ∧
      s.dog = .returned .write ∧ s.clock.phase = .write ∧ Due .default s .write := by
  have hdog : ((Timed.start 0).run (2 ^ 63) .default (deadlineRipe (2 ^ 63) (.new 0 (10 ^ 8)))
      stalledBody).map (·.dog) = some (.returned .write) := by
    rw [deadlineRipe_eq]
    decide
  obtain ⟨s, hrun, hs⟩ := Option.map_eq_some_iff.1 hdog
  refine ⟨s, hrun, hs, watchdog_never_early ?_ hrun hs⟩
  intro armedAt armFor t h
  exact deadlineRipe_not_early (by decide) h

end Timed

end ArmatureH1
