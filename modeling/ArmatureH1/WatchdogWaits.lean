/-
ArmatureH1.WatchdogWaits — the watchdog of the hyper backend is never late.

`Watchdog` shows that a phase is not reported before its time is over. Here is
the other half: a watchdog that is polled does not let the time of a phase
pass. `settle` is one poll of its task: `poll` takes the watchdog from one
point where it may wait to the next, and the task goes on until it does wait,
which is after three of them at the latest, since a deadline armed on the
clock as it is now leads to a report, to `parked`, or to a wait
(`calm_of_current`).

Where it waits with no notification to come, its snapshot is what a look at
the clock would give, so what it has armed is what is left of the phase's own
time, or of the body's; a deadline that has not run out is less than a tick
past that (`ripe_of_past`). And where it waits for a notification alone, the
handler is running with its body finished, which nothing bounds.

The timer is the one of `deadline.rs`, coarse as it is.
-/
import ArmatureH1.Watchdog

namespace ArmatureH1

namespace Timed

/-! ## 1. What is known along a run -/

/-- What holds of a connection that is being served, besides `Inv`. -/
structure Kept (instantMax : Nat) (limits : Timeouts) (s : Timed) : Prop where
  inv : Inv limits s
  /-- In `Handler` the body's deadline is the one set on entering it. -/
  handler : s.clock.phase = .handler →
    s.clock.bodyDeadlineAt = instantAdd instantMax s.clock.phaseSince limits.body
  /-- Who is parked is parked for a handler whose body is finished, until the
  clock says otherwise. -/
  parked : ∀ seen, s.dog = .parked seen → seen ≤ s.clock.notifies ∧
    (s.clock.notifies = seen → s.clock.phase = .handler ∧ s.clock.bodyFinished = true)

variable {instantMax : Nat} {limits : Timeouts}

theorem Kept.start (now : Nat) : Kept instantMax limits (Timed.start now) where
  inv := .start limits now
  handler := by rintro ⟨⟩
  parked := by rintro seen ⟨⟩

/-- `Handler` is entered with the body's deadline, and nothing in it changes
that. -/
theorem handler_event {c : PhaseClock} {now : Nat} (hc : c.detached = false) (e : ClockEvent)
    (h : c.phase = .handler →
      c.bodyDeadlineAt = instantAdd instantMax c.phaseSince limits.body)
    (hphase : (e.apply instantMax limits now c).phase = .handler) :
    (e.apply instantMax limits now c).bodyDeadlineAt
      = instantAdd instantMax (e.apply instantMax limits now c).phaseSince limits.body := by
  have hset : ∀ p, (c.set p now).phase = p := fun p => (PhaseClock.set_spec hc p now).1
  cases e with
  | read bytes =>
      simp only [ClockEvent.apply, PhaseClock.noteRead] at hphase ⊢
      split at hphase
      · rw [hset] at hphase
        cases hphase
      · rename_i hstays
        rw [if_neg hstays]
        exact h hphase
  | write n =>
      simp only [ClockEvent.apply] at hphase ⊢
      have hbefore : c.phase = .handler := (PhaseClock.noteWritten_spec hc n now).1 ▸ hphase
      have hsame : c.noteWritten n now = c := by
        simp [PhaseClock.noteWritten, PhaseClock.noteWrite, hbefore]
      rw [hsame]
      exact h hbefore
  | flush =>
      simp only [ClockEvent.apply, PhaseClock.noteFlush_spec hc] at hphase ⊢
      split at hphase
      · rw [hset] at hphase
        cases hphase
      · rename_i hstays
        rw [if_neg hstays]
        exact h hphase
  | bodyEnd => exact h hphase
  | requestBodyFinished flag => exact h hphase
  | enterHandler =>
      have hsince : (c.set .handler now).phaseSince = now :=
        (PhaseClock.set_spec hc .handler now).2.1
      show instantAdd instantMax now limits.body
        = instantAdd instantMax (c.set .handler now).phaseSince limits.body
      rw [hsince]
  | reject =>
      simp only [ClockEvent.apply, PhaseClock.reject_eq] at hphase
      rw [hset] at hphase
      cases hphase
  | handOver out =>
      simp only [ClockEvent.apply, PhaseClock.handOver_eq] at hphase
      rw [hset] at hphase
      cases hphase

theorem Kept.event {s : Timed} (h : Kept instantMax limits s) (e : ClockEvent) :
    Kept instantMax limits (s.event instantMax limits e) where
  inv := h.inv.event instantMax e
  handler := handler_event h.inv.attached e h.handler
  parked := by
    intro seen hdog
    obtain ⟨hle, hquiet⟩ := h.parked seen hdog
    show seen ≤ (e.apply instantMax limits s.now s.clock).notifies ∧ _
    rcases e.heard_or_sameView h.inv.attached instantMax limits s.now with hheard | hview
    · exact ⟨by omega, fun heq => absurd heq (Nat.ne_of_gt (Nat.lt_of_le_of_lt hle hheard))⟩
    · refine ⟨by rw [hview.notifies]; exact hle, fun heq => ?_⟩
      obtain ⟨hphase, hfinished⟩ := hquiet (hview.notifies ▸ heq)
      exact ⟨hview.phase.trans hphase, hview.bodyFinished.trans hfinished⟩

theorem Kept.wait {s : Timed} (h : Kept instantMax limits s) {till : Nat} (htill : s.now ≤ till) :
    Kept instantMax limits { s with now := till } :=
  ⟨h.inv.wait htill, h.handler, h.parked⟩

/-- The watchdog parks where its snapshot is of a handler whose body is
finished. -/
theorem Kept.poll {s : Timed} (h : Kept instantMax limits s) (expired : Bool) :
    Kept instantMax limits { s with dog := s.dog.poll limits s.clock s.now expired } where
  inv := h.inv.poll expired
  handler := h.handler
  parked := by
    intro seen hdog
    cases hold : s.dog with
    | top =>
        rw [hold] at hdog
        cases hdog
    | returned p =>
        rw [hold] at hdog
        cases hdog
    | parked seen' =>
        rw [hold] at hdog
        simp only [Watchdog.poll] at hdog
        split at hdog
        · cases hdog
        · obtain rfl := Watchdog.parked.inj hdog
          exact h.parked seen' hold
    | select snapshot =>
        rw [hold] at hdog
        simp only [Watchdog.poll] at hdog
        split at hdog
        · cases hdog
        · rename_i hheard
          split at hdog
          · have hturn := ((h.inv.snapshot snapshot hold).current (not_not.mp hheard)).1
            unfold Watchdog.onExpired at hdog
            split at hdog
            · cases hdog
            · split at hdog
              · rename_i hdone
                obtain rfl := Watchdog.parked.inj hdog
                refine ⟨Nat.le_refl _, fun _ => ⟨?_, hdone.2⟩⟩
                rw [← hdone.1, hturn]
                rfl
              · split at hdog <;> cases hdog
          · cases hdog

theorem Kept.run {ripe : Nat → Nat → Nat → Bool} {actions : List TimedAction} {s s' : Timed}
    (h : Kept instantMax limits s) (hrun : s.run instantMax limits ripe actions = some s') :
    Kept instantMax limits s' := by
  induction actions generalizing s with
  | nil =>
      obtain rfl := Option.some.inj hrun
      exact h
  | cons a rest ih =>
      obtain ⟨mid, ha, hrest⟩ := Option.bind_eq_some_iff.1 hrun
      refine ih ?_ hrest
      obtain ⟨-, ⟨till, -, htill, rfl⟩ | ⟨e, -, rfl⟩ | ⟨expired, -, -, rfl⟩⟩ := act_cases ha
      · exact h.wait htill
      · exact h.event e
      · exact h.poll expired

/-! ## 2. One poll of the task -/

section Polls

variable (limits) (ripe : Nat → Nat → Nat → Bool)

/-- The watchdog goes on to the next point where it may wait; a deadline that
has run out is seen. -/
def polled (s : Timed) : Timed :=
  { s with dog := s.dog.poll limits s.clock s.now (s.expires ripe) }

/-- A poll of its task: the watchdog goes on until it does wait. -/
def settle (s : Timed) : Timed := ((s.polled limits ripe).polled limits ripe).polled limits ripe

end Polls

/-- Where the watchdog waits, or is done. -/
inductive Calm (ripe : Nat → Nat → Nat → Bool) (s : Timed) : Prop where
  | returned {p : Phase} (hdog : s.dog = .returned p)
  | parked {seen : Nat} (hdog : s.dog = .parked seen) (hquiet : s.clock.notifies = seen)
  | select {snapshot : Snapshot} (hdog : s.dog = .select snapshot)
      (hquiet : s.clock.notifies = snapshot.seen)
      (hopen : ripe snapshot.armedAt snapshot.armFor s.now = false)

variable {ripe : Nat → Nat → Nat → Bool} {s : Timed}

theorem Calm.polled (h : Calm ripe s) : s.polled limits ripe = s := by
  have hstays : s.dog.poll limits s.clock s.now (s.expires ripe) = s.dog := by
    cases h with
    | returned hdog => simp only [hdog, Watchdog.poll]
    | parked hdog hquiet => simp [hdog, Watchdog.poll, hquiet]
    | select hdog hquiet hopen => simp [hdog, Watchdog.poll, hquiet, Timed.expires, hopen]
  unfold Timed.polled
  rw [hstays]

/-- A snapshot of the clock as it is: its deadline leads to a report, to
`parked`, or to a wait. -/
theorem calm_of_current (h : Inv limits s) {snapshot : Snapshot} (hdog : s.dog = .select snapshot)
    (hquiet : s.clock.notifies = snapshot.seen) : Calm ripe (s.polled limits ripe) := by
  obtain ⟨hturn, -⟩ := (h.snapshot snapshot hdog).current hquiet
  cases hexpired : ripe snapshot.armedAt snapshot.armFor s.now with
  | false =>
      have hstays : s.polled limits ripe = s :=
        Calm.polled (.select hdog hquiet hexpired)
      rw [hstays]
      exact .select hdog hquiet hexpired
  | true =>
      have hdog' : (s.polled limits ripe).dog = Watchdog.onExpired s.clock snapshot := by
        simp [Timed.polled, hdog, Watchdog.poll, hquiet, Timed.expires, hexpired]
      have hgeneration : s.clock.generation = snapshot.generation := by rw [hturn]; rfl
      rcases onExpired_cases s.clock snapshot with htop | hparks | ⟨hreports, -, -⟩
      · -- it would take another phase, or a body that is both awaited and finished
        exfalso
        unfold Watchdog.onExpired at htop
        rw [if_neg (not_not.mpr hgeneration)] at htop
        split at htop
        · cases htop
        · split at htop
          · rename_i hwrite
            have hbody : snapshot.bodyAt = s.clock.bodyDeadlineAt.filter fun _ =>
                !s.clock.bodyFinished := by rw [hturn]; rfl
            rw [hbody, hwrite.2.2] at hwrite
            simp at hwrite
          · cases htop
      · exact .parked (hdog'.trans hparks) rfl
      · exact .returned (hdog'.trans hreports)

/-- From the top of its loop. -/
theorem calm_of_top (h : Inv limits s) (hdog : s.dog = .top) :
    Calm ripe ((s.polled limits ripe).polled limits ripe) := by
  have hinv : Inv limits (s.polled limits ripe) := h.poll _
  have hdog' : (s.polled limits ripe).dog = .select (Watchdog.turn limits s.clock s.now) := by
    simp only [Timed.polled, hdog]
    rfl
  exact calm_of_current hinv hdog' rfl

/-- **A poll of the watchdog's task comes to an end.** -/
theorem settle_calm (h : Inv limits s) : Calm ripe (s.settle limits ripe) := by
  have hinv : Inv limits (s.polled limits ripe) := h.poll _
  cases hdog : s.dog with
  | top =>
      have hcalm : Calm ripe ((s.polled limits ripe).polled limits ripe) := calm_of_top h hdog
      unfold settle
      rw [hcalm.polled]
      exact hcalm
  | returned p =>
      have hcalm : Calm ripe s := .returned hdog
      unfold settle
      rw [hcalm.polled, hcalm.polled, hcalm.polled]
      exact hcalm
  | parked seen =>
      by_cases hquiet : s.clock.notifies = seen
      · have hcalm : Calm ripe s := .parked hdog hquiet
        unfold settle
        rw [hcalm.polled, hcalm.polled, hcalm.polled]
        exact hcalm
      · refine calm_of_top hinv ?_
        simp [Timed.polled, hdog, Watchdog.poll, hquiet]
  | select snapshot =>
      by_cases hquiet : s.clock.notifies = snapshot.seen
      · have hcalm : Calm ripe (s.polled limits ripe) := calm_of_current h hdog hquiet
        unfold settle
        rw [hcalm.polled, hcalm.polled]
        exact hcalm
      · refine calm_of_top hinv ?_
        simp [Timed.polled, hdog, Watchdog.poll, hquiet]

/-! ## 3. The time of a phase -/

/-- That the phase is within its time, or less than a tick past it: `Idle` and
`Head` within their own timeouts since they were entered; `Handler` within
the body's, unless the body is finished; `Write` within its own timeout since
the last progress and, under a streamed response, within the deadline of a
body still awaited. -/
def InTime (limits : Timeouts) (tick : Nat) (s : Timed) : Prop :=
  match s.clock.phase with
  | .idle => s.now < s.entered + limits.idle + tick
  | .head => s.now < s.entered + limits.header + tick
  | .handler => s.clock.bodyFinished = true ∨ s.now < s.entered + limits.body + tick
  | .write => s.now < s.moved + limits.write + tick ∧
      (s.clock.responseStreams = true → s.clock.bodyFinished = false →
        ∀ limit, s.clock.bodyDeadlineAt = some limit → s.now < limit + tick)

/-- The timeouts, rounded up, are durations of a `u64` of nanoseconds, and the
instants they lead to are instants. -/
structure Fits (instantMax : Nat) (limits : Timeouts) (tick now : Nat) : Prop where
  duration : ∀ p, phaseTimeout limits p + tick < 2 ^ 64
  instant : ∀ p, now + phaseTimeout limits p + tick ≤ instantMax

/-- What a turn arms is no more than the phase's timeout. -/
theorem armFor_le (h : Kept instantMax limits s) {armedAt : Nat}
    (hsince : s.clock.phaseSince ≤ armedAt) :
    (Watchdog.turn limits s.clock armedAt).armFor ≤ phaseTimeout limits s.clock.phase := by
  show Watchdog.armFor limits s.clock (Watchdog.turn limits s.clock armedAt).bodyAt armedAt ≤ _
  cases hbody : (Watchdog.turn limits s.clock armedAt).bodyAt with
  | none =>
      unfold Watchdog.armFor
      cases s.clock.phase <;> exact Nat.sub_le _ _
  | some limit =>
      cases hp : s.clock.phase with
      | idle =>
          rw [Watchdog.armFor_own (by simp [hp]) (by simp [hp]), hp]
          exact Nat.sub_le _ _
      | head =>
          rw [Watchdog.armFor_own (by simp [hp]) (by simp [hp]), hp]
          exact Nat.sub_le _ _
      | handler =>
          rw [Watchdog.armFor_handler hp]
          have hlimit : s.clock.bodyDeadlineAt = some limit :=
            (Option.filter_eq_some_iff.mp hbody).1
          rw [h.handler hp, instantAdd] at hlimit
          split at hlimit
          · have heq := Option.some.inj hlimit
            simp only [phaseTimeout]
            omega
          · cases hlimit
      | write =>
          rw [Watchdog.armFor_write_some hp]
          simp only [phaseTimeout]
          split
          · exact Nat.le_trans (Nat.min_le_left _ _) (Nat.sub_le _ _)
          · exact Nat.sub_le _ _

/-- A deadline that has not run out: it was not armed for nothing, and less
than a tick has passed since. -/
theorem before_due {d : ConnDeadline} (htick : 0 < d.tick) {armedAt armFor t : Nat}
    (hduration : armFor + d.tick < 2 ^ 64) (hinstant : armedAt + armFor + d.tick ≤ instantMax)
    (harmed : armedAt ≤ t) (hopen : deadlineRipe instantMax d armedAt armFor t = false) :
    0 < armFor ∧ t < armedAt + armFor + d.tick := by
  have hround := roundUp_lt htick hduration
  have hfits : armedAt + roundUp armFor d.tick ≤ instantMax := by omega
  have hbefore : t < armedAt + roundUp armFor d.tick := by
    simp only [deadlineRipe_eq, ConnDeadline.armTarget_of_fits hfits, Bool.and_eq_false_iff,
      decide_eq_false_iff_not, not_le] at hopen
    rcases hopen with hno | hlate
    · exact absurd ⟨by omega, hfits⟩ hno
    · exact hlate
  refine ⟨Nat.pos_of_ne_zero fun hzero => ?_, by omega⟩
  rw [hzero, roundUp_zero htick] at hbefore
  omega

/-- What is left of a timeout, where it was not yet over and has not run out
since. -/
theorem within_timeout {since armedAt timeout tick now : Nat} (hsince : since ≤ armedAt)
    (hpos : 0 < timeout - (armedAt - since))
    (hbefore : now < armedAt + (timeout - (armedAt - since)) + tick) :
    now < since + timeout + tick := by
  omega

/-- The same of a deadline. -/
theorem within_limit {armedAt limit tick now : Nat} (hpos : 0 < limit - armedAt)
    (hbefore : now < armedAt + (limit - armedAt) + tick) : now < limit + tick := by
  omega

/-- A turn on this very clock has armed a deadline that has not run out: the
phase is in its time. -/
theorem inTime_of_turn (h : Kept instantMax limits s) {tick armedAt : Nat}
    (hsince : s.clock.phaseSince ≤ armedAt)
    (hpos : 0 < (Watchdog.turn limits s.clock armedAt).armFor)
    (hbefore : s.now < armedAt + (Watchdog.turn limits s.clock armedAt).armFor + tick) :
    InTime limits tick s := by
  have harm : (Watchdog.turn limits s.clock armedAt).armFor =
      Watchdog.armFor limits s.clock (Watchdog.turn limits s.clock armedAt).bodyAt armedAt := rfl
  rw [harm] at hpos hbefore
  unfold InTime
  cases hp : s.clock.phase with
  | idle =>
      rw [Watchdog.armFor_own (by simp [hp]) (by simp [hp]), hp] at hpos hbefore
      rw [h.inv.entered (by simp [hp])]
      exact within_timeout hsince hpos hbefore
  | head =>
      rw [Watchdog.armFor_own (by simp [hp]) (by simp [hp]), hp] at hpos hbefore
      rw [h.inv.entered (by simp [hp])]
      exact within_timeout hsince hpos hbefore
  | handler =>
      cases hfin : s.clock.bodyFinished with
      | true => exact .inl rfl
      | false =>
          refine .inr ?_
          rw [h.inv.entered (by simp [hp])]
          rw [turn_bodyAt hfin, h.handler hp, instantAdd] at hpos hbefore
          split at hpos
          · rename_i hfits
            rw [if_pos hfits, Watchdog.armFor_handler hp] at hbefore
            rw [Watchdog.armFor_handler hp] at hpos
            exact within_limit hpos hbefore
          · -- no instant for the deadline: the phase's own timeout is armed
            rename_i hfits
            rw [if_neg hfits] at hbefore
            simp only [Watchdog.armFor, hp, phaseTimeout] at hpos hbefore
            exact within_timeout hsince hpos hbefore
  | write =>
      rw [h.inv.moved]
      cases hbody : (Watchdog.turn limits s.clock armedAt).bodyAt with
      | none =>
          rw [hbody, Watchdog.armFor_write_none hp] at hpos hbefore
          refine ⟨within_timeout hsince hpos hbefore, fun _ hfin limit hlimit => ?_⟩
          rw [turn_bodyAt hfin, hlimit] at hbody
          cases hbody
      | some limit =>
          rw [hbody, Watchdog.armFor_write_some hp] at hpos hbefore
          cases hstreams : s.clock.responseStreams with
          | false =>
              rw [hstreams] at hpos hbefore
              exact ⟨within_timeout hsince hpos hbefore, by rintro ⟨⟩⟩
          | true =>
              -- neither of the two clocks has run out
              rw [hstreams, if_pos rfl] at hpos hbefore
              obtain ⟨hown, hlimit⟩ := Nat.lt_min.mp hpos
              have hleft := Nat.min_le_left (limits.write - (armedAt - s.clock.phaseSince))
                (limit - armedAt)
              have hright := Nat.min_le_right (limits.write - (armedAt - s.clock.phaseSince))
                (limit - armedAt)
              refine ⟨within_timeout hsince hown (by omega), fun _ hfin limit' hlimit' => ?_⟩
              rw [turn_bodyAt hfin, hlimit'] at hbody
              obtain rfl := Option.some.inj hbody
              exact within_limit hlimit (by omega)

/-- **Where the watchdog waits, the phase is in its time.** -/
theorem inTime_of_calm {d : ConnDeadline} (htick : 0 < d.tick) (h : Kept instantMax limits s)
    (hfits : Fits instantMax limits d.tick s.now) (hcalm : Calm (deadlineRipe instantMax d) s)
    (hrunning : ∀ p, s.dog ≠ .returned p) : InTime limits d.tick s := by
  cases hcalm with
  | returned hdog => exact absurd hdog (hrunning _)
  | parked hdog hquiet =>
      obtain ⟨hphase, hfinished⟩ := (h.parked _ hdog).2 hquiet
      unfold InTime
      rw [hphase]
      exact .inl hfinished
  | @select snapshot hdog hquiet hopen =>
      obtain ⟨hturn, hsince⟩ := (h.inv.snapshot snapshot hdog).current hquiet
      have harmed := (h.inv.snapshot snapshot hdog).armedAt_le
      have hduration := hfits.duration s.clock.phase
      have hinstant := hfits.instant s.clock.phase
      have hle := armFor_le h hsince
      rw [← hturn] at hle
      obtain ⟨hpos, hbefore⟩ := before_due htick (by omega) (by omega) harmed hopen
      rw [hturn] at hpos hbefore
      exact inTime_of_turn h hsince hpos hbefore

/-! ## 4. Never late -/

/-- A poll keeps what is known, and a report is made with cause. -/
theorem polled_reported (h : Kept instantMax limits s)
    (hs : ∀ p, s.dog = .returned p → Reported limits ripe s p) :
    Kept instantMax limits (s.polled limits ripe) ∧
      ∀ p, (s.polled limits ripe).dog = .returned p →
        Reported limits ripe (s.polled limits ripe) p := by
  refine ⟨h.poll _, fun p hp => ?_⟩
  by_cases hrunning : ∀ p, s.dog ≠ .returned p
  · have hreported := poll_reported h.inv hrunning (fun hexpires => hexpires) hp
    exact ⟨hreported.phase, hreported.ripe⟩
  · obtain ⟨q, hq⟩ := not_forall.mp hrunning
    have hstays : s.polled limits ripe = s := Calm.polled (.returned (not_not.mp hq))
    rw [hstays] at hp ⊢
    exact hs p hp

theorem settle_reported (h : Kept instantMax limits s)
    (hs : ∀ p, s.dog = .returned p → Reported limits ripe s p) :
    Kept instantMax limits (s.settle limits ripe) ∧
      ∀ p, (s.settle limits ripe).dog = .returned p →
        Reported limits ripe (s.settle limits ripe) p := by
  obtain ⟨h₁, hs₁⟩ := polled_reported h hs
  obtain ⟨h₂, hs₂⟩ := polled_reported h₁ hs₁
  exact polled_reported h₂ hs₂

/-- **The watchdog is never late.** Take any run of clock events and polls in
time, from the start of `serve` on, and poll the watchdog's task once more. It
comes to a point where it waits or is done. If it is done, it has reported the
phase that the clock is in, whose time is over; if it waits, the phase is
within its time, or less than a tick of the deadline past it. What is armed in
the meantime must not overflow the clock's range (`Fits`). -/
theorem watchdog_never_late {d : ConnDeadline} (htick : 0 < d.tick) {now : Nat}
    {actions : List TimedAction} {s : Timed}
    (hrun : (Timed.start now).run instantMax limits (deadlineRipe instantMax d) actions = some s)
    (hfits : Fits instantMax limits d.tick s.now) :
    let s' := s.settle limits (deadlineRipe instantMax d)
    s'.polled limits (deadlineRipe instantMax d) = s' ∧
      ((∃ p, s'.dog = .returned p ∧ s'.clock.phase = p ∧ Due limits s' p) ∨
        (∀ p, s'.dog ≠ .returned p) ∧ InTime limits d.tick s') := by
  intro s'
  have hkept : Kept instantMax limits s := (Kept.start now).run hrun
  have hreported := (run_reported (Inv.start limits now) (by rintro p ⟨⟩) hrun).2
  obtain ⟨hkept', hreported'⟩ := settle_reported hkept hreported
  have hcalm : Calm (deadlineRipe instantMax d) s' := settle_calm hkept.inv
  refine ⟨hcalm.polled, ?_⟩
  by_cases hrunning : ∀ p, s'.dog ≠ .returned p
  · exact .inr ⟨hrunning, inTime_of_calm htick hkept' hfits hcalm hrunning⟩
  · obtain ⟨p, hp⟩ := not_forall.mp hrunning
    obtain ⟨hphase, armedAt, hsince, hready, hhandler, hwrite⟩ := hreported' p (not_not.mp hp)
    have hdue := due_of_turn hkept'.inv hsince (deadlineRipe_not_early htick hready) hhandler hwrite
    rw [hphase] at hdue
    exact .inl ⟨p, not_not.mp hp, hphase, hdue⟩

/-- `stalledBody`, with the watchdog not polled since the last write. -/
theorem watchdog_never_late_stalled_body :
    ∃ s, (Timed.start 0).run (2 ^ 63) .default (deadlineRipe (2 ^ 63) (.new 0 (10 ^ 8)))
        stalledBody.dropLast = some s ∧
      (s.settle .default (deadlineRipe (2 ^ 63) (.new 0 (10 ^ 8)))).dog = .returned .write ∧
      Due .default (s.settle .default (deadlineRipe (2 ^ 63) (.new 0 (10 ^ 8)))) .write := by
  have hrun : ((Timed.start 0).run (2 ^ 63) .default (deadlineRipe (2 ^ 63) (.new 0 (10 ^ 8)))
      stalledBody.dropLast).map (fun s =>
        (s.now, (s.settle .default (deadlineRipe (2 ^ 63) (.new 0 (10 ^ 8)))).dog))
      = some (30 * 10 ^ 9, .returned .write) := by
    rw [deadlineRipe_eq]
    decide +kernel
  obtain ⟨s, hs, hsettled⟩ := Option.map_eq_some_iff.1 hrun
  have hnow : s.now = 30 * 10 ^ 9 := congrArg Prod.fst hsettled
  have hdog := congrArg Prod.snd hsettled
  have hfits : Fits (2 ^ 63) .default (ConnDeadline.new 0 (10 ^ 8)).tick s.now := by
    rw [hnow]
    constructor <;> intro p <;> cases p <;> decide
  refine ⟨s, hs, hdog, ?_⟩
  obtain ⟨-, ⟨p, hp, -, hdue⟩ | ⟨hrunning, -⟩⟩ := watchdog_never_late (by decide) hs hfits
  · obtain rfl := Watchdog.returned.inj (hdog.symm.trans hp)
    exact hdue
  · exact absurd hdog (hrunning _)

end Timed

end ArmatureH1
