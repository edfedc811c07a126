/-
ArmatureH1.Deadline — one timer for all the deadlines of a connection.

`deadline.rs`: a connection owns one `Sleep`, and arming a deadline only
records where it lies. The timer is moved at once when the new deadline is
earlier than the one it holds; when it is later the timer is left to wake too
early, and `poll_expired` then points it at the recorded one. Nothing in the
source compares the two clocks again, so the whole of it rests on the timer
never being later than what is recorded (`ConnDeadline.NotLate`).

`lazy_eq_eager` compares the deadline with one that resets its timer on every
arm (`EagerDeadline`), over every sequence of calls. Durations and instants are
counts of nanoseconds. The timer itself is tokio's: it is ready from its
deadline on, and `reset` moves that deadline and nothing else. An `Instant` has
a largest value, `instantMax`, which is a parameter.

The tick that rounds a deadline is the one `new` keeps, and `new` does not keep
a tick of zero (`coarsened`).
-/
import Mathlib.Algebra.Order.Floor.Div

namespace ArmatureH1

/-! ## 1. Rounding -/

/-- `u64::MAX`. -/
def u64Max : Nat := 2 ^ 64 - 1

/-- `u64::saturating_mul`. -/
def saturatingMul (a b : Nat) : Nat := min (a * b) u64Max

/-- `round_up`, in nanoseconds. -/
def roundUp (d tick : Nat) : Nat :=
  if d < 2 ^ 64 ∧ tick < 2 ^ 64 then
    if tick = 0 then d else saturatingMul (d ⌈/⌉ tick) tick
  -- `u64::try_from` fails on one of the two
  else if d = 0 then d else u64Max

/-- The multiple of `n` that a ceiling division reaches is the next one. -/
theorem ceilDiv_mul_bounds (d : Nat) {n : Nat} (hn : 0 < n) :
    d ≤ d ⌈/⌉ n * n ∧ d ⌈/⌉ n * n < d + n := by
  constructor
  · have h := le_smul_ceilDiv (b := d) hn
    rw [smul_eq_mul, Nat.mul_comm] at h
    exact h
  · rw [Nat.ceilDiv_eq_add_pred_div]
    have h := Nat.div_mul_le_self (d + n - 1) n
    omega

/-- A duration that fits `u64` nanoseconds is never rounded down, and by less
than a tick up, unless it saturates. -/
theorem roundUp_bounds {d tick : Nat} (hd : d < 2 ^ 64) (htick : 0 < tick) :
    d ≤ roundUp d tick ∧ (roundUp d tick < d + tick ∨ roundUp d tick = u64Max) := by
  have hmax : d ≤ u64Max := by unfold u64Max; omega
  unfold roundUp
  by_cases hfit : tick < 2 ^ 64
  · rw [if_pos ⟨hd, hfit⟩, if_neg (by omega)]
    obtain ⟨hle, hlt⟩ := ceilDiv_mul_bounds d htick
    unfold saturatingMul
    constructor
    · exact le_min hle hmax
    · rcases Nat.le_total (d ⌈/⌉ tick * tick) u64Max with h | h
      · exact .inl (by rw [min_eq_left h]; exact hlt)
      · exact .inr (min_eq_right h)
  · rw [if_neg fun h => hfit h.2]
    split
    · exact ⟨le_rfl, .inl (by omega)⟩
    · exact ⟨hmax, .inr rfl⟩

/-- A duration that leaves room for a tick is rounded up by less than one. -/
theorem roundUp_lt {d tick : Nat} (htick : 0 < tick) (h : d + tick < 2 ^ 64) :
    roundUp d tick < d + tick := by
  have hceil := (ceilDiv_mul_bounds d htick).2
  unfold roundUp
  rw [if_pos ⟨by omega, by omega⟩, if_neg (by omega)]
  unfold saturatingMul
  exact lt_of_le_of_lt (min_le_left _ _) hceil

theorem roundUp_zero {tick : Nat} (htick : 0 < tick) : roundUp 0 tick = 0 := by
  unfold roundUp
  split
  · rw [if_neg (Nat.ne_of_gt htick), zero_ceilDiv]
    simp [saturatingMul]
  · rfl

/-! ## 2. The timer and the deadline -/

/-- What polling a timer answers. -/
inductive Expiry where
  | pending
  | ready
  deriving DecidableEq, Repr

theorem Expiry.eq_of_ready_iff {a b : Expiry} (h : a = .ready ↔ b = .ready) : a = b := by
  cases a <;> cases b <;> simp_all

/-- `tokio::time::Sleep`, as far as the deadline uses it. -/
structure Sleep where
  deadline : Nat
  deriving DecidableEq, Repr

/-- `Sleep::poll`. -/
def Sleep.poll (s : Sleep) (now : Nat) : Expiry := if s.deadline ≤ now then .ready else .pending

/-- `Sleep::reset`. -/
def Sleep.reset (_ : Sleep) (deadline : Nat) : Sleep := ⟨deadline⟩

theorem Sleep.poll_eq_ready {s : Sleep} {now : Nat} : s.poll now = .ready ↔ s.deadline ≤ now := by
  unfold Sleep.poll
  split <;> simp_all

@[simp] theorem Sleep.reset_deadline (s : Sleep) (deadline : Nat) :
    (s.reset deadline).deadline = deadline := rfl

/-- `FAR_FUTURE`: a year. -/
def farFuture : Nat := 86400 * 365 * 10 ^ 9

/-- The tick that `ConnDeadline::new` keeps: a millisecond in place of none. -/
def coarsened (tick : Nat) : Nat := if tick = 0 then 10 ^ 6 else tick

theorem coarsened_pos (tick : Nat) : 0 < coarsened tick := by
  unfold coarsened
  split <;> omega

/-- `Instant::checked_add`. -/
def instantAdd (instantMax now d : Nat) : Option Nat :=
  if now + d ≤ instantMax then some (now + d) else none

/-- `ConnDeadline`. -/
structure ConnDeadline where
  sleep : Sleep
  tick : Nat
  /-- The logical deadline; `none` while disarmed. -/
  target : Option Nat
  deriving DecidableEq, Repr

/-- What a call of `poll_expired` leaves, and how often it polled the timer. -/
structure PolledDeadline where
  expiry : Expiry
  deadline : ConnDeadline
  polls : Nat
  deriving DecidableEq, Repr

namespace ConnDeadline

/-- `ConnDeadline::new`. -/
def new (now tick : Nat) : ConnDeadline where
  sleep := ⟨now + farFuture⟩
  tick := coarsened tick
  target := none

/-- Where `arm` puts the deadline. -/
def armTarget (instantMax tick now after : Nat) : Nat :=
  (instantAdd instantMax now (roundUp after tick)).getD (now + farFuture)

/-- `ConnDeadline::arm`. -/
def arm (instantMax : Nat) (d : ConnDeadline) (now after : Nat) : ConnDeadline :=
  let target := armTarget instantMax d.tick now after
  let d := { d with target := some target }
  if d.sleep.deadline > target then { d with sleep := d.sleep.reset target } else d

/-- `ConnDeadline::disarm`. -/
def disarm (d : ConnDeadline) : ConnDeadline := { d with target := none }

/-- The `loop` of `ConnDeadline::poll_expired`, for a target, with the polls of
the timer counted. It ends because a turn that does not return leaves the timer
at the target. -/
def pollLoop (now target : Nat) (sleep : Sleep) (polls : Nat) : Expiry × Sleep × Nat :=
  if sleep.poll now = .pending then (.pending, sleep, polls + 1)
  else if sleep.deadline ≥ target then (.ready, sleep, polls + 1)
  else pollLoop now target (sleep.reset target) (polls + 1)
termination_by target - sleep.deadline
decreasing_by
  simp only [Sleep.reset_deadline]
  omega

/-- `ConnDeadline::poll_expired`. -/
def pollExpired (d : ConnDeadline) (now : Nat) : PolledDeadline :=
  match d.target with
  | none => ⟨.pending, d, 0⟩
  | some target =>
    match pollLoop now target d.sleep 0 with
    | (expiry, sleep, polls) => ⟨expiry, { d with sleep := sleep }, polls⟩

/-- The three calls on a deadline. -/
inductive Call where
  | arm (after : Nat)
  | disarm
  | pollExpired
  deriving DecidableEq, Repr

/-- One call at a time, with what it answers. -/
def call (instantMax : Nat) (d : ConnDeadline) (now : Nat) : Call → ConnDeadline × Option Expiry
  | .arm after => (d.arm instantMax now after, none)
  | .disarm => (d.disarm, none)
  | .pollExpired => ((d.pollExpired now).deadline, some (d.pollExpired now).expiry)

/-- A sequence of calls, each with its time, and what they answered. -/
def run (instantMax : Nat) (d : ConnDeadline) :
    List (Nat × Call) → ConnDeadline × List (Option Expiry)
  | [] => (d, [])
  | (now, c) :: rest =>
    let (d', answer) := d.call instantMax now c
    let (d'', answers) := run instantMax d' rest
    (d'', answer :: answers)

end ConnDeadline

/-! ## 3. The eager deadline -/

/-- What the source says the deadline is as good as: the timer is reset by
every `arm`, and a poll asks the timer alone. -/
structure EagerDeadline where
  sleep : Sleep
  tick : Nat
  armed : Bool
  deriving DecidableEq, Repr

namespace EagerDeadline

def new (now tick : Nat) : EagerDeadline where
  sleep := ⟨now + farFuture⟩
  tick := coarsened tick
  armed := false

def arm (instantMax : Nat) (d : EagerDeadline) (now after : Nat) : EagerDeadline :=
  { d with
    sleep := d.sleep.reset (ConnDeadline.armTarget instantMax d.tick now after)
    armed := true }

def pollExpired (d : EagerDeadline) (now : Nat) : Expiry :=
  if d.armed then d.sleep.poll now else .pending

def call (instantMax : Nat) (d : EagerDeadline) (now : Nat) :
    ConnDeadline.Call → EagerDeadline × Option Expiry
  | .arm after => (d.arm instantMax now after, none)
  | .disarm => ({ d with armed := false }, none)
  | .pollExpired => (d, some (d.pollExpired now))

def run (instantMax : Nat) (d : EagerDeadline) :
    List (Nat × ConnDeadline.Call) → EagerDeadline × List (Option Expiry)
  | [] => (d, [])
  | (now, c) :: rest =>
    let (d', answer) := d.call instantMax now c
    let (d'', answers) := run instantMax d' rest
    (d'', answer :: answers)

end EagerDeadline

namespace ConnDeadline

/-! ## 4. The timer is never late -/

/-- While the deadline is armed, the timer does not lie behind it. -/
def NotLate (d : ConnDeadline) : Prop :=
  ∀ target, d.target = some target → d.sleep.deadline ≤ target

/-- The loop, from a timer that is not late: one poll when the timer answers
for the target, two when it had to be pointed at it. -/
theorem pollLoop_spec (now polls : Nat) {target : Nat} {sleep : Sleep}
    (hlate : sleep.deadline ≤ target) :
    ((pollLoop now target sleep polls).1 = .ready ↔ target ≤ now) ∧
      (pollLoop now target sleep polls).2.1.deadline ≤ target ∧
      (pollLoop now target sleep polls).2.2 ≤ polls + 2 := by
  -- a timer that holds the target is polled once
  have hat : ∀ n, pollLoop now target ⟨target⟩ n =
      (Sleep.poll ⟨target⟩ now, ⟨target⟩, n + 1) := by
    intro n
    rw [pollLoop]
    cases hpoll : Sleep.poll ⟨target⟩ now with
    | pending => rfl
    | ready => rw [if_neg (by simp), if_pos (le_refl target)]
  rcases Nat.lt_or_ge sleep.deadline target with hlt | hge
  · rw [pollLoop]
    cases hpoll : sleep.poll now with
    | pending =>
      have hnow : now < sleep.deadline := by
        by_contra hle
        have hready := Sleep.poll_eq_ready.2 (Nat.le_of_not_lt hle)
        rw [hpoll] at hready
        cases hready
      rw [if_pos rfl]
      refine ⟨⟨?_, ?_⟩, hlate, by simp⟩
      · intro h
        cases h
      · intro h
        omega
    | ready =>
      rw [if_neg (by simp), if_neg (by omega), Sleep.reset, hat]
      exact ⟨Sleep.poll_eq_ready, le_refl target, le_refl _⟩
  · obtain ⟨deadline⟩ := sleep
    have heq : deadline = target := Nat.le_antisymm hlate hge
    subst heq
    rw [hat]
    exact ⟨Sleep.poll_eq_ready, le_refl _, by simp⟩

theorem pollExpired_ready_iff {d : ConnDeadline} (hd : d.NotLate) (now : Nat) :
    (d.pollExpired now).expiry = .ready ↔ ∃ target, d.target = some target ∧ target ≤ now := by
  unfold pollExpired
  cases htarget : d.target with
  | none => simp
  | some target => simpa using (pollLoop_spec now 0 (hd target htarget)).1

theorem pollExpired_polls_le {d : ConnDeadline} (hd : d.NotLate) (now : Nat) :
    (d.pollExpired now).polls ≤ 2 := by
  unfold pollExpired
  cases htarget : d.target with
  | none => simp
  | some target => simpa using (pollLoop_spec now 0 (hd target htarget)).2.2

@[simp] theorem pollExpired_target (d : ConnDeadline) (now : Nat) :
    (d.pollExpired now).deadline.target = d.target := by
  unfold pollExpired
  split <;> simp_all

@[simp] theorem pollExpired_tick (d : ConnDeadline) (now : Nat) :
    (d.pollExpired now).deadline.tick = d.tick := by
  unfold pollExpired
  split <;> rfl

theorem pollExpired_notLate {d : ConnDeadline} (hd : d.NotLate) (now : Nat) :
    (d.pollExpired now).deadline.NotLate := by
  intro target htarget
  rw [pollExpired_target] at htarget
  have h := (pollLoop_spec now 0 (hd target htarget)).2.1
  unfold pollExpired
  rw [htarget]
  exact h

@[simp] theorem arm_target (instantMax : Nat) (d : ConnDeadline) (now after : Nat) :
    (d.arm instantMax now after).target = some (armTarget instantMax d.tick now after) := by
  unfold arm
  dsimp only
  split <;> rfl

@[simp] theorem arm_tick (instantMax : Nat) (d : ConnDeadline) (now after : Nat) :
    (d.arm instantMax now after).tick = d.tick := by
  unfold arm
  dsimp only
  split <;> rfl

/-- Arming makes the timer early enough whatever it was before: this is where a
disarmed deadline, whose timer may lie anywhere, becomes sound again. -/
theorem arm_notLate (instantMax : Nat) (d : ConnDeadline) (now after : Nat) :
    (d.arm instantMax now after).NotLate := by
  intro target htarget
  rw [arm_target] at htarget
  have heq := Option.some.inj htarget
  subst heq
  unfold arm
  dsimp only
  split
  · exact le_refl _
  · next hle => exact Nat.le_of_not_lt hle

theorem call_notLate (instantMax : Nat) {d : ConnDeadline} (hd : d.NotLate) (now : Nat)
    (c : Call) : (d.call instantMax now c).1.NotLate := by
  cases c with
  | arm after => exact arm_notLate instantMax d now after
  | disarm => intro target htarget; cases htarget
  | pollExpired => exact pollExpired_notLate hd now

/-! ## 5. Whole sequences of calls -/

/-- The armed state a sequence of calls ends in: the time and the duration of
the last `arm`, unless a `disarm` follows it. -/
def lastArm (armed : Option (Nat × Nat)) : List (Nat × Call) → Option (Nat × Nat)
  | [] => armed
  | (now, .arm after) :: rest => lastArm (some (now, after)) rest
  | (_, .disarm) :: rest => lastArm none rest
  | (_, .pollExpired) :: rest => lastArm armed rest

/-- What relates a deadline to the calls it has seen and to the eager one. -/
structure Tracks (instantMax : Nat) (d : ConnDeadline) (e : EagerDeadline)
    (armed : Option (Nat × Nat)) : Prop where
  notLate : d.NotLate
  tick : e.tick = d.tick
  target : d.target = armed.map fun a => armTarget instantMax d.tick a.1 a.2
  armed_iff : e.armed = d.target.isSome
  sleep : ∀ target, d.target = some target → e.sleep.deadline = target

/-- The two deadlines answer a poll alike. -/
theorem Tracks.poll_eq {instantMax : Nat} {d : ConnDeadline} {e : EagerDeadline}
    {armed : Option (Nat × Nat)} (h : Tracks instantMax d e armed) (now : Nat) :
    (d.pollExpired now).expiry = e.pollExpired now := by
  have hlazy := pollExpired_ready_iff h.notLate now
  have heager : e.pollExpired now = .ready ↔ ∃ target, d.target = some target ∧ target ≤ now := by
    unfold EagerDeadline.pollExpired
    rw [h.armed_iff]
    cases htarget : d.target with
    | none => simp
    | some target =>
      rw [Option.isSome_some, if_pos rfl, Sleep.poll_eq_ready, h.sleep target htarget]
      simp
  exact Expiry.eq_of_ready_iff (hlazy.trans heager.symm)

/-- One call keeps the relation. -/
theorem Tracks.call {instantMax : Nat} {d : ConnDeadline} {e : EagerDeadline}
    {armed : Option (Nat × Nat)} (h : Tracks instantMax d e armed) (now : Nat) (c : Call) :
    Tracks instantMax (d.call instantMax now c).1 (e.call instantMax now c).1
        (lastArm armed [(now, c)]) ∧
      (d.call instantMax now c).2 = (e.call instantMax now c).2 := by
  have hlate := call_notLate instantMax h.notLate now c
  cases c with
  | arm after =>
    refine ⟨⟨hlate, ?_, ?_, ?_, ?_⟩, rfl⟩
    · simpa [ConnDeadline.call, EagerDeadline.call, EagerDeadline.arm] using h.tick
    · simp [ConnDeadline.call, lastArm]
    · simp [ConnDeadline.call, EagerDeadline.call, EagerDeadline.arm]
    · intro target htarget
      have harm : (d.arm instantMax now after).target = some target := htarget
      rw [arm_target] at harm
      rw [← Option.some.inj harm, ← h.tick]
      rfl
  | disarm =>
    refine ⟨⟨hlate, h.tick, rfl, rfl, ?_⟩, rfl⟩
    intro target htarget
    cases htarget
  | pollExpired =>
    refine ⟨⟨hlate, ?_, ?_, ?_, ?_⟩, ?_⟩
    · simpa [ConnDeadline.call, EagerDeadline.call] using h.tick
    · simpa [ConnDeadline.call, lastArm] using h.target
    · simpa [ConnDeadline.call, EagerDeadline.call] using h.armed_iff
    · simpa [ConnDeadline.call, EagerDeadline.call] using h.sleep
    · simp only [ConnDeadline.call, EagerDeadline.call, h.poll_eq now]

theorem lastArm_cons (armed : Option (Nat × Nat)) (c : Nat × Call) (rest : List (Nat × Call)) :
    lastArm armed (c :: rest) = lastArm (lastArm armed [c]) rest := by
  obtain ⟨now, c⟩ := c
  cases c <;> rfl

/-- So does a sequence of calls, and the answers agree. -/
theorem Tracks.run {instantMax : Nat} {d : ConnDeadline} {e : EagerDeadline}
    {armed : Option (Nat × Nat)} (h : Tracks instantMax d e armed) (calls : List (Nat × Call)) :
    Tracks instantMax (d.run instantMax calls).1 (e.run instantMax calls).1
        (lastArm armed calls) ∧
      (d.run instantMax calls).2 = (e.run instantMax calls).2 := by
  induction calls generalizing d e armed with
  | nil => exact ⟨h, rfl⟩
  | cons c rest ih =>
    obtain ⟨now, c⟩ := c
    obtain ⟨hcall, hanswer⟩ := h.call now c
    obtain ⟨hrest, hanswers⟩ := ih hcall
    rw [lastArm_cons]
    refine ⟨hrest, ?_⟩
    simp only [ConnDeadline.run, EagerDeadline.run]
    rw [hanswer, hanswers]

theorem Tracks.new (instantMax start tick : Nat) :
    Tracks instantMax (ConnDeadline.new start tick) (EagerDeadline.new start tick) none where
  notLate := by intro target htarget; cases htarget
  tick := rfl
  target := rfl
  armed_iff := rfl
  sleep := by intro target htarget; cases htarget

theorem lastArm_mem {calls : List (Nat × Call)} {armed : Option (Nat × Nat)} {a : Nat × Nat}
    (h : lastArm armed calls = some a) : armed = some a ∨ (a.1, .arm a.2) ∈ calls := by
  induction calls generalizing armed with
  | nil => exact .inl h
  | cons c rest ih =>
    obtain ⟨now, c⟩ := c
    cases c with
    | arm after =>
      rcases ih h with heq | hmem
      · obtain rfl := Option.some.inj heq
        exact .inr (List.mem_cons_self ..)
      · exact .inr (List.mem_cons_of_mem _ hmem)
    | disarm =>
      rcases ih h with heq | hmem
      · cases heq
      · exact .inr (List.mem_cons_of_mem _ hmem)
    | pollExpired =>
      rcases ih h with heq | hmem
      · exact .inl heq
      · exact .inr (List.mem_cons_of_mem _ hmem)

theorem armTarget_of_fits {instantMax tick now after : Nat}
    (h : now + roundUp after tick ≤ instantMax) :
    armTarget instantMax tick now after = now + roundUp after tick := by
  simp [armTarget, instantAdd, h]

theorem tick_run (instantMax : Nat) (d : ConnDeadline) (calls : List (Nat × Call)) :
    (d.run instantMax calls).1.tick = d.tick := by
  induction calls generalizing d with
  | nil => rfl
  | cons c rest ih =>
    obtain ⟨now, c⟩ := c
    simp only [ConnDeadline.run]
    rw [ih]
    cases c with
    | arm after => exact arm_tick instantMax d now after
    | disarm => rfl
    | pollExpired => exact pollExpired_tick d now

/-- A deadline that runs out after an `arm` does not do so early: for any
duration that fits `u64` nanoseconds, the armed instant has passed. -/
theorem armed_instant_passed {instantMax : Nat} {d : ConnDeadline} {now after t : Nat}
    (htick : 0 < d.tick) (hafter : after < 2 ^ 64)
    (hadd : now + roundUp after d.tick ≤ instantMax)
    (hready : ((d.arm instantMax now after).pollExpired t).expiry = .ready) : now + after ≤ t := by
  obtain ⟨target, htarget, hle⟩ :=
    (pollExpired_ready_iff (arm_notLate instantMax d now after) t).1 hready
  rw [arm_target, armTarget_of_fits hadd] at htarget
  have heq := Option.some.inj htarget
  have hround := (roundUp_bounds hafter htick).1
  omega

/-- The lazy deadline is the eager one. After any sequence of calls, a poll at
any time answers `ready` exactly when the deadline is armed and the time of the
last `arm` plus its rounded duration has come, which is what the eager deadline
answers throughout; it polls the timer at most twice; and an armed timer does
not lie behind the target. -/
theorem lazy_eq_eager (instantMax start tick : Nat) (calls : List (Nat × Call))
    (hadd : ∀ t after, (t, Call.arm after) ∈ calls →
      t + roundUp after (coarsened tick) ≤ instantMax) :
    ((new start tick).run instantMax calls).2 =
        ((EagerDeadline.new start tick).run instantMax calls).2 ∧
      (∀ t, ((((new start tick).run instantMax calls).1.pollExpired t).expiry = .ready ↔
          ∃ armedAt after, lastArm none calls = some (armedAt, after) ∧
            armedAt + roundUp after (coarsened tick) ≤ t) ∧
        (((new start tick).run instantMax calls).1.pollExpired t).polls ≤ 2) ∧
      (∀ target, ((new start tick).run instantMax calls).1.target = some target →
        ((new start tick).run instantMax calls).1.sleep.deadline ≤ target) ∧
      ∀ d < 2 ^ 64, d ≤ roundUp d (coarsened tick) ∧
        (roundUp d (coarsened tick) < d + coarsened tick ∨
          roundUp d (coarsened tick) = u64Max) := by
  obtain ⟨htracks, hanswers⟩ := (Tracks.new instantMax start tick).run calls
  refine ⟨hanswers, ?_, htracks.notLate, fun d hd => roundUp_bounds hd (coarsened_pos tick)⟩
  intro t
  refine ⟨?_, pollExpired_polls_le htracks.notLate t⟩
  rw [pollExpired_ready_iff htracks.notLate, htracks.target, tick_run]
  -- no `arm` among the calls overflows, so its target is the plain sum
  have htarget : ∀ a, lastArm none calls = some a →
      armTarget instantMax (coarsened tick) a.1 a.2 = a.1 + roundUp a.2 (coarsened tick) := by
    intro a ha
    rcases lastArm_mem ha with hnone | hmem
    · cases hnone
    · exact armTarget_of_fits (hadd a.1 a.2 hmem)
  cases harmed : lastArm none calls with
  | none => simp
  | some a =>
    obtain ⟨armedAt, after⟩ := a
    have hsum := htarget (armedAt, after) harmed
    simp only [Option.map_some, Option.some.injEq, Prod.mk.injEq]
    constructor
    · rintro ⟨target, rfl, hle⟩
      refine ⟨armedAt, after, ⟨rfl, rfl⟩, ?_⟩
      rw [← hsum]
      exact hle
    · rintro ⟨_, _, ⟨rfl, rfl⟩, hle⟩
      refine ⟨_, rfl, ?_⟩
      rw [← hsum] at hle
      exact hle

/-- A deadline armed for a second at 100 ms ticks, then armed again half a
second later: the first instant passes without an expiry. -/
theorem lazy_eq_eager_rearmed :
    ((new 0 (10 ^ 8)).run (2 ^ 63) [(0, .arm (10 ^ 9)), (5 * 10 ^ 8, .arm (10 ^ 9)),
        (11 * 10 ^ 8, .pollExpired), (15 * 10 ^ 8, .pollExpired)]).2 =
      [none, none, some .pending, some .ready] := by
  rw [(lazy_eq_eager (2 ^ 63) 0 (10 ^ 8) _ (by
    intro t after h
    simp only [List.mem_cons, Prod.mk.injEq, Call.arm.injEq, reduceCtorEq, and_false,
      List.not_mem_nil, or_false] at h
    rcases h with ⟨rfl, rfl⟩ | ⟨rfl, rfl⟩ <;> decide)).1]
  decide

/-- With a tick of zero the kept tick is a millisecond: armed for a nanosecond,
the deadline is not ready a nanosecond later, although nothing is rounded by a
tick of zero. -/
theorem zero_tick_is_coarsened :
    (((new 0 0).run (2 ^ 63) [(0, .arm 1)]).1.pollExpired 1).expiry = .pending ∧
      lastArm none [(0, .arm 1)] = some (0, 1) ∧ 0 + roundUp 1 0 ≤ 1 ∧
      ¬ (roundUp 1 0 < 1 + 0 ∨ roundUp 1 0 = u64Max) := by
  refine ⟨?_, rfl, by decide, by decide⟩
  have htracks := ((Tracks.new (2 ^ 63) 0 0).run [(0, .arm 1)]).1
  rw [htracks.poll_eq 1]
  decide

end ConnDeadline

end ArmatureH1
