/-
ArmatureH1.ConnWaits — how long the connection loop waits for anything.

The deadline of a wait is armed once as the wait begins, and in a wait for a
head once more when the first byte of a request comes. Nothing else moves it:
further bytes of the head do not, nor does a short write in the middle of a
flush, nor what the handler or anyone else does with a body. So a wait goes on
behind a poll only while it is in time (`InTime`), and in a wait that is in
time no deadline is heard.

The invariant is that the timer holds the instant the present wait is held to
(`Armed`). It is stated for deadlines that are instants, and carried over to
the lazy timer of the source.
-/
import ArmatureH1.ConnClock
import ArmatureH1.ConnReplies

namespace ArmatureH1

open ByteString Conn

namespace Clocked

variable {δ : Type}

/-! ## 1. What each wait is held to -/

/-- When a deadline runs out that was armed at `since`. -/
def due (k : Clocks) (since after : Nat) : Nat :=
  ConnDeadline.armTarget k.instantMax (coarsened k.tick) since after

/-- The timeout of a wait for a head. -/
def headTimeout (k : Clocks) (started : Bool) : Nat :=
  if started then k.limits.header else k.limits.idle

/-- The deadline is the body's. -/
def HoldsBody (k : Clocks) (s : Plain) : Prop :=
  s.bodyArmed = true → ∃ bodyAt, s.bodyDeadlineAt = some bodyAt ∧
    s.deadline = some (due k s.since (bodyAt - s.since))

/-- The deadline is that of the wait. -/
def Armed (k : Clocks) (s : Plain) : Prop :=
  match s.conn.pc with
  | .reading started => s.deadline = some (due k s.since (headTimeout k started))
  | .flushing _ _ => s.deadline = some (due k s.since k.limits.write)
  | .settling _ => s.deadline = some (due k s.since k.limits.write)
  | .handling _ => HoldsBody k s ∧
    s.handlerDeadline = k.handlerTimeout.map fun after => some (due k s.since after)
  | .streaming _ true => HoldsBody k s
  | _ => True

/-- The handler has a deadline of its own when it is configured. -/
def HasHandlerDeadline (k : Clocks) (s : Plain) : Prop :=
  s.handlerDeadline.isSome = k.handlerTimeout.isSome

theorem armBody_holds (k : Clocks) (s : Plain) :
    HoldsBody k (armBody (plainTimer k) s.since s) := by
  unfold armBody
  split
  · rename_i bodyAt hat
    split
    · intro h
      cases h
    · intro _
      exact ⟨bodyAt, hat, rfl⟩
  · intro h
    cases h

theorem armBody_frame (tm : Timer δ) (now : Nat) (s : Clocked δ) :
    (armBody tm now s).since = s.since ∧ (armBody tm now s).entered = s.entered ∧
      (armBody tm now s).handlerDeadline = s.handlerDeadline := by
  unfold armBody
  split
  · split
    · exact ⟨rfl, rfl, rfl⟩
    · exact ⟨rfl, rfl, rfl⟩
  · exact ⟨rfl, rfl, rfl⟩

theorem armHandler_frame (k : Clocks) (tm : Timer δ) (now : Nat) (s : Clocked δ) :
    (armHandler k tm now s).since = s.since ∧ (armHandler k tm now s).entered = s.entered := by
  unfold armHandler
  split
  · exact ⟨rfl, rfl⟩
  · exact ⟨rfl, rfl⟩

theorem armHandler_armed (k : Clocks) (now : Nat) {s : Plain} (h : HasHandlerDeadline k s) :
    (armHandler k (plainTimer k) now s).handlerDeadline
      = k.handlerTimeout.map fun after => some (due k now after) := by
  unfold HasHandlerDeadline at h
  unfold armHandler
  cases hafter : k.handlerTimeout with
  | none =>
      rw [hafter] at h
      exact Option.not_isSome_iff_eq_none.mp (by simp [h])
  | some after =>
      rw [hafter] at h
      obtain ⟨d, hd⟩ := Option.isSome_iff_exists.mp h
      simp only [hd]
      rfl

@[simp] theorem enter_since (k : Clocks) (tm : Timer δ) (now : Nat) (s : Clocked δ) :
    (enter k tm now s).since = now ∧ (enter k tm now s).entered = now := by
  unfold enter
  simp only
  split
  · exact ⟨rfl, rfl⟩
  · exact ⟨rfl, rfl⟩
  · exact ⟨rfl, rfl⟩
  · exact ⟨rfl, rfl⟩
  · exact ⟨rfl, rfl⟩
  · have hbody := armBody_frame tm now
      (armHandler k tm now { startBodyDeadline k now { s with since := now, entered := now } with
        heldInOut := false })
    have hhandler := armHandler_frame k tm now
      { startBodyDeadline k now { s with since := now, entered := now } with heldInOut := false }
    exact ⟨hbody.1.trans hhandler.1, hbody.2.1.trans hhandler.2⟩
  · exact ⟨(armBody_frame tm now _).1, (armBody_frame tm now _).2.1⟩
  · split
    · exact ⟨rfl, rfl⟩
    · exact ⟨rfl, rfl⟩
  · exact ⟨rfl, rfl⟩

/-- A wait begins with its deadline armed. -/
theorem enter_armed (k : Clocks) (now : Nat) {s : Plain} (h : HasHandlerDeadline k s) :
    Armed k (enter k (plainTimer k) now s) := by
  unfold Armed
  rw [enter_conn]
  unfold enter
  simp only
  cases hpc : s.conn.pc with
  | reading started => exact rfl
  | flushing written next => cases next <;> exact rfl
  | settling next => exact rfl
  | firstPoll call held => trivial
  | handling call =>
      simp only
      generalize hs' : ({ startBodyDeadline k now { s with since := now, entered := now } with
        heldInOut := false } : Plain) = s'
      have hhandler : HasHandlerDeadline k s' := hs' ▸ h
      have hsince : (armHandler k (plainTimer k) now s').since = now := by
        rw [(armHandler_frame k (plainTimer k) now s').1, ← hs']
        rfl
      have hbody := armBody_holds k (armHandler k (plainTimer k) now s')
      rw [hsince] at hbody
      refine ⟨hbody, ?_⟩
      rw [(armBody_frame _ _ _).2.2, (armBody_frame _ _ _).1, hsince]
      exact armHandler_armed k now hhandler
  | streaming a parked =>
      cases parked with
      | true => exact armBody_holds k { s with since := now, entered := now }
      | false => trivial
  | ended r => trivial

theorem armHandler_hasHandlerDeadline (k : Clocks) (now : Nat) {s : Plain}
    (h : HasHandlerDeadline k s) : HasHandlerDeadline k (armHandler k (plainTimer k) now s) := by
  unfold HasHandlerDeadline at h ⊢
  unfold armHandler
  split
  · simpa using h
  · exact h

theorem enter_hasHandlerDeadline (k : Clocks) (now : Nat) {s : Plain}
    (h : HasHandlerDeadline k s) : HasHandlerDeadline k (enter k (plainTimer k) now s) := by
  have hbody : ∀ s : Plain, HasHandlerDeadline k s →
      HasHandlerDeadline k (armBody (plainTimer k) now s) := by
    intro s hs
    unfold HasHandlerDeadline
    rw [(armBody_frame _ _ _).2.2]
    exact hs
  unfold enter
  simp only
  split
  · exact h
  · exact h
  · exact h
  · exact h
  · exact h
  · exact hbody _ (armHandler_hasHandlerDeadline k now h)
  · exact hbody _ h
  · split
    · exact h
    · exact h
  · exact h

theorem leave_hasHandlerDeadline {k : Clocks} {s : Plain} (h : HasHandlerDeadline k s) :
    HasHandlerDeadline k (leave (plainTimer k) s) := by
  unfold HasHandlerDeadline at h ⊢
  unfold leave
  split
  · exact h
  · exact h
  · simpa using h
  · exact h
  · exact h

/-! ### Where a step leaves the loop -/

/-- The loop is on its way out. -/
def Quits : Pc → Prop
  | .settling _ => True
  | .flushing _ .errorWritten => True
  | .ended _ => True
  | _ => False

theorem writeError_quits (env : Env) (version : Version) (status : Nat) (c : Conn) :
    Quits (writeError env version status c).pc := by
  have hhead : ∀ c, Quits (writeErrorHead env version status c).pc := by
    intro c
    unfold writeErrorHead flushOr
    simp only
    split <;> trivial
  unfold writeError settleContinue
  split
  · exact hhead _
  · split
    · exact hhead _
    · trivial

theorem writeError_not_reading (env : Env) (version : Version) (status : Nat) (c : Conn)
    (started : Bool) : (writeError env version status c).pc ≠ .reading started := by
  intro hpc
  have h := writeError_quits env version status c
  rw [hpc] at h
  exact h

/-- A read that leaves the head open. -/
theorem headRead_more {limits : Limits} {started began : Bool} {b : Bytes} {st st' : IoState}
    (h : headRead limits started b st = (.more began, st')) :
    began = (started || beginsRequest b) := by
  unfold headRead at h
  simp only at h
  split at h
  · cases h
  · split at h
    · cases h
    · cases h
      rfl

/-- With a head at hand the loop is done reading. -/
theorem startRequest_not_reading (env : Env) (c : Conn) (started : Bool) :
    (startRequest env c).pc ≠ .reading started := by
  cases h : c.shared.io.headLength with
  | none =>
      unfold startRequest
      rw [h]
      simp
  | some n =>
      rw [startRequest_eq env h]
      unfold judge
      split
      · exact writeError_not_reading env _ _ _ _
      · split
        · exact writeError_not_reading env _ _ _ _
        · rw [callHandler_eq]
          unfold admitted
          simp only
          split
          · simp
          · split <;> simp

/-- A request that has begun stays begun while its head is read. -/
theorem reading_stays {env : Env} {c : Conn} {e : Event} {started started' : Bool}
    (hpc : c.pc = .reading started) (hpc' : (step env c e).pc = .reading started') :
    started' = started ∨ (started = false ∧ started' = true) := by
  have hsame : (step env c e).pc = c.pc → started' = started := by
    intro h
    rw [hpc', hpc] at h
    exact Pc.reading.inj h
  have hloop : (stepReading env c started e).pc = .reading started' →
      started' = started ∨ (started = false ∧ started' = true) := by
    intro h
    unfold stepReading at h
    split at h
    · simp at h
    · rename_i b
      split at h
      · simp at h
      · split at h
        · exact absurd h (startRequest_not_reading env _ _)
        · exact absurd h (writeError_not_reading env _ _ _ _)
        · rename_i began io hread
          have hbegan : began = (started || beginsRequest b) := headRead_more hread
          cases h
          rw [hbegan]
          cases started with
          | true => exact Or.inl rfl
          | false => cases beginsRequest b <;> simp
    · split at h
      · exact absurd h (writeError_not_reading env _ _ _ _)
      · simp at h
    · rw [hpc] at h
      exact Or.inl (Pc.reading.inj h).symm
  cases e with
  | body op => exact Or.inl (hsame (step_body_pc env c op))
  | staleBody i op => exact Or.inl (hsame (step_staleBody_pc env c i op))
  | _ =>
      refine hloop ?_
      rw [← hpc']
      unfold step
      rw [hpc]

/-! ### What a deadline does -/

theorem awaited_iff {s : Clocked δ} {d : Event} :
    (if s.bodyArmed && !s.conn.shared.io.bodyFinished then some Event.bodyDeadline else none)
      = some d
      ↔ d = .bodyDeadline ∧ s.bodyArmed = true ∧ s.conn.shared.io.bodyFinished = false := by
  cases s.bodyArmed <;> cases s.conn.shared.io.bodyFinished <;> simp [eq_comm]

/-- A deadline that has run out ends the wait that looked at it. -/
theorem not_stays_of_watches {k : Clocks} {s : Clocked δ} {d : Event} (h : s.watches = some d) :
    stays s.conn d (step k.env s.conn d).pc = false := by
  have hquits : ∀ {pc pc' : Pc}, Quits pc' → (∀ next, pc ≠ .settling next) →
      (∀ written next, pc ≠ .flushing written next) → (∀ r, pc ≠ .ended r) →
      sameWait pc pc' = false := by
    intro pc pc' hq hsettling hflushing hended
    cases pc' with
    | settling next => cases pc <;> simp_all [sameWait]
    | flushing written next => cases pc <;> simp_all [sameWait]
    | ended r => cases pc <;> simp_all [sameWait]
    | _ => exact absurd hq (by simp [Quits])
  unfold stays
  cases hpc : s.conn.pc with
  | reading started =>
      simp only [watches, hpc, Option.some.injEq] at h
      subst h
      have hstep : step k.env s.conn .headDeadline
          = stepReading k.env s.conn started .headDeadline := by
        unfold step
        rw [hpc]
      rw [hstep]
      refine Bool.and_eq_false_imp.mpr fun _ => hquits ?_ (by simp) (by simp) (by simp)
      unfold stepReading
      simp only
      split
      · exact writeError_quits _ _ _ _
      · trivial
  | flushing written next =>
      simp only [watches, hpc, Option.some.injEq] at h
      subst h
      have hstep : step k.env s.conn .writeDeadline = failFlush s.conn next := by
        unfold step
        rw [hpc]
        rfl
      rw [hstep]
      cases next <;> simp [failFlush, sameWait]
  | settling next =>
      simp only [watches, hpc, Option.some.injEq] at h
      subst h
      have hstep : step k.env s.conn .writeDeadline = failSettle s.conn next := by
        unfold step
        rw [hpc]
        rfl
      rw [hstep]
      cases next <;> simp [failSettle, sameWait]
  | handling call =>
      simp only [watches, hpc] at h
      obtain ⟨rfl, -, hfinished⟩ := awaited_iff.mp h
      have hstep : step k.env s.conn .bodyDeadline = writeError k.env call.version 408 s.conn := by
        unfold step
        simp only [hpc, stepHandling, hfinished, Bool.false_eq_true, if_false]
      rw [hstep]
      exact Bool.and_eq_false_imp.mpr fun _ =>
        hquits (writeError_quits _ _ _ _) (by simp) (by simp) (by simp)
  | streaming a parked =>
      cases parked with
      | true =>
          simp only [watches, hpc] at h
          obtain ⟨rfl, -, hfinished⟩ := awaited_iff.mp h
          have hstep : step k.env s.conn .bodyDeadline = { s.conn with pc := .ended .closed } := by
            unfold step
            simp only [hpc, stepStreaming, hfinished, Bool.not_false, Bool.and_self, if_true]
          rw [hstep]
          simp [sameWait]
      | false => simp [watches, hpc] at h
  | firstPoll call held => simp [watches, hpc] at h
  | ended r => simp [watches, hpc] at h

/-! ### The deadline stays that of the wait -/

/-- What the loop keeps. -/
structure OnTime (k : Clocks) (s : Plain) : Prop where
  handler : HasHandlerDeadline k s
  armed : Armed k s

theorem onTime_enter (k : Clocks) (now : Nat) {s : Plain} (h : HasHandlerDeadline k s) :
    OnTime k (enter k (plainTimer k) now s) :=
  ⟨enter_hasHandlerDeadline k now h, enter_armed k now h⟩

theorem armed_sameWait {k : Clocks} {s : Plain} (h : Armed k s) {c : Conn}
    (hsame : sameWait s.conn.pc c.pc = true)
    (hstarted : ∀ a b, s.conn.pc = .reading a → c.pc = .reading b → b = a) :
    Armed k { s with conn := c } := by
  unfold Armed at h ⊢
  simp only
  cases hpc : s.conn.pc with
  | reading a =>
      cases hpc' : c.pc with
      | reading b =>
          rw [hpc] at h
          rw [hstarted a b hpc hpc']
          exact h
      | _ => simp [sameWait, hpc, hpc'] at hsame
  | flushing written next =>
      rw [hpc] at h
      cases hpc' : c.pc with
      | flushing written' next' => exact h
      | _ => simp [sameWait, hpc, hpc'] at hsame
  | settling next =>
      rw [hpc] at h
      cases hpc' : c.pc with
      | settling next' => exact h
      | _ => simp [sameWait, hpc, hpc'] at hsame
  | firstPoll call held =>
      cases hpc' : c.pc with
      | firstPoll call' held' => trivial
      | _ => simp [sameWait, hpc, hpc'] at hsame
  | handling call =>
      rw [hpc] at h
      cases hpc' : c.pc with
      | handling call' => exact h
      | _ => simp [sameWait, hpc, hpc'] at hsame
  | streaming a parked =>
      rw [hpc] at h
      cases hpc' : c.pc with
      | streaming a' parked' =>
          rw [hpc, hpc', sameWait, beq_iff_eq] at hsame
          subst hsame
          cases parked with
          | true => exact h
          | false => trivial
      | _ => simp [sameWait, hpc, hpc'] at hsame
  | ended r =>
      cases hpc' : c.pc with
      | ended r' => trivial
      | _ => simp [sameWait, hpc, hpc'] at hsame

theorem begins_iff {pc pc' : Pc} :
    begins pc pc' = true ↔ pc = .reading false ∧ pc' = .reading true := by
  unfold begins
  split
  · simp
  · rename_i hno
    simp only [Bool.false_eq_true, false_iff]
    rintro ⟨rfl, rfl⟩
    exact hno rfl rfl

/-- **Whatever is heard, the deadline is that of the wait.** -/
theorem hear_onTime {k : Clocks} {s : Plain} (h : OnTime k s) (now : Nat) (e : Event) :
    OnTime k (hear k (plainTimer k) now e s) := by
  unfold hear
  simp only
  split
  · rename_i hstays
    unfold stays at hstays
    simp only [Bool.and_eq_true] at hstays
    split
    · rename_i hbegins
      obtain ⟨-, hpc'⟩ := begins_iff.mp hbegins
      refine ⟨h.handler, ?_⟩
      unfold Armed
      simp only [hpc']
      rfl
    · rename_i hbegins
      refine ⟨h.handler, armed_sameWait h.armed hstays.2 fun a b hpc hpc' => ?_⟩
      rcases reading_stays hpc hpc' with hsame | ⟨rfl, rfl⟩
      · exact hsame
      · exact absurd (begins_iff.mpr ⟨hpc, hpc'⟩) hbegins
  · exact onTime_enter k now (leave_hasHandlerDeadline h.handler)

theorem take_onTime {k : Clocks} {s : Plain} (h : OnTime k s) (now : Nat) (e : Option Event) :
    OnTime k (take k (plainTimer k) now s e) := by
  cases e with
  | none => exact h
  | some e => exact hear_onTime h now e

theorem pollHandlerDeadline_onTime {k : Clocks} {s : Plain} (h : OnTime k s) (now : Nat) :
    OnTime k (pollHandlerDeadline k (plainTimer k) now s) := by
  unfold pollHandlerDeadline
  split
  · rename_i d hd
    -- a deadline that is an instant is what it was when it was looked at
    have hsame :
        ({ s with handlerDeadline := some ((plainTimer k).poll d now).2 } : Plain) = s := by
      rw [show ((plainTimer k).poll d now).2 = d from rfl, ← hd]
    simp only [hsame]
    split
    · exact hear_onTime h now _
    · exact h
  · exact h

theorem poll_onTime {k : Clocks} {s : Plain} (h : OnTime k s) (now : Nat) (e : Option Event) :
    OnTime k (poll k (plainTimer k) now e s) := by
  have hattend : OnTime k (attend k (plainTimer k) now e s) := by
    unfold attend
    simp only
    split
    · exact pollHandlerDeadline_onTime (take_onTime h now e) now
    · exact take_onTime h now e
  unfold poll
  split
  · simp only
    split
    · exact hear_onTime h now _
    · exact hattend
  · exact hattend

theorem sameWait_refl (pc : Pc) : sameWait pc pc = true := by
  cases pc <;> simp [sameWait]

theorem touch_onTime {k : Clocks} {s : Plain} (h : OnTime k s) {c : Conn}
    (hpc : c.pc = s.conn.pc) : OnTime k { s with conn := c } := by
  refine ⟨h.handler, armed_sameWait h.armed (by rw [hpc]; exact sameWait_refl _) ?_⟩
  intro a b ha hb
  rw [hpc, ha] at hb
  exact (Pc.reading.inj hb).symm

/-! ### In time -/

/-- The body's deadline has not run out, as far as the wait is held to it. -/
def BodyInTime (k : Clocks) (now : Nat) (s : Clocked δ) : Prop :=
  s.bodyArmed = true → s.conn.shared.io.bodyFinished = false →
    ∃ bodyAt, s.bodyDeadlineAt = some bodyAt ∧ now < due k s.since (bodyAt - s.since)

/-- The deadline that the wait looks at first has not run out. -/
def FirstInTime (k : Clocks) (now : Nat) (s : Clocked δ) : Prop :=
  match s.conn.pc with
  | .reading started => now < due k s.since (headTimeout k started)
  | .flushing _ _ => now < due k s.since k.limits.write
  | .settling _ => now < due k s.since k.limits.write
  | .handling _ => BodyInTime k now s
  | .streaming _ true => BodyInTime k now s
  | _ => True

/-- No deadline of the wait has run out. -/
structure InTime (k : Clocks) (now : Nat) (s : Clocked δ) : Prop where
  first : FirstInTime k now s
  handler : s.handles = true → ∀ after, k.handlerTimeout = some after → now < due k s.since after

theorem plain_pending {k : Clocks} {target now : Nat} :
    ((plainTimer k).poll (some target) now).1 = false ↔ now < target := by
  simp [plainTimer, Timer.plain]

theorem bodyInTime_iff {k : Clocks} {s : Plain} (h : HoldsBody k s) (harmed : s.bodyArmed = true)
    (hawaited : s.conn.shared.io.bodyFinished = false) (now : Nat) :
    ((plainTimer k).poll s.deadline now).1 = false ↔ BodyInTime k now s := by
  obtain ⟨bodyAt, hat, hdeadline⟩ := h harmed
  rw [hdeadline, plain_pending]
  constructor
  · intro hnow _ _
    exact ⟨bodyAt, hat, hnow⟩
  · intro hin
    obtain ⟨bodyAt', hat', hnow⟩ := hin harmed hawaited
    rw [hat] at hat'
    cases hat'
    exact hnow

/-- The first deadline is heard when its time has come. -/
theorem pending_iff {k : Clocks} {s : Plain} (h : Armed k s) {d : Event}
    (hwatches : s.watches = some d) (now : Nat) :
    ((plainTimer k).poll s.deadline now).1 = false ↔ FirstInTime k now s := by
  cases hpc : s.conn.pc with
  | reading started =>
      simp only [Armed, hpc] at h
      simp only [FirstInTime, hpc, h]
      exact plain_pending
  | flushing written next =>
      simp only [Armed, hpc] at h
      simp only [FirstInTime, hpc, h]
      exact plain_pending
  | settling next =>
      simp only [Armed, hpc] at h
      simp only [FirstInTime, hpc, h]
      exact plain_pending
  | handling call =>
      simp only [Armed, hpc] at h
      simp only [watches, hpc] at hwatches
      simp only [FirstInTime, hpc]
      obtain ⟨-, harmed, hfinished⟩ := awaited_iff.mp hwatches
      exact bodyInTime_iff h.1 harmed hfinished now
  | streaming a parked =>
      cases parked with
      | true =>
          simp only [Armed, hpc] at h
          simp only [watches, hpc] at hwatches
          simp only [FirstInTime, hpc]
          obtain ⟨-, harmed, hfinished⟩ := awaited_iff.mp hwatches
          exact bodyInTime_iff h harmed hfinished now
      | false => simp [watches, hpc] at hwatches
  | firstPoll call held => simp [watches, hpc] at hwatches
  | ended r => simp [watches, hpc] at hwatches

/-- A wait that looks at no deadline is in time. -/
theorem first_of_unwatched {s : Clocked δ} (hwatches : s.watches = none) (k : Clocks) (now : Nat) :
    FirstInTime k now s := by
  have hfree : (if s.bodyArmed && !s.conn.shared.io.bodyFinished then some Event.bodyDeadline
      else none) = none → BodyInTime k now s := by
    intro hd harmed hfinished
    rw [harmed, hfinished] at hd
    cases hd
  cases hpc : s.conn.pc with
  | reading started => simp [watches, hpc] at hwatches
  | flushing written next => simp [watches, hpc] at hwatches
  | settling next => simp [watches, hpc] at hwatches
  | handling call =>
      simp only [watches, hpc] at hwatches
      simp only [FirstInTime, hpc]
      exact hfree hwatches
  | streaming a parked =>
      cases parked with
      | true =>
          simp only [watches, hpc] at hwatches
          simp only [FirstInTime, hpc]
          exact hfree hwatches
      | false => simp only [FirstInTime, hpc]
  | firstPoll call held => simp only [FirstInTime, hpc]
  | ended r => simp only [FirstInTime, hpc]

/-- What the loop itself hears, and not of the time. -/
def isReady (e : Event) : Bool :=
  match e with
  | .body _ => false
  | .staleBody _ _ => false
  | e => !isDeadline e

/-- A handler's wait, or a parked stream's, that goes on has heard nothing. -/
theorem step_of_stays {env : Env} {c : Conn} {e : Event} (he : isReady e = true)
    (hstays : stays c e (step env c e).pc = true)
    (hpc : (∃ call, c.pc = .handling call) ∨ ∃ a, c.pc = .streaming a true) :
    step env c e = c := by
  unfold stays at hstays
  simp only [Bool.and_eq_true, Bool.not_eq_true'] at hstays
  obtain ⟨hends, hsame⟩ := hstays
  rcases hpc with ⟨call, hpc⟩ | ⟨a, hpc⟩
  · have hstep : step env c e = stepHandling env c call e := by
      cases e with
      | body op => cases he
      | staleBody i op => cases he
      | _ => unfold step; rw [hpc]
    rw [hstep] at hsame ⊢
    cases e with
    | handler a =>
        cases a with
        | pending => rfl
        | ready resp => simp [ends, hpc] at hends
        | panic n => simp [stepHandling, sameWait, hpc] at hsame
    | bodyDeadline => cases he
    | handlerDeadline => cases he
    | _ => rfl
  · have hstep : step env c e = stepStreaming env c a true e := by
      cases e with
      | body op => cases he
      | staleBody i op => cases he
      | _ => unfold step; rw [hpc]
    rw [hstep] at hsame ⊢
    cases e with
    | stream a =>
        cases a with
        | pending => rfl
        | item b => simp [ends, hpc] at hends
        | failed =>
            rw [hpc, stepStreaming, flushOr] at hsame
            split at hsame <;> simp [sameWait] at hsame
        | ended => simp [ends, hpc] at hends
        | panic => simp [stepStreaming, sameWait, hpc] at hsame
    | bodyDeadline => cases he
    | _ => rfl

theorem handles_sameWait {c c' : Conn} (h : sameWait c.pc c'.pc = true) (s : Clocked δ) :
    handles { s with conn := c' } = handles { s with conn := c } := by
  unfold handles
  simp only
  cases hpc : c.pc with
  | handling call => cases hpc' : c'.pc <;> simp_all [sameWait]
  | _ => cases hpc' : c'.pc <;> simp_all [sameWait]

/-- A wait that goes on is in time as it was. -/
theorem first_of_stays {k : Clocks} {s : Clocked δ} {now : Nat} {e : Event}
    (h : FirstInTime k now s) (he : isReady e = true)
    (hstays : stays s.conn e (step k.env s.conn e).pc = true)
    (hbegins : begins s.conn.pc (step k.env s.conn e).pc = false) :
    FirstInTime k now { s with conn := step k.env s.conn e } := by
  have hsame : sameWait s.conn.pc (step k.env s.conn e).pc = true := by
    unfold stays at hstays
    simp only [Bool.and_eq_true] at hstays
    exact hstays.2
  have hstill : (∃ call, s.conn.pc = .handling call) ∨ (∃ a, s.conn.pc = .streaming a true) →
      step k.env s.conn e = s.conn := step_of_stays he hstays
  unfold FirstInTime at h ⊢
  simp only
  cases hpc : s.conn.pc with
  | reading a =>
      cases hpc' : (step k.env s.conn e).pc with
      | reading b =>
          have hab : b = a := by
            rcases reading_stays hpc hpc' with hab | ⟨rfl, rfl⟩
            · exact hab
            · rw [begins_iff.mpr ⟨hpc, hpc'⟩] at hbegins
              cases hbegins
          rw [hpc] at h
          rw [hab]
          exact h
      | _ => simp [sameWait, hpc, hpc'] at hsame
  | flushing written next =>
      rw [hpc] at h
      cases hpc' : (step k.env s.conn e).pc with
      | flushing written' next' => exact h
      | _ => simp [sameWait, hpc, hpc'] at hsame
  | settling next =>
      rw [hpc] at h
      cases hpc' : (step k.env s.conn e).pc with
      | settling next' => exact h
      | _ => simp [sameWait, hpc, hpc'] at hsame
  | firstPoll call held =>
      cases hpc' : (step k.env s.conn e).pc with
      | firstPoll call' held' => trivial
      | _ => simp [sameWait, hpc, hpc'] at hsame
  | handling call =>
      rw [hstill (Or.inl ⟨call, hpc⟩), hpc]
      rw [hpc] at h
      exact h
  | streaming a parked =>
      cases parked with
      | true =>
          rw [hstill (Or.inr ⟨a, hpc⟩), hpc]
          rw [hpc] at h
          exact h
      | false =>
          cases hpc' : (step k.env s.conn e).pc with
          | streaming a' parked' =>
              rw [hpc, hpc', sameWait, beq_iff_eq] at hsame
              subst hsame
              trivial
          | _ => simp [sameWait, hpc, hpc'] at hsame
  | ended r =>
      cases hpc' : (step k.env s.conn e).pc with
      | ended r' => trivial
      | _ => simp [sameWait, hpc, hpc'] at hsame

/-- What is taken starts a wait, or leaves the one there was in time. -/
theorem take_inTime {k : Clocks} (tm : Timer δ) {s : Clocked δ} {now : Nat}
    (h : FirstInTime k now s) {e : Option Event} (he : ∀ x ∈ e, isReady x = true) :
    (take k tm now s e).since = now ∨
      (FirstInTime k now (take k tm now s e) ∧ (take k tm now s e).since = s.since ∧
        (take k tm now s e).handles = s.handles ∧ e.any (ends s.conn) = false) := by
  cases e with
  | none => exact Or.inr ⟨h, rfl, rfl, rfl⟩
  | some e =>
      unfold take hear
      simp only
      by_cases hstays : stays s.conn e (step k.env s.conn e).pc = true
      · rw [if_pos hstays]
        have hparts := hstays
        unfold stays at hparts
        simp only [Bool.and_eq_true, Bool.not_eq_true'] at hparts
        split
        · exact Or.inl rfl
        · rename_i hbegins
          refine Or.inr ⟨first_of_stays h (he e rfl) hstays (by simpa using hbegins), rfl,
            handles_sameWait hparts.2 s, ?_⟩
          simpa using hparts.1
      · rw [if_neg hstays]
        exact Or.inl (enter_since k tm now _).1

theorem hear_deadline_since {k : Clocks} {tm : Timer δ} {s : Clocked δ} {d : Event}
    (h : s.watches = some d) (now : Nat) : (hear k tm now d s).since = now := by
  unfold hear
  simp only [not_stays_of_watches (k := k) h, Bool.false_eq_true, if_false]
  exact (enter_since k tm now _).1

theorem handles_iff {s : Clocked δ} : s.handles = true ↔ ∃ call, s.conn.pc = .handling call := by
  unfold handles
  split
  · rename_i call hpc
    simp [hpc]
  · rename_i hno
    simp only [Bool.false_eq_true, false_iff]
    rintro ⟨call, hpc⟩
    exact hno call hpc

theorem handlerDeadline_not_stays {k : Clocks} {s : Clocked δ} (hhandles : s.handles = true) :
    stays s.conn .handlerDeadline (step k.env s.conn .handlerDeadline).pc = false := by
  obtain ⟨call, hpc⟩ := handles_iff.mp hhandles
  have hstep : step k.env s.conn .handlerDeadline = writeError k.env call.version 503 s.conn := by
    unfold step
    rw [hpc]
    rfl
  have hquits := writeError_quits k.env call.version 503 s.conn
  rw [hstep]
  unfold stays
  rw [hpc]
  cases hpc' : (writeError k.env call.version 503 s.conn).pc with
  | handling call' =>
      rw [hpc'] at hquits
      exact hquits.elim
  | _ => simp [sameWait]

theorem handlerDeadline_since {k : Clocks} {tm : Timer δ} {s : Clocked δ}
    (hhandles : s.handles = true) (now : Nat) :
    (hear k tm now .handlerDeadline s).since = now := by
  have hstays : stays s.conn .handlerDeadline (step k.env s.conn .handlerDeadline).pc = false :=
    handlerDeadline_not_stays hhandles
  unfold hear
  simp only [hstays, Bool.false_eq_true, if_false]
  exact (enter_since k tm now _).1

/-- What the handler's deadline does is a comparison with the time. -/
theorem pollHandlerDeadline_eq {k : Clocks} {s : Plain} (h : Armed k s)
    (hhandles : s.handles = true) (now : Nat) :
    pollHandlerDeadline k (plainTimer k) now s
      = if k.handlerTimeout.any fun after => decide (due k s.since after ≤ now) then
          hear k (plainTimer k) now .handlerDeadline s
        else s := by
  obtain ⟨call, hpc⟩ := handles_iff.mp hhandles
  unfold Armed at h
  rw [hpc] at h
  obtain ⟨-, hdeadline⟩ := h
  unfold pollHandlerDeadline
  cases hafter : k.handlerTimeout with
  | none =>
      rw [hafter, Option.map_none] at hdeadline
      rw [hdeadline]
      rfl
  | some after =>
      rw [hafter, Option.map_some] at hdeadline
      have hsame :
          ({ s with handlerDeadline := some (some (due k s.since after)) } : Plain) = s := by
        rw [← hdeadline]
      rw [hdeadline]
      simp only [plainTimer, Timer.plain, Option.any_some, hsame]

/-- The handler's deadline, in a wait that is in time otherwise. -/
theorem pollHandlerDeadline_inTime {k : Clocks} {s : Plain} {now : Nat} (h : Armed k s)
    (hhandles : s.handles = true) (hfirst : s.since = now ∨ FirstInTime k now s) :
    (pollHandlerDeadline k (plainTimer k) now s).since = now ∨
      InTime k now (pollHandlerDeadline k (plainTimer k) now s) := by
  rw [pollHandlerDeadline_eq h hhandles now]
  split
  · exact Or.inl (handlerDeadline_since hhandles now)
  · rename_i hpending
    refine hfirst.imp_right fun hfirst => ⟨hfirst, fun _ after hafter => ?_⟩
    rw [hafter] at hpending
    simpa using hpending

theorem attend_inTime {k : Clocks} {s : Plain} {now : Nat} (h : OnTime k s)
    (hfirst : FirstInTime k now s) {e : Option Event} (he : ∀ x ∈ e, isReady x = true) :
    (attend k (plainTimer k) now e s).since = now ∨
      InTime k now (attend k (plainTimer k) now e s) := by
  have htake := take_inTime (plainTimer k) hfirst he
  have honTime := take_onTime h now e
  unfold attend
  simp only
  generalize take k (plainTimer k) now s e = s' at htake honTime
  split
  · rename_i hasked
    simp only [Bool.and_eq_true] at hasked
    exact pollHandlerDeadline_inTime honTime.armed hasked.1.2 (htake.imp_right fun h => h.1)
  · rename_i hasked
    refine htake.imp_right fun hgoes => ⟨hgoes.1, fun hhandles => ?_⟩
    obtain ⟨-, -, hsame, hends⟩ := hgoes
    rw [← hsame, hhandles, hends] at hasked
    exact absurd rfl hasked

/-- **A poll leaves no wait behind its deadline.** The wait that goes on behind
it is in time, or has just begun. -/
theorem poll_inTime {k : Clocks} {s : Plain} (h : OnTime k s) (now : Nat) {e : Option Event}
    (he : ∀ x ∈ e, isReady x = true) :
    (poll k (plainTimer k) now e s).since = now ∨ InTime k now (poll k (plainTimer k) now e s) := by
  unfold poll
  split
  · rename_i d hwatches
    have hpending := pending_iff h.armed hwatches now
    have hsame : ({ s with deadline := ((plainTimer k).poll s.deadline now).2 } : Plain) = s := rfl
    simp only [hsame]
    split
    · exact Or.inl (hear_deadline_since hwatches now)
    · rename_i hno
      exact attend_inTime h (hpending.mp (by simpa using hno)) he
  · rename_i hwatches
    exact attend_inTime h (first_of_unwatched hwatches k now) he

/-- A handler that has not answered, and is still waited for, has changed
nothing. -/
theorem take_of_handles {k : Clocks} {tm : Timer δ} {s : Clocked δ} {now : Nat} {e : Option Event}
    (he : ∀ x ∈ e, isReady x = true) (hhandles : s.handles = true)
    (hhandles' : (take k tm now s e).handles = true) (hends : e.any (ends s.conn) = false) :
    take k tm now s e = s := by
  cases e with
  | none => rfl
  | some e =>
      obtain ⟨call, hpc⟩ := handles_iff.mp hhandles
      obtain ⟨call', hpc'⟩ := handles_iff.mp hhandles'
      have hstep : (step k.env s.conn e).pc = .handling call' := by
        rw [← hear_conn k tm now e s]
        exact hpc'
      have hstays : stays s.conn e (step k.env s.conn e).pc = true := by
        rw [Option.any_some] at hends
        rw [stays, hends, hstep, hpc]
        rfl
      have hbegins : begins s.conn.pc (step k.env s.conn e).pc = false := by
        rw [hpc]
        rfl
      unfold take hear
      simp only [hstays, hbegins, if_true, Bool.false_eq_true, if_false]
      rw [step_of_stays (he e rfl) hstays (Or.inl ⟨call, hpc⟩)]

/-- **Nor does it hear one before its time.** In a wait that is in time, what is
ready is taken, and nothing else happens. -/
theorem poll_conn_of_inTime {k : Clocks} {s : Plain} (h : OnTime k s) {now : Nat}
    (hin : InTime k now s) {e : Option Event} (he : ∀ x ∈ e, isReady x = true) :
    (poll k (plainTimer k) now e s).conn = e.elim s.conn (step k.env s.conn) := by
  have htake : (take k (plainTimer k) now s e).conn = e.elim s.conn (step k.env s.conn) := by
    cases e with
    | none => rfl
    | some e => exact hear_conn k (plainTimer k) now e s
  have hattend : (attend k (plainTimer k) now e s).conn = e.elim s.conn (step k.env s.conn) := by
    rw [← htake]
    unfold attend
    simp only
    split
    · rename_i hasked
      simp only [Bool.and_eq_true, Bool.not_eq_true'] at hasked
      obtain ⟨⟨hhandles, hhandles'⟩, hends⟩ := hasked
      rw [take_of_handles he hhandles hhandles' hends, pollHandlerDeadline_eq h.armed hhandles now]
      have hpending : (k.handlerTimeout.any fun after => decide (due k s.since after ≤ now))
          = false := by
        cases hafter : k.handlerTimeout with
        | none => rfl
        | some after => simpa using hin.handler hhandles after hafter
      rw [hpending]
      rfl
    · rfl
  unfold poll
  split
  · rename_i d hwatches
    have hpending := (pending_iff h.armed hwatches now).mpr hin.first
    have hsame : ({ s with deadline := ((plainTimer k).poll s.deadline now).2 } : Plain) = s := rfl
    simp only [hsame, hpending, Bool.false_eq_true, if_false]
    exact hattend
  · exact hattend

/-! ### From the first byte of a head -/

/-- A head whose first byte came in this wait came before the wait was idle
for too long. -/
def Begun (k : Clocks) (s : Clocked δ) : Prop :=
  ∀ started, s.conn.pc = .reading started →
    s.since = s.entered ∨ (started = true ∧ s.since < due k s.entered k.limits.idle)

theorem begun_enter (k : Clocks) (tm : Timer δ) (now : Nat) (s : Clocked δ) :
    Begun k (enter k tm now s) := by
  intro started _
  have h := enter_since k tm now s
  exact Or.inl (h.1.trans h.2.symm)

theorem hear_begun {k : Clocks} {tm : Timer δ} {s : Clocked δ} (h : Begun k s) {now : Nat}
    {e : Event}
    (hfirst : stays s.conn e (step k.env s.conn e).pc = true → FirstInTime k now s) :
    Begun k (hear k tm now e s) := by
  unfold hear
  simp only
  split
  · rename_i hstays
    have hin := hfirst hstays
    split
    · rename_i hbegins
      obtain ⟨hpc, hpc'⟩ := begins_iff.mp hbegins
      intro started hreading
      rw [hpc'] at hreading
      cases hreading
      have hentered : s.since = s.entered := by
        rcases h false hpc with hsince | ⟨hno, -⟩
        · exact hsince
        · cases hno
      unfold FirstInTime at hin
      rw [hpc] at hin
      rw [hentered] at hin
      exact Or.inr ⟨rfl, hin⟩
    · rename_i hbegins
      have hsame : sameWait s.conn.pc (step k.env s.conn e).pc = true := by
        unfold stays at hstays
        simp only [Bool.and_eq_true] at hstays
        exact hstays.2
      intro started hreading
      cases hpc : s.conn.pc with
      | reading a =>
          rcases reading_stays hpc hreading with hab | ⟨rfl, rfl⟩
          · rw [hab]
            exact h a hpc
          · exact absurd (begins_iff.mpr ⟨hpc, hreading⟩) hbegins
      | _ => simp [sameWait, hpc, show (step k.env s.conn e).pc = _ from hreading] at hsame
  · exact begun_enter k tm now _

theorem poll_begun {k : Clocks} {s : Plain} (h : OnTime k s) (hbegun : Begun k s) (now : Nat)
    (e : Option Event) : Begun k (poll k (plainTimer k) now e s) := by
  have hattend : FirstInTime k now s → Begun k (attend k (plainTimer k) now e s) := by
    intro hfirst
    have htake : Begun k (take k (plainTimer k) now s e) := by
      cases e with
      | none => exact hbegun
      | some e => exact hear_begun hbegun fun _ => hfirst
    unfold attend
    simp only
    split
    · rename_i hasked
      simp only [Bool.and_eq_true] at hasked
      rw [pollHandlerDeadline_eq (take_onTime h now e).armed hasked.1.2 now]
      split
      · refine hear_begun htake fun hstays => ?_
        rw [handlerDeadline_not_stays hasked.1.2] at hstays
        cases hstays
      · exact htake
    · exact htake
  unfold poll
  split
  · rename_i d hwatches
    have hpending := pending_iff h.armed hwatches now
    have hsame : ({ s with deadline := ((plainTimer k).poll s.deadline now).2 } : Plain) = s := rfl
    simp only [hsame]
    split
    · refine hear_begun hbegun fun hstays => ?_
      rw [not_stays_of_watches hwatches] at hstays
      cases hstays
    · rename_i hno
      exact hattend (hpending.mp (by simpa using hno))
  · rename_i hwatches
    exact hattend (first_of_unwatched hwatches k now)

/-! ## 2. Every run -/

/-- Someone who holds a body uses it, and the task is not polled. -/
def touches : Event → Bool
  | .body _ => true
  | .staleBody _ _ => true
  | _ => false

theorem isReady_of_ready {e : Event} (he : touches e = false) :
    ∀ x ∈ ready e, isReady x = true := by
  intro x hx
  cases e <;> simp_all [touches, ready, isDeadline, isReady] <;> subst hx <;> rfl

theorem act_of_poll (k : Clocks) (tm : Timer δ) (s : Clocked δ) (now : Nat) {e : Event}
    (he : touches e = false) : act k tm s (now, e) = poll k tm now (ready e) s := by
  cases e with
  | body op => cases he
  | staleBody i op => cases he
  | _ => rfl

/-- What holds of the loop with deadlines that are instants, all along a run. -/
theorem run_onTime (k : Clocks) (start : Nat) (buffered : Bytes) (events : List (Nat × Event)) :
    OnTime k (plainRun k start buffered events) ∧ Begun k (plainRun k start buffered events) := by
  have haccepted : HasHandlerDeadline k (accepted k (none : Option Nat) start buffered) := by
    unfold HasHandlerDeadline accepted
    simp
  induction events using List.reverseRecOn with
  | nil =>
      exact ⟨onTime_enter k start haccepted, begun_enter k (plainTimer k) start _⟩
  | append_singleton events e ih =>
      obtain ⟨now, e⟩ := e
      obtain ⟨honTime, hbegun⟩ := ih
      rw [plainRun, run_append]
      cases he : touches e with
      | false =>
          rw [act_of_poll k _ _ now he]
          exact ⟨poll_onTime honTime now _, poll_begun honTime hbegun now _⟩
      | true =>
          cases e with
          | body op =>
              have hpc := step_body_pc k.env (plainRun k start buffered events).conn op
              exact ⟨touch_onTime honTime hpc, fun a ha => hbegun a (hpc ▸ ha)⟩
          | staleBody i op =>
              have hpc := step_staleBody_pc k.env (plainRun k start buffered events).conn i op
              exact ⟨touch_onTime honTime hpc, fun a ha => hbegun a (hpc ▸ ha)⟩
          | _ => cases he

theorem Like.inTime {ε : Type} {R : δ → ε → Prop} {s : Clocked δ} {s' : Clocked ε}
    (h : Like R s s') {k : Clocks} {now : Nat} : InTime k now s' ↔ InTime k now s := by
  have hfirst : FirstInTime k now s' ↔ FirstInTime k now s := by
    unfold FirstInTime BodyInTime
    rw [h.conn, h.since, h.bodyArmed, h.bodyDeadlineAt]
  have hhandles : s'.handles = s.handles := by
    unfold handles
    rw [h.conn]
  constructor
  · intro hin
    exact ⟨hfirst.mp hin.first, fun hh => h.since ▸ hin.handler (hhandles.trans hh)⟩
  · intro hin
    exact ⟨hfirst.mpr hin.first, fun hh => h.since.symm ▸ hin.handler (hhandles.symm.trans hh)⟩

/-- Behind a poll the loop's wait is in time, or has just begun. -/
theorem sourceRun_inTime (k : Clocks) (made start : Nat) (buffered : Bytes)
    (events : List (Nat × Event)) (now : Nat) {e : Event} (he : touches e = false) :
    (sourceRun k made start buffered (events ++ [(now, e)])).since = now ∨
      InTime k now (sourceRun k made start buffered (events ++ [(now, e)])) := by
  have hlike := source_like_plain k made start buffered (events ++ [(now, e)])
  have hpolled := poll_inTime (run_onTime k start buffered events).1 now (isReady_of_ready he)
  rw [← act_of_poll k _ _ now he, plainRun, ← run_append] at hpolled
  exact hpolled.imp (fun h => hlike.since.symm.trans h) fun h => hlike.inTime.mp h

/-- **Every deadline comes when it is due, and at no other time.** Take the
connection at any point of any timed run, and poll its task once more at some
time. If the wait it is in has outlived no timeout (`InTime`: the idle timeout
before a head has begun and the header timeout from its first byte, the write
timeout from the start of a flush, the body's deadline for a body that is still
awaited, the handler's from its call, each rounded up to a tick), then the poll
takes what is ready and no deadline is heard. And whatever it finds, it leaves
the loop in a wait that has just begun or that has outlived none. -/
theorem deadlines_on_time (k : Clocks) (made start : Nat) (buffered : Bytes)
    (events : List (Nat × Event)) (now : Nat) (e : Event) (he : touches e = false) :
    let s := sourceRun k made start buffered events
    let s' := sourceRun k made start buffered (events ++ [(now, e)])
    (InTime k now s → s'.conn = (ready e).elim s.conn (step k.env s.conn)) ∧
      (s'.since = now ∨ InTime k now s') := by
  intro s s'
  refine ⟨fun hin => ?_, sourceRun_inTime k made start buffered events now he⟩
  have hlike := source_like_plain k made start buffered events
  have hlike' := source_like_plain k made start buffered (events ++ [(now, e)])
  have hconn := poll_conn_of_inTime (run_onTime k start buffered events).1
    (hlike.inTime.mpr hin) (isReady_of_ready he)
  rw [← act_of_poll k _ _ now he, hlike.conn, plainRun, ← run_append] at hconn
  exact hlike'.conn.symm.trans hconn

/-! ### A head, byte by byte -/

/-- The timeouts of a head fit a `u64` of nanoseconds, and so the instants
behind `at_` fit an `Instant`. -/
structure Fits (k : Clocks) (at_ : Nat) : Prop where
  idle : k.limits.idle + coarsened k.tick < 2 ^ 64
  header : k.limits.header + coarsened k.tick < 2 ^ 64
  instant : at_ + k.limits.idle + k.limits.header + 2 * coarsened k.tick ≤ k.instantMax

theorem due_lt {k : Clocks} {since after : Nat} (hafter : after + coarsened k.tick < 2 ^ 64)
    (hmax : since + after + coarsened k.tick ≤ k.instantMax) :
    due k since after < since + after + coarsened k.tick := by
  have hround := roundUp_lt (coarsened_pos k.tick) hafter
  unfold due ConnDeadline.armTarget instantAdd
  rw [if_pos (by omega), Option.getD_some]
  omega

/-- **A head cannot be trickled.** However a peer spreads its bytes over however
many reads, a loop that is polled waits for one head no longer than the idle
timeout and the header timeout together, each rounded up by less than a tick;
and from the first byte on no longer than the header timeout. The instants that
the two are armed for must be ones the clock can name (`Fits`). -/
theorem head_wait_bounded (k : Clocks) (made start : Nat) (buffered : Bytes)
    (events : List (Nat × Event)) (now : Nat) (e : Event) (he : touches e = false)
    (started : Bool)
    (hpc : (sourceRun k made start buffered (events ++ [(now, e)])).conn.pc = .reading started)
    (hfits : Fits k (sourceRun k made start buffered (events ++ [(now, e)])).entered) :
    let s := sourceRun k made start buffered (events ++ [(now, e)])
    now < s.entered + k.limits.idle + k.limits.header + 2 * coarsened k.tick ∧
      (started = true → now < s.since + k.limits.header + coarsened k.tick) := by
  intro s
  have hbegun : Begun k s := by
    have hlike := source_like_plain k made start buffered (events ++ [(now, e)])
    intro a ha
    have hplain := (run_onTime k start buffered (events ++ [(now, e)])).2 a
      ((congrArg Conn.pc hlike.conn).trans ha)
    rw [hlike.since, hlike.entered] at hplain
    exact hplain
  have htick := coarsened_pos k.tick
  obtain ⟨hidle, hheader, hinstant⟩ := hfits
  change s.entered + k.limits.idle + k.limits.header + 2 * coarsened k.tick ≤ k.instantMax
    at hinstant
  -- the deadline was armed as the wait began, or before the idle timeout
  have hsince : s.since < s.entered + k.limits.idle + coarsened k.tick := by
    rcases hbegun started hpc with hsince | ⟨-, hsince⟩
    · omega
    · exact lt_trans hsince (due_lt hidle (by omega))
  have hheaderDue : due k s.since k.limits.header < s.since + k.limits.header + coarsened k.tick :=
    due_lt hheader (by omega)
  rcases sourceRun_inTime k made start buffered events now he with hnow | hin
  · change s.since = now at hnow
    exact ⟨by omega, fun _ => by omega⟩
  · have hfirst := hin.first
    unfold FirstInTime at hfirst
    rw [hpc] at hfirst
    change now < due k s.since (headTimeout k started) at hfirst
    cases started with
    | true =>
        have hdue : now < due k s.since k.limits.header := hfirst
        exact ⟨by omega, fun _ => by omega⟩
    | false =>
        have hentered : s.since = s.entered := by
          rcases hbegun false hpc with h | ⟨h, -⟩
          · exact h
          · cases h
        have hdue : now < due k s.since k.limits.idle := hfirst
        have hidleDue : due k s.since k.limits.idle < s.since + k.limits.idle + coarsened k.tick :=
          due_lt hidle (by omega)
        exact ⟨by omega, fun h => by cases h⟩

/-- A connection with the default deadlines. -/
def sampleClocks : Clocks where
  env := sampleEnv
  limits := Timeouts.default
  handlerTimeout := none
  tick := 10 ^ 8
  instantMax := 2 ^ 63

/-- A `G` after a second. -/
def firstByte : List (Nat × Event) := [(10 ^ 9, .read (.ok (ascii "G")))]

/-- An `E`, which comes five seconds later. -/
def secondByte : Event := .read (.ok (ascii "E"))

def secondTime : Nat := 6 * 10 ^ 9

theorem deadlines_on_time_dribble :
    (sourceRun sampleClocks 0 0 [] (firstByte ++ [(secondTime, secondByte)])).since = secondTime ∨
      InTime sampleClocks secondTime
        (sourceRun sampleClocks 0 0 [] (firstByte ++ [(secondTime, secondByte)])) :=
  (deadlines_on_time sampleClocks 0 0 [] firstByte secondTime secondByte rfl).2

theorem head_wait_bounded_dribble :
    secondTime < (sourceRun sampleClocks 0 0 [] (firstByte ++ [(secondTime, secondByte)])).since
      + sampleClocks.limits.header + coarsened sampleClocks.tick := by
  have hlike := source_like_plain sampleClocks 0 0 [] (firstByte ++ [(secondTime, secondByte)])
  have hpc : (sourceRun sampleClocks 0 0 [] (firstByte ++ [(secondTime, secondByte)])).conn.pc
      = .reading true := (congrArg Conn.pc hlike.conn).symm.trans rfl
  have hentered :
      (sourceRun sampleClocks 0 0 [] (firstByte ++ [(secondTime, secondByte)])).entered = 0 :=
    hlike.entered.symm.trans (by decide +kernel)
  have hfits : Fits sampleClocks
      (sourceRun sampleClocks 0 0 [] (firstByte ++ [(secondTime, secondByte)])).entered := by
    rw [hentered]
    exact ⟨by decide, by decide, by decide⟩
  have h := head_wait_bounded sampleClocks 0 0 [] firstByte secondTime secondByte rfl true hpc hfits
  exact h.2 rfl

end Clocked

end ArmatureH1
