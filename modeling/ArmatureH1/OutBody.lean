/-
ArmatureH1.OutBody — the response body that hyper is handed.

In `Splice` the end of a response body is something that may happen while hyper
holds a `HyperOutBody` with frames left, and then happens once. Here it is what
`poll_frame` of that body does (`backend/hyper/body.rs`): the body is put in its
place beside the connection that is served, and hyper polls it when it likes,
also when it has ended. Every run is still a run of `Serving`
(`served_with_body`), so that what is known of those holds with the code of the
body in place. On the way it is seen what hyper is handed: the items of a
stream, one frame for each and in their order, or the bytes of a body in one
piece, of which the size that it announces is, at every moment, what is left.

A stream that panics when it is polled takes the task with it; hyper's future
is then over, as far as `Serving` is concerned.
-/
import ArmatureH1.Splice

namespace ArmatureH1

open ByteString

/-! ## 1. The body -/

/-- `HyperOutBody`, less the clock it is given with every poll. -/
structure HyperOutBody where
  body : ResponseBody
  done : Bool
  deriving DecidableEq

/-- What `poll_frame` returns. -/
inductive FramePoll where
  | pending
  | data (b : Bytes)
  | failed
  | ended
  | panicked
  deriving DecidableEq

/-- The data of a frame, if there is one. -/
def FramePoll.frames : FramePoll → List Bytes
  | data b => [b]
  | _ => []

/-- Whether a stream has no more items behind an answer. -/
def StreamAnswer.ends : StreamAnswer → Bool
  | .ended | .failed => true
  | _ => false

namespace HyperOutBody

/-- `HyperOutBody::new`. What it tells the clock is `PhaseClock.outBody`. -/
def new (body : ResponseBody) : HyperOutBody := ⟨body, PhaseClock.endsAtOnce body⟩

/-- `HyperOutBody::finish`. -/
def finish (s : HyperOutBody) (c : PhaseClock) : HyperOutBody × PhaseClock :=
  ({ s with done := true }, c.noteBodyEnd)

/-- `poll_frame`. `a` is what the handler's stream answers, should it be
asked. -/
def pollFrame (s : HyperOutBody) (c : PhaseClock) (a : StreamAnswer) :
    FramePoll × HyperOutBody × PhaseClock :=
  if s.done then (.ended, s, c)
  else
    match s.body with
    | .empty => (.ended, s.finish c)
    | .full b => (if b = [] then .ended else .data b, { s with body := .full [] }.finish c)
    | .stream =>
      match a with
      | .pending => (.pending, s, c)
      | .ended => (.ended, s.finish c)
      | .item b => (.data b, s, c)
      | .failed => (.failed, s.finish c)
      | .panic => (.panicked, s, c)

/-- `is_end_stream`. -/
def isEndStream (s : HyperOutBody) : Bool := s.done

/-- `size_hint`, where it is exact. -/
def sizeHint (s : HyperOutBody) : Option Nat :=
  match s.body with
  | .empty => some 0
  | .full b => some b.length
  | .stream => none

end HyperOutBody

/-! ## 2. Serving with it -/

/-- The bytes of a body that was given in one piece. -/
def ResponseBody.bytes : ResponseBody → Bytes
  | .full b => b
  | _ => []

/-- A connection that is served, with the body of the last response, unless it
is one that hyper does not poll. The rest is history: the body as the bridge
made it, what its stream answered when a poll came to ask it, and the data of
the frames that hyper was handed. -/
structure Bodied where
  serving : Serving
  body : Option HyperOutBody
  given : ResponseBody
  answers : List StreamAnswer
  handed : List Bytes

inductive BodiedAction where
  | serve (a : ServeAction)
  | pollFrame (a : StreamAnswer)

/-- The stream is asked as long as it may have items. -/
def HyperOutBody.asks (b : HyperOutBody) : Bool := b.body == .stream && !b.done

/-- Neither hyper's future nor the watchdog has returned. -/
def Serving.served (s : Serving) : Bool :=
  !s.resolved && match s.timed.dog with
    | .returned _ => false
    | _ => true

/-- What a poll of the body does to the rest: the clock has been told, the last
response has no more frames, an error or a panic ends hyper's future. -/
def Serving.framed (s : Serving) (r : FramePoll) (done : Bool) (c : PhaseClock) : Serving :=
  let s := { s with timed := { s.timed with clock := c }, outBody := !done }
  match r with
  | .failed | .panicked => { s with resolved := true }
  | _ =>
    { s with
      wire := match s.wire with
        | r :: rest => (if done then { r with ended := true } else r) :: rest
        | [] => [] }

namespace Bodied

def start (now : Nat) : Bodied := ⟨Serving.start now, none, .empty, [], []⟩

section Actions

variable (instantMax : Nat) (limits : Timeouts) (ripe : Nat → Nat → Nat → Bool)

/-- One action. The end of the body and its failure are not hyper's to bring
about any more. -/
def act (s : Bodied) : BodiedAction → Option Bodied
  | .serve .bodyEnd => none
  | .serve .bodyFail => none
  | .serve .reject =>
    (s.serving.act instantMax limits ripe .reject).map fun t =>
      ⟨t, some (.new .empty), .empty, [], []⟩
  | .serve (.handOver out) =>
    (s.serving.act instantMax limits ripe (.handOver out)).map fun t =>
      ⟨t, if out.isHeadRequest then none else some (.new out.body), out.body, [], []⟩
  | .serve a => (s.serving.act instantMax limits ripe a).map fun t => { s with serving := t }
  | .pollFrame a =>
    match s.body with
    | some b =>
      if s.serving.served then
        let (r, b', c) := b.pollFrame s.serving.timed.clock a
        some { s with
          serving := s.serving.framed r b'.done c
          body := some b'
          answers := s.answers ++ if b.asks then [a] else []
          handed := s.handed ++ r.frames }
      else none
    | none => none

def run (s : Bodied) : List BodiedAction → Option Bodied
  | [] => some s
  | a :: rest => (s.act instantMax limits ripe a).bind fun s' => run s' rest

end Actions

/-! ## 3. What the body and the rest know of each other -/

/-- Whether the last response has no more frames, as the wire has it. -/
def lastEnded (wire : List Final) : Option Bool := wire.head?.map Final.ended

/-- The last response is the body's, and ends with it. -/
def Held (s : Bodied) : Prop :=
  match s.body with
  | some b => lastEnded s.serving.wire = some b.done ∧ s.serving.outBody = !b.done
  | none => s.serving.outBody = false

/-- What a body has left, and what it has given. -/
structure Gives (given : ResponseBody) (answers : List StreamAnswer) (handed : List Bytes)
    (b : HyperOutBody) : Prop where
  stream : b.body = .stream ↔ given = .stream
  rest : given ≠ .stream → handed.flatten ++ b.body.bytes = given.bytes
  spent : b.done = true → b.body.bytes = []
  yielded : given = .stream → handed = answers.flatMap StreamAnswer.items
  ended : given = .stream → b.done = answers.any StreamAnswer.ends

theorem gives_new (given : ResponseBody) : Gives given [] [] (.new given) where
  stream := .rfl
  rest _ := rfl
  spent h := by
    cases given with
    | full b =>
        have hb : b.isEmpty = true := h
        exact List.isEmpty_iff.mp hb
    | _ => rfl
  yielded _ := rfl
  ended h := by
    subst h
    rfl

/-- A stream that is asked: its items are handed on, its end is the body's. -/
theorem Gives.asked {answers : List StreamAnswer} {handed : List Bytes}
    (h : Gives .stream answers handed ⟨.stream, false⟩) (c : PhaseClock) (a : StreamAnswer) :
    Gives .stream (answers ++ [a])
      (handed ++ (HyperOutBody.pollFrame ⟨.stream, false⟩ c a).1.frames)
      (HyperOutBody.pollFrame ⟨.stream, false⟩ c a).2.1 where
  stream := by cases a <;> simp [HyperOutBody.pollFrame, HyperOutBody.finish]
  rest hno := absurd rfl hno
  spent _ := by cases a <;> rfl
  yielded _ := by
    rw [List.flatMap_append, ← h.yielded rfl]
    cases a <;> rfl
  ended _ := by
    rw [List.any_append, ← h.ended rfl]
    cases a <;> rfl

/-- A frame goes from what is left to what was given. -/
theorem Gives.pollFrame {given : ResponseBody} {answers : List StreamAnswer} {handed : List Bytes}
    {b : HyperOutBody} (h : Gives given answers handed b) (c : PhaseClock) (a : StreamAnswer) :
    Gives given (answers ++ if b.asks then [a] else [])
      (handed ++ (b.pollFrame c a).1.frames) (b.pollFrame c a).2.1 := by
  obtain ⟨body, done⟩ := b
  cases done with
  | true =>
      have hasks : HyperOutBody.asks ⟨body, true⟩ = false := by simp [HyperOutBody.asks]
      simpa [HyperOutBody.pollFrame, FramePoll.frames, hasks] using h
  | false =>
      obtain ⟨hstream, hrest, hspent, hyielded, hended⟩ := h
      cases body with
      | stream =>
          obtain rfl : given = .stream := hstream.mp rfl
          exact Gives.asked ⟨hstream, hrest, hspent, hyielded, hended⟩ c a
      | empty =>
          have hno : given ≠ .stream := fun hgiven => by cases hstream.mpr hgiven
          refine ⟨?_, fun _ => ?_, fun _ => rfl, fun hgiven => absurd hgiven hno,
            fun hgiven => absurd hgiven hno⟩
          · simp [HyperOutBody.pollFrame, HyperOutBody.finish, hno]
          · simpa [HyperOutBody.pollFrame, HyperOutBody.finish, FramePoll.frames] using hrest hno
      | full x =>
          have hno : given ≠ .stream := fun hgiven => by cases hstream.mpr hgiven
          refine ⟨?_, fun _ => ?_, fun _ => rfl, fun hgiven => absurd hgiven hno,
            fun hgiven => absurd hgiven hno⟩
          · simp [HyperOutBody.pollFrame, HyperOutBody.finish, hno]
          · have hall : handed.flatten ++ x = given.bytes := hrest hno
            rw [← hall]
            by_cases hx : x = []
            · simp [HyperOutBody.pollFrame, HyperOutBody.finish, FramePoll.frames, hx,
                ResponseBody.bytes]
            · simp [HyperOutBody.pollFrame, HyperOutBody.finish, FramePoll.frames, hx,
                ResponseBody.bytes]

section Steps

variable {instantMax : Nat} {limits : Timeouts} {ripe : Nat → Nat → Nat → Bool}

theorem act_of_served {s : Serving} (h : s.served = true) (a : ServeAction) :
    s.act instantMax limits ripe a = s.next instantMax limits ripe a := by
  unfold Serving.served at h
  rw [Bool.and_eq_true, Bool.not_eq_true'] at h
  unfold Serving.act
  rw [if_neg (by simp [h.1])]
  split
  · rename_i p hp
    rw [hp] at h
    cases h.2
  · rfl

theorem served_of_act {s t : Serving} {a : ServeAction}
    (h : s.act instantMax limits ripe a = some t) : s.served = true := by
  unfold Serving.act at h
  split at h
  · cases h
  · rename_i hresolved
    split at h
    · cases h
    · rename_i hrunning
      unfold Serving.served
      rw [Bool.and_eq_true, Bool.not_eq_true']
      refine ⟨by simpa using hresolved, ?_⟩
      split
      · rename_i p hp
        exact absurd hp (hrunning p)
      · rfl

/-- The actions that are about the body of the last response. -/
def aboutBody : ServeAction → Bool
  | .bodyEnd | .bodyFail | .reject | .handOver _ => true
  | _ => false

/-- Everything else leaves it alone. -/
theorem next_keeps {s t : Serving} {a : ServeAction} (ha : aboutBody a = false)
    (h : s.next instantMax limits ripe a = some t) :
    lastEnded t.wire = lastEnded s.wire ∧ t.outBody = s.outBody := by
  cases a with
  | bodyEnd | bodyFail | reject | handOver => cases ha
  | wait till | poll expired =>
      obtain ⟨u, -, rfl⟩ := Option.map_eq_some_iff.mp h
      exact ⟨rfl, rfl⟩
  | requestBodyFinished flag | writeInterim n | resolve upgraded =>
      cases h
      exact ⟨rfl, rfl⟩
  | read | call | enterHandler | refuse =>
      simp only [Serving.next] at h
      split at h
      · cases h
        exact ⟨rfl, rfl⟩
      · cases h
  | writeRefusal n =>
      simp only [Serving.next] at h
      split at h
      · cases h
        exact ⟨rfl, rfl⟩
      · cases h
  | flush =>
      cases h
      refine ⟨?_, rfl⟩
      cases hwire : s.wire with
      | nil => rfl
      | cons r rest =>
          simp only [lastEnded, List.map_cons, List.head?_cons, Option.map_some, Final.flushed]
          split <;> rfl
  | writeFinal k n =>
      simp only [Serving.next] at h
      split at h
      · rename_i r hr
        split at h
        · cases h
        · cases h
          refine ⟨?_, rfl⟩
          cases hwire : s.wire with
          | nil => rfl
          | cons first rest =>
              rw [hwire] at hr
              cases k with
              | zero =>
                  cases hr
                  rfl
              | succ k => rfl
      · cases h

variable (instantMax limits ripe) in
/-- **A poll of the body is an action of `Serving`**, or none: its end comes
once, from a body that had frames left. -/
theorem framed_serves {s : Serving} {b : HyperOutBody} (hended : lastEnded s.wire = some b.done)
    (hout : s.outBody = !b.done) (hserved : s.served = true) (a : StreamAnswer) :
    s.framed (b.pollFrame s.timed.clock a).1 (b.pollFrame s.timed.clock a).2.1.done
        (b.pollFrame s.timed.clock a).2.2 = s ∨
      ∃ e, s.act instantMax limits ripe e
        = some (s.framed (b.pollFrame s.timed.clock a).1 (b.pollFrame s.timed.clock a).2.1.done
          (b.pollFrame s.timed.clock a).2.2) := by
  obtain ⟨body, done⟩ := b
  obtain ⟨timed, future, reqVersion, wire, outBody, refusal, resolved⟩ := s
  obtain ⟨⟨bytes, ended, complete⟩, rest, rfl, rfl⟩ :
      ∃ r rest, wire = r :: rest ∧ r.ended = done := by
    cases wire with
    | nil => cases hended
    | cons r rest => exact ⟨r, rest, rfl, Option.some.inj hended⟩
  simp only at hout
  subst hout
  cases ended with
  | true => exact .inl rfl
  | false =>
      cases body with
      | empty => exact .inr ⟨.bodyEnd, act_of_served hserved _⟩
      | full x =>
          refine .inr ⟨.bodyEnd, (act_of_served hserved _).trans ?_⟩
          by_cases hx : x = []
          · simp only [HyperOutBody.pollFrame, hx, if_true]
            rfl
          · simp only [HyperOutBody.pollFrame, if_neg hx]
            rfl
      | stream =>
          cases a with
          | pending | item => exact .inl rfl
          | ended => exact .inr ⟨.bodyEnd, act_of_served hserved _⟩
          | failed => exact .inr ⟨.bodyFail, act_of_served hserved _⟩
          | panic => exact .inr ⟨.resolve false, act_of_served hserved _⟩

/-- What is left of the body is what the rest knows, unless hyper is done. -/
theorem framed_held {s : Serving} {b : HyperOutBody} (hended : lastEnded s.wire = some b.done)
    (a : StreamAnswer)
    (hresolved : (s.framed (b.pollFrame s.timed.clock a).1 (b.pollFrame s.timed.clock a).2.1.done
      (b.pollFrame s.timed.clock a).2.2).resolved = false) :
    lastEnded (s.framed (b.pollFrame s.timed.clock a).1 (b.pollFrame s.timed.clock a).2.1.done
        (b.pollFrame s.timed.clock a).2.2).wire = some (b.pollFrame s.timed.clock a).2.1.done ∧
      (s.framed (b.pollFrame s.timed.clock a).1 (b.pollFrame s.timed.clock a).2.1.done
        (b.pollFrame s.timed.clock a).2.2).outBody = !(b.pollFrame s.timed.clock a).2.1.done := by
  obtain ⟨body, done⟩ := b
  obtain ⟨timed, future, reqVersion, wire, outBody, refusal, resolved⟩ := s
  obtain ⟨⟨bytes, ended, complete⟩, rest, rfl, rfl⟩ :
      ∃ r rest, wire = r :: rest ∧ r.ended = done := by
    cases wire with
    | nil => cases hended
    | cons r rest => exact ⟨r, rest, rfl, Option.some.inj hended⟩
  cases ended with
  | true => exact ⟨rfl, rfl⟩
  | false =>
      cases body with
      | empty => exact ⟨rfl, rfl⟩
      | full x => by_cases hx : x = [] <;> simp [HyperOutBody.pollFrame, HyperOutBody.finish,
          Serving.framed, lastEnded, hx]
      | stream =>
          cases a with
          | pending | item | ended => exact ⟨rfl, rfl⟩
          | failed | panic => cases hresolved

/-! ## 4. Whole runs -/

/-- What holds of every state of a run. -/
structure Sound (limits : Timeouts) (s : Bodied) : Prop where
  inv : s.serving.resolved = false → Serving.Inv limits s.serving
  held : s.serving.resolved = false → Held s
  gives : ∀ b, s.body = some b → Gives s.given s.answers s.handed b

theorem sound_start (limits : Timeouts) (now : Nat) : Sound limits (start now) where
  inv _ := .start limits now
  held _ := rfl
  gives b hb := by cases hb

theorem resolved_of_served {s : Serving} (h : s.served = true) : s.resolved = false := by
  unfold Serving.served at h
  rw [Bool.and_eq_true, Bool.not_eq_true'] at h
  exact h.1

theorem inv_of_act {s t : Serving} (h : s.resolved = false → Serving.Inv limits s)
    {a : ServeAction} (ha : s.act instantMax limits ripe a = some t) :
    t.resolved = false → Serving.Inv limits t := by
  have hrun : s.run instantMax limits ripe [a] = some t := by simp [Serving.run, ha]
  exact Serving.Inv.run h hrun

theorem act_serve (s : Bodied) {a : ServeAction} (ha : aboutBody a = false) :
    s.act instantMax limits ripe (.serve a)
      = (s.serving.act instantMax limits ripe a).map fun t => { s with serving := t } := by
  cases a <;> first | rfl | cases ha

/-- A response without a body: hyper held none, since the handler ran. -/
theorem Sound.reject {s : Bodied} (h : Sound limits s) {t : Serving}
    (ha : s.serving.act instantMax limits ripe .reject = some t) :
    Sound limits ⟨t, some (.new .empty), .empty, [], []⟩ where
  inv := inv_of_act h.inv ha
  held _ := by
    have hserved := served_of_act ha
    have hinv := h.inv (resolved_of_served hserved)
    rw [act_of_served hserved] at ha
    simp only [Serving.next] at ha
    split at ha
    · rename_i hrunning
      cases ha
      refine ⟨rfl, ?_⟩
      have hphase : s.serving.timed.clock.phase = .handler := hinv.wired.running.mp hrunning
      exact hinv.wired.outBody_eq_false (.inl (by simp [hphase]))
    · cases ha
  gives b hb := by
    cases hb
    exact gives_new .empty

/-- A response whose body may have frames. -/
theorem Sound.handOver {s : Bodied} (h : Sound limits s) {t : Serving}
    {out : PhaseClock.HandedOver}
    (ha : s.serving.act instantMax limits ripe (.handOver out) = some t) :
    Sound limits
      ⟨t, if out.isHeadRequest then none else some (.new out.body), out.body, [], []⟩ where
  inv := inv_of_act h.inv ha
  held _ := by
    rw [act_of_served (served_of_act ha)] at ha
    simp only [Serving.next] at ha
    split at ha
    · cases ha
      cases hhead : out.isHeadRequest with
      | true => simp [Held]
      | false => exact ⟨rfl, rfl⟩
    · cases ha
  gives b hb := by
    simp only at hb
    split at hb
    · cases hb
    · cases hb
      exact gives_new out.body

/-- What one action preserves, and what it is to `Serving`. -/
theorem Sound.act {s s' : Bodied} (h : Sound limits s) {a : BodiedAction}
    (ha : s.act instantMax limits ripe a = some s') :
    Sound limits s' ∧ (s'.serving = s.serving ∨
      ∃ e, s.serving.act instantMax limits ripe e = some s'.serving) := by
  cases a with
  | serve a =>
      cases hbody : aboutBody a with
      | false =>
          rw [act_serve s hbody] at ha
          obtain ⟨t, ht, rfl⟩ := Option.map_eq_some_iff.mp ha
          have hserved := served_of_act ht
          have hheld := h.held (resolved_of_served hserved)
          obtain ⟨hlast, hout⟩ := next_keeps hbody (act_of_served hserved a ▸ ht)
          refine ⟨⟨inv_of_act h.inv ht, fun _ => ?_, h.gives⟩, .inr ⟨a, ht⟩⟩
          unfold Held at hheld ⊢
          simp only
          split
          · rename_i b hb
            rw [hb] at hheld
            exact ⟨hlast.trans hheld.1, hout.trans hheld.2⟩
          · rename_i hb
            rw [hb] at hheld
            exact hout.trans hheld
      | true =>
          cases a with
          | bodyEnd | bodyFail => cases ha
          | reject =>
              obtain ⟨t, ht, rfl⟩ := Option.map_eq_some_iff.mp ha
              exact ⟨h.reject ht, .inr ⟨_, ht⟩⟩
          | handOver out =>
              obtain ⟨t, ht, rfl⟩ := Option.map_eq_some_iff.mp ha
              exact ⟨h.handOver ht, .inr ⟨_, ht⟩⟩
          | _ => cases hbody
  | pollFrame a =>
      unfold Bodied.act at ha
      cases hb : s.body with
      | none =>
          rw [hb] at ha
          cases ha
      | some b =>
          rw [hb] at ha
          simp only at ha
          split at ha
          · rename_i hserved
            cases ha
            have hheld := h.held (resolved_of_served hserved)
            rw [Held, hb] at hheld
            have hserves := framed_serves instantMax limits ripe hheld.1 hheld.2 hserved a
            refine ⟨⟨?_, fun hresolved => framed_held hheld.1 a hresolved, fun b' hb' => ?_⟩,
              hserves⟩
            · rcases hserves with hsame | ⟨e, he⟩
              · intro hresolved
                rw [hsame] at hresolved ⊢
                exact h.inv hresolved
              · exact inv_of_act h.inv he
            · cases hb'
              exact (h.gives b hb).pollFrame _ a
          · cases ha

/-- What a whole run preserves, and the run of `Serving` that it is. -/
theorem Sound.run {s s' : Bodied} (h : Sound limits s) {actions : List BodiedAction}
    (hrun : s.run instantMax limits ripe actions = some s') :
    Sound limits s' ∧
      ∃ plain, s.serving.run instantMax limits ripe plain = some s'.serving := by
  induction actions generalizing s with
  | nil =>
      cases hrun
      exact ⟨h, [], rfl⟩
  | cons a actions ih =>
      obtain ⟨mid, hmid, hrest⟩ := Option.bind_eq_some_iff.mp hrun
      obtain ⟨hsound, hstep⟩ := h.act hmid
      obtain ⟨hsound', plain, hplain⟩ := ih hsound hrest
      refine ⟨hsound', ?_⟩
      rcases hstep with hsame | ⟨e, he⟩
      · exact ⟨plain, hsame ▸ hplain⟩
      · exact ⟨e :: plain, by rw [Serving.run, he]; exact hplain⟩

/-- **The body keeps to what the rest takes for granted.** However hyper polls
the bodies it is handed, in between everything else that happens and also
behind their end, the run is one of `Serving`: the end of a body is noted once,
when it comes, and by nobody else. As long as hyper is not done, `outBody` says
whether the body has frames left, as `is_end_stream` does. Of a stream the
frames are the items, each handed on as it came, and the body is at its end
when the stream has ended or failed. Of a body in one piece they are a
beginning, with as many bytes to come as `size_hint` announces, none when it is
over. -/
theorem served_with_body {now : Nat} {actions : List BodiedAction} {s : Bodied}
    (hrun : (start now).run instantMax limits ripe actions = some s) :
    (∃ plain, (Serving.start now).run instantMax limits ripe plain = some s.serving) ∧
    ∀ b, s.body = some b →
      (s.serving.resolved = false → s.serving.outBody = !b.isEndStream) ∧
      (b.sizeHint = none → s.given = .stream ∧
        s.handed = s.answers.flatMap StreamAnswer.items ∧
        b.isEndStream = s.answers.any StreamAnswer.ends) ∧
      (∀ n, b.sizeHint = some n → ∃ rest, s.handed.flatten ++ rest = s.given.bytes ∧
        s.given ≠ .stream ∧ rest.length = n ∧ (b.isEndStream = true → n = 0)) := by
  obtain ⟨hsound, hplain⟩ := (sound_start limits now).run hrun
  refine ⟨hplain, fun b hb => ⟨fun hresolved => ?_, fun hnone => ?_, fun n hn => ?_⟩⟩
  · have hheld := hsound.held hresolved
    rw [Held, hb] at hheld
    exact hheld.2
  · have hgives := hsound.gives b hb
    have hbody : b.body = .stream := by
      unfold HyperOutBody.sizeHint at hnone
      split at hnone
      · cases hnone
      · cases hnone
      · assumption
    have hgiven := hgives.stream.mp hbody
    exact ⟨hgiven, hgives.yielded hgiven, hgives.ended hgiven⟩
  · have hgives := hsound.gives b hb
    have hpiece : b.body ≠ .stream ∧ b.body.bytes.length = n := by
      unfold HyperOutBody.sizeHint at hn
      cases hbody : b.body with
      | stream => rw [hbody] at hn; cases hn
      | empty => rw [hbody] at hn; cases hn; exact ⟨by simp, rfl⟩
      | full x => rw [hbody] at hn; cases hn; exact ⟨by simp, rfl⟩
    have hno : s.given ≠ .stream := fun hgiven => hpiece.1 (hgives.stream.mpr hgiven)
    refine ⟨b.body.bytes, hgives.rest hno, hno, hpiece.2, fun hend => ?_⟩
    rw [← hpiece.2, hgives.spent hend]
    rfl

end Steps

/-- A response with the body `out`, with what hyper does with it. -/
def oneResponse (out : ResponseBody) (rest : List BodiedAction) : List BodiedAction :=
  [.serve (.read [0x47]), .serve .call, .serve (.enterHandler .http11),
    .serve (.handOver ⟨false, false, out⟩), .serve (.writeFinal 0 40)] ++ rest

/-- A body in one piece, which hyper polls once more than it has frames. -/
def onePiece : List BodiedAction :=
  oneResponse (.full [0x68, 0x69])
    [.pollFrame .pending, .pollFrame .pending, .serve (.writeFinal 0 2), .serve .flush]

/-- A stream with two items, which is not ready in between. -/
def twoItems : List BodiedAction :=
  oneResponse .stream
    [.pollFrame (.item [0x68]), .pollFrame .pending, .pollFrame (.item [0x69]),
      .pollFrame .ended, .serve (.writeFinal 0 13), .serve .flush]

theorem served_with_body_polled :
    (∃ s, (start 0).run (2 ^ 63) .default (fun _ _ _ => false) onePiece = some s ∧
      s.handed = [[0x68, 0x69]] ∧ s.serving.wire = [⟨42, true, true⟩] ∧
      ∃ plain, (Serving.start 0).run (2 ^ 63) .default (fun _ _ _ => false) plain
        = some s.serving) ∧
    ∃ s, (start 0).run (2 ^ 63) .default (fun _ _ _ => false) twoItems = some s ∧
      s.handed = [[0x68], [0x69]] ∧ s.serving.wire = [⟨53, true, true⟩] ∧
      s.handed = s.answers.flatMap StreamAnswer.items := by
  have hend : ((start 0).run (2 ^ 63) .default (fun _ _ _ => false) onePiece).map
      (fun s => (s.handed, s.serving.wire)) = some ([[0x68, 0x69]], [⟨42, true, true⟩]) := by
    decide +kernel
  have hends : ((start 0).run (2 ^ 63) .default (fun _ _ _ => false) twoItems).map
      (fun s => (s.handed, s.serving.wire, s.body))
        = some ([[0x68], [0x69]], [⟨53, true, true⟩], some ⟨.stream, true⟩) := by
    decide +kernel
  obtain ⟨s, hrun, hs⟩ := Option.map_eq_some_iff.mp hend
  obtain ⟨hhanded, hwire⟩ := Prod.mk.inj hs
  refine ⟨⟨s, hrun, hhanded, hwire, (served_with_body hrun).1⟩, ?_⟩
  obtain ⟨t, htrun, ht⟩ := Option.map_eq_some_iff.mp hends
  obtain ⟨hthanded, ht⟩ := Prod.mk.inj ht
  obtain ⟨htwire, htbody⟩ := Prod.mk.inj ht
  obtain ⟨-, hof⟩ := served_with_body htrun
  obtain ⟨-, hyielded, -⟩ := (hof _ htbody).2.1 rfl
  exact ⟨t, htrun, hthanded, htwire, hyielded⟩

end Bodied

end ArmatureH1
