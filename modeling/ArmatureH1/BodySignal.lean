/-
ArmatureH1.BodySignal — whose end `IoState.body_finished` reports.

A connection makes one body after the other over one `IoState`, and a handler
may keep any of them: a kept body is polled and dropped whenever its holder
likes, long after its request was answered. Each carries the generation it was
made with, and the flag of the `IoState` is set only by the body whose
generation is current.

A poll either leaves the signal alone or ends the body and gives it once
(`pollChunk_signals`). Over a run the generations of the bodies are their
places in the order they were made, so with fewer than 2^64 of them no two are
the same, and the flag is that of the last (`bodyFinished_iff_last_finished`).
-/
import ArmatureH1.BodyRun

namespace ArmatureH1

open ByteString BodyState

/-! ## 1. What a step does to the signal -/

/-- Nothing happened to the signal or to the body's end. -/
structure Quiet (sh sh' : Shared) (s s' : BodyState) : Prop where
  current : sh'.io.bodyGeneration = sh.io.bodyGeneration
  flag : sh'.io.bodyFinished = sh.io.bodyFinished
  kind : s'.kind = s.kind
  generation : s'.generation = s.generation
  done : s'.done = s.done
  notified : s'.notified = s.notified

/-- The body has ended, and has said so under its own generation. -/
structure Told (sh sh' : Shared) (s s' : BodyState) : Prop where
  current : sh'.io.bodyGeneration = sh.io.bodyGeneration
  flag : sh'.io.bodyFinished = (sh.io.bodyFinished || s.generation == sh.io.bodyGeneration)
  kind : s'.kind = s.kind
  generation : s'.generation = s.generation
  done : s'.done = true
  notified : s'.notified = true

theorem Quiet.refl (sh : Shared) (s : BodyState) : Quiet sh sh s s := ⟨rfl, rfl, rfl, rfl, rfl, rfl⟩

theorem Quiet.trans {sh sh₁ sh₂ : Shared} {s s₁ s₂ : BodyState} (h : Quiet sh sh₁ s s₁)
    (h' : Quiet sh₁ sh₂ s₁ s₂) : Quiet sh sh₂ s s₂ :=
  ⟨h'.current.trans h.current, h'.flag.trans h.flag, h'.kind.trans h.kind,
    h'.generation.trans h.generation, h'.done.trans h.done, h'.notified.trans h.notified⟩

theorem Quiet.told {sh sh₁ sh₂ : Shared} {s s₁ s₂ : BodyState} (h : Quiet sh sh₁ s s₁)
    (h' : Told sh₁ sh₂ s₁ s₂) : Told sh sh₂ s s₂ where
  current := h'.current.trans h.current
  flag := by rw [h'.flag, h.flag, h.generation, h.current]
  kind := h'.kind.trans h.kind
  generation := h'.generation.trans h.generation
  done := h'.done
  notified := h'.notified

theorem finishBody_flag (st : IoState) (g : Nat) :
    (st.finishBody g).bodyFinished = (st.bodyFinished || g == st.bodyGeneration) := by
  unfold IoState.finishBody
  split
  · rename_i h
    simp [h]
  · rename_i h
    simp [h]

theorem told_finish (sh : Shared) {s : BodyState} (h : s.notified = false) :
    Told sh (finish sh s).1 s (finish sh s).2 := by
  unfold finish notifyFinished
  rw [if_neg (by simp [h])]
  exact ⟨finishBody_current _ _, finishBody_flag _ _, rfl, rfl, rfl, rfl⟩

theorem told_fail (sh : Shared) {s : BodyState} (h : s.notified = false) :
    Told sh (fail sh s).1 s (fail sh s).2 := by
  unfold fail notifyFinished
  rw [if_neg (by simp [h])]
  exact ⟨finishBody_current _ _, finishBody_flag _ _, rfl, rfl, rfl, rfl⟩

theorem pushBack_flag (st : IoState) (b : Bytes) :
    (st.pushBack b).bodyFinished = st.bodyFinished := by
  unfold IoState.pushBack
  split <;> rfl

theorem told_finishAndReturn (sh : Shared) {s : BodyState} (h : s.notified = false) :
    Told sh (finishAndReturn sh s).1 s (finishAndReturn sh s).2 := by
  have hfinish := told_finish sh h
  unfold finishAndReturn
  exact ⟨(pushBack_current _ _).trans hfinish.current, (pushBack_flag _ _).trans hfinish.flag,
    hfinish.kind, hfinish.generation, hfinish.done, hfinish.notified⟩

theorem quiet_draw (max : Nat) (sh : Shared) (s : BodyState) :
    Quiet sh (draw max sh s).1 s (draw max sh s).2 := by
  unfold draw
  split
  · exact ⟨rfl, rfl, rfl, rfl, rfl, rfl⟩
  · exact Quiet.refl sh s

theorem draw_remaining (max : Nat) (sh : Shared) (s : BodyState) :
    (draw max sh s).2.remaining = s.remaining := by
  unfold draw
  split <;> rfl

/-! ## 2. A poll -/

/-- A result that leaves the body open: of a body with a length, less than all
that was owed. -/
def LeavesOpen (r : PollChunk) (s s' : BodyState) : Prop :=
  (r = .pending ∨ ∃ y, r = .chunk y) ∧
    ((∃ n, s.kind = .length n) → 0 < s.remaining →
      r.bytes.length + s'.remaining = s.remaining ∧ 0 < s'.remaining)

/-- A result that ends the body: its end, an error, or the last bytes of a
body with a length. -/
def EndsBody (r : PollChunk) (s : BodyState) : Prop :=
  r = .ended ∨ (∃ e, r = .error e) ∨
    ∃ y n, r = .chunk y ∧ s.kind = .length n ∧ y.length = s.remaining

/-- What one poll of an open body comes to. -/
def Signals (r : PollChunk) (sh sh' : Shared) (s s' : BodyState) : Prop :=
  (Quiet sh sh' s s' ∧ LeavesOpen r s s') ∨ (Told sh sh' s s' ∧ EndsBody r s)

/-- What one round of the loop comes to: a result, or a read that takes
nothing from what is owed. -/
def RoundSignals : Round → Shared → BodyState → Prop
  | (some r, sh', s'), sh, s => Signals r sh sh' s s'
  | (none, sh', s'), sh, s => Quiet sh sh' s s' ∧ s'.remaining = s.remaining

theorem signals_failWith {sh : Shared} {s : BodyState} (h : s.notified = false) (e : BodyError) :
    Signals (failWith e sh s).1 sh (failWith e sh s).2.1 s (failWith e sh s).2.2 :=
  Or.inr ⟨told_fail sh h, Or.inr (Or.inl ⟨e, rfl⟩)⟩

/-- A poll that begins with steps that leave the signal alone. -/
theorem Signals.after {r : PollChunk} {sh sh₁ sh₂ : Shared} {s s₁ s₂ : BodyState}
    (hquiet : Quiet sh sh₁ s s₁) (hremaining : s₁.remaining = s.remaining)
    (h : Signals r sh₁ sh₂ s₁ s₂) : Signals r sh sh₂ s s₂ := by
  rcases h with ⟨hq, hresult, hlength⟩ | ⟨ht, hend⟩
  · refine Or.inl ⟨hquiet.trans hq, hresult, fun hkind hpos => ?_⟩
    rw [← hquiet.kind] at hkind
    rw [← hremaining] at hpos ⊢
    exact hlength hkind hpos
  · refine Or.inr ⟨hquiet.told ht, ?_⟩
    rcases hend with hend | hend | ⟨y, n, hy, hkind, hlen⟩
    · exact Or.inl hend
    · exact Or.inr (Or.inl hend)
    · exact Or.inr (Or.inr ⟨y, n, hy, hquiet.kind ▸ hkind, hlen.trans hremaining⟩)

theorem lengthRound_signals {sh : Shared} {s : BodyState} {n : Nat} (hkind : s.kind = .length n)
    (h : s.notified = false) : RoundSignals (lengthRound sh s) sh s := by
  unfold lengthRound
  generalize hdrawn : (if s.remaining > 0 then draw s.remaining sh s else (sh, s)) = drawn
  obtain ⟨sh₁, s₁⟩ := drawn
  have hquiet : Quiet sh sh₁ s s₁ ∧ s₁.remaining = s.remaining := by
    split at hdrawn
    · have hq := quiet_draw s.remaining sh s
      have hr := draw_remaining s.remaining sh s
      rw [hdrawn] at hq hr
      exact ⟨hq, hr⟩
    · cases hdrawn
      exact ⟨Quiet.refl sh s, rfl⟩
  obtain ⟨hquiet, hremaining⟩ := hquiet
  have hnotified : s₁.notified = false := hquiet.notified.trans h
  simp only
  split
  · -- some bytes are there: the last ones end the body
    have hlen : (s₁.buffered.take (min s₁.buffered.length s₁.remaining)).length
        = min s₁.buffered.length s₁.remaining := by
      rw [List.length_take]
      exact Nat.min_eq_left (Nat.min_le_left _ _)
    refine Signals.after hquiet hremaining ?_
    by_cases hzero : s₁.remaining - min s₁.buffered.length s₁.remaining = 0
    · simp only [hzero, if_true]
      have htaken : Quiet sh₁ sh₁ s₁ { s₁ with
          buffered := s₁.buffered.drop (min s₁.buffered.length s₁.remaining), remaining := 0 } :=
        ⟨rfl, rfl, rfl, rfl, rfl, rfl⟩
      refine Or.inr ⟨htaken.told (told_finishAndReturn _ hnotified),
        Or.inr (Or.inr ⟨_, n, rfl, hquiet.kind.trans hkind, ?_⟩)⟩
      rw [hlen]
      omega
    · simp only [hzero, if_false]
      refine Or.inl ⟨⟨rfl, rfl, rfl, rfl, rfl, rfl⟩, Or.inr ⟨_, rfl⟩, fun _ _ => ⟨?_, ?_⟩⟩
      · show (s₁.buffered.take _).length + (s₁.remaining - _) = _
        rw [hlen]
        omega
      · exact Nat.pos_of_ne_zero hzero
  · split
    · have htold := told_finish sh₁ hnotified
      refine Signals.after hquiet hremaining (Or.inr ⟨?_, Or.inl rfl⟩)
      exact ⟨htold.current, htold.flag, htold.kind, htold.generation, htold.done, htold.notified⟩
    · exact ⟨hquiet, hremaining⟩

theorem chunkedRound_signals {sh : Shared} {s : BodyState} (hkind : s.kind = .chunked)
    (h : s.notified = false) (turns : Nat) : RoundSignals (chunkedRound turns sh s) sh s := by
  induction turns generalizing sh s with
  | zero => exact ⟨Quiet.refl sh s, rfl⟩
  | succ turns ih =>
      unfold chunkedRound
      have hquiet := quiet_draw sh.io.buf.length sh s
      have hremaining := draw_remaining sh.io.buf.length sh s
      generalize draw sh.io.buf.length sh s = drawn at hquiet hremaining
      obtain ⟨sh₁, s₁⟩ := drawn
      simp only at hquiet hremaining ⊢
      have hnotified : s₁.notified = false := hquiet.notified.trans h
      have hopen : ¬ ∃ n, s₁.kind = .length n := by
        rintro ⟨n, hn⟩
        rw [hquiet.kind, hkind] at hn
        cases hn
      split
      · exact ⟨hquiet, hremaining⟩
      · rename_i d _
        rcases d.poll s₁.buffered with ⟨r, d', rest⟩
        -- the decoder and the bytes it took are no part of the signal
        have hpolled : ∀ t, Quiet sh sh₁ s
            { s₁ with decoder := some d', buffered := rest, trailers := t } :=
          fun t => hquiet.trans ⟨rfl, rfl, rfl, rfl, rfl, rfl⟩
        cases r with
        | error e =>
            exact Signals.after (hpolled _) hremaining (signals_failWith (s := { s₁ with
              decoder := some d', buffered := rest }) hnotified (.chunked e))
        | ok event =>
            cases event with
            | none => exact ⟨hpolled _, hremaining⟩
            | some event =>
                cases event with
                | data x =>
                    exact Signals.after (hpolled _) hremaining
                      (Or.inl ⟨Quiet.refl _ _, Or.inr ⟨x, rfl⟩, fun hlen => absurd hlen hopen⟩)
                | ended =>
                    exact Signals.after (hpolled _) hremaining
                      (Or.inr ⟨told_finishAndReturn _ hnotified, Or.inl rfl⟩)
                | trailers t =>
                    have hnext := @ih sh₁
                      { s₁ with decoder := some d', buffered := rest, trailers := some t }
                      (hquiet.kind.trans hkind) hnotified
                    show RoundSignals (chunkedRound turns sh₁ _) sh s
                    generalize chunkedRound turns sh₁ _ = out at hnext ⊢
                    obtain ⟨r, sh₂, s₂⟩ := out
                    cases r with
                    | some r => exact Signals.after (hpolled _) hremaining hnext
                    | none => exact ⟨(hpolled _).trans hnext.1, hnext.2.trans hremaining⟩

theorem round_signals (sh : Shared) {s : BodyState} (h : s.notified = false) :
    RoundSignals (round sh s) sh s := by
  unfold BodyState.round
  cases hkind : s.kind with
  | none => exact Or.inr ⟨told_finish sh h, Or.inl rfl⟩
  | length n => exact lengthRound_signals hkind h
  | chunked => exact chunkedRound_signals hkind h 2

/-- The loop: rounds that read, and then one that comes to something. -/
theorem pollLoop_signals {sh : Shared} {s : BodyState} (h : s.notified = false)
    (reads : List ReadAnswer) :
    Signals (pollLoop reads sh s).1 sh (pollLoop reads sh s).2.1 s (pollLoop reads sh s).2.2 := by
  induction reads generalizing sh s with
  | nil =>
      have hround := round_signals sh h
      unfold pollLoop
      generalize round sh s = out at hround
      obtain ⟨r, sh₁, s₁⟩ := out
      cases r with
      | some r => exact hround
      | none =>
          refine Or.inl ⟨hround.1, Or.inl rfl, fun _ hpos => ?_⟩
          show 0 + s₁.remaining = s.remaining ∧ 0 < s₁.remaining
          rw [hround.2]
          exact ⟨Nat.zero_add _, hpos⟩
  | cons answer reads ih =>
      have hround := round_signals sh h
      unfold pollLoop
      generalize round sh s = out at hround
      obtain ⟨r, sh₁, s₁⟩ := out
      cases r with
      | some r => exact hround
      | none =>
          obtain ⟨hquiet, hremaining⟩ := hround
          have hnotified : s₁.notified = false := hquiet.notified.trans h
          cases answer with
          | pending =>
              refine Or.inl ⟨hquiet, Or.inl rfl, fun _ hpos => ?_⟩
              show 0 + s₁.remaining = s.remaining ∧ 0 < s₁.remaining
              rw [hremaining]
              exact ⟨Nat.zero_add _, hpos⟩
          | err => exact Signals.after hquiet hremaining (signals_failWith hnotified .io)
          | ok b =>
              simp only
              split
              · exact Signals.after hquiet hremaining (signals_failWith hnotified .incomplete)
              · have hfilled : Quiet sh₁ { sh₁ with io := (sh₁.io.fill b).2 } s₁
                    { s₁ with buffered := s₁.buffered ++ (sh₁.io.fill b).1 } :=
                  ⟨rfl, rfl, rfl, rfl, rfl, rfl⟩
                exact Signals.after (hquiet.trans hfilled) hremaining (ih hnotified)

theorem pollSendContinue_flag (flush : FlushAnswer) (writes : List WriteAnswer) (st : IoState) :
    (st.pollSendContinue flush writes).2.bodyGeneration = st.bodyGeneration ∧
      (st.pollSendContinue flush writes).2.bodyFinished = st.bodyFinished := by
  induction writes generalizing st with
  | nil =>
      unfold IoState.pollSendContinue
      split <;> exact ⟨rfl, rfl⟩
  | cons answer writes ih =>
      unfold IoState.pollSendContinue
      split
      · exact ⟨rfl, rfl⟩
      · cases answer with
        | pending => exact ⟨rfl, rfl⟩
        | err => exact ⟨rfl, rfl⟩
        | ok n =>
            simp only
            split
            · exact ⟨rfl, rfl⟩
            · exact ih (st.sendContinue n)

/-- **One poll of an open body** leaves the signal alone and the body open, or
ends the body and gives the signal. -/
theorem pollChunk_signals (sh : Shared) {s : BodyState} (hopen : s.done = false)
    (h : s.notified = false) (a : PollAnswers) :
    Signals (pollChunk a sh s).1 sh (pollChunk a sh s).2.1 s (pollChunk a sh s).2.2 := by
  unfold pollChunk
  rw [if_neg (by simp [hopen])]
  split
  · exact pollLoop_signals h a.reads
  · have hflag := pollSendContinue_flag a.flush a.writes sh.io
    generalize sh.io.pollSendContinue a.flush a.writes = sent at hflag
    obtain ⟨result, io⟩ := sent
    have hquiet : ∀ c, Quiet sh { sh with io := io } s { s with continueSent := c } :=
      fun c => ⟨hflag.1, hflag.2, rfl, rfl, rfl, rfl⟩
    cases result with
    | pending =>
        refine Or.inl ⟨hquiet _, Or.inl rfl, fun _ hpos => ⟨Nat.zero_add _, hpos⟩⟩
    | err => exact Signals.after (hquiet _) rfl (signals_failWith h .io)
    | ready =>
        exact Signals.after (hquiet true) rfl
          (pollLoop_signals (s := { s with continueSent := true }) h a.reads)

/-! ## 3. All the bodies of a connection -/

/-- A body a connection has made, what its polls returned, and whether its
holder has dropped it. -/
structure Held where
  state : BodyState
  log : List PollChunk
  dropped : Bool

namespace Held

/-- The body was empty from the start, all it owed was delivered, its end was
reported, or a poll failed. -/
def ended (b : Held) : Prop :=
  b.state.kind = .none ∨ b.state.kind = .length (PollLog.delivered b.log).length ∨
    PollChunk.ended ∈ b.log ∨ PollLog.failed b.log

/-- Nothing can read more of the body. -/
def finished (b : Held) : Prop := b.ended ∨ b.dropped = true

/-- The `i`th body a connection made, as its own record has it. -/
structure Ok (i : Nat) (b : Held) : Prop where
  generation : b.state.generation = (i + 1) % 2 ^ 64
  -- a body says that it has ended when it does, not later
  notified : b.dropped = false → b.state.notified = b.state.done
  done : b.state.done = true ↔ b.ended
  owed : ∀ n, b.state.kind = .length n → b.state.done = false →
    (PollLog.delivered b.log).length + b.state.remaining = n ∧ 0 < b.state.remaining

end Held

/-- What a connection shares with its bodies, and all the bodies it has made. -/
structure Bodies where
  shared : Shared
  made : List Held

/-- What can happen to the bodies of a connection. -/
inductive BodiesEvent where
  /-- `serve` makes the body of the next request. -/
  | create (kind : BodyKind) (needsContinue : Bool) (limits : Limits)
  /-- Whoever holds the `i`th body polls it. -/
  | poll (i : Nat) (a : PollAnswers)
  /-- Whoever holds the `i`th body drops it. -/
  | drop (i : Nat)
  /-- The connection works on what it shares with its bodies. -/
  | other (sh : Shared)

/-- A poll or the drop of the `i`th body. -/
def BodiesEvent.concerns (i : Nat) : BodiesEvent → Prop
  | .poll j _ => j = i
  | .drop j => j = i
  | _ => False

/-- The next request's body. -/
def BodiesEvent.isCreate : BodiesEvent → Bool
  | .create _ _ _ => true
  | _ => false

namespace Bodies

/-- A connection that has made no body. -/
def start (sh : Shared) : Bodies :=
  ⟨{ sh with io := { sh.io with bodyFinished := false, bodyGeneration := 0 } }, []⟩

/-- The new body of `Connection::serve`. -/
def create (kind : BodyKind) (needsContinue : Bool) (limits : Limits) (b : Bodies) : Bodies :=
  let io := { b.shared.io with
    pendingContinue := if needsContinue then continueBytes.length else 0
    bodyFinished := false }
  let (body, shared) := BodyState.new kind needsContinue limits ⟨io, false⟩
  ⟨shared, b.made ++ [⟨body, [], false⟩]⟩

/-- A poll of the `i`th body, unless it was dropped. -/
def pollBody (b : Bodies) (i : Nat) (a : PollAnswers) : Bodies :=
  match b.made[i]? with
  | none => b
  | some h =>
    if h.dropped then b
    else
      let (r, sh, s) := pollChunk a b.shared h.state
      ⟨sh, b.made.set i ⟨s, h.log ++ [r], false⟩⟩

/-- The drop of the `i`th body, unless it was dropped. -/
def dropBody (b : Bodies) (i : Nat) : Bodies :=
  match b.made[i]? with
  | none => b
  | some h =>
    if h.dropped then b
    else ⟨h.state.drop b.shared, b.made.set i { h with dropped := true }⟩

/-- One event. -/
def step (b : Bodies) : BodiesEvent → Bodies
  | .create kind needsContinue limits => b.create kind needsContinue limits
  | .poll i a => b.pollBody i a
  | .drop i => b.dropBody i
  -- the flag and the generation are the bodies' business only
  | .other sh =>
    ⟨{ sh with io := { sh.io with
        bodyFinished := b.shared.io.bodyFinished
        bodyGeneration := b.shared.io.bodyGeneration } }, b.made⟩

def run (sh : Shared) (events : List BodiesEvent) : Bodies := events.foldl step (start sh)

/-- A poll finds no body to poll, or polls the one it finds. -/
theorem pollBody_cases (b : Bodies) (i : Nat) (a : PollAnswers) :
    b.pollBody i a = b ∨
      ∃ h, b.made[i]? = some h ∧ h.dropped = false ∧
        b.pollBody i a = ⟨(pollChunk a b.shared h.state).2.1,
          b.made.set i ⟨(pollChunk a b.shared h.state).2.2,
            h.log ++ [(pollChunk a b.shared h.state).1], false⟩⟩ := by
  unfold pollBody
  split
  · exact Or.inl rfl
  · rename_i h hi
    split
    · exact Or.inl rfl
    · rename_i hdropped
      exact Or.inr ⟨h, hi, by simpa using hdropped, rfl⟩

/-- So with a drop. -/
theorem dropBody_cases (b : Bodies) (i : Nat) :
    b.dropBody i = b ∨
      ∃ h, b.made[i]? = some h ∧ h.dropped = false ∧
        b.dropBody i = ⟨h.state.drop b.shared, b.made.set i { h with dropped := true }⟩ := by
  unfold dropBody
  split
  · exact Or.inl rfl
  · rename_i h hi
    split
    · exact Or.inl rfl
    · rename_i hdropped
      exact Or.inr ⟨h, hi, by simpa using hdropped, rfl⟩

/-- An event of one body changes its record at most. -/
theorem made_of_concerns {b : Bodies} {e : BodiesEvent} {i : Nat} (he : e.concerns i) :
    (b.step e).made = b.made ∨ ∃ h, (b.step e).made = b.made.set i h := by
  cases e with
  | create => exact absurd he id
  | other => exact absurd he id
  | poll j a =>
      obtain rfl : j = i := he
      rcases pollBody_cases b j a with hsame | ⟨h, -, -, hpoll⟩
      · exact Or.inl (congrArg made hsame)
      · exact Or.inr ⟨_, congrArg made hpoll⟩
  | drop j =>
      obtain rfl : j = i := he
      rcases dropBody_cases b j with hsame | ⟨h, -, -, hdrop⟩
      · exact Or.inl (congrArg made hsame)
      · exact Or.inr ⟨_, congrArg made hdrop⟩

/-- What holds of the flag and of every body ever made. -/
structure Tracks (b : Bodies) : Prop where
  current : b.shared.io.bodyGeneration = b.made.length % 2 ^ 64
  bodies : ∀ (i : Nat) (h : Held), b.made[i]? = some h → h.Ok i
  flag : b.shared.io.bodyFinished = true ↔ ∃ h, b.made.getLast? = some h ∧ h.finished

/-- One body changes, and gives the signal or does not. Only the last one's
generation is the current one. -/
theorem Tracks.update {b : Bodies} (hb : b.Tracks) (hlen : b.made.length < 2 ^ 64) {i : Nat}
    {h h' : Held} (hi : b.made[i]? = some h) {sh : Shared} (told : Bool) (hok : h'.Ok i)
    (hcurrent : sh.io.bodyGeneration = b.shared.io.bodyGeneration)
    (hflag : sh.io.bodyFinished = (b.shared.io.bodyFinished ||
      (told && h.state.generation == b.shared.io.bodyGeneration)))
    (hfinished : h'.finished ↔ h.finished ∨ told = true) :
    Tracks ⟨sh, b.made.set i h'⟩ := by
  have hlt : i < b.made.length := (List.getElem?_eq_some_iff.mp hi).1
  refine ⟨?_, ?_, ?_⟩
  · show sh.io.bodyGeneration = (b.made.set i h').length % 2 ^ 64
    rw [hcurrent, hb.current, List.length_set]
  · intro j k hk
    simp only [List.getElem?_set] at hk
    split at hk
    · rename_i hij
      subst hij
      cases hk
      exact hok
    · exact hb.bodies j k hk
  · have hgeneration : h.state.generation = i + 1 := by
      rw [(hb.bodies i h hi).generation]
      exact Nat.mod_eq_of_lt (by omega)
    have hlast : b.shared.io.bodyGeneration = b.made.length := by
      rw [hb.current]
      exact Nat.mod_eq_of_lt hlen
    have hold := hb.flag
    show sh.io.bodyFinished = true ↔ ∃ k, (b.made.set i h').getLast? = some k ∧ k.finished
    rw [hflag, hgeneration, hlast, List.getLast?_eq_getElem?, List.length_set, List.getElem?_set]
    rw [List.getLast?_eq_getElem?] at hold
    by_cases hi' : i + 1 = b.made.length
    · have hidx : b.made.length - 1 = i := by omega
      rw [hidx, hi] at hold
      rw [hidx, if_pos rfl, if_pos hlt]
      simp only [Option.some.injEq, exists_eq_left'] at hold ⊢
      rw [hfinished, Bool.or_eq_true, hold]
      simp [hi']
    · have hidx : ¬ i = b.made.length - 1 := by omega
      rw [if_neg hidx, ← hold]
      simp [hi']

/-! ## 4. One event -/

theorem ended_concat {s : BodyState} {log : List PollChunk} {dropped : Bool} {r : PollChunk} :
    Held.ended ⟨s, log ++ [r], dropped⟩ ↔
      s.kind = .none ∨ s.kind = .length ((PollLog.delivered log).length + r.bytes.length) ∨
        (PollChunk.ended ∈ log ∨ r = .ended) ∨ (PollLog.failed log ∨ ∃ e, r = .error e) := by
  have hfailed : PollLog.failed (log ++ [r]) ↔ PollLog.failed log ∨ ∃ e, r = .error e := by
    simp [PollLog.failed, exists_or, eq_comm]
  rw [Held.ended, PollLog.delivered_concat, List.length_append, hfailed, List.mem_append,
    List.mem_singleton, eq_comm (a := PollChunk.ended)]

/-- A poll of an open body that leaves it open. -/
theorem ok_of_quiet {i : Nat} {h : Held} (hok : h.Ok i) (hopen : h.state.done = false)
    (hdropped : h.dropped = false) {sh sh' : Shared} {s : BodyState} {r : PollChunk}
    (hquiet : Quiet sh sh' h.state s) (hleaves : LeavesOpen r h.state s) :
    Held.Ok i ⟨s, h.log ++ [r], false⟩ ∧ ¬ Held.finished ⟨s, h.log ++ [r], false⟩ := by
  obtain ⟨hresult, hlength⟩ := hleaves
  have hnot : ¬ h.ended := by
    intro hended
    rw [hok.done.mpr hended] at hopen
    cases hopen
  have howed : ∀ n, s.kind = .length n →
      (PollLog.delivered h.log).length + r.bytes.length + s.remaining = n ∧ 0 < s.remaining := by
    intro n hn
    rw [hquiet.kind] at hn
    obtain ⟨hsum, hpos⟩ := hok.owed n hn hopen
    obtain ⟨hless, hrest⟩ := hlength ⟨n, hn⟩ hpos
    exact ⟨by omega, hrest⟩
  have hstill : ¬ Held.ended ⟨s, h.log ++ [r], false⟩ := by
    rw [ended_concat]
    rintro (hnone | hlen | (hlog | hr) | (hlog | ⟨e, hr⟩))
    · exact hnot (Or.inl (hquiet.kind ▸ hnone))
    · have := howed _ hlen
      omega
    · exact hnot (Or.inr (Or.inr (Or.inl hlog)))
    · rcases hresult with hr' | ⟨y, hr'⟩ <;> rw [hr'] at hr <;> cases hr
    · exact hnot (Or.inr (Or.inr (Or.inr hlog)))
    · rcases hresult with hr' | ⟨y, hr'⟩ <;> rw [hr'] at hr <;> cases hr
  refine ⟨⟨?_, ?_, ?_, ?_⟩, ?_⟩
  · exact hquiet.generation.trans hok.generation
  · intro _
    show s.notified = s.done
    rw [hquiet.notified, hquiet.done]
    exact hok.notified hdropped
  · show s.done = true ↔ _
    rw [hquiet.done, hopen]
    simp [hstill]
  · intro n hn _
    rw [PollLog.delivered_concat, List.length_append]
    exact howed n hn
  · rintro (hended | hdrop)
    · exact hstill hended
    · cases hdrop

/-- A poll that ends the body. -/
theorem ok_of_told {i : Nat} {h : Held} (hok : h.Ok i) (hopen : h.state.done = false)
    {sh sh' : Shared} {s : BodyState} {r : PollChunk} (htold : Told sh sh' h.state s)
    (hends : EndsBody r h.state) :
    Held.Ok i ⟨s, h.log ++ [r], false⟩ ∧ Held.finished ⟨s, h.log ++ [r], false⟩ := by
  have hended : Held.ended ⟨s, h.log ++ [r], false⟩ := by
    rw [ended_concat]
    rcases hends with rfl | herr | ⟨y, n, rfl, hkind, hlen⟩
    · exact Or.inr (Or.inr (Or.inl (Or.inr rfl)))
    · exact Or.inr (Or.inr (Or.inr (Or.inr herr)))
    · obtain ⟨hsum, -⟩ := hok.owed n hkind hopen
      refine Or.inr (Or.inl ?_)
      rw [htold.kind, hkind]
      show BodyKind.length n = .length ((PollLog.delivered h.log).length + y.length)
      rw [hlen, hsum]
  refine ⟨⟨?_, ?_, ?_, ?_⟩, Or.inl hended⟩
  · exact htold.generation.trans hok.generation
  · intro _
    show s.notified = s.done
    rw [htold.notified, htold.done]
  · exact ⟨fun _ => hended, fun _ => htold.done⟩
  · intro n _ hdone
    rw [show s.done = true from htold.done] at hdone
    cases hdone

theorem tracks_poll {b : Bodies} (hb : b.Tracks) (hlen : b.made.length < 2 ^ 64) (i : Nat)
    (a : PollAnswers) : (b.pollBody i a).Tracks := by
  rcases pollBody_cases b i a with hsame | ⟨h, hi, hdropped, hpoll⟩
  · rw [hsame]
    exact hb
  · rw [hpoll]
    have hok := hb.bodies i h hi
    cases hdone : h.state.done with
    | true =>
        -- a body that has ended says so again and does nothing else
        have hended := hok.done.mp hdone
        rw [(pollChunk_of_done hdone a b.shared).1]
        have hmore : Held.ended ⟨h.state, h.log ++ [.ended], false⟩ := by
          rw [ended_concat]
          exact Or.inr (Or.inr (Or.inl (Or.inr rfl)))
        refine hb.update hlen hi false ?_ rfl (by simp) ?_
        · refine ⟨hok.generation, fun _ => hok.notified hdropped, ?_, ?_⟩
          · exact ⟨fun _ => hmore, fun _ => hdone⟩
          · intro n _ hopen
            rw [show h.state.done = true from hdone] at hopen
            cases hopen
        · exact ⟨fun _ => Or.inl (Or.inl hended), fun _ => Or.inl hmore⟩
    | false =>
        have hsignals := pollChunk_signals b.shared hdone
          ((hok.notified hdropped).trans hdone) a
        generalize pollChunk a b.shared h.state = out at hsignals
        obtain ⟨r, sh, s⟩ := out
        have hnot : ¬ h.finished := by
          rintro (hended | hdrop)
          · rw [hok.done.mpr hended] at hdone
            cases hdone
          · rw [hdropped] at hdrop
            cases hdrop
        rcases hsignals with ⟨hquiet, hleaves⟩ | ⟨htold, hends⟩
        · obtain ⟨hok', hnot'⟩ := ok_of_quiet hok hdone hdropped hquiet hleaves
          refine hb.update hlen hi false hok' hquiet.current ?_ ?_
          · rw [Bool.false_and, Bool.or_false]
            exact hquiet.flag
          · simp [hnot, hnot']
        · obtain ⟨hok', hfinished⟩ := ok_of_told hok hdone htold hends
          refine hb.update hlen hi true hok' htold.current ?_ ?_
          · rw [Bool.true_and]
            exact htold.flag
          · simp [hfinished]

theorem tracks_drop {b : Bodies} (hb : b.Tracks) (hlen : b.made.length < 2 ^ 64) (i : Nat) :
    (b.dropBody i).Tracks := by
  rcases dropBody_cases b i with hsame | ⟨h, hi, hdropped, hdrop⟩
  · rw [hsame]
    exact hb
  · rw [hdrop]
    have hok := hb.bodies i h hi
    have hok' : Held.Ok i { h with dropped := true } :=
      ⟨hok.generation, fun hd => absurd hd (by simp), hok.done, hok.owed⟩
    have hfinished : Held.finished { h with dropped := true } := Or.inr rfl
    unfold BodyState.drop notifyFinished
    cases hnotified : h.state.notified with
    | true =>
        have hdone : h.state.done = true := (hok.notified hdropped).symm.trans hnotified
        refine hb.update hlen hi false hok' rfl (by simp) ?_
        exact ⟨fun _ => Or.inl (Or.inl (hok.done.mp hdone)), fun _ => hfinished⟩
    | false =>
        refine hb.update hlen hi true hok' (finishBody_current _ _) ?_ ?_
        · rw [Bool.true_and]
          exact finishBody_flag _ _
        · simp [hfinished]

/-- A new body: the flag is its own from now on. -/
theorem tracks_create {b : Bodies} (hb : b.Tracks) (kind : BodyKind) (needsContinue : Bool)
    (limits : Limits) : (b.create kind needsContinue limits).Tracks := by
  have hcurrent := hb.current
  have hmade : ∀ (s : BodyState) (sh : Shared), s.done = s.notified →
      (s.done = true ↔ Held.ended ⟨s, [], false⟩) →
      (∀ n, s.kind = .length n → s.done = false → s.remaining = n ∧ 0 < s.remaining) →
      s.generation = (b.made.length + 1) % 2 ^ 64 →
      sh.io.bodyGeneration = (b.made.length + 1) % 2 ^ 64 → sh.io.bodyFinished = s.done →
      Tracks ⟨sh, b.made ++ [⟨s, [], false⟩]⟩ := by
    intro s sh hnotified hdone howed hgeneration hio hflag
    refine ⟨?_, ?_, ?_⟩
    · simpa using hio
    · intro i h hi
      rcases Nat.lt_or_ge i b.made.length with hlt | hge
      · exact hb.bodies i h (List.getElem?_append_left hlt ▸ hi)
      · rw [List.getElem?_append_right hge] at hi
        have hzero : i - b.made.length = 0 := by
          by_contra hne
          rw [List.getElem?_eq_none (by simp; omega)] at hi
          cases hi
        rw [hzero] at hi
        cases hi
        have hidx : i = b.made.length := by omega
        subst hidx
        refine ⟨hgeneration, fun _ => hnotified.symm, hdone, ?_⟩
        intro n hn hopen
        obtain ⟨hrest, hpos⟩ := howed n hn hopen
        exact ⟨(Nat.zero_add _).trans hrest, hpos⟩
    · show sh.io.bodyFinished = true ↔ _
      rw [hflag, hdone, List.getLast?_append]
      simp [Held.finished]
  unfold create BodyState.new
  cases kind with
  | none =>
      refine hmade _ _ rfl ?_ ?_ ?_ ?_ ?_
      · simp [Held.ended]
      · simp
      · simp [IoState.bodyStarted, hcurrent]
      · simp [finishBody_current, IoState.bodyStarted, hcurrent]
      · simp [finishBody_flag]
  | length n =>
      have hended : ∀ s : BodyState, s.kind = .length n → (n == 0) = s.done →
          (s.done = true ↔ Held.ended ⟨s, [], false⟩) := by
        intro s hkind hdone
        rw [← hdone]
        simp [Held.ended, hkind, PollLog.delivered, PollLog.failed]
      by_cases hn : n = 0
      · refine hmade _ _ rfl (hended _ rfl rfl) ?_ ?_ ?_ ?_
        · simp [hn]
        · simp [IoState.bodyStarted, hcurrent]
        · simp [hn, finishBody_current, IoState.bodyStarted, hcurrent]
        · simp [hn, finishBody_flag]
      · refine hmade _ _ rfl (hended _ rfl rfl) ?_ ?_ ?_ ?_
        · intro m hm _
          cases hm
          exact ⟨rfl, Nat.pos_of_ne_zero hn⟩
        · simp [IoState.bodyStarted, hcurrent]
        · simp [hn, IoState.bodyStarted, hcurrent]
        · simp [hn, IoState.bodyStarted]
  | chunked =>
      refine hmade _ _ rfl ?_ ?_ ?_ ?_ ?_
      · simp [Held.ended, PollLog.failed]
      · simp
      · simp [IoState.bodyStarted, hcurrent]
      · simp [IoState.bodyStarted, hcurrent]
      · simp [IoState.bodyStarted]

theorem tracks_start (sh : Shared) : (start sh).Tracks := by
  refine ⟨rfl, ?_, ?_⟩
  · intro i h hi
    cases hi
  · constructor
    · intro h; cases h
    · rintro ⟨h, hlast, -⟩
      cases hlast

theorem length_of_concerns {b : Bodies} {e : BodiesEvent} {i : Nat} (he : e.concerns i) :
    (b.step e).made.length = b.made.length := by
  rcases made_of_concerns (b := b) he with hsame | ⟨h, hset⟩
  · rw [hsame]
  · rw [hset, List.length_set]

theorem length_step (b : Bodies) (e : BodiesEvent) :
    b.made.length ≤ (b.step e).made.length := by
  cases e with
  | create kind needsContinue limits =>
      show _ ≤ (b.made ++ [_]).length
      rw [List.length_append]
      omega
  | poll i a =>
      have hlen := length_of_concerns (b := b) (e := .poll i a) (i := i) rfl
      omega
  | drop i =>
      have hlen := length_of_concerns (b := b) (e := .drop i) (i := i) rfl
      omega
  | other sh => exact Nat.le_refl _

theorem tracks_step {b : Bodies} (hb : b.Tracks) (e : BodiesEvent)
    (hlen : (b.step e).made.length < 2 ^ 64) : (b.step e).Tracks := by
  have hbefore := lt_of_le_of_lt (length_step b e) hlen
  cases e with
  | create kind needsContinue limits => exact tracks_create hb kind needsContinue limits
  | poll i a => exact tracks_poll hb hbefore i a
  | drop i => exact tracks_drop hb hbefore i
  | other sh => exact ⟨hb.current, hb.bodies, hb.flag⟩

/-! ## 5. Every run -/

theorem tracks_run (sh : Shared) (events : List BodiesEvent)
    (hlen : (run sh events).made.length < 2 ^ 64) : (run sh events).Tracks := by
  induction events using List.reverseRecOn with
  | nil => exact tracks_start sh
  | append_singleton events e ih =>
      rw [run, List.foldl_append] at hlen ⊢
      exact tracks_step (ih (lt_of_le_of_lt (length_step _ e) hlen)) e hlen

/-- The last body is untouched by what happens to another. -/
theorem getLast?_step_of_concerns {b : Bodies} {e : BodiesEvent} {i : Nat} (he : e.concerns i)
    (hi : i + 1 < b.made.length) : (b.step e).made.getLast? = b.made.getLast? := by
  rcases made_of_concerns (b := b) he with hsame | ⟨h, hset⟩
  · rw [hsame]
  · rw [hset, List.getLast?_eq_getElem?, List.getLast?_eq_getElem?, List.length_set,
      List.getElem?_set_ne (by omega)]

/-- Nothing but a new body takes the flag back. -/
theorem flag_step {b : Bodies} (hb : b.Tracks) {e : BodiesEvent} (he : e.isCreate = false)
    (hflag : b.shared.io.bodyFinished = true) : (b.step e).shared.io.bodyFinished = true := by
  cases e with
  | create => cases he
  | other sh => exact hflag
  | poll i a =>
      show (b.pollBody i a).shared.io.bodyFinished = true
      rcases pollBody_cases b i a with hsame | ⟨h, hi, hdropped, hpoll⟩
      · rw [hsame]
        exact hflag
      · rw [hpoll]
        cases hdone : h.state.done with
        | true =>
            rw [(pollChunk_of_done hdone a b.shared).1]
            exact hflag
        | false =>
            have hnotified := ((hb.bodies i h hi).notified hdropped).trans hdone
            rcases pollChunk_signals b.shared hdone hnotified a with ⟨hquiet, -⟩ | ⟨htold, -⟩
            · exact hquiet.flag.trans hflag
            · show (pollChunk a b.shared h.state).2.1.io.bodyFinished = true
              rw [htold.flag, hflag, Bool.true_or]
  | drop i =>
      show (b.dropBody i).shared.io.bodyFinished = true
      rcases dropBody_cases b i with hsame | ⟨h, -, -, hdrop⟩
      · rw [hsame]
        exact hflag
      · rw [hdrop]
        unfold BodyState.drop notifyFinished
        split
        · exact hflag
        · show (b.shared.io.finishBody h.state.generation).bodyFinished = true
          rw [finishBody_flag, hflag, Bool.true_or]

/-- **`body_finished` speaks for the last body made.** In any run with fewer
than 2^64 bodies, whoever polls and drops which of them in whatever order: the
flag is set exactly when the last body made was empty, was read to its end, has
failed or has been dropped; no event of an earlier body changes it; and once
set it stays so until another body is made. -/
theorem bodyFinished_iff_last_finished (sh : Shared) (events : List BodiesEvent)
    (hlen : (run sh events).made.length < 2 ^ 64) :
    ((run sh events).shared.io.bodyFinished = true ↔
      ∃ b, (run sh events).made.getLast? = some b ∧ b.finished) ∧
    (∀ (e : BodiesEvent) (i : Nat), e.concerns i → i + 1 < (run sh events).made.length →
      ((run sh events).step e).shared.io.bodyFinished
        = (run sh events).shared.io.bodyFinished) ∧
    (∀ e : BodiesEvent, e.isCreate = false → (run sh events).shared.io.bodyFinished = true →
      ((run sh events).step e).shared.io.bodyFinished = true) := by
  have hb := tracks_run sh events hlen
  refine ⟨hb.flag, ?_, fun e he => flag_step hb he⟩
  intro e i he hi
  have hlen' : ((run sh events).step e).made.length < 2 ^ 64 := by
    rw [length_of_concerns he]
    exact hlen
  have hnext := tracks_step hb e hlen'
  rw [Bool.eq_iff_iff, hnext.flag, hb.flag, getLast?_step_of_concerns he hi]

/-- Two requests on one connection: the handler of the first keeps its body
unread. While the second body is still owed a byte, the first is dropped; then
the byte arrives. -/
def keptBody : List BodiesEvent :=
  [.create (.length 2) false Limits.default, .create (.length 1) false Limits.default, .drop 0,
    .poll 1 ⟨[], .ok, [.ok (ascii "x")]⟩]

theorem bodyFinished_of_kept_body :
    (run (Reading.arrived []) keptBody).made.length < 2 ^ 64 ∧
      (run (Reading.arrived []) (keptBody.take 3)).shared.io.bodyFinished = false ∧
      ∃ b, (run (Reading.arrived []) keptBody).made.getLast? = some b ∧ b.finished := by
  refine ⟨by decide, by decide, ?_⟩
  exact ((bodyFinished_iff_last_finished (Reading.arrived []) keptBody (by decide)).1).mp
    (by decide)

end Bodies

end ArmatureH1
