/-
ArmatureH1.ConnPast — a connection behind a past.

`serve` runs one loop for all requests of a connection. What it has behind it
shows in its state only as something in front: bytes received and sent,
bodies numbered, heads written, exchanges. `after` puts such a past behind a
connection, and every step commutes with it (`step_after`), one equation for
each function of the model, so a run does as well.
-/
import ArmatureH1.ConnReplies
import Mathlib.Data.List.InsertIdx

namespace ArmatureH1

open ByteString BodyState

/-! ## 1. A past -/

/-- What a connection has behind it: the bytes it received and consumed, the
bytes it sent, how far its bodies are numbered, how many response heads it
wrote, and its exchanges. -/
structure Prior where
  received : Bytes
  sent : Bytes
  generation : Nat
  heads : Nat
  past : List Exchange

namespace Prior

/-- The generation `g`, counted on from the past. The counter wraps at
`2 ^ 64`; numbers it never holds are moved out of the way, which keeps the
map injective on all of them. -/
def renumber (k : Prior) (g : Nat) : Nat :=
  if g < 2 ^ 64 then (k.generation + g) % 2 ^ 64 else k.generation + g

theorem renumber_inj (k : Prior) {g g' : Nat} : k.renumber g = k.renumber g' ↔ g = g' := by
  unfold renumber
  constructor
  · intro h
    split at h
    · split at h <;> omega
    · split at h <;> omega
  · intro h
    rw [h]

theorem renumber_next (k : Prior) (g : Nat) :
    (k.renumber g + 1) % 2 ^ 64 = k.renumber ((g + 1) % 2 ^ 64) := by
  have hlt : (g + 1) % 2 ^ 64 < 2 ^ 64 := Nat.mod_lt _ (by decide)
  unfold renumber
  rw [if_pos hlt]
  split <;> omega

end Prior

/-- The dates of the heads behind `n` earlier ones. -/
def Env.later (env : Env) (n : Nat) : Env := { env with date := fun i => env.date (n + i) }

namespace IoState

/-- The same buffer and cursor, behind a past. -/
def after (k : Prior) (st : IoState) : IoState :=
  { st with
    io := ⟨k.received ++ st.io.received, k.sent ++ st.io.sent⟩
    bodyGeneration := k.renumber st.bodyGeneration }

variable (k : Prior) (st : IoState)

@[simp] theorem after_buf : (st.after k).buf = st.buf := rfl
@[simp] theorem after_scanned : (st.after k).scanned = st.scanned := rfl
@[simp] theorem after_bodyFinished : (st.after k).bodyFinished = st.bodyFinished := rfl
@[simp] theorem after_pending : (st.after k).pendingContinue = st.pendingContinue := rfl
@[simp] theorem after_generation :
    (st.after k).bodyGeneration = k.renumber st.bodyGeneration := rfl
@[simp] theorem after_sent : (st.after k).io.sent = k.sent ++ st.io.sent := rfl
@[simp] theorem after_owed : (st.after k).owedContinue = st.owedContinue := rfl
@[simp] theorem after_headLength : (st.after k).headLength = st.headLength := rfl

theorem send_after (b : Bytes) : (st.after k).send b = (st.send b).after k := by
  simp [send, after]

theorem readMore_after (b : Bytes) : (st.after k).readMore b = (st.readMore b).after k := by
  simp [readMore, receive, after]

theorem fill_after (b : Bytes) :
    (st.after k).fill b = ((st.fill b).1, (st.fill b).2.after k) := by
  simp only [fill, readMore_after]
  rfl

theorem pushBack_after (b : Bytes) : (st.after k).pushBack b = (st.pushBack b).after k := by
  unfold pushBack
  split <;> rfl

theorem bodyStarted_after : (st.after k).bodyStarted = st.bodyStarted.after k := by
  have hnext := k.renumber_next st.bodyGeneration
  simp only [bodyStarted, after, hnext]

/-- A body that is current stays current, and one that is stale stays stale:
the numbers are moved together. -/
theorem finishBody_after (g : Nat) :
    (st.after k).finishBody (k.renumber g) = (st.finishBody g).after k := by
  unfold finishBody
  simp only [after_generation, k.renumber_inj]
  by_cases h : g = st.bodyGeneration
  · rw [if_pos h, if_pos h]
    rfl
  · rw [if_neg h, if_neg h]

theorem sendContinue_after (n : Nat) :
    (st.after k).sendContinue n = (st.sendContinue n).after k := by
  simp only [sendContinue, after_owed, send_after]
  rfl

theorem pollSendContinue_after (flush : FlushAnswer) (writes : List WriteAnswer) (st : IoState) :
    (st.after k).pollSendContinue flush writes
      = ((st.pollSendContinue flush writes).1, (st.pollSendContinue flush writes).2.after k) := by
  induction writes generalizing st with
  | nil =>
      unfold pollSendContinue
      by_cases h : st.pendingContinue = 0
      · simp only [after_pending, h, ↓reduceIte]
      · simp only [after_pending, h, ↓reduceIte]
  | cons a writes ih =>
      unfold pollSendContinue
      by_cases h : st.pendingContinue = 0
      · simp only [after_pending, h, ↓reduceIte]
      · simp only [after_pending, h, ↓reduceIte]
        cases a with
        | pending => rfl
        | err => rfl
        | ok n =>
            by_cases hn : n = 0
            · simp only [hn, ↓reduceIte]
            · simp only [hn, ↓reduceIte, sendContinue_after]
              exact ih _

theorem stripBlank_after : (st.after k).stripBlank = st.stripBlank.after k := by
  unfold stripBlank
  by_cases h : 2 * blankPairs st.buf > 0
  · simp only [after_buf, h, ↓reduceIte]
    rfl
  · simp only [after_buf, h, ↓reduceIte]

theorem hasCompleteHead_after :
    (st.after k).hasCompleteHead = (st.hasCompleteHead.1, st.hasCompleteHead.2.after k) := by
  unfold hasCompleteHead
  simp only [stripBlank_after, after_buf, after_scanned]
  by_cases h : st.stripBlank.buf.length ≤ st.stripBlank.scanned
  · simp only [h, ↓reduceIte]
  · simp only [h, ↓reduceIte]
    cases findHeadEnd (st.stripBlank.buf.drop (st.stripBlank.scanned - 3)) <;> rfl

theorem splitHead_after (n : Nat) :
    (st.after k).splitHead n = ((st.splitHead n).1, (st.splitHead n).2.after k) := rfl

theorem headRead_after (limits : Limits) (started : Bool) (b : Bytes) :
    headRead limits started b (st.after k)
      = ((headRead limits started b st).1, (headRead limits started b st).2.after k) := by
  unfold headRead
  simp only [readMore_after, hasCompleteHead_after, after_buf]
  by_cases h : (st.readMore b).hasCompleteHead.1 = true
  · simp only [h, ↓reduceIte]
  · by_cases hlong : (st.readMore b).hasCompleteHead.2.buf.length > limits.maxHeadBytes
    · simp only [h, hlong, ↓reduceIte, Bool.false_eq_true]
    · simp only [h, hlong, ↓reduceIte, Bool.false_eq_true]

end IoState

/-! ## 2. Bodies -/

def Shared.after (k : Prior) (sh : Shared) : Shared := ⟨sh.io.after k, sh.bodyRead⟩

def BodyState.after (k : Prior) (s : BodyState) : BodyState :=
  { s with generation := k.renumber s.generation }

/-- The outcome of an operation on a body, behind a past. -/
def Prior.outcome {α : Type} (k : Prior) (r : α × Shared × BodyState) : α × Shared × BodyState :=
  (r.1, r.2.1.after k, r.2.2.after k)

@[simp] theorem Shared.after_io (k : Prior) (sh : Shared) : (sh.after k).io = sh.io.after k := rfl
theorem Shared.after_buf (k : Prior) (sh : Shared) : (sh.after k).io.buf = sh.io.buf := rfl

namespace BodyState

variable (k : Prior)

@[simp] theorem after_kind (s : BodyState) : (s.after k).kind = s.kind := rfl
@[simp] theorem after_buffered (s : BodyState) : (s.after k).buffered = s.buffered := rfl
@[simp] theorem after_remaining (s : BodyState) : (s.after k).remaining = s.remaining := rfl
@[simp] theorem after_decoder (s : BodyState) : (s.after k).decoder = s.decoder := rfl
@[simp] theorem after_continueSent (s : BodyState) :
    (s.after k).continueSent = s.continueSent := rfl
@[simp] theorem after_done (s : BodyState) : (s.after k).done = s.done := rfl

theorem notifyFinished_after (sh : Shared) (s : BodyState) :
    notifyFinished (sh.after k) (s.after k)
      = ((notifyFinished sh s).1.after k, (notifyFinished sh s).2.after k) := by
  unfold notifyFinished
  by_cases h : s.notified = true
  · rw [if_pos h, if_pos (show (s.after k).notified = true from h)]
  · rw [if_neg h, if_neg (show ¬ (s.after k).notified = true from h)]
    refine Prod.ext ?_ rfl
    change Shared.mk ((sh.io.after k).finishBody (k.renumber s.generation)) sh.bodyRead = _
    rw [IoState.finishBody_after]
    rfl

theorem finish_after (sh : Shared) (s : BodyState) :
    finish (sh.after k) (s.after k) = ((finish sh s).1.after k, (finish sh s).2.after k) :=
  notifyFinished_after k { sh with bodyRead := true } { s with done := true }

theorem fail_after (sh : Shared) (s : BodyState) :
    fail (sh.after k) (s.after k) = ((fail sh s).1.after k, (fail sh s).2.after k) :=
  notifyFinished_after k { sh with bodyRead := false } { s with done := true }

theorem failWith_after (e : BodyError) (sh : Shared) (s : BodyState) :
    failWith e (sh.after k) (s.after k) = k.outcome (failWith e sh s) := by
  simp only [failWith, fail_after]
  rfl

theorem finishAndReturn_after (sh : Shared) (s : BodyState) :
    finishAndReturn (sh.after k) (s.after k)
      = ((finishAndReturn sh s).1.after k, (finishAndReturn sh s).2.after k) := by
  simp only [finishAndReturn, finish_after]
  refine Prod.ext ?_ rfl
  change Shared.mk (((finish sh s).1.io.after k).pushBack (finish sh s).2.buffered) _ = _
  rw [IoState.pushBack_after]
  rfl

theorem draw_after (max : Nat) (sh : Shared) (s : BodyState) :
    draw max (sh.after k) (s.after k) = ((draw max sh s).1.after k, (draw max sh s).2.after k) := by
  unfold draw
  by_cases h : s.buffered = []
  · rw [if_pos h, if_pos (show (s.after k).buffered = [] from h)]
    rfl
  · rw [if_neg h, if_neg (show ¬ (s.after k).buffered = [] from h)]

theorem lengthRound_after (sh : Shared) (s : BodyState) :
    lengthRound (sh.after k) (s.after k) = k.outcome (lengthRound sh s) := by
  have hdrawn :
      (if (s.after k).remaining > 0 then draw (s.after k).remaining (sh.after k) (s.after k)
      else (sh.after k, s.after k))
      = ((if s.remaining > 0 then draw s.remaining sh s else (sh, s)).1.after k,
        (if s.remaining > 0 then draw s.remaining sh s else (sh, s)).2.after k) := by
    by_cases h : s.remaining > 0
    · simp only [after_remaining, h, ↓reduceIte, draw_after]
    · simp only [after_remaining, h, ↓reduceIte]
  unfold lengthRound
  rw [hdrawn]
  generalize (if s.remaining > 0 then draw s.remaining sh s else (sh, s)) = drawn
  obtain ⟨sh, s⟩ := drawn
  simp only [after_buffered, after_remaining]
  by_cases hb : s.buffered = []
  · by_cases hr : s.remaining = 0
    · simp only [hb, hr, ne_eq, not_true_eq_false, ↓reduceIte, finish_after]
      rfl
    · simp only [hb, hr, ne_eq, not_true_eq_false, ↓reduceIte]
      rfl
  · simp only [hb, ne_eq, not_false_eq_true, ↓reduceIte]
    by_cases hr : s.remaining - min s.buffered.length s.remaining = 0
    · simp only [hr, ↓reduceIte]
      exact congrArg (fun r : Shared × BodyState => (some (PollChunk.chunk _), r))
        (finishAndReturn_after k sh
          { s with
            buffered := s.buffered.drop (min s.buffered.length s.remaining)
            remaining := 0 })
    · simp only [hr, ↓reduceIte]
      rfl

theorem chunkedRound_after (turns : Nat) (sh : Shared) (s : BodyState) :
    chunkedRound turns (sh.after k) (s.after k) = k.outcome (chunkedRound turns sh s) := by
  induction turns generalizing sh s with
  | zero => rfl
  | succ turns ih =>
      unfold chunkedRound
      simp only [Shared.after_buf, draw_after]
      generalize draw sh.io.buf.length sh s = drawn
      obtain ⟨sh, s⟩ := drawn
      simp only [after_decoder, after_buffered]
      cases s.decoder with
      | none => rfl
      | some d =>
          simp only
          generalize d.poll s.buffered = polled
          obtain ⟨r, d, rest⟩ := polled
          cases r with
          | error e =>
              exact congrArg (fun r : PollChunk × Shared × BodyState => (some r.1, r.2))
                (failWith_after k (.chunked e) sh { s with decoder := some d, buffered := rest })
          | ok event =>
              cases event with
              | none => rfl
              | some event =>
                  cases event with
                  | data x => rfl
                  | trailers t =>
                      exact ih sh { s with decoder := some d, buffered := rest, trailers := some t }
                  | ended =>
                      exact congrArg (fun r : Shared × BodyState => (some PollChunk.ended, r))
                        (finishAndReturn_after k sh { s with decoder := some d, buffered := rest })

theorem round_after (sh : Shared) (s : BodyState) :
    round (sh.after k) (s.after k) = k.outcome (round sh s) := by
  unfold round
  rw [after_kind]
  cases s.kind with
  | none =>
      simp only [finish_after]
      rfl
  | length n => exact lengthRound_after k sh s
  | chunked => exact chunkedRound_after k 2 sh s

theorem pollLoop_after (reads : List ReadAnswer) (sh : Shared) (s : BodyState) :
    pollLoop reads (sh.after k) (s.after k) = k.outcome (pollLoop reads sh s) := by
  induction reads generalizing sh s with
  | nil =>
      unfold pollLoop
      rw [round_after]
      generalize round sh s = r
      obtain ⟨r, sh, s⟩ := r
      cases r <;> rfl
  | cons a rest ih =>
      unfold pollLoop
      rw [round_after]
      generalize round sh s = r
      obtain ⟨r, sh, s⟩ := r
      cases r with
      | some r => rfl
      | none =>
          cases a with
          | pending => rfl
          | err => exact failWith_after k .io sh s
          | ok b =>
              by_cases hb : b = []
              · simp only [Prior.outcome, hb, ↓reduceIte]
                exact failWith_after k .incomplete sh s
              · simp only [Prior.outcome, hb, ↓reduceIte, Shared.after_io, IoState.fill_after]
                exact ih { sh with io := (sh.io.fill b).2 }
                  { s with buffered := s.buffered ++ (sh.io.fill b).1 }

/-- A poll does behind a past what it does without one. -/
theorem pollChunk_after (a : PollAnswers) (sh : Shared) (s : BodyState) :
    (s.after k).pollChunk a (sh.after k) = k.outcome (s.pollChunk a sh) := by
  unfold pollChunk
  by_cases hd : s.done = true
  · simp only [after_done, hd, ↓reduceIte]
    rfl
  · by_cases hc : s.continueSent = true
    · simp only [after_done, after_continueSent, hd, hc, ↓reduceIte, Bool.false_eq_true]
      exact pollLoop_after k a.reads sh s
    · simp only [after_done, after_continueSent, hd, hc, ↓reduceIte, Bool.false_eq_true,
        Shared.after_io, IoState.pollSendContinue_after]
      generalize sh.io.pollSendContinue a.flush a.writes = sent
      obtain ⟨r, io⟩ := sent
      cases r with
      | pending => rfl
      | err => exact failWith_after k .io { sh with io := io } s
      | ready =>
          exact pollLoop_after k a.reads { sh with io := io }
            { s with continueSent := true, done := false }

theorem drop_after (sh : Shared) (s : BodyState) :
    (s.after k).drop (sh.after k) = (s.drop sh).after k :=
  congrArg Prod.fst (notifyFinished_after k sh s)

theorem new_after (kind : BodyKind) (needsContinue : Bool) (limits : Limits) (sh : Shared) :
    new kind needsContinue limits (sh.after k)
      = ((new kind needsContinue limits sh).1.after k,
        (new kind needsContinue limits sh).2.after k) := by
  have hfinish := IoState.finishBody_after k sh.io.bodyStarted sh.io.bodyStarted.bodyGeneration
  unfold new
  simp only [Shared.after_io, IoState.bodyStarted_after, IoState.after_generation, hfinish]
  cases kind with
  | none => rfl
  | chunked => rfl
  | length n =>
      by_cases hn : (n == 0) = true
      · simp only [hn, ↓reduceIte]
        rfl
      · simp only [hn, ↓reduceIte, Bool.false_eq_true]
        rfl

end BodyState

/-! ## 3. The loop -/

namespace Conn

/-- The same connection, behind a past. -/
def after (k : Prior) (c : Conn) : Conn :=
  { c with
    shared := c.shared.after k
    current := c.current.map (BodyState.after k)
    stale := c.stale.map (BodyState.after k)
    heads := k.heads + c.heads
    past := k.past ++ c.past }

variable (k : Prior) (env : Env)

@[simp] theorem after_shared (c : Conn) : (c.after k).shared = c.shared.after k := rfl
@[simp] theorem after_out (c : Conn) : (c.after k).out = c.out := rfl
@[simp] theorem after_pc (c : Conn) : (c.after k).pc = c.pc := rfl

theorem setIo_after (c : Conn) (io : IoState) :
    (c.after k).setIo (io.after k) = (c.setIo io).after k :=
  rfl

theorem send_after (c : Conn) (b : Bytes) : (c.after k).send b = (c.send b).after k := by
  unfold send
  rw [after_shared, Shared.after_io, IoState.send_after, setIo_after]

theorem flushOr_after (next : AfterFlush) (c done : Conn) :
    flushOr next (c.after k) (done.after k) = (flushOr next c done).after k := by
  unfold flushOr
  by_cases h : c.out = []
  · simp only [after_out, h, ↓reduceIte]
  · simp only [after_out, h, ↓reduceIte]
    rfl

theorem settleContinue_after (next : AfterSettle) (c : Conn) {go go' : Conn → Conn}
    (hgo : ∀ c, go (c.after k) = (go' c).after k) :
    settleContinue next (c.after k) go = (settleContinue next c go').after k := by
  unfold settleContinue
  by_cases hwhole : c.shared.io.pendingContinue = continueBytes.length
  · simp only [after_shared, Shared.after_io, IoState.after_pending, hwhole, ↓reduceIte]
    exact hgo c.dropContinue
  · by_cases hnone : c.shared.io.pendingContinue = 0
    · rw [hnone] at hwhole
      simp only [after_shared, Shared.after_io, IoState.after_pending, hwhole, hnone, ↓reduceIte]
      exact hgo c
    · simp only [after_shared, Shared.after_io, IoState.after_pending, hwhole, hnone, ↓reduceIte]
      rfl

theorem writeErrorHead_after (version : Version) (status : Nat) (c : Conn) :
    writeErrorHead env version status (c.after k)
      = (writeErrorHead (env.later k.heads) version status c).after k := by
  unfold writeErrorHead
  simp only
  rw [← flushOr_after]
  simp only [after, Env.later, Nat.add_assoc]

theorem writeError_after (version : Version) (status : Nat) (c : Conn) :
    writeError env version status (c.after k)
      = (writeError (env.later k.heads) version status c).after k :=
  settleContinue_after k _ c (writeErrorHead_after k env version status)

/-! ### The next request -/

/-- The transport as the body of a new request finds it. -/
def renewed (call : Call) (sh : Shared) : Shared where
  io := { sh.io with
    pendingContinue := if call.expectsContinue then continueBytes.length else 0
    bodyFinished := false }
  bodyRead := false

/-- The connection with the body of the new request, on its way to the
handler. -/
def admitted (call : Call) (made : BodyState × Shared) (c : Conn) : Conn :=
  let c := { c with shared := made.2, current := some made.1 }
  if c.out = [] then { c with pc := .handling call }
  else if call.expectsContinue then { c with pc := .flushing 0 (.call call) }
  else { c with out := [], pc := .firstPoll call c.out }

theorem callHandler_eq (h : Head) (kind : BodyKind) (c : Conn) :
    callHandler env h kind c
      = admitted (Call.ofHead h)
          (BodyState.new kind (Call.ofHead h).expectsContinue env.limits
            (renewed (Call.ofHead h) c.shared)) c := rfl

theorem admitted_after (call : Call) (made : BodyState × Shared) (c : Conn) :
    admitted call (made.1.after k, made.2.after k) (c.after k)
      = (admitted call made c).after k := by
  unfold admitted
  by_cases hout : c.out = []
  · simp only [after_out, hout, ↓reduceIte]
    rfl
  · by_cases hexpects : call.expectsContinue = true
    · simp only [after_out, hout, hexpects, ↓reduceIte]
      rfl
    · simp only [after_out, hout, hexpects, ↓reduceIte, Bool.false_eq_true]
      rfl

theorem callHandler_after (h : Head) (kind : BodyKind) (c : Conn) :
    callHandler env h kind (c.after k) = (callHandler (env.later k.heads) h kind c).after k := by
  have hrenewed : renewed (Call.ofHead h) (c.after k).shared
      = (renewed (Call.ofHead h) c.shared).after k := rfl
  rw [callHandler_eq, callHandler_eq, hrenewed, BodyState.new_after]
  exact admitted_after k _ _ c

/-- The connection behind a head of `n` bytes. -/
def begun (n : Nat) (c : Conn) : Conn :=
  { c.setIo (c.shared.io.splitHead n).2 with
    current := none
    stale := c.current.toList ++ c.stale
    past := c.past ++ c.now.toList
    now := some (Exchange.start (c.shared.io.splitHead n).1) }

theorem begun_after (n : Nat) (c : Conn) : begun n (c.after k) = (begun n c).after k := by
  have hstale : (c.current.map (BodyState.after k)).toList ++ c.stale.map (BodyState.after k)
      = (c.current.toList ++ c.stale).map (BodyState.after k) := by
    cases c.current <;> rfl
  simp only [begun, after, hstale, List.append_assoc, Shared.after_io, IoState.splitHead_after]
  rfl

/-- What `serve` makes of the head. -/
def judge (head : Bytes) (c : Conn) : Conn :=
  match parseHeadRegion env.httparse head env.limits with
  | .error e => writeError env .http11 e.status c
  | .ok h =>
    match decideFraming h env.limits with
    | .error e => writeError env h.version e.status c
    | .ok kind => callHandler env h kind c

theorem startRequest_eq {c : Conn} {n : Nat} (h : c.shared.io.headLength = some n) :
    startRequest env c = judge env (c.shared.io.buf.take n) (begun n c) := by
  unfold startRequest
  rw [h]
  rfl

theorem judge_after (head : Bytes) (c : Conn) :
    judge env head (c.after k) = (judge (env.later k.heads) head c).after k := by
  unfold judge
  rw [show (env.later k.heads).limits = env.limits from rfl,
    show (env.later k.heads).httparse = env.httparse from rfl]
  cases parseHeadRegion env.httparse head env.limits with
  | error e => exact writeError_after k env _ _ c
  | ok h =>
      simp only
      cases decideFraming h env.limits with
      | error e => exact writeError_after k env _ _ c
      | ok kind => exact callHandler_after k env h kind c

theorem startRequest_after (c : Conn) :
    startRequest env (c.after k) = (startRequest (env.later k.heads) c).after k := by
  cases h : c.shared.io.headLength with
  | none =>
      unfold startRequest
      rw [h, after_shared, Shared.after_io, IoState.after_headLength, h]
      rfl
  | some n =>
      rw [startRequest_eq (env.later k.heads) h, startRequest_eq env (c := c.after k) h,
        begun_after]
      exact judge_after k env _ _

theorem enterRead_after (c : Conn) :
    enterRead env (c.after k) = (enterRead (env.later k.heads) c).after k := by
  unfold enterRead
  simp only [after_shared, Shared.after_io, IoState.hasCompleteHead_after, setIo_after]
  by_cases h : c.shared.io.hasCompleteHead.1 = true
  · simp only [h, ↓reduceIte]
    exact startRequest_after k env _
  · simp only [h, ↓reduceIte, Bool.false_eq_true]
    generalize c.setIo c.shared.io.hasCompleteHead.2 = c
    exact flushOr_after k .read c { c with pc := .reading (beginsRequest c.shared.io.buf) }

theorem dispose_after (c : Conn) (d : Disposition) :
    dispose env (c.after k) d = (dispose (env.later k.heads) c d).after k := by
  cases d with
  | keepAlive => exact enterRead_after k env c
  | close => rfl
  | upgrade =>
      have hheld : ((c.after k).current.isSome = true ∨ (c.after k).stale ≠ [])
          ↔ (c.current.isSome = true ∨ c.stale ≠ []) := by
        simp [after]
      unfold dispose
      by_cases h : c.current.isSome = true ∨ c.stale ≠ []
      · rw [if_pos (hheld.mpr h), if_pos h]
        rfl
      · rw [if_neg (fun h' => h (hheld.mp h')), if_neg h]
        rfl

/-! ### The response -/

theorem conclude_after (a : Answer) (c : Conn) :
    conclude env a (c.after k) = (conclude (env.later k.heads) a c).after k := by
  have hflush : ∀ c : Conn, flushOr (.finish a) (c.after k) (dispose env (c.after k) a.disposition)
      = (flushOr (.finish a) c (dispose (env.later k.heads) c a.disposition)).after k := by
    intro c
    rw [dispose_after, flushOr_after]
  unfold conclude
  simp only [Bool.and_eq_true, decide_eq_true_eq]
  simp only [after_out, after_shared, Shared.after_io, IoState.hasCompleteHead_after, setIo_after]
  rw [show (env.later k.heads).coalescing = env.coalescing from rfl]
  by_cases hhold : (a.keepAlive = true ∧ (!a.upgrading) = true)
      ∧ c.out.length < env.coalescing.pipeline
  · by_cases hnext : c.shared.io.hasCompleteHead.1 = true
    · simp only [hhold, hnext, ↓reduceIte]
      exact dispose_after k env _ _
    · simp only [hhold, hnext, ↓reduceIte, Bool.false_eq_true]
      exact hflush _
  · simp only [hhold, ↓reduceIte]
    exact hflush c

/-- A connection with the head of its response written. -/
def headed (a : Answer) (c : Conn) : Conn :=
  { c with
    out := c.out ++ a.head (env.date c.heads)
    heads := c.heads + 1
    now := c.now.map (Exchange.answer ⟨a, env.date c.heads, [], false⟩) }

theorem headed_after (a : Answer) (c : Conn) :
    headed env a (c.after k) = (headed (env.later k.heads) a c).after k := by
  simp only [headed, after, Env.later, Nat.add_assoc]

/-- `write_response` behind its head. -/
def respondBody (a : Answer) (c : Conn) : Conn :=
  if a.writesBody then
    match a.body with
    | .empty => conclude env a c
    | .full b => conclude env a { c with out := c.out ++ b }
    | .stream => flushOr (.stream a false) c { c with pc := .streaming a false }
  else conclude env a c

theorem respondHead_eq (a : Answer) (c : Conn) :
    respondHead env a c = respondBody env a (headed env a c) := rfl

theorem respondBody_after (a : Answer) (c : Conn) :
    respondBody env a (c.after k) = (respondBody (env.later k.heads) a c).after k := by
  unfold respondBody
  by_cases hwrites : a.writesBody = true
  · simp only [hwrites, ↓reduceIte]
    cases a.body with
    | empty => exact conclude_after k env a c
    | full b => exact conclude_after k env a { c with out := c.out ++ b }
    | stream => exact flushOr_after k (.stream a false) c { c with pc := .streaming a false }
  · simp only [hwrites, ↓reduceIte, Bool.false_eq_true]
    exact conclude_after k env a c

theorem respondHead_after (a : Answer) (c : Conn) :
    respondHead env a (c.after k) = (respondHead (env.later k.heads) a c).after k := by
  rw [respondHead_eq, respondHead_eq, headed_after, respondBody_after]

theorem respond_after (call : Call) (resp : Response) (c : Conn) :
    respond env call resp (c.after k) = (respond (env.later k.heads) call resp c).after k :=
  settleContinue_after k _ { c with now := c.now.map (Exchange.responded resp) }
    (respondHead_after k env _)

/-! ### Waits -/

theorem proceed_after (c : Conn) (next : AfterFlush) :
    proceed env (c.after k) next = (proceed (env.later k.heads) c next).after k := by
  cases next with
  | finish a => exact dispose_after k env c a.disposition
  | _ => rfl

theorem failFlush_after (c : Conn) (next : AfterFlush) :
    failFlush (c.after k) next = (failFlush c next).after k := by
  cases next <;> rfl

theorem stepFlushing_after (c : Conn) (written : Nat) (next : AfterFlush) (e : Event) :
    stepFlushing env (c.after k) written next e
      = (stepFlushing (env.later k.heads) c written next e).after k := by
  unfold stepFlushing
  cases e with
  | write a =>
      cases a with
      | pending => rfl
      | err =>
          by_cases h : written < c.out.length
          · simp only [after_out, h, ↓reduceIte]
            exact failFlush_after k c next
          · simp only [after_out, h, ↓reduceIte]
      | ok n =>
          by_cases h : written < c.out.length
          · by_cases hn : n = 0
            · simp only [after_out, h, hn, ↓reduceIte]
              exact failFlush_after k c next
            · simp only [after_out, h, hn, ↓reduceIte, send_after]
              rfl
          · simp only [after_out, h, ↓reduceIte]
  | flush a =>
      cases a with
      | pending => rfl
      | ok =>
          by_cases h : written < c.out.length
          · simp only [after_out, h, ↓reduceIte]
          · simp only [after_out, h, ↓reduceIte]
            exact proceed_after k env { c with out := [] } next
      | err =>
          by_cases h : written < c.out.length
          · simp only [after_out, h, ↓reduceIte]
          · simp only [after_out, h, ↓reduceIte]
            exact failFlush_after k c next
  | writeDeadline => exact failFlush_after k c next
  | _ => rfl

theorem record_after (c : Conn) (io : IoState) :
    (c.after k).record (io.after k) = (c.record io).after k := by
  have hsent : (k.sent ++ io.io.sent).drop (k.sent ++ c.shared.io.io.sent).length
      = io.io.sent.drop c.shared.io.io.sent.length := by
    rw [List.length_append, List.drop_append, List.drop_eq_nil_of_le (Nat.le_add_right _ _),
      List.nil_append, Nat.add_sub_cancel_left]
  unfold record
  simp only [after_shared, Shared.after_io, IoState.after_sent, hsent]
  rfl

theorem settled_after (c : Conn) (next : AfterSettle) :
    settled env (c.after k) next = (settled (env.later k.heads) c next).after k := by
  cases next with
  | respond a => exact respondHead_after k env a c
  | error version status => exact writeErrorHead_after k env version status c

theorem failSettle_after (c : Conn) (next : AfterSettle) :
    failSettle (c.after k) next = (failSettle c next).after k := by
  cases next <;> rfl

theorem stepSettling_after (c : Conn) (next : AfterSettle) (e : Event) :
    stepSettling env (c.after k) next e = (stepSettling (env.later k.heads) c next e).after k := by
  unfold stepSettling
  cases e with
  | settle writes flush =>
      simp only [after_shared, Shared.after_io, IoState.pollSendContinue_after]
      generalize c.shared.io.pollSendContinue flush writes = sent
      obtain ⟨r, io⟩ := sent
      cases r with
      | pending => exact record_after k c io
      | ready =>
          simp only [record_after]
          exact settled_after k env _ next
      | err =>
          simp only [record_after]
          exact failSettle_after k _ next
  | writeDeadline => exact failSettle_after k c next
  | _ => rfl

theorem stepReading_after (c : Conn) (started : Bool) (e : Event) :
    stepReading env (c.after k) started e
      = (stepReading (env.later k.heads) c started e).after k := by
  unfold stepReading
  cases e with
  | read a =>
      cases a with
      | pending => rfl
      | err => rfl
      | ok b =>
          by_cases hb : b = []
          · simp only [hb, ↓reduceIte]
            rfl
          · simp only [hb, ↓reduceIte, after_shared, Shared.after_io, IoState.headRead_after]
            rw [show (env.later k.heads).limits = env.limits from rfl]
            generalize headRead env.limits started b c.shared.io = r
            obtain ⟨r, io⟩ := r
            cases r with
            | ready => exact startRequest_after k env (c.setIo io)
            | failed status => exact writeError_after k env _ _ (c.setIo io)
            | more started => rfl
  | headDeadline =>
      by_cases h : started = true
      · simp only [h, ↓reduceIte]
        exact writeError_after k env _ _ c
      · simp only [h, ↓reduceIte, Bool.false_eq_true]
        rfl
  | _ => rfl

theorem stepFirstPoll_after (c : Conn) (call : Call) (held : Bytes) (e : Event) :
    stepFirstPoll env (c.after k) call held e
      = (stepFirstPoll (env.later k.heads) c call held e).after k := by
  unfold stepFirstPoll
  cases e with
  | handler a =>
      cases a with
      | pending =>
          exact flushOr_after k (.wait call) { c with out := held ++ c.out }
            { c with out := held ++ c.out, pc := .handling call }
      | ready resp => exact respond_after k env call resp { c with out := held ++ c.out }
      | panic n =>
          simp only [send_after]
          rfl
  | _ => rfl

theorem stepHandling_after (c : Conn) (call : Call) (e : Event) :
    stepHandling env (c.after k) call e = (stepHandling (env.later k.heads) c call e).after k := by
  unfold stepHandling
  cases e with
  | handler a =>
      cases a with
      | pending => rfl
      | ready resp => exact respond_after k env call resp c
      | panic n => rfl
  | bodyDeadline =>
      by_cases h : c.shared.io.bodyFinished = true
      · simp only [after_shared, Shared.after_io, IoState.after_bodyFinished, h, ↓reduceIte]
      · simp only [after_shared, Shared.after_io, IoState.after_bodyFinished, h, ↓reduceIte,
          Bool.false_eq_true]
        exact writeError_after k env _ _ c
  | handlerDeadline => exact writeError_after k env _ _ c
  | _ => rfl

/-- A chunk is held back until there is enough to flush. -/
theorem coalesce_after (a : Answer) (c : Conn) :
    (if (c.after k).out.length ≥ env.coalescing.stream then
        flushOr (.stream a false) (c.after k) (c.after k) else c.after k)
      = (if c.out.length ≥ (env.later k.heads).coalescing.stream then
          flushOr (.stream a false) c c else c).after k := by
  rw [show (env.later k.heads).coalescing = env.coalescing from rfl]
  by_cases h : c.out.length ≥ env.coalescing.stream
  · simp only [after_out, h, ↓reduceIte]
    exact flushOr_after k (.stream a false) c c
  · simp only [after_out, h, ↓reduceIte]

theorem stepStreaming_after (c : Conn) (a : Answer) (parked : Bool) (e : Event) :
    stepStreaming env (c.after k) a parked e
      = (stepStreaming (env.later k.heads) c a parked e).after k := by
  unfold stepStreaming
  cases e with
  | stream s =>
      cases s with
      | pending =>
          cases parked with
          | true => rfl
          | false => exact flushOr_after k (.stream a true) c { c with pc := .streaming a true }
      | item b =>
          exact coalesce_after k env a { addItem a b c with pc := .streaming a false }
      | failed => exact flushOr_after k .close c { c with pc := .ended .closed }
      | ended => exact conclude_after k env a (addEnd a c)
      | panic => rfl
  | bodyDeadline =>
      by_cases h : (parked && !c.shared.io.bodyFinished) = true
      · simp only [after_shared, Shared.after_io, IoState.after_bodyFinished, h, ↓reduceIte]
        rfl
      · simp only [after_shared, Shared.after_io, IoState.after_bodyFinished, h, ↓reduceIte,
          Bool.false_eq_true]
  | _ => rfl

/-! ### Bodies -/

theorem sent_drop_after (sh sh' : Shared) :
    ((sh'.after k).io.io.sent).drop ((sh.after k).io.io.sent).length
      = sh'.io.io.sent.drop sh.io.io.sent.length := by
  change (k.sent ++ sh'.io.io.sent).drop (k.sent ++ sh.io.io.sent).length = _
  rw [List.length_append, List.drop_append, List.drop_eq_nil_of_le (Nat.le_add_right _ _),
    List.nil_append, Nat.add_sub_cancel_left]

theorem stepBody_after (c : Conn) (b : BodyState) (op : BodyOp) :
    stepBody (c.after k) (b.after k) op = (stepBody c b op).after k := by
  unfold stepBody
  cases op with
  | poll a =>
      simp only [after_shared, pollChunk_after, Prior.outcome, sent_drop_after]
      rfl
  | abandon =>
      by_cases h : b.done = true
      · simp only [BodyState.after_done, h, ↓reduceIte]
      · simp only [BodyState.after_done, h, ↓reduceIte, Bool.false_eq_true, after_shared,
          fail_after]
        rfl
  | drop =>
      simp only [after_shared, drop_after]
      rfl

theorem stepStale_after (c : Conn) (i : Nat) (b : BodyState) (op : BodyOp) :
    stepStale (c.after k) i (b.after k) op = (stepStale c i b op).after k := by
  unfold stepStale
  cases op with
  | poll a =>
      simp only [after_shared, pollChunk_after, Prior.outcome]
      simp only [after, List.map_set]
  | abandon =>
      by_cases h : b.done = true
      · simp only [BodyState.after_done, h, ↓reduceIte]
      · simp only [BodyState.after_done, h, ↓reduceIte, Bool.false_eq_true, after_shared,
          fail_after]
        simp only [after, List.map_set]
  | drop =>
      simp only [after_shared, drop_after]
      simp only [after, List.eraseIdx_map]

/-- The step of the loop itself, at the place where it waits. -/
def stepPc (c : Conn) (e : Event) : Conn :=
  match c.pc with
  | .reading started => stepReading env c started e
  | .flushing written next => stepFlushing env c written next e
  | .settling next => stepSettling env c next e
  | .firstPoll call held => stepFirstPoll env c call held e
  | .handling call => stepHandling env c call e
  | .streaming a parked => stepStreaming env c a parked e
  | .ended _ => c

theorem stepPc_after (c : Conn) (e : Event) :
    stepPc env (c.after k) e = (stepPc (env.later k.heads) c e).after k := by
  unfold stepPc
  rw [after_pc]
  cases c.pc with
  | reading started => exact stepReading_after k env c started e
  | flushing written next => exact stepFlushing_after k env c written next e
  | settling next => exact stepSettling_after k env c next e
  | firstPoll call held => exact stepFirstPoll_after k env c call held e
  | handling call => exact stepHandling_after k env c call e
  | streaming a parked => exact stepStreaming_after k env c a parked e
  | ended r => rfl

/-! ### Bodies do not move the loop -/

theorem stepBody_pc (c : Conn) (b : BodyState) (op : BodyOp) : (stepBody c b op).pc = c.pc := by
  cases op with
  | poll a => rfl
  | abandon =>
      simp only [stepBody]
      split <;> rfl
  | drop => rfl

theorem step_body_pc (c : Conn) (op : BodyOp) : (step env c (.body op)).pc = c.pc := by
  unfold step
  cases c.current with
  | none => rfl
  | some b =>
      simp only
      split
      · exact stepBody_pc c b op
      · rfl

theorem step_staleBody_pc (c : Conn) (i : Nat) (op : BodyOp) :
    (step env c (.staleBody i op)).pc = c.pc := by
  have hstale : ∀ b, (stepStale c i b op).pc = c.pc := by
    intro b
    cases op with
    | poll a => rfl
    | abandon =>
        simp only [stepStale]
        split <;> rfl
    | drop => rfl
  unfold step
  simp only
  cases c.stale[i]? with
  | none => rfl
  | some b =>
      simp only
      split
      · rfl
      · exact hstale b

theorem bodyHeld_after (c : Conn) : (c.after k).bodyHeld = c.bodyHeld := rfl

/-- **A step does behind a past what it does without one.** -/
theorem step_after (c : Conn) (e : Event) :
    step env (c.after k) e = (step (env.later k.heads) c e).after k := by
  cases e with
  | body op =>
      unfold step
      rw [show (c.after k).current = c.current.map (BodyState.after k) from rfl]
      cases c.current with
      | none => rfl
      | some b =>
          by_cases h : c.bodyHeld = true
          · simp only [Option.map_some, bodyHeld_after, h, ↓reduceIte]
            exact stepBody_after k c b op
          · simp only [Option.map_some, bodyHeld_after, h, ↓reduceIte, Bool.false_eq_true]
  | staleBody i op =>
      unfold step
      rw [show (c.after k).stale = c.stale.map (BodyState.after k) from rfl]
      simp only [List.getElem?_map, after_pc]
      cases c.stale[i]? with
      | none => rfl
      | some b =>
          simp only [Option.map_some]
          cases c.pc with
          | ended r => rfl
          | _ => exact stepStale_after k c i b op
  | _ => exact stepPc_after k env c _

/-- A run behind a past is the run, behind that past. -/
theorem foldl_step_after (c : Conn) (events : List Event) :
    events.foldl (step env) (c.after k) = (events.foldl (step (env.later k.heads)) c).after k :=
  List.foldl_hom (after k) (fun c e => step_after k env c e)

end Conn

end ArmatureH1
