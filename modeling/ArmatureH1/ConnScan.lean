/-
ArmatureH1.ConnScan — the search for a head, at every point of every run.

`has_complete_head` may resume its search only while its cursor tells the
truth about the buffer. Everything that takes bytes out of the buffer, or
puts them back at its front, starts the search over; everything else leaves
buffer and cursor alone (`Rescans`), except a read, which adds to the end.
So the cursor is right in every reachable state, whatever was left in the
buffer by the request before, and reading a head never depends on how its
bytes were delivered.
-/
import ArmatureH1.ConnReplies

namespace ArmatureH1

open ByteString

/-! ## 1. Bodies -/

/-- The buffer and its cursor are left alone, or the search starts over. -/
def IoState.Rescans (st st' : IoState) : Prop :=
  (st'.buf = st.buf ∧ st'.scanned = st.scanned) ∨ st'.scanned = 0

namespace IoState

theorem Rescans.refl (st : IoState) : Rescans st st := Or.inl ⟨rfl, rfl⟩

theorem Rescans.trans {st st' st'' : IoState} (h : Rescans st st') (h' : Rescans st' st'') :
    Rescans st st'' := by
  rcases h' with ⟨hbuf, hscanned⟩ | hzero
  · rcases h with ⟨hbuf', hscanned'⟩ | hzero
    · exact Or.inl ⟨hbuf.trans hbuf', hscanned.trans hscanned'⟩
    · exact Or.inr (hscanned.trans hzero)
  · exact Or.inr hzero

theorem Rescans.scanOk {st st' : IoState} (h : Rescans st st') (hok : st.ScanOk) : st'.ScanOk := by
  rcases h with ⟨hbuf, hscanned⟩ | hzero
  · rw [ScanOk, hbuf, hscanned]
    exact hok
  · exact scanOk_of_zero hzero

theorem rescans_finishBody (st : IoState) (g : Nat) : Rescans st (st.finishBody g) := by
  unfold finishBody
  split <;> exact Rescans.refl st

theorem rescans_pushBack (st : IoState) (b : Bytes) : Rescans st (st.pushBack b) := by
  unfold pushBack
  split
  · exact Rescans.refl st
  · exact Or.inr rfl

theorem rescans_pollSendContinue (flush : FlushAnswer) :
    ∀ (writes : List WriteAnswer) (st : IoState),
    Rescans st (st.pollSendContinue flush writes).2 := by
  intro writes
  induction writes with
  | nil =>
      intro st
      unfold pollSendContinue
      split <;> exact Rescans.refl st
  | cons a rest ih =>
      intro st
      unfold pollSendContinue
      split
      · exact Rescans.refl st
      · cases a with
        | pending => exact Rescans.refl st
        | err => exact Rescans.refl st
        | ok n =>
            simp only
            split
            · exact Rescans.refl st
            · exact Rescans.trans (Or.inl ⟨rfl, rfl⟩) (ih (st.sendContinue n))

end IoState

namespace BodyState

open IoState

theorem rescans_notifyFinished (sh : Shared) (s : BodyState) :
    Rescans sh.io (notifyFinished sh s).1.io := by
  unfold notifyFinished
  split
  · exact Rescans.refl _
  · exact rescans_finishBody _ _

theorem rescans_finish (sh : Shared) (s : BodyState) : Rescans sh.io (finish sh s).1.io :=
  rescans_notifyFinished _ _

theorem rescans_fail (sh : Shared) (s : BodyState) : Rescans sh.io (fail sh s).1.io :=
  rescans_notifyFinished _ _

theorem rescans_finishAndReturn (sh : Shared) (s : BodyState) :
    Rescans sh.io (finishAndReturn sh s).1.io :=
  (rescans_finish sh s).trans (rescans_pushBack _ _)

theorem rescans_draw (max : Nat) (sh : Shared) (s : BodyState) :
    Rescans sh.io (draw max sh s).1.io := by
  unfold draw
  split
  · exact Or.inr rfl
  · exact Rescans.refl _

theorem rescans_lengthRound (sh : Shared) (s : BodyState) :
    Rescans sh.io (lengthRound sh s).2.1.io := by
  have hdraw : Rescans sh.io (if s.remaining > 0 then draw s.remaining sh s else (sh, s)).1.io := by
    split
    · exact rescans_draw _ _ _
    · exact Rescans.refl _
  unfold lengthRound
  generalize (if s.remaining > 0 then draw s.remaining sh s else (sh, s)) = drawn at hdraw
  obtain ⟨sh', s'⟩ := drawn
  simp only
  split
  · split
    · exact hdraw.trans (rescans_finishAndReturn _ _)
    · exact hdraw
  · split
    · exact hdraw.trans (rescans_finish _ _)
    · exact hdraw

theorem rescans_chunkedRound : ∀ (turns : Nat) (sh : Shared) (s : BodyState),
    Rescans sh.io (chunkedRound turns sh s).2.1.io
  | 0, sh, _ => Rescans.refl sh.io
  | turns + 1, sh, s => by
      have hdraw := rescans_draw sh.io.buf.length sh s
      unfold chunkedRound
      generalize draw sh.io.buf.length sh s = drawn at hdraw
      obtain ⟨sh', s'⟩ := drawn
      simp only
      split
      · exact hdraw
      · split
        · exact hdraw.trans (rescans_fail _ _)
        · exact hdraw
        · exact hdraw.trans (rescans_chunkedRound turns _ _)
        · exact hdraw.trans (rescans_finishAndReturn _ _)
        · exact hdraw

theorem rescans_round (sh : Shared) (s : BodyState) : Rescans sh.io (round sh s).2.1.io := by
  unfold round
  split
  · exact rescans_finish _ _
  · exact rescans_lengthRound _ _
  · exact rescans_chunkedRound _ _ _

theorem rescans_pollLoop : ∀ (reads : List ReadAnswer) (sh : Shared) (s : BodyState),
    Rescans sh.io (pollLoop reads sh s).2.1.io := by
  intro reads
  induction reads with
  | nil =>
      intro sh s
      have hround := rescans_round sh s
      unfold pollLoop
      split
      · rename_i heq; rw [heq] at hround; exact hround
      · rename_i heq; rw [heq] at hround; exact hround
  | cons a rest ih =>
      intro sh s
      have hround := rescans_round sh s
      unfold pollLoop
      split
      · rename_i heq; rw [heq] at hround; exact hround
      · rename_i sh' s' heq
        rw [heq] at hround
        cases a with
        | pending => exact hround
        | err => exact hround.trans (rescans_fail _ _)
        | ok b =>
            simp only
            split
            · exact hround.trans (rescans_fail _ _)
            · exact hround.trans (Rescans.trans (Or.inr rfl) (ih _ _))

/-- A poll of a body may take from the buffer, but then the search for a
head starts over. -/
theorem rescans_pollChunk (a : PollAnswers) (sh : Shared) (s : BodyState) :
    Rescans sh.io (pollChunk a sh s).2.1.io := by
  unfold pollChunk
  split
  · exact Rescans.refl _
  · split
    · exact rescans_pollLoop _ _ _
    · have hsend := rescans_pollSendContinue a.flush a.writes sh.io
      split
      · rename_i heq; rw [heq] at hsend; exact hsend
      · rename_i heq; rw [heq] at hsend; exact hsend.trans (rescans_fail _ _)
      · rename_i heq; rw [heq] at hsend; exact hsend.trans (rescans_pollLoop _ _ _)

theorem rescans_new (kind : BodyKind) (needsContinue : Bool) (limits : Limits) (sh : Shared) :
    Rescans sh.io (new kind needsContinue limits sh).2.io := by
  have hstart : Rescans sh.io sh.io.bodyStarted := Or.inl ⟨rfl, rfl⟩
  unfold new
  cases kind with
  | none => exact hstart.trans (rescans_finishBody _ _)
  | chunked => exact hstart
  | length n =>
      simp only
      split
      · exact hstart.trans (rescans_finishBody _ _)
      · exact hstart

end BodyState

/-! ## 2. The loop -/

namespace Conn

/-- The connection's cursor is right. -/
def ScanOk (c : Conn) : Prop := c.shared.io.ScanOk

theorem flushOr_scan {next : AfterFlush} {c done : Conn} (h : c.ScanOk) (hdone : done.ScanOk) :
    (flushOr next c done).ScanOk := by
  unfold flushOr
  split
  · exact hdone
  · exact h

theorem settleContinue_scan {next : AfterSettle} {c : Conn} {go : Conn → Conn} (h : c.ScanOk)
    (hgo : ∀ c' : Conn, c'.ScanOk → (go c').ScanOk) : (settleContinue next c go).ScanOk := by
  unfold settleContinue
  split
  · exact hgo _ h
  · split
    · exact hgo _ h
    · exact h

theorem writeErrorHead_scan {c : Conn} (h : c.ScanOk) (env : Env) (version : Version)
    (status : Nat) :
    (writeErrorHead env version status c).ScanOk := flushOr_scan h h

theorem writeError_scan {c : Conn} (h : c.ScanOk) (env : Env) (version : Version) (status : Nat) :
    (writeError env version status c).ScanOk :=
  settleContinue_scan h fun _ h' => writeErrorHead_scan h' env version status

theorem callHandler_scan {c : Conn} (hc : c.ScanOk) (env : Env) (h : Head) (kind : BodyKind) :
    (callHandler env h kind c).ScanOk := by
  have hnew := (BodyState.rescans_new kind (Call.ofHead h).expectsContinue env.limits
    ⟨{ c.shared.io with
      pendingContinue := if (Call.ofHead h).expectsContinue then continueBytes.length else 0
      bodyFinished := false }, false⟩).scanOk hc
  unfold callHandler
  simp only
  generalize BodyState.new kind (Call.ofHead h).expectsContinue env.limits ⟨{ c.shared.io with
      pendingContinue := if (Call.ofHead h).expectsContinue then continueBytes.length else 0
      bodyFinished := false }, false⟩ = made at hnew
  obtain ⟨b, sh⟩ := made
  simp only
  split
  · exact hnew
  · split
    · exact hnew
    · exact hnew

theorem startRequest_scan {c : Conn} (h : c.ScanOk) (env : Env) : (startRequest env c).ScanOk := by
  unfold startRequest
  split
  · exact h
  · rename_i n hn
    simp only
    generalize hc : ({ c.setIo (c.shared.io.splitHead n).2 with
        current := none
        stale := c.current.toList ++ c.stale
        past := c.past ++ c.now.toList
        now := some (Exchange.start (c.shared.io.splitHead n).1) } : Conn) = c'
    have hc' : c'.ScanOk := by subst hc; exact IoState.scanOk_of_zero rfl
    split
    · exact writeError_scan hc' _ _ _
    · split
      · exact writeError_scan hc' _ _ _
      · exact callHandler_scan hc' _ _ _

theorem enterRead_scan {c : Conn} (h : c.ScanOk) (env : Env) : (enterRead env c).ScanOk := by
  have h' : (c.setIo c.shared.io.hasCompleteHead.2).ScanOk := IoState.ScanOk.hasCompleteHead h
  unfold enterRead
  simp only
  split
  · exact startRequest_scan h' env
  · exact flushOr_scan h' h'

theorem dispose_scan {c : Conn} (h : c.ScanOk) (env : Env) (d : Disposition) :
    (dispose env c d).ScanOk := by
  cases d with
  | keepAlive => exact enterRead_scan h env
  | close => exact h
  | upgrade =>
      unfold dispose
      simp only
      split
      · exact h
      · exact h

theorem conclude_scan {c : Conn} (h : c.ScanOk) (env : Env) (a : Answer) :
    (conclude env a c).ScanOk := by
  have h' : (c.setIo c.shared.io.hasCompleteHead.2).ScanOk := IoState.ScanOk.hasCompleteHead h
  unfold conclude
  split
  · simp only
    split
    · exact dispose_scan h' env _
    · exact flushOr_scan h' (dispose_scan h' env _)
  · exact flushOr_scan h (dispose_scan h env _)

theorem respondHead_scan {c : Conn} (h : c.ScanOk) (env : Env) (a : Answer) :
    (respondHead env a c).ScanOk := by
  unfold respondHead
  simp only
  split
  · split
    · exact conclude_scan (by exact h) env a
    · exact conclude_scan (by exact h) env a
    · exact flushOr_scan h h
  · exact conclude_scan (by exact h) env a

theorem respond_scan {c : Conn} (h : c.ScanOk) (env : Env) (call : Call) (resp : Response) :
    (respond env call resp c).ScanOk :=
  settleContinue_scan h fun _ h' => respondHead_scan h' env _

theorem proceed_scan {c : Conn} (h : c.ScanOk) (env : Env) (next : AfterFlush) :
    (proceed env c next).ScanOk := by
  cases next with
  | finish a => exact dispose_scan h env _
  | _ => exact h

theorem failFlush_scan {c : Conn} (h : c.ScanOk) (next : AfterFlush) :
    (failFlush c next).ScanOk := by
  cases next <;> exact h

theorem stepFlushing_scan {c : Conn} (h : c.ScanOk) (env : Env) (written : Nat) (next : AfterFlush)
    (e : Event) : (stepFlushing env c written next e).ScanOk := by
  have hfail := failFlush_scan h next
  have hproceed : (proceed env { c with out := [] } next).ScanOk :=
    proceed_scan (by exact h) env next
  unfold stepFlushing
  repeat' split
  all_goals first | exact h | exact hfail | exact hproceed

theorem stepSettling_scan {c : Conn} (h : c.ScanOk) (env : Env) (next : AfterSettle) (e : Event) :
    (stepSettling env c next e).ScanOk := by
  have hfail : ∀ c' : Conn, c'.ScanOk → (failSettle c' next).ScanOk := by
    intro c' h'
    cases next <;> exact h'
  unfold stepSettling
  split
  · rename_i writes flush
    have hsend := IoState.rescans_pollSendContinue flush writes c.shared.io
    split
    · rename_i heq; rw [heq] at hsend; exact hsend.scanOk h
    · rename_i heq
      rw [heq] at hsend
      cases next with
      | respond a => exact respondHead_scan (c := c.record _) (hsend.scanOk h) env a
      | error version status =>
          exact writeErrorHead_scan (c := c.record _) (hsend.scanOk h) env version status
    · rename_i heq; rw [heq] at hsend; exact hfail _ (hsend.scanOk h)
  · exact hfail c h
  · exact h

theorem stepReading_scan {c : Conn} (h : c.ScanOk) (env : Env) (started : Bool) (e : Event) :
    (stepReading env c started e).ScanOk := by
  unfold stepReading
  split
  · exact h
  · rename_i b
    split
    · exact h
    · have hread : (headRead env.limits started b c.shared.io).2.ScanOk := by
        rw [headRead_io]
        exact (IoState.ScanOk.readMore h b).hasCompleteHead
      split
      · rename_i heq; rw [heq] at hread; exact startRequest_scan (c := c.setIo _) hread env
      · rename_i heq; rw [heq] at hread; exact writeError_scan (c := c.setIo _) hread _ _ _
      · rename_i heq; rw [heq] at hread; exact hread
  · split
    · exact writeError_scan h _ _ _
    · exact h
  · exact h

theorem stepFirstPoll_scan {c : Conn} (h : c.ScanOk) (env : Env) (call : Call) (held : Bytes)
    (e : Event) : (stepFirstPoll env c call held e).ScanOk := by
  unfold stepFirstPoll
  split
  · exact flushOr_scan h h
  · exact respond_scan (by exact h) env call _
  · exact h
  · exact h

theorem stepHandling_scan {c : Conn} (h : c.ScanOk) (env : Env) (call : Call) (e : Event) :
    (stepHandling env c call e).ScanOk := by
  unfold stepHandling
  split
  · exact respond_scan h env call _
  · exact h
  · split
    · exact h
    · exact writeError_scan h _ _ _
  · exact writeError_scan h _ _ _
  · exact h

theorem stepStreaming_scan {c : Conn} (h : c.ScanOk) (env : Env) (a : Answer) (parked : Bool)
    (e : Event) : (stepStreaming env c a parked e).ScanOk := by
  unfold stepStreaming
  split
  · split
    · exact h
    · exact flushOr_scan h h
  · simp only
    split
    · exact flushOr_scan h h
    · exact h
  · exact flushOr_scan h h
  · exact conclude_scan (by exact h) env a
  · exact h
  · split
    · exact h
    · exact h
  · exact h

theorem stepBody_scan {c : Conn} (h : c.ScanOk) (b : BodyState) (op : BodyOp) :
    (stepBody c b op).ScanOk := by
  cases op with
  | poll a => exact (BodyState.rescans_pollChunk a c.shared b).scanOk h
  | abandon =>
      simp only [stepBody]
      split
      · exact h
      · exact (BodyState.rescans_fail c.shared b).scanOk h
  | drop => exact (BodyState.rescans_notifyFinished c.shared b).scanOk h

theorem stepStale_scan {c : Conn} (h : c.ScanOk) (i : Nat) (b : BodyState) (op : BodyOp) :
    (stepStale c i b op).ScanOk := by
  cases op with
  | poll a => exact (BodyState.rescans_pollChunk a c.shared b).scanOk h
  | abandon =>
      simp only [stepStale]
      split
      · exact h
      · exact (BodyState.rescans_fail c.shared b).scanOk h
  | drop => exact (BodyState.rescans_notifyFinished c.shared b).scanOk h

theorem step_scan {c : Conn} (h : c.ScanOk) (env : Env) (e : Event) : (step env c e).ScanOk := by
  unfold step
  split
  · split
    · split
      · exact stepBody_scan h _ _
      · exact h
    · exact h
  · split
    · split
      · exact h
      · exact stepStale_scan h _ _ _
    · exact h
  · split
    · exact stepReading_scan h _ _ _
    · exact stepFlushing_scan h _ _ _ _
    · exact stepSettling_scan h _ _ _
    · exact stepFirstPoll_scan h _ _ _ _
    · exact stepHandling_scan h _ _ _
    · exact stepStreaming_scan h _ _ _ _
    · exact h

/-- The cursor is right in every state that a connection can reach. -/
theorem run_scan (env : Env) (buffered : Bytes) (events : List Event) :
    (run env buffered events).ScanOk :=
  List.foldlRecOn events (step env) (enterRead_scan (IoState.scanOk_of_zero rfl) env)
    fun _ hc e _ => step_scan hc env e

/-! ## 3. A head, however it is delivered -/

/-- **Reading a head does not depend on segmentation.** Take any state that
a connection can reach, with whatever is in its buffer, and deliver any
further bytes in any reads. Let `s` be all of it without its leading blank
lines. If a head is complete in `s`, it is refused with 431 exactly when it
is longer than the limit or has too many fields, and within the limit it is
the region up to its first empty line that is parsed. If none is complete,
then after at least one read `s` is refused once it is longer than the
limit, and until then the loop waits for more. -/
theorem head_delivery (env : Env) (buffered : Bytes) (events : List Event) (reads : List Bytes) :
    let st := (run env buffered events).shared.io
    let s := skipBlank (st.buf ++ reads.flatten)
    let limit := env.limits.maxHeadBytes
    (∀ n, findHeadEnd s = some n →
      (n ≤ limit → awaitHead env.httparse env.limits reads st
        = .region (s.take n) (parseHeadRegion env.httparse (s.take n) env.limits)) ∧
      ((awaitHead env.httparse env.limits reads st).status = some 431 ↔ limit < n ∨
        parseHeadRegion env.httparse (s.take n) env.limits = .error .tooManyHeaders)) ∧
    (findHeadEnd s = none →
      (reads ≠ [] → limit < s.length →
        awaitHead env.httparse env.limits reads st = .unterminated 431) ∧
      (0 < limit → s.length ≤ limit →
        awaitHead env.httparse env.limits reads st = .waiting)) := by
  intro st s limit
  have hscan : st.ScanOk := run_scan env buffered events
  have hread := readUntilHeadOrIdle_awaited env.limits reads hscan
  refine ⟨fun n hn => ⟨fun hle => ?_, awaitHead_status hscan hn⟩, fun hnone => ⟨?_, ?_⟩⟩
  · rcases awaitHead_region env.httparse env.limits hscan hn with h | ⟨-, hlt⟩
    · exact h
    · exact absurd hlt (Nat.not_lt.mpr hle)
  · intro hne hlong
    have hfailed := hread.failed hnone (by simpa using hne) hlong
    unfold awaitHead
    generalize readUntilHeadOrIdle env.limits reads st = r at hfailed
    obtain ⟨step, st'⟩ := r
    cases hfailed
    rfl
  · intro hpos hshort
    obtain ⟨started, hmore⟩ := hread.waiting hnone hpos hshort
    unfold awaitHead
    generalize readUntilHeadOrIdle env.limits reads st = r at hmore
    obtain ⟨step, st'⟩ := r
    cases hmore
    rfl

/-- A request with three fields on a connection that allows two: a region
well within the limit, and the answer is 431 all the same. -/
theorem many_fields_refused :
    let env := { sampleEnv with limits := { Limits.default with maxHeaders := 2 } }
    let st := (run env [] []).shared.io
    skipBlank (st.buf ++ [expectRequest].flatten) = expectRequest ∧
      findHeadEnd expectRequest = some expectRequest.length ∧
      expectRequest.length ≤ env.limits.maxHeadBytes ∧
      (awaitHead env.httparse env.limits [expectRequest] st).status = some 431 := by
  decide +kernel

end Conn

end ArmatureH1
