/-
ArmatureH1.BodyRun — a request body over any sequence of polls.

`Reading` is a body with the connection state it reads from and a record of
what its polls returned and which reads they made. The invariant `Ledger`
says that the body is open, was read to its end or has failed, and what the
record then looks like; one poll preserves it, so every run does.
-/
import ArmatureH1.BodyTheorems

namespace ArmatureH1

open ByteString ChunkedDecoder BodyState

/-! ## 1. Runs -/

/-- The bytes a poll delivers. -/
def PollChunk.bytes : PollChunk → Bytes
  | .chunk b => b
  | _ => []

namespace PollLog

/-- All that a sequence of polls delivered. -/
def delivered (log : List PollChunk) : Bytes := log.flatMap PollChunk.bytes

/-- A poll returned an error. -/
def failed (log : List PollChunk) : Prop := ∃ e, PollChunk.error e ∈ log

/-- The end was reported, or no byte is owed any more. -/
def atEnd (kind : BodyKind) (log : List PollChunk) : Prop :=
  ¬ failed log ∧ (PollChunk.ended ∈ log ∨ kind = .none ∨ kind = .length (delivered log).length)

@[simp] theorem delivered_concat (log : List PollChunk) (p : PollChunk) :
    delivered (log ++ [p]) = delivered log ++ p.bytes := by
  simp [delivered]

end PollLog

/-- A body in the course of being polled. -/
structure Reading where
  shared : Shared
  body : BodyState
  log : List PollChunk
  fills : List Fill

namespace Reading

/-- A body as it is made for a request. -/
def begin (limits : Limits) (kind : BodyKind) (needsContinue : Bool) (sh : Shared) : Reading :=
  let (s, sh) := BodyState.new kind needsContinue limits sh
  { shared := sh, body := s, log := [], fills := [] }

/-- One `poll_chunk`. -/
def poll (r : Reading) (a : PollAnswers) : Reading :=
  let (out, sh, s) := pollChunk a r.shared r.body
  { shared := sh
    body := s
    log := r.log ++ [out]
    fills := r.fills ++ pollFills a r.shared r.body }

/-- One `poll_chunk` after another. -/
def polls (r : Reading) (answers : List PollAnswers) : Reading := answers.foldl poll r

abbrev delivered (r : Reading) : Bytes := PollLog.delivered r.log

abbrev failed (r : Reading) : Prop := PollLog.failed r.log

abbrev atEnd (kind : BodyKind) (r : Reading) : Prop := PollLog.atEnd kind r.log

/-! ## 2. The invariant -/

/-- A result that leaves the body open. -/
def Underway (p : PollChunk) : Prop := p = .pending ∨ ∃ y, y ≠ [] ∧ p = .chunk y

/-- The state of a body and the record of its polls. -/
inductive Status (limits : Limits) (pre : Bytes) (r : Reading) : Prop
  | reading {c : Bytes} : Open limits pre c r.delivered r.shared r.body →
      (∀ p ∈ r.log, Underway p) → Status limits pre r
  | ended {c : Bytes} : Finished limits pre c r.delivered r.shared r.body →
      (∀ p ∈ r.log, p = .ended ∨ Underway p) →
      (PollChunk.ended ∈ r.log ∨ r.body.kind = .none ∨ ∃ n, r.body.kind = .length n) →
      Status limits pre r
  | failed {c : Bytes} {before : List PollChunk} {e : BodyError} {k : Nat} :
      Failed limits pre c r.delivered r.shared r.body →
      r.log = before ++ .error e :: List.replicate k .ended →
      (∀ p ∈ before, Underway p) → Status limits pre r

/-- What every run of polls keeps. -/
structure Ledger (limits : Limits) (pre : Bytes) (kind : BodyKind) (r : Reading) : Prop where
  status : Status limits pre r
  kind : r.body.kind = kind
  fills : ∀ f ∈ r.fills, f.buf = []
  broken : (∃ f ∈ r.fills, f.broken) → r.failed

theorem not_failed {r : Reading} (h : ∀ p ∈ r.log, p = .ended ∨ Underway p) : ¬ r.failed := by
  intro hf
  obtain ⟨e, he⟩ := hf
  rcases h _ he with h | h | ⟨y, _, h⟩ <;> cases h

theorem delivered_poll (r : Reading) (a : PollAnswers) :
    (r.poll a).delivered = r.delivered ++ (pollChunk a r.shared r.body).1.bytes := by
  simp [poll, delivered]

/-- A poll of a body that is done only adds to the record. -/
theorem poll_of_done {r : Reading} (h : r.body.done = true) (a : PollAnswers) :
    r.poll a = { r with log := r.log ++ [.ended] } := by
  obtain ⟨hpoll, hfills⟩ := pollChunk_of_done h a r.shared
  simp [poll, hpoll, hfills]

theorem status_poll {limits : Limits} {pre : Bytes} {r : Reading} (h : Status limits pre r)
    (a : PollAnswers) : Status limits pre (r.poll a) := by
  cases h with
  | @reading c ho hlog =>
      have hp := (pollChunk_spec ho a).1
      have hd := delivered_poll r a
      have hlog' : ∀ p ∈ (r.poll a).log, p = (pollChunk a r.shared r.body).1 ∨ Underway p := by
        intro p hmem
        rcases List.mem_append.mp hmem with hmem | hmem
        · exact Or.inr (hlog p hmem)
        · exact Or.inl (List.mem_singleton.mp hmem)
      have hlast : (pollChunk a r.shared r.body).1 ∈ (r.poll a).log := by simp [poll]
      have hsh : (r.poll a).shared = (pollChunk a r.shared r.body).2.1 := rfl
      have hs : (r.poll a).body = (pollChunk a r.shared r.body).2.2 := rfl
      have hl : (r.poll a).log = r.log ++ [(pollChunk a r.shared r.body).1] := rfl
      rw [← hsh, ← hs] at hp
      generalize (pollChunk a r.shared r.body).1 = out at hp hd hlog' hlast hl
      cases hp with
      | pending ho' =>
          refine .reading (by rw [hd]; simpa [PollChunk.bytes] using ho') ?_
          intro p hmem
          rcases hlog' p hmem with rfl | hu
          · exact Or.inl rfl
          · exact hu
      | chunk hy ho' =>
          refine .reading (by rw [hd]; exact ho') ?_
          intro p hmem
          rcases hlog' p hmem with rfl | hu
          · exact Or.inr ⟨_, hy, rfl⟩
          · exact hu
      | last hy hkind hfin =>
          refine .ended (by rw [hd]; exact hfin) ?_ (Or.inr (Or.inr ⟨_, hkind⟩))
          intro p hmem
          rcases hlog' p hmem with rfl | hu
          · exact Or.inr (Or.inr ⟨_, hy, rfl⟩)
          · exact Or.inr hu
      | ended hfin =>
          refine .ended (by rw [hd]; simpa [PollChunk.bytes] using hfin) ?_ (Or.inl hlast)
          intro p hmem
          rcases hlog' p hmem with rfl | hu
          · exact Or.inl rfl
          · exact Or.inr hu
      | @error _ e _ _ hfail =>
          refine .failed (e := e) (k := 0) (by rw [hd]; simpa [PollChunk.bytes] using hfail) ?_ hlog
          rw [hl, List.replicate_zero]
  | @ended c hfin hlog hend =>
      rw [poll_of_done hfin.done]
      refine .ended (c := c) ?_ ?_ ?_
      · simpa [delivered, PollChunk.bytes] using hfin
      · intro p hmem
        rcases List.mem_append.mp hmem with hmem | hmem
        · exact hlog p hmem
        · exact Or.inl (List.mem_singleton.mp hmem)
      · exact Or.inl (by simp)
  | @failed c before e k hfail hlog hbefore =>
      rw [poll_of_done hfail.done]
      refine @Status.failed _ _ _ c before e (k + 1) ?_ ?_ hbefore
      · simpa [delivered, PollChunk.bytes] using hfail
      · simp only [hlog, List.append_assoc, List.cons_append, List.replicate_succ']

theorem Status.kind_poll {limits : Limits} {pre : Bytes} {r : Reading} (h : Status limits pre r)
    (a : PollAnswers) : (r.poll a).body.kind = r.body.kind := by
  cases h with
  | reading ho _ => exact (pollChunk_spec ho a).2.1
  | ended hfin _ _ => rw [poll_of_done hfin.done]
  | failed hfail _ _ => rw [poll_of_done hfail.done]

theorem Status.fills_poll {limits : Limits} {pre : Bytes} {r : Reading} (h : Status limits pre r)
    (a : PollAnswers) :
    (∀ f ∈ pollFills a r.shared r.body, f.buf = []) ∧
      ((∃ f ∈ pollFills a r.shared r.body, f.broken) → (r.poll a).failed) := by
  cases h with
  | reading ho _ =>
      obtain ⟨_, _, hfills, hbroken⟩ := pollChunk_spec ho a
      refine ⟨hfills, fun hex => ?_⟩
      obtain ⟨e, he⟩ := hbroken hex
      exact ⟨e, by simp [poll, ← he]⟩
  | ended hfin _ _ => simp [(pollChunk_of_done hfin.done a r.shared).2]
  | failed hfail _ _ => simp [(pollChunk_of_done hfail.done a r.shared).2]

theorem ledger_poll {limits : Limits} {pre : Bytes} {kind : BodyKind} {r : Reading}
    (h : Ledger limits pre kind r) (a : PollAnswers) : Ledger limits pre kind (r.poll a) := by
  obtain ⟨hfills, hbroken⟩ := h.status.fills_poll a
  refine ⟨status_poll h.status a, (h.status.kind_poll a).trans h.kind, ?_, ?_⟩
  · intro f hmem
    rcases List.mem_append.mp hmem with hmem | hmem
    · exact h.fills f hmem
    · exact hfills f hmem
  · intro hex
    obtain ⟨f, hmem, hbr⟩ := hex
    rcases List.mem_append.mp hmem with hmem | hmem
    · obtain ⟨e, he⟩ := h.broken ⟨f, hmem, hbr⟩
      exact ⟨e, List.mem_append_left _ he⟩
    · exact hbroken ⟨f, hmem, hbr⟩

theorem ledger_begin (limits : Limits) {pre : Bytes} (kind : BodyKind) (needsContinue : Bool)
    {sh : Shared} (h : sh.io.io.received = pre ++ sh.io.buf) :
    Ledger limits pre kind (begin limits kind needsContinue sh) := by
  refine ⟨?_, ?_, by simp [begin, BodyState.new], by simp [begin, BodyState.new]⟩
  · have hbegin := new_spec sh limits kind needsContinue h
    rcases hbegin with ho | ⟨hfin, hkind⟩
    · exact .reading ho (by simp [begin])
    · refine .ended hfin (by simp [begin]) (Or.inr ?_)
      rcases hkind with hkind | hkind
      · exact Or.inl hkind
      · exact Or.inr ⟨0, hkind⟩
  · simp [begin, BodyState.new]

/-- Every run of polls keeps the ledger. -/
theorem ledger_polls {limits : Limits} {pre : Bytes} {kind : BodyKind} {r : Reading}
    (h : Ledger limits pre kind r) (answers : List PollAnswers) :
    Ledger limits pre kind (r.polls answers) := by
  unfold polls
  exact List.foldlRecOn answers poll h (fun r hr a _ => ledger_poll hr a)

/-! ## 3. Conservation -/

theorem Status.chunks_nonempty {limits : Limits} {pre : Bytes} {r : Reading}
    (h : Status limits pre r) {y : Bytes} (hy : PollChunk.chunk y ∈ r.log) : y ≠ [] := by
  have hunderway : ∀ {p}, Underway p → p = .chunk y → y ≠ [] := by
    intro p hp heq
    rcases hp with rfl | ⟨z, hz, rfl⟩
    · cases heq
    · cases heq; exact hz
  cases h with
  | reading _ hlog => exact hunderway (hlog _ hy) rfl
  | ended _ hlog _ =>
      rcases hlog _ hy with h | h
      · cases h
      · exact hunderway h rfl
  | failed _ hlog hbefore =>
      rw [hlog, List.mem_append, List.mem_cons, List.mem_replicate] at hy
      rcases hy with h | h | ⟨_, h⟩
      · exact hunderway (hbefore _ h) rfl
      · cases h
      · cases h

/-- Polls of a body that is done change neither it nor the connection. -/
theorem polls_of_done {r : Reading} (h : r.body.done = true) (answers : List PollAnswers) :
    (r.polls answers).shared = r.shared ∧ (r.polls answers).body = r.body := by
  have hrun : ∀ r' : Reading, r'.shared = r.shared ∧ r'.body = r.body → ∀ a ∈ answers,
      (r'.poll a).shared = r.shared ∧ (r'.poll a).body = r.body := by
    intro r' hr a _
    rw [poll_of_done (by rw [hr.2]; exact h)]
    exact hr
  exact List.foldlRecOn answers poll (motive := fun r' => r'.shared = r.shared ∧ r'.body = r.body)
    ⟨rfl, rfl⟩ hrun

/-- An open body has not reported its end. -/
theorem not_atEnd {limits : Limits} {pre c : Bytes} {r : Reading}
    (ho : Open limits pre c r.delivered r.shared r.body) (hlog : ∀ p ∈ r.log, Underway p) :
    ¬ r.atEnd r.body.kind := by
  intro hend
  have hpart := ho.part
  rcases hend.2 with h | h | h
  · rcases hlog _ h with h | ⟨y, _, h⟩ <;> cases h
  · rw [h] at hpart; cases hpart
  · rw [h] at hpart
    generalize hn : r.delivered.length = n at hpart
    cases hpart with
    | length hsum hpos => omega

/-- A body that was read to its end has reported it. -/
theorem atEnd_of_finished {limits : Limits} {pre c : Bytes} {r : Reading}
    (hfin : Finished limits pre c r.delivered r.shared r.body)
    (hlog : ∀ p ∈ r.log, p = .ended ∨ Underway p)
    (hend : PollChunk.ended ∈ r.log ∨ r.body.kind = .none ∨ ∃ n, r.body.kind = .length n) :
    r.atEnd r.body.kind := by
  refine ⟨not_failed hlog, ?_⟩
  rcases hend with h | h | ⟨n, h⟩
  · exact Or.inl h
  · exact Or.inr (Or.inl h)
  · have hw := hfin.whole
    rw [h] at hw ⊢
    refine Or.inr (Or.inr ?_)
    change BodyKind.length n = BodyKind.length r.delivered.length
    generalize r.delivered = x at hw
    cases hw
    rfl

/-- What a run of polls comes to. `consumed` is what the body has taken off
the stream; it is a proper beginning of a body, a whole body, or what a
failing poll left behind. -/
structure Account (limits : Limits) (pre : Bytes) (kind : BodyKind) (r : Reading)
    (consumed : Bytes) : Prop where
  conserved : r.shared.io.io.received = pre ++ consumed ++ r.body.buffered ++ r.shared.io.buf
  delivered : ∀ more c x rest : Bytes,
    consumed ++ r.body.buffered ++ r.shared.io.buf ++ more = c ++ rest → Whole limits kind c x →
      r.delivered <+: x
  underway : ¬ r.failed → ¬ r.atEnd kind →
    Partial limits kind r.body consumed r.delivered ∧
      (∀ c rest x : Bytes, consumed = c ++ rest → ¬ Whole limits kind c x) ∧
      r.shared.bodyRead = false
  ended : r.atEnd kind →
    Whole limits kind consumed r.delivered ∧ r.body.buffered = [] ∧ r.shared.bodyRead = true
  failed : r.failed →
    (∃ before e k, r.log = before ++ .error e :: List.replicate k .ended ∧
      ∀ p ∈ before, Underway p) ∧
    (∃ (c extra : Bytes) (s : BodyState), consumed = c ++ extra ∧
      Partial limits kind s c r.delivered) ∧
    r.shared.bodyRead = false

theorem Ledger.account {limits : Limits} {pre : Bytes} {kind : BodyKind} {r : Reading}
    (h : Ledger limits pre kind r) : ∃ consumed, Account limits pre kind r consumed := by
  obtain ⟨hstatus, hkind, _, _⟩ := h
  subst hkind
  cases hstatus with
  | @reading c ho hlog =>
      have hnf : ¬ r.failed := not_failed fun p hp => Or.inr (hlog p hp)
      refine ⟨c, ?_, ?_, ?_, ?_, ?_⟩
      · rw [ho.conserved]; simp only [List.append_assoc]
      · intro more c' x rest heq hw
        simp only [List.append_assoc] at heq
        exact ho.part.delivered_prefix heq hw
      · intro _ _
        exact ⟨ho.part, fun _ _ _ hc => ho.part.not_whole hc, ho.notRead⟩
      · intro hend
        exact absurd hend (not_atEnd ho hlog)
      · intro hf
        exact absurd hf hnf
  | @ended c hfin hlog hend =>
      have hnf : ¬ r.failed := not_failed hlog
      have hat := atEnd_of_finished hfin hlog hend
      refine ⟨c, ?_, ?_, ?_, ?_, ?_⟩
      · rw [hfin.conserved, hfin.buffered, List.append_nil]
      · intro more c' x rest heq hw
        simp only [List.append_assoc] at heq
        obtain ⟨_, rfl, _⟩ := hfin.whole.unique hw heq
        exact List.prefix_refl _
      · intro _ hnot
        exact absurd hat hnot
      · intro _
        exact ⟨hfin.whole, hfin.buffered, hfin.read⟩
      · intro hf
        exact absurd hf hnf
  | @failed c before e k hfail hlog hbefore =>
      obtain ⟨extra, hconserved⟩ := hfail.conserved
      obtain ⟨s₀, _, hpart⟩ := hfail.part
      have hf : r.failed := ⟨e, by rw [hlog]; simp⟩
      refine ⟨c ++ extra, ?_, ?_, ?_, ?_, ?_⟩
      · rw [hconserved]; simp only [List.append_assoc]
      · intro more c' x rest heq hw
        simp only [List.append_assoc] at heq
        exact hpart.delivered_prefix heq hw
      · intro hnf _
        exact absurd hf hnf
      · intro hend
        exact absurd hf hend.1
      · intro _
        exact ⟨⟨before, e, k, hlog, hbefore⟩, ⟨c, extra, s₀, rfl, hpart⟩, hfail.notRead⟩

/-- **Conservation.** Whatever the body's framing, whatever had arrived behind
the head, and whatever the transport answers to any sequence of polls:

* reads are made only with the connection's buffer empty;
* the chunks delivered are not empty, and a read that ends the stream makes
  the body fail;
* what arrived behind the head is what the body consumed, then what it
  holds, then the connection's buffer, and the body is underway, at its end
  or failed as `Account` says;
* and once it failed or ended, no later poll changes it. -/
theorem polls_conserve (limits : Limits) (kind : BodyKind) (needsContinue : Bool) (sh : Shared)
    (pre : Bytes) (harrived : sh.io.io.received = pre ++ sh.io.buf) (answers : List PollAnswers) :
    (∀ f ∈ ((begin limits kind needsContinue sh).polls answers).fills, f.buf = []) ∧
    (∀ y, PollChunk.chunk y ∈ ((begin limits kind needsContinue sh).polls answers).log → y ≠ []) ∧
    ((∃ f ∈ ((begin limits kind needsContinue sh).polls answers).fills, f.broken) →
      ((begin limits kind needsContinue sh).polls answers).failed) ∧
    (∃ consumed, Account limits pre kind ((begin limits kind needsContinue sh).polls answers)
      consumed) ∧
    (((begin limits kind needsContinue sh).polls answers).failed ∨
        ((begin limits kind needsContinue sh).polls answers).atEnd kind →
      ∀ more, (((begin limits kind needsContinue sh).polls answers).polls more).shared
            = ((begin limits kind needsContinue sh).polls answers).shared ∧
          (((begin limits kind needsContinue sh).polls answers).polls more).body
            = ((begin limits kind needsContinue sh).polls answers).body) := by
  have hledger := ledger_polls (ledger_begin limits kind needsContinue harrived) answers
  generalize (begin limits kind needsContinue sh).polls answers = r at hledger
  refine ⟨hledger.fills, fun y => hledger.status.chunks_nonempty, hledger.broken,
    hledger.account, ?_⟩
  intro hover more
  apply polls_of_done
  cases hledger.status with
  | reading ho hlog =>
      rcases hover with hover | hover
      · exact absurd hover (not_failed fun p hp => Or.inr (hlog p hp))
      · rw [← hledger.kind] at hover
        exact absurd hover (not_atEnd ho hlog)
  | ended hfin _ _ => exact hfin.done
  | failed hfail _ _ => exact hfail.done

/-- A connection that has read `"head"` and the bytes `buf` behind it. -/
def arrived (buf : Bytes) : Shared :=
  { io :=
      { io := { received := ascii "head" ++ buf, sent := [] }
        buf := buf
        scanned := 0
        headEnd := none
        bodyFinished := true
        bodyGeneration := 0
        pendingContinue := 0 }
    bodyRead := true }

/-- A body of five bytes that is read two and three bytes at a time, with a
byte of the next request behind it. -/
theorem polls_conserve_five_bytes :
    ((begin Limits.default (.length 5) false (arrived (ascii "he"))).polls
        [⟨[], .ok, []⟩, ⟨[], .ok, [.ok (ascii "lloG")]⟩]).delivered = ascii "hello" ∧
    ∃ consumed, Account Limits.default (ascii "head") (.length 5)
      ((begin Limits.default (.length 5) false (arrived (ascii "he"))).polls
        [⟨[], .ok, []⟩, ⟨[], .ok, [.ok (ascii "lloG")]⟩]) consumed :=
  ⟨by decide, (polls_conserve Limits.default (.length 5) false (arrived (ascii "he")) (ascii "head")
    rfl _).2.2.2.1⟩

/-- The end of a chunked body comes behind its data: here all of the body is
delivered, and its end is not reported. -/
theorem chunked_delivered_before_end :
    Whole Limits.default .chunked (ascii "5\r\nhello\r\n0\r\n\r\n") (ascii "hello") ∧
    ((begin Limits.default .chunked false (arrived (ascii "5\r\nhello\r\n0\r\n\r\n"))).polls
      [⟨[], .ok, []⟩]).delivered = ascii "hello" ∧
    ¬ ((begin Limits.default .chunked false (arrived (ascii "5\r\nhello\r\n0\r\n\r\n"))).polls
      [⟨[], .ok, []⟩]).atEnd .chunked := by
  have hdrain : (ChunkedDecoder.new Limits.default).drain (ascii "5\r\nhello\r\n0\r\n\r\n")
      = ⟨ascii "hello", [], .ended []⟩ := by decide +kernel
  have hlog : ((begin Limits.default .chunked false
      (arrived (ascii "5\r\nhello\r\n0\r\n\r\n"))).polls [⟨[], .ok, []⟩]).log
        = [.chunk (ascii "hello")] := by decide +kernel
  refine ⟨?_, ?_, ?_⟩
  · obtain ⟨m, hv, hm⟩ := exists_message (congrArg Outcome.stop hdrain)
    rw [List.append_nil] at hm
    have hbody : m.body = ascii "hello" := by
      have := drain_message hv []
      rw [List.append_nil, ← hm, hdrain] at this
      exact (congrArg Outcome.body this).symm
    rw [hm, ← hbody]
    exact .chunked hv
  · rw [delivered, hlog]
    rfl
  · intro hend
    rcases hend.2 with h | h | h
    · rw [hlog] at h
      simp at h
    · cases h
    · cases h

end Reading

end ArmatureH1
