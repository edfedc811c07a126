/-
ArmatureH1.HeadReadTheorems — waiting for a head does not depend on how the
bytes arrive.

`has_complete_head` searches only what it has not searched before. The
cursor is right as long as no head ends in front of it (`ScanOk`), and then
the search finds what a search of the whole buffer would
(`hasCompleteHead_eq`). Blank lines are dropped as they come; a stray CR at
the end of one read may turn out to be half of one, so what is left of the
stream is `skipBlank` of what is left in the buffer and all that follows.

The buffer is also filled, pushed back to and taken from by the body, in any
order with the search; `ScanExact` is what all these operations keep.
-/
import ArmatureH1.HeadRead

namespace ArmatureH1

open ByteString

/-! ## 1. Blank lines -/

@[simp] theorem blankLines_zero : blankLines 0 = [] := rfl

theorem blankLines_succ (n : Nat) : blankLines (n + 1) = crlf ++ blankLines n := rfl

theorem blankLines_add (m n : Nat) : blankLines (m + n) = blankLines m ++ blankLines n := by
  rw [blankLines, List.replicate_add, List.flatten_append]
  rfl

@[simp] theorem length_blankLines (n : Nat) : (blankLines n).length = 2 * n := by
  induction n with
  | zero => rfl
  | succ n ih => rw [blankLines_succ, List.length_append, ih, length_crlf]; omega

/-- What is counted is what the buffer starts with. -/
theorem eq_blankLines_append : ∀ buf : Bytes,
    buf = blankLines (blankPairs buf) ++ buf.drop (2 * blankPairs buf) := by
  intro buf
  induction buf using blankPairs.induct with
  | case1 a b rest h ih =>
      obtain ⟨rfl, rfl⟩ := h
      have hpairs : blankPairs (CR :: LF :: rest) = blankPairs rest + 1 := by simp [blankPairs]
      have hdrop : (CR :: LF :: rest).drop (2 * (blankPairs rest + 1))
          = rest.drop (2 * blankPairs rest) := rfl
      rw [hpairs, blankLines_succ, hdrop, List.append_assoc, ← ih]
      rfl
  | case2 a b rest h =>
      have hpairs : blankPairs (a :: b :: rest) = 0 := by simp only [blankPairs, if_neg h]
      simp [hpairs]
  | case3 buf h =>
      have hpairs : blankPairs buf = 0 := by
        unfold blankPairs
        split
        · exact absurd rfl (h _ _ _)
        · rfl
      simp [hpairs]

theorem eq_skipBlank (s : Bytes) : s = blankLines (blankPairs s) ++ skipBlank s :=
  eq_blankLines_append s

@[simp] theorem skipBlank_crlf (s : Bytes) : skipBlank (crlf ++ s) = skipBlank s := by
  have hpairs : blankPairs (crlf ++ s) = blankPairs s + 1 := by simp [crlf, blankPairs]
  rw [skipBlank, hpairs, Nat.mul_add, Nat.add_comm, ← List.drop_drop]
  rfl

theorem skipBlank_blankLines (n : Nat) (s : Bytes) :
    skipBlank (blankLines n ++ s) = skipBlank s := by
  induction n with
  | zero => rfl
  | succ n ih => rw [blankLines_succ, List.append_assoc, skipBlank_crlf, ih]

/-- Blank lines may be dropped before the rest has arrived. -/
theorem skipBlank_append (s t : Bytes) : skipBlank (s ++ t) = skipBlank (skipBlank s ++ t) := by
  conv => lhs; rw [eq_skipBlank s, List.append_assoc, skipBlank_blankLines]

@[simp] theorem skipBlank_skipBlank (s : Bytes) : skipBlank (skipBlank s) = skipBlank s := by
  have h := skipBlank_append s []
  simpa using h.symm

/-- Two bytes that are no blank line are the start of something else. -/
theorem skipBlank_append_of_two {s : Bytes} (h : skipBlank s = s) (hlen : 2 ≤ s.length)
    (t : Bytes) :
    skipBlank (s ++ t) = s ++ t := by
  match s with
  | a :: b :: rest =>
      have hpair : ¬ (a = CR ∧ b = LF) := by
        rintro ⟨rfl, rfl⟩
        have hlen := congrArg List.length h
        simp [skipBlank, blankPairs] at hlen
        omega
      simp [skipBlank, blankPairs, hpair]

namespace IoState

theorem stripBlank_buf (st : IoState) : st.stripBlank.buf = skipBlank st.buf := by
  unfold stripBlank skipBlank
  by_cases h : 2 * blankPairs st.buf > 0
  · simp only [h, if_true]
  · simp only [h, if_false]
    have : 2 * blankPairs st.buf = 0 := by omega
    rw [this, List.drop_zero]

/-- `has_complete_head` drops blank lines off the front of the buffer and
touches nothing else but the scanner's cursor. -/
theorem hasCompleteHead_keeps (st : IoState) :
    st.buf = blankLines (blankPairs st.buf) ++ st.hasCompleteHead.2.buf ∧
      st.hasCompleteHead.2.io = st.io ∧
      st.hasCompleteHead.2.pendingContinue = st.pendingContinue := by
  have hstrip : st.stripBlank.io = st.io ∧ st.stripBlank.pendingContinue = st.pendingContinue := by
    unfold stripBlank
    simp only
    split <;> exact ⟨rfl, rfl⟩
  have hbuf : st.hasCompleteHead.2.buf = st.stripBlank.buf := by
    unfold hasCompleteHead
    simp only
    split
    · rfl
    · split <;> rfl
  refine ⟨?_, ?_, ?_⟩
  · rw [hbuf, stripBlank_buf]
    exact eq_blankLines_append st.buf
  · rw [← hstrip.1]
    unfold hasCompleteHead
    simp only
    split
    · rfl
    · split <;> rfl
  · rw [← hstrip.2]
    unfold hasCompleteHead
    simp only
    split
    · rfl
    · split <;> rfl

/-- A complete head has an end. -/
theorem hasCompleteHead_headLength {st : IoState} (h : st.hasCompleteHead.1 = true) :
    st.hasCompleteHead.2.headLength ≠ none := by
  unfold hasCompleteHead at h ⊢
  simp only at h ⊢
  split
  · rename_i hle
    simp [hle] at h
  · rename_i hle
    simp only [hle, if_false] at h
    split
    · simp [headLength]
    · rename_i hnone
      simp [hnone] at h

end IoState

theorem headRead_io (limits : Limits) (started : Bool) (b : Bytes) (st : IoState) :
    (headRead limits started b st).2 = (st.readMore b).hasCompleteHead.2 := by
  unfold headRead
  simp only
  split
  · rfl
  · split <;> rfl

theorem headRead_ready {limits : Limits} {started : Bool} {b : Bytes} {st io : IoState}
    (h : headRead limits started b st = (.ready, io)) : io.headLength ≠ none := by
  unfold headRead at h
  simp only at h
  split at h
  · rename_i hcomplete
    cases h
    exact IoState.hasCompleteHead_headLength hcomplete
  · split at h <;> cases h

/-! ## 2. The end of a head -/

theorem headEnd_ne_nil : headEnd ≠ [] := by decide

theorem findHeadEnd_eq_none {s : Bytes} : findHeadEnd s = none ↔ ∀ i, ¬ OccursAt headEnd s i := by
  rw [findHeadEnd, Option.map_eq_none_iff, memmem_eq_none headEnd_ne_nil]

/-- A head that is complete stays as it is when more arrives. -/
theorem findHeadEnd_append {s : Bytes} {n : Nat} (h : findHeadEnd s = some n) (t : Bytes) :
    findHeadEnd (s ++ t) = some n := by
  obtain ⟨i, hi, rfl⟩ := Option.map_eq_some_iff.mp h
  rw [findHeadEnd, memmem_append_of_some headEnd_ne_nil t hi]
  rfl

theorem findHeadEnd_le {s : Bytes} {n : Nat} (h : findHeadEnd s = some n) :
    4 ≤ n ∧ n ≤ s.length := by
  obtain ⟨i, hi, rfl⟩ := Option.map_eq_some_iff.mp h
  have hle := ((memmem_eq_some headEnd_ne_nil).mp hi).1.le headEnd_ne_nil
  have hlen : headEnd.length = 4 := rfl
  omega

/-- The end of a head that is not complete lies behind what has arrived. -/
theorem findHeadEnd_append_gt {s t : Bytes} {n : Nat} (hnone : findHeadEnd s = none)
    (h : findHeadEnd (s ++ t) = some n) : s.length < n := by
  obtain ⟨i, hi, rfl⟩ := Option.map_eq_some_iff.mp h
  have hat := ((memmem_eq_some headEnd_ne_nil).mp hi).1
  by_contra hlt
  exact findHeadEnd_eq_none.mp hnone i ((occursAt_append (by change i + 4 ≤ _; omega)).mp hat)

theorem findHeadEnd_drop {s : Bytes} (h : findHeadEnd s = none) (k : Nat) :
    findHeadEnd (s.drop k) = none := by
  rw [findHeadEnd_eq_none] at h ⊢
  exact fun i hi => h _ (occursAt_drop.mp hi)

/-! ## 3. The cursor -/

namespace IoState

/-- No head ends in front of the cursor. -/
def ScanOk (st : IoState) : Prop :=
  st.scanned ≤ st.buf.length ∧ findHeadEnd (st.buf.take st.scanned) = none

theorem scanOk_of_zero {st : IoState} (h : st.scanned = 0) : st.ScanOk := by
  rw [ScanOk, h]
  exact ⟨Nat.zero_le _, rfl⟩

theorem ScanOk.readMore {st : IoState} (h : st.ScanOk) (b : Bytes) : (st.readMore b).ScanOk := by
  refine ⟨?_, ?_⟩
  · change st.scanned ≤ (st.buf ++ b).length
    rw [List.length_append]
    exact Nat.le_add_right_of_le h.1
  · change findHeadEnd ((st.buf ++ b).take st.scanned) = none
    rw [List.take_append_of_le_length h.1]
    exact h.2

theorem ScanOk.stripBlank {st : IoState} (h : st.ScanOk) : st.stripBlank.ScanOk := by
  unfold IoState.stripBlank
  simp only
  split
  · refine ⟨?_, ?_⟩
    · change st.scanned - _ ≤ (st.buf.drop _).length
      rw [List.length_drop]
      exact Nat.sub_le_sub_right h.1 _
    · change findHeadEnd ((st.buf.drop _).take (st.scanned - _)) = none
      rw [← List.drop_take]
      exact findHeadEnd_drop h.2 _
  · exact h

/-- The resumed search finds what a search of the whole buffer finds. -/
theorem hasCompleteHead_eq {st : IoState} (h : st.ScanOk) :
    st.hasCompleteHead = match findHeadEnd (skipBlank st.buf) with
      | some n => (true, { st.stripBlank with headEnd := some n })
      | none => (false, { st.stripBlank with scanned := (skipBlank st.buf).length }) := by
  have hstrip := h.stripBlank
  rw [← stripBlank_buf]
  unfold hasCompleteHead
  generalize st.stripBlank = st at hstrip ⊢
  obtain ⟨hle, hmiss⟩ := hstrip
  simp only
  split
  · rename_i hlen
    have hscanned : st.scanned = st.buf.length := by omega
    rw [hscanned, List.take_length] at hmiss
    rw [hmiss, ← hscanned]
  · have hresume : findHeadEnd st.buf
        = (findHeadEnd (st.buf.drop (st.scanned - 3))).map (st.scanned - 3 + ·) := by
      have hmiss' : memmem ArmatureH1.headEnd (st.buf.take st.scanned) = none := by
        simpa [findHeadEnd] using hmiss
      by_cases h3 : 3 ≤ st.scanned
      · have hfind := memmem_resume headEnd_ne_nil hle hmiss' (st.scanned - 3)
          (by change st.scanned - 3 + 4 ≤ _; omega)
        rw [findHeadEnd, hfind, findHeadEnd, Option.map_map, Option.map_map]
        congr 1
      · rw [Nat.sub_eq_zero_of_le (by omega), List.drop_zero]
        simp
    rw [hresume]
    cases findHeadEnd (st.buf.drop (st.scanned - 3)) <;> rfl

theorem ScanOk.hasCompleteHead {st : IoState} (h : st.ScanOk) : st.hasCompleteHead.2.ScanOk := by
  have hstrip := h.stripBlank
  rw [hasCompleteHead_eq h]
  cases hfind : findHeadEnd (skipBlank st.buf) with
  | some n => exact hstrip
  | none =>
      rw [← stripBlank_buf] at hfind ⊢
      exact ⟨Nat.le_refl _, by rw [List.take_length]; exact hfind⟩

/-! ### Every order of operations

Five operations move the cursor or the front of the buffer, and a read adds
to its end. `ScanExact` is what all of them keep: the cursor is right, and an
end that has been found is still the first one, in a buffer that has been
stripped. The second half is what makes a second search over a found head
harmless: nothing is left to strip, so the offset stays an offset into the
same bytes. -/

/-- The cursor is right, and so is the end that was found. -/
structure ScanExact (st : IoState) : Prop where
  scan : st.ScanOk
  found : ∀ e, st.headEnd = some e → findHeadEnd st.buf = some e ∧ skipBlank st.buf = st.buf

theorem scanExact_of_reset {st : IoState} (hscanned : st.scanned = 0) (hend : st.headEnd = none) :
    st.ScanExact where
  scan := scanOk_of_zero hscanned
  found e he := by
    rw [hend] at he
    cases he

theorem ScanExact.readMore {st : IoState} (h : st.ScanExact) (b : Bytes) :
    (st.readMore b).ScanExact where
  scan := h.scan.readMore b
  found e he := by
    obtain ⟨hfind, hstripped⟩ := h.found e he
    have hlen := findHeadEnd_le hfind
    exact ⟨findHeadEnd_append hfind b, skipBlank_append_of_two hstripped (by omega) b⟩

theorem ScanExact.hasCompleteHead {st : IoState} (h : st.ScanExact) :
    st.hasCompleteHead.2.ScanExact where
  scan := h.scan.hasCompleteHead
  found e he := by
    rw [hasCompleteHead_eq h.scan] at he ⊢
    cases hfind : findHeadEnd (skipBlank st.buf) with
    | some n =>
        simp only [hfind, Option.some.injEq] at he ⊢
        rw [stripBlank_buf, ← he]
        exact ⟨hfind, skipBlank_skipBlank _⟩
    | none =>
        simp only [hfind] at he ⊢
        rw [stripBlank_buf]
        refine ⟨?_, skipBlank_skipBlank _⟩
        -- an end that was found before is in a buffer that needs no stripping
        have hend : st.headEnd = some e := by
          rw [← he]
          unfold IoState.stripBlank
          simp only
          split <;> rfl
        obtain ⟨hfound, hstripped⟩ := h.found e hend
        rw [hstripped, hfound] at hfind
        cases hfind

/-- What is done to an `IoState`: by the loop that waits for a head, by the
split behind it, and by bodies. -/
inductive IoOp where
  | readMore (b : Bytes)
  | hasCompleteHead
  | splitHead (n : Nat)
  | takeBuffered (max : Nat)
  | fill (b : Bytes)
  | pushBack (b : Bytes)
  | bodyStarted
  | bodyFinished (generation : Nat)
  | sendContinue (n : Nat)

/-- One operation. A `poll_fill` that reads nothing changes nothing. -/
def apply (st : IoState) : IoOp → IoState
  | .readMore b => st.readMore b
  | .hasCompleteHead => st.hasCompleteHead.2
  | .splitHead n => (st.splitHead n).2
  | .takeBuffered max => (st.takeBuffered max).2
  | .fill b => if b = [] then st else (st.fill b).2
  | .pushBack b => st.pushBack b
  | .bodyStarted => st.bodyStarted
  | .bodyFinished generation => st.finishBody generation
  | .sendContinue n => st.sendContinue n

/-- The state of a new connection. -/
def fresh (io : Transport) (buffered : Bytes) : IoState where
  io := io
  buf := buffered
  scanned := 0
  headEnd := none
  bodyFinished := false
  bodyGeneration := 0
  pendingContinue := 0

theorem ScanExact.apply {st : IoState} (h : st.ScanExact) (op : IoOp) :
    (st.apply op).ScanExact := by
  cases op with
  | readMore b => exact h.readMore b
  | hasCompleteHead => exact h.hasCompleteHead
  | splitHead n => exact scanExact_of_reset rfl rfl
  | takeBuffered max => exact scanExact_of_reset rfl rfl
  | fill b =>
      show (if b = [] then st else (st.fill b).2).ScanExact
      split
      · exact h
      · exact scanExact_of_reset rfl rfl
  | pushBack b =>
      show (st.pushBack b).ScanExact
      unfold IoState.pushBack
      split
      · exact h
      · exact scanExact_of_reset rfl rfl
  | bodyStarted => exact ⟨h.scan, h.found⟩
  | bodyFinished generation =>
      show (st.finishBody generation).ScanExact
      unfold finishBody
      split
      · exact ⟨h.scan, h.found⟩
      · exact h
  | sendContinue n => exact ⟨h.scan, h.found⟩

theorem scanExact_run (io : Transport) (buffered : Bytes) (ops : List IoOp) :
    (ops.foldl apply (fresh io buffered)).ScanExact :=
  List.foldlRecOn ops apply (scanExact_of_reset rfl rfl) fun _ h op _ => h.apply op

/-- **The resumable search is exact.** After any operations in any order the
cursor is inside the buffer, no head ends in front of it, and an end that has
been found is the one a search from the front would find. The next call of
`has_complete_head` leaves the buffer without its leading CRLF pairs, is true
exactly when CRLFCRLF occurs in that, and then has found the end of the first
one. -/
theorem head_scan_exact (io : Transport) (buffered : Bytes) (ops : List IoOp) :
    let st := ops.foldl apply (fresh io buffered)
    st.scanned ≤ st.buf.length ∧
      (∀ i, ¬ OccursAt ArmatureH1.headEnd (st.buf.take st.scanned) i) ∧
      (∀ e, st.headEnd = some e → findHeadEnd st.buf = some e) ∧
      st.hasCompleteHead.2.buf = skipBlank st.buf ∧
      (st.hasCompleteHead.1 = true ↔
        ∃ i, OccursAt ArmatureH1.headEnd (skipBlank st.buf) i) ∧
      (st.hasCompleteHead.1 = true → ∃ i, st.hasCompleteHead.2.headEnd = some (i + 4) ∧
        OccursAt ArmatureH1.headEnd (skipBlank st.buf) i ∧
        ∀ j < i, ¬ OccursAt ArmatureH1.headEnd (skipBlank st.buf) j) := by
  intro st
  have h : st.ScanExact := scanExact_run io buffered ops
  have hturn := hasCompleteHead_eq h.scan
  refine ⟨h.scan.1, findHeadEnd_eq_none.mp h.scan.2, fun e he => (h.found e he).1, ?_⟩
  cases hfind : findHeadEnd (skipBlank st.buf) with
  | none =>
      have hnone := findHeadEnd_eq_none.mp hfind
      rw [hturn, hfind]
      refine ⟨stripBlank_buf st, ?_, fun htrue => absurd htrue (by simp)⟩
      simp [hnone]
  | some n =>
      obtain ⟨i, hi, rfl⟩ := Option.map_eq_some_iff.mp hfind
      obtain ⟨hat, hfirst⟩ := (memmem_eq_some headEnd_ne_nil).mp hi
      rw [hturn, hfind]
      exact ⟨stripBlank_buf st, ⟨fun _ => ⟨i, hat⟩, fun _ => rfl⟩, fun _ => ⟨i, rfl, hat, hfirst⟩⟩

end IoState

/-! ## 4. A delivery -/

/-- What `read_until_head_or_idle` leaves when a head of length `n` is there. -/
def ReadyAt (s : Bytes) (n : Nat) (r : HeadStep × IoState) : Prop :=
  r.1 = .ready ∧ r.2.headLength = some n ∧ (r.2.splitHead n).1 = s.take n

theorem readyAt_of_find {st : IoState} (h : st.ScanOk) {n : Nat}
    (hfind : findHeadEnd (skipBlank st.buf) = some n) (t : Bytes) :
    ReadyAt (skipBlank st.buf ++ t) n (.ready, st.hasCompleteHead.2) := by
  have hle := findHeadEnd_le hfind
  rw [IoState.hasCompleteHead_eq h, hfind]
  refine ⟨rfl, rfl, ?_⟩
  change st.stripBlank.buf.take n = _
  rw [IoState.stripBlank_buf, List.take_append_of_le_length hle.2]

/-- What waiting comes to when `s` is what was delivered, blank lines aside. -/
structure Awaited (limits : Limits) (s : Bytes) (read : Bool) (r : HeadStep × IoState) : Prop where
  ready : ∀ n, findHeadEnd s = some n →
    ReadyAt s n r ∨ (r.1 = .failed 431 ∧ limits.maxHeadBytes < n)
  failed : findHeadEnd s = none → read = true → limits.maxHeadBytes < s.length → r.1 = .failed 431
  waiting : findHeadEnd s = none → 0 < limits.maxHeadBytes → s.length ≤ limits.maxHeadBytes →
    ∃ started, r.1 = .more started

/-- The loop, from a buffer without a head and without a blank line. -/
theorem readHead_awaited (limits : Limits) : ∀ (reads : List Bytes) (started : Bool) (st : IoState),
    st.ScanOk → skipBlank st.buf = st.buf → findHeadEnd st.buf = none →
    Awaited limits (skipBlank (st.buf ++ reads.flatten)) (!reads.isEmpty)
      (readHead limits started reads st) := by
  intro reads
  induction reads with
  | nil =>
      intro started st _ hskip hnone
      rw [List.flatten_nil, List.append_nil, hskip]
      refine ⟨fun n hn => ?_, fun _ h => absurd h (by simp), fun _ _ _ => ⟨started, rfl⟩⟩
      rw [hnone] at hn
      cases hn
  | cons b rest ih =>
      intro started st hscan hskip hnone
      have hscan' := hscan.readMore b
      have hbuf : (st.readMore b).buf = st.buf ++ b := rfl
      have hnext : (st.readMore b).hasCompleteHead.2.buf = skipBlank (st.buf ++ b) := by
        have h := IoState.hasCompleteHead_eq hscan'
        rw [h]
        cases findHeadEnd (skipBlank (st.readMore b).buf) <;>
          exact IoState.stripBlank_buf (st.readMore b)
      have hsplit : skipBlank (st.buf ++ (b :: rest).flatten)
          = skipBlank (skipBlank (st.buf ++ b) ++ rest.flatten) := by
        rw [List.flatten_cons, ← List.append_assoc, skipBlank_append]
      rw [hsplit]
      cases hfind : findHeadEnd (skipBlank (st.buf ++ b)) with
      | some n =>
          -- complete now: what still follows is not looked at
          have hle := findHeadEnd_le hfind
          have hall := skipBlank_append_of_two (skipBlank_skipBlank (st.buf ++ b)) (by omega)
            rest.flatten
          rw [hall]
          have hready := readyAt_of_find hscan' hfind rest.flatten
          have hrun : readHead limits started (b :: rest) st
              = (.ready, (st.readMore b).hasCompleteHead.2) := by
            have hcomplete : (st.readMore b).hasCompleteHead.1 = true := by
              rw [IoState.hasCompleteHead_eq hscan', hbuf, hfind]
            simp only [readHead, headRead, hcomplete, if_true]
          have hhit := findHeadEnd_append hfind rest.flatten
          rw [hrun]
          refine ⟨?_, fun h => ?_, fun h => ?_⟩
          · intro m hm
            rw [hhit] at hm
            cases hm
            exact Or.inl hready
          · rw [hhit] at h; cases h
          · rw [hhit] at h; cases h
      | none =>
          have hincomplete : (st.readMore b).hasCompleteHead.1 = false := by
            rw [IoState.hasCompleteHead_eq hscan', hbuf, hfind]
          by_cases hlong : (skipBlank (st.buf ++ b)).length > limits.maxHeadBytes
          · have hrun : readHead limits started (b :: rest) st
                = (.failed 431, (st.readMore b).hasCompleteHead.2) := by
              simp only [readHead, headRead, hincomplete, hnext, hlong, if_true, if_false,
                Bool.false_eq_true]
            rw [hrun]
            refine ⟨fun n hn => Or.inr ⟨rfl, ?_⟩, fun _ _ _ => rfl, fun _ hpos hshort => ?_⟩
            · -- a lone byte is over the limit only when the limit is zero
              by_cases htwo : 2 ≤ (skipBlank (st.buf ++ b)).length
              · rw [skipBlank_append_of_two (skipBlank_skipBlank _) htwo] at hn
                exact Nat.lt_trans hlong (findHeadEnd_append_gt hfind hn)
              · have := findHeadEnd_le hn
                omega
            · rw [skipBlank_append_of_two (skipBlank_skipBlank _) (by omega),
                List.length_append] at hshort
              omega
          · have hrun : ∃ started', readHead limits started (b :: rest) st
                = readHead limits started' rest (st.readMore b).hasCompleteHead.2 := by
              refine ⟨started || beginsRequest b, ?_⟩
              simp only [readHead, headRead, hincomplete, hnext, hlong, if_false,
                Bool.false_eq_true]
            obtain ⟨started', hrun⟩ := hrun
            have hrest := ih started' _ hscan'.hasCompleteHead (by rw [hnext]; simp)
              (by rw [hnext]; exact hfind)
            rw [hnext] at hrest
            rw [hrun]
            refine ⟨hrest.ready, fun h _ hlen => ?_, hrest.waiting⟩
            cases rest with
            | nil =>
                rw [List.flatten_nil, List.append_nil, skipBlank_skipBlank] at hlen
                exact absurd hlen hlong
            | cons b' rest' => exact hrest.failed h rfl hlen

theorem readUntilHeadOrIdle_awaited (limits : Limits) (reads : List Bytes) {st : IoState}
    (h : st.ScanOk) : Awaited limits (skipBlank (st.buf ++ reads.flatten)) (!reads.isEmpty)
      (readUntilHeadOrIdle limits reads st) := by
  unfold readUntilHeadOrIdle
  rw [skipBlank_append]
  cases hfind : findHeadEnd (skipBlank st.buf) with
  | some n =>
      have hle := findHeadEnd_le hfind
      rw [skipBlank_append_of_two (skipBlank_skipBlank _) (by omega)]
      have hready := readyAt_of_find h hfind reads.flatten
      have hhit := findHeadEnd_append hfind reads.flatten
      have hcomplete : st.hasCompleteHead.1 = true := by
        rw [IoState.hasCompleteHead_eq h, hfind]
      simp only [hcomplete, if_true]
      refine ⟨?_, fun h => ?_, fun h => ?_⟩
      · intro m hm
        rw [hhit] at hm
        cases hm
        exact Or.inl hready
      · rw [hhit] at h; cases h
      · rw [hhit] at h; cases h
  | none =>
      have hbuf : st.hasCompleteHead.2.buf = skipBlank st.buf := by
        rw [IoState.hasCompleteHead_eq h, hfind]
        exact IoState.stripBlank_buf st
      have hincomplete : st.hasCompleteHead.1 = false := by
        rw [IoState.hasCompleteHead_eq h, hfind]
      simp only [hincomplete, if_false, Bool.false_eq_true]
      have hloop := readHead_awaited limits reads (beginsRequest st.hasCompleteHead.2.buf) _
        h.hasCompleteHead (by rw [hbuf]; simp) (by rw [hbuf]; exact hfind)
      rw [hbuf] at hloop ⊢
      exact hloop

/-! ## 5. The two answers of 431 -/

theorem ParseError.status_eq_431 {e : ParseError} :
    e.status = 431 ↔ e = .headTooLarge ∨ e = .tooManyHeaders := by
  cases e <;> decide

theorem prescan_not_headTooLarge (head : Bytes) : prescan head ≠ .error .headTooLarge := by
  have hcr : ∀ s, prescanCr s ≠ .error .headTooLarge := by
    intro s
    fun_induction prescanCr s <;> simp_all
  have hlf : ∀ s prev, prescanLf prev s ≠ .error .headTooLarge := by
    intro s prev
    fun_induction prescanLf prev s <;> simp_all
  unfold prescan
  split
  · rename_i e he
    intro h
    cases h
    exact hcr head he
  · exact hlf head none

theorem parseMethod_not_headTooLarge (token : Bytes) :
    parseMethod token ≠ .error .headTooLarge := by
  unfold parseMethod
  repeat' split
  all_goals simp

theorem validateRequestTarget_not_headTooLarge (target : Bytes) (method : Method) :
    validateRequestTarget target method ≠ .error .headTooLarge := by
  unfold validateRequestTarget
  split
  · rename_i e he
    intro h
    cases h
    unfold validateTarget at he
    split at he <;> simp at he
  · unfold validateTargetForm
    repeat' split
    all_goals simp

theorem parseFields_not_headTooLarge : ∀ fields : List (Bytes × Bytes),
    parseFields fields ≠ .error .headTooLarge
  | [] => by simp [parseFields]
  | (name, value) :: rest => by
      have ih := parseFields_not_headTooLarge rest
      unfold parseFields
      split
      · simp
      · cases h : parseFields rest with
        | error e =>
            intro he
            cases he
            exact ih h
        | ok fields =>
            intro he
            cases he

theorem finishParseHead_not_headTooLarge (parsed : Option HttparseRequest) (limits : Limits) :
    finishParseHead parsed limits ≠ .error .headTooLarge := by
  intro h
  unfold finishParseHead at h
  split at h
  · cases h
  · split at h
    · cases h
    · split at h
      · cases h
      · split at h
        · rename_i e he
          cases h
          exact parseMethod_not_headTooLarge _ he
        · split at h
          · cases h
          · split at h
            · rename_i e he
              cases h
              exact validateRequestTarget_not_headTooLarge _ _ he
            · split at h
              · cases h
              · split at h
                · cases h
                · split at h
                  · rename_i e he
                    cases h
                    exact parseFields_not_headTooLarge _ he
                  · cases h

theorem mapHttparse_ne_headTooLarge (e : HttparseError) : mapHttparse e ≠ .headTooLarge := by
  cases e <;> decide

/-- `HeadTooLarge` is the answer to a region over the limit and to nothing
else. -/
theorem parseHeadRegion_headTooLarge_iff (httparse : Httparse) (region : Bytes) (limits : Limits) :
    parseHeadRegion httparse region limits = .error .headTooLarge
      ↔ limits.maxHeadBytes < region.length := by
  constructor
  · intro h
    by_contra hle
    unfold parseHeadRegion at h
    rw [if_neg hle] at h
    split at h
    · rename_i e he
      cases h
      exact prescan_not_headTooLarge region he
    · split at h
      · exact finishParseHead_not_headTooLarge _ _ h
      · split at h
        · split at h
          · exact finishParseHead_not_headTooLarge _ _ h
          · exact mapHttparse_ne_headTooLarge _ (by simpa using h)
        · exact mapHttparse_ne_headTooLarge _ (by simpa using h)
  · intro h
    rw [parseHeadRegion, if_pos h]

/-- The result of a wait, by what was delivered. -/
theorem awaitHead_region (httparse : Httparse) (limits : Limits) {reads : List Bytes} {st : IoState}
    (h : st.ScanOk) {n : Nat} (hn : findHeadEnd (skipBlank (st.buf ++ reads.flatten)) = some n) :
    awaitHead httparse limits reads st
        = .region ((skipBlank (st.buf ++ reads.flatten)).take n)
            (parseHeadRegion httparse ((skipBlank (st.buf ++ reads.flatten)).take n) limits) ∨
      (awaitHead httparse limits reads st = .unterminated 431 ∧ limits.maxHeadBytes < n) := by
  rcases (readUntilHeadOrIdle_awaited limits reads h).ready n hn with ⟨h1, h2, h3⟩ | ⟨h1, h2⟩
  · left
    unfold awaitHead
    generalize readUntilHeadOrIdle limits reads st = r at h1 h2 h3
    obtain ⟨step, st'⟩ := r
    cases h1
    simp only at h2 h3 ⊢
    simp only [h2, h3]
  · right
    refine ⟨?_, h2⟩
    unfold awaitHead
    generalize readUntilHeadOrIdle limits reads st = r at h1
    obtain ⟨step, st'⟩ := r
    cases h1
    rfl

/-- A complete head is refused for its size, or for its fields. -/
theorem awaitHead_status {httparse : Httparse} {limits : Limits} {reads : List Bytes} {st : IoState}
    (h : st.ScanOk) {n : Nat} (hn : findHeadEnd (skipBlank (st.buf ++ reads.flatten)) = some n) :
    (awaitHead httparse limits reads st).status = some 431 ↔ limits.maxHeadBytes < n ∨
      parseHeadRegion httparse ((skipBlank (st.buf ++ reads.flatten)).take n) limits
        = .error .tooManyHeaders := by
  have hlen : ((skipBlank (st.buf ++ reads.flatten)).take n).length = n :=
    List.length_take_of_le (findHeadEnd_le hn).2
  have hlarge := parseHeadRegion_headTooLarge_iff httparse
    ((skipBlank (st.buf ++ reads.flatten)).take n) limits
  rw [hlen] at hlarge
  rcases awaitHead_region httparse limits h hn with hregion | ⟨hun, hlt⟩
  · rw [hregion, ← hlarge]
    cases parseHeadRegion httparse ((skipBlank (st.buf ++ reads.flatten)).take n) limits with
    | error e => simpa [HeadResult.status] using ParseError.status_eq_431 (e := e)
    | ok head => simp [HeadResult.status]
  · rw [hun]
    simp [HeadResult.status, hlt]

end ArmatureH1
