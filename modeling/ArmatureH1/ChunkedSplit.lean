/-
ArmatureH1.ChunkedSplit — does it matter how the input is cut?

`find_line` promises that it does not: "the outcome cannot depend on how the
peer packetized its writes". It bounds a line whose LF has not arrived by the
buffer's length and a line whose LF has arrived by its content's length, and
the two disagree in two places.

A size line of exactly `maxSizeLine` content bytes is accepted whole; cut
between its CR and its LF, the CR counts towards the bound and the line is
refused. A trailer line ended by a bare LF is `MissingCrlf` when the LF is
there; cut after `max_head_bytes` bytes and before the LF it is
`TrailerTooLarge`. `CutSensitive` says where in the grammar these two lines
stand, and `split_independent_iff` that there is no third place.

The one size line of that length that no cut betrays announces no data and is
followed by a trailer section that itself breaks off at a bare LF: both runs
then report `MissingCrlf` with nothing emitted.
-/
import ArmatureH1.ChunkedGrammar

namespace ArmatureH1

open ByteString

namespace ChunkedDecoder

/-! ## 1. What a caller sees -/

/-- How a run stopped, as far as a caller can tell. -/
inductive Verdict where
  | ended (rest : Bytes)
  | needMore
  | failed (e : ChunkedError)
  deriving DecidableEq

def Stop.verdict : Stop → Verdict
  | .ended rest => .ended rest
  | .needMore _ _ => .needMore
  | .failed e => .failed e

/-- The body, the trailers and the verdict. -/
def Outcome.observed (o : Outcome) : Bytes × List HeaderVec × Verdict :=
  (o.body, o.trailers, o.stop.verdict)

/-! ## 2. Feeding pieces -/

/-- A run that asks for more stands still: it has read `c`, and feeding it
more is running on from where it stands. -/
theorem needMore_reaches {limits : Limits} {c₀ buf body rest : Bytes} {d d' : ChunkedDecoder}
    {trailers : List HeaderVec} (hd : Along limits c₀ d)
    (h : d.drain buf = ⟨body, trailers, .needMore d' rest⟩) :
    ∃ c, buf = c ++ rest ∧ Reaches d c body trailers d' ∧ Along limits (c₀ ++ c) d' ∧
      d'.drain rest = ⟨[], [], .needMore d' rest⟩ := by
  obtain ⟨c, rest', body', trailers', d₁, hstop⟩ :=
    drain_stops (along_invariant limits) _ d c₀ buf hd (Nat.lt_succ_self _)
  rcases hstop.stop with ⟨hturn, hrun⟩ | ⟨_, _, _, _, hrun⟩ | ⟨_, hrun⟩
  · rw [hrun] at h
    cases h
    exact ⟨c, hstop.split, hstop.reaches, hstop.inv, by rw [drain_turn, hturn]; rfl⟩
  · rw [hrun] at h; cases h
  · rw [hrun] at h; cases h

/-- A run that ended would have ended there with more input behind it. -/
theorem ended_append {limits : Limits} {c₀ buf body rest : Bytes} {d : ChunkedDecoder}
    {trailers : List HeaderVec} (hd : Along limits c₀ d)
    (h : d.drain buf = ⟨body, trailers, .ended rest⟩) (x : Bytes) :
    d.drain (buf ++ x) = ⟨body, trailers, .ended (rest ++ x)⟩ := by
  obtain ⟨c, rest', body', trailers', d₁, hstop⟩ :=
    drain_stops (along_invariant limits) _ d c₀ buf hd (Nat.lt_succ_self _)
  rcases hstop.stop with ⟨_, hrun⟩ | ⟨_, _, _, _, hrun⟩ | ⟨hturn, hrun⟩
  · rw [hrun] at h; cases h
  · rw [hrun] at h; cases h
  · rw [hrun] at h
    cases h
    rw [hstop.split, List.append_assoc, hstop.reaches, drain_turn, hturn]
    simp [Outcome.ofPoll, Outcome.after]

/-- **Feeding pieces is running over what they join to, unless a run over a
front of them fails first.** -/
theorem feed_eq {limits : Limits} : ∀ (pieces : List Bytes) {c₀ rest : Bytes} {d : ChunkedDecoder},
    Along limits c₀ d → d.drain rest = ⟨[], [], .needMore d rest⟩ →
    d.feed rest pieces = d.drain (rest ++ pieces.flatten) ∨
    ∃ front back body trailers e, front ++ back = pieces.flatten ∧
      d.drain (rest ++ front) = ⟨body, trailers, .failed e⟩ ∧
      d.feed rest pieces = ⟨body, trailers, .failed e⟩ := by
  intro pieces
  induction pieces with
  | nil =>
      intro c₀ rest d _ hstill
      left
      simp [feed, hstill]
  | cons p ps ih =>
      intro c₀ rest d hd hstill
      rcases hrun : d.drain (rest ++ p) with ⟨body, trailers, stop⟩
      cases stop with
      | needMore d' rest' =>
          obtain ⟨c, hsplit, hreach, hd', hstill'⟩ := needMore_reaches hd hrun
          have hfeed : d.feed rest (p :: ps) = (d'.feed rest' ps).after body trailers := by
            simp only [feed, hrun]
          have hmore : ∀ x, d.drain (rest ++ (p ++ x))
              = (d'.drain (rest' ++ x)).after body trailers := by
            intro x
            rw [← List.append_assoc, hsplit, List.append_assoc, hreach]
          rcases ih hd' hstill' with heq | ⟨front, back, b, t, e, hjoin, hfail, hf⟩
          · left
            rw [hfeed, heq, List.flatten_cons, hmore]
          · right
            refine ⟨p ++ front, back, body ++ b, trailers ++ t, e, ?_, ?_, ?_⟩
            · rw [List.flatten_cons, List.append_assoc, hjoin]
            · rw [hmore, hfail]; rfl
            · rw [hfeed, hf]; rfl
      | ended rest' =>
          left
          have hfeed : d.feed rest (p :: ps)
              = ⟨body, trailers, .ended (rest' ++ ps.flatten)⟩ := by
            simp only [feed, hrun]
          rw [hfeed, List.flatten_cons, ← List.append_assoc, ended_append hd hrun]
      | failed e =>
          right
          refine ⟨p, ps.flatten, body, trailers, e, by simp, hrun, ?_⟩
          simp only [feed, hrun]

/-! ## 3. The two lines that give a cut away -/

/-- `tail` is a trailer section that breaks off at a bare LF, behind lines
that are in order. -/
def BreaksAtLf (limits : Limits) (tail : Bytes) (fields : List FieldLine) (pre : Bytes) : Prop :=
  FieldsFit limits fields ∧ LF ∉ pre ∧ pre.getLast? ≠ some CR ∧
    ∃ post, tail = Message.fieldLines fields ++ (pre ++ LF :: post)

/-- The inputs on which a cut can be told: behind whole chunks stands a size
line of exactly `maxSizeLine` bytes, or behind whole trailer lines stands
one that is too long and ends in a bare LF. -/
def CutSensitive (limits : Limits) (buf : Bytes) : Prop :=
  (∃ chunks line tail, ChunksFit limits chunks ∧
    buf = chunks.flatMap Chunk.encode ++ (line ++ crlf ++ tail) ∧ LF ∉ line ∧
    line.length = maxSizeLine ∧
    ¬ (SizeLine line 0 ∧ ∃ fields pre, BreaksAtLf limits tail fields pre)) ∨
  (∃ chunks last tail fields pre, ChunksFit limits chunks ∧ SizeLineFits last 0 ∧
    buf = chunks.flatMap Chunk.encode ++ (last ++ crlf ++ tail) ∧
    BreaksAtLf limits tail fields pre ∧ pre.length > limits.maxHeadBytes)

/-! ### Getting there -/

theorem outcome_prepend (events : List ChunkEvent) (t : Transcript) :
    (t.prepend events).outcome
      = t.outcome.after (events.flatMap eventBody) (events.filterMap eventTrailers) := by
  simp [Transcript.outcome, Transcript.prepend, Outcome.after]

theorem reaches_chunks {limits : Limits} {chunks : List Chunk} (h : ChunksFit limits chunks) :
    Reaches (new limits) (chunks.flatMap Chunk.encode) (chunks.flatMap Chunk.data) []
      (atSize limits chunks) := by
  intro x
  have hrun := transcript_chunks chunks (d := new limits) rfl rfl limits.maxBodyBytes_lt h.valid
    (by simpa only [new, Nat.zero_add] using h.body) x
  have hat : ({ new limits with
      decoded := (new limits).decoded + (chunks.flatMap Chunk.data).length } : ChunkedDecoder)
      = atSize limits chunks := by
    simp only [atSize, new, Nat.zero_add]
  rw [hat] at hrun
  have hb : (chunks.map fun c => ChunkEvent.data c.data).flatMap eventBody
      = chunks.flatMap Chunk.data := by
    simp [List.flatMap_map, eventBody]
  have ht : (chunks.map fun c => ChunkEvent.data c.data).filterMap eventTrailers = [] := by
    simp [List.filterMap_map, Function.comp_def, eventTrailers]
  rw [drain, hrun, outcome_prepend, hb, ht]
  rfl

theorem reaches_last {limits : Limits} {chunks : List Chunk} {last : Bytes}
    (h : ChunksFit limits chunks) (hl : SizeLineFits last 0) :
    Reaches (atSize limits chunks) (last ++ crlf) [] [] (atTrailers limits chunks []) := by
  apply Reaches.of_again
  intro x
  rw [turn_sizeLine rfl limits.maxBodyBytes_lt hl h.body x]
  rfl

theorem FieldsFit.front {limits : Limits} {fields : List FieldLine} {f : FieldLine}
    (h : FieldsFit limits (fields ++ [f])) :
    FieldsFit limits fields ∧ f.Valid ∧ fields.length < limits.maxHeaders ∧
      (Message.fieldLines fields).length + (f.line.length + 2) ≤ limits.maxHeadBytes := by
  have hb := h.bytes
  have hc := h.count
  rw [Message.fieldLines_append] at hb
  simp only [List.length_append, length_crlf, List.length_cons, List.length_nil] at hb hc
  refine ⟨⟨fun f' hf' => h.valid f' (by simp [hf']), by omega, by omega⟩,
    h.valid f (by simp), by omega, by omega⟩

theorem reaches_fields {limits : Limits} (chunks : List Chunk) : ∀ {fields : List FieldLine},
    FieldsFit limits fields →
    Reaches (atTrailers limits chunks []) (Message.fieldLines fields) [] []
      (atTrailers limits chunks fields) := by
  intro fields
  induction fields using List.reverseRecOn with
  | nil => intro _; exact Reaches.refl _
  | append_singleton fields f ih =>
      intro h
      obtain ⟨hfit, hf, hroom, hbytes⟩ := FieldsFit.front h
      have hstored : ((atTrailers limits chunks fields).trailers.getD []).length
          < (atTrailers limits chunks fields).maxTrailers := by
        rw [atTrailers_stored, List.length_map]; exact hroom
      have hturn : Reaches (atTrailers limits chunks fields) (f.line ++ crlf) [] []
          (atTrailers limits chunks (fields ++ [f])) := by
        apply Reaches.of_again
        intro x
        rw [turn_fieldLine rfl hf hstored hbytes x, withField_atTrailers]
      rw [Message.fieldLines_append]
      exact (ih hfit).trans hturn

/-! ### A failure that more input would not have changed -/

/-- The front of a string that stops before the first LF. -/
theorem front_of_lf {rest x pre post : Bytes} (hlf : LF ∉ rest)
    (h : rest ++ x = pre ++ LF :: post) : ∃ z, pre = rest ++ z := by
  rcases List.append_eq_append_iff.mp h with ⟨z, hz, _⟩ | ⟨z, hz, htail⟩
  · exact ⟨z, hz⟩
  · cases z with
    | nil => exact ⟨[], by simpa using hz.symm⟩
    | cons b z =>
        simp only [List.cons_append, List.cons.injEq] at htail
        exact absurd (by rw [hz, ← htail.1]; simp) hlf

/-- A failed turn on a settled buffer fails with more input, too. -/
theorem drain_settled {d d₁ : ChunkedDecoder} {rest b₁ : Bytes} {e : ChunkedError}
    (hturn : d.turn rest = .ret (.error e) d₁ b₁) (hs : Settled d rest) (x : Bytes) :
    d.drain (rest ++ x) = ⟨[], [], .failed e⟩ := by
  rw [drain_turn, turn_append x hs, hturn]
  rfl

/-- A trailer section that breaks off at a bare LF is reported as such. -/
theorem drain_breaksAtLf {limits : Limits} (chunks : List Chunk) {tail pre : Bytes}
    {fields : List FieldLine} (h : BreaksAtLf limits tail fields pre) :
    (atTrailers limits chunks []).drain tail = ⟨[], [], .failed .missingCrlf⟩ := by
  obtain ⟨hfit, hpre, hcr, post, rfl⟩ := h
  have hturn : (atTrailers limits chunks fields).turn (pre ++ LF :: post)
      = .ret (.error .missingCrlf) (atTrailers limits chunks fields) (pre ++ LF :: post) := by
    rw [turn_of_trailers rfl, turnTrailers, findLine_bare hpre hcr]
  rw [reaches_fields chunks hfit, drain_turn, hturn]
  rfl

/-- An unterminated size line over the bound. -/
theorem drain_size_front {limits : Limits} {chunks : List Chunk} {rest x : Bytes}
    (hc : ChunksFit limits chunks) (hlf : LF ∉ rest) (hlen : rest.length > maxSizeLine)
    (hok : ¬ CutSensitive limits (chunks.flatMap Chunk.encode ++ (rest ++ x))) :
    (atSize limits chunks).drain (rest ++ x) = ⟨[], [], .failed .missingCrlf⟩ := by
  rcases findLine_cases (rest ++ x) maxSizeLine .missingCrlf with
    ⟨line, tail, hsplit, hline⟩ | ⟨hno, _⟩ | ⟨_, _, _, _, _, hf⟩
  · have hlf' : rest ++ x = (line ++ [CR]) ++ LF :: tail := by simpa [crlf] using hsplit
    obtain ⟨z, hz⟩ := front_of_lf hlf hlf'
    have hge : rest.length ≤ line.length + 1 := by
      have := congrArg List.length hz
      simp only [List.length_append, List.length_cons, List.length_nil] at this
      omega
    rw [hsplit] at hok ⊢
    by_cases heq : line.length = maxSizeLine
    · by_cases hb : SizeLine line 0 ∧ ∃ fields pre, BreaksAtLf limits tail fields pre
      · obtain ⟨hzero, fields, pre, hbreak⟩ := hb
        rw [reaches_last hc ⟨hzero, by omega⟩, drain_breaksAtLf chunks hbreak]
        rfl
      · exact absurd (Or.inl ⟨chunks, line, tail, hc, rfl, hline, heq, hb⟩) hok
    · have hlong : line.length > maxSizeLine := by omega
      rw [drain_turn, turn_of_size rfl, turnSize, findLine_line tail hline, if_pos hlong]
      rfl
  · have hlen' : (rest ++ x).length > maxSizeLine := by rw [List.length_append]; omega
    rw [drain_turn, turn_size_open rfl hno, if_pos hlen']
    rfl
  · rw [drain_turn, turn_of_size rfl, turnSize, hf]
    rfl

/-- An unterminated trailer line over the bound. -/
theorem drain_trailers_front {limits : Limits} {chunks : List Chunk} {last rest x : Bytes}
    {fields : List FieldLine} (hc : ChunksFit limits chunks) (hl : SizeLineFits last 0)
    (hf : FieldsFit limits fields) (hlf : LF ∉ rest) (hlen : rest.length > limits.maxHeadBytes)
    (hok : ¬ CutSensitive limits (chunks.flatMap Chunk.encode ++
      (last ++ crlf ++ Message.fieldLines fields) ++ (rest ++ x))) :
    (atTrailers limits chunks fields).drain (rest ++ x) = ⟨[], [], .failed .trailerTooLarge⟩ := by
  rcases findLine_cases (rest ++ x) limits.maxHeadBytes .trailerTooLarge with
    ⟨line, tail, hsplit, hline⟩ | ⟨hno, _⟩ | ⟨pre, post, hsplit, hpre, hcr, _⟩
  · have hlf' : rest ++ x = (line ++ [CR]) ++ LF :: tail := by simpa [crlf] using hsplit
    obtain ⟨z, hz⟩ := front_of_lf hlf hlf'
    have hge : rest.length ≤ line.length + 1 := by
      have := congrArg List.length hz
      simp only [List.length_append, List.length_cons, List.length_nil] at this
      omega
    rw [hsplit]
    by_cases heq : line.length ≤ limits.maxHeadBytes
    · -- the CR made the difference, but the line with its CRLF is over the
      -- budget of the whole section
      have hbytes : (atTrailers limits chunks fields).trailerBytes + (line.length + 2)
          > (atTrailers limits chunks fields).maxTrailer := by
        show _ > limits.maxHeadBytes
        omega
      rw [drain_turn, turn_of_trailers rfl, turnTrailers_line _ tail hline heq, onTrailerLine]
      simp only [if_pos hbytes]
      rfl
    · have hlong : line.length > (atTrailers limits chunks fields).maxTrailer := by
        show _ > limits.maxHeadBytes
        omega
      rw [drain_turn, turn_of_trailers rfl, turnTrailers, findLine_line tail hline, if_pos hlong]
      rfl
  · have hlen' : (rest ++ x).length > (atTrailers limits chunks fields).maxTrailer := by
      show _ > limits.maxHeadBytes
      rw [List.length_append]; omega
    rw [drain_turn, turn_trailers_open rfl hno, if_pos hlen']
    rfl
  · obtain ⟨z, rfl⟩ := front_of_lf hlf hsplit
    refine absurd (Or.inr ⟨chunks, last, Message.fieldLines fields ++ (rest ++ x), fields,
      rest ++ z, hc, hl, by simp, ⟨hf, hpre, hcr, post, by rw [hsplit]⟩, ?_⟩) hok
    rw [List.length_append]; omega

/-- **Away from the two lines, a failed front fails the whole.** -/
theorem failed_append {limits : Limits} {front x body : Bytes} {trailers : List HeaderVec}
    {e : ChunkedError} (h : (new limits).drain front = ⟨body, trailers, .failed e⟩)
    (hok : ¬ CutSensitive limits (front ++ x)) :
    (new limits).drain (front ++ x) = ⟨body, trailers, .failed e⟩ := by
  obtain ⟨c, rest, b, t, d', hstop⟩ :=
    drain_stops (along_invariant limits) _ (new limits) [] front (along_new limits)
      (Nat.lt_succ_self _)
  rcases hstop.stop with ⟨_, hrun⟩ | ⟨e', d₁, b₁, hturn, hrun⟩ | ⟨_, hrun⟩
  · rw [hrun] at h; cases h
  · rw [hrun] at h
    cases h
    have hrest : d'.drain (rest ++ x) = ⟨[], [], .failed e⟩ := by
      by_cases hs : Settled d' rest
      · exact drain_settled hturn hs x
      · have hinv : Along limits c d' := hstop.inv
        rw [hstop.split, List.append_assoc] at hok
        cases hinv with
        | size hc =>
            rw [turn_size_open rfl hs] at hturn
            split at hturn
            · rename_i hlen
              cases hturn
              exact drain_size_front hc hs hlen hok
            · cases hturn
        | data =>
            simp only [turn, turnData] at hturn
            split at hturn <;> cases hturn
        | dataCrlf =>
            have hlen : rest.length < 2 := Nat.lt_of_not_le hs
            simp only [turn, turnDataCrlf, if_pos hlen] at hturn
            cases hturn
        | trailers hc hl hf =>
            rw [turn_trailers_open rfl hs] at hturn
            split at hturn
            · rename_i hlen
              cases hturn
              exact drain_trailers_front hc hl hf hs hlen hok
            · cases hturn
        | ending _ hst => simp only [turn, hst] at hturn; cases hturn
    rw [hstop.split, List.append_assoc, hstop.reaches, hrest]
    simp [Outcome.after]
  · rw [hrun] at h; cases h

/-! ### A cut that shows -/

theorem sizeLoop_error {e : ChunkedError} : ∀ {digits : Bytes} {size : Nat},
    sizeLoop size digits = .error e → e ≠ .missingCrlf := by
  intro digits
  induction digits with
  | nil => intro size h; cases h
  | cons b rest ih =>
      intro size h
      rw [sizeLoop] at h
      split at h
      · cases h; decide
      · split at h
        · cases h; decide
        · exact ih h

theorem skipToken_error {s : Bytes} {e : ChunkedError} (h : skipToken s = .error e) :
    e = .badExtension := by
  unfold skipToken at h
  split at h <;> cases h
  rfl

theorem skipQuoted_error {e : ChunkedError} : ∀ {s : Bytes}, skipQuoted s = .error e →
    e = .badExtension := by
  intro s
  fun_induction skipQuoted s <;> intro h
  all_goals first
    | cases h; done
    | (cases h; rfl)
    | exact ‹skipQuoted _ = _ → _› h

theorem skipExt_error {s : Bytes} {e : ChunkedError} (h : skipExt s = .error e) :
    e = .badExtension := by
  unfold skipExt at h
  cases ht : skipToken (skipBws s) with
  | error e' =>
      rw [ht] at h
      cases h
      exact skipToken_error ht
  | ok r =>
      rw [ht] at h
      simp only [Except.bind, skipExtAssign] at h
      split at h
      · unfold skipExtValue at h
        split at h
        · exact skipQuoted_error h
        · exact skipToken_error h
      · cases h

theorem extLoop_error {e : ChunkedError} : ∀ {fuel : Nat} {s : Bytes}, extLoop fuel s = .error e →
    e = .badExtension := by
  intro fuel
  induction fuel with
  | zero => intro s h; cases h; rfl
  | succ fuel ih =>
      intro s h
      rw [extLoop] at h
      split at h
      · cases h
      · split at h
        · rename_i rest _ _
          cases hx : skipExt rest with
          | error e' =>
              rw [hx] at h
              cases h
              exact skipExt_error hx
          | ok r =>
              rw [hx] at h
              exact ih h
        · cases h; rfl

/-- A size line never fails for want of a CRLF: that is `find_line`'s
verdict alone. -/
theorem parseChunkSize_error {line : Bytes} {e : ChunkedError}
    (h : parseChunkSize line = .error e) : e ≠ .missingCrlf := by
  unfold parseChunkSize at h
  simp only at h
  split at h
  · cases h; decide
  · split at h
    · rename_i e' hext
      cases h
      split at hext
      · cases hext
      · rw [extLoop_error hext]; decide
    · split at h
      · cases h; decide
      · exact sizeLoop_error h

theorem pushTrailer_error {max : Nat} {t : Option HeaderVec} {line : Bytes} {e : ChunkedError}
    (h : pushTrailer max t line = .error e) : e ≠ .missingCrlf := by
  unfold pushTrailer at h
  simp only at h
  repeat' split at h
  all_goals cases h <;> decide

/-- In the trailer section only a bare LF is `MissingCrlf`. -/
theorem turn_missingCrlf {limits : Limits} {chunks : List Chunk} {fields : List FieldLine}
    {rest b : Bytes} {d : ChunkedDecoder}
    (h : (atTrailers limits chunks fields).turn rest = .ret (.error .missingCrlf) d b) :
    ∃ pre post, rest = pre ++ LF :: post ∧ LF ∉ pre ∧ pre.getLast? ≠ some CR := by
  rcases findLine_cases rest (atTrailers limits chunks fields).maxTrailer .trailerTooLarge with
    ⟨line, tail, rfl, hline⟩ | ⟨hno, _⟩ | ⟨pre, post, hsplit, hpre, hcr, _⟩
  · exfalso
    rw [turn_of_trailers rfl] at h
    by_cases hlen : line.length ≤ (atTrailers limits chunks fields).maxTrailer
    · rw [turnTrailers_line _ tail hline hlen, onTrailerLine] at h
      split at h
      · cases h
      · split at h
        · split at h <;> cases h
        · split at h
          · rename_i e hp
            cases h
            exact pushTrailer_error hp rfl
          · cases h
    · rw [turnTrailers, findLine_line tail hline, if_pos (Nat.not_le.mp hlen)] at h
      cases h
  · rw [turn_trailers_open rfl hno] at h
    split at h <;> cases h
  · exact ⟨pre, post, hsplit, hpre, hcr⟩

/-- The trailer section, followed on its own. -/
def InTrailers (limits : Limits) (chunks : List Chunk) (c : Bytes) (d : ChunkedDecoder) : Prop :=
  (∃ fields, FieldsFit limits fields ∧ c = Message.fieldLines fields ∧
    d = atTrailers limits chunks fields) ∨ d.state = .ending

theorem inTrailers_invariant (limits : Limits) (chunks : List Chunk) :
    Invariant (InTrailers limits chunks) where
  pos := by
    intro c d h hs
    rcases h with ⟨fields, _, _, rfl⟩ | hd
    · cases hs
    · rw [hd] at hs; cases hs
  again := by
    intro c c' d d' h hturn
    have h0 := hturn []
    rw [List.append_nil] at h0
    rcases h with ⟨fields, hf, rfl, rfl⟩ | hd
    · rcases turn_atTrailers hf (by rw [h0]; intros; simp) (by rw [h0]; intros; simp)
        (by rw [h0]; rfl) with ⟨f, rfl, hfit, heq⟩ | ⟨_, _, hst⟩
      · rw [h0] at heq
        cases heq
        exact Or.inl ⟨fields ++ [f], hfit, (Message.fieldLines_append fields f).symm, rfl⟩
      · rw [h0] at hst
        exact Or.inr hst
    · simp only [turn, hd] at h0; cases h0
  data := by
    intro c y d h hs _ _
    rcases h with ⟨fields, _, _, rfl⟩ | hd
    · cases hs
    · rw [hd] at hs; cases hs
  trailers := by
    intro c c' d d' t _ hturn
    rcases turn_ret (hturn []) with ⟨_, he⟩ | ⟨he, _⟩ | ⟨_, he, _⟩ | ⟨_, _, _, _, hst, _⟩ | ⟨he, _⟩
    · cases he
    · cases he
    · cases he
    · exact Or.inr hst
    · cases he

theorem breaksAtLf_of_drain {limits : Limits} {chunks : List Chunk} {tail : Bytes}
    (h : ((atTrailers limits chunks []).drain tail).stop = .failed .missingCrlf) :
    ∃ fields pre, BreaksAtLf limits tail fields pre := by
  have h0 : InTrailers limits chunks [] (atTrailers limits chunks []) :=
    Or.inl ⟨[], FieldsFit.nil limits, rfl, rfl⟩
  obtain ⟨c, rest, b, t, d', hstop⟩ :=
    drain_stops (inTrailers_invariant limits chunks) _ _ [] tail h0 (Nat.lt_succ_self _)
  rcases hstop.stop with ⟨_, hrun⟩ | ⟨e, d₁, b₁, hturn, hrun⟩ | ⟨_, hrun⟩
  · rw [hrun] at h; cases h
  · rw [hrun] at h
    cases h
    rcases hstop.inv with ⟨fields, hf, hc, rfl⟩ | hst
    · obtain ⟨pre, post, hsplit, hpre, hcr⟩ := turn_missingCrlf hturn
      refine ⟨fields, pre, hf, hpre, hcr, post, ?_⟩
      rw [← hsplit, ← hc]
      exact hstop.split
    · simp only [turn, hst] at hturn; cases hturn
  · rw [hrun] at h; cases h

/-- A size line whose whole run looks like the run cut before its LF. -/
theorem breaksAtLf_of_sizeLine {limits : Limits} {chunks : List Chunk} {line tail : Bytes}
    (hline : LF ∉ line) (hlen : line.length ≤ maxSizeLine)
    (h : ((atSize limits chunks).drain (line ++ crlf ++ tail)).observed
      = ([], [], .failed .missingCrlf)) :
    SizeLine line 0 ∧ ∃ fields pre, BreaksAtLf limits tail fields pre := by
  rw [drain_turn, turn_of_size rfl, turnSize_line _ tail hline hlen, onSizeLine] at h
  cases hp : parseChunkSize line with
  | error e =>
      simp only [hp, Outcome.ofPoll, Outcome.observed, Stop.verdict, Prod.mk.injEq,
        Verdict.failed.injEq, true_and] at h
      exact absurd h (parseChunkSize_error hp)
  | ok n =>
      simp only [hp] at h
      by_cases hbudget : ((checkedAdd (atSize limits chunks).decoded n).all fun total =>
          total > (atSize limits chunks).maxBody) = true
      · simp only [if_pos hbudget] at h
        cases h
      · by_cases hn : n = 0
        · subst hn
          simp only [if_neg hbudget, if_true] at h
          refine ⟨parseChunkSize_iff.mp hp, @breaksAtLf_of_drain limits chunks tail ?_⟩
          have hverdict : ((atTrailers limits chunks []).drain tail).stop.verdict
              = .failed .missingCrlf := congrArg (fun o => o.2.2) h
          cases hs : ((atTrailers limits chunks []).drain tail).stop <;> rw [hs] at hverdict <;>
            cases hverdict
          rfl
        · -- the line announces data: the run waits for it or has emitted some
          simp only [if_neg hbudget, if_neg hn] at h
          by_cases htail : tail = []
          · subst htail
            rw [drain_turn] at h
            simp only [turn, turnData, if_true] at h
            cases h
          · rw [drain_turn, turn_of_data rfl htail] at h
            have hbody := congrArg (fun o => o.1.length) h
            have hpos : 0 < tail.length := List.length_pos_iff.mpr htail
            simp only [Outcome.ofPoll, Outcome.observed, Outcome.after, List.length_append,
              List.length_take, List.length_nil] at hbody
            omega

/-- Cut in front of `LF :: tail`, an input whose front fails is reported as
that failure. -/
theorem feed_cut {limits : Limits} {front body : Bytes} {trailers : List HeaderVec}
    {e : ChunkedError} (h : (new limits).drain front = ⟨body, trailers, .failed e⟩)
    (tail : Bytes) : (new limits).feed [] [front, tail] = ⟨body, trailers, .failed e⟩ := by
  simp only [feed, List.nil_append, h]

/-- Both kinds of line show, at the cut before their LF. -/
theorem cut_shows {limits : Limits} {buf : Bytes} (h : CutSensitive limits buf) :
    ∃ front tail, front ≠ [] ∧ front ++ LF :: tail = buf ∧
      ((new limits).feed [] [front, LF :: tail]).observed ≠ ((new limits).drain buf).observed := by
  rcases h with ⟨chunks, line, tail, hc, rfl, hline, hlen, hnot⟩ |
    ⟨chunks, last, tail, fields, pre, hc, hl, rfl, hbreak, hlong⟩
  · have hopen : (atSize limits chunks).drain (line ++ [CR]) = ⟨[], [], .failed .missingCrlf⟩ := by
      have hno : LF ∉ line ++ [CR] := by simpa using hline
      have hover : (line ++ [CR]).length > maxSizeLine := by
        simp only [List.length_append, List.length_cons, List.length_nil]; omega
      rw [drain_turn, turn_size_open rfl hno, if_pos hover]
      rfl
    refine ⟨chunks.flatMap Chunk.encode ++ (line ++ [CR]), tail, by simp, by simp [crlf], ?_⟩
    intro heq
    rw [feed_cut (by rw [reaches_chunks hc, hopen]; rfl), reaches_chunks hc] at heq
    refine hnot (@breaksAtLf_of_sizeLine limits chunks line tail hline (by omega) ?_)
    simp only [Outcome.observed, Outcome.after, List.append_nil, List.nil_append, Prod.mk.injEq,
      List.self_eq_append_right] at heq
    simp only [Outcome.observed, Prod.mk.injEq]
    exact ⟨heq.1, heq.2.1.symm, heq.2.2.symm⟩
  · have hwhole := drain_breaksAtLf chunks hbreak
    obtain ⟨hf, hpre, hcr, post, rfl⟩ := hbreak
    have hopen : (atTrailers limits chunks fields).drain pre
        = ⟨[], [], .failed .trailerTooLarge⟩ := by
      have hover : pre.length > (atTrailers limits chunks fields).maxTrailer := hlong
      rw [drain_turn, turn_trailers_open rfl hpre, if_pos hover]
      rfl
    have hreach := (reaches_chunks hc).trans (reaches_last hc hl)
    refine ⟨chunks.flatMap Chunk.encode ++ (last ++ crlf) ++ (Message.fieldLines fields ++ pre),
      post, by simp, by simp, ?_⟩
    rw [feed_cut (by rw [hreach, reaches_fields chunks hf, hopen]; rfl), ← List.append_assoc,
      hreach, hwhole]
    simp [Outcome.observed, Outcome.after, Stop.verdict]

/-! ## 4. The answer -/

/-- **The decoder's meaning is independent of how its input is cut exactly
on the inputs without one of the two lines.** -/
theorem split_independent_iff (limits : Limits) (buf : Bytes) :
    (∀ pieces : List Bytes, (∀ p ∈ pieces, p ≠ []) → pieces.flatten = buf →
      ((new limits).feed [] pieces).observed = ((new limits).drain buf).observed) ↔
    ¬ CutSensitive limits buf := by
  constructor
  · intro hall hcut
    obtain ⟨front, tail, hne, hjoin, hdiff⟩ := cut_shows hcut
    refine hdiff (hall [front, LF :: tail] ?_ (by simpa using hjoin))
    intro p hp
    rcases List.mem_cons.mp hp with rfl | hp
    · exact hne
    · have : p = LF :: tail := by simpa using hp
      rw [this]; simp
  · intro hok pieces _ hjoin
    subst hjoin
    have hstill : (new limits).drain [] = ⟨[], [], .needMore (new limits) []⟩ := by
      rw [drain_turn]
      rfl
    rcases feed_eq pieces (along_new limits) hstill with
      heq | ⟨front, back, b, t, e, hjoin, hfail, hf⟩
    · rw [heq, List.nil_append]
    · rw [List.nil_append] at hfail
      rw [← hjoin] at hok ⊢
      rw [hf, failed_append hfail hok]

/-- A chunk of one byte whose size line is padded with an extension to
exactly the bound, cut inside the CRLF of that line: refused in two pieces,
read to the end in one. -/
theorem padded_size_line_split :
    let front := ascii "1;" ++ List.replicate 270 97 ++ [CR]
    let tail := LF :: ascii "x\r\n0\r\n\r\n"
    ((new Limits.default).feed [] [front, tail]).observed = ([], [], .failed .missingCrlf) ∧
    ((new Limits.default).drain (front ++ tail)).observed = (ascii "x", [], .ended []) := by
  decide +kernel

end ChunkedDecoder

end ArmatureH1
