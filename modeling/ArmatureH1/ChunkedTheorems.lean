/-
ArmatureH1.ChunkedTheorems — running the decoder to a standstill.

`drain` polls until the decoder asks for more, fails or ends, and `feed`
does that for each piece of a divided input, the way the repository's own
fuzz target drives the decoder. Both collect an `Outcome`: the body bytes,
the trailer fields, and how the run stopped.

The loop bounds in `poll` and `drain` are not observable: `drain_turn` says
that draining is taking one turn and draining what is left, with no fuel in
the statement. Every later proof about the decoder starts from that equation
and inducts on the length of the buffer, which each turn shortens
(`turn_again_lt`, `turn_ret_lt`).

`Reaches d c body trailers d'` is the notion the streaming results rest on:
having consumed `c` and emitted `body` and `trailers`, the decoder `d` stands
at `d'`, whatever comes next. It is stated as an equation between runs, so it
composes by rewriting.
-/
import ArmatureH1.Chunked

namespace ArmatureH1

open ByteString

/-! ## 1. Lines -/

/-- A complete line: content, CRLF, and what follows. -/
theorem findLine_line {content : Bytes} (rest : Bytes) (hlf : LF ∉ content)
    (max : Nat) (e : ChunkedError) :
    findLine (content ++ crlf ++ rest) max e =
      if content.length > max then .error e
      else .ok (some (content.length, content.length + 2)) := by
  have hm : memchr LF (content ++ crlf ++ rest) = some (content.length + 1) := by
    have hpre : LF ∉ content ++ [CR] := by simpa using hlf
    have := memchr_append_cons rest hpre
    simpa [crlf] using this
  have hcr : (content ++ crlf ++ rest)[content.length]? = some CR := by
    simp [crlf]
  simp only [findLine, hm, Nat.add_sub_cancel, hcr]
  simp

/-- A line ended by a bare LF. -/
theorem findLine_bare {pre post : Bytes} (hlf : LF ∉ pre) (hcr : pre.getLast? ≠ some CR)
    (max : Nat) (e : ChunkedError) :
    findLine (pre ++ LF :: post) max e = .error .missingCrlf := by
  have hbad : pre.length = 0 ∨ (pre ++ LF :: post)[pre.length - 1]? ≠ some CR := by
    by_cases h0 : pre.length = 0
    · exact Or.inl h0
    · right
      rw [List.getElem?_append_left (by omega), ← List.getLast?_eq_getElem?]
      exact hcr
  simp only [findLine, memchr_append_cons post hlf, if_pos hbad]

/-- What each answer of `findLine` says about the buffer. -/
theorem findLine_cases (buf : Bytes) (max : Nat) (e : ChunkedError) :
    (∃ content rest, buf = content ++ crlf ++ rest ∧ LF ∉ content) ∨
    (LF ∉ buf ∧ findLine buf max e = if buf.length > max then .error e else .ok none) ∨
    (∃ pre post, buf = pre ++ LF :: post ∧ LF ∉ pre ∧ pre.getLast? ≠ some CR ∧
      findLine buf max e = .error .missingCrlf) := by
  cases hm : memchr LF buf with
  | none => exact Or.inr (Or.inl ⟨memchr_eq_none.mp hm, by simp only [findLine, hm]⟩)
  | some i =>
      obtain ⟨pre, post, rfl, hpre, rfl⟩ := memchr_eq_some.mp hm
      by_cases hcr : pre.getLast? = some CR
      · obtain ⟨content, rfl⟩ := List.getLast?_eq_some_iff.mp hcr
        exact Or.inl ⟨content, post, by simp [crlf], fun h => hpre (by simp [h])⟩
      · exact Or.inr (Or.inr ⟨pre, post, rfl, hpre, hcr, findLine_bare hpre hcr max e⟩)

theorem findLine_ok_some {buf : Bytes} {max : Nat} {e : ChunkedError} {n c : Nat}
    (h : findLine buf max e = .ok (some (n, c))) :
    ∃ content rest, buf = content ++ crlf ++ rest ∧ LF ∉ content ∧ content.length ≤ max ∧
      n = content.length ∧ c = content.length + 2 := by
  rcases findLine_cases buf max e with ⟨content, rest, rfl, hlf⟩ | ⟨_, hf⟩ | ⟨_, _, _, _, _, hf⟩
  · rw [findLine_line rest hlf] at h
    split at h
    · cases h
    · rename_i hle
      cases h
      exact ⟨content, rest, rfl, hlf, by omega, rfl, rfl⟩
  · rw [hf] at h
    split at h <;> cases h
  · rw [hf] at h; cases h

theorem findLine_ok_none {buf : Bytes} {max : Nat} {e : ChunkedError}
    (h : findLine buf max e = .ok none) : LF ∉ buf ∧ buf.length ≤ max := by
  rcases findLine_cases buf max e with ⟨content, rest, rfl, hlf⟩ | ⟨hlf, hf⟩ | ⟨_, _, _, _, _, hf⟩
  · rw [findLine_line rest hlf] at h
    split at h <;> cases h
  · rw [hf] at h
    split at h
    · cases h
    · exact ⟨hlf, by omega⟩
  · rw [hf] at h; cases h

/-- A line that has ended is not changed by bytes that arrive behind it. -/
theorem findLine_append {buf : Bytes} (x : Bytes) (max : Nat) (e : ChunkedError)
    (h : LF ∈ buf) : findLine (buf ++ x) max e = findLine buf max e := by
  rcases findLine_cases buf max e with ⟨content, rest, rfl, hlf⟩ | ⟨hlf, _⟩ | hbad
  · have := findLine_line (rest ++ x) hlf max e
    rw [← List.append_assoc] at this
    rw [this, findLine_line rest hlf]
  · exact absurd h hlf
  · obtain ⟨pre, post, rfl, hpre, hcr, hf⟩ := hbad
    rcases findLine_cases (pre ++ LF :: post ++ x) max e with
      ⟨content, rest, heq, hlf⟩ | ⟨hlf, _⟩ | ⟨_, _, _, _, _, hf'⟩
    · -- the first LF of both spellings is the same one, and no CR stands before it
      have h1 := memchr_append_cons (post ++ x) hpre
      have h2 : memchr LF (content ++ [CR] ++ LF :: rest) = some (content ++ [CR]).length :=
        memchr_append_cons rest (by simpa using hlf)
      have heq' : pre ++ LF :: (post ++ x) = content ++ [CR] ++ LF :: rest := by
        simpa [crlf] using heq
      rw [heq', h2] at h1
      have hlen : (content ++ [CR]).length = pre.length := by simpa using h1
      have := (List.append_inj heq' hlen.symm).1
      exact absurd (by simp [this]) hcr
    · exact absurd (by simp) hlf
    · rw [hf, hf']

/-! ## 2. Turns -/

namespace ChunkedDecoder

/-- The decoder a turn leaves. -/
def Turn.decoder : Turn → ChunkedDecoder
  | .again d _ => d
  | .ret _ d _ => d

/-- The buffer a turn leaves. -/
def Turn.buffer : Turn → Bytes
  | .again _ buf => buf
  | .ret _ _ buf => buf

/-- More input behind the buffer a turn left. -/
def Turn.append (x : Bytes) : Turn → Turn
  | .again d buf => .again d (buf ++ x)
  | .ret r d buf => .ret r d (buf ++ x)

/-- The buffer holds all that the next turn looks at. A turn in the data
state looks at everything there is, so it is never settled. -/
def Settled (d : ChunkedDecoder) (buf : Bytes) : Prop :=
  match d.state with
  | .size | .trailers => LF ∈ buf
  | .data => False
  | .dataCrlf => 2 ≤ buf.length
  | .ending | .done => True

theorem turn_of_size {d : ChunkedDecoder} {buf : Bytes} (hs : d.state = .size) :
    d.turn buf = d.turnSize buf := by simp only [turn, hs]

theorem turn_of_trailers {d : ChunkedDecoder} {buf : Bytes} (hs : d.state = .trailers) :
    d.turn buf = d.turnTrailers buf := by simp only [turn, hs]

theorem turnSize_line (d : ChunkedDecoder) {content : Bytes} (rest : Bytes)
    (hlf : LF ∉ content) (hlen : content.length ≤ maxSizeLine) :
    turnSize d (content ++ crlf ++ rest) =
      d.onSizeLine content (content ++ crlf ++ rest) rest := by
  have htake : (content ++ crlf ++ rest).take content.length = content := by simp
  have hdrop : (content ++ crlf ++ rest).drop (content.length + 2) = rest := by
    simp [crlf]
  simp only [turnSize, findLine_line rest hlf, if_neg (Nat.not_lt.mpr hlen), htake, hdrop]

theorem turnTrailers_line (d : ChunkedDecoder) {content : Bytes} (rest : Bytes)
    (hlf : LF ∉ content) (hlen : content.length ≤ d.maxTrailer) :
    turnTrailers d (content ++ crlf ++ rest) =
      onTrailerLine { d with trailerBytes := d.trailerBytes + (content.length + 2) }
        content (content ++ crlf ++ rest) rest := by
  have htake : (content ++ crlf ++ rest).take content.length = content := by simp
  have hdrop : (content ++ crlf ++ rest).drop (content.length + 2) = rest := by
    simp [crlf]
  simp only [turnTrailers, findLine_line rest hlf, if_neg (Nat.not_lt.mpr hlen), htake, hdrop]

theorem onSizeLine_append (d : ChunkedDecoder) (line buf rest x : Bytes) :
    d.onSizeLine line (buf ++ x) (rest ++ x) = (d.onSizeLine line buf rest).append x := by
  unfold onSizeLine
  split
  · rfl
  · split
    · rfl
    · split <;> rfl

theorem onTrailerLine_append (d : ChunkedDecoder) (line buf rest x : Bytes) :
    d.onTrailerLine line (buf ++ x) (rest ++ x) = (d.onTrailerLine line buf rest).append x := by
  unfold onTrailerLine
  split
  · rfl
  · split
    · split <;> rfl
    · split <;> rfl

/-- A found line lies inside the buffer. -/
theorem findLine_le {buf : Bytes} {max : Nat} {e : ChunkedError} {n c : Nat}
    (h : findLine buf max e = .ok (some (n, c))) : n ≤ buf.length ∧ c ≤ buf.length := by
  obtain ⟨content, rest, rfl, _, _, rfl, rfl⟩ := findLine_ok_some h
  simp only [List.length_append, length_crlf]
  omega

/-- A settled turn is not changed by what arrives behind it. -/
theorem turn_append {d : ChunkedDecoder} {buf : Bytes} (x : Bytes) (h : Settled d buf) :
    d.turn (buf ++ x) = (d.turn buf).append x := by
  unfold Settled at h
  unfold turn
  cases hs : d.state with
  | size =>
      simp only [hs] at h ⊢
      unfold turnSize
      rw [findLine_append x _ _ h]
      cases hf : findLine buf maxSizeLine .missingCrlf with
      | error e => rfl
      | ok r =>
          match r, hf with
          | none, _ => rfl
          | some (n, c), hf =>
              obtain ⟨hn, hc⟩ := findLine_le hf
              simp only [List.take_append_of_le_length hn, List.drop_append_of_le_length hc]
              exact onSizeLine_append d _ buf _ x
  | data => simp only [hs] at h
  | dataCrlf =>
      simp only [hs] at h ⊢
      have h1 : ¬ buf.length < 2 := by omega
      have h2 : ¬ (buf ++ x).length < 2 := by simp only [List.length_append]; omega
      simp only [turnDataCrlf, if_neg h1, if_neg h2, List.take_append_of_le_length h,
        List.drop_append_of_le_length h]
      split <;> rfl
  | trailers =>
      simp only [hs] at h ⊢
      unfold turnTrailers
      rw [findLine_append x _ _ h]
      cases hf : findLine buf d.maxTrailer .trailerTooLarge with
      | error e => rfl
      | ok r =>
          match r, hf with
          | none, _ => rfl
          | some (n, c), hf =>
              obtain ⟨hn, hc⟩ := findLine_le hf
              simp only [List.take_append_of_le_length hn, List.drop_append_of_le_length hc]
              exact onTrailerLine_append _ _ buf _ x
  | ending => rfl
  | done => rfl

/-- A line state without an LF in the buffer: nothing is consumed, and the
only question is whether the bound is already broken. -/
theorem turn_size_open {d : ChunkedDecoder} {buf : Bytes} (hs : d.state = .size)
    (hlf : LF ∉ buf) :
    d.turn buf
      = .ret (if buf.length > maxSizeLine then .error .missingCrlf else .ok none) d buf := by
  have hm := memchr_eq_none.mpr hlf
  by_cases hlen : buf.length > maxSizeLine <;> simp [turn, hs, turnSize, findLine, hm, hlen]

theorem turn_trailers_open {d : ChunkedDecoder} {buf : Bytes} (hs : d.state = .trailers)
    (hlf : LF ∉ buf) :
    d.turn buf =
      .ret (if buf.length > d.maxTrailer then .error .trailerTooLarge else .ok none) d buf := by
  have hm := memchr_eq_none.mpr hlf
  by_cases hlen : buf.length > d.maxTrailer <;> simp [turn, hs, turnTrailers, findLine, hm, hlen]

/-! ### Progress -/

theorem onSizeLine_again {d d' : ChunkedDecoder} {line buf rest buf' : Bytes}
    (h : d.onSizeLine line buf rest = .again d' buf') :
    buf' = rest ∧ ∀ b r, d.onSizeLine line b r = .again d' r := by
  unfold onSizeLine at h ⊢
  split at h
  · cases h
  · rename_i size hp
    split at h
    · cases h
    · rename_i hbudget
      split at h <;> rename_i hz <;> cases h
      · exact ⟨rfl, fun b r => by rw [if_neg hbudget, if_pos hz]⟩
      · exact ⟨rfl, fun b r => by rw [if_neg hbudget, if_neg hz]⟩

theorem onTrailerLine_again {d d' : ChunkedDecoder} {line buf rest buf' : Bytes}
    (h : d.onTrailerLine line buf rest = .again d' buf') :
    buf' = rest ∧ ∀ b r, d.onTrailerLine line b r = .again d' r := by
  unfold onTrailerLine at h ⊢
  split at h
  · cases h
  · rename_i hbudget
    split at h
    · rename_i hz
      split at h <;> cases h
      exact ⟨rfl, fun b r => by simp only [if_neg hbudget, hz, if_true]⟩
    · rename_i hz
      split at h <;> cases h
      exact ⟨rfl, fun b r => by simp only [if_neg hbudget, hz, if_false]⟩

/-- A turn that goes round again has consumed a line terminator at least,
and looks at nothing behind what it consumed. -/
theorem turn_again {d d' : ChunkedDecoder} {buf buf' : Bytes}
    (h : d.turn buf = .again d' buf') :
    ∃ c, 2 ≤ c.length ∧ buf = c ++ buf' ∧ ∀ x, d.turn (c ++ x) = .again d' x := by
  unfold turn at h
  cases hs : d.state with
  | size =>
      simp only [hs] at h
      unfold turnSize at h
      split at h
      · cases h
      · cases h
      · rename_i n c hf
        obtain ⟨content, rest, rfl, hlf, hlen, rfl, rfl⟩ := findLine_ok_some hf
        obtain ⟨rfl, hx⟩ := onSizeLine_again h
        refine ⟨content ++ crlf, by simp, by simp, fun x => ?_⟩
        rw [turn_of_size hs, turnSize_line d x hlf hlen]
        simpa using hx (content ++ crlf ++ x) x
  | data =>
      simp only [hs, turnData] at h
      split at h <;> cases h
  | dataCrlf =>
      simp only [hs, turnDataCrlf] at h
      split at h
      · cases h
      · split at h
        · cases h
        · rename_i h2 hcr
          cases h
          simp only [ne_eq, Decidable.not_not] at hcr
          refine ⟨crlf, by simp, by rw [← hcr, List.take_append_drop], fun x => ?_⟩
          simp [turn, hs, turnDataCrlf, crlf]
  | trailers =>
      simp only [hs] at h
      unfold turnTrailers at h
      split at h
      · cases h
      · cases h
      · rename_i n c hf
        obtain ⟨content, rest, rfl, hlf, hlen, rfl, rfl⟩ := findLine_ok_some hf
        obtain ⟨rfl, hx⟩ := onTrailerLine_again h
        refine ⟨content ++ crlf, by simp, by simp, fun x => ?_⟩
        rw [turn_of_trailers hs, turnTrailers_line d x hlf hlen]
        simpa using hx (content ++ crlf ++ x) x
  | ending => simp only [hs] at h; cases h
  | done => simp only [hs] at h; cases h

theorem onSizeLine_ret {d d' : ChunkedDecoder} {line buf rest buf' : Bytes} {r : PollResult}
    (h : d.onSizeLine line buf rest = .ret r d' buf') : ∃ e, r = .error e := by
  unfold onSizeLine at h
  split at h
  · cases h; exact ⟨_, rfl⟩
  · split at h
    · cases h; exact ⟨_, rfl⟩
    · split at h <;> cases h

theorem onTrailerLine_ret {d d' : ChunkedDecoder} {line buf rest buf' : Bytes} {r : PollResult}
    (h : d.onTrailerLine line buf rest = .ret r d' buf') :
    (∃ e, r = .error e) ∨
    (∃ t, r = .ok (some (.trailers t)) ∧ buf' = rest ∧ d'.state = .ending ∧
      ∀ b r', d.onTrailerLine line b r' = .ret r d' r') := by
  unfold onTrailerLine at h ⊢
  split at h
  · cases h; exact Or.inl ⟨_, rfl⟩
  · rename_i hbudget
    split at h
    · rename_i hz
      split at h <;> cases h
      refine Or.inr ⟨_, rfl, rfl, rfl, fun b r' => ?_⟩
      simp only [if_neg hbudget, hz, if_true]
    · split at h <;> cases h
      exact Or.inl ⟨_, rfl⟩

/-- What a turn that returns can return: an error, a request for more, a
piece of the current chunk, the trailer section, or the end. -/
theorem turn_ret {d d' : ChunkedDecoder} {buf buf' : Bytes} {r : PollResult}
    (h : d.turn buf = .ret r d' buf') :
    (∃ e, r = .error e) ∨ (r = .ok none ∧ d' = d ∧ buf' = buf ∧ ¬ Settled d buf) ∨
    (∃ x, r = .ok (some (.data x)) ∧ d.state = .data ∧ buf ≠ []) ∨
    (∃ t c, r = .ok (some (.trailers t)) ∧ d.state = .trailers ∧ d'.state = .ending ∧
      2 ≤ c.length ∧ buf = c ++ buf' ∧ ∀ x, d.turn (c ++ x) = .ret r d' x) ∨
    (r = .ok (some .ended) ∧ d' = { d with state := .done } ∧ buf' = buf ∧
      ∀ x, d.turn x = .ret r d' x) := by
  unfold Settled
  unfold turn at h
  cases hs : d.state with
  | size =>
      simp only [hs] at h ⊢
      unfold turnSize at h
      split at h
      · cases h; exact Or.inl ⟨_, rfl⟩
      · rename_i hf
        cases h
        exact Or.inr (Or.inl ⟨rfl, rfl, rfl, (findLine_ok_none hf).1⟩)
      · exact Or.inl (onSizeLine_ret h)
  | data =>
      simp only [hs, turnData] at h ⊢
      split at h
      · cases h
        exact Or.inr (Or.inl ⟨rfl, rfl, rfl, fun h => h⟩)
      · rename_i hne
        cases h
        exact Or.inr (Or.inr (Or.inl ⟨_, rfl, trivial, hne⟩))
  | dataCrlf =>
      simp only [hs, turnDataCrlf] at h ⊢
      split at h
      · cases h
        exact Or.inr (Or.inl ⟨rfl, rfl, rfl, by omega⟩)
      · split at h
        · cases h; exact Or.inl ⟨_, rfl⟩
        · cases h
  | trailers =>
      simp only [hs] at h ⊢
      unfold turnTrailers at h
      split at h
      · cases h; exact Or.inl ⟨_, rfl⟩
      · rename_i hf
        cases h
        exact Or.inr (Or.inl ⟨rfl, rfl, rfl, (findLine_ok_none hf).1⟩)
      · rename_i n c hf
        obtain ⟨content, rest, rfl, hlf, hlen, rfl, rfl⟩ := findLine_ok_some hf
        rcases onTrailerLine_ret h with he | ⟨t, hr, rfl, hst, hx⟩
        · exact Or.inl he
        · refine Or.inr (Or.inr (Or.inr (Or.inl
            ⟨t, content ++ crlf, hr, trivial, hst, by simp, by simp, fun x => ?_⟩)))
          rw [turn_of_trailers hs, turnTrailers_line d x hlf hlen]
          simpa using hx (content ++ crlf ++ x) x
  | ending =>
      simp only [hs] at h ⊢
      cases h
      exact Or.inr (Or.inr (Or.inr (Or.inr ⟨rfl, rfl, rfl, fun x => by simp only [turn, hs]⟩)))
  | done =>
      simp only [hs] at h ⊢
      cases h
      exact Or.inr (Or.inr (Or.inr (Or.inr
        ⟨rfl, by rw [← hs], rfl, fun x => by simp only [turn, hs]⟩)))

/-! ## 3. Draining -/

/-- How a run over a buffer stopped: at the end of the body with the bytes
behind it unread, waiting for more, or on an error. -/
inductive Stop where
  | ended (rest : Bytes)
  | needMore (d : ChunkedDecoder) (rest : Bytes)
  | failed (e : ChunkedError)
  deriving DecidableEq

/-- The events of a run, in order, and how it stopped. The `End` event is
the stop. -/
structure Transcript where
  events : List ChunkEvent
  stop : Stop
  deriving DecidableEq

/-- Put one result of `poll` in front of the transcript of what follows. -/
def Transcript.ofPoll (next : ChunkedDecoder → Bytes → Transcript) (d : ChunkedDecoder)
    (buf : Bytes) : PollResult → Transcript
  | .error e => ⟨[], .failed e⟩
  | .ok none => ⟨[], .needMore d buf⟩
  | .ok (some .ended) => ⟨[], .ended buf⟩
  | .ok (some ev) => ⟨ev :: (next d buf).events, (next d buf).stop⟩

def transcriptFuel : Nat → ChunkedDecoder → Bytes → Transcript
  | 0, d, buf => ⟨[], .needMore d buf⟩
  | fuel + 1, d, buf =>
    match d.poll buf with
    | (r, d', buf') => Transcript.ofPoll (transcriptFuel fuel) d' buf' r

/-- Poll until the decoder asks for more, fails or ends. -/
def transcript (d : ChunkedDecoder) (buf : Bytes) : Transcript :=
  transcriptFuel (buf.length + 2) d buf

/-- What a run produced, however its data was cut: the concatenated body,
the trailer sections, and how it stopped. -/
structure Outcome where
  body : Bytes
  trailers : List HeaderVec
  stop : Stop
  deriving DecidableEq

/-- Output that came before. -/
def Outcome.after (body : Bytes) (trailers : List HeaderVec) (o : Outcome) : Outcome :=
  ⟨body ++ o.body, trailers ++ o.trailers, o.stop⟩

/-- The body bytes of an event. -/
def eventBody : ChunkEvent → Bytes
  | .data x => x
  | _ => []

/-- The trailer section of an event. -/
def eventTrailers : ChunkEvent → Option HeaderVec
  | .trailers t => some t
  | _ => none

def Transcript.outcome (t : Transcript) : Outcome where
  body := t.events.flatMap eventBody
  trailers := t.events.filterMap eventTrailers
  stop := t.stop

/-- The outcome of a run. -/
def drain (d : ChunkedDecoder) (buf : Bytes) : Outcome := (d.transcript buf).outcome

/-- Fold one result of `poll` into the outcome of what follows it. -/
def Outcome.ofPoll (next : ChunkedDecoder → Bytes → Outcome) (d : ChunkedDecoder) (buf : Bytes) :
    PollResult → Outcome
  | .error e => ⟨[], [], .failed e⟩
  | .ok none => ⟨[], [], .needMore d buf⟩
  | .ok (some (.data x)) => (next d buf).after x []
  | .ok (some (.trailers t)) => (next d buf).after [] [t]
  | .ok (some .ended) => ⟨[], [], .ended buf⟩

/-- Feed the pieces one after another, each behind the unread remainder of
those before it. Pieces that are left when the run stops stay unread. -/
def feed : ChunkedDecoder → Bytes → List Bytes → Outcome
  | d, rest, [] => ⟨[], [], .needMore d rest⟩
  | d, rest, piece :: pieces =>
    match d.drain (rest ++ piece) with
    | ⟨body, trailers, .needMore d' rest'⟩ => (feed d' rest' pieces).after body trailers
    | ⟨body, trailers, .ended rest'⟩ => ⟨body, trailers, .ended (rest' ++ pieces.flatten)⟩
    | ⟨body, trailers, .failed e⟩ => ⟨body, trailers, .failed e⟩

/-! ### The loop bounds are not observable -/

/-- What every turn that does not stop the run shortens. The data state
counts one, since leaving it is progress of its own. -/
def weight (d : ChunkedDecoder) (buf : Bytes) : Nat :=
  buf.length + if d.state = .data then 1 else 0

theorem weight_le (d : ChunkedDecoder) (buf : Bytes) : weight d buf ≤ buf.length + 1 := by
  unfold weight
  split <;> omega

theorem weight_again {d d' : ChunkedDecoder} {buf buf' : Bytes}
    (h : d.turn buf = .again d' buf') : weight d' buf' < weight d buf := by
  obtain ⟨c, hc, rfl, _⟩ := turn_again h
  have := weight_le d' buf'
  unfold weight
  simp only [List.length_append]
  unfold weight at this
  omega

/-- A turn that emits and lets the run go on shortens it too. -/
theorem weight_ret {d d' : ChunkedDecoder} {buf buf' : Bytes} {ev : ChunkEvent}
    (h : d.turn buf = .ret (.ok (some ev)) d' buf') (hev : ev ≠ .ended) :
    weight d' buf' < weight d buf := by
  rcases turn_ret h with
    ⟨e, he⟩ | ⟨he, _⟩ | ⟨x, he, hs, hne⟩ | ⟨t, c, he, _, hst, hc, rfl, _⟩ | ⟨he, _⟩
  · cases he
  · cases he
  · have hpos : 0 < buf.length := List.length_pos_iff.mpr hne
    simp only [turn, hs, turnData, if_neg hne] at h
    cases h
    unfold weight
    simp only [hs, List.length_drop, if_true]
    by_cases hr : d.remaining = 0
    · simp [hr]
    · split <;> simp only [reduceCtorEq, if_false, if_true] <;> omega
  · unfold weight
    simp only [hst, List.length_append]
    simp
    omega
  · cases he; exact absurd rfl hev

/-- Any fuel above the buffer's length gives the same poll. -/
theorem pollFuel_eq : ∀ (n m : Nat) (d : ChunkedDecoder) (buf : Bytes),
    buf.length < n → buf.length < m → pollFuel n d buf = pollFuel m d buf := by
  intro n
  induction n with
  | zero => intro m d buf hn; omega
  | succ n ih =>
      intro m d buf hn hm
      cases m with
      | zero => omega
      | succ m =>
          simp only [pollFuel]
          cases ht : d.turn buf with
          | ret r d' buf' => rfl
          | again d' buf' =>
              obtain ⟨c, hc, rfl, _⟩ := turn_again ht
              simp only [List.length_append] at hn hm
              exact ih m d' buf' (by omega) (by omega)

/-- `poll`, one turn at a time. -/
theorem poll_turn (d : ChunkedDecoder) (buf : Bytes) :
    d.poll buf =
      match d.turn buf with
      | .again d' buf' => d'.poll buf'
      | .ret r d' buf' => (r, d', buf') := by
  rw [poll, pollFuel]
  cases ht : d.turn buf with
  | ret r d' buf' => rfl
  | again d' buf' =>
      obtain ⟨c, hc, rfl, _⟩ := turn_again ht
      simp only [poll]
      exact pollFuel_eq _ _ d' buf' (by simp only [List.length_append]; omega) (by omega)

/-- A poll that emits and lets the run go on shortens it. -/
theorem weight_poll : ∀ (n : Nat) (d d' : ChunkedDecoder) (buf buf' : Bytes) (ev : ChunkEvent),
    buf.length < n → d.poll buf = (.ok (some ev), d', buf') → ev ≠ .ended →
    weight d' buf' < weight d buf := by
  intro n
  induction n with
  | zero => intro d d' buf buf' ev hn; omega
  | succ n ih =>
      intro d d' buf buf' ev hn h hev
      rw [poll_turn] at h
      cases ht : d.turn buf with
      | ret r d1 buf1 =>
          rw [ht] at h
          cases h
          exact weight_ret ht hev
      | again d1 buf1 =>
          rw [ht] at h
          have hw := weight_again ht
          obtain ⟨c, hc, rfl, _⟩ := turn_again ht
          simp only [List.length_append] at hn
          have := ih d1 d' buf1 buf' ev (by omega) h hev
          omega

/-- Any fuel above the weight gives the same run. -/
theorem transcriptFuel_eq : ∀ (n m : Nat) (d : ChunkedDecoder) (buf : Bytes),
    weight d buf < n → weight d buf < m → transcriptFuel n d buf = transcriptFuel m d buf := by
  intro n
  induction n with
  | zero => intro m d buf hn; omega
  | succ n ih =>
      intro m d buf hn hm
      cases m with
      | zero => omega
      | succ m =>
          simp only [transcriptFuel]
          rcases hp : d.poll buf with ⟨r, d', buf'⟩
          cases r with
          | error e => rfl
          | ok r =>
              cases r with
              | none => rfl
              | some ev =>
                  by_cases hev : ev = .ended
                  · subst hev; rfl
                  · have := weight_poll _ d d' buf buf' _ (Nat.lt_succ_self _) hp hev
                    have hnext := ih m d' buf' (by omega) (by omega)
                    cases ev <;> simp only [Transcript.ofPoll, hnext]

theorem transcript_poll (d : ChunkedDecoder) (buf : Bytes) :
    d.transcript buf =
      Transcript.ofPoll transcript (d.poll buf).2.1 (d.poll buf).2.2 (d.poll buf).1 := by
  rw [transcript, transcriptFuel]
  rcases hp : d.poll buf with ⟨r, d', buf'⟩
  have hw := weight_le d buf
  cases r with
  | error e => rfl
  | ok r =>
      cases r with
      | none => rfl
      | some ev =>
          by_cases hev : ev = .ended
          · subst hev; rfl
          · have := weight_poll _ d d' buf buf' _ (Nat.lt_succ_self _) hp hev
            have hw' := weight_le d' buf'
            have hnext : transcriptFuel (buf.length + 1) d' buf' = d'.transcript buf' :=
              transcriptFuel_eq _ _ d' buf' (by omega) (by omega)
            cases ev <;> simp only [Transcript.ofPoll, hnext]

/-- **A run, one turn at a time.** -/
theorem transcript_turn (d : ChunkedDecoder) (buf : Bytes) :
    d.transcript buf =
      match d.turn buf with
      | .again d' buf' => d'.transcript buf'
      | .ret r d' buf' => Transcript.ofPoll transcript d' buf' r := by
  rw [transcript_poll, poll_turn]
  cases ht : d.turn buf with
  | ret r d' buf' => rfl
  | again d' buf' => simp only [transcript_poll d' buf']

/-- **Draining, one turn at a time.** -/
theorem drain_turn (d : ChunkedDecoder) (buf : Bytes) :
    d.drain buf =
      match d.turn buf with
      | .again d' buf' => d'.drain buf'
      | .ret r d' buf' => Outcome.ofPoll drain d' buf' r := by
  rw [drain, transcript_turn]
  cases ht : d.turn buf with
  | again d' buf' => rfl
  | ret r d' buf' =>
      rcases r with e | _ | ev
      · rfl
      · rfl
      · cases ev <;>
          simp [Transcript.ofPoll, Outcome.ofPoll, Transcript.outcome, drain, Outcome.after,
            eventBody, eventTrailers, List.filterMap_cons]

/-! ## 4. Reaching a state -/

@[simp] theorem Outcome.after_nil (o : Outcome) : o.after [] [] = o := by
  simp [Outcome.after]

@[simp] theorem Outcome.after_after (o : Outcome) (b b' : Bytes) (t t' : List HeaderVec) :
    (o.after b t).after b' t' = o.after (b' ++ b) (t' ++ t) := by
  simp [Outcome.after]

/-- The decoder `d`, fed `c`, emits `body` and `trailers` and stands at
`d'`: whatever follows, the run goes on as a run of `d'`. -/
def Reaches (d : ChunkedDecoder) (c body : Bytes) (trailers : List HeaderVec)
    (d' : ChunkedDecoder) : Prop :=
  ∀ x, d.drain (c ++ x) = (d'.drain x).after body trailers

theorem Reaches.refl (d : ChunkedDecoder) : Reaches d [] [] [] d := by
  intro x
  simp

theorem Reaches.trans {d d₁ d₂ : ChunkedDecoder} {c₁ c₂ b₁ b₂ : Bytes} {t₁ t₂ : List HeaderVec}
    (h₁ : Reaches d c₁ b₁ t₁ d₁) (h₂ : Reaches d₁ c₂ b₂ t₂ d₂) :
    Reaches d (c₁ ++ c₂) (b₁ ++ b₂) (t₁ ++ t₂) d₂ := by
  intro x
  rw [List.append_assoc, h₁, h₂, Outcome.after_after]

theorem Reaches.of_again {d d' : ChunkedDecoder} {c : Bytes}
    (h : ∀ x, d.turn (c ++ x) = .again d' x) : Reaches d c [] [] d' := by
  intro x
  rw [drain_turn, h x]
  simp

/-- The decoder `k` bytes further into the current chunk. -/
def advance (d : ChunkedDecoder) (k : Nat) : ChunkedDecoder :=
  { d with
    remaining := d.remaining - k
    decoded := d.decoded + k
    state := if d.remaining - k = 0 then .dataCrlf else .data }

theorem advance_advance (d : ChunkedDecoder) (j k : Nat) :
    (d.advance j).advance k = d.advance (j + k) := by
  simp only [advance, Nat.sub_sub, Nat.add_assoc]

theorem turn_of_data {d : ChunkedDecoder} {buf : Bytes} (hs : d.state = .data) (hne : buf ≠ []) :
    d.turn buf = .ret (.ok (some (.data (buf.take (min buf.length d.remaining)))))
      (d.advance (min buf.length d.remaining)) (buf.drop (min buf.length d.remaining)) := by
  simp only [turn, hs, turnData, if_neg hne, advance]

/-- A piece of the current chunk, however it is cut, is emitted as it is. -/
theorem reaches_data {d : ChunkedDecoder} {y : Bytes} (hs : d.state = .data) (hne : y ≠ [])
    (hle : y.length ≤ d.remaining) : Reaches d y y [] (d.advance y.length) := by
  intro x
  have hne' : y ++ x ≠ [] := by simp [hne]
  rw [drain_turn, turn_of_data hs hne']
  simp only [Outcome.ofPoll]
  by_cases hx : x = [] ∨ d.remaining = y.length
  · have hk : min (y ++ x).length d.remaining = y.length := by
      rcases hx with rfl | hr
      · simp only [List.append_nil]; omega
      · rw [List.length_append]; omega
    rw [hk]
    simp
  · -- the piece ends inside the chunk and more is there: the turn takes `y`
    -- and the front of `x` in one event, the split run in two
    have hx0 : x ≠ [] := fun h => hx (Or.inl h)
    have hr : y.length < d.remaining := by
      have : d.remaining ≠ y.length := fun h => hx (Or.inr h)
      omega
    have hs' : (d.advance y.length).state = .data := by
      simp only [advance]
      rw [if_neg (by omega)]
    have hk : min (y ++ x).length d.remaining
        = y.length + min x.length (d.remaining - y.length) := by
      rw [List.length_append]; omega
    have hrem : (d.advance y.length).remaining = d.remaining - y.length := rfl
    conv => rhs; rw [drain_turn, turn_of_data hs' hx0]
    simp only [Outcome.ofPoll, hrem, hk, advance_advance, Outcome.after_after]
    rw [List.take_length_add_append, List.drop_length_add_append]
    simp

/-- A property of how much was read and where the decoder stands that every
step of a run keeps. -/
structure Invariant (P : Bytes → ChunkedDecoder → Prop) : Prop where
  pos : ∀ {c d}, P c d → d.state = .data → 0 < d.remaining
  again : ∀ {c c' d d'}, P c d → (∀ x, d.turn (c' ++ x) = .again d' x) → P (c ++ c') d'
  data : ∀ {c y d}, P c d → d.state = .data → y ≠ [] → y.length ≤ d.remaining →
    P (c ++ y) (d.advance y.length)
  trailers : ∀ {c c' d d' t}, P c d →
    (∀ x, d.turn (c' ++ x) = .ret (.ok (some (.trailers t))) d' x) → P (c ++ c') d'

/-- Where a run over `buf` from `d` stopped: behind `c`, at the decoder `d'`,
on a turn that asks for more, fails or ends. -/
structure StopsAfter (P : Bytes → ChunkedDecoder → Prop) (d : ChunkedDecoder) (c₀ buf c rest body :
    Bytes) (trailers : List HeaderVec) (d' : ChunkedDecoder) : Prop where
  split : buf = c ++ rest
  reaches : Reaches d c body trailers d'
  inv : P (c₀ ++ c) d'
  stop :
    (d'.turn rest = .ret (.ok none) d' rest ∧ d.drain buf = ⟨body, trailers, .needMore d' rest⟩) ∨
    (∃ e d₁ b₁, d'.turn rest = .ret (.error e) d₁ b₁ ∧
      d.drain buf = ⟨body, trailers, .failed e⟩) ∨
    ((∀ x, d'.turn x = .ret (.ok (some .ended)) { d' with state := .done } x) ∧
      d.drain buf = ⟨body, trailers, .ended rest⟩)

/-- One step of the walk, then a walk from where it leads. -/
theorem StopsAfter.step {P : Bytes → ChunkedDecoder → Prop} {d d₁ d' : ChunkedDecoder}
    {c₀ c₁ buf rest₁ c rest b₁ b : Bytes} {t₁ t : List HeaderVec} (hbuf : buf = c₁ ++ rest₁)
    (hr : Reaches d c₁ b₁ t₁ d₁) (h : StopsAfter P d₁ (c₀ ++ c₁) rest₁ c rest b t d') :
    StopsAfter P d c₀ buf (c₁ ++ c) rest (b₁ ++ b) (t₁ ++ t) d' where
  split := by rw [hbuf, h.split]; simp
  reaches := hr.trans h.reaches
  inv := by rw [← List.append_assoc]; exact h.inv
  stop := by
    have hd : d.drain buf = (d₁.drain rest₁).after b₁ t₁ := by rw [hbuf, hr]
    rcases h.stop with ⟨hturn, hrun⟩ | ⟨e, d₂, b₂, hturn, hrun⟩ | ⟨hturn, hrun⟩
    · exact Or.inl ⟨hturn, by rw [hd, hrun]; rfl⟩
    · exact Or.inr (Or.inl ⟨e, d₂, b₂, hturn, by rw [hd, hrun]; rfl⟩)
    · exact Or.inr (Or.inr ⟨hturn, by rw [hd, hrun]; rfl⟩)

/-- **Every run is a walk to a turn that stops it**, and keeps what its
steps keep. -/
theorem drain_stops {P : Bytes → ChunkedDecoder → Prop} (hP : Invariant P) :
    ∀ (n : Nat) (d : ChunkedDecoder) (c₀ buf : Bytes), P c₀ d → weight d buf < n →
    ∃ c rest body trailers d', StopsAfter P d c₀ buf c rest body trailers d' := by
  intro n
  induction n with
  | zero => intro d c₀ buf _ hn; omega
  | succ n ih =>
      intro d c₀ buf hinv hn
      cases ht : d.turn buf with
      | again d₁ buf₁ =>
          have hw := weight_again ht
          obtain ⟨c₁, _, hbuf, hx⟩ := turn_again ht
          obtain ⟨c, rest, b, t, d', h⟩ :=
            ih d₁ (c₀ ++ c₁) buf₁ (hP.again hinv hx) (by omega)
          exact ⟨_, rest, _, _, d', h.step hbuf (Reaches.of_again hx)⟩
      | ret r d₁ buf₁ =>
          have hd : d.drain buf = Outcome.ofPoll drain d₁ buf₁ r := by rw [drain_turn, ht]
          have hinv₀ : P (c₀ ++ []) d := by simpa using hinv
          rcases turn_ret ht with ⟨e, rfl⟩ | ⟨rfl, rfl, rfl, _⟩ | ⟨x, rfl, hs, hne⟩ |
            ⟨t₁, c₁, rfl, _, _, _, hbuf, hx⟩ | ⟨rfl, rfl, rfl, hx⟩
          · exact ⟨[], buf, [], [], d, rfl, Reaches.refl d, hinv₀,
              Or.inr (Or.inl ⟨e, d₁, buf₁, ht, hd⟩)⟩
          · exact ⟨[], buf₁, [], [], d₁, rfl, Reaches.refl d₁, hinv₀, Or.inl ⟨ht, hd⟩⟩
          · have hw := weight_ret ht (by simp)
            have hpos := hP.pos hinv hs
            have hlen : 0 < buf.length := List.length_pos_iff.mpr hne
            rw [turn_of_data hs hne] at ht
            cases ht
            generalize hk : min buf.length d.remaining = k at *
            have hlk : (buf.take k).length = k := by rw [List.length_take]; omega
            have hne' : buf.take k ≠ [] := List.length_pos_iff.mp (by omega)
            have hinv₁ := hP.data hinv hs hne' (by omega)
            have hr := reaches_data hs hne' (by omega)
            rw [hlk] at hinv₁ hr
            obtain ⟨c, rest, b, t, d', h⟩ :=
              ih (d.advance k) (c₀ ++ buf.take k) (buf.drop k) hinv₁ (by omega)
            exact ⟨_, rest, _, _, d', h.step (List.take_append_drop k buf).symm hr⟩
          · have hw := weight_ret ht (by simp)
            have hr : Reaches d c₁ [] [t₁] d₁ := by
              intro x
              rw [drain_turn, hx]
              rfl
            obtain ⟨c, rest, b, t, d', h⟩ :=
              ih d₁ (c₀ ++ c₁) buf₁ (hP.trailers hinv hx) (by omega)
            exact ⟨_, rest, _, _, d', h.step hbuf hr⟩
          · exact ⟨[], buf₁, [], [], d, rfl, Reaches.refl d, hinv₀, Or.inr (Or.inr ⟨hx, hd⟩)⟩

/-! ## 5. One poll -/

theorem onSizeLine_suffix (d : ChunkedDecoder) (line rest : Bytes) {c : Bytes} :
    ∃ c', c ++ rest = c' ++ (d.onSizeLine line (c ++ rest) rest).buffer := by
  unfold onSizeLine
  split
  · exact ⟨[], rfl⟩
  · split
    · exact ⟨c, rfl⟩
    · split <;> exact ⟨c, rfl⟩

theorem onTrailerLine_suffix (d : ChunkedDecoder) (line rest : Bytes) {c : Bytes} :
    ∃ c', c ++ rest = c' ++ (d.onTrailerLine line (c ++ rest) rest).buffer := by
  unfold onTrailerLine
  split
  · exact ⟨[], rfl⟩
  · split
    · split <;> exact ⟨c, rfl⟩
    · split <;> exact ⟨c, rfl⟩

/-- A turn only ever takes from the front of the buffer, a failing one
included. -/
theorem turn_suffix (d : ChunkedDecoder) (buf : Bytes) : ∃ c, buf = c ++ (d.turn buf).buffer := by
  unfold turn
  cases d.state with
  | size =>
      simp only [turnSize]
      split
      · exact ⟨[], rfl⟩
      · exact ⟨[], rfl⟩
      · rename_i hf
        obtain ⟨content, rest, rfl, _, _, rfl, rfl⟩ := findLine_ok_some hf
        have hdrop : (content ++ crlf ++ rest).drop (content.length + 2) = rest := by simp [crlf]
        rw [hdrop]
        exact onSizeLine_suffix d _ rest
  | data =>
      simp only [turnData]
      split
      · exact ⟨[], rfl⟩
      · exact ⟨_, (List.take_append_drop _ buf).symm⟩
  | dataCrlf =>
      simp only [turnDataCrlf]
      split
      · exact ⟨[], rfl⟩
      · split
        · exact ⟨[], rfl⟩
        · exact ⟨_, (List.take_append_drop 2 buf).symm⟩
  | trailers =>
      simp only [turnTrailers]
      split
      · exact ⟨[], rfl⟩
      · exact ⟨[], rfl⟩
      · rename_i hf
        obtain ⟨content, rest, rfl, _, _, rfl, rfl⟩ := findLine_ok_some hf
        have hdrop : (content ++ crlf ++ rest).drop (content.length + 2) = rest := by simp [crlf]
        rw [hdrop]
        exact onTrailerLine_suffix _ _ rest
  | ending => exact ⟨[], rfl⟩
  | done => exact ⟨[], rfl⟩

/-- **A poll is a walk without output to the turn that returns.** -/
theorem poll_walk {P : Bytes → ChunkedDecoder → Prop} (hP : Invariant P) :
    ∀ (n : Nat) (d : ChunkedDecoder) (c₀ buf : Bytes), P c₀ d → buf.length < n →
    ∃ c buf₁ d₁ r d' buf', buf = c ++ buf₁ ∧ Reaches d c [] [] d₁ ∧ P (c₀ ++ c) d₁ ∧
      d₁.turn buf₁ = .ret r d' buf' ∧ d.poll buf = (r, d', buf') := by
  intro n
  induction n with
  | zero => intro d c₀ buf _ hn; omega
  | succ n ih =>
      intro d c₀ buf hinv hn
      rw [poll_turn]
      cases ht : d.turn buf with
      | ret r d' buf' =>
          exact ⟨[], buf, d, r, d', buf', rfl, Reaches.refl d, by simpa using hinv, ht, rfl⟩
      | again d₁ buf₁ =>
          obtain ⟨c₁, hc, rfl, hx⟩ := turn_again ht
          simp only [List.length_append] at hn
          obtain ⟨c, buf₂, d₂, r, d', buf', hsplit, hreach, hinv', hturn, hpoll⟩ :=
            ih d₁ (c₀ ++ c₁) buf₁ (hP.again hinv hx) (by omega)
          refine ⟨c₁ ++ c, buf₂, d₂, r, d', buf', by rw [hsplit]; simp,
            (Reaches.of_again hx).trans hreach, ?_, hturn, hpoll⟩
          rw [← List.append_assoc]; exact hinv'

end ChunkedDecoder

end ArmatureH1
