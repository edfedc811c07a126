/-
ArmatureH1.BodyTheorems — where the bytes of a request body go.

`Open pre c delivered sh s` is the state of a body that is being read: of
what the transport delivered, `pre` came before the body, `c` has been
consumed by it, and the rest is in the body's own buffer followed by the
connection's, in this order. `Finished` and `Failed` are the two ways out.
Every poll takes an open body to one of the three (`pollChunk_spec`), and a
body that is not open is not changed by a poll.

What `c` may be is said by the framing and not by the code: `Whole` is a
complete body with what it carries, `Partial` a proper beginning of one. For
a chunked body both are in the terms of `ArmatureH1.ChunkedGrammar`.
-/
import ArmatureH1.ChunkedGrammar
import ArmatureH1.Body

namespace ArmatureH1

open ByteString ChunkedDecoder

/-! ## 1. Polling the decoder -/

namespace ChunkedDecoder

theorem poll_of_ending {d : ChunkedDecoder} (h : d.state = .ending) (buf : Bytes) :
    d.poll buf = (.ok (some .ended), { d with state := .done }, buf) := by
  rw [poll_turn]
  simp only [turn, h]

/-- Behind the trailers there is only the end. -/
theorem poll_trailers_state : ∀ (n : Nat) {d d' : ChunkedDecoder} {buf buf' : Bytes}
    {t : HeaderVec},
    buf.length < n → d.poll buf = (.ok (some (.trailers t)), d', buf') → d'.state = .ending := by
  intro n
  induction n with
  | zero => intro d d' buf buf' t hn; omega
  | succ n ih =>
      intro d d' buf buf' t hn h
      rw [poll_turn] at h
      cases ht : d.turn buf with
      | again d₁ buf₁ =>
          rw [ht] at h
          obtain ⟨c, hc, rfl, _⟩ := turn_again ht
          simp only [List.length_append] at hn
          exact ih (by omega) h
      | ret r d₁ buf₁ =>
          rw [ht] at h
          cases h
          rcases turn_ret ht with ⟨_, he⟩ | ⟨he, _⟩ | ⟨_, he, _⟩ | ⟨_, _, _, _, hst, _⟩ | ⟨he, _⟩
          · cases he
          · cases he
          · cases he
          · exact hst
          · cases he

/-- What a poll of a decoder in the middle of a body comes to: it fails, it
asks for more, it emits a piece, it emits the trailers, or it ends. In every
case it has taken some `c'` off the front of the buffer. -/
theorem poll_spec {limits : Limits} {c : Bytes} {d : ChunkedDecoder} (hd : Along limits c d)
    (buf : Bytes) :
    ∃ c' r d' rest, buf = c' ++ rest ∧ d.poll buf = (r, d', rest) ∧
      ((∃ e, r = .error e) ∨
       (r = .ok none ∧ Along limits (c ++ c') d' ∧ d'.state ≠ .ending ∧ Reaches d c' [] [] d') ∨
       (∃ x, r = .ok (some (.data x)) ∧ x ≠ [] ∧ Along limits (c ++ c') d' ∧
          d'.state ≠ .ending ∧ Reaches d c' x [] d') ∨
       (∃ t, r = .ok (some (.trailers t)) ∧ Along limits (c ++ c') d' ∧ d'.state = .ending ∧
          Reaches d c' [] [t] d') ∨
       (r = .ok (some .ended) ∧ ∃ d₁, Along limits (c ++ c') d₁ ∧ d₁.state = .ending ∧
          Reaches d c' [] [] d₁)) := by
  obtain ⟨c₁, buf₁, d₁, r, d', rest, rfl, hreach, hinv, hturn, hpoll⟩ :=
    poll_walk (along_invariant limits) _ d c buf hd (Nat.lt_succ_self _)
  obtain ⟨c₂, hsuffix⟩ := turn_suffix d₁ buf₁
  rw [hturn] at hsuffix
  have hsuffix' : buf₁ = c₂ ++ rest := hsuffix
  rcases turn_ret hturn with ⟨e, rfl⟩ | ⟨rfl, rfl, rfl, hset⟩ | ⟨x, rfl, hs, hne⟩ |
    ⟨t, c₃, rfl, hs, hst, _, rfl, hx⟩ | ⟨rfl, rfl, rfl, hx⟩
  · exact ⟨c₁ ++ c₂, _, d', rest, by rw [hsuffix']; simp, hpoll, Or.inl ⟨e, rfl⟩⟩
  · refine ⟨c₁, _, d', rest, rfl, hpoll, Or.inr (Or.inl ⟨rfl, hinv, ?_, hreach⟩)⟩
    intro hst
    simp only [Settled, hst] at hset
    exact hset trivial
  · have hpos := (along_invariant limits).pos hinv hs
    have hlen : 0 < buf₁.length := List.length_pos_iff.mpr hne
    rw [turn_of_data hs hne] at hturn
    generalize hk : min buf₁.length d₁.remaining = k at hturn
    have hlk : (buf₁.take k).length = k := by rw [List.length_take]; omega
    have hne' : buf₁.take k ≠ [] := List.length_pos_iff.mp (by omega)
    have hr := reaches_data hs hne' (by omega)
    have hinv' := (along_invariant limits).data hinv hs hne' (by omega)
    rw [hlk] at hr hinv'
    cases hturn
    refine ⟨c₁ ++ buf₁.take k, _, _, _, ?_, hpoll, Or.inr (Or.inr (Or.inl
      ⟨_, rfl, hne', ?_, ?_, ?_⟩))⟩
    · rw [List.append_assoc, List.take_append_drop]
    · rw [← List.append_assoc]; exact hinv'
    · simp only [advance]
      split <;> simp
    · exact hreach.trans hr
  · refine ⟨c₁ ++ c₃, _, d', rest, by simp, hpoll, Or.inr (Or.inr (Or.inr (Or.inl
      ⟨t, rfl, ?_, hst, ?_⟩)))⟩
    · rw [← List.append_assoc]; exact (along_invariant limits).trailers hinv hx
    · have h3 : Reaches d₁ c₃ [] [t] d' := by
        intro x
        rw [drain_turn, hx]
        rfl
      exact hreach.trans h3
  · refine ⟨c₁, _, _, _, rfl, hpoll, Or.inr (Or.inr (Or.inr (Or.inr ⟨rfl, d₁, hinv, ?_, hreach⟩)))⟩
    exact hinv.state_of_ended (hx [])

/-- In the middle of a body the decoder wants more. -/
theorem drain_nil_of_along {limits : Limits} {c : Bytes} {d : ChunkedDecoder}
    (hd : Along limits c d) (hst : d.state ≠ .ending) : (d.drain []).stop = .needMore d [] := by
  rw [drain_turn]
  cases hd with
  | size => rw [turn_size_open rfl (by simp)]; rfl
  | data => rfl
  | dataCrlf => rfl
  | trailers => rw [turn_trailers_open rfl (by simp)]; rfl
  | ending _ h => exact absurd h hst

/-- A decoder that stands at the end has read a message, and emitted its
body. -/
theorem message_of_ending {limits : Limits} {c body : Bytes} {trailers : List HeaderVec}
    {d : ChunkedDecoder} (hd : Along limits c d) (hst : d.state = .ending)
    (hreach : Reaches (new limits) c body trailers d) :
    ∃ m : Message, m.Valid limits ∧ c = m.encode ∧ body = m.body := by
  cases hd with
  | size => cases hst
  | data => cases hst
  | dataCrlf => cases hst
  | trailers => cases hst
  | @ending m _ hv _ =>
      refine ⟨m, hv, rfl, ?_⟩
      have h1 := hreach []
      have h2 : d.drain [] = ⟨[], [], .ended []⟩ := by
        rw [drain_turn]
        simp only [turn, hst]
        rfl
      rw [drain_message hv, h2] at h1
      have := congrArg Outcome.body h1
      simpa [Outcome.after] using this.symm

end ChunkedDecoder

/-! ## 2. Bodies, as framed -/

/-- `Whole limits kind c x`: the bytes `c` are a complete body of the kind,
and it carries `x`. -/
inductive Whole (limits : Limits) : BodyKind → Bytes → Bytes → Prop
  | none : Whole limits .none [] []
  | length (c : Bytes) : Whole limits (.length c.length) c c
  | chunked {m : Message} : m.Valid limits → Whole limits .chunked m.encode m.body

/-- The framing says where a body ends: a stream starts with at most one. -/
theorem Whole.unique {limits : Limits} {kind : BodyKind} {c x c' x' y y' : Bytes}
    (h : Whole limits kind c x) (h' : Whole limits kind c' x') (heq : c ++ y = c' ++ y') :
    c = c' ∧ x = x' ∧ y = y' := by
  cases h with
  | none => cases h'; exact ⟨rfl, rfl, heq⟩
  | length =>
      generalize hk : BodyKind.length c.length = k at h'
      cases h' with
      | none => cases hk
      | length =>
          have hlen : c.length = c'.length := by injection hk
          obtain ⟨rfl, rfl⟩ := List.append_inj heq hlen
          exact ⟨rfl, rfl, rfl⟩
      | chunked => cases hk
  | chunked hv =>
      cases h' with
      | chunked hv' =>
          obtain ⟨rfl, rfl⟩ := Message.encode_unique hv hv' heq
          exact ⟨rfl, rfl, rfl⟩

/-- `Partial limits kind s c x`: the body `s` has consumed `c`, a proper
beginning of a body of the kind, and delivered `x` of it. -/
inductive Partial (limits : Limits) : BodyKind → BodyState → Bytes → Bytes → Prop
  | length {n : Nat} {s : BodyState} {c : Bytes} : c.length + s.remaining = n → 0 < s.remaining →
      Partial limits (.length n) s c c
  | chunked {s : BodyState} {d : ChunkedDecoder} {c x : Bytes} {t : List HeaderVec} :
      s.decoder = some d → Along limits c d → d.state ≠ .ending →
      Reaches (ChunkedDecoder.new limits) c x t d → Partial limits .chunked s c x

/-- No whole body lies within a proper beginning of one. -/
theorem Partial.not_whole {limits : Limits} {kind : BodyKind} {s : BodyState} {c x : Bytes}
    (h : Partial limits kind s c x) {c' rest x' : Bytes} (hc : c = c' ++ rest) :
    ¬ Whole limits kind c' x' := by
  intro hw
  cases h with
  | length hsum hpos =>
      cases hw
      rw [hc, List.length_append] at hsum
      omega
  | chunked _ halong hst hreach =>
      cases hw with
      | chunked hv =>
          have h1 := hreach []
          rw [List.append_nil, hc, drain_message hv] at h1
          have h2 := congrArg Outcome.stop h1
          rw [Outcome.after, drain_nil_of_along halong hst] at h2
          cases h2

/-- What a body delivered is a beginning of what the whole one carries,
whichever whole body the stream turns out to hold. -/
theorem Partial.delivered_prefix {limits : Limits} {kind : BodyKind} {s : BodyState} {c x : Bytes}
    (h : Partial limits kind s c x) {c' more rest x' : Bytes} (hc : c ++ more = c' ++ rest)
    (hw : Whole limits kind c' x') : x <+: x' := by
  cases h with
  | length hsum hpos =>
      cases hw
      have hprefix : c <+: c ++ more := ⟨more, rfl⟩
      refine List.prefix_of_prefix_length_le hprefix ⟨rest, hc.symm⟩ ?_
      omega
  | chunked _ _ _ hreach =>
      cases hw with
      | @chunked m hv =>
          have h1 := hreach more
          rw [hc, drain_message hv] at h1
          exact ⟨_, (congrArg Outcome.body h1).symm⟩

/-- A body that is being read. -/
structure Open (limits : Limits) (pre c delivered : Bytes) (sh : Shared) (s : BodyState) :
    Prop where
  notDone : s.done = false
  notRead : sh.bodyRead = false
  conserved : sh.io.io.received = pre ++ c ++ (s.buffered ++ sh.io.buf)
  apart : s.buffered = [] ∨ sh.io.buf = []
  part : Partial limits s.kind s c delivered

/-- A body that was read to its end. -/
structure Finished (limits : Limits) (pre c delivered : Bytes) (sh : Shared) (s : BodyState) :
    Prop where
  done : s.done = true
  read : sh.bodyRead = true
  buffered : s.buffered = []
  conserved : sh.io.io.received = pre ++ c ++ sh.io.buf
  whole : Whole limits s.kind c delivered

/-- A body that failed. It may have consumed the line it failed on, `extra`. -/
structure Failed (limits : Limits) (pre c delivered : Bytes) (sh : Shared) (s : BodyState) :
    Prop where
  done : s.done = true
  notRead : sh.bodyRead = false
  conserved : ∃ extra, sh.io.io.received = pre ++ c ++ extra ++ (s.buffered ++ sh.io.buf)
  part : ∃ s₀ : BodyState, s₀.kind = s.kind ∧ Partial limits s.kind s₀ c delivered

/-- Where a poll of an open body that had delivered `x` leads. -/
inductive Polled (limits : Limits) (pre x : Bytes) : PollChunk → Shared → BodyState → Prop
  | pending {c : Bytes} {sh : Shared} {s : BodyState} : Open limits pre c x sh s →
      Polled limits pre x .pending sh s
  | chunk {c y : Bytes} {sh : Shared} {s : BodyState} : y ≠ [] → Open limits pre c (x ++ y) sh s →
      Polled limits pre x (.chunk y) sh s
  | last {c y : Bytes} {sh : Shared} {s : BodyState} {n : Nat} : y ≠ [] → s.kind = .length n →
      Finished limits pre c (x ++ y) sh s → Polled limits pre x (.chunk y) sh s
  | ended {c : Bytes} {sh : Shared} {s : BodyState} : Finished limits pre c x sh s →
      Polled limits pre x .ended sh s
  | error {c : Bytes} {e : BodyError} {sh : Shared} {s : BodyState} : Failed limits pre c x sh s →
      Polled limits pre x (.error e) sh s

namespace BodyState

/-! ## 3. What the steps leave alone -/

@[simp] theorem notifyFinished_done (sh : Shared) (s : BodyState) :
    (notifyFinished sh s).2.done = s.done := by
  unfold notifyFinished; split <;> rfl

@[simp] theorem notifyFinished_kind (sh : Shared) (s : BodyState) :
    (notifyFinished sh s).2.kind = s.kind := by
  unfold notifyFinished; split <;> rfl

@[simp] theorem notifyFinished_buffered (sh : Shared) (s : BodyState) :
    (notifyFinished sh s).2.buffered = s.buffered := by
  unfold notifyFinished; split <;> rfl

@[simp] theorem notifyFinished_bodyRead (sh : Shared) (s : BodyState) :
    (notifyFinished sh s).1.bodyRead = sh.bodyRead := by
  unfold notifyFinished; split <;> rfl

@[simp] theorem finishBody_io (st : IoState) (g : Nat) : (st.finishBody g).io = st.io := by
  unfold IoState.finishBody; split <;> rfl

@[simp] theorem finishBody_buf (st : IoState) (g : Nat) : (st.finishBody g).buf = st.buf := by
  unfold IoState.finishBody; split <;> rfl

@[simp] theorem notifyFinished_io (sh : Shared) (s : BodyState) :
    (notifyFinished sh s).1.io.io = sh.io.io := by
  unfold notifyFinished; split <;> simp

@[simp] theorem notifyFinished_buf (sh : Shared) (s : BodyState) :
    (notifyFinished sh s).1.io.buf = sh.io.buf := by
  unfold notifyFinished; split <;> simp

@[simp] theorem pushBack_buf (st : IoState) (b : Bytes) : (st.pushBack b).buf = b ++ st.buf := by
  unfold IoState.pushBack
  split
  · rename_i h; simp [h]
  · rfl

@[simp] theorem pushBack_io (st : IoState) (b : Bytes) : (st.pushBack b).io = st.io := by
  unfold IoState.pushBack; split <;> rfl

/-- What reading a body never touches: what was sent, the interim response
owed, which body is current, and the body's own identity. -/
structure Frame (sh sh' : Shared) (s s' : BodyState) : Prop where
  sent : sh'.io.io.sent = sh.io.io.sent
  pending : sh'.io.pendingContinue = sh.io.pendingContinue
  current : sh'.io.bodyGeneration = sh.io.bodyGeneration
  kind : s'.kind = s.kind
  generation : s'.generation = s.generation
  continueSent : s'.continueSent = s.continueSent

theorem Frame.refl (sh : Shared) (s : BodyState) : Frame sh sh s s := ⟨rfl, rfl, rfl, rfl, rfl, rfl⟩

theorem Frame.trans {sh sh₁ sh₂ : Shared} {s s₁ s₂ : BodyState} (h₁ : Frame sh sh₁ s s₁)
    (h₂ : Frame sh₁ sh₂ s₁ s₂) : Frame sh sh₂ s s₂ where
  sent := h₂.sent.trans h₁.sent
  pending := h₂.pending.trans h₁.pending
  current := h₂.current.trans h₁.current
  kind := h₂.kind.trans h₁.kind
  generation := h₂.generation.trans h₁.generation
  continueSent := h₂.continueSent.trans h₁.continueSent

theorem finishBody_pending (st : IoState) (g : Nat) :
    (st.finishBody g).pendingContinue = st.pendingContinue := by
  unfold IoState.finishBody; split <;> rfl

theorem finishBody_current (st : IoState) (g : Nat) :
    (st.finishBody g).bodyGeneration = st.bodyGeneration := by
  unfold IoState.finishBody; split <;> rfl

theorem frame_notifyFinished (sh : Shared) (s : BodyState) :
    Frame sh (notifyFinished sh s).1 s (notifyFinished sh s).2 := by
  unfold notifyFinished
  split
  · exact Frame.refl sh s
  · exact ⟨by simp, finishBody_pending _ _, finishBody_current _ _, rfl, rfl, rfl⟩

theorem frame_finish (sh : Shared) (s : BodyState) :
    Frame sh (finish sh s).1 s (finish sh s).2 := by
  have := frame_notifyFinished { sh with bodyRead := true } { s with done := true }
  exact ⟨this.sent, this.pending, this.current, this.kind, this.generation, this.continueSent⟩

theorem frame_fail (sh : Shared) (s : BodyState) : Frame sh (fail sh s).1 s (fail sh s).2 := by
  have := frame_notifyFinished { sh with bodyRead := false } { s with done := true }
  exact ⟨this.sent, this.pending, this.current, this.kind, this.generation, this.continueSent⟩

theorem pushBack_pending (st : IoState) (b : Bytes) :
    (st.pushBack b).pendingContinue = st.pendingContinue := by
  unfold IoState.pushBack; split <;> rfl

theorem pushBack_current (st : IoState) (b : Bytes) :
    (st.pushBack b).bodyGeneration = st.bodyGeneration := by
  unfold IoState.pushBack; split <;> rfl

theorem frame_finishAndReturn (sh : Shared) (s : BodyState) :
    Frame sh (finishAndReturn sh s).1 s (finishAndReturn sh s).2 := by
  have h := frame_finish sh s
  refine ⟨?_, ?_, ?_, h.kind, h.generation, h.continueSent⟩
  · simpa [finishAndReturn] using h.sent
  · simpa [finishAndReturn, pushBack_pending] using h.pending
  · simpa [finishAndReturn, pushBack_current] using h.current

theorem frame_draw (max : Nat) (sh : Shared) (s : BodyState) :
    Frame sh (draw max sh s).1 s (draw max sh s).2 := by
  unfold draw
  split
  · exact ⟨rfl, rfl, rfl, rfl, rfl, rfl⟩
  · exact Frame.refl sh s

/-! ## 4. One round -/

/-- Finishing an open body that has consumed all of itself. -/
theorem finished_of_whole {limits : Limits} {pre c x : Bytes} {sh : Shared} {s : BodyState}
    (hconserved : sh.io.io.received = pre ++ c ++ (s.buffered ++ sh.io.buf))
    (hwhole : Whole limits s.kind c x) :
    Finished limits pre c x (finishAndReturn sh s).1 (finishAndReturn sh s).2 where
  done := by simp [finishAndReturn, finish]
  read := by simp [finishAndReturn, finish]
  buffered := rfl
  conserved := by simpa [finishAndReturn, finish] using hconserved
  whole := by simpa [finishAndReturn, finish] using hwhole

/-- Failing an open body, past some `extra` it may have consumed. -/
theorem failed_of_open {limits : Limits} {pre c x : Bytes} {sh : Shared} {s : BodyState}
    (extra : Bytes) (s₀ : BodyState)
    (hconserved : sh.io.io.received = pre ++ c ++ extra ++ (s.buffered ++ sh.io.buf))
    (hpart : Partial limits s.kind s₀ c x) (hkind : s₀.kind = s.kind) :
    Failed limits pre c x (fail sh s).1 (fail sh s).2 where
  done := by simp [fail]
  notRead := by simp [fail]
  conserved := ⟨extra, by simpa [fail] using hconserved⟩
  part := ⟨s₀, by simpa [fail] using hkind, by simpa [fail] using hpart⟩

theorem partial_buffered {limits : Limits} {kind : BodyKind} {s : BodyState} {c x b : Bytes}
    (h : Partial limits kind s c x) : Partial limits kind { s with buffered := b } c x := by
  cases h with
  | length h1 h2 => exact .length h1 h2
  | chunked h1 h2 h3 h4 => exact .chunked h1 h2 h3 h4

/-- Drawing on the connection's buffer moves bytes and drops none. -/
theorem conserved_draw {pre c : Bytes} {sh : Shared} {s : BodyState}
    (h : sh.io.io.received = pre ++ c ++ (s.buffered ++ sh.io.buf)) (max : Nat) :
    (draw max sh s).1.io.io.received
      = pre ++ c ++ ((draw max sh s).2.buffered ++ (draw max sh s).1.io.buf) := by
  unfold draw
  split
  · rename_i hnil
    simp only [IoState.takeBuffered, IoState.resetScan, List.take_append_drop]
    simpa [hnil] using h
  · exact h

@[simp] theorem draw_done (max : Nat) (sh : Shared) (s : BodyState) :
    (draw max sh s).2.done = s.done := by
  unfold draw; split <;> rfl

@[simp] theorem draw_bodyRead (max : Nat) (sh : Shared) (s : BodyState) :
    (draw max sh s).1.bodyRead = sh.bodyRead := by
  unfold draw; split <;> rfl

@[simp] theorem draw_remaining (max : Nat) (sh : Shared) (s : BodyState) :
    (draw max sh s).2.remaining = s.remaining := by
  unfold draw; split <;> rfl

@[simp] theorem draw_decoder (max : Nat) (sh : Shared) (s : BodyState) :
    (draw max sh s).2.decoder = s.decoder := by
  unfold draw; split <;> rfl

theorem partial_draw {limits : Limits} {kind : BodyKind} {s : BodyState} {c x : Bytes}
    (h : Partial limits kind s c x) (max : Nat) (sh : Shared) :
    Partial limits kind (draw max sh s).2 c x := by
  unfold draw
  split
  · exact partial_buffered h
  · exact h

/-- Behind a draw the connection's buffer is empty, or the body holds all
it asked for. -/
theorem draw_apart {sh : Shared} {s : BodyState} (h : s.buffered = [] ∨ sh.io.buf = [])
    (max : Nat) :
    (draw max sh s).1.io.buf = [] ∨ (draw max sh s).2.buffered.length = max := by
  unfold draw
  by_cases hb : s.buffered = []
  · simp only [hb, if_true, IoState.takeBuffered, IoState.resetScan, List.length_take,
      List.drop_eq_nil_iff]
    omega
  · rcases h with h | h
    · exact absurd h hb
    · simp only [hb, if_false]
      exact Or.inl h

/-- A chunked body takes all there is. -/
theorem draw_all {sh : Shared} {s : BodyState} (h : s.buffered = [] ∨ sh.io.buf = []) :
    (draw sh.io.buf.length sh s).1.io.buf = [] := by
  unfold draw
  split
  · simp [IoState.takeBuffered, IoState.resetScan]
  · rename_i hb
    exact h.resolve_left hb

/-- How a round ends: with a result, or with the connection's buffer empty
and a read to make. -/
inductive Rounded (limits : Limits) (pre x : Bytes) : Round → Prop
  | done {r : PollChunk} {sh : Shared} {s : BodyState} : r ≠ .pending → Polled limits pre x r sh s →
      Rounded limits pre x (some r, sh, s)
  | read {c : Bytes} {sh : Shared} {s : BodyState} : sh.io.buf = [] → Open limits pre c x sh s →
      Rounded limits pre x (none, sh, s)

theorem lengthRound_spec {limits : Limits} {pre c x : Bytes} {sh : Shared} {s : BodyState} {n : Nat}
    (hkind : s.kind = .length n) (h : Open limits pre c x sh s) :
    Rounded limits pre x (lengthRound sh s) ∧
      Frame sh (lengthRound sh s).2.1 s (lengthRound sh s).2.2 := by
  have hpart := h.part
  rw [hkind] at hpart
  obtain ⟨hsum, hpos⟩ : c.length + s.remaining = n ∧ 0 < s.remaining := by
    cases hpart with
    | length h1 h2 => exact ⟨h1, h2⟩
  have hx : x = c := by cases hpart; rfl
  subst hx
  have hdrawn := conserved_draw h.conserved s.remaining
  have hframe := frame_draw s.remaining sh s
  have hdone := (draw_done s.remaining sh s).trans h.notDone
  have hread := (draw_bodyRead s.remaining sh s).trans h.notRead
  have hrem := draw_remaining s.remaining sh s
  have hapart := draw_apart h.apart s.remaining
  have hpart₁ := partial_draw h.part s.remaining sh
  unfold lengthRound
  simp only [gt_iff_lt, hpos, if_true]
  generalize draw s.remaining sh s = drawn at hdrawn hframe hdone hread hrem hapart hpart₁
  obtain ⟨sh₁, s₁⟩ := drawn
  simp only at hdrawn hframe hdone hread hrem hapart hpart₁ ⊢
  have hkind₁ : s₁.kind = .length n := hframe.kind.trans hkind
  by_cases hne : s₁.buffered = []
  · have hz : ¬ s₁.remaining = 0 := by omega
    have hbuf : sh₁.io.buf = [] := by
      rcases hapart with hbuf | hlen
      · exact hbuf
      · rw [hne, List.length_nil] at hlen
        omega
    simp only [hne, ne_eq, not_true_eq_false, if_false, hz]
    exact ⟨.read hbuf ⟨hdone, hread, hdrawn, Or.inr hbuf, by rw [hframe.kind]; exact hpart₁⟩,
      hframe⟩
  · simp only [ne_eq, hne, not_false_eq_true, if_true]
    generalize hk : min s₁.buffered.length s₁.remaining = k
    have hlenpos : 0 < s₁.buffered.length := List.length_pos_iff.mpr hne
    have hchunk : s₁.buffered.take k ≠ [] := by
      apply List.length_pos_iff.mp
      rw [List.length_take]; omega
    have hlen : (s₁.buffered.take k).length = k := by rw [List.length_take]; omega
    have hconserved : sh₁.io.io.received
        = pre ++ (x ++ s₁.buffered.take k) ++ (s₁.buffered.drop k ++ sh₁.io.buf) := by
      rw [hdrawn]
      simp only [List.append_assoc]
      rw [← List.append_assoc (s₁.buffered.take k), List.take_append_drop]
    by_cases hz : s₁.remaining - k = 0
    · simp only [hz, if_true]
      constructor
      · refine .done (by simp) (.last (n := n) (c := x ++ s₁.buffered.take k) hchunk
          (by simpa [finishAndReturn, finish] using hkind₁) (finished_of_whole hconserved ?_))
        have hn : n = (x ++ s₁.buffered.take k).length := by
          rw [List.length_append, hlen]; omega
        simp only [hkind₁, hn]
        exact .length _
      · have hedit : Frame sh₁ sh₁ s₁ { s₁ with buffered := s₁.buffered.drop k, remaining := 0 } :=
          ⟨rfl, rfl, rfl, rfl, rfl, rfl⟩
        exact hframe.trans (hedit.trans (frame_finishAndReturn _ _))
    · simp only [hz, if_false]
      constructor
      · -- bytes left in the connection's buffer mean the body took what it was owed
        have hbuf : sh₁.io.buf = [] := by
          rcases hapart with hbuf | hlen'
          · exact hbuf
          · omega
        refine .done (by simp) (.chunk hchunk ⟨hdone, hread, hconserved, Or.inr hbuf, ?_⟩)
        simp only [hkind₁]
        refine .length ?_ (Nat.pos_of_ne_zero hz)
        simp only [List.length_append, hlen]
        omega
      · exact hframe.trans ⟨rfl, rfl, rfl, rfl, rfl, rfl⟩

/-- The turn behind the trailers: the body is finished. -/
theorem chunkedRound_of_ending {limits : Limits} {pre c x : Bytes} {sh : Shared} {s : BodyState}
    {d : ChunkedDecoder} (hkind : s.kind = .chunked) (hd : s.decoder = some d)
    (hst : d.state = .ending)
    (hconserved : sh.io.io.received = pre ++ c ++ (s.buffered ++ sh.io.buf))
    (hwhole : Whole limits .chunked c x) (turns : Nat) :
    ∃ sh' s', chunkedRound (turns + 1) sh s = (some .ended, sh', s') ∧
      Finished limits pre c x sh' s' ∧ Frame sh sh' s s' := by
  have hframe := frame_draw sh.io.buf.length sh s
  have hdrawn := conserved_draw hconserved sh.io.buf.length
  have hdec : (draw sh.io.buf.length sh s).2.decoder = some d := by
    unfold draw; split <;> exact hd
  unfold chunkedRound
  generalize draw sh.io.buf.length sh s = drawn at hframe hdrawn hdec
  obtain ⟨sh₁, s₁⟩ := drawn
  simp only at hframe hdrawn hdec ⊢
  simp only [hdec, poll_of_ending hst]
  have hkind₁ : s₁.kind = .chunked := hframe.kind.trans hkind
  refine ⟨_, _, rfl, finished_of_whole hdrawn (by rw [hkind₁]; exact hwhole), ?_⟩
  have hedit : Frame sh₁ sh₁ s₁ { s₁ with decoder := some { d with state := .done } } :=
    ⟨rfl, rfl, rfl, rfl, rfl, rfl⟩
  exact hframe.trans (hedit.trans (frame_finishAndReturn _ _))

/-- Two turns are all a chunked round can take. -/
theorem chunkedRound_enough (turns : Nat) (sh : Shared) (s : BodyState) :
    chunkedRound (turns + 2) sh s = chunkedRound 2 sh s := by
  unfold chunkedRound
  generalize draw sh.io.buf.length sh s = drawn
  obtain ⟨sh₁, s₁⟩ := drawn
  simp only
  cases s₁.decoder with
  | none => rfl
  | some d =>
      rcases hpoll : d.poll s₁.buffered with ⟨_ | _ | _ | tr | _, d', rest⟩
      · simp only [hpoll]
      · simp only [hpoll]
      · simp only [hpoll]
      · -- behind the trailers the decoder is at its end, so the next turn is the last
        have hst := poll_trailers_state _ (Nat.lt_succ_self _) hpoll
        have hdec := draw_decoder sh₁.io.buf.length sh₁
          { s₁ with decoder := some d', buffered := rest, trailers := some tr }
        simp only [hpoll]
        unfold chunkedRound
        simp only [hdec, poll_of_ending hst]
      · simp only [hpoll]

theorem chunkedRound_spec {limits : Limits} {pre c x : Bytes} {sh : Shared} {s : BodyState}
    (hkind : s.kind = .chunked) (h : Open limits pre c x sh s) :
    Rounded limits pre x (chunkedRound 2 sh s) ∧
      Frame sh (chunkedRound 2 sh s).2.1 s (chunkedRound 2 sh s).2.2 := by
  have hempty := draw_all h.apart
  have hframe := frame_draw sh.io.buf.length sh s
  have hkind₁ : (draw sh.io.buf.length sh s).2.kind = .chunked := hframe.kind.trans hkind
  have hopen : Open limits pre c x (draw sh.io.buf.length sh s).1 (draw sh.io.buf.length sh s).2 :=
    { notDone := (draw_done _ sh s).trans h.notDone
      notRead := (draw_bodyRead _ sh s).trans h.notRead
      conserved := conserved_draw h.conserved _
      apart := Or.inr hempty
      part := by rw [hframe.kind]; exact partial_draw h.part _ sh }
  unfold chunkedRound
  generalize draw sh.io.buf.length sh s = drawn at hopen hframe hempty hkind₁
  obtain ⟨sh₁, s₁⟩ := drawn
  simp only at hopen hframe hempty hkind₁ ⊢
  have hpart := hopen.part
  rw [hkind₁] at hpart
  cases hpart with
  | @chunked _ d _ _ t hdec halong hst hreach =>
      obtain ⟨c', r, d', rest, hbuf, hpoll, hcases⟩ := poll_spec halong s₁.buffered
      have hconserved : sh₁.io.io.received = pre ++ (c ++ c') ++ (rest ++ sh₁.io.buf) := by
        rw [hopen.conserved, hbuf]
        simp only [List.append_assoc]
      have hedit : Frame sh₁ sh₁ s₁ { s₁ with decoder := some d', buffered := rest } :=
        ⟨rfl, rfl, rfl, rfl, rfl, rfl⟩
      simp only [hdec, hpoll]
      rcases hcases with ⟨e, rfl⟩ | ⟨rfl, halong', hst', hreach'⟩ |
        ⟨y, rfl, hy, halong', hst', hreach'⟩ |
        ⟨tr, rfl, halong', hst', hreach'⟩ | ⟨rfl, d₁, halong', hst', hreach'⟩
      · constructor
        · refine .done (by simp [failWith]) (.error (c := c) (failed_of_open c' s₁ ?_ ?_ rfl))
          · rw [hconserved]; simp only [List.append_assoc]
          · exact hopen.part
        · exact hframe.trans (hedit.trans (frame_fail _ _))
      · constructor
        · refine .read (c := c ++ c') ?_ ⟨hopen.notDone, hopen.notRead, hconserved,
            Or.inr hempty, ?_⟩
          · exact hempty
          · simp only [hkind₁]
            exact .chunked rfl halong' hst' (by simpa using hreach.trans hreach')
        · exact hframe.trans ⟨rfl, rfl, rfl, rfl, rfl, rfl⟩
      · constructor
        · refine .done (by simp) (.chunk (c := c ++ c') hy
            ⟨hopen.notDone, hopen.notRead, hconserved, Or.inr hempty, ?_⟩)
          simp only [hkind₁]
          exact .chunked rfl halong' hst' (hreach.trans hreach')
        · exact hframe.trans ⟨rfl, rfl, rfl, rfl, rfl, rfl⟩
      · obtain ⟨m, hv, hc, hx⟩ := message_of_ending halong' hst' (hreach.trans hreach')
        have hwhole : Whole limits .chunked (c ++ c') x := by
          rw [hc, ← List.append_nil x, hx]
          exact .chunked hv
        obtain ⟨sh₂, s₂, he, hfin, hframe₂⟩ := chunkedRound_of_ending
          (s := { s₁ with decoder := some d', buffered := rest, trailers := some tr })
          hkind₁ rfl hst' hconserved hwhole 0
        simp only [Nat.zero_add] at he
        simp only [he]
        refine ⟨.done (by simp) (.ended hfin), hframe.trans (Frame.trans ?_ hframe₂)⟩
        exact ⟨rfl, rfl, rfl, rfl, rfl, rfl⟩
      · obtain ⟨m, hv, hc, hx⟩ := message_of_ending halong' hst' (hreach.trans hreach')
        have hwhole : Whole limits .chunked (c ++ c') x := by
          rw [hc, ← List.append_nil x, hx]
          exact .chunked hv
        constructor
        · refine .done (by simp) (.ended (c := c ++ c') (finished_of_whole hconserved ?_))
          simp only [hkind₁]
          exact hwhole
        · exact hframe.trans (hedit.trans (frame_finishAndReturn _ _))

theorem round_spec {limits : Limits} {pre c x : Bytes} {sh : Shared} {s : BodyState}
    (h : Open limits pre c x sh s) :
    Rounded limits pre x (round sh s) ∧ Frame sh (round sh s).2.1 s (round sh s).2.2 := by
  have hpart := h.part
  unfold round
  cases hkind : s.kind with
  | none => rw [hkind] at hpart; cases hpart
  | length n => exact lengthRound_spec hkind h
  | chunked => exact chunkedRound_spec hkind h

/-! ## 5. The loop -/

@[simp] theorem fill_fresh (st : IoState) (b : Bytes) : (st.fill b).1 = b := by
  simp [IoState.fill, IoState.readMore, IoState.receive]

@[simp] theorem fill_buf (st : IoState) (b : Bytes) : (st.fill b).2.buf = st.buf := by
  simp [IoState.fill, IoState.readMore, IoState.receive, IoState.resetScan]

@[simp] theorem fill_received (st : IoState) (b : Bytes) :
    (st.fill b).2.io.received = st.io.received ++ b := rfl

theorem open_fill {limits : Limits} {pre c x b : Bytes} {sh : Shared} {s : BodyState}
    (h : Open limits pre c x sh s) (hbuf : sh.io.buf = []) :
    Open limits pre c x { sh with io := (sh.io.fill b).2 }
      { s with buffered := s.buffered ++ (sh.io.fill b).1 } where
  notDone := h.notDone
  notRead := h.notRead
  conserved := by
    rw [fill_received, fill_fresh, fill_buf, h.conserved, hbuf]
    simp
  apart := Or.inr (by rw [fill_buf, hbuf])
  part := partial_buffered h.part

/-- One call of `poll_fill`: what the connection's buffer held, and the
answer. -/
structure Fill where
  buf : Bytes
  answer : ReadAnswer

/-- The read ended the stream. -/
def Fill.broken (f : Fill) : Prop :=
  f.answer = .ok [] ∨ f.answer = .err

/-- The calls of `poll_fill` that `pollLoop` makes. -/
def loopFills : List ReadAnswer → Shared → BodyState → List Fill
  | reads, sh, s =>
    match round sh s with
    | (some _, _, _) => []
    | (none, sh, s) =>
      match reads with
      | [] => [⟨sh.io.buf, .pending⟩]
      | .pending :: _ => [⟨sh.io.buf, .pending⟩]
      | .err :: _ => [⟨sh.io.buf, .err⟩]
      | .ok b :: rest =>
        ⟨sh.io.buf, .ok b⟩ ::
          if b = [] then []
          else
            let (fresh, io) := sh.io.fill b
            loopFills rest { sh with io := io } { s with buffered := s.buffered ++ fresh }

/-- The loop of an open body: where it leads, what it leaves alone, and that
it reads only into an empty buffer and reports a stream that ended. -/
theorem pollLoop_spec {limits : Limits} {pre x : Bytes} : ∀ (reads : List ReadAnswer) {c : Bytes}
    {sh : Shared} {s : BodyState}, Open limits pre c x sh s →
    Polled limits pre x (pollLoop reads sh s).1 (pollLoop reads sh s).2.1
      (pollLoop reads sh s).2.2 ∧
      Frame sh (pollLoop reads sh s).2.1 s (pollLoop reads sh s).2.2 ∧
      (∀ f ∈ loopFills reads sh s, f.buf = []) ∧
      ((∃ f ∈ loopFills reads sh s, f.broken) → ∃ e, (pollLoop reads sh s).1 = .error e) := by
  intro reads
  induction reads with
  | nil =>
      intro c sh s h
      obtain ⟨hround, hframe⟩ := round_spec h
      unfold pollLoop loopFills
      generalize round sh s = out at hround hframe
      cases hround with
      | done _ hp => exact ⟨hp, hframe, by simp, by simp⟩
      | read hbuf ho =>
          refine ⟨.pending ho, hframe, by simp [hbuf], ?_⟩
          simp [Fill.broken]
  | cons answer rest ih =>
      intro c sh s h
      obtain ⟨hround, hframe⟩ := round_spec h
      unfold pollLoop loopFills
      generalize round sh s = out at hround hframe
      cases hround with
      | done _ hp => exact ⟨hp, hframe, by simp, by simp⟩
      | @read c₁ sh₁ s₁ hbuf ho =>
          have hfailed := failed_of_open [] s₁ (by simpa using ho.conserved) ho.part rfl
          cases answer with
          | pending =>
              refine ⟨.pending ho, hframe, by simp [hbuf], ?_⟩
              simp [Fill.broken]
          | err =>
              exact ⟨.error hfailed, hframe.trans (frame_fail _ _),
                by simp [hbuf], fun _ => ⟨_, rfl⟩⟩
          | ok b =>
              simp only
              by_cases hb : b = []
              · simp only [hb, if_true]
                exact ⟨.error hfailed, hframe.trans (frame_fail _ _),
                  by simp [hbuf], fun _ => ⟨_, rfl⟩⟩
              · simp only [hb, if_false]
                obtain ⟨hp, hf, hfills, hbroken⟩ := ih (open_fill (b := b) ho hbuf)
                refine ⟨hp, hframe.trans (Frame.trans ?_ hf), ?_, ?_⟩
                · exact ⟨rfl, rfl, rfl, rfl, rfl, rfl⟩
                · intro f hmem
                  rcases List.mem_cons.mp hmem with rfl | hmem
                  · exact hbuf
                  · exact hfills f hmem
                · intro hex
                  obtain ⟨f, hmem, hbr⟩ := hex
                  rcases List.mem_cons.mp hmem with rfl | hmem
                  · rcases hbr with hbr | hbr
                    · cases hbr; exact absurd rfl hb
                    · cases hbr
                  · exact hbroken ⟨f, hmem, hbr⟩

/-! ## 6. The interim response -/

theorem owedContinue_length {st : IoState} (h : st.pendingContinue ≤ continueBytes.length) :
    st.owedContinue.length = st.pendingContinue := by
  rw [IoState.owedContinue, List.length_drop]
  omega

/-- The state once `k` more bytes of the interim response are out. -/
def continued (st : IoState) (k : Nat) : IoState :=
  { st.send (st.owedContinue.take k) with pendingContinue := st.pendingContinue - k }

@[simp] theorem continued_zero (st : IoState) : continued st 0 = st := by
  simp [continued, IoState.send]

theorem continued_continued {st : IoState} (h : st.pendingContinue ≤ continueBytes.length) {j : Nat}
    (hj : j ≤ st.pendingContinue) (k : Nat) :
    continued (continued st j) k = continued st (j + k) := by
  have howed : (continued st j).owedContinue = st.owedContinue.drop j := by
    simp only [IoState.owedContinue, List.drop_drop, continued]
    congr 1
    omega
  simp only [continued, IoState.send] at howed ⊢
  rw [howed, List.take_add, List.append_assoc, Nat.sub_sub]

theorem sendContinue_eq {st : IoState} (h : st.pendingContinue ≤ continueBytes.length) (n : Nat) :
    st.sendContinue n = continued st (min n st.pendingContinue) := by
  have htake : st.owedContinue.take n = st.owedContinue.take (min n st.pendingContinue) := by
    rw [← owedContinue_length h, List.take_eq_take_iff]
    omega
  rw [IoState.sendContinue, continued, htake]

/-- Writes of the interim response put the next owed bytes on the wire, and
all of them once the poll is ready. -/
theorem pollSendContinue_spec (flush : FlushAnswer) : ∀ (writes : List WriteAnswer) (st : IoState),
    st.pendingContinue ≤ continueBytes.length →
    ∃ k ≤ st.pendingContinue, (st.pollSendContinue flush writes).2 = continued st k ∧
      ((st.pollSendContinue flush writes).1 = .ready → k = st.pendingContinue) := by
  intro writes
  induction writes with
  | nil =>
      intro st h
      unfold IoState.pollSendContinue
      split
      · exact ⟨0, Nat.zero_le _, (continued_zero st).symm, fun _ => by omega⟩
      · exact ⟨0, Nat.zero_le _, (continued_zero st).symm, fun hr => by cases hr⟩
  | cons answer rest ih =>
      intro st h
      have hstuck : ∀ r : PollIo, r ≠ .ready → ∃ k ≤ st.pendingContinue, st = continued st k ∧
          (r = .ready → k = st.pendingContinue) :=
        fun r hr => ⟨0, Nat.zero_le _, (continued_zero st).symm, fun hr' => absurd hr' hr⟩
      unfold IoState.pollSendContinue
      split
      · exact ⟨0, Nat.zero_le _, (continued_zero st).symm, fun _ => by omega⟩
      · cases answer with
        | pending => exact hstuck .pending (by simp)
        | err => exact hstuck .err (by simp)
        | ok n =>
            simp only
            split
            · exact hstuck .err (by simp)
            · rw [sendContinue_eq h]
              have hpend : (continued st (min n st.pendingContinue)).pendingContinue
                  = st.pendingContinue - min n st.pendingContinue := rfl
              obtain ⟨k, hk, heq, hready⟩ := ih (continued st (min n st.pendingContinue)) (by omega)
              rw [hpend] at hk hready
              refine ⟨min n st.pendingContinue + k, by omega, ?_,
                fun hr => by have := hready hr; omega⟩
              rw [heq, continued_continued h (by omega)]

/-- The interim response goes out past the buffers. -/
theorem pollSendContinue_keeps (flush : FlushAnswer) : ∀ (writes : List WriteAnswer) (st : IoState),
    (st.pollSendContinue flush writes).2.io.received = st.io.received ∧
      (st.pollSendContinue flush writes).2.buf = st.buf := by
  intro writes
  induction writes with
  | nil =>
      intro st
      unfold IoState.pollSendContinue
      split <;> exact ⟨rfl, rfl⟩
  | cons answer rest ih =>
      intro st
      unfold IoState.pollSendContinue
      split
      · exact ⟨rfl, rfl⟩
      · cases answer with
        | pending => exact ⟨rfl, rfl⟩
        | err => exact ⟨rfl, rfl⟩
        | ok n =>
            simp only
            split
            · exact ⟨rfl, rfl⟩
            · exact ih (st.sendContinue n)

theorem open_continue {limits : Limits} {pre c x : Bytes} {sh : Shared} {s : BodyState}
    (h : Open limits pre c x sh s) (flush : FlushAnswer) (writes : List WriteAnswer) (sent : Bool) :
    Open limits pre c x { sh with io := (sh.io.pollSendContinue flush writes).2 }
      { s with continueSent := sent } := by
  obtain ⟨hreceived, hbuf⟩ := pollSendContinue_keeps flush writes sh.io
  refine ⟨h.notDone, h.notRead, ?_, ?_, ?_⟩
  · simpa only [hreceived, hbuf] using h.conserved
  · simpa only [hbuf] using h.apart
  · cases hpart : s.kind with
    | none => have := h.part; rw [hpart] at this; cases this
    | length n => have := h.part; rw [hpart] at this; cases this with
      | length h1 h2 => exact .length h1 h2
    | chunked => have := h.part; rw [hpart] at this; cases this with
      | chunked h1 h2 h3 h4 => exact .chunked h1 h2 h3 h4

/-! ## 7. A poll -/

/-- The calls of `poll_fill` that `pollChunk` makes. -/
def pollFills (a : PollAnswers) (sh : Shared) (s : BodyState) : List Fill :=
  if s.done then []
  else if s.continueSent then loopFills a.reads sh s
  else
    match sh.io.pollSendContinue a.flush a.writes with
    | (.ready, io) => loopFills a.reads { sh with io := io } { s with continueSent := true }
    | _ => []

/-- A body that is done is not changed by a poll. -/
theorem pollChunk_of_done {s : BodyState} (h : s.done = true) (a : PollAnswers) (sh : Shared) :
    pollChunk a sh s = (.ended, sh, s) ∧ pollFills a sh s = [] := by
  simp [pollChunk, pollFills, h]

/-- **A poll of an open body** delivers a chunk, asks for more, ends the body
or fails, and in each case every byte is where it was or has moved forward. -/
theorem pollChunk_spec {limits : Limits} {pre c x : Bytes} {sh : Shared} {s : BodyState}
    (h : Open limits pre c x sh s) (a : PollAnswers) :
    Polled limits pre x (pollChunk a sh s).1 (pollChunk a sh s).2.1 (pollChunk a sh s).2.2 ∧
      (pollChunk a sh s).2.2.kind = s.kind ∧
      (∀ f ∈ pollFills a sh s, f.buf = []) ∧
      ((∃ f ∈ pollFills a sh s, f.broken) → ∃ e, (pollChunk a sh s).1 = .error e) := by
  have hdone : ¬ s.done = true := by simp [h.notDone]
  unfold pollChunk pollFills
  simp only [if_neg hdone]
  split
  · obtain ⟨hp, hf, hfills, hbroken⟩ := pollLoop_spec a.reads h
    exact ⟨hp, hf.kind, hfills, hbroken⟩
  · have hopen := open_continue h a.flush a.writes
    rcases hsend : sh.io.pollSendContinue a.flush a.writes with ⟨_ | _ | _, io⟩
    · simp only [hsend] at hopen
      exact ⟨.pending (hopen s.continueSent), rfl, by simp, by simp⟩
    · simp only [hsend] at hopen
      obtain ⟨hp, hf, hfills, hbroken⟩ := pollLoop_spec a.reads (hopen true)
      exact ⟨hp, hf.kind, hfills, hbroken⟩
    · simp only [hsend] at hopen
      have ho := hopen s.continueSent
      refine ⟨.error (failed_of_open [] s (by simpa using ho.conserved) ho.part rfl),
        (frame_fail _ _).kind, by simp, by simp⟩

/-- What a poll puts on the wire: the next bytes of the interim response
that is owed. -/
theorem pollChunk_sends {limits : Limits} {pre c x : Bytes} {sh : Shared} {s : BodyState}
    (h : Open limits pre c x sh s) (hle : sh.io.pendingContinue ≤ continueBytes.length)
    (a : PollAnswers) :
    ∃ k ≤ sh.io.pendingContinue,
      (pollChunk a sh s).2.1.io.io.sent = sh.io.io.sent ++ sh.io.owedContinue.take k ∧
      (pollChunk a sh s).2.1.io.pendingContinue = sh.io.pendingContinue - k := by
  have hdone : ¬ s.done = true := by simp [h.notDone]
  unfold pollChunk
  simp only [if_neg hdone]
  split
  · have hf := (pollLoop_spec a.reads h).2.1
    exact ⟨0, Nat.zero_le _, by rw [hf.sent]; simp, by rw [hf.pending]; rfl⟩
  · obtain ⟨k, hk, hio, _⟩ := pollSendContinue_spec a.flush a.writes sh.io hle
    have hopen := open_continue h a.flush a.writes
    rcases hsend : sh.io.pollSendContinue a.flush a.writes with ⟨_ | _ | _, io⟩
    · rw [hsend] at hio
      subst hio
      exact ⟨k, hk, rfl, rfl⟩
    · simp only [hsend] at hopen hio
      subst hio
      have hf := (pollLoop_spec a.reads (hopen true)).2.1
      exact ⟨k, hk, hf.sent, hf.pending⟩
    · rw [hsend] at hio
      subst hio
      have hf := frame_fail { sh with io := continued sh.io k } s
      exact ⟨k, hk, hf.sent, hf.pending⟩

/-! ## 8. The body of a new request -/

/-- Registering a body touches neither the transport nor what is owed. -/
theorem new_keeps (kind : BodyKind) (needsContinue : Bool) (limits : Limits) (sh : Shared) :
    (new kind needsContinue limits sh).2.io.io = sh.io.io ∧
      (new kind needsContinue limits sh).2.io.pendingContinue = sh.io.pendingContinue := by
  have hio : ∀ b : Bool,
      (if b = true then sh.io.bodyStarted.finishBody sh.io.bodyStarted.bodyGeneration
      else sh.io.bodyStarted).io = sh.io.io := by
    intro b; split <;> simp [IoState.bodyStarted]
  have hp : ∀ b : Bool,
      (if b = true then sh.io.bodyStarted.finishBody sh.io.bodyStarted.bodyGeneration
      else sh.io.bodyStarted).pendingContinue = sh.io.pendingContinue := by
    intro b; split <;> simp [IoState.bodyStarted, finishBody_pending]
  exact ⟨hio _, hp _⟩

/-- A new body is open, or it has nothing to read and is finished. -/
theorem new_spec {pre : Bytes} (sh : Shared) (limits : Limits) (kind : BodyKind)
    (needsContinue : Bool) (h : sh.io.io.received = pre ++ sh.io.buf) :
    Open limits pre [] [] (new kind needsContinue limits sh).2
      (new kind needsContinue limits sh).1 ∨
      (Finished limits pre [] [] (new kind needsContinue limits sh).2
          (new kind needsContinue limits sh).1 ∧ (kind = .none ∨ kind = .length 0)) := by
  have hio : ∀ b : Bool,
      (if b = true then sh.io.bodyStarted.finishBody sh.io.bodyStarted.bodyGeneration
      else sh.io.bodyStarted).io = sh.io.io := by
    intro b; split <;> simp [IoState.bodyStarted]
  have hbuf : ∀ b : Bool,
      (if b = true then sh.io.bodyStarted.finishBody sh.io.bodyStarted.bodyGeneration
      else sh.io.bodyStarted).buf = sh.io.buf := by
    intro b; split <;> simp [IoState.bodyStarted]
  cases kind with
  | none =>
      refine Or.inr ⟨⟨rfl, rfl, rfl, ?_, .none⟩, Or.inl rfl⟩
      simpa [new, IoState.bodyStarted] using h
  | length n =>
      by_cases hn : n = 0
      · subst hn
        refine Or.inr ⟨⟨rfl, rfl, rfl, ?_, .length []⟩, Or.inr rfl⟩
        simpa [new, IoState.bodyStarted] using h
      · have hz : (n == 0) = false := by simpa using hn
        refine Or.inl ⟨hz, hz, ?_, Or.inl rfl, .length (by simp [new]) (Nat.pos_of_ne_zero hn)⟩
        simpa only [new, hio, hbuf, List.nil_append, List.append_nil] using h
  | chunked =>
      refine Or.inl ⟨rfl, rfl, ?_, Or.inl rfl, .chunked rfl (along_new limits) ?_ (Reaches.refl _)⟩
      · simpa [new, IoState.bodyStarted] using h
      · simp [ChunkedDecoder.new]

end BodyState

end ArmatureH1
