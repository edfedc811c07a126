/-
ArmatureH1.ChunkedBudget — the budgets of the chunked decoder, over any
sequence of polls.

A caller may hand `poll` any buffer at any time, and may go on after an error
or after the end. `Within` is what every state keeps then: the bytes decoded
so far are those handed out, what is decoded and what the current chunk still
promises fit the body limit together, and the stored trailers fit theirs. It
is what makes the plain `+=` and `-=` of the data state safe, since the size
of a chunk is checked against the limit before any of it is read.

The loop of `poll` is `Returns` here, a finite derivation of turns, so that a
poll that has one is a poll that comes back.
-/
import ArmatureH1.ChunkedTheorems

namespace ArmatureH1

open ByteString

namespace ChunkedDecoder

/-! ## 1. The loop -/

/-- The loop of `poll` comes back with the given result. -/
inductive Returns : ChunkedDecoder → Bytes → PollResult × ChunkedDecoder × Bytes → Prop where
  | ret {d d' : ChunkedDecoder} {buf buf' : Bytes} {r : PollResult} :
      d.turn buf = .ret r d' buf' → Returns d buf (r, d', buf')
  | again {d d' : ChunkedDecoder} {buf buf' : Bytes} {out : PollResult × ChunkedDecoder × Bytes} :
      d.turn buf = .again d' buf' → Returns d' buf' out → Returns d buf out

/-- The states the loop of `poll` goes through. -/
inductive Visits (d : ChunkedDecoder) (buf : Bytes) : ChunkedDecoder → Bytes → Prop where
  | start : Visits d buf d buf
  | again {d₁ d₂ : ChunkedDecoder} {buf₁ buf₂ : Bytes} : Visits d buf d₁ buf₁ →
      d₁.turn buf₁ = .again d₂ buf₂ → Visits d buf d₂ buf₂

/-- Every turn that goes round shortens the buffer, so the loop ends. -/
theorem returns_poll (d : ChunkedDecoder) (buf : Bytes) : Returns d buf (d.poll buf) := by
  induction hn : buf.length using Nat.strong_induction_on generalizing d buf with
  | _ n ih =>
      rw [poll_turn]
      cases hturn : d.turn buf with
      | ret r d' buf' => exact .ret hturn
      | again d' buf' =>
          obtain ⟨c, hc, hbuf, -⟩ := turn_again hturn
          have hlen : buf'.length < n := by
            rw [← hn, hbuf, List.length_append]
            omega
          exact .again hturn (ih _ hlen d' buf' rfl)

/-! ## 2. One turn -/

/-- The body bytes a result hands out. -/
def handedOut : PollResult → Nat
  | .ok (some (.data x)) => x.length
  | _ => 0

/-- What every state keeps, `total` bytes having been handed out so far. -/
structure Within (limits : Limits) (total : Nat) (d : ChunkedDecoder) : Prop where
  maxBody : d.maxBody = limits.maxBodyBytes
  maxTrailer : d.maxTrailer = limits.maxHeadBytes
  maxTrailers : d.maxTrailers = limits.maxHeaders
  decoded : d.decoded = total
  body : d.decoded + d.remaining ≤ limits.maxBodyBytes
  trailers : (d.trailers.getD []).length ≤ limits.maxHeaders
  -- a chunk that is being read has bytes to come, and no other state has any
  open_chunk : d.state = .data → 0 < d.remaining
  no_chunk : d.state ≠ .data → d.remaining = 0

theorem new_within (limits : Limits) : Within limits 0 (new limits) := by
  constructor <;> simp [new]

/-- Between chunks the state may change. -/
theorem Within.move {limits : Limits} {total : Nat} {d : ChunkedDecoder}
    (h : Within limits total d) (hstate : d.state ≠ .data) {state : ChunkedState}
    (hnext : state ≠ .data) : Within limits total { d with state := state } :=
  { h with
    open_chunk := fun hs => absurd hs hnext
    no_chunk := fun _ => h.no_chunk hstate }

/-- How a turn may end: within the budgets again, with nothing empty handed
out, and with little unread when it asks for more. -/
def Turn.WithinBudget (limits : Limits) (total : Nat) : Turn → Prop
  | .again d _ => Within limits total d
  | .ret r d buf =>
      Within limits (total + handedOut r) d ∧ (∀ x, r = .ok (some (.data x)) → x ≠ []) ∧
        (∀ t, r = .ok (some (.trailers t)) → t.length ≤ limits.maxHeaders) ∧
        (r = .ok none → buf.length ≤ max 272 limits.maxHeadBytes)

/-- A turn that only refuses. -/
theorem withinBudget_error {limits : Limits} {total : Nat} {d : ChunkedDecoder} {e : ChunkedError}
    {buf : Bytes} (h : Within limits total d) :
    Turn.WithinBudget limits total (.ret (.error e) d buf) := by
  refine ⟨h, ?_, ?_, ?_⟩
  · intro x hx; cases hx
  · intro t ht; cases ht
  · intro hnone; cases hnone

/-- A turn that asks for more. -/
theorem withinBudget_more {limits : Limits} {total : Nat} {d : ChunkedDecoder} {buf : Bytes}
    (h : Within limits total d) (hbuf : buf.length ≤ max 272 limits.maxHeadBytes) :
    Turn.WithinBudget limits total (.ret (.ok none) d buf) := by
  refine ⟨h, ?_, ?_, fun _ => hbuf⟩
  · intro x hx; cases hx
  · intro t ht; cases ht

theorem onSizeLine_within {limits : Limits} {total : Nat} {d : ChunkedDecoder}
    (h : Within limits total d) (hstate : d.state = .size) (line buf rest : Bytes) :
    Turn.WithinBudget limits total (d.onSizeLine line buf rest) := by
  unfold onSizeLine
  split
  · exact withinBudget_error h
  · rename_i size _
    split
    · exact withinBudget_error h
    · rename_i hbudget
      split
      · exact h.move (by rw [hstate]; simp) (by simp)
      · rename_i hpos
        -- the sum was checked: it neither overflows nor passes the limit
        have hfits : d.decoded + size ≤ limits.maxBodyBytes := by
          unfold checkedAdd at hbudget
          split at hbudget
          · rw [Option.all_some, decide_eq_true_eq, h.maxBody] at hbudget
            omega
          · exact absurd rfl hbudget
        exact { h with
          body := hfits
          open_chunk := fun _ => Nat.pos_of_ne_zero hpos
          no_chunk := fun hs => absurd rfl hs }

theorem turnData_within {limits : Limits} {total : Nat} {d : ChunkedDecoder}
    (h : Within limits total d) (hstate : d.state = .data) (buf : Bytes) :
    Turn.WithinBudget limits total (d.turnData buf) := by
  have hpos := h.open_chunk hstate
  unfold turnData
  split
  · rename_i hnil
    rw [hnil]
    exact withinBudget_more h (Nat.zero_le _)
  · rename_i hne
    have hlen : 0 < buf.length := List.length_pos_iff.mpr hne
    have htake : min buf.length d.remaining ≤ d.remaining := Nat.min_le_right _ _
    have hout : (buf.take (min buf.length d.remaining)).length = min buf.length d.remaining := by
      rw [List.length_take]
      exact Nat.min_eq_left (Nat.min_le_left _ _)
    have hbody := h.body
    refine ⟨⟨h.maxBody, h.maxTrailer, h.maxTrailers, ?_, ?_, h.trailers, ?_, ?_⟩, ?_, ?_, ?_⟩
    · show d.decoded + min buf.length d.remaining = _
      rw [handedOut, hout, h.decoded]
    · show d.decoded + min buf.length d.remaining + (d.remaining - min buf.length d.remaining) ≤ _
      omega
    · intro hs
      show 0 < d.remaining - min buf.length d.remaining
      by_cases hrest : d.remaining - min buf.length d.remaining = 0
      · simp only [hrest, if_true, reduceCtorEq] at hs
      · omega
    · intro hs
      show d.remaining - min buf.length d.remaining = 0
      by_cases hrest : d.remaining - min buf.length d.remaining = 0
      · exact hrest
      · simp only [hrest, if_false, ne_eq, not_true_eq_false] at hs
    · intro x hx hempty
      cases hx
      rw [hempty, List.length_nil] at hout
      omega
    · intro t ht; cases ht
    · intro hnone; cases hnone

theorem turnDataCrlf_within {limits : Limits} {total : Nat} {d : ChunkedDecoder}
    (h : Within limits total d) (hstate : d.state = .dataCrlf) (buf : Bytes) :
    Turn.WithinBudget limits total (d.turnDataCrlf buf) := by
  unfold turnDataCrlf
  split
  · exact withinBudget_more h (by omega)
  · split
    · exact withinBudget_error h
    · exact h.move (by rw [hstate]; simp) (by simp)

/-- A trailer is stored only below the limit. -/
theorem pushTrailer_length {maxTrailers : Nat} {trailers : Option HeaderVec} {line : Bytes}
    {t : HeaderVec} (h : pushTrailer maxTrailers trailers line = .ok t) :
    t.length ≤ maxTrailers := by
  unfold pushTrailer at h
  split at h
  · cases h
  · split at h
    · cases h
    · rename_i hroom
      split at h
      · cases h
      · simp only at h
        split at h
        · cases h
        · split at h
          · cases h
          · split at h
            · cases h
            · split at h
              · cases h
              · split at h
                · cases h
                · split at h
                  · cases h
                  · cases h
                    rw [List.length_append, List.length_singleton]
                    omega

theorem onTrailerLine_within {limits : Limits} {total : Nat} {d : ChunkedDecoder}
    (h : Within limits total d) (hstate : d.state = .trailers) (line buf rest : Bytes) :
    Turn.WithinBudget limits total (d.onTrailerLine line buf rest) := by
  have hmoved : Within limits total { d with state := .ending } :=
    h.move (by rw [hstate]; simp) (by simp)
  unfold onTrailerLine
  split
  · exact withinBudget_error h
  · split
    · split
      · exact hmoved
      · rename_i t ht
        have hstored := h.trailers
        rw [ht] at hstored
        refine ⟨?_, ?_, ?_, ?_⟩
        · exact { hmoved with trailers := Nat.zero_le _ }
        · intro x hx; cases hx
        · intro t' ht'
          cases ht'
          exact hstored
        · intro hnone; cases hnone
    · split
      · exact withinBudget_error h
      · rename_i t hpush
        have hroom := pushTrailer_length hpush
        rw [h.maxTrailers] at hroom
        exact { h with trailers := hroom }

/-- **One turn stays within the budgets.** -/
theorem turn_within {limits : Limits} {total : Nat} {d : ChunkedDecoder}
    (h : Within limits total d) (buf : Bytes) :
    Turn.WithinBudget limits total (d.turn buf) := by
  unfold turn
  cases hstate : d.state with
  | size =>
      show Turn.WithinBudget limits total (d.turnSize buf)
      unfold turnSize
      split
      · exact withinBudget_error h
      · rename_i hnone
        have hle : buf.length ≤ 272 := (findLine_ok_none hnone).2
        exact withinBudget_more h (by omega)
      · exact onSizeLine_within h hstate _ _ _
  | data => exact turnData_within h hstate buf
  | dataCrlf => exact turnDataCrlf_within h hstate buf
  | trailers =>
      show Turn.WithinBudget limits total (d.turnTrailers buf)
      unfold turnTrailers
      split
      · exact withinBudget_error h
      · rename_i hnone
        have hle := (findLine_ok_none hnone).2
        rw [h.maxTrailer] at hle
        exact withinBudget_more h (by omega)
      · rename_i contentLen consumed _
        -- the bytes of the line are counted before they are looked at
        have hcounted : Within limits total { d with trailerBytes := d.trailerBytes + consumed } :=
          { h with }
        exact onTrailerLine_within hcounted hstate _ _ _
  | ending =>
      refine ⟨h.move (by rw [hstate]; simp) (by simp), ?_, ?_, ?_⟩
      · intro x hx; cases hx
      · intro t ht; cases ht
      · intro hnone; cases hnone
  | done =>
      refine ⟨h, ?_, ?_, ?_⟩
      · intro x hx; cases hx
      · intro t ht; cases ht
      · intro hnone; cases hnone

/-! ## 3. One poll -/

theorem returns_within {limits : Limits} {total : Nat} {d : ChunkedDecoder} {buf : Bytes}
    {out : PollResult × ChunkedDecoder × Bytes} (hout : Returns d buf out)
    (h : Within limits total d) :
    Turn.WithinBudget limits total (.ret out.1 out.2.1 out.2.2) := by
  induction hout with
  | @ret d d' buf buf' r hturn =>
      have hone := turn_within h buf
      rw [hturn] at hone
      exact hone
  | @again d d' buf buf' out hturn _ ih =>
      have hone := turn_within h buf
      rw [hturn] at hone
      exact ih hone

theorem visits_within {limits : Limits} {total : Nat} {d d' : ChunkedDecoder} {buf buf' : Bytes}
    (hvisit : Visits d buf d' buf') (h : Within limits total d) : Within limits total d' := by
  induction hvisit with
  | start => exact h
  | @again d₁ d₂ buf₁ buf₂ _ hturn ih =>
      have hone := turn_within ih buf₁
      rw [hturn] at hone
      exact hone

/-- A poll that says the body has ended leaves the decoder done. -/
theorem returns_ended {d : ChunkedDecoder} {buf : Bytes}
    {out : PollResult × ChunkedDecoder × Bytes} (hout : Returns d buf out)
    (hended : out.1 = .ok (some .ended)) : out.2.1.state = .done := by
  induction hout with
  | @ret d d' buf buf' r hturn =>
      obtain rfl : r = .ok (some .ended) := hended
      rcases turn_ret hturn with ⟨e, he⟩ | ⟨he, _⟩ | ⟨x, he, _⟩ | ⟨t, c, he, _⟩ | ⟨_, hd, _⟩
      · cases he
      · cases he
      · cases he
      · cases he
      · rw [hd]
  | again _ _ ih => exact ih hended

theorem poll_done {d : ChunkedDecoder} (h : d.state = .done) (buf : Bytes) :
    d.poll buf = (.ok (some .ended), d, buf) := by
  rw [poll_turn, turn, h]

/-! ## 4. Any sequence of polls -/

/-- A decoder in use, and what it has answered so far. -/
structure Polled where
  decoder : ChunkedDecoder
  answers : List PollResult

/-- One more call of `poll`, on any buffer. -/
def Polled.call (p : Polled) (buf : Bytes) : Polled :=
  ⟨(p.decoder.poll buf).2.1, p.answers ++ [(p.decoder.poll buf).1]⟩

/-- A new decoder that is polled with one buffer after the other, whatever it
answers. -/
def polled (limits : Limits) (bufs : List Bytes) : Polled :=
  bufs.foldl Polled.call ⟨new limits, []⟩

/-- The length of all data handed out. -/
def totalData (answers : List PollResult) : Nat := (answers.map handedOut).sum

/-- What any sequence of polls keeps. -/
structure Polled.Sound (limits : Limits) (p : Polled) : Prop where
  within : Within limits (totalData p.answers) p.decoder
  data : ∀ x, .ok (some (.data x)) ∈ p.answers → x ≠ []
  trailers : ∀ t, .ok (some (.trailers t)) ∈ p.answers → t.length ≤ limits.maxHeaders
  ended : .ok (some .ended) ∈ p.answers → p.decoder.state = .done

theorem Polled.call_sound {limits : Limits} {p : Polled} (h : p.Sound limits) (buf : Bytes) :
    (p.call buf).Sound limits := by
  have hout := returns_poll p.decoder buf
  obtain ⟨hwithin, hdata, htrailers, -⟩ := returns_within hout h.within
  have hmem : ∀ r, r ∈ (p.call buf).answers → r ∈ p.answers ∨ r = (p.decoder.poll buf).1 := by
    intro r hr
    rcases List.mem_append.mp hr with hold | hnew
    · exact Or.inl hold
    · exact Or.inr (List.mem_singleton.mp hnew)
  refine ⟨?_, ?_, ?_, ?_⟩
  · have hsum : totalData (p.call buf).answers
        = totalData p.answers + handedOut (p.decoder.poll buf).1 := by
      simp [totalData, Polled.call]
    rw [hsum]
    exact hwithin
  · intro x hx
    rcases hmem _ hx with hold | hnew
    · exact h.data x hold
    · exact hdata x hnew.symm
  · intro t ht
    rcases hmem _ ht with hold | hnew
    · exact h.trailers t hold
    · exact htrailers t hnew.symm
  · intro hended
    rcases hmem _ hended with hold | hnew
    · show (p.decoder.poll buf).2.1.state = .done
      rw [poll_done (h.ended hold)]
      exact h.ended hold
    · exact returns_ended hout hnew.symm

theorem polled_sound (limits : Limits) (bufs : List Bytes) : (polled limits bufs).Sound limits := by
  induction bufs using List.reverseRecOn with
  | nil => exact ⟨new_within limits, by simp [polled], by simp [polled], by simp [polled]⟩
  | append_singleton bufs buf ih =>
      rw [polled, List.foldl_append]
      exact Polled.call_sound ih buf

/-- **The budgets hold whatever the decoder is fed.** After any polls, and in
every state the loop of the next one goes through: the bytes decoded are those
handed out, with what the current chunk promises they pass neither the body
limit nor a `u64`, and no more trailers are stored than there may be fields. No
data handed out is empty, no trailer section is longer than that either. A
poll that asks for more leaves less than a size line or a head unread, a poll
behind the end takes nothing and says so again, and every poll comes back. -/
theorem decoder_budgets (limits : Limits) (bufs : List Bytes) (buf : Bytes) :
    (∀ d' buf', Visits (polled limits bufs).decoder buf d' buf' →
      d'.decoded + d'.remaining ≤ limits.maxBodyBytes ∧ d'.decoded + d'.remaining < 2 ^ 64 ∧
        d'.decoded = totalData (polled limits bufs).answers ∧
        (d'.trailers.getD []).length ≤ limits.maxHeaders) ∧
    (∀ x, .ok (some (.data x)) ∈ (polled limits bufs).answers → x ≠ []) ∧
    (∀ t, .ok (some (.trailers t)) ∈ (polled limits bufs).answers →
      t.length ≤ limits.maxHeaders) ∧
    (((polled limits bufs).decoder.poll buf).1 = .ok none →
      ((polled limits bufs).decoder.poll buf).2.2.length ≤ max 272 limits.maxHeadBytes) ∧
    (.ok (some .ended) ∈ (polled limits bufs).answers →
      (polled limits bufs).decoder.poll buf
        = (.ok (some .ended), (polled limits bufs).decoder, buf)) ∧
    Returns (polled limits bufs).decoder buf ((polled limits bufs).decoder.poll buf) := by
  have hsound := polled_sound limits bufs
  have hout := returns_poll (polled limits bufs).decoder buf
  refine ⟨?_, hsound.data, hsound.trailers, ?_, ?_, hout⟩
  · intro d' buf' hvisit
    have hwithin := visits_within hvisit hsound.within
    have hlimit := limits.maxBodyBytes_lt
    exact ⟨hwithin.body, lt_of_le_of_lt hwithin.body hlimit, hwithin.decoded, hwithin.trailers⟩
  · exact (returns_within hout hsound.within).2.2.2
  · intro hended
    exact poll_done (hsound.ended hended) buf

end ChunkedDecoder

end ArmatureH1
