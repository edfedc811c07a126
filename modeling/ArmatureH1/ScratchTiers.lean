/-
ArmatureH1.ScratchTiers — the two scratch arrays of the head parser.

`parse_head_region` tokenizes into a small array first and into one of the
ceiling's size when the small one was too small and `max_headers` leaves room
for more. Three numbers decide which way a head goes: 32, `max_headers` and
128. What they cannot decide is whether it is accepted: with the tokenizer's
array as the only difference (`BoundedSlots`), the outcome is that of one
parse with the large array, except that the small one may answer
`TooManyHeaders` early, for a head whose fields `finish_parse_head` would
have counted and refused (`parseHeadRegion_eq`).
-/
import ArmatureH1.Parse

namespace ArmatureH1

open ByteString

/-! ## 1. The tokenizer's array -/

/-- A tokenizer with a scratch array is one without (`full`), but for giving
up when a field begins for which there is no slot left. `begun` counts the
fields that begin in a region before `full` is done with it; in a head that
is complete, these are its fields. -/
structure BoundedSlots (httparse : Httparse)
    (full : Bytes → Except HttparseError (Option HttparseRequest)) (begun : Bytes → Nat) :
    Prop where
  slots : ∀ n region,
    httparse n region = if begun region ≤ n then full region else .error .tooManyHeaders
  complete : ∀ region req, full region = .ok (some req) → req.headers.length = begun region

/-! ## 2. One parse -/

/-- What becomes of the tokenizer's result. -/
def finishParsed (parsed : Except HttparseError (Option HttparseRequest)) (limits : Limits) :
    Except ParseError Head :=
  match parsed with
  | .ok parsed => finishParseHead parsed limits
  | .error e => .error (mapHttparse e)

/-- The head parser with one array, of the ceiling's size. -/
def parseHeadOnce (httparse : Httparse) (region : Bytes) (limits : Limits) :
    Except ParseError Head :=
  if region.length > limits.maxHeadBytes then .error .headTooLarge
  else
    match prescan region with
    | .error e => .error e
    | .ok () => finishParsed (httparse maxHeadersCeiling region) limits

theorem parseFields_length {fields : List (Bytes × Bytes)} {headers : HeaderVec}
    (h : parseFields fields = .ok headers) : headers.length = fields.length := by
  induction fields generalizing headers with
  | nil =>
      cases h
      rfl
  | cons f fields ih =>
      rw [parseFields] at h
      split at h
      · cases h
      · cases hrest : parseFields fields with
        | error e => rw [hrest] at h; cases h
        | ok rest =>
            rw [hrest] at h
            cases h
            rw [List.length_cons, List.length_cons, ih hrest]

/-- An accepted head has all the fields that were tokenized, and the bound on
their number is the last thing about it that could have been otherwise. -/
theorem finishParseHead_ok {parsed : Option HttparseRequest} {limits : Limits} {head : Head}
    (h : finishParseHead parsed limits = .ok head) :
    ∃ req, parsed = some req ∧ head.headers.length = req.headers.length ∧
      req.headers.length ≤ limits.maxHeaders ∧
      ∀ limits' : Limits, limits'.maxHeaders < req.headers.length →
        finishParseHead parsed limits' = .error .tooManyHeaders := by
  unfold finishParseHead at h
  cases parsed with
  | none => cases h
  | some req =>
      simp only at h
      split at h
      · cases h
      rename_i version hversion
      split at h
      · cases h
      rename_i methodToken hmethodToken
      split at h
      · cases h
      rename_i method hmethod
      split at h
      · cases h
      rename_i targetToken htargetToken
      split at h
      · cases h
      rename_i htarget
      split at h
      · cases h
      rename_i target hutf8
      split at h
      · cases h
      rename_i hcount
      split at h
      · cases h
      rename_i headers hfields
      cases h
      refine ⟨req, rfl, parseFields_length hfields, Nat.le_of_not_gt hcount, ?_⟩
      intro limits' hlt
      simp only [finishParseHead, hversion, hmethodToken, hmethod, htargetToken, htarget, hutf8,
        gt_iff_lt, if_pos hlt]

/-! ## 3. Two parses -/

section

variable {httparse : Httparse} {full : Bytes → Except HttparseError (Option HttparseRequest)}
  {begun : Bytes → Nat}

/-- The two tiers in one: the small array only adds a refusal. -/
theorem parseHeadRegion_eq (h : BoundedSlots httparse full begun) (region : Bytes)
    (limits : Limits) :
    parseHeadRegion httparse region limits =
      if begun region > headerScratchTier1 ∧ limits.maxHeaders ≤ headerScratchTier1 then
        if region.length > limits.maxHeadBytes then .error .headTooLarge
        else
          match prescan region with
          | .error e => .error e
          | .ok () => .error .tooManyHeaders
      else parseHeadOnce httparse region limits := by
  have hceiling : headerScratchTier1 ≤ maxHeadersCeiling := by decide
  rw [parseHeadRegion, parseHeadOnce]
  by_cases hlarge : region.length > limits.maxHeadBytes
  · simp only [if_pos hlarge, ite_self]
  simp only [if_neg hlarge]
  cases prescan region with
  | error e => simp only [ite_self]
  | ok u =>
      simp only [h.slots headerScratchTier1]
      by_cases hsmall : begun region ≤ headerScratchTier1
      · -- the small array was large enough, and so is the large one
        have hfits : begun region ≤ maxHeadersCeiling := Nat.le_trans hsmall hceiling
        have hnot : ¬ (begun region > headerScratchTier1 ∧
            limits.maxHeaders ≤ headerScratchTier1) := fun hc => Nat.not_lt.mpr hsmall hc.1
        rw [if_pos hsmall, if_neg hnot, h.slots maxHeadersCeiling, if_pos hfits]
        cases full region with
        | ok parsed => rfl
        | error e =>
            simp only [finishParsed]
            split <;> rfl
      · have hbegun : begun region > headerScratchTier1 := Nat.lt_of_not_le hsmall
        rw [if_neg hsmall]
        by_cases hroom : limits.maxHeaders > headerScratchTier1
        · have hnot : ¬ (begun region > headerScratchTier1 ∧
              limits.maxHeaders ≤ headerScratchTier1) := fun hc => Nat.not_lt.mpr hc.2 hroom
          rw [if_neg hnot]
          simp only [hroom, and_self, if_true]
          rfl
        · have hboth : begun region > headerScratchTier1 ∧
              limits.maxHeaders ≤ headerScratchTier1 := ⟨hbegun, Nat.le_of_not_lt hroom⟩
          rw [if_pos hboth]
          simp only [hroom, and_false, if_false]
          rfl

/-- The tokenizer's result, in one parse. -/
theorem parseHeadOnce_ok (h : BoundedSlots httparse full begun) {region : Bytes}
    {limits : Limits} {head : Head} (hok : parseHeadOnce httparse region limits = .ok head) :
    begun region ≤ limits.maxHeaders ∧ head.headers.length = begun region := by
  rw [parseHeadOnce] at hok
  split at hok
  · cases hok
  split at hok
  · cases hok
  rw [h.slots] at hok
  split at hok
  · cases hfull : full region with
    | error e => rw [hfull] at hok; cases hok
    | ok parsed =>
        rw [hfull] at hok
        obtain ⟨req, rfl, hlength, hcount, -⟩ := finishParseHead_ok hok
        have hbegun := h.complete region req hfull
        exact ⟨by omega, by omega⟩
  · cases hok

/-- **The two tiers agree with one parse at the ceiling.** A head is accepted
by the one exactly when it is by the other, and it is the same head; an
accepted head has no more fields than `max_headers`; and a head that has more,
but that some larger bound would let pass, is refused for its number of fields
wherever that number lies. -/
theorem scratch_tiers_agree (h : BoundedSlots httparse full begun) (region : Bytes)
    (limits : Limits) :
    (∀ head, parseHeadRegion httparse region limits = .ok head ↔
        parseHeadOnce httparse region limits = .ok head) ∧
      (∀ head, parseHeadRegion httparse region limits = .ok head →
        head.headers.length ≤ limits.maxHeaders) ∧
      ∀ bound head, region.length ≤ limits.maxHeadBytes → prescan region = .ok () →
        finishParsed (full region) { limits with maxHeaders := bound } = .ok head →
        limits.maxHeaders < head.headers.length →
        parseHeadRegion httparse region limits = .error .tooManyHeaders := by
  have hagree : ∀ head, parseHeadRegion httparse region limits = .ok head ↔
      parseHeadOnce httparse region limits = .ok head := by
    intro head
    rw [parseHeadRegion_eq h]
    split
    · rename_i hrefused
      constructor
      · intro hok
        split at hok
        · cases hok
        · split at hok <;> cases hok
      · intro hok
        obtain ⟨hbound, -⟩ := parseHeadOnce_ok h hok
        omega
    · rfl
  refine ⟨hagree, ?_, ?_⟩
  · intro head hok
    obtain ⟨hbound, hlength⟩ := parseHeadOnce_ok h ((hagree head).mp hok)
    omega
  · intro bound head hsize hscan hfinish hmany
    cases hfull : full region with
    | error e => rw [hfull] at hfinish; cases hfinish
    | ok parsed =>
        rw [hfull] at hfinish
        obtain ⟨req, rfl, hlength, -, hrefuse⟩ := finishParseHead_ok hfinish
        have hover : limits.maxHeaders < req.headers.length := by omega
        have honce : parseHeadOnce httparse region limits = .error .tooManyHeaders := by
          rw [parseHeadOnce, if_neg (Nat.not_lt.mpr hsize), hscan]
          simp only [h.slots, hfull]
          split
          · exact hrefuse limits hover
          · rfl
        rw [parseHeadRegion_eq h]
        split
        · rw [if_neg (Nat.not_lt.mpr hsize), hscan]
        · exact honce

end

/-- A request with forty fields. -/
def crowdedRegion : Bytes :=
  ascii "GET / HTTP/1.1\r\n" ++ (List.replicate 40 (ascii "a: b\r\n")).flatten ++ crlf

/-- What a tokenizer without an array finds in it. -/
def crowdedFull (region : Bytes) : Except HttparseError (Option HttparseRequest) :=
  if region = crowdedRegion then
    .ok (some ⟨some (ascii "GET"), some (ascii "/"), some 1,
      List.replicate 40 (ascii "a", ascii "b")⟩)
  else .error .token

/-- The fields that begin in it. -/
def crowdedBegun (region : Bytes) : Nat := if region = crowdedRegion then 40 else 0

/-- The same tokenizer with an array. -/
def crowdedHttparse : Httparse := fun n region =>
  if crowdedBegun region ≤ n then crowdedFull region else .error .tooManyHeaders

theorem boundedSlots_crowded : BoundedSlots crowdedHttparse crowdedFull crowdedBegun where
  slots _ _ := rfl
  complete region req h := by
    unfold crowdedFull at h
    split at h
    · rename_i hregion
      cases h
      rw [crowdedBegun, if_pos hregion, List.length_replicate]
    · cases h

/-- Forty fields are too many for the small array and for a bound of
thirty-nine, and not for one of forty. -/
theorem scratch_tiers_agree_crowded :
    parseHeadRegion crowdedHttparse crowdedRegion { Limits.default with maxHeaders := 39 }
        = .error .tooManyHeaders ∧
      ∃ head, parseHeadRegion crowdedHttparse crowdedRegion
        { Limits.default with maxHeaders := 40 } = .ok head := by
  have hok : ((parseHeadOnce crowdedHttparse crowdedRegion
      { Limits.default with maxHeaders := 40 }).toOption.map fun head => head.headers.length)
        = some 40 := by decide +kernel
  have hfinish : ((finishParsed (crowdedFull crowdedRegion)
      { Limits.default with maxHeaders := 40 }).toOption.map fun head => head.headers.length)
        = some 40 := by decide +kernel
  constructor
  · cases hhead : finishParsed (crowdedFull crowdedRegion)
        { Limits.default with maxHeaders := 40 } with
    | error e => rw [hhead] at hfinish; cases hfinish
    | ok head =>
        rw [hhead] at hfinish
        have hlength : head.headers.length = 40 := Option.some.inj hfinish
        refine (scratch_tiers_agree boundedSlots_crowded crowdedRegion
          { Limits.default with maxHeaders := 39 }).2.2 40 head (by decide +kernel)
          (by decide +kernel) hhead ?_
        rw [hlength]
        decide
  · cases hhead : parseHeadOnce crowdedHttparse crowdedRegion
        { Limits.default with maxHeaders := 40 } with
    | error e => rw [hhead] at hok; cases hok
    | ok head =>
        exact ⟨head, ((scratch_tiers_agree boundedSlots_crowded crowdedRegion
          { Limits.default with maxHeaders := 40 }).1 head).mpr hhead⟩

end ArmatureH1
