/-
ArmatureH1.SizeLine — `parse_chunk_size` accepts exactly the chunk-size
line of RFC 9112 section 7.1.

The grammar is stated here from the RFC's productions, not from the code:
`QuotedBody` and `IsQuotedString` are RFC 9110 section 5.6.4, `ChunkExt` is
RFC 9112 section 7.1.1, and `SizeLine line n` puts the digits in front and
optional bad whitespace behind. `parseChunkSize_iff` is the agreement.

The code scans greedily and the grammar does not say how to split, so the
whole question is whether a greedy scan can overshoot. It cannot, because of
one fact: an extension list followed by whitespace starts with whitespace,
with `;`, or not at all (`ChunkExt.skipBws_append`), and none of those
starts is a hex digit, a `tchar` or a `=`.

The loop of the source has no count of its rounds and the model's has one;
`ExtRounds` is the loop without it, and every round that goes on eats
something (`extRound_length`), so the count is never reached.
-/
import ArmatureH1.Chunked
import ArmatureH1.Lib.Numeral
import Mathlib.Tactic.NormNum

namespace ArmatureH1

open ByteString

/-! ## 1. The grammar -/

/-- `BWS = *( SP / HTAB )`. -/
def IsBws (w : Bytes) : Prop := ∀ b ∈ w, isOws b = true

/-- `token = 1*tchar`. -/
def IsToken (t : Bytes) : Prop := t ≠ [] ∧ ∀ b ∈ t, isTchar b = true

theorem IsToken.notMem {t : Bytes} (h : IsToken t) {b : UInt8} (hb : isTchar b = false) :
    b ∉ t := notMem_of_class h.2 hb

/-- `qdtext = HTAB / SP / %x21 / %x23-5B / %x5D-7E / obs-text`. -/
def isQdtext (b : UInt8) : Bool :=
  b == 0x09 || b == 0x20 || b == 0x21 || (0x23 ≤ b && b ≤ 0x5b) || (0x5d ≤ b && b ≤ 0x7e)
    || 0x80 ≤ b

/-- What `quoted-pair` allows behind the backslash:
`HTAB / SP / VCHAR / obs-text`. -/
def isQuotedPairByte (b : UInt8) : Bool :=
  b == 0x09 || b == 0x20 || (0x21 ≤ b && b ≤ 0x7e) || 0x80 ≤ b

/-- `*( qdtext / quoted-pair )`. -/
inductive QuotedBody : Bytes → Prop
  | nil : QuotedBody []
  | text {b : UInt8} {rest : Bytes} : isQdtext b = true → QuotedBody rest → QuotedBody (b :: rest)
  | pair {b : UInt8} {rest : Bytes} : isQuotedPairByte b = true → QuotedBody rest →
      QuotedBody (0x5c :: b :: rest)

/-- `quoted-string = DQUOTE *( qdtext / quoted-pair ) DQUOTE`. -/
def IsQuotedString (q : Bytes) : Prop := ∃ t, QuotedBody t ∧ q = 0x22 :: (t ++ [0x22])

/-- `chunk-ext = *( BWS ";" BWS chunk-ext-name [ BWS "=" BWS chunk-ext-val ] )`. -/
inductive ChunkExt : Bytes → Prop
  | nil : ChunkExt []
  | name {w₁ w₂ n rest : Bytes} : IsBws w₁ → IsBws w₂ → IsToken n → ChunkExt rest →
      ChunkExt (w₁ ++ 0x3b :: (w₂ ++ (n ++ rest)))
  | assign {w₁ w₂ n w₃ w₄ v rest : Bytes} : IsBws w₁ → IsBws w₂ → IsToken n → IsBws w₃ →
      IsBws w₄ → IsToken v ∨ IsQuotedString v → ChunkExt rest →
      ChunkExt (w₁ ++ 0x3b :: (w₂ ++ (n ++ (w₃ ++ 0x3d :: (w₄ ++ (v ++ rest))))))

/-- The mathematical value of a hex digit string. -/
def hexNumber (digits : Bytes) : Nat :=
  Numeral.value 16 (digits.map fun b => (hexValue b).getD 0)

/-- A chunk-size line: `1*HEXDIG [ chunk-ext ] BWS`, with a value a `u64`
can hold. -/
def SizeLine (line : Bytes) (n : Nat) : Prop :=
  ∃ digits ext w, line = digits ++ (ext ++ w) ∧ digits ≠ [] ∧
    (∀ b ∈ digits, isAsciiHexdigit b = true) ∧ ChunkExt ext ∧ IsBws w ∧
    hexNumber digits = n ∧ n < 2 ^ 64

/-! ## 2. Greedy scans

`dropWhile p` cuts `pre ++ rest` exactly at the seam when all of `pre`
satisfies `p` and `rest` does not start with such a byte. -/

/-- `rest` does not start with a byte of the class. -/
def StopsAt (p : UInt8 → Bool) (rest : Bytes) : Prop := ∀ b ∈ rest.head?, p b = false

theorem dropWhile_seam {p : UInt8 → Bool} {pre rest : Bytes} (hp : ∀ b ∈ pre, p b = true)
    (hr : StopsAt p rest) : (pre ++ rest).dropWhile p = rest := by
  rw [List.dropWhile_append_of_pos hp]
  cases rest with
  | nil => rfl
  | cons b t => rw [List.dropWhile_cons_of_neg (by simp [hr b (by simp)])]

theorem takeWhile_seam {p : UInt8 → Bool} {pre rest : Bytes} (hp : ∀ b ∈ pre, p b = true)
    (hr : StopsAt p rest) : (pre ++ rest).takeWhile p = pre := by
  rw [List.takeWhile_append_of_pos hp]
  cases rest with
  | nil => simp
  | cons b t => rw [List.takeWhile_cons_of_neg (by simp [hr b (by simp)])]; simp

theorem stopsAt_dropWhile (p : UInt8 → Bool) (s : Bytes) : StopsAt p (s.dropWhile p) := by
  intro b hb
  cases hs : s.dropWhile p with
  | nil => simp [hs] at hb
  | cons c t =>
      have hc : b = c := by simpa [hs, eq_comm] using hb
      have := List.head_dropWhile_not p (l := s) (by simp [hs])
      simpa [hs, hc] using this

theorem skipBws_append {w rest : Bytes} (hw : IsBws w) :
    skipBws (w ++ rest) = skipBws rest :=
  List.dropWhile_append_of_pos hw

theorem skipBws_self {w : Bytes} (hw : IsBws w) : skipBws w = [] := by
  have h : skipBws (w ++ []) = skipBws [] := skipBws_append hw
  simpa [skipBws] using h

theorem skipBws_split (s : Bytes) : ∃ w, IsBws w ∧ s = w ++ skipBws s :=
  ⟨s.takeWhile isOws, fun _ hb => List.mem_takeWhile_imp hb,
    (List.takeWhile_append_dropWhile).symm⟩

theorem skipToken_iff {s r : Bytes} :
    skipToken s = .ok r ↔ ∃ t, s = t ++ r ∧ IsToken t ∧ StopsAt isTchar r := by
  unfold skipToken
  constructor
  · intro h
    split at h
    · cases h
    · rename_i hne
      cases h
      refine ⟨s.takeWhile isTchar, (List.takeWhile_append_dropWhile).symm, ⟨?_, ?_⟩,
        stopsAt_dropWhile _ s⟩
      · intro hnil
        exact hne (by simp [hnil])
      · exact fun b hb => List.mem_takeWhile_imp hb
  · rintro ⟨t, rfl, ⟨hne, ht⟩, hr⟩
    rw [takeWhile_seam ht hr, dropWhile_seam ht hr, if_neg]
    simpa using hne

/-- The bytes the code lets through bare are the RFC's `qdtext`, once the
quote and the backslash are out of the way. -/
theorem isQuotable_eq_isQdtext {b : UInt8} (hq : b ≠ 0x22) (hb : b ≠ 0x5c) :
    isQuotable b = isQdtext b := by
  have := forall_byte (p := fun b => b == 0x22 || b == 0x5c || isQuotable b == isQdtext b)
    (by decide +kernel) b
  simpa [hq, hb] using this

theorem isQdtext_ne {b : UInt8} (h : isQdtext b = true) : b ≠ 0x22 ∧ b ≠ 0x5c := by
  constructor <;> (rintro rfl; revert h; decide)

theorem skipQuoted_sound : ∀ {s r : Bytes}, skipQuoted s = .ok r →
    ∃ t, s = t ++ 0x22 :: r ∧ QuotedBody t := by
  intro s
  fun_induction skipQuoted s with
  | case1 => intro r h; cases h
  | case2 rest => intro r h; cases h; exact ⟨[], rfl, .nil⟩
  | case3 c rest' hc _ ih =>
      intro r h
      obtain ⟨t, rfl, ht⟩ := ih h
      exact ⟨0x5c :: c :: t, rfl, .pair hc ht⟩
  | case4 => intro r h; cases h
  | case5 => intro r h; cases h
  | case6 b rest h1 h2 hb ih =>
      intro r h
      obtain ⟨t, rfl, ht⟩ := ih h
      rw [isQuotable_eq_isQdtext h1 h2] at hb
      exact ⟨b :: t, rfl, .text hb ht⟩
  | case7 => intro r h; cases h

theorem skipQuoted_complete {t : Bytes} (h : QuotedBody t) (r : Bytes) :
    skipQuoted (t ++ 0x22 :: r) = .ok r := by
  induction h with
  | nil =>
      rw [List.nil_append, skipQuoted.eq_def]
      simp only [if_true]
  | text hb _ ih =>
      obtain ⟨h1, h2⟩ := isQdtext_ne hb
      rw [← isQuotable_eq_isQdtext h1 h2] at hb
      rw [List.cons_append, skipQuoted.eq_def]
      simp only [h1, h2, hb, if_true, if_false, ih]
  | @pair b rest hb _ ih =>
      have hb' : isQuotable b = true := hb
      rw [List.cons_append, List.cons_append, skipQuoted.eq_def]
      simp [hb', ih]

/-! ## 3. Extensions -/

/-- An extension list, with whitespace behind it, is past its leading
whitespace either over or at a `;`. -/
theorem ChunkExt.skipBws_append {ext w : Bytes} (h : ChunkExt ext) (hw : IsBws w) :
    skipBws (ext ++ w) = [] ∨ ∃ tail, skipBws (ext ++ w) = 0x3b :: tail := by
  cases h with
  | nil => exact Or.inl (by simpa using skipBws_self hw)
  | name h1 _ _ _ =>
      right
      rw [List.append_assoc, ArmatureH1.skipBws_append h1]
      exact ⟨_, rfl⟩
  | assign h1 _ _ _ _ _ _ =>
      right
      rw [List.append_assoc, ArmatureH1.skipBws_append h1]
      exact ⟨_, rfl⟩

/-- So it starts with whitespace or a `;`, and with no byte of a class that
has neither. -/
theorem ChunkExt.stopsAt {ext w : Bytes} (h : ChunkExt ext) (hw : IsBws w)
    {p : UInt8 → Bool} (hows : ∀ b, isOws b = true → p b = false) (hsemi : p 0x3b = false) :
    StopsAt p (ext ++ w) := by
  intro b hb
  obtain ⟨v, hv, hsplit⟩ := skipBws_split (ext ++ w)
  cases v with
  | cons c t =>
      rw [hsplit] at hb
      have : b = c := by simpa [eq_comm] using hb
      exact hows b (hv b (by simp [this]))
  | nil =>
      simp only [List.nil_append] at hsplit
      rw [hsplit] at hb
      rcases h.skipBws_append hw with hnil | ⟨tail, htail⟩
      · simp [hnil] at hb
      · have : b = 0x3b := by simpa [htail, eq_comm] using hb
        rw [this]; exact hsemi

theorem isTchar_of_isOws {b : UInt8} (h : isOws b = true) : isTchar b = false := by
  have := forall_byte (p := fun b => !isOws b || !isTchar b) (by decide +kernel) b
  simpa [h] using this

theorem isHexdigit_of_isOws {b : UInt8} (h : isOws b = true) : isAsciiHexdigit b = false := by
  have := forall_byte (p := fun b => !isOws b || !isAsciiHexdigit b) (by decide +kernel) b
  simpa [h] using this

/-- What stands right behind a token of the grammar is no `tchar`. -/
theorem stopsAt_assign {w rest : Bytes} (hw : IsBws w) : StopsAt isTchar (w ++ 0x3d :: rest) := by
  intro b hb
  cases w with
  | nil =>
      have : b = 0x3d := by simpa [eq_comm] using hb
      rw [this]; decide
  | cons c t =>
      have : b = c := by simpa [eq_comm] using hb
      exact isTchar_of_isOws (hw b (by simp [this]))

theorem skipBws_cons {c : UInt8} (rest : Bytes) (hc : isOws c = false) :
    skipBws (c :: rest) = c :: rest := by
  rw [skipBws, List.dropWhile_cons_of_neg (by simp [hc])]

theorem isOws_false_of_isTchar {b : UInt8} (h : isTchar b = true) : isOws b = false := by
  by_contra hc
  rw [Bool.not_eq_false] at hc
  simp [isTchar_of_isOws hc] at h

theorem skipBws_token {t rest : Bytes} (ht : IsToken t) : skipBws (t ++ rest) = t ++ rest := by
  obtain ⟨hne, hall⟩ := ht
  cases t with
  | nil => exact absurd rfl hne
  | cons c r => exact skipBws_cons _ (isOws_false_of_isTchar (hall c (by simp)))

theorem skipExtValue_iff {s r : Bytes} (hr : StopsAt isTchar r) :
    skipExtValue s = .ok r ↔ ∃ v, s = v ++ r ∧ (IsToken v ∨ IsQuotedString v) := by
  unfold skipExtValue
  constructor
  · intro h
    split at h
    · rename_i hq
      obtain ⟨t, ht, hb⟩ := skipQuoted_sound h
      cases s with
      | nil => simp at hq
      | cons b rest =>
          have : b = 0x22 := by simpa using hq
          subst this
          refine ⟨0x22 :: (t ++ [0x22]), ?_, Or.inr ⟨t, hb, rfl⟩⟩
          simpa using ht
    · obtain ⟨t, ht, htok, _⟩ := skipToken_iff.mp h
      exact ⟨t, ht, Or.inl htok⟩
  · rintro ⟨v, rfl, htok | ⟨t, hb, rfl⟩⟩
    · have hhead : (v ++ r).head? ≠ some 0x22 := by
        obtain ⟨hne, hall⟩ := htok
        cases v with
        | nil => exact absurd rfl hne
        | cons c rest =>
            intro hc
            have : c = 0x22 := by simpa using hc
            have hc' := hall c (by simp)
            rw [this] at hc'
            revert hc'; decide
      rw [if_neg hhead]
      exact skipToken_iff.mpr ⟨v, rfl, htok, hr⟩
    · rw [if_pos (by simp)]
      simpa using skipQuoted_complete hb r

/-- The scan of one extension, behind its `;`. -/
theorem skipExt_complete {w₂ n rest : Bytes} (h2 : IsBws w₂) (hn : IsToken n)
    (hr : StopsAt isTchar rest) : skipExt (w₂ ++ (n ++ rest)) = skipExtAssign rest := by
  rw [skipExt, skipBws_append h2, skipBws_token hn, skipToken_iff.mpr ⟨n, rfl, hn, hr⟩]
  rfl

theorem skipExtAssign_eq {s t : Bytes} (h : skipBws s = 0x3d :: t) :
    skipExtAssign s = skipExtValue (skipBws t) := by
  simp only [skipExtAssign, h]

theorem skipExtAssign_bare {s : Bytes} (h : ∀ t, skipBws s ≠ 0x3d :: t) :
    skipExtAssign s = .ok s := by
  unfold skipExtAssign
  split
  · rename_i t ht
    exact absurd ht (h t)
  · rfl

theorem extLoop_complete {w : Bytes} (hw : IsBws w) {ext : Bytes} (h : ChunkExt ext) :
    ∀ fuel, (ext ++ w).length < fuel → extLoop fuel (ext ++ w) = .ok () := by
  induction h with
  | nil =>
      intro fuel hf
      cases fuel with
      | zero => omega
      | succ fuel =>
          rw [extLoop]
          simp only [List.nil_append, skipBws_self hw]
  | @name w₁ w₂ n rest h1 h2 hn hrest ih =>
      intro fuel hf
      cases fuel with
      | zero => omega
      | succ fuel =>
          have hstop : StopsAt isTchar (rest ++ w) :=
            hrest.stopsAt hw (fun b => isTchar_of_isOws) (by decide)
          have hassign : skipExtAssign (rest ++ w) = .ok (rest ++ w) := by
            refine skipExtAssign_bare fun t ht => ?_
            rcases hrest.skipBws_append hw with hnil | ⟨tail, htail⟩
            · rw [hnil] at ht; cases ht
            · rw [htail] at ht; cases ht
          rw [extLoop, List.append_assoc, skipBws_append h1, List.cons_append,
            skipBws_cons _ (by decide)]
          simp only [if_true, List.append_assoc]
          rw [skipExt_complete h2 hn hstop, hassign]
          refine ih fuel ?_
          simp only [List.length_append, List.length_cons] at hf ⊢
          omega
  | @assign w₁ w₂ n w₃ w₄ v rest h1 h2 hn h3 h4 hv hrest ih =>
      intro fuel hf
      cases fuel with
      | zero => omega
      | succ fuel =>
          have hstop : StopsAt isTchar (rest ++ w) :=
            hrest.stopsAt hw (fun b => isTchar_of_isOws) (by decide)
          have hval : skipExtValue (v ++ (rest ++ w)) = .ok (rest ++ w) :=
            (skipExtValue_iff hstop).mpr ⟨v, rfl, hv⟩
          have hv4 : skipBws (w₄ ++ (v ++ (rest ++ w))) = v ++ (rest ++ w) := by
            rw [skipBws_append h4]
            rcases hv with htok | ⟨t, _, rfl⟩
            · exact skipBws_token htok
            · exact skipBws_cons _ (by decide)
          have hassign : skipExtAssign (w₃ ++ 0x3d :: (w₄ ++ (v ++ (rest ++ w))))
              = .ok (rest ++ w) := by
            rw [skipExtAssign_eq (t := w₄ ++ (v ++ (rest ++ w))), hv4, hval]
            rw [skipBws_append h3, skipBws_cons _ (by decide)]
          rw [extLoop, List.append_assoc, skipBws_append h1, List.cons_append,
            skipBws_cons _ (by decide)]
          simp only [if_true, List.append_assoc, List.cons_append]
          rw [skipExt_complete h2 hn (stopsAt_assign h3), hassign]
          refine ih fuel ?_
          simp only [List.length_append, List.length_cons] at hf ⊢
          omega

theorem extLoop_sound : ∀ (fuel : Nat) (s : Bytes), extLoop fuel s = .ok () →
    ∃ ext w, s = ext ++ w ∧ ChunkExt ext ∧ IsBws w := by
  intro fuel
  induction fuel with
  | zero => intro s h; cases h
  | succ fuel ih =>
      intro s h
      obtain ⟨w₁, h1, hs⟩ := skipBws_split s
      rw [extLoop] at h
      cases hb : skipBws s with
      | nil =>
          rw [hb] at hs
          exact ⟨[], w₁, by simpa using hs, .nil, h1⟩
      | cons b rest =>
          simp only [hb] at h
          rw [hb] at hs
          split at h
          · rename_i hsemi
            subst hsemi
            obtain ⟨w₂, h2, hrest⟩ := skipBws_split rest
            unfold skipExt at h
            cases ht : skipToken (skipBws rest) with
            | error e => rw [ht] at h; cases h
            | ok r =>
                obtain ⟨n, hn, htok, hstop⟩ := skipToken_iff.mp ht
                rw [ht] at h
                obtain ⟨w₃, h3, hr⟩ := skipBws_split r
                simp only [Except.bind] at h
                by_cases heq : ∃ afterEq, skipBws r = 0x3d :: afterEq
                · obtain ⟨afterEq, heq⟩ := heq
                  rw [skipExtAssign_eq heq] at h
                  obtain ⟨w₄, h4, haft⟩ := skipBws_split afterEq
                  cases hval : skipExtValue (skipBws afterEq) with
                  | error e => rw [hval] at h; cases h
                  | ok r' =>
                      rw [hval] at h
                      obtain ⟨ext, w, rfl, hext, hw⟩ := ih r' h
                      have hstop' : StopsAt isTchar (ext ++ w) :=
                        hext.stopsAt hw (fun b => isTchar_of_isOws) (by decide)
                      obtain ⟨v, hv, hvok⟩ := (skipExtValue_iff hstop').mp hval
                      refine ⟨_, w, ?_, .assign h1 h2 htok h3 h4 hvok hext, hw⟩
                      rw [hs, hrest, hn, hr, heq, haft, hv]
                      simp
                · rw [skipExtAssign_bare fun t ht => heq ⟨t, ht⟩] at h
                  obtain ⟨ext, w, rfl, hext, hw⟩ := ih r h
                  refine ⟨_, w, ?_, .name h1 h2 htok hext, hw⟩
                  rw [hs, hrest, hn]
                  simp
          · cases h

theorem checkChunkExt_iff {s : Bytes} :
    checkChunkExt s = .ok () ↔ ∃ ext w, s = ext ++ w ∧ ChunkExt ext ∧ IsBws w := by
  constructor
  · intro h
    exact extLoop_sound _ s h
  · intro h
    obtain ⟨ext, w, rfl, hext, hw⟩ := h
    exact extLoop_complete hw hext _ (Nat.lt_succ_self _)

/-! ### The loop ends

`checkChunkExt` counts its rounds, the source's loop does not. `ExtRounds` is
that loop without a count: it relates a tail to the result of going round
until a round breaks or fails, and it would relate a tail to nothing if the
rounds went on for ever. -/

/-- One round of the loop of `check_chunk_ext`: `none` is its `break`. -/
def extRound (ext : Bytes) : Except ChunkedError (Option Bytes) :=
  match skipBws ext with
  | [] => .ok none
  | b :: rest => if b = 0x3b then (skipExt rest).map some else .error .badExtension

/-- The loop of `check_chunk_ext`, run to its end. -/
inductive ExtRounds : Bytes → Except ChunkedError Unit → Prop
  | done {ext : Bytes} : extRound ext = .ok none → ExtRounds ext (.ok ())
  | fail {ext : Bytes} {e : ChunkedError} : extRound ext = .error e → ExtRounds ext (.error e)
  | again {ext rest : Bytes} {r : Except ChunkedError Unit} : extRound ext = .ok (some rest) →
      ExtRounds rest r → ExtRounds ext r

theorem skipToken_length {s r : Bytes} (h : skipToken s = .ok r) : r.length < s.length := by
  obtain ⟨t, rfl, ⟨hne, -⟩, -⟩ := skipToken_iff.mp h
  have hpos := List.length_pos_of_ne_nil hne
  rw [List.length_append]
  omega

theorem skipBws_length (s : Bytes) : (skipBws s).length ≤ s.length :=
  (List.dropWhile_sublist _).length_le

theorem skipExtValue_length {v r : Bytes} (h : skipExtValue v = .ok r) : r.length < v.length := by
  unfold skipExtValue at h
  split at h
  · obtain ⟨t, ht, -⟩ := skipQuoted_sound h
    have htail := congrArg List.length ht
    rw [List.length_append, List.length_cons, List.length_tail] at htail
    omega
  · exact skipToken_length h

theorem skipExtAssign_length {s r : Bytes} (h : skipExtAssign s = .ok r) :
    r.length ≤ s.length := by
  have hbws := skipBws_length s
  unfold skipExtAssign at h
  split at h
  · rename_i afterEq heq
    have hafter := skipBws_length afterEq
    have hvalue := skipExtValue_length h
    rw [heq, List.length_cons] at hbws
    omega
  · cases h
    exact Nat.le_refl _

/-- A round that goes on has eaten at least the `;` and a name. -/
theorem extRound_length {ext rest : Bytes} (h : extRound ext = .ok (some rest)) :
    rest.length < ext.length := by
  have hbws := skipBws_length ext
  unfold extRound at h
  split at h
  · cases h
  · rename_i b afterSemi hcons
    rw [hcons, List.length_cons] at hbws
    split at h
    · unfold skipExt at h
      cases htoken : skipToken (skipBws afterSemi) with
      | error e => rw [htoken] at h; cases h
      | ok r =>
          rw [htoken, Except.bind] at h
          cases hassign : skipExtAssign r with
          | error e => rw [hassign] at h; cases h
          | ok r' =>
              rw [hassign] at h
              cases h
              have h1 := skipBws_length afterSemi
              have h2 := skipToken_length htoken
              have h3 := skipExtAssign_length hassign
              omega
    · cases h

/-- The counted loop is the loop, when it has a round for every byte. -/
theorem extLoop_rounds : ∀ (fuel : Nat) (ext : Bytes), ext.length < fuel →
    ExtRounds ext (extLoop fuel ext) := by
  intro fuel
  induction fuel with
  | zero => intro ext hlen; omega
  | succ fuel ih =>
      intro ext hlen
      have hturn : extLoop (fuel + 1) ext
          = (extRound ext).bind fun next => next.elim (.ok ()) (extLoop fuel) := by
        rw [extLoop, extRound]
        cases skipBws ext with
        | nil => rfl
        | cons b rest =>
            by_cases hsemi : b = 0x3b
            · simp only [if_pos hsemi]
              cases skipExt rest <;> rfl
            · simp only [if_neg hsemi]
              rfl
      rw [hturn]
      cases hround : extRound ext with
      | error e => exact .fail hround
      | ok next =>
          cases next with
          | none => exact .done hround
          | some rest =>
              have hshort := extRound_length hround
              exact .again hround (ih rest (by omega))

/-! ### No line feed

A size line is cut at the first LF, so the grammar must not have one. -/

theorem IsBws.lf_notMem {w : Bytes} (h : IsBws w) : LF ∉ w := notMem_of_class h (by decide)

theorem IsToken.lf_notMem {t : Bytes} (h : IsToken t) : LF ∉ t := h.notMem (by decide)

theorem QuotedBody.lf_notMem {t : Bytes} (h : QuotedBody t) : LF ∉ t := by
  induction h with
  | nil => simp
  | text hb _ ih =>
      intro hmem
      rcases List.mem_cons.mp hmem with rfl | hmem
      · exact absurd hb (by decide)
      · exact ih hmem
  | pair hb _ ih =>
      intro hmem
      rcases List.mem_cons.mp hmem with hmem | hmem
      · exact absurd hmem (by decide)
      · rcases List.mem_cons.mp hmem with rfl | hmem
        · exact absurd hb (by decide)
        · exact ih hmem

theorem lf_notMem_extValue {v : Bytes} (h : IsToken v ∨ IsQuotedString v) : LF ∉ v := by
  rcases h with h | ⟨t, ht, rfl⟩
  · exact h.lf_notMem
  · have := ht.lf_notMem
    have hq : LF ≠ 0x22 := by decide
    simp [this, hq]

theorem ChunkExt.lf_notMem {ext : Bytes} (h : ChunkExt ext) : LF ∉ ext := by
  have hsemi : LF ≠ 0x3b := by decide
  have heq : LF ≠ 0x3d := by decide
  induction h with
  | nil => simp
  | name h1 h2 hn _ ih => simp [h1.lf_notMem, h2.lf_notMem, hn.lf_notMem, ih, hsemi]
  | assign h1 h2 hn h3 h4 hv _ ih =>
      simp [h1.lf_notMem, h2.lf_notMem, hn.lf_notMem, h3.lf_notMem, h4.lf_notMem,
        lf_notMem_extValue hv, ih, hsemi, heq]

theorem SizeLine.lf_notMem {line : Bytes} {n : Nat} (h : SizeLine line n) : LF ∉ line := by
  obtain ⟨digits, ext, w, rfl, _, hd, hext, hw, _⟩ := h
  have := notMem_of_class hd (b := LF) (by decide)
  simp [this, hext.lf_notMem, hw.lf_notMem]

/-! ## 4. Digits -/

theorem hexValue_isSome {b : UInt8} (h : isAsciiHexdigit b = true) :
    ∃ d, hexValue b = some d ∧ d < 16 := by
  have := forall_byte
    (p := fun b => !isAsciiHexdigit b || (hexValue b).any fun d => decide (d < 16))
    (by decide +kernel) b
  simpa [h, Option.any_eq_true] using this

/-- Only `0` has the value zero. -/
theorem hexValue_pos {b : UInt8} (h : isAsciiHexdigit b = true) (h0 : b ≠ 48) :
    (hexValue b).getD 0 ≠ 0 := by
  have := forall_byte
    (p := fun b => !isAsciiHexdigit b || b == 48 || decide ((hexValue b).getD 0 ≠ 0))
    (by decide +kernel) b
  simpa [h, h0] using this

theorem hexNumber_cons (b : UInt8) (ds : Bytes) :
    hexNumber (b :: ds) = (hexValue b).getD 0 * 16 ^ ds.length + hexNumber ds := by
  simp [hexNumber, Numeral.value_cons]

theorem hexNumber_lt {ds : Bytes} (h : ∀ b ∈ ds, isAsciiHexdigit b = true) :
    hexNumber ds < 16 ^ ds.length := by
  have hdigits : ∀ d ∈ ds.map (fun b => (hexValue b).getD 0), d < 16 := by
    intro d hd
    obtain ⟨b, hb, rfl⟩ := List.mem_map.mp hd
    obtain ⟨v, hv, hlt⟩ := hexValue_isSome (h b hb)
    simpa [hv] using hlt
  simpa [hexNumber] using Numeral.value_lt hdigits

/-- The accumulation loop computes the value, as long as it fits. -/
theorem sizeLoop_eq : ∀ (ds : Bytes) (size : Nat), (∀ b ∈ ds, isAsciiHexdigit b = true) →
    size * 16 ^ ds.length + hexNumber ds < 2 ^ 64 →
    sizeLoop size ds = .ok (size * 16 ^ ds.length + hexNumber ds) := by
  intro ds
  induction ds with
  | nil => intro size _ _; simp [sizeLoop, hexNumber, Numeral.value]
  | cons b ds ih =>
      intro size hall hfit
      obtain ⟨d, hd, _⟩ := hexValue_isSome (hall b (by simp))
      have hsum : size * 16 ^ (b :: ds).length + hexNumber (b :: ds)
          = (size * 16 + d) * 16 ^ ds.length + hexNumber ds := by
        rw [hexNumber_cons, hd, List.length_cons, Nat.pow_succ, Option.getD_some]
        ring
      rw [hsum] at hfit ⊢
      have hpos : 1 ≤ 16 ^ ds.length := Nat.one_le_pow _ _ (by omega)
      have hnow : size * 16 + d < 2 ^ 64 := by
        have := Nat.le_mul_of_pos_right (size * 16 + d) hpos
        omega
      have hmul : checkedMul size 16 = some (size * 16) := if_pos (by omega)
      have hadd : checkedAdd (size * 16) d = some (size * 16 + d) := if_pos hnow
      rw [sizeLoop]
      simp only [hd, hmul, Option.bind_some, hadd]
      exact ih _ (fun x hx => hall x (by simp [hx])) hfit

/-- Leading zeros, which `parse_chunk_size` drops before it counts digits,
do not change the value. -/
theorem hexNumber_dropWhile : ∀ (ds : Bytes),
    hexNumber (ds.dropWhile (· == 48)) = hexNumber ds := by
  intro ds
  induction ds with
  | nil => rfl
  | cons b ds ih =>
      by_cases hb : b = 48
      · subst hb
        have hz : (hexValue 48).getD 0 = 0 := by decide
        rw [List.dropWhile_cons_of_pos (by decide), ih, hexNumber_cons, hz]
        omega
      · rw [List.dropWhile_cons_of_neg (by simpa using hb)]

/-- More than sixteen significant digits do not fit a `u64`. -/
theorem le_hexNumber {ds : Bytes} (hall : ∀ b ∈ ds, isAsciiHexdigit b = true)
    (h : (ds.dropWhile (· == 48)).length > maxSizeDigits) : 2 ^ 64 ≤ hexNumber ds := by
  rw [← hexNumber_dropWhile]
  have hsub := List.dropWhile_subset (p := (· == (48 : UInt8))) (l := ds)
  have hstop := stopsAt_dropWhile (· == (48 : UInt8)) ds
  cases hs : ds.dropWhile (· == 48) with
  | nil => rw [hs] at h; simp at h
  | cons b rest =>
      rw [hs] at h hsub hstop
      have hb0 : b ≠ 48 := by simpa using hstop b (by simp)
      have hb : isAsciiHexdigit b = true := hall b (hsub (by simp))
      have hlen : 16 ≤ rest.length := by
        simp only [List.length_cons, maxSizeDigits] at h
        omega
      calc 2 ^ 64 = 16 ^ 16 := by norm_num
        _ ≤ 16 ^ rest.length := Nat.pow_le_pow_right (by omega) hlen
        _ ≤ hexNumber (b :: rest) := by
            rw [hexNumber, List.map_cons, ← List.length_map (fun b => (hexValue b).getD 0)]
            exact Numeral.le_value_cons _ (hexValue_pos hb hb0)

/-! ## 5. The agreement -/

/-- The digits of a line that has passed the checks on its tail. -/
theorem parseChunkSize_seam {digits tail : Bytes} (hne : digits ≠ [])
    (hall : ∀ b ∈ digits, isAsciiHexdigit b = true) (hstop : StopsAt isAsciiHexdigit tail)
    (hstart : startsExt tail = true) (htail : checkChunkExt tail = .ok ()) :
    parseChunkSize (digits ++ tail) =
      if hexNumber digits < 2 ^ 64 then .ok (hexNumber digits) else .error .sizeOverflow := by
  have htail' : (if tail = [] then Except.ok () else checkChunkExt tail) = .ok () := by
    rw [htail, ite_self]
  have hcond : ¬ (digits = [] ∨ startsExt tail = false) := by simp [hne, hstart]
  simp only [parseChunkSize, takeWhile_seam hall hstop, dropWhile_seam hall hstop, htail',
    if_neg hcond]
  by_cases hlen : (digits.dropWhile (· == 48)).length > maxSizeDigits
  · have := le_hexNumber hall hlen
    rw [if_pos hlen, if_neg (by omega)]
  · have hall' : ∀ b ∈ digits.dropWhile (· == 48), isAsciiHexdigit b = true :=
      fun b hb => hall b (List.dropWhile_subset _ hb)
    have hfit : hexNumber digits < 2 ^ 64 := by
      rw [← hexNumber_dropWhile]
      calc hexNumber (digits.dropWhile (· == 48))
          < 16 ^ (digits.dropWhile (· == 48)).length := hexNumber_lt hall'
        _ ≤ 16 ^ 16 := Nat.pow_le_pow_right (by omega) (by simpa [maxSizeDigits] using hlen)
        _ = 2 ^ 64 := by norm_num
    rw [if_neg hlen, if_pos hfit, sizeLoop_eq _ 0 hall' (by rw [hexNumber_dropWhile]; omega),
      hexNumber_dropWhile]
    simp

theorem ChunkExt.startsExt {ext w : Bytes} (h : ChunkExt ext) (hw : IsBws w) :
    startsExt (ext ++ w) = true := by
  have hstop := h.stopsAt hw (p := fun b => !(b == 0x3b || isOws b))
    (fun b hb => by simp [hb]) (by decide)
  unfold ArmatureH1.startsExt
  cases hh : (ext ++ w).head? with
  | none => rfl
  | some b =>
      have := hstop b (by rw [hh]; rfl)
      simpa only [Bool.not_eq_false'] using this

/-- **The lines `parse_chunk_size` accepts are the grammar's, at the
grammar's value.** -/
theorem parseChunkSize_iff {line : Bytes} {n : Nat} :
    parseChunkSize line = .ok n ↔ SizeLine line n := by
  constructor
  · intro h
    have hall : ∀ b ∈ line.takeWhile isAsciiHexdigit, isAsciiHexdigit b = true :=
      fun b hb => List.mem_takeWhile_imp hb
    have hsplit : line = line.takeWhile isAsciiHexdigit ++ line.dropWhile isAsciiHexdigit :=
      List.takeWhile_append_dropWhile.symm
    have hstop := stopsAt_dropWhile isAsciiHexdigit line
    have hne : line.takeWhile isAsciiHexdigit ≠ [] := by
      intro hnil
      simp [parseChunkSize, hnil] at h
    have hstart : startsExt (line.dropWhile isAsciiHexdigit) = true := by
      cases hc : startsExt (line.dropWhile isAsciiHexdigit) with
      | true => rfl
      | false =>
          simp only [parseChunkSize, hc, or_true, if_true] at h
          cases h
    have hext : checkChunkExt (line.dropWhile isAsciiHexdigit) = .ok () := by
      by_cases hnil : line.dropWhile isAsciiHexdigit = []
      · rw [hnil]; rfl
      · cases hc : checkChunkExt (line.dropWhile isAsciiHexdigit) with
        | ok u => rfl
        | error e => simp [parseChunkSize, hne, hstart, hnil, hc] at h
    obtain ⟨ext, w, htail, hE, hW⟩ := checkChunkExt_iff.mp hext
    rw [hsplit, parseChunkSize_seam hne hall hstop hstart hext] at h
    split at h
    · rename_i hfit
      cases h
      refine ⟨_, ext, w, ?_, hne, hall, hE, hW, rfl, hfit⟩
      rw [← htail]
      exact hsplit
    · cases h
  · intro h
    obtain ⟨digits, ext, w, rfl, hne, hall, hE, hW, rfl, hfit⟩ := h
    have hstop : StopsAt isAsciiHexdigit (ext ++ w) :=
      hE.stopsAt hW (fun b => isHexdigit_of_isOws) (by decide)
    rw [parseChunkSize_seam hne hall hstop (hE.startsExt hW)
      (checkChunkExt_iff.mpr ⟨ext, w, rfl, hE, hW⟩), if_pos hfit]

/-- **Chunk-size lines are parsed exactly.** The lines that are accepted are
the grammar's, at their value; a line of the grammar whose value does not fit
a `u64` is refused for that, so no sum wraps; and the loop over the extensions
comes to an end on every tail. -/
theorem chunk_size_lines_exact (line : Bytes) :
    (∀ n, parseChunkSize line = .ok n ↔ SizeLine line n) ∧
      (∀ digits ext w, line = digits ++ (ext ++ w) → digits ≠ [] →
        (∀ b ∈ digits, isAsciiHexdigit b = true) → ChunkExt ext → IsBws w →
        2 ^ 64 ≤ hexNumber digits → parseChunkSize line = .error .sizeOverflow) ∧
      ∀ ext, ExtRounds ext (checkChunkExt ext) := by
  refine ⟨fun n => parseChunkSize_iff, ?_, fun ext => extLoop_rounds _ ext (Nat.lt_succ_self _)⟩
  intro digits ext w hline hne hall hext hw hbig
  have hstop : StopsAt isAsciiHexdigit (ext ++ w) :=
    hext.stopsAt hw (fun b => isHexdigit_of_isOws) (by decide)
  rw [hline, parseChunkSize_seam hne hall hstop (hext.startsExt hw)
    (checkChunkExt_iff.mpr ⟨ext, w, rfl, hext, hw⟩), if_neg (by omega)]

/-- A line has one value. -/
theorem SizeLine.functional {line : Bytes} {n m : Nat} (hn : SizeLine line n)
    (hm : SizeLine line m) : n = m := by
  have h := parseChunkSize_iff.mpr hn
  rw [parseChunkSize_iff.mpr hm] at h
  cases h
  rfl

end ArmatureH1
