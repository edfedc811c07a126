/-
ArmatureH1.Lib.Bytes — byte strings as lists, and the handful of slice
operations a wire-format parser is written with.

Nothing here knows about HTTP. The classifiers follow the ASCII tables of
the Rust standard library (`u8::is_ascii_digit` and friends), `memchr` and
`memmem` are the plain searches their vectorised namesakes implement, and
`isUtf8` is the well-formedness table of the Unicode standard. Every
operation is a structural recursion on the list, so a concrete input can be
decided by evaluation.

The lemmas are of two kinds: what a search result says about the bytes
around it (`memchr_eq_some`, `memmem_eq_some`), and what survives when more
bytes arrive behind the ones already searched (`memchr_append_cons`,
`memmem_append_of_some`, `memmem_resume`). The second kind is what every
statement about segmented input reduces to.
-/
import Mathlib.Data.List.Basic
import Mathlib.Data.List.TakeWhile

namespace ByteString

/-- A byte string. -/
abbrev Bytes := List UInt8

/-! ## Bytes with a name -/

def CR : UInt8 := 13
def LF : UInt8 := 10
def SP : UInt8 := 32
def HTAB : UInt8 := 9

def crlf : Bytes := [CR, LF]

@[simp] theorem LF_ne_CR : LF ≠ CR := by decide

@[simp] theorem length_crlf : crlf.length = 2 := rfl

@[simp] theorem LF_mem_crlf : LF ∈ crlf := by decide

@[simp] theorem crlf_ne_nil : crlf ≠ [] := by decide

@[simp] theorem drop_two_crlf (s : Bytes) : (crlf ++ s).drop 2 = s := rfl

/-- The bytes of an ASCII literal. -/
def ascii (s : String) : Bytes := s.toList.map fun c => c.toNat.toUInt8

/-! ## ASCII classes -/

def isAsciiDigit (b : UInt8) : Bool := 48 ≤ b && b ≤ 57

def isAsciiUppercase (b : UInt8) : Bool := 65 ≤ b && b ≤ 90

def isAsciiLowercase (b : UInt8) : Bool := 97 ≤ b && b ≤ 122

def isAsciiAlphabetic (b : UInt8) : Bool := isAsciiUppercase b || isAsciiLowercase b

def isAsciiAlphanumeric (b : UInt8) : Bool := isAsciiAlphabetic b || isAsciiDigit b

def isAsciiHexdigit (b : UInt8) : Bool :=
  isAsciiDigit b || (65 ≤ b && b ≤ 70) || (97 ≤ b && b ≤ 102)

/-- SP, HTAB, LF, FF and CR, as `u8::is_ascii_whitespace` has it. -/
def isAsciiWhitespace (b : UInt8) : Bool :=
  b == 32 || b == 9 || b == 10 || b == 12 || b == 13

def isAscii (s : Bytes) : Bool := s.all fun b => b < 128

/-- A byte outside the class of a string does not occur in it. -/
theorem notMem_of_class {p : UInt8 → Bool} {s : Bytes} (h : ∀ b ∈ s, p b = true) {b : UInt8}
    (hb : p b = false) : b ∉ s := by
  intro hmem
  rw [h b hmem] at hb
  cases hb

def toAsciiLowercase (b : UInt8) : UInt8 := if isAsciiUppercase b then b + 32 else b

def lowercase (s : Bytes) : Bytes := s.map toAsciiLowercase

def eqIgnoreAsciiCase (s t : Bytes) : Bool := lowercase s == lowercase t

/-- A predicate decided on every byte value. -/
theorem forall_byte {p : UInt8 → Bool}
    (h : (List.range 256).all (fun n => p n.toUInt8) = true) (b : UInt8) : p b = true := by
  have hb : b.toNat ∈ List.range 256 := List.mem_range.mpr (UInt8.toNat_lt b)
  have := List.all_eq_true.mp h b.toNat hb
  simpa using this

@[simp] theorem length_lowercase (s : Bytes) : (lowercase s).length = s.length := by
  simp [lowercase]

theorem toAsciiLowercase_idem (b : UInt8) :
    toAsciiLowercase (toAsciiLowercase b) = toAsciiLowercase b := by
  have := forall_byte (p := fun b =>
    toAsciiLowercase (toAsciiLowercase b) == toAsciiLowercase b) (by decide +kernel) b
  simpa using this

theorem lowercase_idem (s : Bytes) : lowercase (lowercase s) = lowercase s := by
  simp only [lowercase, List.map_map]
  exact List.map_congr_left fun b _ => toAsciiLowercase_idem b

/-- A string without capitals is its own lowercase form. -/
theorem lowercase_eq_self {s : Bytes} (h : s.any isAsciiUppercase = false) :
    lowercase s = s := by
  rw [lowercase]
  conv => rhs; rw [← List.map_id s]
  refine List.map_congr_left fun b hb => ?_
  have : isAsciiUppercase b = false := by
    have := List.any_eq_false.mp h b hb
    simpa using this
  simp [toAsciiLowercase, this]

theorem eqIgnoreAsciiCase_iff {s t : Bytes} :
    eqIgnoreAsciiCase s t = true ↔ lowercase s = lowercase t := by
  simp [eqIgnoreAsciiCase]

/-! ## UTF-8 -/

def isCont (b : UInt8) : Bool := 128 ≤ b && b ≤ 191

/-- Well-formed UTF-8: no overlong form, no surrogate, nothing above
`U+10FFFF`. -/
def isUtf8 : Bytes → Bool
  | [] => true
  | b0 :: rest =>
    if b0 < 128 then isUtf8 rest
    else if 194 ≤ b0 && b0 ≤ 223 then
      match rest with
      | b1 :: r => isCont b1 && isUtf8 r
      | [] => false
    else if 224 ≤ b0 && b0 ≤ 239 then
      match rest with
      | b1 :: b2 :: r =>
        isCont b1 && (b0 != 224 || 160 ≤ b1) && (b0 != 237 || b1 ≤ 159)
          && isCont b2 && isUtf8 r
      | _ => false
    else if 240 ≤ b0 && b0 ≤ 244 then
      match rest with
      | b1 :: b2 :: b3 :: r =>
        isCont b1 && (b0 != 240 || 144 ≤ b1) && (b0 != 244 || b1 ≤ 143)
          && isCont b2 && isCont b3 && isUtf8 r
      | _ => false
    else false

theorem isUtf8_of_isAscii : ∀ {s : Bytes}, isAscii s = true → isUtf8 s = true
  | [], _ => rfl
  | b :: rest, h => by
      simp only [isAscii, List.all_cons, Bool.and_eq_true, decide_eq_true_eq] at h
      have hrest : isUtf8 rest = true := isUtf8_of_isAscii (by simpa [isAscii] using h.2)
      rw [isUtf8.eq_def]
      simp [h.1, hrest]

theorem toAsciiLowercase_of_le {b : UInt8} (h : 128 ≤ b) : toAsciiLowercase b = b := by
  have := forall_byte (p := fun b => !(128 ≤ b) || toAsciiLowercase b == b) (by decide +kernel) b
  simpa [h] using this

theorem toAsciiLowercase_lt {b : UInt8} (h : b < 128) : toAsciiLowercase b < 128 := by
  have := forall_byte (p := fun b => !(b < 128) || toAsciiLowercase b < 128)
    (by decide +kernel) b
  simpa [h] using this

theorem isCont_le {b : UInt8} (h : isCont b = true) : 128 ≤ b := by
  simp only [isCont, Bool.and_eq_true, decide_eq_true_eq] at h
  exact h.1

/-- Lowering the ASCII letters of a UTF-8 string leaves it UTF-8. -/
theorem isUtf8_lowercase {s : Bytes} : isUtf8 s = true → isUtf8 (lowercase s) = true := by
  fun_induction isUtf8 s with
  | case1 => intro _; rfl
  | case2 b rest hb ih =>
      intro h
      rw [lowercase, List.map_cons, isUtf8.eq_def]
      simp only [toAsciiLowercase_lt hb, if_true]
      exact ih h
  | case3 b0 hlt hb0 b1 r ih =>
      intro h
      rw [Bool.and_eq_true] at h
      have h0 := toAsciiLowercase_of_le (UInt8.not_lt.mp hlt)
      have h1 := toAsciiLowercase_of_le (isCont_le h.1)
      rw [lowercase, List.map_cons, List.map_cons, h0, h1, isUtf8.eq_def]
      simp only [hlt, hb0, h.1, if_true, if_false, Bool.true_and]
      exact ih h.2
  | case5 b0 hlt hb0 hb0' b1 b2 r ih =>
      intro h
      simp only [Bool.and_eq_true] at h
      obtain ⟨⟨⟨⟨hc1, hc2⟩, hc3⟩, hc4⟩, hr⟩ := h
      have h0 := toAsciiLowercase_of_le (UInt8.not_lt.mp hlt)
      have h1 := toAsciiLowercase_of_le (isCont_le hc1)
      have h2 := toAsciiLowercase_of_le (isCont_le hc4)
      rw [lowercase, List.map_cons, List.map_cons, List.map_cons, h0, h1, h2, isUtf8.eq_def]
      simp only [hlt, hb0, hb0', if_true, if_false, hc1, hc2, hc3, hc4, Bool.true_and]
      exact ih hr
  | case7 b0 hlt hb0 hb0' hb0'' b1 b2 b3 r ih =>
      intro h
      simp only [Bool.and_eq_true] at h
      obtain ⟨⟨⟨⟨⟨hc1, hc2⟩, hc3⟩, hc4⟩, hc5⟩, hr⟩ := h
      have h0 := toAsciiLowercase_of_le (UInt8.not_lt.mp hlt)
      have h1 := toAsciiLowercase_of_le (isCont_le hc1)
      have h2 := toAsciiLowercase_of_le (isCont_le hc4)
      have h3 := toAsciiLowercase_of_le (isCont_le hc5)
      rw [lowercase, List.map_cons, List.map_cons, List.map_cons, List.map_cons, h0, h1, h2, h3,
        isUtf8.eq_def]
      simp only [hlt, hb0, hb0', hb0'', if_true, if_false, hc1, hc2, hc3, hc4, hc5, Bool.true_and]
      exact ih hr
  | case4 => intro h; simp at h
  | case6 => intro h; simp at h
  | case8 => intro h; simp at h
  | case9 => intro h; simp at h

/-- A UTF-8 string does not begin inside a character. -/
theorem isCont_head_of_isUtf8 {b : UInt8} {s : Bytes} (h : isUtf8 (b :: s) = true) :
    isCont b = false := by
  have hclass := forall_byte (p := fun b => !isCont b || !(b < 128) && !(194 ≤ b))
    (by decide +kernel) b
  cases hb : isCont b with
  | false => rfl
  | true =>
      simp only [hb, Bool.not_true, Bool.false_or, Bool.and_eq_true, Bool.not_eq_true',
        decide_eq_false_iff_not] at hclass
      have h224 : ¬ 224 ≤ b := fun h =>
        hclass.2 (UInt8.le_trans (by decide : (194 : UInt8) ≤ 224) h)
      have h240 : ¬ 240 ≤ b := fun h =>
        hclass.2 (UInt8.le_trans (by decide : (194 : UInt8) ≤ 240) h)
      rw [isUtf8.eq_def] at h
      simp [hclass.1, hclass.2, h224, h240] at h

theorem isCont_of_ascii {b : UInt8} (hb : b < 128) : isCont b = false := by
  have hall := forall_byte (p := fun b => !(b < 128) || !isCont b) (by decide +kernel) b
  simpa [hb] using hall

/-- What follows an ASCII byte of a UTF-8 string is UTF-8: no character
reaches over it. -/
theorem isUtf8_after_ascii {b : UInt8} (hb : b < 128) (s t : Bytes)
    (h : isUtf8 (s ++ b :: t) = true) : isUtf8 t = true := by
  have hnot := isCont_of_ascii hb
  induction hn : s.length using Nat.strong_induction_on generalizing s with
  | _ n ih =>
      cases s with
      | nil =>
          rw [List.nil_append, isUtf8.eq_def] at h
          simpa [hb] using h
      | cons x s =>
          have hshorter : ∀ s', s'.length < n → isUtf8 (s' ++ b :: t) = true → isUtf8 t = true :=
            fun s' hlen hs' => ih _ hlen s' hs' rfl
          rw [List.length_cons] at hn
          rw [List.cons_append, isUtf8.eq_def] at h
          simp only at h
          split at h
          · exact hshorter s (by omega) h
          · split at h
            · cases s with
              | nil => simp [hnot] at h
              | cons y s =>
                  simp only [List.cons_append, Bool.and_eq_true] at h
                  exact hshorter s (by simp only [List.length_cons] at hn; omega) h.2
            · split at h
              · match s, h with
                | [], h => cases t <;> simp [hnot] at h
                | [y], h => simp [hnot] at h
                | y :: z :: s, h =>
                    simp only [List.cons_append, Bool.and_eq_true] at h
                    exact hshorter s (by simp only [List.length_cons] at hn; omega) h.2
              · split at h
                · match s, h with
                  | [], h => match t, h with
                    | [], h => simp at h
                    | [_], h => simp at h
                    | _ :: _ :: _, h => simp [hnot] at h
                  | [y], h => cases t <;> simp [hnot] at h
                  | [y, z], h => simp [hnot] at h
                  | y :: z :: w :: s, h =>
                      simp only [List.cons_append, Bool.and_eq_true] at h
                      exact hshorter s (by simp only [List.length_cons] at hn; omega) h.2
                · cases h

/-- `str::is_char_boundary`. -/
def isCharBoundary (s : Bytes) (i : Nat) : Bool :=
  i == 0 || i == s.length || s[i]?.any fun b => !isCont b

theorem isCharBoundary_zero (s : Bytes) : isCharBoundary s 0 = true := rfl

theorem isCharBoundary_length (s : Bytes) : isCharBoundary s s.length = true := by
  simp [isCharBoundary]

/-- An ASCII byte is a character of its own. -/
theorem isCharBoundary_ascii {b : UInt8} (hb : b < 128) (s t : Bytes) :
    isCharBoundary (s ++ b :: t) s.length = true := by
  simp [isCharBoundary, isCont_of_ascii hb]

/-- Behind an ASCII byte of a UTF-8 string the next character begins. -/
theorem isCharBoundary_after_ascii {b : UInt8} (hb : b < 128) (s t : Bytes)
    (h : isUtf8 (s ++ b :: t) = true) : isCharBoundary (s ++ b :: t) (s.length + 1) = true := by
  cases t with
  | nil => simp [isCharBoundary]
  | cons c t =>
      have hnext := isCont_head_of_isUtf8 (isUtf8_after_ascii hb s (c :: t) h)
      simp [isCharBoundary, hnext]

/-- `&s[start..stop]` of a `str`; `none` is the panic on a range that is not in
the string or cuts a character. -/
def sliceStr (s : Bytes) (start stop : Nat) : Option Bytes :=
  if start ≤ stop ∧ isCharBoundary s start = true ∧ isCharBoundary s stop = true then
    some ((s.take stop).drop start)
  else none

theorem sliceStr_mid {s pre mid post : Bytes} (hs : s = pre ++ mid ++ post)
    (hstart : isCharBoundary s pre.length = true)
    (hstop : isCharBoundary s (pre ++ mid).length = true) :
    sliceStr s pre.length (pre ++ mid).length = some mid := by
  have hle : pre.length ≤ (pre ++ mid).length := by
    rw [List.length_append]
    omega
  rw [sliceStr, if_pos ⟨hle, hstart, hstop⟩, hs, List.take_left, List.drop_left]

/-! ## Searching -/

/-- The index of the first `c`. -/
def memchr (c : UInt8) : Bytes → Option Nat
  | [] => none
  | b :: rest => if b = c then some 0 else (memchr c rest).map (· + 1)

theorem memchr_eq_none {c : UInt8} : ∀ {s : Bytes}, memchr c s = none ↔ c ∉ s
  | [] => by simp [memchr]
  | b :: rest => by
      by_cases hb : b = c
      · simp [memchr, hb]
      · have hcb : c ≠ b := fun h => hb h.symm
        simp [memchr, hb, hcb, memchr_eq_none (c := c) (s := rest)]

/-- A hit splits the string at the first occurrence. -/
theorem memchr_eq_some {c : UInt8} : ∀ {s : Bytes} {i : Nat},
    memchr c s = some i ↔ ∃ pre post, s = pre ++ c :: post ∧ c ∉ pre ∧ pre.length = i
  | [], i => by simp [memchr]
  | b :: rest, i => by
      by_cases hb : b = c
      · subst hb
        simp only [memchr, if_true, Option.some.injEq]
        constructor
        · rintro rfl
          exact ⟨[], rest, rfl, by simp, rfl⟩
        · rintro ⟨pre, post, hs, hpre, hlen⟩
          cases pre with
          | nil => simpa using hlen
          | cons x xs =>
              simp only [List.cons_append, List.cons.injEq] at hs
              exact absurd (by simp [hs.1]) hpre
      · have hcb : c ≠ b := fun h => hb h.symm
        simp only [memchr, hb, if_false, Option.map_eq_some_iff]
        constructor
        · rintro ⟨j, hj, rfl⟩
          obtain ⟨pre, post, rfl, hpre, rfl⟩ := memchr_eq_some.mp hj
          exact ⟨b :: pre, post, rfl, by simp [hpre, hcb], by simp⟩
        · rintro ⟨pre, post, hs, hpre, hlen⟩
          cases pre with
          | nil =>
              simp only [List.nil_append, List.cons.injEq] at hs
              exact absurd hs.1 hb
          | cons x xs =>
              simp only [List.cons_append, List.cons.injEq] at hs
              refine ⟨xs.length, memchr_eq_some.mpr ⟨xs, post, hs.2, ?_, rfl⟩, by simpa using hlen⟩
              exact fun h => hpre (by simp [h])

/-- The first `c` of a string that is cut right before one. -/
theorem memchr_append_cons {c : UInt8} {pre : Bytes} (post : Bytes) (h : c ∉ pre) :
    memchr c (pre ++ c :: post) = some pre.length :=
  memchr_eq_some.mpr ⟨pre, post, rfl, h, rfl⟩

/-- The index of the first occurrence of `needle`. -/
def memmem (needle : Bytes) : Bytes → Option Nat
  | [] => if needle = [] then some 0 else none
  | b :: rest =>
    if needle.isPrefixOf (b :: rest) then some 0 else (memmem needle rest).map (· + 1)

/-- `needle` occurs in `s` at offset `i`. -/
def OccursAt (needle s : Bytes) (i : Nat) : Prop := needle <+: s.drop i

theorem OccursAt.le {needle s : Bytes} {i : Nat} (h : OccursAt needle s i) (hne : needle ≠ []) :
    i + needle.length ≤ s.length := by
  have hle := h.length_le
  have hpos := List.length_pos_iff.mpr hne
  rw [List.length_drop] at hle
  omega

/-- An occurrence further down the string, and in the string itself. -/
theorem occursAt_drop {needle s : Bytes} {i j : Nat} :
    OccursAt needle (s.drop j) i ↔ OccursAt needle s (j + i) := by
  unfold OccursAt
  rw [List.drop_drop]

/-- Bytes that arrive behind a string add no occurrence inside it. -/
theorem occursAt_append {needle s t : Bytes} {i : Nat} (h : i + needle.length ≤ s.length) :
    OccursAt needle (s ++ t) i ↔ OccursAt needle s i := by
  unfold OccursAt
  rw [List.drop_append_of_le_length (by omega)]
  constructor
  · intro hp
    exact List.prefix_of_prefix_length_le hp (List.prefix_append _ _) (by simp; omega)
  · intro hp
    exact hp.trans (List.prefix_append _ _)

/-- A hit is the first occurrence. -/
theorem memmem_eq_some {needle : Bytes} (hne : needle ≠ []) : ∀ {s : Bytes} {i : Nat},
    memmem needle s = some i ↔ OccursAt needle s i ∧ ∀ j < i, ¬ OccursAt needle s j
  | [], i => by simp [memmem, OccursAt, hne]
  | b :: rest, i => by
      by_cases hb : needle.isPrefixOf (b :: rest) = true
      · have h0 : OccursAt needle (b :: rest) 0 := List.isPrefixOf_iff_prefix.mp hb
        simp only [memmem, hb, if_true, Option.some.injEq]
        constructor
        · rintro rfl
          exact ⟨h0, fun j hj => absurd hj (Nat.not_lt_zero j)⟩
        · rintro ⟨-, hfirst⟩
          by_contra hi
          exact hfirst 0 (by omega) h0
      · have h0 : ¬ OccursAt needle (b :: rest) 0 := fun h => hb (List.isPrefixOf_iff_prefix.mpr h)
        simp only [memmem, hb, if_false, Option.map_eq_some_iff, Bool.false_eq_true]
        constructor
        · rintro ⟨k, hk, rfl⟩
          obtain ⟨hat, hfirst⟩ := (memmem_eq_some hne).mp hk
          refine ⟨hat, fun j hj => ?_⟩
          cases j with
          | zero => exact h0
          | succ j => exact hfirst j (by omega)
        · rintro ⟨hat, hfirst⟩
          cases i with
          | zero => exact absurd hat h0
          | succ i =>
              exact ⟨i, (memmem_eq_some hne).mpr ⟨hat, fun j hj => hfirst (j + 1) (by omega)⟩, rfl⟩

theorem memmem_eq_none {needle : Bytes} (hne : needle ≠ []) : ∀ {s : Bytes},
    memmem needle s = none ↔ ∀ i, ¬ OccursAt needle s i
  | [] => by simp [memmem, OccursAt, hne]
  | b :: rest => by
      by_cases hb : needle.isPrefixOf (b :: rest) = true
      · have h0 : OccursAt needle (b :: rest) 0 := List.isPrefixOf_iff_prefix.mp hb
        simp only [memmem, hb, if_true]
        exact ⟨fun h => absurd h (by simp), fun h => absurd h0 (h 0)⟩
      · have h0 : ¬ OccursAt needle (b :: rest) 0 := fun h => hb (List.isPrefixOf_iff_prefix.mpr h)
        simp only [memmem, hb, if_false, Option.map_eq_none_iff, Bool.false_eq_true,
          memmem_eq_none hne (s := rest)]
        constructor
        · intro h i
          cases i with
          | zero => exact h0
          | succ i => exact h i
        · intro h i
          exact h (i + 1)

/-- A hit is not moved by bytes that arrive behind it. -/
theorem memmem_append_of_some {needle s : Bytes} (hne : needle ≠ []) {i : Nat} (t : Bytes)
    (h : memmem needle s = some i) : memmem needle (s ++ t) = some i := by
  obtain ⟨hat, hfirst⟩ := (memmem_eq_some hne).mp h
  have hle := hat.le hne
  refine (memmem_eq_some hne).mpr ⟨(occursAt_append hle).mpr hat, fun j hj hocc => ?_⟩
  exact hfirst j hj ((occursAt_append (by omega)).mp hocc)

/-- A search that resumes close enough to the end of what was searched in
vain finds what a search from the front finds. -/
theorem memmem_resume {needle s : Bytes} (hne : needle ≠ []) {k : Nat} (hk : k ≤ s.length)
    (hmiss : memmem needle (s.take k) = none) (start : Nat)
    (hstart : start + needle.length ≤ k + 1) :
    memmem needle s = (memmem needle (s.drop start)).map (start + ·) := by
  -- an occurrence in front of `start` would lie inside the part that was searched
  have hearly : ∀ j < start, ¬ OccursAt needle s j := by
    intro j hj hocc
    refine (memmem_eq_none hne).mp hmiss j ?_
    rw [← List.take_append_drop k s] at hocc
    refine (occursAt_append ?_).mp hocc
    rw [List.length_take]
    omega
  cases h : memmem needle (s.drop start) with
  | none =>
      rw [Option.map_none, memmem_eq_none hne]
      intro i hocc
      by_cases hi : i < start
      · exact hearly i hi hocc
      · refine (memmem_eq_none hne).mp h (i - start) (occursAt_drop.mpr ?_)
        rwa [Nat.add_sub_cancel' (by omega)]
  | some i =>
      obtain ⟨hat, hfirst⟩ := (memmem_eq_some hne).mp h
      rw [Option.map_some, memmem_eq_some hne]
      refine ⟨occursAt_drop.mp hat, fun j hj hocc => ?_⟩
      by_cases hlt : j < start
      · exact hearly j hlt hocc
      · refine hfirst (j - start) (by omega) (occursAt_drop.mpr ?_)
        rwa [Nat.add_sub_cancel' (by omega)]

/-! ## Splitting -/

/-- Bytes without a separator that follow a list belong to its last element. -/
theorem splitOn_append_notMem {a : UInt8} {s t : Bytes} (h : a ∉ t) :
    ∃ init last, s.splitOn a = init ++ [last] ∧ (s ++ t).splitOn a = init ++ [last ++ t] := by
  induction s with
  | nil => exact ⟨[], [], rfl, by simp [List.splitOn_eq_singleton h]⟩
  | cons x s ih =>
      obtain ⟨init, last, hs, happend⟩ := ih
      rw [List.cons_append, List.splitOn_cons_eq_if_modifyHead, List.splitOn_cons_eq_if_modifyHead,
        hs, happend]
      by_cases hx : (x == a) = true
      · exact ⟨[] :: init, last, by simp [hx], by simp [hx]⟩
      · cases init with
        | nil => exact ⟨[], x :: last, by simp [hx], by simp [hx]⟩
        | cons e init => exact ⟨(x :: e) :: init, last, by simp [hx], by simp [hx]⟩

/-- Bytes without a separator that precede a list belong to its first element. -/
theorem splitOn_notMem_append {a : UInt8} {s t : Bytes} (h : a ∉ s) :
    ∃ first tail, t.splitOn a = first :: tail ∧ (s ++ t).splitOn a = (s ++ first) :: tail := by
  obtain ⟨first, tail, ht⟩ := List.exists_cons_of_ne_nil (List.splitOn_ne_nil a t)
  refine ⟨first, tail, ht, ?_⟩
  induction s with
  | nil => exact ht
  | cons x s ih =>
      rw [List.mem_cons, not_or] at h
      have hx : (x == a) = false := by simpa using fun he => h.1 he.symm
      rw [List.cons_append, List.splitOn_cons_eq_if_modifyHead, ih h.2, hx]
      rfl

end ByteString
