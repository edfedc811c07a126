/-
ArmatureH1.Numbers — the number writers and the number readers.

`write_u64` and `write_hex` fill a scratch array from the back;
`parse_content_length`, `parse_len` and `parse_chunk_size` read digits from
the front, with checked arithmetic or a digit count. They meet in the value of
the digit string (`decimal`, `hexNumber`): each writer writes a numeral of its
number (`Numeral.render_eq`), and each reader accepts exactly the digit
strings whose value fits a `u64`, so the two decimal readers cannot disagree
(`parseContentLength_eq_parseLen`).
-/
import ArmatureH1.ChunkedRoundTrip
import ArmatureH1.FramingTheorems
import ArmatureH1.WriteTheorems

namespace ArmatureH1

open ByteString

/-! ## 1. Readers -/

/-- `parse_len` reads a decimal number that fits a `u64`. -/
theorem parseLen_iff {v : Bytes} {n : Nat} :
    parseLen v = some n ↔ IsDigits v ∧ decimal v = n ∧ n < 2 ^ 64 := by
  constructor
  · intro h
    obtain ⟨hdigits, hvalue⟩ := parseLen_eq_some h
    refine ⟨hdigits, hvalue, ?_⟩
    unfold parseLen at h
    split at h
    · cases h
    · split at h
      · rename_i hfits
        rw [← hvalue]
        exact hfits
      · cases h
  · rintro ⟨⟨hne, hall⟩, rfl, hfits⟩
    have hdigits : v.all isAsciiDigit = true := List.all_eq_true.mpr hall
    rw [parseLen, if_neg (by simp [hne, hdigits]), if_pos hfits]

/-- The two decimal readers read the same strings as the same numbers. -/
theorem parseContentLength_eq_parseLen (s : Bytes) (n : Nat) :
    parseContentLength s = .ok n ↔ parseLen s = some n := by
  rw [parseContentLength_iff, parseLen_iff]

/-! ## 2. Writers -/

/-- The twenty cells of `write_u64` are enough. -/
theorem fill_writeU64 {n : Nat} (h : n < 2 ^ 64) :
    Numeral.fill 10 (fun d => (48 + d).toUInt8) 20 n [] = some (writeU64 n) := by
  have hn : n < 10 ^ (19 + 1) := by omega
  exact Numeral.fill_eq_some _ 19 n [] hn

/-- So are the sixteen of `write_hex`. -/
theorem fill_writeHex {n : Nat} (h : n < 2 ^ 64) :
    Numeral.fill 16 hexDigit 16 n [] = some (writeHex n) := by
  have hn : n < 16 ^ (15 + 1) := by
    norm_num
    omega
  exact Numeral.fill_eq_some hexDigit 15 n [] hn

/-- **Writers and readers are inverse**, over all of `u64`: both decimal
readers read `write_u64` back and `parse_chunk_size` reads `write_hex` back,
the index of either scratch array stays inside it, no zero leads but that of
zero, and a digit string is read, by both decimal readers alike, exactly when
its value fits. -/
theorem number_writers_readers :
    (∀ v : UInt64,
        parseContentLength (writeU64 v.toNat) = .ok v.toNat ∧
        parseLen (writeU64 v.toNat) = some v.toNat ∧
        parseChunkSize (writeHex v.toNat) = .ok v.toNat ∧
        Numeral.fill 10 (fun d => (48 + d).toUInt8) 20 v.toNat [] = some (writeU64 v.toNat) ∧
        Numeral.fill 16 hexDigit 16 v.toNat [] = some (writeHex v.toNat) ∧
        ((writeU64 v.toNat).head? = some 48 → v = 0) ∧
        ((writeHex v.toNat).head? = some 48 → v = 0)) ∧
      ∀ s : Bytes, IsDigits s →
        ((∃ n, parseContentLength s = .ok n) ↔ decimal s < 2 ^ 64) ∧
        ∀ n, parseContentLength s = .ok n ↔ parseLen s = some n := by
  constructor
  · intro v
    have hv : v.toNat < 2 ^ 64 := v.toNat_lt
    obtain ⟨hdigits, hvalue⟩ := writeU64_spec hv
    obtain ⟨ds, hds, hwrite⟩ := writeU64_eq hv
    obtain ⟨hs, hhs, -, hhex⟩ := writeHex_eq hv
    have hzero : v.toNat = 0 → v = 0 := fun h => UInt64.toNat_inj.mp h
    refine ⟨parseContentLength_iff.mpr ⟨hdigits, hvalue, hv⟩,
      parseLen_iff.mpr ⟨hdigits, hvalue, hv⟩,
      parseChunkSize_iff.mpr (sizeLineFits_writeHex hv).1, fill_writeU64 hv,
        fill_writeHex hv, ?_, ?_⟩
    · intro hhead
      rw [hwrite] at hhead
      exact hzero (hds.eq_zero_of_head? (by decide) hhead)
    · intro hhead
      rw [hhex] at hhead
      exact hzero (hhs.eq_zero_of_head? (by decide) hhead)
  · intro s hs
    refine ⟨?_, parseContentLength_eq_parseLen s⟩
    constructor
    · rintro ⟨n, hn⟩
      obtain ⟨-, rfl, hfits⟩ := parseContentLength_iff.mp hn
      exact hfits
    · intro hfits
      exact ⟨decimal s, parseContentLength_iff.mpr ⟨hs, rfl, hfits⟩⟩

end ArmatureH1
