/-
ArmatureH1.Lib.Lines — byte strings made of CRLF-terminated lines.

`splitCrlf` cuts a string at every CRLF. `memmem_line` finds the first empty
line: a search for CRLFCRLF that starts at the front of a line without a CR
either ends right behind it or goes on at the next line. Everything about
whole lists of lines is an induction over these two.
-/
import ArmatureH1.Lib.Bytes

namespace ByteString

/-- The pieces between the CRLFs. -/
def splitCrlf : Bytes → List Bytes
  | [] => [[]]
  | [b] => [[b]]
  | b :: c :: rest =>
    if b = CR ∧ c = LF then [] :: splitCrlf rest
    else (splitCrlf (c :: rest)).modifyHead (b :: ·)

/-- There is a piece, if an empty one. -/
theorem splitCrlf_ne_nil (bytes : Bytes) : splitCrlf bytes ≠ [] := by
  induction bytes using splitCrlf.induct with
  | case1 => simp [splitCrlf]
  | case2 b => simp [splitCrlf]
  | case3 b c rest hcrlf _ =>
      rw [splitCrlf, if_pos hcrlf]
      simp
  | case4 b c rest hcrlf ih =>
      rw [splitCrlf, if_neg hcrlf]
      intro hnil
      exact ih (by simpa using hnil)

/-- A piece that continues with the first byte in front. -/
theorem splitCrlf_cons {b c : UInt8} {rest : Bytes} (h : ¬ (b = CR ∧ c = LF)) :
    ∃ first pieces, splitCrlf (c :: rest) = first :: pieces ∧
      splitCrlf (b :: c :: rest) = (b :: first) :: pieces := by
  obtain ⟨first, pieces, hsplit⟩ := List.exists_cons_of_ne_nil (splitCrlf_ne_nil (c :: rest))
  refine ⟨first, pieces, hsplit, ?_⟩
  rw [splitCrlf, if_neg h, hsplit]
  rfl

/-- Lines, each with its CRLF. -/
def joinLines (lines : List Bytes) : Bytes := lines.flatMap (· ++ crlf)

theorem joinLines_cons (line : Bytes) (lines : List Bytes) :
    joinLines (line :: lines) = line ++ crlf ++ joinLines lines := List.flatMap_cons

/-- A line comes off the front. -/
theorem splitCrlf_line {line : Bytes} (h : CR ∉ line) (rest : Bytes) :
    splitCrlf (line ++ crlf ++ rest) = line :: splitCrlf rest := by
  induction line with
  | nil =>
      show (if CR = CR ∧ LF = LF then [] :: splitCrlf rest else _) = _
      rw [if_pos ⟨rfl, rfl⟩]
  | cons b line ih =>
      have hb : b ≠ CR := fun heq => h (by simp [heq])
      have hline := ih fun hmem => h (List.mem_cons_of_mem _ hmem)
      cases line with
      | nil =>
          show (if b = CR ∧ CR = LF then [] :: splitCrlf (LF :: rest)
            else (splitCrlf ([] ++ crlf ++ rest)).modifyHead (b :: ·)) = _
          rw [if_neg (fun heq => hb heq.1), hline]
          rfl
      | cons c line =>
          show (if b = CR ∧ c = LF then [] :: splitCrlf (line ++ crlf ++ rest)
            else (splitCrlf ((c :: line) ++ crlf ++ rest)).modifyHead (b :: ·)) = _
          rw [if_neg (fun heq => hb heq.1), hline]
          rfl

theorem splitCrlf_joinLines {lines : List Bytes} (h : ∀ line ∈ lines, CR ∉ line) (rest : Bytes) :
    splitCrlf (joinLines lines ++ rest) = lines ++ splitCrlf rest := by
  induction lines with
  | nil => rfl
  | cons line lines ih =>
      rw [joinLines_cons, List.append_assoc, splitCrlf_line (h line (by simp)),
        ih fun l hl => h l (by simp [hl])]
      rfl

/-- The search for an empty line goes from line to line. -/
theorem memmem_line {line : Bytes} (h : CR ∉ line) (rest : Bytes) :
    memmem (crlf ++ crlf) (line ++ crlf ++ rest)
      = if crlf.isPrefixOf rest then some line.length
        else (memmem (crlf ++ crlf) rest).map (· + (line.length + 2)) := by
  induction line with
  | nil =>
      by_cases hrest : crlf.isPrefixOf rest = true
      · rw [if_pos hrest]
        show (if (crlf ++ crlf).isPrefixOf (crlf ++ rest) then some 0 else _) = _
        rw [if_pos]
        · rfl
        · rw [List.isPrefixOf_iff_prefix] at hrest ⊢
          exact (List.prefix_append_right_inj crlf).mpr hrest
      · rw [if_neg hrest]
        show (if (crlf ++ crlf).isPrefixOf (crlf ++ rest) then some 0
          else (memmem (crlf ++ crlf) (LF :: rest)).map (· + 1)) = _
        rw [if_neg]
        · show ((if (crlf ++ crlf).isPrefixOf (LF :: rest) then some 0
            else (memmem (crlf ++ crlf) rest).map (· + 1)).map (· + 1)) = _
          have hlf : (crlf ++ crlf).isPrefixOf (LF :: rest) = false := rfl
          rw [hlf]
          simp only [Bool.false_eq_true, if_false, Option.map_map]
          rfl
        · rw [List.isPrefixOf_iff_prefix, List.prefix_append_right_inj,
            ← List.isPrefixOf_iff_prefix]
          exact hrest
  | cons b line ih =>
      have hb : (crlf ++ crlf).isPrefixOf (b :: line ++ crlf ++ rest) = false := by
        have hne : (CR == b) = false := by
          rw [beq_eq_false_iff_ne]
          exact fun heq => h (by simp [heq])
        show (CR == b && _) = false
        rw [hne, Bool.false_and]
      show (if (crlf ++ crlf).isPrefixOf (b :: line ++ crlf ++ rest) then some 0
        else (memmem (crlf ++ crlf) (line ++ crlf ++ rest)).map (· + 1)) = _
      rw [hb, ih fun hmem => h (List.mem_cons_of_mem _ hmem)]
      simp only [Bool.false_eq_true, if_false]
      split
      · rfl
      · rw [Option.map_map]
        rfl

/-- A line that is not empty does not begin with a CRLF. -/
theorem not_isPrefixOf_line {line : Bytes} (hne : line ≠ []) (h : CR ∉ line) (rest : Bytes) :
    crlf.isPrefixOf (line ++ rest) = false := by
  obtain ⟨b, line, rfl⟩ := List.exists_cons_of_ne_nil hne
  have hb : (CR == b) = false := by
    rw [beq_eq_false_iff_ne]
    exact fun heq => h (by simp [heq])
  show (CR == b && _) = false
  rw [hb, Bool.false_and]

/-- **The first empty line is the last line**, when no other is empty. -/
theorem memmem_joinLines {first : Bytes} {lines : List Bytes} (hfirst : CR ∉ first)
    (h : ∀ line ∈ lines, line ≠ [] ∧ CR ∉ line) :
    memmem (crlf ++ crlf) (joinLines (first :: lines) ++ crlf)
      = some ((joinLines (first :: lines) ++ crlf).length - 4) := by
  induction lines generalizing first with
  | nil =>
      have hone : joinLines [first] ++ crlf = first ++ crlf ++ crlf := by
        rw [joinLines_cons]
        simp [joinLines]
      rw [hone, memmem_line hfirst, if_pos (by decide)]
      congr 1
      simp only [List.length_append, length_crlf]
      omega
  | cons line lines ih =>
      obtain ⟨hne, hcr⟩ := h line (by simp)
      rw [joinLines_cons first, List.append_assoc, memmem_line hfirst, ih hcr fun l hl =>
        h l (by simp [hl])]
      have hnot : crlf.isPrefixOf (joinLines (line :: lines) ++ crlf) = false := by
        rw [joinLines_cons, List.append_assoc, List.append_assoc]
        exact not_isPrefixOf_line hne hcr _
      rw [hnot]
      simp only [Bool.false_eq_true, if_false, Option.map_some, Option.some.injEq,
        List.length_append, length_crlf, joinLines_cons]
      omega

end ByteString
