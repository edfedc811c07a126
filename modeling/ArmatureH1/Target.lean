/-
ArmatureH1.Target — the request target, as `Head` splits it.

`ArmatureH1.Head` reads the authority and the scheme off the target whenever it
is asked. The source finds two offsets once, when a target is set, and slices
at them: the first `?`, and the range of the authority of a target in absolute
form. The two come from separate scans, and a slice at a bad offset panics, so
the offsets are in the model here (`CachedHead`), and a slice is `sliceStr`,
which has no value where the source would panic.

The two scans nest: neither a scheme nor an authority has a `?`, so the query
begins where the authority ends or later (`new_absolute`). For every target
the four accessors then answer with parts of one decomposition of it, and for
a target that the parser accepts the path among them begins with a slash
(`target_splits`).
-/
import ArmatureH1.Authority
import ArmatureH1.Parse

namespace ArmatureH1

open ByteString

/-! ## 1. The head with its offsets -/

/-- `find_query`. -/
def findQuery (target : Bytes) : Option Nat := memchr 0x3f target

/-- `find_absolute_authority`, the range itself. -/
def findAbsoluteAuthorityAt (target : Bytes) : Option (Nat × Nat) :=
  match target.head? with
  | none | some 0x2f | some 0x2a => none
  | some _ =>
    match memmem (ascii "://") target with
    | none => none
    | some i =>
      if validScheme (target.take i) then
        let start := i + 3
        match (target.drop start).findIdx? fun b => b == 0x2f || b == 0x3f || b == 0x23 with
        | none => some (start, target.length)
        | some n => some (start, start + n)
      else none

/-- `Head`, with the fields that cache its split. -/
structure CachedHead where
  method : Method
  target : ByteStr
  version : Version
  headers : HeaderVec
  queryAt : Option Nat
  authorityAt : Option (Nat × Nat)
  deriving DecidableEq

namespace CachedHead

/-- `Head::new`. -/
def new (method : Method) (target : ByteStr) (version : Version) (headers : HeaderVec) :
    CachedHead where
  method := method
  target := target
  version := version
  headers := headers
  queryAt := findQuery target.bytes
  authorityAt := findAbsoluteAuthorityAt target.bytes

/-- `Head::set_target`. -/
def setTarget (h : CachedHead) (target : ByteStr) : CachedHead :=
  { h with
    queryAt := findQuery target.bytes
    authorityAt := findAbsoluteAuthorityAt target.bytes
    target := target }

/-- `Head::path`. The accessors have no value where the source panics. -/
def path (h : CachedHead) : Option Bytes :=
  let t := h.target.bytes
  let stop := h.queryAt.getD t.length
  match h.authorityAt with
  | some (_, pathStart) => if pathStart < stop then sliceStr t pathStart stop else some (ascii "/")
  | none => sliceStr t 0 stop

/-- `Head::authority`. -/
def authority (h : CachedHead) : Option (Option Bytes) :=
  match h.authorityAt with
  | some (start, stop) => (sliceStr h.target.bytes start stop).map some
  | none =>
    if h.method = .connect then some (some h.target.bytes)
    else some ((HeaderVec.get h.headers .host).filter fun v => isUtf8 v && !v.isEmpty)

/-- `Head::absolute_scheme`. -/
def absoluteScheme (h : CachedHead) : Option (Option Bytes) :=
  match h.authorityAt with
  | some (start, _) =>
    if start < 3 then none else (sliceStr h.target.bytes 0 (start - 3)).map some
  | none => some none

/-- `Head::query`. -/
def query (h : CachedHead) : Option (Option Bytes) :=
  match h.queryAt with
  | some i => (sliceStr h.target.bytes (i + 1) h.target.bytes.length).map some
  | none => some none

/-- The head without what it caches. -/
def toHead (h : CachedHead) : Head := ⟨h.method, h.target, h.version, h.headers⟩

end CachedHead

/-! ## 2. The offsets -/

theorem findIdx?_eq_takeWhile (p : UInt8 → Bool) (s : Bytes) :
    (match s.findIdx? p with
      | none => s.length
      | some n => n) = (s.takeWhile fun b => !p b).length := by
  induction s with
  | nil => rfl
  | cons b s ih =>
      rw [List.findIdx?_cons]
      cases hb : p b with
      | true => simp [hb]
      | false =>
          rw [List.takeWhile_cons_of_pos (by simp [hb])]
          cases hfound : s.findIdx? p with
          | none =>
              rw [hfound] at ih
              exact congrArg (· + 1) ih
          | some n =>
              rw [hfound] at ih
              exact congrArg (· + 1) ih

/-- The range is that of the authority that `ArmatureH1.Head` finds. -/
theorem findAbsoluteAuthorityAt_eq (target : Bytes) :
    findAbsoluteAuthorityAt target = (findAbsoluteAuthority target).map fun p =>
      (p.1.length + 3, p.1.length + 3 + p.2.length) := by
  unfold findAbsoluteAuthorityAt findAbsoluteAuthority
  generalize target.head? = first
  split
  · rfl
  · rfl
  · rfl
  · cases hfound : memmem (ascii "://") target with
    | none => simp
    | some i =>
        simp only
        split
        · obtain ⟨⟨rest, hrest⟩, -⟩ := (memmem_eq_some (by decide)).mp hfound
          have hlen : i + 3 ≤ target.length := by
            have := congrArg List.length hrest
            rw [List.length_append, List.length_drop] at this
            have h3 : (ascii "://").length = 3 := by decide
            omega
          have hidx := findIdx?_eq_takeWhile (fun b => b == 0x2f || b == 0x3f || b == 0x23)
            (target.drop (i + 3))
          have htake : (target.take i).length = i := by
            rw [List.length_take]
            omega
          simp only [Option.map_some, htake]
          split at hidx
          · rw [← hidx, List.length_drop, Nat.add_sub_of_le hlen]
          · rw [← hidx]
        · rfl

theorem findAbsoluteAuthorityAt_of_form {target scheme authority : Bytes}
    (h : AbsoluteForm target scheme authority) :
    findAbsoluteAuthorityAt target
      = some (scheme.length + 3, scheme.length + 3 + authority.length) := by
  rw [findAbsoluteAuthorityAt_eq, findAbsoluteAuthority_iff.mpr h]
  rfl

theorem findAbsoluteAuthorityAt_eq_none {target : Bytes} :
    findAbsoluteAuthorityAt target = none ↔
      ∀ scheme authority, ¬ AbsoluteForm target scheme authority := by
  rw [findAbsoluteAuthorityAt_eq, Option.map_eq_none_iff]
  constructor
  · intro h scheme authority hform
    rw [findAbsoluteAuthority_iff.mpr hform] at h
    cases h
  · exact findAbsoluteAuthority_eq_none

/-- What stands before the first `?`. -/
def rawPath (s : Bytes) : Bytes := s.takeWhile (· != 0x3f)

/-- What stands behind it. -/
def rawQuery (s : Bytes) : Option Bytes :=
  match s.dropWhile (· != 0x3f) with
  | [] => none
  | _ :: q => some q

/-- A query with its `?`, or nothing. -/
def writeQuery : Option Bytes → Bytes
  | none => []
  | some q => 0x3f :: q

theorem rawPath_notMem (s : Bytes) : 0x3f ∉ rawPath s := by
  intro h
  have := List.mem_takeWhile_imp h
  simp at this

theorem rawPath_append_rawQuery (s : Bytes) : rawPath s ++ writeQuery (rawQuery s) = s := by
  have hsplit : rawPath s ++ s.dropWhile (· != 0x3f) = s := List.takeWhile_append_dropWhile
  unfold rawQuery
  cases hd : s.dropWhile (· != 0x3f) with
  | nil =>
      rw [hd] at hsplit
      exact hsplit
  | cons b q =>
      have hhead := List.head?_dropWhile_not (· != 0x3f) s
      rw [hd] at hhead hsplit
      obtain rfl : b = 0x3f := by simpa using hhead
      exact hsplit

/-- The scan for `?`, past a part that has none. -/
theorem findQuery_append {front : Bytes} (hfront : 0x3f ∉ front) (s : Bytes) :
    findQuery (front ++ s) = (rawQuery s).map fun _ => (front ++ rawPath s).length := by
  have hs := rawPath_append_rawQuery s
  cases hq : rawQuery s with
  | none =>
      rw [hq] at hs
      have hnot : 0x3f ∉ front ++ s := by
        rw [List.mem_append, not_or]
        refine ⟨hfront, ?_⟩
        rw [← hs, writeQuery, List.append_nil]
        exact rawPath_notMem s
      rw [findQuery, memchr_eq_none.mpr hnot]
      rfl
  | some q =>
      rw [hq, writeQuery] at hs
      have hnot : 0x3f ∉ front ++ rawPath s := by
        rw [List.mem_append, not_or]
        exact ⟨hfront, rawPath_notMem s⟩
      have hfound := memchr_append_cons q hnot
      rw [List.append_assoc, hs] at hfound
      rw [findQuery, hfound]
      rfl

/-! ## 3. The accessors -/

namespace CachedHead

section Split

variable {target : ByteStr} {front tail : Bytes} (htarget : target.bytes = front ++ tail)

include htarget

/-- Where the path ends. -/
theorem stop_eq (hfront : 0x3f ∉ front) : (findQuery target.bytes).getD target.bytes.length
    = (front ++ rawPath tail).length := by
  rw [htarget, findQuery_append hfront]
  cases hq : rawQuery tail with
  | some q => rfl
  | none =>
      have hsplit := rawPath_append_rawQuery tail
      rw [hq, writeQuery, List.append_nil] at hsplit
      rw [hsplit]
      rfl

/-- The target around its first `?`. -/
theorem bytes_of_query {q : Bytes} (hq : rawQuery tail = some q) :
    target.bytes = (front ++ rawPath tail) ++ 0x3f :: q := by
  have hsplit := rawPath_append_rawQuery tail
  rw [hq, writeQuery] at hsplit
  rw [htarget, List.append_assoc, hsplit]

theorem boundary_stop :
    isCharBoundary target.bytes (front ++ rawPath tail).length = true := by
  cases hq : rawQuery tail with
  | some q =>
      rw [bytes_of_query htarget hq]
      exact isCharBoundary_ascii (by decide) _ q
  | none =>
      have hsplit := rawPath_append_rawQuery tail
      rw [hq, writeQuery, List.append_nil] at hsplit
      rw [hsplit, ← htarget]
      exact isCharBoundary_length _

theorem slice_path (hfront : 0x3f ∉ front)
    (hboundary : isCharBoundary target.bytes front.length = true) :
    sliceStr target.bytes front.length ((findQuery target.bytes).getD target.bytes.length)
      = some (rawPath tail) := by
  rw [stop_eq htarget hfront]
  refine @sliceStr_mid target.bytes front (rawPath tail) (writeQuery (rawQuery tail)) ?_ hboundary
    (boundary_stop htarget)
  rw [List.append_assoc, rawPath_append_rawQuery, htarget]

theorem query_eq (hfront : 0x3f ∉ front) (method : Method) (version : Version)
    (headers : HeaderVec) : (new method target version headers).query = some (rawQuery tail) := by
  have hat : (new method target version headers).queryAt
      = (rawQuery tail).map fun _ => (front ++ rawPath tail).length := by
    show findQuery target.bytes = _
    rw [htarget, findQuery_append hfront]
  unfold query
  rw [hat]
  cases hq : rawQuery tail with
  | none => rfl
  | some q =>
      show (sliceStr target.bytes ((front ++ rawPath tail).length + 1) target.bytes.length).map some
        = some (some q)
      have hbytes := bytes_of_query htarget hq
      have hutf8 := target.utf8
      rw [hbytes] at hutf8 ⊢
      have hafter := isCharBoundary_after_ascii (by decide) (front ++ rawPath tail) q hutf8
      have hsliced := @sliceStr_mid ((front ++ rawPath tail) ++ 0x3f :: q)
        (front ++ rawPath tail ++ [0x3f]) q [] (by simp) (by simpa [Nat.add_assoc] using hafter)
        (by simpa using isCharBoundary_length ((front ++ rawPath tail) ++ 0x3f :: q))
      have hstart : (front ++ rawPath tail ++ [0x3f]).length = (front ++ rawPath tail).length + 1 :=
        List.length_append
      have hstop : (front ++ rawPath tail ++ [0x3f] ++ q).length
          = ((front ++ rawPath tail) ++ 0x3f :: q).length := by simp
      rw [hstart, hstop] at hsliced
      rw [hsliced]
      rfl

end Split

section Absolute

variable {target : ByteStr} {scheme authority tail : Bytes}

theorem schemeMark : ascii "://" = [0x3a, 0x2f, 0x2f] := by decide

/-- Neither the scheme nor the authority has a `?`, so the scans nest. -/
theorem query_notMem_front (hscheme : validScheme scheme = true)
    (hauthority : ∀ b ∈ authority, endsAuthority b = false) :
    0x3f ∉ scheme ++ ascii "://" ++ authority := by
  rw [List.mem_append, List.mem_append, not_or, not_or]
  refine ⟨⟨?_, by decide⟩, ?_⟩
  · intro hmem
    exact absurd (isSchemeByte_of_validScheme hscheme _ hmem) (by decide)
  · intro hmem
    exact absurd (hauthority _ hmem) (by decide)

/-- The offsets of an absolute form are beside ASCII bytes. -/
theorem boundaries_absolute
    (htarget : target.bytes = scheme ++ ascii "://" ++ authority ++ tail)
    (htail : tail = [] ∨ ∃ b rest, tail = b :: rest ∧ endsAuthority b = true) :
    isCharBoundary target.bytes scheme.length = true ∧
      isCharBoundary target.bytes (scheme ++ ascii "://").length = true ∧
      isCharBoundary target.bytes (scheme ++ ascii "://" ++ authority).length = true := by
  have hutf8 := target.utf8
  refine ⟨?_, ?_, ?_⟩
  · rw [htarget, List.append_assoc, List.append_assoc, schemeMark]
    exact isCharBoundary_ascii (by decide) scheme _
  · have hbytes : target.bytes = (scheme ++ [0x3a, 0x2f]) ++ 0x2f :: (authority ++ tail) := by
      rw [htarget, schemeMark]
      simp
    rw [hbytes] at hutf8 ⊢
    have hafter := isCharBoundary_after_ascii (by decide) _ _ hutf8
    rw [schemeMark]
    simpa using hafter
  · rw [htarget]
    rcases htail with rfl | ⟨b, rest, rfl, hb⟩
    · rw [List.append_nil]
      exact isCharBoundary_length _
    · refine isCharBoundary_ascii ?_ _ rest
      have hascii := forall_byte (p := fun b => !endsAuthority b || b < 128) (by decide +kernel) b
      simpa [hb] using hascii

/-- A `Head` with a target in absolute form answers with its parts. -/
theorem new_absolute (htarget : target.bytes = scheme ++ ascii "://" ++ authority ++ tail)
    (hscheme : validScheme scheme = true) (hauthority : ∀ b ∈ authority, endsAuthority b = false)
    (htail : tail = [] ∨ ∃ b rest, tail = b :: rest ∧ endsAuthority b = true)
    (method : Method) (version : Version) (headers : HeaderVec) :
    (new method target version headers).authorityAt.isSome = true ∧
      (new method target version headers).absoluteScheme = some (some scheme) ∧
      (new method target version headers).authority = some (some authority) ∧
      (new method target version headers).path
        = some (if rawPath tail = [] then ascii "/" else rawPath tail) ∧
      (new method target version headers).query = some (rawQuery tail) := by
  have hat : (new method target version headers).authorityAt
      = some ((scheme ++ ascii "://").length, (scheme ++ ascii "://" ++ authority).length) := by
    have hlen : (scheme ++ ascii "://").length = scheme.length + 3 := by
      rw [List.length_append, schemeMark]
      rfl
    rw [@List.length_append _ _ authority, hlen]
    exact findAbsoluteAuthorityAt_of_form ⟨tail, htarget, hscheme, hauthority, htail⟩
  have hfront := query_notMem_front hscheme hauthority
  obtain ⟨hmark, hstart, hend⟩ := boundaries_absolute htarget htail
  refine ⟨by rw [hat]; rfl, ?_, ?_, ?_, query_eq htarget hfront method version headers⟩
  · unfold absoluteScheme
    rw [hat]
    have hthree : (scheme ++ ascii "://").length - 3 = scheme.length := by
      rw [List.length_append, schemeMark]
      rfl
    have hsliced := @sliceStr_mid target.bytes [] scheme (ascii "://" ++ authority ++ tail)
      (by rw [htarget]; simp) (isCharBoundary_zero _) hmark
    show (if (scheme ++ ascii "://").length < 3 then none
      else (sliceStr target.bytes 0 ((scheme ++ ascii "://").length - 3)).map some) = _
    rw [if_neg (by rw [List.length_append, schemeMark]; simp), hthree]
    exact congrArg (Option.map some) hsliced
  · unfold CachedHead.authority
    rw [hat]
    have hsliced := sliceStr_mid htarget hstart hend
    show (sliceStr target.bytes (scheme ++ ascii "://").length
      (scheme ++ ascii "://" ++ authority).length).map some = _
    rw [hsliced]
    rfl
  · unfold path
    rw [hat]
    have hsliced := slice_path htarget hfront hend
    have hstop := stop_eq htarget hfront
    show (if (scheme ++ ascii "://" ++ authority).length
      < (findQuery target.bytes).getD target.bytes.length then _ else _) = _
    by_cases hraw : rawPath tail = []
    · rw [if_pos hraw, if_neg (by rw [hstop, hraw, List.append_nil]; exact Nat.lt_irrefl _)]
    · have hpos := List.length_pos_iff.mpr hraw
      rw [if_neg hraw, if_pos (by rw [hstop, @List.length_append _ _ (rawPath tail)]; omega)]
      exact hsliced

end Absolute

/-- A `Head` with a target in any other form. -/
theorem new_relative {target : ByteStr}
    (hform : ∀ scheme authority, ¬ AbsoluteForm target.bytes scheme authority) (method : Method)
    (version : Version) (headers : HeaderVec) :
    (new method target version headers).authorityAt = none ∧
      (new method target version headers).absoluteScheme = some none ∧
      (new method target version headers).authority
        = some (Head.authority ⟨method, target, version, headers⟩) ∧
      (new method target version headers).path = some (rawPath target.bytes) ∧
      (new method target version headers).query = some (rawQuery target.bytes) := by
  have hat : (new method target version headers).authorityAt = none :=
    findAbsoluteAuthorityAt_eq_none.mpr hform
  have hnil : (0x3f : UInt8) ∉ ([] : Bytes) := List.not_mem_nil
  refine ⟨hat, ?_, ?_, ?_, @query_eq target [] target.bytes rfl hnil method version headers⟩
  · unfold absoluteScheme
    rw [hat]
  · unfold CachedHead.authority Head.authority
    rw [hat, findAbsoluteAuthority_eq_none hform]
    show (if method = .connect then some (some target.bytes) else _) = _
    split <;> rfl
  · unfold path
    rw [hat]
    exact @slice_path target [] target.bytes rfl hnil (isCharBoundary_zero _)

/-- The head that caches nothing answers the same. -/
theorem new_eq_head (method : Method) (target : ByteStr) (version : Version)
    (headers : HeaderVec) :
    (new method target version headers).absoluteScheme
        = some (Head.absoluteScheme ⟨method, target, version, headers⟩) ∧
      (new method target version headers).authority
        = some (Head.authority ⟨method, target, version, headers⟩) := by
  cases hfound : findAbsoluteAuthority target.bytes with
  | none =>
      have hform : ∀ scheme authority, ¬ AbsoluteForm target.bytes scheme authority := by
        intro scheme authority hform
        rw [findAbsoluteAuthority_iff.mpr hform] at hfound
        cases hfound
      obtain ⟨-, hscheme, hauthority, -, -⟩ := new_relative hform method version headers
      rw [Head.absoluteScheme, hfound]
      exact ⟨hscheme, hauthority⟩
  | some p =>
      obtain ⟨tail, htarget, hvalid, hnone, htail⟩ := findAbsoluteAuthority_iff.mp hfound
      obtain ⟨-, hscheme, hauthority, -, -⟩ :=
        new_absolute htarget hvalid hnone htail method version headers
      rw [Head.absoluteScheme, Head.authority, hfound]
      exact ⟨hscheme, hauthority⟩

/-! ## 4. Targets that are accepted, and targets that are set -/

/-- No accessor panics. -/
def Answers (h : CachedHead) : Prop :=
  h.path.isSome = true ∧ h.query.isSome = true ∧ h.authority.isSome = true ∧
    h.absoluteScheme.isSome = true

theorem new_answers (method : Method) (target : ByteStr) (version : Version)
    (headers : HeaderVec) : (new method target version headers).Answers := by
  by_cases hform : ∃ scheme authority, AbsoluteForm target.bytes scheme authority
  · obtain ⟨scheme, authority, tail, htarget, hvalid, hnone, htail⟩ := hform
    obtain ⟨-, hscheme, hauthority, hpath, hquery⟩ :=
      new_absolute htarget hvalid hnone htail method version headers
    exact ⟨by rw [hpath]; rfl, by rw [hquery]; rfl, by rw [hauthority]; rfl, by rw [hscheme]; rfl⟩
  · have hnot : ∀ scheme authority, ¬ AbsoluteForm target.bytes scheme authority :=
      fun scheme authority h => hform ⟨scheme, authority, h⟩
    obtain ⟨-, hscheme, hauthority, hpath, hquery⟩ := new_relative hnot method version headers
    exact ⟨by rw [hpath]; rfl, by rw [hquery]; rfl, by rw [hauthority]; rfl, by rw [hscheme]; rfl⟩

/-- Setting a target leaves nothing of the old one. -/
theorem foldl_setTarget (method : Method) (target : ByteStr) (version : Version)
    (headers : HeaderVec) (targets : List ByteStr) :
    targets.foldl setTarget (new method target version headers)
      = new method (targets.getLast?.getD target) version headers := by
  induction targets using List.reverseRecOn with
  | nil => rfl
  | append_singleton targets last ih =>
      rw [List.foldl_append, ih, List.getLast?_append]
      rfl

/-- What stands before the path: the scheme and the authority of an absolute
form, or nothing. -/
def HasFront (h : CachedHead) (front : Bytes) : Prop :=
  (h.absoluteScheme = some none ∧ front = []) ∨
    ∃ scheme authority, h.absoluteScheme = some (some scheme) ∧
      h.authority = some (some authority) ∧ front = scheme ++ ascii "://" ++ authority

/-- The accessors cut the target into parts that make it up, and the path is a
path. An absolute form may leave the path out, which is then a slash. -/
def SplitsTarget (h : CachedHead) : Prop :=
  (h.authorityAt.isSome = true ↔ h.target.bytes.head? ≠ some 0x2f) ∧
    ∃ path raw front query, h.path = some path ∧ h.query = some query ∧ h.HasFront front ∧
      path.head? = some 0x2f ∧ 0x3f ∉ path ∧
      (path = raw ∨ (h.authorityAt.isSome = true ∧ raw = [] ∧ path = ascii "/")) ∧
      h.target.bytes = front ++ raw ++ writeQuery query

/-- What `validate_request_target` accepts, `CONNECT` and `*` apart: an origin
form or an absolute form, without a fragment. -/
theorem form_of_validated {target : Bytes} {method : Method}
    (h : validateRequestTarget target method = .ok ()) (hmethod : method ≠ .connect)
    (hstar : target ≠ ascii "*") :
    0x23 ∉ target ∧ (target.head? = some 0x2f ∨
      ∃ scheme authority, AbsoluteForm target scheme authority) := by
  unfold validateRequestTarget at h
  split at h
  · cases h
  · rename_i hbytes
    refine ⟨?_, ?_⟩
    · intro hmem
      unfold validateTarget at hbytes
      split at hbytes
      · cases hbytes
      · rename_i hvalid
        rw [not_or, Bool.not_eq_false] at hvalid
        have hall : ∀ s : Bytes, validTargetBytes s = true → ∀ b ∈ s, isTargetByte b = true := by
          intro s
          induction s with
          | nil => intro _ b hb; cases hb
          | cons x s ih =>
              intro hs b hb
              simp only [validTargetBytes, Bool.and_eq_true] at hs
              rcases List.mem_cons.mp hb with rfl | hb
              · exact hs.1.2
              · exact ih hs.2 b hb
        exact absurd (hall target hvalid.2 _ hmem) (by decide)
    · unfold validateTargetForm at h
      have hnot : ¬ target = [0x2a] := hstar
      rw [if_neg hnot, if_neg hmethod] at h
      split at h
      · rename_i hslash
        exact Or.inl hslash
      · rename_i hslash
        refine Or.inr ?_
        split at h
        · cases h
        · rename_i i hi
          split at h
          · rename_i hscheme
            have hfound : ∃ p, findAbsoluteAuthority target = some p := by
              obtain ⟨b, rest, hb, halpha⟩ := alphabetic_of_validScheme hscheme
              have hhead : target.head? = some b := by
                have := congrArg List.head? hb
                rw [List.head?_take] at this
                split at this
                · cases this
                · exact this
              unfold findAbsoluteAuthority
              rw [hhead]
              split
              · rename_i h; cases h
              · rename_i h; cases h; exact absurd halpha (by decide)
              · rename_i h; cases h; exact absurd halpha (by decide)
              · rw [hi]
                simp only [hscheme, if_true]
                exact ⟨_, rfl⟩
            obtain ⟨p, hp⟩ := hfound
            exact ⟨p.1, p.2, findAbsoluteAuthority_iff.mp hp⟩
          · cases h

/-- No absolute form begins with a slash. -/
theorem head_of_absolute {target scheme authority : Bytes}
    (h : AbsoluteForm target scheme authority) : target.head? ≠ some 0x2f := by
  obtain ⟨tail, rfl, hscheme, -, -⟩ := h
  obtain ⟨b, rest, rfl, hb⟩ := alphabetic_of_validScheme hscheme
  intro hhead
  obtain rfl : b = 0x2f := by simpa using hhead
  exact absurd hb (by decide)

/-- The path of an origin form is the target up to its `?`. -/
theorem splits_origin {target : ByteStr} (hslash : target.bytes.head? = some 0x2f)
    (method : Method) (version : Version) (headers : HeaderVec) :
    (new method target version headers).SplitsTarget := by
  have hform : ∀ scheme authority, ¬ AbsoluteForm target.bytes scheme authority :=
    fun scheme authority h => head_of_absolute h hslash
  obtain ⟨hat, hscheme, -, hpath, hquery⟩ := new_relative hform method version headers
  have hsplit := rawPath_append_rawQuery target.bytes
  refine ⟨?_, rawPath target.bytes, rawPath target.bytes, [], rawQuery target.bytes, hpath, hquery,
    Or.inl ⟨hscheme, rfl⟩, ?_, rawPath_notMem _, Or.inl rfl, hsplit.symm⟩
  · rw [hat]
    refine iff_of_false (by simp) (fun h => h hslash)
  · obtain ⟨rest, hrest⟩ : ∃ rest, target.bytes = 0x2f :: rest := by
      cases hb : target.bytes with
      | nil => rw [hb] at hslash; cases hslash
      | cons b rest =>
          rw [hb] at hslash
          obtain rfl : b = 0x2f := by simpa using hslash
          exact ⟨rest, rfl⟩
    rw [hrest, rawPath, List.takeWhile_cons_of_pos (by decide)]
    rfl

/-- The path of an absolute form is what its authority leaves up to the `?`. A
byte that ends an authority and is neither `?` nor `#` is a slash. -/
theorem splits_absolute {target : ByteStr} {scheme authority : Bytes}
    (hform : AbsoluteForm target.bytes scheme authority) (hfragment : 0x23 ∉ target.bytes)
    (method : Method) (version : Version) (headers : HeaderVec) :
    (new method target version headers).SplitsTarget := by
  have hslash := head_of_absolute hform
  obtain ⟨tail, htarget, hvalid, hnone, htail⟩ := hform
  obtain ⟨hat, hscheme, hauthority, hpath, hquery⟩ :=
    new_absolute htarget hvalid hnone htail method version headers
  have hparts : target.bytes
      = scheme ++ ascii "://" ++ authority ++ rawPath tail ++ writeQuery (rawQuery tail) := by
    rw [List.append_assoc _ (rawPath tail), rawPath_append_rawQuery, htarget]
  refine ⟨iff_of_true hat hslash, ?_⟩
  by_cases hraw : rawPath tail = []
  · rw [if_pos hraw] at hpath
    rw [hraw] at hparts
    exact ⟨ascii "/", [], _, rawQuery tail, hpath, hquery,
      Or.inr ⟨scheme, authority, hscheme, hauthority, rfl⟩, by decide, by decide,
      Or.inr ⟨hat, rfl, rfl⟩, hparts⟩
  · rw [if_neg hraw] at hpath
    refine ⟨rawPath tail, rawPath tail, _, rawQuery tail, hpath, hquery,
      Or.inr ⟨scheme, authority, hscheme, hauthority, rfl⟩, ?_, rawPath_notMem _, Or.inl rfl,
      hparts⟩
    rcases htail with rfl | ⟨b, rest, rfl, hb⟩
    · exact absurd rfl hraw
    · have hquestion : b ≠ 0x3f := by
        rintro rfl
        exact hraw (List.takeWhile_cons_of_neg (by decide))
      have hhash : b ≠ 0x23 := by
        rintro rfl
        exact hfragment (by rw [htarget]; simp)
      have hb' : b = 0x2f := by
        simp only [endsAuthority, Bool.or_eq_true, beq_iff_eq] at hb
        tauto
      rw [hb', rawPath, List.takeWhile_cons_of_pos (by decide)]
      rfl

/-- **Splitting a target loses nothing, and routing sees a path.** For every
method and target that `validate_request_target` accepts, `CONNECT` and the
asterisk form apart, the accessors cut the target into the parts that make it
up, and the path begins with a slash and has no `?`. For every target at all,
and after any number of targets were set, no accessor slices out of range or
inside a character, and the head is the one newly built for its target. -/
theorem target_splits (method : Method) (target : ByteStr) (version : Version)
    (headers : HeaderVec) (targets : List ByteStr) :
    (validateRequestTarget target.bytes method = .ok () → method ≠ .connect →
      target.bytes ≠ ascii "*" → (new method target version headers).SplitsTarget) ∧
    targets.foldl setTarget (new method target version headers)
      = new method (targets.getLast?.getD target) version headers ∧
    (targets.foldl setTarget (new method target version headers)).Answers := by
  refine ⟨?_, foldl_setTarget method target version headers targets, ?_⟩
  · intro hvalid hmethod hstar
    obtain ⟨hfragment, hslash | ⟨scheme, authority, hform⟩⟩ :=
      form_of_validated hvalid hmethod hstar
    · exact splits_origin hslash method version headers
    · exact splits_absolute hform hfragment method version headers
  · rw [foldl_setTarget]
    exact new_answers _ _ _ _

/-- A `?` right behind the authority, and `://` in the query. -/
example : validateRequestTarget (ascii "http://a.example?u=x://y/") .get = .ok () ∧
    (new .get (.literal "http://a.example?u=x://y/") .http11 []).path = some (ascii "/") ∧
    (new .get (.literal "http://a.example?u=x://y/") .http11 []).query
      = some (some (ascii "u=x://y/")) := by decide +kernel

end CachedHead

end ArmatureH1
