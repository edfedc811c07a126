/-
ArmatureH1.HeadLines — a head as a list of lines.

A head whose lines contain no CR and no LF, and of which only the last is
empty, ends at its own end (`findHeadEnd_lines`) and passes the prescan of
the parser (`prescan_lines`), unless a line begins with whitespace. The heads
of `write_head_for` are of this kind whatever the handler put into its
fields, so the lines a reader finds in one are the lines the writer meant
(`writeHeadFor_lines`). What else passes the prescan is in `prescan_iff`:
nothing but strict lines.
-/
import ArmatureH1.Lib.Lines
import ArmatureH1.Parse
import ArmatureH1.WriteTheorems

namespace ArmatureH1

open ByteString Client

/-! ## 1. The parser's view of lines -/

theorem oneLine_iff {line : Bytes} : oneLine line = true ↔ CR ∉ line ∧ LF ∉ line := by
  simp only [oneLine, List.all_eq_true, Bool.and_eq_true, bne_iff_ne]
  constructor
  · intro h
    exact ⟨fun hmem => (h CR hmem).1 rfl, fun hmem => (h LF hmem).2 rfl⟩
  · rintro ⟨hcr, hlf⟩ b hb
    exact ⟨fun heq => hcr (heq ▸ hb), fun heq => hlf (heq ▸ hb)⟩

/-- A line that continues the one before it. -/
def beginsFold (line : Bytes) : Bool := line.head? == some SP || line.head? == some HTAB

/-- The CR pass takes a line at a time. -/
theorem prescanCr_line {line : Bytes} (h : CR ∉ line) (rest : Bytes) :
    prescanCr (line ++ crlf ++ rest)
      = if beginsFold rest then .error .obsFold else prescanCr rest := by
  induction line with
  | nil =>
      show (if (LF :: rest)[0]? ≠ some LF then .error .bareCr
        else if (LF :: rest)[1]? = some SP ∨ (LF :: rest)[1]? = some HTAB then .error .obsFold
        else prescanCr (LF :: rest)) = _
      rw [if_neg (by simp)]
      have hlf : prescanCr (LF :: rest) = prescanCr rest := by
        rw [prescanCr, if_neg LF_ne_CR]
      rw [hlf]
      have hfold : ((LF :: rest)[1]? = some SP ∨ (LF :: rest)[1]? = some HTAB)
          ↔ beginsFold rest = true := by
        simp [beginsFold, List.head?_eq_getElem?]
      simp only [hfold]
  | cons b line ih =>
      have hb : b ≠ CR := fun heq => h (by simp [heq])
      show (if b = CR then _ else prescanCr (line ++ crlf ++ rest)) = _
      rw [if_neg hb]
      exact ih fun hmem => h (List.mem_cons_of_mem _ hmem)

/-- So does the LF pass. -/
theorem prescanLf_line {line : Bytes} (h : LF ∉ line) (prev : Option UInt8) (rest : Bytes) :
    prescanLf prev (line ++ crlf ++ rest) = prescanLf (some LF) rest := by
  induction line generalizing prev with
  | nil =>
      show (if CR = LF ∧ prev ≠ some CR then _
        else if LF = LF ∧ some CR ≠ some CR then _ else prescanLf (some LF) rest) = _
      rw [if_neg fun hlf => absurd hlf.1 (by decide), if_neg (by simp)]
  | cons b line ih =>
      have hb : b ≠ LF := fun heq => h (by simp [heq])
      show (if b = LF ∧ prev ≠ some CR then _ else prescanLf (some b) (line ++ crlf ++ rest)) = _
      rw [if_neg (fun heq => hb heq.1)]
      exact ih (fun hmem => h (List.mem_cons_of_mem _ hmem)) _

theorem prescanCr_lines {first : Bytes} {lines : List Bytes} (hfirst : CR ∉ first)
    (h : ∀ line ∈ lines, CR ∉ line ∧ line ≠ [] ∧ beginsFold line = false) :
    prescanCr (joinLines (first :: lines) ++ crlf) = .ok () := by
  induction lines generalizing first with
  | nil =>
      rw [joinLines_cons, List.append_assoc, prescanCr_line hfirst]
      rfl
  | cons line lines ih =>
      obtain ⟨hcr, hne, hfold⟩ := h line (by simp)
      rw [joinLines_cons, List.append_assoc, prescanCr_line hfirst]
      have hnext : beginsFold (joinLines (line :: lines) ++ crlf) = false := by
        obtain ⟨b, line, rfl⟩ := List.exists_cons_of_ne_nil hne
        exact hfold
      rw [hnext, if_neg (by simp)]
      exact ih hcr fun l hl => h l (by simp [hl])

theorem prescanLf_lines {lines : List Bytes} (h : ∀ line ∈ lines, LF ∉ line)
    (prev : Option UInt8) : prescanLf prev (joinLines lines ++ crlf) = .ok () := by
  induction lines generalizing prev with
  | nil =>
      show (if CR = LF ∧ prev ≠ some CR then _
        else if LF = LF ∧ some CR ≠ some CR then _ else Except.ok ()) = .ok ()
      rw [if_neg fun hlf => absurd hlf.1 (by decide), if_neg (by simp)]
  | cons line lines ih =>
      rw [joinLines_cons, List.append_assoc, prescanLf_line (h line (by simp))]
      exact ih (fun l hl => h l (by simp [hl])) _

/-- A line behind the first: something on it, and no whitespace in front. -/
structure HeadLine (line : Bytes) : Prop where
  oneLine : oneLine line = true
  ne_nil : line ≠ []
  noFold : beginsFold line = false

/-- Lines pass the prescan. -/
theorem prescan_lines {first : Bytes} {lines : List Bytes} (hfirst : oneLine first = true)
    (h : ∀ line ∈ lines, HeadLine line) :
    prescan (joinLines (first :: lines) ++ crlf) = .ok () := by
  have hcr := prescanCr_lines (oneLine_iff.mp hfirst).1 fun line hline =>
    ⟨(oneLine_iff.mp (h line hline).oneLine).1, (h line hline).ne_nil, (h line hline).noFold⟩
  have hlf := @prescanLf_lines (first :: lines) (fun line hline => by
    rcases List.mem_cons.mp hline with rfl | hline
    · exact (oneLine_iff.mp hfirst).2
    · exact (oneLine_iff.mp (h line hline).oneLine).2) none
  rw [prescan, hcr]
  exact hlf

/-- A head ends where its lines end. -/
theorem findHeadEnd_lines {first : Bytes} {lines : List Bytes} (hfirst : oneLine first = true)
    (h : ∀ line ∈ lines, HeadLine line) :
    findHeadEnd (joinLines (first :: lines) ++ crlf)
      = some (joinLines (first :: lines) ++ crlf).length := by
  have hfound := memmem_joinLines (oneLine_iff.mp hfirst).1 fun line hline =>
    ⟨(h line hline).ne_nil, (oneLine_iff.mp (h line hline).oneLine).1⟩
  have hlen : 4 ≤ (joinLines (first :: lines) ++ crlf).length := by
    simp only [joinLines_cons, List.length_append, length_crlf]
    omega
  show (memmem (crlf ++ crlf) _).map (· + 4) = _
  rw [hfound, Option.map_some, Nat.sub_add_cancel hlen]

/-! ## 2. Exactly the strict heads

The lemmas above take a line off the front and need to know that it is one.
For any byte string at all, the two passes are read along `splitCrlf`, which
looks at two bytes at a time as they do. -/

/-- Whether the rest of a head begins a fold is up to its first piece. -/
theorem beginsFold_splitCrlf (bytes : Bytes) :
    (splitCrlf bytes).head?.map beginsFold = some (beginsFold bytes) := by
  cases bytes with
  | nil => rfl
  | cons b rest =>
      cases rest with
      | nil => rfl
      | cons c rest =>
          by_cases hcrlf : b = CR ∧ c = LF
          · obtain ⟨rfl, rfl⟩ := hcrlf
            rfl
          · obtain ⟨first, pieces, -, hsplit⟩ := @splitCrlf_cons b c rest hcrlf
            rw [hsplit]
            rfl

/-- The CR pass: no piece holds a CR, and none behind the first begins with
whitespace. -/
theorem prescanCr_iff (bytes : Bytes) :
    prescanCr bytes = .ok () ↔
      (∀ piece ∈ splitCrlf bytes, CR ∉ piece) ∧
        ∀ piece ∈ (splitCrlf bytes).tail, beginsFold piece = false := by
  induction bytes using splitCrlf.induct with
  | case1 => simp [splitCrlf, prescanCr]
  | case2 b =>
      by_cases hb : b = CR
      · simp [splitCrlf, prescanCr, hb]
      · simp [splitCrlf, prescanCr, hb, Ne.symm hb]
  | case3 b c rest hcrlf ih =>
      obtain ⟨rfl, rfl⟩ := hcrlf
      have hline := @prescanCr_line [] (by simp) rest
      have hsplit : splitCrlf (CR :: LF :: rest) = [] :: splitCrlf rest :=
        @splitCrlf_line [] (by simp) rest
      obtain ⟨first, pieces, hrest⟩ := List.exists_cons_of_ne_nil (splitCrlf_ne_nil rest)
      have hfold : beginsFold first = beginsFold rest := by
        simpa [hrest] using beginsFold_splitCrlf rest
      show prescanCr ([] ++ crlf ++ rest) = .ok () ↔ _
      rw [hline, hsplit, List.tail_cons]
      rw [hrest] at ih ⊢
      simp only [List.tail_cons, List.mem_cons, forall_eq_or_imp, List.not_mem_nil,
        not_false_eq_true, true_and, hfold] at ih ⊢
      split
      · rename_i h
        simp [h]
      · rename_i h
        rw [ih, Bool.not_eq_true] at *
        simp [h]
  | case4 b c rest hcrlf ih =>
      obtain ⟨first, pieces, hnext, hsplit⟩ := @splitCrlf_cons b c rest hcrlf
      rw [hnext] at ih
      rw [hsplit, prescanCr]
      simp only [List.tail_cons, List.mem_cons, forall_eq_or_imp, not_or] at ih ⊢
      by_cases hb : b = CR
      · have hc : (c :: rest)[0]? ≠ some LF := by
          intro hc
          exact hcrlf ⟨hb, by simpa using hc⟩
        rw [if_pos hb, if_pos hc]
        simp [hb]
      · rw [if_neg hb, ih]
        simp [Ne.symm hb]

/-- The LF pass, from a byte that is no CR in front of a LF: no piece holds a
LF. -/
theorem prescanLf_iff (bytes : Bytes) :
    ∀ prev, (prev = some CR → bytes.head? ≠ some LF) →
      (prescanLf prev bytes = .ok () ↔ ∀ piece ∈ splitCrlf bytes, LF ∉ piece) := by
  induction bytes using splitCrlf.induct with
  | case1 => intro prev _; simp [splitCrlf, prescanLf]
  | case2 b =>
      intro prev hprev
      by_cases hb : b = LF
      · have hne : prev ≠ some CR := fun h => hprev h (by simp [hb])
        simp [splitCrlf, prescanLf, hb, hne]
      · simp [splitCrlf, prescanLf, hb, Ne.symm hb]
  | case3 b c rest hcrlf ih =>
      obtain ⟨rfl, rfl⟩ := hcrlf
      intro prev _
      have hline := @prescanLf_line [] (by simp) prev rest
      have hsplit : splitCrlf (CR :: LF :: rest) = [] :: splitCrlf rest :=
        @splitCrlf_line [] (by simp) rest
      show prescanLf prev ([] ++ crlf ++ rest) = .ok () ↔ _
      rw [hline, hsplit, ih (some LF) (fun h => absurd h (by decide))]
      simp
  | case4 b c rest hcrlf ih =>
      intro prev hprev
      obtain ⟨first, pieces, hnext, hsplit⟩ := @splitCrlf_cons b c rest hcrlf
      rw [prescanLf, hsplit]
      by_cases hb : b = LF
      · have hne : prev ≠ some CR := fun h => hprev h (by simp [hb])
        rw [if_pos ⟨hb, hne⟩]
        simp [hb]
      · have hnextByte : some b = some CR → (c :: rest).head? ≠ some LF := by
          intro hcr hlf
          exact hcrlf ⟨Option.some.inj hcr, by simpa using hlf⟩
        rw [if_neg (fun h => hb h.1), ih (some b) hnextByte, hnext]
        simp [Ne.symm hb]

/-- **The prescan is the strict-CRLF grammar.** It passes exactly the byte
strings that the CRLFs cut into pieces without a CR or a LF, none of which,
the first apart, begins with SP or HTAB. -/
theorem prescan_iff (head : Bytes) :
    prescan head = .ok () ↔
      (∀ piece ∈ splitCrlf head, CR ∉ piece ∧ LF ∉ piece) ∧
        ∀ piece ∈ (splitCrlf head).tail, piece.head? ≠ some SP ∧ piece.head? ≠ some HTAB := by
  have hcr := prescanCr_iff head
  have hlf := prescanLf_iff head none (by simp)
  have hfold : ∀ piece : Bytes, beginsFold piece = false ↔
      piece.head? ≠ some SP ∧ piece.head? ≠ some HTAB := by
    intro piece
    simp [beginsFold]
  simp only [hfold] at hcr
  have hboth : prescan head = .ok () ↔
      prescanCr head = .ok () ∧ prescanLf none head = .ok () := by
    unfold prescan
    cases prescanCr head with
    | error e => simp
    | ok u => simp
  rw [hboth, hcr, hlf]
  constructor
  · rintro ⟨⟨hnocr, htail⟩, hnolf⟩
    exact ⟨fun piece hpiece => ⟨hnocr piece hpiece, hnolf piece hpiece⟩, htail⟩
  · rintro ⟨hpieces, htail⟩
    exact ⟨⟨fun piece hpiece => (hpieces piece hpiece).1, htail⟩,
      fun piece hpiece => (hpieces piece hpiece).2⟩

/-! ## 3. Fields on lines -/

/-- A field as it stands on its line. -/
def fieldText (f : Bytes × Bytes) : Bytes := f.1 ++ ascii ": " ++ f.2

theorem fieldLines_eq_joinLines (fields : List (Bytes × Bytes)) :
    fieldLines fields = joinLines (fields.map fieldText) := by
  induction fields with
  | nil => rfl
  | cons f fields ih =>
      rw [List.map_cons, joinLines_cons, ← ih]
      rfl

/-- The line of a field. -/
theorem headLine_fieldText {f : Bytes × Bytes} (h : Writes f) : HeadLine (fieldText f) := by
  refine ⟨h.oneLine, ?_, ?_⟩
  · simp [fieldText, h.1.1]
  · obtain ⟨b, name, hname⟩ := List.exists_cons_of_ne_nil h.1.1
    have htchar := h.1.2 b (by rw [hname]; simp)
    have hall := fun b => forall_byte (p := fun b => !isTchar b || (b != SP && b != HTAB))
      (by decide +kernel) b
    have hb : b ≠ SP ∧ b ≠ HTAB := by simpa [htchar] using hall b
    simp [beginsFold, fieldText, hname, hb.1, hb.2]

/-- A token holds no colon, so a line belongs to one field only. -/
theorem fieldText_injective {f g : Bytes × Bytes} (hf : Writes f) (hg : Writes g)
    (h : fieldText f = fieldText g) : f = g := by
  have hread := congrArg fieldLine h
  have hname : f.1 = g.1 := by
    rw [fieldText, fieldText, fieldLine_written hf, fieldLine_written hg] at hread
    exact (Prod.mk.inj (Option.some.inj hread)).1
  have hvalue : f.2 = g.2 := by
    rw [fieldText, fieldText, hname] at h
    exact List.append_cancel_left h
  exact Prod.ext hname hvalue

/-- `HeadOf out status fields`: the lines of `out` are the status line, one
line for each field, and the empty one that ends the head. -/
structure HeadOf (out status : Bytes) (fields : List (Bytes × Bytes)) : Prop where
  lines : splitCrlf out = status :: fields.map fieldText ++ [[], []]
  writes : ∀ f ∈ fields, Writes f

/-- The fields of a head are there to be read off its bytes. -/
theorem HeadOf.unique {out status status' : Bytes} {fields fields' : List (Bytes × Bytes)}
    (h : HeadOf out status fields) (h' : HeadOf out status' fields') : fields = fields' := by
  have hlines := h.lines.symm.trans h'.lines
  rw [List.cons_append, List.cons_append, List.cons.injEq, List.append_cancel_right_eq] at hlines
  have hwrites := h.writes
  have hwrites' := h'.writes
  obtain ⟨-, hmap⟩ := hlines
  clear h h'
  induction fields generalizing fields' with
  | nil =>
      cases fields' with
      | nil => rfl
      | cons g fields' => cases hmap
  | cons f fields ih =>
      cases fields' with
      | nil => cases hmap
      | cons g fields' =>
          rw [List.map_cons, List.map_cons, List.cons.injEq] at hmap
          rw [fieldText_injective (hwrites f (by simp)) (hwrites' g (by simp)) hmap.1,
            ih (fun f hf => hwrites f (by simp [hf]))
              (fun f hf => hwrites' f (by simp [hf])) hmap.2]

/-! ## 4. The heads of `write_head_for` -/

/-- The fields of a handler that the writer keeps. -/
def handlerFields (version : Version) (resp : ResponseHead) (body : OutBody) (headRequest : Bool) :
    List (Bytes × Bytes) :=
  let scan := FieldScan.ofHeaders resp.headers
  let staleTe := staleTransferEncoding scan body (version == .http10 && body == .chunked)
    resp.status
  resp.headers.filterMap
    (writtenField (staleContentLength scan body resp.status headRequest staleTe) staleTe)

/-- The fields that are the writer's own: the date, the length of the body or
its coding, and what becomes of the connection. -/
inductive OwnField (date : Bytes) (body : OutBody) : Bytes × Bytes → Prop where
  | date : OwnField date body (ascii "date", date)
  | length {b : Bytes} : body = .fixed b →
      OwnField date body (ascii "content-length", writeU64 b.length)
  | noBody : body = .none → OwnField date body (ascii "content-length", ascii "0")
  | coding : body = .chunked → OwnField date body (ascii "transfer-encoding", ascii "chunked")
  | persistence {token : Bytes} : token = ascii "close" ∨ token = ascii "keep-alive" →
      OwnField date body (ascii "connection", token)

/-- The writer's own fields stand behind the handler's. -/
theorem headFields_split (version : Version) (resp : ResponseHead) (body : OutBody) (date : Bytes)
    (keepAlive headRequest : Bool) :
    ∃ own, headFields version resp body date keepAlive headRequest
        = handlerFields version resp body headRequest ++ own ∧ ∀ f ∈ own, OwnField date body f := by
  unfold headFields
  simp only [List.append_assoc]
  refine ⟨_, rfl, ?_⟩
  intro f hf
  simp only [List.mem_append] at hf
  rcases hf with hf | hf | hf
  · split at hf
    · cases hf
    · rw [List.mem_singleton] at hf
      subst hf
      exact .date
  · split at hf
    · cases body with
      | none =>
          rw [framingField, List.mem_singleton] at hf
          subst hf
          exact .noBody rfl
      | fixed b =>
          rw [framingField, List.mem_singleton] at hf
          subst hf
          exact .length rfl
      | chunked =>
          rw [framingField] at hf
          split at hf
          · cases hf
          · rw [List.mem_singleton] at hf
            subst hf
            exact .coding rfl
    · cases hf
  · split at hf
    · rw [Option.mem_toList, Option.map_eq_some_iff] at hf
      obtain ⟨token, htoken, rfl⟩ := hf
      refine .persistence ?_
      cases version <;> cases keepAlive <;> cases htoken <;> simp
    · cases hf

theorem writeHeadFor_joinLines (version : Version) (resp : ResponseHead) (body : OutBody)
    (date : Bytes) (keepAlive headRequest : Bool) :
    writeHeadFor version resp body date keepAlive headRequest
      = joinLines (statusText version resp.status
          :: (headFields version resp body date keepAlive headRequest).map fieldText) ++ crlf := by
  rw [writeHeadFor_eq, writeStatusLine_eq, fieldLines_eq_joinLines, joinLines_cons]

theorem headOf_writeHeadFor (version : Version) (resp : ResponseHead) (body : OutBody)
    {date : Bytes} (keepAlive headRequest : Bool) (hdate : validFieldValue date = true) :
    HeadOf (writeHeadFor version resp body date keepAlive headRequest)
      (statusText version resp.status)
      (headFields version resp body date keepAlive headRequest) := by
  have hwrites := writes_headFields version resp body keepAlive headRequest hdate
  refine ⟨?_, hwrites⟩
  rw [writeHeadFor_joinLines, splitCrlf_joinLines]
  · rfl
  · intro line hline
    rcases List.mem_cons.mp hline with rfl | hline
    · exact (oneLine_iff.mp (oneLine_statusText _ _)).1
    · obtain ⟨f, hf, rfl⟩ := List.mem_map.mp hline
      exact (oneLine_iff.mp (hwrites f hf).oneLine).1

/-- **No response splitting.** Whatever a handler puts into its fields, the
head that is written ends at its end and nowhere before, passes the parser's
own prescan, and has these lines: the status line, a line for each field of
the handler that is kept, the writer's own, and the empty one. Every name on
them is a token and no value holds a CR, a LF or a NUL. -/
theorem writeHeadFor_lines (version : Version) (resp : ResponseHead) (body : OutBody) (date : Bytes)
    (keepAlive headRequest : Bool) (hdate : validFieldValue date = true) :
    findHeadEnd (writeHeadFor version resp body date keepAlive headRequest)
        = some (writeHeadFor version resp body date keepAlive headRequest).length ∧
      prescan (writeHeadFor version resp body date keepAlive headRequest) = .ok () ∧
      ∃ own, (∀ f ∈ own, OwnField date body f) ∧
        HeadOf (writeHeadFor version resp body date keepAlive headRequest)
          (statusText version resp.status)
          (handlerFields version resp body headRequest ++ own) := by
  have hwrites := writes_headFields version resp body keepAlive headRequest hdate
  have hlines : ∀ line ∈ (headFields version resp body date keepAlive headRequest).map fieldText,
      HeadLine line := by
    intro line hline
    obtain ⟨f, hf, rfl⟩ := List.mem_map.mp hline
    exact headLine_fieldText (hwrites f hf)
  have hstatus := oneLine_statusText version resp.status
  refine ⟨?_, ?_, ?_⟩
  · rw [writeHeadFor_joinLines]
    exact findHeadEnd_lines hstatus hlines
  · rw [writeHeadFor_joinLines]
    exact prescan_lines hstatus hlines
  · obtain ⟨own, hsplit, hown⟩ := headFields_split version resp body date keepAlive headRequest
    refine ⟨own, hown, ?_⟩
    rw [← hsplit]
    exact headOf_writeHeadFor version resp body keepAlive headRequest hdate

/-- A handler that tries to end the head early, three ways. -/
def hostileHead : ResponseHead :=
  ⟨200, [(.location, ascii "/\r\n\r\n<html>"),
    (.connection, ascii "x\r\n\r\n, upgrade"),
    (.other (.literal "x\r\n"), ascii "1"),
    (.other (.literal "X-Ok"), ascii "1")]⟩

theorem writeHeadFor_lines_hostile :
    findHeadEnd (writeHeadFor .http11 hostileHead .none (ascii "now") true false)
        = some (writeHeadFor .http11 hostileHead .none (ascii "now") true false).length ∧
      handlerFields .http11 hostileHead .none false
        = [(ascii "connection", ascii "upgrade"), (ascii "X-Ok", ascii "1")] :=
  ⟨(writeHeadFor_lines .http11 hostileHead .none (ascii "now") true false (by decide)).1,
    by decide +kernel⟩

end ArmatureH1
