/-
ArmatureH1.Client — a client that reads responses strictly by RFC 9112.

This is not code of the repository. It is the other end of the wire, as the
standard has it: a status line of exactly three digits between two spaces,
field lines up to the empty one, and the length of the body by section 6.3,
for which the client has to know the methods it sent. Interim responses are
read and skipped. Nothing is repaired: a line that is not ended by CRLF, a
field without a name or two `Content-Length` fields are errors.
-/
import ArmatureH1.Body
import ArmatureH1.ChunkedRoundTrip

namespace ArmatureH1

open ByteString

namespace Client

/-! ## 1. Lines -/

/-- A line and what follows its CRLF. A CR or LF anywhere else is an error. -/
def readLine : Bytes → Option (Bytes × Bytes)
  | [] => none
  | b :: rest =>
    if b = CR then
      if rest.head? = some LF then some ([], rest.tail) else none
    else if b = LF then none
    else (readLine rest).map fun (line, rest) => (b :: line, rest)

/-- `reason-phrase`: HTAB, SP, VCHAR and obs-text. -/
def isReasonByte (b : UInt8) : Bool := b == HTAB || (SP ≤ b && b != 0x7f)

/-- `status-line = HTTP-version SP status-code SP [ reason-phrase ]`. -/
def statusLine (line : Bytes) : Option Nat :=
  match line with
  | 0x48 :: 0x54 :: 0x54 :: 0x50 :: 0x2f :: major :: 0x2e :: minor :: 0x20
      :: d1 :: d2 :: d3 :: 0x20 :: reason =>
    if isAsciiDigit major && isAsciiDigit minor && isAsciiDigit d1 && isAsciiDigit d2
        && isAsciiDigit d3 && reason.all isReasonByte then
      some (decimal [d1, d2, d3])
    else none
  | _ => none

/-- `field-line = field-name ":" OWS field-value OWS`. -/
def fieldLine (line : Bytes) : Option (Bytes × Bytes) :=
  match memchr 0x3a line with
  | none => none
  | some i =>
    let name := line.take i
    let value := line.drop (i + 1)
    if name = [] ∨ name.all isTchar = false ∨ 0 ∈ value then none
    else some (name, trimOws value)

/-- The fields up to the empty line. -/
def readFields : Nat → Bytes → Option (List (Bytes × Bytes) × Bytes)
  | 0, _ => none
  | fuel + 1, s =>
    match readLine s with
    | none => none
    | some (line, rest) =>
      if line = [] then some ([], rest)
      else
        match fieldLine line with
        | none => none
        | some f => (readFields fuel rest).map fun (fields, rest) => (f :: fields, rest)

/-- The head of a response: its status, its fields, and what follows. -/
def readHead (s : Bytes) : Option (Nat × List (Bytes × Bytes) × Bytes) :=
  match readLine s with
  | none => none
  | some (line, rest) =>
    match statusLine line with
    | none => none
    | some status => (readFields rest.length rest).map fun (fields, rest) => (status, fields, rest)

/-! ## 2. Bodies -/

/-- How a body is delimited. -/
inductive Framing where
  | none
  | length (n : Nat)
  | chunked
  | untilClose

/-- The values of a field. -/
def values (name : Bytes) (fields : List (Bytes × Bytes)) : List Bytes :=
  (fields.filter fun f => eqIgnoreAsciiCase f.1 name).map Prod.snd

/-- Section 6.3. `none` is a response that cannot be read. -/
def framing (method : Method) (status : Nat) (fields : List (Bytes × Bytes)) : Option Framing :=
  if method = .head ∨ status < 200 ∨ status = 204 ∨ status = 304 then some .none
  else if method = .connect ∧ status < 300 then some .none
  else if values (ascii "transfer-encoding") fields ≠ [] then
    if (values (ascii "transfer-encoding") fields).getLast?.any teFramesChunked then some .chunked
    else some .untilClose
  else
    match values (ascii "content-length") fields with
    | [] => some .untilClose
    | [v] => if v = [] ∨ v.all isAsciiDigit = false then none else some (.length (decimal v))
    | _ => none

/-- The body, and what follows it. -/
def readBody (limits : Limits) (framing : Framing) (s : Bytes) : Option (Bytes × Bytes) :=
  match framing with
  | .none => some ([], s)
  | .length n => if n ≤ s.length then some (s.take n, s.drop n) else none
  | .untilClose => some (s, [])
  | .chunked =>
    match (ChunkedDecoder.new limits).drain s with
    | ⟨body, _, .ended rest⟩ => some (body, rest)
    | _ => none

/-! ## 3. Responses -/

/-- The response to a request of the given method. Interim responses come
before it. -/
def readResponse (limits : Limits) (method : Method) : Nat → Bytes → Option ((Nat × Bytes) × Bytes)
  | 0, _ => none
  | fuel + 1, s =>
    match readHead s with
    | none => none
    | some (status, fields, rest) =>
      if status < 200 ∧ status ≠ 101 then readResponse limits method fuel rest
      else
        match framing method status fields with
        | none => none
        | some how => (readBody limits how rest).map fun (body, rest) => ((status, body), rest)

/-- The responses to requests of the given methods, one after the other. -/
def readResponses (limits : Limits) : List Method → Bytes → Option (List (Nat × Bytes) × Bytes)
  | [], s => some ([], s)
  | method :: methods, s =>
    match readResponse limits method s.length s with
    | none => none
    | some (response, rest) =>
      (readResponses limits methods rest).map fun (responses, rest) => (response :: responses, rest)

/-- Everything that was written, with no byte left over. -/
def read (limits : Limits) (methods : List Method) (s : Bytes) : Option (List (Nat × Bytes)) :=
  match readResponses limits methods s with
  | some (responses, []) => some responses
  | _ => none

/-! ## 4. What is read of what is written -/

/-- Bytes without a line break. -/
def oneLine (s : Bytes) : Bool := s.all fun b => b != CR && b != LF

theorem oneLine_append (s t : Bytes) : oneLine (s ++ t) = (oneLine s && oneLine t) :=
  List.all_append

theorem readLine_append {line : Bytes} (h : oneLine line = true) (rest : Bytes) :
    readLine (line ++ crlf ++ rest) = some (line, rest) := by
  induction line with
  | nil => rfl
  | cons b line ih =>
      simp only [oneLine, List.all_cons, Bool.and_eq_true, bne_iff_ne] at h
      have hline := ih h.2
      simp only [List.cons_append, readLine, h.1.1, h.1.2, if_false, hline, Option.map_some]

/-- A field that can be written on a line of its own. -/
def Writes (f : Bytes × Bytes) : Prop := IsToken f.1 ∧ validFieldValue f.2 = true

theorem validFieldValue_iff {v : Bytes} :
    validFieldValue v = true ↔ ∀ b ∈ v, b ≠ CR ∧ b ≠ LF ∧ b ≠ 0 := by
  simp [validFieldValue, and_assoc]

theorem oneLine_of_valid {v : Bytes} (h : validFieldValue v = true) : oneLine v = true := by
  rw [oneLine, List.all_eq_true]
  intro b hb
  have hb' := validFieldValue_iff.mp h b hb
  simp [hb'.1, hb'.2.1]

/-- A token may stand wherever a value may. -/
theorem IsToken.validFieldValue {t : Bytes} (h : IsToken t) : validFieldValue t = true := by
  have hall := fun b => forall_byte
    (p := fun b => !isTchar b || (b != CR && b != LF && b != 0)) (by decide +kernel) b
  rw [validFieldValue_iff]
  intro b hb
  simpa [h.2 b hb, and_assoc] using hall b

/-- What is written between the line breaks of a field. -/
theorem Writes.oneLine {f : Bytes × Bytes} (h : Writes f) :
    oneLine (f.1 ++ ascii ": " ++ f.2) = true := by
  have hcolon : Client.oneLine (ascii ": ") = true := by decide
  rw [oneLine_append, oneLine_append, oneLine_of_valid (IsToken.validFieldValue h.1), hcolon,
    oneLine_of_valid h.2]
  rfl

theorem fieldLine_written {f : Bytes × Bytes} (h : Writes f) :
    fieldLine (f.1 ++ ascii ": " ++ f.2) = some (f.1, trimOws f.2) := by
  have hline : f.1 ++ ascii ": " ++ f.2 = f.1 ++ 0x3a :: (SP :: f.2) := by
    rw [List.append_assoc]
    rfl
  have hvalue : (0 : UInt8) ∉ SP :: f.2 := by
    intro hmem
    rcases List.mem_cons.mp hmem with hb | hb
    · exact absurd hb (by decide)
    · exact (validFieldValue_iff.mp h.2 0 hb).2.2 rfl
  have hname : ¬ (f.1 = [] ∨ f.1.all isTchar = false ∨ 0 ∈ SP :: f.2) := by
    rintro (hnil | htchar | hzero)
    · exact h.1.1 hnil
    · rw [List.all_eq_true.mpr h.1.2] at htchar
      cases htchar
    · exact hvalue hzero
  have hdrop : (f.1 ++ 0x3a :: (SP :: f.2)).drop (f.1.length + 1) = SP :: f.2 := by
    rw [← List.drop_drop, List.drop_left]
    rfl
  rw [hline, fieldLine, memchr_append_cons _ h.1.colon_notMem]
  simp only [List.take_left, hdrop, if_neg hname, trimOws_cons_SP]

/-- The fields are read back, each without the spaces around its value. -/
theorem readFields_written : ∀ {fields : List (Bytes × Bytes)} (fuel : Nat),
    (∀ f ∈ fields, Writes f) → fields.length < fuel → ∀ rest : Bytes,
    readFields fuel ((fields.flatMap fun f => writeFieldLine f.1 f.2) ++ crlf ++ rest)
      = some (fields.map fun f => (f.1, trimOws f.2), rest) := by
  intro fields
  induction fields with
  | nil =>
      intro fuel _ hfuel rest
      obtain ⟨fuel, rfl⟩ := Nat.exists_eq_succ_of_ne_zero (Nat.ne_of_gt hfuel)
      rfl
  | cons f fields ih =>
      intro fuel hwrites hfuel rest
      obtain ⟨fuel, rfl⟩ := Nat.exists_eq_succ_of_ne_zero (Nat.ne_of_gt (Nat.zero_lt_of_lt hfuel))
      have hf := hwrites f (by simp)
      have hne : f.1 ++ ascii ": " ++ f.2 ≠ [] := by simp [hf.1.1]
      have hrest := ih fuel (fun f hf => hwrites f (by simp [hf]))
        (by simp only [List.length_cons] at hfuel; omega) rest
      have hline := readLine_append hf.oneLine
        ((fields.flatMap fun f => writeFieldLine f.1 f.2) ++ crlf ++ rest)
      simp only [List.flatMap_cons, writeFieldLine, List.append_assoc] at hline hrest ⊢
      simp only [List.append_assoc] at hne
      have hfield := fieldLine_written hf
      rw [List.append_assoc] at hfield
      rw [readFields, hline]
      simp only [if_neg hne, hfield, hrest, Option.map_some, List.map_cons]

theorem length_le_flatMap_line (fields : List (Bytes × Bytes)) :
    fields.length ≤ (fields.flatMap fun f => writeFieldLine f.1 f.2).length := by
  induction fields with
  | nil => simp
  | cons f fields ih =>
      have hline : 2 ≤ (writeFieldLine f.1 f.2).length := by
        simp only [writeFieldLine, List.length_append, length_crlf]
        omega
      rw [List.flatMap_cons, List.length_append, List.length_cons]
      omega

/-- A head that is written line by line is read by its status line. -/
theorem readHead_written (line : Bytes) (hline : oneLine line = true)
    (fields : List (Bytes × Bytes)) (hwrites : ∀ f ∈ fields, Writes f) (rest : Bytes) :
    readHead (line ++ crlf ++ (fields.flatMap fun f => writeFieldLine f.1 f.2) ++ crlf ++ rest)
      = (statusLine line).map fun status =>
          (status, fields.map fun f => (f.1, trimOws f.2), rest) := by
  have hread := readLine_append hline
    ((fields.flatMap fun f => writeFieldLine f.1 f.2) ++ crlf ++ rest)
  have hfields := readFields_written
    ((fields.flatMap fun f => writeFieldLine f.1 f.2) ++ crlf ++ rest).length hwrites
    (by
      have hlen := length_le_flatMap_line fields
      simp only [List.length_append, length_crlf]
      omega) rest
  simp only [List.append_assoc] at hread hfields ⊢
  rw [readHead, hread]
  cases hstatus : statusLine line with
  | none => simp only [hstatus, Option.map_none]
  | some status => simp only [hstatus, hfields, Option.map_some]

/-- An interim response is skipped. -/
theorem readResponse_continue (limits : Limits) (method : Method) (fuel : Nat) (rest : Bytes) :
    readResponse limits method (fuel + 1) (continueBytes ++ rest)
      = readResponse limits method fuel rest := by
  have hhead : readHead (continueBytes ++ rest) = some (100, [], rest) := by
    have h := readHead_written (ascii "HTTP/1.1 100 Continue") (by decide) [] (by simp) rest
    have hstatus : statusLine (ascii "HTTP/1.1 100 Continue") = some 100 := by decide +kernel
    have hbytes : continueBytes = ascii "HTTP/1.1 100 Continue" ++ crlf ++ crlf := by decide
    rw [hstatus] at h
    rw [hbytes]
    simpa using h
  rw [readResponse, hhead]
  simp

end Client

end ArmatureH1
