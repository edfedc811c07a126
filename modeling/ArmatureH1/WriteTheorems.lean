/-
ArmatureH1.WriteTheorems — the head that `write_head_for` writes, as a strict
client reads it.

A head is a status line and a list of fields (`headFields`). What matters to
the client about the fields is which `Content-Length` and `Transfer-Encoding`
values are among them. The walk over the handler's fields counts exactly the
values that can be written (`scan_spec`), so its verdict on a stale field is
a verdict on what the client sees (`values_written`).
-/
import ArmatureH1.Client

namespace ArmatureH1

open ByteString Client

/-! ## 1. Names -/

namespace HeaderId

theorem lowercase_canonical (id : HeaderId) :
    lowercase id.canonical.asStr = lowercase id.asStr := by
  rw [canonical_eq]
  cases h : fromBytes id.asStr with
  | none => rfl
  | some known => exact (fromBytes_eq_some h).2.symm

/-- A client takes a written name for a well-known one exactly when it is. -/
theorem eq_canonical_iff {id k : HeaderId} (hk : k ∈ wellKnown) :
    eqIgnoreAsciiCase id.canonical.asStr k.asStr = true ↔ id.canonical = k := by
  rw [eqIgnoreAsciiCase_iff, lowercase_canonical]
  constructor
  · intro h
    rw [canonical_eq, fromBytes_congr h, fromBytes_asStr hk, Option.getD_some]
  · rintro rfl
    exact (lowercase_canonical id).symm

theorem isToken_canonical {id : HeaderId} (h : IsToken id.asStr) : IsToken id.canonical.asStr := by
  rw [canonical_eq]
  cases hf : fromBytes id.asStr with
  | none => exact h
  | some known => exact isToken_asStr (fromBytes_eq_some hf).1

end HeaderId

/-! ## 2. Fields -/

/-- The field that `writeField` writes, if it writes one. -/
def writtenField (staleLen staleTe : Bool) (f : HeaderId × Bytes) : Option (Bytes × Bytes) :=
  let id := f.1.canonical
  if staleLen && id == .contentLength then none
  else if staleTe && id == .transferEncoding then none
  else if id == .connection then
    match connectionTokens f.2 with
    | [] => none
    | first :: rest => some (id.asStr, first ++ rest.flatMap fun t => ascii ", " ++ t)
  else if writable f.1 f.2 = false then none
  else some (id.asStr, f.2)

/-- Fields, one on a line. -/
def fieldLines (fields : List (Bytes × Bytes)) : Bytes :=
  fields.flatMap fun f => writeFieldLine f.1 f.2

theorem writeField_eq (staleLen staleTe : Bool) (f : HeaderId × Bytes) :
    writeField staleLen staleTe f = fieldLines (writtenField staleLen staleTe f).toList := by
  unfold writeField writtenField
  simp only
  split
  · rfl
  · split
    · rfl
    · split
      · rename_i hconn
        rw [beq_iff_eq] at hconn
        rw [writeConnectionTokens, hconn]
        cases connectionTokens f.2 with
        | nil => rfl
        | cons first rest =>
            have hname : ascii "connection: " = HeaderId.connection.asStr ++ ascii ": " := by decide
            simp [fieldLines, writeFieldLine, hname]
      · split
        · rfl
        · simp [fieldLines]

theorem flatMap_writeField (staleLen staleTe : Bool) (headers : HeaderVec) :
    headers.flatMap (writeField staleLen staleTe)
      = fieldLines (headers.filterMap (writtenField staleLen staleTe)) := by
  induction headers with
  | nil => rfl
  | cons f headers ih =>
      rw [List.flatMap_cons, ih, writeField_eq, List.filterMap_cons]
      cases writtenField staleLen staleTe f <;> simp [fieldLines]

theorem validFieldValue_of_writable {id : HeaderId} {value : Bytes} (h : writable id value = true) :
    validFieldValue value = true := by
  unfold writable at h
  exact ((Bool.and_eq_true _ _).mp h).2

/-- A token that survives in a `Connection` field. -/
theorem isToken_of_mem_connectionTokens {value t : Bytes} (h : t ∈ connectionTokens value) :
    IsToken t := by
  unfold connectionTokens at h
  have h' := (List.mem_filter.mp h).2
  simp only [Bool.and_eq_true, Bool.not_eq_true', List.isEmpty_eq_false_iff, List.all_eq_true] at h'
  exact ⟨h'.1.1.1.1.1, h'.1.1.1.1.2⟩

theorem writes_writtenField {staleLen staleTe : Bool} {f : HeaderId × Bytes} {p : Bytes × Bytes}
    (h : writtenField staleLen staleTe f = some p) : Writes p ∧ p.1 = f.1.canonical.asStr := by
  unfold writtenField at h
  simp only at h
  split at h
  · cases h
  · split at h
    · cases h
    · split at h
      · rename_i hconn
        rw [beq_iff_eq] at hconn
        cases htokens : connectionTokens f.2 with
        | nil => rw [htokens] at h; cases h
        | cons first rest =>
            rw [htokens] at h
            cases h
            refine ⟨⟨?_, ?_⟩, rfl⟩
            · rw [hconn]
              exact HeaderId.isToken_asStr (k := .connection) (by decide)
            · have htoken : ∀ t ∈ first :: rest, validFieldValue t = true := fun t ht =>
                IsToken.validFieldValue (isToken_of_mem_connectionTokens (htokens.symm ▸ ht))
              have hcomma : validFieldValue (ascii ", ") = true := by decide
              rw [validFieldValue_iff]
              intro b hb
              rw [List.mem_append, List.mem_flatMap] at hb
              rcases hb with hb | ⟨t, ht, hb⟩
              · exact validFieldValue_iff.mp (htoken first (by simp)) b hb
              · rcases List.mem_append.mp hb with hb | hb
                · exact validFieldValue_iff.mp hcomma b hb
                · exact validFieldValue_iff.mp (htoken t (by simp [ht])) b hb
      · split at h
        · cases h
        · rename_i hwritable
          rw [Bool.not_eq_false] at hwritable
          cases h
          exact ⟨⟨HeaderId.isToken_canonical (isToken_of_writable hwritable),
            validFieldValue_of_writable hwritable⟩, rfl⟩

/-! ## 3. The walk over the handler's fields -/

/-- The values of a field that can be written, in order. -/
def writableValues (k : HeaderId) (headers : HeaderVec) : List Bytes :=
  (headers.filter fun f => writable f.1 f.2 && f.1.canonical == k).map Prod.snd

/-- A field that is neither framing field leaves what is known of them. -/
theorem scan_step_other {f : HeaderId × Bytes} (hcl : f.1.canonical ≠ .contentLength)
    (hte : f.1.canonical ≠ .transferEncoding) (s : FieldScan) :
    (s.step f).handlerLen = s.handlerLen ∧ (s.step f).lenCount = s.lenCount ∧
      (s.step f).handlerTe = s.handlerTe ∧ (s.step f).teCount = s.teCount := by
  unfold FieldScan.step
  split
  · exact ⟨rfl, rfl, rfl, rfl⟩
  · split
    · exact ⟨rfl, rfl, rfl, rfl⟩
    · rename_i h; exact absurd h hcl
    · rename_i h; exact absurd h hte
    · exact ⟨rfl, rfl, rfl, rfl⟩

/-- What the walk has collected, on top of what it had. -/
theorem scan_foldl (headers : HeaderVec) : ∀ s : FieldScan,
    (headers.foldl FieldScan.step s).handlerLen
        = s.handlerLen.or (writableValues .contentLength headers).head? ∧
      (headers.foldl FieldScan.step s).lenCount
        = s.lenCount + (writableValues .contentLength headers).length ∧
      (headers.foldl FieldScan.step s).handlerTe
        = s.handlerTe.or (writableValues .transferEncoding headers).head? ∧
      (headers.foldl FieldScan.step s).teCount
        = s.teCount + (writableValues .transferEncoding headers).length := by
  induction headers with
  | nil => intro s; simp [writableValues]
  | cons f headers ih =>
      intro s
      obtain ⟨hlen, hcount, hte, hcodings⟩ := ih (s.step f)
      rw [List.foldl_cons, hlen, hcount, hte, hcodings]
      by_cases hw : writable f.1 f.2 = true
      · by_cases hcl : f.1.canonical = .contentLength
        · simp [FieldScan.step, writableValues, hw, hcl, Nat.add_assoc, Nat.add_comm]
        · by_cases hcte : f.1.canonical = .transferEncoding
          · simp [FieldScan.step, writableValues, hw, hcte, Nat.add_assoc, Nat.add_comm]
          · obtain ⟨h1, h2, h3, h4⟩ := scan_step_other hcl hcte s
            rw [h1, h2, h3, h4]
            simp [writableValues, hcl, hcte]
      · simp [FieldScan.step, writableValues, hw]

/-- The first writable length and the number of them, and the same of the
codings. -/
theorem scan_spec (headers : HeaderVec) :
    (FieldScan.ofHeaders headers).handlerLen = (writableValues .contentLength headers).head? ∧
      (FieldScan.ofHeaders headers).lenCount = (writableValues .contentLength headers).length ∧
      (FieldScan.ofHeaders headers).handlerTe = (writableValues .transferEncoding headers).head? ∧
      (FieldScan.ofHeaders headers).teCount
        = (writableValues .transferEncoding headers).length := by
  have h := scan_foldl headers FieldScan.empty
  simpa [FieldScan.ofHeaders, FieldScan.empty] using h

/-- What a client sees of a field that is not `Connection`: the values that
can be written, unless the writer judged the field stale. -/
theorem values_written {k : HeaderId} (hk : k ∈ HeaderId.wellKnown) (hconn : k ≠ .connection)
    (staleLen staleTe : Bool) (headers : HeaderVec) :
    values k.asStr (headers.filterMap (writtenField staleLen staleTe))
      = if (staleLen && k == .contentLength) || (staleTe && k == .transferEncoding) then []
        else writableValues k headers := by
  induction headers with
  | nil => simp [values, writableValues]
  | cons f headers ih =>
      have hcons : values k.asStr ((f :: headers).filterMap (writtenField staleLen staleTe))
          = values k.asStr (writtenField staleLen staleTe f).toList
            ++ values k.asStr (headers.filterMap (writtenField staleLen staleTe)) := by
        rw [List.filterMap_cons]
        cases writtenField staleLen staleTe f with
        | none => rfl
        | some p => simp [values, List.filter_cons]; split <;> rfl
      have hvalues : writableValues k (f :: headers)
          = writableValues k [f] ++ writableValues k headers := by
        simp only [writableValues, ← List.map_append, ← List.filter_append, List.singleton_append]
      rw [hcons, ih, hvalues]
      by_cases hf : f.1.canonical = k
      · have hone : values k.asStr (writtenField staleLen staleTe f).toList
            = if (staleLen && k == .contentLength) || (staleTe && k == .transferEncoding) then []
              else writableValues k [f] := by
          have hsame : eqIgnoreAsciiCase k.asStr k.asStr = true := by simp [eqIgnoreAsciiCase]
          unfold writtenField
          simp only [hf, beq_iff_eq, hconn, if_false]
          by_cases hlen : (staleLen && k == .contentLength) = true
          · simp [hlen, values]
          · by_cases hte : (staleTe && k == .transferEncoding) = true
            · simp [hlen, hte, values]
            · by_cases hw : writable f.1 f.2 = true
              · simp [hlen, hte, hw, values, writableValues, hf, hsame]
              · simp [hlen, hte, hw, values, writableValues]
        rw [hone]
        split <;> simp
      · -- a field of another name is not seen, and not counted
        have hseen : values k.asStr (writtenField staleLen staleTe f).toList = [] := by
          cases hp : writtenField staleLen staleTe f with
          | none => rfl
          | some p =>
              have hname : eqIgnoreAsciiCase p.1 k.asStr = false := by
                rw [(writes_writtenField hp).2, ← Bool.not_eq_true, HeaderId.eq_canonical_iff hk]
                exact hf
              simp [values, hname]
        have hcounted : writableValues k [f] = [] := by simp [writableValues, hf]
        rw [hseen, hcounted]
        split <;> simp

/-! ## 4. Numbers -/

/-- A string of digits. -/
def IsDigits (v : Bytes) : Prop := v ≠ [] ∧ ∀ b ∈ v, isAsciiDigit b = true

theorem IsDigits.notMem {v : Bytes} (h : IsDigits v) {b : UInt8} (hb : isAsciiDigit b = false) :
    b ∉ v := notMem_of_class h.2 hb

theorem IsDigits.trimOws {v : Bytes} (h : IsDigits v) : trimOws v = v :=
  trimOws_eq_self (h.notMem (by decide)) (h.notMem (by decide))

theorem IsDigits.writes {v : Bytes} (h : IsDigits v) : validFieldValue v = true := by
  rw [validFieldValue_iff]
  intro b hb
  refine ⟨?_, ?_, ?_⟩
  · rintro rfl
    exact h.notMem (by decide) hb
  · rintro rfl
    exact h.notMem (by decide) hb
  · rintro rfl
    exact h.notMem (by decide) hb

theorem parseLen_eq_some {v : Bytes} {n : Nat} (h : parseLen v = some n) :
    IsDigits v ∧ decimal v = n := by
  unfold parseLen at h
  split at h
  · cases h
  · rename_i hdigits
    rw [not_or, Bool.not_eq_false, List.all_eq_true] at hdigits
    split at h
    · exact ⟨hdigits, Option.some.inj h⟩
    · cases h

theorem digit_byte : ∀ d < 10,
    isAsciiDigit (48 + d).toUInt8 = true ∧ (48 + d).toUInt8.toNat - 48 = d := by
  decide

theorem isDigits_writeU64 (n : Nat) : IsDigits (writeU64 n) := by
  refine ⟨Numeral.render_ne_nil _ _ _ _ _ (Or.inr (by decide)), ?_⟩
  intro b hb
  rcases Numeral.mem_render (by decide) hb with hb | ⟨d, hd, rfl⟩
  · cases hb
  · exact (digit_byte d hd).1

/-- The digits that `write_u64` writes. -/
theorem writeU64_eq {n : Nat} (h : n < 2 ^ 64) :
    ∃ ds, Numeral.IsNumeral 10 n ds ∧ writeU64 n = ds.map fun d => (48 + d).toUInt8 := by
  have hn : n < 10 ^ (19 + 1) := by omega
  obtain ⟨ds, hds, -, hr⟩ := Numeral.render_eq (fun d => (48 + d).toUInt8) (by omega) 19 n [] hn
  rw [List.append_nil] at hr
  exact ⟨ds, hds, hr⟩

/-- `write_u64` writes the number in decimal. -/
theorem writeU64_spec {n : Nat} (h : n < 2 ^ 64) :
    IsDigits (writeU64 n) ∧ decimal (writeU64 n) = n := by
  obtain ⟨ds, hds, hr⟩ := writeU64_eq h
  refine ⟨isDigits_writeU64 n, ?_⟩
  have hmap : (writeU64 n).map (fun b => b.toNat - 48) = ds := by
    rw [hr, List.map_map]
    conv => rhs; rw [← List.map_id ds]
    exact List.map_congr_left fun d hd => (digit_byte d (hds.digit_lt d hd)).2
  rw [decimal, hmap]
  exact hds.value_eq

/-! ## 5. The head -/

/-- The status line, without its CRLF. -/
def statusText (version : Version) (status : Nat) : Bytes :=
  version.asBytes ++ [SP] ++ writeU64 status
    ++ (if (reasonPhrase status).isEmpty then [] else [SP] ++ reasonPhrase status)

theorem writeStatusLine_eq (version : Version) (status : Nat) :
    writeStatusLine version status = statusText version status ++ crlf := rfl

theorem reasonPhrase_readable (status : Nat) :
    (reasonPhrase status).all Client.isReasonByte = true := by
  unfold reasonPhrase
  split <;> decide +kernel

/-- A status line is one line, whatever the status. -/
theorem oneLine_statusText (version : Version) (status : Nat) :
    oneLine (statusText version status) = true := by
  have hversion : oneLine version.asBytes = true := by cases version <;> decide
  have hreason : oneLine (reasonPhrase status) = true := by
    have hread := List.all_eq_true.mp (reasonPhrase_readable status)
    rw [oneLine, List.all_eq_true]
    intro b hb
    rw [Bool.and_eq_true, bne_iff_ne, bne_iff_ne]
    constructor
    · rintro rfl
      exact notMem_of_class hread (by decide) hb
    · rintro rfl
      exact notMem_of_class hread (by decide) hb
  have hspace : oneLine [SP] = true := by decide
  have hdigits : oneLine (writeU64 status) = true :=
    oneLine_of_valid (isDigits_writeU64 status).writes
  rw [statusText, oneLine_append, oneLine_append, oneLine_append, hversion, hspace, hdigits]
  split
  · rfl
  · rw [oneLine_append, hspace, hreason]
    rfl

/-- The framing field the writer adds. -/
def framingField (body : OutBody) (closeDelimited : Bool) : List (Bytes × Bytes) :=
  match body with
  | .fixed b => [(ascii "content-length", writeU64 b.length)]
  | .chunked => if closeDelimited then [] else [(ascii "transfer-encoding", ascii "chunked")]
  | .none => [(ascii "content-length", ascii "0")]

/-- The fields of a head, in order. -/
def headFields (version : Version) (resp : ResponseHead) (body : OutBody) (date : Bytes)
    (keepAlive headRequest : Bool) : List (Bytes × Bytes) :=
  let closeDelimited := version == .http10 && body == .chunked
  let scan := FieldScan.ofHeaders resp.headers
  let staleTe := staleTransferEncoding scan body closeDelimited resp.status
  let staleLen := staleContentLength scan body resp.status headRequest staleTe
  let handlerFramed := (!staleLen && scan.handlerLen.isSome) || (!staleTe && scan.handlerTe.isSome)
  resp.headers.filterMap (writtenField staleLen staleTe)
    ++ (if scan.hasDate then [] else [(ascii "date", date)])
    ++ (if !handlerFramed && !forbidsBodyFraming resp.status then framingField body closeDelimited
        else [])
    ++ (if resp.status ≠ 101 then
          ((connectionField version keepAlive).map fun token => (ascii "connection", token)).toList
        else [])

theorem fieldLines_append (xs ys : List (Bytes × Bytes)) :
    fieldLines (xs ++ ys) = fieldLines xs ++ fieldLines ys := List.flatMap_append

theorem writeFraming_eq (body : OutBody) (closeDelimited : Bool) :
    writeFraming body closeDelimited = fieldLines (framingField body closeDelimited) := by
  cases body with
  | none => simp [writeFraming, framingField, fieldLines]
  | fixed b => simp [writeFraming, framingField, fieldLines]
  | chunked => cases closeDelimited <;> simp [writeFraming, framingField, fieldLines]

/-- A head is a status line, its fields, and an empty line. -/
theorem writeHeadFor_eq (version : Version) (resp : ResponseHead) (body : OutBody) (date : Bytes)
    (keepAlive headRequest : Bool) :
    writeHeadFor version resp body date keepAlive headRequest
      = writeStatusLine version resp.status
        ++ fieldLines (headFields version resp body date keepAlive headRequest) ++ crlf := by
  unfold writeHeadFor headFields
  simp only [fieldLines_append, flatMap_writeField, writeFraming_eq]
  have hdate : ∀ b : Bool, (if b then [] else writeFieldLine (ascii "date") date)
      = fieldLines (if b then [] else [(ascii "date", date)]) := by
    intro b
    cases b <;> simp [fieldLines]
  have hif : ∀ (b : Bool) (fields : List (Bytes × Bytes)),
      (if b then fieldLines fields else []) = fieldLines (if b then fields else []) := by
    intro b fields
    cases b <;> simp [fieldLines]
  have hone : ∀ f : Bytes × Bytes, fieldLines [f] = writeFieldLine f.1 f.2 := by
    intro f
    simp [fieldLines]
  rw [hdate, hif]
  cases connectionField version keepAlive with
  | none =>
      simp only [Option.map_none, Option.toList_none, ite_self, List.append_assoc]
      rfl
  | some token =>
      simp only [Option.map_some, Option.toList_some]
      by_cases h101 : resp.status ≠ 101
      · simp only [if_pos h101, hone, List.append_assoc]
      · simp only [if_neg h101, List.append_assoc]
        rfl

theorem writes_known {k : HeaderId} (hk : k ∈ HeaderId.wellKnown) {v : Bytes}
    (hv : validFieldValue v = true) : Writes (k.asStr, v) :=
  ⟨HeaderId.isToken_asStr hk, hv⟩

/-- Every field of a head stands on a line of its own. -/
theorem writes_headFields (version : Version) (resp : ResponseHead) (body : OutBody) {date : Bytes}
    (keepAlive headRequest : Bool) (hdate : validFieldValue date = true) :
    ∀ f ∈ headFields version resp body date keepAlive headRequest, Writes f := by
  intro f hf
  unfold headFields at hf
  simp only [List.mem_append] at hf
  rcases hf with ((hf | hf) | hf) | hf
  · obtain ⟨g, -, hg⟩ := List.mem_filterMap.mp hf
    exact (writes_writtenField hg).1
  · split at hf
    · cases hf
    · rw [List.mem_singleton] at hf
      subst hf
      exact writes_known (k := .date) (by decide) hdate
  · split at hf
    · cases body with
      | none =>
          rw [framingField, List.mem_singleton] at hf
          subst hf
          exact writes_known (k := .contentLength) (by decide) (by decide)
      | fixed b =>
          rw [framingField, List.mem_singleton] at hf
          subst hf
          exact writes_known (k := .contentLength) (by decide) (isDigits_writeU64 b.length).writes
      | chunked =>
          rw [framingField] at hf
          split at hf
          · cases hf
          · rw [List.mem_singleton] at hf
            subst hf
            exact writes_known (k := .transferEncoding) (by decide) (by decide)
    · cases hf
  · split at hf
    · rw [Option.mem_toList, Option.map_eq_some_iff] at hf
      obtain ⟨token, htoken, rfl⟩ := hf
      refine writes_known (k := .connection) (by decide) ?_
      cases version <;> cases keepAlive <;> cases htoken <;> decide
    · cases hf

/-! ## 6. The length of the body -/

theorem values_append (name : Bytes) (xs ys : List (Bytes × Bytes)) :
    values name (xs ++ ys) = values name xs ++ values name ys := by
  simp [values]

theorem values_trimmed (name : Bytes) (fields : List (Bytes × Bytes)) :
    values name (fields.map fun f => (f.1, trimOws f.2)) = (values name fields).map trimOws := by
  induction fields with
  | nil => rfl
  | cons f fields ih =>
      simp only [values, List.map_cons, List.filter_cons] at ih ⊢
      split <;> simp [ih]

/-- Nothing that is added behind the handler's fields is a coding, and the
only length is the framing field. -/
theorem values_added {k : HeaderId} (hk : k = .contentLength ∨ k = .transferEncoding)
    (date : Bytes) (hasDate : Bool) (token : Option Bytes) :
    values k.asStr (if hasDate then [] else [(ascii "date", date)]) = [] ∧
      values k.asStr (token.map fun token => (ascii "connection", token)).toList = [] := by
  have hdate : eqIgnoreAsciiCase (ascii "date") k.asStr = false := by
    rcases hk with rfl | rfl <;> decide
  have hconn : eqIgnoreAsciiCase (ascii "connection") k.asStr = false := by
    rcases hk with rfl | rfl <;> decide
  refine ⟨?_, ?_⟩
  · cases hasDate <;> simp [values, hdate]
  · cases token <;> simp [values, hconn]

theorem framingField_values {body : OutBody} {n : Nat} (hbody : body.len = some n) (hn : n < 2 ^ 64)
    (closeDelimited : Bool) :
    values HeaderId.transferEncoding.asStr (framingField body closeDelimited) = [] ∧
      ∃ v, values HeaderId.contentLength.asStr (framingField body closeDelimited) = [v] ∧
        IsDigits v ∧ decimal v = n := by
  have hte : eqIgnoreAsciiCase (ascii "content-length") HeaderId.transferEncoding.asStr
      = false := by
    decide
  have hlen : eqIgnoreAsciiCase (ascii "content-length") HeaderId.contentLength.asStr = true := by
    decide
  cases body with
  | none =>
      cases hbody
      exact ⟨by simp [values, framingField, hte], ascii "0", by simp [values, framingField, hlen],
        ⟨by decide, List.all_eq_true.mp (by decide)⟩, by decide⟩
  | fixed b =>
      cases hbody
      obtain ⟨hdigits, hdecimal⟩ := writeU64_spec hn
      exact ⟨by simp [values, framingField, hte], writeU64 b.length,
        by simp [values, framingField, hlen], hdigits, hdecimal⟩
  | chunked => cases hbody

end ArmatureH1
