/-
ArmatureH1.ResponseFraming — the framing fields of a response.

The writer walks over the handler's fields, judges their lengths and their
codings (`verdictLen`, `verdictTe`), and frames the body itself unless the
handler has. What matters is what ends up on the lines: which lengths and
codings of the handler are kept (`keptLengths`, `keptCodings`), and what the
writer adds to them (`lengths_headFields_eq`, `codings_headFields_eq`). A
kept coding is the only one and delimits a stream; a kept length is the only
one and never stands beside a coding. So a head has one framing field, and it
is the right one (`response_framing`).
-/
import ArmatureH1.HeadLines

namespace ArmatureH1

open ByteString Client

/-! ## 1. What is kept of the handler's framing -/

section Kept

variable (version : Version) (resp : ResponseHead) (body : OutBody) (headRequest : Bool)

/-- The writer's verdict on the codings of a handler. -/
def verdictTe : Bool :=
  staleTransferEncoding (FieldScan.ofHeaders resp.headers) body
    (version == .http10 && body == .chunked) resp.status

/-- The writer's verdict on the lengths of a handler. -/
def verdictLen : Bool :=
  staleContentLength (FieldScan.ofHeaders resp.headers) body resp.status headRequest
    (verdictTe version resp body)

/-- The codings of a handler that are written. -/
def keptCodings : List Bytes :=
  if verdictTe version resp body then [] else writableValues .transferEncoding resp.headers

/-- The lengths of a handler that are written. -/
def keptLengths : List Bytes :=
  if verdictLen version resp body headRequest then []
  else writableValues .contentLength resp.headers

end Kept

section Verdicts

variable (version : Version) (resp : ResponseHead) (body : OutBody) (headRequest : Bool)

/-- A coding that is kept is alone, and it delimits a stream. -/
theorem keptCodings_cases :
    keptCodings version resp body = [] ∨
      ∃ v, keptCodings version resp body = [v] ∧ version = .http11 ∧ body = .chunked ∧
        forbidsBodyFraming resp.status = false ∧ teFramesChunked v = true := by
  by_cases hkept : verdictTe version resp body = true
  · exact Or.inl (by simp [keptCodings, hkept])
  · obtain ⟨-, -, hte, hcount⟩ := scan_spec resp.headers
    rw [Bool.not_eq_true] at hkept
    have hcodings : keptCodings version resp body
        = writableValues .transferEncoding resp.headers := by
      simp [keptCodings, hkept]
    rw [hcodings]
    rw [verdictTe, staleTransferEncoding, hte, hcount] at hkept
    cases hvalues : writableValues .transferEncoding resp.headers with
    | nil => exact Or.inl rfl
    | cons v rest =>
        rw [hvalues, List.head?_cons, Option.any_some] at hkept
        simp only [Bool.or_eq_false_iff, decide_eq_false_iff_not, bne_eq_false_iff_eq,
          Bool.not_eq_false'] at hkept
        obtain ⟨⟨⟨⟨hone, hbody⟩, hdelimited⟩, hforbids⟩, hframes⟩ := hkept
        have hrest : rest = [] := List.length_eq_zero_iff.mp (by simp at hone; simpa using hone)
        refine Or.inr ⟨v, by rw [hrest], ?_, hbody, hforbids, hframes⟩
        cases version with
        | http10 => rw [hbody] at hdelimited; cases hdelimited
        | http11 => rfl

/-- When a length of a handler is not stale. -/
theorem not_stale {headRequest : Bool} {v : Bytes} {instances status : Nat} {bodyLen : Option Nat}
    {competingTe : Bool}
    (h : handlerLengthIsStale v instances status headRequest bodyLen competingTe = false) :
    instances ≤ 1 ∧ (forbidsBodyFraming status = true → status = 304) ∧ (parseLen v).isSome = true ∧
      (status = 304 ∨ headRequest = true → competingTe = false) ∧
      (status ≠ 304 → headRequest = false → parseLen v = bodyLen) := by
  unfold handlerLengthIsStale at h
  split at h
  · cases h
  · rename_i hfirst
    rw [not_or, Bool.not_eq_true, Bool.and_eq_false_iff, Bool.not_eq_false',
      contentLengthIsDescriptive] at hfirst
    have hforbids : forbidsBodyFraming status = true → status = 304 := by
      intro hf
      rcases hfirst.2 with h' | h'
      · rw [hf] at h'; cases h'
      · simpa using h'
    split at h
    · rename_i hdescriptive
      rw [Bool.or_eq_false_iff, Option.isNone_eq_false_iff] at h
      refine ⟨by omega, hforbids, h.1, fun _ => h.2, ?_⟩
      intro h304 hhead
      simp [contentLengthIsDescriptive, h304, hhead] at hdescriptive
    · rename_i hdescriptive
      rw [Bool.or_eq_false_iff, Option.isNone_eq_false_iff, bne_eq_false_iff_eq] at h
      refine ⟨by omega, hforbids, by rw [h.2]; exact h.1, ?_, fun _ _ => h.2⟩
      intro hor
      exfalso
      apply hdescriptive
      simp only [contentLengthIsDescriptive, Bool.or_eq_true, beq_iff_eq, Bool.and_eq_true,
        Bool.not_eq_true']
      rcases hor with h304 | hhead
      · exact Or.inl h304
      · by_cases hf : forbidsBodyFraming status = true
        · exact Or.inl (hforbids hf)
        · exact Or.inr ⟨hhead, by simpa using hf⟩

/-- A length that is kept is alone, well formed, and not beside a coding. -/
theorem keptLengths_cases :
    keptLengths version resp body headRequest = [] ∨
      ∃ v, keptLengths version resp body headRequest = [v] ∧
        v ∈ writableValues .contentLength resp.headers ∧
        (forbidsBodyFraming resp.status = true → resp.status = 304) ∧
        (parseLen v).isSome = true ∧
        (resp.status = 304 ∨ headRequest = true → keptCodings version resp body = []) ∧
        (resp.status ≠ 304 → headRequest = false → parseLen v = body.len) := by
  by_cases hkept : verdictLen version resp body headRequest = true
  · exact Or.inl (by simp [keptLengths, hkept])
  · obtain ⟨hlen, hcount, hte, -⟩ := scan_spec resp.headers
    rw [Bool.not_eq_true] at hkept
    have hlengths : keptLengths version resp body headRequest
        = writableValues .contentLength resp.headers := by simp [keptLengths, hkept]
    rw [hlengths]
    rw [verdictLen, staleContentLength, hlen, hcount, hte] at hkept
    cases hvalues : writableValues .contentLength resp.headers with
    | nil => exact Or.inl rfl
    | cons v rest =>
        rw [hvalues, List.head?_cons, Option.any_some] at hkept
        obtain ⟨hone, hforbids, hparse, hcoding, hbody⟩ := not_stale hkept
        have hrest : rest = [] := List.length_eq_zero_iff.mp (by simpa using hone)
        refine Or.inr ⟨v, by rw [hrest], by simp, hforbids, hparse, fun hor => ?_, hbody⟩
        have hnone := hcoding hor
        rw [keptCodings]
        cases hverdict : verdictTe version resp body with
        | true => rfl
        | false =>
            rw [hverdict] at hnone
            simpa using hnone

end Verdicts

/-! ## 2. What is on the lines -/

section Lines

variable (version : Version) (resp : ResponseHead) (body : OutBody) (date : Bytes)
  (keepAlive headRequest : Bool)

/-- What the writer itself says about the length of the body. -/
def ownFraming : List (Bytes × Bytes) :=
  if keptLengths version resp body headRequest = [] ∧ keptCodings version resp body = [] ∧
      forbidsBodyFraming resp.status = false then
    framingField body (version == .http10 && body == .chunked)
  else []

/-- The handler framed the body when one of its framing fields is kept. -/
theorem handlerFramed_iff :
    ((!verdictLen version resp body headRequest
          && (FieldScan.ofHeaders resp.headers).handlerLen.isSome)
        || (!verdictTe version resp body && (FieldScan.ofHeaders resp.headers).handlerTe.isSome))
          = false ↔
      keptLengths version resp body headRequest = [] ∧ keptCodings version resp body = [] := by
  obtain ⟨hlen, -, hte, -⟩ := scan_spec resp.headers
  rw [hlen, hte, keptLengths, keptCodings]
  cases verdictLen version resp body headRequest <;> cases verdictTe version resp body <;>
    cases writableValues .contentLength resp.headers <;>
    cases writableValues .transferEncoding resp.headers <;> simp

theorem values_headFields {k : HeaderId} (hk : k = .contentLength ∨ k = .transferEncoding) :
    values k.asStr (headFields version resp body date keepAlive headRequest)
      = (if k = .contentLength then keptLengths version resp body headRequest
          else keptCodings version resp body)
        ++ values k.asStr (ownFraming version resp body headRequest) := by
  obtain ⟨hdate, -⟩ := values_added hk date (FieldScan.ofHeaders resp.headers).hasDate none
  obtain ⟨-, hconn⟩ := values_added hk date false (connectionField version keepAlive)
  have hhandler : values k.asStr (resp.headers.filterMap
      (writtenField (verdictLen version resp body headRequest) (verdictTe version resp body)))
        = if k = .contentLength then keptLengths version resp body headRequest
          else keptCodings version resp body := by
    rcases hk with rfl | rfl
    · rw [values_written (by decide) (by decide)]
      simp [keptLengths]
    · rw [values_written (by decide) (by decide)]
      simp [keptCodings]
  have hown : (if !((!verdictLen version resp body headRequest
          && (FieldScan.ofHeaders resp.headers).handlerLen.isSome)
        || (!verdictTe version resp body && (FieldScan.ofHeaders resp.headers).handlerTe.isSome))
          && !forbidsBodyFraming resp.status then
        framingField body (version == .http10 && body == .chunked) else [])
      = ownFraming version resp body headRequest := by
    unfold ownFraming
    have hiff := handlerFramed_iff version resp body headRequest
    by_cases hframed : keptLengths version resp body headRequest = [] ∧
      keptCodings version resp body = []
    · rw [hiff.mpr hframed]
      simp [hframed]
    · have htrue := (Bool.not_eq_false _).mp (hiff.not.mpr hframed)
      rw [htrue, if_neg (by simp), if_neg fun h => hframed ⟨h.1, h.2.1⟩]
  have hconn' : values k.asStr (if resp.status ≠ 101 then
      ((connectionField version keepAlive).map fun token => (ascii "connection", token)).toList
      else []) = [] := by
    split
    · exact hconn
    · rfl
  unfold verdictLen verdictTe at hhandler hown
  unfold headFields
  simp only [values_append]
  rw [hhandler, hdate, hown, hconn', List.append_nil, List.append_nil]

end Lines

/-! ## 3. One framing, and the right one -/

/-- The framing a body calls for: a stream is chunked where the version has
chunks and undelimited where it has not, anything else has its length. -/
def Truthful (version : Version) (body : OutBody) (lengths codings : List Bytes) : Prop :=
  match body with
  | .chunked =>
    lengths = [] ∧ match version with
      | .http10 => codings = []
      | .http11 => ∃ v, codings = [v] ∧ (codingsOf v).getLast?.any
          (eqIgnoreAsciiCase · (ascii "chunked")) = true
  | _ => codings = [] ∧ ∃ v, lengths = [v] ∧ IsDigits v ∧ body.len = some (decimal v)

/-- A well-formed length: decimal digits whose value fits a `u64`. -/
def WellFormedLength (v : Bytes) : Prop := IsDigits v ∧ decimal v < 2 ^ 64

theorem wellFormedLength_of_parseLen {v : Bytes} (h : (parseLen v).isSome = true) :
    WellFormedLength v := by
  obtain ⟨n, hn⟩ := Option.isSome_iff_exists.mp h
  obtain ⟨hdigits, hdecimal⟩ := parseLen_eq_some hn
  refine ⟨hdigits, ?_⟩
  unfold parseLen at hn
  split at hn
  · cases hn
  · split at hn
    · assumption
    · cases hn

/-- `te_frames_chunked` looks at the last coding that is not empty. -/
theorem getLast_of_teFramesChunked {v : Bytes} (h : teFramesChunked v = true) :
    (codingsOf v).getLast?.any (eqIgnoreAsciiCase · (ascii "chunked")) = true := by
  unfold teFramesChunked at h
  rw [Bool.and_eq_true] at h
  rw [codingsOf, ← List.head?_reverse, ← List.filter_reverse, List.head?_filter]
  exact h.2

/-- What the writer frames a body with. -/
theorem truthful_framingField {version : Version} {body : OutBody}
    (hbody : ∀ n, body.len = some n → n < 2 ^ 64) :
    Truthful version body
      (values HeaderId.contentLength.asStr
        (framingField body (version == .http10 && body == .chunked)))
      (values HeaderId.transferEncoding.asStr
        (framingField body (version == .http10 && body == .chunked))) := by
  cases body with
  | none =>
      obtain ⟨hte, v, hlen, hdigits, hdecimal⟩ := @framingField_values .none 0 rfl
        (hbody 0 rfl) (version == .http10 && OutBody.none == .chunked)
      exact ⟨hte, v, hlen, hdigits, by rw [hdecimal]; rfl⟩
  | fixed b =>
      obtain ⟨hte, v, hlen, hdigits, hdecimal⟩ := @framingField_values (.fixed b) b.length rfl
        (hbody b.length rfl) (version == .http10 && OutBody.fixed b == .chunked)
      exact ⟨hte, v, hlen, hdigits, by rw [hdecimal]; rfl⟩
  | chunked =>
      cases version with
      | http10 => exact ⟨rfl, rfl⟩
      | http11 => exact ⟨by decide, ascii "chunked", by decide, by decide⟩

/-- The framing of a status that allows one. -/
theorem truthful_headFields {version : Version} {resp : ResponseHead} {body : OutBody}
    (date : Bytes) (keepAlive : Bool) {headRequest : Bool}
    (hforbids : forbidsBodyFraming resp.status = false)
    (hbody : ∀ n, body.len = some n → n < 2 ^ 64) :
    Truthful version body
        (values HeaderId.contentLength.asStr
          (headFields version resp body date keepAlive headRequest))
        (values HeaderId.transferEncoding.asStr
          (headFields version resp body date keepAlive headRequest)) ∨
      (headRequest = true ∧ ∃ v,
        values HeaderId.contentLength.asStr
            (headFields version resp body date keepAlive headRequest) = [v] ∧
          values HeaderId.transferEncoding.asStr
            (headFields version resp body date keepAlive headRequest) = [] ∧
          v ∈ writableValues .contentLength resp.headers ∧ WellFormedLength v) := by
  have h304 : resp.status ≠ 304 := by
    intro h
    rw [h] at hforbids
    cases hforbids
  rw [values_headFields version resp body date keepAlive headRequest (Or.inl rfl),
    values_headFields version resp body date keepAlive headRequest (Or.inr rfl), if_pos rfl,
    if_neg (by simp)]
  rcases keptLengths_cases version resp body headRequest with
    hlen | ⟨v, hlen, hmem, -, hparse, hcoding, hagrees⟩
  · rcases keptCodings_cases version resp body with
      hte | ⟨w, hte, rfl, rfl, -, hframes⟩
    · -- neither field is kept: the writer frames the body
      have hown : ownFraming version resp body headRequest
          = framingField body (version == .http10 && body == .chunked) :=
        if_pos ⟨hlen, hte, hforbids⟩
      rw [hlen, hte, hown]
      exact Or.inl (truthful_framingField hbody)
    · have hown : ownFraming .http11 resp .chunked headRequest = [] :=
        if_neg fun h => by rw [hte] at h; exact absurd h.2.1 (by simp)
      rw [hlen, hte, hown]
      exact Or.inl ⟨rfl, w, rfl, getLast_of_teFramesChunked hframes⟩
  · have hown : ownFraming version resp body headRequest = [] :=
      if_neg fun h => by rw [hlen] at h; exact absurd h.1 (by simp)
    have hwell := wellFormedLength_of_parseLen hparse
    cases headRequest with
    | true =>
        rw [hlen, hcoding (Or.inr rfl), hown]
        exact Or.inr ⟨rfl, v, rfl, rfl, hmem, hwell⟩
    | false =>
        have hbodyLen := hagrees h304 rfl
        obtain ⟨n, hn⟩ := Option.isSome_iff_exists.mp hparse
        obtain ⟨hdigits, hdecimal⟩ := parseLen_eq_some hn
        rw [hn] at hbodyLen
        have hchunked : body ≠ .chunked := by
          rintro rfl
          cases hbodyLen
        have hte : keptCodings version resp body = [] := by
          rcases keptCodings_cases version resp body with
            hte | ⟨w, -, -, hbody', -⟩
          · exact hte
          · exact absurd hbody' hchunked
        rw [hlen, hte, hown]
        refine Or.inl ?_
        cases body with
        | chunked => exact absurd rfl hchunked
        | none => exact ⟨rfl, v, rfl, hdigits, by rw [hdecimal]; exact hbodyLen.symm⟩
        | fixed b => exact ⟨rfl, v, rfl, hdigits, by rw [hdecimal]; exact hbodyLen.symm⟩

/-- The framing of a status that forbids one: nothing, but for the length
that a 304 may quote. -/
theorem forbidden_headFields {version : Version} {resp : ResponseHead} {body : OutBody}
    (date : Bytes) (keepAlive headRequest : Bool)
    (hforbids : forbidsBodyFraming resp.status = true) :
    values HeaderId.transferEncoding.asStr
        (headFields version resp body date keepAlive headRequest) = [] ∧
      (values HeaderId.contentLength.asStr
          (headFields version resp body date keepAlive headRequest) = [] ∨
        (resp.status = 304 ∧ ∃ v, values HeaderId.contentLength.asStr
          (headFields version resp body date keepAlive headRequest) = [v] ∧
            WellFormedLength v)) := by
  have hown : ownFraming version resp body headRequest = [] :=
    if_neg fun h => by rw [hforbids] at h; exact absurd h.2.2 (by simp)
  rw [values_headFields version resp body date keepAlive headRequest (Or.inl rfl),
    values_headFields version resp body date keepAlive headRequest (Or.inr rfl), if_pos rfl,
    if_neg (by simp), hown]
  refine ⟨?_, ?_⟩
  · rcases keptCodings_cases version resp body with hte | ⟨w, -, -, -, hallowed, -⟩
    · rw [hte]
      rfl
    · rw [hforbids] at hallowed
      cases hallowed
  · rcases keptLengths_cases version resp body headRequest with
      hlen | ⟨v, hlen, -, h304, hparse, -, -⟩
    · rw [hlen]
      exact Or.inl rfl
    · rw [hlen]
      exact Or.inr ⟨h304 hforbids, v, rfl, wellFormedLength_of_parseLen hparse⟩

theorem Truthful.single {version : Version} {body : OutBody} {lengths codings : List Bytes}
    (h : Truthful version body lengths codings) :
    lengths.length ≤ 1 ∧ codings.length ≤ 1 ∧ (lengths = [] ∨ codings = []) := by
  unfold Truthful at h
  split at h
  · obtain ⟨rfl, h⟩ := h
    split at h
    · subst h
      simp
    · obtain ⟨v, rfl, -⟩ := h
      simp
  · obtain ⟨rfl, v, rfl, -⟩ := h
    simp

/-- **Response framing is single and truthful.** A written head has at most
one length and one coding and never both; a 1xx or a 204 has neither, and a
304 no coding and only a well-formed length. Every other status has exactly
the framing that its body calls for, except that the answer to a `HEAD` may
instead quote one well-formed length of the handler's. -/
theorem response_framing (version : Version) (resp : ResponseHead) (body : OutBody) (date : Bytes)
    (keepAlive headRequest : Bool) (hdate : validFieldValue date = true)
    (hbody : ∀ n, body.len = some n → n < 2 ^ 64) :
    ∃ fields lengths codings,
      HeadOf (writeHeadFor version resp body date keepAlive headRequest)
        (statusText version resp.status) fields ∧
      lengths = values (ascii "content-length") fields ∧
      codings = values (ascii "transfer-encoding") fields ∧
      lengths.length ≤ 1 ∧ codings.length ≤ 1 ∧ (lengths = [] ∨ codings = []) ∧
      (resp.status = 204 ∨ (100 ≤ resp.status ∧ resp.status < 200) → lengths = [] ∧ codings = []) ∧
      (resp.status = 304 → codings = [] ∧ ∀ v ∈ lengths, WellFormedLength v) ∧
      (¬ (resp.status = 204 ∨ resp.status = 304 ∨ (100 ≤ resp.status ∧ resp.status < 200)) →
        Truthful version body lengths codings ∨
          (headRequest = true ∧ codings = [] ∧ ∃ v, lengths = [v] ∧ WellFormedLength v ∧
            ∃ id, (id, v) ∈ resp.headers ∧ id.canonical = .contentLength)) := by
  refine ⟨_, _, _, headOf_writeHeadFor version resp body keepAlive headRequest hdate, rfl, rfl, ?_⟩
  have hforbids_iff : forbidsBodyFraming resp.status = true ↔
      resp.status = 204 ∨ resp.status = 304 ∨ (100 ≤ resp.status ∧ resp.status < 200) := by
    simp [forbidsBodyFraming, or_assoc]
  by_cases hforbids : forbidsBodyFraming resp.status = true
  · obtain ⟨hte, hlen⟩ := @forbidden_headFields version resp body date keepAlive
      headRequest hforbids
    have hte' : values (ascii "transfer-encoding")
        (headFields version resp body date keepAlive headRequest) = [] := hte
    have hlen' : values (ascii "content-length")
          (headFields version resp body date keepAlive headRequest) = [] ∨
        (resp.status = 304 ∧ ∃ v, values (ascii "content-length")
          (headFields version resp body date keepAlive headRequest) = [v] ∧
            WellFormedLength v) := hlen
    refine ⟨?_, by simp [hte'], Or.inr hte', ?_, ?_,
      fun hnot => absurd (hforbids_iff.mp hforbids) hnot⟩
    · rcases hlen' with hnil | ⟨-, v, hone, -⟩
      · simp [hnil]
      · simp [hone]
    · intro hstatus
      rcases hlen' with hnil | ⟨h304, -⟩
      · exact ⟨hnil, hte'⟩
      · omega
    · intro _
      refine ⟨hte', ?_⟩
      rcases hlen' with hnil | ⟨-, v, hone, hwell⟩
      · simp [hnil]
      · rw [hone]
        simpa using hwell
  · rw [Bool.not_eq_true] at hforbids
    have hnot := hforbids_iff.not.mp (by simp [hforbids])
    have hframed : Truthful version body
          (values (ascii "content-length")
            (headFields version resp body date keepAlive headRequest))
          (values (ascii "transfer-encoding")
            (headFields version resp body date keepAlive headRequest)) ∨ _ :=
      truthful_headFields date keepAlive hforbids hbody
    refine ⟨?_, ?_, ?_, fun h => absurd (h.imp_right Or.inr) hnot,
      fun h => absurd (Or.inr (Or.inl h)) hnot, fun _ => ?_⟩
    · rcases hframed with h | ⟨-, v, hlen, -⟩
      · exact h.single.1
      · exact hlen ▸ Nat.le_refl 1
    · rcases hframed with h | ⟨-, v, -, hte, -⟩
      · exact h.single.2.1
      · exact hte ▸ Nat.zero_le 1
    · rcases hframed with h | ⟨-, v, -, hte, -⟩
      · exact h.single.2.2
      · exact Or.inr hte
    · rcases hframed with h | ⟨hhead, v, hlen, hte, hmem, hwell⟩
      · exact Or.inl h
      · refine Or.inr ⟨hhead, hte, v, hlen, hwell, ?_⟩
        obtain ⟨f, hf, rfl⟩ := List.mem_map.mp hmem
        obtain ⟨hin, hcond⟩ := List.mem_filter.mp hf
        rw [Bool.and_eq_true, beq_iff_eq] at hcond
        exact ⟨f.1, hin, hcond.2⟩

/-- A handler that gives two lengths and a coding, none of them right. -/
def mislabelledHead : ResponseHead :=
  ⟨200, [(.contentLength, ascii "3"), (.other (.literal "Content-Length"), ascii "4"),
    (.transferEncoding, ascii "chunked")]⟩

theorem response_framing_mislabelled :
    ∃ fields, HeadOf (writeHeadFor .http11 mislabelledHead (.fixed (ascii "hello")) (ascii "now")
        true false) (statusText .http11 200) fields ∧
      values (ascii "transfer-encoding") fields = [] ∧
      ∃ v, values (ascii "content-length") fields = [v] ∧ decimal v = 5 := by
  obtain ⟨fields, lengths, codings, hhead, rfl, rfl, -, -, -, -, -, hframed⟩ :=
    response_framing .http11 mislabelledHead (.fixed (ascii "hello")) (ascii "now") true false
      (by decide) (fun n hn => by cases hn; decide)
  rcases hframed (by decide) with ⟨hte, v, hlen, -, hdecimal⟩ | ⟨h, -⟩
  · exact ⟨fields, hhead, hte, v, hlen, Option.some.inj hdecimal.symm⟩
  · cases h

/-! ## 4. The client's view -/

/-- A body that is not streamed has one length. -/
theorem Truthful.length {version : Version} {body : OutBody}
    {lengths codings : List Bytes} {n : Nat}
    (h : Truthful version body lengths codings) (hbody : body.len = some n) :
    codings = [] ∧ ∃ v, lengths = [v] ∧ IsDigits v ∧ decimal v = n := by
  cases body with
  | chunked => cases hbody
  | none =>
      obtain ⟨hte, v, hlen, hdigits, hdecimal⟩ := h
      exact ⟨hte, v, hlen, hdigits, Option.some.inj (hdecimal.symm.trans hbody)⟩
  | fixed b =>
      obtain ⟨hte, v, hlen, hdigits, hdecimal⟩ := h
      exact ⟨hte, v, hlen, hdigits, Option.some.inj (hdecimal.symm.trans hbody)⟩

/-- **A body that is not streamed has one length, and it is right.** -/
theorem framing_headFields (version : Version) (resp : ResponseHead) {body : OutBody} (date : Bytes)
    (keepAlive : Bool) {method : Method} {n : Nat} (hhead : method ≠ .head)
    (hconnect : method ≠ .connect) (hfinal : 200 ≤ resp.status)
    (hforbids : forbidsBodyFraming resp.status = false) (hbody : body.len = some n)
    (hn : n < 2 ^ 64) :
    framing method resp.status ((headFields version resp body date keepAlive false).map
      fun f => (f.1, trimOws f.2)) = some (.length n) := by
  have hnone : ¬ (method = .head ∨ resp.status < 200 ∨ resp.status = 204 ∨ resp.status = 304) := by
    simp only [forbidsBodyFraming, Bool.or_eq_false_iff, beq_eq_false_iff_ne] at hforbids
    rintro (h | h | h | h)
    · exact hhead h
    · omega
    · exact hforbids.1.1 h
    · exact hforbids.1.2 h
  have hfits : ∀ m, body.len = some m → m < 2 ^ 64 := by
    intro m hm
    rw [hbody] at hm
    cases hm
    exact hn
  rcases @truthful_headFields version resp body date keepAlive false hforbids hfits with
    htruthful | ⟨hfalse, -⟩
  · obtain ⟨hcodings, v, hv, hdigits, hdecimal⟩ := htruthful.length hbody
    have hte : values (ascii "transfer-encoding") ((headFields version resp body date keepAlive
        false).map fun f => (f.1, trimOws f.2)) = [] := by
      rw [values_trimmed]
      exact congrArg (List.map trimOws) hcodings
    have hlen : values (ascii "content-length") ((headFields version resp body date keepAlive
        false).map fun f => (f.1, trimOws f.2)) = [v] := by
      rw [values_trimmed]
      refine (congrArg (List.map trimOws) hv).trans ?_
      simp [hdigits.trimOws]
    have hok : ¬ (v = [] ∨ v.all isAsciiDigit = false) := by
      rintro (h | h)
      · exact hdigits.1 h
      · rw [List.all_eq_true.mpr hdigits.2] at h
        cases h
    unfold framing
    rw [if_neg hnone, if_neg (by simp [hconnect]), hte, hlen]
    simp only [ne_eq, not_true_eq_false, if_false, if_neg hok, hdecimal]
  · cases hfalse

end ArmatureH1
