/-
ArmatureH1.BridgeHead — which heads the two backends refuse.

The bridge and the native reader make the same checks of a request head: its
size, the number of its fields, its target, its declared length, and then
`decide`. They make them in a different order, and a head that breaks two
rules at once is answered by the rule that is checked first. Here both are
brought into closed form (`bridgeOutcome_eq`, `nativeOutcome_eq`) and
compared; `backends_refuse_alike_iff` says for exactly which heads the order
does not show.
-/
import ArmatureH1.Bridge
import ArmatureH1.FramingTheorems
import ArmatureH1.HeadLines
import ArmatureH1.FieldNames

namespace ArmatureH1

open ByteString Client

/-! ## 1. Request heads -/

/-- A request head as it is sent: a token, a visible target, and fields whose
values have no whitespace around them. -/
structure RequestHead where
  method : ByteStr
  target : ByteStr
  version : Version
  fields : List (ByteStr × Bytes)
  method_token : IsToken method.bytes
  target_ne : target.bytes ≠ []
  target_visible : ∀ b ∈ target.bytes, 0x20 < b ∧ b ≠ 0x7f
  name_token : ∀ f ∈ fields, IsToken f.1.bytes
  value_plain : ∀ f ∈ fields, ∀ b ∈ f.2, isCtl b = false
  value_trimmed : ∀ f ∈ fields, trimOws f.2 = f.2

/-- The minor version. -/
def Version.minor : Version → Nat
  | .http10 => 0
  | .http11 => 1

/-- `wire_version`. -/
def Version.wire : Version → WireVersion
  | .http10 => .http10
  | .http11 => .http11

namespace RequestHead

/-- The request line, without its CRLF. -/
def requestLine (r : RequestHead) : Bytes :=
  r.method.bytes ++ [SP] ++ r.target.bytes ++ [SP] ++ r.version.asBytes

/-- The fields, as they stand on their lines. -/
def lines (r : RequestHead) : List Bytes := r.fields.map fun f => fieldText (f.1.bytes, f.2)

/-- The head on the wire. -/
def render (r : RequestHead) : Bytes := joinLines (r.requestLine :: r.lines) ++ crlf

/-- The head, parsed. -/
def head (r : RequestHead) : Head where
  method := bridgeMethod r.method
  target := r.target
  version := r.version
  headers := r.fields.map fun f => (intern f.1, f.2)

/-- The values of the `Content-Length` fields. -/
def lengths (r : RequestHead) : List Bytes := r.head.all .contentLength

/-- The lengths are well formed, and they agree. -/
def LengthsAgree (r : RequestHead) : Prop :=
  ∃ n < 2 ^ 64, ∀ e ∈ r.lengths.flatMap fun v => (v.splitOn 44).map trimOws,
    IsDigits e ∧ decimal e = n

/-- What hyper hands to the bridge, with the fields in the order in which the
`HeaderMap` gives them. -/
def parts (r : RequestHead) (headers : List (ByteStr × Bytes)) : Parts :=
  ⟨r.method, r.target, r.version.wire, headers⟩

end RequestHead

/-- The fields that a `HeaderMap` holds. -/
def mapFields (headers : List (ByteStr × Bytes)) : List (Bytes × Bytes) :=
  headers.map fun f => (f.1.bytes, f.2)

/-- Fields with their names in lowercase. -/
def lowerFields (fields : List (ByteStr × Bytes)) : List (Bytes × Bytes) :=
  fields.map fun f => (lowercase f.1.bytes, f.2)

/-- The values under a name. -/
def namedValues (name : Bytes) (fields : List (Bytes × Bytes)) : List Bytes :=
  (fields.filter fun f => f.1 == name).map Prod.snd

/-- A `HeaderMap` carries fields faithfully: all of them and no others, their
names in lowercase, and those of one name in their order. -/
structure Carried (fields headers : List (ByteStr × Bytes)) : Prop where
  perm : (mapFields headers).Perm (lowerFields fields)
  order : ∀ name, namedValues name (mapFields headers) = namedValues name (lowerFields fields)

/-- `httparse` splits a head on the wire, unless its scratch array is too
small. -/
def SplitsHead (httparse : Httparse) (r : RequestHead) : Prop :=
  ∀ slots, httparse slots r.render =
    if r.fields.length ≤ slots then
      .ok (some ⟨some r.method.bytes, some r.target.bytes, some r.version.minor,
        r.fields.map fun f => (f.1.bytes, f.2)⟩)
    else .error .tooManyHeaders

/-! ## 2. Outcomes -/

/-- `framing::decide` on a head that was accepted so far. -/
def framed (h : Head) (limits : Limits) : Except Nat (Head × BodyKind) :=
  match decideFraming h limits with
  | .error e => .error e.status
  | .ok kind => .ok (h, kind)

/-- `convert_head` and `decide`. -/
def bridgeOutcome (parts : Parts) (limits : Limits) : Except Nat (Head × BodyKind) :=
  match convertHead parts limits with
  | .error status => .error status
  | .ok h => framed h limits

/-- `parse_head_region` and `decide`. -/
def nativeOutcome (httparse : Httparse) (region : Bytes) (limits : Limits) :
    Except Nat (Head × BodyKind) :=
  match parseHeadRegion httparse region limits with
  | .error e => .error e.status
  | .ok h => framed h limits

/-- Equal heads, up to the order of differently named fields. -/
structure SameHead (h h' : Head) : Prop where
  method : h.method = h'.method
  target : h.target = h'.target
  version : h.version = h'.version
  perm : h.headers.Perm h'.headers
  all : ∀ id, h.all id = h'.all id

/-- The same refusals, and otherwise the same framing of the same head. -/
structure Agree (x y : Except Nat (Head × BodyKind)) : Prop where
  refused : ∀ status, x = .error status ↔ y = .error status
  accepted : ∀ h kind h' kind', x = .ok (h, kind) → y = .ok (h', kind') →
    kind = kind' ∧ SameHead h h'

theorem agree_error (status : Nat) : Agree (.error status) (.error status) :=
  ⟨fun _ => Iff.rfl, fun _ _ _ _ h => by cases h⟩

theorem not_agree_error {s s' : Nat} (h : s ≠ s') : ¬ Agree (.error s) (.error s') := by
  intro hagree
  have hsame := (hagree.refused s).mp rfl
  exact h (Except.error.inj hsame).symm

/-! ## 3. Names and fields -/

/-- Letter case does not matter to the parsers. -/
theorem fieldId_lowercase (name : ByteStr) :
    fieldId (lowercase name.bytes) = some (intern name) := by
  rw [fieldId_eq ⟨lowercase name.bytes, isUtf8_lowercase name.utf8⟩, Option.some.injEq,
    intern_eq_intern_iff]
  exact lowercase_idem name.bytes

/-- The bridge gives a name the id that `intern` gives it. -/
theorem bridgeId_eq (name : ByteStr) : bridgeId name = intern name := by
  unfold bridgeId intern
  cases HeaderId.fromBytes name.bytes <;> rfl

/-- The id of a name as it stands in a `HeaderMap`. -/
def idOf (f : Bytes × Bytes) : HeaderId × Bytes := ((fieldId f.1).getD .host, f.2)

theorem map_idOf_mapFields (headers : List (ByteStr × Bytes)) :
    (mapFields headers).map idOf = headers.map fun f => (bridgeId f.1, f.2) := by
  rw [mapFields, List.map_map]
  refine List.map_congr_left fun f _ => ?_
  simp [idOf, fieldId_eq, bridgeId_eq]

theorem map_idOf_lowerFields (fields : List (ByteStr × Bytes)) :
    (lowerFields fields).map idOf = fields.map fun f => (intern f.1, f.2) := by
  rw [lowerFields, List.map_map]
  refine List.map_congr_left fun f _ => ?_
  simp [idOf, fieldId_lowercase]

/-- In lowercase fields, the fields of an id are those of one name. -/
theorem all_idOf {fields : List (ByteStr × Bytes)} {l : List (Bytes × Bytes)} {p : Bytes × Bytes}
    (hl : ∀ q ∈ l, q ∈ lowerFields fields) (hp : p ∈ lowerFields fields) :
    HeaderVec.all (l.map idOf) (idOf p).1 = namedValues p.1 l := by
  have hname : ∀ q ∈ lowerFields fields, ((idOf q).1).asStr = q.1 := by
    intro q hq
    obtain ⟨f, -, rfl⟩ := List.mem_map.mp hq
    simp [idOf, fieldId_lowercase, asStr_intern]
  have hsame : ∀ q ∈ l, (idOf q).1 = (idOf p).1 ↔ q.1 = p.1 := by
    intro q hq
    constructor
    · intro h
      rw [← hname q (hl q hq), h, hname p hp]
    · intro h
      rw [idOf, idOf, h]
  rw [HeaderVec.all, namedValues, List.filter_map, List.map_map]
  have hfilter : l.filter ((fun f : HeaderId × Bytes => f.1 == (idOf p).1) ∘ idOf)
      = l.filter fun f => f.1 == p.1 := by
    refine List.filter_congr fun q hq => ?_
    rw [Bool.eq_iff_iff]
    simpa using hsame q hq
  rw [hfilter]
  rfl

namespace Carried

variable {fields headers : List (ByteStr × Bytes)}

/-- The same fields, as the two backends hold them. -/
theorem ids_perm (h : Carried fields headers) :
    (headers.map fun f => (bridgeId f.1, f.2)).Perm (fields.map fun f => (intern f.1, f.2)) := by
  rw [← map_idOf_mapFields, ← map_idOf_lowerFields]
  exact h.perm.map idOf

/-- The fields of one id have the same values in the same order. -/
theorem ids_all (h : Carried fields headers) (id : HeaderId) :
    HeaderVec.all (headers.map fun f => (bridgeId f.1, f.2)) id
      = HeaderVec.all (fields.map fun f => (intern f.1, f.2)) id := by
  by_cases hp : ∃ p ∈ lowerFields fields, (idOf p).1 = id
  · obtain ⟨p, hp, rfl⟩ := hp
    rw [← map_idOf_mapFields, ← map_idOf_lowerFields,
      all_idOf (fun q hq => (h.perm.mem_iff).mp hq) hp, all_idOf (fun q hq => hq) hp]
    exact h.order p.1
  · have hnone : HeaderVec.all (fields.map fun f => (intern f.1, f.2)) id = [] := by
      rw [← map_idOf_lowerFields, HeaderVec.all, List.map_eq_nil_iff, List.filter_eq_nil_iff]
      intro q hq hid
      obtain ⟨p, hmem, rfl⟩ := List.mem_map.mp hq
      exact hp ⟨p, hmem, by simpa using hid⟩
    rw [hnone, HeaderVec.all, List.map_eq_nil_iff, List.filter_eq_nil_iff]
    intro q hq hid
    have hq' := (h.ids_perm.mem_iff).mp hq
    rw [HeaderVec.all, List.map_eq_nil_iff, List.filter_eq_nil_iff] at hnone
    exact hnone q hq' hid

theorem length_eq (h : Carried fields headers) : headers.length = fields.length := by
  simpa [mapFields, lowerFields] using h.perm.length_eq

end Carried

/-! ## 4. The declared length -/

/-- What the bridge reads from one `Content-Length` value. -/
def declaredOf (v : Bytes) : Option Nat := if isUtf8 v = true then parseU64 (trim v) else none

/-- A byte of none of the strings is not stripped. -/
theorem mem_stripAny {chars : List Bytes} {b : UInt8} (hb : ∀ c ∈ chars, b ∉ c) (fuel : Nat)
    {s : Bytes} (h : b ∈ s) : b ∈ stripAny chars fuel s := by
  induction fuel generalizing s with
  | zero => exact h
  | succ fuel ih =>
      rw [stripAny]
      cases hfind : chars.find? (·.isPrefixOf s) with
      | none => exact h
      | some c =>
          apply ih
          have hpre : c.isPrefixOf s = true :=
            List.find?_some (p := fun c : Bytes => c.isPrefixOf s) hfind
          obtain ⟨rest, rfl⟩ := List.isPrefixOf_iff_prefix.mp hpre
          rw [List.drop_left]
          exact (List.mem_append.mp h).resolve_left (hb c (List.mem_of_find?_eq_some hfind))

theorem mem_trim {b : UInt8} (hb : ∀ c ∈ whitespaceChars, b ∉ c) {s : Bytes} (h : b ∈ s) :
    b ∈ trim s := by
  unfold trim
  rw [List.mem_reverse]
  refine mem_stripAny ?_ _ (List.mem_reverse.mpr (mem_stripAny hb _ h))
  intro c hc
  obtain ⟨d, hd, rfl⟩ := List.mem_map.mp hc
  rw [List.mem_reverse]
  exact hb d hd

/-- A string that begins with a digit has nothing to be stripped. -/
theorem stripAny_of_digit {chars : List Bytes}
    (hchars : chars.all (fun c => c.head?.any fun b => !isAsciiDigit b) = true) (fuel : Nat)
    {b : UInt8}
    (hb : isAsciiDigit b = true) (s : Bytes) : stripAny chars fuel (b :: s) = b :: s := by
  cases fuel with
  | zero => rfl
  | succ fuel =>
      have hfind : chars.find? (·.isPrefixOf (b :: s)) = none := by
        rw [List.find?_eq_none]
        intro c hc hpre
        have hhead := List.all_eq_true.mp hchars c hc
        cases c with
        | nil => cases hhead
        | cons d c =>
            have hdb : d = b := by simp [List.isPrefixOf] at hpre; exact hpre.1
            simp [hdb, hb] at hhead
      rw [stripAny, hfind]

theorem trim_of_isDigits {v : Bytes} (h : IsDigits v) : trim v = v := by
  have hfront : ∀ fuel, stripAny whitespaceChars fuel v = v := by
    intro fuel
    obtain ⟨b, v, rfl⟩ := List.exists_cons_of_ne_nil h.1
    exact stripAny_of_digit (by decide) fuel (h.2 b (by simp)) v
  have hback : ∀ fuel, stripAny (whitespaceChars.map List.reverse) fuel v.reverse = v.reverse := by
    intro fuel
    obtain ⟨b, w, hw⟩ := List.exists_cons_of_ne_nil (List.reverse_ne_nil_iff.mpr h.1)
    rw [hw]
    exact stripAny_of_digit (by decide) fuel
      (h.2 b (List.mem_reverse.mp (hw ▸ List.mem_cons_self))) w
  unfold trim
  simp only [hfront, hback, List.reverse_reverse]

/-- A plain number is read. -/
theorem declaredOf_of_isDigits {v : Bytes} (h : IsDigits v) (hlt : decimal v < 2 ^ 64) :
    declaredOf v = some (decimal v) := by
  have hascii : isAscii v = true := by
    rw [isAscii, List.all_eq_true]
    intro b hb
    have hdigit := h.2 b hb
    rw [isAsciiDigit, Bool.and_eq_true, decide_eq_true_eq, decide_eq_true_eq] at hdigit
    have hnine : (57 : UInt8) < 128 := by decide
    exact decide_eq_true (UInt8.lt_of_le_of_lt hdigit.2 hnine)
  have hparse : parseLen v = some (decimal v) := by
    unfold parseLen
    rw [if_neg (by rw [not_or, Bool.not_eq_false, List.all_eq_true]; exact h), if_pos hlt]
  rw [declaredOf, if_pos (isUtf8_of_isAscii hascii), trim_of_isDigits h]
  unfold parseU64
  split
  · exact absurd (h.2 0x2b (by simp)) (by decide)
  · exact hparse

/-- A list is not. -/
theorem declaredOf_of_comma {v : Bytes} (h : 44 ∈ v) : declaredOf v = none := by
  have hcomma : 44 ∈ trim v := by
    refine mem_trim ?_ h
    have hall : whitespaceChars.all (fun c => !c.contains 44) = true := by decide
    intro c hc
    simpa using List.all_eq_true.mp hall c hc
  have hno : ∀ w : Bytes, 44 ∈ w → parseLen w = none := by
    intro w hw
    cases hparse : parseLen w with
    | none => rfl
    | some n => exact absurd ((parseLen_eq_some hparse).1.2 44 hw) (by decide)
  unfold declaredOf
  split
  · unfold parseU64
    split
    · rename_i digits hdigits
      rw [hdigits] at hcomma
      exact hno digits ((List.mem_cons.mp hcomma).resolve_left (by decide))
    · exact hno _ hcomma
  · rfl

/-- What the loop of `convert_head` adds up to. -/
theorem convertLoop_foldl (headers : List (ByteStr × Bytes)) (s : ConvertLoop) :
    (headers.foldl ConvertLoop.step s).cumulative
        = s.cumulative + (headers.map fun f => f.1.bytes.length + 2 + f.2.length + 2).sum ∧
      (headers.foldl ConvertLoop.step s).headers
        = s.headers ++ headers.map (fun f => (bridgeId f.1, f.2)) ∧
      (headers.foldl ConvertLoop.step s).declaredLen
        = (HeaderVec.all (headers.map fun f => (bridgeId f.1, f.2)) .contentLength).foldl
            (fun d v => (declaredOf v).or d) s.declaredLen := by
  induction headers generalizing s with
  | nil => exact ⟨rfl, (List.append_nil _).symm, rfl⟩
  | cons f headers ih =>
      obtain ⟨hcum, hheaders, hdeclared⟩ := ih (s.step f)
      have hstep : (s.step f).declaredLen
          = if bridgeId f.1 = .contentLength then (declaredOf f.2).or s.declaredLen
            else s.declaredLen := by
        simp only [ConvertLoop.step, declaredOf]
        by_cases hid : bridgeId f.1 = .contentLength <;> by_cases hutf : isUtf8 f.2 = true <;>
          simp [hid, hutf]
      refine ⟨?_, ?_, ?_⟩
      · rw [List.foldl_cons, hcum, List.map_cons, List.sum_cons]
        simp only [ConvertLoop.step]
        omega
      · rw [List.foldl_cons, hheaders, List.map_cons]
        simp [ConvertLoop.step]
      · rw [List.foldl_cons, hdeclared, hstep, List.map_cons]
        by_cases hid : bridgeId f.1 = .contentLength <;> simp [HeaderVec.all, hid]

/-- Where the numbers that are read agree, it does not matter which one is
read last. -/
theorem foldl_declared {values : List Bytes} {n : Nat} {d : Option Nat} {p : Nat → Bool}
    (hd : d = none ∨ d = some n) (h : ∀ v ∈ values, declaredOf v = none ∨ declaredOf v = some n) :
    (values.foldl (fun d v => (declaredOf v).or d) d).any p = true ↔
      d.any p = true ∨ ∃ v ∈ values, (declaredOf v).any p = true := by
  induction values generalizing d with
  | nil => simp
  | cons v values ih =>
      have hrest := fun w hw => h w (List.mem_cons_of_mem v hw)
      rw [List.foldl_cons]
      rcases h v (by simp) with hv | hv
      · rw [hv, Option.none_or, ih hd hrest]
        simp [hv]
      · rw [hv, Option.some_or, ih (Or.inr rfl) hrest]
        rcases hd with rfl | rfl <;> simp [hv]

namespace RequestHead

/-- Some `Content-Length` value is one number, and a number above the limit. -/
def DeclaresTooMuch (r : RequestHead) (limits : Limits) : Prop :=
  ∃ v ∈ r.lengths, IsDigits v ∧ limits.maxBodyBytes < decimal v

/-- A well-formed value is one number or a list with a comma. -/
theorem declaredOf_lengths {r : RequestHead} (h : r.LengthsAgree) :
    ∃ n < 2 ^ 64, ∀ v ∈ r.lengths,
      (44 ∉ v ∧ IsDigits v ∧ decimal v = n ∧ declaredOf v = some n) ∨
        (44 ∈ v ∧ ¬ IsDigits v ∧ declaredOf v = none) := by
  obtain ⟨n, hn, hall⟩ := h
  refine ⟨n, hn, ?_⟩
  intro v hv
  by_cases hcomma : 44 ∈ v
  · exact Or.inr ⟨hcomma, fun hdigits => absurd (hdigits.2 44 hcomma) (by decide),
      declaredOf_of_comma hcomma⟩
  · have htrim : trimOws v = v := by
      obtain ⟨f, hf, rfl⟩ : ∃ f ∈ r.fields, f.2 = v := by
        simp only [lengths, Head.all, HeaderVec.all, head, List.mem_map, List.mem_filter] at hv
        obtain ⟨q, ⟨⟨f, hf, rfl⟩, -⟩, rfl⟩ := hv
        exact ⟨f, hf, rfl⟩
      exact r.value_trimmed f hf
    have hone := hall (trimOws v) (by
      rw [List.mem_flatMap]
      exact ⟨v, hv, by rw [List.splitOn_eq_singleton hcomma]; simp⟩)
    rw [htrim] at hone
    refine Or.inl ⟨hcomma, hone.1, hone.2, ?_⟩
    rw [declaredOf_of_isDigits hone.1 (by omega), hone.2]

end RequestHead

/-! ## 5. Closed forms -/

namespace RequestHead

variable (r : RequestHead)

/-- The target is one that the parser takes. -/
def TargetOk : Prop := validateRequestTarget r.target.bytes (bridgeMethod r.method) = .ok ()

/-- The scratch arrays of the native parser are too small for the fields. -/
def Spills (limits : Limits) : Prop :=
  headerScratchTier1 < r.fields.length ∧
    (limits.maxHeaders ≤ headerScratchTier1 ∨ maxHeadersCeiling < r.fields.length)

/-- The bridge counts the bytes of the head exactly. -/
theorem length_render : r.render.length
    = r.method.bytes.length + r.target.bytes.length + requestLineFixed + headTerminator
      + (r.fields.map fun f => f.1.bytes.length + 2 + f.2.length + 2).sum := by
  have hversion : r.version.asBytes.length = 8 := by cases r.version <;> rfl
  have hfields : (joinLines r.lines).length
      = (r.fields.map fun f => f.1.bytes.length + 2 + f.2.length + 2).sum := by
    have hcolon : (ascii ": ").length = 2 := by decide
    rw [lines, joinLines, List.length_flatMap, List.map_map]
    congr 1
    refine List.map_congr_left fun f _ => ?_
    simp only [Function.comp_apply, fieldText, List.length_append, hcolon, length_crlf]
  rw [render, joinLines_cons, requestLine]
  simp only [List.length_append, hversion, hfields, length_crlf, List.length_singleton,
    requestLineFixed, headTerminator]
  omega

/-- The head passes the prescan. -/
theorem prescan_render : prescan r.render = .ok () := by
  refine prescan_lines ?_ ?_
  · have hmethod : oneLine r.method.bytes = true :=
      oneLine_iff.mpr ⟨r.method_token.notMem (by decide), r.method_token.notMem (by decide)⟩
    have htarget : oneLine r.target.bytes = true := by
      refine oneLine_iff.mpr ⟨fun hmem => ?_, fun hmem => ?_⟩
      · exact absurd (r.target_visible CR hmem).1 (by decide)
      · exact absurd (r.target_visible LF hmem).1 (by decide)
    have hspace : oneLine [SP] = true := by decide
    have hversion : oneLine r.version.asBytes = true := by cases r.version <;> decide
    rw [requestLine, oneLine_append, oneLine_append, oneLine_append, oneLine_append,
      hmethod, htarget, hspace, hversion]
    rfl
  · intro line hline
    obtain ⟨f, hf, rfl⟩ := List.mem_map.mp hline
    refine headLine_fieldText ⟨r.name_token f hf, ?_⟩
    rw [validFieldValue_iff]
    intro b hb
    have hplain := r.value_plain f hf b hb
    refine ⟨?_, ?_, ?_⟩
    · rintro rfl
      exact absurd hplain (by decide)
    · rintro rfl
      exact absurd hplain (by decide)
    · rintro rfl
      exact absurd hplain (by decide)

theorem parseMethod_method : parseMethod r.method.bytes = .ok (bridgeMethod r.method) := by
  unfold parseMethod bridgeMethod
  cases Method.fromBytes r.method.bytes with
  | some m => rfl
  | none =>
      simp only [if_neg r.method_token.1, ByteStr.fromUtf8, r.method.utf8, dif_pos,
        Option.getD_none]

/-- What `finish_parse_head` makes of the tokens of the head. -/
theorem finishParseHead_tokens (limits : Limits) :
    finishParseHead (some ⟨some r.method.bytes, some r.target.bytes, some r.version.minor,
        r.fields.map fun f => (f.1.bytes, f.2)⟩) limits
      = match validateRequestTarget r.target.bytes (bridgeMethod r.method) with
        | .error e => .error e
        | .ok () =>
          if r.fields.length > limits.maxHeaders then .error .tooManyHeaders else .ok r.head := by
  have hversion : (some r.version.minor).bind Version.fromHttparse = some r.version := by
    cases r.version <;> rfl
  have htarget : ByteStr.fromUtf8 r.target.bytes = some r.target := by
    simp [ByteStr.fromUtf8, r.target.utf8]
  unfold finishParseHead
  simp only [hversion, r.parseMethod_method, htarget, parseFields_fields, List.length_map]
  rfl

end RequestHead

/-- A refusal of the target is a 400. -/
theorem validateRequestTarget_status {target : Bytes} {method : Method} {e : ParseError}
    (h : validateRequestTarget target method = .error e) : e.status = 400 := by
  unfold validateRequestTarget at h
  split at h
  · rename_i e' he
    cases h
    unfold validateTarget at he
    split at he
    · cases he
      rfl
    · cases he
  · unfold validateTargetForm at h
    repeat' split at h
    all_goals first
      | cases h; done
      | (cases h; rfl)

open Classical in
/-- The native reader: size, scratch, target, count, `decide`. -/
theorem nativeOutcome_eq {httparse : Httparse} {r : RequestHead} (hsplit : SplitsHead httparse r)
    (limits : Limits) :
    nativeOutcome httparse r.render limits
      = if limits.maxHeadBytes < r.render.length then .error 431
        else if r.Spills limits then .error 431
        else if ¬ r.TargetOk then .error 400
        else if limits.maxHeaders < r.fields.length then .error 431
        else framed r.head limits := by
  have htoo : mapHttparse .tooManyHeaders = .tooManyHeaders := rfl
  have hfinish : (match finishParseHead (some ⟨some r.method.bytes, some r.target.bytes,
        some r.version.minor, r.fields.map fun f => (f.1.bytes, f.2)⟩) limits with
      | .error e => (.error e.status : Except Nat (Head × BodyKind))
      | .ok h => framed h limits)
      = if ¬ r.TargetOk then .error 400
        else if limits.maxHeaders < r.fields.length then .error 431 else framed r.head limits := by
    rw [r.finishParseHead_tokens]
    unfold RequestHead.TargetOk
    cases htarget : validateRequestTarget r.target.bytes (bridgeMethod r.method) with
    | error e => simp [validateRequestTarget_status htarget]
    | ok u =>
        by_cases hcount : limits.maxHeaders < r.fields.length <;> simp [hcount, ParseError.status]
  unfold nativeOutcome parseHeadRegion
  by_cases hsize : limits.maxHeadBytes < r.render.length
  · simp [hsize, ParseError.status]
  · rw [if_neg hsize, if_neg hsize, r.prescan_render, hsplit, hsplit]
    by_cases hone : r.fields.length ≤ headerScratchTier1
    · have hfits : ¬ r.Spills limits := fun h => absurd h.1 (by omega)
      simp only [if_pos hone, if_neg hfits]
      exact hfinish
    · by_cases hmax : limits.maxHeaders ≤ headerScratchTier1
      · have hspills : r.Spills limits := ⟨by omega, Or.inl hmax⟩
        have hno : ¬ limits.maxHeaders > headerScratchTier1 := by omega
        simp only [if_neg hone, if_pos hspills, true_and, if_neg hno, htoo]
        rfl
      · have hyes : limits.maxHeaders > headerScratchTier1 := by omega
        by_cases htwo : r.fields.length ≤ maxHeadersCeiling
        · have hfits : ¬ r.Spills limits := fun h => h.2.elim hmax (by omega)
          simp only [if_neg hone, if_neg hfits, true_and, if_pos hyes, if_pos htwo]
          exact hfinish
        · have hspills : r.Spills limits := ⟨by omega, Or.inr (by omega)⟩
          simp only [if_neg hone, if_pos hspills, true_and, if_pos hyes, if_neg htwo, htoo]
          rfl

/-- The head that the bridge makes. -/
def RequestHead.bridged (r : RequestHead) (headers : List (ByteStr × Bytes)) : Head :=
  { r.head with headers := headers.map fun f => (bridgeId f.1, f.2) }

theorem sameHead_bridged {r : RequestHead} {headers : List (ByteStr × Bytes)}
    (h : Carried r.fields headers) : SameHead (r.bridged headers) r.head :=
  ⟨rfl, rfl, rfl, h.ids_perm, h.ids_all⟩

open Classical in
/-- The bridge: count, size, target, declared length, `decide`. -/
theorem bridgeOutcome_eq {r : RequestHead} {headers : List (ByteStr × Bytes)}
    (hcarried : Carried r.fields headers) (hlengths : r.LengthsAgree) (limits : Limits) :
    bridgeOutcome (r.parts headers) limits
      = if limits.maxHeaders < r.fields.length then .error 431
        else if limits.maxHeadBytes < r.render.length then .error 431
        else if ¬ r.TargetOk then .error 400
        else if r.DeclaresTooMuch limits then .error 413
        else framed (r.bridged headers) limits := by
  obtain ⟨hcum, hheaders, hdeclared⟩ := convertLoop_foldl headers ⟨r.method.bytes.length
    + r.target.bytes.length + requestLineFixed + headTerminator, [], none⟩
  have hsize : (headers.foldl ConvertLoop.step ⟨r.method.bytes.length
      + r.target.bytes.length + requestLineFixed + headTerminator, [], none⟩).cumulative
      = r.render.length := by
    rw [hcum, r.length_render]
    congr 1
    have hperm := (hcarried.perm.map fun p => p.1.length + 2 + p.2.length + 2).sum_nat
    simpa [mapFields, lowerFields, List.map_map, Function.comp_def] using hperm
  have hany : (headers.foldl ConvertLoop.step ⟨r.method.bytes.length
      + r.target.bytes.length + requestLineFixed + headTerminator, [], none⟩).declaredLen.any
        (· > limits.maxBodyBytes) = true ↔ r.DeclaresTooMuch limits := by
    obtain ⟨n, -, hvalues⟩ := RequestHead.declaredOf_lengths hlengths
    rw [hdeclared, hcarried.ids_all]
    have hboth : ∀ v ∈ r.lengths, declaredOf v = none ∨ declaredOf v = some n := by
      intro v hv
      rcases hvalues v hv with ⟨-, -, -, h⟩ | ⟨-, -, h⟩
      · exact Or.inr h
      · exact Or.inl h
    refine (foldl_declared (Or.inl rfl) hboth).trans ?_
    simp only [Option.any_none, Bool.false_eq_true, false_or, RequestHead.DeclaresTooMuch]
    refine exists_congr fun v => and_congr_right fun hv => ?_
    rcases hvalues v hv with ⟨-, hdigits, hvalue, h⟩ | ⟨-, hdigits, h⟩
    · simp [h, hdigits, hvalue]
    · simp [h, hdigits]
  have hversion : fromWire r.version.wire = some r.version := by cases r.version <;> rfl
  unfold bridgeOutcome convertHead RequestHead.parts
  simp only [hversion, hcarried.length_eq, hsize, gt_iff_lt]
  by_cases hcount : limits.maxHeaders < r.fields.length
  · simp [hcount]
  · by_cases htoo : limits.maxHeadBytes < r.render.length
    · simp [hcount, htoo]
    · simp only [if_neg hcount, if_neg htoo]
      unfold RequestHead.TargetOk
      cases htarget : validateRequestTarget r.target.bytes (bridgeMethod r.method) with
      | error e => simp
      | ok u =>
          by_cases hdeclares : r.DeclaresTooMuch limits
          · simp [hdeclares, hany.mpr hdeclares]
          · have hnot := hany.not.mpr hdeclares
            simp only [gt_iff_lt] at hnot
            simp only [if_neg hdeclares, if_neg hnot, hheaders, List.nil_append]
            rfl

/-! ## 6. Where the order shows -/

/-- `decide` cannot tell the two heads apart. -/
theorem agree_framed {h h' : Head} (hsame : SameHead h h') (limits : Limits) :
    Agree (framed h limits) (framed h' limits) := by
  have hdecide : decideFraming h limits = decideFraming h' limits :=
    decideFraming_congr hsame.method hsame.target hsame.version (fun id _ => hsame.all id) limits
  unfold framed
  rw [hdecide]
  cases decideFraming h' limits with
  | error e => exact agree_error e.status
  | ok kind =>
      refine ⟨fun status => iff_of_false (by simp) (by simp), ?_⟩
      intro g k g' k' hg hg'
      cases hg
      cases hg'
      exact ⟨rfl, hsame⟩

/-- The authority checks refuse with a 400. -/
theorem checkAuthority_status {h : Head} {e : FramingError} (herr : checkAuthority h = .error e) :
    e.status = 400 := by
  have hhost : ∀ {host e'}, hostAuthority host = .error e' → e'.status = 400 := by
    intro host e' h'
    unfold hostAuthority at h'
    repeat' split at h'
    all_goals first
      | cases h'; done
      | (cases h'; rfl)
  unfold checkAuthority at herr
  simp only at herr
  split at herr
  · rename_i e' he
    cases herr
    exact hhost he
  · repeat' split at herr
    all_goals first
      | cases herr; done
      | (cases herr; rfl)

/-- A head whose host is refused is refused with a 400. -/
theorem decideFraming_of_not_hostOk {h : Head} (hhost : ¬ HostOk h) (limits : Limits) :
    ∃ e, decideFraming h limits = .error e ∧ e.status = 400 := by
  unfold decideFraming
  simp only
  split
  · exact ⟨_, rfl, rfl⟩
  · rename_i hmissing
    split
    · exact ⟨_, rfl, rfl⟩
    · rename_i hmultiple
      cases hcheck : checkAuthority h with
      | error e => exact ⟨e, rfl, checkAuthority_status hcheck⟩
      | ok u =>
          refine absurd ⟨?_, hcheck⟩ hhost
          by_cases hzero : h.count .host = 0
          · refine Or.inr ⟨hzero, ?_⟩
            cases hversion : h.version with
            | http10 => rfl
            | http11 => exact absurd ⟨hzero, hversion⟩ hmissing
          · exact Or.inl (by omega)

/-- A length above the limit is a 413 only behind the other rules. -/
theorem framed_of_declares {r : RequestHead} (hlengths : r.LengthsAgree) {limits : Limits}
    (h : r.DeclaresTooMuch limits) :
    (HostOk r.head ∧ r.head.all .transferEncoding = [] → framed r.head limits = .error 413) ∧
      (¬ (HostOk r.head ∧ r.head.all .transferEncoding = []) →
        framed r.head limits = .error 400) := by
  obtain ⟨n, hn, hall⟩ := hlengths
  obtain ⟨v, hv, hdigits, htoo⟩ := h
  have hne : r.head.all .contentLength ≠ [] := List.ne_nil_of_mem hv
  have hvalue : decimal v = n := by
    have hcomma : 44 ∉ v := hdigits.notMem (by decide)
    refine (hall v ?_).2
    rw [List.mem_flatMap]
    exact ⟨v, hv, by rw [List.splitOn_eq_singleton hcomma]; simp [hdigits.trimOws]⟩
  have hagree : agreeLengths none ((r.head.all .contentLength).flatMap (·.splitOn 44))
      = .ok (some n) :=
    (agreeLengths_values_iff hne).mpr ⟨hall, hn⟩
  constructor
  · rintro ⟨hhost, hte⟩
    have hlong : n > limits.maxBodyBytes := by omega
    unfold framed
    rw [decideFraming_of_hostOk hhost, if_neg (by simp [hte]), if_neg (by simp [hte]),
      if_pos hne, hagree]
    simp only [if_pos hlong]
    rfl
  · intro hnot
    by_cases hhost : HostOk r.head
    · have hte : r.head.all .transferEncoding ≠ [] := fun hte => hnot ⟨hhost, hte⟩
      unfold framed
      rw [decideFraming_of_hostOk hhost, if_pos ⟨hne, hte⟩]
      rfl
    · obtain ⟨e, he, hstatus⟩ := decideFraming_of_not_hostOk hhost limits
      unfold framed
      rw [he, ← hstatus]

/-- The heads for which the order of the checks does not show. -/
def RequestHead.OrderHidden (r : RequestHead) (limits : Limits) : Prop :=
  limits.maxHeadBytes < r.render.length ∨
    (limits.maxHeaders < r.fields.length ∧ (r.TargetOk ∨ r.Spills limits)) ∨
    (r.fields.length ≤ limits.maxHeaders ∧ r.fields.length ≤ maxHeadersCeiling ∧
      (¬ r.TargetOk ∨ ¬ r.DeclaresTooMuch limits ∨
        (HostOk r.head ∧ r.head.all .transferEncoding = [])))

/-- No rule about framing refuses a head for its size. -/
theorem framed_ne_tooLarge (h : Head) (limits : Limits) : framed h limits ≠ .error 431 := by
  intro hrefused
  unfold framed at hrefused
  split at hrefused
  · rename_i e _
    have hstatus : e.status = 431 := Except.error.inj hrefused
    cases e <;> cases hstatus
  · cases hrefused

/-- **Which heads the two backends refuse alike.** Let a head reach both: as
bytes that `httparse` splits, and as the parts that hyper made of it. They
refuse it with the same status, or accept it with the same framing and the
same fields, exactly when it is too long for both; or has too many fields
and a target that is taken, or more than the native scratch arrays hold; or
has not too many fields, not more than the ceiling of the scratch array, and
a target that is refused, no single `Content-Length` above the limit, or
nothing else for `decide` to refuse it for. -/
theorem backends_refuse_alike_iff {httparse : Httparse} {r : RequestHead}
    (hsplit : SplitsHead httparse r) {headers : List (ByteStr × Bytes)}
    (hcarried : Carried r.fields headers) (hlengths : r.LengthsAgree) (limits : Limits) :
    Agree (bridgeOutcome (r.parts headers) limits) (nativeOutcome httparse r.render limits)
      ↔ r.OrderHidden limits := by
  classical
  rw [bridgeOutcome_eq hcarried hlengths, nativeOutcome_eq hsplit]
  unfold RequestHead.OrderHidden
  by_cases hsize : limits.maxHeadBytes < r.render.length
  · -- both count the bytes first, or the bridge the fields
    have hbridge : ∀ x : Except Nat (Head × BodyKind),
        (if limits.maxHeaders < r.fields.length then .error 431
          else if limits.maxHeadBytes < r.render.length then .error 431 else x) = .error 431 := by
      intro x
      rw [if_pos hsize, ite_self]
    rw [hbridge, if_pos hsize]
    exact iff_of_true (agree_error 431) (Or.inl hsize)
  · by_cases hcount : limits.maxHeaders < r.fields.length
    · rw [if_pos hcount, if_neg hsize]
      by_cases hspills : r.Spills limits
      · rw [if_pos hspills]
        exact iff_of_true (agree_error 431) (Or.inr (Or.inl ⟨hcount, Or.inr hspills⟩))
      · rw [if_neg hspills]
        by_cases htarget : r.TargetOk
        · rw [if_neg (not_not.mpr htarget), if_pos hcount]
          exact iff_of_true (agree_error 431) (Or.inr (Or.inl ⟨hcount, Or.inl htarget⟩))
        · rw [if_pos htarget]
          refine iff_of_false (not_agree_error (by decide)) ?_
          rintro (h | ⟨-, h | h⟩ | ⟨h, -⟩)
          · exact hsize h
          · exact htarget h
          · exact hspills h
          · omega
    · rw [if_neg hcount, if_neg hsize, if_neg hsize]
      by_cases hceiling : r.fields.length ≤ maxHeadersCeiling
      · have hfits : ¬ r.Spills limits := by
          rintro ⟨hmany, hmax | hover⟩
          · omega
          · omega
        rw [if_neg hfits]
        by_cases htarget : r.TargetOk
        · rw [if_neg (not_not.mpr htarget), if_neg (not_not.mpr htarget), if_neg hcount]
          by_cases hdeclares : r.DeclaresTooMuch limits
          · rw [if_pos hdeclares]
            obtain ⟨hyes, hno⟩ := framed_of_declares hlengths hdeclares
            by_cases hrest : HostOk r.head ∧ r.head.all .transferEncoding = []
            · rw [hyes hrest]
              exact iff_of_true (agree_error 413)
                (Or.inr (Or.inr ⟨by omega, hceiling, Or.inr (Or.inr hrest)⟩))
            · rw [hno hrest]
              refine iff_of_false (not_agree_error (by decide)) ?_
              rintro (h | ⟨h, -⟩ | ⟨-, -, h | h | h⟩)
              · exact hsize h
              · exact hcount h
              · exact h htarget
              · exact h hdeclares
              · exact hrest h
          · rw [if_neg hdeclares]
            exact iff_of_true (agree_framed (sameHead_bridged hcarried) limits)
              (Or.inr (Or.inr ⟨by omega, hceiling, Or.inr (Or.inl hdeclares)⟩))
        · rw [if_pos htarget, if_pos htarget]
          exact iff_of_true (agree_error 400)
            (Or.inr (Or.inr ⟨by omega, hceiling, Or.inl htarget⟩))
      · -- the native parser has no room for the fields, the bridge has
        have hspills : r.Spills limits := by
          refine ⟨?_, Or.inr (by omega)⟩
          unfold maxHeadersCeiling at hceiling
          unfold headerScratchTier1
          omega
        rw [if_pos hspills]
        refine iff_of_false ?_ ?_
        · intro hagree
          have hrefused := (hagree.refused 431).mpr rfl
          split at hrefused
          · cases hrefused
          · split at hrefused
            · cases hrefused
            · exact framed_ne_tooLarge _ limits hrefused
        · rintro (h | ⟨h, -⟩ | ⟨-, h, -⟩)
          · exact hsize h
          · exact hcount h
          · exact hceiling h

/-- The conditions on a request head, checked. -/
def RequestHead.plain (method target : ByteStr) (fields : List (ByteStr × Bytes)) : Bool :=
  validFieldName method.bytes && !target.bytes.isEmpty
    && target.bytes.all (fun b => 0x20 < b && b != 0x7f)
    && fields.all fun f => validFieldName f.1.bytes && f.2.all (!isCtl ·) && trimOws f.2 == f.2

def RequestHead.ofPlain (method target : ByteStr) (version : Version)
    (fields : List (ByteStr × Bytes)) (h : RequestHead.plain method target fields = true) :
    RequestHead := by
  simp only [RequestHead.plain, Bool.and_eq_true, Bool.not_eq_true', List.isEmpty_eq_false_iff,
    List.all_eq_true, decide_eq_true_eq, bne_iff_ne, beq_iff_eq, validFieldName_iff] at h
  exact ⟨method, target, version, fields, h.1.1.1, h.1.1.2, h.1.2, fun f hf => (h.2 f hf).1.1,
    fun f hf => (h.2 f hf).1.2, fun f hf => (h.2 f hf).2⟩

/-- The fields of a request whose body is above the default limit, with and
without a `Host`. -/
def longFields (host : Bool) : List (ByteStr × Bytes) :=
  (if host then [(.literal "host", ascii "a")] else [])
    ++ [(.literal "content-length", ascii "9999999")]

theorem plain_longFields (host : Bool) :
    RequestHead.plain (.literal "POST") (.literal "/") (longFields host) = true := by
  cases host <;> decide

def longRequest (host : Bool) : RequestHead :=
  .ofPlain (.literal "POST") (.literal "/" (Eq.refl true)) .http11 (longFields host)
    (plain_longFields host)

/-- A tokenizer that knows one head. -/
def splitter (r : RequestHead) : Httparse := fun slots region =>
  if region = r.render then
    if r.fields.length ≤ slots then
      .ok (some ⟨some r.method.bytes, some r.target.bytes, some r.version.minor,
        r.fields.map fun f => (f.1.bytes, f.2)⟩)
    else .error .tooManyHeaders
  else .ok none

theorem splitsHead_splitter (r : RequestHead) : SplitsHead (splitter r) r := by
  intro slots
  simp [splitter]

/-- Fields whose names are lowercase already are carried as they are. -/
theorem carried_self {fields : List (ByteStr × Bytes)}
    (h : ∀ f ∈ fields, lowercase f.1.bytes = f.1.bytes) : Carried fields fields := by
  have hsame : mapFields fields = lowerFields fields :=
    List.map_congr_left fun f hf => by rw [h f hf]
  exact ⟨by rw [hsame], fun name => by rw [hsame]⟩

theorem carried_longRequest (host : Bool) :
    Carried (longRequest host).fields (longRequest host).fields := by
  refine carried_self ?_
  cases host <;> decide

theorem lengthsAgree_longRequest (host : Bool) : (longRequest host).LengthsAgree := by
  have hlengths : (longRequest host).lengths = [ascii "9999999"] := by cases host <;> decide
  refine ⟨9999999, by decide, ?_⟩
  rw [hlengths]
  intro e he
  have he' : e = ascii "9999999" := by
    have helements : ([ascii "9999999"].flatMap fun v => (v.splitOn 44).map trimOws)
        = [ascii "9999999"] := by decide
    rw [helements] at he
    exact List.mem_singleton.mp he
  have hparse : parseLen (ascii "9999999") = some 9999999 := by decide
  rw [he']
  exact parseLen_eq_some hparse

/-- With a `Host`, both refuse it for its length. -/
theorem backends_refuse_alike_host :
    (longRequest true).OrderHidden Limits.default ∧
      Agree (bridgeOutcome ((longRequest true).parts (longRequest true).fields) Limits.default)
        (nativeOutcome (splitter (longRequest true)) (longRequest true).render Limits.default) := by
  have hhidden : (longRequest true).OrderHidden Limits.default :=
    Or.inr (Or.inr ⟨by decide, by decide,
      Or.inr (Or.inr ⟨⟨Or.inl (by decide), by rfl⟩, by decide⟩)⟩)
  exact ⟨hhidden, (backends_refuse_alike_iff (splitsHead_splitter _) (carried_longRequest true)
    (lengthsAgree_longRequest true) Limits.default).mpr hhidden⟩

/-- Without one, the native reader refuses it for that, and the bridge for
its length. -/
theorem missing_host_order :
    SplitsHead (splitter (longRequest false)) (longRequest false) ∧
      Carried (longRequest false).fields (longRequest false).fields ∧
      (longRequest false).LengthsAgree ∧
      bridgeOutcome ((longRequest false).parts (longRequest false).fields) Limits.default
        = .error 413 ∧
      nativeOutcome (splitter (longRequest false)) (longRequest false).render Limits.default
        = .error 400 ∧
      ¬ Agree (bridgeOutcome ((longRequest false).parts (longRequest false).fields) Limits.default)
        (nativeOutcome (splitter (longRequest false)) (longRequest false).render
          Limits.default) := by
  have htarget : (longRequest false).TargetOk := by rfl
  have hdeclares : (longRequest false).DeclaresTooMuch Limits.default :=
    ⟨ascii "9999999", by decide, (lengthsAgree_longRequest false).choose_spec.2 _ (by decide) |>.1,
      by decide⟩
  have hhost : ¬ HostOk (longRequest false).head := by
    rintro ⟨h | ⟨-, h⟩, -⟩
    · exact absurd h (by decide)
    · cases h
  have hbridge : bridgeOutcome ((longRequest false).parts (longRequest false).fields) Limits.default
      = .error 413 := by
    rw [bridgeOutcome_eq (carried_longRequest false) (lengthsAgree_longRequest false),
      if_neg (by decide),
      if_neg (by decide), if_neg (not_not.mpr htarget), if_pos hdeclares]
  have hnative :
      nativeOutcome (splitter (longRequest false)) (longRequest false).render Limits.default
      = .error 400 := by
    rw [nativeOutcome_eq (splitsHead_splitter _), if_neg (by decide),
      if_neg fun h => absurd h.1 (by decide), if_neg (not_not.mpr htarget), if_neg (by decide)]
    exact (framed_of_declares (lengthsAgree_longRequest false) hdeclares).2 fun h => hhost h.1
  refine ⟨splitsHead_splitter _, carried_longRequest false, lengthsAgree_longRequest false, hbridge,
    hnative, ?_⟩
  rw [hbridge, hnative]
  exact not_agree_error (by decide)

end ArmatureH1
