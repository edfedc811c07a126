/-
ArmatureH1.FieldNames — a field name has one identity.

Four pieces of code decide what a name is: the length-dispatched table of
`from_bytes`, its inverse `as_str`, the list `WELL_KNOWN` behind `canonical`,
and the lowercasing in `intern`, which the head parser and the trailer parser
repeat in line. They agree because each of them depends on the lowercase form
of the name alone. `asStr_intern` says that `intern` keeps that form and
nothing else, so equality of ids is equality up to letter case
(`intern_eq_intern_iff`), and `canonical_eq_iff` says the same of the ids a
handler builds by hand.
-/
import ArmatureH1.ChunkedRoundTrip
import ArmatureH1.Parse

namespace ArmatureH1

open ByteString

/-! ## 1. `intern` -/

/-- The lowercase name of an id that `intern` gives. -/
theorem asStr_intern (name : ByteStr) : (intern name).asStr = lowercase name.bytes := by
  unfold intern
  split
  · rename_i id hid
    obtain ⟨hknown, hname⟩ := HeaderId.fromBytes_eq_some hid
    rw [hname, HeaderId.lowercase_asStr hknown]
  · split
    · rfl
    · rename_i hlower
      rw [Bool.not_eq_true] at hlower
      exact (lowercase_eq_self hlower).symm

/-- The two branches of `intern` for an unknown name are one: lowercasing a
name without capitals changes nothing. -/
theorem intern_eq (name : ByteStr) :
    intern name = (HeaderId.fromBytes name.bytes).getD
      (.other ⟨lowercase name.bytes, isUtf8_lowercase name.utf8⟩) := by
  unfold intern
  cases HeaderId.fromBytes name.bytes with
  | some id => rfl
  | none =>
      by_cases hup : name.bytes.any isAsciiUppercase = true
      · simp only [hup, if_true, Option.getD_none]
      · rw [Bool.not_eq_true] at hup
        simp only [hup, Bool.false_eq_true, if_false, Option.getD_none, lowercase_eq_self hup]

/-- `intern` tells names apart up to letter case. -/
theorem intern_eq_intern_iff {a b : ByteStr} :
    intern a = intern b ↔ lowercase a.bytes = lowercase b.bytes := by
  constructor
  · intro h
    rw [← asStr_intern, h, asStr_intern]
  · intro h
    rw [intern_eq, intern_eq, HeaderId.fromBytes_congr h]
    simp only [h]

/-- The name an id goes by is a name for it. -/
theorem intern_name_intern (name : ByteStr) : intern (intern name).name = intern name := by
  rw [intern_eq_intern_iff]
  show lowercase (intern name).asStr = lowercase name.bytes
  rw [asStr_intern, lowercase_idem]

/-! ## 2. `canonical` -/

namespace HeaderId

/-- The variants that carry no name are those in `WELL_KNOWN`. -/
theorem mem_wellKnown_iff {id : HeaderId} : id ∈ wellKnown ↔ ∀ name, id ≠ other name := by
  constructor
  · rintro hknown name rfl
    simp [wellKnown] at hknown
  · intro h
    rcases mem_wellKnown_or_other id with hknown | ⟨name, rfl⟩
    · exact hknown
    · exact absurd rfl (h name)

/-- A well-known name is found in every spelling. -/
theorem fromBytes_eq_some_iff {name : Bytes} {known : HeaderId} :
    fromBytes name = some known ↔
      known ∈ wellKnown ∧ eqIgnoreAsciiCase name known.asStr = true := by
  rw [eqIgnoreAsciiCase_iff]
  constructor
  · exact fromBytes_eq_some
  · rintro ⟨hknown, hname⟩
    rw [fromBytes_congr hname, fromBytes_asStr hknown]

/-- `canonical` is the well-known id that the name spells, and there is only
one. -/
theorem canonical_eq_iff {id known : HeaderId} (hknown : known ∈ wellKnown) :
    id.canonical = known ↔ eqIgnoreAsciiCase id.asStr known.asStr = true := by
  have hspells := @fromBytes_eq_some_iff id.asStr known
  constructor
  · intro h
    rw [canonical_eq] at h
    cases hfrom : fromBytes id.asStr with
    | some other =>
        rw [hfrom, Option.getD_some] at h
        rw [h] at hfrom
        exact (hspells.mp hfrom).2
    | none =>
        -- the id itself, which would be known by its own name
        rw [hfrom, Option.getD_none] at h
        rw [h, fromBytes_asStr hknown] at hfrom
        cases hfrom
  · intro h
    rw [canonical_eq, hspells.mpr ⟨hknown, h⟩, Option.getD_some]

/-- An id that spells no well-known name is its own canonical id. -/
theorem canonical_eq_self {id : HeaderId}
    (h : ∀ known ∈ wellKnown, eqIgnoreAsciiCase id.asStr known.asStr = false) :
    id.canonical = id := by
  rw [canonical_eq]
  cases hfrom : fromBytes id.asStr with
  | none => rfl
  | some known =>
      obtain ⟨hknown, hname⟩ := fromBytes_eq_some_iff.mp hfrom
      rw [h known hknown] at hname
      cases hname

end HeaderId

/-! ## 3. The parsers -/

/-- The field loop of the head parser interns every name. -/
theorem parseFields_fields (fields : List (ByteStr × Bytes)) :
    parseFields (fields.map fun f => (f.1.bytes, f.2))
      = .ok (fields.map fun f => (intern f.1, f.2)) := by
  induction fields with
  | nil => rfl
  | cons f fields ih =>
      rw [List.map_cons, parseFields, fieldId_eq, ih]
      rfl

/-- A trailer that is stored is stored under the interned name. -/
theorem pushTrailer_interns {max : Nat} {stored : Option HeaderVec} {name : ByteStr}
    {rest : Bytes} {t : HeaderVec} (hname : IsToken name.bytes)
    (h : pushTrailer max stored (name.bytes ++ 0x3a :: rest) = .ok t) :
    t = stored.getD [] ++ [(intern name, trimOws rest)] := by
  obtain ⟨-, f, hf, hline, rfl⟩ := pushTrailer_iff.mp h
  -- a token holds no colon, so both cuts are at the first one
  have hcolon := congrArg (memchr 0x3a) hline
  rw [FieldLine.line, memchr_append_cons rest hname.colon_notMem,
    memchr_append_cons f.rest hf.token.colon_notMem, Option.some.injEq] at hcolon
  obtain ⟨hbytes, htail⟩ := List.append_inj hline hcolon
  have hsame : name = f.name := by
    cases name
    cases hfn : f.name
    simp_all
  rw [hsame, (List.cons.inj htail).2]
  rfl

/-- **Field names have one identity.** `intern` identifies names up to letter
case and is idempotent on the names it gives; `canonical` finds the well-known
variant a name spells, however the id was built, and leaves every other id
alone; and the head parser and the trailer parser store each token under the
id that `intern` gives it. -/
theorem field_names_one_identity :
    (∀ a b : ByteStr, intern a = intern b ↔ eqIgnoreAsciiCase a.bytes b.bytes = true) ∧
      (∀ a : ByteStr, intern (intern a).name = intern a) ∧
      (∀ id known : HeaderId, (∀ name, known ≠ .other name) →
        (id.canonical = known ↔ eqIgnoreAsciiCase id.asStr known.asStr = true)) ∧
      (∀ id : HeaderId,
        (∀ known : HeaderId, (∀ name, known ≠ .other name) →
          eqIgnoreAsciiCase id.asStr known.asStr = false) → id.canonical = id) ∧
      (∀ name : ByteStr, IsToken name.bytes → fieldId name.bytes = some (intern name)) ∧
      (∀ fields : List (ByteStr × Bytes),
        parseFields (fields.map fun f => (f.1.bytes, f.2))
          = .ok (fields.map fun f => (intern f.1, f.2))) ∧
      ∀ (max : Nat) (stored : Option HeaderVec) (name : ByteStr) (rest : Bytes) (t : HeaderVec),
        IsToken name.bytes → pushTrailer max stored (name.bytes ++ 0x3a :: rest) = .ok t →
          t = stored.getD [] ++ [(intern name, trimOws rest)] := by
  refine ⟨?_, intern_name_intern, ?_, ?_, fun name _ => fieldId_eq name, parseFields_fields, ?_⟩
  · intro a b
    rw [eqIgnoreAsciiCase_iff]
    exact intern_eq_intern_iff
  · intro id known hknown
    exact HeaderId.canonical_eq_iff (HeaderId.mem_wellKnown_iff.mpr hknown)
  · intro id h
    exact HeaderId.canonical_eq_self fun known hknown =>
      h known (HeaderId.mem_wellKnown_iff.mp hknown)
  · intro max stored name rest t hname h
    exact pushTrailer_interns hname h

end ArmatureH1
