/-
ArmatureH1.Header — field names, from `header.rs`.

A name has two spellings of its identity in the source: `from_bytes` maps a
byte string to a well-known variant, and `as_str` maps a variant back to its
lowercase name. `fromBytes_asStr` and `fromBytes_eq_some` say the two are
inverse up to letter case, which is all `canonical` and `intern` rest on.
-/
import Mathlib.Data.List.DropRight
import ArmatureH1.Vocabulary

namespace ArmatureH1

open ByteString

/-- `HeaderId`. -/
inductive HeaderId where
  | host | contentLength | contentType | transferEncoding | connection | expect | upgrade
  | date | server | accept | acceptEncoding | acceptLanguage | authorization | cacheControl
  | cookie | setCookie | etag | ifNoneMatch | ifModifiedSince | lastModified | location
  | referer | userAgent | vary | allow | trailer | te | contentEncoding | contentLanguage
  | range | ifMatch | ifUnmodifiedSince | origin
  | other (name : ByteStr)
  deriving DecidableEq

namespace HeaderId

/-- `HeaderId::WELL_KNOWN`. -/
def wellKnown : List HeaderId :=
  [.host, .contentLength, .contentType, .transferEncoding, .connection, .expect, .upgrade,
   .date, .server, .accept, .acceptEncoding, .acceptLanguage, .authorization, .cacheControl,
   .cookie, .setCookie, .etag, .ifNoneMatch, .ifModifiedSince, .lastModified, .location,
   .referer, .userAgent, .vary, .allow, .trailer, .te, .contentEncoding, .contentLanguage,
   .range, .ifMatch, .ifUnmodifiedSince, .origin]

/-- `HeaderId::as_str`, as bytes. -/
def asStr : HeaderId → Bytes
  | host => ascii "host"
  | contentLength => ascii "content-length"
  | contentType => ascii "content-type"
  | transferEncoding => ascii "transfer-encoding"
  | connection => ascii "connection"
  | expect => ascii "expect"
  | upgrade => ascii "upgrade"
  | date => ascii "date"
  | server => ascii "server"
  | accept => ascii "accept"
  | acceptEncoding => ascii "accept-encoding"
  | acceptLanguage => ascii "accept-language"
  | authorization => ascii "authorization"
  | cacheControl => ascii "cache-control"
  | cookie => ascii "cookie"
  | setCookie => ascii "set-cookie"
  | etag => ascii "etag"
  | ifNoneMatch => ascii "if-none-match"
  | ifModifiedSince => ascii "if-modified-since"
  | lastModified => ascii "last-modified"
  | location => ascii "location"
  | referer => ascii "referer"
  | userAgent => ascii "user-agent"
  | vary => ascii "vary"
  | allow => ascii "allow"
  | trailer => ascii "trailer"
  | te => ascii "te"
  | contentEncoding => ascii "content-encoding"
  | contentLanguage => ascii "content-language"
  | range => ascii "range"
  | ifMatch => ascii "if-match"
  | ifUnmodifiedSince => ascii "if-unmodified-since"
  | origin => ascii "origin"
  | other name => name.bytes

/-- The comparison ladder the macro in `HeaderId::from_bytes` expands to:
the first listed id whose name matches ignoring case. -/
def firstMatch (name : Bytes) : List HeaderId → Option HeaderId
  | [] => none
  | id :: rest => if eqIgnoreAsciiCase name id.asStr then some id else firstMatch name rest

/-- `HeaderId::from_bytes`: dispatch on the length, then compare. -/
def fromBytes (name : Bytes) : Option HeaderId :=
  match name.length with
  | 2 => firstMatch name [.te]
  | 4 => firstMatch name [.host, .date, .vary, .etag]
  | 5 => firstMatch name [.allow, .range]
  | 6 => firstMatch name [.accept, .expect, .cookie, .server, .origin]
  | 7 => firstMatch name [.upgrade, .trailer, .referer]
  | 8 => firstMatch name [.ifMatch, .location]
  | 10 => firstMatch name [.connection, .setCookie, .userAgent]
  | 12 => firstMatch name [.contentType]
  | 13 => firstMatch name [.authorization, .cacheControl, .ifNoneMatch, .lastModified]
  | 14 => firstMatch name [.contentLength]
  | 15 => firstMatch name [.acceptEncoding, .acceptLanguage]
  | 16 => firstMatch name [.contentEncoding, .contentLanguage]
  | 17 => firstMatch name [.transferEncoding, .ifModifiedSince]
  | 19 => firstMatch name [.ifUnmodifiedSince]
  | _ => none

/-- `HeaderId::canonical`: the well-known id an `Other` spells, if it does. -/
def canonical : HeaderId → HeaderId
  | other name =>
    match fromBytes name.bytes with
    | some known => (wellKnown.find? (· == known)).getD (other name)
    | none => other name
  | id => id

/-- `HeaderId::forbidden_in_trailers`. -/
def forbiddenInTrailers : HeaderId → Bool
  | transferEncoding | contentLength | host | connection | expect | te | trailer | upgrade
  | cacheControl | authorization | setCookie => true
  | _ => false

end HeaderId

/-- `HeaderVec`. -/
abbrev HeaderVec := List (HeaderId × Bytes)

namespace HeaderVec

/-- `header::get`. -/
def get (v : HeaderVec) (id : HeaderId) : Option Bytes :=
  (v.find? fun f => f.1 == id).map Prod.snd

/-- `header::all`. -/
def all (v : HeaderVec) (id : HeaderId) : List Bytes :=
  (v.filter fun f => f.1 == id).map Prod.snd

/-- `header::count`. -/
def count (v : HeaderVec) (id : HeaderId) : Nat :=
  (v.filter fun f => f.1 == id).length

end HeaderVec

/-- `header::intern`: a well-known id, or the lowercase name. -/
def intern (name : ByteStr) : HeaderId :=
  match HeaderId.fromBytes name.bytes with
  | some id => id
  | none =>
    if name.bytes.any isAsciiUppercase then
      .other ⟨lowercase name.bytes, isUtf8_lowercase name.utf8⟩
    else .other name

/-- `header::is_tchar`. -/
def isTchar (b : UInt8) : Bool :=
  isAsciiAlphanumeric b || (ascii "!#$%&'*+-.^_`|~").contains b

/-- SP and HTAB, the two bytes of `OWS` and `BWS`. -/
def isOws (b : UInt8) : Bool := b == SP || b == HTAB

/-- `framing::trim_ows`: strip optional whitespace from both ends. -/
def trimOws (s : Bytes) : Bytes := (s.dropWhile isOws).rdropWhile isOws

/-- `header::value_has_token`. -/
def valueHasToken (value token : Bytes) : Bool :=
  (value.splitOn 44).any fun t => eqIgnoreAsciiCase (trimOws t) token

/-- Nothing is stripped from a string without a space or a tab. -/
theorem trimOws_eq_self {s : Bytes} (hsp : SP ∉ s) (htab : HTAB ∉ s) : trimOws s = s := by
  have hows : ∀ b ∈ s, ¬ isOws b = true := by
    intro b hb hows
    rw [isOws, Bool.or_eq_true, beq_iff_eq, beq_iff_eq] at hows
    rcases hows with rfl | rfl
    · exact hsp hb
    · exact htab hb
  have hfront : s.dropWhile isOws = s := by
    cases s with
    | nil => rfl
    | cons b s => exact List.dropWhile_cons_of_neg (hows b (by simp))
  rw [trimOws, hfront, List.rdropWhile_eq_self_iff]
  exact fun hne => hows _ (List.getLast_mem hne)

theorem trimOws_append_ows (s : Bytes) {ows : Bytes} (h : ∀ b ∈ ows, isOws b = true) :
    trimOws (s ++ ows) = trimOws s := by
  unfold trimOws
  rw [List.dropWhile_append]
  split
  · rename_i hempty
    rw [List.isEmpty_iff.mp hempty, List.dropWhile_eq_nil_iff.mpr h]
  · have hrev : ∀ b ∈ ows.reverse, isOws b = true := fun b hb => h b (List.mem_reverse.mp hb)
    rw [List.rdropWhile, List.reverse_append, List.dropWhile_append_of_pos hrev, ← List.rdropWhile]

theorem trimOws_ows_append {ows : Bytes} (h : ∀ b ∈ ows, isOws b = true) (s : Bytes) :
    trimOws (ows ++ s) = trimOws s := by
  rw [trimOws, trimOws, List.dropWhile_append_of_pos h]

/-! ## Names have one identity -/

namespace HeaderId

theorem firstMatch_eq_some {name : Bytes} {id : HeaderId} : ∀ {ids : List HeaderId},
    firstMatch name ids = some id → id ∈ ids ∧ lowercase name = lowercase id.asStr
  | [], h => by simp [firstMatch] at h
  | x :: rest, h => by
      rw [firstMatch] at h
      split at h
      · rename_i heq
        cases h
        exact ⟨by simp, eqIgnoreAsciiCase_iff.mp heq⟩
      · obtain ⟨hmem, hname⟩ := firstMatch_eq_some h
        exact ⟨by simp [hmem], hname⟩

/-- A match is a well-known id spelled in some letter case. -/
theorem fromBytes_eq_some {name : Bytes} {id : HeaderId} (h : fromBytes name = some id) :
    id ∈ wellKnown ∧ lowercase name = lowercase id.asStr := by
  unfold fromBytes at h
  split at h <;> first
    | exact absurd h (by simp)
    | obtain ⟨hmem, hname⟩ := firstMatch_eq_some h
      refine ⟨?_, hname⟩
      simp only [List.mem_cons, List.not_mem_nil, or_false] at hmem
      rcases hmem with rfl | rfl | rfl | rfl | rfl <;> decide

/-- `firstMatch` only looks at the name's lowercase form. -/
theorem firstMatch_congr {a b : Bytes} (h : lowercase a = lowercase b) :
    ∀ ids : List HeaderId, firstMatch a ids = firstMatch b ids
  | [] => rfl
  | id :: rest => by
      have heq : eqIgnoreAsciiCase a id.asStr = eqIgnoreAsciiCase b id.asStr := by
        simp only [eqIgnoreAsciiCase, h]
      rw [firstMatch, firstMatch, heq, firstMatch_congr h rest]

/-- Letter case does not matter to `fromBytes`. -/
theorem fromBytes_congr {a b : Bytes} (h : lowercase a = lowercase b) :
    fromBytes a = fromBytes b := by
  have hlen : a.length = b.length := by
    rw [← length_lowercase a, h, length_lowercase]
  simp only [fromBytes, hlen, firstMatch_congr h]

/-- Every well-known name reads back as itself. -/
theorem fromBytes_asStr {id : HeaderId} (h : id ∈ wellKnown) :
    fromBytes id.asStr = some id := by
  have hall : ∀ id ∈ wellKnown, fromBytes id.asStr = some id := by decide +kernel
  exact hall id h

/-- The well-known names are written in lowercase. -/
theorem lowercase_asStr {id : HeaderId} (h : id ∈ wellKnown) : lowercase id.asStr = id.asStr := by
  have hall : ∀ id ∈ wellKnown, lowercase id.asStr = id.asStr := by decide +kernel
  exact hall id h

/-- A known id is found in the table. -/
theorem find?_wellKnown {id : HeaderId} (h : id ∈ wellKnown) :
    wellKnown.find? (· == id) = some id := by
  have hall : ∀ id ∈ wellKnown, wellKnown.find? (· == id) = some id := by decide
  exact hall id h

/-- An id is well-known or an `Other`. -/
theorem mem_wellKnown_or_other (id : HeaderId) : id ∈ wellKnown ∨ ∃ name, id = other name := by
  cases id with
  | other name => exact Or.inr ⟨name, rfl⟩
  | _ => exact Or.inl (by decide)

/-- `canonical` is `fromBytes` of the name, falling back to the id itself. -/
theorem canonical_eq (id : HeaderId) : id.canonical = (fromBytes id.asStr).getD id := by
  rcases mem_wellKnown_or_other id with h | ⟨name, rfl⟩
  · rw [fromBytes_asStr h, Option.getD_some]
    cases id <;> first | rfl | simp [wellKnown] at h
  · simp only [canonical, asStr]
    cases hf : fromBytes name.bytes with
    | none => rfl
    | some known => simp [find?_wellKnown (fromBytes_eq_some hf).1]

end HeaderId

end ArmatureH1
