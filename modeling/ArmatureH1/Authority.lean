/-
ArmatureH1.Authority — which authority a request names.

A request can name its authority twice: in the target, when that is in
absolute form or the method is `CONNECT`, and in `Host`. The grammar of the
two is written down here (`Authority`, `AbsoluteForm`), and the two parsers
of the source decide exactly these (`parseAuthority_iff`,
`findAbsoluteAuthority_iff`).

`check_authority` and `Head::authority` reach the target's authority by
different routes: the first parses a `CONNECT` target as it stands, the
second looks for a `://` in it first. They agree because no authority with a
port is an absolute-form URI: behind the first colon of the one there is a
digit, behind that of the other a slash (`Authority.not_absolute`).
-/
import ArmatureH1.Framing
import ArmatureH1.WriteTheorems

namespace ArmatureH1

open ByteString

/-! ## 1. The grammar -/

/-- `HEXDIG / ":" / "."`, the bytes between the brackets of an IP literal. -/
def isLiteralByte (b : UInt8) : Bool := isAsciiHexdigit b || b == 0x3a || b == 0x2e

/-- `reg-name = *( unreserved / pct-encoded / sub-delims )`. -/
inductive RegName : Bytes → Prop where
  | nil : RegName []
  | byte {b : UInt8} {rest : Bytes} : isRegNameByte b = true → RegName rest → RegName (b :: rest)
  | encoded {h1 h2 : UInt8} {rest : Bytes} : isAsciiHexdigit h1 = true → isAsciiHexdigit h2 = true →
      RegName rest → RegName (0x25 :: h1 :: h2 :: rest)

/-- `unreserved = ALPHA / DIGIT / "-" / "." / "_" / "~"`. -/
def isUnreserved (b : UInt8) : Bool :=
  isAsciiAlphanumeric b || b == 0x2d || b == 0x2e || b == 0x5f || b == 0x7e

/-- `sub-delims = "!" / "$" / "&" / "'" / "(" / ")" / "*" / "+" / "," / ";" / "="`. -/
def isSubDelim (b : UInt8) : Bool := (ascii "!$&'()*+,;=").contains b

/-- `uri-host`: an IP literal in brackets, or a `reg-name` that is not empty. -/
inductive UriHost : Bytes → Prop where
  | literal {inner : Bytes} : inner ≠ [] → (∀ b ∈ inner, isLiteralByte b = true) →
      UriHost (0x5b :: inner ++ [0x5d])
  | regName {host : Bytes} : host ≠ [] → RegName host → UriHost host

/-- `[ ":" port ]`, and the port it gives. An empty port is no port. -/
inductive PortSuffix : Bytes → Option Nat → Prop where
  | absent : PortSuffix [] none
  | empty : PortSuffix [0x3a] none
  | port {digits : Bytes} : IsDigits digits → digits.length ≤ 5 → decimal digits < 2 ^ 16 →
      PortSuffix (0x3a :: digits) (some (decimal digits))

/-- `uri-host [ ":" port ]`. -/
def Authority (a host : Bytes) (port : Option Nat) : Prop :=
  ∃ rest, a = host ++ rest ∧ UriHost host ∧ PortSuffix rest port

/-- The bytes that end the authority of a URI. -/
def endsAuthority (b : UInt8) : Bool := b == 0x2f || b == 0x3f || b == 0x23

/-- `scheme "://" authority`, up to a path, a query or a fragment. -/
def AbsoluteForm (target scheme authority : Bytes) : Prop :=
  ∃ tail, target = scheme ++ ascii "://" ++ authority ++ tail ∧ validScheme scheme = true ∧
    (∀ b ∈ authority, endsAuthority b = false) ∧
    (tail = [] ∨ ∃ b rest, tail = b :: rest ∧ endsAuthority b = true)

/-! ## 2. `parse_authority` -/

theorem validPercentEncoded_byte {b : UInt8} (h : b ≠ 0x25) (rest : Bytes) :
    validPercentEncoded (b :: rest) = (isRegNameByte b && validPercentEncoded rest) := by
  cases rest with
  | nil => simp [validPercentEncoded, h]
  | cons x rest => cases rest <;> simp [validPercentEncoded, h]

theorem validPercentEncoded_of_regName {host : Bytes} (h : RegName host) :
    validPercentEncoded host = true := by
  induction h with
  | nil => rfl
  | @byte b rest hb _ ih =>
      have hne : b ≠ 0x25 := by
        rintro rfl
        exact absurd hb (by decide)
      rw [validPercentEncoded_byte hne, hb, ih]
      rfl
  | @encoded h1 h2 rest hh1 hh2 _ ih =>
      show (if (0x25 : UInt8) = 0x25 then
          isAsciiHexdigit h1 && isAsciiHexdigit h2 && validPercentEncoded rest else _) = true
      rw [if_pos rfl, hh1, hh2, ih]
      rfl

theorem regName_of_validPercentEncoded (host : Bytes) :
    validPercentEncoded host = true → RegName host := by
  induction host using validPercentEncoded.induct with
  | case1 => intro _; exact .nil
  | case2 h1 h2 rest ih =>
      intro h
      rw [validPercentEncoded, if_pos rfl] at h
      simp only [Bool.and_eq_true] at h
      exact .encoded h.1.1 h.1.2 (ih h.2)
  | case3 rest hshort =>
      intro h
      rw [validPercentEncoded, if_pos rfl] at h
      · cases h
      · exact hshort
  | case4 b rest hb ih =>
      intro h
      rw [validPercentEncoded_byte hb, Bool.and_eq_true] at h
      exact .byte h.1 (ih h.2)

/-- The table and the percent-decoding loop together decide `reg-name`. -/
theorem validRegName_iff {host : Bytes} : validRegName host = true ↔ RegName host := by
  unfold validRegName
  split
  · rename_i hall
    rw [List.all_eq_true] at hall
    refine ⟨fun _ => ?_, fun _ => rfl⟩
    induction host with
    | nil => exact .nil
    | cons b rest ih => exact .byte (hall b (by simp)) (ih fun x hx => hall x (by simp [hx]))
  · exact ⟨regName_of_validPercentEncoded host, validPercentEncoded_of_regName⟩

/-- Every byte of a `reg-name` is one of the table's, a percent sign or a hex
digit. -/
theorem RegName.bytes {host : Bytes} (h : RegName host) :
    ∀ b ∈ host, (isRegNameByte b || b == 0x25 || isAsciiHexdigit b) = true := by
  induction h with
  | nil => simp
  | byte hb _ ih =>
      intro x hx
      rcases List.mem_cons.mp hx with rfl | hx
      · simp [hb]
      · exact ih x hx
  | encoded hh1 hh2 _ ih =>
      intro x hx
      simp only [List.mem_cons] at hx
      rcases hx with rfl | rfl | rfl | hx
      · rfl
      · simp [hh1]
      · simp [hh2]
      · exact ih x hx

theorem RegName.notMem {host : Bytes} (h : RegName host) {c : UInt8}
    (hc : (isRegNameByte c || c == 0x25 || isAsciiHexdigit c) = false) : c ∉ host := by
  intro hmem
  rw [h.bytes c hmem] at hc
  cases hc

theorem decimal_eq_foldl (digits : Bytes) :
    digits.foldl (fun n d => n * 10 + (d.toNat - 48)) 0 = decimal digits := by
  rw [decimal, Numeral.value, List.foldl_map]

theorem parsePort_iff {rest : Bytes} {port : Option Nat} :
    parsePort rest = some port ↔ PortSuffix rest port := by
  constructor
  · intro h
    unfold parsePort at h
    split at h
    · cases h
      exact .absent
    · rename_i digits
      split at h
      · rename_i hnil
        cases h
        rw [hnil]
        exact .empty
      · rename_i hne
        split at h
        · cases h
        · rename_i hdigits
          rw [not_or, Bool.not_eq_false, List.all_eq_true] at hdigits
          simp only [decimal_eq_foldl] at h
          split at h
          · rename_i hlt
            cases h
            exact .port ⟨hne, hdigits.2⟩ (by omega) hlt
          · cases h
    · cases h
  · intro h
    cases h with
    | absent => rfl
    | empty => rfl
    | @port digits hdigits hlen hlt =>
        have hall : ¬ (digits.length > 5 ∨ digits.all isAsciiDigit = false) := by
          rw [not_or, Bool.not_eq_false, List.all_eq_true]
          exact ⟨by omega, hdigits.2⟩
        show (if digits = [] then some none
          else if digits.length > 5 ∨ digits.all isAsciiDigit = false then none else _) = _
        rw [if_neg hdigits.1, if_neg hall]
        simp only [decimal_eq_foldl, if_pos hlt]

/-- What can follow a host. -/
theorem PortSuffix.head {rest : Bytes} {port : Option Nat} (h : PortSuffix rest port) :
    rest = [] ∨ ∃ digits, rest = 0x3a :: digits := by
  cases h with
  | absent => exact Or.inl rfl
  | empty => exact Or.inr ⟨[], rfl⟩
  | port => exact Or.inr ⟨_, rfl⟩

theorem takeWhile_colon {host rest : Bytes} (hhost : 0x3a ∉ host)
    (hrest : rest = [] ∨ ∃ digits, rest = 0x3a :: digits) :
    (host ++ rest).takeWhile (· != 0x3a) = host ∧ (host ++ rest).dropWhile (· != 0x3a) = rest := by
  have hall : ∀ b ∈ host, (b != 0x3a) = true := by
    intro b hb
    rw [bne_iff_ne]
    rintro rfl
    exact hhost hb
  rw [List.takeWhile_append_of_pos hall, List.dropWhile_append_of_pos hall]
  rcases hrest with rfl | ⟨digits, rfl⟩ <;> simp

/-- **`parse_authority` accepts exactly `uri-host [ ":" port ]`.** -/
theorem parseAuthority_iff {a host : Bytes} {port : Option Nat} :
    parseAuthority a = some (host, port) ↔ Authority a host port := by
  constructor
  · intro h
    unfold parseAuthority at h
    split at h
    · rename_i hbracket
      split at h
      · cases h
      · rename_i close hclose
        obtain ⟨pre, post, rfl, hpre, rfl⟩ := memchr_eq_some.mp hclose
        cases pre with
        | nil => exact absurd hbracket (by simp)
        | cons x inner =>
            obtain rfl : x = 0x5b := by simpa using hbracket
            have hinner : (((0x5b :: inner) ++ 0x5d :: post).take (0x5b :: inner).length).drop 1
                = inner := by simp
            have hhost : ((0x5b :: inner) ++ 0x5d :: post).take ((0x5b :: inner).length + 1)
                = 0x5b :: inner ++ [0x5d] := by simp [List.take_append, List.take_of_length_le]
            have hrest : ((0x5b :: inner) ++ 0x5d :: post).drop ((0x5b :: inner).length + 1)
                = post := by simp [List.drop_append]
            simp only [hinner, hhost, hrest] at h
            split at h
            · cases h
            · rename_i hok
              rw [not_or, Bool.not_eq_false, List.all_eq_true] at hok
              obtain ⟨p, hp, heq⟩ := Option.map_eq_some_iff.mp h
              cases heq
              exact ⟨post, by simp, .literal hok.1 hok.2, parsePort_iff.mp hp⟩
    · simp only at h
      split at h
      · cases h
      · rename_i hok
        rw [not_or, Bool.not_eq_false] at hok
        obtain ⟨p, hp, heq⟩ := Option.map_eq_some_iff.mp h
        cases heq
        exact ⟨_, List.takeWhile_append_dropWhile.symm,
          .regName hok.1 (validRegName_iff.mp hok.2), parsePort_iff.mp hp⟩
  · rintro ⟨rest, rfl, hhost, hport⟩
    have hsuffix := parsePort_iff.mpr hport
    cases hhost with
    | @literal inner hne hbytes =>
        have hclose : (0x5d : UInt8) ∉ 0x5b :: inner := by
          intro hmem
          rcases List.mem_cons.mp hmem with h | h
          · exact absurd h (by decide)
          · exact absurd (hbytes _ h) (by decide)
        have hfound := memchr_append_cons rest hclose
        have hsplit : 0x5b :: inner ++ [0x5d] ++ rest = (0x5b :: inner) ++ 0x5d :: rest := by simp
        have hinner : (((0x5b :: inner) ++ 0x5d :: rest).take (0x5b :: inner).length).drop 1
            = inner := by simp
        have htake : ((0x5b :: inner) ++ 0x5d :: rest).take ((0x5b :: inner).length + 1)
            = 0x5b :: inner ++ [0x5d] := by simp [List.take_append, List.take_of_length_le]
        have hdrop : ((0x5b :: inner) ++ 0x5d :: rest).drop ((0x5b :: inner).length + 1)
            = rest := by simp [List.drop_append]
        have hok : ¬ (inner = [] ∨ inner.all isLiteralByte = false) := by
          rw [not_or, Bool.not_eq_false, List.all_eq_true]
          exact ⟨hne, hbytes⟩
        unfold parseAuthority
        rw [hsplit, if_pos (by simp), hfound]
        simp only [hinner, htake, hdrop]
        rw [show (fun b => isAsciiHexdigit b || b == 0x3a || b == 0x2e) = isLiteralByte from rfl,
          if_neg hok, hsuffix]
        rfl
    | regName hne hname =>
        obtain ⟨htake, hdrop⟩ := takeWhile_colon (hname.notMem (by decide)) hport.head
        have hbracket : (host ++ rest).head? ≠ some 0x5b := by
          cases host with
          | nil => exact absurd rfl hne
          | cons b host =>
              intro h
              obtain rfl : b = 0x5b := by simpa using h
              exact hname.notMem (c := 0x5b) (by decide) (by simp)
        have hok : ¬ (host = [] ∨ validRegName host = false) := by
          rw [not_or, Bool.not_eq_false]
          exact ⟨hne, validRegName_iff.mpr hname⟩
        unfold parseAuthority
        rw [if_neg hbracket]
        simp only [htake, hdrop]
        rw [if_neg hok, hsuffix]
        rfl

/-- Where the host ends and what the suffix says is settled by the bytes:
`parse_authority` is a function, and it finds every split there is. -/
theorem authority_split_unique {host host' rest rest' : Bytes} {port port' : Option Nat}
    (hsame : host ++ rest = host' ++ rest') (hhost : UriHost host) (hhost' : UriHost host')
    (hrest : PortSuffix rest port) (hrest' : PortSuffix rest' port') :
    host = host' ∧ rest = rest' ∧ port = port' := by
  have hfirst := parseAuthority_iff.mpr ⟨rest, rfl, hhost, hrest⟩
  have hsecond := parseAuthority_iff.mpr ⟨rest', rfl, hhost', hrest'⟩
  rw [hsame, hsecond] at hfirst
  simp only [Option.some.injEq, Prod.mk.injEq] at hfirst
  obtain ⟨hhosts, hports⟩ := hfirst
  rw [hhosts] at hsame
  exact ⟨hhosts.symm, List.append_cancel_left hsame, hports.symm⟩

/-- The `REG_NAME` table holds the unreserved characters and the sub-delims. -/
theorem isRegNameByte_eq (b : UInt8) : isRegNameByte b = (isUnreserved b || isSubDelim b) := by
  have htable := forall_byte
    (p := fun b => isRegNameByte b == (isUnreserved b || isSubDelim b)) (by decide +kernel) b
  simpa using htable

/-- **`parse_authority` decides `uri-host [ ":" port ]`.** It answers a host
and a port exactly for the splits of the grammar; there is at most one such
split; and the reg-names of the grammar are those that the table and the
percent-decoding loop of `valid_reg_name` let through, with the loop alone
deciding the same language. -/
theorem parse_authority_exact (a : Bytes) :
    (∀ host port, parseAuthority a = some (host, port) ↔
      ∃ rest, a = host ++ rest ∧ UriHost host ∧ PortSuffix rest port) ∧
    (∀ host rest port host' rest' port',
      a = host ++ rest ∧ UriHost host ∧ PortSuffix rest port →
      a = host' ++ rest' ∧ UriHost host' ∧ PortSuffix rest' port' →
      host = host' ∧ rest = rest' ∧ port = port') ∧
    (validRegName a = true ↔ RegName a) ∧ (validPercentEncoded a = true ↔ RegName a) ∧
    (∀ b, isRegNameByte b = (isUnreserved b || isSubDelim b)) := by
  refine ⟨fun host port => parseAuthority_iff, ?_, validRegName_iff, ?_, isRegNameByte_eq⟩
  · rintro host rest port host' rest' port' ⟨ha, hhost, hrest⟩ ⟨ha', hhost', hrest'⟩
    exact authority_split_unique (ha.symm.trans ha') hhost hhost' hrest hrest'
  · exact ⟨regName_of_validPercentEncoded a, validPercentEncoded_of_regName⟩

/-! ## 3. Absolute-form targets -/

theorem isSchemeByte_of_validScheme {scheme : Bytes} (h : validScheme scheme = true) :
    ∀ b ∈ scheme, (isAsciiAlphanumeric b || b == 0x2b || b == 0x2d || b == 0x2e) = true := by
  unfold validScheme at h
  rw [Bool.and_eq_true, List.all_eq_true] at h
  exact h.2

theorem alphabetic_of_validScheme {scheme : Bytes} (h : validScheme scheme = true) :
    ∃ b rest, scheme = b :: rest ∧ isAsciiAlphabetic b = true := by
  unfold validScheme at h
  rw [Bool.and_eq_true] at h
  cases scheme with
  | nil => exact absurd h.1 (by simp)
  | cons b rest => exact ⟨b, rest, rfl, by simpa using h.1⟩

/-- No scheme has a colon, so its own `://` is the first of the target. -/
theorem memmem_scheme {scheme : Bytes} (h : validScheme scheme = true) (rest : Bytes) :
    memmem (ascii "://") (scheme ++ ascii "://" ++ rest) = some scheme.length := by
  have hneedle : ascii "://" = [0x3a, 0x2f, 0x2f] := by decide
  have hcolon : (0x3a : UInt8) ∉ scheme := by
    intro hmem
    exact absurd (isSchemeByte_of_validScheme h _ hmem) (by decide)
  rw [memmem_eq_some (by decide)]
  refine ⟨?_, ?_⟩
  · rw [OccursAt, List.append_assoc, List.drop_left]
    exact List.prefix_append _ _
  · intro j hj hocc
    rw [OccursAt, List.append_assoc, List.drop_append_of_le_length (by omega)] at hocc
    obtain ⟨t, ht⟩ := hocc
    cases hd : scheme.drop j with
    | nil =>
        have hlen := congrArg List.length hd
        simp only [List.length_drop, List.length_nil] at hlen
        omega
    | cons x xs =>
        rw [hd, hneedle] at ht
        have hx : 0x3a = x := by simpa using congrArg List.head? ht
        exact hcolon (hx ▸ List.mem_of_mem_drop (i := j) (by rw [hd]; simp))

/-- **`find_absolute_authority` finds exactly the absolute-form targets.** -/
theorem findAbsoluteAuthority_iff {target scheme authority : Bytes} :
    findAbsoluteAuthority target = some (scheme, authority) ↔
      AbsoluteForm target scheme authority := by
  constructor
  · intro h
    unfold findAbsoluteAuthority at h
    split at h
    · cases h
    · cases h
    · cases h
    · split at h
      · cases h
      · rename_i i hi
        split at h
        · rename_i hscheme
          simp only [Option.some.injEq, Prod.mk.injEq] at h
          obtain ⟨rfl, rfl⟩ := h
          obtain ⟨⟨rest, hrest⟩, -⟩ := (memmem_eq_some (by decide)).mp hi
          have hdrop : target.drop (i + 3) = rest := by
            rw [← List.drop_drop, ← hrest]
            rfl
          have htarget : target = target.take i ++ ascii "://" ++ rest := by
            rw [List.append_assoc, hrest, List.take_append_drop]
          rw [hdrop]
          refine ⟨rest.dropWhile fun b => !endsAuthority b, ?_, hscheme, ?_, ?_⟩
          · rw [List.append_assoc]
            refine htarget.trans (congrArg _ ?_)
            exact List.takeWhile_append_dropWhile.symm
          · intro b hb
            simpa [endsAuthority] using List.mem_takeWhile_imp hb
          · cases hd : rest.dropWhile fun b => !endsAuthority b with
            | nil => exact Or.inl rfl
            | cons b tail =>
                refine Or.inr ⟨b, tail, rfl, ?_⟩
                have hhead := List.head?_dropWhile_not (fun b => !endsAuthority b) rest
                rw [hd] at hhead
                simpa using hhead
        · cases h
  · rintro ⟨tail, rfl, hscheme, hauthority, htail⟩
    have hfound := memmem_scheme hscheme (authority ++ tail)
    obtain ⟨b, rest, rfl, hb⟩ := alphabetic_of_validScheme hscheme
    have htake : ((b :: rest) ++ ascii "://" ++ (authority ++ tail)).take (b :: rest).length
        = b :: rest := by simp
    have hdrop : ((b :: rest) ++ ascii "://" ++ (authority ++ tail)).drop ((b :: rest).length + 3)
        = authority ++ tail := by
      rw [← List.drop_drop, List.append_assoc, List.drop_left]
      rfl
    have hall : ∀ x ∈ authority, (!endsAuthority x) = true := by
      intro x hx
      rw [hauthority x hx]
      rfl
    have hwhile : (authority ++ tail).takeWhile (fun b => !endsAuthority b) = authority := by
      rw [List.takeWhile_append_of_pos hall]
      rcases htail with rfl | ⟨x, t, rfl, hx⟩
      · simp
      · simp [hx]
    rw [List.append_assoc]
    unfold findAbsoluteAuthority
    split
    · rename_i hhead; exact absurd hhead (by simp)
    · rename_i hhead
      have : b = 0x2f := by simpa using hhead
      subst this
      exact absurd hb (by decide)
    · rename_i hhead
      have : b = 0x2a := by simpa using hhead
      subst this
      exact absurd hb (by decide)
    · rw [hfound]
      simp only [htake, hdrop, hscheme, if_true]
      rw [show (fun b : UInt8 => !(b == 0x2f || b == 0x3f || b == 0x23))
        = fun b => !endsAuthority b from rfl, hwhile]

theorem findAbsoluteAuthority_eq_none {target : Bytes}
    (h : ∀ scheme authority, ¬ AbsoluteForm target scheme authority) :
    findAbsoluteAuthority target = none := by
  cases hf : findAbsoluteAuthority target with
  | none => rfl
  | some p => exact absurd (findAbsoluteAuthority_iff.mp hf) (h p.1 p.2)

/-- No authority is an absolute-form target as well. -/
theorem Authority.not_absolute {a host scheme authority : Bytes} {port : Option Nat}
    (h : Authority a host port) : ¬ AbsoluteForm a scheme authority := by
  rintro ⟨tail, ha, hscheme, -, -⟩
  obtain ⟨rest, hrest, hhost, hport⟩ := h
  have hsplit : host ++ rest = scheme ++ 0x3a :: 0x2f :: 0x2f :: (authority ++ tail) := by
    rw [← hrest, ha]
    have hneedle : ascii "://" = [0x3a, 0x2f, 0x2f] := by decide
    simp [hneedle]
  cases hhost with
  | literal =>
      obtain ⟨b, t, rfl, hb⟩ := alphabetic_of_validScheme hscheme
      have : 0x5b = b := by simpa using congrArg List.head? hsplit
      subst this
      exact absurd hb (by decide)
  | regName _ hname =>
      have hcolon : (0x3a : UInt8) ∉ scheme := by
        intro hmem
        exact absurd (isSchemeByte_of_validScheme hscheme _ hmem) (by decide)
      obtain ⟨-, hleft⟩ := takeWhile_colon (hname.notMem (by decide)) hport.head
      obtain ⟨-, hright⟩ := @takeWhile_colon scheme (0x3a :: 0x2f :: 0x2f :: (authority ++ tail))
        hcolon (Or.inr ⟨_, rfl⟩)
      rw [hsplit, hright] at hleft
      rw [← hleft] at hport
      cases hport with
      | port hdigits =>
          exact absurd (hdigits.2 0x2f (by simp)) (by decide)

/-- An authority carries no userinfo. -/
theorem Authority.at_notMem {a host : Bytes} {port : Option Nat} (h : Authority a host port) :
    0x40 ∉ a := by
  obtain ⟨rest, rfl, hhost, hport⟩ := h
  rw [List.mem_append, not_or]
  constructor
  · cases hhost with
    | literal _ hbytes =>
        intro hmem
        rcases List.mem_append.mp hmem with h | h
        · rcases List.mem_cons.mp h with h | h
          · exact absurd h (by decide)
          · exact absurd (hbytes _ h) (by decide)
        · exact absurd h (by decide)
    | regName _ hname => exact hname.notMem (by decide)
  · cases hport with
    | absent => simp
    | empty => decide
    | port hdigits =>
        intro hmem
        rcases List.mem_cons.mp hmem with h | h
        · exact absurd h (by decide)
        · exact absurd (hdigits.2 _ h) (by decide)

/-! ## 4. One authority -/

/-- The schemes that are served, and the port each stands for. -/
inductive HttpScheme : Bytes → Nat → Prop where
  | http {s : Bytes} : eqIgnoreAsciiCase s (ascii "http") = true → HttpScheme s 80
  | https {s : Bytes} : eqIgnoreAsciiCase s (ascii "https") = true → HttpScheme s 443

/-- The ports that `Host` may give beside a `CONNECT` target: the same one,
or none when the target's is one that a missing port can stand for. -/
def connectPortOk (target : Nat) : Option Nat → Prop
  | some p => p = target
  | none => target = 80 ∨ target = 443

/-- `Host`, where there is one, names the given host and a port that will do. -/
def HostNames (head : Head) (host : Bytes) (portOk : Option Nat → Prop) : Prop :=
  ∀ v ∈ head.all .host, v ≠ [] ∧ ∃ h p, Authority v h p ∧ eqIgnoreAsciiCase h host = true ∧ portOk p

theorem HeaderVec.get_eq_head? (v : HeaderVec) (id : HeaderId) : v.get id = (v.all id).head? := by
  simp [HeaderVec.get, HeaderVec.all, List.head?_filter]

theorem HeaderVec.count_eq_length (v : HeaderVec) (id : HeaderId) :
    v.count id = (v.all id).length := by
  simp [HeaderVec.count, HeaderVec.all]

/-- The only value of a field that is there at most once. -/
theorem Head.get_of_mem {head : Head} {id : HeaderId} {v : Bytes} (hcount : head.count id ≤ 1)
    (hv : v ∈ head.all id) : head.get id = some v := by
  rw [Head.count, HeaderVec.count_eq_length] at hcount
  rw [Head.get, HeaderVec.get_eq_head?]
  change v ∈ head.headers.all id at hv
  cases hall : head.headers.all id with
  | nil => rw [hall] at hv; cases hv
  | cons x rest =>
      rw [hall] at hv hcount
      have hrest : rest = [] := List.length_eq_zero_iff.mp (by simpa using hcount)
      rw [hrest, List.mem_singleton] at hv
      rw [hv]
      rfl

/-- What `check_authority` reads in `Host`. -/
theorem hostAuthority_ok {field : Option Bytes} {host : Option (Bytes × Option Nat)}
    (h : hostAuthority field = .ok host) :
    ∀ v, field = some v → v ≠ [] → ∃ a, host = some a ∧ Authority v a.1 a.2 := by
  rintro v rfl hne
  unfold hostAuthority at h
  simp only [hne, if_false] at h
  cases hp : parseAuthority v with
  | none => rw [hp] at h; cases h
  | some a =>
      rw [hp] at h
      cases h
      exact ⟨a, rfl, parseAuthority_iff.mp hp⟩

/-- `Host` beside a target whose authority was read: it agrees or is absent. -/
theorem hostNames_of_agrees {head : Head} {host : Option (Bytes × Option Nat)} {target : Bytes}
    {portOk : Option Nat → Prop} (hcount : head.count .host ≤ 1)
    (hread : hostAuthority (head.get .host) = .ok host)
    (hempty : (head.get .host).any List.isEmpty = false)
    (hagrees : ∀ h p, host = some (h, p) → eqIgnoreAsciiCase h target = true ∧ portOk p) :
    HostNames head target portOk := by
  intro v hv
  have hget := Head.get_of_mem hcount hv
  have hne : v ≠ [] := by
    rintro rfl
    rw [hget] at hempty
    cases hempty
  obtain ⟨⟨h, p⟩, hhost, hauthority⟩ := hostAuthority_ok hread v hget hne
  obtain ⟨hsame, hport⟩ := hagrees h p hhost
  exact ⟨hne, h, p, hauthority, hsame, hport⟩

/-- `check_authority` on a `CONNECT`. -/
theorem checkAuthority_connect {head : Head} (hcount : head.count .host ≤ 1)
    (hmethod : head.method = .connect) (h : checkAuthority head = .ok ()) :
    ∃ host port, Authority head.target.bytes host (some port) ∧
      HostNames head host (connectPortOk port) := by
  unfold checkAuthority at h
  simp only [hmethod, if_true] at h
  split at h
  · cases h
  · rename_i field hread
    split at h
    · cases h
    · rename_i targetHost targetPort htarget
      obtain ⟨hparse, hsome⟩ := Option.filter_eq_some_iff.mp htarget
      obtain ⟨port, rfl⟩ := Option.isSome_iff_exists.mp hsome
      split at h
      · cases h
      · rename_i hempty
        rw [Bool.not_eq_true] at hempty
        refine ⟨targetHost, port, parseAuthority_iff.mp hparse,
          hostNames_of_agrees hcount hread hempty ?_⟩
        rintro h' p rfl
        cases p with
        | some p =>
            simp only at h
            split at h
            · rename_i hsame
              rw [Bool.and_eq_true, beq_iff_eq, Option.some.injEq] at hsame
              exact ⟨hsame.1, hsame.2.symm⟩
            · cases h
        | none =>
            simp only at h
            split at h
            · rename_i hsame
              rw [Bool.and_eq_true] at hsame
              exact ⟨hsame.1, by simpa [connectPortOk] using hsame.2⟩
            · cases h

/-- `check_authority` on an absolute-form target. -/
theorem checkAuthority_absolute {head : Head} {scheme authority : Bytes}
    (hcount : head.count .host ≤ 1) (hmethod : head.method ≠ .connect)
    (habsolute : findAbsoluteAuthority head.target.bytes = some (scheme, authority))
    (h : checkAuthority head = .ok ()) :
    ∃ default host port, HttpScheme scheme default ∧ Authority authority host port ∧
      HostNames head host fun p => p.getD default = port.getD default := by
  have hauthority : head.authority = some authority := by
    unfold Head.authority
    rw [habsolute]
  have hscheme : head.absoluteScheme = some scheme := by
    rw [Head.absoluteScheme, habsolute]
    rfl
  unfold checkAuthority at h
  simp only [hmethod, if_false, hscheme, hauthority, Option.getD_some] at h
  split at h
  · cases h
  · rename_i field hread
    split at h
    · cases h
    · rename_i default hdefault
      have hserved : HttpScheme scheme default := by
        split at hdefault
        · rename_i hhttp
          cases hdefault
          exact .http hhttp
        · split at hdefault
          · rename_i hhttps
            cases hdefault
            exact .https hhttps
          · cases hdefault
      split at h
      · cases h
      · rename_i targetHost targetPort hparse
        split at h
        · cases h
        · rename_i hempty
          rw [Bool.not_eq_true] at hempty
          refine ⟨default, targetHost, targetPort, hserved, parseAuthority_iff.mp hparse,
            hostNames_of_agrees hcount hread hempty ?_⟩
          rintro h' p rfl
          simp only at h
          split at h
          · rename_i hsame
            rw [Bool.and_eq_true, beq_iff_eq] at hsame
            exact hsame
          · cases h

/-- The `Host` rules of `decide`: how many there may be, and what is checked
of them. -/
def HostOk (head : Head) : Prop :=
  (head.count .host = 1 ∨ (head.count .host = 0 ∧ head.version = .http10)) ∧
    checkAuthority head = .ok ()

theorem hostOk_of_decideFraming {head : Head} {limits : Limits} {kind : BodyKind}
    (h : decideFraming head limits = .ok kind) : HostOk head := by
  unfold decideFraming at h
  simp only at h
  split at h
  · cases h
  · rename_i hmissing
    split at h
    · cases h
    · rename_i hmultiple
      split at h
      · cases h
      · rename_i hchecked
        refine ⟨?_, hchecked⟩
        by_cases hzero : head.count .host = 0
        · refine Or.inr ⟨hzero, ?_⟩
          cases hversion : head.version with
          | http10 => rfl
          | http11 => exact absurd ⟨hzero, hversion⟩ hmissing
        · exact Or.inl (by omega)

/-- **`Host` and the target never name different authorities.** An accepted
head has at most one `Host`, and in HTTP/1.1 exactly one, which is empty or
an authority. The target of a `CONNECT` is an authority with a port, and it
is the request's; that of an absolute-form target is an authority of a URI
with a served scheme, and it is the request's. In either case a `Host`
beside it names the same host, and a port that means the same. -/
theorem authorities_agree (head : Head) (limits : Limits) (kind : BodyKind)
    (h : decideFraming head limits = .ok kind) :
    head.count .host ≤ 1 ∧
      (head.version = .http11 → head.count .host = 1) ∧
      (∀ v ∈ head.all .host, v ≠ [] → ∃ host port, Authority v host port) ∧
      (head.method = .connect →
        head.authority = some head.target.bytes ∧ 0x40 ∉ head.target.bytes ∧
        ∃ host port, Authority head.target.bytes host (some port) ∧
          HostNames head host (connectPortOk port)) ∧
      (∀ scheme authority, AbsoluteForm head.target.bytes scheme authority →
        head.authority = some authority ∧ 0x40 ∉ authority ∧
        ∃ default host port, HttpScheme scheme default ∧ Authority authority host port ∧
          HostNames head host fun p => p.getD default = port.getD default) := by
  obtain ⟨hcount, hchecked⟩ := hostOk_of_decideFraming h
  have hone : head.count .host ≤ 1 := by omega
  refine ⟨hone, ?_, ?_, ?_, ?_⟩
  · intro hversion
    rcases hcount with hcount | ⟨-, h10⟩
    · exact hcount
    · rw [hversion] at h10
      cases h10
  · intro v hv hne
    have hread : ∃ host, hostAuthority (head.get .host) = .ok host := by
      unfold checkAuthority at hchecked
      simp only at hchecked
      split at hchecked
      · cases hchecked
      · rename_i host hread; exact ⟨host, hread⟩
    obtain ⟨host, hread⟩ := hread
    obtain ⟨a, -, hauthority⟩ := hostAuthority_ok hread v (Head.get_of_mem hone hv) hne
    exact ⟨a.1, a.2, hauthority⟩
  · intro hmethod
    obtain ⟨host, port, htarget, hnames⟩ := checkAuthority_connect hone hmethod hchecked
    have hnone := findAbsoluteAuthority_eq_none fun _ _ => htarget.not_absolute
    refine ⟨?_, htarget.at_notMem, host, port, htarget, hnames⟩
    unfold Head.authority
    rw [hnone]
    simp only [hmethod, if_true]
  · intro scheme authority habsolute
    -- a `CONNECT` target that was accepted is in no other form
    have hmethod : head.method ≠ .connect := by
      intro hmethod
      obtain ⟨host, port, htarget, -⟩ := checkAuthority_connect hone hmethod hchecked
      exact htarget.not_absolute habsolute
    have hfound := findAbsoluteAuthority_iff.mpr habsolute
    obtain ⟨default, host, port, hscheme, hauthority, hnames⟩ :=
      checkAuthority_absolute hone hmethod hfound hchecked
    refine ⟨?_, hauthority.at_notMem, default, host, port, hscheme, hauthority, hnames⟩
    unfold Head.authority
    rw [hfound]

/-- A request to a proxy, and one for a tunnel. -/
def proxyRequest : Head :=
  ⟨.get, .literal "HTTP://A.example/x", .http11, [(.host, ascii "a.EXAMPLE:80")]⟩

def tunnelRequest : Head :=
  ⟨.connect, .literal "a.example:443", .http11, [(.host, ascii "A.example")]⟩

theorem authorities_agree_proxy_tunnel :
    (decideFraming proxyRequest Limits.default = .ok .none ∧
      proxyRequest.authority = some (ascii "A.example")) ∧
    (decideFraming tunnelRequest Limits.default = .ok .none ∧
      tunnelRequest.authority = some (ascii "a.example:443")) := by
  have hproxy : decideFraming proxyRequest Limits.default = .ok .none := by rfl
  have htunnel : decideFraming tunnelRequest Limits.default = .ok .none := by rfl
  obtain ⟨-, -, -, -, habsolute⟩ := authorities_agree proxyRequest Limits.default .none hproxy
  obtain ⟨-, -, -, hconnect, -⟩ := authorities_agree tunnelRequest Limits.default .none htunnel
  have hform : AbsoluteForm proxyRequest.target.bytes (ascii "HTTP") (ascii "A.example") :=
    findAbsoluteAuthority_iff.mp (by decide)
  exact ⟨⟨hproxy, (habsolute _ _ hform).1⟩, htunnel, (hconnect rfl).1⟩

end ArmatureH1
