/-
ArmatureH1.FramingTheorems — what `framing::decide` accepts.

`decide` is a walk through rules that can each refuse, over any number of
fields whose values are lists. Below, each loop of it gets one lemma that
says what it accepts (`collectCodings_iff`, `decideCodings_iff`,
`agreeLengths_iff`), and behind the `Host` rules the whole decision is one
equation (`decideFraming_of_hostOk`). From these follow the three outcomes a
head can have, each with the exact condition for it (`decideFraming_exact`),
and that nothing else about the head matters (`decideFraming_congr`).

Hops may merge, split and reorder fields. `decide` sees of a framing field
whether it is there, whether it is ASCII, and its elements in wire order
(`SameValues`), which none of that changes (`decideFraming_regrouped`).

The writer reads a `Transfer-Encoding` too, with a search of its own for the
last coding; `teFramesChunked_agrees_iff` says when the two readings agree.
-/
import ArmatureH1.Authority

namespace ArmatureH1

open ByteString

/-! ## 1. Transfer codings -/

theorem collectCodings_iff {values codings : List Bytes} :
    collectCodings values = .ok codings ↔
      (∀ v ∈ values, isAscii v = true) ∧ codings = values.flatMap codingsOf := by
  induction values generalizing codings with
  | nil =>
      simp only [collectCodings, Except.ok.injEq, List.flatMap_nil, List.not_mem_nil,
        false_implies, implies_true, true_and]
      exact eq_comm
  | cons v values ih =>
      rw [collectCodings]
      by_cases hascii : isAscii v = true
      · rw [if_neg (by simp [hascii])]
        cases hrest : collectCodings values with
        | error e =>
            have hnot : ¬ ∀ v ∈ values, isAscii v = true := by
              intro hall
              have := ih.mpr ⟨hall, rfl⟩
              rw [hrest] at this
              cases this
            simp only [Except.map, reduceCtorEq, List.mem_cons, forall_eq_or_imp,
              false_iff, not_and]
            intro hall
            exact absurd hall.2 hnot
        | ok cs =>
            obtain ⟨hall, rfl⟩ := ih.mp hrest
            simp only [Except.map, Except.ok.injEq, List.mem_cons, forall_eq_or_imp, hascii,
              List.flatMap_cons, true_and]
            exact ⟨fun h => ⟨hall, h.symm⟩, fun h => h.2.symm⟩
      · rw [if_pos (by simpa using hascii)]
        simp [hascii]

/-- The only list of codings that frames a request. -/
theorem decideCodings_iff {codings : List Bytes} {kind : BodyKind} :
    decideCodings codings = .ok kind ↔
      kind = .chunked ∧ ∃ c, codings = [c] ∧ eqIgnoreAsciiCase c (ascii "chunked") = true := by
  constructor
  · intro h
    unfold decideCodings at h
    simp only at h
    split at h
    · rename_i hlast
      split at h
      · rename_i hlen
        cases h
        obtain ⟨c, rfl⟩ := List.length_eq_one_iff.mp hlen
        exact ⟨rfl, c, rfl, by simpa using hlast.2⟩
      · cases h
    · split at h <;> cases h
  · rintro ⟨rfl, c, rfl, hc⟩
    simp [decideCodings, hc]

/-! ## 2. Lengths -/

theorem decimal_cons (b : UInt8) (bytes : Bytes) :
    decimal (b :: bytes) = (b.toNat - 48) * 10 ^ bytes.length + decimal bytes := by
  rw [decimal, List.map_cons, Numeral.value_cons, List.length_map]
  rfl

/-- The loop of `parse_content_length`, from any accumulator: the overflow
checks on the way are one check at the end. -/
theorem contentLengthLoop_iff {bytes : Bytes} {acc n : Nat} (hacc : acc < 2 ^ 64) :
    contentLengthLoop acc bytes = .ok n ↔
      (∀ b ∈ bytes, isAsciiDigit b = true) ∧ acc * 10 ^ bytes.length + decimal bytes = n ∧
        n < 2 ^ 64 := by
  induction bytes generalizing acc with
  | nil =>
      simp only [contentLengthLoop, Except.ok.injEq, List.not_mem_nil, false_implies, implies_true,
        List.length_nil, Nat.pow_zero, Nat.mul_one, true_and]
      have hzero : decimal [] = 0 := rfl
      rw [hzero, Nat.add_zero]
      exact ⟨fun h => ⟨h, h ▸ hacc⟩, fun h => h.1⟩
  | cons b bytes ih =>
      have hsum : acc * 10 ^ (b :: bytes).length + decimal (b :: bytes)
          = (acc * 10 + (b.toNat - 48)) * 10 ^ bytes.length + decimal bytes := by
        rw [decimal_cons, List.length_cons, Nat.pow_succ]
        ring
      rw [contentLengthLoop, hsum]
      by_cases hdigit : isAsciiDigit b = true
      · rw [if_neg (by simp [hdigit])]
        by_cases hfits : acc * 10 + (b.toNat - 48) < 2 ^ 64
        · have hmul : checkedMul acc 10 = some (acc * 10) := if_pos (by omega)
          have hadd : checkedAdd (acc * 10) (b.toNat - 48) = some (acc * 10 + (b.toNat - 48)) :=
            if_pos hfits
          simp only [hmul, Option.bind_some, hadd]
          rw [ih hfits]
          simp [hdigit]
        · have hnone : (checkedMul acc 10).bind (checkedAdd · (b.toNat - 48)) = none := by
            unfold checkedMul
            split
            · rw [Option.bind_some]
              exact if_neg hfits
            · rfl
          rw [hnone]
          have hbig := Nat.le_mul_of_pos_right (acc * 10 + (b.toNat - 48))
            (Nat.one_le_pow bytes.length 10 (by omega))
          simp only [reduceCtorEq, false_iff]
          rintro ⟨-, heq, hlt⟩
          omega
      · rw [if_pos (by simpa using hdigit)]
        simp only [reduceCtorEq, List.mem_cons, forall_eq_or_imp, hdigit, Bool.false_eq_true,
          false_and]

/-- `parse_content_length` reads a decimal number that fits a `u64`. -/
theorem parseContentLength_iff {bytes : Bytes} {n : Nat} :
    parseContentLength bytes = .ok n ↔ IsDigits bytes ∧ decimal bytes = n ∧ n < 2 ^ 64 := by
  unfold parseContentLength IsDigits
  split
  · rename_i hnil
    simp [hnil]
  · rename_i hne
    rw [contentLengthLoop_iff (by omega)]
    simp [hne]

theorem agreeLengths_some_iff {elements : List Bytes} {prev : Nat} {agreed : Option Nat} :
    agreeLengths (some prev) elements = .ok agreed ↔
      agreed = some prev ∧ ∀ e ∈ elements, parseContentLength (trimOws e) = .ok prev := by
  induction elements with
  | nil =>
      simp only [agreeLengths, Except.ok.injEq, List.not_mem_nil, false_implies, implies_true,
        and_true]
      exact eq_comm
  | cons e elements ih =>
      rw [agreeLengths]
      cases hparse : parseContentLength (trimOws e) with
      | error err => simp [hparse]
      | ok n =>
          by_cases hsame : prev = n
          · subst hsame
            simp only [if_true, ih, List.mem_cons, forall_eq_or_imp, hparse, true_and]
          · have hother : n ≠ prev := fun h => hsame h.symm
            simp [hparse, hsame, hother]

/-- The agreement loop: one number, and every element is it. -/
theorem agreeLengths_iff {elements : List Bytes} {n : Nat} :
    agreeLengths none elements = .ok (some n) ↔
      elements ≠ [] ∧ ∀ e ∈ elements, parseContentLength (trimOws e) = .ok n := by
  cases elements with
  | nil => simp [agreeLengths]
  | cons e elements =>
      rw [agreeLengths]
      cases hparse : parseContentLength (trimOws e) with
      | error err => simp [hparse]
      | ok m =>
          rw [agreeLengths_some_iff]
          simp only [Option.some.injEq, ne_eq, reduceCtorEq, not_false_eq_true, List.mem_cons,
            forall_eq_or_imp, hparse, Except.ok.injEq, true_and]
          constructor
          · rintro ⟨rfl, hall⟩
            exact ⟨rfl, hall⟩
          · rintro ⟨rfl, hall⟩
            exact ⟨rfl, hall⟩

/-! ## 3. The decision -/

/-- A field is present when it has a value. -/
theorem any_eq_true_iff {head : Head} {id : HeaderId} :
    (head.headers.any fun f => f.1 == id) = true ↔ head.all id ≠ [] := by
  simp [Head.all, HeaderVec.all]

/-- `decide` behind the `Host` rules. -/
theorem decideFraming_of_hostOk {head : Head} (hhost : HostOk head) (limits : Limits) :
    decideFraming head limits
      = if head.all .contentLength ≠ [] ∧ head.all .transferEncoding ≠ [] then
          .error .lengthAndTransferEncoding
        else if head.all .transferEncoding ≠ [] then
          if head.version = .http10 then .error .transferEncodingOnHttp10
          else
            match collectCodings (head.all .transferEncoding) with
            | .error e => .error e
            | .ok codings => decideCodings codings
        else if head.all .contentLength ≠ [] then
          match agreeLengths none ((head.all .contentLength).flatMap (·.splitOn 44)) with
          | .error e => .error e
          | .ok none => .error .invalidContentLength
          | .ok (some len) =>
            if len > limits.maxBodyBytes then .error .bodyTooLarge else .ok (.length len)
        else .ok .none := by
  obtain ⟨hcount, hchecked⟩ := hhost
  have hmissing : ¬ (head.count .host = 0 ∧ head.version = .http11) := by
    rintro ⟨hzero, h11⟩
    rcases hcount with hone | ⟨-, h10⟩
    · omega
    · rw [h11] at h10
      cases h10
  have hmultiple : ¬ head.count .host > 1 := by omega
  unfold decideFraming
  -- what the codings and the lengths come to is the same on both sides
  generalize collectCodings (head.all .transferEncoding) = codings
  generalize agreeLengths none _ = agreed
  cases codings with
  | error e | ok codings =>
      rcases agreed with e | _ | len
      all_goals
        simp only [hmissing, hmultiple, if_false, hchecked, Bool.and_eq_true, any_eq_true_iff]

/-- The comma elements of a field, in wire order. -/
def Head.elements (head : Head) (id : HeaderId) : List Bytes :=
  (head.all id).flatMap fun v => (v.splitOn 44).map trimOws

theorem elements_nonempty (values : List Bytes) :
    (values.flatMap fun v => (v.splitOn 44).map trimOws).filter (fun e => !e.isEmpty)
      = values.flatMap codingsOf := by
  induction values with
  | nil => rfl
  | cons v values ih => rw [List.flatMap_cons, List.filter_append, ih]; rfl

/-- A value has at least one element. -/
theorem flatMap_splitOn_ne_nil {values : List Bytes} (h : values ≠ []) :
    values.flatMap (·.splitOn 44) ≠ [] := by
  obtain ⟨v, values, rfl⟩ := List.exists_cons_of_ne_nil h
  rw [List.flatMap_cons, ne_eq, List.append_eq_nil_iff]
  exact fun hnil => List.splitOn_ne_nil 44 v hnil.1

/-- `chunked` alone, in whatever letter case, and nothing beside it. -/
def FramedChunked (head : Head) : Prop :=
  head.version = .http11 ∧ head.all .transferEncoding ≠ [] ∧ head.all .contentLength = [] ∧
    (∀ v ∈ head.all .transferEncoding, isAscii v = true) ∧
    ∃ c, (head.elements .transferEncoding).filter (fun e => !e.isEmpty) = [c] ∧
      eqIgnoreAsciiCase c (ascii "chunked") = true

/-- One number, however often it is said. -/
def FramedLength (head : Head) (limits : Limits) (n : Nat) : Prop :=
  head.all .transferEncoding = [] ∧ head.all .contentLength ≠ [] ∧
    (∀ e ∈ head.elements .contentLength, IsDigits e ∧ decimal e = n) ∧
    n < 2 ^ 64 ∧ n ≤ limits.maxBodyBytes

theorem decideFraming_chunked_iff {head : Head} (hhost : HostOk head) (limits : Limits) :
    decideFraming head limits = .ok .chunked ↔ FramedChunked head := by
  rw [decideFraming_of_hostOk hhost, FramedChunked, Head.elements, elements_nonempty]
  by_cases hte : head.all .transferEncoding = []
  · simp only [hte, ne_eq, not_true_eq_false, and_false, if_false, false_and, iff_false]
    split
    · split
      · simp
      · simp
      · split <;> simp
    · simp
  · by_cases hlen : head.all .contentLength = []
    · rw [if_neg (by simp [hlen]), if_pos hte]
      cases hversion : head.version with
      | http10 => simp
      | http11 =>
          rw [if_neg (by simp)]
          cases hcollect : collectCodings (head.all .transferEncoding) with
          | error e =>
              have hnot : ¬ ∀ v ∈ head.all .transferEncoding, isAscii v = true := by
                intro hall
                have := collectCodings_iff.mpr ⟨hall, rfl⟩
                rw [hcollect] at this
                cases this
              simp [hnot]
          | ok codings =>
              obtain ⟨hall, rfl⟩ := collectCodings_iff.mp hcollect
              simp only [decideCodings_iff, true_and, ne_eq, hte, not_false_eq_true, hlen]
              exact ⟨fun h => ⟨hall, h⟩, fun h => h.2⟩
    · simp [hte, hlen]

/-- With a `Transfer-Encoding` there is only one thing `decide` can accept. -/
theorem chunked_of_coding {head : Head} {limits : Limits} {kind : BodyKind} (hhost : HostOk head)
    (hte : head.all .transferEncoding ≠ []) (h : decideFraming head limits = .ok kind) :
    kind = .chunked := by
  rw [decideFraming_of_hostOk hhost] at h
  split at h
  · cases h
  · split at h
    · cases h
    · split at h
      · cases h
      · exact (decideCodings_iff.mp h).1

/-- The agreement loop over the values of a field, in terms of its elements. -/
theorem agreeLengths_values_iff {values : List Bytes} {n : Nat} (hne : values ≠ []) :
    agreeLengths none (values.flatMap (·.splitOn 44)) = .ok (some n) ↔
      (∀ e ∈ values.flatMap fun v => (v.splitOn 44).map trimOws, IsDigits e ∧ decimal e = n) ∧
        n < 2 ^ 64 := by
  have hmap : (values.flatMap fun v => (v.splitOn 44).map trimOws)
      = (values.flatMap (·.splitOn 44)).map trimOws := by
    rw [List.map_flatMap]
  have helements := flatMap_splitOn_ne_nil hne
  rw [agreeLengths_iff, hmap]
  simp only [parseContentLength_iff, List.forall_mem_map]
  constructor
  · rintro ⟨-, hall⟩
    obtain ⟨e, rest, heq⟩ := List.exists_cons_of_ne_nil helements
    exact ⟨fun e he => ⟨(hall e he).1, (hall e he).2.1⟩, (hall e (by simp [heq])).2.2⟩
  · rintro ⟨hall, hlt⟩
    exact ⟨helements, fun e he => ⟨(hall e he).1, (hall e he).2, hlt⟩⟩

theorem decideFraming_length_iff {head : Head} (hhost : HostOk head) (limits : Limits) (n : Nat) :
    decideFraming head limits = .ok (.length n) ↔ FramedLength head limits n := by
  rw [decideFraming_of_hostOk hhost, FramedLength, Head.elements]
  by_cases hte : head.all .transferEncoding = []
  · by_cases hlen : head.all .contentLength = []
    · simp [hte, hlen]
    · rw [if_neg (by simp [hte]), if_neg (by simp [hte]), if_pos hlen]
      have hagree := fun m => agreeLengths_values_iff (n := m) hlen
      cases hread : agreeLengths none ((head.all .contentLength).flatMap (·.splitOn 44)) with
      | error e =>
          have hnot := (hagree n).not.mp (by simp [hread])
          simp only [reduceCtorEq, false_iff]
          rintro ⟨-, -, hall, hlt, -⟩
          exact hnot ⟨hall, hlt⟩
      | ok agreed =>
          cases agreed with
          | none =>
              have hnot := (hagree n).not.mp (by simp [hread])
              simp only [reduceCtorEq, false_iff]
              rintro ⟨-, -, hall, hlt, -⟩
              exact hnot ⟨hall, hlt⟩
          | some len =>
              have hsame :
                  (∀ e ∈ (head.all .contentLength).flatMap fun v => (v.splitOn 44).map trimOws,
                  IsDigits e ∧ decimal e = n) ∧ n < 2 ^ 64 ↔ len = n := by
                rw [← hagree n, hread]
                simp
              simp only [hte, hlen, ne_eq, not_false_eq_true, true_and]
              constructor
              · intro h
                split at h
                · cases h
                · rename_i hfits
                  cases h
                  exact ⟨(hsame.mpr rfl).1, (hsame.mpr rfl).2, by omega⟩
              · rintro ⟨hall, hlt, hfits⟩
                obtain rfl := hsame.mp ⟨hall, hlt⟩
                rw [if_neg (by omega)]
  · have hkind : decideFraming head limits ≠ .ok (.length n) := fun h =>
      absurd (chunked_of_coding hhost hte h) (by simp)
    rw [decideFraming_of_hostOk hhost] at hkind
    simp only [hkind, hte, false_and]

theorem decideFraming_none_iff {head : Head} (hhost : HostOk head) (limits : Limits) :
    decideFraming head limits = .ok .none ↔
      head.all .transferEncoding = [] ∧ head.all .contentLength = [] := by
  constructor
  · intro h
    have hte : head.all .transferEncoding = [] := by
      by_contra hte
      exact absurd (chunked_of_coding hhost hte h) (by simp)
    refine ⟨hte, ?_⟩
    by_contra hlen
    rw [decideFraming_of_hostOk hhost, if_neg (by simp [hte]), if_neg (by simp [hte]),
      if_pos hlen] at h
    split at h
    · cases h
    · cases h
    · split at h <;> cases h
  · rintro ⟨hte, hlen⟩
    rw [decideFraming_of_hostOk hhost, if_neg (by simp [hte]), if_neg (by simp [hte]),
      if_neg (by simp [hlen])]

/-- **`decide` accepts exactly the unambiguous framings.** -/
theorem decideFraming_exact (head : Head) (limits : Limits) (hhost : HostOk head) :
    (decideFraming head limits = .ok .chunked ↔ FramedChunked head) ∧
      (∀ n, decideFraming head limits = .ok (.length n) ↔ FramedLength head limits n) ∧
      (decideFraming head limits = .ok .none ↔
        head.all .transferEncoding = [] ∧ head.all .contentLength = []) ∧
      (¬ FramedChunked head → (∀ n, ¬ FramedLength head limits n) →
        ¬ (head.all .transferEncoding = [] ∧ head.all .contentLength = []) →
        ∃ e, decideFraming head limits = .error e) := by
  refine ⟨decideFraming_chunked_iff hhost limits, decideFraming_length_iff hhost limits,
    decideFraming_none_iff hhost limits, ?_⟩
  intro hchunked hlength hnone
  cases h : decideFraming head limits with
  | error e => exact ⟨e, rfl⟩
  | ok kind =>
      cases kind with
      | none => exact absurd ((decideFraming_none_iff hhost limits).mp h) hnone
      | length n => exact absurd ((decideFraming_length_iff hhost limits n).mp h) (hlength n)
      | chunked => exact absurd ((decideFraming_chunked_iff hhost limits).mp h) hchunked

/-- A head whose two lengths agree, in two spellings. -/
def repeatedLength : Head :=
  ⟨.post, .literal "/", .http11,
    [(.host, ascii "a"), (.contentLength, ascii "5, 005"), (.contentLength, ascii " 5")]⟩

theorem decideFraming_exact_repeated :
    HostOk repeatedLength ∧ FramedLength repeatedLength Limits.default 5 := by
  have hhost : HostOk repeatedLength := ⟨Or.inl rfl, rfl⟩
  exact ⟨hhost, ((decideFraming_exact repeatedLength Limits.default hhost).2.1 5).mp (by rfl)⟩

/-! ## 4. What the decision depends on -/

/-- `check_authority` reads the method, the target and the first `Host`. -/
theorem checkAuthority_congr {h h' : Head} (hmethod : h.method = h'.method)
    (htarget : h.target = h'.target) (hhost : h.all .host = h'.all .host) :
    checkAuthority h = checkAuthority h' := by
  have hget : h.get .host = h'.get .host := by
    rw [Head.get, Head.get, HeaderVec.get_eq_head?, HeaderVec.get_eq_head?]
    exact congrArg List.head? hhost
  have hscheme : h.absoluteScheme = h'.absoluteScheme := by
    rw [Head.absoluteScheme, Head.absoluteScheme, htarget]
  have hauthority : h.authority = h'.authority := by
    rw [Head.authority, Head.authority, htarget, hget, hmethod]
  unfold checkAuthority
  rw [hget, hmethod, htarget, hscheme, hauthority]

/-- White space that may stand around a comma. -/
def IsOwsRun (ows : Bytes) : Prop := ∀ b ∈ ows, isOws b = true

theorem IsOwsRun.comma_notMem {ows : Bytes} (h : IsOwsRun ows) : 44 ∉ ows :=
  notMem_of_class h (by decide)

theorem IsOwsRun.isAscii {ows : Bytes} (h : IsOwsRun ows) : ByteString.isAscii ows = true := by
  rw [ByteString.isAscii, List.all_eq_true]
  intro b hb
  have hows := h b hb
  rw [isOws, Bool.or_eq_true, beq_iff_eq, beq_iff_eq] at hows
  rcases hows with rfl | rfl <;> rfl

/-- Values joined in order with commas, each comma with or without white space
around it. -/
inductive Joined : List Bytes → Bytes → Prop where
  | one (v : Bytes) : Joined [v] v
  | comma {v before after joined : Bytes} {values : List Bytes} : IsOwsRun before →
      IsOwsRun after → Joined values joined →
      Joined (v :: values) (v ++ before ++ 44 :: (after ++ joined))

/-- What a hop may do to a header list without changing its meaning. Several
values of a framing field become one: those before and behind them and every
other field stay as they are. -/
inductive Regrouped : HeaderVec → HeaderVec → Prop where
  | permuted {headers headers' : HeaderVec} : headers.Perm headers' →
      (∀ id, headers.all id = headers'.all id) → Regrouped headers headers'
  | inserted {front back : HeaderVec} {f : HeaderId × Bytes} :
      f.1 ∉ [HeaderId.host, .contentLength, .transferEncoding] →
      Regrouped (front ++ back) (front ++ f :: back)
  | joined {headers headers' : HeaderVec} {id : HeaderId} {before values after : List Bytes}
      {value : Bytes} : id = .contentLength ∨ id = .transferEncoding → Joined values value →
      headers.all id = before ++ values ++ after → headers'.all id = before ++ value :: after →
      (∀ other, other ≠ id → headers.all other = headers'.all other) →
      Regrouped headers headers'

/-- The elements of several values, in wire order. -/
def elementsOf (values : List Bytes) : List Bytes :=
  values.flatMap fun v => (v.splitOn 44).map trimOws

/-- What `decide` can see of the values of a framing field. -/
def SameValues (values values' : List Bytes) : Prop :=
  (values = [] ↔ values' = []) ∧ values.all isAscii = values'.all isAscii ∧
    elementsOf values = elementsOf values'

theorem SameValues.refl (values : List Bytes) : SameValues values values :=
  ⟨Iff.rfl, rfl, rfl⟩

theorem elementsOf_append (xs ys : List Bytes) :
    elementsOf (xs ++ ys) = elementsOf xs ++ elementsOf ys := List.flatMap_append

theorem elementsOf_singleton (v : Bytes) : elementsOf [v] = (v.splitOn 44).map trimOws :=
  List.append_nil _

theorem elementsOf_cons (v : Bytes) (values : List Bytes) :
    elementsOf (v :: values) = elementsOf [v] ++ elementsOf values :=
  elementsOf_append [v] values

theorem elementsOf_append_ows (v : Bytes) {ows : Bytes} (h : IsOwsRun ows) :
    elementsOf [v ++ ows] = elementsOf [v] := by
  obtain ⟨init, last, hv, happend⟩ := splitOn_append_notMem (s := v) h.comma_notMem
  rw [elementsOf_singleton, elementsOf_singleton, hv, happend, List.map_append, List.map_append,
    List.map_singleton, List.map_singleton, trimOws_append_ows last h]

theorem elementsOf_ows_append {ows : Bytes} (h : IsOwsRun ows) (v : Bytes) :
    elementsOf [ows ++ v] = elementsOf [v] := by
  obtain ⟨first, tail, hv, happend⟩ := splitOn_notMem_append (t := v) h.comma_notMem
  rw [elementsOf_singleton, elementsOf_singleton, hv, happend, List.map_cons, List.map_cons,
    trimOws_ows_append h first]

/-- A comma parts elements as a field boundary does. -/
theorem elementsOf_comma (v w : Bytes) :
    elementsOf [v ++ 44 :: w] = elementsOf [v] ++ elementsOf [w] := by
  rw [elementsOf_singleton, elementsOf_singleton, elementsOf_singleton,
    List.splitOn_append_cons_self, List.map_append]

theorem isAscii_append (s t : Bytes) : isAscii (s ++ t) = (isAscii s && isAscii t) :=
  List.all_append

theorem Joined.ne_nil {values : List Bytes} {value : Bytes} (h : Joined values value) :
    values ≠ [] := by
  cases h with
  | one => simp
  | comma => simp

theorem Joined.sameValues {values : List Bytes} {value : Bytes} (h : Joined values value) :
    SameValues values [value] := by
  induction h with
  | one v => exact SameValues.refl [v]
  | @comma v before after joined values hbefore hafter _ ih =>
      obtain ⟨-, hascii, helements⟩ := ih
      refine ⟨by simp, ?_, ?_⟩
      · have hcomma : isAscii (44 :: (after ++ joined)) = isAscii (after ++ joined) := rfl
        rw [List.all_cons, hascii, List.all_cons, List.all_cons, isAscii_append, isAscii_append,
          hcomma, isAscii_append, hbefore.isAscii, hafter.isAscii]
        simp
      · rw [elementsOf_cons, elementsOf_comma, elementsOf_append_ows v hbefore,
          elementsOf_ows_append hafter, helements]

theorem SameValues.within {values values' : List Bytes} (h : SameValues values values')
    (hne : values ≠ []) (before after : List Bytes) :
    SameValues (before ++ values ++ after) (before ++ values' ++ after) := by
  obtain ⟨hnil, hascii, helements⟩ := h
  have hne' : values' ≠ [] := fun h => hne (hnil.mpr h)
  refine ⟨by simp [hne, hne'], ?_, ?_⟩
  · rw [List.all_append, List.all_append, List.all_append, List.all_append, hascii]
  · rw [elementsOf_append, elementsOf_append, elementsOf_append, elementsOf_append, helements]

/-! What each loop of `decide` makes of values that look the same to it. -/

theorem collectCodings_eq (values : List Bytes) :
    collectCodings values
      = if values.all isAscii then .ok ((elementsOf values).filter fun e => !e.isEmpty)
        else .error .chunkedNotFinal := by
  rw [elementsOf, elements_nonempty]
  induction values with
  | nil => rfl
  | cons v values ih =>
      rw [collectCodings, ih, List.all_cons]
      cases isAscii v with
      | false => rfl
      | true =>
          cases values.all isAscii with
          | false => rfl
          | true => rfl

theorem agreeLengths_congr {elements elements' : List Bytes}
    (h : elements.map trimOws = elements'.map trimOws) (agreed : Option Nat) :
    agreeLengths agreed elements = agreeLengths agreed elements' := by
  induction elements generalizing elements' agreed with
  | nil =>
      obtain rfl : elements' = [] := by simpa using h.symm
      rfl
  | cons e elements ih =>
      cases elements' with
      | nil => cases h
      | cons e' elements' =>
          rw [List.map_cons, List.map_cons, List.cons.injEq] at h
          rw [agreeLengths, agreeLengths, h.1]
          simp only [fun agreed => ih h.2 agreed]

/-- Two header lists in which `decide` sees the same. -/
def SameFraming (headers headers' : HeaderVec) : Prop :=
  headers.all .host = headers'.all .host ∧
    SameValues (headers.all .contentLength) (headers'.all .contentLength) ∧
    SameValues (headers.all .transferEncoding) (headers'.all .transferEncoding)

theorem SameFraming.symm {headers headers' : HeaderVec} (h : SameFraming headers headers') :
    SameFraming headers' headers := by
  obtain ⟨hhost, ⟨hl1, hl2, hl3⟩, ht1, ht2, ht3⟩ := h
  exact ⟨hhost.symm, ⟨hl1.symm, hl2.symm, hl3.symm⟩, ht1.symm, ht2.symm, ht3.symm⟩

theorem SameFraming.trans {a b c : HeaderVec} (h : SameFraming a b) (h' : SameFraming b c) :
    SameFraming a c := by
  obtain ⟨hhost, ⟨hl1, hl2, hl3⟩, ht1, ht2, ht3⟩ := h
  obtain ⟨hhost', ⟨hl1', hl2', hl3'⟩, ht1', ht2', ht3'⟩ := h'
  exact ⟨hhost.trans hhost', ⟨hl1.trans hl1', hl2.trans hl2', hl3.trans hl3'⟩,
    ht1.trans ht1', ht2.trans ht2', ht3.trans ht3'⟩

theorem sameFraming_of_all {headers headers' : HeaderVec}
    (h : ∀ id ∈ [HeaderId.host, .contentLength, .transferEncoding],
      headers.all id = headers'.all id) : SameFraming headers headers' := by
  refine ⟨h .host (by simp), ?_, ?_⟩
  · rw [h .contentLength (by simp)]
    exact SameValues.refl _
  · rw [h .transferEncoding (by simp)]
    exact SameValues.refl _

theorem Regrouped.sameFraming {headers headers' : HeaderVec} (h : Regrouped headers headers') :
    SameFraming headers headers' := by
  cases h with
  | permuted _ hall => exact sameFraming_of_all fun id _ => hall id
  | @inserted front back f hf =>
      refine sameFraming_of_all fun id hid => ?_
      have hother : (f.1 == id) = false := by
        rw [beq_eq_false_iff_ne]
        rintro rfl
        exact hf hid
      rw [HeaderVec.all, HeaderVec.all, List.filter_append, List.filter_append,
        List.filter_cons_of_neg (by simp [hother])]
  | joined hid hjoined hall hall' hother =>
      rename_i id before values after value
      have hsame := hjoined.sameValues.within hjoined.ne_nil before after
      rw [← hall, List.append_assoc, List.singleton_append, ← hall'] at hsame
      rcases hid with rfl | rfl
      · refine ⟨hother .host (by simp), hsame, ?_⟩
        rw [hother .transferEncoding (by simp)]
        exact SameValues.refl _
      · refine ⟨hother .host (by simp), ?_, hsame⟩
        rw [hother .contentLength (by simp)]
        exact SameValues.refl _

theorem any_eq_of_sameValues {h h' : Head} {id : HeaderId}
    (hsame : SameValues (h.all id) (h'.all id)) :
    (h.headers.any fun f => f.1 == id) = h'.headers.any fun f => f.1 == id := by
  rw [Bool.eq_iff_iff, any_eq_true_iff, any_eq_true_iff]
  exact not_congr hsame.1

theorem collectCodings_of_sameValues {values values' : List Bytes}
    (h : SameValues values values') : collectCodings values = collectCodings values' := by
  rw [collectCodings_eq, collectCodings_eq, h.2.1, h.2.2]

theorem agreeLengths_of_sameValues {values values' : List Bytes} (h : SameValues values values') :
    agreeLengths none (values.flatMap (·.splitOn 44))
      = agreeLengths none (values'.flatMap (·.splitOn 44)) := by
  refine agreeLengths_congr ?_ none
  rw [List.map_flatMap, List.map_flatMap]
  exact h.2.2

theorem decideFraming_of_sameFraming {h h' : Head} (hmethod : h.method = h'.method)
    (htarget : h.target = h'.target) (hversion : h.version = h'.version)
    (hsame : SameFraming h.headers h'.headers) (limits : Limits) :
    decideFraming h limits = decideFraming h' limits := by
  obtain ⟨hhost, hlen, hte⟩ := hsame
  change h.all .host = h'.all .host at hhost
  change SameValues (h.all .contentLength) (h'.all .contentLength) at hlen
  change SameValues (h.all .transferEncoding) (h'.all .transferEncoding) at hte
  have hcount : h.count .host = h'.count .host := by
    rw [Head.count, Head.count, HeaderVec.count_eq_length, HeaderVec.count_eq_length]
    exact congrArg List.length hhost
  unfold decideFraming
  rw [hcount, hversion, checkAuthority_congr hmethod htarget hhost, any_eq_of_sameValues hlen,
    any_eq_of_sameValues hte, collectCodings_of_sameValues hte, agreeLengths_of_sameValues hlen]

/-- **Only the values of three fields matter**, beside the request line. -/
theorem decideFraming_congr {h h' : Head} (hmethod : h.method = h'.method)
    (htarget : h.target = h'.target) (hversion : h.version = h'.version)
    (hall : ∀ id ∈ [HeaderId.host, .contentLength, .transferEncoding], h.all id = h'.all id)
    (limits : Limits) : decideFraming h limits = decideFraming h' limits :=
  decideFraming_of_sameFraming hmethod htarget hversion (sameFraming_of_all hall) limits

theorem sameFraming_of_regrouped {headers headers' : HeaderVec}
    (h : Relation.EqvGen Regrouped headers headers') : SameFraming headers headers' := by
  induction h with
  | rel _ _ hstep => exact hstep.sameFraming
  | refl headers => exact sameFraming_of_all fun _ _ => rfl
  | symm _ _ _ ih => exact ih.symm
  | trans _ _ _ _ _ ih ih' => exact ih.trans ih'

/-- **Framing does not depend on how the fields are grouped.** However often a
header list is reordered without changing the order of fields of one name,
gains or loses fields that do not frame, and has values of a framing field
joined with commas or split at them, `decide` answers the same: the same body
or the same error. -/
theorem decideFraming_regrouped (head : Head) (headers : HeaderVec) (limits : Limits)
    (h : Relation.EqvGen Regrouped head.headers headers) :
    decideFraming { head with headers := headers } limits = decideFraming head limits := by
  have hsame := (sameFraming_of_regrouped h).symm
  exact @decideFraming_of_sameFraming { head with headers := headers } head rfl rfl rfl hsame limits

/-- The fields of `repeatedLength` with its lengths in one, and then behind
another field. -/
def joinedLength : HeaderVec := [(.host, ascii "a"), (.contentLength, ascii "5, 005\t, 5")]

def movedLength : HeaderVec :=
  [(.contentLength, ascii "5, 005\t, 5"), (.accept, []), (.host, ascii "a")]

theorem decideFraming_regrouped_lengths :
    decideFraming { repeatedLength with headers := movedLength } Limits.default
      = .ok (.length 5) := by
  have hdecided : decideFraming repeatedLength Limits.default = .ok (.length 5) := by rfl
  have hjoined : Regrouped repeatedLength.headers joinedLength := by
    refine @Regrouped.joined _ _ .contentLength [] [ascii "5, 005", ascii " 5"] []
      (ascii "5, 005\t, 5") (Or.inl rfl) ?_ (by decide) (by decide) ?_
    · exact @Joined.comma (ascii "5, 005") [HTAB] [] (ascii " 5") [ascii " 5"]
        (by simp [IsOwsRun, isOws])
        (by simp [IsOwsRun]) (.one (ascii " 5"))
    · intro other hother
      have hne : (HeaderId.contentLength == other) = false := by
        rw [beq_eq_false_iff_ne]
        exact fun h => hother h.symm
      simp [repeatedLength, joinedLength, HeaderVec.all, List.filter_cons, hne]
  have hmoved : Regrouped joinedLength joinedLength.reverse := by
    refine .permuted (List.reverse_perm _).symm fun id => ?_
    by_cases hhost : HeaderId.host = id
    · subst hhost; rfl
    · simp [joinedLength, HeaderVec.all, List.filter_cons, hhost]
  have hinserted : Regrouped joinedLength.reverse movedLength :=
    @Regrouped.inserted [(.contentLength, ascii "5, 005\t, 5")] [(.host, ascii "a")] (.accept, [])
      (by simp)
  rw [← hdecided]
  exact decideFraming_regrouped repeatedLength movedLength Limits.default
    (.trans _ _ _ (.rel _ _ hjoined) (.trans _ _ _ (.rel _ _ hmoved) (.rel _ _ hinserted)))

/-! ## 5. What the writer means by chunked -/

/-- A coding that is `chunked`, in whatever letter case. -/
def isChunkedCoding (c : Bytes) : Bool := eqIgnoreAsciiCase c (ascii "chunked")

/-- A list of codings that ends in `chunked`. -/
def EndsInChunked (codings : List Bytes) : Prop :=
  ∃ front last, codings = front ++ [last] ∧ isChunkedCoding last = true

/-- A list of codings that ends in `chunked` and names it before as well. -/
def RepeatsFinalChunked (codings : List Bytes) : Prop :=
  ∃ front last, codings = front ++ [last] ∧ isChunkedCoding last = true ∧
    ∃ c ∈ front, isChunkedCoding c = true

/-- An HTTP/1.1 head that nothing is wrong with and whose only framing field
is `Transfer-Encoding: v`. -/
structure FramedOnlyBy (head : Head) (v : Bytes) : Prop where
  version : head.version = .http11
  host : HostOk head
  length : head.all .contentLength = []
  coding : head.all .transferEncoding = [v]

/-- `decide` finds `chunked` to be the final coding, applied once: it frames
the body by it, or refuses the codings below it. -/
def FindsChunkedFinal (head : Head) (limits : Limits) (v : Bytes) : Prop :=
  decideFraming head limits = .ok .chunked ∨
    (decideFraming head limits = .error .unsupportedTransferEncoding ∧ EndsInChunked (codingsOf v))

theorem getLast?_any_iff {codings : List Bytes} :
    codings.getLast?.any isChunkedCoding = true ↔ EndsInChunked codings := by
  rcases List.eq_nil_or_concat codings with rfl | ⟨front, last, rfl⟩
  · constructor
    · intro h; cases h
    · rintro ⟨front, last, h, -⟩
      simp at h
  · rw [List.concat_eq_append, List.getLast?_concat]
    constructor
    · intro h
      exact ⟨front, last, rfl, h⟩
    · rintro ⟨front', last', h, hlast⟩
      obtain ⟨-, rfl⟩ := List.append_inj' h rfl |>.imp_right (List.cons.inj · |>.1)
      exact hlast

/-- The reverse search of the writer finds the last coding of the list. -/
theorem teFramesChunked_iff {v : Bytes} :
    teFramesChunked v = true ↔ isAscii v = true ∧ EndsInChunked (codingsOf v) := by
  have hlast : (((v.splitOn 44).map trimOws).reverse.find? fun c => !c.isEmpty)
      = (codingsOf v).getLast? := by
    rw [codingsOf, ← List.head?_filter, List.filter_reverse, List.head?_reverse]
  rw [← getLast?_any_iff, teFramesChunked, hlast, Bool.and_eq_true]
  rfl

theorem decideFraming_of_framedOnlyBy {head : Head} {v : Bytes} (h : FramedOnlyBy head v)
    (limits : Limits) :
    decideFraming head limits
      = if isAscii v then decideCodings (codingsOf v) else .error .chunkedNotFinal := by
  have hversion : ¬ head.version = .http10 := by rw [h.version]; simp
  rw [decideFraming_of_hostOk h.host, h.length, h.coding, if_neg (by simp), if_pos (by simp),
    if_neg hversion]
  cases hascii : isAscii v with
  | false => simp [collectCodings, hascii]
  | true => simp [collectCodings, hascii, Except.map]

/-- How often a list names `chunked`. -/
theorem filter_isChunkedCoding_concat {front : List Bytes} {last : Bytes}
    (hlast : isChunkedCoding last = true) :
    ((front ++ [last]).filter isChunkedCoding).length
      = (front.filter isChunkedCoding).length + 1 := by
  rw [List.filter_append, List.length_append, List.filter_cons_of_pos hlast]
  rfl

theorem repeatsFinalChunked_iff {codings : List Bytes} :
    RepeatsFinalChunked codings ↔
      EndsInChunked codings ∧ 1 < (codings.filter isChunkedCoding).length := by
  constructor
  · rintro ⟨front, last, rfl, hlast, c, hc, hchunked⟩
    have hpos := List.length_pos_of_mem (List.mem_filter.mpr ⟨hc, hchunked⟩)
    rw [filter_isChunkedCoding_concat hlast]
    exact ⟨⟨front, last, rfl, hlast⟩, by omega⟩
  · rintro ⟨⟨front, last, rfl, hlast⟩, hcount⟩
    rw [filter_isChunkedCoding_concat hlast] at hcount
    obtain ⟨c, hc⟩ := List.exists_mem_of_length_pos (l := front.filter isChunkedCoding) (by omega)
    obtain ⟨hmem, hchunked⟩ := List.mem_filter.mp hc
    exact ⟨front, last, rfl, hlast, c, hmem, hchunked⟩

theorem decideCodings_eq (codings : List Bytes) :
    decideCodings codings
      = if (codings.filter isChunkedCoding).length = 1 ∧
          codings.getLast?.any isChunkedCoding = true then
          if codings.length = 1 then .ok .chunked else .error .unsupportedTransferEncoding
        else if (codings.filter isChunkedCoding).length ≥ 1 then .error .chunkedNotFinal
        else .error .unsupportedTransferEncoding := rfl

/-- `decide` finds `chunked` final exactly when it counts it once, at the end. -/
theorem findsChunkedFinal_iff {head : Head} {v : Bytes} (h : FramedOnlyBy head v)
    (limits : Limits) :
    FindsChunkedFinal head limits v ↔ isAscii v = true ∧ EndsInChunked (codingsOf v) ∧
      ((codingsOf v).filter isChunkedCoding).length = 1 := by
  rw [FindsChunkedFinal, decideFraming_of_framedOnlyBy h]
  cases hascii : isAscii v with
  | false => simp
  | true =>
      rw [if_pos rfl, decideCodings_eq]
      by_cases hends : EndsInChunked (codingsOf v)
      · by_cases hone : ((codingsOf v).filter isChunkedCoding).length = 1
        · rw [if_pos ⟨hone, getLast?_any_iff.mpr hends⟩]
          by_cases hlen : (codingsOf v).length = 1 <;> simp [hlen, hends, hone]
        · have hpos : ((codingsOf v).filter isChunkedCoding).length ≥ 1 := by
            obtain ⟨front, last, hcodings, hlast⟩ := hends
            rw [hcodings, filter_isChunkedCoding_concat hlast]
            omega
          rw [if_neg (fun h => hone h.1), if_pos hpos]
          simp [hone]
      · rw [if_neg (fun h => hends (getLast?_any_iff.mp h.2))]
        split <;> simp [hends]

/-- **Where the two sides agree about chunked.** The writer takes a
`Transfer-Encoding` to frame a chunked body exactly when `decide` would find
`chunked` to be its final coding and applied once, unless the value is an
ASCII list that ends in `chunked` and names it before as well: the writer
looks at the last coding only, `decide` counts them. -/
theorem teFramesChunked_agrees_iff (head : Head) (limits : Limits) (v : Bytes)
    (h : FramedOnlyBy head v) :
    (teFramesChunked v = true ↔ FindsChunkedFinal head limits v) ↔
      ¬ (isAscii v = true ∧ RepeatsFinalChunked (codingsOf v)) := by
  rw [teFramesChunked_iff, findsChunkedFinal_iff h, repeatsFinalChunked_iff]
  by_cases hends : EndsInChunked (codingsOf v)
  · have hpos : 1 ≤ ((codingsOf v).filter isChunkedCoding).length := by
      obtain ⟨front, last, hcodings, hlast⟩ := hends
      rw [hcodings, filter_isChunkedCoding_concat hlast]
      omega
    have hcount : ((codingsOf v).filter isChunkedCoding).length = 1 ↔
        ¬ 1 < ((codingsOf v).filter isChunkedCoding).length := by omega
    rw [hcount]
    tauto
  · tauto

/-- A request with one `Transfer-Encoding`. -/
def codedRequest (v : Bytes) : Head :=
  ⟨.post, .literal "/", .http11, [(.host, ascii "a"), (.transferEncoding, v)]⟩

theorem codedRequest_framedOnlyBy (v : Bytes) : FramedOnlyBy (codedRequest v) v :=
  ⟨rfl, ⟨Or.inl rfl, rfl⟩, rfl, rfl⟩

theorem teFramesChunked_agrees_gzip :
    FramedOnlyBy (codedRequest (ascii "gzip, Chunked")) (ascii "gzip, Chunked") ∧
      FindsChunkedFinal (codedRequest (ascii "gzip, Chunked")) Limits.default
        (ascii "gzip, Chunked") := by
  have hframed := codedRequest_framedOnlyBy (ascii "gzip, Chunked")
  refine ⟨hframed, ?_⟩
  refine ((teFramesChunked_agrees_iff _ Limits.default _ hframed).mpr ?_).mp (by decide)
  rw [repeatsFinalChunked_iff]
  intro h
  exact absurd h.2.2 (by decide)

/-- `chunked, chunked` frames a response and is refused in a request. -/
theorem teFramesChunked_disagrees_twice :
    teFramesChunked (ascii "chunked, chunked") = true ∧
      ¬ FindsChunkedFinal (codedRequest (ascii "chunked, chunked")) Limits.default
        (ascii "chunked, chunked") ∧
      decideFraming (codedRequest (ascii "chunked, chunked")) Limits.default
        = .error .chunkedNotFinal := by
  refine ⟨by decide, ?_, by rfl⟩
  rw [findsChunkedFinal_iff (codedRequest_framedOnlyBy _)]
  intro h
  exact absurd h.2.2 (by decide)

end ArmatureH1
