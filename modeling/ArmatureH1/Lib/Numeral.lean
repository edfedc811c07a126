/-
ArmatureH1.Lib.Numeral — positional numerals, most significant digit first.

`value` reads a digit list, `render` writes a number the way a formatter
with a fixed scratch array does: one digit per turn, from the back, until
the quotient is zero. The fuel of `render` is the size of that array, and
`render_eq` says that an array of `fuel` cells holds every number below
`base ^ fuel`, that the digits read back as the number, and that no zero
leads. `fill` is `render` with an index that can run out.
-/
import Mathlib.Data.List.Basic
import Mathlib.Tactic.Ring

namespace Numeral

/-- The number a digit list denotes. -/
def value (base : Nat) (ds : List Nat) : Nat := ds.foldl (fun n d => n * base + d) 0

/-- Reading on from an accumulator. -/
theorem foldl_eq (base : Nat) : ∀ (ds : List Nat) (n : Nat),
    ds.foldl (fun n d => n * base + d) n = n * base ^ ds.length + value base ds := by
  intro ds
  induction ds with
  | nil => intro n; simp [value]
  | cons d ds ih =>
      intro n
      have h0 : value base (d :: ds) = d * base ^ ds.length + value base ds := by
        rw [value, List.foldl_cons, ih]
        simp
      rw [List.foldl_cons, ih, h0, List.length_cons, Nat.pow_succ, Nat.add_mul]
      ring

theorem value_cons (base d : Nat) (ds : List Nat) :
    value base (d :: ds) = d * base ^ ds.length + value base ds := by
  rw [value, List.foldl_cons, foldl_eq]
  simp

theorem value_lt {base : Nat} : ∀ {ds : List Nat}, (∀ d ∈ ds, d < base) →
    value base ds < base ^ ds.length := by
  intro ds
  induction ds with
  | nil => intro _; simp [value]
  | cons d ds ih =>
      intro h
      have hd : d + 1 ≤ base := h d (by simp)
      have hds := ih fun x hx => h x (by simp [hx])
      calc value base (d :: ds) = d * base ^ ds.length + value base ds := value_cons base d ds
        _ < d * base ^ ds.length + base ^ ds.length := by omega
        _ = (d + 1) * base ^ ds.length := by ring
        _ ≤ base * base ^ ds.length := Nat.mul_le_mul_right _ hd
        _ = base ^ (d :: ds).length := by rw [List.length_cons, Nat.pow_succ]; ring

/-- A leading digit that is not zero weighs its place. -/
theorem le_value_cons {base d : Nat} (ds : List Nat) (h : d ≠ 0) :
    base ^ ds.length ≤ value base (d :: ds) := by
  rw [value_cons]
  have : 1 * base ^ ds.length ≤ d * base ^ ds.length :=
    Nat.mul_le_mul_right _ (Nat.pos_of_ne_zero h)
  omega

section Render

variable {α : Type} (base : Nat) (digit : Nat → α)

/-- Write `n` in front of `acc`, least significant digit first, into at most
`fuel` cells. -/
def render : Nat → Nat → List α → List α
  | 0, _, acc => acc
  | fuel + 1, n, acc =>
    let acc := digit (n % base) :: acc
    if n / base = 0 then acc else render fuel (n / base) acc

/-- Every cell of the array holds a digit. -/
theorem mem_render {base : Nat} (hbase : 0 < base) {digit : Nat → α} {x : α} :
    ∀ {fuel n : Nat} {acc : List α}, x ∈ render base digit fuel n acc →
      x ∈ acc ∨ ∃ d < base, x = digit d := by
  intro fuel
  induction fuel with
  | zero => intro n acc hx; exact Or.inl hx
  | succ fuel ih =>
      intro n acc hx
      have hacc : x ∈ digit (n % base) :: acc → x ∈ acc ∨ ∃ d < base, x = digit d := by
        intro hmem
        rcases List.mem_cons.mp hmem with rfl | hmem
        · exact Or.inr ⟨n % base, Nat.mod_lt _ hbase, rfl⟩
        · exact Or.inl hmem
      rw [render] at hx
      split at hx
      · exact hacc hx
      · rcases ih hx with hx | hx
        · exact hacc hx
        · exact Or.inr hx

theorem render_ne_nil (base : Nat) (digit : Nat → α) : ∀ (fuel n : Nat) (acc : List α),
    acc ≠ [] ∨ fuel ≠ 0 → render base digit fuel n acc ≠ [] := by
  intro fuel
  induction fuel with
  | zero => intro n acc h; exact h.resolve_right (by simp)
  | succ fuel ih =>
      intro n acc _
      rw [render]
      split
      · simp
      · exact ih _ _ (Or.inl (by simp))

/-- What `render` writes. -/
structure IsNumeral (n : Nat) (ds : List Nat) : Prop where
  ne_nil : ds ≠ []
  digit_lt : ∀ d ∈ ds, d < base
  value_eq : value base ds = n
  no_leading_zero : ds.head? = some 0 → ds = [0]

theorem IsNumeral.snoc {base n d : Nat} {ds : List Nat} (h : IsNumeral base n ds) (hn : n ≠ 0)
    (hd : d < base) : IsNumeral base (n * base + d) (ds ++ [d]) where
  ne_nil := by simp
  digit_lt := by
    intro x hx
    rcases List.mem_append.mp hx with hx | hx
    · exact h.digit_lt x hx
    · have : x = d := by simpa using hx
      omega
  value_eq := by
    have := h.value_eq
    simp only [value] at this
    simp [value, List.foldl_append, this]
  no_leading_zero := by
    intro hz
    have hhead : ds.head? = some 0 := by
      cases ds with
      | nil => exact absurd rfl h.ne_nil
      | cons x xs => simpa using hz
    have hv := h.value_eq
    rw [h.no_leading_zero hhead] at hv
    exact absurd hv.symm (by simpa [value] using hn)

/-- Under a digit table in which only zero is written as `zero`, that byte
leads nothing but the number zero. -/
theorem IsNumeral.eq_zero_of_head? {base n : Nat} {digit : Nat → α} {zero : α} {ds : List Nat}
    (h : IsNumeral base n ds) (hdigit : ∀ d < base, digit d = zero → d = 0)
    (hhead : (ds.map digit).head? = some zero) : n = 0 := by
  cases ds with
  | nil => exact absurd rfl h.ne_nil
  | cons d ds =>
      have hd : d = 0 := hdigit d (h.digit_lt d (by simp)) (by simpa using hhead)
      have hzero := h.no_leading_zero (by simp [hd])
      rw [← h.value_eq, hzero]
      simp [value]

/-- **A scratch array of `fuel` cells holds every number below
`base ^ fuel`.** -/
theorem render_eq {base : Nat} (hbase : 1 < base) : ∀ (fuel n : Nat) (acc : List α),
    n < base ^ (fuel + 1) →
    ∃ ds, IsNumeral base n ds ∧ ds.length ≤ fuel + 1 ∧
      render base digit (fuel + 1) n acc = ds.map digit ++ acc := by
  intro fuel
  induction fuel with
  | zero =>
      intro n acc hn
      have hlt : n < base := by simpa using hn
      have hdiv : n / base = 0 := Nat.div_eq_of_lt hlt
      refine ⟨[n], ⟨by simp, by simpa using hlt, by simp [value], by simp⟩, by simp, ?_⟩
      simp [render, hdiv, Nat.mod_eq_of_lt hlt]
  | succ fuel ih =>
      intro n acc hn
      by_cases hdiv : n / base = 0
      · have hlt : n < base := by
          rcases (Nat.div_eq_zero_iff).mp hdiv with h | h
          · omega
          · exact h
        refine ⟨[n], ⟨by simp, by simpa using hlt, by simp [value], by simp⟩, by simp, ?_⟩
        rw [render]
        simp [hdiv, Nat.mod_eq_of_lt hlt]
      · have hq : n / base < base ^ (fuel + 1) := by
          apply Nat.div_lt_of_lt_mul
          rw [Nat.mul_comm, ← Nat.pow_succ]
          exact hn
        obtain ⟨ds, hds, hlen, hr⟩ := ih (n / base) (digit (n % base) :: acc) hq
        have hsnoc := hds.snoc hdiv (Nat.mod_lt n (by omega))
        rw [Nat.div_add_mod'] at hsnoc
        refine ⟨ds ++ [n % base], hsnoc, by simp; omega, ?_⟩
        rw [render]
        simp only [if_neg hdiv, hr, List.map_append, List.map_cons, List.map_nil,
          List.append_assoc, List.singleton_append]

/-- The same loop with its index in view: the cells are filled from the last
one down, and `none` is an index that would have to go below the first. -/
def fill : Nat → Nat → List α → Option (List α)
  | 0, _, _ => none
  | i + 1, n, acc =>
    let acc := digit (n % base) :: acc
    if n / base = 0 then some acc else fill i (n / base) acc

/-- The index stays in an array that is large enough. -/
theorem fill_eq_some {base : Nat} : ∀ (fuel n : Nat) (acc : List α),
    n < base ^ (fuel + 1) →
    fill base digit (fuel + 1) n acc = some (render base digit (fuel + 1) n acc) := by
  intro fuel
  induction fuel with
  | zero =>
      intro n acc hn
      have hdiv : n / base = 0 := Nat.div_eq_of_lt (by simpa using hn)
      simp only [fill, render, hdiv, if_true]
  | succ fuel ih =>
      intro n acc hn
      rw [fill, render]
      by_cases hdiv : n / base = 0
      · simp only [hdiv, if_true]
      · have hq : n / base < base ^ (fuel + 1) := by
          apply Nat.div_lt_of_lt_mul
          rw [Nat.mul_comm, ← Nat.pow_succ]
          exact hn
        simp only [hdiv, if_false]
        exact ih (n / base) _ hq

end Render

end Numeral
