/-
ArmatureH1.Lib.Ledger — what a finite number of holders hold together.

Each holder has an amount, `total` adds them up. A step that changes what
one holder has changes the total by the same (`total_update`), so a move
from one holder to another leaves it alone. With multisets for amounts this
is custody: when nothing occurs twice in the total, whatever a holder has,
it has once, and nobody else has it (`sole_holder`).

No holder, item or amount here belongs to any particular program.
-/
import Mathlib.Algebra.BigOperators.Group.Finset.Basic
import Mathlib.Algebra.Order.BigOperators.Group.Finset
import Mathlib.Algebra.Order.Group.Multiset

namespace Ledger

variable {ι : Type*} [Fintype ι]

/-- All amounts together. -/
def total {M : Type*} [AddCommMonoid M] (f : ι → M) : M := ∑ i, f i

theorem total_eq_zero {M : Type*} [AddCommMonoid M] {f : ι → M} (h : ∀ i, f i = 0) :
    total f = 0 :=
  Finset.sum_eq_zero fun i _ => h i

/-- Changing one amount: the total loses the old one and gains the new one. -/
theorem total_update {M : Type*} [AddCommMonoid M] [DecidableEq ι] (f : ι → M) (i : ι) (m : M) :
    total (Function.update f i m) + f i = total f + m := by
  have hrest : ∑ j ∈ Finset.univ.erase i, Function.update f i m j
      = ∑ j ∈ Finset.univ.erase i, f j := by
    refine Finset.sum_congr rfl fun j hj => ?_
    rw [Function.update_of_ne (Finset.ne_of_mem_erase hj)]
  have hnew := Finset.add_sum_erase Finset.univ (Function.update f i m) (Finset.mem_univ i)
  have hold := Finset.add_sum_erase Finset.univ f (Finset.mem_univ i)
  calc total (Function.update f i m) + f i
      = m + ∑ j ∈ Finset.univ.erase i, f j + f i := by
        rw [total, ← hnew, Function.update_self, hrest]
    _ = f i + ∑ j ∈ Finset.univ.erase i, f j + m := by
        rw [add_comm m, add_right_comm, add_comm _ (f i), add_right_comm]
    _ = total f + m := by rw [hold, total]

section Custody

variable {α : Type*} {f : ι → Multiset α} {a : α}

/-- One holder gets an item. -/
theorem total_update_cons [DecidableEq ι] {i : ι} {m : Multiset α} (h : m = a ::ₘ f i) :
    total (Function.update f i m) = a ::ₘ total f := by
  have hsum := total_update f i m
  rw [h, Multiset.add_cons, ← Multiset.cons_add] at hsum
  rw [h]
  exact add_right_cancel hsum

/-- One holder gives an item away. -/
theorem cons_total_update [DecidableEq ι] {i : ι} {m : Multiset α} (h : f i = a ::ₘ m) :
    a ::ₘ total (Function.update f i m) = total f := by
  have hsum := total_update f i m
  rw [h, Multiset.add_cons, ← Multiset.cons_add] at hsum
  exact add_right_cancel hsum

theorem mem_total : a ∈ total f ↔ ∃ i, a ∈ f i := by
  simp [total, Multiset.mem_sum]

theorem count_total [DecidableEq α] : (total f).count a = total fun i => (f i).count a :=
  Multiset.count_sum'

/-- In a total without repetition, what one holder has it has once, and
nobody else has it. -/
theorem sole_holder [DecidableEq α] [DecidableEq ι] (h : (total f).Nodup) {i : ι} (hi : a ∈ f i) :
    (f i).count a = 1 ∧ ∀ j, a ∈ f j → j = i := by
  have hle : total (fun i => (f i).count a) ≤ 1 := by
    rw [← count_total]
    exact Multiset.nodup_iff_count_le_one.mp h a
  have hpos : 0 < (f i).count a := Multiset.count_pos.mpr hi
  have hsplit := Finset.add_sum_erase Finset.univ (fun i => (f i).count a) (Finset.mem_univ i)
  have hsum : (f i).count a + ∑ j ∈ Finset.univ.erase i, (f j).count a ≤ 1 := by
    rw [hsplit]
    exact hle
  refine ⟨by omega, fun j hj => ?_⟩
  by_contra hne
  have hmem : j ∈ Finset.univ.erase i := Finset.mem_erase.mpr ⟨hne, Finset.mem_univ j⟩
  have hother := Finset.single_le_sum (fun k _ => Nat.zero_le ((f k).count a)) hmem
  have hposj : 0 < (f j).count a := Multiset.count_pos.mpr hj
  omega

end Custody

end Ledger
