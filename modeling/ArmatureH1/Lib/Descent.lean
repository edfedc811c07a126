/-
ArmatureH1.Lib.Descent — runs that come to rest.

A run here is an infinite sequence of states. Its steps change nothing or
lower a rank, so it changes only finitely often and from some point on stands
still (`rests`). If, besides, a process that is not done is given a step that
moves it, sooner or later, then where the run stands still every process is
done (`rests_done`): that is the only use of fairness.

A rank is often two numbers, a first that counts and a second that is bounded
and counts only between two changes of the first; `weigh` makes one of them.

No state, process or rank here belongs to any particular program.
-/
import Mathlib.Order.WellFounded
import Mathlib.Data.Nat.Basic

namespace Descent

variable {σ : Type*} {st : Nat → σ} {rank : σ → Nat}

/-- A run whose steps change nothing or lower the rank stands still from some
point on. -/
theorem rests (hstep : ∀ k, st (k + 1) = st k ∨ rank (st (k + 1)) < rank (st k)) :
    ∃ N, ∀ k, N ≤ k → st k = st N := by
  -- where the rank is least nothing can lower it
  have hleast : ∃ N, ∀ k, rank (st N) ≤ rank (st k) := by
    obtain ⟨r, ⟨N, rfl⟩, hmin⟩ := Nat.lt_wfRel.wf.has_min (Set.range fun k => rank (st k))
      ⟨_, ⟨0, rfl⟩⟩
    exact ⟨N, fun k => Nat.le_of_not_lt (hmin _ ⟨k, rfl⟩)⟩
  obtain ⟨N, hleast⟩ := hleast
  refine ⟨N, fun k hk => ?_⟩
  induction k, hk using Nat.le_induction with
  | base => rfl
  | succ k _ ih =>
      cases hstep k with
      | inl hsame => exact hsame.trans ih
      | inr hless =>
          rw [ih] at hless
          exact absurd hless (Nat.not_lt.mpr (hleast (k + 1)))

/-- Such a run, when it is fair, stands still only where everyone is done. -/
theorem rests_done {ι : Type*} {done : ι → σ → Prop}
    (hstep : ∀ k, st (k + 1) = st k ∨ rank (st (k + 1)) < rank (st k))
    (hfair : ∀ i k, ¬ done i (st k) → ∃ j, k ≤ j ∧ (done i (st j) ∨ st (j + 1) ≠ st j)) :
    ∃ N, (∀ k, N ≤ k → st k = st N) ∧ ∀ i, done i (st N) := by
  obtain ⟨N, hrests⟩ := rests hstep
  refine ⟨N, hrests, fun i => ?_⟩
  by_contra hopen
  obtain ⟨j, hj, hmoves⟩ := hfair i N hopen
  rw [hrests j hj, hrests (j + 1) (Nat.le_succ_of_le hj)] at hmoves
  exact hmoves.elim hopen fun hne => hne rfl

/-- Two numbers as one rank: the first counts, and the second, never above
`bound`, counts where the first is the same. -/
theorem weigh {a a' b b' bound : Nat} (h : a' < a ∨ a' = a ∧ b' < b) (hbound : b' ≤ bound) :
    (bound + 1) * a' + b' < (bound + 1) * a + b := by
  rcases h with hless | ⟨rfl, hless⟩
  · have hone : (bound + 1) * (a' + 1) ≤ (bound + 1) * a := Nat.mul_le_mul_left _ hless
    rw [Nat.mul_succ] at hone
    omega
  · omega

end Descent
