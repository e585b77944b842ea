import Mathlib.Tactic.Ring
import Mathlib.Algebra.Order.BigOperators.Group.Finset

/-!
# Weighted quorum intersection

Members carry a weight.  A set is a supermajority when its weight reaches two
thirds of the total (rounded down) plus one, and the faulty members weigh less
than a third of the total.  Both notions are stated with the integer division
an implementation uses.
-/

namespace Quorum

open Finset

variable {ι : Type} (w : ι → ℕ)

/-- The weight that a supermajority of members with total weight `t` reaches. -/
def superMajorityThreshold (t : ℕ) : ℕ := t * 2 / 3 + 1

/-- A set of members whose weight reaches the supermajority threshold. -/
def IsSuperMajority (members s : Finset ι) : Prop :=
  superMajorityThreshold (∑ i ∈ members, w i) ≤ ∑ i ∈ s, w i

/-- The faulty members weigh strictly less than one third of all members. -/
def FaultyMinority (members faulty : Finset ι) : Prop :=
  3 * ∑ i ∈ faulty, w i < ∑ i ∈ members, w i

variable {w} {members faulty s s' : Finset ι}

lemma IsSuperMajority.mono (hs : IsSuperMajority w members s) (hsub : s ⊆ s') :
    IsSuperMajority w members s' :=
  le_trans hs (sum_le_sum_of_subset hsub)

variable [DecidableEq ι]

/-- Few disjoint sets of members weigh more than `t` each. -/
theorem card_le_of_disjoint {κ : Type} {sets : Finset κ} {f : κ → Finset ι}
    (hdisjoint : (sets : Set κ).PairwiseDisjoint f) (hsub : ∀ x ∈ sets, f x ⊆ members) {t k : ℕ}
    (hf : ∀ x ∈ sets, t < ∑ i ∈ f x, w i) (hk : ∑ i ∈ members, w i < (k + 1) * (t + 1)) :
    sets.card ≤ k := by
  have hle : sets.card * (t + 1) ≤ ∑ i ∈ members, w i := calc
    sets.card * (t + 1) = ∑ x ∈ sets, (t + 1) := (sum_const_nat fun _ _ => rfl).symm
    _ ≤ ∑ x ∈ sets, ∑ i ∈ f x, w i := sum_le_sum hf
    _ = ∑ i ∈ sets.biUnion f, w i := (sum_biUnion hdisjoint).symm
    _ ≤ _ := sum_le_sum_of_subset (biUnion_subset.mpr hsub)
  exact Nat.lt_succ_iff.mp (Nat.lt_of_mul_lt_mul_right (hle.trans_lt hk))

section

variable (hzero : ∀ i, i ∉ members → w i = 0)
include hzero

lemma sum_inter_members : ∑ i ∈ s ∩ members, w i = ∑ i ∈ s, w i := by
  apply sum_subset inter_subset_left
  intro i hi hout
  exact hzero i fun hmem => hout (mem_inter.mpr ⟨hi, hmem⟩)

variable (hfaulty : FaultyMinority w members faulty) (hs : IsSuperMajority w members s)
include hfaulty hs

/-- Two supermajorities of the same members share a correct member. -/
theorem exists_correct_mem_inter (hs' : IsSuperMajority w members s') :
    ∃ i, i ∈ s ∧ i ∈ s' ∧ i ∈ members ∧ i ∉ faulty := by
  by_contra hall
  push Not at hall
  have hinter : ∑ i ∈ s ∩ s', w i ≤ ∑ i ∈ faulty, w i := by
    rw [← sum_inter_members hzero]
    apply sum_le_sum_of_subset
    intro i hi
    simp only [mem_inter] at hi
    exact hall i hi.1.1 hi.1.2 hi.2
  have hunion : ∑ i ∈ s ∪ s', w i ≤ ∑ i ∈ members, w i := by
    rw [← sum_inter_members hzero]
    exact sum_le_sum_of_subset inter_subset_right
  have hsum : ∑ i ∈ s ∪ s', w i + ∑ i ∈ s ∩ s', w i = ∑ i ∈ s, w i + ∑ i ∈ s', w i :=
    sum_union_inter
  simp only [IsSuperMajority, superMajorityThreshold, FaultyMinority] at hs hs' hfaulty
  omega

end

end Quorum
