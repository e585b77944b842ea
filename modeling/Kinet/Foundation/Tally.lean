import Kinet.Foundation.Checked
import Kinet.Foundation.FiniteMap

/-!
# Tallies

A tally counts how often each key occurs in a changing collection; keys that do not occur
have no entry.  Taking away a key that has no entry is a fault.

Main results:

- `Tally.Counts.increment` and `Tally.Counts.decrement`: the tally follows the
  collection, and taking away a key of the collection is no fault.
-/

/-- Numbers of occurrences. -/
abbrev Tally (κ : Type) := FiniteMap κ Nat

namespace Tally

open FiniteMap

variable {κ : Type} [DecidableEq κ]

def count (t : Tally κ) (k : κ) : Nat := (t.lookup k).getD 0

/-- One occurrence more. -/
def increment (t : Tally κ) (k : κ) : Tally κ := t.insert k (count t k + 1)

/-- One occurrence less. -/
def decrement (t : Tally κ) (k : κ) : Checked (Tally κ) := do
  let n ← Checked.unwrap (t.lookup k)
  let n ← Checked.sub n 1
  pure (if n = 0 then t.erase k else t.insert k n)

structure Counts (t : Tally κ) (l : List κ) : Prop where
  count_eq : ∀ k, count t k = l.count k
  pos : ∀ k n, t.lookup k = some n → 0 < n

variable {t : Tally κ} {l : List κ} {k : κ}

lemma count_insert (t : Tally κ) (k k' : κ) (n : Nat) :
    count (t.insert k n) k' = if k' = k then n else count t k' := by
  rw [count, lookup_insert_eq_ite]
  split <;> rfl

lemma count_erase (t : Tally κ) (k k' : κ) :
    count (t.erase k) k' = if k' = k then 0 else count t k' := by
  rw [count, lookup_erase_eq_ite]
  split <;> rfl

lemma counts_empty : Counts (∅ : Tally κ) [] where
  count_eq _ := rfl
  pos _ _ h := by cases h

lemma Counts.perm (h : Counts t l) {l' : List κ} (hperm : l.Perm l') : Counts t l' where
  count_eq k := (h.count_eq k).trans (hperm.count_eq k)
  pos := h.pos

theorem Counts.increment (h : Counts t l) (k : κ) : Counts (increment t k) (k :: l) where
  count_eq k' := by
    rw [Tally.increment, count_insert, List.count_cons]
    split
    · next heq => simp [heq, h.count_eq]
    · next hne => simpa [Ne.symm hne] using h.count_eq k'
  pos k' n hn := by
    exact forall_insert h.pos (by omega) k' n hn

theorem Counts.decrement (h : Counts t l) (hk : k ∈ l) :
    ∃ t', decrement t k = .ok t' ∧ Counts t' (l.erase k) := by
  have hcount : 0 < count t k := by
    rw [h.count_eq]
    exact List.count_pos_iff.mpr hk
  cases hlookup : t.lookup k with
  | none =>
    rw [count, hlookup] at hcount
    cases hcount
  | some n =>
    have hn : n = l.count k := by rw [← h.count_eq, count, hlookup]; rfl
    have hpos := h.pos k n hlookup
    refine ⟨if n - 1 = 0 then t.erase k else t.insert k (n - 1), ?_, fun k' => ?_, fun k' m hm => ?_⟩
    · simp [Tally.decrement, hlookup, Checked.sub_of_le (show 1 ≤ n from hpos)]
    · rw [List.count_erase]
      split
      · next hzero =>
        rw [count_erase]
        by_cases heq : k' = k
        · subst heq
          simp
          omega
        · simpa [heq, Ne.symm heq] using h.count_eq k'
      · rw [count_insert]
        by_cases heq : k' = k
        · subst heq
          simp [hn]
        · simpa [heq, Ne.symm heq] using h.count_eq k'
    · split at hm
      · exact h.pos k' m (lookup_of_lookup_erase hm)
      · exact forall_insert h.pos (by omega) k' m hm

end Tally
