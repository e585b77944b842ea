import Mathlib.Tactic.Ring
import Mathlib.Data.List.AList
import Mathlib.Data.List.Sort

/-!
# Finite maps

Executable finite maps over Mathlib's duplicate-free association lists, with
the operations of a mutable map that `AList` lacks: keeping the entries that
satisfy a predicate, changing one entry in place, and listing the entries in
key order.

Main results:

- `FiniteMap.lookup_modify`: `modify` acts on one key only.
- `FiniteMap.mem_sortedPairs`: the ordered listing has the same entries.
-/

abbrev FiniteMap (κ ν : Type) := AList (fun _ : κ => ν)

abbrev FiniteSet (κ : Type) := FiniteMap κ Unit

namespace FiniteMap

open List AList

variable {κ ν : Type}

def pairs (m : FiniteMap κ ν) : List (κ × ν) :=
  m.entries.map fun e => (e.1, e.2)

@[simp]
lemma map_fst_pairs (m : FiniteMap κ ν) : m.pairs.map Prod.fst = m.keys := by
  simp [pairs, AList.keys, List.keys, Function.comp_def]

/-- Keep only the entries that satisfy `p`. -/
def retain (p : κ → ν → Bool) (m : FiniteMap κ ν) : FiniteMap κ ν :=
  ⟨m.entries.filter fun e => p e.1 e.2, List.NodupKeys.sublist filter_sublist m.nodupKeys⟩

variable {v : ν}

section

variable [DecidableEq κ] {k : κ} {m : FiniteMap κ ν} {ks : List κ} {ε : Type} {f : κ → Except ε ν}

lemma mem_pairs : (k, v) ∈ m.pairs ↔ m.lookup k = some v := by
  have hentry : (⟨k, v⟩ : Sigma fun _ : κ => ν) ∈ m.entries ↔ m.lookup k = some v := by
    rw [← Option.mem_def, mem_lookup_iff]
  rw [← hentry]
  simp only [pairs, mem_map, Prod.mk.injEq]
  constructor
  · rintro ⟨⟨k', v'⟩, hmem, rfl, rfl⟩
    exact hmem
  · intro hmem
    exact ⟨⟨k, v⟩, hmem, rfl, rfl⟩

lemma mem_iff_lookup : k ∈ m ↔ ∃ v, m.lookup k = some v := by
  rw [← lookup_isSome, Option.isSome_iff_exists]

lemma lookup_insert_eq_ite (m : FiniteMap κ ν) (k k' : κ) (v : ν) :
    (m.insert k v).lookup k' = if k' = k then some v else m.lookup k' := by
  split
  · next h => subst h; exact lookup_insert m
  · next h => exact lookup_insert_ne h

lemma lookup_erase_eq_ite (m : FiniteMap κ ν) (k k' : κ) :
    (m.erase k).lookup k' = if k' = k then none else m.lookup k' := by
  split
  · next h => subst h; exact lookup_erase k' m
  · next h => exact lookup_erase_ne h

/-- What holds of every entry holds after an insertion, if it holds of the new entry. -/
lemma forall_insert {P : κ → ν → Prop} (h : ∀ j w, m.lookup j = some w → P j w) (hnew : P k v) :
    ∀ j w, (m.insert k v).lookup j = some w → P j w := by
  intro j w hw
  rw [lookup_insert_eq_ite] at hw
  split at hw
  · next hj =>
    cases hw
    exact hj ▸ hnew
  · exact h j w hw

lemma lookup_of_lookup_erase {j : κ} (h : (m.erase k).lookup j = some v) : m.lookup j = some v := by
  rw [lookup_erase_eq_ite] at h
  split at h
  · cases h
  · exact h

lemma erase_of_notMem (h : k ∉ m) : m.erase k = m :=
  ext (kerase_of_notMem_keys h)

lemma pairs_insert_of_notMem (h : k ∉ m) (v : ν) : pairs (m.insert k v) = (k, v) :: m.pairs := by
  simp only [pairs, entries_insert_of_notMem h, map_cons]

lemma pairs_insert (m : FiniteMap κ ν) (k : κ) (v : ν) :
    pairs (m.insert k v) = (k, v) :: pairs (m.erase k) := rfl

omit [DecidableEq κ] in
lemma nodup_pairs (m : FiniteMap κ ν) : m.pairs.Nodup := by
  refine Nodup.of_map Prod.fst ?_
  rw [map_fst_pairs]
  exact m.keys_nodup

/-- The entry of a key and the other entries. -/
lemma pairs_perm_of_lookup (h : m.lookup k = some v) :
    m.pairs.Perm ((k, v) :: pairs (m.erase k)) := by
  refine (perm_ext_iff_of_nodup (nodup_pairs m) (nodup_cons.mpr ⟨?_, nodup_pairs _⟩)).mpr ?_
  · rw [mem_pairs, lookup_erase]
    nofun
  · rintro ⟨k', v'⟩
    rw [mem_cons, mem_pairs, mem_pairs, lookup_erase_eq_ite, Prod.mk.injEq]
    by_cases heq : k' = k
    · subst heq
      simp [h, eq_comm]
    · simp [heq]

lemma keys_insert_of_notMem (h : k ∉ m) (v : ν) : (m.insert k v).keys = k :: m.keys := by
  rw [keys_insert, erase_of_not_mem fun hk => h (mem_keys.mpr hk)]

/-- Replacing a value keeps the keys, up to their order. -/
lemma keys_insert_perm (h : k ∈ m) (v : ν) : (m.insert k v).keys.Perm m.keys := by
  rw [keys_insert]
  exact (perm_cons_erase (mem_keys.mp h)).symm

lemma keys_perm_cons_erase (h : k ∈ m) : m.keys.Perm (k :: (m.erase k).keys) := by
  rw [keys_erase]
  exact perm_cons_erase (mem_keys.mp h)

lemma map_keys_erase_perm {α : Type} [DecidableEq α] (f : κ → α) (h : k ∈ m) :
    ((m.keys.map f).erase (f k)).Perm ((m.erase k).keys.map f) := by
  have hperm := (perm_cons_erase (mem_keys.mp h)).map f
  rw [keys_erase]
  exact (hperm.erase (f k)).trans (.of_eq (erase_cons_head ..))

lemma length_keys_erase_le (m : FiniteMap κ ν) (k : κ) :
    (m.erase k).keys.length ≤ m.keys.length := by
  rw [keys_erase]
  exact length_erase_le

/-- Filtering a map filters the value found at every key. -/
theorem lookup_retain (p : κ → ν → Bool) (m : FiniteMap κ ν) (k : κ) :
    (m.retain p).lookup k = (m.lookup k).filter (p k) := by
  ext v
  have hentry (m' : FiniteMap κ ν) :
      v ∈ m'.lookup k ↔ (⟨k, v⟩ : Sigma fun _ : κ => ν) ∈ m'.entries :=
    mem_lookup_iff
  rw [← Option.mem_def, hentry, retain, mem_filter, ← hentry]
  simp [Option.filter_eq_some_iff]

/-- Apply `f` to the value stored at `k`, if there is one. -/
def modify (k : κ) (f : ν → ν) (m : FiniteMap κ ν) : FiniteMap κ ν :=
  match m.lookup k with
  | none => m
  | some v => m.insert k (f v)

theorem lookup_modify (k : κ) (f : ν → ν) (m : FiniteMap κ ν) (k' : κ) :
    (m.modify k f).lookup k' = if k' = k then (m.lookup k).map f else m.lookup k' := by
  unfold modify
  cases hv : m.lookup k with
  | none =>
    change m.lookup k' = _
    split
    · next h => subst h; exact hv
    · rfl
  | some v =>
    rw [lookup_insert_eq_ite]
    rfl

/-- The map with a value computed for each key, or the first failure. -/
def collectKeys {ε : Type} (f : κ → Except ε ν) : List κ → Except ε (FiniteMap κ ν)
  | [] => .ok ∅
  | k :: ks =>
    match f k with
    | .error e => .error e
    | .ok v =>
      match collectKeys f ks with
      | .error e => .error e
      | .ok m => .ok (m.insert k v)

lemma collectKeys_congr {g : κ → Except ε ν} (h : ∀ k ∈ ks, f k = g k) :
    collectKeys f ks = collectKeys g ks := by
  induction ks with
  | nil => rfl
  | cons k ks ih =>
    rw [collectKeys, collectKeys, h k mem_cons_self, ih fun k' hk' => h k' (mem_cons_of_mem _ hk')]

/-- A collected map has exactly the given keys, with the computed values. -/
theorem lookup_collectKeys (h : collectKeys f ks = .ok m) (k : κ) (v : ν) :
    m.lookup k = some v ↔ k ∈ ks ∧ f k = .ok v := by
  induction ks generalizing m with
  | nil =>
    cases h
    simp
  | cons k0 ks ih =>
    unfold collectKeys at h
    split at h
    · cases h
    next v0 hv0 =>
    split at h
    · cases h
    next m0 hm0 =>
    cases h
    by_cases hk : k = k0
    · subst hk
      simp [hv0]
    · simp [hk, ih hm0]

lemma mem_collectKeys (h : collectKeys f ks = .ok m) (k : κ) : k ∈ m ↔ k ∈ ks := by
  induction ks generalizing m with
  | nil =>
    cases h
    simp
  | cons k0 ks ih =>
    unfold collectKeys at h
    split at h
    · cases h
    split at h
    · cases h
    next m0 hm0 =>
    cases h
    rw [mem_insert, ih hm0, mem_cons]

/-- The collection fails only if some value cannot be computed. -/
lemma collectKeys_error {e : ε} (h : collectKeys f ks = .error e) : ∃ k ∈ ks, f k = .error e := by
  induction ks with
  | nil => cases h
  | cons k ks ih =>
    unfold collectKeys at h
    split at h
    · next hk =>
      cases h
      exact ⟨k, mem_cons_self, hk⟩
    split at h
    · next hks =>
      cases h
      obtain ⟨k', hmem, hk'⟩ := ih hks
      exact ⟨k', mem_cons_of_mem _ hmem, hk'⟩
    · cases h

/-- The collection succeeds if every value can be computed. -/
lemma exists_collectKeys (h : ∀ k ∈ ks, ∃ v, f k = .ok v) : ∃ m, collectKeys f ks = .ok m := by
  cases hm : collectKeys f ks with
  | ok m => exact ⟨m, rfl⟩
  | error e =>
    obtain ⟨k, hk, he⟩ := collectKeys_error hm
    obtain ⟨v, hv⟩ := h k hk
    rw [he] at hv
    cases hv

@[simp]
lemma mem_modify {k' : κ} {f : ν → ν} : k' ∈ m.modify k f ↔ k' ∈ m := by
  rw [← lookup_isSome, ← lookup_isSome, lookup_modify]
  split
  · next h => subst h; simp
  · rfl

end

section

variable [LinearOrder κ]

/-- The entries in increasing key order, as an ordered map iterates them. -/
def sortedPairs (m : FiniteMap κ ν) : List (κ × ν) :=
  m.pairs.insertionSort fun a b => a.1 ≤ b.1

lemma sortedPairs_perm (m : FiniteMap κ ν) : m.sortedPairs.Perm m.pairs :=
  perm_insertionSort _ _

variable {m : FiniteMap κ ν}

theorem mem_sortedPairs {k : κ} : (k, v) ∈ m.sortedPairs ↔ m.lookup k = some v := by
  rw [(sortedPairs_perm m).mem_iff, mem_pairs]

/-- No key is listed twice. -/
lemma nodup_map_fst_sortedPairs (m : FiniteMap κ ν) : (m.sortedPairs.map Prod.fst).Nodup := by
  rw [((sortedPairs_perm m).map Prod.fst).nodup_iff, map_fst_pairs]
  exact m.keys_nodup

/-- The listing is the only one in order. -/
theorem sortedPairs_eq {l : List (κ × ν)} (hperm : l.Perm m.pairs)
    (hsorted : l.Pairwise fun a b => a.1 ≤ b.1) : m.sortedPairs = l := by
  have hsortedPairs : m.sortedPairs.Pairwise fun a b => a.1 ≤ b.1 := by
    have : Std.Total fun a b : κ × ν => a.1 ≤ b.1 := ⟨fun a b => le_total a.1 b.1⟩
    have : IsTrans (κ × ν) fun a b => a.1 ≤ b.1 := ⟨fun _ _ _ => le_trans⟩
    exact pairwise_insertionSort _ _
  refine Perm.eq_of_pairwise (fun a b ha hb hab hba => ?_) hsortedPairs hsorted
    ((sortedPairs_perm m).trans hperm.symm)
  have ha := mem_sortedPairs.mp ha
  have hb := mem_pairs.mp (hperm.mem_iff.mp hb)
  rw [le_antisymm hab hba, hb] at ha
  exact Prod.ext (le_antisymm hab hba) (Option.some.inj ha).symm

end

end FiniteMap

namespace FiniteSet

variable {κ : Type} [LinearOrder κ]

/-- The least element, with which an ordered set begins. -/
def first (s : FiniteSet κ) : Option κ := s.keys.min?

lemma mem_of_first {s : FiniteSet κ} {k : κ} (h : s.first = some k) : k ∈ s :=
  AList.mem_keys.mpr (List.min?_mem h)

end FiniteSet
