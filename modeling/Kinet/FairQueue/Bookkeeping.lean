import Kinet.FairQueue.Pool

/-!
# Bookkeeping of a pool

To its callers a pool is a queue of items for each identity.  The heap has one entry for each
identity with items, so no entry is ever dropped, and the number of items is the sum of the
lengths of the queues.

Main results:

- `Pool.pushExisting_spec`, `Pool.pushNew_spec` and `Pool.popNext_spec`: what the
  operations do to the queues.
-/

namespace Kinet.FairQueue.Pool

open FiniteMap List Function

variable {Time Score Id T : Type} [LinearOrder Time] [DecidableEq Id] (pool : Pool Time Score Id T)

def queued (id : Id) : List T :=
  ((pool.identities.lookup id).map IdentityState.queue).getD []

def items : List (Id × T) :=
  pool.identities.pairs.flatMap fun p => p.2.queue.map fun item => (p.1, item)

/-- The heap and the queues agree, and the limits hold. -/
structure WellFormed : Prop where
  heap : pool.heap.Perm (pool.identities.pairs.map fun p => ⟨p.2.finishTime, p.1⟩)
  nonempty : ∀ id state, pool.identities.lookup id = some state → state.queue ≠ []
  totalItems : pool.totalItems = (pool.identities.pairs.map (·.2.queue.length)).sum
  length_le : ∀ id, (pool.queued id).length ≤ pool.perIdLimit
  totalItems_le : pool.totalItems ≤ pool.maxSize
  fits : pool.totalItems ≤ usizeMax

omit [LinearOrder Time] in
lemma wellFormed_new (clock : Clock Time Score) (perIdLimit maxSize : Nat) :
    (new clock perIdLimit maxSize : Pool Time Score Id T).WellFormed where
  heap := .refl _
  nonempty _ _ h := by cases h
  totalItems := rfl
  length_le _ := Nat.zero_le _
  totalItems_le := Nat.zero_le _
  fits := Nat.zero_le _

structure SameLimits (pool pool' : Pool Time Score Id T) : Prop where
  maxSize : pool'.maxSize = pool.maxSize
  perIdLimit : pool'.perIdLimit = pool.perIdLimit

variable {id : Id} {state : IdentityState Time Score T}

section

variable {pool}

omit [LinearOrder Time]

lemma queued_of_lookup
    (h : pool.identities.lookup id = some state) : pool.queued id = state.queue := by
  rw [queued, h]
  rfl

section

variable (h : pool.WellFormed)
include h

lemma WellFormed.queued_eq_nil : pool.queued id = [] ↔ pool.identities.lookup id = none := by
  constructor
  · intro hnil
    refine Option.eq_none_iff_forall_ne_some.mpr fun state hstate => ?_
    rw [queued_of_lookup hstate] at hnil
    exact h.nonempty id state hstate hnil
  · intro hnone
    rw [queued, hnone]
    rfl

lemma WellFormed.containsIdentity (id : Id) :
    pool.containsIdentity id = true ↔ pool.queued id ≠ [] := by
  rw [Pool.containsIdentity, Option.isSome_iff_ne_none, ne_eq, ne_eq, h.queued_eq_nil]

lemma WellFormed.length_items : pool.items.length = pool.len := by
  rw [items, length_flatMap, len, h.totalItems]
  simp

lemma WellFormed.heap_eq_nil : pool.heap = [] ↔ pool.totalItems = 0 := by
  rw [h.totalItems, List.sum_eq_zero_iff_forall_eq_nat, ← List.length_eq_zero_iff,
    h.heap.length_eq, length_map, List.length_eq_zero_iff]
  constructor
  · intro hnil
    simp [hnil]
  · intro hzero
    refine eq_nil_iff_forall_not_mem.mpr fun p hp => ?_
    have hlength := hzero _ (mem_map_of_mem hp)
    exact h.nonempty p.1 p.2 (mem_pairs.mp hp) (length_eq_zero_iff.mp hlength)

end

end

/-! ## One identity and the rest -/

section

variable {pool pool' : Pool Time Score Id T} {id : Id}

omit [LinearOrder Time]

def restHeap (pool : Pool Time Score Id T) (id : Id) : List (HeapEntry Time Id) :=
  (pairs (pool.identities.erase id)).map fun p => ⟨p.2.finishTime, p.1⟩

/-- The number of items without an identity. -/
def restItems (pool : Pool Time Score Id T) (id : Id) : Nat :=
  ((pairs (pool.identities.erase id)).map (·.2.queue.length)).sum

section

variable (h : pool.WellFormed)
include h

lemma WellFormed.heap_perm_of_lookup (hstate : pool.identities.lookup id = some state) :
    pool.heap.Perm (⟨state.finishTime, id⟩ :: pool.restHeap id) :=
  h.heap.trans ((pairs_perm_of_lookup hstate).map _)

lemma WellFormed.totalItems_of_lookup (hstate : pool.identities.lookup id = some state) :
    pool.totalItems = state.queue.length + pool.restItems id := by
  rw [h.totalItems, ((pairs_perm_of_lookup hstate).map _).sum_nat]
  rfl

lemma WellFormed.heap_perm_of_new
    (hnew : pool.identities.lookup id = none) : pool.heap.Perm (pool.restHeap id) := by
  rw [restHeap, erase_of_notMem (AList.lookup_eq_none.mp hnew)]
  exact h.heap

lemma WellFormed.totalItems_of_new
    (hnew : pool.identities.lookup id = none) : pool.totalItems = pool.restItems id := by
  rw [restItems, erase_of_notMem (AList.lookup_eq_none.mp hnew)]
  exact h.totalItems

/-- An identity gets a new state. -/
lemma WellFormed.insert (hlimits : pool.SameLimits pool')
    (hidentities : pool'.identities = pool.identities.insert id state)
    (hheap : pool'.heap.Perm (⟨state.finishTime, id⟩ :: pool.restHeap id))
    (htotal : pool'.totalItems = state.queue.length + pool.restItems id) (hne : state.queue ≠ [])
    (hlength : state.queue.length ≤ pool.perIdLimit) (hle : pool'.totalItems ≤ pool.maxSize)
    (hfits : pool'.totalItems ≤ usizeMax) :
    pool'.WellFormed ∧ pool'.queued = update pool.queued id state.queue := by
  have hqueued : pool'.queued = update pool.queued id state.queue := by
    funext id'
    rw [queued, hidentities, lookup_insert_eq_ite, update_apply]
    split
    · rfl
    · rfl
  refine ⟨⟨?_, fun id' state' hstate' => ?_, ?_, fun id' => ?_, ?_, hfits⟩, hqueued⟩
  · rw [hidentities, pairs_insert]
    exact hheap
  · rw [hidentities] at hstate'
    exact forall_insert h.nonempty hne id' state' hstate'
  · rw [hidentities, pairs_insert]
    exact htotal
  · rw [hqueued, hlimits.perIdLimit, update_apply]
    split
    · exact hlength
    · exact h.length_le id'
  · rw [hlimits.maxSize]
    exact hle

/-- An identity is removed. -/
lemma WellFormed.erase (hlimits : pool.SameLimits pool')
    (hidentities : pool'.identities = pool.identities.erase id)
    (hheap : pool'.heap.Perm (pool.restHeap id)) (htotal : pool'.totalItems = pool.restItems id)
    (hle : pool'.totalItems ≤ pool.totalItems) :
    pool'.WellFormed ∧ pool'.queued = update pool.queued id [] := by
  have hqueued : pool'.queued = update pool.queued id [] := by
    funext id'
    rw [queued, hidentities, lookup_erase_eq_ite, update_apply]
    split
    · rfl
    · rfl
  refine ⟨⟨?_, fun id' state' hstate' => ?_, ?_, fun id' => ?_, ?_, hle.trans h.fits⟩, hqueued⟩
  · rw [hidentities]
    exact hheap
  · rw [hidentities] at hstate'
    exact h.nonempty id' state' (lookup_of_lookup_erase hstate')
  · rw [hidentities]
    exact htotal
  · rw [hqueued, hlimits.perIdLimit, update_apply]
    split
    · exact Nat.zero_le _
    · exact h.length_le id'
  · rw [hlimits.maxSize]
    exact hle.trans h.totalItems_le

end

end

/-! ## Operations -/

/-- A push either adds an item to the queue of its identity or leaves the pool as it was. -/
inductive Pushed (pool : Pool Time Score Id T) (id : Id) (item : T) :
    Except (PushError Id) Unit → Pool Time Score Id T → Prop
  | accepted {pool'} (wellFormed : pool'.WellFormed) (limits : pool.SameLimits pool')
      (queued : pool'.queued = update pool.queued id (pool.queued id ++ [item])) :
      Pushed pool id item (.ok ()) pool'
  | refused (e : PushError Id) : Pushed pool id item (.error e) pool

/-- A pop takes the first item of an identity, or there is none. -/
inductive Popped (pool : Pool Time Score Id T) : Option (Id × T) → Pool Time Score Id T → Prop
  | item {id item rest pool'} (wellFormed : pool'.WellFormed) (limits : pool.SameLimits pool')
      (first : pool.queued id = item :: rest)
      (queued : pool'.queued = update pool.queued id rest) :
      Popped pool (some (id, item)) pool'
  | none (empty : pool.totalItems = 0) : Popped pool none pool

omit [LinearOrder Time] [DecidableEq Id] in
lemma hasCapacityFor_one {pool : Pool Time Score Id T} (hcapacity : pool.hasCapacityFor 1 = true) :
    pool.totalItems + 1 ≤ pool.maxSize ∧ pool.totalItems + 1 ≤ usizeMax := by
  simp only [hasCapacityFor, decide_eq_true_eq] at hcapacity
  exact ⟨hcapacity.2, hcapacity.1⟩

section

variable {pool : Pool Time Score Id T} (h : pool.WellFormed)

include h

omit [LinearOrder Time] in
theorem pushExisting_spec (hid : pool.queued id ≠ []) (item : T) :
    ∃ result pool', pool.pushExisting id item = .ok (result, pool') ∧
      pool.Pushed id item result pool' := by
  obtain ⟨state, hstate⟩ := Option.ne_none_iff_exists'.mp (mt h.queued_eq_nil.mpr hid)
  simp only [pushExisting, hstate, Checked.unwrap_some]
  by_cases hlength : min (state.queue.length + 1) usizeMax ≤ pool.perIdLimit
  swap
  · exact ⟨_, _, if_pos hlength, .refused _⟩
  by_cases hcapacity : pool.hasCapacityFor 1 = true
  swap
  · exact ⟨_, _, (if_neg (not_not.mpr hlength)).trans (if_pos (by simpa using hcapacity)), .refused _⟩
  refine ⟨_, _, (if_neg (not_not.mpr hlength)).trans (if_neg (by simpa using hcapacity)), ?_⟩
  obtain ⟨hle, hfits⟩ := hasCapacityFor_one hcapacity
  have htotal := h.totalItems_of_lookup hstate
  have hlimits : pool.SameLimits { pool with
      identities := pool.identities.insert id { state with queue := state.queue ++ [item] }
      totalItems := min (pool.totalItems + 1) usizeMax } := ⟨rfl, rfl⟩
  have hnewLength : (state.queue ++ [item]).length = state.queue.length + 1 := by simp
  have hheap := h.heap_perm_of_lookup hstate
  obtain ⟨hwell, hqueued⟩ := h.insert hlimits rfl hheap
    (by dsimp only; omega) (by simp) (by dsimp only; omega) (by dsimp only; omega)
    (min_le_right _ _)
  refine .accepted hwell hlimits ?_
  rw [hqueued, queued_of_lookup hstate]

omit [LinearOrder Time] in
theorem pushNew_spec (hlimit : 0 < pool.perIdLimit) (hid : pool.queued id = [])
    (clock : Clock Time Score) (item : T) (score : Score) :
    pool.Pushed id item (pool.pushNew clock id item score).1 (pool.pushNew clock id item score).2 := by
  have hnew := h.queued_eq_nil.mp hid
  unfold pushNew
  by_cases hcapacity : pool.hasCapacityFor 1 = true
  swap
  · rw [if_pos (by simpa using hcapacity)]
    exact .refused _
  rw [if_neg (by simpa using hcapacity)]
  obtain ⟨hle, hfits⟩ := hasCapacityFor_one hcapacity
  have htotal := h.totalItems_of_new hnew
  have hlimits : pool.SameLimits { pool with
      identities := pool.identities.insert id ⟨[item], score, clock.advance pool.virtualTime score⟩
      totalItems := min (pool.totalItems + 1) usizeMax
      heap := ⟨clock.advance pool.virtualTime score, id⟩ :: pool.heap } := ⟨rfl, rfl⟩
  obtain ⟨hwell, hqueued⟩ := h.insert hlimits rfl ((h.heap_perm_of_new hnew).cons _)
    (by simp only [length_singleton]; omega) (by simp) hlimit
    (by dsimp only; omega) (min_le_right _ _)
  refine .accepted hwell hlimits ?_
  rw [hqueued, hid, nil_append]

/-- The entries of the heap are those of the identities. -/
lemma popLoop_spec (clock : Clock Time Score) (choice rounds : Nat) :
    ∃ result pool', popLoop clock choice (rounds + 1) pool = .ok (result, pool') ∧
      pool.Popped result pool' := by
  rw [popLoop]
  cases hpop : PriorityQueue.pop HeapEntry.finishTime choice pool.heap with
  | none =>
    have hnil := PriorityQueue.pop_eq_none.mp hpop
    exact ⟨none, pool, rfl, .none (h.heap_eq_nil.mp hnil)⟩
  | some popped =>
    obtain ⟨entry, heap⟩ := popped
    obtain ⟨hperm, -⟩ := PriorityQueue.pop_eq_some hpop
    have hentry : entry ∈ pool.heap := hperm.mem_iff.mpr mem_cons_self
    obtain ⟨⟨id, state⟩, hpair, rfl⟩ := mem_map.mp (h.heap.mem_iff.mp hentry)
    have hstate := mem_pairs.mp hpair
    have hheap : heap.Perm (pool.restHeap id) :=
      (hperm.symm.trans (h.heap_perm_of_lookup hstate)).cons_inv
    have htotal := h.totalItems_of_lookup hstate
    have hqueued := queued_of_lookup hstate
    have hlength := h.length_le id
    dsimp only
    rw [hstate]
    dsimp only
    rw [if_neg (not_not.mpr rfl)]
    cases hqueue : state.queue with
    | nil => exact absurd hqueue (h.nonempty id state hstate)
    | cons item queue =>
      rw [hqueue] at htotal hqueued
      rw [hqueued] at hlength
      simp only [length_cons] at htotal hlength
      cases queue with
      | nil =>
        have hlimits : pool.SameLimits { pool with
            heap := heap
            identities := pool.identities.erase id
            totalItems := pool.totalItems - 1
            virtualTime := state.finishTime } := ⟨rfl, rfl⟩
        obtain ⟨hwell, hqueued'⟩ := h.erase hlimits rfl hheap
          (by simp only [length_nil] at htotal ⊢; omega) (Nat.sub_le _ _)
        exact ⟨_, _, rfl, .item hwell hlimits hqueued hqueued'⟩
      | cons next queue =>
        have hlimits : pool.SameLimits { pool with
            heap := ⟨clock.advance (max state.finishTime state.finishTime) state.score, id⟩ :: heap
            identities := pool.identities.insert id { state with
              queue := next :: queue
              finishTime := clock.advance (max state.finishTime state.finishTime) state.score }
            totalItems := pool.totalItems - 1
            virtualTime := state.finishTime } := ⟨rfl, rfl⟩
        have hle := h.totalItems_le
        have hfits := h.fits
        obtain ⟨hwell, hqueued'⟩ := h.insert hlimits rfl (hheap.cons _)
          (by simp only [length_cons] at htotal ⊢; omega) (cons_ne_nil _ _)
          (by simp only [length_cons] at hlength ⊢; omega) (by dsimp only; omega)
          (by dsimp only; omega)
        exact ⟨_, _, rfl, .item hwell hlimits hqueued hqueued'⟩

theorem popNext_spec (clock : Clock Time Score) (choice : Nat) :
    ∃ result pool', pool.popNext clock choice = .ok (result, pool') ∧ pool.Popped result pool' :=
  popLoop_spec h clock choice pool.heap.length

end

end Kinet.FairQueue.Pool
