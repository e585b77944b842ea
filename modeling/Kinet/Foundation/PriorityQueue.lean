import Mathlib.Data.List.MinMax

/-!
# Priority queues

A priority queue gives out an entry with the least key.  Which one of several entries with the
least key comes first is left open: it is an argument of `pop`.

Main results:

- `PriorityQueue.pop_eq_some`: the entry that comes out and what is left.
- `PriorityQueue.pop_eq_none`: only the empty queue has nothing to give.
-/

namespace PriorityQueue

open List

variable {α κ : Type} [LinearOrder κ] [DecidableEq α] {key : α → κ} {queue : List α}

def least (key : α → κ) (queue : List α) : List α :=
  queue.filter fun a => queue.all fun b => key a ≤ key b

/-- Take out an entry with the least key. -/
def pop (key : α → κ) (choice : Nat) (queue : List α) : Option (α × List α) :=
  (least key queue)[choice % (least key queue).length]?.map fun a => (a, queue.erase a)

omit [DecidableEq α] in
lemma mem_least {a : α} : a ∈ least key queue ↔ a ∈ queue ∧ ∀ b ∈ queue, key a ≤ key b := by
  simp [least]

omit [DecidableEq α] in
lemma least_ne_nil (h : queue ≠ []) : least key queue ≠ [] := by
  intro hnil
  cases hmin : queue.argmin key with
  | none => exact h (argmin_eq_none.mp hmin)
  | some a =>
    have ha : a ∈ least key queue :=
      mem_least.mpr ⟨argmin_mem hmin, fun b hb => le_of_mem_argmin hb hmin⟩
    rw [hnil] at ha
    exact not_mem_nil ha

theorem pop_eq_some {choice : Nat} {a : α} {rest : List α}
    (h : pop key choice queue = some (a, rest)) :
    queue.Perm (a :: rest) ∧ ∀ b ∈ queue, key a ≤ key b := by
  obtain ⟨a', ha', heq⟩ := Option.map_eq_some_iff.mp h
  cases heq
  obtain ⟨hmem, hle⟩ := mem_least.mp (mem_of_getElem? ha')
  exact ⟨perm_cons_erase hmem, hle⟩

theorem pop_eq_none {choice : Nat} : pop key choice queue = none ↔ queue = [] := by
  constructor
  · intro h
    by_contra hne
    have hleast : least key queue ≠ [] := least_ne_nil hne
    have hpos := length_pos_iff.mpr hleast
    rw [pop, Option.map_eq_none_iff, getElem?_eq_none_iff] at h
    exact absurd (Nat.mod_lt choice hpos) (by omega)
  · rintro rfl
    rfl

end PriorityQueue
