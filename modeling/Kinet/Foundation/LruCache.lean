import Mathlib.Tactic.Ring

/-!
# Caches that forget what was used least recently

A cache is a list of entries, the most recently used first.  What proofs may use of a cache is
stated apart from that, as `LawfulCache`.
-/

/-- A cache holds only what was put into it. -/
structure LawfulCache {C κ : Type} (Holds : C → κ → Prop) (empty : C) (put : C → κ → C) : Prop where
  not_holds_empty : ∀ k, ¬ Holds empty k
  holds_put : ∀ {c k k'}, Holds (put c k) k' → k' = k ∨ Holds c k'

lemma List.mem_of_mem_take_cons_filter {α : Type} {a b : α} {l : List α} {p : α → Bool} {n : Nat}
    (h : b ∈ (a :: l.filter p).take n) : b = a ∨ b ∈ l := by
  have hmem := List.mem_of_mem_take h
  rw [List.mem_cons, List.mem_filter] at hmem
  exact hmem.imp_right And.left

/-- A cache for at most `capacity` entries. -/
structure LruCache (κ ν : Type) where
  capacity : Nat
  entries : List (κ × ν) := []

namespace LruCache

variable {κ ν : Type} [DecidableEq κ] (c : LruCache κ ν) (k : κ)

/-- Value under a key. -/
def peek : Option ν := c.entries.lookup k

/-- Store a value as the most recently used one; the least recently used entry goes if there
are too many. -/
def put (v : ν) : LruCache κ ν :=
  { c with entries := ((k, v) :: c.entries.filter fun entry => entry.1 ≠ k).take c.capacity }

/-- Value under a key, which becomes the most recently used one. -/
def get : Option ν × LruCache κ ν :=
  match c.peek k with
  | some v => (some v, c.put k v)
  | none => (none, c)

lemma lawful (capacity : Nat) : LawfulCache (fun (c : LruCache κ ν) entry => entry ∈ c.entries)
    { capacity := capacity } (fun c entry => c.put entry.1 entry.2) where
  not_holds_empty _ := List.not_mem_nil
  holds_put := List.mem_of_mem_take_cons_filter

end LruCache
