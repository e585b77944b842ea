import Kinet.Foundation.Checked
import Kinet.Foundation.FiniteMap
import Kinet.Foundation.PriorityQueue

/-!
# Pools of queues

A pool has a queue of items for each identity and serves the identities by their virtual
finish times, which are of any ordered type with the operations of `Clock`.  Each identity
with items has one entry in the heap, with the finish time of its first item.
-/

namespace Kinet.FairQueue

def usizeMax : Nat := 2 ^ 64 - 1

/-- Finish times: where they begin, and the time after one more item of a score. -/
structure Clock (Time Score : Type) where
  zero : Time
  advance : Time → Score → Time

structure HeapEntry (Time Id : Type) where
  finishTime : Time
  id : Id
deriving DecidableEq

structure IdentityState (Time Score T : Type) where
  queue : List T
  score : Score
  finishTime : Time

inductive PushError (Id : Type) where
  | perIdLimitExceeded (id : Id) (limit : Nat)
  | full (size maxSize : Nat)
deriving DecidableEq

structure Pool (Time Score Id T : Type) where
  heap : List (HeapEntry Time Id)
  identities : FiniteMap Id (IdentityState Time Score T)
  virtualTime : Time
  totalItems : Nat
  maxSize : Nat
  perIdLimit : Nat

namespace Pool

variable {Time Score Id T : Type} [LinearOrder Time] [DecidableEq Id]

def new (clock : Clock Time Score) (perIdLimit maxSize : Nat) : Pool Time Score Id T where
  heap := []
  identities := ∅
  virtualTime := clock.zero
  totalItems := 0
  maxSize := maxSize
  perIdLimit := perIdLimit

variable (pool : Pool Time Score Id T)

def len : Nat := pool.totalItems

def isEmpty : Bool := pool.totalItems = 0

def hasCapacityFor (incomingItems : Nat) : Bool :=
  pool.totalItems + incomingItems ≤ usizeMax ∧ pool.totalItems + incomingItems ≤ pool.maxSize

def containsIdentity (id : Id) : Bool := (pool.identities.lookup id).isSome

def pushExisting (id : Id) (item : T) :
    Checked (Except (PushError Id) Unit × Pool Time Score Id T) := do
  let state ← Checked.unwrap (pool.identities.lookup id)
  let newLen := min (state.queue.length + 1) usizeMax
  if ¬ newLen ≤ pool.perIdLimit then
    pure (.error (.perIdLimitExceeded id pool.perIdLimit), pool)
  else if !pool.hasCapacityFor 1 then
    pure (.error (.full pool.totalItems pool.maxSize), pool)
  else
    pure (.ok (), { pool with
      identities := pool.identities.insert id { state with queue := state.queue ++ [item] }
      totalItems := min (pool.totalItems + 1) usizeMax })

def pushNew (clock : Clock Time Score) (id : Id) (item : T) (score : Score) :
    Except (PushError Id) Unit × Pool Time Score Id T :=
  if !pool.hasCapacityFor 1 then (.error (.full pool.totalItems pool.maxSize), pool)
  else
    let finishTime := clock.advance pool.virtualTime score
    (.ok (), { pool with
      identities := pool.identities.insert id ⟨[item], score, finishTime⟩
      totalItems := min (pool.totalItems + 1) usizeMax
      heap := ⟨finishTime, id⟩ :: pool.heap })

/-- The loop of `popNext`, with more rounds than the heap has entries.  Entries of the heap
that do not match an identity are dropped. -/
def popLoop (clock : Clock Time Score) (choice : Nat) :
    Nat → Pool Time Score Id T → Checked (Option (Id × T) × Pool Time Score Id T)
  | 0, _ => .error .diverged
  | rounds + 1, pool =>
    match PriorityQueue.pop HeapEntry.finishTime choice pool.heap with
    | none => pure (none, pool)
    | some (entry, heap) =>
      match pool.identities.lookup entry.id with
      | none => popLoop clock choice rounds { pool with heap := heap }
      | some state =>
        if entry.finishTime ≠ state.finishTime then
          popLoop clock choice rounds { pool with heap := heap }
        else
          match state.queue with
          | [] => popLoop clock choice rounds { pool with heap := heap }
          | item :: queue =>
            let totalItems := pool.totalItems - 1
            if queue.isEmpty then
              pure (some (entry.id, item), { pool with
                heap := heap
                identities := pool.identities.erase entry.id
                totalItems := totalItems
                virtualTime := entry.finishTime })
            else
              let base := max entry.finishTime state.finishTime
              let finishTime := clock.advance base state.score
              pure (some (entry.id, item), { pool with
                heap := ⟨finishTime, entry.id⟩ :: heap
                identities := pool.identities.insert entry.id
                  { state with queue := queue, finishTime := finishTime }
                totalItems := totalItems
                virtualTime := entry.finishTime })

/-- Serve the identity with the least finish time; `choice` decides between equal ones. -/
def popNext (clock : Clock Time Score) (choice : Nat) :
    Checked (Option (Id × T) × Pool Time Score Id T) :=
  popLoop clock choice (pool.heap.length + 1) pool

end Pool

end Kinet.FairQueue
