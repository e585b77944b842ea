import Kinet.FairQueue.Pool

/-!
# The fair queue

Items of promoted identities are in the priority pool, those of other identities in the
regular pool; an identity that has items stays in its pool.  Of every hundred items a fixed
number comes from the regular pool, as long as both pools have items.

The score of an identity is an argument of a push; the source asks a scorer.
-/

namespace Kinet

namespace FairQueue

def popCounterWindow : Nat := 100

inductive PoolKind where
  | priority
  | regular
deriving DecidableEq

inductive PeerStatus (Score : Type) where
  | promoted (score : Score)
  | newcomer (score : Score)
  | unknown

/-- The pool and the score for a new identity; `one` is the score of all but the promoted. -/
def poolAndScore {Score : Type} (one : Score) : PeerStatus Score → PoolKind × Score
  | .promoted score => (.priority, score)
  | .newcomer _ => (.regular, one)
  | .unknown => (.regular, one)

/-- What a queue is used with: its clock, and the score of identities that are not promoted. -/
structure Setting (Time Score : Type) where
  clock : Clock Time Score
  one : Score

end FairQueue

open FairQueue Checked

/-- Limits of a queue; the share of the regular pool is at most a hundred. -/
structure FairQueueBuilder where
  perIdLimit : Nat
  maxSize : Nat
  regularPerIdLimit : Nat
  regularMaxSize : Nat
  regularBandwidthPct : Nat
  regularBandwidthPct_le : regularBandwidthPct ≤ 100

namespace FairQueueBuilder

def default : FairQueueBuilder where
  perIdLimit := 4000
  maxSize := 40000
  regularPerIdLimit := 4000
  regularMaxSize := 40000
  regularBandwidthPct := 10
  regularBandwidthPct_le := by decide

end FairQueueBuilder

/-- Items of identities, in two pools. -/
structure FairQueue (Time Score Id T : Type) where
  priorityPool : Pool Time Score Id T
  regularPool : Pool Time Score Id T
  regularBandwidthPct : Nat
  popCounter : Nat

section

variable {Time Score Id T : Type} [LinearOrder Time] [DecidableEq Id]

/-- A queue with these limits, which must be positive. -/
def FairQueueBuilder.build (builder : FairQueueBuilder) (setting : Setting Time Score) :
    Checked (FairQueue Time Score Id T) := do
  require (builder.perIdLimit > 0)
  require (builder.maxSize > 0)
  require (builder.regularPerIdLimit > 0)
  require (builder.regularMaxSize > 0)
  pure
    { priorityPool := .new setting.clock builder.perIdLimit builder.maxSize
      regularPool := .new setting.clock builder.regularPerIdLimit builder.regularMaxSize
      regularBandwidthPct := builder.regularBandwidthPct
      popCounter := 0 }

namespace FairQueue

variable (q : FairQueue Time Score Id T)

def pool : PoolKind → Pool Time Score Id T
  | .priority => q.priorityPool
  | .regular => q.regularPool

def setPool (pool : Pool Time Score Id T) : PoolKind → FairQueue Time Score Id T
  | .priority => { q with priorityPool := pool }
  | .regular => { q with regularPool := pool }

def len : Nat := min (q.priorityPool.len + q.regularPool.len) usizeMax

def poolContainingIdentity (id : Id) : Option PoolKind :=
  if q.priorityPool.containsIdentity id then some .priority
  else if q.regularPool.containsIdentity id then some .regular
  else none

/-- Queue an item in the pool of its identity. -/
def push (setting : Setting Time Score) (id : Id) (item : T) (status : PeerStatus Score) :
    Checked (Except (PushError Id) Unit × FairQueue Time Score Id T) :=
  match q.poolContainingIdentity id with
  | some kind => do
    let (result, pool) ← (q.pool kind).pushExisting id item
    pure (result, q.setPool pool kind)
  | none =>
    let (desired, score) := poolAndScore setting.one status
    let (result, pool) := (q.pool desired).pushNew setting.clock id item score
    pure (result, q.setPool pool desired)

/-- Only pops from the pool whose turn it is, and pops from the regular pool, are counted. -/
def recordSuccessfulPop (kind : PoolKind) (firstAttempt : Bool) :
    Checked (FairQueue Time Score Id T) :=
  if firstAttempt || kind = .regular then do
    let next ← add 8 q.popCounter 1
    pure { q with popCounter := next % popCounterWindow }
  else pure q

/-- The pool whose turn it is, and the other. -/
def order : PoolKind × PoolKind :=
  if q.popCounter < q.regularBandwidthPct then (.regular, .priority) else (.priority, .regular)

/-- The pools take turns by their share of the bandwidth. -/
def pop (setting : Setting Time Score) (choice : Nat) :
    Checked (Option (Id × T) × FairQueue Time Score Id T) := do
  let (first, second) := q.order
  let (item, pool) ← (q.pool first).popNext setting.clock choice
  let q := q.setPool pool first
  match item with
  | some item => do
    let q ← q.recordSuccessfulPop first true
    pure (some item, q)
  | none => do
    let (item, pool) ← (q.pool second).popNext setting.clock choice
    let q := q.setPool pool second
    match item with
    | some item => do
      let q ← q.recordSuccessfulPop second false
      pure (some item, q)
    | none => pure (none, q)

end FairQueue

/-! ## Runs -/

inductive FairQueue.Call (Score Id T : Type) where
  | push (id : Id) (item : T) (status : PeerStatus Score)
  | pop (choice : Nat)

inductive FairQueue.Outcome (Id T : Type) where
  | pushed (result : Except (PushError Id) Unit)
  | popped (item : Option (Id × T))
deriving DecidableEq

namespace FairQueue

variable (setting : Setting Time Score) (q : FairQueue Time Score Id T)

def step : Call Score Id T → Checked (Outcome Id T × FairQueue Time Score Id T)
  | .push id item status => do
    let (result, q) ← q.push setting id item status
    pure (.pushed result, q)
  | .pop choice => do
    let (item, q) ← q.pop setting choice
    pure (.popped item, q)

def run : FairQueue Time Score Id T → List (Call Score Id T) →
    Checked (List (Outcome Id T) × FairQueue Time Score Id T)
  | q, [] => pure ([], q)
  | q, call :: calls => do
    let (outcome, q) ← q.step setting call
    let (outcomes, q) ← run q calls
    pure (outcome :: outcomes, q)

end FairQueue

end

end Kinet
