import Kinet.Mcp.FastPath

/-!
# A slot instance

The state machine of one slot: it handles messages, the deadline of the slot and its
timers, and queues what the runtime has to do.
-/

namespace Kinet.Mcp

open FastPath

variable {E : Types}

inductive Message (E : Types) where
  | batchVote (msg : BatchVoteMsg E)
  | fastCommitVote (msg : FastCommitVoteMsg E)
  | fastBlock (block : FastBlock E)
  | fallbackVote (msg : FallbackVoteMsg E)
  | fastCommitQc (qc : FastCommitQc E)
  | enterFallbackCert (cert : EnterFallbackCert E)
deriving DecidableEq

inductive TimerEvent where
  | fallbackTransitionTimeout
  | fallbackDecisionDelayElapsed
  | fallbackTick
deriving DecidableEq

/-- What the runtime has to do. -/
inductive SlotOutput (E : Types) where
  | scheduleTimer (delta : Nat) (event : TimerEvent)
  | broadcast (message : Message E)
  | commitOptimistic (block : FastBlock E)
  | finalize (qc : FastCommitQc E)
deriving DecidableEq

/-- The fallback path, which is not implemented yet. -/
structure FallbackPath (E : Types) where
  slot : Nat
  round : Nat
  input : MVBAInputs E

/-- Settings of all slots. -/
structure ChorusConfig where
  delta : Nat
  numProposals : Nat

structure Chorus (E : Types) where
  slot : Nat
  fast : FastPath E
  fallback : Option (FallbackPath E)
  outputs : List (SlotOutput E)
  delta : Nat
  /-- finalized; later messages are ignored -/
  decided : Bool

/-- Handlers change the instance and may panic. -/
abbrev ChorusM (E : Types) := StateT (Chorus E) (Except Panic)

namespace Chorus

def new (slot : Nat) (config : ChorusConfig) : Chorus E where
  slot := slot
  fast := .new slot config.numProposals
  fallback := none
  outputs := []
  delta := config.delta
  decided := false

def poll (c : Chorus E) : Option (SlotOutput E) × Chorus E :=
  (c.outputs.head?, { c with outputs := c.outputs.tail })

variable (context : ChorusContext E)

/-- Run a handler of the fast path. -/
def onFast {α : Type} (m : FastM E α) : ChorusM E α := do
  let c ← get
  let (a, fast) ← m c.fast
  set { c with fast := fast }
  pure a

def push (out : SlotOutput E) : ChorusM E Unit :=
  modify fun c => { c with outputs := c.outputs ++ [out] }

def broadcast (message : Message E) : ChorusM E Unit := push (.broadcast message)

/-- Start a timer that fires after `delta`. -/
def scheduleTimer (event : TimerEvent) : ChorusM E Unit := do
  let c ← get
  push (.scheduleTimer c.delta event)

def finalize (qc : FastCommitQc E) : ChorusM E Unit := do
  let c ← get
  if c.decided then pure ()
  else do
    set { c with decided := true }
    push (.finalize qc)

def enterFallback (inputs : MVBAInputs E) : ChorusM E Unit := do
  let c ← get
  if c.fallback.isSome then pure ()
  else do
    scheduleTimer .fallbackTick
    modify fun c => { c with fallback := some ⟨c.fast.slot, 0, inputs⟩ }

/-- Handle a message of a slot that is not decided. -/
def dispatch (author : E.NodeId) : Message E → ChorusM E Unit
  | .batchVote msg => do
    match ← onFast (handleBatchVote context author msg) with
    | none => pure ()
    | some fastBlock => do
      let c ← get
      let commitVote := fastBlock.commitVote c.slot context.sign
      push (.commitOptimistic fastBlock)
      broadcast (.fastCommitVote commitVote)
      broadcast (.fastBlock fastBlock)
  | .fastCommitVote msg => do
    match ← onFast (handleCommitVote context author msg) with
    | none => pure ()
    | some fastQc => do
      broadcast (.fastCommitQc fastQc)
      finalize fastQc
  | .fastBlock block => do
    match ← onFast (handleFastBlock block) with
    | none => pure ()
    | some fastBlock => do
      let c ← get
      let commitVote := fastBlock.commitVote c.slot context.sign
      push (.commitOptimistic fastBlock)
      broadcast (.fastCommitVote commitVote)
  | .fallbackVote msg => onFast (handleFallbackVote context author msg)
  | .fastCommitQc qc => finalize qc
  | .enterFallbackCert cert => do
    let c ← get
    match c.fast.tryBuildMvbaInputs cert with
    | none => pure ()
    | some inputs => enterFallback inputs

def handleMessage (author : E.NodeId) (message : Message E) : ChorusM E Unit := do
  let c ← get
  if c.decided then pure () else dispatch context author message

def handleDeadline (da : DAHandle E) : ChorusM E Unit := do
  let c ← get
  if c.decided then pure ()
  else do
    scheduleTimer .fallbackTransitionTimeout
    match ← onFast (onProposeDeadline context da) with
    | none => pure ()
    | some batchVote => broadcast (.batchVote batchVote)

def handleTimer (da : DAHandle E) : TimerEvent → ChorusM E Unit
  | .fallbackTransitionTimeout => do
    scheduleTimer .fallbackDecisionDelayElapsed
    match ← onFast (onCommitVoteDeadline context da) with
    | .alreadyVoted => pure ()
    | .notEnoughVotes => scheduleTimer .fallbackTransitionTimeout
    | .fallbackVote fallbackVote => broadcast (.fallbackVote fallbackVote)
  | .fallbackDecisionDelayElapsed => do
    let c ← get
    match ← c.fast.onFallbackDeadline context with
    | none => scheduleTimer .fallbackDecisionDelayElapsed
    | some inputs => do
      broadcast (.enterFallbackCert inputs.enterFallbackCert)
      enterFallback inputs
  | .fallbackTick => do
    let c ← get
    if c.fallback.isNone then throw .fallbackMissing
    else do
      scheduleTimer .fallbackTick
      throw .fallbackTodo

end Chorus

/-! ## Runs -/

/-- What can happen to a slot instance. -/
inductive SlotInput (E : Types) where
  | message (author : E.NodeId) (message : Message E)
  | deadline (da : DAHandle E)
  | timer (event : TimerEvent) (da : DAHandle E)
  | poll

/-- A slot instance with the outputs that were taken from it. -/
structure SlotRun (E : Types) where
  chorus : Chorus E
  polled : List (SlotOutput E)

namespace SlotRun

def emitted (r : SlotRun E) : List (SlotOutput E) := r.polled ++ r.chorus.outputs

def exec (r : SlotRun E) (handler : ChorusM E Unit) : Except Panic (SlotRun E) :=
  match handler r.chorus with
  | .ok (_, chorus) => .ok { r with chorus := chorus }
  | .error p => .error p

def step (context : ChorusContext E) (r : SlotRun E) : SlotInput E → Except Panic (SlotRun E)
  | .message author message => r.exec (Chorus.handleMessage context author message)
  | .deadline da => r.exec (Chorus.handleDeadline context da)
  | .timer event da => r.exec (Chorus.handleTimer context da event)
  | .poll => .ok ⟨r.chorus.poll.2, r.polled ++ r.chorus.poll.1.toList⟩

def run (context : ChorusContext E) (config : ChorusConfig) (slot : Nat)
    (inputs : List (SlotInput E)) : Except Panic (SlotRun E) :=
  inputs.foldlM (fun r input => r.step context input) ⟨Chorus.new slot config, []⟩

end SlotRun

end Kinet.Mcp
