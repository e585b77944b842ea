import Mathlib.Tactic.Ring
import Mathlib.Data.Finset.Card

/-!
# The conductor

The conductor opens slots in windows.  When enough slots of the last window are
completed, it proposes a deadline for the next window to an agreement protocol, a
parameter here, and opens that window with the deadline that was decided.  `polls` bounds
the loop that takes the messages of the protocol.
-/

namespace Kinet.Mcp

inductive ConductorPanic where
  /-- a slot is too large for a cap above it -/
  | slotOverflow
  /-- a round is started before the active one decides -/
  | roundUndecided
  /-- a round is started for a window that is not the next one -/
  | roundSkipped
  /-- the loop that takes messages has not ended within its bound -/
  | polling
deriving DecidableEq

/-- Why a call is refused or fails. -/
inductive ConductorError where
  | invalidConfig
  | invalidSlot (slot : Nat)
  | arithmeticOverflow
  | slotNotOpen (slot openSlotCap : Nat)
deriving DecidableEq

/-- An integer of `bits` bits, or an overflow. -/
def checkedInt (bits n : Nat) : Except ConductorError Nat :=
  if n < 2 ^ bits then .ok n else .error .arithmeticOverflow

lemma checkedInt_eq_ok {bits n m : Nat} : checkedInt bits n = .ok m ↔ n < 2 ^ bits ∧ n = m := by
  unfold checkedInt
  split
  · next h => simp [h]
  · next h => simp [h]

/-- A timestamp moved by a number of intervals. -/
def addDeltas (timestamp delta count : Nat) : Except ConductorError Nat := do
  let delta ← checkedInt 64 (delta * count)
  checkedInt 128 (timestamp + delta)

/-! ## Configuration -/

structure ConductorConfig where
  slotsPerWindow : Nat
  syncBoundarySlots : Nat
  slotInterval : Nat
  /-- deadline of the first slot -/
  genesisDeadline : Nat
  slotsPerWindow_pos : 0 < slotsPerWindow
  syncBoundarySlots_pos : 0 < syncBoundarySlots
  syncBoundarySlots_le : syncBoundarySlots ≤ slotsPerWindow
deriving DecidableEq

namespace ConductorConfig

/-- Check the settings. -/
def new (slotsPerWindow syncBoundarySlots : Nat) (hwindow : 0 < slotsPerWindow)
    (hsync : 0 < syncBoundarySlots) (slotInterval genesisDeadline : Nat) :
    Except ConductorError ConductorConfig :=
  if h : slotsPerWindow < syncBoundarySlots then .error .invalidConfig
  else .ok ⟨slotsPerWindow, syncBoundarySlots, slotInterval, genesisDeadline, hwindow, hsync,
    Nat.le_of_not_lt h⟩

variable (config : ConductorConfig)

def firstSlot (window : Nat) : Except ConductorError Nat :=
  checkedInt 64 (window * config.slotsPerWindow)

/-- Last slot of a window that must be completed before the next window opens. -/
def syncBoundarySlot (window : Nat) : Except ConductorError Nat := do
  let first ← config.firstSlot window
  checkedInt 64 (first + (config.syncBoundarySlots - 1))

/-- Deadline of a window's first slot if no slot is ever late. -/
def naturalFirstSlotDeadline (window : Nat) : Except ConductorError Nat := do
  let firstSlot ← config.firstSlot window
  addDeltas config.genesisDeadline config.slotInterval firstSlot

def deadlineForSlot (window firstDeadline slot : Nat) : Except ConductorError Nat := do
  let nextWindow ← checkedInt 64 (window + 1)
  let slotStart ← config.firstSlot window
  let slotEnd ← config.firstSlot nextWindow
  if slot < slotStart ∨ slotEnd ≤ slot then throw (.invalidSlot slot)
  else addDeltas firstDeadline config.slotInterval (slot - slotStart)

def computeOpenSlots (window firstDeadline : Nat) : Except ConductorError (List (Nat × Nat)) := do
  let nextWindow ← checkedInt 64 (window + 1)
  let slotStart ← config.firstSlot window
  let slotEnd ← config.firstSlot nextWindow
  (List.range' slotStart (slotEnd - slotStart)).mapM fun slot => do
    let deadline ← config.deadlineForSlot window firstDeadline slot
    pure (slot, deadline)

end ConductorConfig

/-! ## Completed slots -/

/-- Every slot below `cap` is completed; `completed` has the others. -/
structure CompletionTracker where
  cap : Nat
  completed : Finset Nat

namespace CompletionTracker

def new : CompletionTracker := ⟨0, ∅⟩

/-- Move the cap over completed slots.  Every iteration removes a slot. -/
def advance : Nat → CompletionTracker → Except ConductorError Unit × CompletionTracker
  | 0, t => (.ok (), t)
  | fuel + 1, t =>
    if t.cap ∈ t.completed then
      let completed := t.completed.erase t.cap
      match checkedInt 64 (t.cap + 1) with
      | .error e => (.error e, ⟨t.cap, completed⟩)
      | .ok cap => advance fuel ⟨cap, completed⟩
    else (.ok (), t)

def markCompleted (t : CompletionTracker) (slot : Nat) :
    Except ConductorPanic (Except ConductorError Unit × CompletionTracker) :=
  if 2 ^ 64 - 1 - 1 < slot then .error .slotOverflow
  else if slot < t.cap then .ok (.error (.invalidSlot slot), t)
  else if slot ∈ t.completed then .ok (.error (.invalidSlot slot), t)
  else
    let t : CompletionTracker := ⟨t.cap, insert slot t.completed⟩
    .ok (t.advance t.completed.card)

def openSlotCount (t : CompletionTracker) (openSlotCap : Nat) : Except ConductorError Nat :=
  if t.cap ≤ openSlotCap ∧ t.completed.card ≤ openSlotCap - t.cap then
    .ok (openSlotCap - t.cap - t.completed.card)
  else .error .arithmeticOverflow

end CompletionTracker

/-! ## Agreement on deadlines -/

/-- An agreement protocol for timestamps. -/
structure Acs (NodeId : Type) where
  State : Type
  Message : Type
  Context : Type
  new : Context → State
  propose : State → Nat → State
  handleMessage : State → NodeId → Message → State
  decision : State → Option Nat
  /-- take the next message for all peers -/
  poll : State → Option Message × State

structure DeadlineAgreementMessage (M : Type) where
  window : Nat
  acsMessage : M

/-- What the runtime has to do.  There are no alarms. -/
inductive ConductorOutput (M : Type) where
  | broadcast (message : DeadlineAgreementMessage M)
  | scheduleAlarm (timestamp : Nat) (alarm : Empty)
  /-- open slots with their deadlines -/
  | openSlots (slots : List (Nat × Nat))
  | closeSlots (cap : Nat)

variable {NodeId : Type} {A : Acs NodeId}

structure ActiveDeadlineRound (A : Acs NodeId) where
  targetWindow : Nat
  proposed : Bool
  acs : A.State

namespace ActiveDeadlineRound

def new (targetWindow : Nat) (context : A.Context) : ActiveDeadlineRound A :=
  ⟨targetWindow, false, A.new context⟩

variable (round : ActiveDeadlineRound A)

/-- The window before the target. -/
def openedWindow : Option Nat :=
  if round.targetWindow = 0 then none else some (round.targetWindow - 1)

/-- Propose a deadline once the cap has passed the boundary of the window before. -/
def tryPropose (config : ConductorConfig) (cap : Nat) (round : ActiveDeadlineRound A) :
    Except ConductorError Unit × ActiveDeadlineRound A :=
  match round.openedWindow with
  | none => (.ok (), round)
  | some openedWindow =>
    match config.syncBoundarySlot openedWindow with
    | .error e => (.error e, round)
    | .ok sbsSlot =>
      if sbsSlot < cap ∧ round.proposed = false then
        match config.naturalFirstSlotDeadline round.targetWindow with
        | .error e => (.error e, round)
        | .ok deadline =>
          (.ok (), { round with acs := A.propose round.acs deadline, proposed := true })
      else (.ok (), round)

/-- Messages for other windows are ignored. -/
def handleMessage (sender : NodeId) (message : DeadlineAgreementMessage A.Message)
    (round : ActiveDeadlineRound A) : ActiveDeadlineRound A :=
  if message.window ≠ round.targetWindow then round
  else { round with acs := A.handleMessage round.acs sender message.acsMessage }

def poll : Option (DeadlineAgreementMessage A.Message) × ActiveDeadlineRound A :=
  let (message, acs) := A.poll round.acs
  (message.map fun m => ⟨round.targetWindow, m⟩, { round with acs := acs })

/-- The decision counts only after the own proposal. -/
def decision : Option Nat :=
  if round.proposed = false then none else A.decision round.acs

/-- Take all messages, of which there are less than `polls`. -/
def drain : Nat → ActiveDeadlineRound A →
    Except ConductorPanic (List (DeadlineAgreementMessage A.Message) × ActiveDeadlineRound A)
  | 0, _ => .error .polling
  | polls + 1, round =>
    match round.poll with
    | (none, round) => .ok ([], round)
    | (some message, round) => do
      let (messages, round) ← drain polls round
      pure (message :: messages, round)

end ActiveDeadlineRound

structure DeadlineAgreementManager (A : Acs NodeId) where
  context : A.Context
  activeRound : ActiveDeadlineRound A

namespace DeadlineAgreementManager

/-- The round for the first window, which has no agreement. -/
def new (context : A.Context) : DeadlineAgreementManager A := ⟨context, .new 0 context⟩

def startRound (manager : DeadlineAgreementManager A) (targetWindow : Nat) :
    Except ConductorPanic (DeadlineAgreementManager A) :=
  if ¬ (manager.activeRound.openedWindow.isNone ∨ manager.activeRound.decision.isSome) then
    .error .roundUndecided
  else if checkedInt 64 (manager.activeRound.targetWindow + 1) ≠ .ok targetWindow then
    .error .roundSkipped
  else .ok { manager with activeRound := .new targetWindow manager.context }

end DeadlineAgreementManager

/-! ## The conductor -/

structure KinetConductor (A : Acs NodeId) where
  config : ConductorConfig
  deadlineAgreementManager : DeadlineAgreementManager A
  /-- every window below the cap is open -/
  openWindowCap : Nat
  completionTracker : CompletionTracker
  outputs : List (ConductorOutput A.Message)

namespace KinetConductor

variable (c : KinetConductor A)

def completedCap : Nat := c.completionTracker.cap

def openSlotCap : Except ConductorError Nat :=
  c.config.firstSlot c.openWindowCap

def openSlotCount : Except ConductorError Nat := do
  let openSlotCap ← c.openSlotCap
  c.completionTracker.openSlotCount openSlotCap

/-- What a call returns, next to the state in which it leaves the conductor. -/
abbrev Outcome (A : Acs NodeId) :=
  Except ConductorPanic (Except ConductorError Unit × KinetConductor A)

/-- Open the window at the cap, and start the agreement on the one after it. -/
def openWindow (firstDeadline : Nat) : Outcome A :=
  match checkedInt 64 (c.openWindowCap + 1) with
  | .error e => .ok (.error e, c)
  | .ok nextWindowCap =>
    match c.config.computeOpenSlots c.openWindowCap firstDeadline with
    | .error e => .ok (.error e, c)
    | .ok slots => do
      let manager ← c.deadlineAgreementManager.startRound nextWindowCap
      pure (.ok (), { c with
        outputs := c.outputs ++ [.openSlots slots]
        openWindowCap := nextWindowCap
        deadlineAgreementManager := manager })

/-- Take the messages of the agreement, and open the next window if there is a decision. -/
def pollDeadlineAgreement (polls : Nat) (c : KinetConductor A) : Outcome A := do
  let (messages, round) ← c.deadlineAgreementManager.activeRound.drain polls
  let c : KinetConductor A := { c with
    outputs := c.outputs ++ messages.map .broadcast
    deadlineAgreementManager := { c.deadlineAgreementManager with activeRound := round } }
  match round.decision with
  | some decidedDeadline => c.openWindow decidedDeadline
  | none => pure (.ok (), c)

/-- Propose a deadline if the cap allows it. -/
def tryRunDeadlineAgreement (polls : Nat) (c : KinetConductor A) : Outcome A :=
  let (result, round) :=
    c.deadlineAgreementManager.activeRound.tryPropose c.config c.completionTracker.cap
  let c : KinetConductor A :=
    { c with deadlineAgreementManager := { c.deadlineAgreementManager with activeRound := round } }
  match result with
  | .error e => .ok (.error e, c)
  | .ok () => c.pollDeadlineAgreement polls

def handleSlotCompleted (slot polls : Nat) (c : KinetConductor A) : Outcome A :=
  match c.openSlotCap with
  | .error e => .ok (.error e, c)
  | .ok openSlotCap =>
    if openSlotCap ≤ slot then .ok (.error (.slotNotOpen slot openSlotCap), c)
    else do
      let (result, completionTracker) ← c.completionTracker.markCompleted slot
      let c : KinetConductor A := { c with completionTracker := completionTracker }
      match result with
      | .error e => pure (.error e, c)
      | .ok () => c.tryRunDeadlineAgreement polls

def handleDeadlineAgreementMsg (sender : NodeId) (message : DeadlineAgreementMessage A.Message)
    (polls : Nat) (c : KinetConductor A) : Outcome A :=
  let round := c.deadlineAgreementManager.activeRound.handleMessage sender message
  let c : KinetConductor A :=
    { c with deadlineAgreementManager := { c.deadlineAgreementManager with activeRound := round } }
  c.pollDeadlineAgreement polls

/-- The conductor that has opened the first window. -/
def genesis (config : ConductorConfig) (context : A.Context) : Outcome A :=
  openWindow ⟨config, .new context, 0, .new, []⟩ config.genesisDeadline

def poll : Option (ConductorOutput A.Message) × KinetConductor A :=
  (c.outputs.head?, { c with outputs := c.outputs.tail })

end KinetConductor

/-! ## Runs -/

inductive ConductorEvent (A : Acs NodeId) where
  | slotFinalization (slot : Nat)
  | message (sender : NodeId) (message : DeadlineAgreementMessage A.Message)
  | poll

/-- A conductor with the outputs that were taken from it, and the slots that were
finalized while they were open. -/
structure ConductorRun (A : Acs NodeId) where
  conductor : KinetConductor A
  polled : List (ConductorOutput A.Message)
  finalized : Finset Nat

namespace ConductorRun

def openedBy {M : Type} : ConductorOutput M → Option (List (Nat × Nat))
  | .openSlots slots => some slots
  | _ => none

/-- The windows that were opened, with the deadlines of their slots. -/
def opened (r : ConductorRun A) : List (List (Nat × Nat)) :=
  (r.polled ++ r.conductor.outputs).filterMap openedBy

def openSlots (r : ConductorRun A) : Nat :=
  r.conductor.openWindowCap * r.conductor.config.slotsPerWindow

/-- One event; errors are logged and forgotten. -/
def step (r : ConductorRun A) : ConductorEvent A × Nat → Except ConductorPanic (ConductorRun A)
  | (.slotFinalization slot, polls) => do
    let (_, conductor) ← r.conductor.handleSlotCompleted slot polls
    let finalized := if slot < r.openSlots then insert slot r.finalized else r.finalized
    pure ⟨conductor, r.polled, finalized⟩
  | (.message sender message, polls) => do
    let (_, conductor) ← r.conductor.handleDeadlineAgreementMsg sender message polls
    pure { r with conductor := conductor }
  | (.poll, _) =>
    .ok { r with conductor := r.conductor.poll.2, polled := r.polled ++ r.conductor.poll.1.toList }

/-- Events in order, each with the bound for its loop. -/
def run (c : KinetConductor A) (events : List (ConductorEvent A × Nat)) :
    Except ConductorPanic (ConductorRun A) :=
  events.foldlM step ⟨c, [], ∅⟩

end ConductorRun

end Kinet.Mcp
