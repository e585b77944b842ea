import Mathlib.Data.Prod.Lex
import Kinet.Foundation.Fallible
import Kinet.Foundation.Tally
import Kinet.LeanUdp.Packet

/-!
# Pools of unfinished messages

A pool collects the fragments of messages, up to a number of messages, of which up to a
number are of one identity.  A pool that is full forgets a message whose deadline has
passed, or a random one.

Times are nanoseconds.  The random choice is an argument of the calls.
-/

namespace Kinet.LeanUdp

open Fallible (ofChecked)

/-- A packet with its sender and time. -/
structure FragmentInput (I : Type) where
  identity : I
  msgId : U16
  seqNum : U16
  fragmentType : FragmentType
  payload : Bytes

/-- The fragments of a message. -/
structure MessageState where
  fragments : FiniteMap U16 Bytes
  totalSize : Nat
  totalFrags : Option Nat
  evictionDeadline : Nat

namespace MessageState

def new (evictionDeadline : Nat) : MessageState where
  fragments := ∅
  totalSize := 0
  totalFrags := none
  evictionDeadline := evictionDeadline

/-- The fragments one after the other. -/
def extract (state : MessageState) : Bytes :=
  (state.fragments.sortedPairs.map Prod.snd).flatten

end MessageState

structure PoolConfig where
  maxMessages : Nat
  maxMessageSize : Usize
  messageTimeout : Nat

def PoolConfig.fromConfig (config : Config) (maxMessages : Nat) : PoolConfig where
  maxMessages := maxMessages
  maxMessageSize := config.maxMessageSize
  messageTimeout := config.messageTimeout

inductive EvictionKind where
  | timeout
  | random
deriving DecidableEq

inductive MessageStatus where
  | missing
  | active
  | stale
deriving DecidableEq

structure IdentityUsage (I : Type) where
  messageCounts : Tally I
  maxMessagesPerIdentity : Nat

namespace IdentityUsage

variable {I : Type} [DecidableEq I]

def withLimit (maxMessagesPerIdentity : Nat) : IdentityUsage I where
  messageCounts := ∅
  maxMessagesPerIdentity := maxMessagesPerIdentity

def new (config : Config) : IdentityUsage I := withLimit config.maxMessagesPerIdentity

variable (usage : IdentityUsage I) (identity : I)

def identityCount : Nat := usage.messageCounts.count identity

def isAtLimit : Bool := usage.identityCount identity ≥ usage.maxMessagesPerIdentity

def incrementIdentityCount : IdentityUsage I :=
  { usage with messageCounts := usage.messageCounts.increment identity }

def decrementIdentityCount : Checked (IdentityUsage I) := do
  let messageCounts ← usage.messageCounts.decrement identity
  pure { usage with messageCounts := messageCounts }

def ensureIdentityCapacity : Except DecodeError Unit :=
  if usage.identityCount identity < usage.maxMessagesPerIdentity then .ok ()
  else .error (.identityLimitExceeded usage.maxMessagesPerIdentity)

end IdentityUsage

/-- Messages are known by their sender and their id. -/
abbrev MessageKey (I : Type) := I × U16

/-- Messages that are put together. -/
structure MessagePool (I : Type) where
  messages : FiniteMap (MessageKey I) MessageState
  /-- messages by their deadline -/
  evictionIndex : FiniteSet (Nat ×ₗ (I ×ₗ U16))
  /-- messages of one identity by their deadline -/
  evictionIndexByIdentity : FiniteMap I (FiniteSet (Nat ×ₗ U16))
  cfg : PoolConfig
  identityUsage : IdentityUsage I

abbrev PoolM (I : Type) := ExceptT DecodeError (StateT (MessagePool I) Checked)

namespace MessagePool

variable {I : Type} [LinearOrder I]

def new (cfg : PoolConfig) (identityUsage : IdentityUsage I) : MessagePool I where
  messages := ∅
  evictionIndex := ∅
  evictionIndexByIdentity := ∅
  cfg := cfg
  identityUsage := identityUsage

def hasMessage (pool : MessagePool I) (key : MessageKey I) : Bool :=
  (pool.messages.lookup key).isSome

/-- There is no place for another message. -/
def admissionBlocked (pool : MessagePool I) : Bool :=
  pool.messages.keys.length ≥ pool.cfg.maxMessages

/-- Take an entry out of the index of its identity, and the index if it is empty then. -/
def dropByIdentity (index : FiniteMap I (FiniteSet (Nat ×ₗ U16))) (deadline : Nat)
    (key : MessageKey I) : FiniteMap I (FiniteSet (Nat ×ₗ U16)) :=
  match index.lookup key.1 with
  | none => index
  | some identityIndex =>
    let identityIndex := identityIndex.erase (toLex (deadline, key.2))
    if identityIndex.keys.isEmpty then index.erase key.1 else index.insert key.1 identityIndex

variable (key : MessageKey I)

def removeMessage : PoolM I (Option MessageState) := do
  let pool ← get
  match pool.messages.lookup key with
  | none => pure none
  | some state => do
    let deadline := state.evictionDeadline
    let identityUsage ← ofChecked (pool.identityUsage.decrementIdentityCount key.1)
    set { pool with
      messages := pool.messages.erase key
      evictionIndex := pool.evictionIndex.erase (toLex (deadline, toLex key))
      evictionIndexByIdentity := dropByIdentity pool.evictionIndexByIdentity deadline key
      identityUsage := identityUsage }
    pure (some state)

/-- Is a message there?  A message whose deadline has passed is forgotten. -/
def messageStatus (now : Nat) : PoolM I MessageStatus := do
  let pool ← get
  match pool.messages.lookup key with
  | none => pure .missing
  | some state =>
    if state.evictionDeadline > now then pure .active
    else do
      let _ ← removeMessage key
      pure .stale

def evictCandidateIfStale (staleCandidate : Option (Nat × MessageKey I)) (now : Nat) :
    PoolM I Bool :=
  match staleCandidate with
  | none => pure false
  | some (deadline, staleKey) =>
    if deadline > now then pure false
    else do
      let _ ← removeMessage staleKey
      pure true

/-- Drop the oldest message of a sender, if it is stale. -/
def evictStaleForIdentity (identity : I) (now : Nat) : PoolM I Bool := do
  let pool ← get
  let staleCandidate :=
    (pool.evictionIndexByIdentity.lookup identity).bind fun identityIndex =>
      identityIndex.first.map fun entry => ((ofLex entry).1, (identity, (ofLex entry).2))
  evictCandidateIfStale staleCandidate now

def evictOneStaleForIdentityIfLimited (identity : I) (now : Nat) : PoolM I Bool := do
  let pool ← get
  if !pool.identityUsage.isAtLimit identity then pure false
  else evictStaleForIdentity identity now

/-- Make room: forget the message with the earliest deadline if it has passed, or else the
message number `choice`. -/
def evictBeforeAdmission (now choice : Nat) : PoolM I (Option EvictionKind) := do
  let pool ← get
  if pool.messages.keys.isEmpty then pure none
  else
    let candidate := pool.evictionIndex.first.map fun entry =>
      ((ofLex entry).1, ofLex (ofLex entry).2)
    if ← evictCandidateIfStale candidate now then pure (some .timeout)
    else
      let randomIndex := choice % pool.messages.keys.length
      match pool.messages.keys[randomIndex]? with
      | none => pure none
      | some key => do
        let _ ← removeMessage key
        pure (some .random)

def insertMessage (now : Nat) : PoolM I Unit :=
  modify fun pool =>
    let deadline := now + pool.cfg.messageTimeout
    { pool with
      messages := pool.messages.insert key (.new deadline)
      evictionIndex := pool.evictionIndex.insert (toLex (deadline, toLex key)) ()
      evictionIndexByIdentity :=
        pool.evictionIndexByIdentity.insert key.1
          (((pool.evictionIndexByIdentity.lookup key.1).getD ∅).insert
            (toLex (deadline, key.2)) ()) }

/-- Drop a message that cannot be put together. -/
def reject {α : Type} (key : MessageKey I) (error : DecodeError) : PoolM I α := do
  let _ ← removeMessage key
  throw error

/-- Number of fragments after this one: the last fragment tells it, but only once. -/
def learnTotal (state : MessageState) (input : FragmentInput I) : PoolM I (Option Nat) := do
  if input.fragmentType.isEnd then
    let newTotal ← ofChecked (Checked.add 16 input.seqNum.val 1)
    match state.totalFrags with
    | some expected => reject key (.conflictingEndMarker expected newTotal)
    | none => pure (some newTotal)
  else pure state.totalFrags

/-- Fragments come before the end of their message. -/
def ensureBelowTotal (seqNum : U16) (totalFrags : Option Nat) : PoolM I Unit :=
  match totalFrags with
  | none => pure ()
  | some total =>
    if seqNum.val < total then pure ()
    else do
      let actual ← ofChecked (Checked.add 16 seqNum.val 1)
      reject key (.conflictingEndMarker total actual)

/-- Add a fragment to its message. -/
def decode (input : FragmentInput I) : PoolM I DecodeOutcome := do
  let key := (input.identity, input.msgId)
  let fragmentSize := input.payload.length
  let pool ← get
  match pool.messages.lookup key with
  | none => throw .poolFull
  | some state => do
    if ¬ input.seqNum.val < maxFragments then
      reject key (.tooManyFragments (maxFragments + 1) maxFragments)
    if (state.fragments.lookup input.seqNum).isSome then
      throw (.duplicateFragment input.msgId input.seqNum)
    let totalFrags ← learnTotal key state input
    ensureBelowTotal key input.seqNum totalFrags
    let totalSize := state.totalSize + fragmentSize
    if ¬ (totalSize ≤ usizeMax ∧ totalSize ≤ pool.cfg.maxMessageSize.val) then
      reject key (.messageSizeExceeded (min totalSize usizeMax) pool.cfg.maxMessageSize.val)
    let state := { state with
      totalFrags := totalFrags
      totalSize := totalSize
      fragments := state.fragments.insert input.seqNum input.payload }
    set { pool with messages := pool.messages.insert key state }
    if state.totalFrags ≠ some (state.fragments.keys.length % 2 ^ 16) then pure .pending
    else do
      let state ← ofChecked (Checked.unwrap (← removeMessage key))
      pure (.complete state.extract)

/-- Make a place for a message, if need be that of another one. -/
def makePlace (now choice : Nat) (key : MessageKey I) : PoolM I Unit := do
  if (← get).admissionBlocked then
    let _ ← evictBeforeAdmission now choice
  if (← get).admissionBlocked then throw .poolFull
  insertMessage key now
  modify fun pool =>
    { pool with identityUsage := pool.identityUsage.incrementIdentityCount key.1 }

/-- Add a fragment; make a place for its message if there is none. -/
def decodeWithAdmission (now choice : Nat) (key : MessageKey I) (input : FragmentInput I) :
    PoolM I DecodeOutcome := do
  if !(← get).hasMessage key then makePlace now choice key
  decode input

end MessagePool

end Kinet.LeanUdp
