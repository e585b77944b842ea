import Kinet.Validator.SignatureCollection
import Kinet.BlockTree.Tree

/-!
# What consensus is configured with

The failures that stop a node, the chain parameters, and the fixed environment of
a node: validator sets, leader election, keys, block validation and block policy.
-/

namespace Kinet

variable {K : TypeParams}

/-- A failed assertion or `expect` of the consensus code. -/
inductive Panic where
  | tree (p : TreePanic)
  | unsafeVote
  | unsafeNoEndorse
  | unsafeTimeout
  | unsafePropose
  | unsafeRecoveryRequest
  | unsafeHandleProposal
  | timeoutRoundMismatch
  | timeoutPhase
  | timeoutCollection
  | voteCollection
  | necExists
  | voteAlreadyScheduled
  | duplicateSigners
  | epochUnknown
  | validatorSetUnknown
  | authorKeyUnknown
  | epochConflict
  | emptyBlockRange
  | tipMismatch
  | tipMissing
  | tcMissing
  | stateSyncNeeded
  | outOfFuel
deriving DecidableEq

/-- The assertions of the round state machine. -/
def Panic.isAssertion : Panic → Bool
  | .unsafeVote => true
  | .unsafeNoEndorse => true
  | .unsafeTimeout => true
  | .unsafePropose => true
  | .unsafeRecoveryRequest => true
  | .unsafeHandleProposal => true
  | .timeoutRoundMismatch => true
  | .necExists => true
  | .voteAlreadyScheduled => true
  | _ => false

structure ChainParams where
  txLimit : Nat
  proposalGasLimit : Nat
  proposalByteLimit : Nat
  /-- minimum time between votes -/
  votePace : Nat
deriving DecidableEq

abbrev TimeoutGroups (K : TypeParams) :=
  List (TimeoutInfo × List (K.NodeId × K.SignatureType))

structure Env (K : TypeParams) where
  scheme : SignatureScheme K
  /-- iteration order of the hash map of timeout groups -/
  groupOrder : TimeoutGroups K → TimeoutGroups K
  groupOrder_perm : ∀ groups, (groupOrder groups).Perm groups
  valEpochMap : ValidatorsEpochMapping K
  /-- leader election -/
  getLeader : Nat → ValidatorSet K → K.NodeId
  nodeid : K.NodeId
  version : Nat
  /-- signing with the certificate key pair -/
  certSign : SignedMessage K → K.SignatureType
  signRound : Nat → K.SignatureType
  /-- signing of headers with the node's key pair -/
  signTip : ConsensusBlockHeader K → K.ST
  beneficiary : Nat
  delta : Nat
  /-- chain parameters in force at a round -/
  chainParams : Nat → ChainParams
  liveToStatesyncThreshold : Nat
  maxDeltaNs : Nat
  latencyEstimateNs : Nat
  policy : BlockPolicy K
  /-- checks of the block validator beyond the body id -/
  blockValid : ConsensusBlockHeader K → K.Body → K.CertPubKey → Bool

namespace Env

variable (env : Env K)

def getRoundTimer (round : Nat) : Nat :=
  env.delta * 3 + (env.chainParams round).votePace + env.delta

def validatorsOf (epoch : Nat) : Except Panic (ValidatorSet K × ValidatorMapping K) :=
  match env.valEpochMap.getValSet epoch, env.valEpochMap.getCertPubkeys epoch with
  | some validators, some mapping => .ok (validators, mapping)
  | _, _ => .error .validatorSetUnknown

/-- Leader of a round; the epoch and its validator set must be known. -/
def leaderOf (epochManager : EpochManager) (round : Nat) : Except Panic K.NodeId :=
  match epochManager.getEpoch round with
  | none => .error .epochUnknown
  | some epoch =>
    match env.valEpochMap.getValSet epoch with
    | none => .error .validatorSetUnknown
    | some validators => .ok (env.getLeader round validators)

/-- Validate a block whose author has the given key. -/
def validate (header : ConsensusBlockHeader K) (body : K.Body) (authorPubkey : K.CertPubKey) :
    Option (ConsensusFullBlock K) :=
  if env.blockValid header body authorPubkey then ConsensusFullBlock.new header body else none

end Env

/-! ## Block timestamps -/

/-- Direction in which the local clock deviates from a block's time. -/
inductive TimestampAdjustmentDirection where
  | forward
  | backward
deriving DecidableEq

/-- Deviation of the local clock from a block's time. -/
structure TimestampAdjustment where
  delta : Nat
  direction : TimestampAdjustmentDirection
deriving DecidableEq

namespace BlockTimestamp

/-- Addition of `u128` values that stops at the largest one. -/
def saturatingAdd (a b : Nat) : Nat := min (a + b) (2 ^ 128 - 1)

def getValidBlockTimestamp (localTimeNs prevBlockTs : Nat) : Nat :=
  if localTimeNs ≤ prevBlockTs then prevBlockTs + 1 else localTimeNs

def validBounds (env : Env K) (localTimeNs timestamp voteDelayNs : Nat) : Bool :=
  let maxDeltaNs := saturatingAdd env.maxDeltaNs voteDelayNs
  decide (localTimeNs - maxDeltaNs ≤ timestamp) &&
    decide (timestamp ≤ saturatingAdd localTimeNs maxDeltaNs)

/-- Check the time of a proposed block against its parent and the local clock. -/
def validBlockTimestamp (env : Env K) (localTimeNs prevBlockTs currBlockTs voteDelayNs : Nat)
    (isReproposal : Bool) : Option TimestampAdjustment :=
  if isReproposal then
    if prevBlockTs < currBlockTs ∧ currBlockTs < localTimeNs then some ⟨0, .forward⟩ else none
  else if currBlockTs ≤ prevBlockTs then none
  else if !validBounds env localTimeNs currBlockTs voteDelayNs then none
  else
    let deviation := (max localTimeNs currBlockTs - min localTimeNs currBlockTs)
    some ⟨deviation - env.latencyEstimateNs,
      if localTimeNs < currBlockTs then .forward else .backward⟩

end BlockTimestamp

end Kinet
