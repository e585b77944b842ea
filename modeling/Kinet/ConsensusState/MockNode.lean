import Kinet.ConsensusState.Node
import Kinet.Validator.MultiSig

/-!
# Mock nodes

Four nodes of equal stake with multi-signatures and the pass-through block policy, as
in the repository's tests, and the messages and certificates they exchange.
-/

namespace Kinet.Mock

open NopSignature

/-! ## Nodes -/

def stakes (stake : Nat) : FiniteMap Nat Nat :=
  ((((∅ : FiniteMap Nat Nat).insert 3 stake).insert 2 stake).insert 1 stake).insert 0 stake

def validators (stake : Nat) (hstake : 0 < stake) : ValidatorSet mockTypes where
  validators := stakes stake
  totalStake := stake + (stake + (stake + (stake + 0)))
  total_eq := rfl
  stake_pos := by
    intro id w h
    simp only [stakes, FiniteMap.lookup_insert_eq_ite, AList.lookup_empty] at h
    grind

/-- Every node's key is its id. -/
def keys : ValidatorMapping mockTypes :=
  ((((∅ : FiniteMap Nat Nat).insert 3 3).insert 2 2).insert 1 1).insert 0 0

def oneEpoch : ValidatorsEpochMapping mockTypes :=
  (∅ : ValidatorsEpochMapping mockTypes).insert 1 (validators 1 Nat.one_pos, keys)

/-- The environment of a node. -/
def env (valEpochMap : ValidatorsEpochMapping mockTypes)
    (getLeader : Nat → ValidatorSet mockTypes → Nat) (me : Nat) : Env mockTypes where
  scheme := multiSig
  groupOrder := id
  groupOrder_perm := fun _ => List.Perm.refl _
  valEpochMap := valEpochMap
  getLeader := getLeader
  nodeid := me
  version := 1
  certSign := sign me
  signRound := fun r => ⟨me, [r]⟩
  signTip := fun h => ⟨me, h.getId.encode⟩
  beneficiary := 0
  delta := 1
  chainParams := fun _ => ⟨0, 0, 0, 1⟩
  liveToStatesyncThreshold := 1000
  maxDeltaNs := 1000
  latencyEstimateNs := 1
  policy := passthruBlockPolicy
  blockValid := fun _ _ _ => true

def genesisQc : QuorumCertificate mockTypes := QuorumCertificate.genesisQc multiSig

def init (epochLength epochStartDelay : Nat) (hlength : 0 < epochLength) : NodeInit mockTypes where
  epochManager := ⟨epochLength, epochStartDelay, (∅ : FiniteMap Nat Nat).insert 1 0, hlength⟩
  root := ⟨0, 0, 1, .genesis, 0⟩
  highCertificate := .qc genesisQc
  blockPolicy := ()
  stateRead := ()
  currentTime := 100

/-! ## Certificates -/

def qc (id : BlockId mockTypes) (round : Nat) (signers : List Nat) : QuorumCertificate mockTypes :=
  ⟨⟨id, round, 1⟩, signers.map fun n => sign n (.vote ⟨id, round, 1⟩)⟩

/-- A group of timeouts with the same report: the round of its certificate, the round of
its tip, and who reports it. -/
structure Group where
  highQcRound : Nat
  highTipRound : Nat
  signers : List Nat

def tc (round : Nat) (groups : List Group) (highExtend : HighExtend mockTypes) :
    TimeoutCertificate mockTypes :=
  ⟨1, round, groups.map fun g => ⟨g.highQcRound, g.highTipRound, g.signers.map fun n =>
    sign n (.timeout ⟨1, round, g.highQcRound, g.highTipRound⟩)⟩, highExtend⟩

/-- The permission to propose a fresh block after a timeout certificate without a tip. -/
def noTip (tc : TimeoutCertificate mockTypes) (qc : QuorumCertificate mockTypes) :
    FreshProposalCertificate mockTypes :=
  .noTip ⟨tc.epoch, tc.round, tc.tipRounds, qc⟩

def firstTc : TimeoutCertificate mockTypes := tc 1 [⟨0, 0, [0, 1, 3]⟩] (.qc genesisQc)

/-! ## Blocks and messages -/

/-- A header of epoch 1 proposed by node 3; its body tells blocks of one round apart. -/
def header (blockRound seqNum : Nat) (qc : QuorumCertificate mockTypes) (body : List Nat) :
    ConsensusBlockHeader mockTypes where
  blockRound := blockRound
  epoch := 1
  qc := qc
  author := 3
  seqNum := seqNum
  timestampNs := blockRound
  roundSignature := ⟨3, [blockRound]⟩
  delayedExecutionResults := []
  executionInputs := ()
  blockBodyId := body
  baseFee := 0
  baseFeeTrend := 0
  baseFeeMoment := 0

def tip (header : ConsensusBlockHeader mockTypes)
    (freshCertificate : Option (FreshProposalCertificate mockTypes)) : ConsensusTip mockTypes :=
  ⟨header, ⟨header.author, header.getId.encode⟩, freshCertificate⟩

def proposal (round : Nat) (tip : ConsensusTip mockTypes)
    (lastRoundTc : Option (TimeoutCertificate mockTypes)) : ConsensusMessage mockTypes :=
  ⟨1, .proposal ⟨round, 1, tip, tip.blockHeader.blockBodyId, lastRoundTc⟩⟩

def advanceRound (certificate : RoundCertificate mockTypes) : ConsensusMessage mockTypes :=
  ⟨1, .advanceRound ⟨certificate⟩⟩

def timeout (sender : Nat) (info : TimeoutInfo) (highExtend : HighExtend mockTypes)
    (lastRoundCertificate : Option (RoundCertificate mockTypes)) : ConsensusMessage mockTypes :=
  ⟨1, .timeout (Timeout.new (sign sender) info highExtend false lastRoundCertificate)⟩

def node0 : Env mockTypes := env oneEpoch (fun _ _ => 3) 0

/-- Receive a message of node 3 and handle it after the vote timer; `index` messages were
validated before. -/
def deliver (index : Nat) (m : ConsensusMessage mockTypes) : List (NodeInput mockTypes) :=
  [.receive 3 m, .voteTimer, .handle index]

/-! ## A hidden block -/

/-- A block of round 2. -/
def secondTip : ConsensusTip mockTypes :=
  tip (header 2 1 genesisQc [2]) (some (noTip firstTc genesisQc))

def secondQc : QuorumCertificate mockTypes := qc secondTip.blockHeader.getId 2 [0, 1, 3]

/-- A block of round 3 that only node 3 knows. -/
def hiddenTip : ConsensusTip mockTypes := tip (header 3 2 secondQc [3]) none

/-- A timeout certificate of round 3 in which node 3 reports the hidden block. -/
def hiddenTc : TimeoutCertificate mockTypes :=
  tc 3 [⟨2, 0, [1, 2]⟩, ⟨2, 3, [3]⟩] (.tip hiddenTip)

end Kinet.Mock
