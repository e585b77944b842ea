import Kinet.Consensus.Config

/-!
# Messages and commands

The messages that nodes exchange, and the commands that the consensus state
machine gives to the rest of the node.
-/

namespace Kinet

variable {K : TypeParams}

structure VoteMessage (K : TypeParams) where
  vote : Vote K
  sig : K.SignatureType
deriving DecidableEq

def VoteMessage.new (vote : Vote K) (sign : SignedMessage K → K.SignatureType) : VoteMessage K :=
  ⟨vote, sign (.vote vote)⟩

/-- Proposal of a fresh block or of the tip of the last timeout certificate. -/
structure ProposalMessage (K : TypeParams) where
  proposalRound : Nat
  proposalEpoch : Nat
  tip : ConsensusTip K
  blockBody : K.Body
  lastRoundTc : Option (TimeoutCertificate K)
deriving DecidableEq

/-- A certificate that lets other nodes enter the next round. -/
structure AdvanceRoundMessage (K : TypeParams) where
  lastRoundCertificate : RoundCertificate K
deriving DecidableEq

/-- Request of a leader that cannot propose the tip of the last timeout
certificate. -/
structure RoundRecoveryMessage (K : TypeParams) where
  round : Nat
  epoch : Nat
  tc : TimeoutCertificate K
deriving DecidableEq

/-- Refusal of one node. -/
structure NoEndorsementMessage (K : TypeParams) where
  msg : NoEndorsement
  signature : K.SignatureType
deriving DecidableEq

/-- Refusal signed by this node. -/
def NoEndorsementMessage.new (noEndorsement : NoEndorsement)
    (sign : SignedMessage K → K.SignatureType) : NoEndorsementMessage K :=
  ⟨noEndorsement, sign (.noEndorsement noEndorsement)⟩

inductive ProtocolMessage (K : TypeParams) where
  | proposal (m : ProposalMessage K)
  | vote (m : VoteMessage K)
  | timeout (m : Timeout K)
  | roundRecovery (m : RoundRecoveryMessage K)
  | noEndorsement (m : NoEndorsementMessage K)
  | advanceRound (m : AdvanceRoundMessage K)
deriving DecidableEq

/-- Round whose epoch a message is verified against. -/
def ProtocolMessage.getRound : ProtocolMessage K → Nat
  | .proposal m => m.proposalRound
  | .vote m => m.vote.round
  | .timeout m => m.tminfo.round
  | .roundRecovery m => m.round
  | .noEndorsement m => m.msg.round
  | .advanceRound m => m.lastRoundCertificate.round

/-- Why a message is dropped before it is validated. -/
inductive PrefilterError where
  | outdatedProposal
  | outdatedVote
  | outdatedTimeout
  | outdatedRoundRecovery
  | outdatedNoEndorsement
  | outdatedAdvanceRoundQc
  | outdatedAdvanceRoundTc
deriving DecidableEq

/-- Reject a message of an earlier round.  Proposals are compared with the root, since
they may arrive out of order. -/
def ProtocolMessage.prefilter (rootInfo : Option (RootInfo K)) (currentRound : Nat) :
    ProtocolMessage K → Except PrefilterError Unit
  | .proposal m =>
    match rootInfo with
    | some root => if m.proposalRound ≤ root.round then .error .outdatedProposal else .ok ()
    | none => .ok ()
  | .vote m => if m.vote.round < currentRound then .error .outdatedVote else .ok ()
  | .timeout m => if m.tminfo.round < currentRound then .error .outdatedTimeout else .ok ()
  | .roundRecovery m => if m.round < currentRound then .error .outdatedRoundRecovery else .ok ()
  | .noEndorsement m =>
    if m.msg.round < currentRound then .error .outdatedNoEndorsement else .ok ()
  | .advanceRound m =>
    if m.lastRoundCertificate.round < currentRound then
      match m.lastRoundCertificate with
      | .qc _ => .error .outdatedAdvanceRoundQc
      | .tc _ => .error .outdatedAdvanceRoundTc
    else .ok ()

structure ConsensusMessage (K : TypeParams) where
  version : Nat
  message : ProtocolMessage K
deriving DecidableEq

inductive RouterTarget (K : TypeParams) where
  | broadcast (epoch : Nat)
  | pointToPoint (node : K.NodeId)
  | raptorcast (round epoch : Nat)

/-- Blocks reported to the ledger, by how final they are. -/
inductive OptimisticPolicyCommit (K : TypeParams) where
  | proposed (block : ConsensusFullBlock K) (isCanonical : Bool)
  | voted (block : ConsensusFullBlock K)
  | finalized (block : ConsensusFullBlock K)

/-- What the transaction pool needs to build a fresh block. -/
structure CreateProposal (K : TypeParams) where
  nodeId : K.NodeId
  epoch : Nat
  round : Nat
  seqNum : Nat
  highQc : QuorumCertificate K
  roundSignature : K.SignatureType
  lastRoundTc : Option (TimeoutCertificate K)
  freshProposalCertificate : Option (FreshProposalCertificate K)
  txLimit : Nat
  proposalGasLimit : Nat
  proposalByteLimit : Nat
  beneficiary : Nat
  timestampNs : Nat
  extendingBlocks : List (ConsensusFullBlock K)
  delayedExecutionResults : List K.FinalizedHeader

inductive ConsensusCommand (K : TypeParams) where
  | enterRound (epoch round : Nat)
  | publish (target : RouterTarget K) (message : ConsensusMessage K)
  | publishToFullNodes (epoch round : Nat) (message : ConsensusMessage K)
  | schedule (round duration : Nat)
  | scheduleReset
  | createProposal (p : CreateProposal K)
  | commitBlocks (commit : OptimisticPolicyCommit K)
  | requestSync (lastBlockId : BlockId K) (numBlocks : Nat)
  | cancelSync (lastBlockId : BlockId K) (numBlocks : Nat)
  | scheduleVote (duration round : Nat)

end Kinet
