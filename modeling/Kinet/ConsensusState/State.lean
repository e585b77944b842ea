import Kinet.BlockTree.BlockTree
import Kinet.Consensus.NoEndorsementState
import Kinet.Consensus.Pacemaker
import Kinet.Consensus.VoteState

/-!
# The state of a consensus node

`ConsensusState` is the source's struct of that name together with what its
handlers borrow mutably.  The commands that a handler returns are appended to `log`,
together with events that say why they were issued.
-/

namespace Kinet

variable {K : TypeParams}

/-- A vote that waits for the vote timer, or a timer that waits for a vote. -/
inductive OutgoingVoteStatus (K : TypeParams) where
  | timerFired
  | voteReady (vote : Vote K)
deriving DecidableEq

structure BlockSyncRequestStatus (K : TypeParams) where
  range : BlockRange K
  /-- the request is cancelled once a block of this round is committed -/
  cancelRound : Nat
deriving DecidableEq

/-- What a node did. -/
inductive Event (K : TypeParams) where
  /-- a command was returned -/
  | command (cmd : ConsensusCommand K)
  /-- a vote was recorded in the safety state -/
  | cast (vote : Vote K) (tip : ConsensusTip K) (lastRoundTc : Option (TimeoutCertificate K))
  /-- the current round was timed out, with the highest certificate round then known -/
  | timedOut (info : TimeoutInfo) (highExtend : HighExtend K) (safeToVote : Bool)
      (highCertificateQcRound : Nat)
  /-- the tip of a recovery request was refused -/
  | refused (msg : NoEndorsement) (tip : ConsensusTip K)
  /-- a vote was given to the vote state, which returned `qc` -/
  | processedVote (earliestRound : Nat) (author : K.NodeId) (msg : VoteMessage K)
      (validators : ValidatorSet K) (mapping : ValidatorMapping K)
      (qc : Option (QuorumCertificate K))
  /-- a timeout certificate was built from timeouts of the validators -/
  | createdTc (tc : TimeoutCertificate K) (timeouts : List (K.NodeId × Timeout K))
      (validators : ValidatorSet K) (mapping : ValidatorMapping K)
  /-- a no-endorsement certificate was built -/
  | createdNec (nec : NoEndorsementCertificate K)

structure ConsensusState (K : TypeParams) where
  /-- blocks that wait to be committed -/
  pendingBlockTree : BlockTree K
  voteState : VoteState K
  noEndorsementState : NoEndorsementState K
  scheduledVote : Option (OutgoingVoteStatus K)
  safety : Safety K
  pacemaker : Pacemaker K
  blockSyncRequests : FiniteMap (BlockId K) (BlockSyncRequestStatus K)
  /-- the canonical coherent tip that was reported last -/
  canonicalProposedTip : Option (BlockId K)
  epochManager : EpochManager
  blockPolicy : K.BPT
  stateRead : K.ESRT
  /-- the local clock -/
  currentTime : Nat
  log : List (Event K)

/-- Handlers: state passing with failed assertions. -/
abbrev ConsensusM (K : TypeParams) := StateT (ConsensusState K) (Except Panic)

namespace ConsensusState

/-- State of a node that starts after `highCertificate`. -/
def new (epochManager : EpochManager) (root : RootInfo K) (highCertificate : RoundCertificate K)
    (blockPolicy : K.BPT) (stateRead : K.ESRT) (currentTime : Nat) :
    Except Panic (ConsensusState K) := do
  let pacemaker ← Pacemaker.new epochManager highCertificate
  pure
    { pendingBlockTree := BlockTree.new root
      voteState := VoteState.new pacemaker.getCurrentRound
      noEndorsementState := NoEndorsementState.new pacemaker.getCurrentRound
      scheduledVote := none
      safety := Safety.new highCertificate none
      pacemaker := pacemaker
      blockSyncRequests := ∅
      canonicalProposedTip := none
      epochManager := epochManager
      blockPolicy := blockPolicy
      stateRead := stateRead
      currentTime := currentTime
      log := [] }

def getCurrentRound (s : ConsensusState K) : Nat := s.pacemaker.getCurrentRound

def getCurrentEpoch (s : ConsensusState K) : Nat := s.pacemaker.currentEpoch

def record (events : List (Event K)) : ConsensusM K Unit :=
  modify fun s => { s with log := s.log ++ events }

def emit (cmd : ConsensusCommand K) : ConsensusM K Unit := record [.command cmd]

/-- A failure of the block tree stops the node. -/
def ofTree {α : Type} : Except TreePanic α → ConsensusM K α
  | .ok a => pure a
  | .error p => throw (.tree p)

section

open Effect

variable {E : Panic → Prop} {s : ConsensusState K}

@[simp]
lemma wp_record (events : List (Event K)) (Q : Unit → ConsensusState K → Prop) :
    wp (record events) Q E s ↔ Q () { s with log := s.log ++ events } :=
  Iff.rfl

@[simp]
lemma wp_emit (cmd : ConsensusCommand K) (Q : Unit → ConsensusState K → Prop) :
    wp (emit cmd) Q E s ↔ Q () { s with log := s.log ++ [.command cmd] } :=
  Iff.rfl

lemma wp_ofTree {α : Type} (x : Except TreePanic α) (Q : α → ConsensusState K → Prop) :
    wp (ofTree x) Q E s ↔ (∀ a, x = .ok a → Q a s) ∧ ∀ p, x = .error p → E (.tree p) := by
  cases x with
  | ok a | error p => simp [ofTree]

end

/-- Events of a pacemaker command; messages are signed here. -/
def fromPacemakerCommand (env : Env K) (highCertificateQcRound : Nat) :
    PacemakerCommand K → List (Event K)
  | .enterRound epoch round certificate =>
    [.command (.enterRound epoch round), .command (.publishToFullNodes epoch certificate.round
        ⟨env.version, .advanceRound ⟨certificate⟩⟩)]
  | .prepareTimeout info highExtend safeToVote lastRoundCertificate =>
    [.timedOut info highExtend safeToVote highCertificateQcRound,
      .command (.publish (.broadcast info.epoch) ⟨env.version,
          .timeout (Timeout.new env.certSign info highExtend safeToVote lastRoundCertificate)⟩)]
  | .schedule round duration => [.command (.schedule round duration)]
  | .scheduleReset => [.command .scheduleReset]

end ConsensusState

end Kinet
