import Kinet.BlockTree.Provenance
import Kinet.Consensus.Validity
import Kinet.ConsensusState.Handlers

/-!
# Elementary steps of a node

`Step` lists everything that a handler can do to the protocol state, one constructor
for each kind of change, with the conditions under which the code makes it.  The
invariants of a node are proved for single steps; the next module shows that the
handlers take no other steps.
-/

namespace Kinet

open Event

variable {K : TypeParams}

/-- Events that say nothing about votes, timeouts, refusals, proposals and commits. -/
def Event.isQuiet : Event K → Bool
  | .command (.publish _ ⟨_, .advanceRound _⟩) => true
  | .command (.publish _ _) => false
  | .command (.createProposal _) => false
  | .command (.commitBlocks (.finalized _)) => false
  | .command _ => true
  | _ => false

namespace ConsensusState

variable (T : Trust K) (s : ConsensusState K)

/-- A quorum certificate that is good, or that the node built itself. -/
def Known (qc : QuorumCertificate K) : Prop :=
  T.qc qc ∨ ∃ earliest author msg validators mapping,
    processedVote earliest author msg validators mapping (some qc) ∈ s.log

/-- The certificates of the blocks in the tree are good. -/
def TreeOk : Prop :=
  s.pendingBlockTree.tree.Holds fun b => T.block b.getQc

/-- The block is an ancestor of a block that two certificates of consecutive rounds
commit. -/
def Commits (id : BlockId K) : Prop :=
  ∃ (qc : QuorumCertificate K) (parent : ConsensusBlockHeader K),
    (s.Known T qc ∨ T.block qc) ∧ T.block parent.qc ∧ qc.info.id = parent.getId ∧
      qc.info.round = parent.qc.info.round + 1 ∧ parent.getParentId.Extends id

/-- Changes to the block tree, the block requests and what depends on them. -/
structure Background (T : Trust K) (s s' : ConsensusState K) : Prop where
  voteState : s'.voteState = s.voteState
  noEndorsementState : s'.noEndorsementState = s.noEndorsementState
  scheduledVote : s'.scheduledVote = s.scheduledVote
  safety : s'.safety = s.safety
  pacemaker : s'.pacemaker = s.pacemaker
  treeOk : s'.TreeOk T
  log : ∃ events, s'.log = s.log ++ events ∧ ∀ e ∈ events, e.isQuiet = true ∨
    ∃ b, e = .command (.commitBlocks (.finalized b)) ∧ s.Commits T b.getId

/-- What a leader proposes. -/
inductive Proposes (env : Env K) (s : ConsensusState K) : Event K → Prop where
  /-- the tip of the last timeout certificate is proposed again -/
  | again {tc : TimeoutCertificate K} {tip : ConsensusTip K} {block : ConsensusFullBlock K}
      (hcert : s.pacemaker.highCertificate = .tc tc) (htip : tc.highExtend = .tip tip)
      (hblock : s.pendingBlockTree.getBlock tip.blockHeader.getId = some block) :
      Proposes env s (.command (.publish (.raptorcast s.getCurrentRound s.getCurrentEpoch)
        ⟨env.version, .proposal ⟨s.getCurrentRound, s.getCurrentEpoch, tip, block.body, some tc⟩⟩))
  /-- a fresh block is requested -/
  | fresh {cmd : CreateProposal K} {validators : ValidatorSet K}
      (hround : cmd.round = s.getCurrentRound)
      (hinputs : s.proposalInputs = (.qc cmd.highQc, cmd.freshProposalCertificate, cmd.lastRoundTc))
      (hvalidators : env.valEpochMap.getValSet cmd.epoch = some validators)
      (hleader : env.nodeid = env.getLeader cmd.round validators) :
      Proposes env s (.command (.createProposal cmd))

def VoteSent (T : Trust K) (author : K.NodeId) (msg : VoteMessage K) : Prop :=
  T.sent author (.vote msg) ∨ ∃ (t : Timeout K) (tip : ConsensusTip K), T.sent author (.timeout t) ∧
      t.highExtend = .tip tip (some msg.sig) ∧
      msg.vote = ⟨tip.blockHeader.getId, t.tminfo.round, t.tminfo.epoch⟩

/-- What the handlers do, one change at a time. -/
inductive Step (env : Env K) (T : Trust K) : ConsensusState K → ConsensusState K → Prop where
  | background {s s' : ConsensusState K} (h : Background T s s') : Step env T s s'
  /-- a certificate starts its next round -/
  | certificate {s : ConsensusState K} {c : RoundCertificate K} {epoch : Nat}
      {events : List (Event K)} (hround : s.getCurrentRound ≤ c.round)
      (hcert : T.roundCertificate c ∨ ∃ qc, c = .qc qc ∧ s.Known T qc)
      (hquiet : ∀ e ∈ events, e.isQuiet = true) :
      Step env T s { s with
        pacemaker := .entered epoch c
        safety := s.safety.processCertificate c
        log := s.log ++ events }
  /-- the collectors forget the old rounds -/
  | startNewRound {s : ConsensusState K}
      (hearliest : s.voteState.earliestRound ≤ s.getCurrentRound) :
      Step env T s { s with
        voteState := s.voteState.startNewRound s.getCurrentRound
        noEndorsementState := s.noEndorsementState.startNewRound s.getCurrentRound }
  /-- a proposal of the current round is voted for -/
  | cast {s : ConsensusState K} {author : K.NodeId} {p : ProposalMessage K}
      (hsent : T.sent author (.proposal p)) (hmsg : T.message s.getCurrentRound (.proposal p))
      (hround : p.proposalRound = s.getCurrentRound)
      (hqc : p.tip.blockHeader.qc.getRound < s.getCurrentRound)
      (hsafe : s.safety.isSafeToVote s.getCurrentRound (tcTip p.lastRoundTc) = true) :
      Step env T s { s with
        safety := s.safety.voted s.getCurrentRound p.tip
        log := s.log ++ [.cast ⟨p.tip.blockHeader.getId, s.getCurrentRound, s.getCurrentEpoch⟩
          p.tip p.lastRoundTc] }
  /-- a vote that was cast is sent -/
  | publishVote {s : ConsensusState K} {v : Vote K} {target : RouterTarget K}
      {tip : ConsensusTip K} {lastRoundTc : Option (TimeoutCertificate K)}
      (hcast : cast v tip lastRoundTc ∈ s.log) :
      Step env T s { s with
        log := s.log ++ [.command (.publish target
          ⟨env.version, .vote (VoteMessage.new v env.certSign)⟩)] }
  /-- the vote timer or a vote that waits for it is recorded or cleared -/
  | schedule {s : ConsensusState K} {status : Option (OutgoingVoteStatus K)}
      {events : List (Event K)} (hquiet : ∀ e ∈ events, e.isQuiet = true)
      (hready : ∀ v, status = some (.voteReady v) → v.round ≤ s.safety.highestVote ∧
        ∃ tip lastRoundTc, cast v tip lastRoundTc ∈ s.log) :
      Step env T s { s with scheduledVote := status, log := s.log ++ events }
  /-- the current round is timed out -/
  | timeout {s : ConsensusState K} (hvote : s.safety.highestVote ≤ s.getCurrentRound) :
      Step env T s { s with
        pacemaker := { s.pacemaker with phase := .one }
        safety := { s.safety with highestVote := s.getCurrentRound }
        log := s.log ++ (s.pacemaker.timeoutCommands env s.safety
          (s.safety.safeToIncludeVote s.getCurrentRound)).flatMap
            (fromPacemakerCommand env s.safety.highCertificateQcRound) }
  /-- a timeout of the current round is collected -/
  | collectTimeout {s : ConsensusState K} {author : K.NodeId} {t : Timeout K}
      (hsent : T.sent author (.timeout t)) (hmsg : T.message s.getCurrentRound (.timeout t))
      (hround : t.tminfo.round = s.getCurrentRound)
      (hqc : t.highExtend.getQc.getRound < s.getCurrentRound) :
      Step env T s { s with
        pacemaker := { s.pacemaker with
          pendingTimeouts := s.pacemaker.pendingTimeouts.insert author t } }
  /-- timeouts with invalid signatures are dropped -/
  | dropTimeouts {s : ConsensusState K} {invalid : List (K.NodeId × K.SignatureType)} :
      Step env T s { s with pacemaker := s.pacemaker.handleInvalidTimeout invalid }
  /-- the pending timeouts become a certificate -/
  | buildTc {s : ConsensusState K} {validators : ValidatorSet K} {mapping : ValidatorMapping K}
      {lookupEpoch tcEpoch epoch : Nat} {tc : TimeoutCertificate K} {events : List (Event K)}
      (hlookup : env.valEpochMap.lookup lookupEpoch = some (validators, mapping))
      (hmaj : validators.hasSuperMajorityVotes
        (s.pacemaker.pendingTimeouts.sortedPairs.map Prod.fst) = .ok true)
      (hnew : TimeoutCertificate.new env.scheme env.groupOrder tcEpoch s.getCurrentRound
        s.pacemaker.pendingTimeouts.sortedPairs mapping = .ok tc)
      (hquiet : ∀ e ∈ events, e.isQuiet = true) :
      Step env T s { s with
        pacemaker := .entered epoch (.tc tc)
        safety := s.safety.processCertificate (.tc tc)
        log := s.log ++ (events ++
          [.createdTc tc s.pacemaker.pendingTimeouts.sortedPairs validators mapping]) }
  /-- the tip of a recovery request of the current round's leader is refused -/
  | refuse {s : ConsensusState K} {author : K.NodeId} {m : RoundRecoveryMessage K} {epoch : Nat}
      {validators : ValidatorSet K} {tip : ConsensusTip K}
      (hsent : T.sent author (.roundRecovery m))
      (hmsg : T.message s.getCurrentRound (.roundRecovery m))
      (hround : m.round = s.getCurrentRound) (htip : m.tc.highExtend = .tip tip)
      (hvalidators : env.valEpochMap.getValSet epoch = some validators)
      (hleader : author = env.getLeader s.getCurrentRound validators)
      (hsafe : s.safety.isSafeToNoEndorse m.round = true) :
      Step env T s { s with
        safety := { s.safety with highestNoEndorse := ⟨m.round, tip.blockHeader.getId⟩ }
        log := s.log ++ [.refused ⟨epoch, m.round, tip.blockHeader.qc.getRound⟩ tip,
          .command (.publish (.pointToPoint author) ⟨env.version, .noEndorsement
            (NoEndorsementMessage.new ⟨epoch, m.round, tip.blockHeader.qc.getRound⟩
              env.certSign)⟩)] }
  /-- a vote of another node is processed -/
  | vote {s : ConsensusState K} {author : K.NodeId} {msg : VoteMessage K}
      {validators : ValidatorSet K} {mapping : ValidatorMapping K} {lookupEpoch : Nat}
      {qc : Option (QuorumCertificate K)} {voteState : VoteState K}
      (hsent : VoteSent T author msg) (hround : s.getCurrentRound ≤ msg.vote.round)
      (hlookup : env.valEpochMap.lookup lookupEpoch = some (validators, mapping))
      (hprocess : s.voteState.processVote env.scheme author msg validators mapping =
        .ok (qc, voteState)) :
      Step env T s { s with
        voteState := voteState
        log := s.log ++
          [.processedVote s.voteState.earliestRound author msg validators mapping qc] }
  /-- a refusal of another node is processed -/
  | noEndorsement {s : ConsensusState K} {author : K.NodeId} {msg : NoEndorsementMessage K}
      {validators : ValidatorSet K} {mapping : ValidatorMapping K} {lookupEpoch : Nat}
      {nec : Option (NoEndorsementCertificate K)} {noEndorsementState : NoEndorsementState K}
      (hsent : T.sent author (.noEndorsement msg)) (hround : msg.msg.round = s.getCurrentRound)
      (hlookup : env.valEpochMap.lookup lookupEpoch = some (validators, mapping))
      (hprocess : s.noEndorsementState.processNoEndorsement env.scheme author msg validators
        mapping = .ok (nec, noEndorsementState)) :
      Step env T s { s with
        noEndorsementState := noEndorsementState
        log := s.log ++ nec.toList.map .createdNec }
  /-- the leader of the current round proposes -/
  | propose {s : ConsensusState K} {stateRead : K.ESRT} {e : Event K}
      (hsafe : s.safety.isSafeToPropose s.getCurrentRound = true) (hproposes : Proposes env s e) :
      Step env T s { s with
        stateRead := stateRead
        safety := { s.safety with highestPropose := s.getCurrentRound }
        log := s.log ++ [e] }
  /-- the leader of the current round asks to refuse the tip of the last timeout
  certificate -/
  | requestRecovery {s : ConsensusState K} {tc : TimeoutCertificate K} {tip : ConsensusTip K}
      (hcert : s.pacemaker.highCertificate = .tc tc) (htip : tc.highExtend = .tip tip) :
      Step env T s { s with
        safety := { s.safety with highestRecoveryRequest := s.getCurrentRound }
        log := s.log ++ [.command (.publish (.broadcast s.getCurrentEpoch)
          ⟨env.version, .roundRecovery ⟨s.getCurrentRound, s.getCurrentEpoch, tc⟩⟩)] }
  /-- the round of a handled proposal is recorded -/
  | handleProposal {s : ConsensusState K} {rounds : List Nat} :
      Step env T s { s with safety := { s.safety with handledProposals := rounds } }

  /-- the block that the transaction pool built for a request is proposed -/
  | mempool {s : ConsensusState K} {cmd : CreateProposal K} {m : MempoolProposal K}
      (hcmd : command (.createProposal cmd) ∈ s.log) :
      Step env T s { s with
        log := s.log ++ [.command (.publish (.raptorcast cmd.round cmd.epoch)
          ⟨env.version, .proposal (m.assemble env cmd)⟩)] }

abbrev Steps (env : Env K) (T : Trust K) : ConsensusState K → ConsensusState K → Prop :=
  Relation.ReflTransGen (Step env T)

/-! ## The round and the log only grow -/

section

variable {env : Env K} {T} {s s' : ConsensusState K}

lemma Step.log_append (h : Step env T s s') : ∃ events, s'.log = s.log ++ events := by
  cases h with
  | background h =>
    obtain ⟨events, hlog, _⟩ := h.log
    exact ⟨events, hlog⟩
  | startNewRound _ | collectTimeout _ _ _ _
  | dropTimeouts | handleProposal => exact ⟨[], (List.append_nil _).symm⟩
  | _ => exact ⟨_, rfl⟩

lemma Step.mem_log (h : Step env T s s') {e : Event K} (he : e ∈ s.log) : e ∈ s'.log := by
  obtain ⟨events, hlog⟩ := h.log_append
  rw [hlog]
  exact List.mem_append_left _ he

lemma Known.mono (hlog : ∀ e ∈ s.log, e ∈ s'.log) {qc : QuorumCertificate K}
    (h : s.Known T qc) : s'.Known T qc := by
  rcases h with hgood | ⟨earliest, author, msg, validators, mapping, hmem⟩
  · exact Or.inl hgood
  · exact Or.inr ⟨earliest, author, msg, validators, mapping, hlog _ hmem⟩

/-- The current round never decreases. -/
theorem Step.round_le (h : Step env T s s') : s.getCurrentRound ≤ s'.getCurrentRound := by
  cases h with
  | background h => rw [getCurrentRound, getCurrentRound, h.pacemaker]
  | certificate hround _ _ => exact Nat.le_succ_of_le hround
  | buildTc _ _ hnew _ =>
    have hround := (TimeoutCertificate.new_eq_ok hnew).2.1
    change s.getCurrentRound ≤ (RoundCertificate.tc _).round + 1
    rw [RoundCertificate.round, hround]
    exact Nat.le_succ _
  | _ => exact le_rfl

end

/-! ## The invariant behind the assertions -/

/-- Votes are not ahead of the current round, a waiting vote was cast, and rounds with
a no-endorsement certificate are closed. -/
structure Ok (T : Trust K) (s : ConsensusState K) : Prop where
  tree : s.TreeOk T
  vote_le : s.safety.highestVote ≤ s.getCurrentRound
  scheduled : ∀ v, s.scheduledVote = some (.voteReady v) → v.round ≤ s.safety.highestVote ∧
    ∃ tip lastRoundTc, cast v tip lastRoundTc ∈ s.log
  certified : s.noEndorsementState.CertifiedRoundsOver

section

variable {env : Env K} {T : Trust K} {s s' : ConsensusState K}

/-- A step keeps the invariant if it keeps the tree and the collectors, does not lower
the last vote, and does not raise it above the current round. -/
lemma Ok.of_le (hok : s.Ok T) (htree : s'.pendingBlockTree = s.pendingBlockTree)
    (hnec : s'.noEndorsementState = s.noEndorsementState)
    (hscheduled : s'.scheduledVote = s.scheduledVote) (hlog : ∀ e ∈ s.log, e ∈ s'.log)
    (hle : s.safety.highestVote ≤ s'.safety.highestVote)
    (hround : s'.safety.highestVote ≤ s'.getCurrentRound) : s'.Ok T where
  tree := by
    unfold TreeOk
    rw [htree]
    exact hok.tree
  vote_le := hround
  scheduled := by
    intro v hv
    rw [hscheduled] at hv
    obtain ⟨hvote, tip, lastRoundTc, hcast⟩ := hok.scheduled v hv
    exact ⟨le_trans hvote hle, tip, lastRoundTc, hlog _ hcast⟩
  certified := by
    rw [hnec]
    exact hok.certified

/-- Every step keeps the invariant. -/
theorem Step.ok (h : Step env T s s') (hok : s.Ok T) : s'.Ok T := by
  have hlog : ∀ e ∈ s.log, e ∈ s'.log := fun _ he => h.mem_log he
  have hround : s.getCurrentRound ≤ s'.getCurrentRound := h.round_le
  cases h with
  | background h =>
    refine ⟨h.treeOk, ?_, ?_, ?_⟩
    · rw [h.safety]
      exact le_trans hok.vote_le hround
    · intro v hv
      rw [h.scheduledVote] at hv
      obtain ⟨hvote, tip, lastRoundTc, hcast⟩ := hok.scheduled v hv
      exact ⟨by rw [h.safety]; exact hvote, tip, lastRoundTc, hlog _ hcast⟩
    · rw [h.noEndorsementState]
      exact hok.certified
  | startNewRound _ =>
    exact ⟨hok.tree, hok.vote_le, hok.scheduled, hok.certified.startNewRound _⟩
  | noEndorsement _ _ _ hprocess =>
    refine ⟨hok.tree, hok.vote_le, fun v hv => ?_, ?_⟩
    · obtain ⟨hvote, tip, lastRoundTc, hcast⟩ := hok.scheduled v hv
      exact ⟨hvote, tip, lastRoundTc, hlog _ hcast⟩
    · exact (NoEndorsementState.processNoEndorsement_spec hprocess).certifiedRoundsOver
        hok.certified
  | schedule _ hready =>
    refine ⟨hok.tree, hok.vote_le, fun v hv => ?_, hok.certified⟩
    obtain ⟨hvote, tip, lastRoundTc, hcast⟩ := hready v hv
    exact ⟨hvote, tip, lastRoundTc, hlog _ hcast⟩
  | cast _ _ _ _ hsafe =>
    exact hok.of_le rfl rfl rfl hlog (le_of_lt (Safety.lt_of_isSafeToVote hsafe))
      le_rfl
  | timeout _ => exact hok.of_le rfl rfl rfl hlog hok.vote_le le_rfl
  | _ => exact hok.of_le rfl rfl rfl hlog le_rfl (le_trans hok.vote_le hround)

theorem Steps.ok (h : Steps env T s s') (hok : s.Ok T) : s'.Ok T := by
  induction h with
  | refl => exact hok
  | tail _ hstep ih => exact hstep.ok ih

end

end ConsensusState

end Kinet
