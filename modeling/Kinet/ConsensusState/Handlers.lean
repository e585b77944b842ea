import Kinet.ConsensusState.State

/-!
# The consensus handlers

The handlers of `ConsensusStateWrapper`, in the order in which they call one
another.  Metrics and trace output are left out.
-/

namespace Kinet

open BlockTimestamp

variable {K : TypeParams}

/-- A block built by the transaction pool. -/
structure MempoolProposal (K : TypeParams) where
  executionInputs : K.ProposedHeader
  body : K.Body
  baseFee : Nat
  baseFeeTrend : Nat
  baseFeeMoment : Nat

def MempoolProposal.assemble (env : Env K) (cmd : CreateProposal K) (m : MempoolProposal K) :
    ProposalMessage K :=
  let header : ConsensusBlockHeader K :=
    { blockRound := cmd.round, epoch := cmd.epoch, qc := cmd.highQc, author := env.nodeid,
      seqNum := cmd.seqNum, timestampNs := cmd.timestampNs, roundSignature := cmd.roundSignature,
      delayedExecutionResults := cmd.delayedExecutionResults,
      executionInputs := m.executionInputs, blockBodyId := K.bodyGetId m.body,
      baseFee := m.baseFee, baseFeeTrend := m.baseFeeTrend, baseFeeMoment := m.baseFeeMoment }
  { proposalRound := cmd.round, proposalEpoch := cmd.epoch,
    tip := ⟨header, env.signTip header, cmd.freshProposalCertificate⟩, blockBody := m.body,
    lastRoundTc := cmd.lastRoundTc }

namespace ConsensusState

variable (env : Env K)

/-! ## Block requests -/

/-- Ask for the blocks between the root and the highest certificate. -/
def requestBlocksIfMissingAncestor : ConsensusM K Unit := do
  let s ← get
  let highQc := s.pacemaker.highCertificate.getQc
  match ← ofTree (s.pendingBlockTree.maybeFillPathToRoot highQc) with
  | none => pure ()
  | some range =>
    if range.numBlocks = 0 then throw .emptyBlockRange
    else if range.lastBlockId ∈ s.blockSyncRequests then pure ()
    else do
      set { s with
        blockSyncRequests :=
          s.blockSyncRequests.insert range.lastBlockId ⟨range, highQc.getRound⟩ }
      emit (.requestSync range.lastBlockId range.numBlocks)

/-- Ask for the block of the highest tip. -/
def requestTipIfMissing : ConsensusM K Unit := do
  let s ← get
  match s.pacemaker.highCertificate with
  | .qc _ => pure ()
  | .tc tc =>
    match tc.highExtend with
    | .qc _ => pure ()
    | .tip tip =>
      let tipId := tip.blockHeader.getId
      if (s.pendingBlockTree.getBlock tipId).isSome then pure ()
      else if tipId ∈ s.blockSyncRequests then pure ()
      else do
        set { s with
          blockSyncRequests :=
            s.blockSyncRequests.insert tipId ⟨⟨tipId, 1⟩, tip.blockHeader.blockRound⟩ }
        emit (.requestSync tipId 1)

def cancelObsoleteRequests : ConsensusM K Unit := do
  let s ← get
  let root := s.pendingBlockTree.root.info.round
  let toCancel := s.blockSyncRequests.pairs.filter fun e => e.2.cancelRound ≤ root
  set { s with
    blockSyncRequests := s.blockSyncRequests.retain fun _ status => !(status.cancelRound ≤ root) }
  record (toCancel.map fun e => .command (.cancelSync e.2.range.lastBlockId e.2.range.numBlocks))

/-! ## Commits -/

/-- Report a finalized block; the last block of an epoch schedules the next one. -/
def commitBlock (block : ConsensusFullBlock K) : ConsensusM K Unit := do
  let s ← get
  match s.epochManager.scheduleEpochStart block.getSeqNum block.getBlockRound with
  | none => throw .epochConflict
  | some epochManager => do
    set { s with
      blockPolicy := env.policy.updateCommittedBlock s.blockPolicy block
      epochManager := epochManager }
    emit (.commitBlocks (.finalized block))

/-- Commit the parent of the block that `qc` certifies, if their certificates are of
consecutive rounds. -/
def tryCommit (qc : QuorumCertificate K) : ConsensusM K Unit := do
  let s ← get
  match s.pendingBlockTree.getBlock qc.getBlockId with
  | none => pure ()
  | some qcParent =>
    match ← ofTree (qc.getCommittableId qcParent.header) with
    | none => pure ()
    | some committableBlockId =>
      if !s.pendingBlockTree.isCoherent committableBlockId then pure ()
      else do
        let (blocksToCommit, tree) ← ofTree (s.pendingBlockTree.prune committableBlockId)
        set { s with pendingBlockTree := tree }
        forM blocksToCommit (commitBlock env)

/-- Hand on the canonical coherent tip, if it is a new one. -/
def updateProposedHead : ConsensusM K Unit := do
  let s ← get
  let canonicalTipId :=
    s.pendingBlockTree.getCanonicalCoherentTip s.pacemaker.highCertificate.getQc
  if s.canonicalProposedTip = some canonicalTipId then pure ()
  else
    match s.pendingBlockTree.getBlock canonicalTipId with
    | none => pure ()
    | some block => do
      set { s with canonicalProposedTip := some canonicalTipId }
      emit (.commitBlocks (.proposed block true))

/-- Mark blocks that have become coherent and commit what the tree allows. -/
def tryUpdateCoherency (updatedBlockId : BlockId K) : ConsensusM K Unit := do
  let s ← get
  let (newlyCoherent, tree, stateRead) ←
    ofTree (s.pendingBlockTree.tryUpdateCoherency env.policy s.blockPolicy s.stateRead
      updatedBlockId)
  set { s with pendingBlockTree := tree, stateRead := stateRead }
  record (newlyCoherent.map fun block => .command (.commitBlocks (.proposed block false)))
  updateProposedHead
  let s ← get
  match ← ofTree s.pendingBlockTree.getHighCommittableQc with
  | none => pure ()
  | some qc => tryCommit env qc

/-- Stop a node that is too far behind to catch up with block requests. -/
def maybeStatesync : ConsensusM K Unit := do
  let s ← get
  match s.pendingBlockTree.getSeqNumOfQc s.pacemaker.highCertificate.getQc with
  | none => pure ()
  | some highQcSeqNum =>
    if highQcSeqNum < s.pendingBlockTree.root.info.seqNum + env.liveToStatesyncThreshold then
      pure ()
    else throw .stateSyncNeeded

/-! ## Votes and timeouts -/

/-- Send a vote to the leaders of its round and the next one. -/
def sendVoteAndResetTimer (vote : Vote K) : ConsensusM K Unit := do
  let s ← get
  let message : ConsensusMessage K := ⟨env.version, .vote (VoteMessage.new vote env.certSign)⟩
  let nextLeader ← env.leaderOf s.epochManager (vote.round + 1)
  emit (.publish (.pointToPoint nextLeader) message)
  let currentLeader ← env.leaderOf s.epochManager vote.round
  if currentLeader ≠ nextLeader then emit (.publish (.pointToPoint currentLeader) message)
  else pure ()
  emit (.scheduleVote (env.chainParams (vote.round + 1)).votePace (vote.round + 1))
  modify fun s => { s with scheduledVote := none }

variable (lastRoundTc : Option (TimeoutCertificate K))

/-- The tip that a timeout certificate extends. -/
def tcTip : Option (BlockId K) :=
  lastRoundTc.bind fun tc =>
    match tc.highExtend with
    | .qc _ => none
    | .tip tip => some tip.blockHeader.getId

/-- Sign a vote for a tip. -/
def castVote (tip : ConsensusTip K) : ConsensusM K (Vote K) := do
  let s ← get
  let safety ← s.safety.vote s.getCurrentRound (tcTip lastRoundTc) tip
  let v : Vote K := ⟨tip.blockHeader.getId, s.getCurrentRound, s.getCurrentEpoch⟩
  set { s with safety := safety }
  record [.cast v tip lastRoundTc]
  pure v

/-- Send a vote that was cast, or let it wait for the vote timer. -/
def scheduleVote (v : Vote K) (parentBlockRound : Nat) : ConsensusM K Unit := do
  let s ← get
  match s.scheduledVote with
  | some .timerFired => sendVoteAndResetTimer env v
  | some (.voteReady r) =>
    if v.round ≤ r.round then throw .voteAlreadyScheduled
    else if parentBlockRound + 1 ≠ v.round then sendVoteAndResetTimer env v
    else set { s with scheduledVote := some (.voteReady v) }
  | none =>
    if parentBlockRound + 1 ≠ v.round then sendVoteAndResetTimer env v
    else set { s with scheduledVote := some (.voteReady v) }

/-- Vote for a tip if that is safe. -/
def tryVote (tip : ConsensusTip K) : ConsensusM K Unit := do
  let s ← get
  let proposalRound := s.getCurrentRound
  match s.pendingBlockTree.getTimestampOfQc tip.blockHeader.qc,
      s.pendingBlockTree.getBlockRoundOfQc tip.blockHeader.qc with
  | some parentTimestamp, some parentBlockRound =>
    let isReproposal := decide (proposalRound ≠ tip.blockHeader.blockRound)
    if (validBlockTimestamp env s.currentTime parentTimestamp
        tip.blockHeader.timestampNs (env.chainParams proposalRound).votePace
        isReproposal).isNone then pure ()
    else if !s.pendingBlockTree.isCoherent tip.blockHeader.getId then pure ()
    else if !s.safety.isSafeToVote proposalRound (tcTip lastRoundTc) then pure ()
    else do
      let v ← castVote lastRoundTc tip
      scheduleVote env v parentBlockRound
  | _, _ => pure ()

def handleVoteTimer : ConsensusM K Unit := do
  let s ← get
  match s.scheduledVote with
  | some (.voteReady v) => sendVoteAndResetTimer env v
  | _ => set { s with scheduledVote := some .timerFired }

/-- The round has timed out. -/
def handleTimeoutExpiry (timeoutRound : Nat) : ConsensusM K Unit := do
  let s ← get
  if timeoutRound < s.getCurrentRound then pure ()
  else do
    let (cmds, pacemaker, safety) ← s.pacemaker.processLocalTimeout env s.safety
    set { s with pacemaker := pacemaker, safety := safety }
    record (cmds.flatMap (fromPacemakerCommand env s.safety.highCertificateQcRound))

/-! ## Proposing -/

/-- What the leader of the current round has to extend, the certificate that allows
a fresh block, and the timeout certificate of the last round. -/
def proposalInputs (s : ConsensusState K) :
    HighExtend K × Option (FreshProposalCertificate K) × Option (TimeoutCertificate K) :=
  match s.pacemaker.highCertificate with
  | .qc qc => (.qc qc, none, none)
  | .tc tc =>
    match s.noEndorsementState.getNec s.getCurrentRound with
    | some nec => (.qc tc.highExtend.getQc, some (.nec nec), some tc)
    | none =>
      match tc.highExtend with
      | .tip tip => (.tip tip, none, some tc)
      | .qc qc => (.qc qc, some (.noTip ⟨tc.epoch, tc.round, tc.tipRounds, qc⟩), some tc)

/-- Ask the other nodes to refuse a tip that cannot be proposed again. -/
def requestRecovery : ConsensusM K Unit := do
  let s ← get
  if !s.safety.isSafeToRecoveryRequest s.getCurrentRound then pure ()
  else do
    let safety ← s.safety.recoveryRequest s.getCurrentRound
    set { s with safety := safety }
    match lastRoundTc with
    | none => throw .tcMissing
    | some tc =>
      emit (.publish (.broadcast s.getCurrentEpoch)
        ⟨env.version, .roundRecovery ⟨s.getCurrentRound, s.getCurrentEpoch, tc⟩⟩)

/-- Propose the tip of a timeout certificate again. -/
def repropose (tip : ConsensusTip K) (lastRoundTc : Option (TimeoutCertificate K)) :
    ConsensusM K Unit := do
  tryUpdateCoherency env tip.blockHeader.getId
  let s ← get
  let isCoherent := s.pendingBlockTree.isCoherent tip.blockHeader.getId
  let isVotableTs := decide (tip.blockHeader.timestampNs < s.currentTime)
  if !isCoherent || !isVotableTs then requestRecovery env lastRoundTc
  else do
    let safety ← s.safety.propose s.getCurrentRound
    set { s with safety := safety }
    match s.pendingBlockTree.getBlock tip.blockHeader.getId with
    | none => throw .tipMissing
    | some block =>
      emit (.publish (.raptorcast s.getCurrentRound s.getCurrentEpoch) ⟨env.version, .proposal
          ⟨s.getCurrentRound, s.getCurrentEpoch, tip, block.body, lastRoundTc⟩⟩)

/-- Propose a new block on a certificate. -/
def proposeFresh (epoch : Nat) (qc : QuorumCertificate K)
    (freshCertificate : Option (FreshProposalCertificate K))
    (lastRoundTc : Option (TimeoutCertificate K)) : ConsensusM K Unit := do
  tryUpdateCoherency env qc.getBlockId
  let s ← get
  let round := s.getCurrentRound
  if !s.pendingBlockTree.isCoherent qc.getBlockId then pure ()
  else
    match s.pendingBlockTree.getBlocksOnPathFromRoot qc.getBlockId with
    | none => throw (.tree .pathToRootMissing)
    | some pending =>
      let (seqNum, timestampNs) :=
        match pending.getLast? with
        | some extendingBlock =>
          (extendingBlock.getSeqNum + 1,
            getValidBlockTimestamp s.currentTime extendingBlock.getTimestampNs)
        | none =>
          (s.pendingBlockTree.root.info.seqNum + 1,
            getValidBlockTimestamp s.currentTime
              s.pendingBlockTree.root.info.timestampNs)
      let (results, stateRead) :=
        env.policy.getExpectedExecutionResults s.blockPolicy seqNum pending s.stateRead
      match results with
      | .error _ => set { s with stateRead := stateRead }
      | .ok delayedExecutionResults => do
        let safety ← s.safety.propose round
        set { s with stateRead := stateRead, safety := safety }
        let params := env.chainParams round
        emit (.createProposal
          { nodeId := env.nodeid, epoch := epoch, round := round, seqNum := seqNum,
            highQc := qc, roundSignature := env.signRound round, lastRoundTc := lastRoundTc,
            freshProposalCertificate := freshCertificate, txLimit := params.txLimit,
            proposalGasLimit := params.proposalGasLimit,
            proposalByteLimit := params.proposalByteLimit, beneficiary := env.beneficiary,
            timestampNs := timestampNs, extendingBlocks := pending,
            delayedExecutionResults := delayedExecutionResults })

/-- Propose, as the leader of the round. -/
def tryPropose : ConsensusM K Unit := do
  let s ← get
  let round := s.getCurrentRound
  match s.epochManager.getEpoch round with
  | none => throw .epochUnknown
  | some epoch =>
    match env.valEpochMap.getValSet epoch with
    | none => throw .validatorSetUnknown
    | some validatorSet =>
      if env.nodeid ≠ env.getLeader round validatorSet then pure ()
      else do
        requestTipIfMissing
        if !s.safety.isSafeToPropose round then pure ()
        else
          match s.proposalInputs with
          | (.tip tip, _, lastRoundTc) => repropose env tip lastRoundTc
          | (.qc qc, freshCertificate, lastRoundTc) =>
            proposeFresh env epoch qc freshCertificate lastRoundTc

/-! ## Certificates -/

def processCertificate (certificate : RoundCertificate K) : ConsensusM K Unit := do
  let s ← get
  let (cmds, pacemaker, safety) ←
    s.pacemaker.processCertificate env s.epochManager s.safety certificate
  set { s with pacemaker := pacemaker, safety := safety }
  record (cmds.flatMap (fromPacemakerCommand env s.safety.highCertificateQcRound))

def reportVoted (qc : QuorumCertificate K) : ConsensusM K Unit := do
  let s ← get
  match s.pendingBlockTree.getHighestCoherentBlockOnPathFromRoot qc.getBlockId with
  | none => pure ()
  | some votedBlock => emit (.commitBlocks (.voted votedBlock))

def startNewRound : ConsensusM K Unit :=
  modify fun s => { s with
    voteState := s.voteState.startNewRound s.getCurrentRound
    noEndorsementState := s.noEndorsementState.startNewRound s.getCurrentRound }

/-- Process a quorum certificate: commit, and enter the next round. -/
def processQc (qc : QuorumCertificate K) : ConsensusM K Unit := do
  let s ← get
  if qc.getRound < s.getCurrentRound then pure ()
  else do
    reportVoted qc
    tryCommit env qc
    cancelObsoleteRequests
    maybeStatesync env
    processCertificate env (.qc qc)
    updateProposedHead
    requestBlocksIfMissingAncestor
    startNewRound
    tryPropose env

/-- Enter the round after a timeout certificate. -/
def processTc (tc : TimeoutCertificate K) : ConsensusM K Unit := do
  let s ← get
  if tc.round < s.getCurrentRound then pure ()
  else do
    processCertificate env (.tc tc)
    tryPropose env

/-! ## Proposals -/

def validateBlock (header : ConsensusBlockHeader K) (body : K.Body) :
    ConsensusM K (Option (ConsensusFullBlock K)) := do
  let s ← get
  match s.pendingBlockTree.getBlock header.getId with
  | some validated => pure (if validated.getBodyId ≠ K.bodyGetId body then none else some validated)
  | none => do
    let blockRoundLeader ← env.leaderOf s.epochManager header.blockRound
    if header.author ≠ blockRoundLeader then pure none
    else
      match env.valEpochMap.getCertPubkeys header.epoch with
      | none => throw .validatorSetUnknown
      | some mapping =>
        match mapping.lookup header.author with
        | none => throw .authorKeyUnknown
        | some authorPubkey => pure (env.validate header body authorPubkey)

/-- Add a validated block and act on it; a proposal of the current round may be voted
for. -/
def tryAddAndCommitBlocktree (block : ConsensusFullBlock K)
    (proposal : Option (Nat × Option (TimeoutCertificate K) × ConsensusTip K)) :
    ConsensusM K Unit := do
  let s ← get
  let tree ← ofTree (s.pendingBlockTree.add block)
  set { s with pendingBlockTree := tree }
  tryUpdateCoherency env block.getId
  let s ← get
  match proposal with
  | some (proposalRound, lastRoundTc, tip) =>
    if proposalRound = s.getCurrentRound then
      if tip.blockHeader.getId ≠ block.getId then throw .tipMismatch
      else tryVote env lastRoundTc tip
    else pure ()
  | none => pure ()
  tryPropose env
  maybeStatesync env
  requestBlocksIfMissingAncestor

/-- The part of a proposal that its author and round decide on. -/
def acceptProposal (p : ProposalMessage K) : ConsensusM K Unit := do
  let s ← get
  let safety ← s.safety.handleProposal p.proposalRound
  set { s with safety := safety }
  match ← validateBlock env p.tip.blockHeader p.blockBody with
  | none => pure ()
  | some block =>
    tryAddAndCommitBlocktree env block (some (p.proposalRound, p.lastRoundTc, p.tip))

variable (author : K.NodeId)

/-- Take in a proposal, and vote for it if that is safe. -/
def handleProposalMessage (p : ProposalMessage K) : ConsensusM K Unit := do
  let s ← get
  if p.proposalRound ≤ s.pendingBlockTree.root.info.round then pure ()
  else do
    let expectedLeader ← env.leaderOf s.epochManager p.proposalRound
    processQc env p.tip.blockHeader.qc
    match p.lastRoundTc with
    | some tc => processTc env tc
    | none => pure ()
    let s ← get
    if s.getCurrentRound < p.proposalRound ∨ author ≠ expectedLeader then pure ()
    else if !s.safety.isSafeToHandleProposal p.proposalRound then pure ()
    else acceptProposal env p

/-! ## Votes of other nodes -/

/-- The number of rounds ahead for which votes are collected. -/
def futureVoteBound : Nat := 10

/-- Count a vote; there may be a certificate now. -/
def collectVote (voteMsg : VoteMessage K) (validators : ValidatorSet K)
    (mapping : ValidatorMapping K) : ConsensusM K (Option (QuorumCertificate K)) := do
  let s ← get
  let (maybeQc, voteState) ←
    s.voteState.processVote env.scheme author voteMsg validators mapping
  set { s with voteState := voteState }
  record [.processedVote s.voteState.earliestRound author voteMsg validators mapping maybeQc]
  pure maybeQc

def validatorsAt (s : ConsensusState K) (round : Nat) :
    Except Panic (ValidatorSet K × ValidatorMapping K) :=
  match s.epochManager.getEpoch round with
  | none => .error .epochUnknown
  | some epoch => env.validatorsOf epoch

/-- A vote, which may certify its block. -/
def handleVoteMessage (voteMsg : VoteMessage K) : ConsensusM K Unit := do
  let s ← get
  let voteRound := voteMsg.vote.round
  if voteRound < s.getCurrentRound then pure ()
  else if s.getCurrentRound + futureVoteBound < voteRound then pure ()
  else do
    let (validators, mapping) ← s.validatorsAt env voteRound
    match ← collectVote env author voteMsg validators mapping with
    | none => pure ()
    | some qc => do
      processQc env qc
      tryPropose env
      let s ← get
      if env.nodeid = env.getLeader voteRound validators then
        emit (.publish (.broadcast s.getCurrentEpoch) ⟨env.version, .advanceRound ⟨.qc qc⟩⟩)
      else pure ()

/-! ## Timeouts of other nodes -/

/-- Tell the other nodes about a round's certificate. -/
def broadcastAdvanceRoundMessage (certificate : RoundCertificate K) : ConsensusM K Unit := do
  let s ← get
  match s.epochManager.getEpoch certificate.round with
  | none => pure ()
  | some epoch =>
    emit (.publish (.broadcast epoch) ⟨env.version, .advanceRound ⟨certificate⟩⟩)

/-- The vote in a timeout counts as a vote. -/
def handleTimeoutVote (timeout : Timeout K) : ConsensusM K Unit :=
  match timeout.highExtend with
  | .tip tip (some voteSignature) =>
    handleVoteMessage env author
      ⟨⟨tip.blockHeader.getId, timeout.tminfo.round, timeout.tminfo.epoch⟩, voteSignature⟩
  | _ => pure ()

def handleLastRoundCertificate : Option (RoundCertificate K) → ConsensusM K Unit
  | none => pure ()
  | some (.qc qc) => processQc env qc
  | some (.tc tc) => do
    let s ← get
    if tc.round = s.getCurrentRound then do
      handleTimeoutExpiry env tc.round
      processTc env tc
    else if s.getCurrentRound < tc.round then do
      broadcastAdvanceRoundMessage env (.tc tc)
      processTc env tc
    else pure ()

/-- Count a timeout; there may be a certificate now. -/
def processRemoteTimeout (validators : ValidatorSet K) (mapping : ValidatorMapping K)
    (author : K.NodeId) (timeout : Timeout K) : ConsensusM K Unit := do
  let s ← get
  let (cmds, tc, pacemaker, safety) ←
    s.pacemaker.processRemoteTimeout env s.epochManager validators mapping s.safety author timeout
  set { s with pacemaker := pacemaker, safety := safety }
  record (cmds.flatMap (fromPacemakerCommand env s.safety.highCertificateQcRound) ++
    tc.toList.map fun built => .createdTc built.1 built.2 validators mapping)

/-- A timeout, with what it carries. -/
def handleTimeoutMessage (timeout : Timeout K) : ConsensusM K Unit := do
  let s ← get
  if timeout.tminfo.round < s.getCurrentRound then pure ()
  else do
    let (validators, mapping) ← s.validatorsAt env timeout.tminfo.round
    processQc env timeout.highExtend.getQc
    handleTimeoutVote env author timeout
    handleLastRoundCertificate env timeout.lastRoundCertificate
    processRemoteTimeout env validators mapping author timeout
    tryPropose env

/-! ## Recovery -/

/-- Refuse to endorse a tip. -/
def noEndorse (epoch round : Nat) (tip : ConsensusTip K) : ConsensusM K Unit := do
  let s ← get
  if s.safety.isSafeToNoEndorse round then do
    let safety ← s.safety.noEndorse round tip.blockHeader.getId
    set { s with safety := safety }
    let msg : NoEndorsement := ⟨epoch, round, tip.blockHeader.qc.getRound⟩
    record [.refused msg tip, .command (.publish (.pointToPoint author)
        ⟨env.version, .noEndorsement (NoEndorsementMessage.new msg env.certSign)⟩)]
  else pure ()

/-- A request to refuse the tip of a timeout certificate. -/
def handleRoundRecoveryMessage (roundRecovery : RoundRecoveryMessage K) : ConsensusM K Unit := do
  let s ← get
  match s.epochManager.getEpoch roundRecovery.round with
  | none => throw .epochUnknown
  | some epoch =>
    match env.valEpochMap.getValSet epoch with
    | none => throw .validatorSetUnknown
    | some validatorSet => do
      processTc env roundRecovery.tc
      let s ← get
      if roundRecovery.round ≠ s.getCurrentRound ∨
          author ≠ env.getLeader s.getCurrentRound validatorSet then pure ()
      else
        match roundRecovery.tc.highExtend with
        | .qc _ => pure ()
        | .tip tip =>
          if s.pendingBlockTree.isCoherent tip.blockHeader.getId ∧
              tip.blockHeader.timestampNs < s.currentTime then pure ()
          else noEndorse env author epoch roundRecovery.round tip

/-- Give a refusal to the no-endorsement state. -/
def collectNoEndorsement (msg : NoEndorsementMessage K)
    (validators : ValidatorSet K) (mapping : ValidatorMapping K) :
    ConsensusM K (Option (NoEndorsementCertificate K)) := do
  let s ← get
  let (maybeNec, noEndorsementState) ←
    s.noEndorsementState.processNoEndorsement env.scheme author msg validators mapping
  set { s with noEndorsementState := noEndorsementState }
  record (maybeNec.toList.map .createdNec)
  pure maybeNec

/-- A refusal of another node. -/
def handleNoEndorsementMessage (msg : NoEndorsementMessage K) : ConsensusM K Unit := do
  let s ← get
  if msg.msg.round < s.getCurrentRound then pure ()
  else if s.getCurrentRound < msg.msg.round then pure ()
  else do
    let (validators, mapping) ← s.validatorsAt env msg.msg.round
    match ← collectNoEndorsement env author msg validators mapping with
    | none => pure ()
    | some _ => tryPropose env

/-- The certificate with which another node left its round. -/
def handleAdvanceRoundMessage (advanceRoundMsg : AdvanceRoundMessage K) : ConsensusM K Unit :=
  match advanceRoundMsg.lastRoundCertificate with
  | .tc tc => processTc env tc
  | .qc qc => do
    let s ← get
    if qc.getRound < s.getCurrentRound then pure ()
    else do
      processQc env qc
      let s ← get
      let leader ← env.leaderOf s.epochManager s.getCurrentRound
      emit (.publish (.pointToPoint leader) ⟨env.version, .advanceRound ⟨.qc qc⟩⟩)

/-! ## Block sync -/

/-- Add the requested blocks, up to the first one that is invalid. -/
def addSyncedBlocks : List (ConsensusFullBlock K) → ConsensusM K Unit
  | [] => pure ()
  | fullBlock :: rest => do
    let s ← get
    if !s.pendingBlockTree.isValidToInsert fullBlock.header then addSyncedBlocks rest
    else
      match ← validateBlock env fullBlock.header fullBlock.body with
      | none => pure ()
      | some block => do
        tryAddAndCommitBlocktree env block none
        addSyncedBlocks rest

/-- Blocks that were asked for. -/
def handleBlockSync (blockRange : BlockRange K) (fullBlocks : List (ConsensusFullBlock K)) :
    ConsensusM K Unit := do
  let s ← get
  if blockRange.lastBlockId ∈ s.blockSyncRequests then do
    addSyncedBlocks env fullBlocks
    modify fun s => { s with
      blockSyncRequests := s.blockSyncRequests.erase blockRange.lastBlockId }
  else pure ()

/-- Publish the block that the transaction pool built for `cmd`. -/
def handleMempoolEvent (cmd : CreateProposal K) (m : MempoolProposal K) : ConsensusM K Unit :=
  emit (.publish (.raptorcast cmd.round cmd.epoch) ⟨env.version, .proposal (m.assemble env cmd)⟩)

/-- Handle a message that has been validated. -/
def handleMessage : ProtocolMessage K → ConsensusM K Unit
  | .proposal m => handleProposalMessage env author m
  | .vote m => handleVoteMessage env author m
  | .timeout m => handleTimeoutMessage env author m
  | .roundRecovery m => handleRoundRecoveryMessage env author m
  | .noEndorsement m => handleNoEndorsementMessage env author m
  | .advanceRound m => handleAdvanceRoundMessage env m

end ConsensusState

end Kinet
