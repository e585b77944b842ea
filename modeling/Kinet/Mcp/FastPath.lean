import Kinet.Mcp.Votes

/-!
# The fast path of a slot

At the deadline of a slot every validator votes on all proposals.  A supermajority of
equal votes certifies a proposal; when all are certified, a validator votes to commit them.
One that cannot do so in time votes to fall back, and shares its evidence.

Main results:

- `LocalCertifiedEntry.tryUpgrade_cases`: an upgrade keeps the evidence or
  replaces it.
-/

namespace Kinet.Mcp

open VoteMsg List

variable {E : Types}

/-! ## Evidence -/

/-- What identifies a proposal, with its signature. -/
structure ProposalMeta (E : Types) where
  root : E.MerkleRoot
  sig : E.ProposalSignature
  opaqueHeader : E.OpaqueChunkHeader
deriving DecidableEq

/-- Two conflicting proposals of one proposer. -/
structure EquivCert (E : Types) where
  fst : ProposalMeta E
  snd : ProposalMeta E
deriving DecidableEq

/-- Certificate of the votes on one proposal. -/
abbrev FastQc (E : Types) := StrongQc E (Entry E) (Nat × Nat)

/-- Certificate of the fallback votes on one proposal. -/
abbrev FallbackQc (E : Types) := WeakQc E (FallbackEntry E) (Nat × Nat)

/-- Certificate of the votes to commit. -/
abbrev FastCommitQc (E : Types) := StrongQc E (FastCommitVote E) Nat

/-- Certificate that a supermajority left the fast path. -/
abbrev EnterFallbackCert (E : Types) := StrongQc E EnterFallbackVote Nat

/-- Evidence for a proposal. -/
inductive CertifiedEntry (E : Types) where
  | fastQc (qc : FastQc E)
  | equivCert (cert : EquivCert E)
  | fallbackQc (qc : FallbackQc E)
deriving DecidableEq

/-- How strong evidence is, from lowest to highest. -/
inductive EvidenceStrength where
  | absent
  | fallbackQc
  | equivCert
  | fastQc
deriving DecidableEq

/-- Order of the kinds of evidence. -/
def EvidenceStrength.rank : EvidenceStrength → Nat
  | .absent => 0
  | .fallbackQc => 1
  | .equivCert => 2
  | .fastQc => 3

def CertifiedEntry.strength : CertifiedEntry E → EvidenceStrength
  | .fastQc _ => .fastQc
  | .equivCert _ => .equivCert
  | .fallbackQc _ => .fallbackQc

/-- The evidence that a validator holds for a proposal. -/
inductive LocalCertifiedEntry (E : Types) where
  | absent
  | certified (cert : CertifiedEntry E)
deriving DecidableEq

namespace LocalCertifiedEntry

def fastQc : LocalCertifiedEntry E → Option (FastQc E)
  | .certified (.fastQc qc) => some qc
  | _ => none

/-- The evidence, if there is any. -/
def cert : LocalCertifiedEntry E → Option (CertifiedEntry E)
  | .absent => none
  | .certified cert => some cert

def strength : LocalCertifiedEntry E → EvidenceStrength
  | .absent => .absent
  | .certified cert => cert.strength

variable (self : LocalCertifiedEntry E) (newEv : CertifiedEntry E)

/-- Replace the evidence by a stronger one. -/
def tryUpgrade : LocalCertifiedEntry E :=
  match self with
  | .absent => .certified newEv
  | .certified ev => if ev.strength.rank < newEv.strength.rank then .certified newEv else self

theorem tryUpgrade_cases :
    self.tryUpgrade newEv = self ∨ self.tryUpgrade newEv = .certified newEv := by
  unfold tryUpgrade
  split
  · exact Or.inr rfl
  · split
    · exact Or.inr rfl
    · exact Or.inl rfl

end LocalCertifiedEntry

/-! ## Messages -/

structure FallbackSignedEntry (E : Types) where
  entry : FallbackEntry E
  signature : E.Signature
  /-- the proposal, if the vote is positive -/
  proposalMeta : Option (ProposalMeta E)
deriving DecidableEq

namespace FallbackSignedEntry

def newSignedPositive (scope : Nat × Nat) (root : E.MerkleRoot)
    (sign : VoteData E → E.Signature) (proposalMeta : ProposalMeta E) : FallbackSignedEntry E :=
  let entry : FallbackEntry E := ⟨.positive root⟩
  ⟨entry, (newSigned scope entry sign).signature, some proposalMeta⟩

def newSignedNegative (scope : Nat × Nat) (sign : VoteData E → E.Signature) :
    FallbackSignedEntry E :=
  let entry : FallbackEntry E := ⟨.negative⟩
  ⟨entry, (newSigned scope entry sign).signature, none⟩

def intoVoteMsg (self : FallbackSignedEntry E) (slot j : Nat) :
    VoteMsg E (FallbackEntry E) (Nat × Nat) :=
  ⟨(slot, j), self.entry, self.signature⟩

end FallbackSignedEntry

inductive ProposalEvidence (E : Types) where
  | certified (cert : CertifiedEntry E)
  | fallbackSignedEntry (entry : FallbackSignedEntry E)
deriving DecidableEq

/-- The votes of a validator on all proposals. -/
structure BatchVoteMsg (E : Types) where
  slot : Nat
  votes : ProposalMap (Entry E × E.Signature)
deriving DecidableEq

/-- One message for each proposal. -/
def BatchVoteMsg.split (self : BatchVoteMsg E) : List (VoteMsg E (Entry E) (Nat × Nat)) :=
  self.votes.mapIdx fun j vote => ⟨(self.slot, j), vote.1, vote.2⟩

abbrev FastCommitVoteMsg (E : Types) := VoteMsg E (FastCommitVote E) Nat

/-- A certificate for each proposal. -/
structure FastBlock (E : Types) where
  qcs : ProposalMap (FastQc E)
deriving DecidableEq

/-- The vote to commit what the certificates say. -/
def FastBlock.toVote (block : FastBlock E) : FastCommitVote E :=
  ⟨block.qcs.map (·.verdict)⟩

def FastBlock.commitVote (block : FastBlock E) (slot : Nat) (sign : VoteData E → E.Signature) :
    FastCommitVoteMsg E :=
  newSigned slot block.toVote sign

/-- A vote to fall back, with evidence for each proposal. -/
structure FallbackVoteMsg (E : Types) where
  enterFallbackVote : VoteMsg E EnterFallbackVote Nat
  evidences : ProposalMap (ProposalEvidence E)
deriving DecidableEq

/-- What the fallback path starts from. -/
structure MVBAInputs (E : Types) where
  enterFallbackCert : EnterFallbackCert E
  block : ProposalMap (CertifiedEntry E)
deriving DecidableEq

/-! ## Environment -/

inductive FetchProposalError (E : Types) where
  | absent
  | equivocation (cert : EquivCert E)

/-- Answers of the data availability layer. -/
structure DAHandle (E : Types) where
  proposalDecoded : Nat → Nat → E.MerkleRoot → Bool
  fetchProposal : Nat → Nat → Except (FetchProposalError E) (ProposalMeta E)

/-- The layer that never has a proposal. -/
def DAHandle.stub : DAHandle E where
  proposalDecoded _ _ _ := false
  fetchProposal _ _ := .error .absent

/-- What a slot instance is spawned with.  Hash maps of votes are iterated in an
unspecified order. -/
structure ChorusContext (E : Types) where
  scheme : VoteScheme E
  /-- sign with the key of this node -/
  sign : VoteData E → E.Signature
  bucketOrder : {V : Type} → List (V × Finset E.NodeId) → List (V × Finset E.NodeId)
  bucketOrder_perm : ∀ {V : Type} (l : List (V × Finset E.NodeId)), (bucketOrder l).Perm l

/-! ## State -/

/-- How far a validator is in the slot. -/
inductive Phase where
  | propose
  /-- vote cast -/
  | vote
  /-- commit vote cast -/
  | fastCommit
  /-- fallback vote cast -/
  | transitionToFallback
deriving DecidableEq

/-- State of the fast path.  The pools of votes have the scopes of the slot's
proposals. -/
structure FastPath (E : Types) where
  slot : Nat
  certs : ProposalMap (LocalCertifiedEntry E)
  phase : Phase
  votes : ProposalMap (VotePool E (Entry E) (Nat × Nat))
  commitVotes : VotePool E (FastCommitVote E) Nat
  enterFallbackVotes : VotePool E EnterFallbackVote Nat
  fallbackEntryVotes : ProposalMap (VotePool E (FallbackEntry E) (Nat × Nat))
  proposals : ProposalMap Nat
  proposals_eq : proposals = range certs.length
  votes_scope : votes.map VotePool.scope = proposals.map fun j => (slot, j)
  fallbackEntryVotes_scope :
    fallbackEntryVotes.map VotePool.scope = proposals.map fun j => (slot, j)
  commitVotes_scope : commitVotes.scope = slot
  enterFallbackVotes_scope : enterFallbackVotes.scope = slot

namespace FastPath

/-- A slot in which nobody has voted. -/
def new (slot numProposals : Nat) : FastPath E where
  slot := slot
  certs := replicate numProposals .absent
  phase := .propose
  votes := (range numProposals).map fun j => VotePool.new (slot, j)
  commitVotes := VotePool.new slot
  enterFallbackVotes := VotePool.new slot
  fallbackEntryVotes := (range numProposals).map fun j => VotePool.new (slot, j)
  proposals := range numProposals
  proposals_eq := by simp
  votes_scope := by simp [VotePool.new]
  fallbackEntryVotes_scope := by simp [VotePool.new]
  commitVotes_scope := rfl
  enterFallbackVotes_scope := rfl

def setCert (f : FastPath E) (j : Nat) (cert : LocalCertifiedEntry E) : FastPath E :=
  { f with
    certs := f.certs.set j cert
    proposals_eq := by rw [length_set]; exact f.proposals_eq }

def setPhase (f : FastPath E) (phase : Phase) : FastPath E := { f with phase := phase }

end FastPath

namespace ProposalMap

variable {V : Type} [DecidableEq V] {S : VoteScheme E}
  {pools : ProposalMap (VotePool E V (Nat × Nat))} {pool pool' : VotePool E V (Nat × Nat)}
  {j : Nat} {nodeId : E.NodeId} {msg : VoteMsg E V (Nat × Nat)}

lemma map_scope_set (h : pools[j]? = some pool) (hscope : pool'.scope = pool.scope) :
    (pools.set j pool').map VotePool.scope = pools.map VotePool.scope := by
  obtain ⟨hlt, rfl⟩ := List.getElem?_eq_some_iff.mp h
  apply ext_getElem?
  intro i
  by_cases hi : j = i
  · subst hi
    simp [hlt, hscope]
  · simp [getElem?_set_ne hi]

/-- Add a vote to the pool of a proposal. -/
def addVote (S : VoteScheme E) (pools : ProposalMap (VotePool E V (Nat × Nat))) (j : Nat)
    (nodeId : E.NodeId) (msg : VoteMsg E V (Nat × Nat)) :
    Except Panic { pools' : ProposalMap (VotePool E V (Nat × Nat)) //
      pools'.map VotePool.scope = pools.map VotePool.scope } :=
  match h : pools.index j with
  | .error p => .error p
  | .ok pool => do
    let pool' ← pool.addVote S nodeId msg
    pure ⟨pools.set j pool'.1, map_scope_set (index_eq_ok.mp h) pool'.2⟩

lemma addVote_eq_ok {pools' : { pools' : ProposalMap (VotePool E V (Nat × Nat)) //
      pools'.map VotePool.scope = pools.map VotePool.scope }} :
    pools.addVote S j nodeId msg = .ok pools' ↔ ∃ pool, pools[j]? = some pool ∧
      msg.scope = pool.scope ∧ pools'.1 = pools.set j (pool.recordVote S nodeId msg) := by
  unfold addVote
  split
  · next p h =>
    constructor
    · intro hok
      cases hok
    · rintro ⟨pool, hpool, -⟩
      rw [index_eq_ok.mpr hpool] at h
      cases h
  · next pool h =>
    rw [index_eq_ok.mp h, Effect.bind_eq_ok]
    simp only [VotePool.addVote_eq_ok]
    constructor
    · rintro ⟨pool', ⟨hscope, hpool'⟩, ⟨⟩⟩
      exact ⟨pool, rfl, hscope, congrArg (pools.set j) hpool'⟩
    · rintro ⟨_, ⟨⟩, hscope, hpools'⟩
      exact ⟨⟨_, VotePool.recordVote_scope S pool nodeId msg⟩, ⟨hscope, rfl⟩,
        congrArg Except.ok (Subtype.ext hpools'.symm)⟩

lemma exists_addVote (S : VoteScheme E) (nodeId : E.NodeId) (hpool : pools[j]? = some pool)
    (hscope : msg.scope = pool.scope) : ∃ pools', pools.addVote S j nodeId msg = .ok pools' :=
  ⟨⟨_, map_scope_set hpool (VotePool.recordVote_scope S pool nodeId msg)⟩,
    addVote_eq_ok.mpr ⟨pool, hpool, hscope, rfl⟩⟩

end ProposalMap

namespace FastPath

variable (S : VoteScheme E) (f : FastPath E) (j : Nat) (nodeId : E.NodeId)

/-- A vote on a proposal. -/
def insertVote (msg : VoteMsg E (Entry E) (Nat × Nat)) : Except Panic (FastPath E) := do
  let votes ← f.votes.addVote S j nodeId msg
  pure { f with votes := votes.1, votes_scope := votes.2.trans f.votes_scope }

/-- A fallback vote on a proposal. -/
def insertFallbackEntryVote (msg : VoteMsg E (FallbackEntry E) (Nat × Nat)) :
    Except Panic (FastPath E) := do
  let votes ← f.fallbackEntryVotes.addVote S j nodeId msg
  pure { f with
    fallbackEntryVotes := votes.1
    fallbackEntryVotes_scope := votes.2.trans f.fallbackEntryVotes_scope }

/-- A vote to commit. -/
def insertCommitVote (msg : FastCommitVoteMsg E) : Except Panic (FastPath E) := do
  let votes ← f.commitVotes.addVote S nodeId msg
  pure { f with commitVotes := votes.1, commitVotes_scope := votes.2.trans f.commitVotes_scope }

/-- A vote to fall back. -/
def insertEnterFallbackVote (msg : VoteMsg E EnterFallbackVote Nat) :
    Except Panic (FastPath E) := do
  let votes ← f.enterFallbackVotes.addVote S nodeId msg
  pure { f with
    enterFallbackVotes := votes.1
    enterFallbackVotes_scope := votes.2.trans f.enterFallbackVotes_scope }

end FastPath

/-- Handlers change the fast path and may panic. -/
abbrev FastM (E : Types) := StateT (FastPath E) (Except Panic)

namespace FastPath

variable (context : ChorusContext E)

/-! ## Certificates of proposals -/

/-- Replace the evidence for a proposal by a stronger one. -/
def tryUpgrade (j : Nat) (newEv : CertifiedEntry E) : FastM E Unit := do
  let f ← get
  let cert ← f.certs.index j
  set (f.setCert j (cert.tryUpgrade newEv))

/-- Certify a proposal once a supermajority voted for it. -/
def tryFormFastQc (j : Nat) : FastM E Unit := do
  let f ← get
  let cert ← f.certs.index j
  if cert.fastQc.isSome then pure ()
  else do
    let pool ← f.votes.index j
    match ← pool.tryFormStrongQc context.scheme context.bucketOrder with
    | some fastQc => tryUpgrade j (.fastQc fastQc)
    | none => pure ()

/-- Of two fallback certificates the positive one counts. -/
def chooseFallbackQc : FallbackQc E ⊕ FallbackQc E × FallbackQc E → Except Panic (FallbackQc E)
  | .inl qc => .ok qc
  | .inr (qc₁, qc₂) =>
    match qc₁.verdict.entry, qc₂.verdict.entry with
    | .positive _, _ => .ok qc₁
    | _, .positive _ => .ok qc₂
    | _, _ => .error .noPositiveQc

/-- Certify a proposal once enough fallback votes agree. -/
def tryFormFallbackQc (j : Nat) : FastM E Unit := do
  let f ← get
  let cert ← f.certs.index j
  if EvidenceStrength.fallbackQc.rank ≤ cert.strength.rank then pure ()
  else do
    let pool ← f.fallbackEntryVotes.index j
    match ← pool.tryFormWeakQc context.scheme context.bucketOrder with
    | none => pure ()
    | some qcs => do
      let weakQc ← chooseFallbackQc qcs
      tryUpgrade j (.fallbackQc weakQc)

/-- The block of all proposals, if they are certified. -/
def tryFormFastBlock (f : FastPath E) : Option (FastBlock E) :=
  (f.certs.mapM LocalCertifiedEntry.fastQc).map FastBlock.mk

/-- Vote to commit, once, when all proposals are certified. -/
def tryCastFastCommitVote : FastM E (Option (FastBlock E)) := do
  let f ← get
  if f.phase = .fastCommit ∨ f.phase = .transitionToFallback then pure none
  else
    match f.tryFormFastBlock with
    | none => pure none
    | some fastBlock => do
      set (f.setPhase .fastCommit)
      pure (some fastBlock)

/-! ## Messages -/

variable (nodeId : E.NodeId)

/-- Count a vote, and certify the proposal if that is enough. -/
def handleVote (voteMsg : VoteMsg E (Entry E) (Nat × Nat)) : FastM E Unit := do
  let f ← get
  let j := voteMsg.scope.2
  set (← f.insertVote context.scheme j nodeId voteMsg)
  tryFormFastQc context j

/-- The votes of a validator on all proposals. -/
def handleBatchVote (voteMsg : BatchVoteMsg E) : FastM E (Option (FastBlock E)) := do
  voteMsg.split.forM (handleVote context nodeId)
  tryCastFastCommitVote

/-- Count a vote to commit; there may be a certificate now. -/
def handleCommitVote (voteMsg : FastCommitVoteMsg E) : FastM E (Option (FastCommitQc E)) := do
  let f ← get
  let f ← f.insertCommitVote context.scheme nodeId voteMsg
  set f
  f.commitVotes.tryFormStrongQc context.scheme context.bucketOrder

/-- The certificates of another validator. -/
def handleFastBlock (fastBlock : FastBlock E) : FastM E (Option (FastBlock E)) := do
  fastBlock.qcs.zipIdx.forM fun entry => tryUpgrade entry.2 (.fastQc entry.1)
  tryCastFastCommitVote

/-- Use what another validator knows of a proposal. -/
def handleEvidence (j : Nat) : ProposalEvidence E → FastM E Unit
  | .fallbackSignedEntry entry => do
    let f ← get
    let vote := entry.intoVoteMsg f.slot j
    set (← f.insertFallbackEntryVote context.scheme j nodeId vote)
    tryFormFallbackQc context j
  | .certified cert => tryUpgrade j cert

/-- Count a vote to fall back, and use its evidence. -/
def handleFallbackVote (voteMsg : FallbackVoteMsg E) : FastM E Unit := do
  let f ← get
  set (← f.insertEnterFallbackVote context.scheme nodeId voteMsg.enterFallbackVote)
  voteMsg.evidences.zipIdx.forM fun evidence => handleEvidence context nodeId evidence.2 evidence.1

/-! ## Deadlines -/

variable (da : DAHandle E)

/-- What a validator votes on a proposal. -/
def entryAtDeadline (slot j : Nat) : Except Panic (Entry E × E.Signature) :=
  match da.fetchProposal slot j with
  | .ok proposal =>
    let entry := Entry.positive proposal.root
    .ok (entry, (newSigned (slot, j) entry context.sign).signature)
  | .error .absent =>
    let entry := Entry.negative
    .ok (entry, (newSigned (slot, j) entry context.sign).signature)
  | .error (.equivocation _) => .error .equivocationTodo

/-- Vote on all proposals. -/
def onProposeDeadline : FastM E (Option (BatchVoteMsg E)) := do
  let f ← get
  if f.phase ≠ .propose then pure none
  else do
    set (f.setPhase .vote)
    let votes ← (f.proposals.mapM (entryAtDeadline context da f.slot) : Except Panic _)
    pure (some ⟨f.slot, votes⟩)

variable (f : FastPath E)

def weakAvailableRoot (j : Nat) : Except Panic (Option E.MerkleRoot) := do
  let pool ← f.votes.index j
  let qcs ← pool.tryFormWeakQc context.scheme context.bucketOrder
  let candidates : List (WeakQc E (Entry E) (Nat × Nat)) :=
    match qcs with
    | none => []
    | some (.inl qc) => [qc]
    | some (.inr (qc₁, qc₂)) => [qc₁, qc₂]
  let roots := candidates.filterMap fun qc =>
    match qc.verdict with
    | .positive root => some root
    | .negative => none
  pure (roots.find? (da.proposalDecoded f.slot j))

/-- The evidence that a validator shares when it falls back. -/
def proposalEvidence (j : Nat) : Except Panic (ProposalEvidence E) := do
  match ← f.certs.index j with
  | .certified cert => pure (.certified cert)
  | .absent =>
    let negative := FallbackSignedEntry.newSignedNegative (f.slot, j) context.sign
    match ← weakAvailableRoot context da f j with
    | none => pure (.fallbackSignedEntry negative)
    | some root =>
      match da.fetchProposal f.slot j with
      | .ok proposalMeta =>
        if proposalMeta.root = root then
          pure (.fallbackSignedEntry
            (FallbackSignedEntry.newSignedPositive (f.slot, j) root context.sign proposalMeta))
        else pure (.fallbackSignedEntry negative)
      | .error _ => pure (.fallbackSignedEntry negative)

/-- What happens when the time for a commit vote is over. -/
inductive CommitVoteDeadlineOutcome (E : Types) where
  /-- already voted reactively -/
  | alreadyVoted
  /-- a supermajority has not voted yet -/
  | notEnoughVotes
  | fallbackVote (msg : FallbackVoteMsg E)

/-- A supermajority has voted on every proposal. -/
def hasEnoughVotes (S : VoteScheme E) : List (VotePool E (Entry E) (Nat × Nat)) → Except Panic Bool
  | [] => .ok true
  | pool :: rest => do
    let voterStake ← S.validatorData.sumStake pool.votes.keys.toFinset
    if Stake.supermajorityThreshold S.validatorData.totalStake < voterStake then
      hasEnoughVotes S rest
    else pure false

/-- Vote to fall back, unless a vote to commit was cast. -/
def onCommitVoteDeadline : FastM E (CommitVoteDeadlineOutcome E) := do
  let f ← get
  if f.phase ≠ .vote then pure .alreadyVoted
  else if !(← hasEnoughVotes context.scheme f.votes) then pure .notEnoughVotes
  else do
    let f := f.setPhase .transitionToFallback
    set f
    let enterFallbackVote := newSigned f.slot EnterFallbackVote.mk context.sign
    let evidences ← (f.proposals.mapM (proposalEvidence context da f) : Except Panic _)
    pure (.fallbackVote ⟨enterFallbackVote, evidences⟩)

/-- Inputs of the fallback path, if there is evidence for all proposals. -/
def tryBuildMvbaInputs (enterFallbackCert : EnterFallbackCert E) : Option (MVBAInputs E) :=
  (f.certs.mapM LocalCertifiedEntry.cert).map fun block => ⟨enterFallbackCert, block⟩

/-- Enter the fallback path with a certificate of the votes seen. -/
def onFallbackDeadline : Except Panic (Option (MVBAInputs E)) := do
  match ← f.enterFallbackVotes.tryFormStrongQc context.scheme context.bucketOrder with
  | none => pure none
  | some enterFallbackCert => pure (f.tryBuildMvbaInputs enterFallbackCert)

end FastPath

end Kinet.Mcp
