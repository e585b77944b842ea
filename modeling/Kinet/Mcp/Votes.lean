import Kinet.Foundation.Effect
import Kinet.Foundation.FiniteMap
import Kinet.Foundation.Quorum

/-!
# Votes and certificates of a slot

Votes are cast for a scope: a slot, or one proposal of a slot.  A pool keeps the first
vote of each validator, and aggregates the signatures of a value once enough stake has
voted for it.  `VoteScheme.Lawful` is what the signature interface promises.
-/

namespace Kinet

open FiniteMap Effect List

namespace Mcp

structure Types where
  NodeId : Type
  Signature : Type
  SignatureCollection : Type
  /-- commitment to the payload of a proposal -/
  MerkleRoot : Type
  ProposalSignature : Type
  /-- header of the chunks of a proposal -/
  OpaqueChunkHeader : Type
  [nodeIdDecEq : DecidableEq NodeId]
  [signatureDecEq : DecidableEq Signature]
  [signatureCollectionDecEq : DecidableEq SignatureCollection]
  [merkleRootDecEq : DecidableEq MerkleRoot]
  [proposalSignatureDecEq : DecidableEq ProposalSignature]
  [opaqueChunkHeaderDecEq : DecidableEq OpaqueChunkHeader]

attribute [instance] Types.nodeIdDecEq Types.signatureDecEq Types.signatureCollectionDecEq
  Types.merkleRootDecEq Types.proposalSignatureDecEq Types.opaqueChunkHeaderDecEq

inductive Panic where
  /-- a vote is added to the pool of another scope -/
  | scopeMismatch
  /-- a proposal index is out of bounds -/
  | indexOutOfBounds
  /-- the stake of a node that is no validator is looked up -/
  | unknownNode
  /-- the data availability layer reports an equivocation at the deadline -/
  | equivocationTodo
  /-- two weak certificates without a positive one -/
  | noPositiveQc
  /-- the fallback timer fires outside of the fallback path -/
  | fallbackMissing
  /-- the fallback path is not implemented -/
  | fallbackTodo
deriving DecidableEq

/-- One value for each proposal of a slot. -/
abbrev ProposalMap (T : Type) := List T

def ProposalMap.index {T : Type} (m : ProposalMap T) (j : Nat) : Except Panic T :=
  match m[j]? with
  | some v => .ok v
  | none => .error .indexOutOfBounds

lemma ProposalMap.index_eq_ok {T : Type} {m : ProposalMap T} {j : Nat} {v : T} :
    m.index j = .ok v ↔ m[j]? = some v := by
  unfold index
  cases m[j]? <;> simp

variable {E : Types}

/-! ## Votes -/

/-- What a validator saw of a proposal. -/
inductive Entry (E : Types) where
  | positive (root : E.MerkleRoot)
  | negative
deriving DecidableEq

structure FallbackEntry (E : Types) where
  entry : Entry E
deriving DecidableEq

structure FastCommitVote (E : Types) where
  entries : ProposalMap (Entry E)
deriving DecidableEq

/-- The vote to leave the fast path. -/
inductive EnterFallbackVote where
  | mk
deriving DecidableEq

/-- What is signed: a vote with its scope.  Values of the four kinds, and of different
scopes, are different. -/
inductive VoteData (E : Types) where
  | entry (slot j : Nat) (vote : Entry E)
  | fallbackEntry (slot j : Nat) (vote : FallbackEntry E)
  | fastCommit (slot : Nat) (vote : FastCommitVote E)
  | enterFallback (slot : Nat) (vote : EnterFallbackVote)
deriving DecidableEq

/-- Kinds of votes. -/
class IsVote (E : Types) (V : Type) (Scope : outParam Type) where
  serialize : V → Scope → VoteData E

instance : IsVote E (Entry E) (Nat × Nat) where
  serialize vote scope := .entry scope.1 scope.2 vote

instance : IsVote E (FallbackEntry E) (Nat × Nat) where
  serialize vote scope := .fallbackEntry scope.1 scope.2 vote

instance : IsVote E (FastCommitVote E) Nat where
  serialize vote scope := .fastCommit scope vote

instance : IsVote E EnterFallbackVote Nat where
  serialize vote scope := .enterFallback scope vote

structure VoteMsg (E : Types) (V Scope : Type) where
  scope : Scope
  vote : V
  signature : E.Signature
deriving DecidableEq

def VoteMsg.newSigned {V Scope : Type} [IsVote E V Scope] (scope : Scope) (vote : V)
    (sign : VoteData E → E.Signature) : VoteMsg E V Scope :=
  ⟨scope, vote, sign (IsVote.serialize vote scope)⟩

/-! ## Validators -/

/-- The stakes of the validators.  Their total is taken to fit `u64`, so that no sum of stakes
overflows. -/
structure ValidatorData (E : Types) where
  valset : FiniteMap E.NodeId Nat
  nonempty : valset.keys ≠ []
  stake_pos : ∀ node stake, valset.lookup node = some stake → 0 < stake
  total_lt : ∑ node ∈ valset.keys.toFinset, (valset.lookup node).getD 0 < 2 ^ 64

variable {node : E.NodeId}

namespace ValidatorData

variable (v : ValidatorData E)

/-- The validators. -/
def nodes : Finset E.NodeId := v.valset.keys.toFinset

def stakeOf (node : E.NodeId) : Nat := (v.valset.lookup node).getD 0

def sumStake (nodes : Finset E.NodeId) : Except Panic Nat :=
  if nodes ⊆ v.nodes then .ok (∑ node ∈ nodes, v.stakeOf node) else .error .unknownNode

def totalStake : Nat := ∑ node ∈ v.nodes, v.stakeOf node

variable {v : ValidatorData E}

lemma mem_nodes : node ∈ v.nodes ↔ node ∈ v.valset := by
  rw [nodes, mem_toFinset, AList.mem_keys]

lemma stakeOf_eq_zero (h : node ∉ v.nodes) : v.stakeOf node = 0 := by
  rw [mem_nodes, ← AList.lookup_eq_none] at h
  rw [stakeOf, h]
  rfl

end ValidatorData

/-- Two thirds of a stake, rounded down, without the overflow of a doubling. -/
def Stake.supermajorityThreshold (stake : Nat) : Nat := stake / 3 * 2 + 2 * (stake % 3) / 3

/-- A third of a stake, rounded down. -/
def Stake.honestThreshold (stake : Nat) : Nat := stake / 3

lemma Stake.supermajorityThreshold_eq (stake : Nat) :
    supermajorityThreshold stake = stake * 2 / 3 := by
  unfold supermajorityThreshold
  omega

structure VoteScheme (E : Types) where
  validatorData : ValidatorData E
  /-- format check of a signature -/
  isWellFormed : E.Signature → Bool
  /-- the signers of a valid collection -/
  verify : E.SignatureCollection → VoteData E → Option (Finset E.NodeId)
  /-- aggregate the valid signatures, if their stake is above a target -/
  tryAggregate : VoteData E → FiniteMap E.NodeId E.Signature → Nat → Option E.SignatureCollection

/-- What the interface promises: signers are validators, and an aggregate verifies with
signers among the votes whose stake is above the target. -/
structure VoteScheme.Lawful (S : VoteScheme E) : Prop where
  verify_subset : ∀ sigcol data signers, S.verify sigcol data = some signers →
    signers ⊆ S.validatorData.nodes
  tryAggregate_ok : ∀ data votes target sigcol, S.tryAggregate data votes target = some sigcol →
    ∃ signers, S.verify sigcol data = some signers ∧ (∀ node ∈ signers, node ∈ votes) ∧
      target < ∑ node ∈ signers, S.validatorData.stakeOf node

/-! ## Certificates -/

/-- Certificate of more than two thirds of the stake. -/
structure StrongQc (E : Types) (V Scope : Type) where
  scope : Scope
  verdict : V
  sigcol : E.SignatureCollection
deriving DecidableEq

/-- Certificate of more than one third of the stake. -/
structure WeakQc (E : Types) (V Scope : Type) where
  scope : Scope
  verdict : V
  sigcol : E.SignatureCollection
deriving DecidableEq

def verifyAbove (S : VoteScheme E) (sigcol : E.SignatureCollection) (data : VoteData E)
    (threshold : Nat) : Bool :=
  match S.verify sigcol data with
  | none => false
  | some nodes => decide (threshold < ∑ node ∈ nodes, S.validatorData.stakeOf node)

variable {sigcol : E.SignatureCollection}

section

variable {V Scope : Type} [IsVote E V Scope]

def StrongQc.verify (S : VoteScheme E) (qc : StrongQc E V Scope) : Bool :=
  verifyAbove S qc.sigcol (IsVote.serialize qc.verdict qc.scope)
    (Stake.supermajorityThreshold S.validatorData.totalStake)

def WeakQc.verify (S : VoteScheme E) (qc : WeakQc E V Scope) : Bool :=
  verifyAbove S qc.sigcol (IsVote.serialize qc.verdict qc.scope)
    (Stake.honestThreshold S.validatorData.totalStake)

lemma verifyAbove_eq_true {S : VoteScheme E} {data : VoteData E} {threshold : Nat} :
    verifyAbove S sigcol data threshold = true ↔ ∃ signers, S.verify sigcol data = some signers ∧
        threshold < ∑ node ∈ signers, S.validatorData.stakeOf node := by
  unfold verifyAbove
  cases S.verify sigcol data <;> simp

end

/-! ## Supermajorities -/

namespace ValidatorData

/-- Nodes that hold more than two thirds of the stake. -/
def IsSuperMajority (v : ValidatorData E) (nodes : Finset E.NodeId) : Prop :=
  Quorum.IsSuperMajority v.stakeOf v.nodes nodes

/-- The validators outside `honest` hold less than one third of the stake. -/
def ByzantineMinority (v : ValidatorData E) (honest : E.NodeId → Bool) : Prop :=
  Quorum.FaultyMinority v.stakeOf v.nodes (v.nodes.filter fun node => honest node = false)

variable {v : ValidatorData E}

lemma isSuperMajority_iff {nodes : Finset E.NodeId} :
    v.IsSuperMajority nodes ↔
      Stake.supermajorityThreshold v.totalStake < ∑ node ∈ nodes, v.stakeOf node := by
  rw [Stake.supermajorityThreshold_eq]
  exact Nat.succ_le_iff

/-- Two supermajorities share an honest validator. -/
theorem exists_honest_common {honest : E.NodeId → Bool}
    (hbyz : v.ByzantineMinority honest) {s s' : Finset E.NodeId} (hs : v.IsSuperMajority s)
    (hs' : v.IsSuperMajority s') : ∃ node, node ∈ s ∧ node ∈ s' ∧ honest node = true := by
  obtain ⟨node, hmem, hmem', hnode, hnot⟩ :=
    Quorum.exists_correct_mem_inter (fun _ h => stakeOf_eq_zero h) hbyz hs hs'
  refine ⟨node, hmem, hmem', ?_⟩
  simpa [hnode] using hnot

end ValidatorData

/-! ## Vote pools -/

/-- The votes for one scope.  Every counted voter has a signature, and no voter is
counted twice. -/
structure VotePool (E : Types) (V Scope : Type) [DecidableEq V] where
  scope : Scope
  buckets : FiniteMap V (Finset E.NodeId)
  votes : FiniteMap E.NodeId E.Signature
  signed : ∀ vote voters, buckets.lookup vote = some voters → ∀ node ∈ voters, node ∈ votes
  unique : ∀ vote voters vote' voters' node, buckets.lookup vote = some voters →
    buckets.lookup vote' = some voters' → node ∈ voters → node ∈ voters' → vote = vote'

namespace VotePool

variable {V Scope : Type} [DecidableEq V]

def new (scope : Scope) : VotePool E V Scope :=
  ⟨scope, ∅, ∅, fun _ _ h => (by cases h), fun _ _ _ _ _ h => (by cases h)⟩

def voters (pool : VotePool E V Scope) (vote : V) : Finset E.NodeId :=
  (pool.buckets.lookup vote).getD ∅

variable {pool : VotePool E V Scope} {vote : V}

lemma mem_voters : node ∈ pool.voters vote ↔
    ∃ voters, pool.buckets.lookup vote = some voters ∧ node ∈ voters := by
  unfold voters
  cases pool.buckets.lookup vote <;> simp

lemma mem_votes_of_mem_voters (h : node ∈ pool.voters vote) : node ∈ pool.votes := by
  obtain ⟨voters, hlookup, hnode⟩ := mem_voters.mp h
  exact pool.signed vote voters hlookup node hnode

def insertVote (pool : VotePool E V Scope) (node : E.NodeId) (vote : V)
    (signature : E.Signature) (hnew : node ∉ pool.votes) : VotePool E V Scope where
  scope := pool.scope
  buckets := pool.buckets.insert vote (insert node (pool.voters vote))
  votes := pool.votes.insert node signature
  signed := by
    intro vote' voters' hlookup node' hnode'
    rw [AList.mem_insert]
    rw [lookup_insert_eq_ite] at hlookup
    split at hlookup
    · cases hlookup
      rcases Finset.mem_insert.mp hnode' with heq | hold
      · exact .inl heq
      · exact .inr (pool.mem_votes_of_mem_voters hold)
    · exact .inr (pool.signed vote' voters' hlookup node' hnode')
  unique := by
    have hfresh : ∀ v voters, pool.buckets.lookup v = some voters → node ∉ voters :=
      fun v voters hv hmem => hnew (pool.signed v voters hv node hmem)
    have hmem : ∀ v voters n, (pool.buckets.insert vote (insert node (pool.voters vote))).lookup v =
        some voters → n ∈ voters → (n = node ∧ v = vote) ∨
          ∃ old, pool.buckets.lookup v = some old ∧ n ∈ old := by
      intro v voters' n hlookup hn
      rw [lookup_insert_eq_ite] at hlookup
      split at hlookup
      · next heq =>
        cases hlookup
        rcases Finset.mem_insert.mp hn with hnode | hold
        · exact .inl ⟨hnode, heq⟩
        · rw [heq]
          exact .inr (mem_voters.mp hold)
      · exact .inr ⟨voters', hlookup, hn⟩
    intro v voters' v' voters'' n hv hv' hn hn'
    rcases hmem v voters' n hv hn with ⟨rfl, rfl⟩ | ⟨old, hold, hin⟩
    · rcases hmem v' voters'' n hv' hn' with ⟨_, heq⟩ | ⟨old', hold', hin'⟩
      · exact heq.symm
      · exact absurd hin' (hfresh v' old' hold')
    · rcases hmem v' voters'' n hv' hn' with ⟨rfl, _⟩ | ⟨old', hold', hin'⟩
      · exact absurd hin (hfresh v old hold)
      · exact pool.unique v old v' old' n hold hold' hin hin'

section

variable (S : VoteScheme E) (pool : VotePool E V Scope) (node : E.NodeId) (msg : VoteMsg E V Scope)

/-- Count a vote, unless its signature is malformed or the node has voted before. -/
def recordVote : VotePool E V Scope :=
  if !S.isWellFormed msg.signature then pool
  else if hold : node ∈ pool.votes then pool
  else pool.insertVote node msg.vote msg.signature hold

@[simp]
lemma recordVote_scope : (pool.recordVote S node msg).scope = pool.scope := by
  unfold recordVote
  split
  · rfl
  · split <;> rfl

variable [DecidableEq Scope]

/-- Add a vote, which is asserted to be for the scope of the pool. -/
def addVote : Except Panic { pool' : VotePool E V Scope // pool'.scope = pool.scope } :=
  if msg.scope ≠ pool.scope then .error .scopeMismatch
  else .ok ⟨pool.recordVote S node msg, recordVote_scope S pool node msg⟩

end

lemma addVote_eq_ok [DecidableEq Scope] {S : VoteScheme E} {msg : VoteMsg E V Scope}
    {pool' : { pool' : VotePool E V Scope // pool'.scope = pool.scope }} :
    pool.addVote S node msg = .ok pool' ↔
      msg.scope = pool.scope ∧ pool'.1 = pool.recordVote S node msg := by
  unfold addVote
  split
  · next hne => simp [hne]
  · next heq => simp [not_not.mp heq, Subtype.ext_iff, eq_comm]

lemma exists_addVote [DecidableEq Scope] (S : VoteScheme E) (node : E.NodeId)
    {msg : VoteMsg E V Scope} (hscope : msg.scope = pool.scope) :
    ∃ pool', pool.addVote S node msg = .ok pool' :=
  ⟨⟨_, recordVote_scope S pool node msg⟩, addVote_eq_ok.mpr ⟨hscope, rfl⟩⟩

/-- A voter for a value is the sender of the new vote, or voted for it before. -/
lemma mem_voters_recordVote {S : VoteScheme E} {msg : VoteMsg E V Scope} {node' : E.NodeId}
    (h : node' ∈ (pool.recordVote S node msg).voters vote) :
    node' ∈ pool.voters vote ∨ node' = node ∧ vote = msg.vote := by
  unfold recordVote at h
  split at h
  · exact .inl h
  split at h
  · exact .inl h
  simp only [voters, insertVote, lookup_insert_eq_ite] at h
  split at h
  · next heq =>
    subst heq
    rcases Finset.mem_insert.mp h with hnode | hold
    · exact .inr ⟨hnode, rfl⟩
    · exact .inl hold
  · exact .inl h

section

variable [IsVote E V Scope] (S : VoteScheme E)

def aggregateBuckets (pool : VotePool E V Scope) (targetStake : Nat) :
    List (V × Finset E.NodeId) → Except Panic (List (V × E.SignatureCollection))
  | [] => .ok []
  | (vote, voters) :: rest => do
    let stake ← S.validatorData.sumStake voters
    let aggs ← aggregateBuckets pool targetStake rest
    if stake ≤ targetStake then pure aggs
    else
      match S.tryAggregate (IsVote.serialize vote pool.scope)
          (pool.votes.retain fun node _ => decide (node ∈ voters)) targetStake with
      | some sigcol => pure ((vote, sigcol) :: aggs)
      | none => pure aggs

def aggregateBucket (pool : VotePool E V Scope) (targetStake : Nat)
    (bucket : V × Finset E.NodeId) : Option (V × E.SignatureCollection) :=
  if ∑ node ∈ bucket.2, S.validatorData.stakeOf node ≤ targetStake then none
  else
    (S.tryAggregate (IsVote.serialize bucket.1 pool.scope)
      (pool.votes.retain fun node _ => decide (node ∈ bucket.2)) targetStake).map (Prod.mk bucket.1)

section

variable (order : List (V × Finset E.NodeId) → List (V × Finset E.NodeId))
  (pool : VotePool E V Scope)

/-- Aggregate the buckets in the `order` in which the hash map lists them. -/
def tryAggregate (targetStake : Nat) : Except Panic (List (V × E.SignatureCollection)) :=
  aggregateBuckets S pool targetStake (order pool.buckets.pairs)

def tryFormStrongQc : Except Panic (Option (StrongQc E V Scope)) := do
  let aggs ← pool.tryAggregate S order (Stake.supermajorityThreshold S.validatorData.totalStake)
  pure (aggs.head?.map fun agg => ⟨pool.scope, agg.1, agg.2⟩)

/-- Form the certificates of more than a third of the stake, of which there are at most
two. -/
def tryFormWeakQc :
    Except Panic (Option (WeakQc E V Scope ⊕ WeakQc E V Scope × WeakQc E V Scope)) := do
  let aggs ← pool.tryAggregate S order (Stake.honestThreshold S.validatorData.totalStake)
  let qcs : List (WeakQc E V Scope) := aggs.map fun agg => ⟨pool.scope, agg.1, agg.2⟩
  pure <| match qcs with
    | [] => none
    | [qc] => some (.inl qc)
    | qc₁ :: qc₂ :: _ => some (.inr (qc₁, qc₂))

end

variable {S} {aggs : List (V × E.SignatureCollection)} {targetStake : Nat}

lemma aggregateBucket_eq_some {bucket : V × Finset E.NodeId}
    {agg : V × E.SignatureCollection} : aggregateBucket S pool targetStake bucket = some agg ↔
      targetStake < ∑ node ∈ bucket.2, S.validatorData.stakeOf node ∧ bucket.1 = agg.1 ∧
        S.tryAggregate (IsVote.serialize bucket.1 pool.scope)
          (pool.votes.retain fun node _ => decide (node ∈ bucket.2)) targetStake = some agg.2 := by
  unfold aggregateBucket
  split
  · next hle => simp [not_lt.mpr hle]
  · next hlt =>
    rw [Option.map_eq_some_iff, and_iff_right (Nat.lt_of_not_le hlt)]
    constructor
    · rintro ⟨sigcol, hagg, rfl⟩
      exact ⟨rfl, hagg⟩
    · rintro ⟨hvote, hagg⟩
      exact ⟨agg.2, hagg, Prod.ext hvote rfl⟩

/-- The buckets are aggregated one by one, if only validators voted. -/
lemma aggregateBuckets_ends {buckets : List (V × Finset E.NodeId)} :
    Ends (aggregateBuckets S pool targetStake buckets)
      (· = buckets.filterMap (aggregateBucket S pool targetStake))
      fun _ => ∃ bucket ∈ buckets, ¬ bucket.2 ⊆ S.validatorData.nodes := by
  induction buckets with
  | nil => rfl
  | cons bucket rest ih =>
    obtain ⟨vote, voters⟩ := bucket
    simp only [aggregateBuckets, ValidatorData.sumStake]
    split
    · refine ih.bind (fun _ ⟨b, hb, hnot⟩ => ⟨b, mem_cons_of_mem _ hb, hnot⟩) ?_
      rintro _ rfl
      rw [filterMap_cons]
      simp only [aggregateBucket]
      split
      · rfl
      · cases S.tryAggregate (IsVote.serialize vote pool.scope)
          (pool.votes.retain fun node _ => decide (node ∈ voters)) targetStake <;> rfl
    · next hnot => exact ⟨_, mem_cons_self, hnot⟩

variable (hS : S.Lawful) {order : List (V × Finset E.NodeId) → List (V × Finset E.NodeId)}
  (horder : ∀ l, (order l).Perm l)
include hS horder

/-- An aggregate of a pool verifies, and its signers voted for the value. -/
lemma tryAggregate_ok (h : pool.tryAggregate S order targetStake = .ok aggs)
    (hmem : (vote, sigcol) ∈ aggs) :
    ∃ signers, S.verify sigcol (IsVote.serialize vote pool.scope) = some signers ∧
      signers ⊆ pool.voters vote ∧
      targetStake < ∑ node ∈ signers, S.validatorData.stakeOf node := by
  rw [aggregateBuckets_ends.ok h, mem_filterMap] at hmem
  obtain ⟨⟨vote', voters'⟩, hin, hbucket⟩ := hmem
  obtain ⟨-, rfl, hagg⟩ := aggregateBucket_eq_some.mp hbucket
  have hlookup : pool.buckets.lookup vote' = some voters' :=
    mem_pairs.mp ((horder _).mem_iff.mp hin)
  obtain ⟨signers, hverify, hsigners, hstake⟩ := hS.tryAggregate_ok _ _ _ _ hagg
  refine ⟨signers, hverify, fun node hnode => ?_, hstake⟩
  obtain ⟨signature, hsig⟩ := mem_iff_lookup.mp (hsigners node hnode)
  rw [lookup_retain, Option.filter_eq_some_iff] at hsig
  rw [voters, hlookup]
  exact of_decide_eq_true hsig.2

/-- A certificate formed from a pool is of the pool's scope, verifies, and its signers
voted for its verdict. -/
theorem tryFormStrongQc_ok {qc : StrongQc E V Scope}
    (h : pool.tryFormStrongQc S order = .ok (some qc)) :
    qc.scope = pool.scope ∧ qc.verify S = true ∧
      ∃ signers, S.verify qc.sigcol (IsVote.serialize qc.verdict qc.scope) = some signers ∧
        signers ⊆ pool.voters qc.verdict := by
  unfold tryFormStrongQc at h
  rw [bind_eq_ok] at h
  obtain ⟨aggs, haggs, h⟩ := h
  cases aggs with
  | nil => cases h
  | cons agg rest =>
    cases h
    obtain ⟨signers, hverify, hsub, hstake⟩ :=
      tryAggregate_ok hS horder haggs mem_cons_self
    refine ⟨rfl, verifyAbove_eq_true.mpr ⟨signers, hverify, hstake⟩, signers, hverify, hsub⟩

end

end VotePool

end Mcp

end Kinet
