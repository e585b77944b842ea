import Kinet.BlockTree.BlockTree
import Kinet.Consensus.Message
import Kinet.ConsensusTypes.Mock
import Kinet.Foundation.History

/-!
# Blocks held during state sync

While a node syncs, it keeps the blocks at and below the root that it syncs to.  It goes live
once it holds enough of them; `needsBlocksync` says which it still has to ask for.

Main results:

- `blocksync_exact`: what is asked for is missing, and with it nothing is missing.
- `blocksync_asks_for_genesis`: on a chain shorter than the window, the block before
  the first one is asked for, which does not exist.
-/

namespace Kinet

open List BlockId FiniteMap

variable {K : TypeParams}

structure BlockBuffer (K : TypeParams) where
  maxBufferedProposals : Nat
  resyncThreshold : Nat
  minNumBlocks : Nat
  root : BlockId K
  /-- blocks up to the root -/
  fullBlocks : FiniteMap (BlockId K) (ConsensusFullBlock K)
  payloadCache : FiniteMap K.BodyId K.Body
  /-- headers from the root on -/
  blockHeaders : FiniteMap (BlockId K) (ConsensusBlockHeader K)
  proposalBuffer : List (K.NodeId × ProposalMessage K)

namespace BlockBuffer

def new (executionDelay : Nat) (root : BlockId K) (resyncThreshold : Nat) : BlockBuffer K where
  maxBufferedProposals := resyncThreshold
  resyncThreshold := resyncThreshold
  minNumBlocks := min (executionDelay * 2) (2 ^ 64 - 1)
  root := root
  fullBlocks := ∅
  payloadCache := ∅
  blockHeaders := ∅
  proposalBuffer := []

variable (b : BlockBuffer K)

def rootSeqNum : Option Nat :=
  if b.root = .genesis then some genesisSeqNum
  else (b.fullBlocks.lookup b.root).map (·.getSeqNum)

/-- The block that a certificate commits, if it is far enough ahead to sync to it. -/
def resyncTarget (rootSeqNum : Nat) (qc : QuorumCertificate K) :
    Checked (Option (ConsensusBlockHeader K × QuorumCertificate K)) :=
  match b.blockHeaders.lookup qc.getBlockId with
  | none => pure none
  | some qcParentBlock =>
    match qc.getCommittableId qcParentBlock with
    | .error _ => throw .assertion
    | .ok none => pure none
    | .ok (some finalizedBlockId) =>
      match b.blockHeaders.lookup finalizedBlockId with
      | none => pure none
      | some finalizedBlock =>
        if finalizedBlock.seqNum ≤ rootSeqNum + b.resyncThreshold then pure none
        else pure (some (finalizedBlock, qc))

variable (author : K.NodeId) (proposal : ProposalMessage K)

/-- A proposal in the buffer, from which the oldest one falls out. -/
def push : BlockBuffer K :=
  let header := proposal.tip.blockHeader
  let proposals := b.proposalBuffer ++ [(author, proposal)]
  { b with
    blockHeaders := b.blockHeaders.insert header.getId header
    proposalBuffer :=
      if b.maxBufferedProposals < proposals.length then proposals.tail else proposals }

def handleProposal :
    Checked (BlockBuffer K × Option (ConsensusBlockHeader K × QuorumCertificate K)) :=
  match b.rootSeqNum with
  | none => pure (b, none)
  | some rootSeqNum =>
    if proposal.tip.blockHeader.seqNum < rootSeqNum then pure (b, none)
    else do
      let target ← (b.push author proposal).resyncTarget rootSeqNum proposal.tip.blockHeader.qc
      pure (b.push author proposal, target)

def handleBlocksync (block : ConsensusFullBlock K) : BlockBuffer K :=
  if b.rootSeqNum.any (fun rootSeqNum => rootSeqNum < block.getSeqNum) then b
  else { b with
    payloadCache := b.payloadCache.insert block.getBodyId block.body
    fullBlocks := b.fullBlocks.insert block.getId block }

/-- The blocks held after `newRoot` has become the root: those in the window, and those that
were proposed. -/
def rerooted (newRoot : ConsensusBlockHeader K) : FiniteMap (BlockId K) (ConsensusFullBlock K) :=
  let kept := b.fullBlocks.retain fun _ block =>
    newRoot.seqNum ≤ block.getSeqNum + b.minNumBlocks
  b.proposalBuffer.foldl (fun fullBlocks e =>
    let header := e.2.tip.blockHeader
    if header.seqNum ≤ newRoot.seqNum then
      match ConsensusFullBlock.new header e.2.blockBody with
      | some fullBlock => fullBlocks.insert header.getId fullBlock
      | none => fullBlocks
    else fullBlocks) kept

def reRoot (newRoot : ConsensusBlockHeader K) : BlockBuffer K :=
  let fullBlocks := b.rerooted newRoot
  { b with
    fullBlocks := fullBlocks
    blockHeaders := b.blockHeaders.retain fun _ header => newRoot.seqNum ≤ header.seqNum
    root := newRoot.getId
    payloadCache := (fullBlocks.pairs.map Prod.snd).foldl
      (fun cache block => cache.insert block.getBodyId block.body) ∅ }

def chainFrom (fullBlocks : FiniteMap (BlockId K) (ConsensusFullBlock K)) :
    Nat → BlockId K → List (ConsensusFullBlock K)
  | 0, _ => []
  | rounds + 1, nextBlockId =>
    match fullBlocks.lookup nextBlockId with
    | none => []
    | some block => block :: chainFrom fullBlocks rounds block.getParentId

/-- The chain of blocks that starts with the root; no id occurs twice on the way down. -/
def rootParentChain : List (ConsensusFullBlock K) :=
  chainFrom b.fullBlocks b.root.ancestors.length b.root

def needsBlocksync : Option (BlockRange K) :=
  if b.root = .genesis then none
  else
    match b.rootParentChain.getLast? with
    | none => some ⟨b.root, b.minNumBlocks⟩
    | some last =>
      if b.rootParentChain.length < b.minNumBlocks then
        some ⟨last.getParentId, b.minNumBlocks - b.rootParentChain.length⟩
      else none

/-! ## The held part of a chain -/

/-- The sequence number of a block is its distance from genesis. -/
def Numbered (header : ConsensusBlockHeader K) : Prop :=
  header.seqNum + 1 = header.getId.ancestors.length

def Holds (id : BlockId K) : Bool := (b.fullBlocks.lookup id).isSome

/-- The number of blocks held without a gap, from the root on. -/
def depth : Nat := (b.root.ancestors.takeWhile b.Holds).length

/-- Held blocks are found under their ids, and the blocks are those of a chain from genesis. -/
structure WellFormed : Prop where
  keyed : ∀ id block, b.fullBlocks.lookup id = some block → block.getId = id
  numbered : ∀ id block, b.fullBlocks.lookup id = some block → Numbered block.header
  proposals : ∀ e ∈ b.proposalBuffer, Numbered e.2.tip.blockHeader

variable {b}

/-- Where the walk from `id` ends. -/
def stop (id : BlockId K) (chain : List (ConsensusFullBlock K)) : BlockId K :=
  chain.getLast?.elim id (·.getParentId)

/-- The walk visits the ancestors up to the first one that is not held. -/
lemma WellFormed.chainFrom_spec (h : b.WellFormed) {rounds : Nat} {id : BlockId K}
    (hrounds : id.ancestors.length ≤ rounds) :
    (chainFrom b.fullBlocks rounds id).length = (id.ancestors.takeWhile b.Holds).length ∧
      id.ancestors[(id.ancestors.takeWhile b.Holds).length]? =
        some (stop id (chainFrom b.fullBlocks rounds id)) ∧
      b.fullBlocks.lookup (stop id (chainFrom b.fullBlocks rounds id)) = none := by
  induction rounds generalizing id with
  | zero => cases id <;> simp [ancestors] at hrounds
  | succ rounds ih =>
    rw [chainFrom]
    cases hlookup : b.fullBlocks.lookup id with
    | none =>
      have hheld : b.Holds id = false := by simp [Holds, hlookup]
      cases id <;> simp [ancestors, hheld, stop, hlookup]
    | some block =>
      have hheld : b.Holds id = true := by simp [Holds, hlookup]
      have hancestors : id.ancestors = id :: block.getParentId.ancestors := by
        rw [← h.keyed _ _ hlookup]
        exact ancestors_getId block.header
      rw [hancestors, length_cons] at hrounds
      obtain ⟨hlength, hget, hmissing⟩ := @ih block.getParentId (by omega)
      have hstop : stop id (block :: chainFrom b.fullBlocks rounds block.getParentId) =
          stop block.getParentId (chainFrom b.fullBlocks rounds block.getParentId) := by
        rw [stop, getLast?_cons, stop]
        cases (chainFrom b.fullBlocks rounds block.getParentId).getLast? <;> rfl
      rw [hancestors, takeWhile_cons_of_pos hheld]
      exact ⟨by simp [hlength], by simpa [hstop] using hget, hstop ▸ hmissing⟩

lemma WellFormed.length_rootParentChain (h : b.WellFormed) : b.rootParentChain.length = b.depth :=
  (h.chainFrom_spec le_rfl).1

/-- What is asked for begins with the first ancestor that is not held. -/
lemma WellFormed.needsBlocksync_eq (h : b.WellFormed) (hroot : b.root ≠ .genesis)
    (hmin : 1 ≤ b.minNumBlocks) :
    b.needsBlocksync = if b.depth < b.minNumBlocks then
      some ⟨stop b.root b.rootParentChain, b.minNumBlocks - b.depth⟩ else none := by
  unfold needsBlocksync
  rw [if_neg hroot, ← h.length_rootParentChain, stop]
  cases hlast : b.rootParentChain.getLast? with
  | none =>
    rw [getLast?_eq_none_iff] at hlast
    simp [hlast, lt_of_lt_of_le zero_lt_one hmin]
  | some last => rfl

/-- A window that is held from the root on leaves nothing to ask for. -/
lemma WellFormed.needsBlocksync_eq_none (h : b.WellFormed) (hmin : 1 ≤ b.minNumBlocks)
    (hheld : ∀ id ∈ b.root.ancestors.take b.minNumBlocks, b.Holds id = true)
    (hlong : b.minNumBlocks ≤ b.root.ancestors.length) : b.needsBlocksync = none := by
  by_cases hroot : b.root = .genesis
  · rw [needsBlocksync, if_pos hroot]
  · have hdepth : b.minNumBlocks ≤ b.depth := by
      unfold depth
      rw [← take_append_drop b.minNumBlocks b.root.ancestors,
        takeWhile_append_of_pos hheld, length_append, length_take]
      omega
    rw [h.needsBlocksync_eq hroot hmin, if_neg (by omega)]

/-! ## The handlers -/

variable {block : ConsensusFullBlock K}

lemma WellFormed.insert (h : b.WellFormed)
    (hblock : Numbered block.header) (cache : FiniteMap K.BodyId K.Body) :
    { b with payloadCache := cache, fullBlocks := b.fullBlocks.insert block.getId block }.WellFormed
    where
  keyed := by
    exact forall_insert h.keyed rfl
  numbered := by
    exact forall_insert h.numbered hblock
  proposals := h.proposals

lemma WellFormed.handleBlocksync (h : b.WellFormed)
    (hblock : Numbered block.header) : (b.handleBlocksync block).WellFormed := by
  unfold BlockBuffer.handleBlocksync
  split
  · exact h
  · exact h.insert hblock _

lemma WellFormed.reRoot (h : b.WellFormed) (newRoot : ConsensusBlockHeader K) :
    (b.reRoot newRoot).WellFormed := by
  have hheld : ∀ id block, (b.rerooted newRoot).lookup id = some block →
      block.getId = id ∧ Numbered block.header := by
    have hkept : ∀ id block, (b.fullBlocks.retain fun _ block =>
        newRoot.seqNum ≤ block.getSeqNum + b.minNumBlocks).lookup id = some block →
        block.getId = id ∧ Numbered block.header := by
      intro id block hlookup
      rw [lookup_retain, Option.filter_eq_some_iff] at hlookup
      exact ⟨h.keyed _ _ hlookup.1, h.numbered _ _ hlookup.1⟩
    have hproposals := h.proposals
    unfold rerooted
    revert hkept hproposals
    generalize b.proposalBuffer = proposals
    generalize b.fullBlocks.retain _ = kept
    induction proposals generalizing kept with
    | nil => exact fun hkept _ => hkept
    | cons e proposals ih =>
      intro hkept hproposals
      rw [forall_mem_cons] at hproposals
      refine ih _ ?_ hproposals.2
      intro id block hlookup
      dsimp only at hlookup
      split at hlookup
      · split at hlookup
        · next fullBlock hnew =>
          rw [lookup_insert_eq_ite] at hlookup
          split at hlookup
          · next hid =>
            cases hlookup
            have hheader := (ConsensusFullBlock.new_eq_some hnew).1
            rw [ConsensusFullBlock.getId, hheader]
            exact ⟨hid.symm, hproposals.1⟩
          · exact hkept id block hlookup
        · exact hkept id block hlookup
      · exact hkept id block hlookup
  exact ⟨fun id block hlookup => (hheld id block hlookup).1,
    fun id block hlookup => (hheld id block hlookup).2, h.proposals⟩

variable {author : K.NodeId} {proposal : ProposalMessage K}

lemma handleProposal_cases {b' : BlockBuffer K}
    {target : Option (ConsensusBlockHeader K × QuorumCertificate K)}
    (h : b.handleProposal author proposal = .ok (b', target)) :
    b' = b ∨ b' = b.push author proposal := by
  unfold handleProposal at h
  split at h
  · cases h
    exact .inl rfl
  split at h
  · cases h
    exact .inl rfl
  · simp only [Checked.bind_eq_ok] at h
    obtain ⟨_, -, hpure⟩ := h
    cases hpure
    exact .inr rfl

lemma WellFormed.push (h : b.WellFormed)
    (hheader : Numbered proposal.tip.blockHeader) : (b.push author proposal).WellFormed := by
  refine ⟨h.keyed, h.numbered, fun e he => ?_⟩
  have hmem : e ∈ b.proposalBuffer ++ [(author, proposal)] := by
    dsimp only [BlockBuffer.push] at he
    split at he
    · exact mem_of_mem_tail he
    · exact he
  rcases mem_append.mp hmem with hmem | hmem
  · exact h.proposals e hmem
  · exact mem_singleton.mp hmem ▸ hheader

/-! ## Runs -/

inductive Event (K : TypeParams) where
  | proposal (author : K.NodeId) (proposal : ProposalMessage K)
  | blocksync (block : ConsensusFullBlock K)
  | reRoot (newRoot : ConsensusBlockHeader K)

def step (b : BlockBuffer K) : Event K →
    Checked (BlockBuffer K × Option (ConsensusBlockHeader K × QuorumCertificate K))
  | .proposal author proposal => b.handleProposal author proposal
  | .blocksync block => pure (b.handleBlocksync block, none)
  | .reRoot newRoot => pure (b.reRoot newRoot, none)

def Event.header : Event K → ConsensusBlockHeader K
  | .proposal _ message => message.tip.blockHeader
  | .blocksync block => block.header
  | .reRoot newRoot => newRoot

/-- Blocks are those of a chain that begins with genesis. -/
abbrev OnChain {ω σ : Type} (_ : List ω) (_ : σ) (e : Event K) : Prop := Numbered e.header

instance (header : ConsensusBlockHeader K) : Decidable (Numbered header) :=
  inferInstanceAs (Decidable (_ = _))

lemma wellFormed_of_run {delay threshold : Nat} {root : BlockId K}
    {history : List (Event K × Option (ConsensusBlockHeader K × QuorumCertificate K))}
    (hrun : Run step OnChain (new delay root threshold) history b) :
    b.WellFormed ∧ b.minNumBlocks = min (delay * 2) (2 ^ 64 - 1) := by
  apply hrun.invariant (I := fun _ b => b.WellFormed ∧ b.minNumBlocks = min (delay * 2) (2 ^ 64 - 1))
  · exact ⟨⟨by simp [new], by simp [new], by simp [new]⟩, rfl⟩
  · rintro history b e b' o ⟨h, hmin⟩ honChain hstep
    cases e with
    | proposal author proposal =>
      rcases handleProposal_cases hstep with rfl | rfl
      · exact ⟨h, hmin⟩
      · exact ⟨h.push honChain, hmin⟩
    | blocksync block =>
      cases hstep
      refine ⟨h.handleBlocksync honChain, ?_⟩
      unfold BlockBuffer.handleBlocksync
      split <;> exact hmin
    | reRoot newRoot =>
      cases hstep
      exact ⟨h.reRoot newRoot, hmin⟩

lemma WellFormed.handleBlocksync_eq (h : b.WellFormed) (hroot : b.root ≠ .genesis)
    (hblock : Numbered block.header) (hbelow : b.root.Extends block.getId) :
    b.handleBlocksync block = { b with
      payloadCache := b.payloadCache.insert block.getBodyId block.body
      fullBlocks := b.fullBlocks.insert block.getId block } := by
  refine if_neg ?_
  rw [rootSeqNum, if_neg hroot]
  cases hlookup : b.fullBlocks.lookup b.root with
  | none => simp
  | some root =>
    have hle := (ancestors_suffix hbelow).length_le
    have hnumber : block.getSeqNum + 1 = block.getId.ancestors.length := hblock
    have hrootNumber : root.getSeqNum + 1 = root.getId.ancestors.length := h.numbered _ _ hlookup
    rw [h.keyed _ _ hlookup] at hrootNumber
    simp only [Option.map_some, Option.any_some, decide_eq_true_eq]
    omega

/-- After a list of blocks below the root, these and the blocks from before are held. -/
lemma WellFormed.foldl_handleBlocksync (h : b.WellFormed) (hroot : b.root ≠ .genesis)
    (blocks : List (ConsensusFullBlock K))
    (hblocks : ∀ x ∈ blocks, Numbered x.header ∧ b.root.Extends x.getId) :
    (blocks.foldl BlockBuffer.handleBlocksync b).WellFormed ∧
      (blocks.foldl BlockBuffer.handleBlocksync b).root = b.root ∧
      (blocks.foldl BlockBuffer.handleBlocksync b).minNumBlocks = b.minNumBlocks ∧
      ∀ id, b.Holds id = true ∨ (∃ x ∈ blocks, x.getId = id) →
        (blocks.foldl BlockBuffer.handleBlocksync b).Holds id = true := by
  induction blocks generalizing b with
  | nil => simpa using h
  | cons x blocks ih =>
    rw [forall_mem_cons] at hblocks
    rw [foldl_cons, h.handleBlocksync_eq hroot hblocks.1.1 hblocks.1.2]
    obtain ⟨hwf, hsame, hmin, hheld⟩ := ih (h.insert hblocks.1.1 _) hroot hblocks.2
    refine ⟨hwf, hsame, hmin, ?_⟩
    intro id hid
    apply hheld
    simp only [mem_cons, exists_eq_or_imp] at hid
    rw [Holds, lookup_insert_eq_ite]
    rcases hid with hid | rfl | hid
    · left
      split
      · rfl
      · exact hid
    · simp
    · exact .inr hid

/-- **Block sync asks for exactly what is missing.**  If the chain below the root is at least as
long as the window, then nothing is asked for exactly if the root is genesis, the window is held
or the first block of the chain is reached; otherwise a missing block is asked for, and once all
blocks of the range have come, in any order, nothing is missing. -/
theorem blocksync_exact {delay threshold : Nat} {root : BlockId K}
    {history : List (Event K × Option (ConsensusBlockHeader K × QuorumCertificate K))}
    (hrun : Run step OnChain (new delay root threshold) history b) (hdelay : 1 ≤ delay * 2)
    (hlong : b.root = .genesis ∨ b.minNumBlocks < b.root.ancestors.length) :
    (b.needsBlocksync = none ↔ b.root = .genesis ∨ b.minNumBlocks ≤ b.rootParentChain.length ∨
      ∃ last, b.rootParentChain.getLast? = some last ∧ last.getParentId = .genesis) ∧
    ∀ range, b.needsBlocksync = some range →
      b.fullBlocks.lookup range.lastBlockId = none ∧ range.lastBlockId ≠ .genesis ∧
      ∀ blocks : List (ConsensusFullBlock K), (∀ x ∈ blocks, Numbered x.header ∧
          x.getId ∈ range.lastBlockId.ancestors.take range.numBlocks) →
        (∀ id ∈ range.lastBlockId.ancestors.take range.numBlocks, id ≠ .genesis →
          ∃ x ∈ blocks, x.getId = id) →
        (blocks.foldl handleBlocksync b).needsBlocksync = none := by
  obtain ⟨h, hminimum⟩ := wellFormed_of_run hrun
  have hmin : 1 ≤ b.minNumBlocks := by
    rw [hminimum]
    exact le_min hdelay (by norm_num)
  by_cases hroot : b.root = .genesis
  · simp [needsBlocksync, hroot]
  have hlong := hlong.resolve_left hroot
  have hneeds := h.needsBlocksync_eq hroot hmin
  obtain ⟨-, hget, hmissing⟩ := h.chainFrom_spec (le_refl b.root.ancestors.length)
  have hbelow := ancestors_of_getElem? hget
  -- genesis is the last of the ancestors, beyond the window
  have hwindow : ∀ i, b.root.ancestors[i]? = some .genesis → b.minNumBlocks ≤ i := by
    intro i hi
    have hlength := congrArg List.length (ancestors_of_getElem? hi)
    have hone : (genesis : BlockId K).ancestors.length = 1 := rfl
    rw [hone, length_drop] at hlength
    omega
  have hgenesis : stop b.root b.rootParentChain = .genesis → b.minNumBlocks ≤ b.depth :=
    fun hstop => hwindow _ (hstop ▸ hget)
  by_cases hdepth : b.depth < b.minNumBlocks
  · rw [if_pos hdepth] at hneeds
    refine ⟨⟨fun hnone => by simp [hneeds] at hnone, ?_⟩, ?_⟩
    · rintro (hgen | hlen | ⟨last, hlast, hparent⟩)
      · exact absurd hgen hroot
      · rw [h.length_rootParentChain] at hlen
        omega
      · have := hgenesis (by simp [stop, hlast, hparent])
        omega
    · rintro range hrange
      rw [hneeds] at hrange
      cases hrange
      refine ⟨hmissing, fun hstop => absurd (hgenesis hstop) (by omega), ?_⟩
      intro blocks hblocks hall
      -- the range lies below the root
      have hsuffix : ∀ id ∈ (stop b.root b.rootParentChain).ancestors, b.root.Extends id := by
        intro id hid
        exact mem_of_mem_drop (hbelow ▸ hid)
      obtain ⟨hwf, hsame, hminimum', hheld⟩ := h.foldl_handleBlocksync hroot blocks
        fun x hx => ⟨(hblocks x hx).1, hsuffix _ (mem_of_mem_take (hblocks x hx).2)⟩
      apply hwf.needsBlocksync_eq_none (hminimum' ▸ hmin)
      · rw [hsame, hminimum']
        intro id hid
        have hne : id ≠ .genesis := by
          rintro rfl
          obtain ⟨i, hi⟩ := mem_iff_getElem?.mp hid
          rw [getElem?_take] at hi
          split at hi
          · have := hwindow i hi
            omega
          · cases hi
        apply hheld
        rw [← Nat.add_sub_cancel' hdepth.le, take_add, mem_append] at hid
        rcases hid with hid | hid
        · left
          have htake : b.root.ancestors.take b.depth = b.root.ancestors.takeWhile b.Holds :=
            prefix_iff_eq_take.mp ( takeWhile_prefix _) |>.symm
          exact all_eq_true.mp all_takeWhile id (htake ▸ hid)
        · right
          refine hall id ?_ hne
          rw [show (stop b.root b.rootParentChain).ancestors = _ from hbelow]
          exact hid
      · rw [hsame, hminimum']
        exact hlong.le
  · rw [if_neg hdepth] at hneeds
    refine ⟨⟨fun _ => .inr (.inl ?_), fun _ => hneeds⟩, fun range hrange => ?_⟩
    · rw [h.length_rootParentChain]
      omega
    · simp [hneeds] at hrange

def sampleChain : ConsensusFullBlock mockTypes × ConsensusFullBlock mockTypes :=
  let first := mockBlock 1 1 ⟨.genesis, 0, 1⟩
  (first, mockBlock 2 2 ⟨first.getId, 1, 1⟩)

/-- The root is the second block, the window has two blocks, and nothing is held. -/
theorem blocksync_exact_two :
    (new 1 sampleChain.2.getId 10).needsBlocksync = some ⟨sampleChain.2.getId, 2⟩ ∧
      ([sampleChain.1, sampleChain.2].foldl handleBlocksync
        (new 1 sampleChain.2.getId 10)).needsBlocksync = none := by
  have hneeds : (new 1 sampleChain.2.getId 10).needsBlocksync = some ⟨sampleChain.2.getId, 2⟩ := by
    decide +kernel
  refine ⟨hneeds, ?_⟩
  exact ((blocksync_exact .start (by decide) (.inr (by decide +kernel))).2 _ hneeds).2.2 _
    (by decide +kernel) (by decide +kernel)

/-- **Genesis is asked for.**  The root is the first block of the chain and is held, but the
window has two blocks. -/
theorem blocksync_asks_for_genesis :
    ∃ history b, Run step OnChain (new 1 sampleChain.1.getId 10) history b ∧
      b.rootParentChain = [sampleChain.1] ∧ sampleChain.1.getParentId = .genesis ∧
      b.needsBlocksync = some ⟨.genesis, 1⟩ := by
  obtain ⟨history, b, hrun, hchain⟩ := Run.exists_of_replay step OnChain
    (new 1 sampleChain.1.getId 10) [.blocksync sampleChain.1]
    (P := fun _ b => b.rootParentChain = [sampleChain.1] ∧ b.needsBlocksync = some ⟨.genesis, 1⟩)
    (by decide +kernel)
  exact ⟨history, b, hrun, hchain.1, rfl, hchain.2⟩

end BlockBuffer

end Kinet
