import Kinet.BlockTree.Tree
import Kinet.Foundation.Forest

/-!
# The block tree

The uncommitted blocks above the last committed block: adding blocks in any order,
marking blocks coherent once their branch passes the block policy, and pruning to a newly
committed block.

Loops over parent links have the depth of the starting id as fuel, breadth-first passes
the number of blocks; this never runs out.
-/

namespace Kinet

open ConsensusFullBlock

variable {K : TypeParams}

/-- The last committed block and its known children. -/
structure Root (K : TypeParams) where
  info : RootInfo K
  childrenBlocks : List (BlockId K)

/-- Uncommitted blocks above the last committed block. -/
structure BlockTree (K : TypeParams) where
  root : Root K
  tree : Tree K

/-- A chain segment to request from peers. -/
structure BlockRange (K : TypeParams) where
  lastBlockId : BlockId K
  numBlocks : Nat
deriving DecidableEq

namespace QuorumCertificate

/-- The block that the commit rule commits; `qcParentBlock` must be the certified
block. -/
def getCommittableId (qc : QuorumCertificate K) (qcParentBlock : ConsensusBlockHeader K) :
    Except TreePanic (Option (BlockId K)) :=
  if qc.info.id ≠ qcParentBlock.getId then .error .qcBlockMismatch
  else if qc.info.round = qcParentBlock.qc.info.round + 1 then .ok (some qcParentBlock.getParentId)
  else .ok none

end QuorumCertificate

namespace BlockTree

def new (root : RootInfo K) : BlockTree K := ⟨⟨root, []⟩, Tree.empty⟩

def isCoherent (t : BlockTree K) (b : BlockId K) : Bool :=
  if b = t.root.info.blockId then true
  else
    match t.tree.get b with
    | some entry => entry.isCoherent
    | none => false

/-- Blocks from `visit` up to a child of the root, deepest first. -/
def pathUp (t : BlockTree K) : Nat → BlockId K → Option (List (ConsensusFullBlock K))
  | 0, _ => none
  | fuel + 1, visit =>
    match t.tree.get visit with
    | none => none
    | some entry =>
      let btb := entry.validatedBlock
      if btb.getParentId = t.root.info.blockId then some [btb]
      else (pathUp t fuel btb.getParentId).map (btb :: ·)

/-- Blocks from the root (exclusive) to `b` (inclusive). -/
def getBlocksOnPathFromRoot (t : BlockTree K) (b : BlockId K) :
    Option (List (ConsensusFullBlock K)) :=
  if b = t.root.info.blockId then some []
  else (t.pathUp b.ancestors.length b).map List.reverse

/-- Whether a block is new and above the root. -/
def isValidToInsert (t : BlockTree K) (b : ConsensusBlockHeader K) : Bool :=
  (t.tree.get b.getId).isNone && decide (t.root.info.round < b.blockRound)

def add (t : BlockTree K) (block : ConsensusFullBlock K) : Except TreePanic (BlockTree K) :=
  if !t.isValidToInsert block.header then .ok t
  else do
    let tree ← t.tree.insert block
    let childrenBlocks :=
      if block.getParentId = t.root.info.blockId then t.root.childrenBlocks ++ [block.getId]
      else t.root.childrenBlocks
    pure ⟨⟨t.root.info, childrenBlocks⟩, tree⟩

/-! ## Coherency -/

/-- Check the queued blocks against the policy; a block that passes is marked and
its children are queued. -/
def updateCoherencyLoop (policy : BlockPolicy K) (blockPolicy : K.BPT) :
    Nat → BlockTree K → K.ESRT → List (BlockId K) → List (ConsensusFullBlock K) →
      Except TreePanic (List (ConsensusFullBlock K) × BlockTree K × K.ESRT)
  | _, t, stateRead, [], retval => .ok (retval, t, stateRead)
  | 0, _, _, _ :: _, _ => .error .outOfFuel
  | fuel + 1, t, stateRead, nextBlockId :: queue, retval =>
    match t.getBlocksOnPathFromRoot nextBlockId with
    | none => .error .pathToRootMissing
    | some path =>
      match path.getLast? with
      | none => .error .blockMissing
      | some nextBlock =>
        let extendingBlocks := path.dropLast
        let (verdict, stateRead) :=
          policy.checkCoherency blockPolicy nextBlock extendingBlocks t.root.info stateRead
        match verdict with
        | .ok () =>
          match t.tree.setCoherent nextBlockId true with
          | none => .error .blockMissing
          | some tree =>
            updateCoherencyLoop policy blockPolicy fuel { t with tree := tree } stateRead
              (queue ++ tree.childrenAt nextBlockId) (retval ++ [nextBlock])
        | .error _ => updateCoherencyLoop policy blockPolicy fuel t stateRead queue retval

/-- Mark the blocks that have become coherent, starting at the first incoherent
block on the way to `blockId`.  Returns the newly coherent blocks. -/
def tryUpdateCoherency (policy : BlockPolicy K) (blockPolicy : K.BPT) (t : BlockTree K)
    (stateRead : K.ESRT) (blockId : BlockId K) :
    Except TreePanic (List (ConsensusFullBlock K) × BlockTree K × K.ESRT) :=
  match t.getBlocksOnPathFromRoot blockId with
  | none => .ok ([], t, stateRead)
  | some pathFromRoot =>
    match pathFromRoot.find? fun block => !t.tree.flagAt block.getId with
    | none => .ok ([], t, stateRead)
    | some incoherentParentOrSelf =>
      updateCoherencyLoop policy blockPolicy t.tree.len t stateRead
        [incoherentParentOrSelf.getId] []

/-! ## Pruning -/

/-- Remove the branch of the new root, from the new root upwards. -/
def pruneLoop (rootId : BlockId K) : Nat → Tree K → BlockTreeEntry K → List (ConsensusFullBlock K) →
      Except TreePanic (List (ConsensusFullBlock K) × Tree K)
  | 0, _, _, _ => .error .outOfFuel
  | fuel + 1, t, entryToCommit, commit =>
    if !entryToCommit.isCoherent then .error .entryIncoherent
    else
      let validatedBlock := entryToCommit.validatedBlock
      let parentId := validatedBlock.getParentId
      let commit := commit ++ [validatedBlock]
      if parentId = rootId then .ok (commit, t)
      else do
        let (removed, t) ← t.remove parentId
        match removed with
        | none => .error .pathToRootMissing
        | some entry => pruneLoop rootId fuel t entry commit

def removeAll : List (BlockId K) → Tree K → Except TreePanic (Tree K)
  | [], t => .ok t
  | id :: ids, t => do
    let (_, t) ← t.remove id
    removeAll ids t

/-- Blocks whose parent was certified before `round`. -/
def blocksToDelete (t : Tree K) (round : Nat) : List (BlockId K) :=
  (t.tree.pairs.filter fun e => e.2.validatedBlock.getParentRound < round).map Prod.fst

/-- Commit a coherent block: returns the blocks up to it and makes it the root. -/
def prune (t : BlockTree K) (newRoot : BlockId K) :
    Except TreePanic (List (ConsensusFullBlock K) × BlockTree K) :=
  if !t.isCoherent newRoot then .error .newRootIncoherent
  else if newRoot = t.root.info.blockId then .ok ([], t)
  else do
    let (removed, tree) ← t.tree.remove newRoot
    match removed with
    | none => .error .newRootMissing
    | some newRootEntry =>
      let (commit, tree) ←
        pruneLoop t.root.info.blockId newRoot.ancestors.length tree newRootEntry []
      let newRootBlock := newRootEntry.validatedBlock
      let tree ← removeAll (blocksToDelete tree newRootBlock.getBlockRound) tree
      pure (commit.reverse,
        ⟨⟨⟨newRootBlock.getBlockRound, newRootBlock.getSeqNum, newRootBlock.getEpoch,
          newRootBlock.getId, newRootBlock.getTimestampNs⟩, newRootEntry.childrenBlocks⟩, tree⟩)

/-! ## Queries -/

/-- Breadth-first search for the highest certificate that commits a coherent
block other than the root. -/
def highCommittableQcLoop (t : BlockTree K) :
    Nat → List (BlockId K) → Option (QuorumCertificate K) →
      Except TreePanic (Option (QuorumCertificate K))
  | _, [], highCommitQc => .ok highCommitQc
  | 0, _ :: _, _ => .error .outOfFuel
  | fuel + 1, bid :: iter, highCommitQc =>
    match t.tree.get bid with
    | none => .error .blockMissing
    | some block =>
      let iter := iter ++ block.childrenBlocks
      let qc := block.validatedBlock.getQc
      if highCommitQc.any fun high => qc.getRound ≤ high.getRound then
        highCommittableQcLoop t fuel iter highCommitQc
      else
        match t.tree.get qc.getBlockId with
        | none => highCommittableQcLoop t fuel iter highCommitQc
        | some qcParentBlock => do
          match ← qc.getCommittableId qcParentBlock.validatedBlock.header with
          | none => highCommittableQcLoop t fuel iter highCommitQc
          | some committableBlockId =>
            if committableBlockId = t.root.info.blockId then
              highCommittableQcLoop t fuel iter highCommitQc
            else if !t.isCoherent committableBlockId then
              highCommittableQcLoop t fuel iter highCommitQc
            else highCommittableQcLoop t fuel iter (some qc)

def getHighCommittableQc (t : BlockTree K) : Except TreePanic (Option (QuorumCertificate K)) :=
  highCommittableQcLoop t t.tree.len t.root.childrenBlocks none

/-- Follow known blocks from `maybeUnknownBid` towards the root. -/
def fillPathLoop (t : BlockTree K) :
    Nat → BlockId K → Nat → Except TreePanic (Option (BlockRange K))
  | 0, _, _ => .error .outOfFuel
  | fuel + 1, maybeUnknownBid, numBlocks =>
    match t.tree.get maybeUnknownBid with
    | none => .ok (some ⟨maybeUnknownBid, numBlocks⟩)
    | some knownBlockEntry =>
      let block := knownBlockEntry.validatedBlock
      if block.getParentId = t.root.info.blockId then .ok none
      else if block.getSeqNum < t.root.info.seqNum then .error .seqNumUnderflow
      else
        fillPathLoop t fuel block.getParentId (max (block.getSeqNum - t.root.info.seqNum) 2 - 1)

def maybeFillPathToRoot (t : BlockTree K) (qc : QuorumCertificate K) :
    Except TreePanic (Option (BlockRange K)) :=
  if qc.getRound ≤ t.root.info.round ∨ t.root.info.blockId = qc.getBlockId then .ok none
  else fillPathLoop t (qc.getBlockId.ancestors.length + 1) qc.getBlockId 1

/-- A block that is in the tree; `none` for the root. -/
def getBlock (t : BlockTree K) (blockId : BlockId K) : Option (ConsensusFullBlock K) :=
  t.tree.blockAt blockId

/-- A field of the certified block, if that block is the root or in the tree. -/
def ofQc {α : Type} (t : BlockTree K) (qc : QuorumCertificate K) (ofRoot : RootInfo K → α)
    (ofBlock : ConsensusFullBlock K → α) : Option α :=
  if t.root.info.blockId = qc.getBlockId then some (ofRoot t.root.info)
  else (t.tree.blockAt qc.getBlockId).map ofBlock

section

variable (t : BlockTree K) (qc : QuorumCertificate K)

def getSeqNumOfQc : Option Nat :=
  t.ofQc qc RootInfo.seqNum getSeqNum

def getTimestampOfQc : Option Nat :=
  t.ofQc qc RootInfo.timestampNs getTimestampNs

def getBlockRoundOfQc : Option Nat :=
  t.ofQc qc RootInfo.round getBlockRound

end

def getHighestCoherentBlockOnPathFromRoot (t : BlockTree K) (b : BlockId K) :
    Option (ConsensusFullBlock K) :=
  (t.getBlocksOnPathFromRoot b).bind fun path =>
    path.reverse.find? fun block => t.isCoherent block.getId

/-- Breadth-first pass over coherent descendants that keeps the highest round. -/
def highestDescendantLoop (t : BlockTree K) : Nat → List (BlockId K) → BlockId K → Nat → BlockId K
  | _, [], bestId, _ => bestId
  | 0, _ :: _, bestId, _ => bestId
  | fuel + 1, currentId :: queue, bestId, bestRound =>
    let children :=
      if currentId = t.root.info.blockId then t.root.childrenBlocks
      else t.tree.childrenAt currentId
    let coherentChildren := children.filterMap fun childId =>
      if t.isCoherent childId then (t.tree.blockAt childId).map fun b => (childId, b) else none
    let best := coherentChildren.foldl (fun best child =>
        if best.2 < child.2.getBlockRound then (child.1, child.2.getBlockRound) else best)
      (bestId, bestRound)
    highestDescendantLoop t fuel (queue ++ coherentChildren.map Prod.fst) best.1 best.2

def highestRoundCoherentDescendant (t : BlockTree K) (blockId : BlockId K) : BlockId K :=
  if blockId = t.root.info.blockId then
    highestDescendantLoop t (t.tree.len + 1) [blockId] blockId t.root.info.round
  else
    match t.tree.blockAt blockId with
    | some block =>
      highestDescendantLoop t (t.tree.len + 1) [blockId] blockId block.getBlockRound
    | none => blockId

/-- The highest coherent block on the chain of the high certificate. -/
def getCanonicalCoherentTip (t : BlockTree K) (highCertQc : QuorumCertificate K) : BlockId K :=
  match t.getBlocksOnPathFromRoot highCertQc.getBlockId with
  | none => t.highestRoundCoherentDescendant t.root.info.blockId
  | some path =>
    match path.reverse.find? fun block => t.isCoherent block.getId with
    | none => t.root.info.blockId
    | some block =>
      if block.getId = highCertQc.getBlockId then t.highestRoundCoherentDescendant block.getId
      else block.getId

end BlockTree

end Kinet
