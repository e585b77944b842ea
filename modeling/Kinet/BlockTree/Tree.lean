import Kinet.Foundation.FiniteMap
import Kinet.ConsensusTypes.Block
import Mathlib.Data.Finset.Basic

/-!
# The uncommitted blocks

The map from block ids to entries and the index of block bodies, with the three
operations that change them.  An `assert` or `expect` of the source that fails is
an explicit `TreePanic`.
-/

namespace Kinet

open FiniteMap Finset Option

variable {K : TypeParams}

inductive TreePanic where
  | payloadIndexMissing
  | activeBlockMissing
  | blockReplaced
  | activeBlockPresent
  | newRootIncoherent
  | newRootMissing
  | entryIncoherent
  | pathToRootMissing
  | blockMissing
  | qcBlockMismatch
  | seqNumUnderflow
  | outOfFuel
deriving DecidableEq

structure BlockTreeEntry (K : TypeParams) where
  validatedBlock : ConsensusFullBlock K
  isCoherent : Bool
  childrenBlocks : List (BlockId K)
deriving DecidableEq

structure BlockBodyIndex (K : TypeParams) where
  body : K.Body
  activeBlocks : Finset (BlockId K)
deriving DecidableEq

/-- Uncommitted blocks and their bodies. -/
structure Tree (K : TypeParams) where
  tree : FiniteMap (BlockId K) (BlockTreeEntry K)
  payloads : FiniteMap K.BodyId (BlockBodyIndex K)

namespace Tree

def empty : Tree K := ⟨∅, ∅⟩

variable (t : Tree K)

def get (blockId : BlockId K) : Option (BlockTreeEntry K) := t.tree.lookup blockId

/-- Number of blocks. -/
def len : Nat := t.tree.keys.length

/-- Set the coherency flag of a block; `none` if the block is absent. -/
def setCoherent (blockId : BlockId K) (coherent : Bool) : Option (Tree K) :=
  match t.tree.lookup blockId with
  | none => none
  | some entry =>
    some { t with tree := t.tree.insert blockId { entry with isCoherent := coherent } }

/-- Drop the use of a body by a block, and the body after its last use. -/
def deactivate (payloads : FiniteMap K.BodyId (BlockBodyIndex K)) (bodyId : K.BodyId)
    (index : BlockBodyIndex K) (blockId : BlockId K) : FiniteMap K.BodyId (BlockBodyIndex K) :=
  let activeBlocks := index.activeBlocks.erase blockId
  if activeBlocks = ∅ then payloads.erase bodyId
  else payloads.insert bodyId { index with activeBlocks := activeBlocks }

/-- Remove a block and its use of its body.  The child list of its parent is not
changed. -/
def remove (blockId : BlockId K) : Except TreePanic (Option (BlockTreeEntry K) × Tree K) :=
  match t.tree.lookup blockId with
  | none => .ok (none, t)
  | some removed =>
    match t.payloads.lookup removed.validatedBlock.getBodyId with
    | none => .error .payloadIndexMissing
    | some index =>
      if blockId ∈ index.activeBlocks then
        .ok (some removed, ⟨t.tree.erase blockId,
          deactivate t.payloads removed.validatedBlock.getBodyId index blockId⟩)
      else .error .activeBlockMissing

/-- The index of a body, created on its first use. -/
def payloadIndex (block : ConsensusFullBlock K) : BlockBodyIndex K :=
  (t.payloads.lookup block.getBodyId).getD ⟨block.body, ∅⟩

def childrenOf (blockId : BlockId K) : List (BlockId K) :=
  (t.tree.pairs.filter fun e => e.2.validatedBlock.getParentId = blockId).map Prod.fst

/-- Insert a block as incoherent, linked to its parent and to the children that
arrived before it. -/
def insert (block : ConsensusFullBlock K) : Except TreePanic (Tree K) :=
  let newBlockId := block.getId
  if newBlockId ∈ t.tree then .error .blockReplaced
  else
    let tree := t.tree.insert newBlockId ⟨block, false, t.childrenOf newBlockId⟩
    let tree := modify block.getParentId
      (fun entry => { entry with childrenBlocks := entry.childrenBlocks ++ [newBlockId] }) tree
    let index := t.payloadIndex block
    if newBlockId ∈ index.activeBlocks then .error .activeBlockPresent
    else
      .ok ⟨tree, t.payloads.insert block.getBodyId
        { index with activeBlocks := Insert.insert newBlockId index.activeBlocks }⟩

/-! ## Views of the entries -/

def blockAt (id : BlockId K) : Option (ConsensusFullBlock K) :=
  (t.get id).map BlockTreeEntry.validatedBlock

def flagAt (id : BlockId K) : Bool := (t.get id).any BlockTreeEntry.isCoherent

def childrenAt (id : BlockId K) : List (BlockId K) :=
  ((t.get id).map BlockTreeEntry.childrenBlocks).getD []

variable {id : BlockId K} {t} {e : BlockTreeEntry K} {b : ConsensusFullBlock K}

lemma blockAt_eq_some :
    t.blockAt id = some b ↔ ∃ e, t.get id = some e ∧ e.validatedBlock = b := by
  simp [blockAt]

lemma blockAt_of_get (h : t.get id = some e) : t.blockAt id = some e.validatedBlock := by
  rw [blockAt, h, map_some]

lemma flagAt_of_get (h : t.get id = some e) : t.flagAt id = e.isCoherent := by
  rw [flagAt, h, any_some]

lemma childrenAt_of_absent (h : t.blockAt id = none) : t.childrenAt id = [] := by
  rw [blockAt, map_eq_none_iff] at h
  rw [childrenAt, h, map_none, getD_none]

lemma childrenAt_of_get (h : t.get id = some e) : t.childrenAt id = e.childrenBlocks := by
  rw [childrenAt, h, map_some, getD_some]

lemma exists_get_of_flagAt (h : t.flagAt id = true) :
    ∃ e, t.get id = some e ∧ e.isCoherent = true := by
  unfold flagAt at h
  cases hget : t.get id with
  | none => rw [hget, any_none] at h; cases h
  | some e =>
    rw [hget, any_some] at h
    exact ⟨e, rfl, h⟩

/-- The payload index maps exactly the bodies in use to the blocks that use them. -/
structure PayloadsOk (blockAt : BlockId K → Option (ConsensusFullBlock K))
    (payloads : FiniteMap K.BodyId (BlockBodyIndex K)) : Prop where
  indexed : ∀ id b, blockAt id = some b → ∃ index, payloads.lookup b.getBodyId = some index
  active : ∀ bodyId index, payloads.lookup bodyId = some index →
    index.activeBlocks.Nonempty ∧ ∀ id, id ∈ index.activeBlocks ↔
      ∃ b, blockAt id = some b ∧ b.getBodyId = bodyId

/-- Entries are stored under their block's id, and the payload index is exact. -/
structure Wf (t : Tree K) : Prop where
  keyed : ∀ id b, t.blockAt id = some b → b.getId = id
  payloads : PayloadsOk t.blockAt t.payloads

lemma wf_empty : (empty : Tree K).Wf := by
  refine ⟨?_, ?_, ?_⟩
  · intro id b h
    simp [blockAt, get, empty] at h
  · intro id b h
    simp [blockAt, get, empty] at h
  · intro bodyId index h
    simp [empty] at h

/-! ## Removal -/

section

variable {blockAt blockAt' : BlockId K → Option (ConsensusFullBlock K)}
  {payloads : FiniteMap K.BodyId (BlockBodyIndex K)}

lemma lookup_deactivate (bodyId bodyId' : K.BodyId) (index : BlockBodyIndex K) (id : BlockId K) :
    (deactivate payloads bodyId index id).lookup bodyId' = if bodyId' = bodyId then
        if index.activeBlocks.erase id = ∅ then none
        else some { index with activeBlocks := index.activeBlocks.erase id }
      else payloads.lookup bodyId' := by
  unfold deactivate
  by_cases hempty : index.activeBlocks.erase id = ∅
  · simp only [hempty, if_true, lookup_erase_eq_ite]
  · simp only [hempty, if_false, lookup_insert_eq_ite]

lemma PayloadsOk.update {payloads' : FiniteMap K.BodyId (BlockBodyIndex K)}
    (hok : PayloadsOk blockAt payloads) (bodyId : K.BodyId)
    (hlookup : ∀ bodyId', bodyId' ≠ bodyId → payloads'.lookup bodyId' = payloads.lookup bodyId')
    (hblock : ∀ j c, c.getBodyId ≠ bodyId → (blockAt' j = some c ↔ blockAt j = some c))
    (hindexed : ∀ j c, blockAt' j = some c → c.getBodyId = bodyId →
      ∃ index, payloads'.lookup bodyId = some index)
    (hactive : ∀ index, payloads'.lookup bodyId = some index → index.activeBlocks.Nonempty ∧
      ∀ j, j ∈ index.activeBlocks ↔ ∃ c, blockAt' j = some c ∧ c.getBodyId = bodyId) :
    PayloadsOk blockAt' payloads' := by
  refine ⟨?_, ?_⟩
  · intro j c hc
    by_cases hbody : c.getBodyId = bodyId
    · rw [hbody]
      exact hindexed j c hc hbody
    · rw [hlookup _ hbody]
      exact hok.indexed j c ((hblock j c hbody).mp hc)
  · intro bodyId' index hindex
    by_cases hbody : bodyId' = bodyId
    · subst hbody
      exact hactive index hindex
    · rw [hlookup _ hbody] at hindex
      obtain ⟨hnonempty, hiff⟩ := hok.active bodyId' index hindex
      refine ⟨hnonempty, fun j => (hiff j).trans ?_⟩
      exact exists_congr fun c => and_congr_left fun hc => (hblock j c (hc ▸ hbody)).symm

lemma PayloadsOk.deactivate (hok : PayloadsOk blockAt payloads) {index : BlockBodyIndex K}
    (hb : blockAt id = some b) (hindex : payloads.lookup b.getBodyId = some index)
    (hblock : ∀ j, blockAt' j = if j = id then none else blockAt j) :
    PayloadsOk blockAt' (deactivate payloads b.getBodyId index id) := by
  have hold : ∀ j c, blockAt' j = some c ↔ j ≠ id ∧ blockAt j = some c := by
    intro j c
    rw [hblock]
    by_cases hj : j = id
    · simp [hj]
    · simp [hj]
  have hmem : ∀ j, j ∈ index.activeBlocks.erase id ↔
      ∃ c, blockAt' j = some c ∧ c.getBodyId = b.getBodyId := by
    intro j
    rw [mem_erase, (hok.active _ index hindex).2]
    simp only [hold, and_assoc, exists_and_left]
  refine hok.update b.getBodyId (fun bodyId' hne => ?_) (fun j c hne => ?_)
    (fun j c hc hbody => ?_) fun index' hindex' => ?_
  · rw [lookup_deactivate, if_neg hne]
  · rw [hold, and_iff_right_iff_imp]
    rintro hjc rfl
    rw [hb] at hjc
    cases hjc
    exact hne rfl
  · -- another user of the same body keeps its index alive
    rw [lookup_deactivate, if_pos rfl, if_neg (ne_empty_of_mem ((hmem j).mpr ⟨c, hc, hbody⟩))]
    exact ⟨_, rfl⟩
  · rw [lookup_deactivate, if_pos rfl] at hindex'
    split at hindex'
    · cases hindex'
    · next hne =>
      cases hindex'
      exact ⟨nonempty_iff_ne_empty.mpr hne, hmem⟩

/-- Using a body for a new block keeps the payload index exact. -/
lemma PayloadsOk.activate (hok : PayloadsOk blockAt payloads) (hfresh : blockAt b.getId = none)
    (hblock : ∀ j, blockAt' j = if j = b.getId then some b else blockAt j) :
    PayloadsOk blockAt' (payloads.insert b.getBodyId
      { (payloads.lookup b.getBodyId).getD ⟨b.body, ∅⟩ with
        activeBlocks := Insert.insert b.getId
          ((payloads.lookup b.getBodyId).getD ⟨b.body, ∅⟩).activeBlocks }) := by
  have hold : ∀ j c, blockAt' j = some c ↔ j = b.getId ∧ c = b ∨ blockAt j = some c := by
    intro j c
    rw [hblock]
    by_cases hj : j = b.getId
    · simp [hj, hfresh, eq_comm]
    · simp [hj]
  have hprev : ∀ j, j ∈ ((payloads.lookup b.getBodyId).getD ⟨b.body, ∅⟩).activeBlocks ↔
      ∃ c, blockAt j = some c ∧ c.getBodyId = b.getBodyId := by
    intro j
    cases hindex : payloads.lookup b.getBodyId with
    | some index => exact (hok.active _ index hindex).2 j
    | none =>
      simp only [getD_none, notMem_empty, false_iff]
      intro hex
      obtain ⟨c, hc, hcid⟩ := hex
      obtain ⟨index, hsome⟩ := hok.indexed j c hc
      rw [hcid, hindex] at hsome
      cases hsome
  refine hok.update b.getBodyId (fun bodyId' hne => ?_) (fun j c hne => ?_)
    (fun j c hc hbody => ?_) fun index' hindex' => ?_
  · rw [lookup_insert_eq_ite, if_neg hne]
  · rw [hold, or_iff_right]
    rintro ⟨-, rfl⟩
    exact hne rfl
  · exact ⟨_, AList.lookup_insert _⟩
  · rw [AList.lookup_insert] at hindex'
    cases hindex'
    refine ⟨⟨b.getId, mem_insert_self _ _⟩, fun j => ?_⟩
    rw [mem_insert, hprev]
    simp only [hold, or_and_right, exists_or, and_assoc, exists_and_left, exists_eq_left, and_true]

end

lemma remove_of_absent (h : t.get id = none) : t.remove id = .ok (none, t) := by
  unfold get at h
  simp only [remove, h]

/-- Removing a stored block succeeds and forgets exactly that block. -/
theorem remove_of_wf (hwf : t.Wf) (h : t.get id = some e) :
    ∃ t', t.remove id = .ok (some e, t') ∧ t'.Wf ∧
      ∀ j, t'.get j = if j = id then none else t.get j := by
  have hb : t.blockAt id = some e.validatedBlock := blockAt_of_get h
  obtain ⟨index, hindex⟩ := hwf.payloads.indexed id e.validatedBlock hb
  have hmem : id ∈ index.activeBlocks :=
    ((hwf.payloads.active _ index hindex).2 id).mpr ⟨_, hb, rfl⟩
  have hlookup : t.tree.lookup id = some e := h
  simp only [remove, hlookup, hindex, hmem, if_true]
  have hget : ∀ j, (t.tree.erase id).lookup j = if j = id then none else t.get j := by
    intro j
    exact lookup_erase_eq_ite t.tree id j
  have hblock : ∀ j, ((t.tree.erase id).lookup j).map BlockTreeEntry.validatedBlock =
      if j = id then none else t.blockAt j := by
    intro j
    rw [hget]
    split <;> rfl
  refine ⟨_, rfl, ⟨?_, hwf.payloads.deactivate hb hindex hblock⟩, hget⟩
  intro j c hc
  have hc' : (if j = id then none else t.blockAt j) = some c := (hblock j) ▸ hc
  split at hc'
  · cases hc'
  · exact hwf.keyed j c hc'

/-! ## Insertion -/

/-- The ids of the stored blocks of some kind. -/
lemma mem_ids_filter (p : ConsensusFullBlock K → Prop) [DecidablePred p] {c : BlockId K} :
    c ∈ (t.tree.pairs.filter fun e => p e.2.validatedBlock).map Prod.fst ↔
      ∃ b, t.blockAt c = some b ∧ p b := by
  simp only [List.mem_map, List.mem_filter, decide_eq_true_eq]
  constructor
  · rintro ⟨⟨c', e⟩, ⟨hmem, hp⟩, rfl⟩
    exact ⟨e.validatedBlock, blockAt_of_get (mem_pairs.mp hmem), hp⟩
  · rintro ⟨b, hb, hp⟩
    obtain ⟨e, hget, rfl⟩ := blockAt_eq_some.mp hb
    exact ⟨(c, e), ⟨mem_pairs.mpr hget, hp⟩, rfl⟩

lemma mem_childrenOf {p c : BlockId K} :
    c ∈ t.childrenOf p ↔ ∃ b, t.blockAt c = some b ∧ b.getParentId = p :=
  mem_ids_filter (·.getParentId = p)

lemma nodup_childrenOf (t : Tree K) (p : BlockId K) : (t.childrenOf p).Nodup := by
  have hsub : (t.childrenOf p).Sublist (t.tree.pairs.map Prod.fst) := List.filter_sublist.map _
  rw [map_fst_pairs] at hsub
  exact hsub.nodup t.tree.keys_nodup

def insertedEntry (t : Tree K) (block : ConsensusFullBlock K) (j : BlockId K) :
    Option (BlockTreeEntry K) :=
  if j = block.getId then some ⟨block, false, t.childrenOf block.getId⟩
  else if j = block.getParentId then
    (t.get j).map fun e => { e with childrenBlocks := e.childrenBlocks ++ [block.getId] }
  else t.get j

variable {block : ConsensusFullBlock K}

lemma blockAt_insertedEntry {j : BlockId K} :
    (t.insertedEntry block j).map BlockTreeEntry.validatedBlock =
      if j = block.getId then some block else t.blockAt j := by
  unfold insertedEntry blockAt
  split
  · rfl
  · split
    · cases t.get j <;> rfl
    · rfl

/-- Inserting an absent block succeeds. -/
theorem insert_of_wf (hwf : t.Wf) (h : t.get block.getId = none) :
    ∃ t', t.insert block = .ok t' ∧ t'.Wf ∧ ∀ j, t'.get j = t.insertedEntry block j := by
  have hnone : t.blockAt block.getId = none := by
    rw [blockAt, h, map_none]
  have hnot : block.getId ∉ t.tree := AList.lookup_eq_none.mp h
  have hfresh : block.getId ∉ (t.payloadIndex block).activeBlocks := by
    unfold payloadIndex
    cases hindex : t.payloads.lookup block.getBodyId with
    | none => simp
    | some index =>
      intro hmem
      obtain ⟨b, hb, _⟩ := ((hwf.payloads.active _ index hindex).2 _).mp hmem
      rw [hnone] at hb
      cases hb
  have hget : ∀ j, (modify block.getParentId
      (fun entry => { entry with childrenBlocks := entry.childrenBlocks ++ [block.getId] })
      (t.tree.insert block.getId ⟨block, false, t.childrenOf block.getId⟩)).lookup j =
      t.insertedEntry block j := by
    intro j
    have hne : block.getParentId ≠ block.getId := (BlockId.getId_ne_getParentId block.header).symm
    rw [lookup_modify, lookup_insert_eq_ite, lookup_insert_eq_ite, if_neg hne]
    unfold insertedEntry get
    by_cases hj : j = block.getParentId
    · rw [if_pos hj, if_neg (hj ▸ hne), if_pos hj, hj]
    · rw [if_neg hj, if_neg hj]
  simp only [insert, hnot, if_false, hfresh]
  refine ⟨_, rfl, ⟨?_, hwf.payloads.activate hnone ?_⟩, hget⟩
  · intro j b hb
    have hb' : (if j = block.getId then some block else t.blockAt j) = some b := by
      rw [← blockAt_insertedEntry, ← hget]
      exact hb
    split at hb'
    · next hj =>
      cases hb'
      exact hj.symm
    · exact hwf.keyed j b hb'
  · intro j
    rw [← blockAt_insertedEntry, ← hget]
    rfl

/-! ## Coherency flags -/

/-- Setting a flag changes nothing but that flag. -/
lemma setCoherent_of_get (h : t.get id = some e) (coherent : Bool) :
    ∃ t', t.setCoherent id coherent = some t' ∧ t'.payloads = t.payloads ∧
      ∀ j, t'.get j = if j = id then some { e with isCoherent := coherent } else t.get j := by
  have hlookup : t.tree.lookup id = some e := h
  simp only [setCoherent, hlookup]
  refine ⟨_, rfl, rfl, ?_⟩
  intro j
  exact lookup_insert_eq_ite t.tree id j _

lemma Wf.of_blockAt {t' : Tree K} (hwf : t.Wf) (hpay : t'.payloads = t.payloads)
    (hblock : ∀ j, t'.blockAt j = t.blockAt j) : t'.Wf := by
  have hfun : t'.blockAt = t.blockAt := funext hblock
  refine ⟨?_, ?_⟩
  · rw [hfun]
    exact hwf.keyed
  · rw [hfun, hpay]
    exact hwf.payloads

end Tree

end Kinet
