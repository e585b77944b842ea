import Kinet.BlockTree.BlockTree
import Kinet.Foundation.Effect

/-!
# Where the blocks of a tree come from

A property of blocks that every inserted block has is kept by all operations of the
block tree.  Blocks that are committed are ancestors of the new root, and the certificate
that allows a commit is in a block of the tree.
-/

namespace Kinet

open Effect

variable {K : TypeParams} {P : ConsensusFullBlock K → Prop} {block : ConsensusFullBlock K}

namespace Tree

/-- Blocks are stored under their ids and satisfy `P`. -/
def Holds (P : ConsensusFullBlock K → Prop) (t : Tree K) : Prop :=
  ∀ id b, t.blockAt id = some b → b.getId = id ∧ P b

def Sub (t' t : Tree K) : Prop := ∀ id b, t'.blockAt id = some b → t.blockAt id = some b

lemma Sub.refl (t : Tree K) : t.Sub t := fun _ _ h => h

variable {t t' : Tree K} {id : BlockId K}

lemma Sub.trans {t'' : Tree K} (h : t.Sub t') (h' : t'.Sub t'') : t.Sub t'' :=
  fun id b hb => h' id b (h id b hb)

lemma Holds.sub (h : t.Holds P) (hsub : t'.Sub t) : t'.Holds P :=
  fun id b hb => h id b (hsub id b hb)

lemma insert_blockAt (h : t.insert block = .ok t')
    {b : ConsensusFullBlock K} (hb : t'.blockAt id = some b) :
    (id = block.getId ∧ b = block) ∨ t.blockAt id = some b := by
  unfold insert at h
  simp only at h
  split at h
  · cases h
  split at h
  · cases h
  cases h
  obtain ⟨e, he, rfl⟩ := blockAt_eq_some.mp hb
  simp only [get, FiniteMap.lookup_modify, FiniteMap.lookup_insert_eq_ite] at he
  -- the entry is the parent's, with one child more, or an entry of the map before
  split at he
  · next hid =>
    rw [Option.map_eq_some_iff] at he
    obtain ⟨e0, he0, rfl⟩ := he
    split at he0
    · next hparent => cases he0; exact .inl ⟨hid.trans hparent, rfl⟩
    · refine .inr ?_
      rw [hid]
      exact blockAt_of_get (e := e0) he0
  · split at he
    · next hid => cases he; exact .inl ⟨hid, rfl⟩
    · exact .inr (blockAt_of_get he)

lemma Holds.insert (h : t.Holds P) (hblock : P block)
    (hins : t.insert block = .ok t') : t'.Holds P := by
  intro id b hb
  rcases insert_blockAt hins hb with ⟨rfl, rfl⟩ | hold
  · exact ⟨rfl, hblock⟩
  · exact h id b hold

lemma setCoherent_blockAt {flag : Bool} (h : t.setCoherent id flag = some t') (j : BlockId K) :
    t'.blockAt j = t.blockAt j := by
  unfold setCoherent at h
  split at h
  · cases h
  next entry hentry =>
    cases h
    simp only [blockAt, get, FiniteMap.lookup_insert_eq_ite]
    split
    · next hj => rw [hj, hentry]; rfl
    · rfl

lemma remove_sub {removed : Option (BlockTreeEntry K)} (h : t.remove id = .ok (removed, t')) :
    t'.Sub t ∧ ∀ e, removed = some e → t.get id = some e := by
  unfold remove at h
  split at h
  · cases h
    exact ⟨Sub.refl t, fun e he => by cases he⟩
  next entry hentry =>
    split at h
    · cases h
    split at h
    · cases h
      refine ⟨fun j b hb => ?_, fun e he => by cases he; exact hentry⟩
      simp only [blockAt, get, FiniteMap.lookup_erase_eq_ite] at hb ⊢
      split at hb
      · cases hb
      · exact hb
    · cases h

end Tree

namespace BlockTree

variable {t t' : BlockTree K} {retval : List (ConsensusFullBlock K)}

lemma add_holds (h : t.tree.Holds P) (hblock : P block)
    (hadd : t.add block = .ok t') : t'.tree.Holds P := by
  unfold add at hadd
  split at hadd
  · cases hadd
    exact h
  · obtain ⟨tree, hins, hok⟩ := bind_eq_ok.mp hadd
    cases hok
    exact h.insert hblock hins

variable {fuel : Nat} {stateRead stateRead' : K.ESRT} {queue : List (BlockId K)}

lemma updateCoherencyLoop_blockAt (policy : BlockPolicy K) (blockPolicy : K.BPT)
    {retval' : List (ConsensusFullBlock K)}
    (h : updateCoherencyLoop policy blockPolicy fuel t stateRead queue retval =
      .ok (retval', t', stateRead')) (j : BlockId K) : t'.tree.blockAt j = t.tree.blockAt j := by
  induction fuel generalizing t stateRead queue retval with
  | zero =>
    cases queue with
    | nil => rw [updateCoherencyLoop] at h; cases h; rfl
    | cons id queue => rw [updateCoherencyLoop] at h; cases h
  | succ fuel ih =>
    cases queue with
    | nil => rw [updateCoherencyLoop] at h; cases h; rfl
    | cons id queue =>
      rw [updateCoherencyLoop] at h
      split at h
      · cases h
      split at h
      · cases h
      simp only at h
      split at h
      · split at h
        · cases h
        · next hset =>
          rw [ih h]
          exact Tree.setCoherent_blockAt hset j
      · exact ih h

lemma tryUpdateCoherency_sub {policy : BlockPolicy K} {blockPolicy : K.BPT} {id : BlockId K}
    (h : t.tryUpdateCoherency policy blockPolicy stateRead id = .ok (retval, t', stateRead')) :
    t'.tree.Sub t.tree := by
  unfold tryUpdateCoherency at h
  split at h
  · cases h
    exact Tree.Sub.refl _
  split at h
  · cases h
    exact Tree.Sub.refl _
  · intro j b hb
    rw [← updateCoherencyLoop_blockAt policy blockPolicy h j]
    exact hb

lemma removeAll_sub {ids : List (BlockId K)} {t t' : Tree K} (h : removeAll ids t = .ok t') :
    t'.Sub t := by
  induction ids generalizing t with
  | nil => rw [removeAll] at h; cases h; exact Tree.Sub.refl _
  | cons id ids ih =>
    rw [removeAll, bind_eq_ok] at h
    obtain ⟨⟨removed, t1⟩, hremove, hrest⟩ := h
    exact (ih hrest).trans (Tree.remove_sub hremove).1

variable {newRoot : BlockId K}

lemma pruneLoop_provenance {rootId : BlockId K} {t t' : Tree K}
    {e : BlockTreeEntry K} {commit commit' : List (ConsensusFullBlock K)} (ht : t.Holds P)
    (he : P e.validatedBlock) (hextends : newRoot.Extends e.validatedBlock.getId)
    (hcommit : ∀ b ∈ commit, newRoot.Extends b.getId ∧ P b)
    (h : pruneLoop rootId fuel t e commit = .ok (commit', t')) :
    t'.Sub t ∧ ∀ b ∈ commit', newRoot.Extends b.getId ∧ P b := by
  induction fuel generalizing t e commit with
  | zero => rw [pruneLoop] at h; cases h
  | succ fuel ih =>
    have hcommit' : ∀ b ∈ commit ++ [e.validatedBlock], newRoot.Extends b.getId ∧ P b := by
      intro b hb
      rcases List.mem_append.mp hb with hold | hnew
      · exact hcommit b hold
      · rw [List.mem_singleton.mp hnew]
        exact ⟨hextends, he⟩
    rw [pruneLoop] at h
    split at h
    · cases h
    simp only at h
    split at h
    · cases h
      exact ⟨Tree.Sub.refl _, hcommit'⟩
    · rw [bind_eq_ok] at h
      obtain ⟨⟨removed, t1⟩, hremove, hrest⟩ := h
      obtain ⟨hsub, hentry⟩ := Tree.remove_sub hremove
      simp only at hrest
      split at hrest
      · cases hrest
      · next entry =>
        have hblock := ht _ _ (Tree.blockAt_of_get (hentry entry rfl))
        have hparent : newRoot.Extends entry.validatedBlock.getId := by
          rw [hblock.1]
          exact hextends.trans (BlockId.extends_parent e.validatedBlock.header)
        obtain ⟨hsub', hall⟩ := ih (ht.sub hsub) hblock.2 hparent hcommit' hrest
        exact ⟨hsub'.trans hsub, hall⟩

/-- Committed blocks are blocks of the tree and ancestors of the new root. -/
theorem prune_provenance {blocks : List (ConsensusFullBlock K)}
    (ht : t.tree.Holds P) (h : t.prune newRoot = .ok (blocks, t')) :
    t'.tree.Sub t.tree ∧ ∀ b ∈ blocks, newRoot.Extends b.getId ∧ P b := by
  unfold prune at h
  split at h
  · cases h
  split at h
  · cases h
    exact ⟨Tree.Sub.refl _, fun b hb => by cases hb⟩
  rw [bind_eq_ok] at h
  obtain ⟨⟨removed, tree⟩, hremove, h⟩ := h
  obtain ⟨hsub, hentry⟩ := Tree.remove_sub hremove
  simp only at h
  split at h
  · cases h
  next entry =>
    rw [bind_eq_ok] at h
    obtain ⟨⟨commit, tree1⟩, hloop, h⟩ := h
    rw [bind_eq_ok] at h
    obtain ⟨tree2, hall, h⟩ := h
    cases h
    have hblock := ht _ _ (Tree.blockAt_of_get (hentry entry rfl))
    have hself : newRoot.Extends entry.validatedBlock.getId := by
      rw [hblock.1]
      exact BlockId.extends_refl newRoot
    obtain ⟨hsub1, hcommit⟩ := pruneLoop_provenance (ht.sub hsub) hblock.2 hself
      (fun b hb => by cases hb) hloop
    refine ⟨(removeAll_sub hall).trans (hsub1.trans hsub), fun b hb => ?_⟩
    exact hcommit b (List.mem_reverse.mp hb)

variable {qc : QuorumCertificate K}

lemma highCommittableQcLoop_provenance {high : Option (QuorumCertificate K)}
    (h : highCommittableQcLoop t fuel queue high = .ok (some qc)) :
    high = some qc ∨ ∃ id b, t.tree.blockAt id = some b ∧ b.getQc = qc := by
  induction fuel generalizing queue high with
  | zero =>
    cases queue with
    | nil => rw [highCommittableQcLoop] at h; cases h; exact .inl rfl
    | cons id queue => rw [highCommittableQcLoop] at h; cases h
  | succ fuel ih =>
    cases queue with
    | nil => rw [highCommittableQcLoop] at h; cases h; exact .inl rfl
    | cons id queue =>
      rw [highCommittableQcLoop] at h
      split at h
      · cases h
      next entry hentry =>
        simp only at h
        split at h
        · exact ih h
        split at h
        · exact ih h
        rw [bind_eq_ok] at h
        obtain ⟨committable, _, h⟩ := h
        split at h
        · exact ih h
        split at h
        · exact ih h
        split at h
        · exact ih h
        · rcases ih h with hnew | hold
          · cases hnew
            exact .inr ⟨id, entry.validatedBlock, Tree.blockAt_of_get hentry, rfl⟩
          · exact .inr hold

/-- The certificate that allows a commit is in a block of the tree. -/
theorem getHighCommittableQc_provenance (h : t.getHighCommittableQc = .ok (some qc)) :
    ∃ id b, t.tree.blockAt id = some b ∧ b.getQc = qc := by
  rcases highCommittableQcLoop_provenance h with hnone | hblock
  · cases hnone
  · exact hblock

end BlockTree

end Kinet
