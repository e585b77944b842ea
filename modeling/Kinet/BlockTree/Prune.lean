import Kinet.BlockTree.Structure

/-!
# Pruning

What `prune` removes and returns.  It walks from the new root to the old one,
removing that branch, and then drops every block whose parent was certified
before the new root's round.
-/

namespace Kinet

open List Option Kinet.Tree ConsensusFullBlock

variable {K : TypeParams}

namespace BlockTree

/-- `rest` is the branch from the parent of `b` up to a child of the root. -/
def Branch (blockAt : BlockId K → Option (ConsensusFullBlock K)) (rootId : BlockId K)
    (b : ConsensusFullBlock K) (rest : List (ConsensusFullBlock K)) : Prop :=
  (b.getParentId = rootId ∧ rest = []) ∨
    (b.getParentId ≠ rootId ∧ Forest.PathTo getParentId blockAt rootId b.getParentId rest)

variable {b c : ConsensusFullBlock K} {id : BlockId K} {rest : List (ConsensusFullBlock K)}
  {t : Tree K}

lemma path_cons_iff {t : BlockTree K} : t.Path id (b :: rest) ↔
      t.tree.blockAt id = some b ∧ Branch t.tree.blockAt t.root.info.blockId b rest := by
  constructor
  · intro h
    exact ⟨h.get_head, h.tail_cases⟩
  · intro h
    obtain ⟨hget, hbranch⟩ := h
    rcases hbranch with ⟨hroot, rfl⟩ | ⟨hne, hpath⟩
    · exact .last hget hroot
    · exact .step hget hne hpath

variable {l : List (ConsensusFullBlock K)}

lemma pathTo_depth_le (hwf : t.Wf) {rootId : BlockId K}
    (h : Forest.PathTo getParentId t.blockAt rootId id l) (hc : c ∈ l) :
    depth c.getId ≤ depth id := by
  induction h with
  | last hget _ =>
    rw [mem_singleton] at hc
    rw [hc, hwf.keyed _ _ hget]
  | step hget _ _ ih =>
    rw [mem_cons] at hc
    rcases hc with rfl | hc
    · rw [hwf.keyed _ _ hget]
    · exact le_trans (ih hc) (le_of_lt (depth_lt_of_blockAt hwf _ _ hget))

/-! ## The branch of the new root -/

lemma Branch.depth_lt (hwf : t.Wf) {rootId : BlockId K} (h : Branch t.blockAt rootId b rest)
    (hc : c ∈ rest) : depth c.getId < depth b.getId := by
  rcases h with ⟨_, hnil⟩ | ⟨_, hpath⟩
  · rw [hnil] at hc
    cases hc
  · exact lt_of_le_of_lt (pathTo_depth_le hwf hpath hc) (depth_parent_lt b)

lemma branch_cons_iff {blockAt : BlockId K → Option (ConsensusFullBlock K)} {rootId : BlockId K}
    {pb : ConsensusFullBlock K} (hpb : blockAt b.getParentId = some pb)
    (hroot : b.getParentId ≠ rootId) :
    Branch blockAt rootId b (pb :: rest) ↔ Branch blockAt rootId pb rest := by
  constructor
  · intro h
    rcases h with ⟨hr, _⟩ | ⟨_, hpath⟩
    · exact absurd hr hroot
    · exact hpath.tail_cases
  · intro h
    refine .inr ⟨hroot, ?_⟩
    rcases h with ⟨hr, rfl⟩ | ⟨hne, hpath⟩
    · exact .last hpb hr
    · exact .step hpb hne hpath

section

variable {t₁ : Tree K} {pb : ConsensusFullBlock K}
  (hwf : t.Wf) (hget : ∀ j, t₁.get j = if j = pb.getId then none else t.get j)
include hwf hget

/-- The branch above a block does not use the entry of the block. -/
lemma branch_remove_iff (rootId : BlockId K) (rest : List (ConsensusFullBlock K)) :
    Branch t₁.blockAt rootId pb rest ↔ Branch t.blockAt rootId pb rest := by
  have hblock : ∀ j, t₁.blockAt j = if j = pb.getId then none else t.blockAt j := by
    intro j
    rw [blockAt, hget]
    split <;> rfl
  constructor
  · intro h
    rcases h with h | ⟨hne, hpath⟩
    · exact .inl h
    · refine .inr ⟨hne, hpath.mono ?_⟩
      intro j b hj
      rw [hblock] at hj
      split at hj
      · cases hj
      · exact hj
  · intro h
    rcases h with h | ⟨hne, hpath⟩
    · exact .inl h
    · refine .inr ⟨hne, hpath.congr_of_mem ?_⟩
      intro j b hj hmem
      have hlt := Branch.depth_lt hwf (.inr ⟨hne, hpath⟩) hmem
      rw [hblock, if_neg, hj]
      intro heq
      rw [hwf.keyed j b hj, heq] at hlt
      exact lt_irrefl _ hlt

lemma flagAt_branch_remove {rootId : BlockId K} (hbranch : Branch t.blockAt rootId pb rest)
    (hc : c ∈ rest) : t₁.flagAt c.getId = t.flagAt c.getId := by
  have hlt := hbranch.depth_lt hwf hc
  rw [flagAt, hget, flagAt, if_neg]
  intro heq
  rw [heq] at hlt
  exact lt_irrefl _ hlt

end

/-- `rest` is a branch above `e`, and it is marked coherent. -/
def CoherentBranch (t : Tree K) (rootId : BlockId K) (e : BlockTreeEntry K)
    (rest : List (ConsensusFullBlock K)) : Prop :=
  Branch t.blockAt rootId e.validatedBlock rest ∧ e.isCoherent = true ∧
    ∀ c ∈ rest, t.flagAt c.getId = true

lemma coherentBranch_remove_iff {t₁ : Tree K} {e : BlockTreeEntry K} (hwf : t.Wf)
    (hget : ∀ j, t₁.get j = if j = e.validatedBlock.getId then none else t.get j)
    {rootId : BlockId K} : CoherentBranch t₁ rootId e rest ↔ CoherentBranch t rootId e rest := by
  unfold CoherentBranch
  rw [branch_remove_iff hwf hget]
  refine and_congr_right fun hbranch => and_congr_right fun _ => forall₂_congr fun c hc => ?_
  rw [flagAt_branch_remove hwf hget hbranch hc]

/-- A coherent branch continues with the parent's coherent branch. -/
lemma coherentBranch_iff {t₁ : Tree K} (hwf : t.Wf) {rootId : BlockId K} {e pe : BlockTreeEntry K}
    (hcoh : e.isCoherent = true) (hroot : e.validatedBlock.getParentId ≠ rootId)
    (hparent : t.get e.validatedBlock.getParentId = some pe)
    (hget : ∀ j, t₁.get j = if j = e.validatedBlock.getParentId then none else t.get j)
    (rest : List (ConsensusFullBlock K)) :
    CoherentBranch t rootId e rest ↔
      ∃ rest', rest = pe.validatedBlock :: rest' ∧ CoherentBranch t₁ rootId pe rest' := by
  have hpb : t.blockAt e.validatedBlock.getParentId = some pe.validatedBlock :=
    blockAt_of_get hparent
  have hkey : pe.validatedBlock.getId = e.validatedBlock.getParentId := hwf.keyed _ _ hpb
  have hflag : t.flagAt pe.validatedBlock.getId = pe.isCoherent := by
    rw [hkey]
    exact flagAt_of_get hparent
  rw [← hkey] at hget
  constructor
  · intro h
    obtain ⟨hbranch, _, hall⟩ := h
    rcases hbranch with ⟨hr, _⟩ | ⟨hne, hpath⟩
    · exact absurd hr hroot
    · obtain ⟨b, l, rfl, hb⟩ := hpath.exists_cons
      rw [hpb] at hb
      cases hb
      obtain ⟨hpcoh, hall⟩ := forall_mem_cons.mp hall
      refine ⟨l, rfl, (coherentBranch_remove_iff hwf hget).mpr ⟨?_, hflag.symm.trans hpcoh, hall⟩⟩
      exact (branch_cons_iff hpb hroot).mp (.inr ⟨hne, hpath⟩)
  · intro h
    obtain ⟨rest', rfl, h⟩ := h
    obtain ⟨hbranch, hpcoh, hall⟩ := (coherentBranch_remove_iff hwf hget).mp h
    refine ⟨(branch_cons_iff hpb hroot).mpr hbranch, hcoh, ?_⟩
    exact forall_mem_cons.mpr ⟨hflag.trans hpcoh, hall⟩

/-- The loop removes the branch above `e` if that branch reaches the root and is
marked coherent, and fails otherwise. -/
lemma pruneLoop_cases (rootId : BlockId K) {fuel : Nat} (hwf : t.Wf) (e : BlockTreeEntry K)
    (commit : List (ConsensusFullBlock K)) (hfuel : depth e.validatedBlock.getParentId < fuel) :
    (∃ rest t', pruneLoop rootId fuel t e commit = .ok (commit ++ e.validatedBlock :: rest, t') ∧
      CoherentBranch t rootId e rest ∧ t'.Wf ∧
      ∀ j, t'.get j = if j ∈ rest.map getId then none else t.get j) ∨
    (∃ p, pruneLoop rootId fuel t e commit = .error p ∧
      (p = .entryIncoherent ∨ p = .pathToRootMissing) ∧
      ∀ rest, ¬ CoherentBranch t rootId e rest) := by
  induction fuel generalizing t e commit with
  | zero => omega
  | succ fuel ih =>
    unfold pruneLoop
    by_cases hcoh : e.isCoherent = true
    swap
    · refine .inr ⟨.entryIncoherent, by simp [hcoh], .inl rfl, ?_⟩
      intro rest h
      exact hcoh h.2.1
    simp only [hcoh, Bool.not_true, Bool.false_eq_true, if_false]
    by_cases hroot : e.validatedBlock.getParentId = rootId
    · rw [if_pos hroot]
      refine .inl ⟨[], t, rfl, ⟨.inl ⟨hroot, rfl⟩, hcoh, ?_⟩, hwf, ?_⟩
      · intro c hc
        cases hc
      · intro j
        simp
    rw [if_neg hroot]
    cases hparent : t.get e.validatedBlock.getParentId with
    | none =>
      refine .inr ⟨.pathToRootMissing, ?_, .inr rfl, ?_⟩
      · rw [remove_of_absent hparent]
        rfl
      · intro rest h
        rcases h.1 with ⟨hr, _⟩ | ⟨_, hpath⟩
        · exact hroot hr
        · obtain ⟨b, l, _, hget⟩ := hpath.exists_cons
          rw [blockAt, hparent] at hget
          cases hget
    | some pe =>
      obtain ⟨t₁, hremove, hwf1, hget1⟩ := remove_of_wf hwf hparent
      have hkey : pe.validatedBlock.getId = e.validatedBlock.getParentId :=
        hwf.keyed _ _ (blockAt_of_get hparent)
      have hdepth : depth pe.validatedBlock.getParentId < fuel := by
        have hlt := depth_parent_lt pe.validatedBlock
        rw [hkey] at hlt
        omega
      have hiff := coherentBranch_iff hwf hcoh hroot hparent hget1
      simp only [hremove, bind, Except.bind]
      rcases ih hwf1 pe (commit ++ [e.validatedBlock]) hdepth with
        ⟨rest, t', hok, hbranch, hwf', hget'⟩ | ⟨p, herr, hp, hnone⟩
      · refine .inl ⟨pe.validatedBlock :: rest, t', ?_, (hiff _).mpr ⟨rest, rfl, hbranch⟩, hwf', ?_⟩
        · rw [hok]
          simp
        · intro j
          rw [hget', hget1]
          simp only [map_cons, mem_cons, hkey]
          by_cases hj : j = e.validatedBlock.getParentId
          · simp [hj]
          · simp [hj]
      · refine .inr ⟨p, herr, hp, ?_⟩
        intro rest h
        obtain ⟨rest', _, hbranch⟩ := (hiff rest).mp h
        exact hnone rest' hbranch

/-! ## Garbage collection -/

lemma removeAll_spec (hwf : t.Wf) (ids : List (BlockId K)) :
    ∃ t', removeAll ids t = .ok t' ∧ t'.Wf ∧ ∀ j, t'.get j = if j ∈ ids then none else t.get j := by
  induction ids generalizing t with
  | nil => exact ⟨t, rfl, hwf, fun j => by simp⟩
  | cons id ids ih =>
    have hremove : ∃ r t₁, t.remove id = .ok (r, t₁) ∧ t₁.Wf ∧
        ∀ j, t₁.get j = if j = id then none else t.get j := by
      cases hget : t.get id with
      | none =>
        refine ⟨none, t, remove_of_absent hget, hwf, ?_⟩
        intro j
        split
        · next hj => rw [hj, hget]
        · rfl
      | some e =>
        obtain ⟨t₁, h1, h2, h3⟩ := remove_of_wf hwf hget
        exact ⟨some e, t₁, h1, h2, h3⟩
    obtain ⟨r, t₁, hr, hwf1, hget1⟩ := hremove
    obtain ⟨t', hok, hwf', hget'⟩ := ih hwf1
    refine ⟨t', ?_, hwf', ?_⟩
    · simp only [removeAll, hr, bind, Except.bind]
      exact hok
    · intro j
      rw [hget', hget1]
      by_cases hj : j = id
      · simp [hj]
      · simp [hj]

lemma mem_blocksToDelete {round : Nat} {j : BlockId K} :
    j ∈ blocksToDelete t round ↔ ∃ b, t.blockAt j = some b ∧ b.getParentRound < round :=
  mem_ids_filter (·.getParentRound < round)

/-! ## Outcomes of `prune` -/

lemma isCoherent_of_ne_root {t : BlockTree K} (h : id ≠ t.root.info.blockId) :
    t.isCoherent id = t.tree.flagAt id := by
  rw [isCoherent, if_neg h, flagAt]
  cases t.tree.get id <;> rfl

def RootInfo.ofBlock (b : ConsensusFullBlock K) : RootInfo K :=
  ⟨b.getBlockRound, b.getSeqNum, b.getEpoch, b.getId, b.getTimestampNs⟩

/-- `t'` is `t` pruned to `newRoot`, whose branch is `b :: rest`. -/
structure Pruned (t : BlockTree K) (newRoot : BlockId K) (b : ConsensusFullBlock K)
    (rest : List (ConsensusFullBlock K)) (t' : BlockTree K) : Prop where
  path : t.Path newRoot (b :: rest)
  coherent : ∀ c ∈ b :: rest, t.tree.flagAt c.getId = true
  tree_wf : t'.tree.Wf
  info : t'.root.info = RootInfo.ofBlock b
  children : t'.root.childrenBlocks = t.tree.childrenAt newRoot
  get : ∀ j, t'.tree.get j = if j ∈ (b :: rest).map ConsensusFullBlock.getId then none
    else (t.tree.get j).filter fun e => b.getBlockRound ≤ e.validatedBlock.getParentRound

/-- A branch of coherent blocks from `id` to the root. -/
def CoherentPath (t : BlockTree K) (id : BlockId K) (l : List (ConsensusFullBlock K)) : Prop :=
  t.Path id l ∧ ∀ c ∈ l, t.tree.flagAt c.getId = true

/-- `prune` returns the branch of the new root, or stops at one of its three own
assertions because that branch is missing or not marked coherent. -/
theorem prune_cases {t : BlockTree K} (hwf : t.Wf) {newRoot : BlockId K}
    (hne : newRoot ≠ t.root.info.blockId) :
    (∃ b rest t', t.prune newRoot = .ok ((b :: rest).reverse, t') ∧ Pruned t newRoot b rest t') ∨
    (∃ p, t.prune newRoot = .error p ∧
      (p = .newRootIncoherent ∨ p = .entryIncoherent ∨ p = .pathToRootMissing) ∧
      ∀ l, ¬ t.CoherentPath newRoot l) := by
  by_cases hcoh : t.tree.flagAt newRoot = true
  swap
  · refine .inr ⟨.newRootIncoherent, ?_, .inl rfl, ?_⟩
    · simp [prune, isCoherent_of_ne_root hne, hcoh]
    · intro l h
      obtain ⟨b, l', rfl, hb⟩ := h.1.exists_cons
      have hflag := h.2 b (by simp)
      rw [hwf.tree.keyed newRoot b hb] at hflag
      exact hcoh hflag
  obtain ⟨e, he, hecoh⟩ := exists_get_of_flagAt hcoh
  obtain ⟨tree1, hremove, hwf1, hget1⟩ := remove_of_wf hwf.tree he
  have hb : t.tree.blockAt newRoot = some e.validatedBlock := blockAt_of_get he
  have hkey : e.validatedBlock.getId = newRoot := hwf.tree.keyed _ _ hb
  have hfuel : depth e.validatedBlock.getParentId < newRoot.ancestors.length :=
    depth_lt_of_blockAt hwf.tree _ _ hb
  have hget1' : ∀ j, tree1.get j = if j = e.validatedBlock.getId then none else t.tree.get j := by
    rw [hkey]
    exact hget1
  -- the branch in the tree without the new root is the branch in the whole tree
  have hbranch : ∀ rest, CoherentBranch tree1 t.root.info.blockId e rest ↔
      t.CoherentPath newRoot (e.validatedBlock :: rest) := by
    intro rest
    rw [coherentBranch_remove_iff hwf.tree hget1', CoherentPath, path_cons_iff, forall_mem_cons, hkey]
    simp only [CoherentBranch, hb, hecoh, hcoh, true_and]
  simp only [prune, isCoherent_of_ne_root hne, hcoh, Bool.not_true, Bool.false_eq_true, if_false,
    if_neg hne, hremove, bind, Except.bind]
  rcases pruneLoop_cases t.root.info.blockId hwf1 e [] hfuel with
    ⟨rest, tree2, hok, hcb, hwf2, hget2⟩ | ⟨p, herr, hp, hnone⟩
  · rw [hok]
    obtain ⟨tree3, hall, hwf3, hget3⟩ :=
      removeAll_spec hwf2 (blocksToDelete tree2 e.validatedBlock.getBlockRound)
    simp only [hall, nil_append, pure, Except.pure]
    refine .inl ⟨e.validatedBlock, rest, _, rfl, ((hbranch rest).mp hcb).1,
      ((hbranch rest).mp hcb).2, hwf3, rfl, (childrenAt_of_get he).symm, ?_⟩
    intro j
    have hold : tree2.get j = if j ∈ (e.validatedBlock :: rest).map getId then none
        else t.tree.get j := by
      rw [hget2, hget1]
      simp only [map_cons, mem_cons, hkey]
      by_cases hj : j = newRoot
      · simp [hj]
      · simp [hj]
    rw [hget3]
    by_cases hj : j ∈ (e.validatedBlock :: rest).map getId
    · rw [hold, if_pos hj, if_pos hj, ite_self]
    · rw [hold, if_neg hj, if_neg hj]
      cases hje : t.tree.get j with
      | none => rw [filter_none, ite_self]
      | some ej =>
        have hbj : tree2.blockAt j = some ej.validatedBlock := by
          rw [blockAt, hold, if_neg hj, hje]
          rfl
        have hdel : j ∈ blocksToDelete tree2 e.validatedBlock.getBlockRound ↔
            ej.validatedBlock.getParentRound < e.validatedBlock.getBlockRound := by
          rw [mem_blocksToDelete, hbj]
          simp
        by_cases hlt : ej.validatedBlock.getParentRound < e.validatedBlock.getBlockRound
        · rw [if_pos (hdel.mpr hlt), filter_some, if_neg]
          simp [hlt]
        · rw [if_neg (fun h => hlt (hdel.mp h)), filter_some, if_pos]
          simp only [decide_eq_true_eq]
          omega
  · rw [herr]
    refine .inr ⟨p, rfl, ?_, ?_⟩
    · rcases hp with h | h
      · exact .inr (.inl h)
      · exact .inr (.inr h)
    · intro l h
      obtain ⟨c, l', rfl, hc⟩ := h.1.exists_cons
      rw [hb] at hc
      cases hc
      exact hnone l' ((hbranch l').mpr h)

/-! ## The structural invariant after pruning -/

def RoundsOk (t : BlockTree K) : Prop := ∀ id b, t.tree.blockAt id = some b → b.RoundsOk

/-- Along a branch, block rounds do not exceed the round of its first block. -/
lemma blockRound_le_of_path {t : BlockTree K} (hwf : t.tree.Wf) (hrounds : t.RoundsOk)
    (h : t.Path id l) (hc : c ∈ l) :
    c.getBlockRound ≤ id.blockRound := by
  induction h with
  | last hget _ =>
    rw [mem_singleton] at hc
    rw [hc, ← hwf.keyed _ _ hget]
    exact le_refl _
  | @step i b l hget _ _ ih =>
    have hb : i.blockRound = b.getBlockRound := by
      rw [← hwf.keyed _ _ hget]
      rfl
    rw [mem_cons] at hc
    rcases hc with rfl | hc
    · exact le_of_eq hb.symm
    · have hle := ih hc
      have hr := hrounds _ _ hget
      unfold ConsensusFullBlock.RoundsOk at hr
      omega

section

variable {t t' : BlockTree K} {newRoot : BlockId K}

section

variable (h : Pruned t newRoot b rest t')
include h

lemma Pruned.newRoot_eq (hwf : t.tree.Wf) : b.getId = newRoot :=
  hwf.keyed _ _ h.path.get_head

lemma Pruned.rootId (hwf : t.tree.Wf) : t'.root.info.blockId = newRoot := by
  rw [h.info]
  exact h.newRoot_eq hwf

lemma Pruned.blockAt_eq_some {j : BlockId K} :
    t'.tree.blockAt j = some c ↔ t.tree.blockAt j = some c ∧
      j ∉ (b :: rest).map getId ∧ b.getBlockRound ≤ c.getParentRound := by
  rw [blockAt, h.get]
  by_cases hj : j ∈ (b :: rest).map getId
  · rw [if_pos hj]
    simp only [map_none, reduceCtorEq, hj, not_true_eq_false, false_and, and_false]
  · rw [if_neg hj]
    cases hje : t.tree.get j with
    | none => simp [blockAt, hje]
    | some e =>
      rw [filter_some]
      by_cases hle : b.getBlockRound ≤ e.validatedBlock.getParentRound
      · simp only [hle, decide_true, if_true, map_some, some.injEq,
          blockAt, hje, hj, not_false_eq_true, true_and]
        constructor
        · intro heq
          exact ⟨heq, heq ▸ hle⟩
        · intro hboth
          exact hboth.1
      · simp only [hle, decide_false, Bool.false_eq_true, if_false, map_none,
          reduceCtorEq, blockAt, hje, map_some, some.injEq, false_iff]
        intro hboth
        exact hle (hboth.1 ▸ hboth.2.2)

lemma Pruned.roundsOk (hrounds : t.RoundsOk) : t'.RoundsOk := by
  intro id c hc
  exact hrounds id c (h.blockAt_eq_some.mp hc).1

lemma Pruned.child_survives (hwf : t.Wf)
    (hrounds : t.RoundsOk) {c : BlockId K} {eb cb : ConsensusFullBlock K}
    (hid : t'.tree.blockAt id = some eb) (hc : t.tree.blockAt c = some cb)
    (hparent : cb.getParentId = id) : t'.tree.blockAt c = some cb := by
  obtain ⟨hid0, hnot, hle⟩ := h.blockAt_eq_some.mp hid
  have hidRound : id.blockRound = eb.getBlockRound := by
    rw [← hwf.tree.keyed _ _ hid0]
    rfl
  have hebRounds := hrounds _ _ hid0
  have hcbRounds := hrounds _ _ hc
  unfold ConsensusFullBlock.RoundsOk at hebRounds hcbRounds
  rw [hparent] at hcbRounds
  refine h.blockAt_eq_some.mpr ⟨hc, ?_, by omega⟩
  intro hmem
  rw [List.mem_map] at hmem
  obtain ⟨d, hd, hdc⟩ := hmem
  -- a block on the branch has its parent on the branch or the old root as parent
  have hcd : cb = d := by
    obtain ⟨j, hj⟩ := h.path.get_of_mem hd
    have hjd := hwf.tree.keyed _ _ hj
    rw [← hjd, hdc, hc] at hj
    exact Option.some.inj hj
  subst hcd
  obtain ⟨l1, l2, hsplit⟩ := List.append_of_mem hd
  have hpath := h.path
  rw [hsplit] at hpath
  obtain ⟨j, hj⟩ := hpath.of_append
  rcases hj.tail_cases with ⟨hroot, _⟩ | ⟨_, hnext⟩
  · -- the old root itself can only be stored with a round below the branch
    have hlast := blockRound_le_of_path hwf.tree hrounds h.path hd
    rw [← h.newRoot_eq hwf.tree] at hlast
    change _ ≤ b.getBlockRound at hlast
    omega
  · obtain ⟨pb, l3, hl2, hpb⟩ := hnext.exists_cons
    apply hnot
    rw [List.mem_map]
    refine ⟨pb, ?_, ?_⟩
    · rw [hsplit, hl2]
      simp
    · rw [hwf.tree.keyed _ _ hpb, hparent]

/-- Pruning keeps the structural invariant. -/
theorem wf_of_pruned (hwf : t.Wf) (hrounds : t.RoundsOk) : t'.Wf := by
  refine ⟨h.tree_wf, ?_, ?_⟩
  · intro id e he
    have hblock := blockAt_of_get he
    obtain ⟨hblock0, hnot, hle⟩ := h.blockAt_eq_some.mp hblock
    have he0 : t.tree.get id = some e := by
      rw [h.get, if_neg hnot] at he
      exact (filter_eq_some_iff.mp he).1
    obtain ⟨hnodup, hiff⟩ := hwf.children id e he0
    refine ⟨hnodup, ?_⟩
    intro c
    rw [hiff]
    constructor
    · intro hex
      obtain ⟨cb, hc, hparent⟩ := hex
      exact ⟨cb, h.child_survives hwf hrounds hblock hc hparent, hparent⟩
    · intro hex
      obtain ⟨cb, hc, hparent⟩ := hex
      exact ⟨cb, (h.blockAt_eq_some.mp hc).1, hparent⟩
  · rw [h.children, h.rootId hwf.tree]
    obtain ⟨hnodup, hiff⟩ := childrenAt_listsChildren hwf h.path.get_head
    refine ⟨hnodup, ?_⟩
    intro c
    rw [hiff]
    constructor
    · intro hex
      obtain ⟨cb, hc, hparent⟩ := hex
      have hcRounds := hrounds _ _ hc
      unfold ConsensusFullBlock.RoundsOk at hcRounds
      rw [hparent, ← h.newRoot_eq hwf.tree] at hcRounds
      refine ⟨cb, h.blockAt_eq_some.mpr ⟨hc, ?_, hcRounds.1⟩, hparent⟩
      intro hmem
      rw [List.mem_map] at hmem
      obtain ⟨d, hd, hdc⟩ := hmem
      have hle := pathTo_depth_le hwf.tree h.path hd
      have hlt := depth_lt_of_blockAt hwf.tree _ _ hc
      rw [hparent] at hlt
      rw [hdc] at hle
      omega
    · intro hex
      obtain ⟨cb, hc, hparent⟩ := hex
      exact ⟨cb, (h.blockAt_eq_some.mp hc).1, hparent⟩

end

end

end BlockTree

end Kinet
