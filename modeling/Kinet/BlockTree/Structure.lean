import Kinet.BlockTree.BlockTree
import Mathlib.Algebra.Order.BigOperators.Group.Finset

/-!
# Structure of the block tree

The invariant that links entries, child lists and the payload index, and its
preservation by adding blocks and by updating coherency.
-/

namespace Kinet

open List Finset Kinet.Tree BlockId

variable {K : TypeParams}

namespace BlockTree

/-- Following parent links from `id` visits `l` and then arrives at the root. -/
def Path (t : BlockTree K) (id : BlockId K) (l : List (ConsensusFullBlock K)) : Prop :=
  Forest.PathTo ConsensusFullBlock.getParentId t.tree.blockAt t.root.info.blockId id l

/-- Distance of an id from genesis. -/
def depth (id : BlockId K) : Nat := id.ancestors.length

lemma depth_parent_lt (b : ConsensusFullBlock K) : depth b.getParentId < depth b.getId :=
  length_ancestors_lt b.header

lemma depth_lt_of_blockAt {t : Tree K} (hwf : t.Wf) (id : BlockId K)
    (b : ConsensusFullBlock K) (h : t.blockAt id = some b) : depth b.getParentId < depth id := by
  have hlt := depth_parent_lt b
  rw [hwf.keyed id b h] at hlt
  exact hlt

/-! ## Paths -/

variable {id : BlockId K} {l : List (ConsensusFullBlock K)} {t : BlockTree K}
  {children : List (BlockId K)} {b : ConsensusFullBlock K} {fuel : Nat}

lemma path_of_pathUp (h : t.pathUp fuel id = some l) : t.Path id l := by
  induction fuel generalizing id l with
  | zero => cases h
  | succ fuel ih =>
    unfold pathUp at h
    cases hget : t.tree.get id with
    | none => rw [hget] at h; cases h
    | some entry =>
      rw [hget] at h
      have hblock := blockAt_of_get hget
      simp only at h
      split at h
      · next hroot =>
        cases h
        exact .last hblock hroot
      · next hne =>
        obtain ⟨l', hl', rfl⟩ := Option.map_eq_some_iff.mp h
        exact .step hblock hne (ih hl')

lemma pathUp_of_path (h : t.Path id l) (hfuel : l.length ≤ fuel) :
    t.pathUp fuel id = some l := by
  induction h generalizing fuel with
  | last hget hroot =>
    obtain ⟨e, he, rfl⟩ := blockAt_eq_some.mp hget
    cases fuel with
    | zero => simp at hfuel
    | succ fuel => simp [pathUp, he, hroot]
  | step hget hne _ ih =>
    obtain ⟨e, he, rfl⟩ := blockAt_eq_some.mp hget
    cases fuel with
    | zero => simp at hfuel
    | succ fuel =>
      have hrest := ih (Nat.le_of_succ_le_succ hfuel)
      simp [pathUp, he, hne, hrest]

/-- A path leads strictly upwards. -/
lemma Path.depth_root_lt (hwf : t.tree.Wf) (h : t.Path id l) :
    depth t.root.info.blockId < depth id := by
  induction h with
  | last hget hroot =>
    have hlt := depth_lt_of_blockAt hwf _ _ hget
    rwa [hroot] at hlt
  | step hget _ _ ih => exact lt_trans ih (depth_lt_of_blockAt hwf _ _ hget)

lemma Path.ne_root (hwf : t.tree.Wf) (h : t.Path id l) : id ≠ t.root.info.blockId := by
  intro heq
  have hlt := h.depth_root_lt hwf
  rw [heq] at hlt
  exact lt_irrefl _ hlt

/-- The executable path is the path along parent links, read from the root. -/
theorem getBlocksOnPathFromRoot_eq_some_iff (hwf : t.tree.Wf) (hne : id ≠ t.root.info.blockId)
    {p : List (ConsensusFullBlock K)} :
    t.getBlocksOnPathFromRoot id = some p ↔ t.Path id p.reverse := by
  rw [getBlocksOnPathFromRoot, if_neg hne, Option.map_eq_some_iff]
  constructor
  · intro h
    obtain ⟨l, hl, rfl⟩ := h
    rw [reverse_reverse]
    exact path_of_pathUp hl
  · intro h
    refine ⟨p.reverse, pathUp_of_path h ?_, reverse_reverse p⟩
    exact h.length_le_rank (depth_lt_of_blockAt hwf)

lemma getBlocksOnPathFromRoot_of_path (hwf : t.tree.Wf) (h : t.Path id l) :
    t.getBlocksOnPathFromRoot id = some l.reverse := by
  rw [getBlocksOnPathFromRoot_eq_some_iff hwf (h.ne_root hwf), reverse_reverse]
  exact h

/-! ## The structural invariant -/

/-- `children` lists, without repetition, the stored blocks whose parent is `id`. -/
def ListsChildren (t : Tree K) (id : BlockId K) (children : List (BlockId K)) : Prop :=
  children.Nodup ∧ ∀ c, c ∈ children ↔ ∃ b, t.blockAt c = some b ∧ b.getParentId = id

/-- Entries, child lists and payload index agree. -/
structure Wf (t : BlockTree K) : Prop where
  tree : t.tree.Wf
  children : ∀ id e, t.tree.get id = some e → ListsChildren t.tree id e.childrenBlocks
  rootChildren : ListsChildren t.tree t.root.info.blockId t.root.childrenBlocks

lemma wf_new (root : RootInfo K) : (new root).Wf := by
  refine ⟨wf_empty, ?_, ?_⟩
  · intro id e h
    simp [new, Tree.get, Tree.empty] at h
  · refine ⟨nodup_nil, ?_⟩
    intro c
    simp [new, Tree.blockAt, Tree.get, Tree.empty]

lemma ListsChildren.congr {t t' : Tree K} (h : ListsChildren t id children)
    (hblock : ∀ j, t'.blockAt j = t.blockAt j) : ListsChildren t' id children := by
  refine ⟨h.1, ?_⟩
  intro c
  rw [h.2, hblock]

/-- A new block joins the child list of its parent and of no other block. -/
lemma ListsChildren.insert {t t' : Tree K} {block : ConsensusFullBlock K}
    (h : ListsChildren t id children) (hfresh : t.blockAt block.getId = none)
    (hblock : ∀ j, t'.blockAt j = if j = block.getId then some block else t.blockAt j) :
    ListsChildren t' id
      (if id = block.getParentId then children ++ [block.getId] else children) := by
  have hnot : block.getId ∉ children := by
    intro hmem
    obtain ⟨b, hb, _⟩ := (h.2 _).mp hmem
    rw [hfresh] at hb
    cases hb
  have hiff : ∀ c, (∃ b, t'.blockAt c = some b ∧ b.getParentId = id) ↔
      c ∈ children ∨ (c = block.getId ∧ id = block.getParentId) := by
    intro c
    rw [h.2, hblock]
    by_cases hc : c = block.getId
    · simp [hc, hfresh, eq_comm]
    · simp [hc]
  by_cases hid : id = block.getParentId
  · rw [if_pos hid]
    refine ⟨?_, ?_⟩
    · rw [nodup_append]
      refine ⟨h.1, nodup_singleton _, ?_⟩
      intro a ha b hb
      rw [List.mem_singleton] at hb
      intro heq
      rw [hb] at heq
      exact hnot (heq ▸ ha)
    · intro c
      rw [hiff, List.mem_append, List.mem_singleton]
      simp [hid]
  · rw [if_neg hid]
    refine ⟨h.1, ?_⟩
    intro c
    rw [hiff]
    simp [hid]

/-- Adding a block never fails; it stores the block as incoherent if it is new and
above the root, and changes no other block or flag. -/
theorem add_spec (hwf : t.Wf) (block : ConsensusFullBlock K) :
    ∃ t', t.add block = .ok t' ∧ t'.Wf ∧ t'.root.info = t.root.info ∧
      (∀ j, t'.tree.blockAt j = if t.isValidToInsert block.header ∧ j = block.getId then some block
        else t.tree.blockAt j) ∧
      ∀ j, t'.tree.flagAt j = t.tree.flagAt j := by
  by_cases hvalid : t.isValidToInsert block.header = true
  swap
  · refine ⟨t, ?_, hwf, rfl, ?_, ?_⟩
    · simp [add, hvalid]
    · intro j
      simp [hvalid]
    · intro j
      rfl
  have hnone : t.tree.get block.getId = none := by
    simp only [isValidToInsert, Bool.and_eq_true, Option.isNone_iff_eq_none] at hvalid
    exact hvalid.1
  obtain ⟨tree, hinsert, htree, hget⟩ := insert_of_wf hwf.tree hnone
  have hblock : ∀ j, tree.blockAt j = if j = block.getId then some block else t.tree.blockAt j := by
    intro j
    rw [blockAt, hget, blockAt_insertedEntry]
  have hfresh : t.tree.blockAt block.getId = none := by
    rw [blockAt, hnone, Option.map_none]
  refine ⟨⟨⟨t.root.info, if block.getParentId = t.root.info.blockId then
    t.root.childrenBlocks ++ [block.getId] else t.root.childrenBlocks⟩, tree⟩,
    ?_, ⟨htree, ?_, ?_⟩, rfl, ?_, ?_⟩
  · simp only [add, hvalid, Bool.not_true, Bool.false_eq_true, if_false, hinsert]
    rfl
  · intro id e he
    rw [hget] at he
    unfold insertedEntry at he
    split at he
    · next hid =>
      cases he
      -- the children that arrived before the block
      refine ⟨nodup_childrenOf _ _, ?_⟩
      intro c
      rw [mem_childrenOf, hblock, hid]
      by_cases hc : c = block.getId
      · have hne : block.getParentId ≠ block.getId :=
          (getId_ne_getParentId block.header).symm
        simp [hc, hfresh, hne]
      · simp [hc]
    · split at he
      · next hid =>
        obtain ⟨e', he', rfl⟩ := Option.map_eq_some_iff.mp he
        have hlist := (hwf.children id e' he').insert hfresh hblock
        rwa [if_pos hid] at hlist
      · next hid =>
        have hlist := (hwf.children id e he).insert hfresh hblock
        rwa [if_neg hid] at hlist
  · have hlist := hwf.rootChildren.insert hfresh hblock
    by_cases hroot : block.getParentId = t.root.info.blockId
    · rw [if_pos hroot.symm] at hlist
      simp only [hroot, if_true]
      exact hlist
    · rw [if_neg (Ne.symm hroot)] at hlist
      simp only [hroot, if_false]
      exact hlist
  · intro j
    rw [hblock]
    simp [hvalid]
  · intro j
    rw [flagAt, hget, flagAt]
    unfold insertedEntry
    split
    · next hj =>
      rw [hj, hnone]
      rfl
    · split
      · cases t.tree.get j <;> rfl
      · rfl

/-! ## Breadth-first passes

The measure of a pass is the number of stored descendants of the queued blocks.
Two children of one block share no descendant, so queueing the children of a
block in its place decreases the measure. -/

def descendants (t : Tree K) (id : BlockId K) : Finset (BlockId K) :=
  t.tree.keys.toFinset.filter fun j => j.Extends id

def queueWeight (t : Tree K) (queue : List (BlockId K)) : Nat :=
  (queue.map fun id => (descendants t id).card).sum

lemma mem_descendants {t : Tree K} {j : BlockId K} :
    j ∈ descendants t id ↔ (∃ b, t.blockAt j = some b) ∧ j.Extends id := by
  rw [descendants, Finset.mem_filter, List.mem_toFinset, ← AList.mem_keys, FiniteMap.mem_iff_lookup]
  simp [Tree.blockAt, Tree.get]

lemma descendants_congr {t t' : Tree K} (hblock : ∀ j, t'.blockAt j = t.blockAt j)
    (id : BlockId K) : descendants t' id = descendants t id := by
  ext j
  rw [mem_descendants, mem_descendants, hblock]

lemma queueWeight_congr {t t' : Tree K} (hblock : ∀ j, t'.blockAt j = t.blockAt j)
    (queue : List (BlockId K)) : queueWeight t' queue = queueWeight t queue := by
  unfold queueWeight
  simp only [descendants_congr hblock]

lemma queueWeight_append (t : Tree K) (q q' : List (BlockId K)) :
    queueWeight t (q ++ q') = queueWeight t q + queueWeight t q' := by
  simp [queueWeight]

lemma card_descendants_le (t : Tree K) (id : BlockId K) : (descendants t id).card ≤ t.len := by
  have hle : (descendants t id).card ≤ t.tree.keys.toFinset.card :=
    card_filter_le _ _
  exact le_trans hle (toFinset_card_le _)

/-- A child of `id` descends from `id`, and `id` does not descend from it. -/
lemma extends_of_child {t : Tree K} (hwf : t.Wf) {c : BlockId K} (hb : t.blockAt c = some b)
    (hparent : b.getParentId = id) : c.Extends id ∧ ¬ id.Extends c := by
  have hkey := hwf.keyed c b hb
  have hext : b.getId.Extends b.getParentId := extends_parent b.header
  have hlt := depth_parent_lt b
  rw [hkey, hparent] at hext hlt
  refine ⟨hext, ?_⟩
  intro hback
  have hle : depth c ≤ depth id := (ancestors_suffix hback).length_le
  omega

lemma child_unique {t : Tree K} (hwf : t.Wf) {c c' j : BlockId K} {b' : ConsensusFullBlock K}
    (hb : t.blockAt c = some b) (hparent : b.getParentId = id) (hb' : t.blockAt c' = some b')
    (hparent' : b'.getParentId = id) (hj : j.Extends c) (hj' : j.Extends c') : c = c' := by
  have hlen : depth c = depth id + 1 := by
    rw [← hwf.keyed c b hb, ← hparent, depth, depth]
    rw [show b.getId.ancestors = b.getId :: b.getParentId.ancestors from rfl, length_cons]
  have hlen' : depth c' = depth id + 1 := by
    rw [← hwf.keyed c' b' hb', ← hparent', depth, depth]
    rw [show b'.getId.ancestors = b'.getId :: b'.getParentId.ancestors from rfl, length_cons]
  have hsuffix := ancestors_suffix (extends_of_length_le hj hj'
    (by rw [← depth, ← depth, hlen, hlen']))
  have heq : c.ancestors = c'.ancestors :=
    hsuffix.eq_of_length (by rw [← depth, ← depth, hlen, hlen'])
  have hhead : ∀ a : BlockId K, a.ancestors.head? = some a := by
    intro a
    cases a <;> rfl
  have hc := hhead c
  rw [heq, hhead c'] at hc
  exact (Option.some.inj hc).symm

/-- The children of a block weigh no more than its proper descendants. -/
lemma queueWeight_children_le {t : Tree K} (hwf : t.Wf) (hlist : ListsChildren t id children) :
    queueWeight t children ≤ ((descendants t id).erase id).card := by
  have hsum : queueWeight t children = ∑ c ∈ children.toFinset, (descendants t c).card :=
    (sum_toFinset _ hlist.1).symm
  rw [hsum, ← card_biUnion]
  · apply card_le_card
    intro j hj
    rw [mem_biUnion] at hj
    obtain ⟨c, hc, hjc⟩ := hj
    rw [mem_toFinset, hlist.2] at hc
    obtain ⟨b, hb, hparent⟩ := hc
    obtain ⟨hext, hnot⟩ := extends_of_child hwf hb hparent
    rw [mem_descendants] at hjc
    rw [mem_erase, mem_descendants]
    refine ⟨?_, hjc.1, hjc.2.trans hext⟩
    intro heq
    exact hnot (heq ▸ hjc.2)
  · intro c hc c' hc' hne
    rw [mem_coe, mem_toFinset, hlist.2] at hc hc'
    obtain ⟨b, hb, hparent⟩ := hc
    obtain ⟨b', hb', hparent'⟩ := hc'
    rw [Function.onFun, Finset.disjoint_left]
    intro j hj hj'
    rw [mem_descendants] at hj hj'
    exact hne (child_unique hwf hb hparent hb' hparent' hj.2 hj'.2)

/-- Replacing a stored block by its children in the queue frees one unit. -/
lemma queueWeight_children_lt {t : Tree K} (hwf : t.Wf) (hb : t.blockAt id = some b)
    (hlist : ListsChildren t id children) :
    queueWeight t children + 1 ≤ (descendants t id).card := by
  have hle := queueWeight_children_le hwf hlist
  have hmem : id ∈ descendants t id :=
    mem_descendants.mpr ⟨⟨b, hb⟩, extends_refl id⟩
  have hcard := card_erase_add_one hmem
  omega

lemma queueWeight_rootChildren_le (hwf : t.Wf) :
    queueWeight t.tree t.root.childrenBlocks ≤ t.tree.len := by
  have hle := queueWeight_children_le hwf.tree hwf.rootChildren
  have herase := card_erase_le (s := descendants t.tree t.root.info.blockId)
    (a := t.root.info.blockId)
  have hlen := card_descendants_le t.tree t.root.info.blockId
  omega

/-! ## Updating coherency -/

/-- Marking a stored block as coherent changes nothing but its flag. -/
lemma setCoherent_spec (hwf : t.Wf) (hb : t.tree.blockAt id = some b) :
    ∃ tree, t.tree.setCoherent id true = some tree ∧ ({ t with tree := tree } : BlockTree K).Wf ∧
      (∀ j, tree.blockAt j = t.tree.blockAt j) ∧
      (∀ j, tree.childrenAt j = t.tree.childrenAt j) ∧
      ∀ j, tree.flagAt j = if j = id then true else t.tree.flagAt j := by
  obtain ⟨e, he, hbe⟩ := blockAt_eq_some.mp hb
  obtain ⟨tree, hset, hpay, hget⟩ := setCoherent_of_get he true
  have hblock : ∀ j, tree.blockAt j = t.tree.blockAt j := by
    intro j
    rw [blockAt, hget, blockAt]
    split
    · next hj => rw [hj, he]; rfl
    · rfl
  refine ⟨tree, hset, ⟨hwf.tree.of_blockAt hpay hblock, ?_, ?_⟩, hblock, ?_, ?_⟩
  · intro j ej hej
    rw [hget] at hej
    split at hej
    · next hj =>
      cases hej
      rw [hj]
      exact (hwf.children id e he).congr hblock
    · exact (hwf.children j ej hej).congr hblock
  · exact hwf.rootChildren.congr hblock
  · intro j
    rw [childrenAt, hget, childrenAt]
    split
    · next hj => rw [hj, he]; rfl
    · rfl
  · intro j
    rw [flagAt, hget, flagAt]
    split <;> rfl

lemma childrenAt_listsChildren (hwf : t.Wf) (hb : t.tree.blockAt id = some b) :
    ListsChildren t.tree id (t.tree.childrenAt id) := by
  obtain ⟨e, he, _⟩ := blockAt_eq_some.mp hb
  rw [childrenAt_of_get he]
  exact hwf.children id e he

/-- What stays fixed while coherency is updated. -/
structure SameBlocks (t t' : BlockTree K) : Prop where
  root : t'.root = t.root
  blockAt : ∀ j, t'.tree.blockAt j = t.tree.blockAt j
  childrenAt : ∀ j, t'.tree.childrenAt j = t.tree.childrenAt j

lemma SameBlocks.refl (t : BlockTree K) : SameBlocks t t :=
  ⟨rfl, fun _ => rfl, fun _ => rfl⟩

lemma SameBlocks.trans {t' t'' : BlockTree K} (h : SameBlocks t t') (h' : SameBlocks t' t'') :
    SameBlocks t t'' := by
  refine ⟨h'.root.trans h.root, ?_, ?_⟩
  · intro j
    rw [h'.blockAt, h.blockAt]
  · intro j
    rw [h'.childrenAt, h.childrenAt]

lemma SameBlocks.path {t' : BlockTree K} (h : SameBlocks t t') : t'.Path id l ↔ t.Path id l := by
  have hfun : t'.tree.blockAt = t.tree.blockAt := funext h.blockAt
  unfold Path
  rw [hfun, h.root]

/-- Rule for the coherency loop.  An invariant `I` of the flags and the queue that
gives every queued block a path, and that is kept when a block passes and when
it fails, holds at the end with an empty queue; the loop does not fail. -/
theorem updateCoherencyLoop_rule (policy : BlockPolicy K) (blockPolicy : K.BPT) (t₀ : BlockTree K)
    (I : (BlockId K → Bool) → List (BlockId K) → Prop)
    (hpath : ∀ flags id queue, I flags (id :: queue) → ∃ b l, t₀.Path id (b :: l))
    (hpass : ∀ flags id queue b l stateRead, I flags (id :: queue) → t₀.Path id (b :: l) →
      (policy.checkCoherency blockPolicy b l.reverse t₀.root.info stateRead).1 = .ok () →
      I (fun j => if j = id then true else flags j) (queue ++ t₀.tree.childrenAt id))
    (hfail : ∀ flags id queue b l stateRead e, I flags (id :: queue) → t₀.Path id (b :: l) →
      (policy.checkCoherency blockPolicy b l.reverse t₀.root.info stateRead).1 = .error e →
      I flags queue) {queue : List (BlockId K)} (stateRead : K.ESRT)
    (retval : List (ConsensusFullBlock K)) (hwf : t.Wf) (hsame : SameBlocks t₀ t)
    (hI : I t.tree.flagAt queue) (hfuel : queueWeight t.tree queue ≤ fuel) :
    ∃ retval' t' stateRead', updateCoherencyLoop policy blockPolicy fuel t stateRead queue retval =
        .ok (retval', t', stateRead') ∧
      t'.Wf ∧ SameBlocks t₀ t' ∧ I t'.tree.flagAt [] := by
  induction fuel generalizing t stateRead queue retval with
  | zero =>
    cases queue with
    | nil => exact ⟨retval, t, stateRead, rfl, hwf, hsame, hI⟩
    | cons id queue =>
      obtain ⟨b, l, hp⟩ := hpath _ _ _ hI
      have hb := (hsame.path.mpr hp).get_head
      have hlt := queueWeight_children_lt hwf.tree hb (childrenAt_listsChildren hwf hb)
      simp only [queueWeight, List.map_cons, List.sum_cons] at hfuel
      omega
  | succ fuel ih =>
    cases queue with
    | nil => exact ⟨retval, t, stateRead, rfl, hwf, hsame, hI⟩
    | cons id queue =>
      obtain ⟨b, l, hp⟩ := hpath _ _ _ hI
      have hpt : t.Path id (b :: l) := hsame.path.mpr hp
      have hb := hpt.get_head
      have hpathEq := getBlocksOnPathFromRoot_of_path hwf.tree hpt
      have hlist := childrenAt_listsChildren hwf hb
      have hlt := queueWeight_children_lt hwf.tree hb hlist
      have hweight : queueWeight t.tree (id :: queue) =
          (descendants t.tree id).card + queueWeight t.tree queue := by
        simp [queueWeight]
      have hlast : (b :: l).reverse.getLast? = some b := by simp
      have hinit : (b :: l).reverse.dropLast = l.reverse := by simp
      simp only [updateCoherencyLoop, hpathEq, hlast, hinit]
      cases hverdict : (policy.checkCoherency blockPolicy b l.reverse t.root.info stateRead).1 with
      | ok u =>
        obtain ⟨tree, hset, hwf', hblock, hchildren, hflag⟩ := setCoherent_spec hwf hb
        simp only [hset]
        apply ih _ _ hwf'
        · exact hsame.trans ⟨rfl, hblock, hchildren⟩
        · have hnext := hpass _ _ _ _ _ stateRead hI hp (hsame.root ▸ hverdict)
          have hfun : tree.flagAt = fun j => if j = id then true else t.tree.flagAt j :=
            funext hflag
          rw [hfun, hchildren, hsame.childrenAt]
          exact hnext
        · rw [queueWeight_congr hblock, queueWeight_append, hchildren]
          omega
      | error e =>
        apply ih _ _ hwf hsame
        · exact hfail _ _ _ _ _ stateRead e hI hp (hsame.root ▸ hverdict)
        · omega

end BlockTree

end Kinet
