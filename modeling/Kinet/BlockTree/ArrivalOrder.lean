import Kinet.BlockTree.Runs

/-!
# Arrival order

Blocks arrive in any order; each one is added and coherency is updated for it.
If the policy's verdict on a block depends only on the block and its ancestors
above the root, the resulting tree is determined by the set of blocks.

Main results:

- `BlockTree.arrival_order_independent`: two sequences of arrivals of the
  same blocks give the same tree.
-/

namespace Kinet

open List Option

variable {K : TypeParams}

namespace BlockTree

/-- Add each block and update coherency for it. -/
def insertAll (policy : BlockPolicy K) (blockPolicy : K.BPT) :
    List (ConsensusFullBlock K) → BlockTree K → K.ESRT → Except TreePanic (BlockTree K × K.ESRT)
  | [], t, stateRead => .ok (t, stateRead)
  | block :: blocks, t, stateRead => do
    let t ← t.add block
    let (_, t, stateRead) ← tryUpdateCoherency policy blockPolicy t stateRead block.getId
    insertAll policy blockPolicy blocks t stateRead

section

/-- Every block of a branch passes, given the blocks it extends.  The branch is
listed from its end to the root. -/
def AllPass (passes : List (ConsensusFullBlock K) → ConsensusFullBlock K → Prop) :
    List (ConsensusFullBlock K) → Prop
  | [] => True
  | b :: ext => passes ext.reverse b ∧ AllPass passes ext

variable {passes : List (ConsensusFullBlock K) → ConsensusFullBlock K → Prop}

lemma AllPass.of_append {l l' : List (ConsensusFullBlock K)} (h : AllPass passes (l ++ l')) :
    AllPass passes l' := by
  induction l with
  | nil => exact h
  | cons b l ih => exact ih h.2

variable (passes)

/-- The branch of `id` is complete and passes. -/
def Passing (t : BlockTree K) (id : BlockId K) : Prop := ∃ l, t.Path id l ∧ AllPass passes l

/-- Flagged blocks pass, and a block that passes is flagged unless its branch
contains one of `missing`. -/
structure FlagsExactUpTo (t : BlockTree K) (flags : BlockId K → Bool)
    (missing : List (BlockId K)) : Prop where
  sound : ∀ id, flags id = true → t.Passing passes id
  complete : ∀ id l, t.Path id l → AllPass passes l → flags id = true ∨ ∃ c ∈ l, c.getId ∈ missing

variable {passes} {t : BlockTree K} {flags : BlockId K → Bool}

lemma FlagsExactUpTo.flag_iff (h : FlagsExactUpTo passes t flags []) (id : BlockId K) :
    flags id = true ↔ t.Passing passes id := by
  constructor
  · exact h.sound id
  · intro hpass
    obtain ⟨l, hl, hall⟩ := hpass
    rcases h.complete id l hl hall with hflag | ⟨c, _, hc⟩
    · exact hflag
    · cases hc

/-- A block below the root or below a passing block extends a passing branch. -/
lemma allPass_of_parent (hsound : ∀ id, flags id = true → t.Passing passes id) {id : BlockId K}
    {b : ConsensusFullBlock K} {l : List (ConsensusFullBlock K)} (hpath : t.Path id (b :: l))
    (hparent : b.getParentId = t.root.info.blockId ∨ flags b.getParentId = true) :
    AllPass passes l := by
  rcases hpath.tail_cases with ⟨_, hnil⟩ | ⟨hne, hrest⟩
  · rw [hnil]
    trivial
  · obtain ⟨l', hl', hall⟩ := hsound _ (hparent.resolve_left hne)
    rw [hrest.unique hl']
    exact hall

/-! ## The loop -/

/-- Loop invariant: the flags are exact up to the queued blocks, and each queued
block extends a passing branch. -/
def LoopExact (passes : List (ConsensusFullBlock K) → ConsensusFullBlock K → Prop)
    (t : BlockTree K) (flags : BlockId K → Bool) (queue : List (BlockId K)) : Prop :=
  FlagsExactUpTo passes t flags queue ∧ ∀ q ∈ queue, ∃ b l, t.Path q (b :: l) ∧ AllPass passes l

variable {flags : BlockId K → Bool} {id : BlockId K} {queue : List (BlockId K)}
  {b : ConsensusFullBlock K} {l : List (ConsensusFullBlock K)} {m : List (ConsensusFullBlock K)}

lemma path_through_child (hwf : t.Wf) {x : BlockId K}
    (hx : t.Path x m) (hb : t.tree.blockAt id = some b) (hmem : b ∈ m) :
    x = id ∨ ∃ c ∈ m, c.getId ∈ t.tree.childrenAt id := by
  obtain ⟨l1, l2, rfl⟩ := append_of_mem hmem
  rcases eq_nil_or_concat l1 with rfl | ⟨l3, d, rfl⟩
  · left
    have hget := Forest.PathTo.get_head hx
    rw [← hwf.tree.keyed _ _ hget, hwf.tree.keyed _ _ hb]
  · right
    have hx' : t.Path x (l3 ++ d :: (b :: l2)) := by simpa using hx
    obtain ⟨j, hj⟩ := hx'.of_append
    refine ⟨d, by simp, ?_⟩
    rw [(childrenAt_listsChildren hwf hb).2]
    refine ⟨d, ?_, ?_⟩
    · rw [hwf.tree.keyed _ _ hj.get_head]
      exact hj.get_head
    · rcases hj.tail_cases with ⟨_, hnil⟩ | ⟨_, hrest⟩
      · cases hnil
      · rw [← hwf.tree.keyed _ _ hrest.get_head, hwf.tree.keyed _ _ hb]

section

variable (hwf : t.Wf) (hI : LoopExact passes t flags (id :: queue)) (hpath : t.Path id (b :: l))
include hwf hI hpath

/-- A block that passes is flagged and its children take its place. -/
lemma loopExact_pass (hpass : passes l.reverse b) :
    LoopExact passes t (fun j => if j = id then true else flags j)
      (queue ++ t.tree.childrenAt id) := by
  obtain ⟨hexact, hqueue⟩ := hI
  obtain ⟨b', l', hpath', hall'⟩ := hqueue id (by simp)
  obtain ⟨rfl, rfl⟩ := cons.inj (hpath'.unique hpath)
  have hall : AllPass passes (b' :: l') := ⟨hpass, hall'⟩
  have hb := hpath.get_head
  refine ⟨⟨?_, ?_⟩, ?_⟩
  · intro j hj
    by_cases hji : j = id
    · rw [hji]
      exact ⟨_, hpath, hall⟩
    · simp only [hji, if_false] at hj
      exact hexact.sound j hj
  · intro x m hx hm
    by_cases hxi : x = id
    · left
      simp [hxi]
    · rcases hexact.complete x m hx hm with hflag | ⟨c, hc, hcq⟩
      · left
        simp [hxi, hflag]
      · right
        rw [mem_cons] at hcq
        rcases hcq with hcid | hcq
        · have hcb : c = b' := by
            obtain ⟨j, hj⟩ := hx.get_of_mem hc
            have hkey := hwf.tree.keyed _ _ hj
            rw [← hkey, hcid, hb] at hj
            exact (some.inj hj).symm
          rcases path_through_child hwf hx hb (hcb ▸ hc) with h | ⟨d, hd, hdc⟩
          · exact absurd h hxi
          · exact ⟨d, hd, mem_append_right _ hdc⟩
        · exact ⟨c, hc, mem_append_left _ hcq⟩
  · intro q hq
    rw [mem_append] at hq
    rcases hq with hq | hq
    · exact hqueue q (mem_cons_of_mem _ hq)
    · obtain ⟨c, hc, hcid⟩ := ((childrenAt_listsChildren hwf hb).2 q).mp hq
      refine ⟨c, b' :: l', .step hc ?_ ?_, hall⟩
      · rw [hcid]
        exact hpath.ne_root hwf.tree
      · rw [hcid]
        exact hpath

/-- No branch through a block that fails can pass. -/
lemma loopExact_fail (hfail : ¬ passes l.reverse b) : LoopExact passes t flags queue := by
  obtain ⟨hexact, hqueue⟩ := hI
  refine ⟨⟨hexact.sound, ?_⟩, fun q hq => hqueue q (mem_cons_of_mem _ hq)⟩
  intro x m hx hm
  rcases hexact.complete x m hx hm with hflag | ⟨c, hc, hcq⟩
  · exact .inl hflag
  · rw [mem_cons] at hcq
    rcases hcq with hcid | hcq
    · exfalso
      obtain ⟨l1, l2, rfl⟩ := append_of_mem hc
      obtain ⟨j, hj⟩ := hx.of_append
      have hji : j = id := by
        rw [← hwf.tree.keyed _ _ hj.get_head, hcid]
      rw [hji] at hj
      obtain ⟨rfl, rfl⟩ := cons.inj (hj.unique hpath)
      exact hfail hm.of_append.1
    · exact .inr ⟨c, hc, hcq⟩

end

/-! ## One arrival -/

/-- The first block without a flag on a branch extends a passing branch. -/
lemma exists_passing_below_first_unflagged (hwf : t.Wf)
    (hsound : ∀ id, t.tree.flagAt id = true → t.Passing passes id)
    {p : List (ConsensusFullBlock K)} (hpath : t.Path id p.reverse) {x : ConsensusFullBlock K}
    (hfind : p.find? (fun b => !t.tree.flagAt b.getId) = some x) :
    ∃ l, t.Path x.getId (x :: l) ∧ AllPass passes l := by
  obtain ⟨⟨l, hl⟩, _, _, hparent⟩ := parent_of_first_unflagged hwf hpath hfind
  refine ⟨l, hl, allPass_of_parent hsound hl ?_⟩
  rcases hparent with hroot | ⟨_, _, hflag⟩
  · exact .inl hroot
  · exact .inr hflag

lemma path_suffix_of_mem_id (hwf : t.Wf) {x : BlockId K}
    (hx : t.Path x m) {c : ConsensusFullBlock K} (hc : c ∈ m) (hcid : c.getId = id) :
    ∃ l, t.Path id l ∧ l <:+ m := by
  obtain ⟨j, l, hj, hsuffix⟩ := hx.suffix_of_mem hc
  have hji : j = id := by
    rw [← hwf.tree.keyed _ _ hj.get_head, hcid]
  exact ⟨_, hji ▸ hj, hsuffix⟩

/-- Flags that are exact up to a block without a branch are exact. -/
lemma FlagsExactUpTo.of_no_path (h : FlagsExactUpTo passes t flags [id]) (hwf : t.Wf)
    (hno : ∀ l, ¬ t.Path id l) : FlagsExactUpTo passes t flags [] := by
  refine ⟨h.sound, ?_⟩
  intro x m hx hm
  rcases h.complete x m hx hm with hflag | ⟨c, hc, hcid⟩
  · exact .inl hflag
  · obtain ⟨l, hl, _⟩ := path_suffix_of_mem_id hwf hx hc (mem_singleton.mp hcid)
    exact absurd hl (hno l)

/-- If the flags are exact up to one block that is not flagged yet, updating
coherency for that block makes them exact. -/
lemma flagsExact_of_tryUpdateCoherency {policy : BlockPolicy K} {blockPolicy : K.BPT}
    (hpolicy : ∀ b ext stateRead,
      (policy.checkCoherency blockPolicy b ext t.root.info stateRead).1 = .ok () ↔ passes ext b)
    (hwf : t.Wf) {blockId : BlockId K} (hexact : FlagsExactUpTo passes t t.tree.flagAt [blockId])
    (hself : t.tree.flagAt blockId = true → FlagsExactUpTo passes t t.tree.flagAt [])
    (stateRead : K.ESRT) :
    ∃ retval t' stateRead',
      tryUpdateCoherency policy blockPolicy t stateRead blockId = .ok (retval, t', stateRead') ∧
      t'.Wf ∧ SameBlocks t t' ∧ FlagsExactUpTo passes t t'.tree.flagAt [] := by
  unfold tryUpdateCoherency
  by_cases hroot : blockId = t.root.info.blockId
  · have hno : ∀ l, ¬ t.Path blockId l := fun l hl => hl.ne_root hwf.tree hroot
    rw [getBlocksOnPathFromRoot, if_pos hroot]
    exact ⟨[], t, stateRead, rfl, hwf, SameBlocks.refl t, hexact.of_no_path hwf hno⟩
  cases hp : t.getBlocksOnPathFromRoot blockId with
  | none =>
    have hno : ∀ l, ¬ t.Path blockId l := by
      intro l hl
      rw [getBlocksOnPathFromRoot_of_path hwf.tree hl] at hp
      cases hp
    exact ⟨[], t, stateRead, rfl, hwf, SameBlocks.refl t, hexact.of_no_path hwf hno⟩
  | some p =>
    have hpath := (getBlocksOnPathFromRoot_eq_some_iff hwf.tree hroot).mp hp
    simp only
    cases hfind : p.find? fun b => !t.tree.flagAt b.getId with
    | none =>
      refine ⟨[], t, stateRead, rfl, hwf, SameBlocks.refl t, hself ?_⟩
      obtain ⟨b, l, hl, hb⟩ := hpath.exists_cons
      have hmem : b ∈ p := by
        rw [← mem_reverse, hl]
        exact mem_cons_self
      have hflag := find?_eq_none.mp hfind b hmem
      rw [hwf.tree.keyed _ _ hb] at hflag
      simpa using hflag
    | some x =>
      obtain ⟨l, hl, hall⟩ := exists_passing_below_first_unflagged hwf hexact.sound hpath hfind
      have hfuel : queueWeight t.tree [x.getId] ≤ t.tree.len := by
        exact card_descendants_le t.tree x.getId
      have hstart : LoopExact passes t t.tree.flagAt [x.getId] := by
        refine ⟨⟨hexact.sound, ?_⟩, by simpa using ⟨x, l, hl, hall⟩⟩
        intro y m hy hm
        rcases hexact.complete y m hy hm with hflag | ⟨c, hc, hcid⟩
        · exact .inl hflag
        · obtain ⟨l', hl', hsuffix⟩ :=
            path_suffix_of_mem_id hwf hy hc (mem_singleton.mp hcid)
          rw [← hpath.unique hl'] at hsuffix
          have hx : x ∈ p.reverse := mem_reverse.mpr (mem_of_find?_eq_some hfind)
          exact .inr ⟨x, hsuffix.subset hx, mem_singleton_self _⟩
      obtain ⟨retval, t', stateRead', hok, hwf', hsame, hI⟩ :=
        updateCoherencyLoop_rule policy blockPolicy t (LoopExact passes t)
          (fun flags id queue hI => by
            obtain ⟨b, l, hp, _⟩ := hI.2 id mem_cons_self
            exact ⟨b, l, hp⟩)
          (fun flags id queue b l sr hI hp hv =>
            loopExact_pass hwf hI hp ((hpolicy b l.reverse sr).mp hv))
          (fun flags id queue b l sr e hI hp hv => by
            refine loopExact_fail hwf hI hp fun hpass => ?_
            rw [(hpolicy b l.reverse sr).mpr hpass] at hv
            cases hv)
          stateRead [] hwf (SameBlocks.refl t) hstart hfuel
      exact ⟨retval, t', stateRead', hok, hwf', hsame, hI.1⟩

variable {t' : BlockTree K}

lemma Passing.congr (hroot : t'.root.info = t.root.info)
    (hblock : ∀ j, t'.tree.blockAt j = t.tree.blockAt j) :
    t'.Passing passes id ↔ t.Passing passes id := by
  have hfun : t'.tree.blockAt = t.tree.blockAt := funext hblock
  unfold Passing Path
  rw [hfun, hroot]

variable {block : ConsensusFullBlock K}

lemma flagsExact_of_add (hwf' : t'.Wf)
    (hexact : ∀ id, t.tree.flagAt id = true ↔ t.Passing passes id)
    (hinfo : t'.root.info = t.root.info)
    (hblock : ∀ j, t'.tree.blockAt j =
      if t.isValidToInsert block.header ∧ j = block.getId then some block
      else t.tree.blockAt j)
    (hflag : ∀ j, t'.tree.flagAt j = t.tree.flagAt j) :
    FlagsExactUpTo passes t' t'.tree.flagAt [block.getId] ∧
      (t'.tree.flagAt block.getId = true → FlagsExactUpTo passes t' t'.tree.flagAt []) := by
  by_cases hvalid : t.isValidToInsert block.header = true
  · have hfresh : t.tree.get block.getId = none := by
      simp only [isValidToInsert, Bool.and_eq_true, isNone_iff_eq_none] at hvalid
      exact hvalid.1
    have hnone : t.tree.blockAt block.getId = none := by
      rw [Tree.blockAt, hfresh, map_none]
    refine ⟨⟨?_, ?_⟩, ?_⟩
    · intro id hid
      rw [hflag] at hid
      obtain ⟨l, hl, hall⟩ := (hexact id).mp hid
      refine ⟨l, ?_, hall⟩
      unfold Path at hl ⊢
      rw [hinfo]
      apply hl.mono
      intro j b hj
      rw [hblock]
      split
      · next hnew =>
        rw [hnew.2, hnone] at hj
        cases hj
      · exact hj
    · intro id l hl hall
      by_cases hmem : ∃ c ∈ l, c.getId = block.getId
      · obtain ⟨c, hc, hcid⟩ := hmem
        exact .inr ⟨c, hc, mem_singleton.mpr hcid⟩
      · left
        rw [hflag, hexact]
        refine ⟨l, ?_, hall⟩
        unfold Path at hl ⊢
        rw [hinfo] at hl
        apply hl.congr_of_mem
        intro j b hj hb
        have hj' := hj
        rw [hblock] at hj'
        split at hj'
        · next hnew =>
          exact absurd ⟨b, hb, (hwf'.tree.keyed _ _ hj).trans hnew.2⟩ hmem
        · exact hj'
    · intro hid
      rw [hflag, Tree.flagAt, hfresh] at hid
      cases hid
  · -- the block is not added: nothing changes
    have hsame : ∀ j, t'.tree.blockAt j = t.tree.blockAt j := by
      intro j
      rw [hblock]
      simp [hvalid]
    have hexact' : ∀ id, t'.tree.flagAt id = true ↔ t'.Passing passes id := by
      intro id
      rw [hflag, hexact, Passing.congr hinfo hsame]
    exact ⟨⟨fun id => (hexact' id).mp, fun id l hl hall => .inl ((hexact' id).mpr ⟨l, hl, hall⟩)⟩,
      fun _ => ⟨fun id => (hexact' id).mp,
        fun id l hl hall => .inl ((hexact' id).mpr ⟨l, hl, hall⟩)⟩⟩

/-! ## Sequences of arrivals -/

variable (passes) in
/-- The tree that the arrived blocks determine: it holds those above the root, and
a block is coherent exactly when its branch passes. -/
structure Determined (root : RootInfo K) (arrived : List (ConsensusFullBlock K))
    (t : BlockTree K) : Prop where
  wf : t.Wf
  root_eq : t.root.info = root
  blocks : ∀ id b, t.tree.blockAt id = some b ↔
    b ∈ arrived ∧ root.round < b.getBlockRound ∧ b.getId = id
  flags : ∀ id, t.tree.flagAt id = true ↔ t.Passing passes id

lemma determined_new (root : RootInfo K) : Determined passes root [] (new root) := by
  have hempty : ∀ id, (new root).tree.blockAt id = none := by
    intro id
    simp [new, Tree.blockAt, Tree.get, Tree.empty]
  refine ⟨wf_new root, rfl, ?_, ?_⟩
  · intro id b
    simp [hempty]
  · intro id
    constructor
    · intro hflag
      simp [new, Tree.flagAt, Tree.get, Tree.empty] at hflag
    · intro hpass
      obtain ⟨l, hl, _⟩ := hpass
      obtain ⟨b, _, _, hb⟩ := hl.exists_cons
      cases hb

section

variable {policy : BlockPolicy K} {blockPolicy : K.BPT} {root : RootInfo K}
  (hbody : Function.Injective K.bodyGetId)
  (hpolicy : ∀ b ext stateRead,
    (policy.checkCoherency blockPolicy b ext root stateRead).1 = .ok () ↔ passes ext b)

include hbody in
lemma blockAt_of_add {arrived : List (ConsensusFullBlock K)}
    (ht : Determined passes root arrived t)
    (hblock : ∀ j, t'.tree.blockAt j =
      if t.isValidToInsert block.header ∧ j = block.getId then some block
      else t.tree.blockAt j) (id : BlockId K) (b : ConsensusFullBlock K) :
    t'.tree.blockAt id = some b ↔
      b ∈ arrived ++ [block] ∧ root.round < b.getBlockRound ∧ b.getId = id := by
  rw [hblock, mem_append, mem_singleton]
  have hvalid : t.isValidToInsert block.header = true ↔
      t.tree.blockAt block.getId = none ∧ root.round < block.getBlockRound := by
    rw [isValidToInsert, Bool.and_eq_true, isNone_iff_eq_none, decide_eq_true_eq, ht.root_eq,
      Tree.blockAt, map_eq_none_iff]
    rfl
  split
  · next hnew =>
    obtain ⟨hnone, hround⟩ := hvalid.mp hnew.1
    rw [hnew.2]
    constructor
    · intro h
      cases h
      exact ⟨.inr rfl, hround, rfl⟩
    · intro h
      rw [ConsensusFullBlock.getId_injective hbody h.2.2]
  · next hold =>
    rw [ht.blocks]
    constructor
    · intro h
      exact ⟨.inl h.1, h.2⟩
    · intro h
      refine ⟨?_, h.2⟩
      rcases h.1 with hmem | heq
      · exact hmem
      · -- a block above the root that is not added has arrived before
        subst heq
        have hsome : t.tree.blockAt b.getId ≠ none := by
          intro hnone
          exact hold ⟨hvalid.mpr ⟨hnone, h.2.1⟩, h.2.2.symm⟩
        obtain ⟨b', hb'⟩ := ne_none_iff_exists'.mp hsome
        have hb := (ht.blocks _ _).mp hb'
        rw [← ConsensusFullBlock.getId_injective hbody hb.2.2]
        exact hb.1

include hbody hpolicy in
lemma determined_step {arrived : List (ConsensusFullBlock K)}
    (ht : Determined passes root arrived t) (block : ConsensusFullBlock K) (stateRead : K.ESRT) :
    ∃ t₁ retval t' stateRead', t.add block = .ok t₁ ∧
      tryUpdateCoherency policy blockPolicy t₁ stateRead block.getId =
        .ok (retval, t', stateRead') ∧
      Determined passes root (arrived ++ [block]) t' := by
  obtain ⟨t₁, hadd, hwf1, hinfo, hblock, hflag⟩ := add_spec ht.wf block
  have hroot1 : t₁.root.info = root := hinfo.trans ht.root_eq
  obtain ⟨hexact, hself⟩ := flagsExact_of_add hwf1 ht.flags hinfo hblock hflag
  obtain ⟨retval, t', stateRead', hok, hwf', hsame, hdone⟩ :=
    flagsExact_of_tryUpdateCoherency (hroot1.symm ▸ hpolicy) hwf1 hexact hself stateRead
  have hroot' : t'.root.info = t₁.root.info := by rw [hsame.root]
  refine ⟨t₁, retval, t', stateRead', hadd, hok, hwf', hroot'.trans hroot1, ?_, ?_⟩
  · intro id b
    rw [hsame.blockAt]
    exact blockAt_of_add hbody ht hblock id b
  · intro id
    rw [hdone.flag_iff, Passing.congr hroot' hsame.blockAt]

include hbody hpolicy in
/-- Every sequence of arrivals succeeds and gives the determined tree. -/
theorem insertAll_spec (blocks arrived : List (ConsensusFullBlock K))
    (ht : Determined passes root arrived t) (stateRead : K.ESRT) :
    ∃ t' stateRead', insertAll policy blockPolicy blocks t stateRead = .ok (t', stateRead') ∧
      Determined passes root (arrived ++ blocks) t' := by
  induction blocks generalizing arrived t stateRead with
  | nil =>
    refine ⟨t, stateRead, rfl, ?_⟩
    rw [append_nil]
    exact ht
  | cons block blocks ih =>
    obtain ⟨t1, retval, t2, sr, hadd, hupdate, ht2⟩ :=
      determined_step hbody hpolicy ht block stateRead
    obtain ⟨t', stateRead', hok, ht'⟩ := ih _ ht2 sr
    refine ⟨t', stateRead', ?_, ?_⟩
    · simp only [insertAll, hadd]
      change (tryUpdateCoherency policy blockPolicy t1 stateRead block.getId >>= _) = _
      rw [hupdate]
      exact hok
    · rw [append_assoc] at ht'
      exact ht'

end

/-- Child lists of two trees with the same blocks have the same members. -/
lemma ListsChildren.perm {t t' : Tree K} {c c' : List (BlockId K)} (h : ListsChildren t id c)
    (h' : ListsChildren t' id c') (hblock : ∀ j, t.blockAt j = t'.blockAt j) : c.Perm c' := by
  rw [perm_ext_iff_of_nodup h.1 h'.1]
  intro j
  rw [h.2, h'.2, hblock]

variable {root : RootInfo K} {arrived arrived' : List (ConsensusFullBlock K)}
  (h : Determined passes root arrived t) (h' : Determined passes root arrived' t')
  (hmem : ∀ b, b ∈ arrived ↔ b ∈ arrived') (id : BlockId K)
include h h' hmem

lemma Determined.blockAt_eq : t.tree.blockAt id = t'.tree.blockAt id := by
  ext b
  rw [h.blocks, h'.blocks, hmem]

/-- Trees determined by the same blocks agree on every entry. -/
lemma Determined.childrenAt_perm : (t.tree.childrenAt id).Perm (t'.tree.childrenAt id) := by
  have hblock := h.blockAt_eq h' hmem
  cases hb : t.tree.blockAt id with
  | none =>
    have hb' := hb
    rw [hblock] at hb'
    rw [Tree.childrenAt_of_absent hb, Tree.childrenAt_of_absent hb']
  | some b =>
    have hb' := hb
    rw [hblock] at hb'
    exact (childrenAt_listsChildren h.wf hb).perm (childrenAt_listsChildren h'.wf hb') hblock

end

/-- The tree does not depend on the order in which the blocks arrive: for a policy
whose verdict is a function of the block and the blocks it extends, two sequences of
the same blocks give the same entries, flags and child sets, and a block ends
coherent exactly when its branch to the root is complete and passes. -/
theorem arrival_order_independent (hbody : Function.Injective K.bodyGetId)
    (policy : BlockPolicy K) (blockPolicy : K.BPT) (root : RootInfo K)
    (passes : List (ConsensusFullBlock K) → ConsensusFullBlock K → Prop)
    (hpolicy : ∀ b ext stateRead,
      (policy.checkCoherency blockPolicy b ext root stateRead).1 = .ok () ↔ passes ext b)
    (blocks blocks' : List (ConsensusFullBlock K)) (hsame : ∀ b, b ∈ blocks ↔ b ∈ blocks')
    (stateRead stateRead' : K.ESRT) :
    ∃ t sr t' sr', insertAll policy blockPolicy blocks (new root) stateRead = .ok (t, sr) ∧
      insertAll policy blockPolicy blocks' (new root) stateRead' = .ok (t', sr') ∧
      (∀ id, t.tree.blockAt id = t'.tree.blockAt id) ∧
      (∀ id, t.tree.flagAt id = t'.tree.flagAt id) ∧
      (∀ id, (t.tree.childrenAt id).Perm (t'.tree.childrenAt id)) ∧
      t.root.childrenBlocks.Perm t'.root.childrenBlocks ∧
      (∀ id b, t.tree.blockAt id = some b ↔
        b ∈ blocks ∧ root.round < b.getBlockRound ∧ b.getId = id) ∧
      ∀ id, t.tree.flagAt id = true ↔ ∃ l, t.Path id l ∧ AllPass passes l := by
  obtain ⟨t, sr, hok, ht⟩ :=
    insertAll_spec hbody hpolicy blocks [] (determined_new root) stateRead
  obtain ⟨t', sr', hok', ht'⟩ :=
    insertAll_spec hbody hpolicy blocks' [] (determined_new root) stateRead'
  have hblock := ht.blockAt_eq ht' hsame
  refine ⟨t, sr, t', sr', hok, hok', hblock, ?_, ht.childrenAt_perm ht' hsame, ?_, ht.blocks,
    ht.flags⟩
  · intro id
    rw [Bool.eq_iff_iff, ht.flags, ht'.flags,
      Passing.congr (ht.root_eq.trans ht'.root_eq.symm) hblock]
  · have hlist := ht.wf.rootChildren
    have hlist' := ht'.wf.rootChildren
    rw [ht.root_eq] at hlist
    rw [ht'.root_eq] at hlist'
    exact hlist.perm hlist' hblock

/-- The blocks of the two forks, in order and in reverse order. -/
theorem arrival_order_independent_forks : ∃ t sr t' sr',
      insertAll passthruBlockPolicy () [forkBlocks.1, forkBlocks.2.1, forkBlocks.2.2]
        (new mockRoot) () = .ok (t, sr) ∧
      insertAll passthruBlockPolicy () [forkBlocks.2.2, forkBlocks.2.1, forkBlocks.1]
        (new mockRoot) () = .ok (t', sr') ∧
      ∀ id, t.tree.flagAt id = t'.tree.flagAt id := by
  have hsame : ∀ b, b ∈ [forkBlocks.1, forkBlocks.2.1, forkBlocks.2.2] ↔
      b ∈ [forkBlocks.2.2, forkBlocks.2.1, forkBlocks.1] := by
    intro b
    simp only [mem_cons, not_mem_nil, or_false]
    tauto
  obtain ⟨t, sr, t', sr', hok, hok', _, hflag, _⟩ :=
    arrival_order_independent (K := mockTypes) Function.injective_id passthruBlockPolicy ()
      mockRoot (fun _ _ => True) (fun _ _ _ => by simp [passthruBlockPolicy]) _ _ hsame () ()
  exact ⟨t, sr, t', sr', hok, hok', hflag⟩

end BlockTree

end Kinet
