import Kinet.BlockTree.Prune

/-!
# Coherence

Every block marked coherent has a coherent path to the root.  Each operation keeps this so
as long as prunes are safe: no block outside the new root's subtree extends a known block
or the root with a certificate from the new root's round or later.
-/

namespace Kinet

open List BlockId

variable {K : TypeParams}

namespace BlockTree

def FlagsClosed (t : BlockTree K) (flags : BlockId K → Bool) : Prop :=
  ∀ id b, t.tree.blockAt id = some b → flags id = true → b.getParentId = t.root.info.blockId ∨
      ∃ pb, t.tree.blockAt b.getParentId = some pb ∧ flags b.getParentId = true

variable {id : BlockId K} {t : BlockTree K} {b : ConsensusFullBlock K}

/-- A block below the root or below a flagged block has a path to the root. -/
lemma exists_path_of_flagsClosed (hwf : t.Wf) {flags : BlockId K → Bool}
    (hclosed : t.FlagsClosed flags) (hb : t.tree.blockAt id = some b)
    (hparent : b.getParentId = t.root.info.blockId ∨
      ∃ pb, t.tree.blockAt b.getParentId = some pb ∧ flags b.getParentId = true) :
    ∃ l, t.Path id (b :: l) ∧ ∀ c ∈ l, flags c.getId = true := by
  by_cases hroot : b.getParentId = t.root.info.blockId
  · exact ⟨[], .last hb hroot, fun c hc => by cases hc⟩
  · obtain ⟨pb, hpb, hflag⟩ := hparent.resolve_left hroot
    have hkeyed := hwf.tree.keyed
    have hclosed' : ∀ j c, t.tree.blockAt j = some c → flags c.getId = true →
        c.getParentId = t.root.info.blockId ∨
          ∃ pc, t.tree.blockAt c.getParentId = some pc ∧ flags pc.getId = true := by
      intro j c hc hmark
      rw [hkeyed _ _ hc] at hmark
      rcases hclosed j c hc hmark with h | ⟨pc, hpc, hpflag⟩
      · exact .inl h
      · refine .inr ⟨pc, hpc, ?_⟩
        rw [hkeyed _ _ hpc]
        exact hpflag
    have hmark : flags pb.getId = true := by
      rw [hkeyed _ _ hpb]
      exact hflag
    obtain ⟨l, hpath, hall⟩ := Forest.exists_path_of_parent_closed
      (fun c : ConsensusFullBlock K => flags c.getId = true) (depth_lt_of_blockAt hwf.tree)
      hclosed' hpb hmark
    exact ⟨pb :: l, .step hb hroot hpath, hall⟩

lemma exists_coherentPath (hwf : t.Wf) (hclosed : t.FlagsClosed t.tree.flagAt)
    (hflag : t.tree.flagAt id = true) : ∃ l, t.CoherentPath id l := by
  obtain ⟨e, he, _⟩ := Tree.exists_get_of_flagAt hflag
  have hb := Tree.blockAt_of_get he
  obtain ⟨l, hpath, hall⟩ := exists_path_of_flagsClosed hwf hclosed hb (hclosed id _ hb hflag)
  refine ⟨_, hpath, ?_⟩
  intro c hc
  rw [mem_cons] at hc
  rcases hc with rfl | hc
  · rw [hwf.tree.keyed _ _ hb]
    exact hflag
  · exact hall c hc

/-! ## Updating coherency -/

/-- The first block without a flag on a path from the root hangs below the root or
below a flagged block. -/
lemma parent_of_first_unflagged (hwf : t.Wf) {p : List (ConsensusFullBlock K)}
    (hpath : t.Path id p.reverse) {x : ConsensusFullBlock K}
    (hfind : p.find? (fun b => !t.tree.flagAt b.getId) = some x) :
    (∃ l, t.Path x.getId (x :: l)) ∧ t.tree.blockAt x.getId = some x ∧
      t.tree.flagAt x.getId = false ∧
      (x.getParentId = t.root.info.blockId ∨
        ∃ pb, t.tree.blockAt x.getParentId = some pb ∧ t.tree.flagAt x.getParentId = true) := by
  rw [find?_eq_some_iff_append] at hfind
  obtain ⟨hx, as, bs, rfl, has⟩ := hfind
  rw [reverse_append, reverse_cons, append_assoc, singleton_append] at hpath
  obtain ⟨j, hj⟩ := hpath.of_append
  have hkey := hwf.tree.keyed _ _ hj.get_head
  refine ⟨⟨_, hkey ▸ hj⟩, hkey ▸ hj.get_head, by simpa using hx, ?_⟩
  rcases hj.tail_cases with ⟨hroot, _⟩ | ⟨_, hrest⟩
  · exact .inl hroot
  · obtain ⟨pb, l, hl, hpb⟩ := hrest.exists_cons
    have hmem : pb ∈ as := by
      rw [← mem_reverse, hl]
      simp
    have hflag := has pb hmem
    rw [hwf.tree.keyed _ _ hpb] at hflag
    exact .inr ⟨pb, hpb, by simpa using hflag⟩

/-- Every queued block hangs below the root or below a flagged block. -/
def QueueBelowFlags (t : BlockTree K) (flags : BlockId K → Bool) (queue : List (BlockId K)) :
    Prop :=
  ∀ q ∈ queue, ∃ b, t.tree.blockAt q = some b ∧ (b.getParentId = t.root.info.blockId ∨
    ∃ pb, t.tree.blockAt b.getParentId = some pb ∧ flags b.getParentId = true)

section

variable {flags : BlockId K → Bool} {queue : List (BlockId K)}

lemma paths_of_children (hwf : t.Wf) {l : List (ConsensusFullBlock K)}
    (hpath : t.Path id (b :: l)) (hqueue : ∀ q ∈ queue, ∃ c m, t.Path q (c :: m)) :
    ∀ q ∈ queue ++ t.tree.childrenAt id, ∃ c m, t.Path q (c :: m) := by
  intro q hq
  rw [mem_append] at hq
  rcases hq with hq | hq
  · exact hqueue q hq
  · obtain ⟨c, hc, hcid⟩ := ((childrenAt_listsChildren hwf hpath.get_head).2 q).mp hq
    refine ⟨c, b :: l, .step hc ?_ ?_⟩
    · rw [hcid]
      exact hpath.ne_root hwf.tree
    · rw [hcid]
      exact hpath

/-- Flagging the first queued block and queueing its children keeps the loop
invariant: the block's own flag is justified by its parent's. -/
lemma queueBelowFlags_pass (hwf : t.Wf)
    (hI : t.FlagsClosed flags ∧ t.QueueBelowFlags flags (id :: queue)) :
    t.FlagsClosed (fun j => if j = id then true else flags j) ∧
      t.QueueBelowFlags (fun j => if j = id then true else flags j)
        (queue ++ t.tree.childrenAt id) := by
  obtain ⟨b, hb, hparent⟩ := hI.2 id (by simp)
  have hmono : ∀ c : ConsensusFullBlock K, (c.getParentId = t.root.info.blockId ∨
        ∃ pb, t.tree.blockAt c.getParentId = some pb ∧ flags c.getParentId = true) →
      c.getParentId = t.root.info.blockId ∨ ∃ pb, t.tree.blockAt c.getParentId = some pb ∧
        (if c.getParentId = id then true else flags c.getParentId) = true := by
    intro c h
    rcases h with h | ⟨pb, hpb, hflag⟩
    · exact .inl h
    · refine .inr ⟨pb, hpb, ?_⟩
      split
      · rfl
      · exact hflag
  refine ⟨?_, ?_⟩
  · intro j c hc hflag
    by_cases hj : j = id
    · rw [hj, hb] at hc
      cases hc
      exact hmono _ hparent
    · simp only [hj, if_false] at hflag
      exact hmono _ (hI.1 j c hc hflag)
  · intro q hq
    rw [mem_append] at hq
    rcases hq with hq | hq
    · obtain ⟨c, hc, hcparent⟩ := hI.2 q (mem_cons_of_mem _ hq)
      exact ⟨c, hc, hmono _ hcparent⟩
    · obtain ⟨c, hc, hcid⟩ := ((childrenAt_listsChildren hwf hb).2 q).mp hq
      refine ⟨c, hc, .inr ⟨b, ?_, ?_⟩⟩
      · rw [hcid]
        exact hb
      · simp [hcid]

end

/-- Updating coherency never fails and changes only flags; if every marked block
hangs below the root or below a marked block, this remains so. -/
theorem tryUpdateCoherency_spec (policy : BlockPolicy K) (blockPolicy : K.BPT) (hwf : t.Wf)
    (stateRead : K.ESRT) (blockId : BlockId K) :
    ∃ retval t' stateRead',
      tryUpdateCoherency policy blockPolicy t stateRead blockId = .ok (retval, t', stateRead') ∧
      t'.Wf ∧ SameBlocks t t' ∧
      (t.FlagsClosed t.tree.flagAt → t'.FlagsClosed t'.tree.flagAt) := by
  unfold tryUpdateCoherency
  cases hp : t.getBlocksOnPathFromRoot blockId with
  | none => exact ⟨[], t, stateRead, rfl, hwf, SameBlocks.refl t, fun h => h⟩
  | some p =>
    simp only
    cases hfind : p.find? fun b => !t.tree.flagAt b.getId with
    | none => exact ⟨[], t, stateRead, rfl, hwf, SameBlocks.refl t, fun h => h⟩
    | some x =>
      have hne : blockId ≠ t.root.info.blockId := by
        intro heq
        rw [getBlocksOnPathFromRoot, if_pos heq] at hp
        cases hp
        cases hfind
      have hpath := (getBlocksOnPathFromRoot_eq_some_iff hwf.tree hne).mp hp
      obtain ⟨⟨l, hl⟩, hxb, _, hxparent⟩ := parent_of_first_unflagged hwf hpath hfind
      have hfuel : queueWeight t.tree [x.getId] ≤ t.tree.len := by
        exact card_descendants_le t.tree x.getId
      have hbelow : t.QueueBelowFlags t.tree.flagAt [x.getId] := by
        intro q hq
        rw [mem_singleton] at hq
        exact ⟨x, hq ▸ hxb, hxparent⟩
      obtain ⟨retval, t', stateRead', hok, hwf', hsame, hI⟩ :=
        updateCoherencyLoop_rule policy blockPolicy t
          (fun flags queue => (∀ q ∈ queue, ∃ b l, t.Path q (b :: l)) ∧
            (t.FlagsClosed t.tree.flagAt → t.FlagsClosed flags ∧ t.QueueBelowFlags flags queue))
          (fun flags id queue hI => hI.1 id (by simp))
          (fun flags id queue b l sr hI hp _ =>
            ⟨paths_of_children hwf hp fun q hq => hI.1 q (mem_cons_of_mem _ hq),
              fun h => queueBelowFlags_pass hwf (hI.2 h)⟩)
          (fun flags id queue b l sr e hI _ _ =>
            ⟨fun q hq => hI.1 q (mem_cons_of_mem _ hq), fun h =>
              ⟨(hI.2 h).1, fun q hq => (hI.2 h).2 q (mem_cons_of_mem _ hq)⟩⟩)
          stateRead [] hwf (SameBlocks.refl t)
          ⟨by simpa using ⟨x, l, hl⟩, fun h => ⟨h, hbelow⟩⟩ hfuel
      refine ⟨retval, t', stateRead', hok, hwf', hsame, ?_⟩
      intro hclosed id b hb hflag
      rw [hsame.blockAt] at hb
      rcases (hI.2 hclosed).1 id b hb hflag with h | ⟨pb, hpb, hpflag⟩
      · rw [hsame.root]
        exact .inl h
      · rw [hsame.blockAt]
        exact .inr ⟨pb, hpb, hpflag⟩

/-! ## Safe prunes -/

/-- No block outside the subtree of `newRoot` extends a stored block or the root
with a certificate from the new root's round or later. -/
def BftSafe (t : BlockTree K) (newRoot : BlockId K) : Prop :=
  ∀ e ∈ t.tree.tree.pairs, ¬ e.1.Extends newRoot →
    (e.2.validatedBlock.getParentId = t.root.info.blockId ∨
      e.2.validatedBlock.getParentId ∈ t.tree.tree) →
    e.2.validatedBlock.getParentRound < newRoot.blockRound

instance (t : BlockTree K) (newRoot : BlockId K) : Decidable (t.BftSafe newRoot) :=
  inferInstanceAs (Decidable (∀ e ∈ t.tree.tree.pairs, _ → _ → _))

variable {newRoot : BlockId K}

lemma BftSafe.parentRound_lt (h : t.BftSafe newRoot)
    (hb : t.tree.blockAt id = some b) (hnot : ¬ id.Extends newRoot)
    (hparent : b.getParentId = t.root.info.blockId ∨
      ∃ pb, t.tree.blockAt b.getParentId = some pb) : b.getParentRound < newRoot.blockRound := by
  obtain ⟨e, he, rfl⟩ := Tree.blockAt_eq_some.mp hb
  refine h (id, e) (FiniteMap.mem_pairs.mpr he) hnot ?_
  rcases hparent with hroot | ⟨pb, hpb⟩
  · exact .inl hroot
  · obtain ⟨pe, hpe, _⟩ := Tree.blockAt_eq_some.mp hpb
    exact .inr (FiniteMap.mem_iff_lookup.mpr ⟨pe, hpe⟩)

lemma blockRound_le_of_extends (hwf : t.Wf) (hrounds : t.RoundsOk)
    (hclosed : t.FlagsClosed t.tree.flagAt)
    (hroot : ¬ t.root.info.blockId.Extends newRoot) (hflag : t.tree.flagAt id = true)
    (hext : id.Extends newRoot) : newRoot.blockRound ≤ id.blockRound := by
  induction hn : depth id using Nat.strong_induction_on generalizing id with
  | _ n ih =>
    obtain ⟨e, he, _⟩ := Tree.exists_get_of_flagAt hflag
    have hb := Tree.blockAt_of_get he
    have hkey := hwf.tree.keyed _ _ hb
    have hidRound : id.blockRound = e.validatedBlock.getBlockRound := by
      rw [← hkey]
      rfl
    rw [← hkey] at hext
    rcases (extends_getId_iff _ _).mp hext with heq | hparentExt
    · rw [heq]
      exact le_of_eq (congrArg _ hkey)
    · rcases hclosed id _ hb hflag with hr | ⟨pb, hpb, hpflag⟩
      · exact absurd (hr ▸ hparentExt) hroot
      · have hlt : depth e.validatedBlock.getParentId < n := by
          rw [← hn]
          exact depth_lt_of_blockAt hwf.tree _ _ hb
        have hle := ih _ hlt hpflag hparentExt rfl
        have hr := hrounds _ _ hb
        unfold ConsensusFullBlock.RoundsOk at hr
        omega

section

variable {t' : BlockTree K} {newRoot : BlockId K} {rest : List (ConsensusFullBlock K)}

lemma Pruned.flagAt (h : Pruned t newRoot b rest t') {j : BlockId K}
    {c : ConsensusFullBlock K} (hc : t'.tree.blockAt j = some c) :
    t'.tree.flagAt j = t.tree.flagAt j := by
  obtain ⟨e, he, _⟩ := Tree.blockAt_eq_some.mp hc
  have hnot := (h.blockAt_eq_some.mp hc).2.1
  rw [Tree.flagAt_of_get he]
  rw [h.get, if_neg hnot] at he
  rw [Tree.flagAt_of_get (Option.filter_eq_some_iff.mp he).1]

/-- After a safe prune every coherent block still hangs below the root or below a
coherent block. -/
theorem flagsClosed_of_pruned (h : Pruned t newRoot b rest t') (hwf : t.Wf)
    (hrounds : t.RoundsOk) (hclosed : t.FlagsClosed t.tree.flagAt) (hsafe : t.BftSafe newRoot) :
    t'.FlagsClosed t'.tree.flagAt := by
  have hbid := h.newRoot_eq hwf.tree
  have hbRound : newRoot.blockRound = b.getBlockRound := by
    rw [← hbid]
    rfl
  have hrootNot : ¬ t.root.info.blockId.Extends newRoot := by
    intro hext
    have hle : depth newRoot ≤ depth t.root.info.blockId :=
      (ancestors_suffix hext).length_le
    have hlt := h.path.depth_root_lt hwf.tree
    omega
  intro id c hc hflag
  rw [h.flagAt hc] at hflag
  obtain ⟨hc0, hnot, hle⟩ := h.blockAt_eq_some.mp hc
  have hkey := hwf.tree.keyed _ _ hc0
  rw [h.rootId hwf.tree]
  have hcparent := hclosed id c hc0 hflag
  -- a fork outside the new root's subtree does not survive
  have hext : id.Extends newRoot := by
    by_contra hnotExt
    have hlt := hsafe.parentRound_lt hc0 hnotExt
      (hcparent.imp_right fun hp => ⟨hp.choose, hp.choose_spec.1⟩)
    omega
  rw [← hkey] at hext
  rcases (extends_getId_iff _ _).mp hext with heq | hparentExt
  · exfalso
    apply hnot
    rw [map_cons, hbid, heq]
    change id ∈ c.getId :: _
    rw [hkey]
    exact mem_cons_self
  · by_cases hpr : c.getParentId = newRoot
    · exact .inl hpr
    · right
      rcases hcparent with hr | ⟨pb, hpb, hpflag⟩
      · exact absurd (hr ▸ hparentExt) hrootNot
      · refine ⟨pb, ?_⟩
        have hpkey := hwf.tree.keyed _ _ hpb
        have hparentExt' : pb.getId.Extends newRoot := by
          rw [hpkey]
          exact hparentExt
        have hgrand : pb.getParentId.Extends newRoot := by
          rcases (extends_getId_iff _ _).mp hparentExt' with heq | hg
          · exact absurd (hpkey.symm.trans heq.symm) hpr
          · exact hg
        have hpRounds := hrounds _ _ hpb
        unfold ConsensusFullBlock.RoundsOk at hpRounds
        have hsurvives : t'.tree.blockAt c.getParentId = some pb := by
          refine h.blockAt_eq_some.mpr ⟨hpb, ?_, ?_⟩
          · intro hmem
            obtain ⟨d, hd, hdid⟩ := mem_map.mp hmem
            have hdle := pathTo_depth_le hwf.tree h.path hd
            have hplt := depth_lt_of_blockAt hwf.tree _ _ hpb
            have hgle : depth newRoot ≤ depth pb.getParentId :=
              (ancestors_suffix hgrand).length_le
            rw [hdid] at hdle
            omega
          · rcases hclosed _ pb hpb hpflag with hr | ⟨gb, _, hgflag⟩
            · exact absurd (hr ▸ hgrand) hrootNot
            · have hgle := blockRound_le_of_extends hwf hrounds hclosed hrootNot hgflag hgrand
              omega
        refine ⟨hsurvives, ?_⟩
        rw [h.flagAt hsurvives]
        exact hpflag

end

end BlockTree

end Kinet
