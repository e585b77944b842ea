import Kinet.BlockTree.Coherence
import Kinet.ConsensusTypes.Mock

/-!
# Runs of the block tree

Sequences of `add`, `try_update_coherency` and `prune` calls from a tree that holds
only its root.  The structural invariant needs consistent rounds only.  The branch that
`prune` commits is guaranteed for safe runs: without the safety condition a coherent block
can lose its path to the root, and committing it stops at an assertion.

Main results:

- `BlockTree.run_structure`: the structural invariant, and which
  assertions can fail.
- `BlockTree.run_coherence`: coherent blocks are connected, and the
  committed blocks form one chain.
- `BlockTree.prune_stops_on_stale_fork` and
  `BlockTree.stale_fork_of_root_certificate`: runs in which a coherent block is
  cut off.
-/

namespace Kinet

open List

variable {K : TypeParams}

namespace BlockTree

/-! ## Searching for a committable certificate -/

variable {t : BlockTree K} {l : List (ConsensusFullBlock K)}

/-- The search visits stored blocks only and has enough fuel. -/
lemma highCommittableQcLoop_spec (hwf : t.Wf) {fuel : Nat} {queue : List (BlockId K)}
    (high : Option (QuorumCertificate K)) (hqueue : ∀ q ∈ queue, ∃ b, t.tree.blockAt q = some b)
    (hfuel : queueWeight t.tree queue ≤ fuel) :
    ∃ qc, highCommittableQcLoop t fuel queue high = .ok qc := by
  induction fuel generalizing queue high with
  | zero =>
    cases queue with
    | nil => exact ⟨high, rfl⟩
    | cons q queue =>
      obtain ⟨b, hb⟩ := hqueue q (by simp)
      have hlt := queueWeight_children_lt hwf.tree hb (childrenAt_listsChildren hwf hb)
      simp only [queueWeight, map_cons, sum_cons] at hfuel
      omega
  | succ fuel ih =>
    cases queue with
    | nil => exact ⟨high, rfl⟩
    | cons q queue =>
      obtain ⟨b, hb⟩ := hqueue q (by simp)
      obtain ⟨e, he, rfl⟩ := Tree.blockAt_eq_some.mp hb
      have hlist := hwf.children q e he
      have hlt := queueWeight_children_lt hwf.tree hb hlist
      have hnext : ∀ high', ∃ qc,
          highCommittableQcLoop t fuel (queue ++ e.childrenBlocks) high' = .ok qc := by
        intro high'
        apply ih
        · intro q' hq'
          rw [mem_append] at hq'
          rcases hq' with hq' | hq'
          · exact hqueue q' (mem_cons_of_mem _ hq')
          · obtain ⟨c, hc, _⟩ := (hlist.2 q').mp hq'
            exact ⟨c, hc⟩
        · rw [queueWeight_append]
          simp only [queueWeight, map_cons, sum_cons] at hfuel hlt ⊢
          omega
      simp only [highCommittableQcLoop, he]
      split
      · exact hnext high
      · split
        · exact hnext high
        · next pe hpe =>
          have hkey := hwf.tree.keyed _ _ (Tree.blockAt_of_get hpe)
          have hid : e.validatedBlock.getQc.info.id = pe.validatedBlock.header.getId :=
            hkey.symm
          simp only [QuorumCertificate.getCommittableId, ne_eq, hid, not_true_eq_false, if_false]
          split <;> simp only [bind, Except.bind]
          · split
            · exact hnext high
            · split
              · exact hnext high
              · exact hnext _
          · exact hnext high

lemma getHighCommittableQc_ok (hwf : t.Wf) : ∃ qc, t.getHighCommittableQc = .ok qc := by
  refine highCommittableQcLoop_spec hwf none ?_ (queueWeight_rootChildren_le hwf)
  intro q hq
  obtain ⟨b, hb, _⟩ := (hwf.rootChildren.2 q).mp hq
  exact ⟨b, hb⟩

/-! ## Committed chains -/

/-- The blocks `l` lead from `start` to `stop`, each the child of the one before. -/
def Linked : BlockId K → List (ConsensusFullBlock K) → BlockId K → Prop
  | start, [], stop => start = stop
  | start, b :: l, stop => b.getParentId = start ∧ Linked b.getId l stop

variable {start stop : BlockId K}

lemma Linked.append {mid : BlockId K} {l' : List (ConsensusFullBlock K)}
    (h : Linked start l mid) (h' : Linked mid l' stop) : Linked start (l ++ l') stop := by
  induction l generalizing start with
  | nil =>
    rw [h]
    exact h'
  | cons b l ih => exact ⟨h.1, ih h.2⟩

lemma linked_of_path (hwf : t.tree.Wf) {id : BlockId K} (h : t.Path id l) :
    Linked t.root.info.blockId l.reverse id := by
  induction h with
  | last hget hroot => exact ⟨hroot, hwf.keyed _ _ hget⟩
  | step hget _ _ ih =>
    rw [reverse_cons]
    exact ih.append ⟨rfl, hwf.keyed _ _ hget⟩

lemma Linked.depth_lt (h : Linked start l stop)
    {b : ConsensusFullBlock K} (hb : b ∈ l) : depth start < depth b.getId := by
  induction l generalizing start with
  | nil => cases hb
  | cons c l ih =>
    have hlt := depth_parent_lt c
    rw [h.1] at hlt
    rw [mem_cons] at hb
    rcases hb with rfl | hb
    · exact hlt
    · exact lt_trans hlt (ih h.2 hb)

/-- A linked chain repeats no block. -/
lemma Linked.nodup (h : Linked start l stop) :
    (l.map ConsensusFullBlock.getId).Nodup := by
  induction l generalizing start with
  | nil => exact nodup_nil
  | cons b l ih =>
    rw [map_cons, nodup_cons]
    refine ⟨?_, ih h.2⟩
    intro hmem
    obtain ⟨c, hc, heq⟩ := mem_map.mp hmem
    have hlt := h.2.depth_lt hc
    rw [heq] at hlt
    exact lt_irrefl _ hlt

end BlockTree

/-! ## Runs -/

/-- A call of the block tree. -/
inductive TreeOp (K : TypeParams) where
  | add (block : ConsensusFullBlock K)
  | tryUpdateCoherency (blockPolicy : K.BPT) (stateRead : K.ESRT) (blockId : BlockId K)
  | prune (newRoot : BlockId K)

variable {op : TreeOp K}

namespace TreeOp

def run (policy : BlockPolicy K) (t : BlockTree K) :
    TreeOp K → Except TreePanic (List (ConsensusFullBlock K) × BlockTree K)
  | .add block => (t.add block).map fun t' => ([], t')
  | .tryUpdateCoherency blockPolicy stateRead blockId =>
    (BlockTree.tryUpdateCoherency policy blockPolicy t stateRead blockId).map fun r =>
      ([], r.2.1)
  | .prune newRoot => t.prune newRoot

def RoundsOk : TreeOp K → Prop
  | .add block => block.RoundsOk
  | .tryUpdateCoherency .. => True
  | .prune _ => True

/-- In addition, only coherent blocks are committed, and each prune is safe. -/
def Safe (t : BlockTree K) : TreeOp K → Prop
  | .add block => block.RoundsOk
  | .tryUpdateCoherency .. => True
  | .prune newRoot => t.isCoherent newRoot = true ∧ t.BftSafe newRoot

lemma Safe.roundsOk {t : BlockTree K} (h : op.Safe t) : op.RoundsOk := by
  cases op with
  | add block => exact h
  | tryUpdateCoherency | prune => trivial

end TreeOp

namespace BlockTree

/-- `t` is reached from a tree with only `root` by calls that satisfy `ok`, and
`committed` lists the blocks that the prunes returned. -/
inductive Run (policy : BlockPolicy K) (ok : BlockTree K → TreeOp K → Prop)
    (root : RootInfo K) : BlockTree K → List (ConsensusFullBlock K) → Prop
  | new : Run policy ok root (new root) []
  | step {t t' : BlockTree K} {committed commit : List (ConsensusFullBlock K)} {op : TreeOp K}
      (hrun : Run policy ok root t committed) (hop : ok t op)
      (hstep : op.run policy t = .ok (commit, t')) :
      Run policy ok root t' (committed ++ commit)

/-- The root's own assertions: the new root's branch is missing or incoherent. -/
def IsBranchPanic (p : TreePanic) : Prop :=
  p = .newRootIncoherent ∨ p = .entryIncoherent ∨ p = .pathToRootMissing

lemma prune_root (t : BlockTree K) : t.prune t.root.info.blockId = .ok ([], t) := by
  simp [prune, isCoherent]

variable {t : BlockTree K} {committed : List (ConsensusFullBlock K)}

/-- One call with consistent rounds keeps the structure and commits a chain from the old root
to the new one; only `prune` can fail, and only for want of a coherent branch. -/
lemma run_op_structure (policy : BlockPolicy K) (hwf : t.Wf) (hrounds : t.RoundsOk)
    (hop : op.RoundsOk) :
    (∃ commit t', op.run policy t = .ok (commit, t') ∧ t'.Wf ∧ t'.RoundsOk ∧
      Linked t.root.info.blockId commit t'.root.info.blockId ∧
      (op.Safe t → t.FlagsClosed t.tree.flagAt → t'.FlagsClosed t'.tree.flagAt)) ∨
      (∃ newRoot p, op = .prune newRoot ∧ op.run policy t = .error p ∧ IsBranchPanic p ∧
        newRoot ≠ t.root.info.blockId ∧ ∀ l, ¬ t.CoherentPath newRoot l) := by
  cases op with
  | add block =>
    obtain ⟨t', hok, hwf', hinfo, hblock, hflag⟩ := add_spec hwf block
    refine .inl ⟨[], t', ?_, hwf', ?_, ?_, fun _ hclosed id b hb hf => ?_⟩
    · simp only [TreeOp.run, hok, Except.map]
    · intro id b hb
      rw [hblock] at hb
      split at hb
      · cases hb
        exact hop
      · exact hrounds id b hb
    · rw [hinfo]
      rfl
    · rw [hflag] at hf
      obtain ⟨e, he, _⟩ := Tree.exists_get_of_flagAt hf
      -- a flagged block was stored before
      have hold : t.tree.blockAt id = some b := by
        rw [hblock] at hb
        split at hb
        · next hnew =>
          have hnone := hnew.1
          simp only [isValidToInsert, Bool.and_eq_true, Option.isNone_iff_eq_none] at hnone
          have hid : t.tree.get block.getId = none := hnone.1
          rw [← hnew.2, he] at hid
          cases hid
        · exact hb
      rw [hinfo]
      rcases hclosed id b hold hf with hr | ⟨pb, hpb, hpf⟩
      · exact .inl hr
      · refine .inr ?_
        rw [hblock, hflag]
        split
        · exact ⟨_, rfl, hpf⟩
        · exact ⟨pb, hpb, hpf⟩
  | tryUpdateCoherency blockPolicy stateRead blockId =>
    obtain ⟨retval, t', sr, hok, hwf', hsame, hclosed⟩ :=
      tryUpdateCoherency_spec policy blockPolicy hwf stateRead blockId
    refine .inl ⟨[], t', ?_, hwf', ?_, ?_, fun _ => hclosed⟩
    · simp only [TreeOp.run, hok, Except.map]
    · intro id b hb
      rw [hsame.blockAt] at hb
      exact hrounds id b hb
    · rw [hsame.root]
      rfl
  | prune newRoot =>
    by_cases hroot : newRoot = t.root.info.blockId
    · refine .inl ⟨[], t, ?_, hwf, hrounds, rfl, fun _ hclosed => hclosed⟩
      rw [TreeOp.run, hroot, prune_root]
    · rcases prune_cases hwf hroot with ⟨b, rest, t', hok, hpruned⟩ | ⟨p, herr, hp, hnone⟩
      · refine .inl ⟨_, t', hok, wf_of_pruned hpruned hwf hrounds, hpruned.roundsOk hrounds, ?_,
          fun hsafe hclosed => flagsClosed_of_pruned hpruned hwf hrounds hclosed hsafe.2⟩
        rw [hpruned.rootId hwf.tree]
        exact linked_of_path hwf.tree hpruned.path
      · exact .inr ⟨newRoot, p, rfl, herr, hp, hroot, hnone⟩

variable {root : RootInfo K} {policy : BlockPolicy K}

lemma wf_of_run
    (h : Run policy (fun _ op => op.RoundsOk) root t committed) : t.Wf ∧ t.RoundsOk := by
  induction h with
  | new =>
    refine ⟨wf_new root, ?_⟩
    intro id b hb
    simp [new, Tree.blockAt, Tree.get, Tree.empty] at hb
  | step _ hop hstep ih =>
    rcases run_op_structure policy ih.1 ih.2 hop with ⟨c, t1, hok, hwf, hr, -⟩ | ⟨_, p, _, herr, _⟩
    · rw [hok] at hstep
      cases hstep
      exact ⟨hwf, hr⟩
    · rw [herr] at hstep
      cases hstep

/-- The invariant of safe runs. -/
structure SafeInv (root : RootInfo K) (t : BlockTree K)
    (committed : List (ConsensusFullBlock K)) : Prop where
  wf : t.Wf
  rounds : t.RoundsOk
  closed : t.FlagsClosed t.tree.flagAt
  linked : Linked root.blockId committed t.root.info.blockId

lemma prune_of_safe (hwf : t.Wf) (hclosed : t.FlagsClosed t.tree.flagAt) {newRoot : BlockId K}
    (hcoh : t.isCoherent newRoot = true) (hne : newRoot ≠ t.root.info.blockId) :
    ∃ b rest t', t.prune newRoot = .ok ((b :: rest).reverse, t') ∧ Pruned t newRoot b rest t' := by
  rw [isCoherent_of_ne_root hne] at hcoh
  obtain ⟨l, hl⟩ := exists_coherentPath hwf hclosed hcoh
  rcases prune_cases hwf hne with h | ⟨p, _, _, hnone⟩
  · exact h
  · exact absurd hl (hnone l)

/-- A safe call never fails and keeps the invariant of safe runs. -/
lemma safeInv_step (policy : BlockPolicy K) (h : SafeInv root t committed) (hop : op.Safe t) :
    ∃ commit t', op.run policy t = .ok (commit, t') ∧ SafeInv root t' (committed ++ commit) := by
  rcases run_op_structure policy h.wf h.rounds hop.roundsOk with
    ⟨commit, t', hok, hwf, hrounds, hlinked, hclosed⟩ | ⟨newRoot, _, rfl, _, _, hne, hnone⟩
  · exact ⟨commit, t', hok, hwf, hrounds, hclosed hop h.closed, h.linked.append hlinked⟩
  · obtain ⟨b, rest, _, _, hpruned⟩ := prune_of_safe h.wf h.closed hop.1 hne
    exact absurd ⟨hpruned.path, hpruned.coherent⟩ (hnone _)

lemma safeInv_of_run
    (h : Run policy (fun t op => op.Safe t) root t committed) : SafeInv root t committed := by
  induction h with
  | new =>
    refine ⟨wf_new root, ?_, ?_, rfl⟩
    · intro id b hb
      simp [new, Tree.blockAt, Tree.get, Tree.empty] at hb
    · intro id b hb
      simp [new, Tree.blockAt, Tree.get, Tree.empty] at hb
  | step _ hop hstep ih =>
    obtain ⟨c, t1, hok, hinv⟩ := safeInv_step policy ih hop
    rw [hok] at hstep
    cases hstep
    exact hinv

/-! ## Structure and coherence of every run -/

/-- After every run whose blocks have consistent rounds, child lists and payload
index are exact, the search for a committable certificate succeeds, and a further
call fails only if it prunes to a block without a coherent branch to the root.
In a safe run no call fails. -/
theorem run_structure (policy : BlockPolicy K) (root : RootInfo K) :
    (∀ t committed, Run policy (fun _ op => op.RoundsOk) root t committed →
      t.Wf ∧ (∃ qc, t.getHighCommittableQc = .ok qc) ∧
        ∀ (op : TreeOp K) (p : TreePanic), op.RoundsOk → op.run policy t = .error p →
          ∃ newRoot, op = .prune newRoot ∧ IsBranchPanic p ∧ ∀ l, ¬ t.CoherentPath newRoot l) ∧
    (∀ t committed, Run policy (fun t op => op.Safe t) root t committed →
      ∀ op : TreeOp K, op.Safe t → ∃ r, op.run policy t = .ok r) := by
  refine ⟨?_, ?_⟩
  · intro t committed hrun
    obtain ⟨hwf, hrounds⟩ := wf_of_run hrun
    refine ⟨hwf, getHighCommittableQc_ok hwf, ?_⟩
    intro op p hop herr
    rcases run_op_structure policy hwf hrounds hop with
      ⟨c, t', hok, _⟩ | ⟨newRoot, p', hop', herr', hp', _, hnone⟩
    · rw [herr] at hok
      cases hok
    · rw [herr] at herr'
      cases herr'
      exact ⟨newRoot, hop', hp', hnone⟩
  · intro t committed hrun op hop
    obtain ⟨c, t', hok, _⟩ := safeInv_step policy (safeInv_of_run hrun) hop
    exact ⟨(c, t'), hok⟩

/-- In a safe run every coherent block has a coherent path to the root, a safe
prune returns the path from the old root to the new one, and the blocks returned
by all prunes form one chain without gaps or repetitions. -/
theorem run_coherence {policy : BlockPolicy K} {root : RootInfo K} {t : BlockTree K}
    {committed : List (ConsensusFullBlock K)}
    (hrun : Run policy (fun t op => op.Safe t) root t committed) :
    (∀ id, t.tree.flagAt id = true → ∃ l, t.CoherentPath id l) ∧
    (∀ newRoot, t.isCoherent newRoot = true → t.BftSafe newRoot →
      ∃ p t', t.prune newRoot = .ok (p, t') ∧ t.getBlocksOnPathFromRoot newRoot = some p ∧
        Linked t.root.info.blockId p newRoot) ∧
    Linked root.blockId committed t.root.info.blockId ∧
    (committed.map ConsensusFullBlock.getId).Nodup := by
  have hinv := safeInv_of_run hrun
  refine ⟨fun id hflag => exists_coherentPath hinv.wf hinv.closed hflag, ?_, hinv.linked,
    hinv.linked.nodup⟩
  intro newRoot hcoh _
  by_cases hroot : newRoot = t.root.info.blockId
  · refine ⟨[], t, by rw [hroot, prune_root], ?_, hroot.symm⟩
    rw [getBlocksOnPathFromRoot, if_pos hroot]
  · obtain ⟨b, rest, t', hok, hpruned⟩ := prune_of_safe hinv.wf hinv.closed hcoh hroot
    exact ⟨_, t', hok, getBlocksOnPathFromRoot_of_path hinv.wf.tree hpruned.path,
      linked_of_path hinv.wf.tree hpruned.path⟩

/-! ## Runs on mock blocks -/

section

variable (policy : BlockPolicy K) (ok : BlockTree K → TreeOp K → Prop) [∀ t op, Decidable (ok t op)]

/-- Execute a sequence of calls, checking each one. -/
def replay : List (TreeOp K) → BlockTree K → List (ConsensusFullBlock K) →
    Option (BlockTree K × List (ConsensusFullBlock K))
  | [], t, committed => some (t, committed)
  | op :: ops, t, committed =>
    if ok t op then
      match op.run policy t with
      | .ok (commit, t') => replay ops t' (committed ++ commit)
      | .error _ => none
    else none

variable {ops : List (TreeOp K)}

lemma run_of_replay {t' : BlockTree K} {committed' : List (ConsensusFullBlock K)}
    (hrun : Run policy ok root t committed)
    (h : replay policy ok ops t committed = some (t', committed')) :
    Run policy ok root t' committed' := by
  induction ops generalizing t committed with
  | nil =>
    cases h
    exact hrun
  | cons op ops ih =>
    unfold replay at h
    split at h
    · next hop =>
      split at h
      · next commit t1 hstep => exact ih (.step hrun hop hstep) h
      · cases h
    · cases h

/-- A replay from the start that passes a check is a run that passes it. -/
lemma exists_run_of_replay {check : BlockTree K × List (ConsensusFullBlock K) → Bool}
    (h : ((replay policy ok ops (new root) []).any check) = true) :
    ∃ t committed, Run policy ok root t committed ∧ check (t, committed) = true := by
  cases hreplay : replay policy ok ops (new root) [] with
  | none =>
    rw [hreplay] at h
    cases h
  | some r =>
    rw [hreplay] at h
    exact ⟨r.1, r.2, run_of_replay policy ok .new hreplay, h⟩

end

instance (b : ConsensusFullBlock K) : Decidable b.RoundsOk :=
  inferInstanceAs (Decidable (_ ∧ _))

instance (op : TreeOp K) : Decidable op.RoundsOk :=
  match op with
  | .add block => inferInstanceAs (Decidable block.RoundsOk)
  | .tryUpdateCoherency .. => inferInstanceAs (Decidable True)
  | .prune _ => inferInstanceAs (Decidable True)

instance (t : BlockTree K) (op : TreeOp K) : Decidable (op.Safe t) :=
  match op with
  | .add block => inferInstanceAs (Decidable block.RoundsOk)
  | .tryUpdateCoherency .. => inferInstanceAs (Decidable True)
  | .prune newRoot => inferInstanceAs (Decidable (t.isCoherent newRoot = true ∧ t.BftSafe newRoot))

def mockRoot : RootInfo mockTypes := ⟨0, 0, 1, .genesis, 0⟩

def insertOps (b : ConsensusFullBlock mockTypes) : List (TreeOp mockTypes) :=
  [.add b, .tryUpdateCoherency () () b.getId]

/-- Two forks above genesis and a child of the second one. -/
def forkBlocks : ConsensusFullBlock mockTypes × ConsensusFullBlock mockTypes ×
    ConsensusFullBlock mockTypes :=
  let a := mockBlock 1 1 ⟨.genesis, 0, 1⟩
  let b := mockBlock 2 1 ⟨.genesis, 0, 1⟩
  (a, b, mockBlock 3 2 ⟨b.getId, 2, 1⟩)

def commitForkOps : List (TreeOp mockTypes) :=
  insertOps forkBlocks.1 ++ insertOps forkBlocks.2.1 ++ insertOps forkBlocks.2.2 ++
    [.prune forkBlocks.1.getId]

/-- Committing one fork drops the other fork's block but keeps that block's
coherent child; committing the child then stops at an assertion, although every
block has consistent rounds and only coherent blocks were committed. -/
theorem prune_stops_on_stale_fork :
    ∃ t committed, Run passthruBlockPolicy (fun _ op => op.RoundsOk) mockRoot t committed ∧
      t.isCoherent forkBlocks.2.2.getId = true ∧
      t.prune forkBlocks.2.2.getId = .error .pathToRootMissing := by
  have heval : ((replay passthruBlockPolicy (fun _ op => op.RoundsOk) commitForkOps
      (new mockRoot) []).any fun r => r.1.isCoherent forkBlocks.2.2.getId &&
        match r.1.prune forkBlocks.2.2.getId with
        | .error p => p == .pathToRootMissing
        | .ok _ => false) = true := by
    decide +kernel
  obtain ⟨t, committed, hrun, hcheck⟩ := exists_run_of_replay _ _ heval
  rw [Bool.and_eq_true] at hcheck
  refine ⟨t, committed, hrun, hcheck.1, ?_⟩
  have hprune := hcheck.2
  split at hprune
  · next p hp => rw [hp, beq_iff_eq.mp hprune]
  · cases hprune

/-- After committing the first fork the tree is well formed. -/
theorem run_structure_fork :
    ∃ t committed, Run passthruBlockPolicy (fun _ op => op.RoundsOk) mockRoot t committed ∧
      committed = [forkBlocks.1] ∧ t.Wf := by
  have heval : ((replay passthruBlockPolicy (fun _ op => op.RoundsOk) commitForkOps
      (new mockRoot) []).any fun r => r.2 == [forkBlocks.1]) = true := by
    decide +kernel
  obtain ⟨t, committed, hrun, hcheck⟩ := exists_run_of_replay _ _ heval
  exact ⟨t, committed, hrun, beq_iff_eq.mp hcheck,
    ((run_structure passthruBlockPolicy mockRoot).1 t committed hrun).1⟩

/-! ## Certificates for the root -/

/-- The safety condition restricted to certificates for stored blocks. -/
def BftSafeInTree (t : BlockTree K) (newRoot : BlockId K) : Prop :=
  ∀ e ∈ t.tree.tree.pairs, ¬ e.1.Extends newRoot → e.2.validatedBlock.getParentId ∈ t.tree.tree →
    e.2.validatedBlock.getParentRound < newRoot.blockRound

instance (t : BlockTree K) (newRoot : BlockId K) : Decidable (t.BftSafeInTree newRoot) :=
  inferInstanceAs (Decidable (∀ e ∈ t.tree.tree.pairs, _ → _ → _))

/-- Calls with consistent rounds whose prunes are safe for stored blocks. -/
def SafeInTree (t : BlockTree K) : TreeOp K → Prop
  | .add block => block.RoundsOk
  | .tryUpdateCoherency .. => True
  | .prune newRoot => t.isCoherent newRoot = true ∧ t.BftSafeInTree newRoot

instance (t : BlockTree K) (op : TreeOp K) : Decidable (t.SafeInTree op) :=
  match op with
  | .add block => inferInstanceAs (Decidable block.RoundsOk)
  | .tryUpdateCoherency .. => inferInstanceAs (Decidable True)
  | .prune newRoot =>
    inferInstanceAs (Decidable (t.isCoherent newRoot = true ∧ t.BftSafeInTree newRoot))

/-- A block that extends the root through a certificate of round two. -/
def lateFork : ConsensusFullBlock mockTypes := mockBlock 3 1 ⟨.genesis, 2, 1⟩

/-- A fork that extends the root with a late certificate survives a prune that is
safe for stored blocks: it stays coherent and loses its path. -/
theorem stale_fork_of_root_certificate :
    ∃ t committed, Run passthruBlockPolicy SafeInTree mockRoot t committed ∧
      t.tree.flagAt lateFork.getId = true ∧
      t.getBlocksOnPathFromRoot lateFork.getId = none := by
  have heval : ((replay passthruBlockPolicy SafeInTree
      (insertOps forkBlocks.1 ++ insertOps lateFork ++ [.prune forkBlocks.1.getId])
      (new mockRoot) []).any fun r => r.1.tree.flagAt lateFork.getId &&
        (r.1.getBlocksOnPathFromRoot lateFork.getId).isNone) = true := by
    decide +kernel
  obtain ⟨t, committed, hrun, hcheck⟩ := exists_run_of_replay _ _ heval
  rw [Bool.and_eq_true, Option.isNone_iff_eq_none] at hcheck
  exact ⟨t, committed, hrun, hcheck.1, hcheck.2⟩

/-- Committing two blocks of one chain, one after the other. -/
theorem run_coherence_chain :
    ∃ t committed, Run passthruBlockPolicy (fun t op => op.Safe t) mockRoot t committed ∧
      committed = [forkBlocks.2.1, forkBlocks.2.2] ∧
      Linked mockRoot.blockId committed t.root.info.blockId := by
  have heval : ((replay passthruBlockPolicy (fun t op => op.Safe t)
      (insertOps forkBlocks.2.2 ++ insertOps forkBlocks.2.1 ++
        [.prune forkBlocks.2.1.getId, .prune forkBlocks.2.2.getId])
      (new mockRoot) []).any fun r => r.2 == [forkBlocks.2.1, forkBlocks.2.2]) = true := by
    decide +kernel
  obtain ⟨t, committed, hrun, hcheck⟩ := exists_run_of_replay _ _ heval
  exact ⟨t, committed, hrun, beq_iff_eq.mp hcheck, (run_coherence hrun).2.2.1⟩

end BlockTree

end Kinet
