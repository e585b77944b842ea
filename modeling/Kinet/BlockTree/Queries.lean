import Kinet.BlockTree.Runs

/-!
# Block requests

The walk along parent links that finds the blocks to request from peers, so that
the block of a certificate gets a path to the root.

Main results:

- `BlockTree.maybeFillPathToRoot_spec`: the walk requests the first
  missing ancestor, unless there is a path to the root.
- `BlockTree.maybeFillPathToRoot_underflow`: a stored ancestor whose
  height is below the root's stops the walk.
-/

namespace Kinet

open List

variable {K : TypeParams}

namespace BlockTree

variable {t : BlockTree K} {id missing : BlockId K} {b : ConsensusFullBlock K}
  {l : List (ConsensusFullBlock K)}

/-- Following parent links from `id` visits the stored blocks `l`, none of them a child of
the root, and arrives at a block that is not stored. -/
inductive Stops (t : BlockTree K) : BlockId K → List (ConsensusFullBlock K) → BlockId K → Prop
  | absent {id : BlockId K} (hget : t.tree.blockAt id = none) : Stops t id [] id
  | step {id missing : BlockId K} {b : ConsensusFullBlock K} {l : List (ConsensusFullBlock K)}
      (hget : t.tree.blockAt id = some b) (hne : b.getParentId ≠ t.root.info.blockId)
      (hrest : Stops t b.getParentId l missing) : Stops t id (b :: l) missing

lemma Stops.missing_spec (h : t.Stops id l missing) (hne : id ≠ t.root.info.blockId) :
    t.tree.blockAt missing = none ∧ missing ≠ t.root.info.blockId := by
  induction h with
  | absent hget => exact ⟨hget, hne⟩
  | step _ hne' _ ih => exact ih hne'

lemma Stops.not_path (h : t.Stops id l missing) {l' : List (ConsensusFullBlock K)} :
    ¬ t.Path id l' := by
  induction h generalizing l' with
  | absent hget =>
    intro hpath
    obtain ⟨b, _, _, hb⟩ := hpath.exists_cons
    rw [hget] at hb
    cases hb
  | step hget hne _ ih =>
    intro hpath
    cases hpath with
    | last hget' hroot =>
      rw [hget] at hget'
      cases hget'
      exact hne hroot
    | step hget' _ hrest =>
      rw [hget] at hget'
      cases hget'
      exact ih hrest

/-- Following parent links from `id` visits the stored block `b`, and none of the visited
blocks is a child of the root. -/
inductive Walks (t : BlockTree K) : BlockId K → ConsensusFullBlock K → Prop
  | here {id : BlockId K} {b : ConsensusFullBlock K} (hget : t.tree.blockAt id = some b)
      (hne : b.getParentId ≠ t.root.info.blockId) : Walks t id b
  | step {id : BlockId K} {b c : ConsensusFullBlock K} (hget : t.tree.blockAt id = some b)
      (hne : b.getParentId ≠ t.root.info.blockId) (hrest : Walks t b.getParentId c) : Walks t id c

/-- Number of blocks to request when the walk has visited `l`: those between the root and the
lowest known block. -/
def numMissing (t : BlockTree K) (l : List (ConsensusFullBlock K)) : Nat :=
  match l.getLast? with
  | none => 1
  | some b => max (b.getSeqNum - t.root.info.seqNum) 2 - 1

/-- The walk after the blocks `seen`. -/
lemma fillPathLoop_spec (hwf : t.tree.Wf) {fuel : Nat} (hfuel : depth id < fuel)
    (hseq : ∀ b, t.Walks id b → t.root.info.seqNum ≤ b.getSeqNum)
    (seen : List (ConsensusFullBlock K)) :
    (∃ l, t.Path id l ∧ t.fillPathLoop fuel id (t.numMissing seen) = .ok none) ∨
      ∃ l missing, t.Stops id l missing ∧ t.fillPathLoop fuel id (t.numMissing seen) =
        .ok (some ⟨missing, t.numMissing (seen ++ l)⟩) := by
  induction fuel generalizing id seen with
  | zero => cases hfuel
  | succ fuel ih =>
    rw [fillPathLoop]
    cases he : t.tree.get id with
    | none =>
      refine .inr ⟨[], id, .absent (by rw [Tree.blockAt, he]; rfl), ?_⟩
      rw [append_nil]
    | some e =>
      have hb := Tree.blockAt_of_get he
      dsimp only
      by_cases hroot : e.validatedBlock.getParentId = t.root.info.blockId
      · rw [if_pos hroot]
        exact .inl ⟨_, .last hb hroot, rfl⟩
      have hle := hseq _ (.here hb hroot)
      have hnum : max (e.validatedBlock.getSeqNum - t.root.info.seqNum) 2 - 1 =
          t.numMissing (seen ++ [e.validatedBlock]) := by
        rw [numMissing, getLast?_concat]
      have hlt := depth_lt_of_blockAt hwf _ _ hb
      rw [if_neg hroot, if_neg (not_lt.mpr hle), hnum]
      rcases ih (by omega) (fun b hb' => hseq b (.step hb hroot hb'))
          (seen ++ [e.validatedBlock]) with ⟨l, hl, hrun⟩ | ⟨l, missing, hstop, hrun⟩
      · exact .inl ⟨_, .step hb hroot hl, hrun⟩
      · rw [append_assoc] at hrun
        exact .inr ⟨_, missing, .step hb hroot hstop, hrun⟩

/-- Unless a block on the walk is below the root's height, nothing is requested if the block of
a certificate is the root or has a path to it.  Otherwise the request ends at the first
ancestor that is not stored, and covers the heights between the root and the lowest
known ancestor, or one block if no ancestor is known. -/
theorem maybeFillPathToRoot_spec (hwf : t.tree.Wf) (qc : QuorumCertificate K)
    (hround : t.root.info.round < qc.getRound)
    (hseq : ∀ b, t.Walks qc.getBlockId b → t.root.info.seqNum ≤ b.getSeqNum) :
    (t.maybeFillPathToRoot qc = .ok none ↔
      qc.getBlockId = t.root.info.blockId ∨ ∃ l, t.Path qc.getBlockId l) ∧
    (¬ (qc.getBlockId = t.root.info.blockId ∨ ∃ l, t.Path qc.getBlockId l) →
      ∃ l missing n, t.Stops qc.getBlockId l missing ∧ t.tree.blockAt missing = none ∧
        missing ≠ t.root.info.blockId ∧ t.maybeFillPathToRoot qc = .ok (some ⟨missing, n⟩) ∧
        1 ≤ n ∧ (t.tree.blockAt qc.getBlockId = none → n = 1) ∧
        ∀ b, l.getLast? = some b → t.root.info.seqNum + 2 ≤ b.getSeqNum →
          t.root.info.seqNum + n + 1 = b.getSeqNum) := by
  unfold maybeFillPathToRoot
  by_cases hroot : qc.getBlockId = t.root.info.blockId
  · simp [hroot]
  rw [if_neg (by rw [not_or]; exact ⟨not_le.mpr hround, Ne.symm hroot⟩)]
  rcases fillPathLoop_spec hwf (Nat.lt_succ_self _) hseq [] with
    ⟨l, hl, hrun⟩ | ⟨l, missing, hstop, hrun⟩
  · exact ⟨iff_of_true hrun (.inr ⟨l, hl⟩), fun h => absurd (.inr ⟨l, hl⟩) h⟩
  · refine ⟨iff_of_false ?_ ?_, fun _ => ⟨l, missing, t.numMissing l, hstop,
      (hstop.missing_spec hroot).1, (hstop.missing_spec hroot).2, hrun, ?_, ?_, ?_⟩⟩
    · intro h
      exact absurd (hrun.symm.trans h) (by simp)
    · rintro (h | ⟨l', hl'⟩)
      · exact hroot h
      · exact hstop.not_path hl'
    · unfold numMissing
      cases l.getLast? with
      | none => exact le_rfl
      | some b =>
        dsimp only
        omega
    · intro hnone
      cases hstop with
      | absent => rfl
      | step hget =>
        rw [hnone] at hget
        cases hget
    · intro b hlast hle
      rw [numMissing, hlast]
      dsimp only
      omega

/-- In an empty tree one block is requested for the certificate. -/
theorem maybeFillPathToRoot_spec_absent : ∃ missing,
    (new mockRoot).maybeFillPathToRoot ⟨⟨forkBlocks.1.getId, 1, 1⟩, []⟩ =
      .ok (some ⟨missing, 1⟩) := by
  have hempty : ¬ ∃ l, (new mockRoot).Path forkBlocks.1.getId l := by
    rintro ⟨l, hl⟩
    obtain ⟨b, -, -, hb⟩ := hl.exists_cons
    cases hb
  obtain ⟨_, missing, n, -, -, -, hrun, -, hn, -⟩ := (maybeFillPathToRoot_spec (wf_new mockRoot).tree
    ⟨⟨forkBlocks.1.getId, 1, 1⟩, []⟩ (by decide) fun _ _ => Nat.zero_le _).2 (by
      rintro (h | h)
      · cases h
      · exact hempty h)
  exact ⟨missing, hn rfl ▸ hrun⟩

/-- A root at height five, above the heights of the mock blocks. -/
def highRoot : RootInfo mockTypes := ⟨0, 5, 1, .genesis, 0⟩

/-- With a root at height five, a certificate for a block of height two, whose parent is not
known, stops the node. -/
theorem maybeFillPathToRoot_underflow :
    ∃ t committed, Run passthruBlockPolicy (fun _ op => op.RoundsOk) highRoot t committed ∧
      t.root.info.round < 3 ∧
      t.maybeFillPathToRoot ⟨⟨forkBlocks.2.2.getId, 3, 1⟩, []⟩ = .error .seqNumUnderflow := by
  have heval : ((replay passthruBlockPolicy (fun _ op => op.RoundsOk) [.add forkBlocks.2.2]
      (new highRoot) []).any fun r => decide (r.1.root.info.round < 3 ∧
        r.1.maybeFillPathToRoot ⟨⟨forkBlocks.2.2.getId, 3, 1⟩, []⟩ =
          .error .seqNumUnderflow)) = true := by
    decide +kernel
  obtain ⟨t, committed, hrun, hcheck⟩ := exists_run_of_replay _ _ heval
  exact ⟨t, committed, hrun, of_decide_eq_true hcheck⟩

end BlockTree

end Kinet
