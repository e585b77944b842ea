import Kinet.ConsensusState.Steps

/-!
# Handlers of the block tree and of the leader

The functions that commit blocks, update the tree, request blocks and propose take
only steps that leave the round and the vote collection alone.
-/

namespace Kinet

open Effect List Event

variable {K : TypeParams}

/-- Failures other than the assertions of the round state machine. -/
abbrev Unasserted (p : Panic) : Prop := p.isAssertion = false

namespace ConsensusState

variable {env : Env K} {T : Trust K} {s s' : ConsensusState K}

/-! ## Background changes -/

variable {requests : FiniteMap (BlockId K) (BlockSyncRequestStatus K)} {events : List (Event K)}

lemma Background.quiet (hs : s.TreeOk T) {canonical : Option (BlockId K)}
    (hquiet : ∀ e ∈ events, e.isQuiet = true) :
    Background T s { s with
      blockSyncRequests := requests
      canonicalProposedTip := canonical
      log := s.log ++ events } :=
  ⟨rfl, rfl, rfl, rfl, rfl, hs, events, rfl, fun e he => .inl (hquiet e he)⟩

variable {stateRead : K.ESRT}

lemma Background.silent (hs : s.TreeOk T) {time : Nat} : Background T s { s with
      blockSyncRequests := requests
      stateRead := stateRead
      currentTime := time } :=
  ⟨rfl, rfl, rfl, rfl, rfl, hs, [], (append_nil _).symm, fun _ he => by cases he⟩

lemma Background.tree {tree : BlockTree K}
    (htree : tree.tree.Holds fun b => T.block b.getQc) (hquiet : ∀ e ∈ events, e.isQuiet = true) :
    Background T s { s with
      pendingBlockTree := tree
      stateRead := stateRead
      log := s.log ++ events } :=
  ⟨rfl, rfl, rfl, rfl, rfl, htree, events, rfl, fun e he => .inl (hquiet e he)⟩

lemma Background.withTree {tree : BlockTree K} (htree : tree.tree.Holds fun b => T.block b.getQc) :
    Background T s { s with pendingBlockTree := tree } :=
  ⟨rfl, rfl, rfl, rfl, rfl, htree, [], (append_nil _).symm, fun _ he => by cases he⟩

variable {t : ConsensusState K}

lemma Background.commit (h : Background T s t) {b : ConsensusFullBlock K}
    (hb : s.Commits T b.getId) {blockPolicy : K.BPT} {epochManager : EpochManager} :
    Background T s { t with
      blockPolicy := blockPolicy
      epochManager := epochManager
      log := t.log ++ [.command (.commitBlocks (.finalized b))] } := by
  obtain ⟨events, hlog, hevents⟩ := h.log
  refine { h with treeOk := h.treeOk, log := ⟨events ++ [.command (.commitBlocks (.finalized b))],
    ?_, ?_⟩ }
  · rw [hlog, append_assoc]
  · intro e he
    rcases mem_append.mp he with hold | hnew
    · exact hevents e hold
    · exact .inr ⟨b, mem_singleton.mp hnew, hb⟩

/-- Invariants that no background change breaks. -/
structure Stable (T : Trust K) (I : ConsensusState K → Prop) : Prop where
  ok : ∀ s, I s → s.Ok T
  background : ∀ s s', I s → Background T s s' → I s'

variable {qc : QuorumCertificate K}

namespace Stable

variable {I : ConsensusState K → Prop} (hI : Stable T I)
include hI

lemma requestBlocksIfMissingAncestor :
    Keeps I Unasserted (requestBlocksIfMissingAncestor (K := K)) := by
  refine keeps_get fun s hs => ?_
  rw [wp_bind, wp_ofTree]
  refine ⟨fun range _ => ?_, fun _ _ => rfl⟩
  cases range with
  | none => exact hs
  | some range =>
    simp only [wp_ite, wp_bind, wp_set, wp_throw, wp_pure, wp_emit]
    refine ⟨fun _ => rfl, fun _ => ⟨fun _ => hs, fun _ => ?_⟩⟩
    exact hI.background _ _ hs (.quiet (hI.ok s hs).tree (by simp [isQuiet]))

lemma requestTipIfMissing : Keeps I Unasserted (requestTipIfMissing (K := K)) := by
  refine keeps_get fun s hs => ?_
  split
  · exact hs
  split
  · exact hs
  · simp only [wp_ite, wp_bind, wp_set, wp_pure, wp_emit]
    refine ⟨fun _ => hs, fun _ => ⟨fun _ => hs, fun _ => ?_⟩⟩
    exact hI.background _ _ hs (.quiet (hI.ok s hs).tree (by simp [isQuiet]))

lemma cancelObsoleteRequests : Keeps I Unasserted (cancelObsoleteRequests (K := K)) := by
  refine keeps_get fun s hs => ?_
  simp only [wp_bind, wp_set, wp_record]
  refine hI.background _ _ hs (.quiet (hI.ok s hs).tree ?_)
  intro e he
  obtain ⟨request, _, rfl⟩ := mem_map.mp he
  rfl

lemma updateProposedHead : Keeps I Unasserted (updateProposedHead (K := K)) := by
  refine keeps_get fun s hs => ?_
  simp only [wp_ite, wp_pure]
  refine ⟨fun _ => hs, fun _ => ?_⟩
  split
  · exact hs
  · simp only [wp_bind, wp_set, wp_emit]
    exact hI.background _ _ hs (.quiet (hI.ok s hs).tree (by simp [isQuiet]))

omit hI in
lemma maybeStatesync : Keeps I Unasserted (maybeStatesync env) := by
  refine keeps_get fun s hs => ?_
  split
  · exact hs
  · simp only [wp_ite, wp_pure, wp_throw]
    exact ⟨fun _ => hs, fun _ => rfl⟩

lemma reportVoted (qc : QuorumCertificate K) : Keeps I Unasserted (reportVoted qc) := by
  refine keeps_get fun s hs => ?_
  split
  · exact hs
  · rw [wp_emit]
    exact hI.background _ _ hs (.quiet (hI.ok s hs).tree (by simp [isQuiet]))

lemma broadcastAdvanceRoundMessage (c : RoundCertificate K) :
    Keeps I Unasserted (broadcastAdvanceRoundMessage env c) := by
  refine keeps_get fun s hs => ?_
  split
  · exact hs
  · rw [wp_emit]
    exact hI.background _ _ hs (.quiet (hI.ok s hs).tree (by simp [isQuiet]))

omit hI in
lemma commitBlocks (h : Background T s t)
    {blocks : List (ConsensusFullBlock K)} (hblocks : ∀ b ∈ blocks, s.Commits T b.getId) :
    wp (forM blocks (commitBlock env)) (fun _ t' => Background T s t') Unasserted t := by
  refine wp_forM h fun b hb t ht => ?_
  simp only [commitBlock, wp_bind, wp_get]
  split
  · rfl
  · simp only [wp_bind, wp_set, wp_emit]
    exact ht.commit (hblocks b hb)

/-- What is committed is justified by the certificate and the certificate of the
block it certifies. -/
theorem tryCommit (hs : I s) (hqc : s.Known T qc ∨ T.block qc) :
    wp (tryCommit env qc) (fun _ s' => I s') Unasserted s := by
  have htree := (hI.ok s hs).tree
  simp only [ConsensusState.tryCommit, wp_bind, wp_get]
  split
  · exact hs
  next parent hparent =>
    have hparentOk := htree _ _ hparent
    rw [wp_bind, wp_ofTree]
    refine ⟨fun committable hcommittable => ?_, fun _ _ => rfl⟩
    split
    · exact hs
    next newRoot =>
      simp only [wp_ite, wp_pure, wp_bind, wp_ofTree, wp_set]
      refine ⟨fun _ => hs, fun _ => ⟨?_, fun _ _ => rfl⟩⟩
      rintro ⟨blocks, tree⟩ hprune
      obtain ⟨hsub, hblocks⟩ := BlockTree.prune_provenance htree hprune
      refine wp_weaken (commitBlocks (.withTree (htree.sub hsub)) fun b hb => ?_)
        fun _ s' h => hI.background _ _ hs h
      -- the commit rule: the certified block's certificate is of the round before
      unfold QuorumCertificate.getCommittableId at hcommittable
      split at hcommittable
      · cases hcommittable
      next hid =>
        split at hcommittable
        · next hround =>
          cases hcommittable
          exact ⟨qc, parent.header, hqc, hparentOk.2, not_not.mp hid, hround, (hblocks b hb).1⟩
        · cases hcommittable

lemma tryUpdateCoherency (id : BlockId K) : Keeps I Unasserted (tryUpdateCoherency env id) := by
  refine keeps_get fun s hs => ?_
  have htree := (hI.ok s hs).tree
  simp only [wp_bind, wp_ofTree, wp_set, wp_record]
  refine ⟨?_, fun _ _ => rfl⟩
  rintro ⟨newlyCoherent, tree, stateRead⟩ hupdate
  have hs1 : I { s with
      pendingBlockTree := tree
      stateRead := stateRead
      log := s.log ++ newlyCoherent.map fun b => .command (.commitBlocks (.proposed b false)) } := by
    refine hI.background _ _ hs (.tree (htree.sub (BlockTree.tryUpdateCoherency_sub hupdate)) ?_)
    intro e he
    obtain ⟨b, _, rfl⟩ := mem_map.mp he
    rfl
  refine wp_weaken (hI.updateProposedHead _ hs1) fun _ s2 hs2 => ?_
  rw [wp_get]
  refine ⟨fun qc hqc => ?_, fun _ _ => rfl⟩
  split
  · exact hs2
  next qc =>
    obtain ⟨id, b, hb, rfl⟩ := BlockTree.getHighCommittableQc_provenance hqc
    exact hI.tryCommit hs2 (.inr ((hI.ok s2 hs2).tree id b hb).2)

/-- Background functions also keep the state of the round. -/
lemma frame (s : ConsensusState K) : Stable T fun s' => I s' ∧ s'.safety = s.safety ∧
    s'.pacemaker = s.pacemaker ∧ s'.noEndorsementState = s.noEndorsementState where
  ok s' h := hI.ok s' h.1
  background s' s'' h hback :=
    ⟨hI.background s' s'' h.1 hback, hback.safety.trans h.2.1, hback.pacemaker.trans h.2.2.1,
      hback.noEndorsementState.trans h.2.2.2⟩

end Stable

/-! ## Proposing -/

/-- Invariants that no background change and no step of a leader breaks. -/
structure Leading (env : Env K) (T : Trust K) (I : ConsensusState K → Prop) : Prop
    extends Stable T I where
  step : ∀ s s', I s → Step env T s s' → s'.voteState = s.voteState →
    s'.pacemaker = s.pacemaker → I s'

namespace Leading

variable {I : ConsensusState K → Prop} (hI : Leading env T I)
include hI

variable {tc : TimeoutCertificate K} {tip : ConsensusTip K}

lemma requestRecovery (hs : I s)
    (hcert : s.pacemaker.highCertificate = .tc tc) (htip : tc.highExtend = .tip tip) :
    wp (requestRecovery env (some tc)) (fun _ s' => I s') Unasserted s := by
  simp only [ConsensusState.requestRecovery, wp_bind, wp_get]
  split
  · exact hs
  next hsafe =>
    rw [Safety.recoveryRequest_of_safe (by simpa using hsafe)]
    simp only [wp_bind, wp_liftOk, wp_set, wp_emit]
    exact hI.step _ _ hs (.requestRecovery hcert htip) rfl rfl

lemma repropose (hs : I s) (hsafe : s.safety.isSafeToPropose s.getCurrentRound = true)
    (hcert : s.pacemaker.highCertificate = .tc tc) (htip : tc.highExtend = .tip tip) :
    wp (repropose env tip (some tc)) (fun _ s' => I s') Unasserted s := by
  simp only [ConsensusState.repropose, wp_bind]
  refine wp_weaken ((hI.frame s).tryUpdateCoherency _ s ⟨hs, rfl, rfl, rfl⟩) ?_
  rintro - s1 ⟨hs1, hsafety, hpacemaker, -⟩
  have hcert1 : s1.pacemaker.highCertificate = .tc tc := by rw [hpacemaker, hcert]
  have hsafe1 : s1.safety.isSafeToPropose s1.getCurrentRound = true := by
    rw [hsafety, getCurrentRound, hpacemaker]
    exact hsafe
  rw [wp_get]
  split
  · exact hI.requestRecovery hs1 hcert1 htip
  · rw [Safety.propose_of_safe hsafe1]
    simp only [wp_bind, wp_liftOk, wp_set]
    split
    · rfl
    · next block hblock =>
      rw [wp_emit]
      exact hI.step _ _ hs1 (.propose hsafe1 (.again hcert1 htip hblock)) rfl rfl

omit hI in
/-- What a leader proposes depends on the pacemaker and the refusals it has collected. -/
lemma proposalInputs_congr {s1 : ConsensusState K} (hpacemaker : s1.pacemaker = s.pacemaker)
    (hnec : s1.noEndorsementState = s.noEndorsementState) :
    s1.getCurrentRound = s.getCurrentRound ∧ s1.proposalInputs = s.proposalInputs := by
  have hround : s1.getCurrentRound = s.getCurrentRound := by
    rw [getCurrentRound, hpacemaker]
    rfl
  unfold proposalInputs
  rw [hround, hpacemaker, hnec]
  exact ⟨rfl, rfl⟩

lemma proposeFresh (hs : I s) {epoch : Nat} {validators : ValidatorSet K}
    {fresh : Option (FreshProposalCertificate K)} {lastRoundTc : Option (TimeoutCertificate K)}
    (hsafe : s.safety.isSafeToPropose s.getCurrentRound = true)
    (hinputs : s.proposalInputs = (.qc qc, fresh, lastRoundTc))
    (hvalidators : env.valEpochMap.getValSet epoch = some validators)
    (hleader : env.nodeid = env.getLeader s.getCurrentRound validators) :
    wp (proposeFresh env epoch qc fresh lastRoundTc) (fun _ s' => I s') Unasserted s := by
  simp only [ConsensusState.proposeFresh, wp_bind]
  refine wp_weaken ((hI.frame s).tryUpdateCoherency _ s ⟨hs, rfl, rfl, rfl⟩) ?_
  rintro - s1 ⟨hs1, hsafety, hpacemaker, hnec⟩
  obtain ⟨hround, hinputs1⟩ := proposalInputs_congr hpacemaker hnec
  have hsafe1 : s1.safety.isSafeToPropose s1.getCurrentRound = true := by
    rw [hsafety, hround]
    exact hsafe
  rw [wp_get]
  split
  · exact hs1
  split
  · rfl
  next pending _ =>
    split
    · exact hI.background _ _ hs1 (.silent (hI.ok _ hs1).tree)
    · rw [Safety.propose_of_safe hsafe1]
      simp only [wp_bind, wp_liftOk, wp_set, wp_emit]
      refine hI.step _ _ hs1 (.propose hsafe1 (.fresh rfl (hinputs1.trans hinputs) hvalidators ?_)) rfl rfl
      rw [hround]
      exact hleader

/-- A leader proposes what the certificate of the last round allows. -/
theorem tryPropose : Keeps I Unasserted (tryPropose env) := by
  refine keeps_get fun s hs => ?_
  simp only
  split
  · rfl
  next epoch _ =>
  split
  · rfl
  next validators hvalidators =>
  split
  · exact hs
  next hleader =>
  rw [wp_bind]
  refine wp_weaken ((hI.frame s).requestTipIfMissing s ⟨hs, rfl, rfl, rfl⟩) ?_
  rintro - s1 ⟨hs1, hsafety, hpacemaker, hnec⟩
  obtain ⟨hround, hinputs1⟩ := proposalInputs_congr hpacemaker hnec
  split
  · exact hs1
  next hsafe =>
  have hsafe1 : s1.safety.isSafeToPropose s1.getCurrentRound = true := by
    rw [hsafety, hround]
    simpa using hsafe
  split
  · next tip _ lastRoundTc hinputs =>
    -- only a timeout certificate for a tip asks to propose a tip
    have hcase : ∃ tc, s.pacemaker.highCertificate = .tc tc ∧ tc.highExtend = .tip tip ∧
        lastRoundTc = some tc := by
      unfold proposalInputs at hinputs
      split at hinputs
      · cases hinputs
      next tc hcert =>
        split at hinputs
        · cases hinputs
        · split at hinputs
          · next tip' htip =>
            cases hinputs
            exact ⟨tc, hcert, htip, rfl⟩
          · cases hinputs
    obtain ⟨tc, hcert, htip, rfl⟩ := hcase
    exact hI.repropose hs1 hsafe1 (by rw [hpacemaker, hcert]) htip
  · next qc fresh lastRoundTc hinputs =>
    refine hI.proposeFresh hs1 hsafe1 (hinputs1.trans hinputs) hvalidators ?_
    rw [hround]
    exact not_not.mp hleader

end Leading

end ConsensusState

end Kinet
