import Kinet.ConsensusState.Background

/-!
# The handlers take elementary steps

Every handler, given a message with good certificates, takes elementary steps from a
state with the invariant `Ok`, and none of the assertions of the round state machine
fails.

Main results:

- `ConsensusState.Reached.processQc`: a certificate starts its next round.
-/

namespace Kinet

open Effect List Pacemaker Event ValidatorsEpochMapping

variable {K : TypeParams}

namespace ConsensusState

/-- Reached by steps from `s₀`, in `round` or later, between two calls of handlers. -/
structure Reached (env : Env K) (T : Trust K) (s₀ : ConsensusState K) (round : Nat)
    (s : ConsensusState K) : Prop where
  start : s₀.Ok T
  steps : Steps env T s₀ s
  settled : s.voteState.earliestRound ≤ s.getCurrentRound
  round_le : round ≤ s.getCurrentRound

variable {env : Env K} {T : Trust K} {s₀ s s' : ConsensusState K} {round : Nat}

namespace Reached

section

variable (h : Reached env T s₀ round s)
include h

lemma ok : s.Ok T := h.steps.ok h.start

lemma mono {round' : Nat} (hle : round' ≤ s.getCurrentRound) : Reached env T s₀ round' s :=
  ⟨h.start, h.steps, h.settled, hle⟩

lemma step (hstep : Step env T s s')
    (hvote : s'.voteState = s.voteState) : Reached env T s₀ round s' where
  start := h.start
  steps := h.steps.tail hstep
  settled := by
    rw [hvote]
    exact le_trans h.settled hstep.round_le
  round_le := le_trans h.round_le hstep.round_le

end

lemma of_max {round' : Nat} (h : Reached env T s₀ (max round round') s) :
    Reached env T s₀ round s :=
  h.mono (le_trans (le_max_left _ _) h.round_le)

lemma leading : Leading env T (Reached env T s₀ round) where
  ok _ h := h.ok
  background _ _ h hback := h.step (.background hback) hback.voteState
  step _ _ h hstep hvote _ := h.step hstep hvote

lemma tryPropose : Keeps (Reached env T s₀ round) Unasserted (tryPropose env) :=
  leading.tryPropose

end Reached

variable {r : Nat}

lemma unasserted_of_leaderOf {epochManager : EpochManager} {p : Panic}
    (h : env.leaderOf epochManager r = .error p) : Unasserted p := by
  unfold Env.leaderOf at h
  split at h
  · cases h
    rfl
  · split at h
    · cases h
      rfl
    · cases h

variable {validators : ValidatorSet K} {mapping : ValidatorMapping K}

lemma wp_validatorsAt {Q : ValidatorSet K × ValidatorMapping K → ConsensusState K → Prop}
    (hQ : ∀ epoch validators mapping, env.valEpochMap.lookup epoch = some (validators, mapping) →
      Q (validators, mapping) s) :
    wp (liftM (s.validatorsAt env r)) Q Unasserted s := by
  unfold validatorsAt Env.validatorsOf getValSet
    getCertPubkeys
  cases s.epochManager.getEpoch r with
  | none => rfl
  | some epoch =>
    cases hlookup : env.valEpochMap.lookup epoch with
    | none =>
      simp only [hlookup]
      rfl
    | some pair =>
      simp only [hlookup]
      exact hQ epoch _ _ hlookup

/-! ## Certificates -/

lemma fromPacemakerCommand_enter_quiet (highCertificateQcRound epoch : Nat)
    (c : RoundCertificate K) :
    ∀ e ∈ (enterCommands env epoch c).flatMap
      (fromPacemakerCommand env highCertificateQcRound), e.isQuiet = true := by
  simp [enterCommands, fromPacemakerCommand, isQuiet]

variable {c : RoundCertificate K}

/-- After a certificate the node is in a later round. -/
lemma processCertificate_conforms (hsteps : Steps env T s₀ s)
    (hc : T.roundCertificate c ∨ ∃ qc, c = .qc qc ∧ s.Known T qc) :
    wp (processCertificate env c) (fun _ s' => Steps env T s₀ s' ∧
      s'.voteState = s.voteState ∧ max s.getCurrentRound (c.round + 1) ≤ s'.getCurrentRound)
      Unasserted s := by
  simp only [processCertificate, wp_bind, wp_get, wp_set, wp_record]
  refine wp_of_ends processCertificate_spec ?_ fun _ => id
  rintro ⟨cmds, pacemaker, safety⟩ (⟨hlt, rfl, rfl, rfl⟩ | ⟨hle, epoch, rfl, rfl, rfl⟩)
  · simp only [flatMap_nil, append_nil]
    refine ⟨hsteps, trivial, ?_⟩
    change max s.getCurrentRound (c.round + 1) ≤ s.getCurrentRound
    have hlt' : c.round < s.getCurrentRound := hlt
    omega
  · refine ⟨hsteps.tail (.certificate hle hc (fromPacemakerCommand_enter_quiet _ _ _)), trivial, ?_⟩
    change max s.getCurrentRound (c.round + 1) ≤ c.round + 1
    have hle' : s.getCurrentRound ≤ c.round := hle
    omega

/-- Reached by steps from `s₀`, with the collected votes of `s`. -/
structure Framed (env : Env K) (T : Trust K) (s₀ s s' : ConsensusState K) : Prop where
  steps : Steps env T s₀ s'
  voteState : s'.voteState = s.voteState
  round_le : s.getCurrentRound ≤ s'.getCurrentRound
  mem_log : ∀ e ∈ s.log, e ∈ s'.log

lemma Framed.refl (hsteps : Steps env T s₀ s) : Framed env T s₀ s s :=
  ⟨hsteps, rfl, le_rfl, fun _ he => he⟩

lemma Framed.stable (start : s₀.Ok T) (s : ConsensusState K) : Stable T (Framed env T s₀ s) where
  ok s' h := h.steps.ok start
  background s' s'' h hback := by
    have hstep : Step env T s' s'' := .background hback
    exact ⟨h.steps.tail hstep, hback.voteState.trans h.voteState,
      le_trans h.round_le hstep.round_le, fun e he => hstep.mem_log (h.mem_log e he)⟩

variable {qc : QuorumCertificate K}

/-- Processing a certificate that may just have been built from votes. -/
lemma processQc_conforms (start : s₀.Ok T) (hsteps : Steps env T s₀ s) (hqc : s.Known T qc)
    (hearliest : s.voteState.earliestRound ≤ max s.getCurrentRound (qc.getRound + 1)) :
    wp (processQc env qc)
      (fun _ s' => Reached env T s₀ (max s.getCurrentRound (qc.getRound + 1)) s')
      Unasserted s := by
  simp only [ConsensusState.processQc, wp_bind, wp_get]
  split
  · next hold =>
    have hmax : max s.getCurrentRound (qc.getRound + 1) = s.getCurrentRound :=
      Nat.max_eq_left hold
    rw [hmax] at hearliest ⊢
    exact ⟨start, hsteps, hearliest, le_rfl⟩
  have hframe : Stable T (Framed env T s₀ s) := Framed.stable start s
  simp only [wp_bind]
  refine wp_weaken (hframe.reportVoted qc s (.refl hsteps)) fun _ s1 h1 => ?_
  refine wp_weaken (hframe.tryCommit h1 (.inl (hqc.mono h1.mem_log))) fun _ s2 h2 => ?_
  refine wp_weaken (hframe.cancelObsoleteRequests s2 h2) fun _ s3 h3 => ?_
  refine wp_weaken (Stable.maybeStatesync (I := Framed env T s₀ s) s3 h3) fun _ s4 h4 => ?_
  refine wp_weaken (processCertificate_conforms h4.steps (c := .qc qc)
    (.inr ⟨qc, rfl, hqc.mono h4.mem_log⟩)) fun _ s5 h5 => ?_
  obtain ⟨hsteps5, hvote5, hround5⟩ := h5
  have hframe5 : Stable T (Framed env T s₀ s5) := Framed.stable start s5
  refine wp_weaken (hframe5.updateProposedHead s5 (.refl hsteps5)) fun _ s6 h6 => ?_
  refine wp_weaken (hframe5.requestBlocksIfMissingAncestor s6 h6) fun _ s7 h7 => ?_
  -- the round is now after the certificate, so no collected round is reopened
  have hround : max s.getCurrentRound (qc.getRound + 1) ≤ s7.getCurrentRound := by
    have hqcRound : (RoundCertificate.qc qc).round = qc.getRound := rfl
    have hround7 := h7.round_le
    omega
  have hearliest7 : s7.voteState.earliestRound ≤ s7.getCurrentRound := by
    rw [h7.voteState, hvote5, h4.voteState]
    exact le_trans hearliest hround
  exact Reached.tryPropose _ ⟨start, h7.steps.tail (.startNewRound hearliest7), le_rfl, hround⟩

namespace Reached

theorem processQc (h : Reached env T s₀ round s) (hqc : s.Known T qc) :
    wp (processQc env qc) (fun _ s' => Reached env T s₀ (max round (qc.getRound + 1)) s')
      Unasserted s := by
  have hround := h.round_le
  refine wp_weaken (processQc_conforms h.start h.steps hqc
    (le_trans h.settled (le_max_left _ _))) fun _ s' h' => h'.mono ?_
  have hround' := h'.round_le
  omega

variable {tc : TimeoutCertificate K}

lemma processTc (h : Reached env T s₀ round s) (htc : T.tc tc) :
    wp (processTc env tc) (fun _ s' => Reached env T s₀ (max round (tc.round + 1)) s')
      Unasserted s := by
  have hround := h.round_le
  simp only [ConsensusState.processTc, wp_bind, wp_get]
  split
  · next hold => exact h.mono (Nat.max_le.mpr ⟨hround, hold⟩)
  rw [wp_bind]
  refine wp_weaken (processCertificate_conforms h.steps (c := .tc tc) (.inl htc)) ?_
  rintro - s1 ⟨hsteps1, hvote1, hround1⟩
  rw [RoundCertificate.round] at hround1
  refine tryPropose s1 ⟨h.start, hsteps1, ?_, by omega⟩
  rw [hvote1]
  exact le_trans h.settled (le_trans (le_max_left _ _) hround1)

/-! ## Votes and timeouts of the node -/

variable {lastRoundTc : Option (TimeoutCertificate K)} {author : K.NodeId} {p : ProposalMessage K}
  {fullBlocks : List (ConsensusFullBlock K)} {tip : ConsensusTip K}

section

variable (h : Reached env T s₀ round s)
include h

variable {v : Vote K}

lemma publishVote (hcast : cast v tip lastRoundTc ∈ s.log) (target : RouterTarget K) :
    Reached env T s₀ round { s with
      log := s.log ++ [.command (.publish target
        ⟨env.version, .vote (VoteMessage.new v env.certSign)⟩)] } :=
  h.step (.publishVote hcast) rfl

lemma sendVoteAndResetTimer (hcast : cast v tip lastRoundTc ∈ s.log) :
    wp (sendVoteAndResetTimer env v) (fun _ s' => Reached env T s₀ round s') Unasserted s := by
  simp only [ConsensusState.sendVoteAndResetTimer, wp_bind, wp_get, wp_lift, wp_emit]
  refine ⟨fun nextLeader _ => ⟨fun currentLeader _ => ?_, fun _ => unasserted_of_leaderOf⟩,
    fun _ => unasserted_of_leaderOf⟩
  have h1 := h.publishVote hcast (.pointToPoint nextLeader)
  have hclear {s2 : ConsensusState K} (h2 : Reached env T s₀ round s2) :
      Reached env T s₀ round { s2 with
        log := s2.log ++ [.command (.scheduleVote (env.chainParams (v.round + 1)).votePace
          (v.round + 1))]
        scheduledVote := none } :=
    h2.step (.schedule (by simp [isQuiet]) (fun _ hv => by cases hv)) rfl
  rw [wp_ite]
  refine ⟨fun _ => ?_, fun _ => ?_⟩
  · exact hclear (h1.publishVote (mem_append_left _ hcast) (.pointToPoint currentLeader))
  · exact hclear h1

lemma schedule {status : Option (OutgoingVoteStatus K)}
    (hready : ∀ v, status = some (.voteReady v) → v.round ≤ s.safety.highestVote ∧
      ∃ tip lastRoundTc, cast v tip lastRoundTc ∈ s.log) :
    Reached env T s₀ round { s with scheduledVote := status } := by
  have hquiet : ∀ e ∈ ([] : List (Event K)), e.isQuiet = true := fun _ he => by cases he
  have hstep := h.step (.schedule hquiet hready) rfl
  simpa only [append_nil] using hstep

lemma scheduleVote (hcast : cast v tip lastRoundTc ∈ s.log) (hvote : v.round ≤ s.safety.highestVote)
    (hlater : ∀ r, s.scheduledVote = some (.voteReady r) → r.round < v.round)
    (parentBlockRound : Nat) :
    wp (scheduleVote env v parentBlockRound) (fun _ s' => Reached env T s₀ round s')
      Unasserted s := by
  have hwait : Reached env T s₀ round { s with scheduledVote := some (.voteReady v) } := by
    refine h.schedule ?_
    rintro _ ⟨⟩
    exact ⟨hvote, tip, lastRoundTc, hcast⟩
  have hsend := h.sendVoteAndResetTimer hcast
  simp only [ConsensusState.scheduleVote, wp_bind, wp_get]
  split
  · exact hsend
  · next r hr =>
    rw [wp_ite, wp_ite]
    refine ⟨fun hle => ?_, fun _ => ⟨fun _ => hsend, fun _ => hwait⟩⟩
    exact absurd (hlater r hr) (not_lt.mpr hle)
  · rw [wp_ite]
    exact ⟨fun _ => hsend, fun _ => hwait⟩

/-- A proposal of the current round is voted for at most once. -/
lemma tryVote (hsent : T.sent author (.proposal p))
    (hmsg : T.message s.getCurrentRound (.proposal p))
    (hround : p.proposalRound = s.getCurrentRound)
    (hqc : p.tip.blockHeader.qc.getRound < s.getCurrentRound) :
    wp (tryVote env p.lastRoundTc p.tip) (fun _ s' => Reached env T s₀ round s') Unasserted s := by
  simp only [ConsensusState.tryVote, wp_bind, wp_get]
  split
  · next parentBlockRound _ _ =>
    rw [wp_ite, wp_ite, wp_ite]
    refine ⟨fun _ => h, fun _ => ⟨fun _ => h, fun _ => ⟨fun _ => h, fun hsafe => ?_⟩⟩⟩
    have hsafe : s.safety.isSafeToVote s.getCurrentRound (tcTip p.lastRoundTc) = true := by
      simpa using hsafe
    simp only [castVote, wp_bind, wp_get, Safety.vote_of_safe p.tip hsafe, wp_liftOk, wp_set,
      wp_record, wp_pure]
    refine (h.step (.cast hsent hmsg hround hqc hsafe) rfl).scheduleVote
      (mem_append_right _ (mem_singleton_self _)) le_rfl ?_ parentBlockRound
    -- a vote that still waits is of an earlier round
    intro r hr
    exact lt_of_le_of_lt (h.ok.scheduled r hr).1 (Safety.lt_of_isSafeToVote hsafe)
  · exact h

end

lemma handleVoteTimer : Keeps (Reached env T s₀ round) Unasserted (handleVoteTimer env) := by
  refine keeps_get fun s h => ?_
  split
  · next v hv =>
    obtain ⟨_, tip, lastRoundTc, hcast⟩ := h.ok.scheduled v hv
    exact h.sendVoteAndResetTimer hcast
  · exact h.schedule fun _ hv => by cases hv

lemma handleTimeoutExpiry (timeoutRound : Nat) :
    Keeps (Reached env T s₀ round) Unasserted (handleTimeoutExpiry env timeoutRound) := by
  refine keeps_get fun s h => ?_
  rw [wp_ite]
  refine ⟨fun _ => h, fun _ => ?_⟩
  have hvote := h.ok.vote_le
  rw [processLocalTimeout_of_le hvote]
  exact h.step (.timeout hvote) rfl

/-! ## Proposals -/

section

variable (h : Reached env T s₀ round s)
include h

lemma validateBlock (header : ConsensusBlockHeader K) (body : K.Body) :
    wp (validateBlock env header body)
      (fun r s' => s' = s ∧ ∀ b, r = some b → b.header = header) Unasserted s := by
  simp only [ConsensusState.validateBlock, wp_bind, wp_get]
  split
  · next validated hget =>
    have hid := (h.ok.tree _ _ hget).1
    refine ⟨rfl, fun b hb => ?_⟩
    split at hb
    · cases hb
    · cases hb
      exact ConsensusBlockHeader.getId_injective hid
  · simp only [wp_bind, wp_lift]
    refine ⟨fun leader _ => ?_, fun _ => unasserted_of_leaderOf⟩
    split
    · exact ⟨rfl, fun b hb => by cases hb⟩
    split
    · rfl
    split
    · rfl
    refine ⟨rfl, fun b hb => ?_⟩
    unfold Env.validate at hb
    split at hb
    · exact (ConsensusFullBlock.new_eq_some hb).1
    · cases hb

/-- Adding a block; if it is proposed in the current round it may be voted for. -/
lemma tryAddAndCommitBlocktree {block : ConsensusFullBlock K} (hblock : T.block block.getQc)
    {proposal : Option (Nat × Option (TimeoutCertificate K) × ConsensusTip K)}
    (hproposal : ∀ x, proposal = some x → ∃ author p, T.sent author (.proposal p) ∧
      T.message round (.proposal p) ∧ p.tip.blockHeader.qc.getRound < round ∧
      p.tip.blockHeader = block.header ∧ x = (p.proposalRound, p.lastRoundTc, p.tip)) :
    wp (tryAddAndCommitBlocktree env block proposal) (fun _ s' => Reached env T s₀ round s')
      Unasserted s := by
  have hlead : Leading env T (Reached env T s₀ round) := leading
  simp only [ConsensusState.tryAddAndCommitBlocktree, wp_bind, wp_get, wp_ofTree, wp_set]
  refine ⟨fun tree hadd => ?_, fun _ _ => rfl⟩
  have h1 : Reached env T s₀ round { s with pendingBlockTree := tree } :=
    hlead.background _ _ h (.withTree (BlockTree.add_holds h.ok.tree hblock hadd))
  refine wp_weaken (hlead.tryUpdateCoherency block.getId _ h1) fun _ s2 h2 => ?_
  have hend : ∀ s3, Reached env T s₀ round s3 →
      wp (do ConsensusState.tryPropose env; maybeStatesync env; requestBlocksIfMissingAncestor)
        (fun _ s' => Reached env T s₀ round s') Unasserted s3 :=
    tryPropose.bind fun _ => (Stable.maybeStatesync).bind fun _ =>
      hlead.requestBlocksIfMissingAncestor
  cases proposal with
  | none => exact hend s2 h2
  | some x =>
    obtain ⟨author, p, hsent, hmsg, hqc, hheader, rfl⟩ := hproposal x rfl
    change wp (if p.proposalRound = s2.getCurrentRound then _ else _) _ _ _
    split
    · next hround =>
      rw [if_neg]
      · rw [wp_bind]
        refine wp_weaken (h2.tryVote hsent (Trust.message_mono hmsg h2.round_le) hround
          (lt_of_lt_of_le hqc h2.round_le)) fun _ s3 h3 => hend s3 h3
      · rw [hheader]
        exact not_not.mpr rfl
    · exact hend s2 h2

/-- A proposal whose certificates brought the node to its round. -/
lemma acceptProposal (hsent : T.sent author (.proposal p))
    (hmsg : T.message round (.proposal p)) (hqc : p.tip.blockHeader.qc.getRound < round)
    (hsafe : s.safety.isSafeToHandleProposal p.proposalRound = true) :
    wp (acceptProposal env p) (fun _ s' => Reached env T s₀ round s') Unasserted s := by
  obtain ⟨rounds, hhandle⟩ := Safety.handleProposal_of_safe hsafe
  simp only [ConsensusState.acceptProposal, wp_bind, wp_get, hhandle, wp_liftOk, wp_set]
  have h1 : Reached env T s₀ round
      { s with safety := { s.safety with handledProposals := rounds } } :=
    h.step .handleProposal rfl
  refine wp_weaken (h1.validateBlock p.tip.blockHeader p.blockBody) ?_
  rintro (_ | block) s2 ⟨rfl, hheader⟩
  · exact h1
  · have hblock := hheader block rfl
    refine h1.tryAddAndCommitBlocktree ?_ ?_
    · have hqc : block.getQc = p.tip.blockHeader.qc := by rw [← hblock]; rfl
      rw [hqc]
      exact T.block_of_qc _ hmsg.2.1.qc
    · rintro _ ⟨⟩
      exact ⟨author, p, hsent, hmsg, hqc, hblock.symm, rfl⟩

end

lemma handleProposalMessage (hsent : T.sent author (.proposal p))
    (hmsg : T.message round (.proposal p)) :
    Keeps (Reached env T s₀ round) Unasserted (handleProposalMessage env author p) := by
  refine keeps_get fun s h => ?_
  split
  · exact h
  simp only [wp_bind, wp_lift]
  refine ⟨fun expectedLeader _ => ?_, fun _ => unasserted_of_leaderOf⟩
  refine wp_weaken (h.processQc (.inl hmsg.2.1.qc)) fun _ s1 h1 => ?_
  have hqc : p.tip.blockHeader.qc.getRound < max round (p.tip.blockHeader.qc.getRound + 1) := by
    omega
  have hend {s2 : ConsensusState K}
      (h2 : Reached env T s₀ (max round (p.tip.blockHeader.qc.getRound + 1)) s2) :
      wp (do
        let s ← get
        if s.getCurrentRound < p.proposalRound ∨ author ≠ expectedLeader then pure ()
        else if !s.safety.isSafeToHandleProposal p.proposalRound then pure ()
        else ConsensusState.acceptProposal env p) (fun _ s' => Reached env T s₀ round s')
        Unasserted s2 := by
    rw [wp_bind, wp_get, wp_ite, wp_ite]
    refine ⟨fun _ => h2.of_max, fun _ => ⟨fun _ => h2.of_max, fun hsafe => ?_⟩⟩
    refine wp_weaken (h2.acceptProposal hsent (Trust.message_mono hmsg (le_max_left _ _)) hqc
      (by simpa using hsafe)) fun _ _ => of_max
  cases hlast : p.lastRoundTc with
  | none => exact hend h1
  | some tc =>
    change wp (ConsensusState.processTc env tc >>= fun _ => _) _ _ _
    rw [wp_bind]
    exact wp_weaken (h1.processTc (hmsg.2.2 tc hlast)) fun _ s2 h2 => hend h2.of_max

/-! ## Votes of other nodes -/

/-- The certificate that a vote completes is processed at once, so that the collector
again starts at the current round. -/
lemma handleVoteMessage {msg : VoteMessage K} (hsent : VoteSent T author msg) :
    Keeps (Reached env T s₀ round) Unasserted (handleVoteMessage env author msg) := by
  refine keeps_get fun s h => ?_
  simp only
  split
  · exact h
  next hround =>
  split
  · exact h
  rw [wp_bind]
  refine wp_validatorsAt fun epoch validators mapping hlookup => ?_
  simp only [collectVote, wp_bind, wp_get, wp_lift, wp_set, wp_record, wp_pure]
  refine ⟨?_, fun p hp => ?_⟩
  · rintro ⟨qc, voteState⟩ hprocess
    have hstep : Step env T s _ := .vote hsent (Nat.le_of_not_lt hround) hlookup hprocess
    cases qc with
    | none =>
      refine ⟨h.start, h.steps.tail hstep, ?_, le_trans h.round_le hstep.round_le⟩
      have hsame := (VoteState.processVote_spec hprocess).earliestRound_of_none rfl
      change voteState.earliestRound ≤ s.getCurrentRound
      rw [hsame]
      exact h.settled
    | some qc =>
      obtain ⟨hvote, hearliest⟩ := (VoteState.processVote_spec hprocess).earliestRound_of_some rfl
      have hknown : Known T { s with
          voteState := voteState
          log := s.log ++ [.processedVote s.voteState.earliestRound author msg validators
            mapping (some qc)] } qc :=
        .inr ⟨_, _, _, _, _, mem_append_right _ (mem_singleton_self _)⟩
      simp only [wp_bind]
      refine wp_weaken (processQc_conforms h.start (h.steps.tail hstep) hknown ?_) ?_
      · change voteState.earliestRound ≤ max s.getCurrentRound (qc.info.round + 1)
        rw [hearliest, hvote]
        exact le_max_right _ _
      · intro _ s1 h1
        have h1 : Reached env T s₀ round s1 :=
          h1.mono (le_trans h.round_le (le_trans (le_max_left _ _) h1.round_le))
        refine wp_weaken (tryPropose s1 h1) fun _ s2 h2 => ?_
        rw [wp_get]
        split
        · exact leading.background _ _ h2 (.quiet h2.ok.tree (by simp [isQuiet]))
        · exact h2
  · exact collectLoop_ends.error (VoteState.processVote_spec hp)

/-! ## Timeouts of other nodes -/

variable {t : Timeout K}

lemma handleTimeoutVote (hsent : T.sent author (.timeout t)) :
    Keeps (Reached env T s₀ round) Unasserted (handleTimeoutVote env author t) := by
  unfold ConsensusState.handleTimeoutVote
  split
  · next tip signature hext =>
    exact handleVoteMessage (.inr ⟨t, tip, hsent, hext, rfl⟩)
  · exact keeps_pure ()

section

variable (h : Reached env T s₀ round s)
include h

/-- After the certificate of the previous round, the node is in the next round. -/
lemma handleLastRoundCertificate (hc : T.roundCertificate c) :
    wp (handleLastRoundCertificate env (some c))
      (fun _ s' => Reached env T s₀ (max round (c.round + 1)) s') Unasserted s := by
  cases c with
  | qc qc => exact h.processQc (.inl hc)
  | tc tc =>
    have hround := h.round_le
    simp only [ConsensusState.handleLastRoundCertificate, wp_bind, wp_get]
    split
    · rw [wp_bind]
      exact wp_weaken (handleTimeoutExpiry tc.round s h) fun _ s1 h1 => h1.processTc hc
    · next hne =>
      split
      · rw [wp_bind]
        exact wp_weaken (leading.broadcastAdvanceRoundMessage (.tc tc) s h) fun _ s1 h1 =>
          h1.processTc hc
      · next hnlt =>
        refine h.mono (Nat.max_le.mpr ⟨hround, ?_⟩)
        change tc.round + 1 ≤ s.getCurrentRound
        omega

lemma dropped {p : Pacemaker K} (hdrop : Dropped s.pacemaker p) :
    Reached env T s₀ round { s with pacemaker := p } := by
  induction hdrop with
  | refl => exact h
  | tail _ hstep ih =>
    obtain ⟨invalid, rfl⟩ := hstep
    exact ih.step .dropTimeouts rfl

/-- Joining the timeout of the current round. -/
lemma joined {cmds : List (PacemakerCommand K)} {p : Pacemaker K} {safety : Safety K}
    (hjoin : Joined env s.pacemaker s.safety cmds p safety) :
    Reached env T s₀ round { s with
      pacemaker := p
      safety := safety
      log := s.log ++ cmds.flatMap (fromPacemakerCommand env s.safety.highCertificateQcRound) } := by
  cases hjoin with
  | unchanged => simpa only [flatMap_nil, append_nil] using h
  | timedOut => exact h.step (.timeout h.ok.vote_le) rfl

lemma built {lookupEpoch tcEpoch tcRound : Nat}
    (hlookup : env.valEpochMap.lookup lookupEpoch = some (validators, mapping))
    (hmaj : validators.hasSuperMajorityVotes
      (s.pacemaker.pendingTimeouts.sortedPairs.map Prod.fst) = .ok true)
    (hround : tcRound = s.getCurrentRound)
    (hnew : TimeoutCertificate.new env.scheme env.groupOrder tcEpoch tcRound
      s.pacemaker.pendingTimeouts.sortedPairs mapping = .ok tc)
    (highCertificateQcRound epoch : Nat) :
    Reached env T s₀ round { s with
      pacemaker := .entered epoch (.tc tc)
      safety := s.safety.processCertificate (.tc tc)
      log := s.log ++ ((enterCommands env epoch (.tc tc)).flatMap
        (fromPacemakerCommand env highCertificateQcRound) ++
          [.createdTc tc s.pacemaker.pendingTimeouts.sortedPairs validators mapping]) } := by
  subst hround
  exact h.step (.buildTc hlookup hmaj hnew (fromPacemakerCommand_enter_quiet _ _ _)) rfl

lemma processRemoteTimeout {epoch : Nat}
    (hsent : T.sent author (.timeout t)) (hmsg : T.message round (.timeout t))
    (hround : t.tminfo.round ≤ round) (hqc : t.highExtend.getQc.getRound < round)
    (hlookup : env.valEpochMap.lookup epoch = some (validators, mapping)) :
    wp (processRemoteTimeout env validators mapping author t)
      (fun _ s' => Reached env T s₀ round s') Unasserted s := by
  simp only [ConsensusState.processRemoteTimeout, wp_bind, wp_get, wp_set, wp_record]
  refine wp_of_ends (processRemoteTimeout_spec h.ok.vote_le) ?_ fun _ he =>
    he (le_trans hround h.round_le)
  rintro ⟨cmds, built, pacemaker, safety⟩ hprocess
  have hcollect (hcurrent : t.tminfo.round = s.getCurrentRound) : Reached env T s₀ round
      { s with pacemaker := { s.pacemaker with
          pendingTimeouts := s.pacemaker.pendingTimeouts.insert author t } } :=
    h.step (.collectTimeout hsent (Trust.message_mono hmsg h.round_le) hcurrent
      (lt_of_lt_of_le hqc h.round_le)) rfl
  cases hprocess with
  | ignored =>
    simpa only [flatMap_nil, Option.toList_none, map_nil, append_nil] using h
  | collected hcurrent hjoin hdrop =>
    have hend := ((hcollect hcurrent).joined hjoin).dropped hdrop
    simpa only [Option.toList_none, map_nil, append_nil] using hend
  | @built _ _ _ _ _ epoch' hcurrent hjoin hdrop hmaj hnew =>
    have hhigh := hdrop.highCertificate_eq.trans hjoin.highCertificate_eq
    have hend := (((hcollect hcurrent).joined hjoin).dropped hdrop).built hlookup hmaj ?_ hnew
      s.safety.highCertificateQcRound epoch'
    · simpa only [flatMap_append, Option.toList_some, map_cons, map_nil, append_assoc] using hend
    · rw [hcurrent, getCurrentRound, Pacemaker.getCurrentRound, Pacemaker.getCurrentRound, hhigh]

end

/-- The certificates in a timeout bring the node to its round before the pacemaker sees
it. -/
theorem handleTimeoutMessage (hsent : T.sent author (.timeout t))
    (hmsg : T.message round (.timeout t)) :
    Keeps (Reached env T s₀ round) Unasserted (handleTimeoutMessage env author t) := by
  refine keeps_get fun s h => ?_
  split
  · exact h
  rw [wp_bind]
  refine wp_validatorsAt fun epoch validators mapping hlookup => ?_
  simp only [wp_bind]
  obtain ⟨_, henters, hext, hlast⟩ := id hmsg
  have hqc : T.qc t.highExtend.getQc := by
    rw [← t.highExtend.getQc_toHighExtend]
    exact Trust.qc_of_highExtend hext
  refine wp_weaken (h.processQc (.inl hqc)) fun _ s1 h1 => ?_
  refine wp_weaken (handleTimeoutVote hsent s1 h1) fun _ s2 h2 => ?_
  generalize hround : max round (t.highExtend.getQc.getRound + 1) = round2 at h2
  have hend {round3 : Nat} {s3 : ConsensusState K} (h3 : Reached env T s₀ round3 s3)
      (hle : round2 ≤ round3) (hreached : t.tminfo.round ≤ round3) :
      wp (ConsensusState.processRemoteTimeout env validators mapping author t)
        (fun _ s' => wp (ConsensusState.tryPropose env) (fun _ s' => Reached env T s₀ round s')
          Unasserted s') Unasserted s3 := by
    refine wp_weaken (h3.processRemoteTimeout hsent (Trust.message_mono hmsg (by omega)) hreached
      (by omega) hlookup) fun _ s4 h4 => ?_
    refine wp_weaken (tryPropose s4 h4) fun _ s5 h5 => h5.mono ?_
    have hround5 := h5.round_le
    omega
  have hnoLast : t.lastRoundCertificate = none → t.tminfo.round ≤ round2 := by
    intro hnone
    rcases henters with hle | heq | ⟨c, hc, _⟩
    · omega
    · omega
    · rw [hnone] at hc
      cases hc
  cases hcert : t.lastRoundCertificate with
  | none => exact hend h2 le_rfl (hnoLast hcert)
  | some c =>
    refine wp_weaken (h2.handleLastRoundCertificate (hlast c hcert)) fun _ s3 h3 => ?_
    refine hend h3 (le_max_left _ _) ?_
    rcases henters with hle | heq | ⟨c', hc', heq⟩
    · omega
    · omega
    · rw [hcert] at hc'
      cases hc'
      omega

/-! ## Recovery -/

variable {m : RoundRecoveryMessage K}

/-- A node refuses at most one tip in a round, and none after its vote. -/
lemma noEndorse (h : Reached env T s₀ round s) {epoch : Nat}
    (hsent : T.sent author (.roundRecovery m))
    (hmsg : T.message s.getCurrentRound (.roundRecovery m)) (hround : m.round = s.getCurrentRound)
    (htip : m.tc.highExtend = .tip tip)
    (hvalidators : env.valEpochMap.getValSet epoch = some validators)
    (hleader : author = env.getLeader s.getCurrentRound validators) :
    wp (noEndorse env author epoch m.round tip) (fun _ s' => Reached env T s₀ round s')
      Unasserted s := by
  simp only [ConsensusState.noEndorse, wp_bind, wp_get]
  split
  · next hsafe =>
    rw [Safety.noEndorse_of_safe _ hsafe]
    exact h.step (.refuse hsent hmsg hround htip hvalidators hleader hsafe) rfl
  · exact h

lemma handleRoundRecoveryMessage
    (hsent : T.sent author (.roundRecovery m)) (hmsg : T.message round (.roundRecovery m)) :
    Keeps (Reached env T s₀ round) Unasserted (handleRoundRecoveryMessage env author m) := by
  refine keeps_get fun s h => ?_
  split
  · rfl
  next epoch _ =>
  split
  · rfl
  next validators hvalidators =>
  simp only [wp_bind, wp_get]
  refine wp_weaken (h.processTc hmsg.2) fun _ s1 h1 => ?_
  have h1 := h1.of_max
  split
  · exact h1
  next hcurrent =>
  push Not at hcurrent
  split
  · exact h1
  next tip htip =>
  split
  · exact h1
  · exact h1.noEndorse hsent (Trust.message_mono hmsg h1.round_le) hcurrent.1 htip hvalidators
      hcurrent.2

lemma handleNoEndorsementMessage {msg : NoEndorsementMessage K}
    (hsent : T.sent author (.noEndorsement msg)) :
    Keeps (Reached env T s₀ round) Unasserted (handleNoEndorsementMessage env author msg) := by
  refine keeps_get fun s h => ?_
  split
  · exact h
  next hge =>
  split
  · exact h
  next hle =>
  rw [wp_bind]
  refine wp_validatorsAt fun epoch validators mapping hlookup => ?_
  simp only [collectNoEndorsement, wp_bind, wp_get, wp_lift, wp_set, wp_record, wp_pure]
  refine ⟨?_, fun p hp => ?_⟩
  · rintro ⟨nec, noEndorsementState⟩ hprocess
    have h1 := h.step (.noEndorsement hsent (le_antisymm (Nat.le_of_not_lt hle)
      (Nat.le_of_not_lt hge)) hlookup hprocess) rfl
    cases nec with
    | none => exact h1
    | some nec => exact tryPropose _ h1
  · -- the certificate slot of a round that is still collected is empty
    exact collectLoop_ends.error (NoEndorsementState.processNoEndorsement_spec hp h.ok.certified)

/-! ## The other messages and inputs -/

lemma handleAdvanceRoundMessage {msg : AdvanceRoundMessage K}
    (hmsg : T.message round (.advanceRound msg)) :
    Keeps (Reached env T s₀ round) Unasserted (handleAdvanceRoundMessage env msg) := by
  intro s h
  have hcert : T.roundCertificate msg.lastRoundCertificate := hmsg
  unfold ConsensusState.handleAdvanceRoundMessage
  cases hc : msg.lastRoundCertificate with
  | tc tc =>
    rw [hc] at hcert
    exact wp_weaken (h.processTc hcert) fun _ _ => of_max
  | qc qc =>
    rw [hc] at hcert
    simp only [wp_bind, wp_get]
    split
    · exact h
    simp only [wp_bind, wp_get, wp_lift, wp_emit]
    refine wp_weaken (h.processQc (.inl hcert)) fun _ s1 h1 => ?_
    have h1 := h1.of_max
    refine ⟨fun leader _ => ?_, fun _ => unasserted_of_leaderOf⟩
    exact leading.background _ _ h1 (.quiet h1.ok.tree (by simp [isQuiet]))

lemma addSyncedBlocks (hblocks : ∀ b ∈ fullBlocks, T.block b.getQc) :
    Keeps (Reached env T s₀ round) Unasserted (addSyncedBlocks env fullBlocks) := by
  induction fullBlocks with
  | nil => exact keeps_pure ()
  | cons fullBlock rest ih =>
    have ih := ih fun b hb => hblocks b (mem_cons_of_mem _ hb)
    refine keeps_get fun s h => ?_
    split
    · exact ih s h
    rw [wp_bind]
    refine wp_weaken (h.validateBlock fullBlock.header fullBlock.body) ?_
    rintro (_ | block) s1 ⟨rfl, hheader⟩
    · exact h
    · rw [wp_bind]
      refine wp_weaken (h.tryAddAndCommitBlocktree ?_ fun _ hx => by cases hx) fun _ s2 h2 =>
        ih s2 h2
      have hqc : block.getQc = fullBlock.getQc := by
        have heq := hheader block rfl
        change block.header.qc = fullBlock.header.qc
        rw [heq]
      rw [hqc]
      exact hblocks fullBlock mem_cons_self

lemma handleBlockSync {blockRange : BlockRange K} (hblocks : ∀ b ∈ fullBlocks, T.block b.getQc) :
    Keeps (Reached env T s₀ round) Unasserted (handleBlockSync env blockRange fullBlocks) := by
  refine keeps_get fun s h => ?_
  split
  · simp only [wp_bind, wp_modify]
    refine wp_weaken (addSyncedBlocks hblocks s h) fun _ s1 h1 => ?_
    exact leading.background _ _ h1 (.silent h1.ok.tree)
  · exact h

/-- Handling a message takes elementary steps, and no assertion of the round state
machine fails. -/
theorem handleMessage {m : ProtocolMessage K} (hsent : T.sent author m) (hmsg : T.message round m) :
    Keeps (Reached env T s₀ round) Unasserted (handleMessage env author m) := by
  cases m with
  | proposal _ => exact handleProposalMessage hsent hmsg
  | vote _ => exact handleVoteMessage (.inl hsent)
  | timeout _ => exact handleTimeoutMessage hsent hmsg
  | roundRecovery _ => exact handleRoundRecoveryMessage hsent hmsg
  | noEndorsement _ => exact handleNoEndorsementMessage hsent
  | advanceRound _ => exact handleAdvanceRoundMessage hmsg

end Reached

end ConsensusState

end Kinet
