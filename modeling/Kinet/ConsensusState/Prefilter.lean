import Kinet.ConsensusState.Runs

/-!
# The prefilter

A message of an earlier round is dropped before its signatures are verified.  Had it
been validated and handled, the node would not have changed either.

Main results:

- `Node.handleMessage_of_prefilter`: handling a valid message that the
  prefilter rejects changes nothing.
-/

namespace Kinet

open ConsensusState ProtocolMessage Mock

variable {K : TypeParams}

namespace Trust

variable {S : SignatureScheme K} {lookup : EpochToValidators K} {epochManager : EpochManager}

lemma ensures_any {α : Type} (m : ValidateM K α) : any.Ensures m fun _ => True :=
  fun _ _ => ⟨⟨fun _ _ => trivial, fun _ _ => trivial, fun _ _ => trivial⟩, fun _ _ => trivial⟩

lemma validateTimeout_tminfo (t : Timeout K) (currentRound : Nat) :
    any.Ensures (t.validate S lookup epochManager currentRound) fun t' =>
      t'.tminfo = t.tminfo := by
  unfold Timeout.validate
  split
  · exact ensures_throw
  refine (ensures_any _).bind fun _ _ => (ensures_any _).bind fun _ _ => ?_
  split
  · exact (ensures_any _).bind fun _ _ => ensures_pure rfl
  · dsimp only
    cases t.lastRoundCertificate with
    | some c =>
      exact (ensures_any _).bind fun _ _ => (ensures_any _).bind fun _ _ => ensures_pure rfl
    | none => exact (ensures_any _).bind fun _ _ => ensures_pure rfl

lemma validate_prefilter {env : Env K} (m : ConsensusMessage K) (rootInfo : Option (RootInfo K))
    (currentRound round : Nat) :
    any.Ensures (m.validate env epochManager currentRound) fun m' =>
      m'.prefilter rootInfo round = m.message.prefilter rootInfo round ∧
        m'.getRound = m.message.getRound := by
  unfold ConsensusMessage.validate
  split
  · exact ensures_throw
  cases hm : m.message with
  | timeout t =>
    refine (validateTimeout_tminfo t currentRound).bind fun t' ht' => ensures_pure ?_
    simp [prefilter, getRound, ht']
  | _ => exact (ensures_any _).bind fun _ _ => ensures_pure ⟨rfl, rfl⟩

end Trust

namespace ConsensusState

variable {env : Env K} {s : ConsensusState K}

lemma processTc_of_round_lt {tc : TimeoutCertificate K} (h : tc.round < s.getCurrentRound) :
    processTc env tc s = .ok ((), s) := by
  change (if tc.round < s.getCurrentRound then pure () else _ : ConsensusM K Unit) s = _
  rw [if_pos h]
  rfl

variable {author : K.NodeId}

lemma handleProposalMessage_of_round_le {p : ProposalMessage K}
    (h : p.proposalRound ≤ s.pendingBlockTree.root.info.round) :
    handleProposalMessage env author p s = .ok ((), s) := by
  change (if p.proposalRound ≤ s.pendingBlockTree.root.info.round then pure () else _ :
    ConsensusM K Unit) s = _
  rw [if_pos h]
  rfl

lemma handleVoteMessage_of_round_lt {m : VoteMessage K} (h : m.vote.round < s.getCurrentRound) :
    handleVoteMessage env author m s = .ok ((), s) := by
  change (if m.vote.round < s.getCurrentRound then pure () else _ : ConsensusM K Unit) s = _
  rw [if_pos h]
  rfl

lemma handleTimeoutMessage_of_round_lt {t : Timeout K} (h : t.tminfo.round < s.getCurrentRound) :
    handleTimeoutMessage env author t s = .ok ((), s) := by
  change (if t.tminfo.round < s.getCurrentRound then pure () else _ : ConsensusM K Unit) s = _
  rw [if_pos h]
  rfl

/-- A recovery request of an earlier round carries a certificate of an earlier round. -/
lemma handleRoundRecoveryMessage_of_round_lt {m : RoundRecoveryMessage K}
    (hround : m.round < s.getCurrentRound) (hwf : m.wellFormedRoundRecovery = .ok ()) {epoch : Nat}
    (hepoch : s.epochManager.getEpoch m.round = some epoch) {validators : ValidatorSet K}
    (hvalidators : env.valEpochMap.getValSet epoch = some validators) :
    handleRoundRecoveryMessage env author m s = .ok ((), s) := by
  obtain ⟨htc, -⟩ := RoundRecoveryMessage.wellFormedRoundRecovery_eq_ok.mp hwf
  have hprocess : processTc env m.tc s = .ok ((), s) := processTc_of_round_lt (by omega)
  conv_lhs => whnf
  rw [hepoch]
  conv_lhs => whnf
  rw [hvalidators]
  change (processTc env m.tc s >>= fun r => _) = _
  rw [hprocess]
  change (if m.round ≠ s.getCurrentRound ∨ _ then pure () else _ : ConsensusM K Unit) s = _
  rw [if_pos (Or.inl (ne_of_lt hround))]
  rfl

lemma handleNoEndorsementMessage_of_round_lt {m : NoEndorsementMessage K}
    (h : m.msg.round < s.getCurrentRound) :
    handleNoEndorsementMessage env author m s = .ok ((), s) := by
  change (if m.msg.round < s.getCurrentRound then pure () else _ : ConsensusM K Unit) s = _
  rw [if_pos h]
  rfl

lemma handleAdvanceRoundMessage_of_round_lt {m : AdvanceRoundMessage K}
    (h : m.lastRoundCertificate.round < s.getCurrentRound) :
    handleAdvanceRoundMessage env m s = .ok ((), s) := by
  unfold handleAdvanceRoundMessage
  cases hcert : m.lastRoundCertificate with
  | tc tc =>
    rw [hcert] at h
    exact processTc_of_round_lt h
  | qc qc =>
    rw [hcert] at h
    change qc.getRound < s.getCurrentRound at h
    change (if qc.getRound < s.getCurrentRound then pure () else _ : ConsensusM K Unit) s = _
    rw [if_pos h]
    rfl

end ConsensusState

namespace Node

variable {env : Env K} {n : Node K} {author : K.NodeId} {m : ConsensusMessage K}
  {m' : ProtocolMessage K}

section

variable (h : n.Validates env author m m')
include h

lemma Validates.message : (Trust.any : Trust K).message n.state.getCurrentRound m' :=
  ((Trust.any_accepts _ _).validate m n.state.getCurrentRound n.certCache
    ⟨fun _ _ => trivial, fun _ _ => trivial, fun _ _ => trivial⟩).2 m' h.2

lemma Validates.prefilter (rootInfo : Option (RootInfo K)) (round : Nat) :
    m'.prefilter rootInfo round = m.message.prefilter rootInfo round ∧
      m'.getRound = m.message.getRound :=
  (Trust.validate_prefilter m rootInfo n.state.getCurrentRound round n.certCache
    ⟨fun _ _ => trivial, fun _ _ => trivial, fun _ _ => trivial⟩).2 m' h.2

lemma Validates.validators :
    ∃ epoch validators, n.state.epochManager.getEpoch m'.getRound = some epoch ∧
      env.valEpochMap.getValSet epoch = some validators := by
  have hverify := h.1
  rw [(h.prefilter none 0).2]
  unfold ConsensusMessage.verify at hverify
  split at hverify
  · cases hverify
  next epoch hepoch =>
    split at hverify
    · cases hverify
    next validators hvalidators => exact ⟨epoch, validators, hepoch, hvalidators⟩

end

/-- If the prefilter rejects a message that a node would validate, then handling it leaves
the node's consensus state as it is, without a command. -/
theorem handleMessage_of_prefilter {e : PrefilterError} (hvalid : n.Validates env author m m')
    (hreject : m.message.prefilter (some n.state.pendingBlockTree.root.info)
      n.state.getCurrentRound = .error e) :
    ConsensusState.handleMessage env author m' n.state = .ok ((), n.state) := by
  rw [← (hvalid.prefilter _ _).1] at hreject
  have hmessage := hvalid.message
  obtain ⟨epoch, validators, hepoch, hvalidators⟩ := hvalid.validators
  cases m' with
  | proposal p =>
    exact handleProposalMessage_of_round_le (by grind [prefilter])
  | vote v => exact handleVoteMessage_of_round_lt (by grind [prefilter])
  | timeout t =>
    exact handleTimeoutMessage_of_round_lt (by grind [prefilter])
  | roundRecovery r =>
    exact handleRoundRecoveryMessage_of_round_lt
      (by grind [prefilter]) hmessage.1 hepoch hvalidators
  | noEndorsement r =>
    exact handleNoEndorsementMessage_of_round_lt (by grind [prefilter])
  | advanceRound a =>
    exact handleAdvanceRoundMessage_of_round_lt (by grind [prefilter])

def validates (env : Env K) (n : Node K) (author : K.NodeId) (m : ConsensusMessage K)
    (m' : ProtocolMessage K) : Bool :=
  match m.verify env n.state.epochManager author,
      ((m.validate env n.state.epochManager n.state.getCurrentRound).exec n.certCache).1 with
  | .ok (), .ok message => decide (message = m')
  | _, _ => false

lemma validates_of_eq_true (h : n.validates env author m m' = true) :
    n.Validates env author m m' := by
  unfold validates at h
  split at h
  · next hverify hvalidate => exact ⟨hverify, by rw [hvalidate, of_decide_eq_true h]⟩
  · cases h

/-- In round 6 the recovery request of round 4 is dropped; its certificate of round 3 for
a tip is valid. -/
theorem handleMessage_of_prefilter_recovery : ∃ n, (init 1000 10 (by decide)).run node0
        [.receive 3 (advanceRound (.qc (qc .genesis 5 [1, 2, 3]))), .handle 0] = .ok n ∧
      n.state.getCurrentRound = 6 ∧
      ConsensusState.handleMessage node0 3 (.roundRecovery ⟨4, 1, hiddenTc⟩) n.state =
        .ok ((), n.state) := by
  have hcheck : (init 1000 10 (by decide)).runSatisfies node0
      [.receive 3 (advanceRound (.qc (qc .genesis 5 [1, 2, 3]))), .handle 0]
      (fun n => decide (n.state.getCurrentRound = 6) && n.validates node0 3
        ⟨1, .roundRecovery ⟨4, 1, hiddenTc⟩⟩ (.roundRecovery ⟨4, 1, hiddenTc⟩)) =
        true := by
    decide +kernel
  obtain ⟨n, hrun, hn⟩ := NodeInit.exists_of_runSatisfies hcheck
  rw [Bool.and_eq_true, decide_eq_true_eq] at hn
  obtain ⟨hround, hvalidates⟩ := hn
  refine ⟨n, hrun, hround, ?_⟩
  refine handleMessage_of_prefilter (validates_of_eq_true hvalidates)
    (e := .outdatedRoundRecovery) ?_
  rw [hround]
  rfl

end Node

end Kinet
