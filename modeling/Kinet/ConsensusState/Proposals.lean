import Kinet.Consensus.Validity
import Kinet.ConsensusState.MockNode

/-!
# Fresh proposals and reproposals

A proposal is meant to carry a block of its own round, or the tip that the timeout
certificate of the previous round reports.  Validation compares the rounds only if that
certificate reports a tip.  Otherwise the block's round is that of the certificate that
permits the block, and nothing ties this one to the proposal.

Main results:

- `ProposalMessage.fresh_or_reproposed`: an accepted proposal carries a fresh block or a
  reproposed tip exactly if its certificates are for its round.
- `Mock.accepted_stale_tip`: a block of an earlier round is accepted after
  a timeout certificate that does not report it.
-/

namespace Kinet

variable {K : TypeParams} {S : SignatureScheme K} {lookup : EpochToValidators K}

/-- The round for which a certificate permits a block. -/
def FreshProposalCertificate.permits : FreshProposalCertificate K → Nat
  | .nec c => c.msg.round
  | .noTip c => c.round + 1

/-- A tip directly extends its certificate, or else has a permission for its round. -/
lemma checkTip_fresh {tip : ConsensusTip K} (h : checkTip S lookup tip = .ok ()) :
    (tip.freshCertificate = none ∧ tip.blockHeader.blockRound = tip.blockHeader.qc.getRound + 1) ∨
    ∃ f, tip.freshCertificate = some f ∧ f.permits = tip.blockHeader.blockRound ∧
      tip.blockHeader.blockRound ≠ tip.blockHeader.qc.getRound + 1 := by
  unfold checkTip at h
  rw [Effect.bind_eq_ok] at h
  obtain ⟨⟨_, _, leader⟩, -, h⟩ := h
  dsimp only at h
  split at h
  · cases h
  split_ifs at h with _ hround hsome
  · rw [Option.not_isSome_iff_eq_none] at hsome
    exact .inl ⟨hsome, Round.immediatelyFollows_iff.mp hround⟩
  · have hskips := mt Round.immediatelyFollows_iff.mpr hround
    split at h
    · cases h
    · next nec hfresh =>
      split_ifs at h with hpermits
      exact .inr ⟨_, hfresh, not_not.mp hpermits, hskips⟩
    · next noTip hfresh =>
      split_ifs at h with hpermits
      rw [Bool.not_eq_true', Round.immediatelyFollows_eq_false_iff, not_not] at hpermits
      exact .inr ⟨_, hfresh, hpermits.symm, hskips⟩

/-! ## Rounds in timeout certificates -/

/-- Round of the certificate that a timeout reports. -/
def HighExtendRank.qcRound : HighExtendRank → Nat
  | .tip _ q => q
  | .qc q => q

lemma HighTipRoundSigColTuple.qcRound_rank (t : HighTipRoundSigColTuple K) :
    t.rank.qcRound = t.highQcRound := by
  unfold rank rankOfRounds
  split <;> rfl

/-- The reports of a certificate for `round` carry certificates of earlier rounds. -/
lemma checkTipRounds_qcRound_le {mapping : ValidatorMapping K} {epoch round : Nat}
    {tipRounds : List (HighTipRoundSigColTuple K)} {seen : List (Nat × Nat)}
    {nodeIds ids : List K.NodeId} {highest rank : HighExtendRank}
    (h : checkTipRounds S mapping epoch round tipRounds seen nodeIds highest = .ok (ids, rank))
    (hhighest : highest.qcRound ≤ round) : rank.qcRound ≤ round := by
  induction tipRounds generalizing seen nodeIds highest with
  | nil =>
    cases h
    exact hhighest
  | cons t rest ih =>
    unfold checkTipRounds at h
    by_cases hround : round ≤ t.highQcRound
    · simp [hround] at h
    have hrank : t.rank.qcRound ≤ round := by
      rw [t.qcRound_rank]
      omega
    repeat' split at h
    all_goals first | cases h | exact ih h hrank | exact ih h hhighest

lemma checkTcSigners_qcRound_le {tc : TimeoutCertificate K} {rank : HighExtendRank}
    (h : checkTcSigners S lookup tc = .ok rank) : rank.qcRound ≤ tc.round := by
  unfold checkTcSigners at h
  rw [Effect.bind_eq_ok] at h
  obtain ⟨⟨validators, mapping, _⟩, -, h⟩ := h
  dsimp only at h
  split at h
  · cases h
  rw [Effect.bind_eq_ok] at h
  obtain ⟨⟨nodeIds, highest⟩, hrounds, h⟩ := h
  rw [Effect.unit_bind_eq_ok] at h
  cases h.2
  exact checkTipRounds_qcRound_le hrounds (Nat.zero_le _)

variable (S lookup)

/-- Tips that pass their check, and timeout certificates that report certificates of
earlier rounds. -/
def Trust.rounds : Trust K where
  qc _ := True
  block _ := True
  block_of_qc _ h := h
  nec _ := True
  tc tc := tc.highExtend.getQc.getRound ≤ tc.round
  header tip := checkTip S lookup tip = .ok ()
  sent _ _ := True

variable {S lookup}

lemma Trust.accepts_rounds : (Trust.rounds S lookup).Accepts S lookup where
  qc _ _ _ := trivial
  nec _ _ := trivial
  header _ h := h
  tc tc h _ := by
    have hrank : tc.highExtend.rank.qcRound = tc.highExtend.getQc.getRound := by
      cases tc.highExtend <;> rfl
    exact (hrank ▸ checkTcSigners_qcRound_le h :)

/-! ## Proposals -/

namespace ProposalMessage

variable {epochManager : EpochManager} {p : ProposalMessage K} {c : CertificateCache K}

/-- What the certificates of a proposal have to be for its block to be fresh or reproposed.  They
are compared with each other only: a block after a certified one needs no permission, and after
a timeout that reports no tip there is a permission for the next round. -/
def CertifiesRound (p : ProposalMessage K) : Prop :=
  match p.lastRoundTc with
  | none => p.tip.freshCertificate = none
  | some tc =>
    match tc.highExtend with
    | .tip _ => True
    | .qc _ => ∃ f, p.tip.freshCertificate = some f ∧ f.permits = tc.round + 1

lemma wellFormedProposal_cases (h : p.wellFormedProposal = .ok ()) :
    (p.lastRoundTc = none ∧ p.proposalRound = p.tip.blockHeader.qc.getRound + 1) ∨
    ∃ tc, p.lastRoundTc = some tc ∧ p.proposalRound = tc.round + 1 ∧
      p.proposalRound ≠ p.tip.blockHeader.qc.getRound + 1 ∧
      tc.highExtend.getQc.getRound = p.tip.blockHeader.qc.getRound ∧
      ∀ tip, tc.highExtend = .tip tip →
        tip = p.tip ∨ p.proposalRound = p.tip.blockHeader.blockRound := by
  unfold wellFormedProposal at h
  repeat' split at h
  all_goals simp_all [HighExtend.getQc]

/-- Without a timeout the proposal's round follows the certificate, so that its block is of this
round exactly if it needs no permission. -/
lemma certifiesRound_iff_of_none (hlast : p.lastRoundTc = none)
    (hnext : p.proposalRound = p.tip.blockHeader.qc.getRound + 1)
    (htip : checkTip S lookup p.tip = .ok ()) :
    (p.tip.blockHeader.blockRound = p.proposalRound ∨
      ∃ tc, p.lastRoundTc = some tc ∧ tc.highExtend = .tip p.tip) ↔ p.CertifiesRound := by
  simp only [CertifiesRound, hlast, hnext, reduceCtorEq, false_and, exists_false, or_false]
  rcases checkTip_fresh htip with ⟨hnone, hround⟩ | ⟨f, hf, -, hskips⟩
  · exact iff_of_true hround hnone
  · exact iff_of_false hskips (by simp [hf])

lemma certifiesRound_iff_of_some {tc : TimeoutCertificate K} (hlast : p.lastRoundTc = some tc)
    (hnext : p.proposalRound = tc.round + 1)
    (hskips : p.proposalRound ≠ p.tip.blockHeader.qc.getRound + 1)
    (htips : ∀ tip, tc.highExtend = .tip tip →
      tip = p.tip ∨ p.proposalRound = p.tip.blockHeader.blockRound)
    (htip : checkTip S lookup p.tip = .ok ()) :
    (p.tip.blockHeader.blockRound = p.proposalRound ∨
      ∃ tc, p.lastRoundTc = some tc ∧ tc.highExtend = .tip p.tip) ↔ p.CertifiesRound := by
  simp only [CertifiesRound, hlast, Option.some.injEq, exists_eq_left']
  cases hextend : tc.highExtend with
  | tip tcTip =>
    refine iff_of_true ?_ trivial
    rcases htips tcTip hextend with rfl | hround
    · exact .inr rfl
    · exact .inl hround.symm
  | qc tcQc =>
    simp only [reduceCtorEq, or_false]
    rcases checkTip_fresh htip with ⟨hnone, hround⟩ | ⟨f, hf, hround, -⟩
    · exact iff_of_false (by omega) (by simp [hnone])
    · simp only [hf, Option.some.injEq, exists_eq_left', hround, hnext]

/-- An accepted proposal carries a certificate of an earlier round.  It carries a block of its
round or the tip that the last timeout certificate reports exactly if its certificates are
for its round. -/
theorem fresh_or_reproposed (hc : ∀ tc ∈ c.tcs, tc.highExtend.getQc.getRound ≤ tc.round)
    (h : ((p.validate S lookup epochManager).exec c).1 = .ok ()) :
    p.tip.blockHeader.qc.getRound < p.proposalRound ∧
    ((p.tip.blockHeader.blockRound = p.proposalRound ∨
      ∃ tc, p.lastRoundTc = some tc ∧ tc.highExtend = .tip p.tip) ↔ p.CertifiesRound) := by
  have hcaches : (Trust.rounds S lookup).Caches c := ⟨fun _ _ => trivial, hc, fun _ _ => trivial⟩
  obtain ⟨hwf, htip, htcs⟩ := (Trust.accepts_rounds.validateProposal p 0 c hcaches).2 _ h
  rcases wellFormedProposal_cases hwf with ⟨hlast, hnext⟩ | ⟨tc, hlast, hnext, hskips, hqc, htips⟩
  · exact ⟨by omega, certifiesRound_iff_of_none hlast hnext htip.header⟩
  · have htc : tc.highExtend.getQc.getRound ≤ tc.round := htcs tc hlast
    exact ⟨by omega, certifiesRound_iff_of_some hlast hnext hskips htips htip.header⟩

end ProposalMessage

namespace Mock

/-- Rounds from 0 on are of epoch 1. -/
def epochs : EpochManager := ⟨1000, 10, (∅ : FiniteMap Nat Nat).insert 1 0, Nat.zero_lt_succ 999⟩

/-- A block of round 1, after the genesis block. -/
def firstTip : ConsensusTip mockTypes := tip (header 1 1 genesisQc [1]) none

/-- In round 2, after the timeout of round 1, the block of round 2 is accepted. -/
theorem fresh_or_reproposed_second : secondTip.blockHeader.blockRound = 2 ∨
      ∃ tc, some firstTc = some tc ∧ tc.highExtend = .tip secondTip :=
  (@ProposalMessage.fresh_or_reproposed _ multiSig (epochToValidators node0 epochs) epochs
    ⟨2, 1, secondTip, [2], some firstTc⟩ .empty (fun _ h => by cases h) (by decide +kernel)).2.mpr
    ⟨_, rfl, rfl⟩

/-- The timeout certificate of round 1 reports no tip, but in round 2 the block of round 1 is
accepted after it. -/
theorem accepted_stale_tip :
    ((ProposalMessage.validate multiSig (epochToValidators node0 epochs) epochs
        ⟨2, 1, firstTip, [1], some firstTc⟩).exec .empty).1 = .ok () ∧
      firstTip.blockHeader.blockRound = 1 ∧ firstTc.highExtend = .qc genesisQc := by
  decide +kernel

end Mock

end Kinet
