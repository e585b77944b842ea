import Kinet.ConsensusState.VoteSafety

/-!
# Certificates across nodes

The honest validators run nodes whose signatures are not forged; the others hold less
than a third of the stake.

Main results:

- `NodeInit.run_timeouts_agree`: no run signs two reports for a round.
- `Network.certified_unique`: a round certifies one block.
- `Network.certified_reported`: a timeout certificate ranks no lower than a block
  certified in its round.
-/

namespace Kinet

open List Event Mock Safety

variable {K : TypeParams}

/-! ## Reports of timeouts -/

lemma Event.eq_timedOut_of_mem_statements {e : Event K} {info : TimeoutInfo}
    (h : .timeout info ∈ e.statements) :
    ∃ highExtend safeToVote qcRound, e = .timedOut info highExtend safeToVote qcRound := by
  cases e with
  | timedOut info' highExtend safeToVote qcRound =>
    have hinfo : info = info' := by
      cases highExtend <;> cases safeToVote <;> simpa [statements] using h
    exact ⟨highExtend, safeToVote, qcRound, by rw [hinfo]⟩
  | cast _ _ _ | refused _ _ => simp [statements] at h
  | _ => cases h

namespace Voter

variable {T : Trust K} {v v' : Voter K} {e : Event K} {info : TimeoutInfo} {q : Nat}

/-- What a timeout reports: its rank, and the round of the highest certificate. -/
def report (v : Voter K) : HighExtendRank × Nat :=
  (v.highExtend.rank, v.safety.highCertificateQcRound)

/-- The report is for the block, unless a certificate of the block's round or later is known. -/
def ReportedAs (id : BlockId K) (report : HighExtendRank × Nat) : Prop :=
  ∃ tip : ConsensusTip K, tip.blockHeader.getId = id ∧
    (report.1 = (HighExtend.tip tip).rank ∨ tip.blockHeader.blockRound ≤ report.2)

def TimedOut (v : Voter K) (info : TimeoutInfo) (qcRound : Nat) : Prop :=
  ∃ highExtend safeToVote, timedOut info highExtend safeToVote qcRound ∈ v.history

/-- The timeouts of each round give its report, and its votes are reported. -/
structure Reports (v : Voter K) (reports : Nat → HighExtendRank × Nat) : Prop where
  tip_pos : ∀ tip, v.safety.maybeHighTip = some tip → tip.blockHeader.blockRound ≠ genesisRound
  now : reports v.round = v.report
  timedOut : ∀ info q, v.TimedOut info q →
    info.round ≤ v.round ∧ reports info.round = (info.rank, q)
  closed : ∀ info q, v.TimedOut info q → info.round = v.round → v.round ≤ v.safety.highestVote
  voted : ∀ x, v.Voted x → ReportedAs x.id (reports x.round)

variable {c : RoundCertificate K} {safety : Safety K} {R : Nat → HighExtendRank × Nat}

lemma timedOut_append (h : (Voter.mk c safety (v.history ++ [e])).TimedOut info q) :
    v.TimedOut info q ∨ ∃ highExtend safeToVote, e = .timedOut info highExtend safeToVote q := by
  simpa [TimedOut, exists_or, eq_comm] using h

lemma timedOut_of_ne (hne : ∀ highExtend safeToVote, e ≠ .timedOut info highExtend safeToVote q)
    (h : (Voter.mk c safety (v.history ++ [e])).TimedOut info q) : v.TimedOut info q := by
  rcases timedOut_append h with hold | ⟨highExtend, safeToVote, heq⟩
  · exact hold
  · exact absurd heq (hne highExtend safeToVote)

lemma Reports.rank_timeoutInfo (hv : v.Reports R) (epoch : Nat) :
    (v.timeoutInfo epoch).rank = v.highExtend.rank := by
  cases hext : v.highExtend with
  | tip tip =>
    have hpos := hv.tip_pos tip (maybeHighTip_of_highExtend hext)
    simp [timeoutInfo, hext, TimeoutInfo.rank, rankOfRounds, HighExtend.rank, HighExtend.getQc, hpos]
  | qc qc =>
    simp [timeoutInfo, hext, TimeoutInfo.rank, rankOfRounds, HighExtend.rank, HighExtend.getQc]

/-- Every step of a voter keeps its timeouts in agreement with its votes. -/
theorem Step.reports (h : Step T v v') (hone : v.OneVote) (hv : v.Reports R) :
    ∃ R', v'.Reports R' := by
  cases h with
  | @enter c hround hcert =>
    -- nothing is of the new round yet
    have hlt : v.round < c.round + 1 := Nat.lt_succ_of_le hround
    refine ⟨Function.update R (c.round + 1) (report ⟨c, v.safety.processCertificate c, _⟩),
      fun tip htip => hv.tip_pos tip (maybeHighTip_processCertificate htip),
      Function.update_self .., fun info q h => ?_, fun info q h heq => ?_, fun x hx => ?_⟩
    · obtain ⟨hle, hreport⟩ := hv.timedOut info q h
      rw [Function.update_of_ne (hle.trans_lt hlt).ne]
      exact ⟨hle.trans hlt.le, hreport⟩
    · exact absurd heq ((hv.timedOut info q h).1.trans_lt hlt).ne
    · rw [Function.update_of_ne (((hone.voted_le x hx).trans hone.vote_le).trans_lt hlt).ne]
      exact hv.voted x hx
  | @cast author p epoch hsent hmsg hround hqc hsafe =>
    -- the round has no vote yet, and no timeout
    have hlt := lt_of_isSafeToVote hsafe
    refine ⟨Function.update R v.round (report ⟨_, v.safety.voted v.round p.tip, []⟩),
      fun tip htip => ?_, Function.update_self .., fun info q h => ?_, fun info q h heq => ?_,
      fun x hx => ?_⟩
    · simp only [Safety.voted] at htip
      split at htip
      · next hpos =>
        cases htip
        exact (Nat.zero_lt_of_lt hpos).ne'
      · cases htip
    · have hold := timedOut_of_ne (by simp) h
      rw [Function.update_of_ne fun heq => (hv.closed info q hold heq).not_gt hlt]
      exact hv.timedOut info q hold
    · exact absurd (hv.closed info q (timedOut_of_ne (by simp) h) heq) hlt.not_ge
    · rcases voted_append.mp hx with hx | hx
      · rw [Function.update_of_ne ((hone.voted_le x hx).trans_lt hlt).ne]
        exact hv.voted x hx
      · rw [vote_mem_cast.mp hx, Function.update_self]
        refine ⟨p.tip, rfl, ?_⟩
        simp only [report, Safety.voted, highExtend]
        split <;> simp_all
  | @timeout epoch hvote =>
    refine ⟨R, hv.tip_pos, hv.now, fun info q h => ?_, fun _ _ _ _ => le_rfl, fun x hx => ?_⟩
    · rcases timedOut_append h with hold | ⟨_, _, hnew⟩
      · exact hv.timedOut info q hold
      · cases hnew
        rw [hv.rank_timeoutInfo]
        exact ⟨le_rfl, hv.now⟩
    · rcases voted_append.mp hx with hx | hx
      · exact hv.voted x hx
      · obtain ⟨_, tip, hext, rfl⟩ := vote_mem_timedOut.mp hx
        refine ⟨tip, rfl, .inl ?_⟩
        rw [← hext]
        exact congrArg Prod.fst hv.now
  | refuse _ _ _ _ _ =>
    exact ⟨R, hv.tip_pos, hv.now, fun info q h => hv.timedOut info q (timedOut_of_ne (by simp) h),
      fun info q h => hv.closed info q (timedOut_of_ne (by simp) h),
      fun x hx => hv.voted x (voted_of_refused hx)⟩

lemma Steps.reports (h : Steps T v v') (hone : v.OneVote) (hv : v.Reports R) :
    ∃ R', v'.Reports R' := by
  induction h with
  | refl => exact ⟨R, hv⟩
  | tail hsteps hstep ih =>
    obtain ⟨R', hv'⟩ := ih
    exact hstep.reports (Steps.oneVote hsteps hone) hv'

lemma reports_new (c : RoundCertificate K) :
    (Voter.mk c (new c none).voting []).Reports fun _ => report ⟨c, (new c none).voting, []⟩ := by
  constructor <;> simp [TimedOut, Voted, new, voting]

end Voter

/-! ## Runs of a node -/

namespace NodeInit

variable {env : Env K} {init : NodeInit K} {n : Node K} {inputs : List (NodeInput K)}

/-- Each round of a run has one report, which the timeouts give and which is for its votes. -/
lemma run_reports (h : init.run env inputs = .ok n) : ∃ reports : Nat → HighExtendRank × Nat,
    (∀ info, .timeout info ∈ n.state.signed → ∃ q, n.state.voter.TimedOut info q ∧
      reports info.round = (info.rank, q)) ∧
    ∀ x, .vote x ∈ n.state.signed → Voter.ReportedAs x.id (reports x.round) := by
  obtain ⟨reports, hv⟩ := (run_voter h).reports (Voter.oneVote_new _) (Voter.reports_new _)
  refine ⟨reports, fun info hinfo => ?_, fun x hx => hv.voted x (run_signed h hx)⟩
  obtain ⟨e, he, hstatement⟩ := run_signed h hinfo
  obtain ⟨highExtend, safeToVote, q, rfl⟩ := eq_timedOut_of_mem_statements hstatement
  exact ⟨q, ⟨highExtend, safeToVote, he⟩, (hv.timedOut info q ⟨highExtend, safeToVote, he⟩).2⟩

/-- No run signs timeouts of one round that report differently. -/
theorem run_timeouts_agree (h : init.run env inputs = .ok n) {info info' : TimeoutInfo}
    (hinfo : .timeout info ∈ n.state.signed) (hinfo' : .timeout info' ∈ n.state.signed)
    (hround : info.round = info'.round) : info.rank = info'.rank := by
  obtain ⟨reports, htimeouts, _⟩ := run_reports h
  obtain ⟨q, _, hreport⟩ := htimeouts info hinfo
  obtain ⟨q', _, hreport'⟩ := htimeouts info' hinfo'
  rw [hround, hreport'] at hreport
  exact (congrArg Prod.fst hreport).symm

end NodeInit

/-! ## Groups of a timeout certificate -/

variable {S : SignatureScheme K} {mapping : ValidatorMapping K}

/-- Every signer of a timeout certificate signed the report of a group, and the result is
no lower than the report of any group. -/
lemma checkTipRounds_spec {epoch round : Nat} {tipRounds : List (HighTipRoundSigColTuple K)}
    {seen : List (Nat × Nat)} {nodeIds ids : List K.NodeId} {highest rank : HighExtendRank}
    (h : checkTipRounds S mapping epoch round tipRounds seen nodeIds highest = .ok (ids, rank)) :
    highest.Le rank ∧ (∀ t ∈ tipRounds, t.rank.Le rank) ∧ ∀ id ∈ ids, id ∈ nodeIds ∨
      ∃ t ∈ tipRounds, ∃ signers, id ∈ signers ∧ S.verify t.sigs mapping
        (.timeout ⟨epoch, round, t.highQcRound, t.highTipRound⟩) = .ok signers := by
  induction tipRounds generalizing seen nodeIds highest with
  | nil =>
    cases h
    exact ⟨HighExtendRank.le_refl _, by simp, fun id hid => .inl hid⟩
  | cons t rest ih =>
    unfold checkTipRounds at h
    have hmax : highest.Le (if t.rank.cmp highest = .gt then t.rank else highest) ∧
        t.rank.Le (if t.rank.cmp highest = .gt then t.rank else highest) := by
      split
      · next hgt =>
        rw [HighExtendRank.gt_iff_key_lt, ← HighExtendRank.lt_iff_key_lt] at hgt
        exact ⟨HighExtendRank.le_of_lt hgt, HighExtendRank.le_refl _⟩
      · next hle => exact ⟨HighExtendRank.le_refl _, hle⟩
    generalize (if t.rank.cmp highest = .gt then t.rank else highest) = highest' at h hmax
    repeat' split at h
    any_goals cases h
    next signers hverify hdup =>
    obtain ⟨hle, hrest, hids⟩ := ih h
    refine ⟨hmax.1.trans hle, ?_, fun id hid => ?_⟩
    · rintro t' (_ | ⟨_, ht'⟩)
      · exact hmax.2.trans hle
      · exact hrest t' ht'
    · rcases hids id hid with hid | ⟨t', ht', hsigned⟩
      · rcases mem_append.mp hid with hid | hid
        · exact .inl hid
        · exact .inr ⟨t, mem_cons_self, signers, hid, hverify⟩
      · exact .inr ⟨t', mem_cons_of_mem _ ht', hsigned⟩

/-- A timeout certificate that verifies is signed by a supermajority, each member in a
group, and reports no less than any group. -/
lemma checkTcSigners_spec {lookup : EpochToValidators K} {tc : TimeoutCertificate K}
    {rank : HighExtendRank} {validators : ValidatorSet K} {leader : K.NodeId}
    (hlookup : lookup tc.epoch tc.round = .ok (validators, mapping, leader))
    (h : checkTcSigners S lookup tc = .ok rank) : ∃ ids,
      validators.hasSuperMajorityVotes ids = .ok true ∧ ∀ id ∈ ids, ∃ t ∈ tc.tipRounds,
        t.rank.Le rank ∧ ∃ signers, id ∈ signers ∧ S.verify t.sigs mapping
          (.timeout ⟨tc.epoch, tc.round, t.highQcRound, t.highTipRound⟩) = .ok signers := by
  unfold checkTcSigners at h
  rw [hlookup, Effect.bind_eq_ok] at h
  obtain ⟨_, ⟨⟩, h⟩ := h
  dsimp only at h
  split at h
  · cases h
  rw [Effect.bind_eq_ok] at h
  obtain ⟨⟨ids, highest⟩, hrounds, h⟩ := h
  rw [Effect.unit_bind_eq_ok, checkSuperMajority_eq_ok] at h
  obtain ⟨hmaj, ⟨⟩⟩ := h
  obtain ⟨_, hle, hids⟩ := checkTipRounds_spec hrounds
  refine ⟨ids, hmaj, fun id hid => ?_⟩
  obtain ⟨t, ht, hsigned⟩ := (hids id hid).resolve_left not_mem_nil
  exact ⟨t, ht, hle t ht, hsigned⟩

/-! ## Networks -/

/-- Validators of one epoch.  The honest ones run nodes, the others hold less than a third
of the stake, and the signatures of honest validators are not forged. -/
structure Network (S : SignatureScheme K) (validators : ValidatorSet K)
    (mapping : ValidatorMapping K) where
  honest : K.NodeId → Bool
  minority : validators.ByzantineMinority honest
  node : K.NodeId → Node K
  runs : ∀ id, honest id = true → ∃ env init inputs, NodeInit.run env init inputs = .ok (node id)
  /-- the collections of signatures that occur -/
  occurs : K.SCT → SignedMessage K → Prop
  unforged : ∀ sct msg ids, occurs sct msg → S.verify sct mapping msg = .ok ids →
    ∀ id ∈ ids, honest id = true → msg ∈ (node id).state.signed

namespace Network

variable {validators : ValidatorSet K} (net : Network S validators mapping)
  {lookup : EpochToValidators K} {qc : QuorumCertificate K}

/-- A quorum certificate occurs and verifies. -/
def Certified (qc : QuorumCertificate K) : Prop :=
  net.occurs qc.signatures (.vote qc.info) ∧
    checkSignatures S validators mapping qc.signatures (.vote qc.info) = .ok ()

variable {net}

/-- Of any supermajority, an honest member has signed the vote of a certificate. -/
lemma Certified.exists_honest (h : net.Certified qc) {ids : List K.NodeId}
    (hmaj : validators.hasSuperMajorityVotes ids = .ok true) :
    ∃ id ∈ ids, net.honest id = true ∧ .vote qc.info ∈ (net.node id).state.signed := by
  obtain ⟨ids', hverify, hmaj'⟩ := checkSignatures_eq_ok.mp h.2
  rw [ValidatorSet.hasSuperMajorityVotes_eq_true_iff] at hmaj hmaj'
  obtain ⟨id, hid, hid', _, hhonest⟩ :=
    ValidatorSet.exists_honest_common net.minority hmaj.2 hmaj'.2
  exact ⟨id, mem_toFinset.mp hid, hhonest,
    net.unforged _ _ _ h.1 hverify id (mem_toFinset.mp hid') hhonest⟩

/-- Two certificates of one round are for the same block. -/
theorem certified_unique {qc' : QuorumCertificate K} (h : net.Certified qc)
    (h' : net.Certified qc') (hround : qc.getRound = qc'.getRound) : qc.info.id = qc'.info.id := by
  obtain ⟨ids, hverify, hmaj⟩ := checkSignatures_eq_ok.mp h'.2
  obtain ⟨id, hid, hhonest, hvote⟩ := h.exists_honest hmaj
  obtain ⟨env, init, inputs, hrun⟩ := net.runs id hhonest
  have hvote' := net.unforged _ _ _ h'.1 hverify id hid hhonest
  have hone := (NodeInit.run_voter hrun).oneVote (Voter.oneVote_new _)
  exact hone.unique _ _ (NodeInit.run_signed hrun hvote) (NodeInit.run_signed hrun hvote') hround

/-- A timeout certificate of the round in which a block was certified ranks no lower than
that block, unless an honest node timed out with a certificate that reaches the block. -/
theorem certified_reported {tc : TimeoutCertificate K} {leader : K.NodeId}
    (hlookup : lookup tc.epoch tc.round = .ok (validators, mapping, leader))
    (hqc : net.Certified qc) (htc : checkTcSigners S lookup tc = .ok tc.highExtend.rank)
    (hgroups : ∀ t ∈ tc.tipRounds, net.occurs t.sigs
      (.timeout ⟨tc.epoch, tc.round, t.highQcRound, t.highTipRound⟩))
    (hround : qc.getRound = tc.round) :
    ∃ tip : ConsensusTip K, tip.blockHeader.getId = qc.info.id ∧
      ((HighExtend.tip tip).rank.Le tc.highExtend.rank ∨
        ∃ id info q, net.honest id = true ∧ (net.node id).state.voter.TimedOut info q ∧
          info.round = tc.round ∧ tip.blockHeader.blockRound ≤ q) := by
  obtain ⟨ids, hmaj, hsigners⟩ := checkTcSigners_spec hlookup htc
  obtain ⟨id, hid, hhonest, hvote⟩ := hqc.exists_honest hmaj
  obtain ⟨t, ht, hle, signers, hsigner, hverify⟩ := hsigners id hid
  obtain ⟨env, init, inputs, hrun⟩ := net.runs id hhonest
  obtain ⟨reports, htimeouts, hvotes⟩ := NodeInit.run_reports hrun
  obtain ⟨q, htimedOut, hreport⟩ :=
    htimeouts _ (net.unforged _ _ _ (hgroups t ht) hverify id hsigner hhonest)
  obtain ⟨tip, hid, hreported⟩ := hvotes _ hvote
  rw [show qc.info.round = tc.round from hround, hreport] at hreported
  rcases hreported with hrank | hknown
  · exact ⟨tip, hid, .inl (hrank ▸ hle)⟩
  · exact ⟨tip, hid, .inr ⟨id, _, q, hhonest, htimedOut, rfl, hknown⟩⟩

end Network

/-! ## A round with a certificate of each kind -/

namespace Mock

/-- Four nodes that vote and time out alike. -/
def network (n : Node mockTypes) (h : (init 1000 10 (by decide)).run node0 repeatVote = .ok n) :
    Network multiSig (validators 1 Nat.one_pos) keys where
  honest _ := true
  minority := by
    unfold ValidatorSet.ByzantineMinority Quorum.FaultyMinority
    decide +kernel
  node _ := n
  runs _ _ := ⟨_, _, _, h⟩
  occurs _ msg := msg ∈ n.state.signed
  unforged _ _ _ hoccurs _ _ _ _ := hoccurs

/-- Another certificate of round 2, of other signers. -/
def otherQc : QuorumCertificate mockTypes := qc secondTip.blockHeader.getId 2 [0, 1, 2]

lemma exists_network : ∃ n hrun, (network n hrun).Certified secondQc ∧
    (network n hrun).Certified otherQc ∧ .timeout ⟨1, 2, 0, 2⟩ ∈ n.state.signed := by
  have hcheck : (init 1000 10 (by decide)).runSatisfies node0 repeatVote
      (fun n => decide (.vote secondQc.info ∈ n.state.signed ∧
        .timeout ⟨1, 2, 0, 2⟩ ∈ n.state.signed)) = true := by
    decide +kernel
  obtain ⟨n, hrun, hn⟩ := NodeInit.exists_of_runSatisfies hcheck
  obtain ⟨hvote, htimeout⟩ := of_decide_eq_true hn
  exact ⟨n, hrun, ⟨hvote, by decide +kernel⟩, ⟨hvote, by decide +kernel⟩, htimeout⟩

/-- A timeout certificate that reports the block certified in its round. -/
def secondTc : TimeoutCertificate mockTypes := tc 2 [⟨0, 2, [1, 2, 3]⟩] (.tip secondTip)

def lookup : EpochToValidators mockTypes := fun _ _ => .ok (validators 1 Nat.one_pos, keys, 3)

end Mock

/-- The timer of round 2 expires twice, and both timeouts that are signed report alike. -/
theorem NodeInit.run_timeouts_agree_repeated : ∃ n vote t t',
    (init 1000 10 (by decide)).run node0 (repeatVote ++ [.timeoutExpiry 2]) = .ok n ∧
      n.state.signed = [vote, .timeout t, vote, .timeout t', vote] ∧
      t.round = 2 ∧ t'.round = 2 ∧ t.rank = t'.rank := by
  have hcheck : (init 1000 10 (by decide)).runSatisfies node0 (repeatVote ++ [.timeoutExpiry 2])
      (fun n => decide (n.state.signed = [.vote secondQc.info, .timeout ⟨1, 2, 0, 2⟩,
        .vote secondQc.info, .timeout ⟨1, 2, 0, 2⟩, .vote secondQc.info])) = true := by
    decide +kernel
  obtain ⟨n, hrun, hsigned⟩ := NodeInit.exists_of_runSatisfies hcheck
  have hsigned := of_decide_eq_true hsigned
  refine ⟨n, _, _, _, hrun, hsigned, rfl, rfl, run_timeouts_agree hrun ?_ ?_ rfl⟩ <;>
    simp [hsigned]

namespace Network

/-- Certificates of round 2 by different signers are for one block. -/
theorem certified_unique_second : ∃ n hrun, (network n hrun).Certified secondQc ∧
    (network n hrun).Certified otherQc ∧ secondQc.signatures ≠ otherQc.signatures ∧
    secondQc.info.id = otherQc.info.id := by
  obtain ⟨n, hrun, hqc, hqc', _⟩ := exists_network
  exact ⟨n, hrun, hqc, hqc', by decide, certified_unique hqc hqc' rfl⟩

theorem certified_reported_second : ∃ n hrun, ∃ tip : ConsensusTip mockTypes,
    tip.blockHeader.getId = secondQc.info.id ∧
      ((HighExtend.tip tip).rank.Le secondTc.highExtend.rank ∨
        ∃ id info q, (network n hrun).honest id = true ∧
          ((network n hrun).node id).state.voter.TimedOut info q ∧
          info.round = secondTc.round ∧ tip.blockHeader.blockRound ≤ q) := by
  obtain ⟨n, hrun, hqc, _, htimeout⟩ := exists_network
  have htc : checkTcSigners multiSig lookup secondTc = .ok secondTc.highExtend.rank := by
    decide +kernel
  refine ⟨n, hrun, certified_reported rfl hqc htc (fun t ht => ?_) rfl⟩
  obtain rfl := mem_singleton.mp ht
  exact htimeout

end Network

end Kinet
