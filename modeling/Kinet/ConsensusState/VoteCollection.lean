import Kinet.Consensus.VoteRuns
import Kinet.ConsensusState.Runs

/-!
# Certificates from the votes of other nodes

A node refines its vote collector: it processes votes in any order, and processes a
certificate as soon as it is built.

Main results:

- `NodeInit.run_votes`: one certificate in a round, all of them verify, and
  invalid votes do not keep the votes of a supermajority from being certified.
-/

namespace Kinet

open Effect List Mock

variable {K : TypeParams}

def Event.voteCall : Event K → Option (VoteCall K)
  | .processedVote earliestRound author msg validators mapping qc =>
    some ⟨earliestRound, author, msg, validators, mapping, qc⟩
  | _ => none

namespace ConsensusState

/-- The vote collector of a node, with its calls so far. -/
def voteRun (s : ConsensusState K) : VoteRun K := ⟨s.voteState, s.log.filterMap Event.voteCall⟩

variable {env : Env K} {T : Trust K} {s s' : ConsensusState K}

lemma voteCall_of_isQuiet {e : Event K} (h : e.isQuiet = true) : e.voteCall = none := by
  cases e <;> simp_all [Event.isQuiet, Event.voteCall]

variable {events : List (Event K)}

lemma filterMap_voteCall_of_isQuiet
    (h : ∀ e ∈ events, e.isQuiet = true) : events.filterMap Event.voteCall = [] := by
  rw [filterMap_eq_nil_iff]
  exact fun e he => voteCall_of_isQuiet (h e he)

lemma voteRun_eq_of_no_call (hvote : s'.voteState = s.voteState)
    (hlog : s'.log = s.log ++ events) (hcalls : events.filterMap Event.voteCall = []) :
    s'.voteRun = s.voteRun := by
  unfold voteRun
  rw [hvote, hlog, filterMap_append, hcalls, append_nil]

def InSomeEpoch (env : Env K) (validators : ValidatorSet K) (mapping : ValidatorMapping K) : Prop :=
  ∃ epoch, env.valEpochMap.lookup epoch = some (validators, mapping)

/-- A step of a node is a step of its vote collector, for the validators of some epoch, or
does not concern it. -/
theorem Step.voteRun (h : Step env T s s') :
    s'.voteRun = s.voteRun ∨ VoteRun.Step env.scheme (InSomeEpoch env) s.voteRun s'.voteRun := by
  cases h with
  | background h =>
    obtain ⟨events, hlog, hevents⟩ := h.log
    refine .inl (voteRun_eq_of_no_call h.voteState hlog ?_)
    rw [filterMap_eq_nil_iff]
    intro e he
    rcases hevents e he with hquiet | ⟨b, rfl, _⟩
    · exact voteCall_of_isQuiet hquiet
    · rfl
  | certificate _ _ hquiet =>
    exact .inl (voteRun_eq_of_no_call rfl rfl (filterMap_voteCall_of_isQuiet hquiet))
  | buildTc _ _ _ hquiet =>
    refine .inl (voteRun_eq_of_no_call rfl rfl ?_)
    rw [filterMap_append, filterMap_voteCall_of_isQuiet hquiet]
    rfl
  | schedule hquiet _ =>
    exact .inl (voteRun_eq_of_no_call rfl rfl (filterMap_voteCall_of_isQuiet hquiet))
  | noEndorsement _ _ _ _ =>
    refine .inl (voteRun_eq_of_no_call rfl rfl ?_)
    simp [Event.voteCall]
  | propose _ hproposes =>
    refine .inl (voteRun_eq_of_no_call rfl rfl ?_)
    cases hproposes <;> rfl
  | startNewRound hearliest => exact .inr (.startNewRound hearliest)
  | @vote author msg validators mapping _ qc voteState hsent hround hlookup hprocess =>
    -- the current round is never the genesis round
    have hpos : genesisRound < msg.vote.round :=
      lt_of_lt_of_le (Nat.succ_pos _) hround
    have hstep : VoteRun.Step env.scheme (InSomeEpoch env) s.voteRun _ :=
      .process hpos ⟨_, hlookup⟩ hprocess
    refine .inr ?_
    unfold voteRun at hstep ⊢
    rw [filterMap_append]
    exact hstep
  | collectTimeout _ _ _ _ | dropTimeouts | handleProposal => exact .inl rfl
  | _ => exact .inl (voteRun_eq_of_no_call rfl rfl rfl)

theorem Steps.voteRun (h : Steps env T s s') :
    VoteRun.Steps env.scheme (InSomeEpoch env) s.voteRun s'.voteRun := by
  induction h with
  | refl => exact .refl
  | tail _ hstep ih =>
    rcases hstep.voteRun with heq | hrun
    · rw [heq]
      exact ih
    · exact ih.tail hrun

end ConsensusState

/-- A certified call built a certificate that its validators accept. -/
lemma VoteRun.Certified.accepted {S : SignatureScheme K} {c : VoteCall K} (h : Certified S c)
    {q : QuorumCertificate K} (hq : c.qc = some q) {lookup : EpochToValidators K}
    {leader : K.NodeId}
    (hlookup : lookup q.getEpoch q.getRound = .ok (c.validators, c.mapping, leader)) :
    (verifyQc S lookup q).Accepted := by
  obtain ⟨_, hround, ids, hverify, hmaj⟩ := h q hq
  have hsigned : checkSignatures S c.validators c.mapping q.signatures (.vote q.info) = .ok () :=
    checkSignatures_eq_ok.mpr ⟨ids, hverify, hmaj⟩
  exact verifyQc_accepted (checkQc_eq_ok.mpr
    ⟨_, _, _, hlookup, .inr ⟨ne_of_gt hround, hsigned, rfl⟩⟩)

namespace NodeInit

variable {env : Env K} {init : NodeInit K} {inputs : List (NodeInput K)} {n : Node K}

lemma start_voteRun (h : init.start = .ok n) :
    ∃ round, n.state.voteRun = ⟨VoteState.new round, []⟩ := by
  unfold start ConsensusState.new Pacemaker.new at h
  split at h
  · cases h
  · cases h
    exact ⟨_, rfl⟩

/-- In every run the vote collector of a node takes steps from an empty one. -/
lemma run_voteRun (h : init.run env inputs = .ok n) :
    ∃ round, VoteRun.Steps env.scheme (ConsensusState.InSomeEpoch env) ⟨VoteState.new round, []⟩
      n.state.voteRun := by
  obtain ⟨n0, hstart, hreached⟩ := run_steps h
  obtain ⟨round, hnew⟩ := start_voteRun hstart
  refine ⟨round, ?_⟩
  rw [← hnew]
  exact hreached.state.steps.voteRun

/-- In every run of a node the certificates built from votes are of increasing rounds and
accepted by the validators they were built for, and collecting ends.  If all votes of a
round are counted for the same validators, then a supermajority of nodes that voted for
one value while the round was open, and sent no invalid signature in it, has led to a
certificate of the round. -/
theorem run_votes (h : init.run env inputs = .ok n)
    (hlaw : ∀ epoch validators mapping, env.valEpochMap.lookup epoch = some (validators, mapping) →
      env.scheme.LawfulFor mapping) :
    (n.state.voteRun.qcs.Pairwise fun q q' => q.info.round < q'.info.round) ∧
    (∀ c ∈ n.state.voteRun.calls, ∀ q, c.qc = some q → ∀ (lookup : EpochToValidators K) leader,
      lookup q.getEpoch q.getRound = .ok (c.validators, c.mapping, leader) →
        (verifyQc env.scheme lookup q).Accepted) ∧
    (∀ epoch validators mapping, env.valEpochMap.lookup epoch = some (validators, mapping) →
      ∀ (voteState : VoteState K) author msg,
        voteState.processVote env.scheme author msg validators mapping ≠ .error .outOfFuel) ∧
    ∀ epoch validators mapping, env.valEpochMap.lookup epoch = some (validators, mapping) →
      ∀ vote : Vote K, n.state.voteRun.SameValidators vote.round validators mapping →
      ∀ nodes : Finset K.NodeId, (∀ node ∈ nodes, n.state.voteRun.Processed vote node ∧
          n.state.voteRun.Clean env.scheme vote.round node) →
        validators.IsSuperMajority nodes →
        ∃ q ∈ n.state.voteRun.qcs, q.info.round = vote.round := by
  obtain ⟨round, hsteps⟩ := run_voteRun h
  refine ⟨?_, ?_, ?_, ?_⟩
  · exact (hsteps.ordered ⟨fun q hq => (by cases hq), .nil⟩).increasing
  · intro c hc q hq lookup leader hlookup
    refine (hsteps.certified ?_ (fun c hc => (by cases hc)) c hc).accepted hq hlookup
    rintro validators mapping ⟨epoch, hepoch⟩
    exact hlaw epoch validators mapping hepoch
  · intro epoch validators mapping hepoch voteState author msg hfuel
    exact collect_ne_outOfFuel (hlaw epoch validators mapping hepoch) _ _
      (VoteState.processVote_spec hfuel)
  · intro epoch validators mapping hepoch vote hsame nodes hnodes hmaj
    have hcollecting := hsteps.collecting (hlaw epoch validators mapping hepoch) hsame
      (VoteRun.collecting_new _ _ _)
    by_contra hnone
    push Not at hnone
    exact hcollecting.unfinished hnone vote rfl nodes hnodes hmaj

end NodeInit

namespace Mock

def vote (signer : Nat) (vote : Vote mockTypes) : ConsensusMessage mockTypes :=
  ⟨1, .vote ⟨vote, NopSignature.sign signer (.vote vote)⟩⟩

def firstVote : Vote mockTypes := ⟨(header 1 1 genesisQc [1]).getId, 1, 1⟩

/-- Node 1 votes with a signature of node 2; nodes 2, 3 and 0 sign their votes. -/
def forgedVote : List (NodeInput mockTypes) :=
  [.receive 1 (vote 2 firstVote), .receive 2 (vote 2 firstVote), .receive 3 (vote 3 firstVote),
    .receive 0 (vote 0 firstVote), .handle 0, .handle 1, .handle 2, .handle 3]

lemma inSomeEpoch_node0 {vs : ValidatorSet mockTypes} {mapping : ValidatorMapping mockTypes}
    (h : ConsensusState.InSomeEpoch node0 vs mapping) :
    vs = validators 1 (by decide) ∧ mapping = keys := by
  obtain ⟨epoch, hlookup⟩ := h
  change oneEpoch.lookup epoch = _ at hlookup
  simp only [oneEpoch, FiniteMap.lookup_insert_eq_ite, AList.lookup_empty] at hlookup
  split at hlookup
  · cases hlookup
    exact ⟨rfl, rfl⟩
  · cases hlookup

end Mock

namespace NodeInit

/-- The votes of nodes 0, 2 and 3 are certified although node 1 sent a forged one. -/
theorem run_votes_forged : ∃ n, (init 1000 10 (by decide)).run node0 forgedVote = .ok n ∧
      ¬ n.state.voteRun.Clean node0.scheme 1 1 ∧
      ∃ q ∈ n.state.voteRun.qcs, q.info.round = firstVote.round := by
  have hcheck : (init 1000 10 (by decide)).runSatisfies node0 forgedVote
      (fun n => decide (¬ n.state.voteRun.Clean node0.scheme 1 1) &&
        [0, 2, 3].all fun node => decide (n.state.voteRun.Processed firstVote node ∧
          n.state.voteRun.Clean node0.scheme 1 node)) = true := by
    decide +kernel
  obtain ⟨n, hrun, hn⟩ := exists_of_runSatisfies hcheck
  simp only [Bool.and_eq_true, all_eq_true, decide_eq_true_eq] at hn
  obtain ⟨hforged, hnodes⟩ := hn
  have hlaw : ∀ epoch validators mapping,
      node0.valEpochMap.lookup epoch = some (validators, mapping) →
        node0.scheme.LawfulFor mapping := by
    intro epoch validators mapping hepoch
    obtain ⟨_, rfl⟩ := inSomeEpoch_node0 ⟨epoch, hepoch⟩
    exact multiSig_lawfulFor (by decide)
  have hsame : n.state.voteRun.SameValidators 1 (validators 1 (by decide)) keys := by
    obtain ⟨_, hsteps⟩ := run_voteRun hrun
    intro c hc _
    exact inSomeEpoch_node0 (hsteps.calls_allowed (fun c hc => (by cases hc)) c hc)
  obtain ⟨_, _, _, hprogress⟩ := run_votes hrun hlaw
  refine ⟨n, hrun, hforged, hprogress 1 _ _ rfl firstVote hsame [0, 2, 3].toFinset ?_ ?_⟩
  · exact fun node hnode => hnodes node (mem_toFinset.mp hnode)
  · exact ((validators 1 (by decide)).hasSuperMajorityVotes_eq_true_iff _).mp rfl |>.2

end NodeInit

end Kinet
