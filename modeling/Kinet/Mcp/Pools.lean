import Kinet.Mcp.Panics

/-!
# Vote pools are sound and complete

Whatever validators send, a pool counts each of them once.  So few values can gather the
stake of a certificate that none is passed over, and invalid signatures in a bucket do not
keep the valid ones from being aggregated.

Main results:

- `Stub.votePool_sound_complete`: the certificates that a pool forms.
-/

namespace Kinet.Mcp

open FiniteMap Finset Effect Stake

variable {V Scope : Type} [DecidableEq V]

/-- Calls of `addVote`, one after the other. -/
def VotePool.addVotes {E : Types} [DecidableEq Scope] (S : VoteScheme E) (pool : VotePool E V Scope)
    (calls : List (E.NodeId × VoteMsg E V Scope)) : Except Panic (VotePool E V Scope) :=
  calls.foldlM (fun pool call => do
    let pool' ← pool.addVote S call.1 call.2
    pure pool'.1) pool

def weakQcs {E : Types} :
    Option (WeakQc E V Scope ⊕ WeakQc E V Scope × WeakQc E V Scope) → List (WeakQc E V Scope)
  | none => []
  | some (.inl qc) => [qc]
  | some (.inr (qc₁, qc₂)) => [qc₁, qc₂]

namespace Stub

variable {v : ValidatorData types} {mapping : FiniteMap Nat Nat} {pool : VotePool types V Scope}

lemma voters_addVotes [DecidableEq Scope] {S : VoteScheme types} {pool' : VotePool types V Scope}
    {calls : List (Nat × VoteMsg types V Scope)} (hadd : pool.addVotes S calls = .ok pool')
    (hpool : ∀ vote, pool.voters vote ⊆ v.nodes) (hcalls : ∀ call ∈ calls, call.1 ∈ v.nodes)
    (vote : V) : pool'.voters vote ⊆ v.nodes := by
  induction calls generalizing pool with
  | nil =>
    cases hadd
    exact hpool vote
  | cons call calls ih =>
    rw [List.forall_mem_cons] at hcalls
    rw [VotePool.addVotes, List.foldlM_cons] at hadd
    obtain ⟨_, hvote, hadd⟩ := bind_eq_ok.mp hadd
    obtain ⟨added, hadded, ⟨⟩⟩ := bind_eq_ok.mp hvote
    refine ih hadd (fun vote node hnode => ?_) hcalls.2
    rw [(VotePool.addVote_eq_ok.mp hadded).2] at hnode
    rcases VotePool.mem_voters_recordVote hnode with hold | ⟨rfl, -⟩
    · exact hpool vote hold
    · exact hcalls.1

lemma eq_of_mem_voters {node : Nat} {vote vote' : V} (h : node ∈ pool.voters vote)
    (h' : node ∈ pool.voters vote') : vote = vote' := by
  obtain ⟨voters, hlookup, hnode⟩ := VotePool.mem_voters.mp h
  obtain ⟨voters', hlookup', hnode'⟩ := VotePool.mem_voters.mp h'
  exact pool.unique vote voters vote' voters' node hlookup hlookup' hnode hnode'

section

variable (hvoters : ∀ vote, pool.voters vote ⊆ v.nodes)
include hvoters

lemma card_le_of_stake {target k : Nat} (hk : v.totalStake < (k + 1) * (target + 1))
    {votes : Finset V}
    (hvotes : ∀ vote ∈ votes, target < ∑ node ∈ pool.voters vote, v.stakeOf node) :
    votes.card ≤ k := by
  refine Quorum.card_le_of_disjoint (fun vote _ vote' _ hne => ?_) (fun vote _ => hvoters vote)
    hvotes hk
  exact disjoint_left.mpr fun node hnode hnode' => hne (eq_of_mem_voters hnode hnode')

variable [IsVote types V Scope]

/-- The voters for a value whose pooled signatures are valid. -/
def validVoters (mapping : FiniteMap Nat Nat) (pool : VotePool types V Scope) (vote : V) :
    Finset Nat :=
  (pool.voters vote).filter fun node =>
    (pool.votes.lookup node).any (isValid mapping (IsVote.serialize vote pool.scope) node)

variable (mapping) in
/-- The aggregates above a target are few, verify, and leave no value out whose valid
signatures have the stake. -/
theorem tryAggregate_spec {order : List (V × Finset Nat) → List (V × Finset Nat)}
    (horder : ∀ l, (order l).Perm l) {target k : Nat} (hk : v.totalStake < (k + 1) * (target + 1)) :
    ∃ aggs, pool.tryAggregate (scheme v mapping) order target = .ok aggs ∧ aggs.length ≤ k ∧
      (∀ agg ∈ aggs, verifyAbove (scheme v mapping) agg.2 (IsVote.serialize agg.1 pool.scope)
        target = true) ∧
      ∀ vote, target < ∑ node ∈ validVoters mapping pool vote, v.stakeOf node →
        ∃ agg ∈ aggs, agg.1 = vote := by
  obtain ⟨aggs, haggs, hdistinct⟩ := VotePool.exists_tryAggregate (S := scheme v mapping) horder
    (fun vote node hnode => hvoters vote hnode) target
  have hok := fun vote sigcol (hmem : (vote, sigcol) ∈ aggs) =>
    VotePool.tryAggregate_ok (lawful v mapping) horder haggs hmem
  refine ⟨aggs, haggs, ?_, fun agg hagg => ?_, fun vote hvote => ?_⟩
  · have hnodup : (aggs.map Prod.fst).Nodup := List.pairwise_map.mpr hdistinct
    rw [← List.length_map (f := Prod.fst), ← List.toFinset_card_of_nodup hnodup]
    refine card_le_of_stake hvoters hk fun vote hvote => ?_
    obtain ⟨⟨_, sigcol⟩, hagg, rfl⟩ := List.mem_map.mp (List.mem_toFinset.mp hvote)
    obtain ⟨signers, -, hsub, hstake⟩ := hok _ _ hagg
    exact hstake.trans_le (sum_le_sum_of_subset hsub)
  · obtain ⟨signers, hverify, -, hstake⟩ := hok _ _ hagg
    exact verifyAbove_eq_true.mpr ⟨signers, hverify, hstake⟩
  · cases hlookup : pool.buckets.lookup vote with
    | none => simp [validVoters, VotePool.voters, hlookup] at hvote
    | some voters =>
      have heq : pool.voters vote = voters := by rw [VotePool.voters, hlookup]; rfl
      have hvalid : ((pool.votes.retain fun node _ => decide (node ∈ voters)).retain
          (isValid mapping (IsVote.serialize vote pool.scope))).keys.toFinset =
            validVoters mapping pool vote := by
        ext node
        rw [List.mem_toFinset, ← AList.mem_keys, ← AList.lookup_isSome, lookup_retain,
          lookup_retain, validVoters, heq, mem_filter]
        cases pool.votes.lookup node <;> by_cases hnode : node ∈ voters <;>
          simp [Option.filter, hnode]
      rw [VotePool.aggregateBuckets_ends.ok haggs]
      refine ⟨(vote, _), List.mem_filterMap.mpr ⟨(vote, voters),
        (horder _).mem_iff.mpr (mem_pairs.mpr hlookup),
        VotePool.aggregateBucket_eq_some.mpr ⟨?_, rfl, if_neg ?_⟩⟩, rfl⟩
      · rw [← heq]
        exact hvote.trans_le (sum_le_sum_of_subset (filter_subset _ _))
      · rw [hvalid]
        exact Nat.not_le_of_lt hvote

end

variable [IsVote types V Scope] [DecidableEq Scope]

/-- After any votes of validators, every node counts for one value at most, at most one value
has the stake of a strong certificate and at most two that of a weak one, the certificates
that are formed verify, and there is one for every value whose valid signatures have the
stake. -/
theorem votePool_sound_complete (v : ValidatorData types) (mapping : FiniteMap Nat Nat)
    (order : List (V × Finset Nat) → List (V × Finset Nat)) (horder : ∀ l, (order l).Perm l)
    (scope : Scope) (calls : List (Nat × VoteMsg types V Scope))
    (hcalls : ∀ call ∈ calls, call.1 ∈ v.nodes) (pool : VotePool types V Scope)
    (hpool : (VotePool.new scope).addVotes (scheme v mapping) calls = .ok pool) :
    (∀ node vote vote', node ∈ pool.voters vote → node ∈ pool.voters vote' → vote = vote') ∧
    (∀ votes : Finset V, (∀ vote ∈ votes, supermajorityThreshold v.totalStake <
      ∑ node ∈ pool.voters vote, v.stakeOf node) → votes.card ≤ 1) ∧
    (∀ votes : Finset V, (∀ vote ∈ votes, honestThreshold v.totalStake <
      ∑ node ∈ pool.voters vote, v.stakeOf node) → votes.card ≤ 2) ∧
    (∃ qc, pool.tryFormStrongQc (scheme v mapping) order = .ok qc ∧
      (∀ q, qc = some q → q.verify (scheme v mapping) = true) ∧
      ∀ vote, supermajorityThreshold v.totalStake <
        ∑ node ∈ validVoters mapping pool vote, v.stakeOf node → ∃ q, qc = some q ∧ q.verdict = vote) ∧
    ∃ qcs, pool.tryFormWeakQc (scheme v mapping) order = .ok qcs ∧
      (∀ q ∈ weakQcs qcs, q.verify (scheme v mapping) = true) ∧
      ∀ vote, honestThreshold v.totalStake <
        ∑ node ∈ validVoters mapping pool vote, v.stakeOf node →
          ∃ q ∈ weakQcs qcs, q.verdict = vote := by
  have hvoters : ∀ vote, pool.voters vote ⊆ v.nodes :=
    voters_addVotes hpool (fun _ => empty_subset _) hcalls
  have hstrong : v.totalStake < (1 + 1) * (supermajorityThreshold v.totalStake + 1) := by
    rw [supermajorityThreshold_eq]
    omega
  have hweak : v.totalStake < (2 + 1) * (honestThreshold v.totalStake + 1) := by
    unfold honestThreshold
    omega
  refine ⟨fun _ _ _ => eq_of_mem_voters, fun _ => card_le_of_stake hvoters hstrong,
    fun _ => card_le_of_stake hvoters hweak, ?_, ?_⟩
  · obtain ⟨aggs, haggs, hlength, hverify, hall⟩ :=
      tryAggregate_spec mapping hvoters horder hstrong
    refine ⟨_, bind_eq_ok.mpr ⟨aggs, haggs, rfl⟩, ?_⟩
    match aggs, hlength with
    | [], _ => simpa using hall
    | [agg], _ =>
      refine ⟨?_, fun vote hvote => ⟨_, rfl, by simpa using hall vote hvote⟩⟩
      rintro _ ⟨⟩
      exact hverify agg (List.mem_singleton_self agg)
  · obtain ⟨aggs, haggs, hlength, hverify, hall⟩ :=
      tryAggregate_spec mapping hvoters horder hweak
    obtain ⟨qcs, hform, hqcs⟩ : ∃ qcs, pool.tryFormWeakQc (scheme v mapping) order = .ok qcs ∧
        weakQcs qcs = aggs.map fun agg => ⟨pool.scope, agg.1, agg.2⟩ := by
      refine ⟨_, bind_eq_ok.mpr ⟨aggs, haggs, rfl⟩, ?_⟩
      match aggs, hlength with
      | [], _ | [_], _ | [_, _], _ => rfl
    refine ⟨qcs, hform, ?_⟩
    rw [hqcs]
    refine ⟨List.forall_mem_map.mpr hverify, fun vote hvote => ?_⟩
    obtain ⟨agg, hagg, rfl⟩ := hall vote hvote
    exact ⟨_, List.mem_map_of_mem hagg, rfl⟩

/-- Votes of four nodes to fall back in slot 8, where node 3 signs for slot 7. -/
def threeValid : List (Nat × VoteMsg types EnterFallbackVote Nat) :=
  [(3, ⟨8, .mk, sign 3 (.enterFallback 7 .mk)⟩), (0, .newSigned 8 .mk (sign 0)),
    (1, .newSigned 8 .mk (sign 1)), (2, .newSigned 8 .mk (sign 2))]

/-- Three valid signatures are enough next to an invalid one. -/
theorem votePool_sound_complete_threeValid : ∃ pool qc,
    (VotePool.new 8).addVotes fourScheme threeValid = .ok pool ∧
      pool.tryFormStrongQc fourScheme (fun l => l) = .ok (some qc) ∧
      qc.verify fourScheme = true := by
  obtain ⟨-, -, -, ⟨qc, hform, hverify, hall⟩, -⟩ := votePool_sound_complete fourNodes fourKeys
    (fun l => l) List.Perm.refl 8 threeValid (by decide) _ rfl
  obtain ⟨q, rfl, -⟩ := hall .mk (by decide +kernel)
  exact ⟨_, q, rfl, hform, hverify q rfl⟩

end Stub

end Kinet.Mcp
