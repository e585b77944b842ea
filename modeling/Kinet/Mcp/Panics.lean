import Kinet.Mcp.Agreement

/-!
# Messages that panic a slot instance

An instance indexes its pools with the positions of a message's entries, and asserts
that a vote has the scope of its pool.  Nothing compares the scopes and numbers of entries
of a message with those of the instance before that.  `Message.Fits` is what the handlers
rely on.

Main results:

- `SlotRun.handleMessage_returns_iff`: the messages of validators that an
  instance handles without a panic are those that fit, or come after its decision.
- `Stub.handleMessage_panics`: signed messages of one validator that panic an
  instance.
-/

namespace Kinet.Mcp

open Effect List Chorus ProposalMap Admission

variable {E : Types}

/-! ## Certificates can be formed -/

namespace VotePool

variable {V Scope : Type} [DecidableEq V] [IsVote E V Scope] {S : VoteScheme E}
  {pool : VotePool E V Scope} {order : List (V × Finset E.NodeId) → List (V × Finset E.NodeId)}

section

variable (horder : ∀ l, (order l).Perm l)
include horder

variable (hvoters : ∀ vote, ∀ node ∈ pool.voters vote, node ∈ S.validatorData.nodes)
include hvoters

/-- If only validators voted, the stake of every bucket is known, and no two aggregates
are for the same value. -/
lemma exists_tryAggregate (targetStake : Nat) :
    ∃ aggs, pool.tryAggregate S order targetStake = .ok aggs ∧
      aggs.Pairwise fun agg agg' => agg.1 ≠ agg'.1 := by
  have hbuckets : ∀ bucket ∈ order pool.buckets.pairs, bucket.2 ⊆ S.validatorData.nodes := by
    rintro ⟨vote, voters'⟩ hbucket node hnode
    have hlookup : pool.buckets.lookup vote = some voters' :=
      FiniteMap.mem_pairs.mp ((horder _).mem_iff.mp hbucket)
    refine hvoters vote node ?_
    rw [voters, hlookup]
    exact hnode
  cases haggs : pool.tryAggregate S order targetStake with
  | error e =>
    obtain ⟨bucket, hbucket, hnot⟩ := aggregateBuckets_ends.error haggs
    exact absurd (hbuckets bucket hbucket) hnot
  | ok aggs =>
    have hnodup : ((order pool.buckets.pairs).map Prod.fst).Nodup := by
      rw [((horder _).map Prod.fst).nodup_iff, FiniteMap.map_fst_pairs]
      exact pool.buckets.keys_nodup
    rw [aggregateBuckets_ends.ok haggs]
    refine ⟨_, rfl, (pairwise_map.mp hnodup).filterMap _ fun _ _ hne _ hagg _ hagg' => ?_⟩
    rwa [← (aggregateBucket_eq_some.mp hagg).2.1, ← (aggregateBucket_eq_some.mp hagg').2.1]

lemma exists_tryFormStrongQc : ∃ qc, pool.tryFormStrongQc S order = .ok qc := by
  obtain ⟨aggs, haggs, _⟩ := exists_tryAggregate horder hvoters
    (Stake.supermajorityThreshold S.validatorData.totalStake)
  exact ⟨_, bind_eq_ok.mpr ⟨aggs, haggs, rfl⟩⟩

/-- Two weak certificates have different verdicts. -/
lemma exists_tryFormWeakQc : ∃ qcs, pool.tryFormWeakQc S order = .ok qcs ∧
      ∀ qc₁ qc₂, qcs = some (.inr (qc₁, qc₂)) → qc₁.verdict ≠ qc₂.verdict := by
  obtain ⟨aggs, haggs, hnodup⟩ := exists_tryAggregate horder hvoters
    (Stake.honestThreshold S.validatorData.totalStake)
  refine ⟨_, bind_eq_ok.mpr ⟨aggs, haggs, rfl⟩, ?_⟩
  match aggs with
  | [] | [_] => simp
  | agg1 :: agg2 :: _ =>
    rintro _ _ ⟨⟩
    exact (pairwise_cons.mp hnodup).1 _ mem_cons_self

end

end VotePool

/-! ## Handlers of the fast path -/

def Admission.validators (v : ValidatorData E) : Admission E where
  vote node _ := node ∈ v.nodes
  cert _ _ := True
  commitQc _ := True
  enterFallbackCert _ := True

lemma Admission.validators_closed (context : ChorusContext E) (slot : Nat) :
    (validators context.scheme.validatorData).Closed context slot :=
  ⟨fun _ _ _ _ _ _ => trivial, fun _ _ _ _ _ _ _ _ => trivial, fun _ _ _ _ _ => trivial,
    fun _ _ _ _ _ => trivial⟩

variable {author : E.NodeId}

lemma Admission.validators_message {v : ValidatorData E}
    (hauthor : author ∈ v.nodes) (slot : Nat) (message : Message E) :
    (validators v).message slot author message := by
  cases message with
  | batchVote msg => exact fun _ _ => hauthor
  | fastCommitVote msg => exact hauthor
  | fastBlock block => exact fun _ _ => trivial
  | fallbackVote msg =>
    refine ⟨hauthor, fun evidence _ => ?_⟩
    split
    · trivial
    · exact hauthor
  | fastCommitQc qc | enterFallbackCert cert => trivial

namespace FastPath

variable {context : ChorusContext E} {f f₀ : FastPath E}

abbrev Voted (context : ChorusContext E) (f : FastPath E) : Prop :=
  f.Sound (.validators context.scheme.validatorData) f.slot

/-- The state is reached by votes of validators. -/
abbrev VotedSteps (context : ChorusContext E) : FastPath E → FastPath E → Prop :=
  Steps context (.validators context.scheme.validatorData)

lemma VotedSteps.voted (h : VotedSteps context f₀ f) (hf₀ : f₀.Voted context) :
    f.Voted context := by
  have hclosed := validators_closed context f₀.slot
  have hsound : f.Sound (.validators context.scheme.validatorData) f₀.slot := by
    induction h with
    | refl => exact hf₀
    | tail _ hstep ih => exact hstep.sound hclosed ih
  unfold Voted
  rw [Steps.slot_eq h]
  exact hsound

lemma Steps.certs_length {A : Admission E} (h : Steps context A f₀ f) :
    f.certs.length = f₀.certs.length := by
  induction h with
  | refl => rfl
  | tail _ hstep ih => rw [hstep.certs_length, ih]

variable {j : Nat}

lemma exists_index {T : Type} {m : ProposalMap T} : (∃ v, m.index j = .ok v) ↔ j < m.length := by
  simp [index_eq_ok, getElem?_eq_some_iff]

lemma forall_zipIdx_lt {T : Type} {m : ProposalMap T} {n : Nat} :
    (∀ entry ∈ zipIdx m, entry.2 < n) ↔ m.length ≤ n := by
  constructor
  · intro h
    by_contra hlt
    have hn : n < m.length := Nat.lt_of_not_le hlt
    refine absurd (h (m[n], n) ?_) (lt_irrefl n)
    rw [mem_zipIdx_iff_getElem?]
    exact getElem?_eq_getElem hn
  · rintro hlength ⟨v, j⟩ hmem
    rw [mem_zipIdx_iff_getElem?] at hmem
    exact lt_of_lt_of_le (List.getElem?_eq_some_iff.mp hmem).1 hlength

lemma length_votes (f : FastPath E) : f.votes.length = f.certs.length := by
  have h := congrArg length f.votes_scope
  rwa [length_map, length_map, f.proposals_eq, length_range] at h

lemma length_fallbackEntryVotes (f : FastPath E) :
    f.fallbackEntryVotes.length = f.certs.length := by
  have h := congrArg length f.fallbackEntryVotes_scope
  rwa [length_map, length_map, f.proposals_eq, length_range] at h

lemma tryUpgrade_returns {newEv : CertifiedEntry E} :
    Returns (tryUpgrade j newEv) f ↔ j < f.certs.length := by
  rw [← exists_index]
  unfold Returns tryUpgrade
  rw [wp_bind, wp_get, wp_bind, wp_lift]
  cases hindex : f.certs.index j with
  | ok cert | error e => simp

lemma tryFormFastQc_returns (hf : f.Voted context) (hj : j < f.certs.length) :
    Returns (tryFormFastQc context j) f := by
  obtain ⟨cert, hcert⟩ := exists_index.mpr hj
  obtain ⟨pool, hpool⟩ := exists_index.mpr ((length_votes f).symm ▸ hj)
  obtain ⟨qc, hqc⟩ := VotePool.exists_tryFormStrongQc context.bucketOrder_perm
    (hf.votes j pool (index_eq_ok.mp hpool))
  unfold Returns tryFormFastQc
  rw [wp_bind, wp_get, hcert, wp_bind, wp_liftOk, wp_ite]
  refine ⟨fun _ => trivial, fun _ => ?_⟩
  rw [hpool, wp_bind, wp_liftOk, hqc, wp_bind, wp_liftOk]
  cases qc with
  | none => trivial
  | some qc => exact tryUpgrade_returns.mpr hj

/-- Of two weak certificates with different verdicts one is positive. -/
lemma exists_chooseFallbackQc {qcs : FallbackQc E ⊕ FallbackQc E × FallbackQc E}
    (h : ∀ qc₁ qc₂, qcs = .inr (qc₁, qc₂) → qc₁.verdict ≠ qc₂.verdict) :
    ∃ qc, chooseFallbackQc qcs = .ok qc := by
  match qcs with
  | .inl qc => exact ⟨qc, rfl⟩
  | .inr (⟨scope1, ⟨.positive _⟩, sigcol1⟩, qc₂) => exact ⟨_, rfl⟩
  | .inr (⟨scope1, ⟨.negative⟩, sigcol1⟩, ⟨scope2, ⟨.positive _⟩, sigcol2⟩) => exact ⟨_, rfl⟩
  | .inr (⟨scope1, ⟨.negative⟩, sigcol1⟩, ⟨scope2, ⟨.negative⟩, sigcol2⟩) =>
    exact absurd rfl (h ⟨scope1, ⟨.negative⟩, sigcol1⟩ ⟨scope2, ⟨.negative⟩, sigcol2⟩ rfl)

lemma tryFormFallbackQc_returns (hf : f.Voted context) (hj : j < f.certs.length) :
    Returns (tryFormFallbackQc context j) f := by
  obtain ⟨cert, hcert⟩ := exists_index.mpr hj
  obtain ⟨pool, hpool⟩ := exists_index.mpr ((length_fallbackEntryVotes f).symm ▸ hj)
  obtain ⟨qcs, hqcs, hne⟩ := VotePool.exists_tryFormWeakQc context.bucketOrder_perm
    (hf.fallbackEntryVotes j pool (index_eq_ok.mp hpool))
  unfold Returns tryFormFallbackQc
  rw [wp_bind, wp_get, hcert, wp_bind, wp_liftOk, wp_ite]
  refine ⟨fun _ => trivial, fun _ => ?_⟩
  rw [hpool, wp_bind, wp_liftOk, hqcs, wp_bind, wp_liftOk]
  cases qcs with
  | none => trivial
  | some qcs =>
    obtain ⟨qc, hqc⟩ := exists_chooseFallbackQc fun qc1 qc2 h => hne qc1 qc2 (congrArg some h)
    change wp (liftM (chooseFallbackQc qcs) >>= _) _ _ _
    rw [hqc, wp_bind, wp_liftOk]
    exact tryUpgrade_returns.mpr hj

lemma tryCastFastCommitVote_returns : Returns tryCastFastCommitVote f := by
  unfold Returns tryCastFastCommitVote
  rw [wp_bind, wp_get, wp_ite]
  refine ⟨fun _ => trivial, fun _ => ?_⟩
  split <;> trivial

section

variable {author : E.NodeId} (hauthor : author ∈ context.scheme.validatorData.nodes)
include hauthor

section

variable (hf : f.Voted context)
include hf

lemma handleVote_returns {msg : VoteMsg E (Entry E) (Nat × Nat)} :
    Returns (handleVote context author msg) f ↔
      msg.scope.1 = f.slot ∧ msg.scope.2 < f.certs.length := by
  unfold handleVote
  dsimp only
  rw [returns_update]
  constructor
  · rintro ⟨f', hinsert, -⟩
    obtain ⟨_, hvotes, -⟩ := bind_eq_ok.mp hinsert
    obtain ⟨pool, hpool, -⟩ := addVote_eq_ok.mp hvotes
    exact ⟨congrArg Prod.fst (scope_of_insertVote hinsert),
      length_votes f ▸ (List.getElem?_eq_some_iff.mp hpool).1⟩
  · rintro ⟨hslot, hj⟩
    obtain ⟨pool, hpool⟩ := exists_index.mpr ((length_votes f).symm ▸ hj)
    have hpool := index_eq_ok.mp hpool
    obtain ⟨votes, hvotes⟩ := exists_addVote context.scheme author hpool
      ((Prod.ext hslot rfl : msg.scope = (f.slot, msg.scope.2)).trans (scope_of_votes hpool).symm)
    obtain ⟨f', hinsert⟩ : ∃ f', f.insertVote context.scheme msg.scope.2 author msg = .ok f' :=
      ⟨_, bind_eq_ok.mpr ⟨votes, hvotes, rfl⟩⟩
    have hstep : VotedSteps context f f' := .single (.vote hinsert hauthor)
    exact ⟨f', hinsert, tryFormFastQc_returns (hstep.voted hf) (hstep.certs_length ▸ hj)⟩

lemma handleBatchVote_returns {msg : BatchVoteMsg E} :
    Returns (handleBatchVote context author msg) f ↔
      msg.votes.length ≤ f.certs.length ∧ (msg.votes ≠ [] → msg.slot = f.slot) := by
  have hkeeps : ∀ v ∈ msg.split,
      Keeps (VotedSteps context f) (fun _ => True) (handleVote context author v) :=
    fun v _ => handleVote_steps hauthor
  have hloop := returns_forM .refl hkeeps fun v _ f1 hf1 => by
    rw [handleVote_returns hauthor (hf1.voted hf), hf1.certs_length, Steps.slot_eq hf1]
  unfold handleBatchVote
  rw [returns_bind_of_returns fun _ _ => tryCastFastCommitVote_returns]
  refine hloop.trans ?_
  constructor
  · intro h
    have hmem (j : Nat) (hj : j < msg.votes.length) : msg.slot = f.slot ∧ j < f.certs.length := by
      refine h ⟨(msg.slot, j), (msg.votes[j]).1, (msg.votes[j]).2⟩ ?_
      rw [BatchVoteMsg.split, mem_mapIdx]
      exact ⟨j, hj, rfl⟩
    constructor
    · by_contra hlt
      exact absurd (hmem f.certs.length (Nat.lt_of_not_le hlt)).2 (lt_irrefl _)
    · exact fun hne => (hmem 0 (length_pos_iff.mpr hne)).1
  · rintro ⟨hlength, hslot⟩ v hv
    rw [BatchVoteMsg.split, mem_mapIdx] at hv
    obtain ⟨j, hj, rfl⟩ := hv
    exact ⟨hslot (ne_nil_of_length_pos (Nat.zero_lt_of_lt hj)), lt_of_lt_of_le hj hlength⟩

lemma handleCommitVote_returns {msg : FastCommitVoteMsg E} :
    Returns (handleCommitVote context author msg) f ↔ msg.scope = f.slot := by
  unfold handleCommitVote
  rw [returns_update]
  constructor
  · rintro ⟨f', hinsert, -⟩
    exact scope_of_insertCommitVote hinsert
  · intro hscope
    obtain ⟨votes, hvotes⟩ := VotePool.exists_addVote context.scheme author
      (hscope.trans f.commitVotes_scope.symm)
    obtain ⟨f', hinsert⟩ : ∃ f', f.insertCommitVote context.scheme author msg = .ok f' :=
      ⟨_, bind_eq_ok.mpr ⟨votes, hvotes, rfl⟩⟩
    have hstep : VotedSteps context f f' := .single (.commitVote hinsert hauthor)
    obtain ⟨qc, hqc⟩ := VotePool.exists_tryFormStrongQc context.bucketOrder_perm
      (hstep.voted hf).commitVotes
    refine ⟨f', hinsert, ?_⟩
    unfold Returns
    rw [hqc, wp_liftOk]
    trivial

lemma handleEvidence_returns {evidence : ProposalEvidence E} :
    Returns (handleEvidence context author j evidence) f ↔ j < f.certs.length := by
  cases evidence with
  | certified cert => exact tryUpgrade_returns
  | fallbackSignedEntry entry =>
    unfold handleEvidence
    dsimp only
    rw [returns_update]
    constructor
    · rintro ⟨f', hinsert, -⟩
      obtain ⟨_, hvotes, -⟩ := bind_eq_ok.mp hinsert
      obtain ⟨pool, hpool, -⟩ := addVote_eq_ok.mp hvotes
      exact length_fallbackEntryVotes f ▸ (List.getElem?_eq_some_iff.mp hpool).1
    · intro hj
      obtain ⟨pool, hpool⟩ := exists_index.mpr ((length_fallbackEntryVotes f).symm ▸ hj)
      have hpool := index_eq_ok.mp hpool
      have hscope : (entry.intoVoteMsg f.slot j).scope = pool.scope :=
        (scope_of_fallbackEntryVotes hpool).symm
      obtain ⟨votes, hvotes⟩ := exists_addVote context.scheme author hpool hscope
      obtain ⟨f', hinsert⟩ : ∃ f', f.insertFallbackEntryVote context.scheme j author
          (entry.intoVoteMsg f.slot j) = .ok f' := ⟨_, bind_eq_ok.mpr ⟨votes, hvotes, rfl⟩⟩
      have hstep : VotedSteps context f f' := .single (.fallbackEntryVote hinsert hauthor)
      exact ⟨f', hinsert, tryFormFallbackQc_returns (hstep.voted hf) (hstep.certs_length ▸ hj)⟩

lemma handleFallbackVote_returns {msg : FallbackVoteMsg E} :
    Returns (handleFallbackVote context author msg) f ↔
      msg.enterFallbackVote.scope = f.slot ∧ msg.evidences.length ≤ f.certs.length := by
  have hkeeps : ∀ evidence ∈ zipIdx msg.evidences, Keeps (VotedSteps context f)
      (fun _ => True) (handleEvidence context author evidence.2 evidence.1) := by
    rintro ⟨evidence, j⟩ _
    refine handleEvidence_steps rfl ?_
    cases evidence with
    | certified cert => trivial
    | fallbackSignedEntry entry => exact hauthor
  have hloop {f' : FastPath E}
      (hinsert : f.insertEnterFallbackVote context.scheme author msg.enterFallbackVote = .ok f') :=
    (returns_forM (.single (.enterFallbackVote hinsert hauthor)) hkeeps fun evidence _ f1 hf1 => by
      rw [handleEvidence_returns hauthor (hf1.voted hf), hf1.certs_length]).trans forall_zipIdx_lt
  unfold handleFallbackVote
  rw [returns_update]
  constructor
  · rintro ⟨f', hinsert, hreturns⟩
    exact ⟨scope_of_insertEnterFallbackVote hinsert, (hloop hinsert).mp hreturns⟩
  · rintro ⟨hscope, hlength⟩
    obtain ⟨votes, hvotes⟩ := VotePool.exists_addVote context.scheme author
      (hscope.trans f.enterFallbackVotes_scope.symm)
    obtain ⟨f', hinsert⟩ : ∃ f', f.insertEnterFallbackVote context.scheme author
        msg.enterFallbackVote = .ok f' := ⟨_, bind_eq_ok.mpr ⟨votes, hvotes, rfl⟩⟩
    exact ⟨f', hinsert, (hloop hinsert).mpr hlength⟩

end

end

lemma handleFastBlock_returns (context : ChorusContext E) {block : FastBlock E} :
    Returns (handleFastBlock block) f ↔ block.qcs.length ≤ f.certs.length := by
  unfold handleFastBlock
  rw [returns_bind_of_returns fun _ _ => tryCastFastCommitVote_returns]
  refine (returns_forM (I := Steps context .any f) .refl
    (fun _ _ _ hf1 => tryUpgrade_steps hf1 (.inl trivial)) fun _ _ f1 hf1 => ?_).trans
    forall_zipIdx_lt
  rw [tryUpgrade_returns, hf1.certs_length]

end FastPath

/-! ## Messages -/

/-- The scopes of the votes in a message are those of slot `slot`, and its maps have no
entries beyond `numProposals`. -/
def Message.Fits (slot numProposals : Nat) : Message E → Prop
  | .batchVote msg => msg.votes.length ≤ numProposals ∧ (msg.votes ≠ [] → msg.slot = slot)
  | .fastCommitVote msg => msg.scope = slot
  | .fastBlock block => block.qcs.length ≤ numProposals
  | .fallbackVote msg => msg.enterFallbackVote.scope = slot ∧ msg.evidences.length ≤ numProposals
  | .fastCommitQc _ => True
  | .enterFallbackCert _ => True

namespace Chorus

variable {context : ChorusContext E} {c : Chorus E}

lemma returns_onFast {α : Type} {m : FastM E α} : Returns (onFast m) c ↔ Returns m c.fast := by
  unfold onFast Returns
  rw [wp_bind, wp_get, wp_bind, wp_lift]
  unfold wp
  cases m c.fast with
  | ok p =>
    refine iff_of_true ⟨fun p' hp' => ?_, fun e he => (by cases he)⟩ trivial
    cases hp'
    trivial
  | error e => simp

lemma finalize_returns (qc : FastCommitQc E) : Returns (finalize qc) c := by
  unfold Returns finalize
  rw [wp_bind, wp_get, wp_ite]
  exact ⟨fun _ => trivial, fun _ => trivial⟩

lemma enterFallback_returns (inputs : MVBAInputs E) : Returns (enterFallback inputs) c := by
  unfold Returns enterFallback
  rw [wp_bind, wp_get, wp_ite]
  exact ⟨fun _ => trivial, fun _ => trivial⟩

lemma dispatch_returns (hauthor : author ∈ context.scheme.validatorData.nodes)
    (hc : c.fast.Voted context) (message : Message E) :
    Returns (dispatch context author message) c ↔ message.Fits c.fast.slot c.fast.certs.length := by
  cases message with
  | batchVote msg =>
    unfold dispatch
    rw [returns_bind_of_returns, returns_onFast, FastPath.handleBatchVote_returns hauthor hc]
    · rfl
    · rintro (_ | block) c' <;> trivial
  | fastCommitVote msg =>
    unfold dispatch
    rw [returns_bind_of_returns, returns_onFast, FastPath.handleCommitVote_returns hauthor hc]
    · rfl
    · rintro (_ | qc) c'
      · trivial
      · exact (returns_bind_of_returns fun _ _ => finalize_returns qc).mpr trivial
  | fastBlock block =>
    unfold dispatch
    rw [returns_bind_of_returns, returns_onFast, FastPath.handleFastBlock_returns context]
    · rfl
    · rintro (_ | block) c' <;> trivial
  | fallbackVote msg =>
    unfold dispatch
    rw [returns_onFast, FastPath.handleFallbackVote_returns hauthor hc]
    rfl
  | fastCommitQc qc => exact iff_of_true (finalize_returns qc) trivial
  | enterFallbackCert cert =>
    refine iff_of_true ?_ trivial
    unfold Returns dispatch
    rw [wp_bind, wp_get]
    split
    · trivial
    · exact enterFallback_returns _

end Chorus

/-- An instance whose messages so far were by validators handles the next one without a
panic exactly if it has decided or the message fits. -/
theorem SlotRun.handleMessage_returns_iff (context : ChorusContext E) (config : ChorusConfig)
    (slot : Nat) (inputs : List (SlotInput E)) (r : SlotRun E)
    (hrun : run context config slot inputs = .ok r)
    (hinputs : ∀ author message, .message author message ∈ inputs →
      author ∈ context.scheme.validatorData.nodes)
    (author : E.NodeId) (hauthor : author ∈ context.scheme.validatorData.nodes)
    (message : Message E) :
    (∃ c', handleMessage context author message r.chorus = .ok ((), c')) ↔
      r.chorus.decided = true ∨ message.Fits slot config.numProposals := by
  have hsteps : Chorus.Steps context (.validators context.scheme.validatorData)
      (new slot config) r.total := by
    refine run_steps hrun fun input hinput => ?_
    cases input with
    | message author' message' =>
      exact validators_message (hinputs author' message' hinput) slot message'
    | _ => trivial
  have hslot : r.chorus.fast.slot = slot := hsteps.fast_slot_eq
  have hlength : r.chorus.fast.certs.length = config.numProposals :=
    hsteps.certs_length.trans length_replicate
  have hvoted : r.chorus.fast.Voted context := by
    unfold FastPath.Voted
    rw [hslot]
    exact (hsteps.sound (validators_closed context slot) (sound_new config)).fast
  have hreturns : (∃ c', handleMessage context author message r.chorus = .ok ((), c')) ↔
      Returns (handleMessage context author message) r.chorus := by
    rw [returns_iff]
    exact ⟨fun ⟨c', h⟩ => ⟨(), c', h⟩, fun ⟨_, c', h⟩ => ⟨c', h⟩⟩
  rw [hreturns]
  unfold handleMessage Returns
  rw [wp_bind, wp_get, wp_ite]
  by_cases hdecided : r.chorus.decided = true
  · simp [hdecided]
  · have hdispatch := dispatch_returns hauthor hvoted message
    rw [hslot, hlength] at hdispatch
    simp only [hdecided, Bool.false_eq_true, IsEmpty.forall_iff, not_false_eq_true, forall_const,
      true_and, false_or]
    exact hdispatch

namespace Stub

def twoVotes (slot node : Nat) : BatchVoteMsg types :=
  ⟨slot, [(.negative, sign node (.entry slot 0 .negative)),
    (.negative, sign node (.entry slot 1 .negative))]⟩

def twoCertificates (slot : Nat) : FastBlock types :=
  ⟨[fastQc slot, ⟨(slot, 1), .negative, collect [0, 1, 2] (.entry slot 1 .negative)⟩]⟩

/-- The vote of a node to fall back, with its votes on two proposals. -/
def twoEvidences (slot node : Nat) : FallbackVoteMsg types :=
  ⟨VoteMsg.newSigned slot .mk (sign node),
    [.fallbackSignedEntry (.newSignedNegative (slot, 0) (sign node)),
      .fallbackSignedEntry (.newSignedNegative (slot, 1) (sign node))]⟩

/-- The panic of node 0 in its new slot 8 when node 1 sends a message. -/
def panicOf (message : Message types) : Option Panic :=
  match handleMessage (context 0) 1 message (new 8 config) with
  | .ok _ => none
  | .error p => some p

lemma eq_error_of_panicOf {message : Message types} {p : Panic} (h : panicOf message = some p) :
    handleMessage (context 0) 1 message (new 8 config) = .error p := by
  unfold panicOf at h
  split at h
  · cases h
  · next hrun =>
    cases h
    exact hrun

/-- The first commit vote for slot 8 is handled. -/
theorem handleMessage_returns_commitVote :
    ∃ c', handleMessage (context 0) 1 (.fastCommitVote (commitVote 8 1))
      (new 8 config) = .ok ((), c') :=
  (SlotRun.handleMessage_returns_iff (context 0) config 8 [] ⟨new 8 config, []⟩ rfl
    (fun _ _ hmem => (by cases hmem)) 1 (by decide) (.fastCommitVote (commitVote 8 1))).mpr
    (Or.inr rfl)

/-- Node 1 panics node 0 in slot 8, where there is one proposal, with a vote that it signed
for slot 7, with signed votes on two proposals, or with two verified certificates. -/
theorem handleMessage_panics : 1 ∈ fourScheme.validatorData.nodes ∧
    (commitVote 7 1).signature.verify (IsVote.serialize (commitVote 7 1).vote 7) 1 = true ∧
    handleMessage (context 0) 1 (.fastCommitVote (commitVote 7 1)) (new 8 config) =
      .error .scopeMismatch ∧
    (∀ v ∈ (batchVote 7 1).split, v.signature.verify (IsVote.serialize v.vote v.scope) 1 = true) ∧
    handleMessage (context 0) 1 (.batchVote (batchVote 7 1)) (new 8 config) =
      .error .scopeMismatch ∧
    (∀ v ∈ (twoVotes 8 1).split, v.signature.verify (IsVote.serialize v.vote v.scope) 1 = true) ∧
    handleMessage (context 0) 1 (.batchVote (twoVotes 8 1)) (new 8 config) =
      .error .indexOutOfBounds ∧
    (∀ qc ∈ (twoCertificates 8).qcs, qc.verify fourScheme = true) ∧
    handleMessage (context 0) 1 (.fastBlock (twoCertificates 8)) (new 8 config) =
      .error .indexOutOfBounds ∧
    (twoEvidences 8 1).enterFallbackVote.signature.verify (.enterFallback 8 .mk) 1 = true ∧
    handleMessage (context 0) 1 (.fallbackVote (twoEvidences 8 1)) (new 8 config) =
      .error .indexOutOfBounds := by
  refine ⟨by decide, by decide +kernel, eq_error_of_panicOf (by decide +kernel),
    by decide +kernel, eq_error_of_panicOf (by decide +kernel), by decide +kernel,
    eq_error_of_panicOf (by decide +kernel), by decide +kernel,
    eq_error_of_panicOf (by decide +kernel), by decide +kernel,
    eq_error_of_panicOf (by decide +kernel)⟩

end Stub

end Kinet.Mcp
