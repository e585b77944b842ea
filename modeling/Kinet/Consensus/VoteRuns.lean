import Kinet.Consensus.VoteState

/-!
# Runs of the vote collector

The collector sees votes of any nodes in any order, and is told when a round starts.
`VoteRun` keeps its state together with the calls so far.

Main results:

- `VoteRun.Step.ordered`: certificates are built for increasing rounds.
- `VoteRun.Step.certified`: what a certificate is built from.
-/

namespace Kinet

open FiniteMap List VoteState List.Subset

variable {K : TypeParams}

structure VoteCall (K : TypeParams) where
  earliestRound : Nat
  author : K.NodeId
  msg : VoteMessage K
  validators : ValidatorSet K
  mapping : ValidatorMapping K
  qc : Option (QuorumCertificate K)

def VoteCall.Valid (S : SignatureScheme K) (c : VoteCall K) : Prop :=
  S.isValid c.mapping (.vote c.msg.vote) (c.author, c.msg.sig) = true

/-- State of the collector and the calls so far. -/
structure VoteRun (K : TypeParams) where
  state : VoteState K
  calls : List (VoteCall K)

namespace VoteRun

def qcs (r : VoteRun K) : List (QuorumCertificate K) := r.calls.filterMap VoteCall.qc

/-- Steps of the collector; votes are counted for `allowed` validators and their keys. -/
inductive Step (S : SignatureScheme K) (allowed : ValidatorSet K → ValidatorMapping K → Prop) :
    VoteRun K → VoteRun K → Prop where
  | process {r : VoteRun K} {author : K.NodeId} {msg : VoteMessage K}
      {validators : ValidatorSet K} {mapping : ValidatorMapping K}
      {qc : Option (QuorumCertificate K)} {state : VoteState K}
      (hround : genesisRound < msg.vote.round) (hallowed : allowed validators mapping)
      (hprocess : r.state.processVote S author msg validators mapping = .ok (qc, state)) :
      Step S allowed r ⟨state,
        r.calls ++ [⟨r.state.earliestRound, author, msg, validators, mapping, qc⟩]⟩
  | startNewRound {r : VoteRun K} {newRound : Nat} (hround : r.state.earliestRound ≤ newRound) :
      Step S allowed r ⟨r.state.startNewRound newRound, r.calls⟩

abbrev Steps (S : SignatureScheme K) (allowed : ValidatorSet K → ValidatorMapping K → Prop) :
    VoteRun K → VoteRun K → Prop :=
  Relation.ReflTransGen (Step S allowed)

variable {S : SignatureScheme K} {allowed : ValidatorSet K → ValidatorMapping K → Prop}
  {r r' : VoteRun K}

lemma qcs_append (state : VoteState K) (calls : List (VoteCall K)) (c : VoteCall K) :
    (VoteRun.mk state (calls ++ [c])).qcs = (VoteRun.mk state calls).qcs ++ c.qc.toList := by
  unfold qcs
  cases hqc : c.qc <;> simp [hqc]

/-- Votes are only counted for allowed validators. -/
lemma Steps.calls_allowed (h : Steps S allowed r r')
    (hr : ∀ c ∈ r.calls, allowed c.validators c.mapping) :
    ∀ c ∈ r'.calls, allowed c.validators c.mapping := by
  induction h with
  | refl => exact hr
  | tail _ hstep ih =>
    cases hstep with
    | process _ hallowed _ =>
      intro c hc
      rcases mem_append.mp hc with hold | hnew
      · exact ih c hold
      · obtain rfl := mem_singleton.mp hnew
        exact hallowed
    | startNewRound _ => exact ih

/-! ## Increasing rounds -/

/-- Certificates are built for increasing rounds, all of them closed. -/
structure Ordered (r : VoteRun K) : Prop where
  closed : ∀ q ∈ r.qcs, q.info.round < r.state.earliestRound
  increasing : r.qcs.Pairwise fun q q' => q.info.round < q'.info.round

theorem Step.ordered (h : Step S allowed r r') (hr : r.Ordered) : r'.Ordered := by
  cases h with
  | @process author msg validators mapping qc state hround hallowed hprocess =>
    have hprocessed := processVote_spec hprocess
    cases qc with
    | none =>
      have hsame := hprocessed.earliestRound_of_none rfl
      refine ⟨?_, ?_⟩
      · rw [qcs_append, Option.toList_none, append_nil, hsame]
        exact hr.closed
      · rw [qcs_append, Option.toList_none, append_nil]
        exact hr.increasing
    | some q =>
      obtain ⟨hinfo, hearliest⟩ := hprocessed.earliestRound_of_some rfl
      have hopen := hprocessed.earliestRound_le_of_some rfl
      have hlt : ∀ q' ∈ r.qcs, q'.info.round < q.info.round := by
        intro q' hq'
        rw [hinfo]
        exact lt_of_lt_of_le (hr.closed q' hq') hopen
      refine ⟨?_, ?_⟩
      · intro q' hq'
        rw [qcs_append, mem_append, Option.mem_toList] at hq'
        rw [hearliest, ← hinfo]
        rcases hq' with hold | hnew
        · exact Nat.lt_succ_of_lt (hlt q' hold)
        · cases hnew
          exact Nat.lt_succ_self _
      · rw [qcs_append, pairwise_append]
        refine ⟨hr.increasing, pairwise_singleton _ _, fun q' hq' q'' hq'' => ?_⟩
        rw [Option.toList_some, mem_singleton] at hq''
        rw [hq'']
        exact hlt q' hq'
  | startNewRound hround =>
    exact ⟨fun q hq => lt_of_lt_of_le (hr.closed q hq) hround, hr.increasing⟩

theorem Steps.ordered (h : Steps S allowed r r') (hr : r.Ordered) : r'.Ordered := by
  induction h with
  | refl => exact hr
  | tail _ hstep ih => exact hstep.ordered ih

/-! ## Certificates verify -/

/-- The certificate that a call built is for its vote, and is signed by a supermajority
of the validators of the call. -/
def Certified (S : SignatureScheme K) (c : VoteCall K) : Prop :=
  ∀ q, c.qc = some q → q.info = c.msg.vote ∧ genesisRound < q.info.round ∧
    ∃ ids, S.verify q.signatures c.mapping (.vote q.info) = .ok ids ∧
      c.validators.hasSuperMajorityVotes ids = .ok true

theorem Step.certified (h : Step S allowed r r')
    (hlaw : ∀ validators mapping, allowed validators mapping → S.LawfulFor mapping)
    (hr : ∀ c ∈ r.calls, Certified S c) : ∀ c ∈ r'.calls, Certified S c := by
  cases h with
  | @process author msg validators mapping qc state hround hallowed hprocess =>
    intro c hc
    rcases mem_append.mp hc with hold | hnew
    · exact hr c hold
    obtain rfl := mem_singleton.mp hnew
    have hlawful := hlaw validators mapping hallowed
    rintro q rfl
    cases processVote_spec hprocess with
    | @certified _ _ bucket invalidVoters sigcol hcollect =>
      obtain ⟨_, hbuilt⟩ := collectLoop_ends.ok hcollect
      obtain ⟨hmaj, hnew⟩ := hbuilt sigcol rfl
      obtain ⟨_, _, ids, hverify, hperm⟩ :=
        hlawful.new_ok _ _ _ bucket.nodup_map_fst_sortedPairs hnew
      refine ⟨rfl, hround, ids, hverify, ?_⟩
      exact validators.hasSuperMajorityVotes_perm hperm.symm hmaj
  | startNewRound _ => exact hr

theorem Steps.certified (h : Steps S allowed r r')
    (hlaw : ∀ validators mapping, allowed validators mapping → S.LawfulFor mapping)
    (hr : ∀ c ∈ r.calls, Certified S c) : ∀ c ∈ r'.calls, Certified S c := by
  induction h with
  | refl => exact hr
  | tail _ hstep ih => exact hstep.certified hlaw ih

/-! ## Progress -/

/-- The node sent no invalid signature in the round. -/
def Clean (S : SignatureScheme K) (r : VoteRun K) (round : Nat) (node : K.NodeId) : Prop :=
  ∀ c ∈ r.calls, c.author = node → c.msg.vote.round = round → c.Valid S

instance (S : SignatureScheme K) (r : VoteRun K) (round : Nat) (node : K.NodeId) :
    Decidable (r.Clean S round node) :=
  inferInstanceAs (Decidable (∀ c ∈ r.calls, c.author = node → c.msg.vote.round = round →
    S.isValid c.mapping (.vote c.msg.vote) (c.author, c.msg.sig) = true))

/-- The node's vote was processed while its round was open. -/
def Processed (r : VoteRun K) (vote : Vote K) (node : K.NodeId) : Prop :=
  ∃ c ∈ r.calls, c.author = node ∧ c.msg.vote = vote ∧ c.earliestRound ≤ vote.round

instance (r : VoteRun K) (vote : Vote K) (node : K.NodeId) : Decidable (r.Processed vote node) :=
  inferInstanceAs (Decidable (∃ c ∈ r.calls, c.author = node ∧ c.msg.vote = vote ∧
    c.earliestRound ≤ vote.round))

def SameValidators (r : VoteRun K) (round : Nat) (validators : ValidatorSet K)
    (mapping : ValidatorMapping K) : Prop :=
  ∀ c ∈ r.calls, c.msg.vote.round = round → c.validators = validators ∧ c.mapping = mapping

/-- The senders of the pending votes for a value. -/
def senders (r : VoteRun K) (vote : Vote K) : List K.NodeId :=
  ((r.state.round vote.round).bucket vote).sortedPairs.map Prod.fst

/-- Invariant of one round: pending votes and invalid voters come from calls, votes of
clean nodes stay as long as the round is open, and without a certificate the pending
votes, and all votes that were processed, are no supermajority. -/
structure Collecting (S : SignatureScheme K) (round : Nat) (validators : ValidatorSet K)
    (r : VoteRun K) : Prop where
  pending : ∀ v n s, v.round = round → ((r.state.round round).bucket v).lookup n = some s →
    ∃ c ∈ r.calls, c.author = n ∧ c.msg = ⟨v, s⟩
  invalid : ∀ n ∈ (r.state.round round).invalidVoters, ¬ r.Clean S round n
  kept : r.state.earliestRound ≤ round → ∀ v n, v.round = round → r.Processed v n →
    r.Clean S round n → n ∈ (r.state.round round).bucket v
  waiting : r.state.earliestRound ≤ round → ∀ v, v.round = round →
    validators.hasSuperMajorityVotes (r.senders v) = .ok false
  unfinished : (∀ q ∈ r.qcs, q.info.round ≠ round) → ∀ v, v.round = round →
    ∀ nodes : Finset K.NodeId, (∀ n ∈ nodes, r.Processed v n ∧ r.Clean S round n) →
      ¬ validators.IsSuperMajority nodes

variable {round : Nat} {validators : ValidatorSet K} {mapping : ValidatorMapping K}
  {c : VoteCall K} {state : VoteState K} {v : Vote K} {n : K.NodeId}

/-- While the round is open, what was processed is pending, so that it is no
supermajority. -/
lemma not_superMajority_of_kept
    (hkept : ∀ v n, v.round = round → r.Processed v n → r.Clean S round n →
      n ∈ (r.state.round round).bucket v)
    (hwaiting : ∀ v, v.round = round → validators.hasSuperMajorityVotes (r.senders v) = .ok false)
    (hv : v.round = round) {nodes : Finset K.NodeId}
    (hnodes : ∀ n ∈ nodes, r.Processed v n ∧ r.Clean S round n) :
    ¬ validators.IsSuperMajority nodes := by
  intro hmaj
  have hnodup : (r.senders v).Nodup := nodup_map_fst_sortedPairs _
  have hsub : nodes ⊆ (r.senders v).toFinset := by
    intro n hn
    obtain ⟨hprocessed, hclean⟩ := hnodes n hn
    have hmem := hkept v n hv hprocessed hclean
    obtain ⟨s, hs⟩ := mem_iff_lookup.mp hmem
    rw [mem_toFinset, senders, hv]
    exact mem_map.mpr ⟨(n, s), mem_sortedPairs.mpr hs, rfl⟩
  have htrue : validators.hasSuperMajorityVotes (r.senders v) = .ok true :=
    (validators.hasSuperMajorityVotes_eq_true_iff _).mpr ⟨hnodup, hmaj.mono hsub⟩
  rw [hwaiting v hv] at htrue
  cases htrue

lemma Clean.of_subset (hcalls : r.calls ⊆ r'.calls) (h : r'.Clean S round n) : r.Clean S round n :=
  fun c hc => h c (hcalls hc)

/-- A step that leaves the votes of the round alone, or closes it. -/
lemma Collecting.of_unrelated (hr : r.Collecting S round validators)
    (hbucket : ∀ v, v.round = round →
      (r'.state.round round).bucket v = (r.state.round round).bucket v)
    (hinvalid : (r'.state.round round).invalidVoters = (r.state.round round).invalidVoters)
    (hearliest : r.state.earliestRound ≤ r'.state.earliestRound) (hcalls : r.calls ⊆ r'.calls)
    (hqcs : r.qcs ⊆ r'.qcs)
    (hprocessed : ∀ v n, v.round = round → r'.Processed v n → r'.Clean S round n →
      r.Processed v n) :
    r'.Collecting S round validators where
  pending := by
    intro v n s hv hs
    rw [hbucket v hv] at hs
    obtain ⟨c, hc, hrest⟩ := hr.pending v n s hv hs
    exact ⟨c, hcalls hc, hrest⟩
  invalid := by
    intro n hn hclean
    rw [hinvalid] at hn
    exact hr.invalid n hn (hclean.of_subset hcalls)
  kept := by
    intro hopen v n hv hn hclean
    rw [hbucket v hv]
    exact hr.kept (le_trans hearliest hopen) v n hv (hprocessed v n hv hn hclean)
      (hclean.of_subset hcalls)
  waiting := by
    intro hopen v hv
    have hsenders : r'.senders v = r.senders v := by
      unfold senders
      rw [hv, hbucket v hv]
    rw [hsenders]
    exact hr.waiting (le_trans hearliest hopen) v hv
  unfinished := by
    intro hnone v hv nodes hnodes
    refine hr.unfinished (fun q hq => hnone q (hqcs hq)) v hv nodes fun n hn => ?_
    obtain ⟨hn, hclean⟩ := hnodes n hn
    exact ⟨hprocessed v n hv hn hclean, hclean.of_subset hcalls⟩

lemma Collecting.of_closed (hr : r.Collecting S round validators)
    (hempty : r'.state.round round = .empty) (hclosed : round < r'.state.earliestRound)
    (hcalls : r'.calls = r.calls) :
    r'.Collecting S round validators where
  pending := by
    intro v n s _ hs
    rw [hempty] at hs
    simp [RoundVoteState.empty, RoundVoteState.bucket] at hs
  invalid := by
    intro n hn
    rw [hempty] at hn
    simp [RoundVoteState.empty] at hn
  kept hopen := absurd hopen (not_le.mpr hclosed)
  waiting hopen := absurd hopen (not_le.mpr hclosed)
  unfinished := by
    have hunfinished := hr.unfinished
    unfold qcs Processed Clean at hunfinished ⊢
    rw [hcalls]
    exact hunfinished

/-- The node of a new call, or one whose vote was processed before. -/
lemma processed_append (h : (VoteRun.mk state (r.calls ++ [c])).Processed v n) :
    r.Processed v n ∨ n = c.author ∧ c.msg.vote = v ∧ c.earliestRound ≤ v.round := by
  obtain ⟨c', hc', hauthor, hvote, hearliest⟩ := h
  rcases mem_append.mp hc' with hold | hnew
  · exact .inl ⟨c', hold, hauthor, hvote, hearliest⟩
  · obtain rfl := mem_singleton.mp hnew
    exact .inr ⟨hauthor.symm, hvote, hearliest⟩

lemma Collecting.of_ignored (hr : r.Collecting S round validators)
    (hbucket : ∀ v, v.round = round → (state.round round).bucket v = (r.state.round round).bucket v)
    (hinvalid : (state.round round).invalidVoters = (r.state.round round).invalidVoters)
    (hearliest : r.state.earliestRound ≤ state.earliestRound)
    (hignored : c.msg.vote.round = round → c.earliestRound ≤ round →
      ¬ (VoteRun.mk state (r.calls ++ [c])).Clean S round c.author) :
    (VoteRun.mk state (r.calls ++ [c])).Collecting S round validators := by
  refine hr.of_unrelated hbucket hinvalid hearliest (subset_append_left _ _) ?_ ?_
  · intro q hq
    rw [qcs_append]
    exact mem_append_left _ hq
  · intro v n hv hn hclean
    rcases processed_append hn with h | ⟨rfl, rfl, hopen⟩
    · exact h
    · exact absurd hclean (hignored hv (hv ▸ hopen))

variable {s : K.SignatureType}

/-- With the new vote, the pending votes for its value still come from calls. -/
lemma Collecting.pending_insert (hr : r.Collecting S round validators)
    (hround : c.msg.vote.round = round)
    (hs : (((r.state.round round).bucket c.msg.vote).insert c.author c.msg.sig).lookup n = some s) :
    ∃ c' ∈ r.calls ++ [c], c'.author = n ∧ c'.msg = ⟨c.msg.vote, s⟩ := by
  rw [lookup_insert_eq_ite] at hs
  split at hs
  · next heq =>
    cases hs
    exact ⟨c, mem_append_right _ (mem_singleton_self _), heq.symm, rfl⟩
  · obtain ⟨c', hc', hrest⟩ := hr.pending _ n s hround hs
    exact ⟨c', mem_append_left _ hc', hrest⟩

/-- The signature of a clean node is valid under the keys of the round. -/
lemma Clean.isValid (hclean : r.Clean S round n)
    (hsame : r.SameValidators round validators mapping) {c' : VoteCall K} (hc' : c' ∈ r.calls)
    (hauthor : c'.author = n) (hmsg : c'.msg = ⟨v, s⟩)
    (hv : v.round = round) : S.isValid mapping (.vote v) (n, s) = true := by
  have hround : c'.msg.vote.round = round := by rw [hmsg]; exact hv
  have hvalid : c'.Valid S := hclean c' hc' hauthor hround
  unfold VoteCall.Valid at hvalid
  rw [(hsame c' hc' hround).2, hauthor, hmsg] at hvalid
  exact hvalid

/-- A vote whose signature is collected keeps the invariant, with or without a
certificate. -/
lemma Collecting.of_collect (hr : r.Collecting S round validators)
    (hround : c.msg.vote.round = round) (hopen : r.state.earliestRound ≤ round)
    (hlaw : S.LawfulFor mapping)
    (hsame : (VoteRun.mk state (r.calls ++ [c])).SameValidators round validators mapping)
    {sigcol : Option K.SCT} {bucket : FiniteMap K.NodeId K.SignatureType}
    {invalidVoters : Finset K.NodeId}
    (hcollect : collect S validators mapping (.vote c.msg.vote)
      (((r.state.round round).bucket c.msg.vote).insert c.author c.msg.sig)
      (r.state.round round).invalidVoters = .ok (sigcol, bucket, invalidVoters))
    (hpending : state.pendingVotes = (r.state.store c.msg.vote bucket invalidVoters).pendingVotes)
    (hend : sigcol = none ∨ round < state.earliestRound ∧
      ∃ q ∈ (VoteRun.mk state (r.calls ++ [c])).qcs, q.info.round = round) :
    (VoteRun.mk state (r.calls ++ [c])).Collecting S round validators := by
  have hcalls : r.calls ⊆ r.calls ++ [c] := subset_append_left _ _
  obtain ⟨hsub, _⟩ := collectLoop_ends.ok hcollect
  have hcol := collect_ok hlaw hcollect
  have hstore : state.round round = (r.state.store c.msg.vote bucket invalidVoters).round round := by
    unfold VoteState.round
    rw [hpending]
  have hbucket (v : Vote K) (hv : v.round = round) : (state.round round).bucket v =
      if v = c.msg.vote then bucket else (r.state.round round).bucket v := by
    rw [hstore, ← hv]
    exact bucket_store _ _ _ _ v
  have hinvalidVoters : (state.round round).invalidVoters = invalidVoters := by
    rw [hstore, round_store, if_pos hround.symm]
  have hkept : ∀ v n, v.round = round → (VoteRun.mk state (r.calls ++ [c])).Processed v n →
      (VoteRun.mk state (r.calls ++ [c])).Clean S round n → n ∈ (state.round round).bucket v := by
    intro v n hv hn hclean
    have hold (h : r.Processed v n) : n ∈ (r.state.round round).bucket v :=
      hr.kept hopen v n hv h (hclean.of_subset hcalls)
    rw [hbucket v hv]
    split
    · next heq =>
      subst heq
      -- the vote is among those collected, valid, and its sender was never dropped
      have hmem : n ∈ ((r.state.round round).bucket c.msg.vote).insert c.author c.msg.sig := by
        rw [AList.mem_insert]
        rcases processed_append hn with h | ⟨heq, _⟩
        · exact .inr (hold h)
        · exact .inl heq
      obtain ⟨s, hs⟩ := mem_iff_lookup.mp hmem
      obtain ⟨c', hc', hauthor, hmsg⟩ := hr.pending_insert hround hs
      have hvalid := hclean.isValid hsame hc' hauthor hmsg hround
      have hout : n ∉ (r.state.round round).invalidVoters := fun hn' =>
        hr.invalid n hn' (hclean.of_subset hcalls)
      exact mem_iff_lookup.mpr ⟨s, hcol.keeps_valid n s hs hvalid hout⟩
    · next hne =>
      rcases processed_append hn with h | ⟨_, heq, _⟩
      · exact hold h
      · exact absurd heq.symm hne
  have hwaiting (hnone : sigcol = none) : ∀ v, v.round = round →
      validators.hasSuperMajorityVotes ((VoteRun.mk state (r.calls ++ [c])).senders v) =
        .ok false := by
    intro v hv
    unfold senders
    rw [hv, hbucket v hv]
    split
    · exact hcol.waiting hnone
    · have hold := hr.waiting hopen v hv
      unfold senders at hold
      rwa [hv] at hold
  refine ⟨?_, ?_, fun _ => hkept, ?_, ?_⟩
  · intro v n s hv hs
    rw [hbucket v hv] at hs
    split at hs
    · next heq =>
      subst heq
      exact hr.pending_insert hround (hsub n s hs)
    · obtain ⟨c', hc', hrest⟩ := hr.pending v n s hv hs
      exact ⟨c', hcalls hc', hrest⟩
  · intro n hn hclean
    rw [hinvalidVoters] at hn
    rcases hcol.invalid_of_signature n hn with hold | ⟨s, hs, hinvalid⟩
    · exact hr.invalid n hold (hclean.of_subset hcalls)
    · obtain ⟨c', hc', hauthor, hmsg⟩ := hr.pending_insert hround hs
      rw [hclean.isValid hsame hc' hauthor hmsg hround] at hinvalid
      cases hinvalid
  · intro hstill
    rcases hend with hnone | ⟨hclosed, _⟩
    · exact hwaiting hnone
    · exact absurd hstill (not_le.mpr hclosed)
  · intro hnoQc v hv nodes hnodes
    rcases hend with hnone | ⟨_, q, hq, hqround⟩
    · exact not_superMajority_of_kept hkept (hwaiting hnone) hv hnodes
    · exact absurd hqround (hnoQc q hq)

/-- Every step keeps the invariant of a round whose votes are all counted for the same
validators. -/
theorem Step.collecting (h : Step S allowed r r') (hlaw : S.LawfulFor mapping)
    (hsame : r'.SameValidators round validators mapping) (hr : r.Collecting S round validators) :
    r'.Collecting S round validators := by
  cases h with
  | @startNewRound newRound hround =>
    by_cases hle : newRound ≤ round
    · have hstate : (r.state.startNewRound newRound).round round = r.state.round round := by
        rw [round_startNewRound, if_pos hle]
      exact hr.of_unrelated (fun v _ => by rw [hstate]) (by rw [hstate]) hround
        (refl _) (refl _) fun _ _ _ h _ => h
    · have hempty : (r.state.startNewRound newRound).round round = .empty := by
        rw [round_startNewRound, if_neg hle]
      exact hr.of_closed hempty (Nat.lt_of_not_le hle) rfl
  | @process author msg vs mp qc state hpos _ hprocess =>
    have hprocessed := processVote_spec hprocess
    have hcalls : r.calls ⊆ r.calls ++ [⟨r.state.earliestRound, author, msg, vs, mp, qc⟩] :=
      subset_append_left _ _
    by_cases hround : msg.vote.round = round
    · obtain ⟨hvs, hmp⟩ := hsame _ (mem_append_right _ (mem_singleton_self _)) hround
      subst hvs hmp
      cases hprocessed with
      | stale hstale =>
        apply hr.of_ignored (fun _ _ => rfl) rfl le_rfl
        intro _ hopen
        exact absurd hopen (not_le.mpr (hround ▸ hstale))
      | ignored hopen hinvalid =>
        apply hr.of_ignored
        · intro v hv
          subst hv
          rw [bucket_store]
          split
          · next heq => rw [heq]
          · rfl
        · rw [round_store, if_pos hround.symm, hround]
        · exact le_rfl
        · -- a node whose votes are ignored is not clean
          intro _ _ hclean
          rw [hround] at hinvalid
          exact hr.invalid _ hinvalid (hclean.of_subset hcalls)
      | pending hopen hauthor hcollect =>
        rw [hround] at hopen hcollect
        exact hr.of_collect hround hopen hlaw hsame hcollect rfl (.inl rfl)
      | @certified hopen hauthor bucket invalidVoters sigcol hcollect =>
        rw [hround] at hopen hcollect
        refine hr.of_collect hround hopen hlaw hsame hcollect rfl (.inr ⟨?_, ⟨msg.vote, sigcol⟩,
          ?_, hround⟩)
        · change round < msg.vote.round + 1
          omega
        · rw [qcs_append]
          exact mem_append_right _ (mem_singleton_self _)
    · -- a vote of another round
      have hstate := hprocessed.round_of_ne hround
      exact hr.of_ignored (fun v _ => by rw [hstate]) (by rw [hstate]) hprocessed.earliestRound_le
        fun h => absurd h hround

lemma Step.calls_subset (h : Step S allowed r r') : r.calls ⊆ r'.calls := by
  cases h with
  | process _ _ _ => exact subset_append_left _ _
  | startNewRound _ => exact refl _

lemma collecting_new (round₀ round : Nat) (validators : ValidatorSet K) :
    (VoteRun.mk (new round₀) []).Collecting S round validators := by
  have hempty : (new round₀ : VoteState K).round round = .empty := rfl
  refine ⟨fun v n s _ hs => ?_, fun n hn => ?_, fun _ v n _ hn => ?_, fun _ v hv => ?_, ?_⟩
  · cases hs
  · cases hn
  · obtain ⟨c, hc, _⟩ := hn
    cases hc
  · have hsenders : (VoteRun.mk (new round₀) [] : VoteRun K).senders v = [] := rfl
    rfl
  · intro _ v _ nodes hnodes hmaj
    have hnil : nodes = ∅ := by
      rw [Finset.eq_empty_iff_forall_notMem]
      intro n hn
      obtain ⟨⟨c, hc, _⟩, _⟩ := hnodes n hn
      cases hc
    subst hnil
    simp [ValidatorSet.IsSuperMajority, Quorum.IsSuperMajority, Quorum.superMajorityThreshold]
      at hmaj

theorem Steps.collecting (h : Steps S allowed r r') (hlaw : S.LawfulFor mapping)
    (hsame : r'.SameValidators round validators mapping) (hr : r.Collecting S round validators) :
    r'.Collecting S round validators := by
  induction h with
  | refl => exact hr
  | tail _ hstep ih =>
    refine hstep.collecting hlaw hsame (ih fun c hc => hsame c (hstep.calls_subset hc))

end VoteRun

end Kinet
