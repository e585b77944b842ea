import Kinet.Consensus.Collect
import Kinet.Consensus.Message

/-!
# Vote collection

Votes are collected for each round and each value; the first supermajority of
valid signatures becomes the quorum certificate of the round.

Main results:

- `VoteState.processVote_spec`: where a certificate comes from.
- `VoteState.round_startNewRound`: only older rounds are forgotten.
-/

namespace Kinet

variable {K : TypeParams}

structure RoundVoteState (K : TypeParams) where
  /-- pending signatures for each vote -/
  pendingVotes : FiniteMap (Vote K) (FiniteMap K.NodeId K.SignatureType)
  /-- nodes that sent an invalid signature in this round -/
  invalidVoters : Finset K.NodeId

def RoundVoteState.empty : RoundVoteState K := ⟨∅, ∅⟩

def RoundVoteState.bucket (s : RoundVoteState K) (vote : Vote K) :
    FiniteMap K.NodeId K.SignatureType :=
  (s.pendingVotes.lookup vote).getD ∅

/-- Votes of all rounds from `earliestRound` on. -/
structure VoteState (K : TypeParams) where
  pendingVotes : FiniteMap Nat (RoundVoteState K)
  earliestRound : Nat

namespace VoteState

def new (round : Nat) : VoteState K := ⟨∅, round⟩

def round (s : VoteState K) (round : Nat) : RoundVoteState K :=
  (s.pendingVotes.lookup round).getD .empty

/-- Replace the bucket of a vote and the invalid voters of its round. -/
def store (s : VoteState K) (vote : Vote K) (bucket : FiniteMap K.NodeId K.SignatureType)
    (invalidVoters : Finset K.NodeId) : VoteState K :=
  { s with
    pendingVotes := s.pendingVotes.insert vote.round
      ⟨(s.round vote.round).pendingVotes.insert vote bucket, invalidVoters⟩ }

/-- Collect a vote; the result is the certificate that it completes. -/
def processVote (S : SignatureScheme K) (s : VoteState K) (author : K.NodeId)
    (voteMsg : VoteMessage K) (validators : ValidatorSet K)
    (validatorMapping : ValidatorMapping K) :
    Except Panic (Option (QuorumCertificate K) × VoteState K) :=
  let vote := voteMsg.vote
  if vote.round < s.earliestRound then .ok (none, s)
  else
    let roundState := s.round vote.round
    let bucket := roundState.bucket vote
    if author ∈ roundState.invalidVoters then
      .ok (none, s.store vote bucket roundState.invalidVoters)
    else do
      let (sigcol, bucket, invalidVoters) ←
        collect S validators validatorMapping (.vote vote) (bucket.insert author voteMsg.sig)
          roundState.invalidVoters
      let s := s.store vote bucket invalidVoters
      match sigcol with
      | none => pure (none, s)
      | some sigcol => pure (some ⟨vote, sigcol⟩, { s with earliestRound := vote.round + 1 })

/-- Forget the rounds before `newRound`. -/
def startNewRound (s : VoteState K) (newRound : Nat) : VoteState K :=
  ⟨s.pendingVotes.retain fun round _ => decide (newRound ≤ round), newRound⟩

/-! ## Lookups -/

section

variable (s : VoteState K) (vote : Vote K) (bucket : FiniteMap K.NodeId K.SignatureType)
  (invalidVoters : Finset K.NodeId)

lemma round_store (r : Nat) : (s.store vote bucket invalidVoters).round r = if r = vote.round then
        ⟨(s.round vote.round).pendingVotes.insert vote bucket, invalidVoters⟩
      else s.round r := by
  unfold round store
  simp only [FiniteMap.lookup_insert_eq_ite]
  split <;> rfl

lemma bucket_store (v : Vote K) : ((s.store vote bucket invalidVoters).round v.round).bucket v =
      if v = vote then bucket else (s.round v.round).bucket v := by
  rw [round_store]
  by_cases hv : v = vote
  · subst hv
    simp [RoundVoteState.bucket]
  · split
    · next hr => simp [RoundVoteState.bucket, hv, hr]
    · rfl

end

theorem round_startNewRound (s : VoteState K) (newRound r : Nat) :
    (s.startNewRound newRound).round r = if newRound ≤ r then s.round r else .empty := by
  unfold round startNewRound
  simp only [FiniteMap.lookup_retain]
  cases s.pendingVotes.lookup r with
  | none => simp
  | some roundState => by_cases h : newRound ≤ r <;> simp [h, Option.filter]

/-! ## Processing a vote -/

/-- The outcomes of a vote. -/
inductive VoteProcessed (S : SignatureScheme K) (s : VoteState K) (author : K.NodeId)
    (voteMsg : VoteMessage K) (validators : ValidatorSet K) (mapping : ValidatorMapping K) :
    Option (QuorumCertificate K) → VoteState K → Prop where
  | stale (hstale : voteMsg.vote.round < s.earliestRound) :
      VoteProcessed S s author voteMsg validators mapping none s
  | ignored (hround : s.earliestRound ≤ voteMsg.vote.round)
      (hinvalid : author ∈ (s.round voteMsg.vote.round).invalidVoters) :
      VoteProcessed S s author voteMsg validators mapping none
        (s.store voteMsg.vote ((s.round voteMsg.vote.round).bucket voteMsg.vote)
          (s.round voteMsg.vote.round).invalidVoters)
  | pending (hround : s.earliestRound ≤ voteMsg.vote.round)
      (hauthor : author ∉ (s.round voteMsg.vote.round).invalidVoters)
      {bucket : FiniteMap K.NodeId K.SignatureType} {invalidVoters : Finset K.NodeId}
      (hcollect : collect S validators mapping (.vote voteMsg.vote)
        (((s.round voteMsg.vote.round).bucket voteMsg.vote).insert author voteMsg.sig)
        (s.round voteMsg.vote.round).invalidVoters = .ok (none, bucket, invalidVoters)) :
      VoteProcessed S s author voteMsg validators mapping none
        (s.store voteMsg.vote bucket invalidVoters)
  | certified (hround : s.earliestRound ≤ voteMsg.vote.round)
      (hauthor : author ∉ (s.round voteMsg.vote.round).invalidVoters)
      {bucket : FiniteMap K.NodeId K.SignatureType} {invalidVoters : Finset K.NodeId}
      {sigcol : K.SCT}
      (hcollect : collect S validators mapping (.vote voteMsg.vote)
        (((s.round voteMsg.vote.round).bucket voteMsg.vote).insert author voteMsg.sig)
        (s.round voteMsg.vote.round).invalidVoters = .ok (some sigcol, bucket, invalidVoters)) :
      VoteProcessed S s author voteMsg validators mapping (some ⟨voteMsg.vote, sigcol⟩)
        { s.store voteMsg.vote bucket invalidVoters with
          earliestRound := voteMsg.vote.round + 1 }

section

variable {S : SignatureScheme K} {s s' : VoteState K} {author : K.NodeId} {voteMsg : VoteMessage K}
  {validators : ValidatorSet K} {mapping : ValidatorMapping K} {qc : Option (QuorumCertificate K)}

variable (S s author voteMsg validators mapping) in
/-- A vote is processed, or collecting fails. -/
def VoteOutcome : Except Panic (Option (QuorumCertificate K) × VoteState K) → Prop
  | .ok (qc, s') => VoteProcessed S s author voteMsg validators mapping qc s'
  | .error p => collect S validators mapping (.vote voteMsg.vote)
      (((s.round voteMsg.vote.round).bucket voteMsg.vote).insert author voteMsg.sig)
      (s.round voteMsg.vote.round).invalidVoters = .error p

theorem processVote_spec {r : Except Panic (Option (QuorumCertificate K) × VoteState K)}
    (h : s.processVote S author voteMsg validators mapping = r) :
    VoteOutcome S s author voteMsg validators mapping r := by
  subst h
  unfold processVote
  by_cases hstale : voteMsg.vote.round < s.earliestRound
  · rw [if_pos hstale]
    exact .stale hstale
  have hround := Nat.le_of_not_lt hstale
  by_cases hinvalid : author ∈ (s.round voteMsg.vote.round).invalidVoters
  · rw [if_neg hstale, if_pos hinvalid]
    exact .ignored hround hinvalid
  rw [if_neg hstale, if_neg hinvalid]
  cases hcol : collect S validators mapping (.vote voteMsg.vote)
      (((s.round voteMsg.vote.round).bucket voteMsg.vote).insert author voteMsg.sig)
      (s.round voteMsg.vote.round).invalidVoters with
  | error p => exact hcol
  | ok r =>
    obtain ⟨sigcol, bucket, invalidVoters⟩ := r
    cases sigcol with
    | none => exact .pending hround hinvalid hcol
    | some sigcol => exact .certified hround hinvalid hcol

section

variable (h : VoteProcessed S s author voteMsg validators mapping qc s')
include h

lemma VoteProcessed.earliestRound_of_none (hqc : qc = none) :
    s'.earliestRound = s.earliestRound := by
  cases h with
  | certified _ _ _ => cases hqc
  | _ => rfl

variable {q : QuorumCertificate K}

lemma VoteProcessed.earliestRound_of_some (hqc : qc = some q) :
    q.info = voteMsg.vote ∧ s'.earliestRound = voteMsg.vote.round + 1 := by
  cases h with
  | certified _ _ _ =>
    cases hqc
    exact ⟨rfl, rfl⟩
  | _ => cases hqc

/-- A certificate is only built for a round that is still open. -/
lemma VoteProcessed.earliestRound_le_of_some (hqc : qc = some q) :
    s.earliestRound ≤ voteMsg.vote.round := by
  cases h with
  | certified hround _ _ => exact hround
  | _ => cases hqc

lemma VoteProcessed.earliestRound_le : s.earliestRound ≤ s'.earliestRound := by
  cases h with
  | certified hround _ _ => exact Nat.le_succ_of_le hround
  | _ => exact le_refl _

/-- Votes of other rounds stay. -/
lemma VoteProcessed.round_of_ne {r : Nat} (hr : voteMsg.vote.round ≠ r) :
    s'.round r = s.round r := by
  have hstore (bucket : FiniteMap K.NodeId K.SignatureType) (invalidVoters : Finset K.NodeId) :
      (s.store voteMsg.vote bucket invalidVoters).round r = s.round r := by
    rw [round_store, if_neg hr.symm]
  cases h with
  | stale _ => rfl
  | ignored _ _ | pending _ _ _ | certified _ _ _ => exact hstore _ _

end

end

end VoteState

end Kinet
