import Kinet.ConsensusTypes.Block

/-!
# Tips, timeouts and round certificates

A round ends with a quorum certificate (enough votes) or with a timeout
certificate (enough timeouts).  A timeout reports what its sender would extend:
its high tip, or its high certificate when it has no tip.  `HighExtendRank`
orders these reports, lexicographically by their `key` (`lt_iff_key_lt`).
-/

namespace Kinet

variable {K : TypeParams}

/-- Statement that the signer will not vote for the tip of the last timeout
certificate in this round. -/
structure NoEndorsement where
  epoch : Nat
  round : Nat
  tipQcRound : Nat
deriving DecidableEq

structure NoEndorsementCertificate (K : TypeParams) where
  msg : NoEndorsement
  signatures : K.SCT
deriving DecidableEq

structure TimeoutInfo where
  epoch : Nat
  /-- the round that timed out -/
  round : Nat
  /-- round of the certificate of the high tip, or of the high certificate -/
  highQcRound : Nat
  /-- round of the high tip, or zero without one -/
  highTipRound : Nat
deriving DecidableEq

section

variable (K)

/-- The signatures of one group of identical timeouts. -/
structure HighTipRoundSigColTuple where
  highQcRound : Nat
  highTipRound : Nat
  sigs : K.SCT
deriving DecidableEq

/-- A timeout certificate whose highest report is a quorum certificate. -/
structure NoTipCertificate where
  epoch : Nat
  round : Nat
  tipRounds : List (HighTipRoundSigColTuple K)
  highQc : QuorumCertificate K
deriving DecidableEq

/-- Permission to propose a fresh block that does not follow its parent's
certificate. -/
inductive FreshProposalCertificate where
  | nec (nec : NoEndorsementCertificate K)
  | noTip (noTip : NoTipCertificate K)
deriving DecidableEq

structure ConsensusTip where
  blockHeader : ConsensusBlockHeader K
  /-- signature of the block round's leader over the header -/
  signature : K.ST
  freshCertificate : Option (FreshProposalCertificate K)
deriving DecidableEq

/-- What a proposal of the next round has to extend. -/
inductive HighExtend where
  | tip (tip : ConsensusTip K)
  | qc (qc : QuorumCertificate K)
deriving DecidableEq

/-- A report in a timeout; a tip may come with a vote for it. -/
inductive HighExtendVote where
  | tip (tip : ConsensusTip K) (vote : Option K.SignatureType)
  | qc (qc : QuorumCertificate K)
deriving DecidableEq

structure TimeoutCertificate where
  epoch : Nat
  round : Nat
  tipRounds : List (HighTipRoundSigColTuple K)
  /-- the highest report among the timeouts -/
  highExtend : HighExtend K
deriving DecidableEq

inductive RoundCertificate where
  | qc (qc : QuorumCertificate K)
  | tc (tc : TimeoutCertificate K)
deriving DecidableEq

structure Timeout where
  tminfo : TimeoutInfo
  timeoutSignature : K.SignatureType
  highExtend : HighExtendVote K
  /-- certificate of the previous round, unless the report carries it -/
  lastRoundCertificate : Option (RoundCertificate K)
deriving DecidableEq

end

/-! ## Ranks -/

inductive HighExtendRank where
  | tip (tipRound qcRound : Nat)
  | qc (qcRound : Nat)
deriving DecidableEq

namespace HighExtendRank

/-- Order of reports; a certificate takes precedence over a tip of its round. -/
def cmp : HighExtendRank → HighExtendRank → Ordering
  | .qc q₁, .qc q₂ => compare q₁ q₂
  | .tip t₁ q₁, .tip t₂ q₂ => if t₁ ≠ t₂ then compare t₁ t₂ else compare q₁ q₂
  | .qc q₁, .tip t₂ _ => if q₁ = t₂ then .gt else compare q₁ t₂
  | .tip t₁ _, .qc q₂ => if t₁ = q₂ then .lt else compare t₁ q₂

/-- Round, kind and certificate round: the components compared in this order. -/
def key : HighExtendRank → Nat × Nat × Nat
  | .tip t q => (t, 0, q)
  | .qc q => (q, 1, 0)

def KeyLt (a b : Nat × Nat × Nat) : Prop :=
  a.1 < b.1 ∨ a.1 = b.1 ∧ (a.2.1 < b.2.1 ∨ a.2.1 = b.2.1 ∧ a.2.2 < b.2.2)

section

variable (a b : HighExtendRank)

theorem lt_iff_key_lt : a.cmp b = .lt ↔ KeyLt a.key b.key := by
  cases a <;> cases b <;> grind [cmp, key, KeyLt, Nat.compare_eq_lt]

lemma gt_iff_key_lt : a.cmp b = .gt ↔ KeyLt b.key a.key := by
  cases a <;> cases b <;> grind [cmp, key, KeyLt, Nat.compare_eq_gt]

/-- `a` does not exceed `b`. -/
def Le : Prop := a.cmp b ≠ .gt

lemma le_iff_not_key_lt : a.Le b ↔ ¬ KeyLt b.key a.key := by
  rw [Le, Ne, gt_iff_key_lt]

end

lemma le_refl (a : HighExtendRank) : a.Le a := by
  rw [le_iff_not_key_lt, KeyLt]
  omega

variable {a b : HighExtendRank}

lemma le_of_lt (h : a.cmp b = .lt) : a.Le b := by
  rw [Le, h]
  decide

lemma Le.trans {c : HighExtendRank} (hab : a.Le b) (hbc : b.Le c) : a.Le c := by
  rw [le_iff_not_key_lt, KeyLt] at *
  omega

end HighExtendRank

/-- Rank of a group with the given rounds; a tip round of zero means no tip. -/
def rankOfRounds (highQcRound highTipRound : Nat) : HighExtendRank :=
  if highTipRound = genesisRound then .qc highQcRound else .tip highTipRound highQcRound

def TimeoutInfo.rank (t : TimeoutInfo) : HighExtendRank :=
  rankOfRounds t.highQcRound t.highTipRound

def HighTipRoundSigColTuple.rank (t : HighTipRoundSigColTuple K) : HighExtendRank :=
  rankOfRounds t.highQcRound t.highTipRound

namespace HighExtend

def rank : HighExtend K → HighExtendRank
  | .tip t => .tip t.blockHeader.blockRound t.blockHeader.qc.getRound
  | .qc q => .qc q.getRound

def getQc : HighExtend K → QuorumCertificate K
  | .tip t => t.blockHeader.qc
  | .qc q => q

/-- Strict order of reports.  Different reports of the same rank are unordered. -/
def gt (a b : HighExtend K) : Bool := a.rank.cmp b.rank == .gt

end HighExtend

namespace HighExtendVote

def rank : HighExtendVote K → HighExtendRank
  | .tip t _ => .tip t.blockHeader.blockRound t.blockHeader.qc.getRound
  | .qc q => .qc q.getRound

def getQc : HighExtendVote K → QuorumCertificate K
  | .tip t _ => t.blockHeader.qc
  | .qc q => q

def toHighExtend : HighExtendVote K → HighExtend K
  | .tip t _ => .tip t
  | .qc q => .qc q

@[simp]
lemma getQc_toHighExtend (h : HighExtendVote K) : h.toHighExtend.getQc = h.getQc := by
  cases h <;> rfl

end HighExtendVote

namespace RoundCertificate

def round : RoundCertificate K → Nat
  | .qc q => q.info.round
  | .tc t => t.round

def getQc : RoundCertificate K → QuorumCertificate K
  | .qc q => q
  | .tc t => t.highExtend.getQc

end RoundCertificate

end Kinet
