import Kinet.Consensus.Collect
import Kinet.Consensus.Message

/-!
# No-endorsement collection

Refusals are collected for each round and certificate round; the first
supermajority of valid signatures becomes the no-endorsement certificate of the
round.

Main results:

- `NoEndorsementState.processNoEndorsement_spec`: where a certificate comes
  from; the certificate slot is empty whenever one is built.
-/

namespace Kinet

variable {K : TypeParams}

structure RoundNoEndorsementState (K : TypeParams) where
  /-- pending signatures for each certificate round of the refused tip -/
  qcRoundNoEndorsements : FiniteMap Nat (FiniteMap K.NodeId K.SignatureType)
  invalidNoEndorsementSenders : Finset K.NodeId
  certificate : Option (NoEndorsementCertificate K)

def RoundNoEndorsementState.empty : RoundNoEndorsementState K := ⟨∅, ∅, none⟩

/-- Signatures pending for a certificate round. -/
def RoundNoEndorsementState.bucket (s : RoundNoEndorsementState K) (qcRound : Nat) :
    FiniteMap K.NodeId K.SignatureType :=
  (s.qcRoundNoEndorsements.lookup qcRound).getD ∅

/-- Refusals of all rounds from `earliestRound` on. -/
structure NoEndorsementState (K : TypeParams) where
  pendingNoEndorsements : FiniteMap Nat (RoundNoEndorsementState K)
  earliestRound : Nat

namespace NoEndorsementState

def new (round : Nat) : NoEndorsementState K := ⟨∅, round⟩

def round (s : NoEndorsementState K) (round : Nat) : RoundNoEndorsementState K :=
  (s.pendingNoEndorsements.lookup round).getD .empty

variable (s : NoEndorsementState K) (msg : NoEndorsement)
  (bucket : FiniteMap K.NodeId K.SignatureType) (invalidSenders : Finset K.NodeId)
  (certificate : Option (NoEndorsementCertificate K))

/-- Replace the bucket of a refusal, the invalid senders and the certificate of its
round. -/
def store : NoEndorsementState K :=
  { s with
    pendingNoEndorsements := s.pendingNoEndorsements.insert msg.round
      ⟨(s.round msg.round).qcRoundNoEndorsements.insert msg.tipQcRound bucket, invalidSenders,
        certificate⟩ }

/-- Collect a refusal; the result is the certificate that it completes. -/
def processNoEndorsement (S : SignatureScheme K) (s : NoEndorsementState K) (author : K.NodeId)
    (noEndorsementMsg : NoEndorsementMessage K) (validators : ValidatorSet K)
    (validatorMapping : ValidatorMapping K) :
    Except Panic (Option (NoEndorsementCertificate K) × NoEndorsementState K) :=
  let msg := noEndorsementMsg.msg
  if msg.round < s.earliestRound then .ok (none, s)
  else
    let roundState := s.round msg.round
    let bucket := roundState.bucket msg.tipQcRound
    if author ∈ roundState.invalidNoEndorsementSenders then
      .ok (none, s.store msg bucket roundState.invalidNoEndorsementSenders roundState.certificate)
    else do
      let (sigcol, bucket, invalidSenders) ←
        collect S validators validatorMapping (.noEndorsement msg)
          (bucket.insert author noEndorsementMsg.signature)
          roundState.invalidNoEndorsementSenders
      match sigcol with
      | none => pure (none, s.store msg bucket invalidSenders roundState.certificate)
      | some sigcol =>
        if roundState.certificate.isSome then .error .necExists
        else
          pure (some ⟨msg, sigcol⟩, { s.store msg bucket invalidSenders (some ⟨msg, sigcol⟩) with
              earliestRound := msg.round + 1 })

def getNec (round : Nat) : Option (NoEndorsementCertificate K) :=
  (s.round round).certificate

/-- Forget the rounds before `newRound`. -/
def startNewRound (newRound : Nat) : NoEndorsementState K :=
  ⟨s.pendingNoEndorsements.retain fun round _ => decide (newRound ≤ round),
    max newRound s.earliestRound⟩

/-! ## Lookups -/

lemma round_store (r : Nat) : (s.store msg bucket invalidSenders certificate).round r =
      if r = msg.round then
        ⟨(s.round msg.round).qcRoundNoEndorsements.insert msg.tipQcRound bucket, invalidSenders,
          certificate⟩
      else s.round r := by
  unfold round store
  simp only [FiniteMap.lookup_insert_eq_ite]
  split <;> rfl

lemma round_startNewRound (newRound r : Nat) :
    (s.startNewRound newRound).round r = if newRound ≤ r then s.round r else .empty := by
  unfold round startNewRound
  simp only [FiniteMap.lookup_retain]
  cases s.pendingNoEndorsements.lookup r with
  | none => simp
  | some roundState => by_cases h : newRound ≤ r <;> simp [h, Option.filter]

/-! ## Processing a refusal -/

def CertifiedRoundsOver : Prop :=
  ∀ r nec, s.getNec r = some nec → r < s.earliestRound

/-- What happens to the state when a refusal is processed. -/
inductive Processed (S : SignatureScheme K) (s : NoEndorsementState K) (author : K.NodeId)
    (neMsg : NoEndorsementMessage K) (validators : ValidatorSet K)
    (mapping : ValidatorMapping K) :
    Option (NoEndorsementCertificate K) → NoEndorsementState K → Prop where
  | stale (hstale : neMsg.msg.round < s.earliestRound) :
      Processed S s author neMsg validators mapping none s
  | ignored (hround : s.earliestRound ≤ neMsg.msg.round)
      (hinvalid : author ∈ (s.round neMsg.msg.round).invalidNoEndorsementSenders) :
      Processed S s author neMsg validators mapping none
        (s.store neMsg.msg ((s.round neMsg.msg.round).bucket neMsg.msg.tipQcRound)
          (s.round neMsg.msg.round).invalidNoEndorsementSenders
          (s.round neMsg.msg.round).certificate)
  | pending (hround : s.earliestRound ≤ neMsg.msg.round)
      {bucket : FiniteMap K.NodeId K.SignatureType} {invalidSenders : Finset K.NodeId}
      (hcollect : collect S validators mapping (.noEndorsement neMsg.msg)
        (((s.round neMsg.msg.round).bucket neMsg.msg.tipQcRound).insert author neMsg.signature)
        (s.round neMsg.msg.round).invalidNoEndorsementSenders =
          .ok (none, bucket, invalidSenders)) :
      Processed S s author neMsg validators mapping none
        (s.store neMsg.msg bucket invalidSenders (s.round neMsg.msg.round).certificate)
  | certified (hround : s.earliestRound ≤ neMsg.msg.round)
      {bucket : FiniteMap K.NodeId K.SignatureType} {invalidSenders : Finset K.NodeId}
      {sigcol : K.SCT}
      (hcollect : collect S validators mapping (.noEndorsement neMsg.msg)
        (((s.round neMsg.msg.round).bucket neMsg.msg.tipQcRound).insert author neMsg.signature)
        (s.round neMsg.msg.round).invalidNoEndorsementSenders =
          .ok (some sigcol, bucket, invalidSenders)) :
      Processed S s author neMsg validators mapping (some ⟨neMsg.msg, sigcol⟩)
        { s.store neMsg.msg bucket invalidSenders (some ⟨neMsg.msg, sigcol⟩) with
          earliestRound := neMsg.msg.round + 1 }

variable {c : NoEndorsementCertificate K}

section

variable {S : SignatureScheme K} {s s' : NoEndorsementState K} {author : K.NodeId}
  {neMsg : NoEndorsementMessage K} {validators : ValidatorSet K} {mapping : ValidatorMapping K}
  {nec : Option (NoEndorsementCertificate K)}

variable (S s author neMsg validators mapping) in
/-- A refusal is processed, or collecting fails.  Once every certified round is over, the
certificate slot is empty when a certificate is built. -/
def Outcome : Except Panic (Option (NoEndorsementCertificate K) × NoEndorsementState K) → Prop
  | .ok (nec, s') => Processed S s author neMsg validators mapping nec s'
  | .error p => s.CertifiedRoundsOver → collect S validators mapping (.noEndorsement neMsg.msg)
      (((s.round neMsg.msg.round).bucket neMsg.msg.tipQcRound).insert author neMsg.signature)
      (s.round neMsg.msg.round).invalidNoEndorsementSenders = .error p

theorem processNoEndorsement_spec
    {r : Except Panic (Option (NoEndorsementCertificate K) × NoEndorsementState K)}
    (h : s.processNoEndorsement S author neMsg validators mapping = r) :
    Outcome S s author neMsg validators mapping r := by
  subst h
  unfold processNoEndorsement
  by_cases hstale : neMsg.msg.round < s.earliestRound
  · rw [if_pos hstale]
    exact .stale hstale
  have hround := Nat.le_of_not_lt hstale
  by_cases hinvalid : author ∈ (s.round neMsg.msg.round).invalidNoEndorsementSenders
  · rw [if_neg hstale, if_pos hinvalid]
    exact .ignored hround hinvalid
  rw [if_neg hstale, if_neg hinvalid]
  cases hcol : collect S validators mapping (.noEndorsement neMsg.msg)
      (((s.round neMsg.msg.round).bucket neMsg.msg.tipQcRound).insert author neMsg.signature)
      (s.round neMsg.msg.round).invalidNoEndorsementSenders with
  | error p => exact fun _ => hcol
  | ok r =>
    obtain ⟨sigcol, bucket, invalidSenders⟩ := r
    cases sigcol with
    | none => exact .pending hround hcol
    | some sigcol =>
      cases hnec : (s.round neMsg.msg.round).certificate with
      | none => exact .certified hround hcol
      | some nec => exact fun hover => absurd (hover _ nec hnec) hstale

section

variable (h : Processed S s author neMsg validators mapping nec s')
include h

/-- The certificates after a refusal are the old ones and the one that was built. -/
lemma Processed.getNec {r : Nat} (hc : s'.getNec r = some c) :
    s.getNec r = some c ∨ nec = some c ∧ r = neMsg.msg.round ∧ c.msg = neMsg.msg := by
  unfold NoEndorsementState.getNec at *
  cases h with
  | stale _ => exact .inl hc
  | ignored _ _ | pending _ _ =>
    rw [round_store] at hc
    split at hc
    · next hr =>
      rw [hr]
      exact .inl hc
    · exact .inl hc
  | certified _ _ =>
    change ((s.store _ _ _ _).round r).certificate = some c at hc
    rw [round_store] at hc
    split at hc
    · next hr =>
      cases hc
      exact .inr ⟨rfl, hr, rfl⟩
    · exact .inl hc

lemma Processed.earliestRound_le : s.earliestRound ≤ s'.earliestRound := by
  cases h with
  | certified hround _ => exact Nat.le_succ_of_le hround
  | _ => exact le_refl _

lemma Processed.certifiedRoundsOver (hover : s.CertifiedRoundsOver) : s'.CertifiedRoundsOver := by
  intro r c hc
  rcases h.getNec hc with hold | ⟨hnec, hr, _⟩
  · exact lt_of_lt_of_le (hover r c hold) h.earliestRound_le
  · cases h with
    | certified _ _ =>
      rw [hr]
      exact Nat.lt_succ_self _
    | _ => cases hnec

end

end

variable {s : NoEndorsementState K}

lemma getNec_startNewRound {newRound r : Nat} (h : (s.startNewRound newRound).getNec r = some c) :
    s.getNec r = some c := by
  unfold getNec at *
  rw [round_startNewRound] at h
  split at h
  · exact h
  · cases h

lemma CertifiedRoundsOver.startNewRound (h : s.CertifiedRoundsOver) (newRound : Nat) :
    (s.startNewRound newRound).CertifiedRoundsOver := by
  intro r c hc
  have hlt := h r c (getNec_startNewRound hc)
  exact lt_of_lt_of_le hlt (le_max_right _ _)

end NoEndorsementState

end Kinet
