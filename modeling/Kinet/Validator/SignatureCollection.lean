import Kinet.Foundation.Effect
import Kinet.Validator.ValidatorSet

/-!
# Signature collections

Consensus is generic over the signatures of validators and the collections of them in
certificates.  `SignatureScheme` lists the operations it uses, and
`SignatureScheme.LawfulFor` what is assumed of them.
-/

namespace Kinet

variable {K : TypeParams}

/-- A message of one of the certificate signing domains. -/
inductive SignedMessage (K : TypeParams) where
  | vote (vote : Vote K)
  | timeout (info : TimeoutInfo)
  | noEndorsement (msg : NoEndorsement)
deriving DecidableEq

inductive SignatureCollectionError (K : TypeParams) where
  | nodeIdNotInMapping (sigs : List (K.NodeId × K.SignatureType))
  | conflictingSignatures (node : K.NodeId) (sig₁ sig₂ : K.SignatureType)
  | invalidSignaturesCreate (sigs : List (K.NodeId × K.SignatureType))
  | invalidSignaturesVerify

/-- The signature operations that consensus uses. -/
structure SignatureScheme (K : TypeParams) where
  /-- format check of a received signature -/
  validateSig : K.SignatureType → Bool
  /-- whether a signature of a message was made with a key -/
  verifySig : K.CertPubKey → SignedMessage K → K.SignatureType → Bool
  new : List (K.NodeId × K.SignatureType) → ValidatorMapping K → SignedMessage K →
    Except (SignatureCollectionError K) K.SCT
  /-- the signers of a collection -/
  verify : K.SCT → ValidatorMapping K → SignedMessage K →
    Except (SignatureCollectionError K) (List K.NodeId)
  numSignatures : K.SCT → Nat
  /-- the collection without signatures in the genesis certificate -/
  genesisSignatures : K.SCT
  /-- the node that signed a tip's header -/
  signatureAuthor : K.ST → ConsensusBlockHeader K → Option K.NodeId

namespace SignatureScheme

variable (S : SignatureScheme K)

/-- Whether a node's signature verifies under the key the mapping has for it. -/
def isValid (mapping : ValidatorMapping K) (msg : SignedMessage K)
    (p : K.NodeId × K.SignatureType) : Bool :=
  (mapping.lookup p.1).any fun key => S.verifySig key msg p.2

/-- What consensus relies on for the keys in `mapping`: a collection is built from valid
signatures only and names their senders, and a failure reports exactly the invalid
signatures, unless a sender has no key. -/
structure LawfulFor (mapping : ValidatorMapping K) : Prop where
  new_ok : ∀ sigs msg sct, (sigs.map Prod.fst).Nodup → S.new sigs mapping msg = .ok sct →
    (∀ p ∈ sigs, S.isValid mapping msg p = true) ∧ S.numSignatures sct = sigs.length ∧
      ∃ ids, S.verify sct mapping msg = .ok ids ∧ ids.Perm (sigs.map Prod.fst)
  new_error : ∀ sigs msg e, (sigs.map Prod.fst).Nodup → S.new sigs mapping msg = .error e →
    (∃ bad, e = .invalidSignaturesCreate bad ∧ bad ≠ [] ∧
      ∀ p, p ∈ bad ↔ p ∈ sigs ∧ S.isValid mapping msg p = false) ∨
    ((∀ bad, e ≠ .invalidSignaturesCreate bad) ∧ ∃ p ∈ sigs, p.1 ∉ mapping)

end SignatureScheme

/-- The certificate that all nodes start from. -/
def QuorumCertificate.genesisQc (S : SignatureScheme K) : QuorumCertificate K :=
  ⟨⟨.genesis, genesisRound, 1⟩, S.genesisSignatures⟩

namespace TimeoutCertificate

def groups (timeouts : List (K.NodeId × Timeout K)) :
    List (TimeoutInfo × List (K.NodeId × K.SignatureType)) :=
  (timeouts.map (·.2.tminfo)).dedup.map fun info =>
    (info, (timeouts.filter fun p => p.2.tminfo = info).map fun p => (p.1, p.2.timeoutSignature))

/-- The highest report, starting from the genesis certificate. -/
def highestExtend (S : SignatureScheme K) (timeouts : List (K.NodeId × Timeout K)) : HighExtend K :=
  timeouts.foldl (fun highest p =>
      if p.2.highExtend.toHighExtend.gt highest then p.2.highExtend.toHighExtend else highest)
    (.qc (QuorumCertificate.genesisQc S))

/-- The signatures of each group, or the error of the first group that has one. -/
def collectGroups (S : SignatureScheme K) (mapping : ValidatorMapping K) :
    List (TimeoutInfo × List (K.NodeId × K.SignatureType)) →
      Except (SignatureCollectionError K) (List (HighTipRoundSigColTuple K))
  | [] => .ok []
  | (info, sigs) :: rest => do
    let sct ← S.new sigs mapping (.timeout info)
    let tipRounds ← collectGroups S mapping rest
    pure (⟨info.highQcRound, info.highTipRound, sct⟩ :: tipRounds)

/-- Build a timeout certificate.  The hash map of groups is iterated in an
unspecified `order`. -/
def new (S : SignatureScheme K) (order : List (TimeoutInfo × List (K.NodeId × K.SignatureType)) →
      List (TimeoutInfo × List (K.NodeId × K.SignatureType)))
    (epoch round : Nat) (timeouts : List (K.NodeId × Timeout K)) (mapping : ValidatorMapping K) :
    Except (SignatureCollectionError K) (TimeoutCertificate K) := do
  let tipRounds ← collectGroups S mapping (order (groups timeouts))
  pure ⟨epoch, round, tipRounds, highestExtend S timeouts⟩

lemma new_eq_ok {S : SignatureScheme K}
    {order : List (TimeoutInfo × List (K.NodeId × K.SignatureType)) →
      List (TimeoutInfo × List (K.NodeId × K.SignatureType))}
    {epoch round : Nat} {timeouts : List (K.NodeId × Timeout K)} {mapping : ValidatorMapping K}
    {tc : TimeoutCertificate K} (h : new S order epoch round timeouts mapping = .ok tc) :
    tc.epoch = epoch ∧ tc.round = round ∧ tc.highExtend = highestExtend S timeouts ∧
      collectGroups S mapping (order (groups timeouts)) = .ok tc.tipRounds := by
  unfold new at h
  rw [Effect.bind_eq_ok] at h
  obtain ⟨tipRounds, hgroups, hok⟩ := h
  cases hok
  exact ⟨rfl, rfl, rfl, hgroups⟩

end TimeoutCertificate

/-- The timeout message of a node that signs with `sign`. -/
def Timeout.new (sign : SignedMessage K → K.SignatureType) (timeout : TimeoutInfo)
    (highExtend : HighExtend K) (safeToVote : Bool)
    (lastRoundCertificate : Option (RoundCertificate K)) : Timeout K where
  tminfo := timeout
  timeoutSignature := sign (.timeout timeout)
  highExtend :=
    match highExtend with
    | .qc qc => .qc qc
    | .tip tip =>
      .tip tip (if safeToVote then
        some (sign (.vote ⟨tip.blockHeader.getId, timeout.round, timeout.epoch⟩)) else none)
  lastRoundCertificate := lastRoundCertificate

end Kinet
