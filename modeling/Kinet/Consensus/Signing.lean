import Kinet.Consensus.Message
import Kinet.Foundation.LruCache

/-!
# Message validation

The stateless checks that a message passes before consensus handles it: its
author is a validator, it is well formed, and the certificates in it verify.
Verified certificates are cached.
-/

namespace Kinet

open Round

variable {K : TypeParams}

/-- Why a message is rejected. -/
inductive ValidationError where
  | invalidAuthor
  | notWellFormed
  | invalidSignature
  | invalidTcRound
  | duplicateTcTipRound
  | emptySignersTcTipRound
  | tooManyTcTipRound
  | insufficientStake
  | validatorSetDataUnavailable
  | signaturesDuplicateNode
  | invalidVersion
  | invalidEpoch
deriving DecidableEq

/-- Certificates that were verified lately, the latest first. -/
structure CertificateCache (K : TypeParams) where
  qcs : List (QuorumCertificate K)
  tcs : List (TimeoutCertificate K)
  necs : List (NoEndorsementCertificate K)

namespace CertificateCache

/-- Number of certificates of each kind that are kept. -/
def capacity : Nat := 1000

/-- Put an entry in front and drop the oldest one when the cache is full. -/
def put {α : Type} [DecidableEq α] (a : α) (l : List α) : List α :=
  (a :: l.filter (· ≠ a)).take capacity

lemma lawful_put (α : Type) [DecidableEq α] :
    LawfulCache (fun (l : List α) a => a ∈ l) [] (fun l a => put a l) where
  not_holds_empty _ := List.not_mem_nil
  holds_put := List.mem_of_mem_take_cons_filter

def empty : CertificateCache K := ⟨[], [], []⟩

def cacheValidatedQc (c : CertificateCache K) (qc : QuorumCertificate K) : CertificateCache K :=
  { c with qcs := put qc c.qcs }

def cacheValidatedTc (c : CertificateCache K) (tc : TimeoutCertificate K) : CertificateCache K :=
  { c with tcs := put tc c.tcs }

def cacheValidatedNec (c : CertificateCache K) (nec : NoEndorsementCertificate K) :
    CertificateCache K :=
  { c with necs := put nec c.necs }

end CertificateCache

/-- Validator set, keys and leader of an epoch's round. -/
abbrev EpochToValidators (K : TypeParams) :=
  Nat → Nat → Except ValidationError (ValidatorSet K × ValidatorMapping K × K.NodeId)

/-- The lookup of a node; a round has only one epoch. -/
def epochToValidators (env : Env K) (epochManager : EpochManager) : EpochToValidators K :=
  fun epoch round =>
    match epochManager.getEpoch round with
    | none => .error .invalidEpoch
    | some e =>
      if epoch ≠ e then .error .invalidEpoch
      else
        match env.valEpochMap.getValSet epoch, env.valEpochMap.getCertPubkeys epoch with
        | some validators, some mapping =>
          .ok (validators, mapping, env.getLeader round validators)
        | _, _ => .error .validatorSetDataUnavailable

/-- Checks that may update the certificate cache, also when they fail. -/
abbrev ValidateM (K : TypeParams) := ExceptT ValidationError (StateM (CertificateCache K))

def ValidateM.exec {α : Type} (m : ValidateM K α) (c : CertificateCache K) :
    Except ValidationError α × CertificateCache K :=
  m.run.run c

lemma ValidateM.exec_bind {α β : Type} (m : ValidateM K α) (f : α → ValidateM K β)
    (c : CertificateCache K) :
    (m >>= f).exec c = match m.exec c with
      | (.ok a, c') => (f a).exec c'
      | (.error e, c') => (.error e, c') := by
  have hrun : (m >>= f).exec c = ExceptT.bindCont f (m.exec c).1 (m.exec c).2 := rfl
  rw [hrun]
  cases hm : m.exec c with
  | mk r c' => cases r <;> rfl

/-- A check without effect on the cache. -/
def ValidateM.ofExcept {α : Type} (r : Except ValidationError α) : ValidateM K α :=
  ExceptT.mk (pure r)

def checkSuperMajority (validators : ValidatorSet K) (nodeIds : List K.NodeId) :
    Except ValidationError Unit :=
  match validators.hasSuperMajorityVotes nodeIds with
  | .error _ => .error .signaturesDuplicateNode
  | .ok false => .error .insufficientStake
  | .ok true => .ok ()

def checkSignatures (S : SignatureScheme K) (validators : ValidatorSet K)
    (mapping : ValidatorMapping K) (sct : K.SCT) (msg : SignedMessage K) :
    Except ValidationError Unit :=
  match S.verify sct mapping msg with
  | .error _ => .error .invalidSignature
  | .ok nodeIds => checkSuperMajority validators nodeIds

section

variable (S : SignatureScheme K) (lookup : EpochToValidators K)

/-- The checks on a quorum certificate that is not cached; the result says whether
to cache it. -/
def checkQc (qc : QuorumCertificate K) : Except ValidationError Bool := do
  let (validators, mapping, _) ← lookup qc.getEpoch qc.getRound
  if qc.getRound = genesisRound then
    if qc = QuorumCertificate.genesisQc S then pure false else .error .invalidSignature
  else do
    checkSignatures S validators mapping qc.signatures (.vote qc.info)
    pure true

def verifyQc (qc : QuorumCertificate K) : ValidateM K Unit := do
  if qc ∈ (← get).qcs then pure ()
  else
    let cache ← ValidateM.ofExcept (checkQc S lookup qc)
    if cache then modify fun c => c.cacheValidatedQc qc else pure ()

def checkNec (nec : NoEndorsementCertificate K) : Except ValidationError Unit := do
  let (validators, mapping, _) ← lookup nec.msg.epoch nec.msg.round
  checkSignatures S validators mapping nec.signatures (.noEndorsement nec.msg)

def verifyNec (nec : NoEndorsementCertificate K) : ValidateM K Unit := do
  if nec ∈ (← get).necs then pure ()
  else
    ValidateM.ofExcept (checkNec S lookup nec)
    modify fun c => c.cacheValidatedNec nec

/-- Check the groups of a timeout certificate.  Collects the signers and the highest
rank. -/
def checkTipRounds (mapping : ValidatorMapping K) (epoch round : Nat) :
    List (HighTipRoundSigColTuple K) → List (Nat × Nat) → List K.NodeId → HighExtendRank →
      Except ValidationError (List K.NodeId × HighExtendRank)
  | [], _, nodeIds, highestRank => .ok (nodeIds, highestRank)
  | t :: rest, seenTipRounds, nodeIds, highestRank =>
    if round ≤ t.highQcRound then .error .invalidTcRound
    else if (t.highQcRound, t.highTipRound) ∈ seenTipRounds then .error .duplicateTcTipRound
    else if S.numSignatures t.sigs = 0 then .error .emptySignersTcTipRound
    else
      match S.verify t.sigs mapping (.timeout ⟨epoch, round, t.highQcRound, t.highTipRound⟩) with
      | .error _ => .error .invalidSignature
      | .ok signers =>
        if (firstDuplicate nodeIds signers).isSome then .error .signaturesDuplicateNode
        else
          checkTipRounds mapping epoch round rest
            ((t.highQcRound, t.highTipRound) :: seenTipRounds) (nodeIds ++ signers)
            (if t.rank.cmp highestRank = .gt then t.rank else highestRank)

/-- The checks on the signatures of a timeout certificate; the result is the highest
rank of its groups. -/
def checkTcSigners (tc : TimeoutCertificate K) : Except ValidationError HighExtendRank := do
  let (validators, mapping, _) ← lookup tc.epoch tc.round
  if validators.len < tc.tipRounds.length then .error .tooManyTcTipRound
  else do
    let (nodeIds, highestRank) ←
      checkTipRounds S mapping tc.epoch tc.round tc.tipRounds [] [] (.qc genesisRound)
    checkSuperMajority validators nodeIds
    pure highestRank

def verifyTcWith (verifyExtend : ValidateM K Unit) (tc : TimeoutCertificate K) :
    ValidateM K Unit := do
  if tc ∈ (← get).tcs then pure ()
  else
    let highestRank ← ValidateM.ofExcept (checkTcSigners S lookup tc)
    verifyExtend
    if tc.highExtend.rank ≠ highestRank then throw .notWellFormed
    else modify fun c => c.cacheValidatedTc tc

/-- A certificate that no timeout reported a tip, as a timeout certificate. -/
def NoTipCertificate.toTc (noTip : NoTipCertificate K) : TimeoutCertificate K :=
  ⟨noTip.epoch, noTip.round, noTip.tipRounds, .qc noTip.highQc⟩

/-- Author and certificate checks of a tip that need no signatures of validators. -/
def checkTip (tip : ConsensusTip K) : Except ValidationError Unit := do
  let header := tip.blockHeader
  let (_, _, leader) ← lookup header.epoch header.blockRound
  match S.signatureAuthor tip.signature header with
  | none => .error .invalidSignature
  | some tipAuthor =>
    if tipAuthor ≠ leader ∨ tipAuthor ≠ header.author then .error .invalidAuthor
    else if immediatelyFollows header.blockRound header.qc.getRound then
      if tip.freshCertificate.isSome then .error .notWellFormed else .ok ()
    else
      match tip.freshCertificate with
      | none => .error .notWellFormed
      | some (.nec nec) =>
        if nec.msg.round ≠ header.blockRound then .error .notWellFormed
        else if nec.msg.tipQcRound ≠ header.qc.getRound then .error .notWellFormed
        else .ok ()
      | some (.noTip noTip) =>
        if !immediatelyFollows header.blockRound noTip.round then .error .notWellFormed
        else if noTip.highQc.getRound ≠ header.qc.getRound then .error .notWellFormed
        else .ok ()

def verifyTip (tip : ConsensusTip K) : ValidateM K Unit := do
  ValidateM.ofExcept (checkTip S lookup tip)
  verifyQc S lookup tip.blockHeader.qc
  match tip.freshCertificate with
  | some (.nec nec) => verifyNec S lookup nec
  | some (.noTip noTip) => verifyTcWith S lookup (verifyQc S lookup noTip.highQc) noTip.toTc
  | none => pure ()

def verifyHighExtend : HighExtend K → ValidateM K Unit
  | .qc qc => verifyQc S lookup qc
  | .tip tip => verifyTip S lookup tip

def verifyTc (tc : TimeoutCertificate K) : ValidateM K Unit :=
  verifyTcWith S lookup (verifyHighExtend S lookup tc.highExtend) tc

def verifyRoundCertificate : RoundCertificate K → ValidateM K Unit
  | .tc tc => verifyTc S lookup tc
  | .qc qc => verifyQc S lookup qc

end

/-! ## Messages -/

def verifyEpoch (epochManager : EpochManager) (round epoch : Nat) : Except ValidationError Unit :=
  if epochManager.getEpoch round = some epoch then .ok () else .error .invalidEpoch

namespace ProposalMessage

/-- A proposal carries the certificate of the previous round and extends what that
certificate allows. -/
def wellFormedProposal (p : ProposalMessage K) : Except ValidationError Unit :=
  if p.tip.blockHeader.blockBodyId ≠ K.bodyGetId p.blockBody then .error .notWellFormed
  else if immediatelyFollows p.proposalRound p.tip.blockHeader.qc.getRound then
    if p.lastRoundTc.isSome then .error .notWellFormed else .ok ()
  else
    match p.lastRoundTc with
    | none => .error .notWellFormed
    | some tc =>
      if !immediatelyFollows p.proposalRound tc.round then .error .notWellFormed
      else
        match tc.highExtend with
        | .qc tcQc =>
          if tcQc.getRound ≠ p.tip.blockHeader.qc.getRound then .error .notWellFormed
          else .ok ()
        | .tip tcTip =>
          if tcTip = p.tip then .ok ()
          else if p.proposalRound ≠ p.tip.blockHeader.blockRound then .error .notWellFormed
          else if tcTip.blockHeader.qc.getRound ≠ p.tip.blockHeader.qc.getRound then
            .error .notWellFormed
          else .ok ()

def validate (S : SignatureScheme K) (lookup : EpochToValidators K)
    (epochManager : EpochManager) (p : ProposalMessage K) : ValidateM K Unit := do
  ValidateM.ofExcept p.wellFormedProposal
  ValidateM.ofExcept (verifyEpoch epochManager p.proposalRound p.proposalEpoch)
  verifyTip S lookup p.tip
  match p.lastRoundTc with
  | some tc => verifyTc S lookup tc
  | none => pure ()

end ProposalMessage

/-- Checks of a vote; its signature is checked when it is collected. -/
def VoteMessage.validate (S : SignatureScheme K) (epochManager : EpochManager)
    (m : VoteMessage K) : Except ValidationError Unit :=
  if !S.validateSig m.sig then .error .invalidSignature
  else verifyEpoch epochManager m.vote.round m.vote.epoch

namespace Timeout

/-- A timeout reports its rank and carries the certificate of the previous round. -/
def wellFormedTimeout (t : Timeout K) : Except ValidationError Unit :=
  if t.highExtend.rank ≠ t.tminfo.rank then .error .notWellFormed
  else if immediatelyFollows t.tminfo.round t.highExtend.getQc.getRound then
    if t.lastRoundCertificate.isSome then .error .notWellFormed else .ok ()
  else
    match t.lastRoundCertificate with
    | none => .error .notWellFormed
    | some roundCertificate =>
      if !immediatelyFollows t.tminfo.round roundCertificate.round then
        .error .notWellFormed
      else .ok ()

/-- Checks of a timeout.  A certificate that is not needed to enter the round is
removed unchecked. -/
def validate (S : SignatureScheme K) (lookup : EpochToValidators K)
    (epochManager : EpochManager) (currentRound : Nat) (t : Timeout K) :
    ValidateM K (Timeout K) := do
  if !S.validateSig t.timeoutSignature then throw .invalidSignature
  else
    ValidateM.ofExcept t.wellFormedTimeout
    ValidateM.ofExcept (verifyEpoch epochManager t.tminfo.round t.tminfo.epoch)
    let t := if t.tminfo.round ≤ currentRound then { t with lastRoundCertificate := none } else t
    match t.lastRoundCertificate with
    | some roundCertificate => verifyRoundCertificate S lookup roundCertificate
    | none => pure ()
    verifyHighExtend S lookup t.highExtend.toHighExtend
    pure t

end Timeout

namespace RoundRecoveryMessage

/-- A recovery request carries the previous round's timeout certificate for a tip. -/
def wellFormedRoundRecovery (m : RoundRecoveryMessage K) : Except ValidationError Unit :=
  if !immediatelyFollows m.round m.tc.round then .error .invalidTcRound
  else
    match m.tc.highExtend with
    | .qc _ => .error .notWellFormed
    | .tip _ => .ok ()

def validate (S : SignatureScheme K) (lookup : EpochToValidators K)
    (epochManager : EpochManager) (m : RoundRecoveryMessage K) : ValidateM K Unit := do
  ValidateM.ofExcept m.wellFormedRoundRecovery
  ValidateM.ofExcept (verifyEpoch epochManager m.round m.epoch)
  verifyTc S lookup m.tc

end RoundRecoveryMessage

/-- Checks of a refusal; its signature is checked when it is collected. -/
def NoEndorsementMessage.validate (S : SignatureScheme K) (epochManager : EpochManager)
    (m : NoEndorsementMessage K) : Except ValidationError Unit :=
  if !S.validateSig m.signature then .error .invalidSignature
  else verifyEpoch epochManager m.msg.round m.msg.epoch

namespace ConsensusMessage

def verify (env : Env K) (epochManager : EpochManager) (author : K.NodeId)
    (m : ConsensusMessage K) : Except ValidationError Unit :=
  match epochManager.getEpoch m.message.getRound with
  | none => .error .invalidEpoch
  | some epoch =>
    match env.valEpochMap.getValSet epoch with
    | none => .error .validatorSetDataUnavailable
    | some validators => if validators.isMember author then .ok () else .error .invalidAuthor

/-- Checks of a message; the result is the message that is handled. -/
def validate (env : Env K) (epochManager : EpochManager) (currentRound : Nat)
    (m : ConsensusMessage K) : ValidateM K (ProtocolMessage K) := do
  let lookup := epochToValidators env epochManager
  if m.version ≠ env.version then throw .invalidVersion
  else
    match m.message with
    | .proposal p =>
      p.validate env.scheme lookup epochManager
      pure m.message
    | .vote v =>
      ValidateM.ofExcept (v.validate env.scheme epochManager)
      pure m.message
    | .timeout t =>
      let t ← t.validate env.scheme lookup epochManager currentRound
      pure (.timeout t)
    | .roundRecovery r =>
      r.validate env.scheme lookup epochManager
      pure m.message
    | .noEndorsement n =>
      ValidateM.ofExcept (n.validate env.scheme epochManager)
      pure m.message
    | .advanceRound a =>
      verifyRoundCertificate env.scheme lookup a.lastRoundCertificate
      pure m.message

end ConsensusMessage

end Kinet
