import Kinet.Foundation.Rlp

/-!
# Encoding of consensus messages

Messages as they are sent: integers have the width of the source's types, ids are hashes
of 32 bytes, and every type has the encoding that the source derives or writes by hand.
-/

namespace Kinet.Wire

open Rlp RlpEncodable

/-- The types that messages are generic over. -/
structure Params where
  NodeId : Type
  SignatureType : Type
  SCT : Type
  ST : Type
  ProposedHeader : Type
  FinalizedHeader : Type
  Body : Type
  [nodeIdEncodable : RlpEncodable NodeId]
  [nodeIdDecodable : RlpDecodable NodeId]
  [signatureTypeEncodable : RlpEncodable SignatureType]
  [signatureTypeDecodable : RlpDecodable SignatureType]
  [sctEncodable : RlpEncodable SCT]
  [sctDecodable : RlpDecodable SCT]
  [stEncodable : RlpEncodable ST]
  [stDecodable : RlpDecodable ST]
  [proposedHeaderEncodable : RlpEncodable ProposedHeader]
  [proposedHeaderDecodable : RlpDecodable ProposedHeader]
  [finalizedHeaderEncodable : RlpEncodable FinalizedHeader]
  [finalizedHeaderDecodable : RlpDecodable FinalizedHeader]
  [bodyEncodable : RlpEncodable Body]
  [bodyDecodable : RlpDecodable Body]

attribute [instance] Params.nodeIdEncodable Params.nodeIdDecodable
  Params.signatureTypeEncodable Params.signatureTypeDecodable Params.sctEncodable
  Params.sctDecodable Params.stEncodable Params.stDecodable Params.proposedHeaderEncodable
  Params.proposedHeaderDecodable Params.finalizedHeaderEncodable Params.finalizedHeaderDecodable
  Params.bodyEncodable Params.bodyDecodable

/-- Values of the parameter types are read back. -/
structure Params.Lawful (P : Params) : Prop where
  nodeId : ∀ a : P.NodeId, RoundTrips a
  signatureType : ∀ a : P.SignatureType, RoundTrips a
  sct : ∀ a : P.SCT, RoundTrips a
  st : ∀ a : P.ST, RoundTrips a
  proposedHeader : ∀ a : P.ProposedHeader, RoundTrips a
  finalizedHeader : ∀ a : P.FinalizedHeader, RoundTrips a
  body : ∀ a : P.Body, RoundTrips a

/-- Rounds, epochs, sequence numbers and fees. -/
abbrev U64 := BitVec 64

/-- Ids of blocks and bodies. -/
abbrev Hash := FixedBytes 32

def maxDelayedResults : Nat := 4

def maxValidatorSetSize : Nat := 300

variable {P : Params}

/-! ## Votes and quorum certificates -/

structure Vote where
  id : Hash
  round : U64
  epoch : U64

instance : RlpEncodable Vote := .ofFields fun v => [item v.id, item v.round, item v.epoch]

instance : RlpDecodable Vote where
  decode := decodeStruct fun _ _ => do
    let id ← decode
    let round ← decode
    let epoch ← decode
    pure ⟨id, round, epoch⟩

structure QuorumCertificate (P : Params) where
  info : Vote
  signatures : P.SCT

instance : RlpEncodable (QuorumCertificate P) :=
  .ofFields fun qc => [item qc.info, item qc.signatures]

instance : RlpDecodable (QuorumCertificate P) where
  decode := decodeStruct fun _ _ => do
    let info ← decode
    let signatures ← decode
    pure ⟨info, signatures⟩

/-! ## Blocks -/

structure ConsensusBlockHeader (P : Params) where
  blockRound : U64
  epoch : U64
  qc : QuorumCertificate P
  author : P.NodeId
  seqNum : U64
  timestampNs : BitVec 128
  roundSignature : P.SignatureType
  delayedExecutionResults : List P.FinalizedHeader
  executionInputs : P.ProposedHeader
  blockBodyId : Hash
  baseFee : U64
  baseFeeTrend : U64
  baseFeeMoment : U64

namespace ConsensusBlockHeader

def rlpPayloadLength (h : ConsensusBlockHeader P) : Nat :=
  length h.blockRound + length h.epoch + length h.qc + length h.author + length h.seqNum +
    length h.timestampNs + length h.roundSignature +
    length h.delayedExecutionResults + length h.executionInputs +
    length h.blockBodyId + length h.baseFee +
    length h.baseFeeTrend + length h.baseFeeMoment

end ConsensusBlockHeader

instance : RlpEncodable (ConsensusBlockHeader P) where
  length h := h.rlpPayloadLength + lengthOfLength h.rlpPayloadLength
  encode h :=
    Header.encode ⟨true, h.rlpPayloadLength⟩ ++ encode h.blockRound ++ encode h.epoch ++
      encode h.qc ++ encode h.author ++ encode h.seqNum ++ encode h.timestampNs ++
      encode h.roundSignature ++ encode h.delayedExecutionResults ++ encode h.executionInputs ++
      encode h.blockBodyId ++ encode h.baseFee ++ encode h.baseFeeTrend ++ encode h.baseFeeMoment

instance : RlpDecodable (ConsensusBlockHeader P) where
  decode := decodeStruct fun _ _ => do
    let blockRound ← decode
    let epoch ← decode
    let qc ← decode
    let author ← decode
    let seqNum ← decode
    let timestampNs ← decode
    let roundSignature ← decode
    let delayedExecutionResults : LimitedVec P.FinalizedHeader maxDelayedResults ← decode
    let executionInputs ← decode
    let blockBodyId ← decode
    let baseFee ← decode
    let baseFeeTrend ← decode
    let baseFeeMoment ← decode
    pure ⟨blockRound, epoch, qc, author, seqNum, timestampNs, roundSignature,
      delayedExecutionResults.list, executionInputs, blockBodyId, baseFee, baseFeeTrend,
      baseFeeMoment⟩

structure ConsensusBlockBody (P : Params) where
  executionBody : P.Body

instance : RlpEncodable (ConsensusBlockBody P) := .ofFields fun b => [item b.executionBody]

instance : RlpDecodable (ConsensusBlockBody P) where
  decode := decodeStruct fun _ _ => do
    let executionBody ← decode
    pure ⟨executionBody⟩

/-! ## Fresh proposals -/

structure NoEndorsement where
  epoch : U64
  round : U64
  tipQcRound : U64

instance : RlpEncodable NoEndorsement :=
  .ofFields fun ne => [item ne.epoch, item ne.round, item ne.tipQcRound]

instance : RlpDecodable NoEndorsement where
  decode := decodeStruct fun _ _ => do
    let epoch ← decode
    let round ← decode
    let tipQcRound ← decode
    pure ⟨epoch, round, tipQcRound⟩

structure NoEndorsementCertificate (P : Params) where
  msg : NoEndorsement
  signatures : P.SCT

instance : RlpEncodable (NoEndorsementCertificate P) :=
  .ofFields fun nec => [item nec.msg, item nec.signatures]

instance : RlpDecodable (NoEndorsementCertificate P) where
  decode := decodeStruct fun _ _ => do
    let msg ← decode
    let signatures ← decode
    pure ⟨msg, signatures⟩

structure HighTipRoundSigColTuple (P : Params) where
  highQcRound : U64
  highTipRound : U64
  sigs : P.SCT

instance : RlpEncodable (HighTipRoundSigColTuple P) :=
  .ofFields fun t => [item t.highQcRound, item t.highTipRound, item t.sigs]

instance : RlpDecodable (HighTipRoundSigColTuple P) where
  decode := decodeStruct fun _ _ => do
    let highQcRound ← decode
    let highTipRound ← decode
    let sigs ← decode
    pure ⟨highQcRound, highTipRound, sigs⟩

/-- The groups of timeouts in a certificate. -/
abbrev TipRounds (P : Params) := LimitedVec (HighTipRoundSigColTuple P) maxValidatorSetSize

structure NoTipCertificate (P : Params) where
  epoch : U64
  round : U64
  tipRounds : TipRounds P
  highQc : QuorumCertificate P

instance : RlpEncodable (NoTipCertificate P) :=
  .ofFields fun c => [item c.epoch, item c.round, item c.tipRounds, item c.highQc]

instance : RlpDecodable (NoTipCertificate P) where
  decode := decodeStruct fun _ _ => do
    let epoch ← decode
    let round ← decode
    let tipRounds ← decode
    let highQc ← decode
    pure ⟨epoch, round, tipRounds, highQc⟩

inductive FreshProposalCertificate (P : Params) where
  | nec (nec : NoEndorsementCertificate P)
  | noTip (noTip : NoTipCertificate P)

instance : RlpEncodable (FreshProposalCertificate P) := .ofList fun
  | .nec nec => [item 1#8, item nec]
  | .noTip noTip => [item 2#8, item noTip]

instance : RlpDecodable (FreshProposalCertificate P) where
  decode := decodePayload do
    let tag : BitVec 8 ← decode
    match tag.toNat with
    | 1 => do
      let nec ← decode
      pure (.nec nec)
    | 2 => do
      let noTip ← decode
      pure (.noTip noTip)
    | _ => throw (.custom "failed to decode unknown FreshProposalCertificate")

/-! ## Tips and timeouts -/

structure ConsensusTip (P : Params) where
  blockHeader : ConsensusBlockHeader P
  signature : P.ST
  freshCertificate : Option (FreshProposalCertificate P)

instance : RlpEncodable (ConsensusTip P) := .ofFields fun tip =>
  [item tip.blockHeader, item tip.signature] ++ (tip.freshCertificate.map item).toList

instance : RlpDecodable (ConsensusTip P) where
  decode := decodeStruct fun startedLen payloadLength => do
    let blockHeader ← decode
    let signature ← decode
    let freshCertificate ← decodeTrailing startedLen payloadLength
    pure ⟨blockHeader, signature, freshCertificate⟩

inductive HighExtend (P : Params) where
  | tip (tip : ConsensusTip P)
  | qc (qc : QuorumCertificate P)

instance : RlpEncodable (HighExtend P) := .ofList fun
  | .tip tip => [item 1#8, item tip]
  | .qc qc => [item 2#8, item qc]

instance : RlpDecodable (HighExtend P) where
  decode := decodePayload do
    let tag : BitVec 8 ← decode
    match tag.toNat with
    | 1 => do
      let tip ← decode
      pure (.tip tip)
    | 2 => do
      let qc ← decode
      pure (.qc qc)
    | _ => throw (.custom "failed to decode unknown HighExtend")

inductive HighExtendVote (P : Params) where
  | tip (tip : ConsensusTip P) (vote : Option P.SignatureType)
  | qc (qc : QuorumCertificate P)

instance : RlpEncodable (HighExtendVote P) := .ofList fun
  | .tip tip (some voteSignature) => [item 1#8, item tip, item voteSignature]
  | .tip tip none => [item 1#8, item tip]
  | .qc qc => [item 2#8, item qc]

/-- The signature of a vote, if there is anything left in the payload. -/
def decodeMaybeVoteSignature : Decoder (Option P.SignatureType) := do
  let payload ← get
  if !payload.isEmpty then some <$> decode else pure none

instance : RlpDecodable (HighExtendVote P) where
  decode := decodePayload do
    let tag : BitVec 8 ← decode
    match tag.toNat with
    | 1 => do
      let tip ← decode
      let maybeVoteSignature ← decodeMaybeVoteSignature
      pure (.tip tip maybeVoteSignature)
    | 2 => do
      let qc ← decode
      pure (.qc qc)
    | _ => throw (.custom "failed to decode unknown HighExtend")

structure TimeoutCertificate (P : Params) where
  epoch : U64
  round : U64
  tipRounds : TipRounds P
  highExtend : HighExtend P

instance : RlpEncodable (TimeoutCertificate P) :=
  .ofFields fun tc => [item tc.epoch, item tc.round, item tc.tipRounds, item tc.highExtend]

instance : RlpDecodable (TimeoutCertificate P) where
  decode := decodeStruct fun _ _ => do
    let epoch ← decode
    let round ← decode
    let tipRounds ← decode
    let highExtend ← decode
    pure ⟨epoch, round, tipRounds, highExtend⟩

inductive RoundCertificate (P : Params) where
  | qc (qc : QuorumCertificate P)
  | tc (tc : TimeoutCertificate P)

instance : RlpEncodable (RoundCertificate P) := .ofList fun
  | .qc qc => [item 1#8, item qc]
  | .tc tc => [item 2#8, item tc]

instance : RlpDecodable (RoundCertificate P) where
  decode := decodePayload do
    let tag : BitVec 8 ← decode
    match tag.toNat with
    | 1 => do
      let qc ← decode
      pure (.qc qc)
    | 2 => do
      let tc ← decode
      pure (.tc tc)
    | _ => throw (.custom "failed to decode unknown RoundCertificate")

structure TimeoutInfo where
  epoch : U64
  round : U64
  highQcRound : U64
  highTipRound : U64

instance : RlpEncodable TimeoutInfo :=
  .ofFields fun t => [item t.epoch, item t.round, item t.highQcRound, item t.highTipRound]

instance : RlpDecodable TimeoutInfo where
  decode := decodeStruct fun _ _ => do
    let epoch ← decode
    let round ← decode
    let highQcRound ← decode
    let highTipRound ← decode
    pure ⟨epoch, round, highQcRound, highTipRound⟩

structure Timeout (P : Params) where
  tminfo : TimeoutInfo
  timeoutSignature : P.SignatureType
  highExtend : HighExtendVote P
  lastRoundCertificate : Option (RoundCertificate P)

instance : RlpEncodable (Timeout P) := .ofFields fun t =>
  [item t.tminfo, item t.timeoutSignature, item t.highExtend] ++
    (t.lastRoundCertificate.map item).toList

instance : RlpDecodable (Timeout P) where
  decode := decodeStruct fun startedLen payloadLength => do
    let tminfo ← decode
    let timeoutSignature ← decode
    let highExtend ← decode
    let lastRoundCertificate ← decodeTrailing startedLen payloadLength
    pure ⟨tminfo, timeoutSignature, highExtend, lastRoundCertificate⟩

/-! ## Messages -/

structure ProposalMessage (P : Params) where
  proposalRound : U64
  proposalEpoch : U64
  tip : ConsensusTip P
  blockBody : ConsensusBlockBody P
  lastRoundTc : Option (TimeoutCertificate P)

instance : RlpEncodable (ProposalMessage P) := .ofFields fun m =>
  [item m.proposalRound, item m.proposalEpoch, item m.tip, item m.blockBody] ++
    (m.lastRoundTc.map item).toList

instance : RlpDecodable (ProposalMessage P) where
  decode := decodeStruct fun startedLen payloadLength => do
    let proposalRound ← decode
    let proposalEpoch ← decode
    let tip ← decode
    let blockBody ← decode
    let lastRoundTc ← decodeTrailing startedLen payloadLength
    pure ⟨proposalRound, proposalEpoch, tip, blockBody, lastRoundTc⟩

structure VoteMessage (P : Params) where
  vote : Vote
  sig : P.SignatureType

instance : RlpEncodable (VoteMessage P) := .ofFields fun m => [item m.vote, item m.sig]

instance : RlpDecodable (VoteMessage P) where
  decode := decodeStruct fun _ _ => do
    let vote ← decode
    let sig ← decode
    pure ⟨vote, sig⟩

structure RoundRecoveryMessage (P : Params) where
  round : U64
  epoch : U64
  tc : TimeoutCertificate P

instance : RlpEncodable (RoundRecoveryMessage P) :=
  .ofFields fun m => [item m.round, item m.epoch, item m.tc]

instance : RlpDecodable (RoundRecoveryMessage P) where
  decode := decodeStruct fun _ _ => do
    let round ← decode
    let epoch ← decode
    let tc ← decode
    pure ⟨round, epoch, tc⟩

structure NoEndorsementMessage (P : Params) where
  msg : NoEndorsement
  signature : P.SignatureType

instance : RlpEncodable (NoEndorsementMessage P) :=
  .ofFields fun m => [item m.msg, item m.signature]

instance : RlpDecodable (NoEndorsementMessage P) where
  decode := decodeStruct fun _ _ => do
    let msg ← decode
    let signature ← decode
    pure ⟨msg, signature⟩

structure AdvanceRoundMessage (P : Params) where
  lastRoundCertificate : RoundCertificate P

instance : RlpEncodable (AdvanceRoundMessage P) := .ofFields fun m => [item m.lastRoundCertificate]

instance : RlpDecodable (AdvanceRoundMessage P) where
  decode := decodeStruct fun _ _ => do
    let lastRoundCertificate ← decode
    pure ⟨lastRoundCertificate⟩

inductive ProtocolMessage (P : Params) where
  | proposal (m : ProposalMessage P)
  | vote (m : VoteMessage P)
  | timeout (m : Timeout P)
  | roundRecovery (m : RoundRecoveryMessage P)
  | noEndorsement (m : NoEndorsementMessage P)
  | advanceRound (m : AdvanceRoundMessage P)

def protocolMessageName : Bytes :=
  [0x50, 0x72, 0x6f, 0x74, 0x6f, 0x63, 0x6f, 0x6c, 0x4d, 0x65, 0x73, 0x73, 0x61, 0x67, 0x65]

def nameItem : Item := ⟨(encodeBytes protocolMessageName).length, encodeBytes protocolMessageName⟩

instance : RlpEncodable (ProtocolMessage P) := .ofList fun
  | .proposal m => [nameItem, item 1#8, item m]
  | .vote m => [nameItem, item 2#8, item m]
  | .timeout m => [nameItem, item 3#8, item m]
  | .roundRecovery m => [nameItem, item 4#8, item m]
  | .noEndorsement m => [nameItem, item 5#8, item m]
  | .advanceRound m => [nameItem, item 6#8, item m]

instance : RlpDecodable (ProtocolMessage P) where
  decode := decodePayload do
    let name ← Header.decodeBytes false
    if name ≠ protocolMessageName then throw (.custom "expected to decode type ProtocolMessage")
    else do
      let tag : BitVec 8 ← decode
      match tag.toNat with
      | 1 => do
        let m ← decode
        pure (.proposal m)
      | 2 => do
        let m ← decode
        pure (.vote m)
      | 3 => do
        let m ← decode
        pure (.timeout m)
      | 4 => do
        let m ← decode
        pure (.roundRecovery m)
      | 5 => do
        let m ← decode
        pure (.noEndorsement m)
      | 6 => do
        let m ← decode
        pure (.advanceRound m)
      | _ => throw (.custom "failed to decode unknown ProtocolMessage")

end Kinet.Wire
