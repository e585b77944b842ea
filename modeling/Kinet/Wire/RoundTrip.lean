import Kinet.Wire.Types

/-!
# Messages are read back

Decoders limit the number of delayed results in a header, and of groups of timeouts in a
certificate.  Messages within these limits are read back from their encoding.

Main results:

- `Wire.protocolMessage_roundTrip`: every message within the limits is read back, with
  nothing left, and different messages are written differently.
-/

namespace Kinet.Wire

open Rlp List

variable {P : Params}

/-! ## Limits -/

def ConsensusBlockHeader.WithinLimits (h : ConsensusBlockHeader P) : Prop :=
  h.delayedExecutionResults.length ≤ maxDelayedResults

/-- There are few enough groups of timeouts. -/
def TipRounds.WithinLimits (t : TipRounds P) : Prop := t.list.length ≤ maxValidatorSetSize

/-- Limits of the parts, here and below. -/
def FreshProposalCertificate.WithinLimits : FreshProposalCertificate P → Prop
  | .nec _ => True
  | .noTip c => TipRounds.WithinLimits c.tipRounds

def ConsensusTip.WithinLimits (tip : ConsensusTip P) : Prop :=
  tip.blockHeader.WithinLimits ∧ ∀ cert ∈ tip.freshCertificate, cert.WithinLimits

def HighExtend.WithinLimits : HighExtend P → Prop
  | .tip t => t.WithinLimits
  | .qc _ => True

def HighExtendVote.WithinLimits : HighExtendVote P → Prop
  | .tip t _ => t.WithinLimits
  | .qc _ => True

def TimeoutCertificate.WithinLimits (tc : TimeoutCertificate P) : Prop :=
  TipRounds.WithinLimits tc.tipRounds ∧ tc.highExtend.WithinLimits

def RoundCertificate.WithinLimits : RoundCertificate P → Prop
  | .qc _ => True
  | .tc c => c.WithinLimits

def Timeout.WithinLimits (t : Timeout P) : Prop :=
  t.highExtend.WithinLimits ∧ ∀ cert ∈ t.lastRoundCertificate, cert.WithinLimits

def ProposalMessage.WithinLimits (m : ProposalMessage P) : Prop :=
  m.tip.WithinLimits ∧ ∀ tc ∈ m.lastRoundTc, tc.WithinLimits

def ProtocolMessage.WithinLimits : ProtocolMessage P → Prop
  | .proposal m => m.WithinLimits
  | .vote _ => True
  | .timeout m => m.WithinLimits
  | .roundRecovery m => m.tc.WithinLimits
  | .noEndorsement _ => True
  | .advanceRound m => m.lastRoundCertificate.WithinLimits

/-! ## Parts of messages -/

lemma roundTrips_u8 (x : BitVec 8) : RoundTrips x := canonicalPrimitives.integers rfl (by decide) x

lemma roundTrips_u64 (x : U64) : RoundTrips x := canonicalPrimitives.integers rfl (by decide) x

lemma roundTrips_vote (v : Vote) : RoundTrips v :=
  (roundTripsList_of_struct rfl rfl rfl (.cons (canonicalPrimitives.arrays v.id)
    (.cons (roundTrips_u64 v.round) (.cons (roundTrips_u64 v.epoch) (.nil v))))).toRoundTrips

lemma roundTrips_noEndorsement (ne : NoEndorsement) : RoundTrips ne :=
  (roundTripsList_of_struct rfl rfl rfl (.cons (roundTrips_u64 ne.epoch)
    (.cons (roundTrips_u64 ne.round) (.cons (roundTrips_u64 ne.tipQcRound) (.nil ne))))).toRoundTrips

lemma roundTrips_timeoutInfo (t : TimeoutInfo) : RoundTrips t :=
  (roundTripsList_of_struct rfl rfl rfl (.cons (roundTrips_u64 t.epoch)
    (.cons (roundTrips_u64 t.round) (.cons (roundTrips_u64 t.highQcRound)
      (.cons (roundTrips_u64 t.highTipRound) (.nil t)))))).toRoundTrips

variable {m : ProtocolMessage P}

/-- The name in front of a message is read and compared. -/
lemma payloadFields_named {items : List Item} {d : Decoder (ProtocolMessage P)}
    (h : PayloadFields items d m) :
    PayloadFields (nameItem :: items) (do
      let name ← Header.decodeBytes false
      if name ≠ protocolMessageName then throw (.custom "expected to decode type ProtocolMessage")
      else d) m := by
  refine ⟨forall_mem_cons.mpr ⟨rfl, h.exact⟩, fun hsize => ?_⟩
  change (encodeBytes protocolMessageName ++ payload items).length < 2 ^ 64 at hsize
  rw [length_append] at hsize
  change (Header.decodeBytes false >>= _ : Decoder (ProtocolMessage P))
    (encodeBytes protocolMessageName ++ payload items) = _
  rw [(canonicalPrimitives.bytes protocolMessageName).run_bind (by omega), if_neg (not_not.mpr rfl)]
  exact h.run (by omega)

namespace Params.Lawful

variable (hP : P.Lawful)

include hP

lemma qc (qc : QuorumCertificate P) : RoundTrips qc :=
  (roundTripsList_of_struct rfl rfl rfl (.cons (roundTrips_vote qc.info)
    (.cons (hP.sct qc.signatures) (.nil qc)))).toRoundTrips

lemma nec (nec : NoEndorsementCertificate P) : RoundTrips nec :=
  (roundTripsList_of_struct rfl rfl rfl (.cons (roundTrips_noEndorsement nec.msg)
    (.cons (hP.sct nec.signatures) (.nil nec)))).toRoundTrips

lemma tipRounds {t : TipRounds P} (h : TipRounds.WithinLimits t) : RoundTrips t :=
  roundTrips_limitedVec h fun g _ =>
    (roundTripsList_of_struct rfl rfl rfl (.cons (roundTrips_u64 g.highQcRound)
      (.cons (roundTrips_u64 g.highTipRound) (.cons (hP.sct g.sigs) (.nil g))))).toRoundTrips

lemma blockBody (b : ConsensusBlockBody P) : RoundTrips b :=
  (roundTripsList_of_struct rfl rfl rfl (.cons (hP.body b.executionBody) (.nil b))).toRoundTrips

lemma noTip {c : NoTipCertificate P} (h : TipRounds.WithinLimits c.tipRounds) : RoundTrips c :=
  (roundTripsList_of_struct rfl rfl rfl (.cons (roundTrips_u64 c.epoch)
    (.cons (roundTrips_u64 c.round) (.cons (hP.tipRounds h) (.cons (hP.qc c.highQc)
      (.nil c)))))).toRoundTrips

lemma freshCertificate {c : FreshProposalCertificate P} (h : c.WithinLimits) :
    RoundTripsList c := by
  cases c with
  | nec nec =>
    exact roundTripsList_of_payload rfl rfl rfl (.cons (roundTrips_u8 1#8) (.last (hP.nec nec)))
  | noTip noTip =>
    exact roundTripsList_of_payload rfl rfl rfl (.cons (roundTrips_u8 2#8) (.last (hP.noTip h)))

lemma header {h : ConsensusBlockHeader P} (hlimits : h.WithinLimits) : RoundTrips h := by
  let results : LimitedVec P.FinalizedHeader maxDelayedResults := ⟨h.delayedExecutionResults⟩
  have hresults : RoundTrips results :=
    roundTrips_limitedVec hlimits fun r _ => hP.finalizedHeader r
  have htimestamp : RoundTrips h.timestampNs := canonicalPrimitives.integers rfl (by decide) _
  let items : List Item :=
    [item h.blockRound, item h.epoch, item h.qc, item h.author, item h.seqNum,
      item h.timestampNs, item h.roundSignature, item results, item h.executionInputs,
      item h.blockBodyId, item h.baseFee, item h.baseFeeTrend, item h.baseFeeMoment]
  -- the length that is computed by hand is the length of the fields
  have hlength : h.rlpPayloadLength = payloadLength items := by
    simp only [ConsensusBlockHeader.rlpPayloadLength, payloadLength, items, map_cons,
      map_nil, sum_cons, sum_nil, item, add_assoc, add_zero]
    rfl
  have hencode : encode h = encodeList items := by
    simp only [encode, hlength, encodeList, payload, items, flatMap_cons, flatMap_nil,
      append_assoc, append_nil, item]
    rfl
  refine (roundTripsList_of_struct hencode ?_ rfl (.cons (roundTrips_u64 _)
    (.cons (roundTrips_u64 _) (.cons (hP.qc _) (.cons (hP.nodeId _) (.cons (roundTrips_u64 _)
      (.cons htimestamp (.cons (hP.signatureType _) (.cons hresults (.cons (hP.proposedHeader _)
        (.cons (canonicalPrimitives.arrays _) (.cons (roundTrips_u64 _) (.cons (roundTrips_u64 _)
          (.cons (roundTrips_u64 _) (.nil h))))))))))))))).toRoundTrips
  change h.rlpPayloadLength + lengthOfLength h.rlpPayloadLength = _
  rw [hlength]
  rfl

lemma tip {t : ConsensusTip P} (h : t.WithinLimits) : RoundTrips t := by
  obtain ⟨hheader, hfresh⟩ := h
  obtain ⟨blockHeader, signature, fresh⟩ := t
  refine (roundTripsList_of_trailing rfl rfl rfl (.cons (hP.header hheader)
    (.cons (hP.st signature) ?_))).toRoundTrips
  cases fresh with
  | none => exact .none _ _
  | some c => exact .some (hP.freshCertificate (hfresh c rfl))

lemma highExtend {e : HighExtend P} (h : e.WithinLimits) : RoundTrips e := by
  cases e with
  | tip t =>
    exact (roundTripsList_of_payload rfl rfl rfl (.cons (roundTrips_u8 1#8)
      (.last (hP.tip h)))).toRoundTrips
  | qc qc =>
    exact (roundTripsList_of_payload rfl rfl rfl (.cons (roundTrips_u8 2#8)
      (.last (hP.qc qc)))).toRoundTrips

/-- The signature of the vote is missing only if the payload ends before it. -/
lemma highExtendVote {e : HighExtendVote P} (h : e.WithinLimits) : RoundTrips e := by
  cases e with
  | tip t vote =>
    cases vote with
    | none =>
      refine (roundTripsList_of_payload rfl rfl rfl (.cons (roundTrips_u8 1#8)
        (.cons (hP.tip h) ⟨by simp, fun _ => ?_⟩))).toRoundTrips
      rfl
    | some sig =>
      have hsig := hP.signatureType sig
      refine (roundTripsList_of_payload rfl rfl rfl (.cons (roundTrips_u8 1#8)
        (.cons (hP.tip h) ⟨forall_mem_singleton.mpr hsig.exact, fun hsize => ?_⟩)))
          |>.toRoundTrips
      have hpayload : payload [item sig] = encode sig := append_nil _
      rw [hpayload] at hsize ⊢
      have hread : decodeMaybeVoteSignature (encode sig) = .ok (some sig, []) := by
        have hmap := hsig.decodes.map some hsize []
        rw [append_nil] at hmap
        change (if !(encode sig).isEmpty then _ else _ : Decoder (Option P.SignatureType)) _ = _
        rw [if_pos (by simp [hsig.ne_nil])]
        exact hmap
      change (decodeMaybeVoteSignature (encode sig) >>= fun p => _ : Except Error _) = _
      rw [hread]
      rfl
  | qc qc =>
    exact (roundTripsList_of_payload rfl rfl rfl (.cons (roundTrips_u8 2#8)
      (.last (hP.qc qc)))).toRoundTrips

lemma tc {c : TimeoutCertificate P} (h : c.WithinLimits) : RoundTripsList c :=
  roundTripsList_of_struct rfl rfl rfl (.cons (roundTrips_u64 c.epoch)
    (.cons (roundTrips_u64 c.round) (.cons (hP.tipRounds h.1) (.cons (hP.highExtend h.2)
      (.nil c)))))

lemma roundCertificate {c : RoundCertificate P} (h : c.WithinLimits) : RoundTripsList c := by
  cases c with
  | qc qc =>
    exact roundTripsList_of_payload rfl rfl rfl (.cons (roundTrips_u8 1#8) (.last (hP.qc qc)))
  | tc tc =>
    exact roundTripsList_of_payload rfl rfl rfl (.cons (roundTrips_u8 2#8)
      (.last (hP.tc h).toRoundTrips))

lemma timeout {t : Timeout P} (h : t.WithinLimits) : RoundTrips t := by
  obtain ⟨hextend, hlast⟩ := h
  obtain ⟨tminfo, signature, extend, last⟩ := t
  refine (roundTripsList_of_trailing rfl rfl rfl (.cons (roundTrips_timeoutInfo tminfo)
    (.cons (hP.signatureType signature) (.cons (hP.highExtendVote hextend) ?_)))).toRoundTrips
  cases last with
  | none => exact .none _ _
  | some c => exact .some (hP.roundCertificate (hlast c rfl))

/-! ## Messages -/

lemma proposal {m : ProposalMessage P} (h : m.WithinLimits) : RoundTrips m := by
  obtain ⟨htip, hlast⟩ := h
  obtain ⟨round, epoch, tip, body, last⟩ := m
  refine (roundTripsList_of_trailing rfl rfl rfl (.cons (roundTrips_u64 round)
    (.cons (roundTrips_u64 epoch) (.cons (hP.tip htip) (.cons (hP.blockBody body)
      ?_))))).toRoundTrips
  cases last with
  | none => exact .none _ _
  | some c => exact .some (hP.tc (hlast c rfl))

lemma vote (m : VoteMessage P) : RoundTrips m :=
  (roundTripsList_of_struct rfl rfl rfl (.cons (roundTrips_vote m.vote)
    (.cons (hP.signatureType m.sig) (.nil m)))).toRoundTrips

lemma roundRecovery {m : RoundRecoveryMessage P} (h : m.tc.WithinLimits) : RoundTrips m :=
  (roundTripsList_of_struct rfl rfl rfl (.cons (roundTrips_u64 m.round)
    (.cons (roundTrips_u64 m.epoch) (.cons (hP.tc h).toRoundTrips (.nil m))))).toRoundTrips

lemma noEndorsement (m : NoEndorsementMessage P) : RoundTrips m :=
  (roundTripsList_of_struct rfl rfl rfl (.cons (roundTrips_noEndorsement m.msg)
    (.cons (hP.signatureType m.signature) (.nil m)))).toRoundTrips

lemma advanceRound {m : AdvanceRoundMessage P} (h : m.lastRoundCertificate.WithinLimits) :
    RoundTrips m :=
  (roundTripsList_of_struct rfl rfl rfl (.cons (hP.roundCertificate h).toRoundTrips
    (.nil m))).toRoundTrips

lemma message (h : m.WithinLimits) : RoundTrips m := by
  refine RoundTripsList.toRoundTrips ?_
  cases m with
  | proposal m =>
    exact roundTripsList_of_payload rfl rfl rfl (payloadFields_named (.cons (roundTrips_u8 1#8)
      (.last (hP.proposal h))))
  | vote m =>
    exact roundTripsList_of_payload rfl rfl rfl (payloadFields_named (.cons (roundTrips_u8 2#8)
      (.last (hP.vote m))))
  | timeout m =>
    exact roundTripsList_of_payload rfl rfl rfl (payloadFields_named (.cons (roundTrips_u8 3#8)
      (.last (hP.timeout h))))
  | roundRecovery m =>
    exact roundTripsList_of_payload rfl rfl rfl (payloadFields_named (.cons (roundTrips_u8 4#8)
      (.last (hP.roundRecovery h))))
  | noEndorsement m =>
    exact roundTripsList_of_payload rfl rfl rfl (payloadFields_named (.cons (roundTrips_u8 5#8)
      (.last (hP.noEndorsement m))))
  | advanceRound m =>
    exact roundTripsList_of_payload rfl rfl rfl (payloadFields_named (.cons (roundTrips_u8 6#8)
      (.last (hP.advanceRound h))))

end Params.Lawful

/-- A message within the limits of the decoders is read back from its encoding, with
nothing left, and no other such message has the same encoding. -/
theorem protocolMessage_roundTrip (hP : P.Lawful) (m : ProtocolMessage P) (hm : m.WithinLimits)
    (hsize : (encode m).length < 2 ^ 64) :
    decode (encode m) = .ok (m, []) ∧
      ∀ m' : ProtocolMessage P, m'.WithinLimits → m' ≠ m → encode m' ≠ encode m := by
  have hround := hP.message hm
  constructor
  · have hread := hround.decodes hsize []
    rwa [append_nil] at hread
  · intro m' hm' hne heq
    exact hne (hround.injective (hP.message hm') hsize heq.symm).symm

/-! ## Small parameters -/

namespace Small

/-- Every parameter is a machine integer. -/
abbrev params : Params where
  NodeId := U64
  SignatureType := U64
  SCT := U64
  ST := U64
  ProposedHeader := U64
  FinalizedHeader := U64
  Body := U64

lemma params_lawful : params.Lawful :=
  ⟨roundTrips_u64, roundTrips_u64, roundTrips_u64, roundTrips_u64, roundTrips_u64, roundTrips_u64,
    roundTrips_u64⟩

def qc : QuorumCertificate params := ⟨⟨.replicate 32 0, 3, 1⟩, 500⟩

def tip : ConsensusTip params :=
  ⟨⟨4, 1, qc, 7, 2, 1000, 0, [5, 6], 0, .replicate 32 9, 100, 0, 0⟩, 8,
    some (.noTip ⟨1, 3, ⟨[⟨3, 0, 1⟩]⟩, qc⟩)⟩

def timeout : ProtocolMessage params :=
  .timeout ⟨⟨1, 4, 3, 4⟩, 11, .tip tip (some 0), some (.tc ⟨1, 3, ⟨[]⟩, .tip tip⟩)⟩

/-- A timeout with all optional parts is read back. -/
theorem timeout_roundTrip : decode (encode timeout) = .ok (timeout, []) := by
  have htip : tip.WithinLimits := by
    refine ⟨(by decide : 2 ≤ 4), fun c hc => ?_⟩
    cases hc
    exact (by decide : 1 ≤ 300)
  have hlimits : timeout.WithinLimits := by
    refine ⟨htip, fun c hc => ?_⟩
    cases hc
    exact ⟨(by decide : 0 ≤ 300), htip⟩
  exact (protocolMessage_roundTrip params_lawful timeout hlimits (by decide +kernel)).1

end Small

end Kinet.Wire
