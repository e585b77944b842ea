import Kinet.ConsensusTypes.Block

/-!
# Concrete types

The parameters that the repository's own tests choose: `NopSignature` signatures,
`MultiSig` collections of them, the mock execution protocol and the pass-through
block policy.
-/

namespace Kinet

/-- A signature that names its key and the message it was made for. -/
structure NopSignature where
  pubkey : Nat
  id : List Nat
deriving DecidableEq

/-- Types of the mock protocol; bodies are their own hash. -/
abbrev mockTypes : TypeParams where
  NodeId := Nat
  SignatureType := NopSignature
  SCT := List NopSignature
  ST := NopSignature
  CertPubKey := Nat
  ProposedHeader := Unit
  FinalizedHeader := Nat
  Body := List Nat
  BodyId := List Nat
  BPT := Unit
  ESRT := Unit
  bodyGetId := fun body => body

def passthruBlockPolicy : BlockPolicy mockTypes where
  checkCoherency := fun _ _ _ _ stateRead => (.ok (), stateRead)
  getExpectedExecutionResults := fun _ _ _ stateRead => (.ok [], stateRead)
  updateCommittedBlock := fun blockPolicy _ => blockPolicy

/-- A mock block of round `blockRound` that extends the block of `vote`. -/
def mockBlock (blockRound seqNum : Nat) (vote : Vote mockTypes) : ConsensusFullBlock mockTypes where
  header :=
    { blockRound := blockRound, epoch := 1, qc := ⟨vote, []⟩, author := 0, seqNum := seqNum,
      timestampNs := seqNum, roundSignature := ⟨0, [blockRound]⟩, delayedExecutionResults := [],
      executionInputs := (), blockBodyId := [blockRound], baseFee := 0, baseFeeTrend := 0,
      baseFeeMoment := 0 }
  body := [blockRound]
  body_id := rfl

end Kinet
