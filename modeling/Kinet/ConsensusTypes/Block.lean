import Mathlib.Tactic.Ring
import Mathlib.Data.List.Nodup

/-!
# Rounds, block ids and blocks

The consensus code is generic over identities, signature schemes, the execution payload,
the block policy and the execution state.  `TypeParams` bundles these parameters.

A block id is the hash of the encoded header.  `BlockId` is its ideal form, the tree of
everything the hash commits to: two headers have the same id only if they are equal, and
no block is its own ancestor.
-/

namespace Kinet

open List

def genesisRound : Nat := 0

def genesisSeqNum : Nat := 0

def Round.immediatelyFollows (self previous : Nat) : Bool := previous + 1 == self

@[simp]
lemma Round.immediatelyFollows_iff {self previous : Nat} :
    Round.immediatelyFollows self previous = true ↔ self = previous + 1 := by
  rw [Round.immediatelyFollows, beq_iff_eq, eq_comm]

@[simp]
lemma Round.immediatelyFollows_eq_false_iff {self previous : Nat} :
    Round.immediatelyFollows self previous = false ↔ self ≠ previous + 1 := by
  rw [Ne, ← Round.immediatelyFollows_iff, Bool.not_eq_true]

/-- The types the consensus code is generic over. -/
structure TypeParams where
  /-- node identity (public key of the message signature) -/
  NodeId : Type
  /-- certificate signature of one node -/
  SignatureType : Type
  /-- aggregate of certificate signatures -/
  SCT : Type
  /-- recoverable message signature -/
  ST : Type
  /-- certificate public key -/
  CertPubKey : Type
  /-- execution header of a proposed block -/
  ProposedHeader : Type
  /-- execution header of a finalized block -/
  FinalizedHeader : Type
  /-- block body -/
  Body : Type
  /-- hash of a block body -/
  BodyId : Type
  /-- state of the block policy -/
  BPT : Type
  /-- handle to the execution state -/
  ESRT : Type
  bodyGetId : Body → BodyId
  [nodeIdOrder : LinearOrder NodeId]
  [signatureTypeDecEq : DecidableEq SignatureType]
  [sctDecEq : DecidableEq SCT]
  [stDecEq : DecidableEq ST]
  [proposedHeaderDecEq : DecidableEq ProposedHeader]
  [finalizedHeaderDecEq : DecidableEq FinalizedHeader]
  [bodyDecEq : DecidableEq Body]
  [bodyIdDecEq : DecidableEq BodyId]

attribute [instance] TypeParams.nodeIdOrder TypeParams.signatureTypeDecEq
  TypeParams.sctDecEq TypeParams.stDecEq TypeParams.proposedHeaderDecEq
  TypeParams.finalizedHeaderDecEq TypeParams.bodyDecEq TypeParams.bodyIdDecEq

inductive BlockId (K : TypeParams) where
  /-- the all-zero id of the genesis block -/
  | genesis
  /-- the id of a header with the listed contents -/
  | hash (blockRound : Nat) (epoch : Nat)
      (qcId : BlockId K) (qcRound : Nat) (qcEpoch : Nat) (qcSignatures : K.SCT)
      (author : K.NodeId) (seqNum : Nat) (timestampNs : Nat)
      (roundSignature : K.SignatureType)
      (delayedExecutionResults : List K.FinalizedHeader)
      (executionInputs : K.ProposedHeader) (blockBodyId : K.BodyId)
      (baseFee baseFeeTrend baseFeeMoment : Nat)
deriving DecidableEq

variable {K : TypeParams}

structure Vote (K : TypeParams) where
  id : BlockId K
  round : Nat
  epoch : Nat
deriving DecidableEq

/-- Certificate of votes for one block in one round. -/
structure QuorumCertificate (K : TypeParams) where
  info : Vote K
  signatures : K.SCT
deriving DecidableEq

namespace QuorumCertificate

variable (qc : QuorumCertificate K)

def getRound : Nat := qc.info.round

def getEpoch : Nat := qc.info.epoch

def getBlockId : BlockId K := qc.info.id

end QuorumCertificate

structure ConsensusBlockHeader (K : TypeParams) where
  /-- round the block was first proposed in -/
  blockRound : Nat
  epoch : Nat
  /-- certificate of votes for the parent block -/
  qc : QuorumCertificate K
  author : K.NodeId
  seqNum : Nat
  timestampNs : Nat
  roundSignature : K.SignatureType
  delayedExecutionResults : List K.FinalizedHeader
  executionInputs : K.ProposedHeader
  blockBodyId : K.BodyId
  baseFee : Nat
  baseFeeTrend : Nat
  baseFeeMoment : Nat
deriving DecidableEq

namespace ConsensusBlockHeader

def getId (h : ConsensusBlockHeader K) : BlockId K :=
  .hash h.blockRound h.epoch h.qc.info.id h.qc.info.round h.qc.info.epoch h.qc.signatures
    h.author h.seqNum h.timestampNs h.roundSignature h.delayedExecutionResults
    h.executionInputs h.blockBodyId h.baseFee h.baseFeeTrend h.baseFeeMoment

def getParentId (h : ConsensusBlockHeader K) : BlockId K := h.qc.getBlockId

/-- Block ids are collision free. -/
theorem getId_injective : Function.Injective (getId (K := K)) := by
  rintro ⟨r, e, ⟨⟨i, qr, qe⟩, qs⟩, a, n, t, rs, d, x, b, f, ft, fm⟩
    ⟨r', e', ⟨⟨i', qr', qe'⟩, qs'⟩, a', n', t', rs', d', x', b', f', ft', fm'⟩ h
  obtain ⟨rfl, rfl, rfl, rfl, rfl, rfl, rfl, rfl, rfl, rfl, rfl, rfl, rfl, rfl, rfl, rfl⟩ := h
  rfl

end ConsensusBlockHeader

/-! ## Ancestry of block ids -/

namespace BlockId

/-- The id followed by the ids of all its ancestors, down to genesis. -/
def ancestors : BlockId K → List (BlockId K)
  | .genesis => [.genesis]
  | .hash r e qcId qr qe qs a n t rs d x b f ft fm =>
    .hash r e qcId qr qe qs a n t rs d x b f ft fm :: qcId.ancestors

def blockRound : BlockId K → Nat
  | .genesis => genesisRound
  | .hash r _ _ _ _ _ _ _ _ _ _ _ _ _ _ _ => r

/-- `b` is `a` or a descendant of `a`. -/
def Extends (b a : BlockId K) : Prop := a ∈ b.ancestors

instance (b a : BlockId K) : Decidable (b.Extends a) :=
  inferInstanceAs (Decidable (a ∈ b.ancestors))

lemma ancestors_getId (h : ConsensusBlockHeader K) :
    h.getId.ancestors = h.getId :: h.getParentId.ancestors :=
  rfl

lemma extends_refl (a : BlockId K) : a.Extends a := by
  cases a <;> simp [Extends, ancestors]

lemma extends_parent (h : ConsensusBlockHeader K) : h.getId.Extends h.getParentId := by
  unfold Extends
  exact mem_cons_of_mem _ (extends_refl _)

variable {a b : BlockId K}

/-- The ancestors of an ancestor are ancestors. -/
theorem ancestors_suffix (h : b.Extends a) : a.ancestors <:+ b.ancestors := by
  induction b with
  | genesis =>
    simp only [Extends, ancestors, mem_singleton] at h
    subst h
    exact suffix_refl _
  | hash r e qcId qr qe qs au n t rs d x bd f ft fm ih =>
    simp only [Extends, ancestors, mem_cons] at h
    rcases h with rfl | h
    · exact suffix_refl _
    · exact (ih h).trans (suffix_cons _ _)

/-- The ancestors of an ancestor are the rest of the list. -/
lemma ancestors_of_getElem? {i : Nat} (h : b.ancestors[i]? = some a) :
    a.ancestors = b.ancestors.drop i := by
  induction b generalizing i with
  | genesis =>
    cases i with
    | zero => exact Option.some.inj h ▸ rfl
    | succ i => simp [ancestors] at h
  | hash r e qcId qr qe qs au n t rs d x bd f ft fm ih =>
    cases i with
    | zero => exact Option.some.inj h ▸ rfl
    | succ i => exact ih h

variable {c : BlockId K}

lemma Extends.trans (hcb : c.Extends b) (hba : b.Extends a) : c.Extends a :=
  (ancestors_suffix hcb).subset hba

section

variable (h : ConsensusBlockHeader K)
include h

/-- A descendant of `a` is `a` or has a parent that descends from `a`. -/
lemma extends_getId_iff (a : BlockId K) :
    h.getId.Extends a ↔ a = h.getId ∨ h.getParentId.Extends a := by
  unfold Extends
  rw [ancestors_getId, mem_cons]

lemma length_ancestors_lt : h.getParentId.ancestors.length < h.getId.ancestors.length := by
  simp [ancestors_getId]

lemma getId_ne_getParentId : h.getId ≠ h.getParentId := by
  intro heq
  have hlt := length_ancestors_lt h
  rw [heq] at hlt
  exact lt_irrefl _ hlt

end

lemma extends_of_length_le (ha : c.Extends a) (hb : c.Extends b)
    (hle : a.ancestors.length ≤ b.ancestors.length) : b.Extends a := by
  have hsuffix : a.ancestors <:+ b.ancestors :=
    suffix_of_suffix_length_le (ancestors_suffix ha) (ancestors_suffix hb) hle
  exact hsuffix.subset (extends_refl a)

end BlockId

/-! ## Full blocks -/

/-- A header together with the body it commits to. -/
structure ConsensusFullBlock (K : TypeParams) where
  header : ConsensusBlockHeader K
  body : K.Body
  body_id : header.blockBodyId = K.bodyGetId body
deriving DecidableEq

namespace ConsensusFullBlock

def new (header : ConsensusBlockHeader K) (body : K.Body) : Option (ConsensusFullBlock K) :=
  if h : header.blockBodyId = K.bodyGetId body then some ⟨header, body, h⟩ else none

variable {b : ConsensusFullBlock K}

lemma new_eq_some {header : ConsensusBlockHeader K} {body : K.Body} (h : new header body = some b) :
    b.header = header ∧ b.body = body := by
  unfold new at h
  split at h
  · cases h
    exact ⟨rfl, rfl⟩
  · cases h

def getId (b : ConsensusFullBlock K) : BlockId K := b.header.getId

/-- With collision-free body ids, block ids are collision free. -/
theorem getId_injective (hbody : Function.Injective K.bodyGetId) {b' : ConsensusFullBlock K}
    (h : b.getId = b'.getId) : b = b' := by
  obtain ⟨header, body, hid⟩ := b
  obtain ⟨header', body', hid'⟩ := b'
  have hheader : header = header' := ConsensusBlockHeader.getId_injective h
  subst hheader
  have hsame : body = body' := hbody (hid.symm.trans hid')
  subst hsame
  rfl

variable (b : ConsensusFullBlock K)

def getParentId : BlockId K := b.header.getParentId

def getParentRound : Nat := b.header.qc.getRound

def getBlockRound : Nat := b.header.blockRound

def getBodyId : K.BodyId := b.header.blockBodyId

def getQc : QuorumCertificate K := b.header.qc

def getEpoch : Nat := b.header.epoch

/-- Height of the block. -/
def getSeqNum : Nat := b.header.seqNum

def getTimestampNs : Nat := b.header.timestampNs

end ConsensusFullBlock

/-- The certificate of the parent is from the parent's block round or later, and
from before the block. -/
def ConsensusFullBlock.RoundsOk (b : ConsensusFullBlock K) : Prop :=
  b.getParentId.blockRound ≤ b.getParentRound ∧ b.getParentRound < b.getBlockRound

/-! ## Block policy -/

/-- What the block tree keeps about its root. -/
structure RootInfo (K : TypeParams) where
  round : Nat
  seqNum : Nat
  epoch : Nat
  blockId : BlockId K
  timestampNs : Nat
deriving DecidableEq

inductive ExecutionStateReadError where
  | neverAvailable
  | notAvailableYet
deriving DecidableEq

/-- Why the transactions of an account cannot be paid for. -/
inductive BlockPolicyBlockValidatorError where
  | accountBalanceMissing
  | insufficientBalance
  | insufficientReserveBalance
deriving DecidableEq

/-- Why a block is not coherent with the blocks it extends. -/
inductive BlockPolicyError where
  | executionStateReadError (e : ExecutionStateReadError)
  | executionResultMismatch
  | baseFeeError
  | blockPolicyBlockValidatorError (e : BlockPolicyBlockValidatorError)
  | blockNotCoherent
  | eip7702Error
  | timestampError
  | systemTransactionError
deriving DecidableEq

/-- The execution-dependent block rules.  Reading the execution state may change
the handle to it. -/
structure BlockPolicy (K : TypeParams) where
  checkCoherency : K.BPT → ConsensusFullBlock K → List (ConsensusFullBlock K) → RootInfo K →
    K.ESRT → Except BlockPolicyError Unit × K.ESRT
  getExpectedExecutionResults : K.BPT → Nat → List (ConsensusFullBlock K) → K.ESRT →
    Except ExecutionStateReadError (List K.FinalizedHeader) × K.ESRT
  updateCommittedBlock : K.BPT → ConsensusFullBlock K → K.BPT

end Kinet
