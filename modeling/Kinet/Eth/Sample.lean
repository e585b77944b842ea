import Kinet.ConsensusTypes.Mock
import Kinet.Eth.BlockPolicy

/-!
# Concrete blocks

A chain configuration with the latest revisions and without staking, and blocks
over the types of the repository's own tests.
-/

namespace Kinet.Eth.Sample

/-- The test keys all have the zero address. -/
instance : ExtractEthAddress mockTypes := ⟨fun _ => 0#160⟩

/-- All transactions are encoded in a hundred bytes. -/
@[reducible]
def codec : TxCodec := ⟨fun _ => 100⟩

/-- The development chain, with staking far in the future. -/
def kinetChainConfig : KinetChainConfig where
  chainId := 20143
  epochLength := 10000
  v0_7_0Activation := 0
  v0_8_0Activation := 0
  v0_10_0Activation := 0
  v0_11_0Activation := 0
  v0_12_0Activation := 0
  stakingConfig :=
    { stakingActivation := 1000000
      blockRewardVOne := { blockRewardActivation := .epoch 1000001, blockRewardMon := 1 }
      blockRewardVTwo := { blockRewardActivation := .epoch (2 ^ 64 - 1), blockRewardMon := 0 } }
  executionVOneActivation := 0
  executionVTwoActivation := 0
  executionVFourActivation := 0

def chainConfig : ChainConfig := kinetChainConfig.toChainConfig

def header (parent : BlockId mockTypes) (seqNum timestampNs : Nat) (fees : Nat × Nat × Nat)
    (results : List Nat) : ConsensusBlockHeader mockTypes where
  blockRound := seqNum
  epoch := 1
  qc := ⟨⟨parent, seqNum - 1, 1⟩, []⟩
  author := 0
  seqNum := seqNum
  timestampNs := timestampNs
  roundSignature := ⟨0, [seqNum]⟩
  delayedExecutionResults := results
  executionInputs := ()
  blockBodyId := [seqNum]
  baseFee := fees.1
  baseFeeTrend := fees.2.1
  baseFeeMoment := fees.2.2

def root (seqNum timestampNs : Nat) : RootInfo mockTypes where
  round := seqNum
  seqNum := seqNum
  epoch := 1
  blockId := .genesis
  timestampNs := timestampNs

def feesAfter (gas : Nat) (fees : Nat × Nat × Nat) : Nat × Nat × Nat :=
  (BaseFee.computeBaseFee 150000000 gas fees.1 fees.2.1 fees.2.2).getD (0, 0, 0)

/-- Base fee fields after an empty parent block. -/
def nextFees (fees : Nat × Nat × Nat) : Nat × Nat × Nat := feesAfter 0 fees

def firstFees : Nat × Nat × Nat := nextFees (0, 0, 0)

/-- Execution state with the given accounts at every height and no account elsewhere. -/
def reads (accounts : Nat → Address → Option EthAccount) : ExecutionStateRead mockTypes where
  getAccountStatuses := fun _ seqNum _ => .ok (accounts seqNum)
  getExecutionResult := fun _ seqNum _ => .ok seqNum

def emptyBlock (h : ConsensusBlockHeader mockTypes) : EthValidatedBlock mockTypes :=
  ⟨h, [], [], ∅, ∅⟩

/-- A user account. -/
def alice : Address := 0xa11ce#160

/-- Another user account. -/
def bob : Address := 0xb0b#160

/-- A transfer that pays the base fee. -/
def transfer (sender : Address) (nonce : Nonce) (value : Nat) : TxEnvelope where
  payload := .eip1559 20143 100000000000 0 []
  nonce := nonce
  gasLimit := 21000
  kind := .call 0#160
  value := value
  input := []
  signature := ⟨some sender, false⟩

/-- A transaction with one authorization of another account. -/
def delegation (sender : Address) (nonce : Nonce) (authority : Address) (authNonce : Nonce) :
    TxEnvelope where
  payload := .eip7702 20143 100000000000 0 [] [⟨⟨20143, 0#160, authNonce⟩, some authority⟩]
  nonce := nonce
  gasLimit := 50000
  kind := .call 0#160
  value := 0
  input := []
  signature := ⟨some sender, false⟩

def blockOf (h : ConsensusBlockHeader mockTypes) (txs : List TxEnvelope) :
    EthValidatedBlock mockTypes :=
  match @validateBlockBody _ codec h ⟨txs, [], []⟩ chainConfig with
  | .ok body => ⟨h, body.systemTxns, body.validatedTxns, body.nonceUsages, body.txnFees⟩
  | .error _ => emptyBlock h

lemma validated_blockOf {h : ConsensusBlockHeader mockTypes} {txs : List TxEnvelope}
    (hok : (@validateBlockBody _ codec h ⟨txs, [], []⟩ chainConfig).isOk = true) :
    @EthValidatedBlock.Validated _ codec (blockOf h txs) chainConfig := by
  refine ⟨⟨txs, [], []⟩, ?_⟩
  unfold blockOf
  cases hbody : @validateBlockBody _ codec h ⟨txs, [], []⟩ chainConfig with
  | error e =>
    rw [hbody] at hok
    cases hok
  | ok body => exact hbody

lemma exists_eq_ok {ε α : Type} {x : Except ε α} (h : x.isOk = true) : ∃ a, x = .ok a := by
  cases x with
  | error e => cases h
  | ok a => exact ⟨a, rfl⟩

end Kinet.Eth.Sample
