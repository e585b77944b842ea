import Mathlib.Tactic.Ring

/-!
# Chain revisions and chain configuration

Consensus parameters change with the round, execution parameters with the block timestamp.
The Ethereum crates read them through the interface `ChainConfig`, which `KinetChainConfig`
implements.
-/

namespace Kinet.Eth

structure ChainParams where
  txLimit : Nat
  proposalGasLimit : Nat
  /-- largest proposal size in bytes -/
  proposalByteLimit : Nat
  maxReserveBalance : Nat
  /-- milliseconds between votes -/
  votePace : Nat
deriving DecidableEq

inductive KinetChainRevision where
  | v0_7_0
  | v0_8_0
  | v0_10_0
  | v0_11_0
  | v0_12_0
deriving DecidableEq

def KinetChainRevision.chainParams : KinetChainRevision → ChainParams
  | .v0_7_0 =>
    { txLimit := 10000, proposalGasLimit := 300000000, proposalByteLimit := 4000000,
      maxReserveBalance := 10000000000000000000, votePace := 1000 }
  | .v0_8_0 =>
    { txLimit := 5000, proposalGasLimit := 150000000, proposalByteLimit := 2000000,
      maxReserveBalance := 10000000000000000000, votePace := 500 }
  | .v0_10_0 =>
    { txLimit := 5000, proposalGasLimit := 150000000, proposalByteLimit := 2000000,
      maxReserveBalance := 10000000000000000000, votePace := 400 }
  | .v0_11_0 =>
    { txLimit := 5000, proposalGasLimit := 200000000, proposalByteLimit := 2000000,
      maxReserveBalance := 10000000000000000000, votePace := 400 }
  | .v0_12_0 =>
    { txLimit := 3750, proposalGasLimit := 150000000, proposalByteLimit := 1500000,
      maxReserveBalance := 10000000000000000000, votePace := 300 }

/-- No revision changes the maximal reserve balance of ten tokens. -/
theorem KinetChainRevision.maxReserveBalance_eq (r : KinetChainRevision) :
    r.chainParams.maxReserveBalance = 10000000000000000000 := by
  cases r <;> rfl

/-- Execution parameters that consensus has to know. -/
structure ExecutionChainParams where
  maxCodeSize : Nat
  pragueEnabled : Bool
  validateSystemTxs : Bool
deriving DecidableEq

inductive KinetExecutionRevision where
  | vZero
  | vOne
  | vTwo
  | vFour
deriving DecidableEq

def KinetExecutionRevision.executionChainParams : KinetExecutionRevision → ExecutionChainParams
  | .vZero => { maxCodeSize := 24 * 1024, pragueEnabled := false, validateSystemTxs := false }
  | .vOne => { maxCodeSize := 24 * 1024, pragueEnabled := false, validateSystemTxs := false }
  | .vTwo => { maxCodeSize := 128 * 1024, pragueEnabled := false, validateSystemTxs := false }
  | .vFour => { maxCodeSize := 128 * 1024, pragueEnabled := true, validateSystemTxs := true }

/-- What the Ethereum crates read of the chain configuration. -/
structure ChainConfig where
  chainId : Nat
  getEpochLength : Nat
  getStakingActivation : Nat
  getBlockRewardMon : Nat → Nat → Nat
  getChainRevision : Nat → KinetChainRevision
  getExecutionChainRevision : Nat → KinetExecutionRevision

inductive BlockRewardActivation where
  | epoch (activationEpoch : Nat)
  | round (activationRound : Nat)

def BlockRewardActivation.isActive : BlockRewardActivation → Nat → Nat → Bool
  | .epoch activationEpoch, currentEpoch, _ => activationEpoch ≤ currentEpoch
  | .round activationRound, _, currentRound => activationRound ≤ currentRound

structure BlockRewardConfig where
  blockRewardActivation : BlockRewardActivation
  blockRewardMon : Nat

structure KinetStakingConfig where
  stakingActivation : Nat
  blockRewardVOne : BlockRewardConfig
  blockRewardVTwo : BlockRewardConfig

def KinetStakingConfig.getBlockRewardMon (c : KinetStakingConfig) (epoch round : Nat) : Nat :=
  if c.blockRewardVTwo.blockRewardActivation.isActive epoch round then
    c.blockRewardVTwo.blockRewardMon
  else if c.blockRewardVOne.blockRewardActivation.isActive epoch round then
    c.blockRewardVOne.blockRewardMon
  else 0

structure KinetChainConfig where
  chainId : Nat
  epochLength : Nat
  v0_7_0Activation : Nat
  v0_8_0Activation : Nat
  v0_10_0Activation : Nat
  v0_11_0Activation : Nat
  v0_12_0Activation : Nat
  stakingConfig : KinetStakingConfig
  executionVOneActivation : Nat
  executionVTwoActivation : Nat
  executionVFourActivation : Nat

namespace KinetChainConfig

def getChainRevision (c : KinetChainConfig) (round : Nat) : KinetChainRevision :=
  if c.v0_12_0Activation ≤ round then .v0_12_0
  else if c.v0_11_0Activation ≤ round then .v0_11_0
  else if c.v0_10_0Activation ≤ round then .v0_10_0
  else if c.v0_8_0Activation ≤ round then .v0_8_0
  else if c.v0_7_0Activation ≤ round then .v0_7_0
  else .v0_7_0

def getExecutionChainRevision (c : KinetChainConfig) (timestamp : Nat) : KinetExecutionRevision :=
  if c.executionVFourActivation ≤ timestamp then .vFour
  else if c.executionVTwoActivation ≤ timestamp then .vTwo
  else if c.executionVOneActivation ≤ timestamp then .vOne
  else .vZero

/-- The configuration behind the interface of the Ethereum crates. -/
def toChainConfig (c : KinetChainConfig) : ChainConfig where
  chainId := c.chainId
  getEpochLength := c.epochLength
  getStakingActivation := c.stakingConfig.stakingActivation
  getBlockRewardMon := c.stakingConfig.getBlockRewardMon
  getChainRevision := c.getChainRevision
  getExecutionChainRevision := c.getExecutionChainRevision

end KinetChainConfig

end Kinet.Eth
