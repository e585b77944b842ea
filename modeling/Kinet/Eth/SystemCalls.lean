import Kinet.ConsensusTypes.Mock
import Kinet.Eth.Transaction

/-!
# System calls

A block starts with the transactions of the system sender that its header calls for:
snapshot, epoch change, block reward.  The round leader generates them, the block
validator splits them off, and the block policy compares them with the expected calls.
-/

namespace Kinet.Eth

open TxEnvelope

variable {K : TypeParams}

def systemSenderEthAddress : Address := 0x6f49a8F621353f12378d0046E7d7e4b9B249DC9e#160

class ExtractEthAddress (K : TypeParams) where
  getEthAddress : K.NodeId → Address

/-- Calls of the staking contract that only the system sender may make. -/
inductive StakingContractCall where
  | reward (blockAuthorAddress : Address) (blockReward : Nat)
  | snapshot
  | epochChange (newEpoch : Nat)
deriving DecidableEq

/-- A 256-bit word in big-endian order. -/
def abiEncode (n : Nat) : List UInt8 :=
  (List.range 32).reverse.map fun i => UInt8.ofNat (n / 256 ^ i % 256)

namespace StakingContractCall

def stakingContractAddress : Address := 0x1000#160

def rewardFunctionSelector : List UInt8 := [0x79, 0x1b, 0xdc, 0xf3]

def snapshotFunctionSelector : List UInt8 := [0x15, 0x7e, 0xeb, 0x21]

def epochChangeFunctionSelector : List UInt8 := [0x1d, 0x4e, 0x9f, 0x02]

/-- One token in its smallest unit. -/
def mon : Nat := 1000000000000000000

/-- The transaction is a call that users may not make. -/
def isRestrictedStakingContractCall (tx : Recovered) : Bool :=
  if tx.inner.toAddress = some stakingContractAddress then
    rewardFunctionSelector.isPrefixOf tx.inner.input
      || snapshotFunctionSelector.isPrefixOf tx.inner.input
      || epochChangeFunctionSelector.isPrefixOf tx.inner.input
  else false

def getTransactionValue : StakingContractCall → Nat
  | .reward _ blockReward => blockReward
  | .snapshot => 0
  | .epochChange _ => 0

def getTransactionInput : StakingContractCall → List UInt8
  | .reward blockAuthorAddress _ => rewardFunctionSelector ++ abiEncode blockAuthorAddress.toNat
  | .snapshot => snapshotFunctionSelector
  | .epochChange newEpoch => epochChangeFunctionSelector ++ abiEncode newEpoch

def intoSignedTransaction (call : StakingContractCall) (chainId : Nat) (nonce : Nonce) :
    Recovered where
  inner :=
    { payload := .legacy (some chainId) 0, nonce := nonce, gasLimit := 0,
      kind := .call stakingContractAddress, value := call.getTransactionValue,
      input := call.getTransactionInput,
      signature := { signer := some systemSenderEthAddress, normalizeS := false } }
  signer := systemSenderEthAddress

end StakingContractCall

/-! ## Expected calls -/

def isBoundaryBlock (seqNum epochLength : Nat) : Bool :=
  seqNum % epochLength == epochLength - 1

/-- Epoch whose validator set a boundary block fixes. -/
def getLockedEpoch (seqNum epochLength : Nat) : Nat := seqNum / epochLength + 1 + 1

variable (proposedSeqNum proposedEpoch proposedRound parentBlockEpoch : Nat)

/-- Calls of a block, in order.  `none` is a stop: the remainder by an epoch length of zero, or
the epoch before staking activates, if that is at epoch zero. -/
def generateSystemCalls (blockAuthorAddress : Address) (chainConfig : ChainConfig) :
    Option (List StakingContractCall) :=
  let epochLength := chainConfig.getEpochLength
  let stakingActivation := chainConfig.getStakingActivation
  if epochLength = 0 then none
  -- the epoch before activation is computed only in the first block of an epoch
  else if parentBlockEpoch ≠ proposedEpoch ∧ stakingActivation = 0 then none
  else
    -- snapshots start at the boundary of the epoch before staking activates
    let generateSnapshotTxn := isBoundaryBlock proposedSeqNum epochLength
      && decide (stakingActivation ≤ getLockedEpoch proposedSeqNum epochLength)
    let isFirstEpochBlock := parentBlockEpoch != proposedEpoch
      && decide (stakingActivation - 1 ≤ proposedEpoch)
    -- staking from epoch 2 on starts with an epoch change in the first block
    let isGenesisBlock := proposedSeqNum == genesisSeqNum + 1 && stakingActivation == 2
    let generateRewardTxn := decide (stakingActivation ≤ proposedEpoch)
    some ((if generateSnapshotTxn then [.snapshot] else [])
      ++ (if isFirstEpochBlock || isGenesisBlock then [.epochChange proposedEpoch] else [])
      ++ (if generateRewardTxn then
          [.reward blockAuthorAddress
            (StakingContractCall.mon * chainConfig.getBlockRewardMon proposedEpoch proposedRound)]
        else []))

/-- Sign the calls with consecutive nonces. -/
def signSystemCalls (chainId : Nat) : List StakingContractCall → Nonce → List Recovered
  | [], _ => []
  | call :: calls, nonce =>
    call.intoSignedTransaction chainId nonce :: signSystemCalls chainId calls (nonce + 1)

/-- System transactions of a block, as its leader creates them. -/
def generateSystemTransactions
    (blockAuthor : Address) (nextSystemTxnNonce : Nonce) (chainConfig : ChainConfig) :
    Option (List Recovered) := do
  let calls ← generateSystemCalls proposedSeqNum proposedEpoch proposedRound parentBlockEpoch
    blockAuthor chainConfig
  pure (signSystemCalls chainConfig.chainId calls nextSystemTxnNonce)

/-! ## Validation -/

inductive SystemTransactionError where
  | unexpectedSenderAddress
  | invalidTxType
  | invalidChainId
  | invalidTxSignature
  | nonZeroGasPrice
  | nonZeroGasLimit
  | invalidTxKind
  | unexpectedDestAddress (expected : Address) (actual : Option Address)
  | unexpectedInput (expectedInput actualInput : List UInt8)
  | unexpectedValue (expectedValue actualValue : Nat)
deriving DecidableEq

inductive SystemTransactionValidationError where
  | missingSystemTransaction
  | unexpectedSystemTransaction
  | systemTransactionError (e : SystemTransactionError)
deriving DecidableEq

def isSystemSender (address : Address) : Bool := address == systemSenderEthAddress

/-- The transaction is reserved for the system sender. -/
def isRestrictedSystemCall (tx : Recovered) : Bool :=
  StakingContractCall.isRestrictedStakingContractCall tx

def staticValidateSystemTransaction (tx : Recovered) (chainConfig : ChainConfig) :
    Except SystemTransactionError Unit :=
  if !isSystemSender tx.signer then .error .unexpectedSenderAddress
  else if !tx.inner.isLegacy then .error .invalidTxType
  else if tx.inner.chainId ≠ some chainConfig.chainId then .error .invalidChainId
  else if tx.inner.signature.normalizeS then .error .invalidTxSignature
  else if tx.inner.gasPrice ≠ some 0 then .error .nonZeroGasPrice
  else if tx.inner.gasLimit ≠ 0 then .error .nonZeroGasLimit
  else if tx.inner.kind = .create then .error .invalidTxKind
  else .ok ()

def executionParamsAt (timestampNs : Nat) (chainConfig : ChainConfig) : ExecutionChainParams :=
  (chainConfig.getExecutionChainRevision (timestampNsToSecs timestampNs)).executionChainParams

def splitSystemTransactions (chainConfig : ChainConfig) :
    List Recovered → Except SystemTransactionValidationError (List ValidatedTx × List Recovered)
  | [] => .ok ([], [])
  | tx :: txs =>
    if !isSystemSender tx.signer then .ok ([], tx :: txs)
    else
      match staticValidateSystemTransaction tx chainConfig with
      | .error e => .error (.systemTransactionError e)
      | .ok () =>
        match splitSystemTransactions chainConfig txs with
        | .error e => .error e
        | .ok (sysTxns, userTxns) => .ok (⟨tx, []⟩ :: sysTxns, userTxns)

def extractSystemTransactions (header : ConsensusBlockHeader K) (recoveredTxns : List Recovered)
    (chainConfig : ChainConfig) :
    Except SystemTransactionValidationError (List ValidatedTx × List Recovered) :=
  if !(executionParamsAt header.timestampNs chainConfig).validateSystemTxs then
    .ok ([], recoveredTxns)
  else
    match splitSystemTransactions chainConfig recoveredTxns with
    | .error e => .error e
    | .ok (sysTxns, userTxns) =>
      if userTxns.any fun tx => isSystemSender tx.signer || isRestrictedSystemCall tx then
        .error .unexpectedSystemTransaction
      else .ok (sysTxns, userTxns)

def StakingContractCall.validateSystemTransactionInput (call : StakingContractCall)
    (systemTxn : ValidatedTx) : Except SystemTransactionError Unit :=
  let to' := systemTxn.tx.inner.toAddress
  if to' ≠ some stakingContractAddress then
    .error (.unexpectedDestAddress stakingContractAddress to')
  else if systemTxn.tx.inner.input ≠ call.getTransactionInput then
    .error (.unexpectedInput call.getTransactionInput systemTxn.tx.inner.input)
  else if systemTxn.tx.inner.value ≠ call.getTransactionValue then
    .error (.unexpectedValue call.getTransactionValue systemTxn.tx.inner.value)
  else .ok ()

def validateSystemTransactionInputs :
    List StakingContractCall → List ValidatedTx → Except SystemTransactionError Unit
  | call :: calls, txn :: txns =>
    match call.validateSystemTransactionInput txn with
    | .error e => .error e
    | .ok () => validateSystemTransactionInputs calls txns
  | _, _ => .ok ()

/-- Compare the system transactions of a block with the expected calls.  `none` is a stop: the
failed assertion that nothing was extracted, or one of `generateSystemCalls`. -/
def validateSystemTransactionsInput [ExtractEthAddress K] (header : ConsensusBlockHeader K)
    (parentBlockEpoch : Nat) (sysTxns : List ValidatedTx) (chainConfig : ChainConfig) :
    Option (Except SystemTransactionValidationError Unit) :=
  if !(executionParamsAt header.timestampNs chainConfig).validateSystemTxs then
    if sysTxns.isEmpty then some (.ok ()) else none
  else
    match generateSystemCalls header.seqNum header.epoch header.blockRound parentBlockEpoch
      (ExtractEthAddress.getEthAddress header.author) chainConfig with
    | none => none
    | some expectedSysCalls =>
      if expectedSysCalls.length ≠ sysTxns.length then
        some (.error .unexpectedSystemTransaction)
      else
        match validateSystemTransactionInputs expectedSysCalls sysTxns with
        | .error e => some (.error (.systemTransactionError e))
        | .ok () => some (.ok ())

/-! ## Generated transactions are accepted -/

variable {chainConfig : ChainConfig} {userTxns : List Recovered}

@[simp]
lemma length_signSystemCalls (chainId : Nat) (calls : List StakingContractCall)
    (nonce : Nonce) : (signSystemCalls chainId calls nonce).length = calls.length := by
  induction calls generalizing nonce with
  | nil => rfl
  | cons call calls ih => simp [signSystemCalls, ih]

lemma staticValidateSystemTransaction_signed (call : StakingContractCall) (nonce : Nonce) :
    staticValidateSystemTransaction (call.intoSignedTransaction chainConfig.chainId nonce)
      chainConfig = .ok () := by
  simp [staticValidateSystemTransaction, StakingContractCall.intoSignedTransaction,
    isSystemSender, isLegacy, chainId, gasPrice]

lemma validateSystemTransactionInput_signed (call : StakingContractCall) (chainId : Nat)
    (nonce : Nonce) :
    call.validateSystemTransactionInput ⟨call.intoSignedTransaction chainId nonce, []⟩
      = .ok () := by
  simp [StakingContractCall.validateSystemTransactionInput,
    StakingContractCall.intoSignedTransaction, toAddress]

lemma validateSystemTransactionInputs_signed (calls : List StakingContractCall) (chainId : Nat)
    (nonce : Nonce) :
    validateSystemTransactionInputs calls
      ((signSystemCalls chainId calls nonce).map fun tx => ⟨tx, []⟩) = .ok () := by
  induction calls generalizing nonce with
  | nil => rfl
  | cons call calls ih =>
    simp only [signSystemCalls, List.map_cons, validateSystemTransactionInputs,
      validateSystemTransactionInput_signed]
    exact ih (nonce + 1)

lemma splitSystemTransactions_signed (calls : List StakingContractCall) (nonce : Nonce)
    (huser : ∀ tx ∈ userTxns, isSystemSender tx.signer = false) :
    splitSystemTransactions chainConfig (signSystemCalls chainConfig.chainId calls nonce ++ userTxns)
      = .ok ((signSystemCalls chainConfig.chainId calls nonce).map fun tx => ⟨tx, []⟩, userTxns) := by
  induction calls generalizing nonce with
  | nil =>
    cases userTxns with
    | nil => rfl
    | cons tx txs => simp [signSystemCalls, splitSystemTransactions, huser]
  | cons call calls ih =>
    rw [signSystemCalls, List.cons_append, splitSystemTransactions,
      staticValidateSystemTransaction_signed, ih]
    simp [StakingContractCall.intoSignedTransaction, isSystemSender]

lemma exists_generateSystemCalls (blockAuthorAddress : Address)
    (hlength : 0 < chainConfig.getEpochLength) (hstaking : 0 < chainConfig.getStakingActivation) :
    ∃ calls, generateSystemCalls proposedSeqNum proposedEpoch proposedRound parentBlockEpoch
      blockAuthorAddress chainConfig = some calls := by
  simp [generateSystemCalls, hlength.ne', hstaking.ne']

/-- The transactions that a leader puts first are split off the block, and they are the ones
that the block policy expects. -/
theorem generated_extracted [ExtractEthAddress K] (header : ConsensusBlockHeader K)
    (parentBlockEpoch : Nat) (nonce : Nonce)
    (hlength : 0 < chainConfig.getEpochLength) (hstaking : 0 < chainConfig.getStakingActivation)
    (hvalidates : (executionParamsAt header.timestampNs chainConfig).validateSystemTxs = true)
    (huser : ∀ tx ∈ userTxns, isSystemSender tx.signer = false ∧ isRestrictedSystemCall tx = false) :
    ∃ txns, generateSystemTransactions header.seqNum header.epoch header.blockRound
        parentBlockEpoch (ExtractEthAddress.getEthAddress header.author) nonce chainConfig =
        some txns ∧
      extractSystemTransactions header (txns ++ userTxns) chainConfig =
        .ok (txns.map fun tx => ⟨tx, []⟩, userTxns) ∧
      validateSystemTransactionsInput header parentBlockEpoch (txns.map fun tx => ⟨tx, []⟩)
        chainConfig = some (.ok ()) := by
  obtain ⟨calls, hcalls⟩ := exists_generateSystemCalls header.seqNum header.epoch header.blockRound
    parentBlockEpoch (ExtractEthAddress.getEthAddress header.author) hlength hstaking
  have hnone : (userTxns.any fun tx => isSystemSender tx.signer || isRestrictedSystemCall tx)
      = false := by
    simpa using huser
  have hsplit := @splitSystemTransactions_signed chainConfig _ calls nonce
    fun tx htx => (huser tx htx).1
  refine ⟨signSystemCalls chainConfig.chainId calls nonce, ?_, ?_, ?_⟩
  · rw [generateSystemTransactions, hcalls]
    rfl
  · simp [extractSystemTransactions, hvalidates, hsplit, hnone]
  · simp [validateSystemTransactionsInput, hvalidates, hcalls,
      validateSystemTransactionInputs_signed]

/-- A chain with epochs of ten blocks and staking from the first epoch on. -/
def stakingConfig : ChainConfig := ⟨1, 10, 1, fun _ _ => 1, fun _ => .v0_12_0, fun _ => .vFour⟩

/-- A transfer that account 7 has signed. -/
def userTransfer : Recovered where
  inner :=
    { payload := .legacy (some 1) 0, nonce := 0, gasLimit := 21000, kind := .call 8, value := 1,
      input := [], signature := { signer := some 7, normalizeS := false } }
  signer := 7

def boundaryHeader : ConsensusBlockHeader mockTypes := (mockBlock 1 9 ⟨.genesis, 0, 1⟩).header

def boundaryTxns : List Recovered :=
  signSystemCalls 1 [.snapshot, .reward 0 StakingContractCall.mon] 0

/-- In a boundary block a snapshot and a reward come before the transfer of a user. -/
theorem generated_extracted_boundary :
    extractSystemTransactions boundaryHeader (boundaryTxns ++ [userTransfer]) stakingConfig =
        .ok (boundaryTxns.map fun tx => ⟨tx, []⟩, [userTransfer]) ∧
      @validateSystemTransactionsInput mockTypes ⟨fun _ => 0⟩ boundaryHeader 1
        (boundaryTxns.map fun tx => ⟨tx, []⟩) stakingConfig = some (.ok ()) := by
  obtain ⟨txns, hgenerate, hlaw⟩ := @generated_extracted mockTypes stakingConfig [userTransfer]
    ⟨fun _ => 0⟩ boundaryHeader 1 0 (by decide) (by decide) (by rfl) (by decide)
  obtain rfl : boundaryTxns = txns :=
    Option.some.inj ((by rfl : _ = some boundaryTxns).symm.trans hgenerate)
  exact hlaw

end Kinet.Eth
