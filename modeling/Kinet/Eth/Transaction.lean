import Kinet.Eth.ChainConfig

/-!
# Ethereum transactions

Transactions as the block validator, the block policy and the transaction pool read them:
the envelope types, EIP-7702 authorizations, gas costs and the stateless validity rules.

Signatures are ideal: a signature carries the address that recovery returns, if any, and
whether its `s` value is in the lower half of the curve.  `TxCodec` supplies the length of
an encoded transaction.
-/

namespace Kinet.Eth

abbrev Address := BitVec 160

abbrev Nonce := UInt64

/-- Largest 256-bit value. -/
def balanceMax : Nat := 2 ^ 256 - 1

/-- Addition of 256-bit values that stops at the largest one. -/
def saturatingAdd (a b : Nat) : Nat := min (a + b) balanceMax

/-- Next nonce, unless it overflows. -/
def checkedSucc (nonce : Nonce) : Option Nonce :=
  if nonce.toNat + 1 < 2 ^ 64 then some (nonce + 1) else none

lemma checkedSucc_eq_some {nonce next : Nonce} (h : checkedSucc nonce = some next) :
    next = nonce + 1 := by
  unfold checkedSucc at h
  split at h
  · exact (Option.some.inj h).symm
  · cases h

structure Authorization where
  chainId : Nat
  address : Address
  nonce : Nonce
deriving DecidableEq

structure SignedAuthorization where
  inner : Authorization
  recoverAuthority : Option Address
deriving DecidableEq

/-- Authorization whose signature has been checked. -/
structure RecoveredAuthorization where
  inner : Authorization
  authority : Option Address
deriving DecidableEq

def Authorization.isForChain (a : Authorization) (chainId : Nat) : Bool :=
  a.chainId == 0 || a.chainId == chainId

/-- Target of a transaction. -/
inductive TxKind where
  | create
  | call (address : Address)
deriving DecidableEq

/-- Storage slots of one address that a transaction announces. -/
structure AccessListItem where
  address : Address
  storageKeys : List Nat
deriving DecidableEq

/-- The fields that differ between transaction types. -/
inductive TxPayload where
  | legacy (chainId : Option Nat) (gasPrice : Nat)
  | eip2930 (chainId : Nat) (gasPrice : Nat) (accessList : List AccessListItem)
  | eip1559 (chainId : Nat) (maxFeePerGas maxPriorityFeePerGas : Nat)
      (accessList : List AccessListItem)
  | eip4844 (chainId : Nat) (maxFeePerGas maxPriorityFeePerGas : Nat)
      (accessList : List AccessListItem)
  | eip7702 (chainId : Nat) (maxFeePerGas maxPriorityFeePerGas : Nat)
      (accessList : List AccessListItem) (authorizationList : List SignedAuthorization)
deriving DecidableEq

structure TxSignature where
  /-- address that recovery returns -/
  signer : Option Address
  /-- the `s` value is not in the lower half of the curve -/
  normalizeS : Bool
deriving DecidableEq

structure TxEnvelope where
  payload : TxPayload
  nonce : Nonce
  gasLimit : Nat
  kind : TxKind
  value : Nat
  input : List UInt8
  signature : TxSignature
deriving DecidableEq

/-- Length of the network encoding of a transaction. -/
class TxCodec where
  length : TxEnvelope → Nat

/-- Transaction together with its recovered signer. -/
structure Recovered where
  inner : TxEnvelope
  signer : Address
deriving DecidableEq

/-- Transaction that passed the checks of the block validator. -/
structure ValidatedTx where
  tx : Recovered
  authorizations7702 : List RecoveredAuthorization
deriving DecidableEq

namespace TxEnvelope

section

variable (tx : TxEnvelope)

/-- Pre EIP-2718 transaction. -/
def isLegacy : Bool :=
  match tx.payload with
  | .legacy .. => true
  | _ => false

/-- Transaction with an access list and a plain gas price. -/
def isEip2930 : Bool :=
  match tx.payload with
  | .eip2930 .. => true
  | _ => false

/-- Blob transaction. -/
def isEip4844 : Bool :=
  match tx.payload with
  | .eip4844 .. => true
  | _ => false

/-- Transaction with authorizations. -/
def isEip7702 : Bool :=
  match tx.payload with
  | .eip7702 .. => true
  | _ => false

def chainId : Option Nat :=
  match tx.payload with
  | .legacy chainId _ => chainId
  | .eip2930 chainId .. => some chainId
  | .eip1559 chainId .. => some chainId
  | .eip4844 chainId .. => some chainId
  | .eip7702 chainId .. => some chainId

def gasPrice : Option Nat :=
  match tx.payload with
  | .legacy _ gasPrice => some gasPrice
  | .eip2930 _ gasPrice _ => some gasPrice
  | _ => none

/-- Most the sender pays for a unit of gas. -/
def maxFeePerGas : Nat :=
  match tx.payload with
  | .legacy _ gasPrice => gasPrice
  | .eip2930 _ gasPrice _ => gasPrice
  | .eip1559 _ maxFeePerGas .. => maxFeePerGas
  | .eip4844 _ maxFeePerGas .. => maxFeePerGas
  | .eip7702 _ maxFeePerGas .. => maxFeePerGas

/-- Tip for a unit of gas, for the types that have one. -/
def maxPriorityFeePerGas : Option Nat :=
  match tx.payload with
  | .legacy .. => none
  | .eip2930 .. => none
  | .eip1559 _ _ maxPriorityFeePerGas _ => some maxPriorityFeePerGas
  | .eip4844 _ _ maxPriorityFeePerGas _ => some maxPriorityFeePerGas
  | .eip7702 _ _ maxPriorityFeePerGas .. => some maxPriorityFeePerGas

/-- Announced addresses and storage slots. -/
def accessList : List AccessListItem :=
  match tx.payload with
  | .legacy .. => []
  | .eip2930 _ _ accessList => accessList
  | .eip1559 _ _ _ accessList => accessList
  | .eip4844 _ _ _ accessList => accessList
  | .eip7702 _ _ _ accessList _ => accessList

def authorizationList : Option (List SignedAuthorization) :=
  match tx.payload with
  | .eip7702 _ _ _ _ authorizationList => some authorizationList
  | _ => none

def toAddress : Option Address :=
  match tx.kind with
  | .create => none
  | .call address => some address

end

def recover (tx : TxEnvelope) : Option Recovered :=
  tx.signature.signer.map fun signer => ⟨tx, signer⟩

end TxEnvelope

def ValidatedTx.authorities (tx : ValidatedTx) : List Address :=
  tx.authorizations7702.filterMap RecoveredAuthorization.authority

def ValidatedTx.signer (tx : ValidatedTx) : Address := tx.tx.signer

def ValidatedTx.nonce (tx : ValidatedTx) : Nonce := tx.tx.inner.nonce

/-! ## Gas cost -/

variable (tx : TxEnvelope)

def computeTxnMaxGasCost (baseFee : Nat) : Nat :=
  -- pre EIP-1559 transactions have no priority fee and pay the full gas price
  if tx.isLegacy || tx.isEip2930 then
    tx.gasLimit * tx.maxFeePerGas
  else
    tx.gasLimit * min tx.maxFeePerGas (saturatingAdd baseFee (tx.maxPriorityFeePerGas.getD 0))

/-- Most a transaction takes from its sender. -/
def computeTxnMaxValue (baseFee : Nat) : Nat :=
  saturatingAdd tx.value (computeTxnMaxGasCost tx baseFee)

/-- Whole seconds of a time in nanoseconds, as a 64-bit value. -/
def timestampNsToSecs (timestampNs : Nat) : Nat :=
  min (timestampNs / 1000000000) (2 ^ 64 - 1)

/-! ## Stateless validity -/

inductive StaticValidationError where
  | invalidChainId (txChainId : Nat)
  | maxPriorityOverMaxFee (txMaxPriorityFee txMaxFeePerGas : Nat)
  | initCodeLimitExceeded (txInputLen maxInitCodeSize : Nat)
  | encodedLengthLimitExceeded
  | gasLimitUnderFloorDataGas (txGasLimit floorDataGas : Nat)
  | gasLimitUnderIntrinsicGas (txGasLimit intrinsicGas : Nat)
  | gasLimitOverTFMGasLimit (txGasLimit tfmMaxGasLimit : Nat)
  | gasLimitOverProposalGasLimit (txGasLimit proposalGasLimit : Nat)
  | invalidSignature
  | unsupportedTransactionType
  | authorizationListEmpty
  | authorizationListLengthLimitExceeded
deriving DecidableEq

def tfmMaxGasLimit : Nat := 30000000

/-- Intrinsic gas of one authorization. -/
def eip7702PerEmptyAccountCost : Nat := 25000

def zeroDataLen : Nat := tx.input.countP (· == 0)

def nonZeroDataLen : Nat := tx.input.length - zeroDataLen tx

/-- Gas charged before execution starts. -/
def computeIntrinsicGas : Nat :=
  21000 + zeroDataLen tx * 4 + nonZeroDataLen tx * 16
    + (if tx.kind = .create then 32000 + (tx.input.length + 31) / 32 * 2 else 0)
    + tx.accessList.length * 2400
    + (tx.accessList.map (·.storageKeys.length)).sum * 1900
    + (match tx.authorizationList with
      | some authList => eip7702PerEmptyAccountCost * authList.length
      | none => 0)

def computeFloorDataGas : Nat :=
  21000 + (zeroDataLen tx * 10 + nonZeroDataLen tx * 40)

namespace StaticValidation

def tfm (chainParams : ChainParams) : Except StaticValidationError Unit :=
  if tfmMaxGasLimit < tx.gasLimit then
    .error (.gasLimitOverTFMGasLimit tx.gasLimit tfmMaxGasLimit)
  else if chainParams.proposalGasLimit < tx.gasLimit then
    .error (.gasLimitOverProposalGasLimit tx.gasLimit chainParams.proposalGasLimit)
  else .ok ()

/-- The `s` value is in the lower half of the curve. -/
def eip2 : Except StaticValidationError Unit :=
  if tx.signature.normalizeS then .error .invalidSignature else .ok ()

/-- The chain id is that of the chain, if there is one. -/
def eip155 (chainId : Nat) : Except StaticValidationError Unit :=
  match tx.chainId with
  | some txChainId => if txChainId = chainId then .ok () else .error (.invalidChainId txChainId)
  | none => .ok ()

/-- The tip is within the fee cap. -/
def eip1559 : Except StaticValidationError Unit :=
  match tx.maxPriorityFeePerGas with
  | some priorityFee =>
    if tx.maxFeePerGas < priorityFee then
      .error (.maxPriorityOverMaxFee priorityFee tx.maxFeePerGas)
    else .ok ()
  | none => .ok ()

/-- Init code is at most twice the code size limit. -/
def eip3860 (params : ExecutionChainParams) : Except StaticValidationError Unit :=
  if tx.kind = .create ∧ 2 * params.maxCodeSize < tx.input.length then
    .error (.initCodeLimitExceeded tx.input.length (2 * params.maxCodeSize))
  else .ok ()

def intrinsicGas : Except StaticValidationError Unit :=
  if tx.gasLimit < computeIntrinsicGas tx then
    .error (.gasLimitUnderIntrinsicGas tx.gasLimit (computeIntrinsicGas tx))
  else .ok ()

def eip7623 : Except StaticValidationError Unit :=
  if tx.gasLimit < computeFloorDataGas tx then
    .error (.gasLimitUnderFloorDataGas tx.gasLimit (computeFloorDataGas tx))
  else .ok ()

def eip7702 (params : ExecutionChainParams) : Except StaticValidationError Unit :=
  match tx.authorizationList with
  | none => .ok ()
  | some authList =>
    if !params.pragueEnabled then .error .unsupportedTransactionType
    else if authList.isEmpty then .error .authorizationListEmpty
    else .ok ()

end StaticValidation

def staticValidateTransaction (tx : TxEnvelope) (chainId : Nat) (chainParams : ChainParams)
    (executionChainParams : ExecutionChainParams) : Except StaticValidationError Unit := do
  if tx.isEip4844 then throw .unsupportedTransactionType
  StaticValidation.tfm tx chainParams
  StaticValidation.eip2 tx
  StaticValidation.eip155 tx chainId
  StaticValidation.eip1559 tx
  StaticValidation.eip3860 tx executionChainParams
  StaticValidation.intrinsicGas tx
  if executionChainParams.pragueEnabled then StaticValidation.eip7623 tx
  StaticValidation.eip7702 tx executionChainParams

end Kinet.Eth
