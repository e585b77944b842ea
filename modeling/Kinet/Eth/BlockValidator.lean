import Kinet.Eth.NonceUsage
import Kinet.Eth.ReserveBalance
import Kinet.Eth.SystemCalls

/-!
# Block validator

The block validator checks a block body without the state of any account: limits on
number, gas and size of the transactions, signatures, system transactions in front, static
validity, and nonces without gaps.  It returns the recovered transactions with the
summaries that later blocks read, the nonce usages and the transaction fees.

Main results:

- `txnFees_addTransactions`: the fees are the summaries of the transactions.
-/

namespace Kinet.Eth

open Recovered List ValidatedTx

variable {K : TypeParams}

/-- Ommers do not exist. -/
structure Ommer where
deriving DecidableEq

/-- Withdrawals do not exist. -/
structure Withdrawal where
deriving DecidableEq

structure EthBlockBody where
  transactions : List TxEnvelope
  ommers : List Ommer
  withdrawals : List Withdrawal
deriving DecidableEq

/-- What is wrong with a body as a whole. -/
inductive PayloadError where
  | nonEmptyOmmers (ommers : List Ommer)
  | nonEmptyWithdrawals (withdrawals : List Withdrawal)
  | exceededNumTxnLimit (numTxs : Nat)
  | exceededBlockGasLimit (totalGas : Nat)
  | exceededBlockSizeLimit (txsSize : Nat)
deriving DecidableEq

/-- What is wrong with a transaction. -/
inductive TxnError where
  | signerRecoveryError
  | staticValidationError (e : StaticValidationError)
  | maxFeeLessThanBaseFee
  | invalidSystemAccountAuthorization
  | nonceOverflow
  | invalidNonce
deriving DecidableEq

/-- Why a block body is rejected. -/
inductive EthBlockValidationError where
  | payloadError (e : PayloadError)
  | systemTxnError (e : SystemTransactionValidationError)
  | txnError (e : TxnError)
deriving DecidableEq

structure ValidatedBody where
  systemTxns : List ValidatedTx
  validatedTxns : List ValidatedTx
  nonceUsages : NonceUsageMap
  txnFees : TxnFees

structure BodySummary where
  nonceUsages : NonceUsageMap
  txnFees : TxnFees

/-! ## Summaries -/

def checkNonceFollows (replaced : Option NonceUsage) (nonce : Nonce) : Except TxnError Unit :=
  match replaced with
  | some (.known oldNonce) =>
    match checkedSucc oldNonce with
    | none => .error .nonceOverflow
    | some expectedNonce => if expectedNonce ≠ nonce then .error .invalidNonce else .ok ()
  -- an authorization may or may not have counted, the body alone does not tell
  | some (.possible _) => .ok ()
  | none => .ok ()

def addSystemTransaction (usages : NonceUsageMap) (txn : ValidatedTx) :
    Except TxnError NonceUsageMap :=
  let (usages', replaced) := usages.addKnown txn.signer txn.nonce
  match replaced with
  | some (.possible _) => .error .invalidNonce
  | _ =>
    match checkNonceFollows replaced txn.nonce with
    | .error e => .error e
    | .ok () => .ok usages'

def addSystemTransactions : NonceUsageMap → List ValidatedTx → Except TxnError NonceUsageMap
  | usages, [] => .ok usages
  | usages, txn :: txns =>
    match addSystemTransaction usages txn with
    | .error e => .error e
    | .ok usages' => addSystemTransactions usages' txns

def addAuthorizationNonce (usages : NonceUsageMap) (authority : Address) (nonce : Nonce) :
    Except TxnError NonceUsageMap :=
  match usages.lookup authority with
  | some (.known last) =>
    match checkedSucc last with
    | none => .error .nonceOverflow
    | some next => .ok (if next = nonce then usages.insert authority (.known next) else usages)
  | some (.possible nonces) => .ok (usages.insert authority (.possible (nonces ++ [nonce])))
  | none => .ok (usages.insert authority (.possible [nonce]))

def addAuthorization (chainId : Nat) (summary : BodySummary) (auth : RecoveredAuthorization) :
    Except TxnError BodySummary :=
  match auth.authority with
  | none => .ok summary
  | some authority =>
    if authority = systemSenderEthAddress then .error .invalidSystemAccountAuthorization
    else
      -- an authorization delegates even if it is invalid
      let txnFees := summary.txnFees.recordAuthority authority
      if !auth.inner.isForChain chainId then .ok { summary with txnFees := txnFees }
      else
        match addAuthorizationNonce summary.nonceUsages authority auth.inner.nonce with
        | .error e => .error e
        | .ok nonceUsages => .ok ⟨nonceUsages, txnFees⟩

/-- Record the authorizations of a transaction in order. -/
def addAuthorizations (chainId : Nat) :
    BodySummary → List RecoveredAuthorization → Except TxnError BodySummary
  | summary, [] => .ok summary
  | summary, auth :: auths =>
    match addAuthorization chainId summary auth with
    | .error e => .error e
    | .ok summary' => addAuthorizations chainId summary' auths

def addTransaction (chainId baseFee : Nat) (summary : BodySummary) (txn : ValidatedTx) :
    Except TxnError BodySummary :=
  if txn.tx.inner.maxFeePerGas < baseFee then .error .maxFeeLessThanBaseFee
  else
    let (nonceUsages, replaced) := summary.nonceUsages.addKnown txn.signer txn.nonce
    match checkNonceFollows replaced txn.nonce with
    | .error e => .error e
    | .ok () =>
      -- authorizations of the transaction count before its own fees
      match if txn.tx.inner.isEip7702 then
          addAuthorizations chainId ⟨nonceUsages, summary.txnFees⟩ txn.authorizations7702
        else .ok ⟨nonceUsages, summary.txnFees⟩ with
      | .error e => .error e
      | .ok summary' =>
        .ok { summary' with txnFees := summary'.txnFees.recordTransaction txn baseFee }

/-- Record the user transactions in order. -/
def addTransactions (chainId baseFee : Nat) :
    BodySummary → List ValidatedTx → Except TxnError BodySummary
  | summary, [] => .ok summary
  | summary, txn :: txns =>
    match addTransaction chainId baseFee summary txn with
    | .error e => .error e
    | .ok summary' => addTransactions chainId baseFee summary' txns

/-! ## The body -/

/-- Sum of the gas limits, unless it overflows. -/
def checkedTotalGas (transactions : List TxEnvelope) : Option Nat :=
  transactions.foldl (fun acc tx => acc.bind fun total =>
      if total + tx.gasLimit < 2 ^ 64 then some (total + tx.gasLimit) else none)
    (some 0)

def recoverTransactions : List TxEnvelope → Option (List Recovered)
  | [] => some []
  | tx :: txs =>
    match tx.recover, recoverTransactions txs with
    | some r, some rs => some (r :: rs)
    | _, _ => none

def Recovered.toValidatedTx (tx : Recovered) : ValidatedTx where
  tx := tx
  authorizations7702 :=
    match tx.inner.authorizationList with
    | some authList =>
      authList.filterMap fun signed => signed.recoverAuthority.map fun authority =>
        ⟨signed.inner, some authority⟩
    | none => []

def staticValidateTransactions (chainId : Nat) (chainParams : ChainParams)
    (executionChainParams : ExecutionChainParams) : List Recovered → Except TxnError Unit
  | [] => .ok ()
  | tx :: txs =>
    match staticValidateTransaction tx.inner chainId chainParams executionChainParams with
    | .error e => .error (.staticValidationError e)
    | .ok () => staticValidateTransactions chainId chainParams executionChainParams txs

/-! ## What the fees say -/

variable {summary summary' : BodySummary} {chainId : Nat}

lemma txnFees_addAuthorizations {auths : List RecoveredAuthorization}
    (h : addAuthorizations chainId summary auths = .ok summary') :
    summary'.txnFees =
      (auths.filterMap RecoveredAuthorization.authority).foldl TxnFees.recordAuthority
        summary.txnFees := by
  induction auths generalizing summary with
  | nil =>
    cases h
    rfl
  | cons auth auths ih =>
    unfold addAuthorizations at h
    split at h
    · cases h
    · next next hnext =>
      rw [ih h]
      unfold addAuthorization at hnext
      cases hauthority : auth.authority with
      | none =>
        rw [hauthority] at hnext
        cases hnext
        rw [filterMap_cons_none hauthority]
      | some authority =>
        rw [filterMap_cons_some hauthority, foldl_cons]
        rw [hauthority] at hnext
        simp only at hnext
        split_ifs at hnext
        · cases hnext
          rfl
        · split at hnext
          · cases hnext
          · cases hnext
            rfl

lemma authorizations7702_eq_nil {tx : Recovered} (h : tx.inner.isEip7702 = false) :
    tx.toValidatedTx.authorizations7702 = [] := by
  unfold toValidatedTx TxEnvelope.authorizationList
  unfold TxEnvelope.isEip7702 at h
  cases hpayload : tx.inner.payload <;> simp_all

lemma txnFees_addTransaction {baseFee : Nat} {tx : Recovered}
    (h : addTransaction chainId baseFee summary tx.toValidatedTx = .ok summary') :
    summary'.txnFees = summary.txnFees.record baseFee tx.toValidatedTx := by
  unfold addTransaction at h
  simp only at h
  split at h
  · cases h
  split at h
  · cases h
  split at h
  · cases h
  · next next hauths =>
    cases h
    unfold TxnFees.record
    split at hauths
    · rw [txnFees_addAuthorizations hauths]
      rfl
    · next hplain =>
      cases hauths
      have hnil : tx.toValidatedTx.authorizations7702 = [] :=
        authorizations7702_eq_nil (by simpa [toValidatedTx] using hplain)
      rw [authorities, hnil]
      rfl

theorem txnFees_addTransactions {baseFee : Nat} {txs : List Recovered}
    (h : addTransactions chainId baseFee summary (txs.map toValidatedTx) = .ok summary') :
    summary'.txnFees =
      (txs.map toValidatedTx).foldl (TxnFees.record baseFee) summary.txnFees := by
  induction txs generalizing summary with
  | nil =>
    cases h
    rfl
  | cons tx txs ih =>
    rw [map_cons, addTransactions] at h
    split at h
    · cases h
    · next next hnext =>
      rw [ih h, txnFees_addTransaction hnext]
      rfl

/-! ## Validation -/

variable [TxCodec]

def transactionsSize (txns : List Recovered) : Nat :=
  (txns.map fun tx => TxCodec.length tx.inner).sum

def validateBlockBody (header : ConsensusBlockHeader K) (body : EthBlockBody)
    (chainConfig : ChainConfig) : Except EthBlockValidationError ValidatedBody :=
  let chainParams := (chainConfig.getChainRevision header.blockRound).chainParams
  let chainId := chainConfig.chainId
  let executionChainParams := executionParamsAt header.timestampNs chainConfig
  if !body.ommers.isEmpty then .error (.payloadError (.nonEmptyOmmers body.ommers))
  else if !body.withdrawals.isEmpty then
    .error (.payloadError (.nonEmptyWithdrawals body.withdrawals))
  else if chainParams.txLimit < body.transactions.length then
    .error (.payloadError (.exceededNumTxnLimit body.transactions.length))
  else
    match checkedTotalGas body.transactions with
    | none => .error (.payloadError (.exceededBlockGasLimit (2 ^ 64 - 1)))
    | some totalGas =>
      if chainParams.proposalGasLimit < totalGas then
        .error (.payloadError (.exceededBlockGasLimit totalGas))
      else
        match recoverTransactions body.transactions with
        | none => .error (.txnError .signerRecoveryError)
        | some recoveredTxns =>
          match extractSystemTransactions header recoveredTxns chainConfig with
          | .error e => .error (.systemTxnError e)
          | .ok (systemTxns, ethTxns) =>
            let proposalSize := transactionsSize (systemTxns.map tx)
              + transactionsSize ethTxns
            if chainParams.proposalByteLimit < proposalSize then
              .error (.payloadError (.exceededBlockSizeLimit proposalSize))
            else
              match addSystemTransactions ∅ systemTxns with
              | .error e => .error (.txnError e)
              | .ok nonceUsages =>
                match staticValidateTransactions chainId chainParams executionChainParams
                    ethTxns with
                | .error e => .error (.txnError e)
                | .ok () =>
                  let validatedTxns := ethTxns.map toValidatedTx
                  match addTransactions chainId header.baseFee ⟨nonceUsages, ∅⟩ validatedTxns with
                  | .error e => .error (.txnError e)
                  | .ok summary =>
                    .ok ⟨systemTxns, validatedTxns, summary.nonceUsages, summary.txnFees⟩

/-- What the validator has checked of a body, given the transactions it splits it into. -/
structure BodyChecks (header : ConsensusBlockHeader K) (body : EthBlockBody)
    (chainConfig : ChainConfig) (systemTxns : List ValidatedTx) (ethTxns : List Recovered)
    (nonceUsages : NonceUsageMap) (summary : BodySummary) : Prop where
  ommers : body.ommers = []
  withdrawals : body.withdrawals = []
  txLimit : body.transactions.length ≤
    (chainConfig.getChainRevision header.blockRound).chainParams.txLimit
  gasLimit : ∃ totalGas, checkedTotalGas body.transactions = some totalGas ∧
    totalGas ≤ (chainConfig.getChainRevision header.blockRound).chainParams.proposalGasLimit
  extracted : ∃ recoveredTxns, recoverTransactions body.transactions = some recoveredTxns ∧
    extractSystemTransactions header recoveredTxns chainConfig = .ok (systemTxns, ethTxns)
  byteLimit : transactionsSize (systemTxns.map tx) + transactionsSize ethTxns ≤
    (chainConfig.getChainRevision header.blockRound).chainParams.proposalByteLimit
  systemNonces : addSystemTransactions ∅ systemTxns = .ok nonceUsages
  static : staticValidateTransactions chainConfig.chainId
    (chainConfig.getChainRevision header.blockRound).chainParams
    (executionParamsAt header.timestampNs chainConfig) ethTxns = .ok ()
  summary : addTransactions chainConfig.chainId header.baseFee ⟨nonceUsages, ∅⟩
    (ethTxns.map toValidatedTx) = .ok summary

variable {header : ConsensusBlockHeader K} {body : EthBlockBody} {chainConfig : ChainConfig}
include header

/-- Every check holds of an accepted body. -/
theorem validateBlockBody_spec {result : ValidatedBody}
    (h : validateBlockBody header body chainConfig = .ok result) :
    ∃ ethTxns nonceUsages, result.validatedTxns = ethTxns.map toValidatedTx ∧
      BodyChecks header body chainConfig result.systemTxns ethTxns nonceUsages
        ⟨result.nonceUsages, result.txnFees⟩ := by
  unfold validateBlockBody at h
  simp only at h
  split at h
  · cases h
  next hommers =>
  split at h
  · cases h
  next hwithdrawals =>
  split at h
  · cases h
  next hlimit =>
  split at h
  · cases h
  next totalGas hgas =>
  split at h
  · cases h
  next hgasLimit =>
  split at h
  · cases h
  next recoveredTxns hrecovered =>
  split at h
  · cases h
  next systemTxns ethTxns hextracted =>
  split at h
  · cases h
  next hsize =>
  split at h
  · cases h
  next nonceUsages hsystem =>
  split at h
  · cases h
  next hstatic =>
  split at h
  · cases h
  next summary hsummary =>
  cases h
  exact ⟨ethTxns, nonceUsages, rfl,
    { ommers := by simpa using hommers
      withdrawals := by simpa using hwithdrawals
      txLimit := Nat.le_of_not_lt hlimit
      gasLimit := ⟨totalGas, hgas, Nat.le_of_not_lt hgasLimit⟩
      extracted := ⟨recoveredTxns, hrecovered, hextracted⟩
      byteLimit := Nat.le_of_not_lt hsize
      systemNonces := hsystem
      static := hstatic
      summary := hsummary }⟩

end Kinet.Eth
