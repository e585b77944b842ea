import Kinet.ConsensusTypes.Block
import Kinet.Foundation.FiniteMap
import Kinet.Eth.Transaction

/-!
# Reserve balances

Consensus accepts transactions before the execution of the preceding blocks is
known.  An account may spend its whole balance only in an emptying transaction,
the first one after a quiet period; every other transaction pays its gas out of
a bounded reserve.  Blocks that are already accepted are charged through their `TxnFees`.
-/

namespace Kinet.Eth

open FiniteMap List

/-- What the block policy tracks of an account's funds. -/
structure AccountBalanceState where
  balance : Nat
  remainingReserveBalance : Nat
  maxReserveBalance : Nat
  blockSeqnumOfLatestTxn : Nat
  isDelegated : Bool
deriving DecidableEq

/-- Funds of an account that does not exist. -/
def AccountBalanceState.new (maxReserveBalance : Nat) : AccountBalanceState where
  balance := 0
  remainingReserveBalance := 0
  maxReserveBalance := maxReserveBalance
  blockSeqnumOfLatestTxn := genesisSeqNum
  isDelegated := false

/-- Summary of an account's transactions in a block. -/
structure TxnFee where
  firstTxnValue : Nat
  firstTxnGas : Nat
  maxGasCost : Nat
  isDelegated : Bool
  delegationBeforeFirstTxn : Bool
deriving DecidableEq

/-- Summaries of the accounts of a block. -/
abbrev TxnFees := FiniteMap Address TxnFee

abbrev AccountBalances := FiniteMap Address AccountBalanceState

/-- Charges the transactions of one block. -/
structure EthBlockPolicyBlockValidator where
  blockSeqNum : Nat
  executionDelay : Nat
  baseFee : Nat
  chainRevision : KinetChainRevision

/-- The account is not delegated and had no transaction in the last `executionDelay`
blocks. -/
def isPossiblyEmptyingTransaction (blockSeqNumOfCurrTxn : Nat)
    (balanceState : AccountBalanceState) (executionDelay : Nat) : Bool :=
  !balanceState.isDelegated &&
    decide (executionDelay - 1 < blockSeqNumOfCurrTxn - balanceState.blockSeqnumOfLatestTxn)

/-- The transaction carries an authorization of its sender. -/
def ValidatedTx.containsSelfAuthorization (txn : ValidatedTx) : Bool :=
  txn.authorizations7702.any fun auth => auth.authority == some txn.signer

def ValidatedTx.maxGasCost (txn : ValidatedTx) (baseFee : Nat) : Nat :=
  computeTxnMaxGasCost txn.tx.inner baseFee

namespace EthBlockPolicyBlockValidator

variable (v : EthBlockPolicyBlockValidator) (accountBalance : AccountBalanceState)

/-- The first transaction of the block may empty the account. -/
def hasEmptyingTransaction (blockTxnFees : TxnFee) : Bool :=
  isPossiblyEmptyingTransaction v.blockSeqNum accountBalance v.executionDelay
    && !blockTxnFees.delegationBeforeFirstTxn

def chargeBlockGas (blockTxnFees : TxnFee)
    (blockGasCost : Nat) : Except BlockPolicyError AccountBalanceState :=
  if accountBalance.remainingReserveBalance < blockGasCost then
    .error (.blockPolicyBlockValidatorError .insufficientReserveBalance)
  else
    .ok { accountBalance with
      remainingReserveBalance := accountBalance.remainingReserveBalance - blockGasCost
      blockSeqnumOfLatestTxn := v.blockSeqNum
      isDelegated := accountBalance.isDelegated || blockTxnFees.isDelegated }

def tryApplyBlockFees (blockTxnFees : TxnFee) : Except BlockPolicyError AccountBalanceState :=
  let maxReserveBalance := v.chainRevision.chainParams.maxReserveBalance
  if v.hasEmptyingTransaction accountBalance blockTxnFees then
    if accountBalance.balance < blockTxnFees.firstTxnGas then
      .error (.blockPolicyBlockValidatorError .insufficientBalance)
    else
      let firstTxnCost := saturatingAdd blockTxnFees.firstTxnValue blockTxnFees.firstTxnGas
      let estimatedBalance := accountBalance.balance - firstTxnCost
      v.chargeBlockGas { accountBalance with
          remainingReserveBalance := min estimatedBalance maxReserveBalance
          balance := estimatedBalance }
        blockTxnFees blockTxnFees.maxGasCost
  else
    v.chargeBlockGas accountBalance blockTxnFees
      (saturatingAdd blockTxnFees.maxGasCost blockTxnFees.firstTxnGas)

/-- The transaction is charged as one that may empty its sender's account. -/
def isEmptyingTransaction (txn : ValidatedTx) : Bool :=
  isPossiblyEmptyingTransaction v.blockSeqNum accountBalance v.executionDelay
    && !txn.containsSelfAuthorization

def chargeTransaction (txn : ValidatedTx) : Except BlockPolicyError AccountBalanceState :=
  let txnMaxGas := txn.maxGasCost v.baseFee
  if v.isEmptyingTransaction accountBalance txn then
    if accountBalance.balance < txnMaxGas then
      .error (.blockPolicyBlockValidatorError .insufficientBalance)
    else
      let txnMaxCost := computeTxnMaxValue txn.tx.inner v.baseFee
      let estimatedBalance := accountBalance.balance - txnMaxCost
      .ok { accountBalance with
        balance := estimatedBalance
        remainingReserveBalance := min accountBalance.maxReserveBalance estimatedBalance
        blockSeqnumOfLatestTxn := v.blockSeqNum }
  else if accountBalance.remainingReserveBalance < txnMaxGas then
    .error (.blockPolicyBlockValidatorError .insufficientReserveBalance)
  else
    .ok { accountBalance with
      remainingReserveBalance := accountBalance.remainingReserveBalance - txnMaxGas
      blockSeqnumOfLatestTxn := v.blockSeqNum }

end EthBlockPolicyBlockValidator

def markDelegated (accountBalances : AccountBalances) (authorities : List Address) :
    AccountBalances :=
  authorities.foldl
    (fun balances authority => balances.modify authority fun st => { st with isDelegated := true })
    accountBalances

def EthBlockPolicyBlockValidator.tryAddTransaction (v : EthBlockPolicyBlockValidator)
    (accountBalances : AccountBalances) (txn : ValidatedTx) :
    Except BlockPolicyError AccountBalances :=
  match accountBalances.lookup txn.signer with
  | none => .error (.blockPolicyBlockValidatorError .accountBalanceMissing)
  | some accountBalance =>
    match v.chargeTransaction accountBalance txn with
    | .error e => .error e
    | .ok accountBalance' =>
      .ok (markDelegated (accountBalances.insert txn.signer accountBalance') txn.authorities)

/-- Charge the transactions of the block under validation in order. -/
def EthBlockPolicyBlockValidator.tryAddTransactions (v : EthBlockPolicyBlockValidator) :
    AccountBalances → List ValidatedTx → Except BlockPolicyError AccountBalances
  | accountBalances, [] => .ok accountBalances
  | accountBalances, txn :: txns =>
    match v.tryAddTransaction accountBalances txn with
    | .error e => .error e
    | .ok accountBalances' => v.tryAddTransactions accountBalances' txns

/-! ## Summaries of a block -/

namespace TxnFees

def recordAuthority (fees : TxnFees) (authority : Address) : TxnFees :=
  match fees.lookup authority with
  | some fee => fees.insert authority { fee with isDelegated := true }
  | none => fees.insert authority ⟨0, 0, 0, true, true⟩

def recordTransaction (fees : TxnFees) (txn : ValidatedTx) (baseFee : Nat) : TxnFees :=
  match fees.lookup txn.signer with
  | some fee =>
    fees.insert txn.signer
      { fee with maxGasCost := saturatingAdd fee.maxGasCost (txn.maxGasCost baseFee) }
  | none =>
    fees.insert txn.signer ⟨txn.tx.inner.value, txn.maxGasCost baseFee, 0, false, false⟩

/-- Record a transaction after its authorizations. -/
def record (baseFee : Nat) (fees : TxnFees) (txn : ValidatedTx) : TxnFees :=
  (txn.authorities.foldl recordAuthority fees).recordTransaction txn baseFee

def ofTransactions (baseFee : Nat) (txns : List ValidatedTx) : TxnFees :=
  txns.foldl (record baseFee) ∅

end TxnFees

/-! ## One account at a time -/

def TxnFee.afterAuthorization : Option TxnFee → TxnFee
  | some fee => { fee with isDelegated := true }
  | none => ⟨0, 0, 0, true, true⟩

def TxnFee.afterTransaction (value gas : Nat) : Option TxnFee → TxnFee
  | some fee => { fee with maxGasCost := saturatingAdd fee.maxGasCost gas }
  | none => ⟨value, gas, 0, false, false⟩

/-- Summary of account `a` after a transaction of the block. -/
def TxnFee.step (baseFee : Nat) (a : Address) (fee : Option TxnFee) (txn : ValidatedTx) :
    Option TxnFee :=
  let fee := if a ∈ txn.authorities then some (afterAuthorization fee) else fee
  if txn.signer = a then some (afterTransaction txn.tx.inner.value (txn.maxGasCost baseFee) fee)
  else fee

lemma TxnFees.lookup_recordAuthority (fees : TxnFees) (authority a : Address) :
    (fees.recordAuthority authority).lookup a =
      if a = authority then some (TxnFee.afterAuthorization (fees.lookup authority))
      else fees.lookup a := by
  unfold recordAuthority
  cases hfee : fees.lookup authority <;> simp [lookup_insert_eq_ite, TxnFee.afterAuthorization]

@[simp]
lemma TxnFee.afterAuthorization_afterAuthorization (fee : Option TxnFee) :
    afterAuthorization (some (afterAuthorization fee)) = afterAuthorization fee := by
  cases fee <;> rfl

lemma TxnFees.lookup_recordAuthorities (authorities : List Address) (fees : TxnFees) (a : Address) :
    (authorities.foldl recordAuthority fees).lookup a =
      if a ∈ authorities then some (TxnFee.afterAuthorization (fees.lookup a))
      else fees.lookup a := by
  induction authorities generalizing fees with
  | nil => simp
  | cons authority authorities ih =>
    rw [foldl_cons, ih, lookup_recordAuthority]
    by_cases ha : a = authority
    · subst ha
      by_cases hmem : a ∈ authorities <;> simp [hmem]
    · simp [ha]

lemma TxnFees.lookup_record (baseFee : Nat) (fees : TxnFees) (txn : ValidatedTx) (a : Address) :
    (fees.record baseFee txn).lookup a = TxnFee.step baseFee a (fees.lookup a) txn := by
  unfold record recordTransaction TxnFee.step
  by_cases hsigner : txn.signer = a
  · subst hsigner
    rw [← lookup_recordAuthorities]
    cases hfee : (txn.authorities.foldl recordAuthority fees).lookup txn.signer <;>
      simp [TxnFee.afterTransaction]
  · rw [if_neg hsigner, ← lookup_recordAuthorities]
    cases (txn.authorities.foldl recordAuthority fees).lookup txn.signer <;>
      exact AList.lookup_insert_ne (Ne.symm hsigner)

/-- Summing up the transactions of a block acts on every account by itself. -/
theorem TxnFees.lookup_ofTransactions (baseFee : Nat) (txns : List ValidatedTx) (a : Address) :
    (ofTransactions baseFee txns).lookup a = txns.foldl (TxnFee.step baseFee a) none := by
  have hgeneral : ∀ fees : TxnFees, (txns.foldl (record baseFee) fees).lookup a =
        txns.foldl (TxnFee.step baseFee a) (fees.lookup a) := by
    induction txns with
    | nil => exact fun _ => rfl
    | cons txn txns ih =>
      intro fees
      rw [foldl_cons, ih, lookup_record, foldl_cons]
  exact hgeneral ∅

/-- Funds of account `a` after a transaction of the block. -/
def EthBlockPolicyBlockValidator.accountStep (v : EthBlockPolicyBlockValidator) (a : Address)
    (st : AccountBalanceState) (txn : ValidatedTx) :
    Except BlockPolicyError AccountBalanceState :=
  match if txn.signer = a then v.chargeTransaction st txn else .ok st with
  | .error e => .error e
  | .ok st' => .ok (if a ∈ txn.authorities then { st' with isDelegated := true } else st')

/-- Funds of account `a` after a list of transactions. -/
def EthBlockPolicyBlockValidator.accountRun (v : EthBlockPolicyBlockValidator) (a : Address) :
    AccountBalanceState → List ValidatedTx → Except BlockPolicyError AccountBalanceState
  | st, [] => .ok st
  | st, txn :: txns =>
    match v.accountStep a st txn with
    | .error e => .error e
    | .ok st' => v.accountRun a st' txns

lemma lookup_markDelegated (authorities : List Address) (balances : AccountBalances) (a : Address) :
    (markDelegated balances authorities).lookup a = (balances.lookup a).map fun st =>
        if a ∈ authorities then { st with isDelegated := true } else st := by
  induction authorities generalizing balances with
  | nil => simp [markDelegated]
  | cons authority authorities ih =>
    have hstep : markDelegated balances (authority :: authorities) =
        markDelegated (balances.modify authority fun st => { st with isDelegated := true })
          authorities := rfl
    rw [hstep, ih, lookup_modify]
    by_cases ha : a = authority
    · subst ha
      cases balances.lookup a <;> simp
    · cases balances.lookup a <;> simp [ha]

namespace EthBlockPolicyBlockValidator

variable {v : EthBlockPolicyBlockValidator}
  {balances balances' : AccountBalances} {txn : ValidatedTx} {st : AccountBalanceState}

/-- Charging a transaction acts on every account by itself. -/
lemma lookup_tryAddTransaction (h : v.tryAddTransaction balances txn = .ok balances')
    {a : Address} (hst : balances.lookup a = some st) :
    ∃ st', v.accountStep a st txn = .ok st' ∧ balances'.lookup a = some st' := by
  unfold tryAddTransaction at h
  split at h
  · cases h
  · next signerSt hsigner =>
    split at h
    · cases h
    · next signerSt' hcharge =>
      cases h
      rw [lookup_markDelegated, lookup_insert_eq_ite]
      unfold accountStep
      by_cases ha : txn.signer = a
      · subst ha
        have hsame : signerSt = st := Option.some.inj (hsigner.symm.trans hst)
        subst hsame
        simp [hcharge]
      · simp [ha, Ne.symm ha, hst]

lemma mem_tryAddTransaction (h : v.tryAddTransaction balances txn = .ok balances') (a : Address) :
    a ∈ balances' ↔ a ∈ balances := by
  unfold tryAddTransaction at h
  split at h
  · cases h
  · next signerSt hsigner =>
    split at h
    · cases h
    · cases h
      rw [← AList.lookup_isSome, lookup_markDelegated, Option.isSome_map, AList.lookup_isSome,
        AList.mem_insert, or_iff_right_iff_imp]
      rintro rfl
      exact mem_iff_lookup.2 ⟨_, hsigner⟩

variable {txns : List ValidatedTx}

/-- Charging a list of transactions acts on every account by itself. -/
theorem lookup_tryAddTransactions (h : v.tryAddTransactions balances txns = .ok balances')
    {a : Address} (hst : balances.lookup a = some st) :
    ∃ st', v.accountRun a st txns = .ok st' ∧ balances'.lookup a = some st' := by
  induction txns generalizing balances st with
  | nil =>
    cases h
    exact ⟨st, rfl, hst⟩
  | cons txn txns ih =>
    unfold tryAddTransactions at h
    split at h
    · cases h
    · next next hnext =>
      obtain ⟨st', hstep, hst'⟩ := lookup_tryAddTransaction hnext hst
      obtain ⟨st'', hrun, hst''⟩ := ih h hst'
      refine ⟨st'', ?_, hst''⟩
      rw [accountRun, hstep]
      exact hrun

/-- If every account can be charged for a list of transactions, the list can be charged. -/
theorem exists_tryAddTransactions (hsigners : ∀ txn ∈ txns, txn.signer ∈ balances)
    (hruns : ∀ a st, balances.lookup a = some st → ∃ st', v.accountRun a st txns = .ok st') :
    ∃ balances', v.tryAddTransactions balances txns = .ok balances' := by
  induction txns generalizing balances with
  | nil => exact ⟨balances, rfl⟩
  | cons txn txns ih =>
    obtain ⟨st, hst⟩ := mem_iff_lookup.1 (hsigners txn mem_cons_self)
    obtain ⟨final, hfinal⟩ := hruns txn.signer st hst
    have hcharge : ∃ st', v.chargeTransaction st txn = .ok st' := by
      cases hc : v.chargeTransaction st txn with
      | ok st' => exact ⟨st', rfl⟩
      | error e => simp [accountRun, accountStep, hc] at hfinal
    obtain ⟨st', hst'⟩ := hcharge
    have hadd : ∃ next, v.tryAddTransaction balances txn = .ok next := by
      simp [tryAddTransaction, hst, hst']
    obtain ⟨next, hnext⟩ := hadd
    rw [tryAddTransactions, hnext]
    refine ih (fun txn' hmem => ?_) fun a stNext hstNext => ?_
    · exact (mem_tryAddTransaction hnext _).2 (hsigners txn' (mem_cons_of_mem _ hmem))
    · have hmem : a ∈ balances :=
        (mem_tryAddTransaction hnext a).1 (mem_iff_lookup.2 ⟨stNext, hstNext⟩)
      obtain ⟨stA, hstA⟩ := mem_iff_lookup.1 hmem
      obtain ⟨stA', hstep, hstA'⟩ := lookup_tryAddTransaction hnext hstA
      have hsame : stA' = stNext := Option.some.inj (hstA'.symm.trans hstNext)
      subst hsame
      obtain ⟨final', hfinal'⟩ := hruns a stA hstA
      rw [accountRun, hstep] at hfinal'
      exact ⟨final', hfinal'⟩

end EthBlockPolicyBlockValidator

end Kinet.Eth
