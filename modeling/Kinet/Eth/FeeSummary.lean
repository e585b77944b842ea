import Kinet.Eth.ReserveBalance

/-!
# Charging a block through its summary

For one account, charging the transactions of a block one by one and charging
their summary succeed together and leave the same funds.  `Agrees` relates the summary of
the transactions so far to the funds after charging them; every transaction keeps it.
-/

namespace Kinet.Eth

open List

lemma ValidatedTx.containsSelfAuthorization_iff (txn : ValidatedTx) :
    txn.containsSelfAuthorization = true ↔ txn.signer ∈ txn.authorities := by
  simp [containsSelfAuthorization, authorities, mem_filterMap]

/-! ## Which accounts have a summary -/

/-- No transaction and no authorization of the account. -/
def Silent (a : Address) (txns : List ValidatedTx) : Prop :=
  ∀ txn ∈ txns, txn.signer ≠ a ∧ a ∉ txn.authorities

lemma TxnFee.step_some (baseFee : Nat) (a : Address) (fee : TxnFee) (txn : ValidatedTx) :
    ∃ fee', TxnFee.step baseFee a (some fee) txn = some fee' ∧
      fee'.delegationBeforeFirstTxn = fee.delegationBeforeFirstTxn := by
  unfold TxnFee.step
  split_ifs <;> exact ⟨_, rfl, rfl⟩

/-- An account that has a summary keeps it, and what comes before its first transaction is
settled. -/
lemma TxnFee.foldl_step_some (baseFee : Nat) (a : Address) (txns : List ValidatedTx)
    (fee : TxnFee) :
    ∃ fee', txns.foldl (TxnFee.step baseFee a) (some fee) = some fee' ∧
      fee'.delegationBeforeFirstTxn = fee.delegationBeforeFirstTxn := by
  induction txns generalizing fee with
  | nil => exact ⟨fee, rfl, rfl⟩
  | cons txn txns ih =>
    obtain ⟨fee', hstep, hfee'⟩ := step_some baseFee a fee txn
    obtain ⟨fee'', hrun, hfee''⟩ := ih fee'
    rw [foldl_cons, hstep]
    exact ⟨fee'', hrun, hfee''.trans hfee'⟩

lemma TxnFee.step_none_eq_none_iff {baseFee : Nat} {a : Address} {txn : ValidatedTx} :
    TxnFee.step baseFee a none txn = none ↔ txn.signer ≠ a ∧ a ∉ txn.authorities := by
  unfold TxnFee.step
  split_ifs <;> simp_all

variable {txns : List ValidatedTx}

/-- An account has a summary if and only if it signs something. -/
lemma TxnFee.foldl_step_eq_none_iff {baseFee : Nat} {a : Address} :
    txns.foldl (TxnFee.step baseFee a) none = none ↔ Silent a txns := by
  induction txns with
  | nil => simp [Silent]
  | cons txn txns ih =>
    have hsilent : Silent a (txn :: txns) ↔
        (txn.signer ≠ a ∧ a ∉ txn.authorities) ∧ Silent a txns := forall_mem_cons
    rw [foldl_cons, hsilent]
    cases hstep : TxnFee.step baseFee a none txn with
    | none => rw [ih, and_iff_right (step_none_eq_none_iff.1 hstep)]
    | some fee =>
      obtain ⟨fee', hfee', -⟩ := foldl_step_some baseFee a txns fee
      rw [hfee', ← @step_none_eq_none_iff baseFee, hstep]
      simp

structure AccountBalanceState.SameFunds (s t : AccountBalanceState) : Prop where
  balance : s.balance = t.balance
  remainingReserveBalance : s.remainingReserveBalance = t.remainingReserveBalance
  isDelegated : s.isDelegated = t.isDelegated

namespace EthBlockPolicyBlockValidator

/-- What the block policy has computed for an account before it charges a block: the
reserve is bounded by the maximal one, which is that of the block's revision. -/
structure Admits (v : EthBlockPolicyBlockValidator) (st : AccountBalanceState) : Prop where
  maxReserveBalance : st.maxReserveBalance = v.chainRevision.chainParams.maxReserveBalance
  reserve_le : st.remainingReserveBalance ≤ st.maxReserveBalance

variable {v : EthBlockPolicyBlockValidator} {st : AccountBalanceState}

lemma maxReserveBalance_lt_balanceMax (r : KinetChainRevision) :
    r.chainParams.maxReserveBalance < balanceMax := by
  rw [KinetChainRevision.maxReserveBalance_eq]
  decide

lemma Admits.reserve_lt (h : v.Admits st) : st.remainingReserveBalance < balanceMax := by
  have hcap := maxReserveBalance_lt_balanceMax v.chainRevision
  rw [← h.maxReserveBalance] at hcap
  exact lt_of_le_of_lt h.reserve_le hcap

/-! ## How the summary grows -/

/-- Recording an authorization marks the account. -/
lemma tryApplyBlockFees_isDelegated (fee : TxnFee) :
    v.tryApplyBlockFees st { fee with isDelegated := true } =
      (v.tryApplyBlockFees st fee).map fun t => { t with isDelegated := true } := by
  simp only [tryApplyBlockFees, hasEmptyingTransaction, chargeBlockGas]
  split_ifs <;> simp [Except.map]

/-- An account that only signed authorizations pays nothing. -/
lemma tryApplyBlockFees_authorizationOnly : v.tryApplyBlockFees st ⟨0, 0, 0, true, true⟩ =
      .ok { st with blockSeqnumOfLatestTxn := v.blockSeqNum, isDelegated := true } := by
  simp [tryApplyBlockFees, hasEmptyingTransaction, chargeBlockGas, saturatingAdd]

def chargeGas (gas : Nat) (t : AccountBalanceState) : Except BlockPolicyError AccountBalanceState :=
  if t.remainingReserveBalance < gas then
    .error (.blockPolicyBlockValidatorError .insufficientReserveBalance)
  else .ok { t with remainingReserveBalance := t.remainingReserveBalance - gas }

variable {t s : AccountBalanceState} {txn : ValidatedTx} {fee : Option TxnFee}

/-- A reserve is never large enough to notice that a sum was cut off. -/
lemma chargeBlockGas_min (hlt : t.remainingReserveBalance < balanceMax) (fee : TxnFee)
    (cost : Nat) : v.chargeBlockGas t fee (min cost balanceMax) = v.chargeBlockGas t fee cost := by
  unfold chargeBlockGas
  by_cases hcost : t.remainingReserveBalance < cost
  · rw [if_pos (by omega), if_pos hcost]
  · have hmin : min cost balanceMax = cost := by omega
    rw [hmin]

lemma chargeBlockGas_add (t : AccountBalanceState) (fee : TxnFee) (cost gas : Nat) :
    v.chargeBlockGas t fee (cost + gas) = (v.chargeBlockGas t fee cost).bind (chargeGas gas) := by
  unfold chargeBlockGas chargeGas
  by_cases hcost : t.remainingReserveBalance < cost
  · rw [if_pos (by omega), if_pos hcost]
    rfl
  · rw [if_neg hcost]
    simp only [Except.bind]
    by_cases hgas : t.remainingReserveBalance < cost + gas
    · rw [if_pos hgas, if_pos (by omega)]
    · rw [if_neg hgas, if_neg (by omega), Nat.sub_add_eq]

/-- Recording a further transaction charges its gas to the reserve. -/
lemma tryApplyBlockFees_addGas (hst : v.Admits st) (fee : TxnFee) (gas : Nat) :
    v.tryApplyBlockFees st { fee with maxGasCost := saturatingAdd fee.maxGasCost gas } =
      (v.tryApplyBlockFees st fee).bind (chargeGas gas) := by
  unfold tryApplyBlockFees hasEmptyingTransaction
  split
  · split
    · rfl
    · have hlt : min (st.balance - saturatingAdd fee.firstTxnValue fee.firstTxnGas)
          v.chainRevision.chainParams.maxReserveBalance < balanceMax :=
        lt_of_le_of_lt (min_le_right _ _) (maxReserveBalance_lt_balanceMax _)
      exact (chargeBlockGas_min hlt _ _).trans (chargeBlockGas_add _ _ _ _)
  · have hsum : saturatingAdd (saturatingAdd fee.maxGasCost gas) fee.firstTxnGas =
        min (fee.maxGasCost + fee.firstTxnGas + gas) balanceMax := by
      unfold saturatingAdd
      omega
    rw [hsum, chargeBlockGas_min hst.reserve_lt]
    have hplain : v.chargeBlockGas st fee (saturatingAdd fee.maxGasCost fee.firstTxnGas) =
        v.chargeBlockGas st fee (fee.maxGasCost + fee.firstTxnGas) :=
      chargeBlockGas_min hst.reserve_lt _ _
    exact (chargeBlockGas_add _ _ _ _).trans (by rw [hplain]; rfl)

/-- The summary of a single transaction is charged as the transaction is. -/
lemma tryApplyBlockFees_firstTransaction (hst : v.Admits st)
    (hself : txn.containsSelfAuthorization = false) :
    v.tryApplyBlockFees st ⟨txn.tx.inner.value, txn.maxGasCost v.baseFee, 0, false, false⟩ =
      v.chargeTransaction st txn := by
  simp only [tryApplyBlockFees, hasEmptyingTransaction, chargeTransaction, isEmptyingTransaction,
    hself]
  split
  · split
    · rfl
    · simp [chargeBlockGas, computeTxnMaxValue, ValidatedTx.maxGasCost, hst.maxReserveBalance,
        min_comm]
  · rw [saturatingAdd, zero_add, chargeBlockGas_min hst.reserve_lt]
    simp [chargeBlockGas]

/-- A transaction that cannot empty the account pays its gas from the reserve. -/
lemma chargeTransaction_of_not_emptying (h : v.isEmptyingTransaction st txn = false) :
    v.chargeTransaction st txn = (chargeGas (txn.maxGasCost v.baseFee) st).map fun t =>
        { t with blockSeqnumOfLatestTxn := v.blockSeqNum } := by
  simp only [chargeTransaction, h, chargeGas]
  split_ifs <;> simp_all [Except.map]

/-! ## The two ways of charging agree -/

/-- The account can no longer send an emptying transaction in the block. -/
def Settled (v : EthBlockPolicyBlockValidator) (s : AccountBalanceState) : Prop :=
  s.isDelegated = true ∨ s.blockSeqnumOfLatestTxn = v.blockSeqNum

lemma Settled.not_possiblyEmptying (h : v.Settled s) :
    isPossiblyEmptyingTransaction v.blockSeqNum s v.executionDelay = false := by
  unfold isPossiblyEmptyingTransaction
  rcases h with hdelegated | hlatest
  · simp [hdelegated]
  · simp [hlatest]

/-- Funds `run` after charging transactions one by one agree with charging their summary
`fee` to the funds `st` before the block. -/
def Agrees (v : EthBlockPolicyBlockValidator) (st : AccountBalanceState) :
    Option TxnFee → Except BlockPolicyError AccountBalanceState → Prop
  | none, run => run = .ok st
  | some fee, .ok s => v.Settled s ∧ ∃ t, v.tryApplyBlockFees st fee = .ok t ∧ t.SameFunds s
  | some fee, .error _ => ∃ e, v.tryApplyBlockFees st fee = .error e

lemma SameFunds_chargeGas (h : t.SameFunds s) (gas : Nat) :
    (∃ e e', chargeGas gas t = .error e ∧ chargeGas gas s = .error e') ∨
      ∃ t' s', chargeGas gas t = .ok t' ∧ chargeGas gas s = .ok s' ∧ t'.SameFunds s' := by
  unfold chargeGas
  rw [h.remainingReserveBalance]
  split
  · exact .inl ⟨_, _, rfl, rfl⟩
  · exact .inr ⟨_, _, rfl, rfl, ⟨h.balance, rfl, h.isDelegated⟩⟩

/-- A transaction of another account, or an authorization, keeps the agreement. -/
lemma Agrees.authorization (h : v.Agrees st fee (.ok s)) :
    v.Agrees st (some (TxnFee.afterAuthorization fee)) (.ok { s with isDelegated := true }) := by
  refine ⟨.inl rfl, ?_⟩
  cases fee with
  | none =>
    cases h
    exact ⟨_, tryApplyBlockFees_authorizationOnly, ⟨rfl, rfl, rfl⟩⟩
  | some fee =>
    obtain ⟨-, t, ht, hsame⟩ := h
    refine ⟨{ t with isDelegated := true }, ?_, ⟨hsame.balance, hsame.remainingReserveBalance, rfl⟩⟩
    rw [TxnFee.afterAuthorization, tryApplyBlockFees_isDelegated, ht]
    rfl

/-- A further transaction of an account that cannot be emptied any more keeps the
agreement. -/
lemma Agrees.addGas (hst : v.Admits st) {fee : TxnFee} (h : v.Agrees st (some fee) (.ok s))
    (gas : Nat) : v.Agrees st (some { fee with maxGasCost := saturatingAdd fee.maxGasCost gas })
      ((chargeGas gas s).map fun s' => { s' with blockSeqnumOfLatestTxn := v.blockSeqNum }) := by
  obtain ⟨-, t, ht, hsame⟩ := h
  rcases SameFunds_chargeGas hsame gas with ⟨e, e', het, hes⟩ | ⟨t', s', ht', hs', hsame'⟩
  · rw [hes]
    refine ⟨e, ?_⟩
    rw [tryApplyBlockFees_addGas hst, ht]
    exact het
  · rw [hs']
    refine ⟨.inr rfl, t', ?_, ⟨hsame'.balance, hsame'.remainingReserveBalance, hsame'.isDelegated⟩⟩
    rw [tryApplyBlockFees_addGas hst, ht]
    exact ht'

variable {e : BlockPolicyError}

/-- Once charging has failed, the summary of more transactions fails as well. -/
lemma Agrees.error_step (hst : v.Admits st)
    (h : v.Agrees st fee (.error e)) (a : Address) (txn : ValidatedTx) :
    v.Agrees st (TxnFee.step v.baseFee a fee txn) (.error e) := by
  cases fee with
  | none => cases h
  | some fee =>
    obtain ⟨e', he'⟩ := h
    have hmark : ∃ e', v.tryApplyBlockFees st { fee with isDelegated := true } = .error e' := by
      rw [tryApplyBlockFees_isDelegated, he']
      exact ⟨e', rfl⟩
    have hadd : ∀ fee' : TxnFee, (∃ e', v.tryApplyBlockFees st fee' = .error e') → ∀ gas,
        ∃ e', v.tryApplyBlockFees st
          { fee' with maxGasCost := saturatingAdd fee'.maxGasCost gas } = .error e' := by
      rintro fee' ⟨e'', he''⟩ gas
      rw [tryApplyBlockFees_addGas hst, he'']
      exact ⟨e'', rfl⟩
    unfold TxnFee.step
    split_ifs
    · exact hadd _ hmark _
    · exact hmark
    · exact hadd _ ⟨e', he'⟩ _
    · exact ⟨e', he'⟩

lemma Agrees.error_run (hst : v.Admits st) (a : Address) (txns : List ValidatedTx)
    (h : v.Agrees st fee (.error e)) :
    v.Agrees st (txns.foldl (TxnFee.step v.baseFee a) fee) (.error e) := by
  induction txns generalizing fee with
  | nil => exact h
  | cons txn txns ih => exact ih (h.error_step hst a txn)

variable {s' : AccountBalanceState}

lemma blockSeqnumOfLatestTxn_chargeTransaction
    (h : v.chargeTransaction s txn = .ok s') : s'.blockSeqnumOfLatestTxn = v.blockSeqNum := by
  simp only [chargeTransaction] at h
  split_ifs at h <;> cases h <;> rfl

section

variable (hst : v.Admits st)
include hst

lemma Agrees.firstTransaction (hself : txn.containsSelfAuthorization = false) :
    v.Agrees st (some ⟨txn.tx.inner.value, txn.maxGasCost v.baseFee, 0, false, false⟩)
      (v.chargeTransaction st txn) := by
  have hfirst := tryApplyBlockFees_firstTransaction hst hself
  cases hcharge : v.chargeTransaction st txn with
  | error e => exact ⟨e, hfirst.trans hcharge⟩
  | ok s =>
    exact ⟨.inr (blockSeqnumOfLatestTxn_chargeTransaction hcharge), s, hfirst.trans hcharge,
      ⟨rfl, rfl, rfl⟩⟩

section

variable (h : v.Agrees st fee (.ok s))
include h

/-- A transaction without an authorization of its sender keeps the agreement. -/
lemma Agrees.transaction (hself : txn.containsSelfAuthorization = false) :
    v.Agrees st (some (TxnFee.afterTransaction txn.tx.inner.value (txn.maxGasCost v.baseFee) fee))
      (v.chargeTransaction s txn) := by
  cases fee with
  | none =>
    cases h
    exact firstTransaction hst hself
  | some fee =>
    have hempty : v.isEmptyingTransaction s txn = false := by
      rw [isEmptyingTransaction, h.1.not_possiblyEmptying, Bool.false_and]
    rw [chargeTransaction_of_not_emptying hempty]
    exact h.addGas hst _

/-- A transaction with an authorization of its sender keeps the agreement. -/
lemma Agrees.selfAuthorization (hself : txn.containsSelfAuthorization = true) :
    v.Agrees st (some (TxnFee.afterTransaction txn.tx.inner.value (txn.maxGasCost v.baseFee)
        (some (TxnFee.afterAuthorization fee))))
      ((v.chargeTransaction s txn).map fun s' => { s' with isDelegated := true }) := by
  have hempty : v.isEmptyingTransaction s txn = false := by
    rw [isEmptyingTransaction, hself, Bool.not_true, Bool.and_false]
  have hcommute : ((v.chargeTransaction s txn).map fun s' => { s' with isDelegated := true }) =
      (chargeGas (txn.maxGasCost v.baseFee) { s with isDelegated := true }).map
        fun s' => { s' with blockSeqnumOfLatestTxn := v.blockSeqNum } := by
    rw [chargeTransaction_of_not_emptying hempty]
    simp only [chargeGas]
    split_ifs <;> rfl
  rw [hcommute]
  exact h.authorization.addGas hst _

/-- Every transaction of the block keeps the agreement. -/
lemma Agrees.step (a : Address) (txn : ValidatedTx) :
    v.Agrees st (TxnFee.step v.baseFee a fee txn) (v.accountStep a s txn) := by
  unfold TxnFee.step accountStep
  by_cases hauth : a ∈ txn.authorities <;> by_cases hsigner : txn.signer = a
  · subst hsigner
    have hself := txn.containsSelfAuthorization_iff.2 hauth
    have hagrees := h.selfAuthorization hst hself
    simp only [hauth, if_true]
    cases hcharge : v.chargeTransaction s txn <;> rw [hcharge] at hagrees <;> exact hagrees
  · simp only [hauth, hsigner, if_true, if_false]
    exact h.authorization
  · subst hsigner
    have hself : txn.containsSelfAuthorization = false := by
      rw [Bool.eq_false_iff]
      exact fun hcontains => hauth (txn.containsSelfAuthorization_iff.1 hcontains)
    have hagrees := h.transaction hst hself
    simp only [hauth, if_true, if_false]
    cases hcharge : v.chargeTransaction s txn <;> rw [hcharge] at hagrees <;> exact hagrees
  · simpa only [hauth, hsigner, if_false] using h

end

lemma Agrees.run (a : Address) (txns : List ValidatedTx) (h : v.Agrees st fee (.ok s)) :
    v.Agrees st (txns.foldl (TxnFee.step v.baseFee a) fee) (v.accountRun a s txns) := by
  induction txns generalizing fee s with
  | nil => exact h
  | cons txn txns ih =>
    have hstep := h.step hst a txn
    rw [foldl_cons, accountRun]
    cases hnext : v.accountStep a s txn with
    | ok s' =>
      rw [hnext] at hstep
      exact ih hstep
    | error e =>
      -- charging stops here, and the summary goes on
      rw [hnext] at hstep
      exact hstep.error_run hst a txns

/-- For one account, charging the transactions of a block one by one agrees with charging
their summary. -/
theorem accountRun_agrees (a : Address) (txns : List ValidatedTx) :
    v.Agrees st ((TxnFees.ofTransactions v.baseFee txns).lookup a) (v.accountRun a st txns) := by
  rw [TxnFees.lookup_ofTransactions]
  exact Agrees.run hst a txns (show v.Agrees st none (.ok st) from rfl)

end

/-- Charging a summary notes the block. -/
lemma blockSeqnumOfLatestTxn_tryApplyBlockFees {fee : TxnFee}
    (h : v.tryApplyBlockFees st fee = .ok t) : t.blockSeqnumOfLatestTxn = v.blockSeqNum := by
  simp only [tryApplyBlockFees, chargeBlockGas] at h
  split_ifs at h <;> cases h <;> rfl

/-- The latest transaction of an account that sends one in the block is in the block. -/
theorem blockSeqnumOfLatestTxn_accountRun {a : Address} (h : v.accountRun a s txns = .ok s')
    (hlatest : s.blockSeqnumOfLatestTxn = v.blockSeqNum ∨ ∃ txn ∈ txns, txn.signer = a) :
    s'.blockSeqnumOfLatestTxn = v.blockSeqNum := by
  induction txns generalizing s with
  | nil =>
    cases h
    simpa using hlatest
  | cons txn txns ih =>
    unfold accountRun at h
    split at h
    · cases h
    · next s1 hstep =>
      refine ih h ?_
      unfold accountStep at hstep
      by_cases hsigner : txn.signer = a
      · left
        rw [if_pos hsigner] at hstep
        cases hcharge : v.chargeTransaction s txn with
        | error e => simp [hcharge] at hstep
        | ok s2 =>
          simp only [hcharge, Except.ok.injEq] at hstep
          have hlatest' := blockSeqnumOfLatestTxn_chargeTransaction hcharge
          rw [← hstep]
          split <;> exact hlatest'
      · rw [if_neg hsigner] at hstep
        simp only [Except.ok.injEq] at hstep
        rcases hlatest with hlatest | ⟨txn', hmem, hsigner'⟩
        · left
          rw [← hstep]
          split <;> exact hlatest
        · right
          rcases mem_cons.1 hmem with rfl | hmem
          · exact absurd hsigner' hsigner
          · exact ⟨txn', hmem, hsigner'⟩

end EthBlockPolicyBlockValidator

end Kinet.Eth
