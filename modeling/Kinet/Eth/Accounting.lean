import Kinet.Eth.FeeSummary
import Kinet.Eth.Sample

/-!
# Accounting of a block

The funds computed for the start of a block are within the bounds that charging a block
relies on.  Hence charging the block's transactions one by one, as its own coherency check
does, and charging its summaries, as later checks do, come to the same result.

Main results:

- `tryAddTransactions_agrees_tryApplyBlockFees`: the two ways of charging a block
  agree.
-/

namespace Kinet.Eth

open EthBlockPolicyBlockValidator List EthBlockPolicy CommittedBlkBuffer

variable {K : TypeParams}

/-! ## Bounded reserves -/

/-- The reserve is within the maximal reserve of all revisions. -/
structure AccountBalanceState.Bounded (st : AccountBalanceState) : Prop where
  maxReserveBalance : st.maxReserveBalance = 10000000000000000000
  reserve_le : st.remainingReserveBalance ≤ st.maxReserveBalance

variable {st st' : AccountBalanceState} {executionDelay : Nat} {a : Address}
  {extendingBlocks : Option (List (EthValidatedBlock K))} {stateRead : ExecutionStateRead K}

lemma AccountBalanceState.Bounded.admits (h : st.Bounded) (v : EthBlockPolicyBlockValidator) :
    v.Admits st where
  maxReserveBalance :=
    h.maxReserveBalance.trans (KinetChainRevision.maxReserveBalance_eq _).symm
  reserve_le := h.reserve_le

variable {fee : TxnFee}

section

variable (hst : st.Bounded)
include hst

variable {v : EthBlockPolicyBlockValidator}

lemma bounded_chargeBlockGas {cost : Nat} (h : v.chargeBlockGas st fee cost = .ok st') :
    st'.Bounded := by
  unfold chargeBlockGas at h
  split at h
  · cases h
  · cases h
    exact ⟨hst.maxReserveBalance, le_trans (Nat.sub_le _ _) hst.reserve_le⟩

lemma bounded_tryApplyBlockFees (h : v.tryApplyBlockFees st fee = .ok st') : st'.Bounded := by
  simp only [tryApplyBlockFees] at h
  split at h
  · split at h
    · cases h
    · refine bounded_chargeBlockGas ?_ h
      exact ⟨hst.maxReserveBalance, (min_le_right _ _).trans (hst.admits v).maxReserveBalance.ge⟩
  · exact bounded_chargeBlockGas hst h

lemma bounded_noteLatestTxn (seqNum : Nat) (fee : Option TxnFee) :
    (noteLatestTxn st seqNum fee).Bounded := by
  unfold noteLatestTxn
  split
  · exact ⟨hst.maxReserveBalance, hst.reserve_le⟩
  · exact hst

variable {chainConfig : ChainConfig}

lemma bounded_applyFees {seqNum round baseFee : Nat} {fee : Option TxnFee}
    (h : applyFees chainConfig executionDelay seqNum round baseFee st fee = .ok st') :
    st'.Bounded := by
  cases fee with
  | none =>
    cases h
    exact hst
  | some fee => exact bounded_tryApplyBlockFees hst h

variable {blocks : List (CommittedBlock K)} {s : Nat} {r : AccountBalanceState × Nat}

lemma bounded_noteLatestTxns (h : noteLatestTxns a blocks st s = .ok r) : r.1.Bounded := by
  induction blocks generalizing st s with
  | nil =>
    cases h
    exact hst
  | cons b blocks ih =>
    unfold noteLatestTxns at h
    split at h
    · cases h
    · exact ih (bounded_noteLatestTxn hst _ _) h

lemma bounded_applyBlocks (h : applyBlocks chainConfig executionDelay a blocks st s = .ok r) :
    r.1.Bounded := by
  induction blocks generalizing st s with
  | nil =>
    cases h
    exact hst
  | cons b blocks ih =>
    unfold applyBlocks at h
    split at h
    · cases h
    · split at h
      · cases h
      · next st' hst' => exact ih (bounded_applyFees hst hst') h

lemma bounded_applyExtendingBlocks {reserveStart : Nat} {blocks : List (EthValidatedBlock K)}
    (h : applyExtendingBlocks chainConfig executionDelay a reserveStart blocks st s = .ok st') :
    st'.Bounded := by
  induction blocks generalizing st s with
  | nil =>
    cases h
    exact hst
  | cons b blocks ih =>
    unfold applyExtendingBlocks at h
    split at h
    · cases h
    · split at h
      · cases h
      · next st1 hst1 =>
        refine ih ?_ h
        split at hst1
        · cases hst1
          exact bounded_noteLatestTxn hst _ _
        · exact bounded_applyFees hst hst1

end

lemma bounded_initialBalanceState (r : KinetChainRevision) (base executionDelay : Nat)
    (status : Option EthAccount) :
    (initialBalanceState r.chainParams.maxReserveBalance base executionDelay status).Bounded := by
  have hmax := KinetChainRevision.maxReserveBalance_eq r
  unfold initialBalanceState
  cases status with
  | none =>
    dsimp only
    split <;> exact ⟨hmax, Nat.zero_le _⟩
  | some status =>
    dsimp only
    split <;> exact ⟨hmax, min_le_right _ _⟩

section

variable {p : EthBlockPolicy K} {blockSeqNum : Nat} {chainConfig : ChainConfig}
  {addresses : List Address} {balances : AccountBalances}
  (h : p.computeAccountBaseBalances blockSeqNum stateRead chainConfig extendingBlocks addresses =
    .ok balances)
include h

/-- The reserves at the start of a block are bounded. -/
theorem bounded_computeAccountBaseBalances (hst : balances.lookup a = some st) : st.Bounded := by
  unfold computeAccountBaseBalances at h
  dsimp only at h
  split at h
  · cases h
  split at h
  · cases h
  next index hindex statuses hstatuses =>
  have hbalance := ((FiniteMap.lookup_collectKeys h a st).1 hst).2
  unfold accountBaseBalance at hbalance
  dsimp only at hbalance
  split at hbalance
  · cases hbalance
  next committedSt s hcommitted =>
  have hcommittedSt : committedSt.Bounded := by
    unfold updateAccountBalance at hcommitted
    split at hcommitted
    · cases hcommitted
    next notedSt s' hnoted =>
    exact bounded_applyBlocks
      (bounded_noteLatestTxns (bounded_initialBalanceState _ _ _ _) hnoted) hcommitted
  split at hbalance
  · cases hbalance
    exact hcommittedSt
  · exact bounded_applyExtendingBlocks hcommittedSt hbalance

lemma mem_computeAccountBaseBalances (a : Address) : a ∈ balances ↔ a ∈ addresses := by
  unfold computeAccountBaseBalances at h
  dsimp only at h
  split at h
  · cases h
  split at h
  · cases h
  exact FiniteMap.mem_collectKeys h a

end

/-! ## Accounts of a block -/

section

variable [TxCodec] {b : EthValidatedBlock K}

section

variable {chainConfig : ChainConfig} (h : b.Validated chainConfig)
include h

lemma EthValidatedBlock.Validated.txnFees_eq :
    b.txnFees = TxnFees.ofTransactions b.header.baseFee b.validatedTxns := by
  obtain ⟨body, hbody⟩ := h
  obtain ⟨ethTxns, usages, htxns, hchecks⟩ := validateBlockBody_spec hbody
  dsimp only at htxns hchecks
  rw [htxns]
  exact txnFees_addTransactions hchecks.summary

lemma EthValidatedBlock.Validated.lookup_txnFees (a : Address) :
    b.txnFees.lookup a = b.validatedTxns.foldl (TxnFee.step b.header.baseFee a) none := by
  rw [h.txnFees_eq, TxnFees.lookup_ofTransactions]

/-- A block only summarises accounts that sign one of its transactions or authorizations. -/
theorem mem_signers_of_lookup_txnFees (hfee : b.txnFees.lookup a = some fee) : a ∈ b.signers := by
  by_contra hnot
  have hsilent : Silent a b.validatedTxns := fun txn hmem =>
    ⟨fun hsigner => hnot (mem_append_left _ (mem_append_left _ (mem_map.2 ⟨txn, hmem, hsigner⟩))),
      fun hauth => hnot (mem_append_left _ (mem_append_right _ (mem_flatMap.2 ⟨txn, hmem, hauth⟩)))⟩
  rw [h.lookup_txnFees, TxnFee.foldl_step_eq_none_iff.2 hsilent] at hfee
  cases hfee

end

/-! ## The two ways of charging a block -/

/-- Charging the transactions of a block one by one succeeds if and only if charging every
account its summary does, and both leave every account with the same funds. -/
theorem tryAddTransactions_agrees_tryApplyBlockFees {p : EthBlockPolicy K}
    {b : EthValidatedBlock K} {chainConfig : ChainConfig} (hvalid : b.Validated chainConfig)
    {stateRead : ExecutionStateRead K} {extendingBlocks : Option (List (EthValidatedBlock K))}
    {states : AccountBalances}
    (hstates : p.computeAccountBaseBalances b.getSeqNum stateRead chainConfig extendingBlocks
      b.signers = .ok states) :
    ((∃ final, (p.validatorFor chainConfig b).tryAddTransactions states b.validatedTxns
        = .ok final) ↔
      ∀ a fee, b.txnFees.lookup a = some fee → ∃ st st', states.lookup a = some st ∧
        (p.validatorFor chainConfig b).tryApplyBlockFees st fee = .ok st') ∧
    ∀ final, (p.validatorFor chainConfig b).tryAddTransactions states b.validatedTxns = .ok final →
      ∀ a fee, b.txnFees.lookup a = some fee → ∃ st summarised sequential,
        states.lookup a = some st ∧
        (p.validatorFor chainConfig b).tryApplyBlockFees st fee = .ok summarised ∧
        final.lookup a = some sequential ∧
        sequential.balance = summarised.balance ∧
        sequential.remainingReserveBalance = summarised.remainingReserveBalance ∧
        sequential.isDelegated = summarised.isDelegated ∧
        ((∃ txn ∈ b.validatedTxns, txn.signer = a) →
          sequential.blockSeqnumOfLatestTxn = summarised.blockSeqnumOfLatestTxn) := by
  have hagrees : ∀ {a st}, states.lookup a = some st →
      (p.validatorFor chainConfig b).Agrees st (b.txnFees.lookup a)
        ((p.validatorFor chainConfig b).accountRun a st b.validatedTxns) := by
    intro a st hst
    rw [hvalid.txnFees_eq]
    exact accountRun_agrees
      ((bounded_computeAccountBaseBalances hstates hst).admits _) a b.validatedTxns
  have hstate : ∀ {a fee}, b.txnFees.lookup a = some fee → ∃ st, states.lookup a = some st := by
    intro a fee hfee
    exact FiniteMap.mem_iff_lookup.1 ((mem_computeAccountBaseBalances hstates a).2
      (mem_signers_of_lookup_txnFees hvalid hfee))
  refine ⟨⟨?_, ?_⟩, ?_⟩
  · rintro ⟨final, hfinal⟩ a fee hfee
    obtain ⟨st, hst⟩ := hstate hfee
    obtain ⟨s, hrun, -⟩ := lookup_tryAddTransactions hfinal hst
    have hagree := hagrees hst
    rw [hfee, hrun] at hagree
    obtain ⟨-, t, ht, -⟩ := hagree
    exact ⟨st, t, hst, ht⟩
  · intro hsummaries
    refine exists_tryAddTransactions (fun txn hmem => ?_) fun a st hst => ?_
    · refine (mem_computeAccountBaseBalances hstates _).2 ?_
      exact mem_append_left _ (mem_append_left _ (mem_map_of_mem hmem))
    · have hagree := hagrees hst
      cases hfee : b.txnFees.lookup a with
      | none =>
        rw [hfee] at hagree
        exact ⟨st, hagree⟩
      | some fee =>
        obtain ⟨st', t, hst', ht⟩ := hsummaries a fee hfee
        rw [hst, Option.some.injEq] at hst'
        subst hst'
        cases hrun : (p.validatorFor chainConfig b).accountRun a st b.validatedTxns with
        | ok s => exact ⟨s, rfl⟩
        | error e =>
          rw [hfee, hrun] at hagree
          obtain ⟨e', he'⟩ := hagree
          rw [ht] at he'
          cases he'
  · intro final hfinal a fee hfee
    obtain ⟨st, hst⟩ := hstate hfee
    obtain ⟨s, hrun, hs⟩ := lookup_tryAddTransactions hfinal hst
    have hagree := hagrees hst
    rw [hfee, hrun] at hagree
    obtain ⟨-, t, ht, hsame⟩ := hagree
    refine ⟨st, t, s, hst, ht, hs, hsame.balance.symm, hsame.remainingReserveBalance.symm,
      hsame.isDelegated.symm, fun hsender => ?_⟩
    rw [blockSeqnumOfLatestTxn_accountRun hrun (.inr hsender),
      blockSeqnumOfLatestTxn_tryApplyBlockFees ht]

end

namespace Sample

/-- A first block in which Alice sends two transactions and Bob, whose authorization is in
the second one, sends another. -/
def delegating : EthValidatedBlock mockTypes :=
  blockOf (header .genesis 1 5 firstFees [])
    [transfer alice 0 7, delegation alice 1 bob 0, transfer bob 1 0]

lemma tenTokens_le_balanceMax : 10000000000000000000 ≤ balanceMax := by
  decide

def tenTokens : ExecutionStateRead mockTypes :=
  reads fun _ a =>
    if a = alice ∨ a = bob then some ⟨0, 10000000000000000000, false, tenTokens_le_balanceMax⟩
    else none

/-- Both ways of charging the block accept it, and leave Alice with the same funds. -/
theorem tryAddTransactions_agrees_tryApplyBlockFees_delegating :
    ∃ states final, (EthBlockPolicy.new genesisSeqNum 3).computeAccountBaseBalances 1 tenTokens
        chainConfig (some []) delegating.signers = .ok states ∧
      ((EthBlockPolicy.new genesisSeqNum 3).validatorFor chainConfig delegating).tryAddTransactions
        states delegating.validatedTxns = .ok final ∧
      ∃ fee, delegating.txnFees.lookup alice = some fee ∧ ∃ st summarised sequential,
        states.lookup alice = some st ∧
        ((EthBlockPolicy.new genesisSeqNum 3).validatorFor chainConfig
          delegating).tryApplyBlockFees st fee = .ok summarised ∧
        final.lookup alice = some sequential ∧ sequential.balance = summarised.balance := by
  obtain ⟨⟨states, final⟩, hrun⟩ := exists_eq_ok (show
    (((new genesisSeqNum 3).computeAccountBaseBalances 1 tenTokens chainConfig
        (some []) delegating.signers).bind fun states =>
      match ((new genesisSeqNum 3).validatorFor chainConfig
          delegating).tryAddTransactions states delegating.validatedTxns with
      | .ok final => .ok (states, final)
      | .error e => .error (.error e)).isOk = true by decide +kernel)
  obtain ⟨fee, hfee⟩ := Option.isSome_iff_exists.1
    (show (delegating.txnFees.lookup alice).isSome = true by decide +kernel)
  cases hstates : (new genesisSeqNum 3).computeAccountBaseBalances 1 tenTokens
      chainConfig (some []) delegating.signers with
  | error e =>
    rw [hstates] at hrun
    cases hrun
  | ok states' =>
    rw [hstates] at hrun
    simp only [Except.bind] at hrun
    split at hrun
    · next final' hfinal =>
      cases hrun
      obtain ⟨st, summarised, sequential, hst, hsummarised, hsequential, hbalance, -⟩ :=
        (@tryAddTransactions_agrees_tryApplyBlockFees _ codec _ _ _
          (validated_blockOf (by decide +kernel)) _ _ _ hstates).2 _ hfinal alice fee hfee
      exact ⟨states, final, rfl, hfinal, fee, hfee, st, summarised, sequential, hst, hsummarised,
        hsequential, hbalance⟩
    · cases hrun

end Sample

end Kinet.Eth
