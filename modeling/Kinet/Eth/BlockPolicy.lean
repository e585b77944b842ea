import Kinet.Eth.BaseFee
import Kinet.Eth.BlockValidator

/-!
# Ethereum block policy

The block policy decides whether a validated block is coherent with the blocks it
extends.  It buffers the recently committed blocks and receives those between the last
commit and the new block as a list.  Account data is read from the execution state of the
block `executionDelay` blocks back; the blocks after it count through their summaries.

`Failure.panic` stands for a failed assertion or a missing entry.

Main results:

- `checkAccounts_eq_ok_iff`: what the policy has checked of the accounts of a block.
-/

namespace Kinet.Eth

open EthBlockPolicyBlockValidator ValidatedTx

variable {K : TypeParams}

/-- How a policy function ends if it returns no value. -/
inductive Failure where
  | error (e : BlockPolicyError)
  | panic
deriving DecidableEq

/-- Account data in the execution state.  Balances are 256-bit values. -/
structure EthAccount where
  nonce : Nonce
  balance : Nat
  isDelegated : Bool
  balance_le : balance ≤ balanceMax
deriving DecidableEq

structure ExecutionStateRead (K : TypeParams) where
  getAccountStatuses : BlockId K → Nat → Bool →
    Except ExecutionStateReadError (Address → Option EthAccount)
  getExecutionResult : BlockId K → Nat → Bool → Except ExecutionStateReadError K.FinalizedHeader

/-- A block that has gone through the block validator.  Nothing reads its body again. -/
structure EthValidatedBlock (K : TypeParams) where
  header : ConsensusBlockHeader K
  systemTxns : List ValidatedTx
  validatedTxns : List ValidatedTx
  nonceUsages : NonceUsageMap
  txnFees : TxnFees

namespace EthValidatedBlock

variable (b : EthValidatedBlock K)

/-- Height of the block. -/
def getSeqNum : Nat := b.header.seqNum

def getTotalGas : Nat :=
  (b.validatedTxns.map (·.tx.inner.gasLimit)).sum

end EthValidatedBlock

def EthValidatedBlock.Validated [TxCodec] (b : EthValidatedBlock K) (chainConfig : ChainConfig) :
    Prop :=
  ∃ body, validateBlockBody b.header body chainConfig =
    .ok ⟨b.systemTxns, b.validatedTxns, b.nonceUsages, b.txnFees⟩

/-- What is kept of a committed block. -/
structure CommittedBlock (K : TypeParams) where
  blockId : BlockId K
  round : Nat
  epoch : Nat
  seqNum : Nat
  nonceUsages : NonceUsageMap
  timestampNs : Nat
  fees : TxnFees
  baseFee : Nat
  baseFeeTrend : Nat
  baseFeeMoment : Nat
  blockGasUsage : Nat

def EthValidatedBlock.toCommittedBlock (b : EthValidatedBlock K) : CommittedBlock K where
  blockId := b.header.getId
  round := b.header.blockRound
  epoch := b.header.epoch
  seqNum := b.header.seqNum
  nonceUsages := b.nonceUsages
  timestampNs := b.header.timestampNs
  fees := b.txnFees
  baseFee := b.header.baseFee
  baseFeeTrend := b.header.baseFeeTrend
  baseFeeMoment := b.header.baseFeeMoment
  blockGasUsage := b.getTotalGas

/-- The recently committed blocks in the order of their heights. -/
structure CommittedBlkBuffer (K : TypeParams) where
  blocks : List (CommittedBlock K)
  minBufferSize : Nat

/-! ## Funds of an account across blocks -/

def noteLatestTxn (st : AccountBalanceState) (seqNum : Nat) (fee : Option TxnFee) :
    AccountBalanceState :=
  if fee.isSome && decide (st.blockSeqnumOfLatestTxn < seqNum) then
    { st with blockSeqnumOfLatestTxn := seqNum }
  else st

/-- Charge an account for a block, if it has an entry there. -/
def applyFees (chainConfig : ChainConfig) (executionDelay seqNum round baseFee : Nat)
    (st : AccountBalanceState) (fee : Option TxnFee) :
    Except BlockPolicyError AccountBalanceState :=
  match fee with
  | none => .ok st
  | some fee =>
    tryApplyBlockFees ⟨seqNum, executionDelay, baseFee, chainConfig.getChainRevision round⟩ st fee

namespace CommittedBlkBuffer

def new (minBufferSize : Nat) : CommittedBlkBuffer K := ⟨[], minBufferSize⟩

variable (buffer : CommittedBlkBuffer K)

def get (seqNum : Nat) : Option (CommittedBlock K) :=
  buffer.blocks.find? fun b => b.seqNum = seqNum

def getEpoch (seqNum : Nat) : Option Nat :=
  (buffer.get seqNum).map CommittedBlock.epoch

/-- Look for the latest transaction of an account in consecutive blocks. -/
def noteLatestTxns (a : Address) : List (CommittedBlock K) → AccountBalanceState → Nat →
      Except Failure (AccountBalanceState × Nat)
  | [], st, nextValidate => .ok (st, nextValidate)
  | b :: bs, st, nextValidate =>
    if b.seqNum ≠ nextValidate then .error .panic
    else noteLatestTxns a bs (noteLatestTxn st b.seqNum (b.fees.lookup a)) (nextValidate + 1)

/-- Charge an account for consecutive blocks. -/
def applyBlocks (chainConfig : ChainConfig) (executionDelay : Nat) (a : Address) :
    List (CommittedBlock K) → AccountBalanceState → Nat → Except Failure (AccountBalanceState × Nat)
  | [], st, nextValidate => .ok (st, nextValidate)
  | b :: bs, st, nextValidate =>
    if b.seqNum ≠ nextValidate then .error .panic
    else
      match applyFees chainConfig executionDelay b.seqNum b.round b.baseFee st
          (b.fees.lookup a) with
      | .error e => .error (.error e)
      | .ok st' => applyBlocks chainConfig executionDelay a bs st' (nextValidate + 1)

/-- Account for the committed blocks: the ones from `emptyingStart` on are searched for the
latest transaction, the ones from `reserveStart` on are charged.  Returns the height the
blocks end at. -/
def updateAccountBalance (st : AccountBalanceState) (a : Address)
    (executionDelay emptyingStart reserveStart : Nat) (chainConfig : ChainConfig) :
    Except Failure (AccountBalanceState × Nat) :=
  match noteLatestTxns a
      (buffer.blocks.filter fun b => emptyingStart ≤ b.seqNum && b.seqNum < reserveStart)
      st emptyingStart with
  | .error e => .error e
  | .ok (st', nextValidate) =>
    applyBlocks chainConfig executionDelay a
      (buffer.blocks.filter fun b => reserveStart ≤ b.seqNum) st' nextValidate

/-- The blocks to keep when a block is added: a full buffer is cut down to its least
size. -/
def splitOff (blockNumber : Nat) : Option (List (CommittedBlock K)) :=
  let currentSize := buffer.blocks.length
  if buffer.minBufferSize * 2 ≤ currentSize then
    match buffer.blocks.head? with
    | none => none
    | some first =>
      let divider := first.seqNum + (currentSize - buffer.minBufferSize)
      let kept := buffer.blocks.filter fun b => divider ≤ b.seqNum
      if kept.getLast?.any (fun last => last.seqNum + 1 = blockNumber)
          && buffer.minBufferSize ≤ kept.length then
        some kept
      else none
  else some buffer.blocks

/-- Add a committed block.  `none` is a failed assertion. -/
def updateCommittedBlock (block : EthValidatedBlock K) : Option (CommittedBlkBuffer K) :=
  if buffer.blocks.getLast?.all fun last => last.seqNum + 1 = block.getSeqNum then
    (buffer.splitOff block.getSeqNum).bind fun kept =>
      if kept.any fun b => b.seqNum = block.getSeqNum then none
      else some { buffer with blocks := kept ++ [block.toCommittedBlock] }
  else none

end CommittedBlkBuffer

/-- Account for the blocks between the last commit and the new block. -/
def applyExtendingBlocks (chainConfig : ChainConfig) (executionDelay : Nat) (a : Address)
    (reserveStart : Nat) :
    List (EthValidatedBlock K) → AccountBalanceState → Nat → Except Failure AccountBalanceState
  | [], st, _ => .ok st
  | b :: bs, st, nextValidate =>
    if nextValidate ≠ b.getSeqNum then .error .panic
    else
      match if nextValidate < reserveStart then
          .ok (noteLatestTxn st b.getSeqNum (b.txnFees.lookup a))
        else
          applyFees chainConfig executionDelay b.getSeqNum b.header.blockRound b.header.baseFee st
            (b.txnFees.lookup a) with
      | .error e => .error (.error e)
      | .ok st' =>
        applyExtendingBlocks chainConfig executionDelay a reserveStart bs st' (nextValidate + 1)

/-! ## The policy -/

/-- The policy, with the blocks committed last. -/
structure EthBlockPolicy (K : TypeParams) where
  /-- height of the last committed block -/
  lastCommit : Nat
  committedCache : CommittedBlkBuffer K
  executionDelay : Nat

structure BlockLookupIndex (K : TypeParams) where
  blockId : BlockId K
  seqNum : Nat
  round : Nat
  isFinalized : Bool

/-- Height of the block whose execution state a block builds on. -/
def baseSeqNum (blockSeqNum executionDelay : Nat) : Nat :=
  max blockSeqNum executionDelay - executionDelay

/-- First height that is searched for the latest transaction of an account. -/
def emptyingTxnCheckStart (base executionDelay : Nat) : Nat :=
  let start := max (base + 1 + 1) executionDelay - executionDelay
  if start = genesisSeqNum then start + 1 else start

lemma baseSeqNum_eq (blockSeqNum executionDelay : Nat) :
    baseSeqNum blockSeqNum executionDelay = blockSeqNum - executionDelay := by
  unfold baseSeqNum
  omega

lemma emptyingTxnCheckStart_eq (base executionDelay : Nat) :
    emptyingTxnCheckStart base executionDelay = max 1 (base + 2 - executionDelay) := by
  have hgenesis : genesisSeqNum = 0 := rfl
  simp only [emptyingTxnCheckStart]
  split <;> omega

def initialBalanceState (maxReserveBalance base executionDelay : Nat)
    (status : Option EthAccount) : AccountBalanceState :=
  let st : AccountBalanceState :=
    match status with
    | none => .new maxReserveBalance
    | some status =>
      { balance := status.balance
        remainingReserveBalance := min status.balance maxReserveBalance
        maxReserveBalance := maxReserveBalance
        blockSeqnumOfLatestTxn := base
        isDelegated := status.isDelegated }
  if emptyingTxnCheckStart base executionDelay > genesisSeqNum then
    { st with blockSeqnumOfLatestTxn := emptyingTxnCheckStart base executionDelay - 1 }
  else st

def liftReadError {α : Type} : Except ExecutionStateReadError α → Except Failure α
  | .error e => .error (.error (.executionStateReadError e))
  | .ok a => .ok a

namespace EthBlockPolicy

/-- Policy of a node that has committed nothing after `lastCommit`. -/
def new (lastCommit executionDelay : Nat) : EthBlockPolicy K where
  lastCommit := lastCommit
  committedCache := .new (executionDelay * 2)
  executionDelay := executionDelay

/-- Commit a block.  `none` is a failed assertion. -/
def updateCommittedBlock (p : EthBlockPolicy K) (block : EthValidatedBlock K) :
    Option (EthBlockPolicy K) :=
  if block.getSeqNum ≠ p.lastCommit + 1 then none
  else
    (p.committedCache.updateCommittedBlock block).map fun cache =>
      { p with lastCommit := block.getSeqNum, committedCache := cache }

def updateCommittedBlocks : EthBlockPolicy K → List (EthValidatedBlock K) →
    Option (EthBlockPolicy K)
  | p, [] => some p
  | p, b :: bs => (p.updateCommittedBlock b).bind fun p' => p'.updateCommittedBlocks bs

section

variable (p : EthBlockPolicy K)

def getLastCommitEpoch : Except Failure Nat :=
  if p.lastCommit = genesisSeqNum then .ok 1
  else
    match p.committedCache.getEpoch p.lastCommit with
    | none => .error .panic
    | some epoch => .ok epoch

/-- Where to read the execution state of height `base`. -/
def getBlockIndex (extendingBlocks : Option (List (EthValidatedBlock K)))
    (base : Nat) : Except Failure (BlockLookupIndex K) :=
  if base ≤ p.lastCommit then
    if base = genesisSeqNum then .ok ⟨.genesis, genesisSeqNum, genesisRound, true⟩
    else
      match p.committedCache.get base with
      | none => .error .panic
      | some committed => .ok ⟨committed.blockId, base, committed.round, true⟩
  else
    match extendingBlocks with
    | none => .error (.error (.executionStateReadError .notAvailableYet))
    | some blocks =>
      match blocks.find? fun b => b.getSeqNum = base with
      | none => .error .panic
      | some proposed => .ok ⟨proposed.header.getId, base, proposed.header.blockRound, false⟩

def getAccountStatuses (stateRead : ExecutionStateRead K)
    (extendingBlocks : Option (List (EthValidatedBlock K))) (base : Nat) :
    Except Failure (Address → Option EthAccount) :=
  match p.getBlockIndex extendingBlocks base with
  | .error e => .error e
  | .ok index =>
    liftReadError (stateRead.getAccountStatuses index.blockId base index.isFinalized)

variable (blockSeqNum : Nat) (stateRead : ExecutionStateRead K)
  (extendingBlocks : List (EthValidatedBlock K))

/-- Nonces after the base block and the blocks since. -/
def getAccountBaseNonces (addresses : List Address) : Except Failure (FiniteMap Address Nonce) :=
  let base := baseSeqNum blockSeqNum p.executionDelay
  let blocks := (p.committedCache.blocks.map fun b => (b.seqNum, b.nonceUsages))
    ++ extendingBlocks.map fun b => (b.getSeqNum, b.nonceUsages)
  let cachedNonceUsages := NonceUsageMap.mergeBlocks (fun a => addresses.contains a)
    ((blocks.filter fun b => base < b.1).map Prod.snd)
  match p.getAccountStatuses stateRead (some extendingBlocks) base with
  | .error e => .error e
  | .ok statuses =>
    FiniteMap.collectKeys (fun a =>
        let nonce := ((statuses a).map EthAccount.nonce).getD 0
        match cachedNonceUsages.lookup a with
        | some (.known nonce) => .ok (nonce + 1)
        | some (.possible possible) =>
          .ok (NonceUsage.applyPossibleNoncesToAccountNonce nonce possible)
        | none => .ok nonce)
      addresses

/-- Funds of an account at the start of a block, from its data in the execution state. -/
def accountBaseBalance (base maxReserveBalance : Nat)
    (chainConfig : ChainConfig) (extendingBlocks : Option (List (EthValidatedBlock K)))
    (status : Option EthAccount) (a : Address) : Except Failure AccountBalanceState :=
  let reserveStart := base + 1
  let emptyingStart := emptyingTxnCheckStart base p.executionDelay
  match p.committedCache.updateAccountBalance
      (initialBalanceState maxReserveBalance base p.executionDelay status) a p.executionDelay
      emptyingStart reserveStart chainConfig with
  | .error e => .error e
  | .ok (st, nextValidate) =>
    match extendingBlocks with
    | none => .ok st
    | some blocks =>
      applyExtendingBlocks chainConfig p.executionDelay a reserveStart
        (blocks.dropWhile fun b => b.getSeqNum < nextValidate) st nextValidate

/-- Balances after the base block and the blocks since. -/
def computeAccountBaseBalances (chainConfig : ChainConfig)
    (extendingBlocks : Option (List (EthValidatedBlock K))) (addresses : List Address) :
    Except Failure AccountBalances :=
  let base := baseSeqNum blockSeqNum p.executionDelay
  match p.getBlockIndex extendingBlocks base with
  | .error e => .error e
  | .ok index =>
    let maxReserveBalance := (chainConfig.getChainRevision index.round).chainParams.maxReserveBalance
    match p.getAccountStatuses stateRead extendingBlocks base with
    | .error e => .error e
    | .ok statuses =>
      FiniteMap.collectKeys
        (fun a => p.accountBaseBalance base maxReserveBalance chainConfig extendingBlocks
          (statuses a) a)
        addresses

def getParentBaseFeeFields : Except Failure (Nat × Nat × Nat × Nat × Nat) :=
  match extendingBlocks.getLast? with
  | some parent =>
    .ok (parent.header.blockRound, parent.header.baseFee, parent.header.baseFeeTrend,
      parent.header.baseFeeMoment, (parent.validatedTxns.map (·.tx.inner.gasLimit)).sum)
  | none =>
    if p.lastCommit = genesisSeqNum then
      .ok (genesisRound, BaseFee.genesisBaseFee, BaseFee.genesisBaseFeeTrend,
        BaseFee.genesisBaseFeeMoment, 0)
    else
      match p.committedCache.get p.lastCommit with
      | none => .error .panic
      | some parent =>
        .ok (parent.round, parent.baseFee, parent.baseFeeTrend, parent.baseFeeMoment,
          parent.blockGasUsage)

/-- Base fee, trend and moment after the parent. -/
def computeBaseFee (chainConfig : ChainConfig) : Except Failure (Nat × Nat × Nat) :=
  match p.getParentBaseFeeFields extendingBlocks with
  | .error e => .error e
  | .ok (round, baseFee, trend, moment, gasUsage) =>
    match BaseFee.computeBaseFee (chainConfig.getChainRevision round).chainParams.proposalGasLimit
        gasUsage baseFee trend moment with
    | none => .error .panic
    | some fields => .ok fields

def parentBlockEpoch (blockSeqNum : Nat)
    (extendingBlocks : List (EthValidatedBlock K)) : Except Failure Nat :=
  match extendingBlocks.getLast? with
  | some parent => .ok parent.header.epoch
  | none => if blockSeqNum ≠ p.lastCommit + 1 then .error .panic else p.getLastCommitEpoch

end

def validateSystemTransactionsInput [ExtractEthAddress K] (p : EthBlockPolicy K)
    (block : EthValidatedBlock K) (extendingBlocks : List (EthValidatedBlock K))
    (chainConfig : ChainConfig) : Except Failure Unit :=
  match p.parentBlockEpoch block.getSeqNum extendingBlocks with
  | .error e => .error e
  | .ok epoch =>
    match Eth.validateSystemTransactionsInput block.header epoch block.systemTxns chainConfig with
    | none => .error .panic
    | some (.error _) => .error (.error .systemTransactionError)
    | some (.ok ()) => .ok ()

/-- The execution results that a block has to report. -/
def getExpectedExecutionResults (p : EthBlockPolicy K) (blockSeqNum : Nat)
    (extendingBlocks : List (EthValidatedBlock K)) (stateRead : ExecutionStateRead K) :
    Except Failure (List K.FinalizedHeader) :=
  if blockSeqNum < p.executionDelay then .ok []
  else
    match p.getBlockIndex (some extendingBlocks) (blockSeqNum - p.executionDelay) with
    | .error e => .error e
    | .ok index =>
      match liftReadError
          (stateRead.getExecutionResult index.blockId index.seqNum index.isFinalized) with
      | .error e => .error e
      | .ok result => .ok [result]

end EthBlockPolicy

/-! ## Nonces of a block -/

/-- Use the next nonce of a transaction's sender. -/
def nonceCheckAndUpdate (txn : ValidatedTx) (accountNonces : FiniteMap Address Nonce) :
    Except Failure (FiniteMap Address Nonce) :=
  match accountNonces.lookup txn.signer with
  | none => .error .panic
  | some expectedNonce =>
    if txn.nonce ≠ expectedNonce then .error (.error .blockNotCoherent)
    else .ok (accountNonces.insert txn.signer (expectedNonce + 1))

def systemTransactionNonceCheck :
    List ValidatedTx → FiniteMap Address Nonce → Except Failure (FiniteMap Address Nonce)
  | [], accountNonces => .ok accountNonces
  | txn :: txns, accountNonces =>
    match nonceCheckAndUpdate txn accountNonces with
    | .error e => .error e
    | .ok accountNonces' => systemTransactionNonceCheck txns accountNonces'

def eip7702ValidNonceUpdate (chainId : Nat) :
    List RecoveredAuthorization → FiniteMap Address Nonce → Except Failure (FiniteMap Address Nonce)
  | [], accountNonces => .ok accountNonces
  | auth :: auths, accountNonces =>
    match auth.authority with
    | none => eip7702ValidNonceUpdate chainId auths accountNonces
    | some authority =>
      if !auth.inner.isForChain chainId then eip7702ValidNonceUpdate chainId auths accountNonces
      else
        match accountNonces.lookup authority with
        | none => .error .panic
        | some expectedNonce =>
          eip7702ValidNonceUpdate chainId auths
            (if expectedNonce ≠ auth.inner.nonce then accountNonces
              else accountNonces.insert authority (expectedNonce + 1))

/-- Use the nonces of a user transaction: its own first, then its authorizations. -/
def transactionNonceUpdate (chainId : Nat) (txn : ValidatedTx)
    (accountNonces : FiniteMap Address Nonce) : Except Failure (FiniteMap Address Nonce) :=
  match nonceCheckAndUpdate txn accountNonces with
  | .error e => .error e
  | .ok accountNonces' =>
    if txn.tx.inner.isEip7702 then
      eip7702ValidNonceUpdate chainId txn.authorizations7702 accountNonces'
    else .ok accountNonces'

def transactionNonceUpdates (chainId : Nat) :
    List ValidatedTx → FiniteMap Address Nonce → Except Failure (FiniteMap Address Nonce)
  | [], accountNonces => .ok accountNonces
  | txn :: txns, accountNonces =>
    match transactionNonceUpdate chainId txn accountNonces with
    | .error e => .error e
    | .ok accountNonces' => transactionNonceUpdates chainId txns accountNonces'

/-- Check nonces and balances of all transactions in order. -/
def checkTransactions (chainId : Nat) (validator : EthBlockPolicyBlockValidator) :
    List ValidatedTx → FiniteMap Address Nonce → AccountBalances → Except Failure Unit
  | [], _, _ => .ok ()
  | txn :: txns, accountNonces, accountBalances =>
    match nonceCheckAndUpdate txn accountNonces with
    | .error e => .error e
    | .ok checkedNonces =>
      match validator.tryAddTransaction accountBalances txn with
      | .error e => .error (.error e)
      | .ok accountBalances' =>
        match if txn.tx.inner.isEip7702 then
            eip7702ValidNonceUpdate chainId txn.authorizations7702 checkedNonces
          else .ok checkedNonces with
        | .error e => .error e
        | .ok accountNonces' => checkTransactions chainId validator txns accountNonces' accountBalances'

/-- Accounts whose data a block needs. -/
def extractSigners (validatedTxns systemTxns : List ValidatedTx) : List Address :=
  validatedTxns.map signer ++ validatedTxns.flatMap authorities
    ++ systemTxns.map signer

/-- Accounts whose data the block needs. -/
def EthValidatedBlock.signers (b : EthValidatedBlock K) : List Address :=
  extractSigners b.validatedTxns b.systemTxns

def EthBlockPolicy.validatorFor (p : EthBlockPolicy K) (chainConfig : ChainConfig)
    (block : EthValidatedBlock K) : EthBlockPolicyBlockValidator :=
  ⟨block.getSeqNum, p.executionDelay, block.header.baseFee,
    chainConfig.getChainRevision block.header.blockRound⟩

namespace EthBlockPolicy

variable [ExtractEthAddress K] (p : EthBlockPolicy K) (block : EthValidatedBlock K)
  (extendingBlocks : List (EthValidatedBlock K))

/-- Nonces, funds and system transactions of a block. -/
def checkAccounts (stateRead : ExecutionStateRead K)
    (chainConfig : ChainConfig) : Except Failure Unit :=
  match p.getAccountBaseNonces block.getSeqNum stateRead extendingBlocks block.signers with
  | .error e => .error e
  | .ok accountNonces =>
    match p.computeAccountBaseBalances block.getSeqNum stateRead chainConfig
        (some extendingBlocks) block.signers with
    | .error e => .error e
    | .ok accountBalances =>
      match p.validateSystemTransactionsInput block extendingBlocks chainConfig with
      | .error e => .error e
      | .ok () =>
        match systemTransactionNonceCheck block.systemTxns accountNonces with
        | .error e => .error e
        | .ok accountNonces' =>
          checkTransactions chainConfig.chainId (p.validatorFor chainConfig block)
            block.validatedTxns accountNonces' accountBalances

/-- Height and time of the block that is extended.  The time of the root is not used. -/
def extendedBlock (extendingBlocks : List (EthValidatedBlock K)) (blocktreeRoot : RootInfo K) :
    Nat × Nat :=
  match extendingBlocks.getLast? with
  | some extended => (extended.getSeqNum, extended.header.timestampNs)
  | none => (blocktreeRoot.seqNum, 0)

/-- All checks of a block against its ancestors. -/
def checkCoherency (blocktreeRoot : RootInfo K)
    (stateRead : ExecutionStateRead K) (chainConfig : ChainConfig) : Except Failure Unit :=
  let extended := extendedBlock extendingBlocks blocktreeRoot
  if block.getSeqNum ≠ extended.1 + 1 then .error (.error .blockNotCoherent)
  else if block.header.timestampNs ≤ extended.2 then .error (.error .timestampError)
  else
    match p.getExpectedExecutionResults block.getSeqNum extendingBlocks stateRead with
    | .error e => .error e
    | .ok expectedExecutionResults =>
      if block.header.delayedExecutionResults ≠ expectedExecutionResults then
        .error (.error .executionResultMismatch)
      else
        match p.computeBaseFee extendingBlocks chainConfig with
        | .error e => .error e
        | .ok (baseFee, baseFeeTrend, baseFeeMoment) =>
          if baseFee ≠ block.header.baseFee ∨ baseFeeTrend ≠ block.header.baseFeeTrend ∨
              baseFeeMoment ≠ block.header.baseFeeMoment then
            .error (.error .baseFeeError)
          else p.checkAccounts block extendingBlocks stateRead chainConfig

end EthBlockPolicy

/-! ## What a coherent block satisfies -/

/-- The transactions of a block pass if their nonces pass and their funds pass. -/
theorem checkTransactions_eq_ok_iff {chainId : Nat} {validator : EthBlockPolicyBlockValidator}
    {txns : List ValidatedTx} {nonces : FiniteMap Address Nonce} {balances : AccountBalances} :
    checkTransactions chainId validator txns nonces balances = .ok () ↔
      (∃ nonces', transactionNonceUpdates chainId txns nonces = .ok nonces') ∧
        ∃ balances', validator.tryAddTransactions balances txns = .ok balances' := by
  induction txns generalizing nonces balances with
  | nil =>
    simp [checkTransactions, transactionNonceUpdates, tryAddTransactions]
  | cons txn txns ih =>
    rw [checkTransactions, transactionNonceUpdates, transactionNonceUpdate, tryAddTransactions]
    cases hnonce : nonceCheckAndUpdate txn nonces with
    | error e => simp
    | ok checked =>
      cases hadd : validator.tryAddTransaction balances txn with
      | error e => simp
      | ok balances' =>
        dsimp only
        cases hauth : (if txn.tx.inner.isEip7702 = true then
            eip7702ValidNonceUpdate chainId txn.authorizations7702 checked
          else .ok checked : Except Failure (FiniteMap Address Nonce)) with
        | error e => simp
        | ok nonces' => exact ih

structure AccountChecks [ExtractEthAddress K] (p : EthBlockPolicy K) (block : EthValidatedBlock K)
    (extendingBlocks : List (EthValidatedBlock K)) (stateRead : ExecutionStateRead K)
    (chainConfig : ChainConfig) : Prop where
  nonces : ∃ accountNonces accountNonces' finalNonces,
    p.getAccountBaseNonces block.getSeqNum stateRead extendingBlocks block.signers
      = .ok accountNonces ∧
    systemTransactionNonceCheck block.systemTxns accountNonces = .ok accountNonces' ∧
    transactionNonceUpdates chainConfig.chainId block.validatedTxns accountNonces' = .ok finalNonces
  balances : ∃ accountBalances finalBalances,
    p.computeAccountBaseBalances block.getSeqNum stateRead chainConfig (some extendingBlocks)
      block.signers = .ok accountBalances ∧
    (p.validatorFor chainConfig block).tryAddTransactions accountBalances block.validatedTxns
      = .ok finalBalances
  system : p.validateSystemTransactionsInput block extendingBlocks chainConfig = .ok ()

variable {block : EthValidatedBlock K} {extendingBlocks : List (EthValidatedBlock K)}
  {p : EthBlockPolicy K} {stateRead : ExecutionStateRead K} {blocktreeRoot : RootInfo K}
  {chainConfig : ChainConfig}

theorem checkAccounts_eq_ok_iff [ExtractEthAddress K] :
    p.checkAccounts block extendingBlocks stateRead chainConfig = .ok () ↔
      AccountChecks p block extendingBlocks stateRead chainConfig := by
  constructor
  · intro h
    unfold EthBlockPolicy.checkAccounts at h
    split at h
    · cases h
    next accountNonces hnonces =>
    split at h
    · cases h
    next accountBalances hbalances =>
    split at h
    · cases h
    next hsystem =>
    split at h
    · cases h
    next accountNonces' hsystemNonces =>
    obtain ⟨⟨finalNonces, hfinalNonces⟩, finalBalances, hfinalBalances⟩ :=
      checkTransactions_eq_ok_iff.1 h
    exact ⟨⟨_, _, _, hnonces, hsystemNonces, hfinalNonces⟩, ⟨_, _, hbalances, hfinalBalances⟩,
      hsystem⟩
  · rintro ⟨⟨_, _, finalNonces, hnonces, hsystemNonces, hfinalNonces⟩,
      ⟨_, finalBalances, hbalances, hfinalBalances⟩, hsystem⟩
    simp only [EthBlockPolicy.checkAccounts, hnonces, hbalances, hsystem, hsystemNonces]
    exact checkTransactions_eq_ok_iff.2 ⟨⟨finalNonces, hfinalNonces⟩, finalBalances, hfinalBalances⟩

/-- What a block has to pass besides the checks of its height and its time. -/
@[mk_iff]
structure OtherChecks [ExtractEthAddress K] (p : EthBlockPolicy K) (block : EthValidatedBlock K)
    (extendingBlocks : List (EthValidatedBlock K)) (stateRead : ExecutionStateRead K)
    (chainConfig : ChainConfig) : Prop where
  results : p.getExpectedExecutionResults block.getSeqNum extendingBlocks stateRead =
    .ok block.header.delayedExecutionResults
  baseFee : p.computeBaseFee extendingBlocks chainConfig =
    .ok (block.header.baseFee, block.header.baseFeeTrend, block.header.baseFeeMoment)
  accounts : p.checkAccounts block extendingBlocks stateRead chainConfig = .ok ()

namespace EthBlockPolicy

variable [ExtractEthAddress K]

lemma checkCoherency_eq_ok_iff :
    p.checkCoherency block extendingBlocks blocktreeRoot stateRead chainConfig = .ok () ↔
      block.getSeqNum = (extendedBlock extendingBlocks blocktreeRoot).1 + 1 ∧
      (extendedBlock extendingBlocks blocktreeRoot).2 < block.header.timestampNs ∧
      OtherChecks p block extendingBlocks stateRead chainConfig := by
  unfold checkCoherency
  constructor
  · intro h
    dsimp only at h
    split_ifs at h with hseq htime
    split at h
    · cases h
    next results hresults =>
    split_ifs at h with hmatch
    split at h
    · cases h
    next baseFee trend moment hfees =>
    split_ifs at h with hfee
    rw [not_or, not_or, not_not, not_not, not_not] at hfee
    obtain ⟨rfl, rfl, rfl⟩ := hfee
    rw [not_not] at hseq hmatch
    exact ⟨hseq, not_le.mp htime, hmatch ▸ hresults, hfees, h⟩
  · rintro ⟨hseq, htime, hresults, hfees, haccounts⟩
    dsimp only
    rw [if_neg (not_not.mpr hseq), if_neg (not_le.mpr htime), hresults, hfees]
    simpa using haccounts

variable (h : p.checkCoherency block extendingBlocks blocktreeRoot stateRead chainConfig = .ok ())
include h

/-- A coherent block has the height after the block it extends. -/
lemma getSeqNum_of_checkCoherency :
    block.getSeqNum = (extendedBlock extendingBlocks blocktreeRoot).1 + 1 :=
  (checkCoherency_eq_ok_iff.mp h).1

lemma checkAccounts_of_checkCoherency :
    AccountChecks p block extendingBlocks stateRead chainConfig :=
  checkAccounts_eq_ok_iff.1 (checkCoherency_eq_ok_iff.mp h).2.2.accounts

end EthBlockPolicy

end Kinet.Eth
