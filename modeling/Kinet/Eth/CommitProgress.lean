import Kinet.Foundation.Numbered
import Kinet.Eth.Sample

/-!
# Commit progress

Nodes commit the blocks of a chain at different times.  What the block policy computes for
the next block, from the index of the base block to the funds of an account, is a function
of the chain alone and does not depend on where the node's commits end.  The exception is
the time of the parent block, which the policy takes to be zero if the parent is committed.

Main results:

- `checkCoherency_independent_of_commits`: two nodes agree on the next block,
  unless the time of the parent decides and only one of them has committed it.
- `committed_blocks_retained`: the blocks that the policy looks up are there.
-/

namespace Kinet.Eth

open EthValidatedBlock Numbered List Option EthBlockPolicy CommittedBlkBuffer

variable {K : TypeParams}

/-- The blocks have the heights of a chain from genesis. -/
def IsChain (chain : List (EthValidatedBlock K)) : Prop :=
  Numbered.From getSeqNum 1 chain

/-- The policy has committed exactly these blocks since genesis.  The buffer has dropped
old blocks only as long as twice the execution delay of them remain. -/
structure Tracks (p : EthBlockPolicy K) (k : Nat) (committed : List (EthValidatedBlock K)) :
    Prop where
  lastCommit : p.lastCommit = committed.length
  executionDelay : p.executionDelay = k
  minBufferSize : p.committedCache.minBufferSize = k * 2
  blocks : ∃ d, p.committedCache.blocks = (committed.drop d).map toCommittedBlock ∧
    (d = 0 ∨ d + k * 2 ≤ committed.length)

lemma tracks_new (k : Nat) : Tracks (new (K := K) genesisSeqNum k) k [] where
  lastCommit := rfl
  executionDelay := rfl
  minBufferSize := rfl
  blocks := ⟨0, rfl, .inl rfl⟩

variable {blocks committed extending : List (EthValidatedBlock K)} {k : Nat} {p : EthBlockPolicy K}
  {s : Nat}

lemma from_toCommittedBlock (h : Numbered.From getSeqNum s blocks) :
    Numbered.From CommittedBlock.seqNum s (blocks.map toCommittedBlock) :=
  from_map.2 h

/-- Cutting a full buffer down keeps enough blocks. -/
lemma splitOff_eq {d : Nat} (hk : 1 ≤ k) (hchain : IsChain committed)
    (hd : d = 0 ∨ d + k * 2 ≤ committed.length) :
    ∃ d', splitOff ⟨(committed.drop d).map toCommittedBlock, k * 2⟩ (committed.length + 1) =
          some ((committed.drop d').map toCommittedBlock) ∧
      (d' = 0 ∨ d' + k * 2 ≤ committed.length) := by
  have hnum := from_toCommittedBlock (hchain.drop d)
  unfold splitOff
  simp only [length_map, length_drop]
  by_cases hfull : k * 2 * 2 ≤ committed.length - d
  · -- the first block of the buffer has height `d + 1`
    have hlt : d < committed.length := by omega
    obtain ⟨first, hfirst⟩ : ∃ first, committed[d]? = some first :=
      ⟨_, getElem?_eq_getElem hlt⟩
    have hhead : ((committed.drop d).map toCommittedBlock).head? = some first.toCommittedBlock := by
      rw [head?_map, head?_drop, hfirst, map_some]
    have hfirstNum : first.toCommittedBlock.seqNum = 1 + d := num_getElem? hchain hfirst
    rw [if_pos hfull, hhead]
    simp only [hfirstNum]
    refine ⟨committed.length - k * 2, ?_, .inr (by omega)⟩
    have hkept : ((committed.drop d).map toCommittedBlock).filter
          (fun b => 1 + d + (committed.length - d - k * 2) ≤ b.seqNum) =
        (committed.drop (committed.length - k * 2)).map toCommittedBlock := by
      rw [filter_le hnum, ← map_drop, drop_drop]
      congr 2
      omega
    rw [hkept, if_pos]
    have hlast : ((committed.drop (committed.length - k * 2)).map toCommittedBlock).getLast?.any
          (fun last => decide (last.seqNum + 1 = committed.length + 1)) = true := by
      have hnum' := from_toCommittedBlock (hchain.drop (committed.length - k * 2))
      cases hget : ((committed.drop (committed.length - k * 2)).map toCommittedBlock).getLast? with
      | none =>
        rw [getLast?_eq_none_iff, map_eq_nil_iff, drop_eq_nil_iff] at hget
        omega
      | some last =>
        have hnumLast := num_getLast? hnum' hget
        simp only [length_map, length_drop] at hnumLast
        simp only [any_some, decide_eq_true_eq]
        omega
    rw [hlast, Bool.true_and, decide_eq_true_eq, length_map, length_drop]
    omega
  · rw [if_neg hfull]
    exact ⟨d, rfl, hd⟩

/-- Committing the next block of the chain succeeds and keeps the invariant. -/
lemma Tracks.updateCommittedBlock (hk : 1 ≤ k) (h : Tracks p k committed)
    {b : EthValidatedBlock K} (hchain : IsChain (committed ++ [b])) :
    ∃ p', p.updateCommittedBlock b = some p' ∧ Tracks p' k (committed ++ [b]) := by
  obtain ⟨hcommitted, hnext⟩ := from_append.1 hchain
  have hseq : b.getSeqNum = committed.length + 1 := by
    have hnum := hnext.1
    omega
  obtain ⟨d, hblocks, hd⟩ := h.blocks
  have hnum := from_toCommittedBlock (hcommitted.drop d)
  obtain ⟨d', hsplit, hd'⟩ := splitOff_eq hk hcommitted hd
  rw [← hseq] at hsplit
  have hbuffer : p.committedCache = ⟨(committed.drop d).map toCommittedBlock, k * 2⟩ := by
    rw [← hblocks, ← h.minBufferSize]
  have hlast : ((committed.drop d).map toCommittedBlock).getLast?.all
      (fun last => decide (last.seqNum + 1 = b.getSeqNum)) = true := by
    cases hget : ((committed.drop d).map toCommittedBlock).getLast? with
    | none => rfl
    | some last =>
      have hnumLast := num_getLast? hnum hget
      have hmem := mem_of_getLast? hget
      have hbounds := hnum.bounds hmem
      simp only [length_map, length_drop] at hnumLast hbounds
      simp only [all_some, decide_eq_true_eq]
      omega
  have hfresh : ((committed.drop d').map toCommittedBlock).any
      (fun c => decide (c.seqNum = b.getSeqNum)) = false := by
    rw [List.any_eq_false]
    intro c hc heq
    have hbounds := (from_toCommittedBlock (hcommitted.drop d')).bounds hc
    simp only [length_map, length_drop] at hbounds
    have heq' := of_decide_eq_true heq
    omega
  refine ⟨{ p with
      lastCommit := b.getSeqNum
      committedCache := ⟨(committed.drop d').map toCommittedBlock
        ++ [b.toCommittedBlock], k * 2⟩ }, ?_, ?_⟩
  · unfold EthBlockPolicy.updateCommittedBlock CommittedBlkBuffer.updateCommittedBlock
    rw [h.lastCommit, if_neg (by omega), hbuffer, if_pos hlast, hsplit, bind_some, hfresh]
    rfl
  · refine ⟨?_, h.executionDelay, rfl, d', ?_, ?_⟩
    · simp [hseq]
    · have hle : d' ≤ committed.length := by omega
      rw [drop_append_of_le_length hle, map_append]
      rfl
    · rw [length_append, length_singleton]
      omega

/-- Committing a chain from genesis succeeds. -/
theorem Tracks.updateCommittedBlocks (hk : 1 ≤ k) (h : Tracks p k committed)
    (hchain : IsChain (committed ++ blocks)) :
    ∃ p', p.updateCommittedBlocks blocks = some p' ∧ Tracks p' k (committed ++ blocks) := by
  induction blocks generalizing p committed with
  | nil =>
    rw [append_nil]
    exact ⟨p, rfl, h⟩
  | cons b blocks ih =>
    have hsplit : committed ++ b :: blocks = (committed ++ [b]) ++ blocks := by simp
    rw [hsplit] at hchain ⊢
    obtain ⟨p', hstep, htracks⟩ := h.updateCommittedBlock hk (from_append.1 hchain).1
    obtain ⟨p'', hrun, htracks'⟩ := ih htracks hchain
    exact ⟨p'', by rw [updateCommittedBlocks, hstep]; exact hrun, htracks'⟩

/-! ## What the policy computes, as a function of the chain -/

/-- The policy has committed the initial segment `committed` of a chain and receives the
rest as extending blocks. -/
structure Split (p : EthBlockPolicy K) (k : Nat)
    (chain committed extending : List (EthValidatedBlock K)) : Prop where
  delay_pos : 1 ≤ k
  isChain : IsChain chain
  eq_append : chain = committed ++ extending
  tracks : Tracks p k committed

lemma exists_split (hk : 1 ≤ k) (hchain : IsChain (committed ++ extending)) :
    ∃ p, (new genesisSeqNum k).updateCommittedBlocks committed = some p ∧
      Split p k (committed ++ extending) committed extending := by
  obtain ⟨p, hrun, htracks⟩ :=
    (tracks_new k).updateCommittedBlocks hk (from_append.1 hchain).1
  exact ⟨p, hrun, hk, hchain, rfl, htracks⟩

lemma split_of_updateCommittedBlocks (hk : 1 ≤ k) {chain : List (EthValidatedBlock K)}
    (hchain : IsChain chain) (heq : chain = committed ++ extending)
    (h : (new genesisSeqNum k).updateCommittedBlocks committed = some p) :
    Split p k chain committed extending := by
  subst heq
  obtain ⟨p', hrun, hsplit⟩ := exists_split hk hchain
  rw [h, some.injEq] at hrun
  exact hrun ▸ hsplit

variable (chain : List (EthValidatedBlock K))

def chainBlockIndex (base : Nat) : Option (BlockId K × Nat) :=
  if base = genesisSeqNum then some (.genesis, genesisRound)
  else chain[base - 1]?.map fun b => (b.header.getId, b.header.blockRound)

/-- Fields of the last block of a chain that determine the next base fee. -/
def chainBaseFeeFields : Nat × Nat × Nat × Nat × Nat :=
  match chain.getLast? with
  | some parent =>
    (parent.header.blockRound, parent.header.baseFee, parent.header.baseFeeTrend,
      parent.header.baseFeeMoment, parent.getTotalGas)
  | none =>
    (genesisRound, BaseFee.genesisBaseFee, BaseFee.genesisBaseFeeTrend,
      BaseFee.genesisBaseFeeMoment, 0)

def chainEpoch : Nat :=
  match chain.getLast? with
  | some parent => parent.header.epoch
  | none => 1

variable {reserveStart : Nat}

namespace Split

variable {p : EthBlockPolicy K} {k : Nat} {chain committed extending : List (EthValidatedBlock K)}

section

variable (h : Split p k chain committed extending)
include h

lemma length_eq : chain.length = committed.length + extending.length := by
  rw [h.eq_append, length_append]

lemma isChain_committed : IsChain committed := by
  have hchain := h.isChain
  rw [h.eq_append] at hchain
  exact (from_append.1 hchain).1

lemma from_extending : Numbered.From getSeqNum (1 + committed.length) extending := by
  have hchain := h.isChain
  rw [h.eq_append] at hchain
  exact (from_append.1 hchain).2

lemma base_le : baseSeqNum (chain.length + 1) k ≤ chain.length := by
  have hk := h.delay_pos
  rw [baseSeqNum_eq]
  omega

/-- A committed block that has not been dropped is found in the buffer. -/
lemma get_eq {i : Nat} (hi : 1 ≤ i) (hrecent : committed.length < i + k * 2) :
    p.committedCache.get i = committed[i - 1]?.map toCommittedBlock := by
  obtain ⟨d, hblocks, hd⟩ := h.tracks.blocks
  have hnum := from_toCommittedBlock (h.isChain_committed.drop d)
  have hindex : d + (i - (1 + d)) = i - 1 := by omega
  rw [CommittedBlkBuffer.get, hblocks, find?_eq hnum (by omega), getElem?_map,
    getElem?_drop, hindex]

/-- The last committed block is found in the buffer. -/
lemma get_last {parent} (hparent : committed.getLast? = some parent) :
    committed.length ≠ genesisSeqNum ∧
      p.committedCache.get committed.length = some (toCommittedBlock parent) := by
  rw [getLast?_eq_getElem?] at hparent
  have hlt := (List.getElem?_eq_some_iff.1 hparent).1
  have hk := h.delay_pos
  have hzero : genesisSeqNum = 0 := rfl
  refine ⟨by omega, ?_⟩
  rw [h.get_eq (by omega) (by omega), hparent]
  rfl

/-- The index of a block on the chain, whether it is committed or not. -/
lemma getBlockIndex_eq {base : Nat}
    (hbase : base ≤ chain.length) (hrecent : chain.length < base + k * 2) :
    ∃ index, p.getBlockIndex (some extending) base = .ok index ∧
      chainBlockIndex chain base = some (index.blockId, index.round) ∧ index.seqNum = base := by
  have hlen := h.length_eq
  unfold getBlockIndex chainBlockIndex
  rw [h.tracks.lastCommit]
  by_cases hgenesis : base = genesisSeqNum
  · have hle : base ≤ committed.length := by
      rw [hgenesis]
      exact Nat.zero_le _
    rw [if_pos hle, if_pos hgenesis, if_pos hgenesis]
    exact ⟨_, rfl, rfl, hgenesis.symm⟩
  · have hpos : 1 ≤ base := pos_of_ne_zero hgenesis
    simp only [if_neg hgenesis]
    by_cases hle : base ≤ committed.length
    · rw [if_pos hle, h.get_eq hpos (by omega), h.eq_append,
        getElem?_append_left (by omega), getElem?_eq_getElem (by omega)]
      exact ⟨_, rfl, rfl, rfl⟩
    · rw [if_neg hle]
      have hindex : base - (1 + committed.length) = base - 1 - committed.length := by omega
      rw [find?_eq h.from_extending (by omega), hindex, h.eq_append,
        getElem?_append_right (by omega), getElem?_eq_getElem (by omega)]
      exact ⟨_, rfl, rfl, rfl⟩

omit h in
lemma base_recent : chain.length < baseSeqNum (chain.length + 1) k + k * 2 := by
  rw [baseSeqNum_eq]
  omega

/-- Base fee fields of the parent, whether it is committed or not. -/
theorem getParentBaseFeeFields_eq :
    p.getParentBaseFeeFields extending = .ok (chainBaseFeeFields chain) := by
  unfold getParentBaseFeeFields chainBaseFeeFields
  cases hlast : extending.getLast? with
  | some parent =>
    rw [h.eq_append, getLast?_append, hlast]
    rfl
  | none =>
    rw [getLast?_eq_none_iff] at hlast
    subst hlast
    rw [h.eq_append, append_nil, h.tracks.lastCommit]
    cases hparent : committed.getLast? with
    | none =>
      rw [getLast?_eq_none_iff] at hparent
      subst hparent
      rfl
    | some parent =>
      obtain ⟨hne, hget⟩ := h.get_last hparent
      rw [if_neg hne, hget]
      rfl

lemma parentBlockEpoch_eq :
    p.parentBlockEpoch (chain.length + 1) extending = .ok (chainEpoch chain) := by
  unfold parentBlockEpoch chainEpoch
  cases hlast : extending.getLast? with
  | some parent =>
    rw [h.eq_append, getLast?_append, hlast]
    rfl
  | none =>
    rw [getLast?_eq_none_iff] at hlast
    subst hlast
    have hlen := h.length_eq
    rw [length_nil, add_zero] at hlen
    rw [h.tracks.lastCommit, if_neg (by omega), h.eq_append, append_nil,
      getLastCommitEpoch, h.tracks.lastCommit]
    cases hparent : committed.getLast? with
    | none =>
      rw [getLast?_eq_none_iff] at hparent
      subst hparent
      rfl
    | some parent =>
      obtain ⟨hne, hget⟩ := h.get_last hparent
      rw [if_neg hne, getEpoch, hget]
      rfl

end

/-! ### Nonces -/

/-- The blocks whose nonce usages count are those after the base block. -/
theorem nonceBlocks_eq (h : Split p k chain committed extending) :
    (((p.committedCache.blocks.map fun b => (b.seqNum, b.nonceUsages))
        ++ extending.map fun b => (b.getSeqNum, b.nonceUsages)).filter
      fun b => baseSeqNum (chain.length + 1) k < b.1).map Prod.snd =
      (chain.drop (baseSeqNum (chain.length + 1) k)).map nonceUsages := by
  obtain ⟨d, hblocks, hd⟩ := h.tracks.blocks
  have hlen := h.length_eq
  have hdbase : d ≤ baseSeqNum (chain.length + 1) k := by
    rw [baseSeqNum_eq]
    omega
  have hbuffered : (p.committedCache.blocks.map fun b => (b.seqNum, b.nonceUsages)) =
      (committed.drop d).map fun b => (b.getSeqNum, b.nonceUsages) := by
    rw [hblocks, List.map_map]
    rfl
  have hd' : d ≤ committed.length := by omega
  have hall : ((committed.drop d).map fun b => (b.getSeqNum, b.nonceUsages))
      ++ extending.map (fun b => (b.getSeqNum, b.nonceUsages)) =
        (chain.drop d).map fun b => (b.getSeqNum, b.nonceUsages) := by
    rw [h.eq_append, List.drop_append_of_le_length hd', List.map_append]
  have hnum : Numbered.From (fun b : Nat × NonceUsageMap => b.1) (1 + d)
      ((chain.drop d).map fun b => (b.getSeqNum, b.nonceUsages)) :=
    from_map.2 (h.isChain.drop d)
  have hdrop : d + (baseSeqNum (chain.length + 1) k + 1 - (1 + d)) =
      baseSeqNum (chain.length + 1) k := by omega
  rw [hbuffered, hall]
  refine (congrArg (List.map Prod.snd)
    (filter_le hnum (baseSeqNum (chain.length + 1) k + 1))).trans ?_
  rw [← List.map_drop, List.map_map, List.drop_drop, hdrop]
  rfl

/-! ### Funds -/

lemma applyExtendingBlocks_append (chainConfig : ChainConfig) (executionDelay : Nat) (a : Address)
    (reserveStart : Nat) (l₁ l₂ : List (EthValidatedBlock K)) (st : AccountBalanceState) (s : Nat) :
    applyExtendingBlocks chainConfig executionDelay a reserveStart (l₁ ++ l₂) st s =
      match applyExtendingBlocks chainConfig executionDelay a reserveStart l₁ st s with
      | .error e => .error e
      | .ok st' =>
        applyExtendingBlocks chainConfig executionDelay a reserveStart l₂ st' (s + l₁.length) := by
  induction l₁ generalizing st s with
  | nil => simp [applyExtendingBlocks]
  | cons b l₁ ih =>
    have hlen : s + (b :: l₁).length = s + 1 + l₁.length := by
      rw [length_cons]
      omega
    rw [cons_append, applyExtendingBlocks, applyExtendingBlocks, hlen]
    by_cases hseq : s = b.getSeqNum
    · rw [if_neg (not_not.2 hseq), if_neg (not_not.2 hseq)]
      cases hstep : (if s < reserveStart then
          .ok (noteLatestTxn st b.getSeqNum (b.txnFees.lookup a))
        else
          applyFees chainConfig executionDelay b.getSeqNum b.header.blockRound b.header.baseFee st
            (b.txnFees.lookup a) : Except BlockPolicyError AccountBalanceState) with
      | error e => rfl
      | ok st' => exact ih st' (s + 1)
    · rw [if_pos hseq, if_pos hseq]

variable {blocks : List (EthValidatedBlock K)}
  (chainConfig : ChainConfig) (executionDelay : Nat) (a : Address)

/-- The two passes over committed blocks account for them as the single pass over
extending blocks does. -/
lemma noteLatestTxns_applyBlocks (reserveStart : Nat) (hnum : Numbered.From getSeqNum s blocks)
    (st : AccountBalanceState) :
    (match noteLatestTxns a ((blocks.take (reserveStart - s)).map toCommittedBlock) st s with
      | .error e => .error e
      | .ok (st', nextValidate) =>
        applyBlocks chainConfig executionDelay a
          ((blocks.drop (reserveStart - s)).map toCommittedBlock) st'
          nextValidate : Except Failure (AccountBalanceState × Nat)) =
      match applyExtendingBlocks chainConfig executionDelay a reserveStart blocks st s with
      | .error e => .error e
      | .ok st' => .ok (st', s + blocks.length) := by
  induction blocks generalizing st s with
  | nil =>
    simp [noteLatestTxns, applyBlocks, applyExtendingBlocks]
  | cons b blocks ih =>
    have hseq : b.toCommittedBlock.seqNum = s := hnum.1
    have hlen : s + (b :: blocks).length = s + 1 + blocks.length := by
      rw [length_cons]
      omega
    rw [applyExtendingBlocks, if_neg (not_not.2 hnum.1.symm), hlen]
    by_cases hlt : s < reserveStart
    · have hsucc : reserveStart - s = reserveStart - (s + 1) + 1 := by omega
      rw [if_pos hlt, hsucc, take_succ_cons, drop_succ_cons, map_cons,
        noteLatestTxns, if_neg (not_not.2 hseq)]
      exact ih hnum.2 _
    · have hzero : reserveStart - s = 0 := by omega
      have hzero' : reserveStart - (s + 1) = 0 := by omega
      have ih' := fun st => ih hnum.2 st
      simp only [hzero', take_zero, drop_zero, map_nil, noteLatestTxns] at ih'
      rw [if_neg hlt, hzero, take_zero, drop_zero, map_nil, map_cons, noteLatestTxns]
      dsimp only
      rw [applyBlocks, if_neg (not_not.2 hseq)]
      dsimp only [toCommittedBlock, getSeqNum]
      cases applyFees chainConfig executionDelay b.header.seqNum b.header.blockRound
          b.header.baseFee st (b.txnFees.lookup a) with
      | error e => rfl
      | ok st' => exact ih' st'

/-- Accounting for the buffered blocks from height `s` on. -/
lemma updateAccountBalance_eq {d m : Nat} (hnum : Numbered.From getSeqNum (1 + d) blocks)
    (hd : 1 + d ≤ s) (hs : s ≤ reserveStart) (st : AccountBalanceState) :
    updateAccountBalance ⟨blocks.map toCommittedBlock, m⟩ st a executionDelay s reserveStart
        chainConfig =
      match applyExtendingBlocks chainConfig executionDelay a reserveStart
          (blocks.drop (s - (1 + d))) st s with
      | .error e => .error e
      | .ok st' => .ok (st', s + (blocks.length - (s - (1 + d)))) := by
  have hshift : 1 + d + (s - (1 + d)) = s := by omega
  have hdrop : Numbered.From getSeqNum s (blocks.drop (s - (1 + d))) := by
    have hfrom := hnum.drop (s - (1 + d))
    rwa [hshift] at hfrom
  have hcommitted := from_toCommittedBlock hnum
  have hsearched : (blocks.map toCommittedBlock).filter
        (fun b => decide (s ≤ b.seqNum) && decide (b.seqNum < reserveStart)) =
      ((blocks.drop (s - (1 + d))).take (reserveStart - s)).map toCommittedBlock := by
    have hfilter : (blocks.map toCommittedBlock).filter
          (fun b => decide (s ≤ b.seqNum) && decide (b.seqNum < reserveStart)) =
        ((blocks.map toCommittedBlock).filter
          (fun b => decide (s ≤ b.seqNum))).filter (fun b => decide (b.seqNum < reserveStart)) := by
      rw [List.filter_filter]
      simp only [Bool.and_comm]
    rw [hfilter, filter_le hcommitted, ← map_drop,
      filter_lt (from_toCommittedBlock hdrop), map_take]
  have hcharged : (blocks.map toCommittedBlock).filter (fun b => decide (reserveStart ≤ b.seqNum)) =
      ((blocks.drop (s - (1 + d))).drop (reserveStart - s)).map toCommittedBlock := by
    have hindex : s - (1 + d) + (reserveStart - s) = reserveStart - (1 + d) := by omega
    rw [filter_le hcommitted, drop_drop, hindex, map_drop]
  unfold updateAccountBalance
  rw [hsearched, hcharged]
  refine (noteLatestTxns_applyBlocks chainConfig executionDelay a reserveStart hdrop st).trans ?_
  rw [length_drop]

/-- Funds of an account at the start of the next block: all blocks of the chain from the
start of the search on are accounted for, committed or not. -/
theorem accountBaseBalance_eq (h : Split p k chain committed extending) (maxReserveBalance : Nat)
    (chainConfig : ChainConfig) (status : Option EthAccount) (a : Address) :
    let base := baseSeqNum (chain.length + 1) k
    let emptyingStart := emptyingTxnCheckStart base k
    p.accountBaseBalance base maxReserveBalance chainConfig (some extending) status a =
      applyExtendingBlocks chainConfig k a (base + 1) (chain.drop (emptyingStart - 1))
        (initialBalanceState maxReserveBalance base k status) emptyingStart := by
  intro base emptyingStart
  obtain ⟨d, hblocks, hd⟩ := h.tracks.blocks
  have hlen := h.length_eq
  have hk := h.delay_pos
  have hbase : base = chain.length + 1 - k := baseSeqNum_eq _ _
  have hstart : emptyingStart = max 1 (base + 2 - k) := emptyingTxnCheckStart_eq _ _
  have hd_start : 1 + d ≤ emptyingStart := by omega
  have hstart_le : emptyingStart ≤ base + 1 := by omega
  have hbuffer : p.committedCache =
      ⟨(committed.drop d).map toCommittedBlock, p.committedCache.minBufferSize⟩ := by
    rw [← hblocks]
  have hdropped : (committed.drop d).drop (emptyingStart - (1 + d)) =
      committed.drop (emptyingStart - 1) := by
    rw [drop_drop]
    congr 1
    omega
  unfold accountBaseBalance
  rw [h.tracks.executionDelay, hbuffer]
  simp only
  rw [updateAccountBalance_eq chainConfig k a (h.isChain_committed.drop d) hd_start hstart_le,
    hdropped]
  have hnext : emptyingStart + ((committed.drop d).length - (emptyingStart - (1 + d))) =
      max emptyingStart (committed.length + 1) := by
    rw [length_drop]
    omega
  -- the extending blocks that are left are those right after the buffered ones
  have hrest : extending.dropWhile
        (fun b => b.getSeqNum < max emptyingStart (committed.length + 1)) =
      extending.drop (emptyingStart - 1 - committed.length) := by
    rw [dropWhile_lt h.from_extending]
    congr 1
    omega
  have hchain : chain.drop (emptyingStart - 1) = committed.drop (emptyingStart - 1) ++
        extending.drop (emptyingStart - 1 - committed.length) := by
    rw [h.eq_append, drop_append]
  have hend : emptyingStart + (committed.drop (emptyingStart - 1)).length =
      max emptyingStart (committed.length + 1) := by
    rw [length_drop]
    omega
  rw [hchain, applyExtendingBlocks_append, hnext, hend]
  cases applyExtendingBlocks chainConfig k a (base + 1) (committed.drop (emptyingStart - 1))
      (initialBalanceState maxReserveBalance base k status) emptyingStart with
  | error e => rfl
  | ok st => simp only [hrest]

end Split

/-! ## Two nodes -/

/-- The two execution states have the same data for every block, final or not. -/
structure SameReads (reads₁ reads₂ : ExecutionStateRead K) : Prop where
  accounts : ∀ id seqNum isFinalized₁ isFinalized₂,
    reads₁.getAccountStatuses id seqNum isFinalized₁ =
      reads₂.getAccountStatuses id seqNum isFinalized₂
  results : ∀ id seqNum isFinalized₁ isFinalized₂,
    reads₁.getExecutionResult id seqNum isFinalized₁ =
      reads₂.getExecutionResult id seqNum isFinalized₂

section

variable {p₁ p₂ : EthBlockPolicy K} {k : Nat}
  {chain committed₁ extending₁ committed₂ extending₂ : List (EthValidatedBlock K)}
  {reads₁ reads₂ : ExecutionStateRead K}

section

variable (h₁ : Split p₁ k chain committed₁ extending₁)
include h₁

section

variable (h₂ : Split p₂ k chain committed₂ extending₂)
include h₂

/-- Two nodes look up a recent block under the same id, height and round. -/
lemma Split.sameBlockIndex {base : Nat} (hbase : base ≤ chain.length)
    (hrecent : chain.length < base + k * 2) :
    ∃ index₁ index₂, p₁.getBlockIndex (some extending₁) base = .ok index₁ ∧
      p₂.getBlockIndex (some extending₂) base = .ok index₂ ∧ index₁.blockId = index₂.blockId ∧
      index₁.seqNum = index₂.seqNum ∧ index₁.round = index₂.round := by
  obtain ⟨index₁, hindex1, hchain1, hseq1⟩ := h₁.getBlockIndex_eq hbase hrecent
  obtain ⟨index₂, hindex2, hchain2, hseq2⟩ := h₂.getBlockIndex_eq hbase hrecent
  rw [hchain1, some.injEq, Prod.mk.injEq] at hchain2
  exact ⟨index₁, index₂, hindex1, hindex2, hchain2.1, hseq1.trans hseq2.symm, hchain2.2⟩

section

variable (hreads : SameReads reads₁ reads₂)
include hreads

lemma Split.getAccountStatuses_congr :
    p₁.getAccountStatuses reads₁ (some extending₁) (baseSeqNum (chain.length + 1) k) =
      p₂.getAccountStatuses reads₂ (some extending₂) (baseSeqNum (chain.length + 1) k) := by
  obtain ⟨index1, index2, hindex1, hindex2, hid, -, -⟩ :=
    h₁.sameBlockIndex h₂ h₁.base_le base_recent
  unfold getAccountStatuses
  rw [hindex1, hindex2]
  dsimp only
  rw [hid, hreads.accounts _ _ _ index2.isFinalized]

lemma Split.getAccountBaseNonces_congr (addresses : List Address) :
    p₁.getAccountBaseNonces (chain.length + 1) reads₁ extending₁ addresses =
      p₂.getAccountBaseNonces (chain.length + 1) reads₂ extending₂ addresses := by
  unfold getAccountBaseNonces
  simp only [h₁.tracks.executionDelay, h₂.tracks.executionDelay]
  rw [h₁.nonceBlocks_eq, h₂.nonceBlocks_eq, h₁.getAccountStatuses_congr h₂ hreads]

lemma Split.computeAccountBaseBalances_congr
    (chainConfig : ChainConfig) (addresses : List Address) :
    p₁.computeAccountBaseBalances (chain.length + 1) reads₁ chainConfig (some extending₁)
        addresses =
      p₂.computeAccountBaseBalances (chain.length + 1) reads₂ chainConfig (some extending₂)
        addresses := by
  obtain ⟨index1, index2, hindex1, hindex2, -, -, hround⟩ :=
    h₁.sameBlockIndex h₂ h₁.base_le base_recent
  unfold computeAccountBaseBalances
  simp only [h₁.tracks.executionDelay, h₂.tracks.executionDelay]
  rw [hindex1, hindex2, h₁.getAccountStatuses_congr h₂ hreads]
  dsimp only
  rw [hround]
  cases p₂.getAccountStatuses reads₂ (some extending₂) (baseSeqNum (chain.length + 1) k) with
  | error e => rfl
  | ok statuses =>
    refine FiniteMap.collectKeys_congr fun a _ => ?_
    rw [h₁.accountBaseBalance_eq, h₂.accountBaseBalance_eq]

lemma Split.getExpectedExecutionResults_congr :
    p₁.getExpectedExecutionResults (chain.length + 1) extending₁ reads₁ =
      p₂.getExpectedExecutionResults (chain.length + 1) extending₂ reads₂ := by
  have hk := h₁.delay_pos
  unfold getExpectedExecutionResults
  rw [h₁.tracks.executionDelay, h₂.tracks.executionDelay]
  split
  · rfl
  · obtain ⟨index1, index2, hindex1, hindex2, hid, hseq, -⟩ :=
      h₁.sameBlockIndex h₂ (show chain.length + 1 - k ≤ chain.length by omega) (by omega)
    rw [hindex1, hindex2]
    dsimp only
    rw [hid, hseq, hreads.results _ _ _ index2.isFinalized]

lemma Split.checkAccounts_congr [ExtractEthAddress K] (chainConfig : ChainConfig)
    {block : EthValidatedBlock K} (hseq : block.getSeqNum = chain.length + 1) :
    p₁.checkAccounts block extending₁ reads₁ chainConfig =
      p₂.checkAccounts block extending₂ reads₂ chainConfig := by
  unfold EthBlockPolicy.checkAccounts EthBlockPolicy.validateSystemTransactionsInput validatorFor
  rw [hseq, h₁.getAccountBaseNonces_congr h₂ hreads,
    h₁.computeAccountBaseBalances_congr h₂ hreads, h₁.parentBlockEpoch_eq, h₂.parentBlockEpoch_eq,
    h₁.tracks.executionDelay, h₂.tracks.executionDelay]

end

end

/-- Height of the block that is extended, whether it is committed or not. -/
lemma Split.extendedBlock_fst {root : RootInfo K} (hroot : root.seqNum = committed₁.length) :
    (extendedBlock extending₁ root).1 = chain.length := by
  have hlen := h₁.length_eq
  unfold extendedBlock
  cases hlast : extending₁.getLast? with
  | some parent =>
    have hnum := num_getLast? h₁.from_extending hlast
    dsimp only
    omega
  | none =>
    rw [getLast?_eq_none_iff] at hlast
    subst hlast
    rw [length_nil] at hlen
    dsimp only
    omega

/-- The time check sees the parent's time only if the parent is not committed. -/
lemma Split.extendedBlock_snd (root : RootInfo K) :
    (extendedBlock extending₁ root).2 = if extending₁ = [] then 0
      else (chain.getLast?.map (·.header.timestampNs)).getD 0 := by
  unfold extendedBlock
  cases hlast : extending₁.getLast? with
  | some parent =>
    have hne : extending₁ ≠ [] := by
      rintro rfl
      simp at hlast
    rw [if_neg hne, h₁.eq_append, getLast?_append, hlast]
    rfl
  | none =>
    rw [getLast?_eq_none_iff] at hlast
    rw [if_pos hlast]

end

lemma Split.otherChecks_congr [ExtractEthAddress K] {chainConfig : ChainConfig}
    {block : EthValidatedBlock K} (h₁ : Split p₁ k chain committed₁ extending₁)
    (h₂ : Split p₂ k chain committed₂ extending₂) (hreads : SameReads reads₁ reads₂)
    (hseq : block.getSeqNum = chain.length + 1) :
    OtherChecks p₁ block extending₁ reads₁ chainConfig ↔
      OtherChecks p₂ block extending₂ reads₂ chainConfig := by
  rw [otherChecks_iff, otherChecks_iff, hseq, h₁.getExpectedExecutionResults_congr h₂ hreads,
    computeBaseFee, computeBaseFee, h₁.getParentBaseFeeFields_eq, h₂.getParentBaseFeeFields_eq,
    h₁.checkAccounts_congr h₂ hreads chainConfig hseq]

/-- Two nodes that have committed different segments of a chain give the same verdict on the
next block exactly if both or neither have committed the parent, or the block is later than
its parent, or both reject the block: for its height, for having no time, or for what else
is checked, which does not depend on what is committed. -/
theorem checkCoherency_independent_of_commits [ExtractEthAddress K] (hk : 1 ≤ k)
    (hchain : IsChain chain)
    (hsplit₁ : chain = committed₁ ++ extending₁) (hsplit₂ : chain = committed₂ ++ extending₂)
    (hcommit₁ : (EthBlockPolicy.new genesisSeqNum k).updateCommittedBlocks committed₁ = some p₁)
    (hcommit₂ : (EthBlockPolicy.new genesisSeqNum k).updateCommittedBlocks committed₂ = some p₂)
    {root₁ root₂ : RootInfo K} (hroot₁ : root₁.seqNum = committed₁.length)
    (hroot₂ : root₂.seqNum = committed₂.length) (hreads : SameReads reads₁ reads₂)
    (chainConfig : ChainConfig) (block : EthValidatedBlock K) :
    (p₁.checkCoherency block extending₁ root₁ reads₁ chainConfig = .ok () ↔
      p₂.checkCoherency block extending₂ root₂ reads₂ chainConfig = .ok ()) ↔
    (extending₁ = [] ↔ extending₂ = []) ∨
      (∀ parent, chain.getLast? = some parent →
        parent.header.timestampNs < block.header.timestampNs) ∨
      block.getSeqNum ≠ chain.length + 1 ∨ block.header.timestampNs = 0 ∨
      ¬ OtherChecks (EthBlockPolicy.new genesisSeqNum k) block chain reads₁ chainConfig := by
  have h₁ := split_of_updateCommittedBlocks hk hchain hsplit₁ hcommit₁
  have h₂ := split_of_updateCommittedBlocks hk hchain hsplit₂ hcommit₂
  have h₀ := split_of_updateCommittedBlocks hk hchain (show chain = [] ++ chain from rfl) rfl
  rw [checkCoherency_eq_ok_iff, checkCoherency_eq_ok_iff, h₁.extendedBlock_fst hroot₁,
    h₂.extendedBlock_fst hroot₂]
  by_cases hseq : block.getSeqNum = chain.length + 1
  swap
  · simp [hseq]
  -- everything but the time check is a function of the chain
  rw [h₁.otherChecks_congr h₂ hreads hseq, h₀.otherChecks_congr h₂ hreads hseq,
    h₁.extendedBlock_snd, h₂.extendedBlock_snd]
  by_cases hother : OtherChecks p₂ block extending₂ reads₂ chainConfig
  swap
  · simp [hother]
  simp only [hseq, hother, and_true, true_and, ne_eq, not_true_eq_false, false_or, or_false]
  cases hlast : chain.getLast? with
  | none => simp
  | some parent =>
    simp only [map_some, getD_some, some.injEq, forall_eq']
    by_cases hnil₁ : extending₁ = [] <;> by_cases hnil₂ : extending₂ = [] <;>
      simp only [hnil₁, hnil₂, if_true, if_false, iff_self, iff_true, iff_false, not_true_eq_false,
        true_or, false_or] <;> omega

end

/-! ## Retention of committed blocks -/

section

variable {chain : List (EthValidatedBlock K)} {reads : ExecutionStateRead K}
  {chainConfig : ChainConfig} {addresses : List Address} {a : Address}

lemma liftReadError_ne_panic {α : Type} (x : Except ExecutionStateReadError α) :
    liftReadError x ≠ .error .panic := by
  cases x <;> rintro ⟨⟩

/-- Consecutive blocks pass the contiguity assertion. -/
lemma applyExtendingBlocks_ne_panic
    (hnum : Numbered.From getSeqNum s blocks) (st : AccountBalanceState) :
    applyExtendingBlocks chainConfig k a reserveStart blocks st s ≠ .error .panic := by
  induction blocks generalizing st s with
  | nil => rintro ⟨⟩
  | cons b blocks ih =>
    rw [applyExtendingBlocks, if_neg (not_not.2 hnum.1.symm)]
    split
    · rintro ⟨⟩
    · exact ih hnum.2 _

namespace Split

section

variable (h : Split p k chain committed extending)
include h

lemma accountBaseBalance_ne_panic (maxReserveBalance : Nat) (status : Option EthAccount) :
    p.accountBaseBalance (baseSeqNum (chain.length + 1) k) maxReserveBalance chainConfig
      (some extending) status a ≠ .error .panic := by
  have hfrom := h.isChain.drop (emptyingTxnCheckStart (baseSeqNum (chain.length + 1) k) k - 1)
  rw [Nat.add_sub_cancel' (by rw [emptyingTxnCheckStart_eq]; omega)] at hfrom
  rw [h.accountBaseBalance_eq]
  exact applyExtendingBlocks_ne_panic hfrom _

lemma getAccountStatuses_ne_panic :
    p.getAccountStatuses reads (some extending) (baseSeqNum (chain.length + 1) k) ≠
      .error .panic := by
  obtain ⟨index, hindex, -⟩ := h.getBlockIndex_eq h.base_le base_recent
  rw [getAccountStatuses, hindex]
  exact liftReadError_ne_panic _

lemma getAccountBaseNonces_ne_panic :
    p.getAccountBaseNonces (chain.length + 1) reads extending addresses ≠ .error .panic := by
  unfold getAccountBaseNonces
  rw [h.tracks.executionDelay]
  dsimp only
  split
  · next e hstatuses =>
    rintro ⟨⟩
    exact h.getAccountStatuses_ne_panic hstatuses
  · intro hcollect
    obtain ⟨a, -, ha⟩ := FiniteMap.collectKeys_error hcollect
    split at ha <;> cases ha

lemma computeAccountBaseBalances_ne_panic :
    p.computeAccountBaseBalances (chain.length + 1) reads chainConfig (some extending) addresses ≠
      .error .panic := by
  obtain ⟨index, hindex, -⟩ := h.getBlockIndex_eq h.base_le base_recent
  unfold computeAccountBaseBalances
  dsimp only
  rw [h.tracks.executionDelay, hindex]
  dsimp only
  split
  · next e hstatuses =>
    rintro ⟨⟩
    exact h.getAccountStatuses_ne_panic hstatuses
  · intro hcollect
    obtain ⟨a, -, ha⟩ := FiniteMap.collectKeys_error hcollect
    exact h.accountBaseBalance_ne_panic _ _ ha

lemma getExpectedExecutionResults_ne_panic :
    p.getExpectedExecutionResults (chain.length + 1) extending reads ≠ .error .panic := by
  have hk := h.delay_pos
  unfold getExpectedExecutionResults
  rw [h.tracks.executionDelay]
  split
  · rintro ⟨⟩
  · obtain ⟨index, hindex, -⟩ :=
      h.getBlockIndex_eq (show chain.length + 1 - k ≤ chain.length by omega) (by omega)
    rw [hindex]
    dsimp only
    split
    · next e hread =>
      rintro ⟨⟩
      exact liftReadError_ne_panic _ hread
    · rintro ⟨⟩

end

end Split

/-- None of the calls that read committed and extending blocks for a block of a height
panics. -/
structure CallsReturn (p : EthBlockPolicy K) (seqNum : Nat)
    (extending : List (EthValidatedBlock K)) (reads : ExecutionStateRead K)
    (chainConfig : ChainConfig) : Prop where
  results : p.getExpectedExecutionResults seqNum extending reads ≠ .error .panic
  parent : p.getParentBaseFeeFields extending ≠ .error .panic
  nonces (addresses : List Address) :
    p.getAccountBaseNonces seqNum reads extending addresses ≠ .error .panic
  balances (addresses : List Address) :
    p.computeAccountBaseBalances seqNum reads chainConfig (some extending) addresses ≠ .error .panic
  epoch : p.parentBlockEpoch seqNum extending ≠ .error .panic

lemma Split.callsReturn (h : Split p k chain committed extending) :
    CallsReturn p (chain.length + 1) extending reads chainConfig where
  results := h.getExpectedExecutionResults_ne_panic
  parent := by
    rw [h.getParentBaseFeeFields_eq]
    rintro ⟨⟩
  nonces _ := h.getAccountBaseNonces_ne_panic
  balances _ := h.computeAccountBaseBalances_ne_panic
  epoch := by
    rw [h.parentBlockEpoch_eq]
    rintro ⟨⟩

/-- A policy that commits a chain from genesis buffers consecutive blocks up to the last
commit, at least twice the execution delay of them if so many are committed.  So no call
for the next block panics, and where the check of a block panics, none of these calls
does. -/
theorem committed_blocks_retained [ExtractEthAddress K] (hk : 1 ≤ k)
    (hchain : IsChain (committed ++ extending)) :
    ∃ p, (EthBlockPolicy.new genesisSeqNum k).updateCommittedBlocks committed = some p ∧
      p.lastCommit = committed.length ∧
      (∃ d, d + min committed.length (k * 2) ≤ committed.length ∧
        p.committedCache.blocks = (committed.drop d).map toCommittedBlock) ∧
      ∀ reads chainConfig,
        CallsReturn p ((committed ++ extending).length + 1) extending reads chainConfig ∧
        ∀ block root, root.seqNum = committed.length →
          p.checkCoherency block extending root reads chainConfig = .error .panic →
          CallsReturn p block.getSeqNum extending reads chainConfig := by
  obtain ⟨p, hrun, hsplit⟩ := exists_split hk hchain
  obtain ⟨d, hblocks, hd⟩ := hsplit.tracks.blocks
  refine ⟨p, hrun, hsplit.tracks.lastCommit, ⟨d, by omega, hblocks⟩, fun reads chainConfig =>
    ⟨hsplit.callsReturn, fun block root hroot hpanic => ?_⟩⟩
  unfold checkCoherency at hpanic
  simp only [hsplit.extendedBlock_fst hroot] at hpanic
  -- a block of another height is rejected before any of the calls
  split at hpanic
  · cases hpanic
  · next hseq =>
    rw [not_not.1 hseq]
    exact hsplit.callsReturn

end

/-! ## Coherent chains -/

/-- A chain of blocks each of which is valid and coherent for a node that had committed some
initial segment of the chain below it. -/
inductive CoherentChain [TxCodec] [ExtractEthAddress K] (chainConfig : ChainConfig) (k : Nat)
    (stateRead : ExecutionStateRead K) : List (EthValidatedBlock K) → Prop
  | nil : CoherentChain chainConfig k stateRead []
  | snoc {chain committed extending : List (EthValidatedBlock K)} {b : EthValidatedBlock K}
      {p : EthBlockPolicy K} {root : RootInfo K} (hchain : CoherentChain chainConfig k stateRead chain)
      (hvalid : b.Validated chainConfig) (hsplit : chain = committed ++ extending)
      (hcommit : (EthBlockPolicy.new genesisSeqNum k).updateCommittedBlocks committed = some p)
      (hroot : root.seqNum = committed.length)
      (hcoherent : p.checkCoherency b extending root stateRead chainConfig = .ok ()) :
      CoherentChain chainConfig k stateRead (chain ++ [b])

namespace CoherentChain

variable [TxCodec] [ExtractEthAddress K] {chainConfig : ChainConfig} {k : Nat}
  {stateRead : ExecutionStateRead K} {chain : List (EthValidatedBlock K)}

lemma isChain (h : CoherentChain chainConfig k stateRead chain) (hk : 1 ≤ k) : IsChain chain := by
  induction h with
  | nil => exact from_nil 1
  | @snoc chain committed extending b p root _ _ hsplit hcommit hroot hcoherent ih =>
    have hs := split_of_updateCommittedBlocks hk ih hsplit hcommit
    have hseq := getSeqNum_of_checkCoherency hcoherent
    rw [hs.extendedBlock_fst hroot] at hseq
    exact from_append.2 ⟨ih, from_cons.2 ⟨by omega, from_nil _⟩⟩

lemma validated (h : CoherentChain chainConfig k stateRead chain) :
    ∀ b ∈ chain, b.Validated chainConfig := by
  induction h with
  | nil => simp
  | snoc _ hvalid _ _ _ _ ih =>
    intro b hb
    rcases mem_append.1 hb with hb | hb
    · exact ih b hb
    · rw [mem_singleton.1 hb]
      exact hvalid

end CoherentChain

namespace Sample

def first : EthValidatedBlock mockTypes := emptyBlock (header .genesis 1 5 firstFees [])

def second (timestampNs : Nat) : EthValidatedBlock mockTypes :=
  emptyBlock (header first.header.getId 2 timestampNs (nextFees firstFees) [])

def noAccounts : ExecutionStateRead mockTypes := reads fun _ _ => none

lemma sameReads_noAccounts : SameReads noAccounts noAccounts where
  accounts := fun _ _ _ _ => rfl
  results := fun _ _ _ _ => rfl

/-- Block `n + 1` of a chain of empty blocks with an execution delay of one. -/
def link : Nat → EthValidatedBlock mockTypes
  | 0 => emptyBlock (header .genesis 1 5 firstFees [0])
  | n + 1 =>
    let parent := (link n).header
    emptyBlock (header parent.getId (n + 2) (parent.timestampNs + 5)
      (nextFees (parent.baseFee, parent.baseFeeTrend, parent.baseFeeMoment)) [n + 1])

/-- Five blocks: when the last one is committed, the first two are no longer buffered. -/
def links : List (EthValidatedBlock mockTypes) := (range 5).map link

lemma isChain_links : IsChain links := ⟨rfl, rfl, rfl, rfl, rfl, trivial⟩

/-- With five blocks committed and two of them dropped, the calls for the sixth one return. -/
theorem committed_blocks_retained_links :
    ∃ p, (EthBlockPolicy.new genesisSeqNum 1).updateCommittedBlocks links = some p ∧
      p.committedCache.blocks.length = 3 ∧ CallsReturn p 6 [] noAccounts chainConfig := by
  obtain ⟨p, hp, -, -, hcalls⟩ := committed_blocks_retained (show 1 ≤ 1 by decide)
    (show IsChain (links ++ []) from isChain_links)
  have hlength : ((EthBlockPolicy.new genesisSeqNum 1).updateCommittedBlocks links).map
      (·.committedCache.blocks.length) = some 3 := by
    decide +kernel
  rw [hp, map_some, some.injEq] at hlength
  exact ⟨p, hp, hlength, (hcalls noAccounts chainConfig).1⟩

/-- The sixth block is coherent for a node that has committed the five before it, because it is
for a node that has committed none. -/
theorem checkCoherency_independent_of_commits_links :
    ∃ p, (EthBlockPolicy.new genesisSeqNum 1).updateCommittedBlocks links = some p ∧
      p.checkCoherency (link 5) [] (root 5 25) noAccounts chainConfig = .ok () := by
  obtain ⟨p, hp, -⟩ := exists_split (show 1 ≤ 1 by decide)
    (show IsChain (links ++ []) from isChain_links)
  have hagree := (checkCoherency_independent_of_commits (show 1 ≤ 1 by decide) isChain_links
    (show links = [] ++ links from rfl) (show links = links ++ [] from rfl) rfl hp
    (show (root 0 0).seqNum = _ from rfl) (show (root 5 25).seqNum = _ from rfl)
    sameReads_noAccounts chainConfig (link 5)).mpr (.inr (.inl (by rintro parent ⟨⟩; decide)))
  exact ⟨p, hp, hagree.1 (by decide +kernel)⟩

/-- A second block that is older than the first one is rejected by a node that has not
committed the first one, and accepted by a node that has. -/
theorem checkCoherency_depends_on_commits :
    IsChain [first] ∧ @EthValidatedBlock.Validated _ codec first chainConfig ∧
      @EthValidatedBlock.Validated _ codec (second 3) chainConfig ∧
      SameReads noAccounts noAccounts ∧
      (EthBlockPolicy.new genesisSeqNum 3).checkCoherency (second 3) [first] (root 0 0) noAccounts
        chainConfig = .error (.error .timestampError) ∧
      ∃ p, (EthBlockPolicy.new genesisSeqNum 3).updateCommittedBlocks [first] = some p ∧
        p.checkCoherency (second 3) [] (root 1 5) noAccounts chainConfig = .ok () := by
  refine ⟨⟨rfl, trivial⟩, ⟨⟨[], [], []⟩, rfl⟩, ⟨⟨[], [], []⟩, rfl⟩, sameReads_noAccounts,
    by decide +kernel, ?_⟩
  obtain ⟨p, hp, hcheck⟩ := (any_eq_true _ _).1
    (show ((new genesisSeqNum 3).updateCommittedBlocks [first]).any (fun p =>
      decide (p.checkCoherency (second 3) [] (root 1 5) noAccounts chainConfig = .ok ())) = true
      by decide +kernel)
  exact ⟨p, hp, of_decide_eq_true hcheck⟩

end Sample

end Kinet.Eth
