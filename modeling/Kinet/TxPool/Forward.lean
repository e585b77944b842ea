import Mathlib.Tactic.Ring

/-!
# Forwarding of transactions

Encoded transactions for other nodes wait in a queue.  A poll takes a batch from
its front, limited in bytes and number, and skips transactions over the byte limit.

Main results:

- `TxPool.forwarded_in_order`: the batches carry the transactions within the limit, each
  once and in order.
-/

namespace Kinet.TxPool

open List

abbrev Bytes := List UInt8

def maxForwardedTxsPerMessage : Nat := 5000

structure EthTxPoolForwardingManager (W : Type) where
  egress : List Bytes
  egressWaker : Option W

variable {W : Type} {maxSize totalBytes : Nat} {txs egress : List Bytes}

/-- The inner loop of a poll: the batch, and the rest of the queue. -/
def fillBatch (maxSize : Nat) (txs : List Bytes) (totalBytes : Nat) :
    List Bytes → List Bytes × List Bytes
  | [] => (txs, [])
  | tx :: egress =>
    if totalBytes + tx.length ≤ maxSize then
      -- a full batch gives the transaction back to the front of the queue
      if txs.length ≥ maxForwardedTxsPerMessage then (txs, tx :: egress)
      else fillBatch maxSize (txs ++ [tx]) (totalBytes + tx.length) egress
    else if tx.length > maxSize then fillBatch maxSize txs totalBytes egress
    else (txs, tx :: egress)

abbrev sendable (maxSize : Nat) (txs : List Bytes) : List Bytes :=
  txs.filter (·.length ≤ maxSize)

def WithinLimits (maxSize : Nat) (txs : List Bytes) : Prop :=
  txs.length ≤ maxForwardedTxsPerMessage ∧ (txs.map length).sum ≤ maxSize

/-- A batch is empty only if nothing is left. -/
lemma fillBatch_spec (h : WithinLimits maxSize txs) (htotal : (txs.map length).sum = totalBytes) :
    ∃ sent rest, fillBatch maxSize txs totalBytes egress = (txs ++ sent, rest) ∧
      sent ++ sendable maxSize rest = sendable maxSize egress ∧
      WithinLimits maxSize (txs ++ sent) ∧ rest.length ≤ egress.length ∧
      (txs ++ sent = [] → rest = []) := by
  fun_induction fillBatch maxSize txs totalBytes egress with
  | case1 => exact ⟨[], [], by simp, rfl, by simpa using h, le_rfl, fun _ => rfl⟩
  | case2 _ _ _ _ _ hfull =>
    refine ⟨[], _, by simp, rfl, by simpa using h, le_rfl, fun hnil => ?_⟩
    simp [append_eq_nil_iff.mp hnil, maxForwardedTxsPerMessage] at hfull
  | case3 txs totalBytes tx egress hfits hroom ih =>
    have hmore : WithinLimits maxSize (txs ++ [tx]) := by
      simp [WithinLimits]
      omega
    obtain ⟨sent, rest, hfill, horder, hwithin, hlength, -⟩ := ih hmore (by simp [htotal])
    have htx : tx.length ≤ maxSize := by omega
    refine ⟨tx :: sent, rest, by simp [hfill], ?_, by simpa using hwithin, ?_, by simp⟩
    · simp [htx, horder]
    · exact hlength.trans (Nat.le_succ _)
  | case4 _ _ _ _ _ hlong ih =>
    obtain ⟨sent, rest, hfill, horder, hwithin, hlength, hempty⟩ := ih h htotal
    refine ⟨sent, rest, hfill, ?_, hwithin, hlength.trans (Nat.le_succ _), hempty⟩
    simp [horder, hlong]
  | case5 =>
    refine ⟨[], _, by simp, rfl, by simpa using h, le_rfl, fun hnil => ?_⟩
    simp [append_eq_nil_iff.mp hnil] at htotal
    omega

namespace EthTxPoolForwardingManager

/-- `none` is a pending poll. -/
def pollEgress (maxSize : Nat) (waker : W) (m : EthTxPoolForwardingManager W) :
    Option (List Bytes) × EthTxPoolForwardingManager W :=
  if m.egress = [] then (none, { m with egressWaker := some waker })
  else
    let batch := fillBatch maxSize [] 0 m.egress
    if batch.1 = [] then pollEgress maxSize waker { m with egress := batch.2.tail }
    else (some batch.1, { m with egress := batch.2 })
termination_by m.egress.length
decreasing_by
  obtain ⟨sent, rest, hfill, -, -, hlength, -⟩ :=
    @fillBatch_spec maxSize 0 [] m.egress ⟨zero_le, zero_le⟩ rfl
  have hpos := length_pos_iff.mpr ‹¬ m.egress = []›
  simp only [hfill, length_tail]
  omega

/-- The first component is the waker that is woken. -/
def addEgressTxs (txs : List Bytes) (m : EthTxPoolForwardingManager W) :
    Option W × EthTxPoolForwardingManager W :=
  let egress := m.egress ++ txs
  if egress = [] then (none, { m with egress := egress }) else (m.egressWaker, ⟨egress, none⟩)

lemma pollEgress_spec (maxSize : Nat) (waker : W) (m : EthTxPoolForwardingManager W) :
    (∃ txs m', m.pollEgress maxSize waker = (some txs, m') ∧ txs ≠ [] ∧ WithinLimits maxSize txs ∧
      txs ++ sendable maxSize m'.egress = sendable maxSize m.egress) ∨
    ∃ m', m.pollEgress maxSize waker = (none, m') ∧ sendable maxSize m.egress = [] ∧
      m'.egress = [] := by
  obtain ⟨sent, rest, hfill, horder, hwithin, -, hempty⟩ :=
    @fillBatch_spec maxSize 0 [] m.egress ⟨zero_le, zero_le⟩ rfl
  rw [nil_append] at hfill hwithin hempty
  rw [pollEgress]
  by_cases hnil : m.egress = []
  · exact .inr ⟨_, if_pos hnil, by simp [hnil], hnil⟩
  simp only [if_neg hnil, hfill]
  by_cases hsent : sent = []
  · -- only transactions over the limit were queued, and they are gone
    have hlast : pollEgress maxSize waker ⟨[], m.egressWaker⟩ = (none, ⟨[], some waker⟩) := by
      simp [pollEgress]
    rw [hempty hsent, hsent] at horder
    rw [if_pos hsent, hempty hsent, tail_nil, hlast]
    exact .inr ⟨_, rfl, horder.symm, rfl⟩
  · rw [if_neg hsent]
    exact .inl ⟨sent, _, rfl, hsent, hwithin, horder⟩

end EthTxPoolForwardingManager

/-- A call of the manager. -/
inductive Event (W : Type) where
  | addEgressTxs (txs : List Bytes)
  | pollEgress (waker : W)

/-- The batches of a sequence of calls, and the manager after it. -/
def run (maxSize : Nat) (m : EthTxPoolForwardingManager W) :
    List (Event W) → List (List Bytes) × EthTxPoolForwardingManager W
  | [] => ([], m)
  | .addEgressTxs txs :: events => run maxSize (m.addEgressTxs txs).2 events
  | .pollEgress waker :: events =>
    let polled := m.pollEgress maxSize waker
    let rest := run maxSize polled.2 events
    (polled.1.toList ++ rest.1, rest.2)

def queued (events : List (Event W)) : List Bytes :=
  events.flatMap fun
    | .addEgressTxs txs => txs
    | .pollEgress _ => []

/-- Batches are not empty and within the limits.  They and what stays in the queue are the
transactions of at most `maxSize` bytes, in order, and a poll is pending only when none of
these is left. -/
theorem forwarded_in_order (maxSize : Nat) (m : EthTxPoolForwardingManager W)
    (events : List (Event W)) :
    let r := run maxSize m events
    (∀ txs ∈ r.1, txs ≠ [] ∧ txs.length ≤ maxForwardedTxsPerMessage ∧
        (txs.map length).sum ≤ maxSize) ∧
      r.1.flatten ++ sendable maxSize r.2.egress = sendable maxSize (m.egress ++ queued events) ∧
      ∀ waker, (r.2.pollEgress maxSize waker).1 = none → sendable maxSize r.2.egress = [] := by
  induction events generalizing m with
  | nil =>
    refine ⟨by simp [run], by simp [run, queued], fun waker hpending => ?_⟩
    rcases m.pollEgress_spec maxSize waker with ⟨txs, m', hpoll, -⟩ | ⟨m', -, hnone, -⟩
    · cases hpoll ▸ hpending
    · exact hnone
  | cons e events ih =>
    cases e with
    | addEgressTxs txs =>
      have hadd : (m.addEgressTxs txs).2.egress = m.egress ++ txs := by
        unfold EthTxPoolForwardingManager.addEgressTxs
        dsimp only
        split <;> rfl
      simpa [run, queued, hadd] using ih (m.addEgressTxs txs).2
    | pollEgress waker =>
      rcases m.pollEgress_spec maxSize waker with
        ⟨txs, m', hpoll, hne, hwithin, horder⟩ | ⟨m', hpoll, hnone, hnil⟩
      · obtain ⟨hbatches, hrest, hpending⟩ := ih m'
        simp only [run, hpoll]
        refine ⟨forall_mem_cons.mpr ⟨⟨hne, hwithin⟩, hbatches⟩, ?_, hpending⟩
        simp [hrest, ← horder, queued]
      · simpa [run, queued, hpoll, hnone, hnil] using ih m'

end Kinet.TxPool
