import Kinet.Foundation.FiniteMap
import Kinet.Foundation.Quorum
import Kinet.ConsensusTypes.Certificate

/-!
# Validator sets and epochs

The stake-weighted validator set of an epoch with its two vote thresholds, the
mapping from epochs to validator sets, and the manager that assigns rounds to
epochs.
-/

namespace Kinet

open List

variable {K : TypeParams}

/-- Why a vote count fails. -/
inductive ValidatorSetError (K : TypeParams) where
  | duplicateValidator (node : K.NodeId)

/-- The members of an epoch with their stake. -/
structure ValidatorSet (K : TypeParams) where
  validators : FiniteMap K.NodeId Nat
  totalStake : Nat
  total_eq : totalStake = (validators.pairs.map Prod.snd).sum
  stake_pos : ∀ id stake, validators.lookup id = some stake → 0 < stake

/-- The first element that already occurred, as `duplicates().next()` yields it. -/
def firstDuplicate {α : Type} [DecidableEq α] : List α → List α → Option α
  | _, [] => none
  | seen, a :: l => if a ∈ seen then some a else firstDuplicate (a :: seen) l

lemma firstDuplicate_eq_none_iff {α : Type} [DecidableEq α] (seen l : List α) :
    firstDuplicate seen l = none ↔ l.Nodup ∧ ∀ a ∈ l, a ∉ seen := by
  induction l generalizing seen with
  | nil => simp [firstDuplicate]
  | cons a l ih =>
    by_cases ha : a ∈ seen
    · simp [firstDuplicate, ha]
    · simp only [firstDuplicate, ha, if_false, ih, mem_cons, not_or, nodup_cons,
        forall_eq_or_imp, not_false_eq_true, true_and]
      constructor
      · rintro ⟨hnd, hseen⟩
        exact ⟨⟨fun hmem => (hseen a hmem).1 rfl, hnd⟩, fun b hb => (hseen b hb).2⟩
      · rintro ⟨⟨hnot, hnd⟩, hseen⟩
        refine ⟨hnd, fun b hb => ⟨?_, hseen b hb⟩⟩
        rintro rfl
        exact hnot hb

namespace ValidatorSet

section

variable (v : ValidatorSet K)

def isMember (addr : K.NodeId) : Bool := decide (addr ∈ v.validators)

def len : Nat := v.validators.keys.length

variable (addrs : List K.NodeId)

/-- Stake of the members among `addrs`. -/
def calculateCurrentStake : Except (ValidatorSetError K) Nat :=
  match firstDuplicate [] addrs with
  | some node => .error (.duplicateValidator node)
  | none => .ok (addrs.filterMap fun addr => v.validators.lookup addr).sum

/-- Whether the stake of `addrs` reaches `threshold`. -/
def hasThresholdVotes (threshold : Nat) : Except (ValidatorSetError K) Bool :=
  (v.calculateCurrentStake addrs).map fun stake => decide (threshold ≤ stake)

/-- Whether `addrs` hold more than two thirds of the stake. -/
def hasSuperMajorityVotes : Except (ValidatorSetError K) Bool :=
  v.hasThresholdVotes addrs (v.totalStake * 2 / 3 + 1)

/-- Whether `addrs` hold more than one third of the stake. -/
def hasHonestVote : Except (ValidatorSetError K) Bool :=
  v.hasThresholdVotes addrs (v.totalStake / 3 + 1)

end

/-! ## Vote counts as weighted quorums -/

def stakeOf (v : ValidatorSet K) (addr : K.NodeId) : Nat := (v.validators.lookup addr).getD 0

def members (v : ValidatorSet K) : Finset K.NodeId := v.validators.keys.toFinset

variable {v : ValidatorSet K}

lemma mem_members {a : K.NodeId} : a ∈ v.members ↔ a ∈ v.validators := by
  simp [members, AList.mem_keys]

lemma stakeOf_eq_zero {a : K.NodeId} (h : a ∉ v.members) : v.stakeOf a = 0 := by
  rw [mem_members, ← AList.lookup_eq_none] at h
  simp [stakeOf, h]

section

variable (v)

lemma sum_filterMap_lookup (addrs : List K.NodeId) :
    (addrs.filterMap fun a => v.validators.lookup a).sum = (addrs.map v.stakeOf).sum := by
  induction addrs with
  | nil => rfl
  | cons a addrs ih =>
    simp only [map_cons, sum_cons, stakeOf, filterMap_cons]
    cases v.validators.lookup a <;> simp [ih]

lemma totalStake_eq_sum : v.totalStake = ∑ a ∈ v.members, v.stakeOf a := by
  have hpairs : v.validators.pairs.map Prod.snd = v.validators.keys.map v.stakeOf := by
    rw [← FiniteMap.map_fst_pairs, map_map]
    apply map_congr_left
    rintro ⟨a, stake⟩ hmem
    have hlookup : v.validators.lookup a = some stake := FiniteMap.mem_pairs.mp hmem
    simp [stakeOf, hlookup]
  rw [v.total_eq, hpairs, members, sum_toFinset _ v.validators.keys_nodup]

/-- A set of nodes that holds more than two thirds of the stake. -/
def IsSuperMajority (s : Finset K.NodeId) : Prop :=
  Quorum.IsSuperMajority v.stakeOf v.members s

/-- The executable count succeeds exactly on duplicate-free supermajorities. -/
theorem hasSuperMajorityVotes_eq_true_iff (addrs : List K.NodeId) :
    v.hasSuperMajorityVotes addrs = .ok true ↔ addrs.Nodup ∧ v.IsSuperMajority addrs.toFinset := by
  unfold hasSuperMajorityVotes hasThresholdVotes calculateCurrentStake
  cases hdup : firstDuplicate [] addrs with
  | some node =>
    have hnot : ¬ addrs.Nodup := by
      intro hnd
      have hnone := (firstDuplicate_eq_none_iff [] addrs).mpr ⟨hnd, by simp⟩
      rw [hdup] at hnone
      cases hnone
    simp [Except.map, hnot]
  | none =>
    have hnd : addrs.Nodup := ((firstDuplicate_eq_none_iff [] addrs).mp hdup).1
    simp only [Except.map, Except.ok.injEq, decide_eq_true_eq, hnd, true_and, IsSuperMajority,
      Quorum.IsSuperMajority, Quorum.superMajorityThreshold, sum_filterMap_lookup,
      sum_toFinset _ hnd, ← totalStake_eq_sum]

variable {addrs : List K.NodeId}

lemma hasSuperMajorityVotes_perm {addrs' : List K.NodeId}
    (hperm : addrs.Perm addrs') (h : v.hasSuperMajorityVotes addrs = .ok true) :
    v.hasSuperMajorityVotes addrs' = .ok true := by
  rw [hasSuperMajorityVotes_eq_true_iff] at h ⊢
  refine ⟨hperm.nodup_iff.mp h.1, ?_⟩
  rw [← toFinset_eq_of_perm _ _ hperm]
  exact h.2

lemma hasSuperMajorityVotes_ne_error (hnd : addrs.Nodup) (e : ValidatorSetError K) :
    v.hasSuperMajorityVotes addrs ≠ .error e := by
  have hnone := (firstDuplicate_eq_none_iff [] addrs).mpr ⟨hnd, by simp⟩
  simp [hasSuperMajorityVotes, hasThresholdVotes, calculateCurrentStake, hnone, Except.map]

/-- The stake of the nodes outside `honest` is less than one third. -/
def ByzantineMinority (honest : K.NodeId → Bool) : Prop :=
  Quorum.FaultyMinority v.stakeOf v.members (v.members.filter fun a => honest a = false)

end

variable {honest : K.NodeId → Bool} {s : Finset K.NodeId}

/-- Two supermajorities share an honest validator. -/
theorem exists_honest_common (hbyz : v.ByzantineMinority honest)
    {s' : Finset K.NodeId} (hs : v.IsSuperMajority s) (hs' : v.IsSuperMajority s') :
    ∃ a, a ∈ s ∧ a ∈ s' ∧ a ∈ v.members ∧ honest a = true := by
  obtain ⟨a, has, has', hmem, hnot⟩ :=
    Quorum.exists_correct_mem_inter (fun _ h => stakeOf_eq_zero h) hbyz hs hs'
  refine ⟨a, has, has', hmem, ?_⟩
  simpa [hmem] using hnot

end ValidatorSet

abbrev ValidatorMapping (K : TypeParams) := FiniteMap K.NodeId K.CertPubKey

abbrev ValidatorsEpochMapping (K : TypeParams) :=
  FiniteMap Nat (ValidatorSet K × ValidatorMapping K)

namespace ValidatorsEpochMapping

def getValSet (m : ValidatorsEpochMapping K) (epoch : Nat) : Option (ValidatorSet K) :=
  (m.lookup epoch).map Prod.fst

def getCertPubkeys (m : ValidatorsEpochMapping K) (epoch : Nat) : Option (ValidatorMapping K) :=
  (m.lookup epoch).map Prod.snd

end ValidatorsEpochMapping

/-! ## Epochs -/

def SeqNum.toEpoch (n epochLength : Nat) : Nat := n / epochLength + 1

def SeqNum.isBoundaryBlock (n epochLength : Nat) : Bool := n % epochLength == epochLength - 1

structure EpochManager where
  epochLength : Nat
  epochStartDelay : Nat
  epochStarts : FiniteMap Nat Nat
  epochLength_pos : 0 < epochLength

namespace EpochManager

/-- Epoch of a round: the last known epoch that starts at or before it. -/
def getEpoch (m : EpochManager) (round : Nat) : Option Nat :=
  (m.epochStarts.sortedPairs.reverse.find? fun e => e.2 ≤ round).map Prod.fst

/-- Record an epoch start; `none` when a different start is already recorded. -/
def insertEpochStart (m : EpochManager) (epoch : Nat) (round : Nat) : Option EpochManager :=
  match m.epochStarts.lookup epoch with
  | none => some { m with epochStarts := m.epochStarts.insert epoch round }
  | some r => if r = round then some m else none

/-- Schedule the next epoch when the last block of an epoch is committed. -/
def scheduleEpochStart (m : EpochManager) (blockNum : Nat) (blockRound : Nat) :
    Option EpochManager :=
  if SeqNum.isBoundaryBlock blockNum m.epochLength then
    m.insertEpochStart (SeqNum.toEpoch blockNum m.epochLength + 1) (blockRound + m.epochStartDelay)
  else some m

end EpochManager

end Kinet
