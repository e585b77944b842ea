import Kinet.Foundation.Checked
import Mathlib.Data.Nat.Log

/-!
# Merkle trees

Chunks of a broadcast message are authenticated by a Merkle tree.  The tree is kept in
one array with the root at index 0 and the children of index `i` at `2 * i + 1` and
`2 * i + 2`; missing leaves are zero.  A proof lists the siblings on the way from the
root down to a leaf.  `MerkleHasher` keeps the hash function and its truncation abstract.

Main results:

- `MerkleHasher.proof_complete_and_binding`: completeness and binding of proofs.
-/

namespace Kinet.Merkle

open Checked List Option

/-- A hash function over pairs of nodes and its truncation to a node. -/
structure MerkleHasher (Hash MerkleHash : Type) where
  /-- hash of two nodes, one after the other -/
  hashPair : MerkleHash → MerkleHash → Hash
  /-- first 20 bytes of a hash -/
  hashToMerkle : Hash → MerkleHash
  /-- node whose bytes are all zero -/
  zero : MerkleHash

/-- Position of a leaf in the tree and the siblings on its path, from top to bottom. -/
structure MerkleProof (MerkleHash : Type) where
  treeLeafIdx : Nat
  siblings : List MerkleHash
deriving DecidableEq

structure MerkleTree (MerkleHash : Type) where
  treeLeafStartIdx : Nat
  tree : List MerkleHash

variable {Hash MerkleHash : Type}

def maxDepth : Nat := 15

def parentIdx (idx : Nat) : Option Nat := if idx = 0 then none else some ((idx - 1) / 2)

/-- Index of the other child of the parent. -/
def siblingIdx (idx : Nat) : Option Nat :=
  (parentIdx idx).map fun parent => 2 * parent + (1 + idx % 2)

lemma lt_of_parentIdx {idx parent : Nat} (h : parentIdx idx = some parent) : parent < idx := by
  unfold parentIdx at h
  split at h
  · cases h
  · cases h
    omega

/-- Proof for a leaf from its siblings.  There is none if the tree would be too deep or the
leaf lies outside of it. -/
def newFromLeafIdx (siblings : List MerkleHash) (leafIdx : UInt16) :
    Checked (Option (MerkleProof MerkleHash)) :=
  if maxDepth ≤ siblings.length then .ok none
  else
    let numLeaves := 2 ^ siblings.length
    if ¬ numLeaves < 2 ^ 16 then .ok none
    else if ¬ 2 * numLeaves < 2 ^ 16 then .ok none
    else if 2 * numLeaves < 1 then .ok none
    else do
      let treeLen := 2 * numLeaves - 1
      -- the two operations that are not checked in the source
      let treeLeafStartIdx ← sub treeLen numLeaves
      if numLeaves ≤ leafIdx.toNat then .ok none
      else
        let treeLeafIdx ← add 16 treeLeafStartIdx leafIdx.toNat
        .ok (some ⟨treeLeafIdx, siblings⟩)

def MerkleTree.root (t : MerkleTree MerkleHash) : Checked MerkleHash := index t.tree 0

/-- Siblings on the way from a node up to the root. -/
def siblingsFrom (tree : List MerkleHash) (idx : Nat) : Checked (List MerkleHash) :=
  match siblingIdx idx with
  | none => .ok []
  | some siblingIdx =>
    match _h : parentIdx idx with
    | none => .error .unwrapNone
    | some parent => do
      let sibling ← index tree siblingIdx
      let rest ← siblingsFrom tree parent
      .ok (sibling :: rest)
termination_by idx
decreasing_by exact lt_of_parentIdx ‹_›

def MerkleTree.proof (t : MerkleTree MerkleHash) (leafIdx : UInt16) :
    Checked (MerkleProof MerkleHash) := do
  let treeLeafIdx ← add 16 t.treeLeafStartIdx leafIdx.toNat
  let siblings ← siblingsFrom t.tree treeLeafIdx
  .ok ⟨treeLeafIdx, siblings.reverse⟩

namespace MerkleHasher

variable (h : MerkleHasher Hash MerkleHash)

def node (left right : MerkleHash) : MerkleHash := h.hashToMerkle (h.hashPair left right)

/-- Node hashes determine the children. -/
def CollisionFree : Prop :=
  ∀ left right left' right', h.node left right = h.node left' right' → left = left' ∧ right = right'

/-- Combine a node with its siblings, from bottom to top. -/
def climb : List MerkleHash → Option Nat → MerkleHash → Option MerkleHash
  | [], _, merkleHash => some merkleHash
  | sibling :: siblings, currentIdx, merkleHash =>
    match currentIdx with
    | none => none
    | some idx =>
      climb siblings (parentIdx idx)
        (if idx % 2 = 1 then h.node merkleHash sibling else h.node sibling merkleHash)

def computeRoot (proof : MerkleProof MerkleHash) (leaf : Hash) : Option MerkleHash :=
  h.climb proof.siblings.reverse (some proof.treeLeafIdx) (h.hashToMerkle leaf)

/-- Hash the inner nodes below index `idx`, from the last to the first. -/
def hashNodes : Nat → List MerkleHash → Checked (List MerkleHash)
  | 0, tree => .ok tree
  | idx + 1, tree => do
    let left ← index tree (2 * idx + 1)
    let right ← index tree (2 * idx + 2)
    hashNodes idx (tree.set idx (h.node left right))

def newWithDepth (leaves : List Hash) (depth : Nat) : Checked (MerkleTree MerkleHash) := do
  let height ← sub depth 1
  let numLeaves := 2 ^ height
  let treeLen := 2 * numLeaves - 1
  let treeLeafStartIdx := treeLen - numLeaves
  let leafNodes := (leaves.map h.hashToMerkle).take numLeaves
  let tree ← h.hashNodes treeLeafStartIdx (List.replicate treeLeafStartIdx h.zero ++ leafNodes
      ++ List.replicate (numLeaves - leafNodes.length) h.zero)
  let treeLeafStartIdx ← fits 16 treeLeafStartIdx
  .ok ⟨treeLeafStartIdx, tree⟩

end MerkleHasher

/-! ## The verifier's index -/

/-- A proof is rebuilt exactly if the tree is not too deep and the leaf lies in it. -/
theorem newFromLeafIdx_eq (siblings : List MerkleHash) (leafIdx : UInt16) :
    newFromLeafIdx siblings leafIdx =
      .ok (if siblings.length < maxDepth ∧ leafIdx.toNat < 2 ^ siblings.length then
        some ⟨2 ^ siblings.length - 1 + leafIdx.toNat, siblings⟩ else none) := by
  unfold newFromLeafIdx
  by_cases hdepth : maxDepth ≤ siblings.length
  · rw [if_pos hdepth, if_neg (by omega)]
  · have hlen : siblings.length < 15 := Nat.lt_of_not_le hdepth
    have hpos : 0 < 2 ^ siblings.length := Nat.two_pow_pos _
    have hpow : 2 ^ siblings.length ≤ 2 ^ 14 := Nat.pow_le_pow_right (by decide) (by omega)
    rw [if_neg hdepth]
    simp only [show ¬ ¬ 2 ^ siblings.length < 2 ^ 16 by omega,
      show ¬ ¬ 2 * 2 ^ siblings.length < 2 ^ 16 by omega,
      show ¬ 2 * 2 ^ siblings.length < 1 by omega, if_false]
    rw [sub_of_le (by omega), ok_bind]
    by_cases hleaf : 2 ^ siblings.length ≤ leafIdx.toNat
    · rw [if_pos hleaf, if_neg (by omega)]
    · rw [if_neg hleaf, if_pos ⟨Nat.lt_of_not_le hdepth, by omega⟩, add,
        fits_of_lt (by omega), ok_bind]
      congr 4
      omega

/-! ## Paths in the array -/

lemma parentIdx_succ (idx : Nat) : parentIdx (idx + 1) = some (idx / 2) := by
  simp [parentIdx]

lemma siblingsFrom_zero (tree : List MerkleHash) : siblingsFrom tree 0 = .ok [] := by
  rw [siblingsFrom]
  rfl

lemma siblingsFrom_succ (tree : List MerkleHash) (idx : Nat) : siblingsFrom tree (idx + 1) = (do
      let sibling ← index tree (2 * (idx / 2) + (1 + (idx + 1) % 2))
      let rest ← siblingsFrom tree (idx / 2)
      .ok (sibling :: rest)) := by
  rw [siblingsFrom]
  split
  · next hnone => cases hnone
  · next parent hparent =>
    cases hparent
    rfl

variable {siblings : List MerkleHash}

/-- A path to a node at distance `height` from the root has `height` siblings. -/
lemma length_siblingsFrom {tree : List MerkleHash} {idx : Nat}
    (h : siblingsFrom tree idx = .ok siblings) : siblings.length = Nat.log2 (idx + 1) := by
  induction idx using Nat.strong_induction_on generalizing siblings with
  | h idx ih =>
    cases idx with
    | zero =>
      rw [siblingsFrom_zero] at h
      cases h
      rfl
    | succ idx =>
      rw [siblingsFrom_succ] at h
      obtain ⟨sibling, -, h⟩ := bind_eq_ok.1 h
      obtain ⟨rest, hrest, h⟩ := bind_eq_ok.1 h
      cases h
      have hdiv : (idx + 1 + 1) / 2 = idx / 2 + 1 := by omega
      rw [length_cons, ih (idx / 2) (by omega) hrest, Nat.log2_def (idx + 1 + 1),
        if_pos (by omega), hdiv]

lemma log2_leaf {height i : Nat} (hi : i < 2 ^ height) :
    Nat.log2 (2 ^ height - 1 + i + 1) = height := by
  rw [Nat.log2_eq_iff (by omega)]
  omega

namespace MerkleHasher

variable {h : MerkleHasher Hash MerkleHash}

/-- Every node before `start` is the hash of its children. -/
def Hashed (h : MerkleHasher Hash MerkleHash) (start : Nat) (tree : List MerkleHash) : Prop :=
  ∀ idx < start, ∃ left right, tree[2 * idx + 1]? = some left ∧ tree[2 * idx + 2]? = some right ∧
    tree[idx]? = some (h.node left right)

lemma hashNodes_spec {start n : Nat} (hn : n ≤ start) {tree : List MerkleHash}
    (hlen : tree.length = 2 * start + 1)
    (hdone : ∀ idx, n ≤ idx → idx < start → ∃ left right, tree[2 * idx + 1]? = some left ∧
      tree[2 * idx + 2]? = some right ∧ tree[idx]? = some (h.node left right)) :
    ∃ tree', h.hashNodes n tree = .ok tree' ∧ tree'.length = 2 * start + 1 ∧
      h.Hashed start tree' ∧ ∀ idx, n ≤ idx → tree'[idx]? = tree[idx]? := by
  induction n generalizing tree with
  | zero => exact ⟨tree, rfl, hlen, fun idx hidx => hdone idx (Nat.zero_le _) hidx, fun _ _ => rfl⟩
  | succ n ih =>
    obtain ⟨left, hleft⟩ : ∃ left, tree[2 * n + 1]? = some left :=
      ⟨_, getElem?_eq_getElem (by omega)⟩
    obtain ⟨right, hright⟩ : ∃ right, tree[2 * n + 2]? = some right :=
      ⟨_, getElem?_eq_getElem (by omega)⟩
    -- the entries after `n` are not touched
    have hset : ∀ idx, n < idx → (tree.set n (h.node left right))[idx]? = tree[idx]? :=
      fun idx hidx => getElem?_set_ne (by omega)
    have hstep : ∀ idx, n ≤ idx → idx < start → ∃ left' right',
        (tree.set n (h.node left right))[2 * idx + 1]? = some left' ∧
        (tree.set n (h.node left right))[2 * idx + 2]? = some right' ∧
        (tree.set n (h.node left right))[idx]? = some (h.node left' right') := by
      intro idx hle hlt
      rw [hset _ (by omega), hset _ (by omega)]
      rcases eq_or_lt_of_le hle with rfl | hgt
      · exact ⟨left, right, hleft, hright, getElem?_set_self (by omega)⟩
      · rw [hset _ hgt]
        exact hdone idx hgt hlt
    obtain ⟨tree', hrun, hlen', hhashed, hkeep⟩ := ih (by omega) (by simpa using hlen) hstep
    refine ⟨tree', ?_, hlen', hhashed, fun idx hidx => ?_⟩
    · rw [hashNodes, index_of_getElem? hleft, ok_bind, index_of_getElem? hright, ok_bind]
      exact hrun
    · rw [hkeep idx (by omega), hset idx hidx]

variable {leaves : List Hash}

/-- The tree that is built has its leaves in place, and its inner nodes are the hashes of
their children. -/
theorem newWithDepth_spec {depth : Nat} (hpos : 1 ≤ depth)
    (hmax : depth ≤ maxDepth) (hleaves : leaves.length ≤ 2 ^ (depth - 1)) :
    ∃ tree, h.newWithDepth leaves depth = .ok ⟨2 ^ (depth - 1) - 1, tree⟩ ∧
      tree.length = 2 * (2 ^ (depth - 1) - 1) + 1 ∧ h.Hashed (2 ^ (depth - 1) - 1) tree ∧
      ∀ i leaf, leaves[i]? = some leaf →
        tree[2 ^ (depth - 1) - 1 + i]? = some (h.hashToMerkle leaf) := by
  have hpow : 0 < 2 ^ (depth - 1) := Nat.two_pow_pos _
  have hsmall : 2 ^ (depth - 1) ≤ 2 ^ 14 :=
    Nat.pow_le_pow_right (by decide) (by unfold maxDepth at hmax; omega)
  have hstart : 2 * 2 ^ (depth - 1) - 1 - 2 ^ (depth - 1) = 2 ^ (depth - 1) - 1 := by omega
  have htake : (leaves.map h.hashToMerkle).take (2 ^ (depth - 1)) = leaves.map h.hashToMerkle :=
    take_of_length_le (by simpa using hleaves)
  obtain ⟨tree, hrun, hlen, hhashed, hkeep⟩ := @hashNodes_spec _ _ h _ _ (le_refl (2 ^ (depth - 1) - 1))
    (replicate (2 ^ (depth - 1) - 1) h.zero ++ leaves.map h.hashToMerkle
      ++ replicate (2 ^ (depth - 1) - (leaves.map h.hashToMerkle).length) h.zero)
    (by simp only [length_append, length_replicate, length_map]; omega)
    (fun idx hle hlt => absurd hlt (by omega))
  refine ⟨tree, ?_, hlen, hhashed, fun i leaf hleaf => ?_⟩
  · unfold newWithDepth
    rw [sub_of_le hpos, ok_bind]
    simp only [hstart, htake]
    rw [hrun, ok_bind, fits_of_lt (by omega)]
    rfl
  · rw [hkeep _ (by omega), append_assoc, getElem?_append_right (by simp),
      length_replicate, Nat.add_sub_cancel_left, getElem?_append_left, getElem?_map,
      hleaf, map_some]
    simpa using (List.getElem?_eq_some_iff.1 hleaf).1

/-- A node and its siblings give the root. -/
theorem climb_siblingsFrom {start : Nat} {tree : List MerkleHash}
    (hlen : tree.length = 2 * start + 1) (hhashed : h.Hashed start tree) {idx : Nat}
    {merkleHash : MerkleHash} (hnode : tree[idx]? = some merkleHash) :
    ∃ siblings, siblingsFrom tree idx = .ok siblings ∧
      h.climb siblings (some idx) merkleHash = tree[0]? := by
  induction idx using Nat.strong_induction_on generalizing merkleHash with
  | h idx ih =>
    cases idx with
    | zero => exact ⟨[], siblingsFrom_zero tree, hnode.symm⟩
    | succ idx =>
      have hlt : idx + 1 < tree.length := (List.getElem?_eq_some_iff.1 hnode).1
      obtain ⟨left, right, hleft, hright, hparent⟩ := hhashed (idx / 2) (by omega)
      obtain ⟨siblings, hsiblings, hclimb⟩ := ih (idx / 2) (by omega) hparent
      rw [siblingsFrom_succ, hsiblings]
      rcases Nat.mod_two_eq_zero_or_one idx with heven | hodd
      · -- a left child, its sibling is the right one
        have hself : 2 * (idx / 2) + 1 = idx + 1 := by omega
        have hother : 2 * (idx / 2) + (1 + (idx + 1) % 2) = 2 * (idx / 2) + 2 := by omega
        rw [hself, hnode, some.injEq] at hleft
        refine ⟨right :: siblings, ?_, ?_⟩
        · rw [hother, index_of_getElem? hright]
          rfl
        · rw [climb, parentIdx_succ, if_pos (by omega), hleft]
          exact hclimb
      · have hself : 2 * (idx / 2) + 2 = idx + 1 := by omega
        have hother : 2 * (idx / 2) + (1 + (idx + 1) % 2) = 2 * (idx / 2) + 1 := by omega
        rw [hself, hnode, some.injEq] at hright
        refine ⟨left :: siblings, ?_, ?_⟩
        · rw [hother, index_of_getElem? hleft]
          rfl
        · rw [climb, parentIdx_succ, if_neg (by omega), hright]
          exact hclimb

/-- The proof of a leaf is rebuilt from its siblings and leads to the root. -/
lemma proof_complete {depth : Nat} (hpos : 1 ≤ depth)
    (hmax : depth ≤ maxDepth) (hleaves : leaves.length ≤ 2 ^ (depth - 1)) :
    ∃ tree root, h.newWithDepth leaves depth = .ok tree ∧ tree.root = .ok root ∧
      ∀ (i : UInt16) leaf, leaves[i.toNat]? = some leaf →
        ∃ proof, tree.proof i = .ok proof ∧ newFromLeafIdx proof.siblings i = .ok (some proof) ∧
          h.computeRoot proof leaf = some root := by
  obtain ⟨tree, htree, hlen, hhashed, hleaf⟩ := h.newWithDepth_spec hpos hmax hleaves
  obtain ⟨root, hroot⟩ : ∃ root, tree[0]? = some root :=
    ⟨_, getElem?_eq_getElem (by omega)⟩
  refine ⟨_, root, htree, index_of_getElem? hroot, fun i leaf hi => ?_⟩
  have hlt : i.toNat < 2 ^ (depth - 1) :=
    lt_of_lt_of_le (List.getElem?_eq_some_iff.1 hi).1 hleaves
  have hsmall : 2 ^ (depth - 1) ≤ 2 ^ 14 :=
    Nat.pow_le_pow_right (by decide) (by unfold maxDepth at hmax; omega)
  obtain ⟨siblings, hsiblings, hclimb⟩ := climb_siblingsFrom hlen hhashed (hleaf _ _ hi)
  have hheight : siblings.length = depth - 1 := by
    rw [length_siblingsFrom hsiblings, log2_leaf hlt]
  refine ⟨⟨2 ^ (depth - 1) - 1 + i.toNat, siblings.reverse⟩, ?_, ?_, ?_⟩
  · unfold MerkleTree.proof
    rw [add, fits_of_lt (by dsimp only; omega), ok_bind, hsiblings]
    rfl
  · rw [newFromLeafIdx_eq]
    rw [length_reverse, hheight, if_pos ⟨by omega, hlt⟩]
  · rw [computeRoot, reverse_reverse, hclimb, hroot]

/-! ## Binding -/

section

variable (hfree : h.CollisionFree) {siblings' : List MerkleHash}
  (hlen : siblings.length = siblings'.length)
include hfree hlen

/-- On one path, a root fixes the node and the siblings. -/
theorem climb_injective {idx : Option Nat} {merkleHash merkleHash' root : MerkleHash}
    (hclimb : h.climb siblings idx merkleHash = some root)
    (hclimb' : h.climb siblings' idx merkleHash' = some root) :
    merkleHash = merkleHash' ∧ siblings = siblings' := by
  induction siblings generalizing siblings' idx merkleHash merkleHash' with
  | nil =>
    obtain rfl : siblings' = [] := length_eq_zero_iff.1 hlen.symm
    exact ⟨some.inj (hclimb.trans hclimb'.symm), rfl⟩
  | cons sibling siblings ih =>
    cases siblings' with
    | nil => simp at hlen
    | cons sibling' siblings' =>
      cases idx with
      | none => cases hclimb
      | some idx =>
        obtain ⟨hparent, rfl⟩ := ih (by simpa using hlen) hclimb hclimb'
        split at hparent
        · obtain ⟨rfl, rfl⟩ := hfree _ _ _ _ hparent
          exact ⟨rfl, rfl⟩
        · obtain ⟨rfl, rfl⟩ := hfree _ _ _ _ hparent
          exact ⟨rfl, rfl⟩

lemma computeRoot_injective {leafIdx : UInt16}
    {proof proof' : MerkleProof MerkleHash} (hproof : newFromLeafIdx siblings leafIdx = .ok (some proof))
    (hproof' : newFromLeafIdx siblings' leafIdx = .ok (some proof')) {leaf leaf' : Hash}
    {root : MerkleHash} (hroot : h.computeRoot proof leaf = some root)
    (hroot' : h.computeRoot proof' leaf' = some root) :
    h.hashToMerkle leaf = h.hashToMerkle leaf' ∧ siblings = siblings' := by
  rw [newFromLeafIdx_eq, Except.ok.injEq, ite_none_right_eq_some, some.injEq] at hproof hproof'
  obtain ⟨-, rfl⟩ := hproof
  obtain ⟨-, rfl⟩ := hproof'
  rw [hlen] at hroot
  obtain ⟨hleaf, hsiblings⟩ := climb_injective hfree (by simpa using hlen) hroot hroot'
  exact ⟨hleaf, reverse_inj.1 hsiblings⟩

end

/-- Proofs of a tree are accepted; a root fixes the leaf hash and the siblings on a path if
node hashes do not collide; and no list of siblings and no index makes the verifier fault. -/
theorem proof_complete_and_binding (h : MerkleHasher Hash MerkleHash) :
    (∀ (leaves : List Hash) (depth : Nat), 1 ≤ depth → depth ≤ maxDepth →
      leaves.length ≤ 2 ^ (depth - 1) →
      ∃ tree root, h.newWithDepth leaves depth = .ok tree ∧ tree.root = .ok root ∧
        ∀ (i : UInt16) leaf, leaves[i.toNat]? = some leaf →
          ∃ proof, tree.proof i = .ok proof ∧ newFromLeafIdx proof.siblings i = .ok (some proof) ∧
            h.computeRoot proof leaf = some root) ∧
    (h.CollisionFree → ∀ (siblings siblings' : List MerkleHash) (leafIdx : UInt16)
      (proof proof' : MerkleProof MerkleHash) (leaf leaf' : Hash) (root : MerkleHash),
      siblings.length = siblings'.length →
      newFromLeafIdx siblings leafIdx = .ok (some proof) →
      newFromLeafIdx siblings' leafIdx = .ok (some proof') →
      h.computeRoot proof leaf = some root → h.computeRoot proof' leaf' = some root →
      h.hashToMerkle leaf = h.hashToMerkle leaf' ∧ siblings = siblings') ∧
    (∀ (siblings : List MerkleHash) (leafIdx : UInt16),
      ∃ result, newFromLeafIdx siblings leafIdx = .ok result) := by
  refine ⟨fun leaves depth hpos hmax hleaves => proof_complete hpos hmax hleaves, ?_, ?_⟩
  · intro hfree siblings siblings' leafIdx proof proof' leaf leaf' root hlen hproof hproof'
    exact computeRoot_injective hfree hlen hproof hproof'
  · intro siblings leafIdx
    exact ⟨_, newFromLeafIdx_eq siblings leafIdx⟩

end MerkleHasher

/-- A hash that records what was hashed. -/
inductive IdealHash (α : Type) where
  | zero
  | leaf (a : α)
  | pair (left right : IdealHash α)
deriving DecidableEq

/-- The ideal hash function needs no truncation. -/
def idealHasher (α : Type) : MerkleHasher (IdealHash α) (IdealHash α) where
  hashPair := .pair
  hashToMerkle := id
  zero := .zero

lemma collisionFree_idealHasher (α : Type) : (idealHasher α).CollisionFree := by
  intro left right left' right' heq
  exact IdealHash.pair.inj heq

/-- The third of three leaves has a proof, and its path leads to the root from no other leaf. -/
theorem proof_complete_and_binding_three :
    ∃ tree root proof, (idealHasher Nat).newWithDepth [.leaf 5, .leaf 6, .leaf 7] 3 = .ok tree ∧
      tree.root = .ok root ∧ tree.proof 2 = .ok proof ∧
      (idealHasher Nat).computeRoot proof (.leaf 7) = some root ∧
      ∀ siblings proof' leaf, siblings.length = proof.siblings.length →
        newFromLeafIdx siblings 2 = .ok (some proof') →
        (idealHasher Nat).computeRoot proof' leaf = some root →
        leaf = .leaf 7 ∧ siblings = proof.siblings := by
  obtain ⟨hcomplete, hbinding, -⟩ := (idealHasher Nat).proof_complete_and_binding
  obtain ⟨tree, root, htree, hroot, hproofs⟩ := hcomplete [.leaf 5, .leaf 6, .leaf 7] 3
    (by decide) (by decide) (by decide)
  obtain ⟨proof, hproof, hindex, hcomputed⟩ := hproofs 2 (.leaf 7) rfl
  refine ⟨tree, root, proof, htree, hroot, hproof, hcomputed, ?_⟩
  intro siblings proof' leaf hlen hindex' hcomputed'
  exact hbinding (collisionFree_idealHasher Nat) _ _ 2 _ _ _ _ root hlen hindex' hindex hcomputed'
    hcomputed

end Kinet.Merkle
