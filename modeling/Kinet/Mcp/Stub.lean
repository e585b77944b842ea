import Kinet.Mcp.Chorus

/-!
# Stub environment

The environment that the crate is built with: signatures name their key and what they
sign, and a collection maps positions in the sorted validator set to signatures.
-/

namespace Kinet

open FiniteMap Finset

namespace Mcp

namespace Stub

/-- A signature that names its key and its data. -/
structure Signature where
  by_ : Nat
  data : List Nat
  malformed : Bool
deriving DecidableEq

/-- Types of the stub environment; collections are listed by position. -/
abbrev types : Types where
  NodeId := Nat
  Signature := Signature
  SignatureCollection := List (Nat × Signature)
  MerkleRoot := Nat
  ProposalSignature := Unit
  OpaqueChunkHeader := Unit

def encodeEntry : Entry types → Nat
  | .negative => 0
  | .positive root => root + 1

/-- The bytes that are signed. -/
def encode : VoteData types → List Nat
  | .entry slot j vote => [0, slot, j, encodeEntry vote]
  | .fallbackEntry slot j vote => [1, slot, j, encodeEntry vote.entry]
  | .fastCommit slot vote => 2 :: slot :: vote.entries.map encodeEntry
  | .enterFallback slot _ => [3, slot]

namespace Signature

/-- A signature that is no bad point. -/
def isWellFormed (sig : Signature) : Bool := !sig.malformed

def verify (sig : Signature) (data : VoteData types) (pubkey : Nat) : Bool :=
  sig.isWellFormed && sig.by_ == pubkey && sig.data == encode data

end Signature

def sign (key : Nat) (data : VoteData types) : Signature := ⟨key, encode data, false⟩

def sorted (v : ValidatorData types) : List Nat := v.valset.sortedPairs.map Prod.fst

/-- Whether the signature of a node is valid under its key. -/
def isValid (mapping : FiniteMap Nat Nat) (data : VoteData types) (node : Nat)
    (sig : Signature) : Bool :=
  (mapping.lookup node).any fun pubkey => sig.verify data pubkey

def verify (v : ValidatorData types) (mapping : FiniteMap Nat Nat) :
    List (Nat × Signature) → VoteData types → Option (Finset Nat)
  | [], _ => some ∅
  | (index, sig) :: rest, data =>
    match (sorted v)[index]? with
    | none => none
    | some node =>
      if !isValid mapping data node sig then none
      else (verify v mapping rest data).map (insert node)

def aggregate (nodes : List Nat) (index : Nat) (votes : FiniteMap Nat Signature) :
    List (Nat × Signature) :=
  match nodes with
  | [] => []
  | node :: rest =>
    match votes.lookup node with
    | some sig => (index, sig) :: aggregate rest (index + 1) votes
    | none => aggregate rest (index + 1) votes

variable (v : ValidatorData types) (mapping : FiniteMap Nat Nat)

/-- Exclude bad signatures, and aggregate the others if their stake is above the
target. -/
def tryAggregate (data : VoteData types)
    (votes : FiniteMap Nat Signature) (targetStake : Nat) : Option (List (Nat × Signature)) :=
  let valid := votes.retain (isValid mapping data)
  if ∑ node ∈ valid.keys.toFinset, v.stakeOf node ≤ targetStake then none
  else some (aggregate (sorted v) 0 valid)

/-- The stub environment of a validator set. -/
def scheme : VoteScheme types where
  validatorData := v
  isWellFormed := Signature.isWellFormed
  verify := verify v mapping
  tryAggregate := tryAggregate v mapping

/-! ## The promises of the interface -/

variable {v} {mapping}

lemma mem_sorted {node : Nat} : node ∈ sorted v ↔ node ∈ v.nodes := by
  rw [ValidatorData.mem_nodes, mem_iff_lookup, sorted, List.mem_map]
  constructor
  · rintro ⟨⟨node', stake⟩, hmem, rfl⟩
    exact ⟨stake, mem_sortedPairs.mp hmem⟩
  · rintro ⟨stake, hlookup⟩
    exact ⟨(node, stake), mem_sortedPairs.mpr hlookup, rfl⟩

variable {data : VoteData types}

lemma verify_subset {sigcol : List (Nat × Signature)}
    {signers : Finset Nat} (h : verify v mapping sigcol data = some signers) :
    signers ⊆ v.nodes := by
  induction sigcol generalizing signers with
  | nil =>
    cases h
    exact empty_subset _
  | cons entry rest ih =>
    rw [verify] at h
    split at h
    · cases h
    next node hnode =>
      split at h
      · cases h
      · obtain ⟨signers', hrest, rfl⟩ := Option.map_eq_some_iff.mp h
        intro node' hnode'
        rcases mem_insert.mp hnode' with rfl | hmem
        · exact mem_sorted.mp (List.mem_of_getElem? hnode)
        · exact ih hrest hmem

/-- The collection of valid signatures verifies, and its signers are the voters. -/
lemma verify_aggregate {votes : FiniteMap Nat Signature}
    (hvalid : ∀ node sig, votes.lookup node = some sig → isValid mapping data node sig = true)
    {before nodes : List Nat} (hnodes : sorted v = before ++ nodes) :
    verify v mapping (aggregate nodes before.length votes) data =
      some (nodes.toFinset.filter fun node => node ∈ votes) := by
  induction nodes generalizing before with
  | nil => rfl
  | cons node rest ih =>
    have hrest : sorted v = (before ++ [node]) ++ rest := by
      rw [hnodes, List.append_assoc, List.singleton_append]
    have hlen : before.length + 1 = (before ++ [node]).length := by simp
    have ih := ih hrest
    rw [← hlen] at ih
    rw [aggregate]
    split
    · next sig hsig =>
      have hindex : (sorted v)[before.length]? = some node := by
        rw [hnodes]
        simp
      have hmem : node ∈ votes := mem_iff_lookup.mpr ⟨sig, hsig⟩
      rw [verify, hindex]
      simp [hvalid node sig hsig, ih, filter_insert, hmem]
    · next hnone =>
      have hout : node ∉ votes := AList.lookup_eq_none.mp hnone
      rw [ih]
      simp [filter_insert, hout]

/-- The stub keeps the promises of the interface. -/
theorem lawful (v : ValidatorData types) (mapping : FiniteMap Nat Nat) :
    (scheme v mapping).Lawful := by
  refine ⟨fun _ _ _ h => verify_subset h, fun data votes target sigcol h => ?_⟩
  change tryAggregate v mapping data votes target = some sigcol at h
  unfold tryAggregate at h
  simp only at h
  split at h
  · cases h
  next hstake =>
    cases h
    have hvalid : ∀ node sig, (votes.retain (isValid mapping data)).lookup node = some sig →
        isValid mapping data node sig = true := by
      intro node sig hlookup
      rw [lookup_retain, Option.filter_eq_some_iff] at hlookup
      exact hlookup.2
    have hverify := verify_aggregate hvalid (v := v) (List.nil_append _).symm
    refine ⟨_, hverify, fun node hnode => ?_, ?_⟩
    · obtain ⟨sig, hsig⟩ := mem_iff_lookup.mp (mem_filter.mp hnode).2
      rw [lookup_retain, Option.filter_eq_some_iff] at hsig
      exact mem_iff_lookup.mpr ⟨sig, hsig.1⟩
    · -- voters that are no validators have no stake
      refine Nat.lt_of_lt_of_le (Nat.lt_of_not_le hstake) ?_
      rw [← sum_filter_add_sum_filter_not _ fun node => node ∈ v.nodes]
      have hzero : ∑ node ∈ (votes.retain (isValid mapping data)).keys.toFinset.filter
          (fun node => node ∉ v.nodes), v.stakeOf node = 0 := by
        apply sum_eq_zero
        intro node hnode
        exact ValidatorData.stakeOf_eq_zero (mem_filter.mp hnode).2
      rw [hzero, add_zero]
      apply sum_le_sum_of_subset
      intro node hnode
      rw [mem_filter, List.mem_toFinset] at hnode
      rw [mem_filter, List.mem_toFinset]
      exact ⟨mem_sorted.mpr hnode.2, AList.mem_keys.mpr hnode.1⟩

/-! ## Four nodes -/

def fourNodes : ValidatorData types where
  valset := ((((∅ : FiniteMap Nat Nat).insert 3 1).insert 2 1).insert 1 1).insert 0 1
  nonempty := by decide
  stake_pos := by
    intro node stake h
    simp only [lookup_insert_eq_ite, AList.lookup_empty] at h
    grind
  total_lt := by decide

/-- Every node's key is its id. -/
def fourKeys : FiniteMap Nat Nat :=
  ((((∅ : FiniteMap Nat Nat).insert 3 3).insert 2 2).insert 1 1).insert 0 0

def fourScheme : VoteScheme types := scheme fourNodes fourKeys

def context (node : Nat) : ChorusContext types where
  scheme := fourScheme
  sign := sign node
  bucketOrder := fun l => l
  bucketOrder_perm := fun l => List.Perm.refl l

/-- Slots with one proposal. -/
def config : ChorusConfig := ⟨1, 1⟩

def collect (signers : List Nat) (data : VoteData types) : List (Nat × Signature) :=
  signers.map fun node => (node, sign node data)

end Stub

end Mcp

end Kinet
