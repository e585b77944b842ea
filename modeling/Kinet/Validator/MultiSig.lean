import Kinet.ConsensusTypes.Mock
import Kinet.Validator.SignatureCollection

/-!
# Multi-signatures

The signature collection of the repository's tests: a list of `NopSignature`s, one
for each signer.
-/

namespace Kinet

open FiniteMap List

/-- Encoding of a block id; the header fields that tell mock blocks apart. -/
def BlockId.encode : BlockId mockTypes → List Nat
  | .genesis => [0]
  | .hash blockRound _ qcId qcRound _ _ _ seqNum timestampNs _ _ _ blockBodyId _ _ _ =>
    1 :: blockRound :: qcRound :: seqNum :: timestampNs :: (blockBodyId ++ qcId.encode)

/-- The bytes that are signed, with the prefix of their signing domain. -/
def SignedMessage.encode : SignedMessage mockTypes → List Nat
  | .vote v => 0 :: v.round :: v.epoch :: v.id.encode
  | .timeout t => [1, t.epoch, t.round, t.highQcRound, t.highTipRound]
  | .noEndorsement m => [2, m.epoch, m.round, m.tipQcRound]

namespace NopSignature

def sign (pubkey : Nat) (msg : SignedMessage mockTypes) : NopSignature := ⟨pubkey, msg.encode⟩

variable (sig : NopSignature) (msg : SignedMessage mockTypes)

def verify (pubkey : Nat) : Bool :=
  sig.pubkey == pubkey && sig.id == msg.encode

/-- The key a signature was made with. -/
def recoverPubkey : Option Nat :=
  if sig.id = msg.encode then some sig.pubkey else none

end NopSignature

namespace MultiSig

/-- Sort the signatures into valid, external and invalid ones. -/
def sortSigs (mapping : ValidatorMapping mockTypes) (msg : SignedMessage mockTypes) :
    List (Nat × NopSignature) → FiniteMap Nat NopSignature → List (Nat × NopSignature) →
      List (Nat × NopSignature) → Except (SignatureCollectionError mockTypes)
        (FiniteMap Nat NopSignature × List (Nat × NopSignature) × List (Nat × NopSignature))
  | [], sigMap, externalSigs, invalidSigs => .ok (sigMap, externalSigs, invalidSigs)
  | (nodeId, sig) :: sigs, sigMap, externalSigs, invalidSigs =>
    match mapping.lookup nodeId with
    | none => sortSigs mapping msg sigs sigMap (externalSigs ++ [(nodeId, sig)]) invalidSigs
    | some pubkey =>
      match sig.recoverPubkey msg with
      | none => sortSigs mapping msg sigs sigMap externalSigs (invalidSigs ++ [(nodeId, sig)])
      | some recovered =>
        if recovered ≠ pubkey then
          sortSigs mapping msg sigs sigMap externalSigs (invalidSigs ++ [(nodeId, sig)])
        else if !sig.verify msg pubkey then
          sortSigs mapping msg sigs sigMap externalSigs (invalidSigs ++ [(nodeId, sig)])
        else
          match sigMap.lookup nodeId with
          | none => sortSigs mapping msg sigs (sigMap.insert nodeId sig) externalSigs invalidSigs
          | some entry =>
            if entry ≠ sig then .error (.conflictingSignatures nodeId entry sig)
            else sortSigs mapping msg sigs sigMap externalSigs invalidSigs

def new (sigs : List (Nat × NopSignature)) (mapping : ValidatorMapping mockTypes)
    (msg : SignedMessage mockTypes) :
    Except (SignatureCollectionError mockTypes) (List NopSignature) := do
  let (sigMap, externalSigs, invalidSigs) ← sortSigs mapping msg sigs ∅ [] []
  if externalSigs ≠ [] then .error (.nodeIdNotInMapping externalSigs)
  else if invalidSigs ≠ [] then .error (.invalidSignaturesCreate invalidSigs)
  else .ok (sigMap.sortedPairs.map Prod.snd)

/-- The keys whose signatures verify, and the signatures that do not. -/
def recoverAll (msg : SignedMessage mockTypes) :
    List NopSignature → FiniteMap Nat NopSignature → List NopSignature →
      FiniteMap Nat NopSignature × List NopSignature
  | [], verified, invalidSigs => (verified, invalidSigs)
  | sig :: sigs, verified, invalidSigs =>
    match sig.recoverPubkey msg with
    | none => recoverAll msg sigs verified (invalidSigs ++ [sig])
    | some pubkey =>
      if !sig.verify msg pubkey then recoverAll msg sigs verified (invalidSigs ++ [sig])
      else recoverAll msg sigs (verified.insert pubkey sig) invalidSigs

/-- The validators among the recovered keys; each key counts once. -/
def matchNodes : List (Nat × Nat) → FiniteMap Nat NopSignature → List Nat →
    List Nat × FiniteMap Nat NopSignature
  | [], verified, nodeIds => (nodeIds, verified)
  | (nodeId, pubkey) :: rest, verified, nodeIds =>
    if pubkey ∈ verified then matchNodes rest (verified.erase pubkey) (nodeIds ++ [nodeId])
    else matchNodes rest verified nodeIds

def verify (sct : List NopSignature) (mapping : ValidatorMapping mockTypes)
    (msg : SignedMessage mockTypes) :
    Except (SignatureCollectionError mockTypes) (List Nat) :=
  let (verified, invalidSigs) := recoverAll msg sct ∅ []
  let (nodeIds, rest) := matchNodes mapping.sortedPairs verified []
  if invalidSigs ≠ [] ∨ rest.keys ≠ [] then .error .invalidSignaturesVerify else .ok nodeIds

end MultiSig

/-- Collections of `NopSignature`s. -/
def multiSig : SignatureScheme mockTypes where
  validateSig := fun _ => true
  verifySig := fun pubkey msg sig => sig.verify msg pubkey
  new := MultiSig.new
  verify := MultiSig.verify
  numSignatures := List.length
  genesisSignatures := []
  signatureAuthor := fun sig header => if sig.id = header.getId.encode then some sig.pubkey else none

variable {mapping : ValidatorMapping mockTypes}

namespace MultiSig

variable {msg : SignedMessage mockTypes}

lemma isValid_iff {p : Nat × NopSignature} : multiSig.isValid mapping msg p = true ↔
      mapping.lookup p.1 = some p.2.pubkey ∧ p.2.id = msg.encode := by
  unfold SignatureScheme.isValid
  cases mapping.lookup p.1 with
  | none => simp
  | some key =>
    change (p.2.pubkey == key && p.2.id == msg.encode) = true ↔ _
    rw [Bool.and_eq_true, beq_iff_eq, beq_iff_eq, Option.some.injEq, eq_comm]

section

variable (mapping : ValidatorMapping mockTypes) (msg : SignedMessage mockTypes)
  {sigs : List (Nat × NopSignature)} (sigMap : FiniteMap Nat NopSignature)
  (externalSigs invalidSigs : List (Nat × NopSignature))

/-- A signature of a node that is not yet in the map is sorted by its validity. -/
lemma sortSigs_cons {n : Nat} {sig : NopSignature} (hfresh : sigMap.lookup n = none) :
    sortSigs mapping msg ((n, sig) :: sigs) sigMap externalSigs invalidSigs = if n ∈ mapping then
        if multiSig.isValid mapping msg (n, sig) then
          sortSigs mapping msg sigs (sigMap.insert n sig) externalSigs invalidSigs
        else sortSigs mapping msg sigs sigMap externalSigs (invalidSigs ++ [(n, sig)])
      else sortSigs mapping msg sigs sigMap (externalSigs ++ [(n, sig)]) invalidSigs := by
  rw [sortSigs]
  cases hlookup : mapping.lookup n with
  | none => simp [AList.lookup_eq_none.mp hlookup]
  | some pubkey =>
    have hin : n ∈ mapping := mem_iff_lookup.mpr ⟨_, hlookup⟩
    by_cases hid : sig.id = msg.encode
    · by_cases hkey : sig.pubkey = pubkey
      · simp [NopSignature.recoverPubkey, NopSignature.verify, isValid_iff, *]
      · simp [NopSignature.recoverPubkey, isValid_iff, Ne.symm hkey, *]
    · simp [NopSignature.recoverPubkey, isValid_iff, *]

/-- Sorting the signatures of distinct nodes separates them by validity. -/
lemma sortSigs_spec (hnodup : (sigs.map Prod.fst).Nodup)
    (hfresh : ∀ p ∈ sigs, sigMap.lookup p.1 = none) :
    ∃ sigMap', sortSigs mapping msg sigs sigMap externalSigs invalidSigs =
        .ok (sigMap', externalSigs ++ sigs.filter (fun p => decide (p.1 ∉ mapping)),
          invalidSigs ++ sigs.filter (fun p =>
            decide (p.1 ∈ mapping) && !multiSig.isValid mapping msg p)) ∧
      ∀ n s, sigMap'.lookup n = some s ↔ sigMap.lookup n = some s ∨
        (n, s) ∈ sigs ∧ multiSig.isValid mapping msg (n, s) = true := by
  induction sigs generalizing sigMap externalSigs invalidSigs with
  | nil => exact ⟨sigMap, by simp [sortSigs], by simp⟩
  | cons p sigs ih =>
    obtain ⟨n, sig⟩ := p
    rw [map_cons, nodup_cons] at hnodup
    rw [forall_mem_cons] at hfresh
    have hcons : ∀ m s, ((m, s) ∈ (n, sig) :: sigs ∧ multiSig.isValid mapping msg (m, s) = true) ↔
        (m = n ∧ s = sig) ∧ multiSig.isValid mapping msg (n, sig) = true ∨
          (m, s) ∈ sigs ∧ multiSig.isValid mapping msg (m, s) = true := by
      intro m s
      rw [mem_cons, or_and_right, Prod.mk.injEq]
      refine or_congr_left (and_congr_right ?_)
      rintro ⟨rfl, rfl⟩
      rfl
    simp only [sortSigs_cons _ _ _ _ _ hfresh.1, hcons]
    split_ifs with hin hvalid
    · have hrest : ∀ p ∈ sigs, (sigMap.insert n sig).lookup p.1 = none := by
        intro p hp
        rw [lookup_insert_eq_ite, if_neg, hfresh.2 p hp]
        exact fun heq => hnodup.1 (mem_map.mpr ⟨p, hp, heq⟩)
      obtain ⟨sigMap', hok, hmap⟩ := ih _ externalSigs invalidSigs hnodup.2 hrest
      refine ⟨sigMap', by simp [hok, hvalid, hin], fun m s => ?_⟩
      rw [hmap, lookup_insert_eq_ite]
      by_cases hmn : m = n
      · subst hmn
        have hnone : sigMap.lookup m = none := hfresh.1
        simp [hnone, hvalid, eq_comm (a := sig)]
      · simp [hmn]
    · obtain ⟨sigMap', hok, hmap⟩ := ih _ externalSigs (invalidSigs ++ [(n, sig)]) hnodup.2 hfresh.2
      exact ⟨sigMap', by simp [hok, hvalid, hin], by simpa [hvalid] using hmap⟩
    · have hinvalid : multiSig.isValid mapping msg (n, sig) = false := by
        simp [SignatureScheme.isValid, AList.lookup_eq_none.mpr hin]
      obtain ⟨sigMap', hok, hmap⟩ := ih _ (externalSigs ++ [(n, sig)]) invalidSigs hnodup.2 hfresh.2
      exact ⟨sigMap', by simp [hok, hin], by simpa [hinvalid] using hmap⟩

end

lemma recoverAll_spec (msg : SignedMessage mockTypes) (sct : List NopSignature)
    (verified : FiniteMap Nat NopSignature) (hvalid : ∀ s ∈ sct, s.id = msg.encode) :
    ∃ verified', recoverAll msg sct verified [] = (verified', []) ∧
      ∀ k, k ∈ verified' ↔ k ∈ verified ∨ ∃ s ∈ sct, s.pubkey = k := by
  induction sct generalizing verified with
  | nil => exact ⟨verified, rfl, by simp⟩
  | cons s sct ih =>
    have hid := hvalid s mem_cons_self
    obtain ⟨verified', hrec, hmem⟩ := ih (verified.insert s.pubkey s)
      fun s' hs' => hvalid s' (mem_cons_of_mem _ hs')
    refine ⟨verified', ?_, ?_⟩
    · simp [recoverAll, NopSignature.recoverPubkey, NopSignature.verify, hid, hrec]
    · intro k
      rw [hmem, AList.mem_insert, exists_mem_cons_iff]
      tauto

/-- With distinct keys, every recovered key is matched with its node. -/
lemma matchNodes_spec (pairs : List (Nat × Nat)) (verified : FiniteMap Nat NopSignature)
    (nodeIds : List Nat) (hkeys : (pairs.map Prod.snd).Nodup) :
    ∃ rest, matchNodes pairs verified nodeIds =
        (nodeIds ++ (pairs.filter fun p => decide (p.2 ∈ verified)).map Prod.fst, rest) ∧
      ∀ k, k ∈ rest ↔ k ∈ verified ∧ k ∉ pairs.map Prod.snd := by
  induction pairs generalizing verified nodeIds with
  | nil => exact ⟨verified, by simp [matchNodes], by simp⟩
  | cons p pairs ih =>
    obtain ⟨n, k⟩ := p
    rw [map_cons, nodup_cons] at hkeys
    by_cases hk : k ∈ verified
    · obtain ⟨rest, hmatch, hrest⟩ := ih (verified.erase k) (nodeIds ++ [n]) hkeys.2
      have hfilter : pairs.filter (fun p => decide (p.2 ∈ verified.erase k)) =
          pairs.filter (fun p => decide (p.2 ∈ verified)) := by
        apply filter_congr
        intro q hq
        have hne : q.2 ≠ k := by
          rintro rfl
          exact hkeys.1 (mem_map.mpr ⟨_, hq, rfl⟩)
        simp [AList.mem_erase, hne]
      rw [hfilter] at hmatch
      refine ⟨rest, ?_, ?_⟩
      · simp [matchNodes, hk, hmatch]
      · intro j
        rw [hrest, AList.mem_erase, map_cons, mem_cons]
        tauto
    · obtain ⟨rest, hmatch, hrest⟩ := ih verified nodeIds hkeys.2
      refine ⟨rest, ?_, ?_⟩
      · simp [matchNodes, hk, hmatch]
      · intro j
        rw [hrest, map_cons, mem_cons]
        constructor
        · rintro ⟨hj, hnot⟩
          refine ⟨hj, ?_⟩
          rintro (rfl | hmem)
          · exact hk hj
          · exact hnot hmem
        · rintro ⟨hj, hnot⟩
          exact ⟨hj, fun hmem => hnot (.inr hmem)⟩

/-- The three outcomes of building a collection from the signatures of distinct
nodes. -/
theorem new_cases (mapping : ValidatorMapping mockTypes) (msg : SignedMessage mockTypes)
    {sigs : List (Nat × NopSignature)} (hnodup : (sigs.map Prod.fst).Nodup) :
    (∃ l, MultiSig.new sigs mapping msg = .error (.nodeIdNotInMapping l) ∧
        ∃ p ∈ sigs, p.1 ∉ mapping) ∨
      (∃ bad, MultiSig.new sigs mapping msg = .error (.invalidSignaturesCreate bad) ∧ bad ≠ [] ∧
        ∀ p, p ∈ bad ↔ p ∈ sigs ∧ multiSig.isValid mapping msg p = false) ∨
      ∃ pairs : List (Nat × NopSignature),
        MultiSig.new sigs mapping msg = .ok (pairs.map Prod.snd) ∧ pairs.Perm sigs ∧
        ∀ p ∈ sigs, multiSig.isValid mapping msg p = true := by
  obtain ⟨sigMap, hsort, hmap⟩ := sortSigs_spec mapping msg ∅ [] [] hnodup (by simp)
  rw [nil_append, nil_append] at hsort
  unfold MultiSig.new
  simp only [hsort, bind, Except.bind]
  by_cases hext : sigs.filter (fun p => decide (p.1 ∉ mapping)) = []
  · have hin : ∀ p ∈ sigs, p.1 ∈ mapping := by simpa [filter_eq_nil_iff] using hext
    by_cases hinv : sigs.filter (fun p =>
        decide (p.1 ∈ mapping) && !multiSig.isValid mapping msg p) = []
    · right; right
      have hall : ∀ p ∈ sigs, multiSig.isValid mapping msg p = true := by
        intro p hp
        have hval := filter_eq_nil_iff.mp hinv p hp
        simpa [hin p hp] using hval
      refine ⟨sigMap.sortedPairs, by simp only [hext, hinv, ne_eq, not_true_eq_false, if_false],
        ?_, hall⟩
      rw [perm_ext_iff_of_nodup (Nodup.of_map _ sigMap.nodup_map_fst_sortedPairs)
        (Nodup.of_map _ hnodup)]
      rintro ⟨n, s⟩
      rw [mem_sortedPairs, hmap]
      constructor
      · rintro (h | h)
        · simp at h
        · exact h.1
      · intro h
        exact .inr ⟨h, hall _ h⟩
    · right; left
      refine ⟨_, (if_neg (not_not.mpr hext)).trans (if_pos hinv), hinv, ?_⟩
      intro p
      rw [mem_filter, Bool.and_eq_true, decide_eq_true_eq, Bool.not_eq_true']
      constructor
      · rintro ⟨hp, _, hinvalid⟩
        exact ⟨hp, hinvalid⟩
      · rintro ⟨hp, hinvalid⟩
        exact ⟨hp, hin p hp, hinvalid⟩
  · left
    refine ⟨_, if_pos hext, ?_⟩
    obtain ⟨p, hp⟩ := exists_mem_of_ne_nil _ hext
    rw [mem_filter, decide_eq_true_eq] at hp
    exact ⟨p, hp⟩

/-- A collection of valid signatures of distinct nodes names those nodes. -/
lemma verify_of_valid {pairs : List (Nat × NopSignature)}
    (hkeys : (mapping.sortedPairs.map Prod.snd).Nodup) (hnodup : (pairs.map Prod.fst).Nodup)
    (hvalid : ∀ p ∈ pairs, multiSig.isValid mapping msg p = true) :
    ∃ ids, verify (pairs.map Prod.snd) mapping msg = .ok ids ∧ ids.Perm (pairs.map Prod.fst) := by
  have hid : ∀ s ∈ pairs.map Prod.snd, s.id = msg.encode := by
    intro s hs
    obtain ⟨p, hp, rfl⟩ := mem_map.mp hs
    exact (isValid_iff.mp (hvalid p hp)).2
  obtain ⟨verified, hrec, hmem⟩ := recoverAll_spec msg (pairs.map Prod.snd) ∅ hid
  obtain ⟨rest, hmatch, hrest⟩ := matchNodes_spec mapping.sortedPairs verified [] hkeys
  have hsigner (k) (hk : k ∈ verified) : ∃ p ∈ pairs, (p.1, k) ∈ mapping.sortedPairs := by
    rcases (hmem k).mp hk with h | ⟨s, hs, rfl⟩
    · simp at h
    · obtain ⟨p, hp, rfl⟩ := mem_map.mp hs
      exact ⟨p, hp, mem_sortedPairs.mpr (isValid_iff.mp (hvalid p hp)).1⟩
  have hempty : rest.keys = [] := by
    rw [eq_nil_iff_forall_not_mem]
    intro k hk
    obtain ⟨hk, hnot⟩ := (hrest k).mp (AList.mem_keys.mp hk)
    obtain ⟨p, -, hpair⟩ := hsigner k hk
    exact hnot (mem_map.mpr ⟨_, hpair, rfl⟩)
  rw [nil_append] at hmatch
  refine ⟨(mapping.sortedPairs.filter fun p => decide (p.2 ∈ verified)).map Prod.fst, ?_, ?_⟩
  · simp only [verify, hrec, hmatch, hempty, ne_eq, not_true_eq_false, or_self, if_false]
  rw [perm_ext_iff_of_nodup
    (mapping.nodup_map_fst_sortedPairs.sublist (filter_sublist.map _)) hnodup]
  intro n
  simp only [mem_map, mem_filter, decide_eq_true_eq]
  constructor
  · rintro ⟨⟨m, k⟩, ⟨hmk, hk⟩, rfl⟩
    obtain ⟨p, hp, hpair⟩ := hsigner k hk
    -- both nodes have the same key
    exact ⟨p, hp, (congrArg Prod.fst (inj_on_of_nodup_map hkeys hmk hpair rfl)).symm⟩
  · rintro ⟨p, hp, rfl⟩
    have hlookup := (isValid_iff.mp (hvalid p hp)).1
    refine ⟨(p.1, p.2.pubkey), ⟨mem_sortedPairs.mpr hlookup, ?_⟩, rfl⟩
    exact (hmem _).mpr (.inr ⟨p.2, mem_map.mpr ⟨p, hp, rfl⟩, rfl⟩)

end MultiSig

/-- With distinct keys, `MultiSig` collections are lawful. -/
theorem multiSig_lawfulFor
    (hkeys : (mapping.sortedPairs.map Prod.snd).Nodup) : multiSig.LawfulFor mapping := by
  refine ⟨?_, ?_⟩
  · intro sigs msg sct hnodup hnew
    change MultiSig.new sigs mapping msg = .ok sct at hnew
    rcases MultiSig.new_cases mapping msg hnodup with
      ⟨l, herr, _⟩ | ⟨bad, herr, _⟩ | ⟨pairs, hok, hperm, hvalid⟩
    · rw [herr] at hnew
      cases hnew
    · rw [herr] at hnew
      cases hnew
    · rw [hok] at hnew
      cases hnew
      have hperm' : (pairs.map Prod.fst).Perm (sigs.map Prod.fst) := hperm.map _
      obtain ⟨ids, hverify, hids⟩ := MultiSig.verify_of_valid hkeys (hperm'.nodup_iff.mpr hnodup)
        fun p hp => hvalid p (hperm.mem_iff.mp hp)
      refine ⟨hvalid, ?_, ids, hverify, hids.trans hperm'⟩
      change (pairs.map Prod.snd).length = sigs.length
      rw [length_map, hperm.length_eq]
  · intro sigs msg e hnodup hnew
    change MultiSig.new sigs mapping msg = .error e at hnew
    rcases MultiSig.new_cases mapping msg hnodup with
      ⟨l, herr, hout⟩ | ⟨bad, herr, hne, hbad⟩ | ⟨pairs, hok, _⟩
    · rw [herr] at hnew
      cases hnew
      exact .inr ⟨fun _ h => (by cases h), hout⟩
    · rw [herr] at hnew
      cases hnew
      exact .inl ⟨bad, rfl, hne, hbad⟩
    · rw [hok] at hnew
      cases hnew

end Kinet
