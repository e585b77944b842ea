import Kinet.Consensus.Config

/-!
# Collecting signatures

Votes and no-endorsements are collected without checking each signature.  Once the
senders reach a supermajority, a collection is built; if that reports invalid
signatures, their senders are dropped and the count starts over.
-/

namespace Kinet

open FiniteMap Effect List Finset

variable {K : TypeParams}

/-- Outcome of one pass over the pending signatures. -/
inductive CollectOutcome (K : TypeParams) where
  /-- no supermajority yet -/
  | waiting
  | collected (sct : K.SCT)
  /-- senders of invalid signatures -/
  | dropped (senders : List K.NodeId)

section

variable (S : SignatureScheme K) (validators : ValidatorSet K) (mapping : ValidatorMapping K)
  (msg : SignedMessage K)

/-- Count the senders and try to build a collection. -/
def collectPass (pending : FiniteMap K.NodeId K.SignatureType) : Except Panic (CollectOutcome K) :=
  match validators.hasSuperMajorityVotes (pending.sortedPairs.map Prod.fst) with
  | .error _ => .error .duplicateSigners
  | .ok false => .ok .waiting
  | .ok true =>
    match S.new pending.sortedPairs mapping msg with
    | .ok sct => .ok (.collected sct)
    | .error (.invalidSignaturesCreate invalidSigs) => .ok (.dropped (invalidSigs.map Prod.fst))
    | .error _ => .error .voteCollection

/-- Build a collection from the pending signatures, dropping the senders of invalid
ones.  Every pass but the last drops a sender. -/
def collectLoop : Nat → FiniteMap K.NodeId K.SignatureType → Finset K.NodeId →
    Except Panic (Option K.SCT × FiniteMap K.NodeId K.SignatureType × Finset K.NodeId)
  | 0, _, _ => .error .outOfFuel
  | fuel + 1, pending, invalid =>
    match collectPass S validators mapping msg pending with
    | .error p => .error p
    | .ok .waiting => .ok (none, pending, invalid)
    | .ok (.collected sct) => .ok (some sct, pending, invalid)
    | .ok (.dropped senders) =>
      let invalid := invalid ∪ senders.toFinset
      collectLoop fuel (pending.retain fun node _ => decide (node ∉ invalid)) invalid

def collect (pending : FiniteMap K.NodeId K.SignatureType) (invalid : Finset K.NodeId) :
    Except Panic (Option K.SCT × FiniteMap K.NodeId K.SignatureType × Finset K.NodeId) :=
  collectLoop S validators mapping msg (pending.keys.length + 1) pending invalid

variable {S validators mapping msg}
  {pending pending' : FiniteMap K.NodeId K.SignatureType} {invalid : Finset K.NodeId}

lemma collectPass_ends : Ends (collectPass S validators mapping msg pending) (fun out =>
        match out with
        | .waiting => validators.hasSuperMajorityVotes (pending.sortedPairs.map Prod.fst) = .ok false
        | .collected sct =>
          validators.hasSuperMajorityVotes (pending.sortedPairs.map Prod.fst) = .ok true ∧
            S.new pending.sortedPairs mapping msg = .ok sct
        | .dropped _ => True) (·.isAssertion = false) := by
  unfold collectPass
  split
  · rfl
  · next hcount => exact hcount
  · next hcount =>
    split
    · next hnew => exact ⟨hcount, hnew⟩
    · trivial
    · rfl

/-- What is left is a part of the pending signatures, and a collection is built from
all that is left.  No assertion of the round state machine is behind a failure to collect. -/
theorem collectLoop_ends {fuel : Nat} :
    Ends (collectLoop S validators mapping msg fuel pending invalid) (fun (r, pending', _) =>
      (∀ n s, pending'.lookup n = some s → pending.lookup n = some s) ∧ ∀ sct, r = some sct →
        validators.hasSuperMajorityVotes (pending'.sortedPairs.map Prod.fst) = .ok true ∧
          S.new pending'.sortedPairs mapping msg = .ok sct) (·.isAssertion = false) := by
  induction fuel generalizing pending invalid with
  | zero => rfl
  | succ fuel ih =>
    unfold collectLoop
    split
    · next hpass => exact collectPass_ends.error hpass
    · exact ⟨fun n s hs => hs, fun sct hsct => by cases hsct⟩
    · next sct hpass =>
      refine ⟨fun n s hs => hs, fun sct' hsct => ?_⟩
      cases hsct
      exact collectPass_ends.ok hpass
    · refine ih.mono ?_
      rintro ⟨r, pending', _⟩ ⟨hsub, hres⟩
      refine ⟨fun n s hs => ?_, hres⟩
      have hret := hsub n s hs
      rw [lookup_retain, Option.filter_eq_some_iff] at hret
      exact hret.1

/-- The invariant of collecting under a lawful scheme, between the pending
signatures and what is left. -/
structure Collected (S : SignatureScheme K) (validators : ValidatorSet K)
    (mapping : ValidatorMapping K) (msg : SignedMessage K)
    (pending : FiniteMap K.NodeId K.SignatureType) (invalid : Finset K.NodeId)
    (r : Option K.SCT) (pending' : FiniteMap K.NodeId K.SignatureType)
    (invalid' : Finset K.NodeId) : Prop where
  keeps_valid : ∀ n s, pending.lookup n = some s → S.isValid mapping msg (n, s) = true →
    n ∉ invalid → pending'.lookup n = some s
  invalid_sub : invalid ⊆ invalid'
  invalid_of_signature : ∀ n ∈ invalid', n ∈ invalid ∨
    ∃ s, pending.lookup n = some s ∧ S.isValid mapping msg (n, s) = false
  waiting : r = none →
    validators.hasSuperMajorityVotes (pending'.sortedPairs.map Prod.fst) = .ok false

/-- For a lawful scheme a pass drops senders only for invalid signatures, and fails only
for a sender without a key. -/
lemma collectPass_spec (validators : ValidatorSet K) (msg : SignedMessage K)
    (hlaw : S.LawfulFor mapping) (pending : FiniteMap K.NodeId K.SignatureType) :
    collectPass S validators mapping msg pending = .ok .waiting ∨
      (∃ sct, collectPass S validators mapping msg pending = .ok (.collected sct)) ∨
      (∃ senders, collectPass S validators mapping msg pending = .ok (.dropped senders) ∧
        senders ≠ [] ∧ ∀ n ∈ senders, ∃ s, pending.lookup n = some s ∧
          S.isValid mapping msg (n, s) = false) ∨
      collectPass S validators mapping msg pending = .error .voteCollection ∧
        ∃ n ∈ pending, n ∉ mapping := by
  have hnodup := pending.nodup_map_fst_sortedPairs
  unfold collectPass
  cases hcount : validators.hasSuperMajorityVotes (pending.sortedPairs.map Prod.fst) with
  | error e => exact absurd hcount (validators.hasSuperMajorityVotes_ne_error hnodup e)
  | ok enough =>
    cases enough with
    | false => exact .inl rfl
    | true =>
      cases hnew : S.new pending.sortedPairs mapping msg with
      | ok sct => exact .inr (.inl ⟨sct, rfl⟩)
      | error e =>
        rcases hlaw.new_error _ _ _ hnodup hnew with
          ⟨bad, rfl, hne, hbad⟩ | ⟨hother, ⟨n, s⟩, hp, hout⟩
        · refine .inr (.inr (.inl ⟨bad.map Prod.fst, rfl, by simpa using hne, ?_⟩))
          intro n hn
          obtain ⟨⟨n', s⟩, hp, rfl⟩ := mem_map.mp hn
          obtain ⟨hpend, hinvalid⟩ := (hbad _).mp hp
          exact ⟨s, mem_sortedPairs.mp hpend, hinvalid⟩
        · refine .inr (.inr (.inr ⟨?_, n, ?_, hout⟩))
          · cases e with
            | invalidSignaturesCreate bad => exact absurd rfl (hother bad)
            | _ => rfl
          · exact mem_iff_lookup.mpr ⟨s, mem_sortedPairs.mp hp⟩

lemma length_keys_retain_lt {p : K.NodeId → K.SignatureType → Bool} {n : K.NodeId}
    {s : K.SignatureType} (hn : pending.lookup n = some s) (hp : p n s = false) :
    (pending.retain p).keys.length < pending.keys.length := by
  have hentries : (⟨n, s⟩ : Sigma fun _ : K.NodeId => K.SignatureType) ∈ pending.entries :=
    AList.mem_lookup_iff.mp hn
  simp only [AList.keys, keys, length_map, retain]
  exact length_filter_lt_length_iff_exists.mpr ⟨_, hentries, by simpa using hp⟩

section

variable (hlaw : S.LawfulFor mapping)
include hlaw

/-- Under a lawful scheme collecting ends: every pass but the last drops a sender. -/
theorem collectLoop_spec {fuel : Nat} (pending : FiniteMap K.NodeId K.SignatureType)
    (invalid : Finset K.NodeId) (hfuel : pending.keys.length < fuel) :
    (∃ r pending' invalid',
      collectLoop S validators mapping msg fuel pending invalid = .ok (r, pending', invalid') ∧
      Collected S validators mapping msg pending invalid r pending' invalid') ∨
    collectLoop S validators mapping msg fuel pending invalid = .error .voteCollection ∧
      ∃ n ∈ pending, n ∉ mapping := by
  induction fuel generalizing pending invalid with
  | zero => omega
  | succ fuel ih =>
    unfold collectLoop
    rcases collectPass_spec validators msg hlaw pending with
      hpass | ⟨sct, hpass⟩ | ⟨senders, hpass, hne, hsenders⟩ | ⟨hpass, hout⟩
    · refine .inl ⟨none, pending, invalid, by rw [hpass], fun _ _ hs _ _ => hs,
        fun _ hn => hn, fun _ hn => .inl hn, fun _ => collectPass_ends.ok hpass⟩
    · refine .inl ⟨some sct, pending, invalid, by rw [hpass], fun _ _ hs _ _ => hs,
        fun _ hn => hn, fun _ hn => .inl hn, fun h => by cases h⟩
    · rw [hpass]
      obtain ⟨n0, hn0⟩ := exists_mem_of_ne_nil _ hne
      obtain ⟨s0, hs0, _⟩ := hsenders n0 hn0
      have hlt := length_keys_retain_lt (p := fun node _ =>
        decide (node ∉ invalid ∪ senders.toFinset)) hs0 (by simp [hn0])
      rcases ih (pending.retain fun node _ => decide (node ∉ invalid ∪ senders.toFinset))
        (invalid ∪ senders.toFinset) (by omega) with
        ⟨r, pending', invalid', hok, hcol⟩ | ⟨herror, n, hn, hout⟩
      · refine .inl ⟨r, pending', invalid', hok, ?_, ?_, ?_, hcol.waiting⟩
        · intro n s hs hvalid hnot
          have hout : n ∉ invalid ∪ senders.toFinset := by
            rw [mem_union, mem_toFinset]
            rintro (h | h)
            · exact hnot h
            · obtain ⟨s', hs', hinvalid⟩ := hsenders n h
              rw [hs] at hs'
              cases hs'
              rw [hvalid] at hinvalid
              cases hinvalid
          refine hcol.keeps_valid n s ?_ hvalid hout
          rw [lookup_retain, hs]
          simp [hout]
        · exact union_subset_iff.mp hcol.invalid_sub |>.1
        · intro n hn
          rcases hcol.invalid_of_signature n hn with h | ⟨s, hs, hinvalid⟩
          · rw [mem_union, mem_toFinset] at h
            exact h.imp_right (hsenders n)
          · rw [lookup_retain, Option.filter_eq_some_iff] at hs
            exact .inr ⟨s, hs.1, hinvalid⟩
      · refine .inr ⟨herror, n, ?_, hout⟩
        obtain ⟨s, hs⟩ := mem_iff_lookup.mp hn
        rw [lookup_retain, Option.filter_eq_some_iff] at hs
        exact mem_iff_lookup.mpr ⟨s, hs.1⟩
    · exact .inr ⟨by rw [hpass], hout⟩

/-- Under a lawful scheme collecting keeps the valid signatures and drops only senders of
invalid ones. -/
lemma collect_ok {invalid' : Finset K.NodeId} {r : Option K.SCT}
    (h : collect S validators mapping msg pending invalid = .ok (r, pending', invalid')) :
    Collected S validators mapping msg pending invalid r pending' invalid' := by
  rcases collectLoop_spec hlaw pending invalid (Nat.lt_succ_self _) with
    ⟨r', p, i, hok, hcol⟩ | ⟨herror, _⟩
  · have heq := h.symm.trans hok
    cases heq
    exact hcol
  · have heq := h.symm.trans herror
    cases heq

/-- Under a lawful scheme collecting does not run out of passes. -/
lemma collect_ne_outOfFuel
    (pending : FiniteMap K.NodeId K.SignatureType) (invalid : Finset K.NodeId) :
    collect S validators mapping msg pending invalid ≠ .error .outOfFuel := by
  intro h
  rcases collectLoop_spec hlaw pending invalid (Nat.lt_succ_self _) with
    ⟨_, _, _, hok, _⟩ | ⟨herror, _⟩
  · cases h.symm.trans hok
  · cases h.symm.trans herror

end

end

end Kinet
