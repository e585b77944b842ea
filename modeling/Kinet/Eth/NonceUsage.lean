import Kinet.Foundation.FiniteMap
import Kinet.Eth.Transaction

/-!
# Nonce usages

A block tells later blocks how it changes account nonces through one `NonceUsage` for each
account: the nonce of its last transaction, or the nonces of its authorizations, each of
which counts only if it is the next one.  Usages of consecutive blocks merge into one.
-/

namespace Kinet.Eth

open List

/-- How a block uses the nonces of one account. -/
inductive NonceUsage where
  /-- nonce of the last transaction or accepted authorization -/
  | known (nonce : Nonce)
  /-- nonces of authorizations that count if they are next in turn -/
  | possible (nonces : List Nonce)
deriving DecidableEq

namespace NonceUsage

/-- The nonce after authorizations with the given nonces. -/
def applyPossibleNoncesToAccountNonce (accountNonce : Nonce) (possibleNonces : List Nonce) :
    Nonce :=
  possibleNonces.foldl
    (fun nonce possibleNonce => if possibleNonce = nonce then nonce + 1 else nonce) accountNonce

def applyToAccountNonce : NonceUsage → Nonce → Nonce
  | known nonce, _ => nonce + 1
  | possible nonces, accountNonce => applyPossibleNoncesToAccountNonce accountNonce nonces

/-- Usage of two consecutive blocks from that of the later and that of the earlier one. -/
def mergeWithPrevious : NonceUsage → NonceUsage → NonceUsage
  | known nonce, _ => known nonce
  | possible nonces, known previous =>
    known (nonces.foldl
      (fun nonce possibleNonce => if nonce + 1 = possibleNonce then nonce + 1 else nonce) previous)
  | possible nonces, possible previous => possible (previous ++ nonces)

@[simp]
lemma applyPossibleNoncesToAccountNonce_append (n : Nonce) (l₁ l₂ : List Nonce) :
    applyPossibleNoncesToAccountNonce n (l₁ ++ l₂) =
      applyPossibleNoncesToAccountNonce (applyPossibleNoncesToAccountNonce n l₁) l₂ :=
  foldl_append

/-- Counting from the last used nonce and counting from the next one agree. -/
lemma foldl_known_succ (nonces : List Nonce) (previous : Nonce) :
    nonces.foldl (fun nonce possibleNonce => if nonce + 1 = possibleNonce then nonce + 1 else nonce)
        previous + 1 =
      applyPossibleNoncesToAccountNonce (previous + 1) nonces := by
  induction nonces generalizing previous with
  | nil => rfl
  | cons possibleNonce nonces ih =>
    simp only [foldl_cons, applyPossibleNoncesToAccountNonce]
    by_cases hnext : previous + 1 = possibleNonce
    · rw [if_pos hnext, if_pos hnext.symm]
      exact ih (previous + 1)
    · rw [if_neg hnext, if_neg (Ne.symm hnext)]
      exact ih previous

/-- Merging composes the actions of two usages. -/
theorem applyToAccountNonce_mergeWithPrevious (later earlier : NonceUsage) (n : Nonce) :
    (later.mergeWithPrevious earlier).applyToAccountNonce n =
      later.applyToAccountNonce (earlier.applyToAccountNonce n) := by
  cases later with
  | known nonce => rfl
  | possible nonces =>
    cases earlier with
    | known previous => exact foldl_known_succ nonces previous
    | possible previous => exact applyPossibleNoncesToAccountNonce_append n previous nonces

end NonceUsage

abbrev NonceUsageMap := FiniteMap Address NonceUsage

namespace NonceUsageMap

/-- Record a transaction; the result is the usage it replaces. -/
def addKnown (usages : NonceUsageMap) (signer : Address) (nonce : Nonce) :
    NonceUsageMap × Option NonceUsage :=
  (usages.insert signer (.known nonce), usages.lookup signer)

def mergeWithPreviousBlock (usages : NonceUsageMap) (previous : List (Address × NonceUsage)) :
    NonceUsageMap :=
  previous.foldl (fun merged entry =>
    match merged.lookup entry.1 with
    | none => merged.insert entry.1 entry.2
    | some usage => merged.insert entry.1 (usage.mergeWithPrevious entry.2)) usages

/-- What the block does to the nonce of an account. -/
def act (usages : NonceUsageMap) (a : Address) (n : Nonce) : Nonce :=
  match usages.lookup a with
  | some usage => usage.applyToAccountNonce n
  | none => n

variable {a : Address} {previous : List (Address × NonceUsage)} {usages : NonceUsageMap}

@[simp]
lemma act_empty (a : Address) (n : Nonce) : act ∅ a n = n := by
  simp [act]

/-- Usage of an account after merging that of the block before. -/
def mergeUsage : Option NonceUsage → Option NonceUsage → Option NonceUsage
  | some usage, some previous => some (usage.mergeWithPrevious previous)
  | some usage, none => some usage
  | none, previous => previous

/-- Merging acts on every account by itself. -/
lemma lookup_mergeWithPreviousBlock (usages : NonceUsageMap)
    (hnodup : (previous.map Prod.fst).Nodup) (a : Address) :
    (usages.mergeWithPreviousBlock previous).lookup a =
      mergeUsage (usages.lookup a) ((previous.find? fun entry => entry.1 = a).map Prod.snd) := by
  -- at most one entry of the earlier block is for the account
  induction previous generalizing usages with
  | nil => cases h : usages.lookup a <;> simp [mergeWithPreviousBlock, mergeUsage, h]
  | cons entry previous ih =>
    obtain ⟨b, earlier⟩ := entry
    simp only [map_cons, nodup_cons] at hnodup
    have hstep : usages.mergeWithPreviousBlock ((b, earlier) :: previous) =
        mergeWithPreviousBlock (match usages.lookup b with
            | none => usages.insert b earlier
            | some usage => usages.insert b (usage.mergeWithPrevious earlier)) previous :=
      rfl
    rw [hstep, ih _ hnodup.2]
    by_cases hab : b = a
    · subst hab
      have hnone : previous.find? (fun entry => decide (entry.1 = b)) = none := by
        rw [find?_eq_none]
        intro entry hmem hkey
        exact hnodup.1 (mem_map.2 ⟨entry, hmem, of_decide_eq_true hkey⟩)
      rw [hnone, find?_cons_of_pos (by simp)]
      cases hb : usages.lookup b <;> simp [mergeUsage]
    · rw [find?_cons_of_neg (by simpa using hab)]
      congr 1
      cases usages.lookup b <;> exact AList.lookup_insert_ne (Ne.symm hab)

/-- Merging a block composes its action with that of the later blocks. -/
theorem act_mergeWithPreviousBlock (usages : NonceUsageMap) (hnodup : (previous.map Prod.fst).Nodup)
    {earlier : NonceUsageMap}
    (hentry : (previous.find? fun entry => entry.1 = a).map Prod.snd = earlier.lookup a) (n : Nonce)
    : (usages.mergeWithPreviousBlock previous).act a n = usages.act a (earlier.act a n) := by
  unfold act
  rw [lookup_mergeWithPreviousBlock usages hnodup, hentry]
  cases hlater : usages.lookup a with
  | none => cases hearlier : earlier.lookup a <;> simp [mergeUsage]
  | some usage =>
    cases hearlier : earlier.lookup a with
    | none => simp [mergeUsage]
    | some previous => exact NonceUsage.applyToAccountNonce_mergeWithPrevious usage previous n

variable (keep : Address → Bool)

/-- Entries of a block for the accounts that `keep` selects. -/
def entriesFor (usages : NonceUsageMap) : List (Address × NonceUsage) :=
  usages.pairs.filter fun entry => keep entry.1

lemma nodup_entriesFor (usages : NonceUsageMap) :
    ((usages.entriesFor keep).map Prod.fst).Nodup := by
  have hkeys : (usages.pairs.map Prod.fst).Nodup := by
    rw [FiniteMap.map_fst_pairs]
    exact usages.keys_nodup
  exact hkeys.sublist (filter_sublist.map Prod.fst)

lemma find?_entriesFor {keep : Address → Bool} (hkeep : keep a = true) (usages : NonceUsageMap) :
    ((usages.entriesFor keep).find? fun entry => entry.1 = a).map Prod.snd = usages.lookup a := by
  cases hfind : (usages.entriesFor keep).find? fun entry => decide (entry.1 = a) with
  | none =>
    rw [find?_eq_none] at hfind
    rw [Option.map_none, eq_comm, Option.eq_none_iff_forall_not_mem]
    intro usage hlookup
    have hmem : (a, usage) ∈ usages.entriesFor keep :=
      mem_filter.2 ⟨FiniteMap.mem_pairs.2 hlookup, hkeep⟩
    exact hfind _ hmem (by simp)
  | some entry =>
    obtain ⟨b, usage⟩ := entry
    have hkey : b = a := by simpa using find?_some hfind
    subst hkey
    have hmem := mem_filter.1 (mem_of_find?_eq_some hfind)
    exact (FiniteMap.mem_pairs.1 hmem.1).symm

/-- Usages of consecutive blocks merged from the newest to the oldest. -/
def mergeBlocks (blocks : List NonceUsageMap) : NonceUsageMap :=
  blocks.reverse.foldl (fun merged block => merged.mergeWithPreviousBlock (block.entriesFor keep)) ∅

/-- The merged usages act as the blocks do one after the other. -/
theorem act_mergeBlocks {keep : Address → Bool} (hkeep : keep a = true)
    (blocks : List NonceUsageMap) (n : Nonce) :
    (mergeBlocks keep blocks).act a n = blocks.foldl (fun nonce block => block.act a nonce) n := by
  -- the oldest block is merged last and acts first
  induction blocks generalizing n with
  | nil => simp [mergeBlocks]
  | cons block blocks ih =>
    have hmerge : mergeBlocks keep (block :: blocks) =
        (mergeBlocks keep blocks).mergeWithPreviousBlock (block.entriesFor keep) := by
      simp [mergeBlocks]
    rw [hmerge, act_mergeWithPreviousBlock _ (nodup_entriesFor keep block)
      (find?_entriesFor hkeep block), ih]
    rfl

end NonceUsageMap

end Kinet.Eth
