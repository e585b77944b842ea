import Kinet.LeanUdp.Decoder

/-!
# Bookkeeping of the pools

The counters and the indices of a pool agree with its messages, and its limits hold.

Main results:

- `MessagePool.returns_removeMessage`: messages can be removed without a fault.
- `MessagePool.returns_makePlace`: what room is made for a new message.
- `MessagePool.returns_decode`: what becomes of a fragment.
-/

namespace Kinet.LeanUdp

open Fallible FiniteMap List AList Option IdentityUsage Checked

variable {I : Type}

/-! ## Messages -/

variable {input : FragmentInput I}

namespace MessageState

variable (state : MessageState)

/-- What holds of every unfinished message. -/
structure WellFormed (cfg : PoolConfig) : Prop where
  totalSize_eq : state.totalSize = (state.fragments.pairs.map (·.2.length)).sum
  totalSize_le : state.totalSize ≤ cfg.maxMessageSize.val
  seqNum_lt : ∀ seqNum ∈ state.fragments, seqNum.val < maxFragments

lemma wellFormed_new (deadline : Nat) (cfg : PoolConfig) : (new deadline).WellFormed cfg where
  totalSize_eq := rfl
  totalSize_le := Nat.zero_le _
  seqNum_lt _ h := by simp [new] at h

/-- Number of fragments, once it is known. -/
def newTotal (input : FragmentInput I) : Option Nat :=
  if input.fragmentType.isEnd then some (input.seqNum.val + 1) else state.totalFrags

def add (input : FragmentInput I) : MessageState :=
  { state with
    totalFrags := state.newTotal input
    totalSize := state.totalSize + input.payload.length
    fragments := state.fragments.insert input.seqNum input.payload }

/-- Fragments that a message takes. -/
structure Accepts (cfg : PoolConfig) (input : FragmentInput I) : Prop where
  seqNum_lt : input.seqNum.val < maxFragments
  new : state.fragments.lookup input.seqNum = none
  one_end : input.fragmentType.isEnd = true → state.totalFrags = none
  below : ∀ total, state.newTotal input = some total → input.seqNum.val < total
  size_le : state.totalSize + input.payload.length ≤ cfg.maxMessageSize.val

lemma Accepts.wellFormed {state : MessageState} {cfg : PoolConfig}
    (h : state.Accepts cfg input) (hs : state.WellFormed cfg) : (state.add input).WellFormed cfg where
  totalSize_eq := by
    have hnew : input.seqNum ∉ state.fragments := by
      rw [← lookup_eq_none]
      exact h.new
    simp only [add, hs.totalSize_eq, pairs_insert_of_notMem hnew, map_cons, sum_cons, add_comm]
  totalSize_le := h.size_le
  seqNum_lt seqNum hseq := by
    rw [add, mem_insert] at hseq
    obtain rfl | hseq := hseq
    · exact h.seqNum_lt
    · exact hs.seqNum_lt seqNum hseq

lemma WellFormed.length_lt {state : MessageState} {cfg : PoolConfig}
    (h : state.WellFormed cfg) : state.fragments.keys.length < 2 ^ 16 := by
  have hsubset : state.fragments.keys.map Fin.val ⊆ range maxFragments := by
    intro n hn
    obtain ⟨seqNum, hseq, rfl⟩ := mem_map.mp hn
    exact mem_range.mpr (h.seqNum_lt seqNum (mem_keys.mpr hseq))
  have hnodup := state.fragments.keys_nodup.map Fin.val_injective
  have hlength := (subperm_of_subset hnodup hsubset).length_le
  rw [length_map, length_range, maxFragments] at hlength
  omega

end MessageState

/-! ## Pools -/

namespace MessagePool

variable [LinearOrder I]

def ListedByIdentity (index : FiniteMap I (FiniteSet (Nat ×ₗ U16))) (identity : I) (deadline : Nat)
    (msgId : U16) : Prop :=
  ∃ entries, index.lookup identity = some entries ∧ toLex (deadline, msgId) ∈ entries

/-- The messages of a pool, its counters and its indices agree, and its limits hold. -/
structure WellFormed (pool : MessagePool I) : Prop where
  length_le : pool.messages.keys.length ≤ pool.cfg.maxMessages
  counts : pool.identityUsage.messageCounts.Counts (pool.messages.keys.map Prod.fst)
  count_le : ∀ identity,
    pool.identityUsage.identityCount identity ≤ pool.identityUsage.maxMessagesPerIdentity
  mem_evictionIndex : ∀ deadline key, toLex (deadline, toLex key) ∈ pool.evictionIndex ↔
    ∃ state, pool.messages.lookup key = some state ∧ state.evictionDeadline = deadline
  mem_evictionIndexByIdentity : ∀ identity deadline msgId,
    ListedByIdentity pool.evictionIndexByIdentity identity deadline msgId ↔
    ∃ state, pool.messages.lookup (identity, msgId) = some state ∧ state.evictionDeadline = deadline
  nonempty : ∀ identity index, pool.evictionIndexByIdentity.lookup identity = some index →
    index.keys ≠ []
  messages : ∀ key state, pool.messages.lookup key = some state → state.WellFormed pool.cfg

lemma wellFormed_new (cfg : PoolConfig) (limit : Nat) :
    (new cfg (.withLimit limit) : MessagePool I).WellFormed where
  length_le := Nat.zero_le _
  counts := Tally.counts_empty
  count_le _ := Nat.zero_le _
  mem_evictionIndex _ _ := by simp [new]
  mem_evictionIndexByIdentity _ _ _ := by simp [new, ListedByIdentity]
  nonempty _ _ h := by simp [new] at h
  messages _ _ h := by simp [new] at h

/-- Entries were only removed. -/
structure Shrinks (pool pool' : MessagePool I) : Prop where
  cfg : pool'.cfg = pool.cfg
  limit : pool'.identityUsage.maxMessagesPerIdentity = pool.identityUsage.maxMessagesPerIdentity
  lookup : ∀ key state, pool'.messages.lookup key = some state →
    pool.messages.lookup key = some state

lemma Shrinks.refl (pool : MessagePool I) : pool.Shrinks pool := ⟨rfl, rfl, fun _ _ h => h⟩

lemma Shrinks.trans {pool pool' pool'' : MessagePool I} (h : pool.Shrinks pool')
    (h' : pool'.Shrinks pool'') : pool.Shrinks pool'' :=
  ⟨h'.cfg.trans h.cfg, h'.limit.trans h.limit, fun key state hstate =>
    h.lookup key state (h'.lookup key state hstate)⟩

lemma Shrinks.identityCount_le {pool pool' : MessagePool I} (h : pool.Shrinks pool')
    (hpool' : pool'.WellFormed) (hpool : pool.WellFormed) (identity : I) :
    pool'.identityUsage.identityCount identity ≤ pool.identityUsage.identityCount identity := by
  rw [identityCount, identityCount, hpool'.counts.count_eq, hpool.counts.count_eq]
  have hsubset : pool'.messages.keys ⊆ pool.messages.keys := fun key hkey => by
    obtain ⟨state, hstate⟩ := mem_iff_lookup.mp (mem_keys.mpr hkey)
    exact mem_keys.mp (mem_iff_lookup.mpr ⟨state, h.lookup key state hstate⟩)
  obtain ⟨l, hperm, hsublist⟩ := subperm_of_subset pool'.messages.keys_nodup hsubset
  rw [← (hperm.map Prod.fst).count_eq]
  exact (hsublist.map Prod.fst).count_le identity

/-! ### Removing a message -/

variable {key : MessageKey I} {index : FiniteMap I (FiniteSet (Nat ×ₗ U16))}

lemma listedByIdentity_drop {deadline : Nat} {identity : I} {d : Nat} {msgId : U16} :
    ListedByIdentity (dropByIdentity index deadline key) identity d msgId ↔
      ListedByIdentity index identity d msgId ∧ ¬ (identity = key.1 ∧ d = deadline ∧ msgId = key.2) := by
  unfold dropByIdentity ListedByIdentity
  cases hindex : index.lookup key.1 with
  | none =>
    rw [iff_self_and]
    rintro ⟨entries, hentries, -⟩ ⟨rfl, -⟩
    rw [hindex] at hentries
    cases hentries
  | some entries =>
    dsimp only
    by_cases hidentity : identity = key.1
    · subst hidentity
      have hmem : (toLex (d, msgId) ∈ entries.erase (toLex (deadline, key.2))) ↔
          toLex (d, msgId) ∈ entries ∧ ¬ (d = deadline ∧ msgId = key.2) := by
        rw [mem_erase, and_comm, ne_eq, toLex_inj, Prod.mk.injEq]
      split
      · next hempty =>
        rw [List.isEmpty_iff] at hempty
        have hnone : ¬ toLex (d, msgId) ∈ entries.erase (toLex (deadline, key.2)) := by
          rw [AList.mem_keys, hempty]
          exact not_mem_nil
        rw [hmem] at hnone
        simpa [lookup_erase_eq_ite, hindex] using hnone
      · simp [hindex, hmem]
    · split
      · simp [hidentity]
      · simp [hidentity]

lemma dropByIdentity_nonempty
    (h : ∀ identity entries, index.lookup identity = some entries → entries.keys ≠ [])
    (deadline : Nat) (key : MessageKey I) (identity : I) (entries : FiniteSet (Nat ×ₗ U16))
    (hlookup : (dropByIdentity index deadline key).lookup identity = some entries) :
    entries.keys ≠ [] := by
  unfold dropByIdentity at hlookup
  cases hindex : index.lookup key.1 with
  | none =>
    rw [hindex] at hlookup
    exact h identity entries hlookup
  | some old =>
    rw [hindex] at hlookup
    dsimp only at hlookup
    split at hlookup
    · exact h identity entries (lookup_of_lookup_erase hlookup)
    · next hempty =>
      exact forall_insert h (by simpa [List.isEmpty_iff] using hempty) identity entries hlookup

/-- One entry was removed. -/
structure Removed (pool : MessagePool I) (key : MessageKey I) (pool' : MessagePool I) : Prop where
  wellFormed : pool'.WellFormed
  cfg : pool'.cfg = pool.cfg
  limit : pool'.identityUsage.maxMessagesPerIdentity = pool.identityUsage.maxMessagesPerIdentity
  messages : pool'.messages = pool.messages.erase key

lemma Removed.shrinks {pool pool' : MessagePool I}
    (h : pool.Removed key pool') : pool.Shrinks pool' := by
  refine ⟨h.cfg, h.limit, fun key' state hstate => ?_⟩
  rw [h.messages] at hstate
  exact lookup_of_lookup_erase hstate

variable {pool : MessagePool I}

theorem returns_removeMessage (h : pool.WellFormed) (key : MessageKey I) :
    returns (removeMessage key) pool fun r pool' =>
      r = .ok (pool.messages.lookup key) ∧ pool.Removed key pool' := by
  unfold removeMessage
  rw [returns_get_bind]
  cases hstate : pool.messages.lookup key with
  | none =>
    rw [returns_pure]
    refine ⟨rfl, h, rfl, rfl, ?_⟩
    rw [erase_of_notMem (lookup_eq_none.mp hstate)]
  | some state =>
    have hmem : key ∈ pool.messages := mem_iff_lookup.mpr ⟨state, hstate⟩
    obtain ⟨counts, hdecrement, hcounts⟩ := h.counts.decrement
      (mem_map.mpr ⟨key, mem_keys.mp hmem, rfl⟩)
    have husage : pool.identityUsage.decrementIdentityCount key.1 =
        .ok { pool.identityUsage with messageCounts := counts } := by
      rw [decrementIdentityCount, hdecrement]
      rfl
    simp only [returns_bind, returns_ofChecked, andThen_ok, returns_set, returns_pure]
    refine ⟨_, husage, by simp, ?_, rfl, rfl, rfl⟩
    refine ⟨?_, hcounts.perm (map_keys_erase_perm Prod.fst hmem), fun identity => ?_,
      fun deadline key' => ?_, fun identity deadline msgId => ?_, dropByIdentity_nonempty h.nonempty _ _,
      fun key' state' hstate' => ?_⟩
    · exact (length_keys_erase_le _ _).trans h.length_le
    · refine le_trans ?_ (h.count_le identity)
      rw [identityCount, identityCount, hcounts.count_eq, h.counts.count_eq]
      exact erase_sublist.count_le identity
    · rw [mem_erase, h.mem_evictionIndex, lookup_erase_eq_ite]
      by_cases heq : key' = key
      · subst heq
        simp only [hstate, some.injEq, exists_eq_left', if_true, reduceCtorEq, false_and,
          exists_false, iff_false, not_and]
        rintro hne rfl
        exact hne rfl
      · simp [heq]
    · rw [listedByIdentity_drop, h.mem_evictionIndexByIdentity, lookup_erase_eq_ite]
      by_cases heq : (identity, msgId) = key
      · subst heq
        simp only [hstate, some.injEq, exists_eq_left', if_true, reduceCtorEq, false_and,
          exists_false, iff_false, not_and, not_not, true_and, and_true]
        exact (·.symm)
      · rw [if_neg heq, and_iff_left_iff_imp]
        rintro - ⟨rfl, -, rfl⟩
        exact heq rfl
    · exact h.messages key' state' (lookup_of_lookup_erase hstate')

/-! ### Forgetting messages -/

section

variable (h : pool.WellFormed)

include h

/-- The status tells whether the message is there and in time; a message that is not in time
is removed. -/
lemma returns_messageStatus (key : MessageKey I) (now : Nat) :
    returns (messageStatus key now) pool fun r pool' =>
      pool'.WellFormed ∧ pool.Shrinks pool' ∧ ∃ status, r = .ok status ∧ (status = .active →
          ∃ state, pool'.messages.lookup key = some state ∧ now < state.evictionDeadline) ∧
        (status ≠ .active → pool'.messages.lookup key = none ∧
          ∀ state, pool.messages.lookup key = some state → ¬ now < state.evictionDeadline) := by
  unfold messageStatus
  rw [returns_get_bind]
  cases hstate : pool.messages.lookup key with
  | none =>
    rw [returns_pure]
    exact ⟨h, .refl pool, .missing, rfl, by simp, fun _ => ⟨hstate, by simp⟩⟩
  | some state =>
    rw [returns_ite]
    refine ⟨fun hactive => ?_, fun hstale => ?_⟩
    · rw [returns_pure]
      exact ⟨h, .refl pool, .active, rfl, fun _ => ⟨state, hstate, hactive⟩,
        fun hne => absurd rfl hne⟩
    · rw [returns_bind]
      refine returns_mono (returns_removeMessage h key) ?_
      rintro r pool' ⟨rfl, hremoved⟩
      rw [andThen_ok, returns_pure]
      refine ⟨hremoved.wellFormed, hremoved.shrinks, .stale, rfl, by simp, fun _ => ⟨?_, ?_⟩⟩
      · rw [hremoved.messages, lookup_erase]
      · rintro _ ⟨⟩
        exact hstale

lemma returns_evictCandidateIfStale (candidate : Option (Nat × MessageKey I)) (now : Nat) :
    returns (evictCandidateIfStale candidate now) pool fun r pool' =>
      (∃ b, r = .ok b) ∧ pool'.WellFormed ∧ pool.Shrinks pool' := by
  unfold evictCandidateIfStale
  split
  · rw [returns_pure]
    exact ⟨⟨_, rfl⟩, h, .refl pool⟩
  · rw [returns_ite, returns_pure, returns_bind]
    refine ⟨fun _ => ⟨⟨_, rfl⟩, h, .refl pool⟩, fun _ => ?_⟩
    refine returns_mono (returns_removeMessage h _) ?_
    rintro r pool' ⟨rfl, hremoved⟩
    rw [andThen_ok, returns_pure]
    exact ⟨⟨_, rfl⟩, hremoved.wellFormed, hremoved.shrinks⟩

lemma returns_evictOneStaleForIdentityIfLimited (identity : I) (now : Nat) :
    returns (evictOneStaleForIdentityIfLimited identity now) pool fun r pool' =>
      (∃ b, r = .ok b) ∧ pool'.WellFormed ∧ pool.Shrinks pool' := by
  unfold evictOneStaleForIdentityIfLimited evictStaleForIdentity
  simp only [returns_bind, returns_get, andThen_ok, returns_ite, returns_pure]
  exact ⟨fun _ => ⟨⟨_, rfl⟩, h, .refl pool⟩, fun _ => returns_evictCandidateIfStale h _ now⟩

lemma returns_evictBeforeAdmission (now choice : Nat) :
    returns (evictBeforeAdmission now choice) pool fun r pool' =>
      (∃ kind, r = .ok kind) ∧ pool'.WellFormed ∧ pool.Shrinks pool' := by
  unfold evictBeforeAdmission
  simp only [returns_bind, returns_get, andThen_ok, returns_ite, returns_pure]
  refine ⟨fun _ => ⟨⟨_, rfl⟩, h, .refl pool⟩, fun _ => ?_⟩
  refine returns_mono (returns_evictCandidateIfStale h _ now) ?_
  rintro r pool1 ⟨⟨stale, rfl⟩, hpool1, hshrinks1⟩
  refine ⟨fun _ => ⟨⟨_, rfl⟩, hpool1, hshrinks1⟩, fun _ => ?_⟩
  · split
    · rw [returns_pure]
      exact ⟨⟨_, rfl⟩, hpool1, hshrinks1⟩
    · rw [returns_bind]
      refine returns_mono (returns_removeMessage hpool1 _) ?_
      rintro r pool2 ⟨rfl, hremoved⟩
      rw [andThen_ok, returns_pure]
      exact ⟨⟨_, rfl⟩, hremoved.wellFormed, hshrinks1.trans hremoved.shrinks⟩

end

/-! ### New messages -/

lemma listedByIdentity_insert {deadline : Nat} {identity : I} {d : Nat} {msgId : U16} :
    ListedByIdentity (index.insert key.1
        (((index.lookup key.1).getD ∅).insert (toLex (deadline, key.2)) ())) identity d msgId ↔
      (identity = key.1 ∧ d = deadline ∧ msgId = key.2) ∨
        ListedByIdentity index identity d msgId := by
  unfold ListedByIdentity
  by_cases hidentity : identity = key.1
  · subst hidentity
    cases index.lookup key.1 <;> simp only [lookup_insert, some.injEq, exists_eq_left', mem_insert,
        toLex_inj, Prod.mk.injEq, getD_none, getD_some, notMem_empty, true_and,
        reduceCtorEq, false_and, exists_false]
  · simp [hidentity]

def withMessage (pool : MessagePool I) (key : MessageKey I) (now : Nat) : MessagePool I :=
  let deadline := now + pool.cfg.messageTimeout
  { pool with
    messages := pool.messages.insert key (.new deadline)
    evictionIndex := pool.evictionIndex.insert (toLex (deadline, toLex key)) ()
    evictionIndexByIdentity :=
      pool.evictionIndexByIdentity.insert key.1
        (((pool.evictionIndexByIdentity.lookup key.1).getD ∅).insert (toLex (deadline, key.2)) ())
    identityUsage := pool.identityUsage.incrementIdentityCount key.1 }

lemma WellFormed.withMessage (h : pool.WellFormed) (hnew : pool.messages.lookup key = none)
    (hlength : pool.messages.keys.length < pool.cfg.maxMessages)
    (hcount : pool.identityUsage.identityCount key.1 < pool.identityUsage.maxMessagesPerIdentity)
    (now : Nat) : (pool.withMessage key now).WellFormed := by
  have hmem : key ∉ pool.messages := lookup_eq_none.mp hnew
  have hkeys := keys_insert_of_notMem hmem (.new (now + pool.cfg.messageTimeout))
  have hcounts := h.counts.increment key.1
  refine ⟨?_, ?_, fun identity => ?_, fun deadline key' => ?_, fun identity deadline msgId => ?_,
    fun identity entries hentries => ?_, fun key' state hstate => ?_⟩
  · rw [MessagePool.withMessage]
    simp only [hkeys, length_cons]
    omega
  · rw [MessagePool.withMessage]
    simp only [hkeys, map_cons]
    exact hcounts
  · have hidentity := h.count_le identity
    simp only [MessagePool.withMessage, identityCount,
      incrementIdentityCount, Tally.increment, Tally.count_insert] at hcount hidentity ⊢
    split
    · omega
    · exact hidentity
  · simp only [MessagePool.withMessage, mem_insert, h.mem_evictionIndex,
      lookup_insert_eq_ite, toLex_inj, Prod.mk.injEq]
    by_cases heq : key' = key
    · subst heq
      simp [hnew, MessageState.new, eq_comm]
    · simp [heq]
  · simp only [MessagePool.withMessage, listedByIdentity_insert, h.mem_evictionIndexByIdentity,
      lookup_insert_eq_ite]
    by_cases heq : (identity, msgId) = key
    · subst heq
      simp [hnew, MessageState.new, eq_comm]
    · rw [if_neg heq, or_iff_right_iff_imp]
      rintro ⟨rfl, -, rfl⟩
      exact absurd rfl heq
  · refine forall_insert h.nonempty ?_ identity entries hentries
    exact cons_ne_nil _ _
  · exact forall_insert h.messages (MessageState.wellFormed_new _ _) key' state hstate

theorem returns_makePlace (h : pool.WellFormed) (hnew : pool.messages.lookup key = none)
    (hcount : pool.identityUsage.identityCount key.1 < pool.identityUsage.maxMessagesPerIdentity)
    (now choice : Nat) :
    returns (makePlace now choice key) pool fun r pool' => pool'.WellFormed ∧
      ((r = .error .poolFull ∧ pool.Shrinks pool') ∨
        ∃ pool₁, r = .ok () ∧ pool.Shrinks pool₁ ∧ pool' = pool₁.withMessage key now) := by
  -- after the eviction
  have hrest : ∀ {pool₁ : MessagePool I}, pool₁.WellFormed → pool.Shrinks pool₁ → returns (do
        if (← get).admissionBlocked then throw .poolFull
        insertMessage key now
        modify fun pool => { pool with
          identityUsage := pool.identityUsage.incrementIdentityCount key.1 } : PoolM I Unit) pool₁
        fun r pool' => pool'.WellFormed ∧ ((r = .error .poolFull ∧ pool.Shrinks pool') ∨
          ∃ pool₁, r = .ok () ∧ pool.Shrinks pool₁ ∧ pool' = pool₁.withMessage key now) := by
    intro pool₁ hpool1 hshrinks
    simp only [returns_bind, returns_get, andThen_ok, returns_ite, returns_throw, andThen_error,
      insertMessage, returns_modify]
    refine ⟨fun _ => ⟨hpool1, .inl ⟨trivial, hshrinks⟩⟩, fun hblocked => ⟨?_, ?_⟩⟩
    · have hnew1 : pool₁.messages.lookup key = none :=
        eq_none_iff_forall_ne_some.mpr fun state hstate => by
          rw [hshrinks.lookup key state hstate] at hnew
          cases hnew
      refine hpool1.withMessage hnew1 (by simpa [admissionBlocked] using hblocked) ?_ now
      rw [hshrinks.limit]
      exact (hshrinks.identityCount_le hpool1 h key.1).trans_lt hcount
    · exact .inr ⟨pool₁, trivial, hshrinks, rfl⟩
  unfold makePlace
  rw [returns_get_bind]
  split
  · rw [returns_bind]
    refine returns_mono (returns_evictBeforeAdmission h now choice) ?_
    rintro r pool₁ ⟨⟨kind, rfl⟩, hpool1, hshrinks⟩
    exact hrest hpool1 hshrinks
  · exact hrest h (.refl pool)

/-! ### Fragments -/

lemma WellFormed.update (h : pool.WellFormed)
    {state state' : MessageState} (hstate : pool.messages.lookup key = some state)
    (hdeadline : state'.evictionDeadline = state.evictionDeadline)
    (hstate' : state'.WellFormed pool.cfg) :
    WellFormed { pool with messages := pool.messages.insert key state' } := by
  have hmem : key ∈ pool.messages := mem_iff_lookup.mpr ⟨state, hstate⟩
  have hperm := keys_insert_perm hmem state'
  have hexists : ∀ key' deadline, (∃ st, (pool.messages.insert key state').lookup key' = some st ∧
        st.evictionDeadline = deadline) ↔
      ∃ st, pool.messages.lookup key' = some st ∧ st.evictionDeadline = deadline := by
    intro key' deadline
    by_cases heq : key' = key
    · subst heq
      simp [hstate, hdeadline]
    · simp [heq]
  refine ⟨hperm.length_eq.trans_le h.length_le, h.counts.perm (hperm.map Prod.fst).symm,
    h.count_le, fun deadline key' => ?_, fun identity deadline msgId => ?_, h.nonempty,
    fun key' st hst => ?_⟩
  · rw [h.mem_evictionIndex, hexists]
  · rw [h.mem_evictionIndexByIdentity, hexists]
  · exact forall_insert h.messages hstate' key' st hst

/-- What becomes of a fragment: the message takes it and waits for more, or the message is
complete, or the fragment is refused; a refused fragment ends its message unless it is a
duplicate. -/
inductive Added (cfg : PoolConfig) (state : MessageState) (input : FragmentInput I) :
    Except DecodeError DecodeOutcome → Option MessageState → Prop
  | pending (accepts : state.Accepts cfg input)
      (incomplete : (state.add input).totalFrags ≠ some (state.add input).fragments.keys.length) :
      Added cfg state input (.ok .pending) (some (state.add input))
  | complete (accepts : state.Accepts cfg input)
      (complete : (state.add input).totalFrags = some (state.add input).fragments.keys.length) :
      Added cfg state input (.ok (.complete (state.add input).extract)) none
  | duplicate (present : state.fragments.lookup input.seqNum ≠ none) :
      Added cfg state input (.error (.duplicateFragment input.msgId input.seqNum)) (some state)
  | refused {e : DecodeError} (refused : ¬ state.Accepts cfg input) :
      Added cfg state input (.error e) none

structure Decoded (pool : MessagePool I) (state : MessageState) (input : FragmentInput I)
    (r : Except DecodeError DecodeOutcome) (pool' : MessagePool I) : Prop where
  wellFormed : pool'.WellFormed
  cfg : pool'.cfg = pool.cfg
  limit : pool'.identityUsage.maxMessagesPerIdentity = pool.identityUsage.maxMessagesPerIdentity
  added : Added pool.cfg state input r (pool'.messages.lookup (input.identity, input.msgId))
  others : ∀ key, key ≠ (input.identity, input.msgId) →
    pool'.messages.lookup key = pool.messages.lookup key

/-- The number of fragments up to this one does not overflow. -/
lemma add_seqNum {seqNum : Nat} (hseq : seqNum < maxFragments) :
    add 16 seqNum 1 = .ok (seqNum + 1) := by
  refine fits_of_lt ?_
  unfold maxFragments at hseq
  omega

lemma returns_reject {α : Type} (h : pool.WellFormed) {state : MessageState} (e : DecodeError)
    (hrefused : ¬ state.Accepts pool.cfg input) (Q : Except DecodeError α → MessagePool I → Prop)
    (hQ : ∀ pool', pool.Decoded state input (.error e) pool' → Q (.error e) pool') :
    returns (reject (input.identity, input.msgId) e : PoolM I α) pool Q := by
  unfold reject
  rw [returns_bind]
  refine returns_mono (returns_removeMessage h _) ?_
  rintro r pool' ⟨rfl, hremoved⟩
  rw [andThen_ok, returns_throw]
  refine hQ pool' ⟨hremoved.wellFormed, hremoved.cfg, hremoved.limit, ?_, fun key hne => ?_⟩
  · rw [hremoved.messages, lookup_erase]
    exact .refused hrefused
  · rw [hremoved.messages, lookup_erase_eq_ite, if_neg hne]

section

variable {pool : MessagePool I} (h : pool.WellFormed) {state : MessageState}
  {input : FragmentInput I}

include h

lemma returns_learnTotal {Q : Except DecodeError (Option Nat) → MessagePool I → Prop}
    (hseq : input.seqNum.val < maxFragments)
    (hok : (input.fragmentType.isEnd = true → state.totalFrags = none) →
      Q (.ok (state.newTotal input)) pool)
    (herror : ∀ e pool', pool.Decoded state input (.error e) pool' → Q (.error e) pool') :
    returns (learnTotal (input.identity, input.msgId) state input) pool Q := by
  have hadd := add_seqNum hseq
  unfold learnTotal
  by_cases hend : input.fragmentType.isEnd = true
  · rw [if_pos hend, returns_bind, returns_ofChecked]
    refine ⟨_, hadd, ?_⟩
    cases htotal : state.totalFrags with
    | none =>
      simpa [MessageState.newTotal, hend] using hok fun _ => htotal
    | some expected =>
      refine returns_reject h _ (fun haccepts => ?_) Q (herror _)
      have := haccepts.one_end hend
      rw [htotal] at this
      cases this
  · rw [if_neg hend, returns_pure]
    have := hok fun hend' => absurd hend' hend
    rwa [MessageState.newTotal, if_neg hend] at this

lemma returns_ensureBelowTotal {Q : Except DecodeError Unit → MessagePool I → Prop}
    (hseq : input.seqNum.val < maxFragments)
    (hok : (∀ total, state.newTotal input = some total → input.seqNum.val < total) →
      Q (.ok ()) pool)
    (herror : ∀ e pool', pool.Decoded state input (.error e) pool' → Q (.error e) pool') :
    returns (ensureBelowTotal (input.identity, input.msgId) input.seqNum (state.newTotal input))
      pool Q := by
  have hadd := add_seqNum hseq
  unfold ensureBelowTotal
  cases htotal : state.newTotal input with
  | none =>
    rw [returns_pure]
    exact hok fun total h => by rw [htotal] at h; cases h
  | some total =>
    rw [returns_ite]
    refine ⟨fun hlt => ?_, fun hnot => ?_⟩
    · rw [returns_pure]
      exact hok fun total' h => by rw [htotal] at h; cases h; exact hlt
    · rw [returns_bind, returns_ofChecked]
      refine ⟨_, hadd, ?_⟩
      exact returns_reject h _ (fun haccepts => hnot (haccepts.below total htotal)) Q (herror _)

lemma returns_take (haccepts : state.Accepts pool.cfg input)
    (hstate : pool.messages.lookup (input.identity, input.msgId) = some state) :
    returns (do
      set { pool with
        messages := pool.messages.insert (input.identity, input.msgId) (state.add input) }
      if (state.add input).totalFrags ≠ some ((state.add input).fragments.keys.length % 2 ^ 16) then
        pure .pending
      else do
        let state ← ofChecked (unwrap (← removeMessage (input.identity, input.msgId)))
        pure (.complete state.extract) : PoolM I DecodeOutcome) pool
      (pool.Decoded state input) := by
  have hadd := haccepts.wellFormed (h.messages _ _ hstate)
  have hdeadline : (state.add input).evictionDeadline = state.evictionDeadline := rfl
  have hpool := h.update hstate hdeadline hadd
  rw [Nat.mod_eq_of_lt hadd.length_lt]
  simp only [returns_bind, returns_set, andThen_ok, returns_ite, returns_pure]
  refine ⟨fun hincomplete => ?_, fun hcomplete => ?_⟩
  · refine ⟨hpool, rfl, rfl, ?_, fun key hne => ?_⟩
    · rw [lookup_insert]
      exact .pending haccepts hincomplete
    · rw [lookup_insert_eq_ite, if_neg hne]
  · refine returns_mono (returns_removeMessage hpool _) ?_
    rintro r pool' ⟨rfl, hremoved⟩
    rw [andThen_ok, returns_ofChecked]
    refine ⟨state.add input, by rw [lookup_insert]; rfl, ?_⟩
    refine ⟨hremoved.wellFormed, hremoved.cfg, hremoved.limit, ?_, fun key hne => ?_⟩
    · rw [hremoved.messages, lookup_erase]
      exact .complete haccepts (not_not.mp hcomplete)
    · rw [hremoved.messages, lookup_erase_eq_ite, if_neg hne, lookup_insert_eq_ite, if_neg hne]

theorem returns_decode (hstate : pool.messages.lookup (input.identity, input.msgId) = some state) :
    returns (decode input) pool (pool.Decoded state input) := by
  unfold decode
  rw [returns_get_bind]
  simp only [hstate]
  rw [returns_ite]
  refine ⟨fun hseq => ?_, fun hseq => ?_⟩
  · rw [returns_bind]
    exact returns_reject h _ (fun haccepts => hseq haccepts.seqNum_lt) _ fun _ h => h
  rw [not_not] at hseq
  rw [returns_ite]
  refine ⟨fun hduplicate => ?_, fun hnew => ?_⟩
  · rw [returns_bind, returns_throw, andThen_error]
    refine ⟨h, rfl, rfl, ?_, fun _ _ => rfl⟩
    rw [hstate]
    exact .duplicate (isSome_iff_ne_none.mp hduplicate)
  rw [returns_bind]
  refine returns_learnTotal h hseq (fun hend => ?_) fun _ _ h => h
  rw [andThen_ok, returns_bind]
  refine returns_ensureBelowTotal h hseq (fun hbelow => ?_) fun _ _ h => h
  rw [andThen_ok, returns_ite]
  refine ⟨fun hsize => ?_, fun hsize => ?_⟩
  · rw [returns_bind]
    refine returns_reject h _ (fun haccepts => hsize ⟨?_, haccepts.size_le⟩) _ fun _ h => h
    exact haccepts.size_le.trans (Nat.le_of_lt_succ pool.cfg.maxMessageSize.isLt)
  rw [not_not] at hsize
  rw [Bool.not_eq_true, isSome_eq_false_iff, isNone_iff_eq_none] at hnew
  exact returns_take h ⟨hseq, hnew, hend, hbelow, hsize.2⟩ hstate

end

end MessagePool

end Kinet.LeanUdp
