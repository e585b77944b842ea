import Kinet.Wireauth.State

/-!
# The indices of the session table

What is known about a session can be found under its index, its key and its address.  This
module states what the indices say about the sessions and shows that the operations on the
table keep it so.

Main results:

- `EstablishedTable.ids_push` and `EstablishedTable.ids_drop`: a table of
  established sessions is a list of at most two sessions for each key and role.
-/

namespace Kinet.Wireauth

open FiniteMap List

/-! ## Established sessions -/

variable {id : UInt32}

namespace RoleSessions

/-- There is no previous session without a current one. -/
def Packed (r : RoleSessions) : Prop := r.current = none → r.previous = none

variable {r : RoleSessions}

theorem ids_push (h : r.Packed) (id : UInt32) (created : Nat) :
    (r.push id created).2.ids = id :: r.ids.take 1 := by
  obtain ⟨current, previous⟩ := r
  cases current with
  | none =>
    have hprevious : previous = none := h rfl
    simp [push, ids, hprevious]
  | some c => simp [push, ids]

lemma evicted_push (h : r.Packed) (id : UInt32) (created : Nat) :
    (r.push id created).1 = r.ids[1]? := by
  obtain ⟨current, previous⟩ := r
  cases current with
  | none =>
    have hprevious : previous = none := h rfl
    simp [push, ids, hprevious]
  | some c => cases previous <;> simp [push, ids]

lemma packed_push (id : UInt32) (created : Nat) : (r.push id created).2.Packed := by
  intro h
  cases h

lemma ids_remove (h : r.Packed) (id : UInt32) : (r.remove id).ids = r.ids.erase id := by
  obtain ⟨current, previous⟩ := r
  cases current with
  | none =>
    have hprevious : previous = none := h rfl
    simp [remove, ids, hprevious]
  | some c =>
    cases previous with
    | none => by_cases hc : c.1 = id <;> simp [remove, ids, hc]
    | some p =>
      by_cases hc : c.1 = id
      · simp [remove, ids, hc]
      · by_cases hp : p.1 = id <;> simp [remove, ids, hc, hp]

lemma packed_remove (h : r.Packed) (id : UInt32) : (r.remove id).Packed := by
  unfold remove
  split
  · exact fun _ => rfl
  · split
    · exact fun _ => rfl
    · exact h

lemma ids_eq_nil_iff_isEmpty : r.isEmpty = true ↔ r.ids = [] := by
  obtain ⟨current, previous⟩ := r
  cases current <;> cases previous <;> simp [isEmpty, ids]

lemma current_of_ids {l : List UInt32} (h : r.Packed) (hids : r.ids = id :: l) :
    ∃ created, r.current = some (id, created) := by
  obtain ⟨current, previous⟩ := r
  cases current with
  | none =>
    have hprevious : previous = none := h rfl
    simp [ids, hprevious] at hids
  | some c =>
    simp only [ids, Option.toList_some, singleton_append, map_cons, cons.injEq] at hids
    exact ⟨c.2, by rw [← hids.1]⟩

end RoleSessions

namespace EstablishedSessions

variable (e : EstablishedSessions)

lemma role_setRole (b b' : Bool) (r : RoleSessions) :
    (e.setRole b r).role b' = if b' = b then r else e.role b' := by
  cases b <;> cases b' <;> rfl

def Packed : Prop := ∀ b, (e.role b).Packed

variable {e}

lemma isEmpty_iff : e.isEmpty = true ↔ ∀ b, (e.role b).ids = [] := by
  simp [isEmpty, RoleSessions.ids_eq_nil_iff_isEmpty, role, and_comm]

lemma exists_mem_ids_of_getLatest (h : e.getLatest = some id) : ∃ b, id ∈ (e.role b).ids := by
  unfold getLatest at h
  split at h
  · next id0 ts0 id1 ts1 hi hr =>
    split at h
    · cases h
      exact ⟨true, by simp [role, RoleSessions.ids, hi]⟩
    · cases h
      exact ⟨false, by simp [role, RoleSessions.ids, hr]⟩
  · next hi _ =>
    cases h
    exact ⟨true, by simp [role, RoleSessions.ids, hi]⟩
  · next _ hr =>
    cases h
    exact ⟨false, by simp [role, RoleSessions.ids, hr]⟩
  · cases h

end EstablishedSessions

namespace EstablishedTable

variable {κ : Type} [DecidableEq κ] {table : EstablishedTable κ}

/-- Sessions of one role under a key, the latest first. -/
def ids (table : EstablishedTable κ) (k : κ) (isInitiator : Bool) : List UInt32 :=
  ((get table k).role isInitiator).ids

/-- All entries are packed and none is empty. -/
structure WellFormed (table : EstablishedTable κ) : Prop where
  packed : ∀ k e, table.lookup k = some e → e.Packed
  nonempty : ∀ k e, table.lookup k = some e → e.isEmpty = false

lemma packed_get (h : WellFormed table) (k : κ) : (get table k).Packed := by
  unfold get
  cases hk : table.lookup k with
  | none =>
    intro b _
    cases b <;> rfl
  | some e => exact h.packed k e hk

lemma get_insert (k k' : κ) (e : EstablishedSessions) :
    get (table.insert k e) k' = if k' = k then e else get table k' := by
  unfold get
  rw [lookup_insert_eq_ite]
  split <;> rfl

lemma get_erase (k k' : κ) : get (table.erase k) k' = if k' = k then {} else get table k' := by
  unfold get
  rw [lookup_erase_eq_ite]
  split <;> rfl

variable {e : EstablishedSessions}

section

variable (h : WellFormed table)
include h

theorem ids_push (k : κ) (b : Bool) (id : UInt32) (created : Nat) (k' : κ) (b' : Bool) :
    ids (push table k b id created).2 k' b' =
      if k' = k ∧ b' = b then id :: (ids table k b).take 1 else ids table k' b' := by
  simp only [ids, push, get_insert]
  by_cases hk : k' = k
  · subst hk
    by_cases hb : b' = b
    · subst hb
      simp [EstablishedSessions.role_setRole, RoleSessions.ids_push (packed_get h k' b')]
    · simp [EstablishedSessions.role_setRole, hb]
  · simp [hk]

lemma evicted_push (k : κ) (b : Bool) (id : UInt32) (created : Nat) :
    (push table k b id created).1 = (ids table k b)[1]? :=
  RoleSessions.evicted_push (packed_get h k b) id created

lemma WellFormed.insert {k : κ}
    (hpacked : e.Packed) (hnonempty : e.isEmpty = false) : WellFormed (table.insert k e) := by
  constructor
  · exact forall_insert h.packed hpacked
  · exact forall_insert h.nonempty hnonempty

lemma WellFormed.erase (k : κ) : WellFormed (table.erase k) := by
  constructor
  · intro k' e' hlookup
    exact h.packed k' e' (lookup_of_lookup_erase hlookup)
  · intro k' e' hlookup
    exact h.nonempty k' e' (lookup_of_lookup_erase hlookup)

end

lemma packed_setRole (he : e.Packed) (b : Bool) {r : RoleSessions}
    (hr : r.Packed) : (e.setRole b r).Packed := by
  intro b'
  rw [EstablishedSessions.role_setRole]
  split
  · exact hr
  · exact he b'

lemma wellFormed_push (h : WellFormed table) (k : κ) (b : Bool) (id : UInt32) (created : Nat) :
    WellFormed (push table k b id created).2 := by
  apply h.insert
  · exact packed_setRole (packed_get h k) b (RoleSessions.packed_push id created)
  · rw [← Bool.not_eq_true, EstablishedSessions.isEmpty_iff]
    intro hempty
    have := hempty b
    simp [EstablishedSessions.role_setRole, RoleSessions.ids] at this

lemma drop_eq (table : EstablishedTable κ) (k : κ) (b : Bool) (id : UInt32) :
    drop table k b id = match table.lookup k with
      | none => table
      | some _ =>
        let sessions := (get table k).setRole b (((get table k).role b).remove id)
        if sessions.isEmpty then table.erase k else table.insert k sessions := by
  unfold drop get
  cases table.lookup k <;> rfl

theorem ids_drop (h : WellFormed table) (k : κ) (b : Bool) (id : UInt32) (k' : κ) (b' : Bool) :
    ids (drop table k b id) k' b' =
      if k' = k ∧ b' = b then (ids table k b).erase id else ids table k' b' := by
  have hremove := RoleSessions.ids_remove (packed_get h k b) id
  -- the lists of the entry as it is stored afterwards
  have hentry : ∀ b', (((get table k).setRole b (((get table k).role b).remove id)).role b').ids =
      if b' = b then (ids table k b).erase id else ids table k b' := by
    intro b'
    rw [EstablishedSessions.role_setRole]
    split
    · exact hremove
    · rfl
  rw [drop_eq]
  cases hlookup : table.lookup k with
  | none =>
    have hnil : ids table k b = [] := by
      cases b <;> simp [ids, get, hlookup, EstablishedSessions.role, RoleSessions.ids]
    dsimp only
    split
    · next hk => rw [hk.1, hk.2, hnil, erase_nil]
    · rfl
  | some e =>
    by_cases hk : k' = k
    · subst hk
      simp only [true_and]
      rw [← hentry b']
      split
      · next hempty =>
        rw [EstablishedSessions.isEmpty_iff] at hempty
        rw [hempty b', ids, get_erase, if_pos rfl]
        cases b' <;> rfl
      · rw [ids, get_insert, if_pos rfl]
    · simp only [hk, false_and, if_false]
      split
      · simp [ids, get_erase, hk]
      · simp [ids, get_insert, hk]

lemma wellFormed_drop (h : WellFormed table) (k : κ) (b : Bool) (id : UInt32) :
    WellFormed (drop table k b id) := by
  rw [drop_eq]
  cases hlookup : table.lookup k with
  | none => exact h
  | some e =>
    dsimp only
    split
    · exact h.erase k
    · next hempty =>
      exact h.insert
        (packed_setRole (packed_get h k) b (RoleSessions.packed_remove (packed_get h k b) id))
        (by simpa using hempty)

lemma length_ids_le (table : EstablishedTable κ) (k : κ) (b : Bool) :
    (ids table k b).length ≤ 2 := by
  unfold ids RoleSessions.ids
  cases ((get table k).role b).current <;> cases ((get table k).role b).previous <;> simp

/-- The table lists the sessions of `live`, each of them once. -/
structure Lists (table : EstablishedTable κ) (live : κ → Bool → UInt32 → Prop) : Prop where
  wellFormed : WellFormed table
  nodup : ∀ k b, (ids table k b).Nodup
  mem : ∀ k b id, id ∈ ids table k b ↔ live k b id

lemma lists_empty : Lists (∅ : EstablishedTable κ) fun _ _ _ => False := by
  have hids : ∀ k b, ids (∅ : EstablishedTable κ) k b = [] := by
    intro k b
    cases b <;> rfl
  refine ⟨⟨?_, ?_⟩, fun k b => ?_, fun k b id => ?_⟩
  · intro k e h
    cases h
  · intro k e h
    cases h
  · rw [hids]
    exact nodup_nil
  · rw [hids]
    simp

variable {live : κ → Bool → UInt32 → Prop}

lemma Lists.congr (h : Lists table live) {live' : κ → Bool → UInt32 → Prop}
    (hlive : ∀ k b id, live k b id ↔ live' k b id) : Lists table live' :=
  ⟨h.wellFormed, h.nodup, fun k b id => (h.mem k b id).trans (hlive k b id)⟩

/-- Of two different entries, all but the second are the first. -/
lemma mem_take_one_iff {l : List UInt32} (hlen : l.length ≤ 2) (hnodup : l.Nodup) (i : UInt32) :
    i ∈ l.take 1 ↔ i ∈ l ∧ l[1]? ≠ some i := by
  match l, hlen, hnodup with
  | [], _, _ => simp
  | [a], _, _ => simp
  | [a, b], _, hnodup =>
    have hne : a ≠ b := by simpa using hnodup
    simp only [take_succ_cons, take_zero, mem_cons, not_mem_nil, or_false,
      getElem?_cons_succ, getElem?_cons_zero, ne_eq, Option.some.injEq]
    constructor
    · rintro rfl
      exact ⟨.inl rfl, fun h => hne h.symm⟩
    · rintro ⟨rfl | rfl, h⟩
      · rfl
      · exact absurd rfl h

lemma Lists.push (h : Lists table live) (k : κ) (b : Bool) (created : Nat) (hnew : ¬ live k b id) :
    Lists (push table k b id created).2 fun k' b' i =>
      k' = k ∧ b' = b ∧ i = id ∨
        live k' b' i ∧ ¬ (k' = k ∧ b' = b ∧ (push table k b id created).1 = some i) := by
  have hnotMem : id ∉ ids table k b := fun hmem => hnew ((h.mem k b id).mp hmem)
  refine ⟨wellFormed_push h.wellFormed k b id created, fun k' b' => ?_, fun k' b' i => ?_⟩
  · rw [ids_push h.wellFormed]
    split
    · refine nodup_cons.mpr ⟨fun hmem => hnotMem (mem_of_mem_take hmem), ?_⟩
      exact (h.nodup k b).sublist (take_sublist 1 _)
    · exact h.nodup k' b'
  · rw [ids_push h.wellFormed, evicted_push h.wellFormed]
    by_cases hk : k' = k ∧ b' = b
    · obtain ⟨rfl, rfl⟩ := hk
      simp only [and_self, if_true, true_and, mem_cons]
      rw [mem_take_one_iff (length_ids_le table k' b') (h.nodup k' b'), h.mem]
    · rw [if_neg hk, h.mem]
      constructor
      · intro hlive
        exact .inr ⟨hlive, fun hsame => hk ⟨hsame.1, hsame.2.1⟩⟩
      · rintro (hsame | hlive)
        · exact absurd ⟨hsame.1, hsame.2.1⟩ hk
        · exact hlive.1

lemma Lists.drop (h : Lists table live) (k : κ) (b : Bool) (id : UInt32) :
    Lists (drop table k b id) fun k' b' i => live k' b' i ∧ ¬ (k' = k ∧ b' = b ∧ i = id) := by
  refine ⟨wellFormed_drop h.wellFormed k b id, fun k' b' => ?_, fun k' b' i => ?_⟩
  · rw [ids_drop h.wellFormed]
    split
    · exact (h.nodup k b).erase id
    · exact h.nodup k' b'
  · rw [ids_drop h.wellFormed]
    by_cases hk : k' = k ∧ b' = b
    · obtain ⟨rfl, rfl⟩ := hk
      simp only [and_self, if_true, true_and]
      rw [(h.nodup k' b').mem_erase_iff, h.mem, and_comm]
    · rw [if_neg hk, h.mem, iff_self_and]
      exact fun _ hsame => hk ⟨hsame.1, hsame.2.1⟩

end EstablishedTable

end Kinet.Wireauth
