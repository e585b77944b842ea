import Kinet.Foundation.Tally
import Kinet.Wireauth.Tables

/-!
# What the session table keeps true

Every session can be found through the indices, the indices point at sessions only, and the
counters count the sessions.  The operations are described by what they do to the sessions of
each kind.

Main results:

- `State.Indexed.insertInitiator`, `State.Indexed.insertResponder`,
  `State.IndexedBut.terminateSession`, `State.Indexed.establish`: the operations keep the
  indices right.
-/

namespace Kinet.Wireauth

open FiniteMap AList EstablishedTable Option SessionState.Identity List

variable {C : Crypto}

inductive SessionKind where
  | initiating
  | responding
  | transport
deriving DecidableEq

namespace State

def session (s : State C) (kind : SessionKind) (id : UInt32) : Option (SessionState.Identity C) :=
  match kind with
  | .initiating => (s.initiatingSessions.lookup id).map (·.common.identity)
  | .responding => (s.respondingSessions.lookup id).map (·.transport.common.identity)
  | .transport => (s.transportSessions.lookup id).map (·.common.identity)

/-- The session at an index, whatever its kind. -/
def sessionAt (s : State C) (id : UInt32) : Option (SessionState.Identity C) :=
  s.session .transport id <|> s.session .initiating id <|> s.session .responding id

def ips (s : State C) : List IpAddr :=
  s.allocatedIndices.keys.filterMap fun id => (s.sessionAt id).map (·.remoteAddr.ip)

/-- A transport session with this key, or address, and role is at this index. -/
def LiveBy {κ : Type} (s : State C) (f : SessionState.Identity C → κ) (k : κ) (isInitiator : Bool)
    (id : UInt32) : Prop :=
  ∃ x, s.session .transport id = some x ∧ f x = k ∧ x.isInitiator = isInitiator

/-- The indices and the counters are right, but the tables of established sessions leave out a
session each that has to make room. -/
structure IndexedBut (s : State C) (goneByKey goneBySocket : Option UInt32) : Prop where
  unique : ∀ {id kind kind' x x'}, s.session kind id = some x → s.session kind' id = some x' →
    kind = kind'
  allocated : ∀ id, id ∈ s.allocatedIndices ↔ ∃ kind x, s.session kind id = some x
  accepted : ∀ key id, (key, id) ∈ s.acceptedSessionsByPeer ↔
    ∃ x, s.session .responding id = some x ∧ x.remotePublicKey = key
  initiated : ∀ key id, s.initiatedSessionByPeer.lookup key = some id →
    ∃ x, s.session .initiating id = some x ∧ x.remotePublicKey = key
  byKey : s.lastEstablishedSessionByPublicKey.Lists fun k b id =>
    s.LiveBy remotePublicKey k b id ∧ goneByKey ≠ some id
  bySocket : s.lastEstablishedSessionBySocket.Lists fun k b id =>
    s.LiveBy remoteAddr k b id ∧ goneBySocket ≠ some id
  total : s.totalSessions = s.allocatedIndices.keys.length
  counts : Tally.Counts s.ipSessionCounts s.ips

/-- The indices and the counters are right. -/
abbrev Indexed (s : State C) : Prop := s.IndexedBut none none

lemma indexed_empty : ({} : State C).Indexed where
  unique {_ kind} _ _ _ h := by cases kind <;> cases h
  allocated id := by
    simp only [notMem_empty, false_iff]
    rintro ⟨kind, x, h⟩
    cases kind <;> cases h
  accepted key id := by simp [session]
  initiated _ _ h := by cases h
  byKey := lists_empty.congr fun key b id => by simp [LiveBy, session]
  bySocket := lists_empty.congr fun addr b id => by simp [LiveBy, session]
  total := rfl
  counts := Tally.counts_empty

variable {s s' : State C} {id : UInt32} {kind : SessionKind} {x : SessionState.Identity C}
  {goneByKey goneBySocket : Option UInt32}

lemma IndexedBut.session_inj (h : s.IndexedBut goneByKey goneBySocket)
    {kind' : SessionKind} {x' : SessionState.Identity C} (hx : s.session kind id = some x)
    (hx' : s.session kind' id = some x') : x = x' := by
  obtain rfl := h.unique hx hx'
  exact some.inj (hx.symm.trans hx')

lemma IndexedBut.sessionAt (h : s.IndexedBut goneByKey goneBySocket)
    (hx : s.session kind id = some x) : s.sessionAt id = some x := by
  have hnone : ∀ kind', kind' ≠ kind → s.session kind' id = none := fun kind' hne =>
    eq_none_iff_forall_ne_some.mpr fun _ hx' => hne (h.unique hx' hx)
  cases kind <;> simp [State.sessionAt, hx, hnone]

lemma Indexed.mem_byKey (h : s.Indexed) {key : C.PubKey} {b : Bool} :
    id ∈ s.lastEstablishedSessionByPublicKey.ids key b ↔ s.LiveBy remotePublicKey key b id := by
  simp [h.byKey.mem]

/-! ## Ending a session -/

lemma session_terminateSession (key : C.PubKey) (addr : SocketAddr) (kind : SessionKind)
    (id' : UInt32) :
    (s.terminateSession id key addr).session kind id' =
      if id' = id then none else s.session kind id' := by
  cases kind <;>
  · simp only [session, terminateSession, lookup_erase_eq_ite]
    split <;> rfl

/-- What is left of the sessions initiated to peers when one of them ends. -/
lemma lookup_erase_initiated {initiated : FiniteMap C.PubKey UInt32} {key key' : C.PubKey}
    {id' : UInt32}
    (h : (if initiated.lookup key = some id then initiated.erase key else initiated).lookup key' =
      some id') :
    initiated.lookup key' = some id' ∧ (key' = key → id' ≠ id) := by
  split at h
  · rw [lookup_erase_eq_ite] at h
    split at h
    · cases h
    · next hne => exact ⟨h, fun heq => absurd heq hne⟩
  · next hne =>
    refine ⟨h, ?_⟩
    rintro rfl rfl
    exact hne h

section

variable (h : s.IndexedBut goneByKey goneBySocket) (hx : s.session kind id = some x)
include h hx

lemma lists_terminate {κ : Type} [DecidableEq κ] {f : SessionState.Identity C → κ}
    {table : EstablishedTable κ} {gone : Option UInt32}
    (hlists : table.Lists fun k b i => s.LiveBy f k b i ∧ gone ≠ some i)
    (key : C.PubKey) (addr : SocketAddr) :
    (match s.transportSessions.lookup id with
      | some t => table.drop (f x) t.common.isInitiator id
      | none => table).Lists
      fun k b i => (s.terminateSession id key addr).LiveBy f k b i ∧ gone ≠ some i := by
  have hlive : ∀ k b i, (s.terminateSession id key addr).LiveBy f k b i ↔
      s.LiveBy f k b i ∧ i ≠ id := by
    intro k b i
    unfold LiveBy
    rw [session_terminateSession]
    by_cases heq : i = id <;> simp [heq]
  cases hlookup : s.transportSessions.lookup id with
  | none =>
    refine hlists.congr fun k b i => and_congr_left fun _ => ?_
    rw [hlive, iff_self_and]
    rintro ⟨y, hy, -⟩ rfl
    simp [session, hlookup] at hy
  | some t =>
    have ht : s.session .transport id = some t.common.identity := by rw [session, hlookup]; rfl
    obtain rfl := h.session_inj hx ht
    refine (hlists.drop _ _ id).congr fun k b i => ?_
    rw [hlive]
    by_cases heq : i = id
    · subst heq
      simp only [ne_eq, not_true_eq_false, and_false, false_and, iff_false]
      rintro ⟨⟨⟨y, hy, rfl, rfl⟩, -⟩, hne⟩
      obtain rfl := h.session_inj ht hy
      exact hne ⟨rfl, rfl, trivial⟩
    · simp [heq]

lemma ips_terminateSession (key : C.PubKey) (addr : SocketAddr) :
    s.ips.Perm (x.remoteAddr.ip :: (s.terminateSession id key addr).ips) := by
  have hmem : id ∈ s.allocatedIndices := (h.allocated id).mpr ⟨kind, x, hx⟩
  have hperm := (keys_perm_cons_erase hmem).filterMap
    fun i => (s.sessionAt i).map (·.remoteAddr.ip)
  rw [filterMap_cons_some (by rw [h.sessionAt hx]; rfl)] at hperm
  refine hperm.trans (.cons _ (.of_eq (filterMap_congr fun i hi => ?_)))
  have hne : i ≠ id := (mem_erase.mp (mem_keys.mpr hi)).1
  simp only [State.sessionAt, session_terminateSession, if_neg hne]

end

lemma counts_releaseIp {counts : Tally IpAddr} {ip : IpAddr} {l : List IpAddr}
    (h : counts.Counts (ip :: l)) : Tally.Counts (releaseIp counts ip) l := by
  obtain ⟨counts', hdecrement, hcounts⟩ := h.decrement (mem_cons_self (a := ip))
  rw [erase_cons_head] at hcounts
  rw [Tally.decrement] at hdecrement
  rw [releaseIp]
  cases hlookup : counts.lookup ip with
  | none =>
    rw [hlookup] at hdecrement
    cases hdecrement
  | some n =>
    rw [hlookup] at hdecrement
    have hsub := Checked.sub_of_le (show 1 ≤ n from h.pos ip n hlookup)
    simp only [Checked.unwrap, bind, Except.bind, hsub] at hdecrement
    cases hdecrement
    exact hcounts

/-- A session ends under its own key and address. -/
theorem IndexedBut.terminateSession (h : s.IndexedBut goneByKey goneBySocket)
    (hx : s.session kind id = some x) :
    (s.terminateSession id x.remotePublicKey x.remoteAddr).IndexedBut goneByKey goneBySocket where
  unique hy hy' := by
    rw [session_terminateSession] at hy hy'
    split at hy
    · cases hy
    · next hne =>
      rw [if_neg hne] at hy'
      exact h.unique hy hy'
  allocated i := by
    simp only [session_terminateSession]
    refine (mem_erase.trans (and_congr_right' (h.allocated i))).trans ?_
    by_cases heq : i = id <;> simp [heq]
  accepted key i := by
    rw [session_terminateSession]
    refine (mem_erase.trans (and_congr_right' (h.accepted key i))).trans ?_
    by_cases heq : i = id
    · subst heq
      simp only [if_true, reduceCtorEq, false_and, exists_false, iff_false, not_and]
      rintro hne ⟨y, hy, rfl⟩
      exact hne (by rw [h.session_inj hx hy])
    · simp [heq]
  initiated key i hinit := by
    obtain ⟨hold, hne⟩ := lookup_erase_initiated hinit
    obtain ⟨y, hy, rfl⟩ := h.initiated key i hold
    refine ⟨y, ?_, rfl⟩
    rw [session_terminateSession, if_neg, hy]
    rintro rfl
    exact hne (by rw [h.session_inj hx hy]) rfl
  byKey := lists_terminate h hx h.byKey _ _
  bySocket := lists_terminate h hx h.bySocket _ _
  total := by
    have hlength := (keys_perm_cons_erase ((h.allocated id).mpr ⟨kind, x, hx⟩)).length_eq
    have htotal := h.total
    simp only [State.terminateSession, length_cons] at hlength ⊢
    omega
  counts := counts_releaseIp (h.counts.perm (ips_terminateSession h hx _ _))

/-! ## Adding a session -/

/-- The only session at the index is the one of this kind; the others are as before. -/
def Places (s : State C) (kind : SessionKind) (id : UInt32) (x : SessionState.Identity C)
    (s' : State C) : Prop :=
  ∀ k i, s'.session k i = if i = id then (if k = kind then some x else none) else s.session k i

lemma Places.unique (hp : s.Places kind id x s') (h : s.Indexed) {i : UInt32}
    {k k' : SessionKind} {y y' : SessionState.Identity C} (hy : s'.session k i = some y)
    (hy' : s'.session k' i = some y') : k = k' := by
  rw [hp] at hy hy'
  split at hy
  · next heq =>
    simp only [heq, if_true, ite_none_right_eq_some] at hy hy'
    exact hy.1.trans hy'.1.symm
  · next hne =>
    rw [if_neg hne] at hy'
    exact h.unique hy hy'

lemma Places.allocated (hp : s.Places kind id x s') (h : s.Indexed) (i : UInt32) :
    (i = id ∨ i ∈ s.allocatedIndices) ↔ ∃ k y, s'.session k i = some y := by
  rw [h.allocated]
  by_cases heq : i = id
  · simp only [heq, true_or, true_iff]
    exact ⟨kind, x, by rw [hp, if_pos rfl, if_pos rfl]⟩
  · simp [heq, hp _ i]

lemma Places.sessionAt (hp : s.Places kind id x s') (i : UInt32) :
    s'.sessionAt i = if i = id then some x else s.sessionAt i := by
  simp only [State.sessionAt, hp _ i]
  split
  · cases kind <;> rfl
  · rfl

lemma Places.ips (hp : s.Places kind id x s') (hx : s.sessionAt id = some x)
    (hallocated : s'.allocatedIndices = s.allocatedIndices) : s'.ips = s.ips := by
  rw [State.ips, State.ips, hallocated]
  refine filterMap_congr fun i _ => ?_
  rw [hp.sessionAt]
  split
  · next heq => rw [heq, hx]
  · rfl

lemma Places.of_ne (hp : s.Places kind id x s') {k : SessionKind} (hk : k ≠ kind)
    (hnone : s.session k id = none) (i : UInt32) : s'.session k i = s.session k i := by
  rw [hp, if_neg hk]
  split
  · next heq => rw [heq, hnone]
  · rfl

lemma freeIndex_notMem {allocated : FiniteSet UInt32} {tries : Nat} {candidate : UInt32}
    (h : freeIndex allocated tries candidate = some id) : id ∉ allocated := by
  induction tries generalizing candidate with
  | zero => cases h
  | succ tries ih =>
    unfold freeIndex at h
    split at h
    · exact ih h
    · next hfree =>
      cases h
      exact hfree

lemma Indexed.session_reserved (h : s.Indexed) (hreserve : s.reserveSessionIndex = some id)
    (kind : SessionKind) : s.session kind id = none :=
  eq_none_iff_forall_ne_some.mpr fun x hx =>
    freeIndex_notMem hreserve ((h.allocated id).mpr ⟨kind, x, hx⟩)

lemma Indexed.start (h : s.Indexed) (hreserve : s.reserveSessionIndex = some id)
    (hp : s.Places kind id x s') (hkind : kind ≠ .transport)
    (hallocated : s'.allocatedIndices = s.allocatedIndices.insert id ())
    (hkey : s'.lastEstablishedSessionByPublicKey = s.lastEstablishedSessionByPublicKey)
    (hsocket : s'.lastEstablishedSessionBySocket = s.lastEstablishedSessionBySocket)
    (htotal : s'.totalSessions = s.totalSessions + 1)
    (hcounts : s'.ipSessionCounts = addIp s.ipSessionCounts x.remoteAddr.ip)
    (haccepted : ∀ key i, (key, i) ∈ s'.acceptedSessionsByPeer ↔
      ∃ x, s'.session .responding i = some x ∧ x.remotePublicKey = key)
    (hinitiated : ∀ key i, s'.initiatedSessionByPeer.lookup key = some i →
      ∃ x, s'.session .initiating i = some x ∧ x.remotePublicKey = key) : s'.Indexed := by
  have hfree := freeIndex_notMem hreserve
  have hkeys := keys_insert_of_notMem hfree ()
  have hlive : ∀ {κ : Type} (f : SessionState.Identity C → κ) k b i,
      s.LiveBy f k b i ∧ none ≠ some i ↔ s'.LiveBy f k b i ∧ none ≠ some i := by
    intro κ f k b i
    rw [LiveBy, LiveBy, hp.of_ne (Ne.symm hkind) (h.session_reserved hreserve .transport)]
  have hips : s'.ips = x.remoteAddr.ip :: s.ips := by
    rw [ips, hallocated, hkeys, filterMap_cons_some (by rw [hp.sessionAt, if_pos rfl]; rfl)]
    refine congrArg _ (filterMap_congr fun i hi => ?_)
    rw [hp.sessionAt, if_neg]
    rintro rfl
    exact hfree (mem_keys.mpr hi)
  refine ⟨hp.unique h, fun i => ?_, haccepted, hinitiated, hkey ▸ h.byKey.congr (hlive _),
    hsocket ▸ h.bySocket.congr (hlive _), ?_, ?_⟩
  · rw [hallocated, mem_insert, hp.allocated h]
  · rw [htotal, hallocated, hkeys, h.total, length_cons]
  · rw [hips, hcounts]
    exact h.counts.increment _

lemma places_of_insert (hnone : ∀ k, s.session k id = none)
    (h : ∀ k i, s'.session k i = if k = kind ∧ i = id then some x else s.session k i) :
    s.Places kind id x s' := by
  intro k i
  rw [h]
  by_cases heq : i = id
  · simp [heq, hnone]
  · simp [heq]

lemma Indexed.places_insertInitiator (h : s.Indexed) (hreserve : s.reserveSessionIndex = some id)
    (i : InitiatorState C) : s.Places .initiating id i.common.identity
      ((s.commit id).insertInitiator id i i.common.remotePublicKey) := by
  refine places_of_insert (h.session_reserved hreserve) fun k j => ?_
  cases k with
  | initiating =>
    simp only [session, State.insertInitiator, lookup_insert_eq_ite, true_and]
    split <;> rfl
  | responding | transport => rfl

lemma Indexed.places_insertResponder (h : s.Indexed) (hreserve : s.reserveSessionIndex = some id)
    (r : ResponderState C) : s.Places .responding id r.transport.common.identity
      ((s.commit id).insertResponder id r r.transport.common.remotePublicKey) := by
  refine places_of_insert (h.session_reserved hreserve) fun k j => ?_
  cases k with
  | responding =>
    simp only [session, insertResponder, lookup_insert_eq_ite, true_and]
    split <;> rfl
  | initiating | transport => rfl

theorem Indexed.insertInitiator (h : s.Indexed) (hreserve : s.reserveSessionIndex = some id)
    (i : InitiatorState C) :
    ((s.commit id).insertInitiator id i i.common.remotePublicKey).Indexed := by
  have hp := h.places_insertInitiator hreserve i
  refine h.start hreserve hp (by simp) rfl rfl rfl rfl rfl (fun key j => ?_) fun key j hinit => ?_
  · exact h.accepted key j
  · rw [hp]
    simp only [State.insertInitiator, lookup_insert_eq_ite] at hinit
    split at hinit
    · next hkey =>
      cases hinit
      exact ⟨i.common.identity, by simp, hkey.symm⟩
    · obtain ⟨y, hy, hkey⟩ := h.initiated key j hinit
      refine ⟨y, ?_, hkey⟩
      rw [if_neg, hy]
      rintro rfl
      rw [h.session_reserved hreserve] at hy
      cases hy

theorem Indexed.insertResponder (h : s.Indexed) (hreserve : s.reserveSessionIndex = some id)
    (r : ResponderState C) :
    ((s.commit id).insertResponder id r r.transport.common.remotePublicKey).Indexed := by
  have hp := h.places_insertResponder hreserve r
  refine h.start hreserve hp (by simp) rfl rfl rfl rfl rfl (fun key j => ?_) fun key j hinit => ?_
  · rw [hp]
    refine (mem_insert _).trans ((or_congr_right (h.accepted key j)).trans ?_)
    by_cases heq : j = id
    · simp [heq, h.session_reserved hreserve, eq_comm (b := key)]
      rfl
    · simp [heq]
  · exact h.initiated key j hinit

/-! ## Establishing a session -/

/-- The session that waits at an index is taken out of the table. -/
structure Taken (s : State C) (id : UInt32) (x : SessionState.Identity C) (s' : State C) :
    Prop where
  present : ∃ kind, kind ≠ .transport ∧ s.session kind id = some x
  session : ∀ kind i, s'.session kind i = if i = id then none else s.session kind i
  accepted : ∀ key i, (key, i) ∈ s'.acceptedSessionsByPeer ↔
    (key, i) ∈ s.acceptedSessionsByPeer ∧ i ≠ id
  initiated : ∀ key i, s'.initiatedSessionByPeer.lookup key = some i →
    s.initiatedSessionByPeer.lookup key = some i ∧ i ≠ id
  rest : ∃ initiating responding initiated accepted, s' = { s with
    initiatingSessions := initiating
    respondingSessions := responding
    initiatedSessionByPeer := initiated
    acceptedSessionsByPeer := accepted }

/-- Taking the session at an index away leaves none there. -/
lemma Indexed.session_of_removed (h : s.Indexed) (hx : s.session kind id = some x)
    (hremoved : ∀ k i, s'.session k i = if k = kind ∧ i = id then none else s.session k i)
    (k : SessionKind) (i : UInt32) : s'.session k i = if i = id then none else s.session k i := by
  rw [hremoved]
  by_cases heq : i = id
  · subst heq
    simp only [and_true, if_true, ite_eq_left_iff]
    exact fun hk => eq_none_iff_forall_ne_some.mpr fun y hy => hk (h.unique hy hx)
  · simp [heq]

lemma Indexed.removeInitiator (h : s.Indexed) {i : InitiatorState C}
    (hremove : s.removeInitiator id = some (i, s')) : s.Taken id i.common.identity s' := by
  unfold State.removeInitiator at hremove
  split at hremove
  · cases hremove
  next hlookup =>
  cases hremove
  have hx : s.session .initiating id = some i.common.identity := by rw [State.session, hlookup]; rfl
  refine ⟨⟨.initiating, by simp, hx⟩, h.session_of_removed hx fun k j => ?_, fun key j => ?_,
    fun key j hinit => ?_, _, _, _, _, rfl⟩
  · cases k with
    | initiating =>
      simp only [State.session, lookup_erase_eq_ite, true_and]
      split <;> rfl
    | responding | transport => rfl
  · rw [iff_self_and, h.accepted]
    rintro ⟨y, hy, -⟩ rfl
    cases h.unique hx hy
  · obtain ⟨hold, hne⟩ := lookup_erase_initiated hinit
    obtain ⟨y, hy, rfl⟩ := h.initiated key j hold
    refine ⟨hold, ?_⟩
    rintro rfl
    exact hne (by rw [h.session_inj hy hx]; rfl) rfl

lemma Indexed.removeResponder (h : s.Indexed) {r : ResponderState C}
    (hremove : s.removeResponder id = some (r, s')) :
    s.Taken id r.transport.common.identity s' := by
  unfold State.removeResponder at hremove
  split at hremove
  · cases hremove
  next hlookup =>
  cases hremove
  have hx : s.session .responding id = some r.transport.common.identity := by
    rw [State.session, hlookup]
    rfl
  refine ⟨⟨.responding, by simp, hx⟩, h.session_of_removed hx fun k j => ?_, fun key j => ?_,
    fun key j hinit => ⟨hinit, ?_⟩, _, _, _, _, rfl⟩
  · cases k with
    | responding =>
      simp only [State.session, lookup_erase_eq_ite, true_and]
      split <;> rfl
    | initiating | transport => rfl
  · rw [mem_erase, and_comm, and_congr_right_iff, h.accepted]
    rintro ⟨y, hy, rfl⟩
    rw [ne_eq, Prod.mk.injEq, not_iff_not, and_iff_right_iff_imp]
    rintro rfl
    rw [h.session_inj hy hx]
    rfl
  · rintro rfl
    obtain ⟨y, hy, -⟩ := h.initiated key j hinit
    cases h.unique hx hy

def pushEstablished (s : State C) (id : UInt32) (t : TransportState C) : State C :=
  { s with
    lastEstablishedSessionByPublicKey := (s.lastEstablishedSessionByPublicKey.push
      t.common.remotePublicKey t.common.isInitiator id t.common.created).2
    lastEstablishedSessionBySocket := (s.lastEstablishedSessionBySocket.push
      t.common.remoteAddr t.common.isInitiator id t.common.created).2
    transportSessions := s.transportSessions.insert id t }

/-- The sessions that have to make room for the session `t` at `id`. -/
def evictedBy (s : State C) (id : UInt32) (t : TransportState C) : List UInt32 :=
  let evicted := (s.lastEstablishedSessionByPublicKey.push t.common.remotePublicKey
    t.common.isInitiator id t.common.created).1
  let evicted' := (s.lastEstablishedSessionBySocket.push t.common.remoteAddr
    t.common.isInitiator id t.common.created).1
  evicted.toList ++ (if evicted' = evicted then [] else evicted'.toList)

variable {t : TransportState C}

lemma mem_evictedBy {i : UInt32} : i ∈ s.evictedBy id t ↔
    (s.lastEstablishedSessionByPublicKey.push t.common.remotePublicKey t.common.isInitiator id
      t.common.created).1 = some i ∨
    (s.lastEstablishedSessionBySocket.push t.common.remoteAddr t.common.isInitiator id
      t.common.created).1 = some i := by
  simp only [evictedBy, mem_append, mem_toList]
  split
  · next heq => simp [heq]
  · simp

/-- Sessions that make room may go after the new session is there. -/
lemma evict_insert {e : UInt32} (hne : e ≠ id) :
    ({ s with transportSessions := s.transportSessions.insert id t } : State C).evict e =
      { s.evict e with transportSessions := (s.evict e).transportSessions.insert id t } := by
  have hcomm : (s.transportSessions.insert id t).erase e =
      (s.transportSessions.erase e).insert id t := by
    refine ext ?_
    refine (kerase_cons_ne hne).trans ?_
    rw [kerase_comm]
    rfl
  simp only [evict, lookup_insert_ne hne]
  split
  · simp only [State.terminateSession, lookup_insert_ne hne, hcomm]
  · rfl

lemma foldl_evict_insert {evicted : List UInt32} (hne : id ∉ evicted) :
    evicted.foldl evict { s with transportSessions := s.transportSessions.insert id t } =
      let s' := evicted.foldl evict s
      { s' with transportSessions := s'.transportSessions.insert id t } := by
  induction evicted generalizing s with
  | nil => rfl
  | cons e evicted ih =>
    rw [mem_cons, not_or] at hne
    rw [foldl_cons, evict_insert (Ne.symm hne.1), ih hne.2]
    rfl

lemma Indexed.insertTransport_eq (h : s.Indexed) (htaken : s.Taken id x s') :
    s'.insertTransport id t = (s'.evictedBy id t).foldl evict (s'.pushEstablished id t) := by
  have hnone : ∀ kind, s'.session kind id = none := fun kind => by rw [htaken.session, if_pos rfl]
  have hi : id ∉ s'.initiatingSessions := by
    simpa [State.session, lookup_eq_none] using hnone .initiating
  have hr : id ∉ s'.respondingSessions := by
    simpa [State.session, lookup_eq_none] using hnone .responding
  have hne : id ∉ s'.evictedBy id t := by
    obtain ⟨kind, hkind, hx⟩ := htaken.present
    obtain ⟨_, _, _, _, rfl⟩ := htaken.rest
    rw [mem_evictedBy, evicted_push h.byKey.wellFormed, evicted_push h.bySocket.wellFormed]
    rintro (hi | hi)
    · obtain ⟨⟨y, hy, -⟩, -⟩ := (h.byKey.mem _ _ _).mp (mem_of_getElem? hi)
      exact hkind (h.unique hx hy)
    · obtain ⟨⟨y, hy, -⟩, -⟩ := (h.bySocket.mem _ _ _).mp (mem_of_getElem? hi)
      exact hkind (h.unique hx hy)
  simp only [insertTransport, erase_of_notMem hi, erase_of_notMem hr, ite_self]
  exact (foldl_evict_insert hne).symm

/-- The session moves from the sessions that wait to the transport sessions. -/
lemma Taken.places (h : s.Taken id x s') (ht : t.common.identity = x) :
    s.Places .transport id x (s'.pushEstablished id t) := by
  intro k i
  have hold := h.session k i
  cases k with
  | initiating | responding => exact hold
  | transport =>
    simp only [State.session, State.pushEstablished, lookup_insert_eq_ite]
    split
    · exact congrArg some ht
    · next hne => rwa [if_neg hne] at hold

/-- A new session in a table, and the session that has to make room. -/
lemma lists_push (h : s.Indexed) (hp : s.Places .transport id x s')
    (hnone : s.session .transport id = none) {κ : Type} [DecidableEq κ]
    {f : SessionState.Identity C → κ} {table : EstablishedTable κ}
    (hlists : table.Lists fun k b i => s.LiveBy f k b i ∧ none ≠ some i) (created : Nat) :
    (table.push (f x) x.isInitiator id created).2.Lists fun k b i => s'.LiveBy f k b i ∧
      (table.push (f x) x.isInitiator id created).1 ≠ some i := by
  have hnot : ∀ k b, ¬ s.LiveBy f k b id := by
    rintro k b ⟨y, hy, -⟩
    rw [hnone] at hy
    cases hy
  have hevicted : ∀ i, (table.push (f x) x.isInitiator id created).1 = some i →
      s.LiveBy f (f x) x.isInitiator i := by
    intro i hi
    rw [evicted_push hlists.wellFormed] at hi
    exact ((hlists.mem _ _ i).mp (mem_of_getElem? hi)).1
  refine (hlists.push _ _ created fun hlive => hnot _ _ hlive.1).congr fun k b i => ?_
  by_cases heq : i = id
  · subst heq
    have hkept : (table.push (f x) x.isInitiator i created).1 ≠ some i :=
      fun hi => hnot _ _ (hevicted i hi)
    have hlive : s'.LiveBy f k b i ↔ f x = k ∧ x.isInitiator = b := by simp [LiveBy, hp _ i]
    simp [hnot, hkept, hlive, eq_comm]
  · have hlive : s'.LiveBy f k b i ↔ s.LiveBy f k b i := by
      rw [LiveBy, LiveBy, hp, if_neg heq]
    rw [hlive]
    simp only [heq, and_false, false_or, ne_eq, reduceCtorEq, not_false_eq_true, and_true,
      and_congr_right_iff, not_iff_not]
    rintro ⟨y, hy, rfl, rfl⟩
    refine ⟨(·.2.2), fun hi => ?_⟩
    obtain ⟨y', hy', hf, hb⟩ := hevicted i hi
    obtain rfl := h.session_inj hy hy'
    exact ⟨hf, hb, hi⟩

lemma Indexed.pushEstablished (h : s.Indexed) (htaken : s.Taken id x s')
    (ht : t.common.identity = x) : (s'.pushEstablished id t).IndexedBut
      (s'.lastEstablishedSessionByPublicKey.push t.common.remotePublicKey t.common.isInitiator id
        t.common.created).1
      (s'.lastEstablishedSessionBySocket.push t.common.remoteAddr t.common.isInitiator id
        t.common.created).1 := by
  subst ht
  have hp := htaken.places rfl
  obtain ⟨kind, hkind, hx⟩ := htaken.present
  have hnone : s.session .transport id = none :=
    eq_none_iff_forall_ne_some.mpr fun y hy => hkind (h.unique hx hy)
  have hmem : id ∈ s.allocatedIndices := (h.allocated id).mpr ⟨kind, _, hx⟩
  have hwaits : ∀ k, k ≠ .transport → ∀ i, (s'.pushEstablished id t).session k i =
      if i = id then none else s.session k i := fun k hk i => by rw [hp, if_neg hk]
  obtain ⟨_, _, _, _, rfl⟩ := htaken.rest
  refine ⟨hp.unique h, fun i => ?_, fun key i => ?_, fun key i hinit => ?_,
    lists_push h hp hnone h.byKey _, lists_push h hp hnone h.bySocket _, h.total, ?_⟩
  · rw [← hp.allocated h, or_iff_right_of_imp]
    · rfl
    · rintro rfl
      exact hmem
  · rw [hwaits _ (by simp)]
    refine (htaken.accepted key i).trans ?_
    rw [h.accepted]
    by_cases heq : i = id <;> simp [heq]
  · obtain ⟨hold, hne⟩ := htaken.initiated key i hinit
    rw [hwaits _ (by simp), if_neg hne]
    exact h.initiated key i hold
  · rw [hp.ips (h.sessionAt hx) rfl]
    exact h.counts

lemma session_of_evict {e : UInt32} (h : (s.evict e).session kind id = some x) :
    s.session kind id = some x ∧ (kind = .transport → id ≠ e) := by
  unfold evict at h
  split at h
  · rw [session_terminateSession] at h
    split at h
    · cases h
    · next hne => exact ⟨h, fun _ => hne⟩
  · next hnone =>
    refine ⟨h, ?_⟩
    rintro rfl rfl
    rw [session, hnone] at h
    cases h

lemma session_of_foldl_evict {evicted : List UInt32}
    (h : (evicted.foldl evict s).session kind id = some x) :
    s.session kind id = some x ∧ (kind = .transport → id ∉ evicted) := by
  induction evicted generalizing s with
  | nil => exact ⟨h, fun _ => not_mem_nil⟩
  | cons e evicted ih =>
    obtain ⟨hevict, hrest⟩ := ih h
    obtain ⟨hbefore, hne⟩ := session_of_evict hevict
    exact ⟨hbefore, fun hkind => by simp [hne hkind, hrest hkind]⟩

lemma IndexedBut.foldl_evict (h : s.IndexedBut goneByKey goneBySocket) (evicted : List UInt32) :
    (evicted.foldl evict s).IndexedBut goneByKey goneBySocket := by
  induction evicted generalizing s with
  | nil => exact h
  | cons e evicted ih =>
    refine ih ?_
    unfold evict
    split
    · next t ht => exact h.terminateSession (show s.session .transport e = _ by rw [session, ht]; rfl)
    · exact h

/-- The tables leave out no session that is there. -/
lemma IndexedBut.indexed (h : s.IndexedBut goneByKey goneBySocket)
    (hgone : ∀ i y, s.session .transport i = some y → goneByKey ≠ some i ∧ goneBySocket ≠ some i) :
    s.Indexed where
  __ := h
  byKey := h.byKey.congr fun k b i => and_congr_right fun ⟨y, hy, _⟩ => by simp [(hgone i y hy).1]
  bySocket := h.bySocket.congr fun k b i =>
    and_congr_right fun ⟨y, hy, _⟩ => by simp [(hgone i y hy).2]

/-- Establishing a session; sessions that are there afterwards were there before. -/
theorem Indexed.establish (h : s.Indexed) (htaken : s.Taken id x s')
    (ht : t.common.identity = x) : (s'.insertTransport id t).Indexed ∧
      ∀ kind i y, (s'.insertTransport id t).session kind i = some y →
        kind = .transport ∧ i = id ∧ y = x ∨ s.session kind i = some y := by
  have hpush := h.pushEstablished htaken ht
  rw [h.insertTransport_eq htaken]
  refine ⟨(hpush.foldl_evict _).indexed fun i y hy => ?_, fun kind i y hy => ?_⟩
  · have hkept := (session_of_foldl_evict hy).2 rfl
    rw [mem_evictedBy, not_or] at hkept
    exact hkept
  · have hbefore := (session_of_foldl_evict hy).1
    rw [htaken.places ht] at hbefore
    split at hbefore
    · next heq =>
      obtain ⟨rfl, hx⟩ := ite_none_right_eq_some.mp hbefore
      exact .inl ⟨rfl, heq, (some.inj hx).symm⟩
    · exact .inr hbefore

/-! ## Changes of one session -/

/-- The session at an index is replaced by a later state of itself. -/
lemma session_update {s' : State C} (hx : s.session kind id = some x)
    (h : ∀ k i, s'.session k i = if k = kind ∧ i = id then some x else s.session k i)
    (k : SessionKind) (i : UInt32) : s'.session k i = s.session k i := by
  rw [h]
  split
  · next heq => rw [heq.1, heq.2, hx]
  · rfl

lemma Indexed.update (h : s.Indexed) (hsession : ∀ k i, s'.session k i = s.session k i)
    (hrest : ∃ initiating responding transport, s' = { s with
      initiatingSessions := initiating
      respondingSessions := responding
      transportSessions := transport }) : s'.Indexed := by
  have hlive : ∀ {κ : Type} (f : SessionState.Identity C → κ) k b i, s.LiveBy f k b i ∧ none ≠ some i ↔
      s'.LiveBy f k b i ∧ none ≠ some i := by
    intro κ f k b i
    rw [LiveBy, LiveBy, hsession]
  have hips : ∀ i, s'.sessionAt i = s.sessionAt i := fun i => by simp only [State.sessionAt, hsession]
  obtain ⟨_, _, _, rfl⟩ := hrest
  refine ⟨fun {_ k k' _ _} hy hy' => ?_, fun i => ?_, fun key i => ?_, fun key i hinit => ?_,
    h.byKey.congr (hlive _), h.bySocket.congr (hlive _), h.total, ?_⟩
  · rw [hsession] at hy hy'
    exact h.unique hy hy'
  · simp only [hsession]
    exact h.allocated i
  · rw [hsession]
    exact h.accepted key i
  · rw [hsession]
    exact h.initiated key i hinit
  · rw [ips]
    simp only [hips]
    exact h.counts

end State

end Kinet.Wireauth
