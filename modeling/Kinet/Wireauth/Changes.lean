import Mathlib.Data.List.Dedup
import Kinet.Wireauth.Api
import Kinet.Wireauth.Indexed

/-!
# Changes of the session table

The session table changes in a few ways only: a session is initiated, accepted, established,
replaced by a later state of itself, or ended.  Invariants of runs are proved from the
changes, not from the code of the calls.

Main results:

- `Change.indexed`: changes keep the indices right.
- `Change.origin`: where the sessions after a change come from.
- `State.Indexed.changes_terminateByPublicKey`: disconnecting a peer only makes such
  changes.
-/

namespace Kinet.Wireauth

open FiniteMap State Option List

variable {C : Crypto}

/-! ## Changes of the session table -/

/-- One change of the session table, with the events that are logged for it. -/
inductive Change : State C → List (SessionEvent C) → State C → Prop
  | initiate {s : State C} {index : UInt32} {i : InitiatorState C}
      (reserved : s.reserveSessionIndex = some index)
      (role : i.common.isInitiator = true) (timestamp : i.common.initiatorTimestamp = none) :
      Change s [.initiated i.common.remotePublicKey index]
        ((s.commit index).insertInitiator index i i.common.remotePublicKey)
  | accept {s : State C} {index : UInt32} {r : ResponderState C} {time : Tai64N}
      (reserved : s.reserveSessionIndex = some index)
      (role : r.transport.common.isInitiator = false)
      (timestamp : r.transport.common.initiatorTimestamp = some time) :
      Change s [.accepted r.transport.common.remotePublicKey index time]
        ((s.commit index).insertResponder index r r.transport.common.remotePublicKey)
  | establish {s s' : State C} {index : UInt32} {x : SessionState.Identity C}
      {t : TransportState C} (taken : s.Taken index x s') (identity : t.common.identity = x) :
      Change s [.established t.common.remotePublicKey index t.common.initiatorTimestamp]
        (s'.insertTransport index t)
  | update {s s' : State C} (session : ∀ kind id, s'.session kind id = s.session kind id)
      (rest : ∃ initiating responding transport, s' = { s with
        initiatingSessions := initiating
        respondingSessions := responding
        transportSessions := transport }) : Change s [] s'
  | terminate {s : State C} {kind : SessionKind} {index : UInt32} {x : SessionState.Identity C}
      (present : s.session kind index = some x) :
      Change s [] (s.terminateSession index x.remotePublicKey x.remoteAddr)

/-- Changes one after the other. -/
inductive Changes : State C → List (SessionEvent C) → State C → Prop
  | refl (s : State C) : Changes s [] s
  | step {s s' s'' : State C} {events events' : List (SessionEvent C)}
      (changes : Changes s events s') (change : Change s' events' s'') :
      Changes s (events ++ events') s''

variable {events : List (SessionEvent C)} {s s' : State C} {index : UInt32}

lemma Change.changes (h : Change s events s') : Changes s events s' := .step (.refl s) h

lemma Changes.trans {s'' : State C} {events' : List (SessionEvent C)} (h : Changes s events s')
    (h' : Changes s' events' s'') : Changes s (events ++ events') s'' := by
  induction h' with
  | refl => simpa using h
  | step _ change ih =>
    rw [← append_assoc]
    exact .step ih change

lemma Change.updateInitiator {i i' : InitiatorState C}
    (present : s.initiatingSessions.lookup index = some i)
    (identity : i'.common.identity = i.common.identity) :
    Change s [] { s with initiatingSessions := s.initiatingSessions.insert index i' } := by
  have hx : s.session .initiating index = some i'.common.identity := by
    rw [session, present, identity]
    rfl
  refine .update (session_update hx fun k j => ?_) ⟨_, _, _, rfl⟩
  cases k with
  | initiating =>
    simp only [session, lookup_insert_eq_ite, true_and]
    split <;> rfl
  | responding | transport => rfl

lemma Change.updateResponder {r r' : ResponderState C}
    (present : s.respondingSessions.lookup index = some r)
    (identity : r'.transport.common.identity = r.transport.common.identity) :
    Change s [] { s with respondingSessions := s.respondingSessions.insert index r' } := by
  have hx : s.session .responding index = some r'.transport.common.identity := by
    rw [session, present, identity]
    rfl
  refine .update (session_update hx fun k j => ?_) ⟨_, _, _, rfl⟩
  cases k with
  | responding =>
    simp only [session, lookup_insert_eq_ite, true_and]
    split <;> rfl
  | initiating | transport => rfl

lemma Change.updateTransport {t t' : TransportState C}
    (present : s.transportSessions.lookup index = some t)
    (identity : t'.common.identity = t.common.identity) :
    Change s [] { s with transportSessions := s.transportSessions.insert index t' } := by
  have hx : s.session .transport index = some t'.common.identity := by
    rw [session, present, identity]
    rfl
  refine .update (session_update hx fun k j => ?_) ⟨_, _, _, rfl⟩
  cases k with
  | transport =>
    simp only [session, lookup_insert_eq_ite, true_and]
    split <;> rfl
  | initiating | responding => rfl

theorem Change.indexed (h : Change s events s') (hs : s.Indexed) : s'.Indexed := by
  cases h with
  | initiate reserved _ _ => exact hs.insertInitiator reserved _
  | accept reserved _ _ => exact hs.insertResponder reserved _
  | establish taken identity => exact (hs.establish taken identity).1
  | update session rest => exact hs.update session rest
  | terminate present => exact hs.terminateSession present

theorem Changes.indexed (h : Changes s events s') (hs : s.Indexed) : s'.Indexed := by
  induction h with
  | refl => exact hs
  | step _ change ih => exact change.indexed ih

/-! ## Where sessions come from -/

/-- Where a session comes from that is there after a change: it was there before, or the
change has added it. -/
inductive Origin (s : State C) : List (SessionEvent C) → SessionKind → UInt32 →
    SessionState.Identity C → Prop
  | kept {events : List (SessionEvent C)} {kind : SessionKind} {id : UInt32}
      {identity : SessionState.Identity C} (before : s.session kind id = some identity) :
      Origin s events kind id identity
  | initiated {id : UInt32} (identity : SessionState.Identity C)
      (role : identity.isInitiator = true) (timestamp : identity.initiatorTimestamp = none) :
      Origin s [.initiated identity.remotePublicKey id] .initiating id identity
  | accepted {id : UInt32} (identity : SessionState.Identity C) {time : Tai64N}
      (role : identity.isInitiator = false)
      (timestamp : identity.initiatorTimestamp = some time) :
      Origin s [.accepted identity.remotePublicKey id time] .responding id identity
  | established (kind : SessionKind) {id : UInt32} (identity : SessionState.Identity C)
      (before : s.session kind id = some identity) :
      Origin s [.established identity.remotePublicKey id identity.initiatorTimestamp] .transport id
        identity

variable {kind : SessionKind} {id : UInt32} {identity : SessionState.Identity C}

/-- A session after a change that puts one session into the table. -/
lemma Origin.of_places {kind' : SessionKind} {added : SessionState.Identity C}
    (hadded : Origin s events kind' index added) (hp : s.Places kind' index added s')
    (h : s'.session kind id = some identity) : Origin s events kind id identity := by
  rw [hp] at h
  split at h
  · next heq =>
    obtain ⟨rfl, hx⟩ := ite_none_right_eq_some.mp h
    cases hx
    exact heq ▸ hadded
  · exact .kept h

theorem Change.origin (h : Change s events s') (hs : s.Indexed)
    (hsession : s'.session kind id = some identity) : Origin s events kind id identity := by
  cases h with
  | @initiate index i reserved role timestamp =>
    exact .of_places (.initiated i.common.identity role timestamp)
      (hs.places_insertInitiator reserved i) hsession
  | @accept index r time reserved role timestamp =>
    exact .of_places (.accepted r.transport.common.identity role timestamp)
      (hs.places_insertResponder reserved r) hsession
  | @establish s' index x t taken hidentity =>
    subst hidentity
    obtain ⟨rfl, rfl, rfl⟩ | hbefore := (hs.establish taken rfl).2 _ _ _ hsession
    · obtain ⟨kind, -, hx⟩ := taken.present
      exact .established kind _ hx
    · exact .kept hbefore
  | update session _ => exact .kept (session kind id ▸ hsession)
  | terminate _ =>
    rw [session_terminateSession] at hsession
    split at hsession
    · cases hsession
    · exact .kept hsession

/-! ## Ending all sessions of a peer -/

namespace State

variable {key : C.PubKey}

lemma mem_acceptedRange : id ∈ s.acceptedRange key ↔ (key, id) ∈ s.acceptedSessionsByPeer := by
  simp [acceptedRange, ← AList.mem_keys]

lemma mem_sessionIdsByPublicKey : id ∈ s.sessionIdsByPublicKey key ↔
    s.initiatedSessionByPeer.lookup key = some id ∨ (key, id) ∈ s.acceptedSessionsByPeer ∨
      ∃ b, id ∈ s.lastEstablishedSessionByPublicKey.ids key b := by
  simp only [sessionIdsByPublicKey, mem_dedup, mem_append, mem_acceptedRange,
    mem_toList, Bool.exists_bool, EstablishedTable.ids,
    EstablishedSessions.role, if_true, Bool.false_eq_true, if_false]
  tauto

lemma mem_sessionIds_of_latest (h : s.latestByPublicKey key = some id) :
    id ∈ s.sessionIdsByPublicKey key := by
  rw [mem_sessionIdsByPublicKey]
  rw [latestByPublicKey, bind_eq_some_iff] at h
  obtain ⟨sessions, hsessions, hlatest⟩ := h
  obtain ⟨b, hb⟩ := EstablishedSessions.exists_mem_ids_of_getLatest hlatest
  exact .inr (.inr ⟨b, by rwa [EstablishedTable.ids, EstablishedTable.get, hsessions]⟩)

/-- The indices list sessions of the peer. -/
lemma Indexed.exists_of_mem_sessionIds (h : s.Indexed)
    (hid : id ∈ s.sessionIdsByPublicKey key) :
    ∃ kind identity, s.session kind id = some identity ∧ identity.remotePublicKey = key := by
  rw [mem_sessionIdsByPublicKey] at hid
  obtain hinit | haccepted | ⟨b, hmem⟩ := hid
  · exact ⟨.initiating, h.initiated key id hinit⟩
  · exact ⟨.responding, (h.accepted key id).mp haccepted⟩
  · obtain ⟨x, hx, hkey, -⟩ := h.mem_byKey.mp hmem
    exact ⟨.transport, x, hx, hkey⟩

/-- Sessions that the indices must list: all but the sessions that were initiated. -/
lemma Indexed.mem_sessionIds (h : s.Indexed) (hsession : s.session kind id = some identity)
    (hkind : kind = .initiating →
      s.initiatedSessionByPeer.lookup identity.remotePublicKey = some id) :
    id ∈ s.sessionIdsByPublicKey identity.remotePublicKey := by
  rw [mem_sessionIdsByPublicKey]
  cases kind with
  | initiating => exact .inl (hkind rfl)
  | responding => exact .inr (.inl ((h.accepted _ _).mpr ⟨identity, hsession, rfl⟩))
  | transport =>
    exact .inr (.inr ⟨identity.isInitiator, h.mem_byKey.mpr ⟨identity, hsession, rfl, rfl⟩⟩)

lemma remoteAddrOf_eq (s : State C) (id : UInt32) :
    s.remoteAddrOf id = (s.sessionAt id).map fun x => x.remoteAddr := by
  unfold remoteAddrOf sessionAt session
  cases s.transportSessions.lookup id <;> cases s.initiatingSessions.lookup id <;>
    cases s.respondingSessions.lookup id <;> rfl

lemma exists_of_sessionAt (h : s.sessionAt id = some identity) :
    ∃ kind, s.session kind id = some identity := by
  simp only [sessionAt, orElse_eq_orElse, orElse_eq_or, or_eq_some_iff] at h
  obtain h | ⟨-, h | ⟨-, h⟩⟩ := h
  · exact ⟨_, h⟩
  · exact ⟨_, h⟩
  · exact ⟨_, h⟩

/-- One step of the end of all sessions of a peer. -/
lemma session_terminateAt (kind : SessionKind) (id' : UInt32) : (match s.remoteAddrOf id with
      | some addr => s.terminateSession id key addr
      | none => s).session kind id' = if id' = id then none else s.session kind id' := by
  cases haddr : s.remoteAddrOf id with
  | some addr => exact session_terminateSession key addr kind id'
  | none =>
    dsimp only
    split
    · next heq =>
      subst heq
      rw [remoteAddrOf_eq, map_eq_none_iff] at haddr
      simp only [sessionAt, orElse_eq_orElse, orElse_eq_or, or_eq_none_iff] at haddr
      cases kind
      · exact haddr.2.1
      · exact haddr.2.2
      · exact haddr.1
    · rfl

lemma session_foldl_terminate (ids : List UInt32) (kind : SessionKind) : (ids.foldl (fun s id =>
      match s.remoteAddrOf id with
      | some addr => s.terminateSession id key addr
      | none => s) s).session kind id = if id ∈ ids then none else s.session kind id := by
  induction ids generalizing s with
  | nil => simp
  | cons e ids ih =>
    rw [foldl_cons, ih, session_terminateAt]
    by_cases hmem : id ∈ ids <;> by_cases heq : id = e <;> simp [hmem, heq]

lemma changes_foldl_terminate {ids : List UInt32}
    (hkey : ∀ id ∈ ids, ∀ kind identity, s.session kind id = some identity →
      identity.remotePublicKey = key) :
    Changes s [] (ids.foldl (fun s id =>
      match s.remoteAddrOf id with
      | some addr => s.terminateSession id key addr
      | none => s) s) := by
  induction ids generalizing s with
  | nil => exact .refl s
  | cons e ids ih =>
    have hstep : Changes s [] (match s.remoteAddrOf e with
        | some addr => s.terminateSession e key addr
        | none => s) := by
      cases haddr : s.remoteAddrOf e with
      | none => exact .refl s
      | some addr =>
        rw [remoteAddrOf_eq, map_eq_some_iff] at haddr
        obtain ⟨x, hx, rfl⟩ := haddr
        obtain ⟨kind, hx⟩ := exists_of_sessionAt hx
        obtain rfl := hkey e mem_cons_self kind x hx
        exact (Change.terminate hx).changes
    refine hstep.trans (ih fun id hid kind identity hsession => ?_)
    rw [session_terminateAt] at hsession
    split at hsession
    · cases hsession
    · exact hkey id (mem_cons_of_mem e hid) kind identity hsession

theorem Indexed.changes_terminateByPublicKey (h : s.Indexed) (key : C.PubKey) :
    Changes s [] (s.terminateByPublicKey key) := by
  refine changes_foldl_terminate fun id hid kind identity hsession => ?_
  obtain ⟨kind', identity', hsession', hkey⟩ := h.exists_of_mem_sessionIds hid
  rw [h.session_inj hsession hsession']
  exact hkey

end State

end Kinet.Wireauth
