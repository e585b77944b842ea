import Kinet.Wireauth.Runs

/-!
# Replayed first messages

A first message of a peer is accepted only if it is newer than the sessions that the table
knows of.  Of the transport sessions the source looks at the one established last.  If
accepted sessions are established in the order of their timestamps, a first message is
never accepted while a session lives that comes from the same or a later one.

Main results:

- `no_handshake_replay`: no replay if sessions are established in order.
- `replay_after_disorder`: a replay while the session lives.
-/

namespace Kinet.Wireauth

open Crypto List State SessionEvent ResponderState Option Checked

variable {C : Crypto}

/-- The timestamp of a first message of the peer whose session is established. -/
def SessionEvent.establishedTime (key : C.PubKey) : SessionEvent C → Option Tai64N
  | established key' _ timestamp => if key' = key then timestamp else none
  | initiated _ _ => none
  | accepted _ _ _ => none

/-- Sessions that were accepted from the peer are established in the order of the timestamps. -/
def EstablishedInOrder (key : C.PubKey) (log : List (SessionEvent C)) : Prop :=
  (log.filterMap (establishedTime key)).Pairwise (· ≤ ·)

/-- A session is alive that was accepted from a first message of the peer with this
timestamp. -/
def State.AcceptedAlive (s : State C) (key : C.PubKey) (time : Tai64N) : Prop :=
  ∃ kind id identity, kind ≠ .initiating ∧ s.session kind id = some identity ∧
    identity.remotePublicKey = key ∧ identity.initiatorTimestamp = some time

/-! ## Sessions and their timestamps -/

/-- Sessions have a timestamp if the peer has sent the first message. -/
def State.Dated (s : State C) : Prop :=
  ∀ kind id identity, s.session kind id = some identity →
    identity.isInitiator = identity.initiatorTimestamp.isNone

variable {s : State C} {events : List (SessionEvent C)}

lemma Change.dated {s' : State C} (h : Change s events s')
    (hs : s.Indexed) (hdated : s.Dated) : s'.Dated := by
  intro kind id identity hsession
  cases h.origin hs hsession with
  | kept before => exact hdated kind id identity before
  | initiated _ role timestamp | accepted _ role timestamp => rw [role, timestamp]; rfl
  | established kind' _ before => exact hdated kind' id identity before

namespace State

variable {s : State C} {id : UInt32} {key : C.PubKey} {b : Bool}

/-- The table of keys is well formed and lists at most `l` under `key` and `b`. -/
structure ListsWithin (s : State C) (key : C.PubKey) (b : Bool) (l : List UInt32) : Prop where
  wellFormed : s.lastEstablishedSessionByPublicKey.WellFormed
  sublist : (s.lastEstablishedSessionByPublicKey.ids key b).Sublist l

lemma ListsWithin.terminateSession {l : List UInt32} (h : s.ListsWithin key b l) (id : UInt32)
    (key' : C.PubKey) (addr : SocketAddr) :
    (s.terminateSession id key' addr).ListsWithin key b l := by
  cases ht : s.transportSessions.lookup id with
  | none =>
    have heq : (s.terminateSession id key' addr).lastEstablishedSessionByPublicKey =
        s.lastEstablishedSessionByPublicKey := by simp [State.terminateSession, ht]
    exact ⟨heq ▸ h.wellFormed, heq ▸ h.sublist⟩
  | some t =>
    have heq : (s.terminateSession id key' addr).lastEstablishedSessionByPublicKey =
        s.lastEstablishedSessionByPublicKey.drop key' t.common.isInitiator id := by
      simp [State.terminateSession, ht]
    refine ⟨heq ▸ EstablishedTable.wellFormed_drop h.wellFormed _ _ _, ?_⟩
    rw [heq, EstablishedTable.ids_drop h.wellFormed]
    split
    · next hsame =>
      obtain ⟨rfl, rfl⟩ := hsame
      exact erase_sublist.trans h.sublist
    · exact h.sublist

lemma ListsWithin.foldl_evict {l : List UInt32} (h : s.ListsWithin key b l)
    (evicted : List UInt32) : (evicted.foldl evict s).ListsWithin key b l := by
  induction evicted generalizing s with
  | nil => exact h
  | cons e evicted ih =>
    refine ih ?_
    unfold evict
    split
    · exact h.terminateSession _ _ _
    · exact h

lemma Indexed.ids_insertTransport {s' : State C} {x : SessionState.Identity C} (h : s.Indexed)
    (htaken : s.Taken id x s') (t : TransportState C) (key : C.PubKey) (b : Bool) :
    ((s'.insertTransport id t).lastEstablishedSessionByPublicKey.ids key b).Sublist
      (if key = t.common.remotePublicKey ∧ b = t.common.isInitiator then
        id :: s.lastEstablishedSessionByPublicKey.ids key b
      else s.lastEstablishedSessionByPublicKey.ids key b) := by
  have hw := h.byKey.wellFormed
  rw [h.insertTransport_eq htaken]
  obtain ⟨_, _, _, _, rfl⟩ := htaken.rest
  refine (ListsWithin.foldl_evict ⟨EstablishedTable.wellFormed_push hw _ _ _ _, ?_⟩ _).sublist
  rw [State.pushEstablished, EstablishedTable.ids_push hw]
  split
  · next hsame =>
    obtain ⟨rfl, rfl⟩ := hsame
    exact (take_sublist 1 _).cons_cons id
  · exact .refl _

end State

/-- A change drops sessions from the table of keys, or it establishes a session and puts it
in front. -/
lemma Change.ids_sublist {s' : State C}
    (h : Change s events s') (hs : s.Indexed) (key : C.PubKey) (b : Bool) :
    (s'.lastEstablishedSessionByPublicKey.ids key b).Sublist
        (s.lastEstablishedSessionByPublicKey.ids key b) ∨
      ∃ index timestamp, events = [.established key index timestamp] ∧
        s.session .transport index = none ∧
        (s'.lastEstablishedSessionByPublicKey.ids key b).Sublist
          (index :: s.lastEstablishedSessionByPublicKey.ids key b) := by
  cases h with
  | @establish s' index x t taken _ =>
    have hids := hs.ids_insertTransport taken t key b
    split at hids
    · next hsame =>
      obtain ⟨rfl, rfl⟩ := hsame
      -- the index of the new session had no transport session before
      obtain ⟨kind, hkind, hx⟩ := taken.present
      refine .inr ⟨index, _, rfl, ?_, hids⟩
      exact eq_none_iff_forall_ne_some.mpr fun y hy => hkind (hs.unique hx hy)
    · exact .inl hids
  | terminate _ =>
    exact .inl (ListsWithin.terminateSession ⟨hs.byKey.wellFormed, .refl _⟩ _ _ _).sublist
  | update _ rest =>
    obtain ⟨_, _, _, rfl⟩ := rest
    exact .inl (.refl _)
  | initiate | accept => exact .inl (.refl _)

/-! ## The order of the established sessions -/

def State.NotBefore (s : State C) (a b : UInt32) : Prop :=
  ∀ ia ib ta tb, s.session .transport a = some ia → s.session .transport b = some ib →
    ia.initiatorTimestamp = some ta → ib.initiatorTimestamp = some tb → tb ≤ ta

/-- The table of keys lists the sessions accepted from a peer with the newest first, and all
their timestamps are in the log. -/
structure Ordered (s : State C) (log : List (SessionEvent C)) (key : C.PubKey) : Prop where
  logged : ∀ id identity time, s.session .transport id = some identity →
    identity.remotePublicKey = key → identity.initiatorTimestamp = some time →
    time ∈ log.filterMap (establishedTime key)
  sorted : (s.lastEstablishedSessionByPublicKey.ids key false).Pairwise s.NotBefore

variable {id : UInt32} {identity : SessionState.Identity C}

section

variable {s s' : State C} {events log : List (SessionEvent C)} {key : C.PubKey}

lemma Change.session_of_listed (h : Change s events s') (hs : s.Indexed) {b : Bool}
    (hid : id ∈ s.lastEstablishedSessionByPublicKey.ids key b)
    (hsession : s'.session .transport id = some identity) :
    s.session .transport id = some identity ∧ identity.remotePublicKey = key := by
  obtain ⟨x, hx, hkey, -⟩ := hs.mem_byKey.mp hid
  have hsame : identity = x := by
    cases h.origin hs hsession with
    | kept before => exact hs.session_inj before hx
    | established kind _ before => exact hs.session_inj before hx
  subst hsame
  exact ⟨hx, hkey⟩

lemma Change.ordered (h : Change s events s') (hs : s.Indexed) (hord : Ordered s log key)
    (hlog : EstablishedInOrder key (log ++ events)) : Ordered s' (log ++ events) key := by
  rw [EstablishedInOrder, filterMap_append, pairwise_append] at hlog
  obtain ⟨-, -, hlater⟩ := hlog
  have htail : (s.lastEstablishedSessionByPublicKey.ids key false).Pairwise s'.NotBefore := by
    refine hord.sorted.imp_of_mem fun {a b} ha hb hnotBefore ia ib ta tb hia hib => ?_
    exact hnotBefore ia ib ta tb (h.session_of_listed hs ha hia).1
      (h.session_of_listed hs hb hib).1
  refine ⟨fun id identity time hsession hkey htime => ?_, ?_⟩
  · rw [filterMap_append, mem_append]
    cases h.origin hs hsession with
    | kept before => exact .inl (hord.logged id identity time before hkey htime)
    | established kind _ before =>
      right
      simp [establishedTime, hkey, htime]
  · obtain hsublist | ⟨index, timestamp, rfl, hnone, hsublist⟩ := h.ids_sublist hs key false
    · exact htail.sublist hsublist
    · refine (pairwise_cons.mpr ⟨fun b hb ia ib ta tb hia hib hta htb => ?_, htail⟩).sublist
        hsublist
      obtain ⟨hib, hkey⟩ := h.session_of_listed hs hb hib
      refine hlater tb (hord.logged b ib tb hib hkey htb) ta ?_
      -- the session in front is the one that is established
      generalize hevents : [established key index timestamp] = events at h
      cases h.origin hs hia with
      | kept before =>
        rw [hnone] at before
        cases before
      | established kind _ before =>
        cases hevents
        simp [establishedTime, hta]

end

variable {log : List (SessionEvent C)}

lemma Changes.ordered {s₀ : State C} {key : C.PubKey}
    (h : Changes s₀ log s) (hs : s₀.Indexed) (hord : Ordered s₀ [] key)
    (hlog : EstablishedInOrder key log) : Ordered s log key := by
  induction h with
  | refl => exact hord
  | step changes change ih =>
    have hbefore := hlog
    rw [EstablishedInOrder, filterMap_append, pairwise_append] at hbefore
    exact change.ordered (changes.indexed hs) (ih hbefore.1) hlog

lemma Changes.dated {s₀ : State C} (h : Changes s₀ log s)
    (hs : s₀.Indexed) (hdated : s₀.Dated) : s.Dated := by
  induction h with
  | refl => exact hdated
  | step changes change ih => exact change.dated (changes.indexed hs) ih

lemma State.session_empty (kind : SessionKind) (id : UInt32) :
    ({} : State C).session kind id = none := by
  cases kind <;> rfl

/-! ## The bound on timestamps -/

namespace State

variable {s : State C} {key : C.PubKey} {time : Tai64N}

lemma exists_le_max? {l : List Tai64N} (h : time ∈ l) : ∃ a, l.max? = some a ∧ time ≤ a := by
  cases hmax : l.max? with
  | none =>
    rw [max?_eq_none_iff] at hmax
    rw [hmax] at h
    cases h
  | some a => exact ⟨a, rfl, (max?_eq_some_iff.mp hmax).2 time h⟩

lemma exists_le_getMaxTimestamp (h : (∃ a, (s.acceptedTimestamps key).max? = some a ∧ time ≤ a) ∨
      ∃ o, s.openTimestamp key = some o ∧ time ≤ o) :
    ∃ m, s.getMaxTimestamp key = some m ∧ time ≤ m := by
  unfold getMaxTimestamp
  obtain ⟨a, ha, hle⟩ | ⟨o, ho, hle⟩ := h
  · rw [ha]
    cases s.openTimestamp key with
    | none => exact ⟨a, rfl, hle⟩
    | some o => exact ⟨max a o, rfl, hle.trans (le_max_left a o)⟩
  · rw [ho]
    cases (s.acceptedTimestamps key).max? with
    | none => exact ⟨o, rfl, hle⟩
    | some a => exact ⟨max a o, rfl, hle.trans (le_max_right a o)⟩

lemma Indexed.mem_acceptedTimestamps (h : s.Indexed)
    (hsession : s.session .responding id = some identity)
    (hkey : identity.remotePublicKey = key) (htime : identity.initiatorTimestamp = some time) :
    time ∈ s.acceptedTimestamps key := by
  have hmem := mem_acceptedRange.mpr ((h.accepted key id).mpr ⟨identity, hsession, hkey⟩)
  simp only [session, map_eq_some_iff] at hsession
  obtain ⟨r, hr, rfl⟩ := hsession
  simp only [acceptedTimestamps, mem_filterMap]
  exact ⟨r, ⟨id, hmem, hr⟩, htime⟩

variable (h : s.Indexed) (hdated : s.Dated)
  (hsorted : (s.lastEstablishedSessionByPublicKey.ids key false).Pairwise s.NotBefore)
include h hdated hsorted

/-- The source looks at the first session that the table lists. -/
lemma Indexed.exists_le_openTimestamp (hsession : s.session .transport id = some identity)
    (hkey : identity.remotePublicKey = key) (htime : identity.initiatorTimestamp = some time) :
    ∃ o, s.openTimestamp key = some o ∧ time ≤ o := by
  have hrole : identity.isInitiator = false := by
    rw [hdated _ _ _ hsession, htime]
    rfl
  have hid : id ∈ s.lastEstablishedSessionByPublicKey.ids key false :=
    h.mem_byKey.mpr ⟨identity, hsession, hkey, hrole⟩
  cases hids : s.lastEstablishedSessionByPublicKey.ids key false with
  | nil =>
    rw [hids] at hid
    cases hid
  | cons first rest =>
    obtain ⟨x, hfirst, -, hrole'⟩ : s.LiveBy _ key false first := h.mem_byKey.mp (by simp [hids])
    obtain ⟨o, ho⟩ : ∃ o, x.initiatorTimestamp = some o := by
      have hnone : x.initiatorTimestamp.isNone = false := (hdated _ _ _ hfirst).symm.trans hrole'
      rwa [isNone_eq_false_iff, isSome_iff_exists] at hnone
    obtain ⟨created, hcurrent⟩ := RoleSessions.current_of_ids
      (EstablishedTable.packed_get h.byKey.wellFormed key false) hids
    refine ⟨o, ?_, ?_⟩
    · have hlookup : ∃ sessions, s.lastEstablishedSessionByPublicKey.lookup key = some sessions ∧
          sessions.responder.current = some (first, created) := by
        unfold EstablishedTable.get at hcurrent
        cases hsessions : s.lastEstablishedSessionByPublicKey.lookup key with
        | none =>
          rw [hsessions] at hcurrent
          cases hcurrent
        | some sessions =>
          rw [hsessions] at hcurrent
          exact ⟨sessions, rfl, hcurrent⟩
      obtain ⟨sessions, hsessions, hresponder⟩ := hlookup
      simp only [session, map_eq_some_iff] at hfirst
      obtain ⟨t, ht, rfl⟩ := hfirst
      simp only [openTimestamp, hsessions, hresponder, ht, bind_some]
      exact ho
    · rw [hids, pairwise_cons] at hsorted
      rw [hids, mem_cons] at hid
      obtain rfl | hid := hid
      · rw [hsession, some.injEq] at hfirst
        have heq : some time = some o := htime.symm.trans ((congrArg _ hfirst).trans ho)
        exact (some.inj heq).le
      · exact hsorted.1 id hid x identity o time hfirst hsession ho htime

/-- The bound covers all sessions that were accepted from a peer. -/
lemma Indexed.exists_le_getMaxTimestamp
    (halive : s.AcceptedAlive key time) : ∃ m, s.getMaxTimestamp key = some m ∧ time ≤ m := by
  obtain ⟨kind, id, identity, hkind, hsession, hkey, htime⟩ := halive
  apply State.exists_le_getMaxTimestamp
  cases kind with
  | initiating => exact absurd rfl hkind
  | responding => exact .inl (exists_le_max? (h.mem_acceptedTimestamps hsession hkey htime))
  | transport =>
    exact .inr (h.exists_le_openTimestamp hdated hsorted hsession hkey htime)

end State

/-- If the sessions accepted from a peer are established in the order of their timestamps,
then a first message is not accepted while a session of the same or a later one is alive. -/
theorem no_handshake_replay {config : Config C} {localStaticKey : C.KeyPair} {rng : C.Rng}
    {api api' : API C} {key : C.PubKey} {time : Tai64N}
    (hrun : Run (API.new config localStaticKey rng) api)
    (horder : EstablishedInOrder key api.log) (halive : api.state.AcceptedAlive key time)
    {clock : Clock} {packet : HandshakeInitiation C} {addr : SocketAddr}
    {validated : ValidatedHandshakeInit C} {result : Except (Error C) Unit}
    (hvalidate : (validateInit api.localStaticKey packet).run = .ok (.ok validated))
    (hkey : validated.remotePublicKey = key) (htime : validated.timestamp ≤ time)
    (haccept : (API.acceptHandshakeInit clock packet addr).run.run api = .ok (result, api')) :
    api'.state = api.state ∧ api'.log = api.log ∧
      (result = .ok () ∨ result = .error .timestampReplay ∨
        ∃ e, result = .error (.crypto e)) := by
  have hordered : Ordered api.state api.log key := by
    refine hrun.changes.ordered indexed_empty ⟨fun id identity time hsession => ?_, ?_⟩ horder
    · cases hsession
    · exact Pairwise.nil
  have hdated : api.state.Dated := by
    refine hrun.changes.dated indexed_empty fun kind id identity hsession => ?_
    rw [session_empty] at hsession
    cases hsession
  obtain ⟨latest, hlatest, hle⟩ :=
    hrun.indexed.exists_le_getMaxTimestamp hdated hordered.sorted halive
  -- a message that gets a session is newer than the bound
  have hstale : ∀ validated', (validateInit api.localStaticKey packet).run =
      .ok (.ok validated') → ¬ API.IsFresh api.state validated' := by
    intro validated' hvalidate' hfresh
    rw [hvalidate] at hvalidate'
    cases hvalidate'
    rw [← hkey] at hlatest
    exact absurd (hfresh latest hlatest) (not_lt.mpr (htime.trans hle))
  cases API.after_acceptHandshakeInit clock packet addr api result api' haccept with
  | dropped state log reason => exact ⟨state, log, reason⟩
  | invalid state log validate =>
    rw [hvalidate] at validate
    cases validate
  | exhausted state log validate fresh
  | accepted validate fresh => exact absurd fresh (hstale _ validate)

/-! ## A replay -/

/-- The second session comes from the second first message. -/
lemma acceptedAlive_of_session {api : API symbolic} {time : Option Tai64N}
    (h : (api.state.session .transport 1).map (fun identity =>
      (identity.remotePublicKey, identity.initiatorTimestamp)) = some (samplePeer, time))
    {t : Tai64N} (htime : time = some t) : api.state.AcceptedAlive samplePeer t := by
  rw [map_eq_some_iff] at h
  obtain ⟨identity, hsession, hidentity⟩ := h
  rw [Prod.mk.injEq] at hidentity
  exact ⟨.transport, 1, identity, by decide, hsession, hidentity.1, hidentity.2.trans htime⟩

theorem no_handshake_replay_sample :
    ∃ (api api' : API symbolic) (result : Except (Error symbolic) Unit), Run sampleNode api ∧
      api.state.AcceptedAlive samplePeer (.ofSystemTime (secs 2)) ∧
      (API.acceptHandshakeInit ⟨0, 0⟩ (sampleInit 2) sampleAddr).run.run api =
        .ok (result, api') ∧
      api'.state = api.state := by
  have heval : (do
      let before ← sampleNode.performAll ⟨0, 0⟩ [sampleReceive 1, sampleReceive 2]
      let api ← before.performAll ⟨0, 0⟩ [sampleFirstPacket before 0, sampleFirstPacket before 1]
      match ← (validateInit api.localStaticKey (sampleInit 2)).run with
      | .error _ => .error .unwrapNone
      | .ok validated =>
        let _ ← (API.acceptHandshakeInit ⟨0, 0⟩ (sampleInit 2) sampleAddr).run.run api
        pure (api.log.filterMap (establishedTime samplePeer),
          (api.state.session .transport 1).map fun identity =>
            (identity.remotePublicKey, identity.initiatorTimestamp),
          validated.remotePublicKey, validated.timestamp) : Checked _) =
      .ok ([.ofSystemTime (secs 1), .ofSystemTime (secs 2)],
        some (samplePeer, some (.ofSystemTime (secs 2))), samplePeer,
        .ofSystemTime (secs 2)) := by decide +kernel
  simp only [bind_eq_ok] at heval
  obtain ⟨before, hbefore, api, hapi, _ | validated, hvalidate, heval⟩ := heval
  · cases heval
  simp only [bind_eq_ok] at heval
  obtain ⟨⟨result, api'⟩, haccept, hfacts⟩ := heval
  simp only [pure, Except.pure, Except.ok.injEq, Prod.mk.injEq] at hfacts
  obtain ⟨hlog, hsession, hkey, htime⟩ := hfacts
  have hrun := (run_of_performAll hbefore).trans (run_of_performAll hapi)
  have halive := acceptedAlive_of_session hsession rfl
  refine ⟨api, api', result, hrun, halive, haccept, ?_⟩
  refine (no_handshake_replay hrun ?_ halive hvalidate hkey htime.le haccept).1
  rw [EstablishedInOrder, hlog]
  decide

/-- The second session is established before the first one.  The first one hides it then, and
its first message is accepted again while it is alive. -/
theorem replay_after_disorder :
    ∃ (api api' : API symbolic) (validated : ValidatedHandshakeInit symbolic),
      Run sampleNode api ∧ api.state.AcceptedAlive samplePeer (.ofSystemTime (secs 2)) ∧
      (validateInit api.localStaticKey (sampleInit 2)).run = .ok (.ok validated) ∧
      validated.remotePublicKey = samplePeer ∧ validated.timestamp = .ofSystemTime (secs 2) ∧
      (API.acceptHandshakeInit ⟨0, 0⟩ (sampleInit 2) sampleAddr).run.run api = .ok (.ok (), api') ∧
      api.state.respondingSessions.keys = [] ∧ api'.state.respondingSessions.keys = [2] := by
  have heval : (do
      let before ← sampleNode.performAll ⟨0, 0⟩ [sampleReceive 1, sampleReceive 2]
      let api ← before.performAll ⟨0, 0⟩ [sampleFirstPacket before 1, sampleFirstPacket before 0]
      match ← (validateInit api.localStaticKey (sampleInit 2)).run with
      | .error _ => .error .unwrapNone
      | .ok validated =>
        match ← (API.acceptHandshakeInit ⟨0, 0⟩ (sampleInit 2) sampleAddr).run.run api with
        | (.error _, _) => .error .unwrapNone
        | (.ok (), api') =>
          pure ((api.state.session .transport 1).map fun identity =>
              (identity.remotePublicKey, identity.initiatorTimestamp),
            validated.remotePublicKey, validated.timestamp,
            decide (api.state.respondingSessions.keys = [] ∧
              api'.state.respondingSessions.keys = [2])) : Checked _) =
      .ok (some (samplePeer, some (.ofSystemTime (secs 2))), samplePeer, .ofSystemTime (secs 2),
        true) := by decide +kernel
  simp only [bind_eq_ok] at heval
  obtain ⟨before, hbefore, api, hapi, _ | validated, hvalidate, heval⟩ := heval
  · cases heval
  simp only [bind_eq_ok] at heval
  obtain ⟨⟨_ | _, api'⟩, haccept, hfacts⟩ := heval
  · cases hfacts
  simp only [pure, Except.pure, Except.ok.injEq, Prod.mk.injEq, decide_eq_true_eq] at hfacts
  obtain ⟨hsession, hkey, htime, hkeys, hkeys'⟩ := hfacts
  exact ⟨api, api', validated, (run_of_performAll hbefore).trans (run_of_performAll hapi),
    acceptedAlive_of_session hsession rfl, hvalidate, hkey, htime, haccept, hkeys, hkeys'⟩

end Kinet.Wireauth
