import Kinet.Wireauth.Runs

/-!
# Disconnecting a peer

`disconnect` ends the sessions that the table lists under the key of the peer.  The index of
initiated sessions holds one session per peer, and a second one overwrites the first.  If
the index lists every session that was initiated to the peer, nothing of the peer is left,
and no packet brings a session back.

Main results:

- `disconnect_complete`: nothing is left if the index lists what was initiated.
- `disconnect_misses_session`: a session that survives, and what becomes of it.
-/

namespace Kinet.Wireauth

open List State

variable {C : Crypto}

def State.HasSession (s : State C) (key : C.PubKey) : Prop :=
  ∃ kind id identity, s.session kind id = some identity ∧ identity.remotePublicKey = key

/-- A connection, a rekeying or an accepted first message for this key. -/
def SessionEvent.starts (key : C.PubKey) : SessionEvent C → Bool
  | initiated key' _ => key' = key
  | accepted key' _ _ => key' = key
  | established _ _ _ => false

/-! ## Nothing comes back -/

variable {events : List (SessionEvent C)} {s : State C} {key : C.PubKey} {s' : State C}

/-- Without a start there is no new session of a peer. -/
lemma Change.hasSession (h : Change s events s')
    (hs : s.Indexed) (hstarts : ∀ e ∈ events, e.starts key = false)
    (hsession : s'.HasSession key) : s.HasSession key := by
  obtain ⟨kind, id, identity, hidentity, rfl⟩ := hsession
  cases h.origin hs hidentity with
  | kept before => exact ⟨kind, id, identity, before, rfl⟩
  | initiated _ _ _ | accepted _ _ _ => simp [SessionEvent.starts] at hstarts
  | established kind' _ before => exact ⟨kind', id, identity, before, rfl⟩

lemma Change.hasSession_of_established {index : UInt32}
    {timestamp : Option Tai64N} (h : Change s events s')
    (hevent : .established key index timestamp ∈ events) : s.HasSession key := by
  cases h with
  | @establish _ _ x t taken hidentity =>
    simp only [mem_singleton, SessionEvent.established.injEq] at hevent
    obtain ⟨rfl, rfl, rfl⟩ := hevent
    obtain ⟨kind, -, hx⟩ := taken.present
    exact ⟨kind, index, x, hx, hidentity ▸ rfl⟩
  | initiate | accept | update | terminate => simp at hevent

lemma Changes.no_session (h : Changes s events s') (hs : s.Indexed)
    (hnone : ¬ s.HasSession key) (hstarts : ∀ e ∈ events, e.starts key = false) :
    ¬ s'.HasSession key ∧ ∀ index timestamp, .established key index timestamp ∉ events := by
  induction h with
  | refl => exact ⟨hnone, fun _ _ => not_mem_nil⟩
  | step changes change ih =>
    obtain ⟨hbefore, hevents⟩ := ih fun e he => hstarts e (mem_append_left _ he)
    refine ⟨fun hsession => hbefore (change.hasSession (changes.indexed hs)
      (fun e he => hstarts e (mem_append_right _ he)) hsession), fun index timestamp => ?_⟩
    rw [mem_append, not_or]
    exact ⟨hevents index timestamp, fun hevent => hbefore (change.hasSession_of_established hevent)⟩

/-! ## Nothing is left -/

lemma State.Indexed.hasAnySession_eq_false (h : s.Indexed)
    (hnone : ¬ s.HasSession key) : s.hasAnySessionByPublicKey key = false := by
  have hids : ∀ id, id ∉ s.sessionIdsByPublicKey key := fun id hid => by
    obtain ⟨kind, identity, hsession, hkey⟩ := h.exists_of_mem_sessionIds hid
    exact hnone ⟨kind, id, identity, hsession, hkey⟩
  have hlatest : s.latestByPublicKey key = none :=
    Option.eq_none_iff_forall_ne_some.mpr fun id hid => hids id (mem_sessionIds_of_latest hid)
  have htransport : s.hasTransportByPublicKey key = false := by
    simp [hasTransportByPublicKey, hlatest]
  simp only [mem_sessionIdsByPublicKey, not_or] at hids
  have hinitiated : s.initiatedSessionByPeer.lookup key = none :=
    Option.eq_none_iff_forall_ne_some.mpr fun id => (hids id).1
  have haccepted : s.acceptedRange key = [] :=
    eq_nil_iff_forall_not_mem.mpr fun id hid =>
      (hids id).2.1 (mem_acceptedRange.mp hid)
  simp [hasAnySessionByPublicKey, htransport, hinitiated, haccepted]

lemma no_session_terminateByPublicKey (h : s.Indexed)
    (hindexed : ∀ id i, s.initiatingSessions.lookup id = some i →
      i.common.remotePublicKey = key → s.initiatedSessionByPeer.lookup key = some id) :
    ¬ (s.terminateByPublicKey key).HasSession key := by
  rintro ⟨kind, id, identity, hsession, rfl⟩
  replace hsession := (session_foldl_terminate _ kind).symm.trans hsession
  split at hsession
  · cases hsession
  · next hid =>
    refine hid (h.mem_sessionIds hsession ?_)
    rintro rfl
    simp only [session, Option.map_eq_some_iff] at hsession
    obtain ⟨i, hi, rfl⟩ := hsession
    exact hindexed id i hi rfl

/-- If the index lists every session that was initiated to a peer, then nothing of the peer
is left after it was disconnected, and no packet brings a session back. -/
theorem disconnect_complete {config : Config C} {localStaticKey : C.KeyPair} {rng : C.Rng}
    {api api' : API C} {clock : Clock} {key : C.PubKey}
    (hrun : Run (API.new config localStaticKey rng) api)
    (hindexed : ∀ id i, api.state.initiatingSessions.lookup id = some i →
      i.common.remotePublicKey = key → api.state.initiatedSessionByPeer.lookup key = some id)
    (hdisconnect : (Call.disconnect key).Leads clock api api') :
    ¬ api'.state.HasSession key ∧ api'.state.hasAnySessionByPublicKey key = false ∧
    ∀ api'', Run api' api'' → (∀ e ∈ api''.log.drop api'.log.length, e.starts key = false) →
      ¬ api''.state.HasSession key ∧
      ∀ index timestamp, .established key index timestamp ∉ api''.log.drop api'.log.length := by
  have hs := hrun.indexed
  have hs' : api'.state.Indexed :=
    (Run.step clock (.disconnect key) hrun hdisconnect).indexed
  have hnone : ¬ api'.state.HasSession key := by
    obtain ⟨result, hresult⟩ := hdisconnect
    cases hresult
    exact no_session_terminateByPublicKey hs hindexed
  refine ⟨hnone, hs'.hasAnySession_eq_false hnone, fun api'' hlater hstarts => ?_⟩
  obtain ⟨events, hchanges, hlog⟩ := hlater.evolves hs'
  rw [hlog, drop_left] at hstarts ⊢
  exact hchanges.no_session hs' hnone hstarts

/-! ## A session that is missed -/

def sampleConnect : Call symbolic := .connect samplePeer sampleAddr 0

theorem disconnect_complete_sample :
    ∃ api api' : API symbolic, Run sampleNode api ∧ api.state.HasSession samplePeer ∧
      (Call.disconnect samplePeer).Leads ⟨0, 0⟩ api api' ∧ ¬ api'.state.HasSession samplePeer := by
  have heval : (do
      let api ← sampleNode.performAll ⟨0, 0⟩ [sampleConnect]
      let _ ← api.performAll ⟨0, 0⟩ [.disconnect samplePeer]
      pure (api.state.initiatingSessions.keys, api.state.initiatedSessionByPeer.lookup samplePeer,
        (api.state.session .initiating 0).map (·.remotePublicKey)) :
      Checked _) = .ok ([0], some 0, some samplePeer) := by decide +kernel
  simp only [Checked.bind_eq_ok] at heval
  obtain ⟨api, hapi, api', hapi', hfacts⟩ := heval
  simp only [pure, Except.pure, Except.ok.injEq, Prod.mk.injEq, Option.map_eq_some_iff] at hfacts
  obtain ⟨hkeys, hinitiated, identity, hsession, hkey⟩ := hfacts
  have hleads := leads_of_performAll hapi'
  refine ⟨api, api', run_of_performAll hapi, ⟨.initiating, 0, identity, hsession, hkey⟩, hleads, ?_⟩
  refine (disconnect_complete (run_of_performAll hapi) (fun id i hi _ => ?_) hleads).1
  have hid : id ∈ api.state.initiatingSessions.keys :=
    AList.mem_keys.mp (FiniteMap.mem_iff_lookup.mpr ⟨i, hi⟩)
  rw [hkeys, mem_singleton] at hid
  rw [hid, hinitiated]

/-- The peer answers the first message of the first connection. -/
def sampleAnswer : ExceptT (SessionError symbolic) Checked (HandshakeResponse symbolic) := do
  let validated ← ResponderState.validateInit (2 : Nat)
    (sendHandshakeInit (sampleNode.rng : Nat) (.ofSystemTime 0) 0 (1 : Nat) samplePeer none).1
  let (_, _, response, _) ← ExceptT.lift (ResponderState.new (20 : Nat) 0 (.default symbolic) 5
    none validated sampleAddr)
  pure response

/-- The node connects twice and disconnects: the first session is left, although the table
knows of none, and the answer to it establishes a transport session. -/
theorem disconnect_misses_session :
    ∃ (api api' api'' : API symbolic) (answer : HandshakeResponse symbolic), Run sampleNode api ∧
      (Call.disconnect samplePeer).Leads ⟨0, 0⟩ api api' ∧ api'.state.HasSession samplePeer ∧
      api'.state.hasAnySessionByPublicKey samplePeer = false ∧
      sampleAnswer.run = .ok (.ok answer) ∧
      (Call.dispatchControl (.handshakeResponse answer) sampleAddr).Leads ⟨0, 0⟩ api' api'' ∧
      (∀ e ∈ api''.log.drop api'.log.length, e.starts samplePeer = false) ∧
      ∃ t, api''.state.transportSessions.lookup 0 = some t ∧
        t.common.remotePublicKey = samplePeer := by
  have heval : (do
      match ← sampleAnswer.run with
      | .error _ => .error .unwrapNone
      | .ok answer =>
        let api ← sampleNode.performAll ⟨0, 0⟩ [sampleConnect, sampleConnect]
        let api' ← api.performAll ⟨0, 0⟩ [.disconnect samplePeer]
        let api'' ← api'.performAll ⟨0, 0⟩ [.dispatchControl (.handshakeResponse answer) sampleAddr]
        pure ((api'.state.session .initiating 0).map (·.remotePublicKey),
          api'.state.hasAnySessionByPublicKey samplePeer,
          (api''.log.drop api'.log.length).all fun e => !e.starts samplePeer,
          (api''.state.transportSessions.lookup 0).map (·.common.remotePublicKey)) :
      Checked _) = .ok (some samplePeer, false, true, some samplePeer) := by decide +kernel
  rw [Checked.bind_eq_ok] at heval
  obtain ⟨_ | answer, hanswer, heval⟩ := heval
  · cases heval
  simp only [Checked.bind_eq_ok] at heval
  obtain ⟨api, hapi, api', hapi', api'', hapi'', hfacts⟩ := heval
  simp only [pure, Except.pure, Except.ok.injEq, Prod.mk.injEq, Option.map_eq_some_iff,
    all_eq_true, Bool.not_eq_true'] at hfacts
  obtain ⟨⟨identity, hsession, hkey⟩, hany, hlog, htransport⟩ := hfacts
  exact ⟨api, api', api'', answer, run_of_performAll hapi, leads_of_performAll hapi',
    ⟨.initiating, 0, identity, hsession, hkey⟩, hany, hanswer, leads_of_performAll hapi'', hlog,
    htransport⟩

end Kinet.Wireauth
