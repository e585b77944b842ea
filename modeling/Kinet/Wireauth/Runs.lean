import Kinet.Wireauth.Changes

/-!
# Runs of the session layer

The calls of the interface change the session table by the changes of `Change`, one after the
other, and the log lists their events.

Main results:

- `API.after_acceptHandshakeInit`: what becomes of a first message.
- `Run.evolves`: a run is a sequence of changes.
-/

namespace Kinet.Wireauth

open ResponderState SessionState.Identity State Checked

variable {C : Crypto}

/-! ## Changes made by the calls -/

variable {rng : C.Rng}

namespace API

open Fallible

/-- A session layer after some changes of its session table; the log lists them. -/
def Evolves (api api' : API C) : Prop :=
  ∃ events, Changes api.state events api'.state ∧ api'.log = api.log ++ events

variable {api api' api₀ : API C} {terminated : Option (TerminatedEvent C)}

lemma evolves_of_eq (hstate : api'.state = api.state) (hlog : api'.log = api.log) :
    api.Evolves api' :=
  ⟨[], hstate ▸ .refl api.state, by simpa using hlog⟩

lemma Evolves.refl (api : API C) : api.Evolves api := evolves_of_eq rfl rfl

lemma Evolves.trans {api'' : API C} (h : api.Evolves api') (h' : api'.Evolves api'') :
    api.Evolves api'' := by
  obtain ⟨events, hchanges, hlog⟩ := h
  obtain ⟨events', hchanges', hlog'⟩ := h'
  exact ⟨events ++ events', hchanges.trans hchanges', by rw [hlog', hlog, List.append_assoc]⟩

lemma Evolves.indexed (h : api.Evolves api') (hs : api.state.Indexed) : api'.state.Indexed := by
  obtain ⟨events, hchanges, -⟩ := h
  exact hchanges.indexed hs

lemma evolves_of_change {events : List (SessionEvent C)} (h : Change api.state events api'.state)
    (hlog : api'.log = api.log ++ events) : api.Evolves api' := ⟨events, h.changes, hlog⟩

section

variable {α β ε : Type}

lemma after_ofExcept (f : ε → Error C) (x : Except ε α) (Q : Except (Error C) α → API C → Prop) :
    after (ofExcept f x) api Q ↔
      (∀ a, x = .ok a → Q (.ok a) api) ∧ ∀ e, x = .error e → Q (.error (f e)) api := by
  cases x with
  | ok a | error e => simp [ofExcept]

lemma after_ofFallible (f : ε → Error C) (x : ExceptT ε Checked α)
    (Q : Except (Error C) α → API C → Prop) :
    after (ofFallible f x) api Q ↔ (∀ a, x.run = .ok (.ok a) → Q (.ok a) api) ∧
        ∀ e, x.run = .ok (.error e) → Q (.error (f e)) api := by
  unfold ofFallible
  rw [after_bind, after_ofChecked]
  simp only [andThen_ok, after_ofExcept]
  constructor
  · intro h
    exact ⟨fun a ha => (h _ ha).1 a rfl, fun e he => (h _ he).2 e rfl⟩
  · rintro ⟨hok, herror⟩ a ha
    refine ⟨?_, ?_⟩
    · rintro a' rfl
      exact hok a' ha
    · rintro e rfl
      exact herror e ha

/-- A call that changes sessions by changes of the table only. -/
def Evolving (m : ApiM C α) : Prop :=
  ∀ api : API C, api.state.Indexed → after m api fun _ api' => api.Evolves api'

/-- A call that leaves the sessions as they are. -/
def Silent (m : ApiM C α) : Prop :=
  ∀ api : API C, after m api fun _ api' => api'.state = api.state ∧ api'.log = api.log

variable {m : ApiM C α}

lemma Silent.evolving (h : Silent m) : Evolving m :=
  fun api _ => after_mono (h api) fun _ _ hsame => evolves_of_eq hsame.1 hsame.2

lemma evolving_pure (a : α) : Evolving (pure a : ApiM C α) := by
  intro api _
  rw [after_pure]
  exact .refl api

lemma Evolving.bind {f : α → ApiM C β} (h : Evolving m)
    (hf : ∀ a, Evolving (f a)) : Evolving (m >>= f) := by
  intro api hs
  rw [after_bind]
  refine after_mono (h api hs) fun r api' hevolves => ?_
  cases r with
  | error e => exact hevolves
  | ok a =>
    exact after_mono (hf a api' (hevolves.indexed hs)) fun _ _ hevolves' =>
      hevolves.trans hevolves'

lemma after_of_evolves (h : api.Evolves api')
    (hm : api'.state.Indexed → after m api' fun _ api'' => api'.Evolves api'')
    (hs : api.state.Indexed) : after m api' fun _ api'' => api.Evolves api'' :=
  after_mono (hm (h.indexed hs)) fun _ _ h' => h.trans h'

end

/-! ### Starting a session -/

lemma silent_checkConnectRateLimit (clock : Clock) :
    Silent (checkConnectRateLimit clock : ApiM C Unit) := by
  intro api
  simp only [checkConnectRateLimit, after_bind, after_get, andThen_ok, after_set, after_ite,
    after_throw]
  split <;> simp

section

variable (clock : Clock) (key : C.PubKey) (addr : SocketAddr) (cookie : Option (C.Array 16))
  (retryAttempts : Nat)

/-- The session that is started has a new index. -/
lemma after_initSessionWithCookie (api : API C) :
    after (initSessionWithCookie clock key addr cookie retryAttempts) api fun _ api' =>
      api' = api ∨ ∃ index i, Change api.state [.initiated key index] api'.state ∧
        api'.log = api.log ++ [.initiated key index] ∧
        api.state.reserveSessionIndex = some index ∧
        api'.state = (api.state.commit index).insertInitiator index i i.common.remotePublicKey := by
  unfold initSessionWithCookie
  rw [after_get_bind]
  cases hindex : api.state.reserveSessionIndex with
  | none =>
    rw [after_throw]
    exact .inl rfl
  | some index =>
    simp only [after_bind, after_ofChecked, setRng, setState, after_modify, andThen_ok, after_pure]
    rintro ⟨i, timer, message, rng⟩ hnew
    have hidentity := InitiatorState.identity_new hnew
    have hkey : i.common.remotePublicKey = key :=
      congrArg remotePublicKey hidentity
    subst hkey
    refine .inr ⟨index, i, ?_, rfl, rfl, rfl⟩
    exact .initiate hindex (congrArg isInitiator hidentity) (congrArg initiatorTimestamp hidentity)

lemma evolving_initSessionWithCookie :
    Evolving (initSessionWithCookie clock key addr cookie retryAttempts) := by
  intro api hs
  refine after_mono (after_initSessionWithCookie clock key addr cookie retryAttempts api) ?_
  rintro _ api' (rfl | ⟨index, i, hchange, hlog, -⟩)
  · exact .refl api'
  · exact evolves_of_change hchange hlog

end

lemma silent_enqueuePacket (addr : SocketAddr) (packet : List C.Byte) :
    Silent (enqueuePacket addr packet) := by
  intro api
  simp [enqueuePacket]

lemma silent_insertTimer (timer : Nat) (index : UInt32) :
    Silent (insertTimer timer index : ApiM C Unit) := by
  intro api
  simp [insertTimer]

lemma evolving_connect (clock : Clock) (key : C.PubKey) (addr : SocketAddr)
    (retryAttempts : Nat) : Evolving (connect clock key addr retryAttempts) := by
  refine (silent_checkConnectRateLimit clock).evolving.bind fun _ api hs => ?_
  simp only [after_bind, after_get, andThen_ok, after_ite, after_throw]
  refine ⟨fun _ => .refl api, fun _ => ?_⟩
  simp only [← after_bind]
  refine (evolving_initSessionWithCookie clock key addr _ retryAttempts).bind (fun _ => ?_) api hs
  exact (silent_enqueuePacket _ _).evolving.bind fun _ => (silent_insertTimer _ _).evolving

/-! ### Timers -/

/-- While the timer of the session at `index` is handled the session is still there, and it
ends under its own key and address. -/
structure Handling (api₀ : API C) (index : UInt32) (terminated : Option (TerminatedEvent C))
    (api : API C) : Prop where
  evolves : api₀.Evolves api
  present : ∃ kind x, api.state.session kind index = some x ∧
    ∀ e, terminated = some e → e = ⟨x.remotePublicKey, x.remoteAddr⟩

variable {index : UInt32} {M : Type}

/-- The session at `index` was replaced by a later state of itself. -/
lemma handling_of_change {result : TickResult C} {state : State C} {kind : SessionKind}
    {common : SessionState C} (hchange : Change api.state [] state)
    (hsession : state.session kind index = some common.identity) (hends : result.Ends common) :
    let api' := { api with state := state, rng := rng, log := api.log ++ [] }
    api.Evolves api' ∧ ∀ result', (.ok (some result) : Except (Error C) _) = .ok (some result') →
      Handling api index result'.terminated api' := by
  have hevolves : api.Evolves { api with state := state, rng := rng, log := api.log ++ [] } :=
    evolves_of_change hchange rfl
  refine ⟨hevolves, fun _ h => ?_⟩
  cases h
  exact ⟨hevolves, kind, common.identity, hsession, hends⟩

lemma after_tickSession (now : Nat) (index : UInt32) (api : API C) :
    after (tickSession now index) api fun r api' => api.Evolves api' ∧
      ∀ result, r = .ok (some result) → Handling api index result.terminated api' := by
  have hnone : api.Evolves api ∧ ∀ result : TickResult C,
      (.ok none : Except (Error C) _) = .ok (some result) →
        Handling api index result.terminated api := ⟨.refl api, fun _ h => by cases h⟩
  unfold tickSession
  rw [after_get_bind]
  cases hi : api.state.initiatingSessions.lookup index with
  | some i =>
    dsimp only
    cases htick : i.tick now with
    | none => rwa [after_pure]
    | some p =>
      simp only [after_bind, setState, after_modify, andThen_ok, after_pure]
      obtain ⟨hidentity, hends⟩ := InitiatorState.tick_spec htick
      exact handling_of_change (.updateInitiator hi hidentity)
        (show session _ .initiating index = _ by simp [session, hidentity]) hends
  | none =>
    cases hr : api.state.respondingSessions.lookup index with
    | some r =>
      dsimp only
      cases htick : r.tick now with
      | none => rwa [after_pure]
      | some p =>
        simp only [after_bind, setState, after_modify, andThen_ok, after_pure]
        obtain ⟨⟨⟨-, hidentity⟩, -⟩, hends⟩ := tick_spec htick
        exact handling_of_change (.updateResponder hr hidentity)
          (show session _ .responding index = _ by simp [session, hidentity]) hends
    | none =>
      cases ht : api.state.transportSessions.lookup index with
      | none => rwa [after_pure]
      | some t =>
        simp only [after_bind, after_ofChecked, setRng, setState, after_modify, andThen_ok,
          after_pure]
        rintro ⟨result, t', rng⟩ htick
        obtain ⟨⟨⟨-, hidentity⟩, -⟩, hends⟩ := TransportState.tick_spec htick
        exact handling_of_change (.updateTransport ht hidentity)
          (show session _ .transport index = _ by simp [session, hidentity]) hends

lemma Silent.handling {α : Type} {m : ApiM C α} (h : Silent m) :
    Preserves (Handling api₀ index terminated) m :=
  fun api hapi => after_mono (h api) fun _ _ ⟨hstate, hlog⟩ =>
    ⟨hapi.evolves.trans (evolves_of_eq hstate hlog), hstate ▸ hapi.present⟩

lemma handling_rekey (hs : api₀.state.Indexed) (clock : Clock) (event : RekeyEvent C) :
    Preserves (Handling api₀ index terminated) (rekey clock event) := by
  intro api hapi
  unfold rekey
  rw [after_bind, after_lift]
  intro r api' hrun
  have hinit := after_initSessionWithCookie clock event.remotePublicKey event.remoteAddr
    event.storedCookie event.retryAttempts api r api' hrun
  have hapi' : Handling api₀ index terminated api' := by
    obtain rfl | ⟨newIndex, i, hchange, hlog, hreserved, hstate⟩ := hinit
    · exact hapi
    · have hindexed := hapi.evolves.indexed hs
      obtain ⟨kind, x, hx, hends⟩ := hapi.present
      refine ⟨hapi.evolves.trans (evolves_of_change hchange hlog), kind, x, ?_, hends⟩
      rw [hstate, hindexed.places_insertInitiator hreserved i, if_neg, hx]
      rintro rfl
      rw [hindexed.session_reserved hreserved] at hx
      cases hx
  simp only [andThen_ok]
  cases r with
  | error e =>
    rw [after_pure]
    exact hapi'
  | ok p =>
    exact Preserves.bind (silent_enqueuePacket _ _).handling
      (fun _ => (silent_insertTimer _ _).handling) api' hapi'

lemma evolving_handleTimer (clock : Clock) (index : UInt32) :
    Evolving (handleTimer clock index : ApiM C Unit) := by
  intro api hs
  unfold handleTimer
  rw [after_bind]
  refine after_mono (after_tickSession clock.now index api) ?_
  rintro (e | _ | result) api' ⟨hevolves, hhandling⟩
  · exact hevolves
  · simpa using hevolves
  · have herror : ∀ (_ : Error C) api', Handling api index result.terminated api' →
        api.Evolves api' := fun _ _ h => h.evolves
    refine Preserves.after_bind (.forM_option fun _ _ => (silent_enqueuePacket _ _).handling)
      (hhandling result rfl) (fun _ api' h => ?_) herror
    refine Preserves.after_bind (.forM_option fun event _ => handling_rekey hs clock event) h
      (fun _ api' h => ?_) herror
    refine Preserves.after_bind (.forM_option fun _ _ => (silent_insertTimer _ _).handling) h
      (fun _ api' h => ?_) herror
    cases hterminated : result.terminated with
    | none =>
      simp only [Option.forM, after_pure]
      exact h.evolves
    | some e =>
      simp only [Option.forM, after_bind, after_get, setState, after_modify, andThen_ok]
      obtain ⟨kind, x, hx, hends⟩ := h.present
      obtain rfl := hends e hterminated
      exact h.evolves.trans (evolves_of_change (.terminate hx) rfl)

lemma evolving_tickLoop (clock : Clock) (budget : Nat) :
    Evolving (tickLoop clock budget : ApiM C Unit) := by
  induction budget with
  | zero => exact evolving_pure ()
  | succ budget ih =>
    intro api hs
    unfold tickLoop
    rw [after_get_bind]
    split
    · rw [after_pure]
      exact .refl api
    · next deadline index _ =>
      simp only [after_ite, after_pure]
      refine ⟨fun _ => .refl api, fun _ => ?_⟩
      exact after_of_evolves (evolves_of_eq rfl rfl)
        (fun hs => (evolving_handleTimer clock index).bind (fun _ => ih) _ hs) hs

lemma evolving_tick (clock : Clock) : Evolving (tick clock : ApiM C Unit) := by
  intro api hs
  exact after_of_evolves (evolves_of_eq rfl rfl) (fun hs => evolving_tickLoop clock _ _ hs) hs

/-! ### Messages -/

section

variable [MacMessage C M] (clock : Clock) (addr : SocketAddr) (senderIndex : UInt32) (message : M)

lemma after_isUnderLoad (api : API C) :
    after (isUnderLoad clock addr senderIndex message) api fun r api' =>
      (∃ pass, r = .ok pass) ∧ api'.state = api.state ∧ api'.log = api.log := by
  unfold isUnderLoad
  simp only [after_bind, after_get, andThen_ok, after_ofChecked, after_set]
  intro cookieValid _
  split
  · simp
  · simp only [after_bind, after_ofChecked, andThen_ok, after_modify, enqueuePacket, after_pure]
    simp
  · simp

lemma silent_isUnderLoad : Silent (isUnderLoad clock addr senderIndex message : ApiM C Bool) :=
  fun api => after_mono (after_isUnderLoad clock addr senderIndex message api) fun _ _ h => h.2

end

lemma evolving_unlessLoad [MacMessage C M] {clock : Clock} {addr : SocketAddr}
    {senderIndex : UInt32} {message : M} {m : ApiM C Unit} (hm : Evolving m) :
    Evolving (do
      if !(← isUnderLoad clock addr senderIndex message) then pure () else m : ApiM C Unit) := by
  refine (silent_isUnderLoad clock addr senderIndex message).evolving.bind fun pass => ?_
  cases pass with
  | false => exact evolving_pure ()
  | true => exact hm

/-- First messages that are newer than those of all sessions that the table knows of. -/
def IsFresh (state : State C) (validated : ValidatedHandshakeInit C) : Prop :=
  ∀ latest, state.getMaxTimestamp validated.remotePublicKey = some latest →
    latest < validated.timestamp

/-- What becomes of a first message: it is dropped, or it is new and gets a session. -/
inductive InitOutcome (api : API C) (packet : HandshakeInitiation C) :
    Except (Error C) Unit → API C → Prop
  | dropped {api' : API C} {r : Except (Error C) Unit} (state : api'.state = api.state)
      (log : api'.log = api.log)
      (reason : r = .ok () ∨ r = .error .timestampReplay ∨ (∃ e, r = .error (.crypto e))) :
      InitOutcome api packet r api'
  | invalid {api' : API C} {e : SessionError C} (state : api'.state = api.state)
      (log : api'.log = api.log)
      (validate : (ResponderState.validateInit api.localStaticKey packet).run = .ok (.error e)) :
      InitOutcome api packet (.error (.session e)) api'
  | exhausted {api' : API C} {validated : ValidatedHandshakeInit C}
      (state : api'.state = api.state) (log : api'.log = api.log)
      (validate : (ResponderState.validateInit api.localStaticKey packet).run =
        .ok (.ok validated)) (fresh : IsFresh api.state validated) :
      InitOutcome api packet (.error .sessionIndexExhausted) api'
  | accepted {api' : API C} {validated : ValidatedHandshakeInit C} {r : ResponderState C}
      {index : UInt32}
      (validate : (ResponderState.validateInit api.localStaticKey packet).run =
        .ok (.ok validated)) (fresh : IsFresh api.state validated)
      (reserved : api.state.reserveSessionIndex = some index)
      (role : r.transport.common.isInitiator = false)
      (timestamp : r.transport.common.initiatorTimestamp = some validated.timestamp)
      (state : api'.state = (api.state.commit index).insertResponder index r
        r.transport.common.remotePublicKey)
      (log : api'.log = api.log ++
        [.accepted r.transport.common.remotePublicKey index validated.timestamp]) :
      InitOutcome api packet (.ok ()) api'

theorem after_acceptHandshakeInit (clock : Clock) (packet : HandshakeInitiation C)
    (addr : SocketAddr) (api : API C) :
    after (acceptHandshakeInit clock packet addr) api (InitOutcome api packet) := by
  unfold acceptHandshakeInit
  rw [after_get_bind, after_bind, after_ofExcept]
  refine ⟨fun _ _ => ?_, fun e _ => .dropped rfl rfl (.inr (.inr ⟨e, rfl⟩))⟩
  rw [andThen_ok, after_bind]
  refine after_mono (after_isUnderLoad clock addr packet.senderIndex packet api) ?_
  rintro _ api1 ⟨⟨pass, rfl⟩, hstate, hlog⟩
  rw [andThen_ok]
  cases pass with
  | false =>
    rw [Bool.not_false, if_pos rfl, after_pure]
    exact .dropped hstate hlog (.inl rfl)
  | true =>
    rw [Bool.not_true, if_neg Bool.false_ne_true, after_bind, after_ofFallible]
    refine ⟨fun validated hvalidate => ?_, fun e he => .invalid hstate hlog he⟩
    rw [andThen_ok, after_get_bind, hstate]
    simp only [after_ite, after_bind, after_throw, andThen_error]
    refine ⟨fun _ => .dropped hstate hlog (.inr (.inl rfl)), fun hreplay => ?_⟩
    have hfresh : IsFresh api.state validated := by
      intro latest hlatest
      rw [hlatest] at hreplay
      simpa using hreplay
    cases hindex : api.state.reserveSessionIndex with
    | none =>
      rw [after_throw]
      exact .exhausted hstate hlog hvalidate hfresh
    | some index =>
      simp only [after_bind, after_ofChecked, andThen_ok, setRng, setState, after_modify,
        enqueuePacket, insertTimer]
      rintro ⟨r, timer, message, rng⟩ hnew
      have hidentity := identity_new hnew
      have hkey : r.transport.common.remotePublicKey = validated.remotePublicKey :=
        congrArg remotePublicKey hidentity
      refine .accepted hvalidate hfresh hindex (congrArg isInitiator hidentity)
        (congrArg initiatorTimestamp hidentity) ?_ ?_
      · rw [hkey]
      · rw [hkey, hlog]

theorem InitOutcome.evolves {packet : HandshakeInitiation C} {r : Except (Error C) Unit}
    (h : InitOutcome api packet r api') : api.Evolves api' := by
  cases h with
  | dropped state log _ | invalid state log _
  | exhausted state log _ _ => exact evolves_of_eq state log
  | accepted _ _ reserved role timestamp state log =>
    refine evolves_of_change ?_ log
    rw [state]
    exact .accept reserved role timestamp

lemma evolving_acceptCookie (reply : CookieReply C) : Evolving (acceptCookie reply) := by
  intro api hs
  unfold acceptCookie
  rw [after_get_bind]
  cases hi : api.state.initiatingSessions.lookup reply.receiverIndex with
  | some i =>
    simp only [after_bind, after_ofExcept, andThen_ok, setState, after_modify]
    refine ⟨fun i' hcookie => ?_, fun _ _ => .refl api⟩
    exact evolves_of_change (.updateInitiator hi (InitiatorState.identity_handleCookie hcookie)) rfl
  | none =>
    cases hr : api.state.respondingSessions.lookup reply.receiverIndex with
    | some r =>
      simp only [after_bind, after_ofExcept, andThen_ok, setState, after_modify]
      refine ⟨fun r' hcookie => ?_, fun _ _ => .refl api⟩
      exact evolves_of_change (.updateResponder hr (handleCookie_quiet hcookie).identity) rfl
    | none =>
      rw [after_pure]
      exact .refl api

section

variable (clock : Clock)
include clock

lemma after_encryptAt (index timerIndex : UInt32) {t : TransportState C}
    (text : List C.Byte) (ht : api.state.transportSessions.lookup index = some t) :
    after (encryptAt clock index timerIndex t text) api fun _ api' => api.Evolves api' := by
  unfold encryptAt
  simp only [after_bind, after_get, andThen_ok, after_ofChecked, setRng, setState, after_modify,
    replaceTimer, after_pure]
  rintro ⟨header, data, timer, t', rng⟩ hencrypt
  exact evolves_of_change (.updateTransport ht (TransportState.encrypt_quiet hencrypt).identity) rfl

lemma evolving_sendMessages (addr : SocketAddr) (index : UInt32)
    (messages : List (List C.Byte)) : Evolving (sendMessages clock addr index messages) := by
  induction messages with
  | nil => exact evolving_pure ()
  | cons msg messages ih =>
    intro api hs
    unfold sendMessages
    rw [after_get_bind, after_bind, after_ofChecked]
    intro t ht
    rw [andThen_ok, after_bind]
    refine after_mono (after_encryptAt clock index index msg (unwrap_eq_ok.mp ht)) ?_
    rintro (e | ⟨header, data⟩) api' hevolves
    · exact hevolves
    · exact after_of_evolves hevolves
        ((silent_enqueuePacket addr (header.asBytes ++ data)).evolving.bind (fun _ => ih) api') hs

lemma evolving_completeHandshake (response : HandshakeResponse C)
    (addr : SocketAddr) : Evolving (completeHandshake clock response addr) := by
  intro api hs
  unfold completeHandshake
  rw [after_get_bind, after_bind, after_ofExcept]
  refine ⟨fun _ _ => ?_, fun _ _ => .refl api⟩
  refine evolving_unlessLoad (fun api hs => ?_) api hs
  rw [after_get_bind]
  dsimp only
  split
  · rw [after_throw]
    exact .refl api
  next i hi =>
  simp only [after_ite, after_bind, after_throw, andThen_error, after_ofFallible, andThen_ok,
    after_ofChecked]
  refine ⟨fun _ => .refl api, fun _ => ⟨fun validated _ => ?_, fun _ _ => .refl api⟩⟩
  rintro ⟨i', state⟩ hremove
  simp only [andThen_ok, setRng, setState, after_modify]
  refine after_of_evolves (evolves_of_change (.establish
    (hs.removeInitiator (unwrap_eq_ok.mp hremove)) rfl) rfl)
    (evolving_sendMessages clock addr _ _ _) hs

lemma evolving_decrypt (packet : DataPacket C) : Evolving (decrypt clock packet) := by
  intro api hs
  unfold decrypt
  rw [after_get_bind]
  dsimp only
  split
  · next t ht =>
    simp only [after_bind, after_ofFallible, andThen_ok, setState, after_modify, replaceTimer,
      after_pure]
    refine ⟨?_, fun _ _ => .refl api⟩
    rintro ⟨timer, plaintext, t'⟩ hdecrypt
    exact evolves_of_change
      (.updateTransport ht (TransportState.decrypt_eq_ok hdecrypt).2.2.identity) rfl
  · split
    · next r hr =>
      simp only [after_bind, after_ofFallible, after_ofChecked, andThen_ok, setRng, setState,
        after_modify, insertTimer, after_pure]
      refine ⟨?_, fun _ _ => .refl api⟩
      rintro ⟨timer, plaintext, r'⟩ hdecrypt ⟨r'', state⟩ hremove ⟨t, timer', rng⟩ hestablish
      have hidentity := identity_decrypt hdecrypt
      -- the session is stored with the packet accepted before it is established
      have hupdate : Change api.state [] _ := .updateResponder hr hidentity
      have htaken := (hupdate.indexed hs).removeResponder (unwrap_eq_ok.mp hremove)
      have hestablished := Change.establish htaken (establish_quiet hestablish).identity
      exact ⟨_, hupdate.changes.trans hestablished.changes, rfl⟩
    · rw [after_throw]
      exact .refl api

lemma evolving_dispatchControl (control : ControlPacket C) (addr : SocketAddr) :
    Evolving (dispatchControl clock control addr) := by
  cases control with
  | handshakeInitiation msg =>
    exact fun api _ => after_mono (after_acceptHandshakeInit clock msg addr api)
      fun _ _ h => h.evolves
  | handshakeResponse msg => exact evolving_completeHandshake clock msg addr
  | cookieReply msg => exact evolving_acceptCookie msg
  | keepalive packet => exact (evolving_decrypt clock packet).bind fun _ => evolving_pure ()

lemma evolving_encryptByPublicKey (key : C.PubKey) (text : List C.Byte) :
    Evolving (encryptByPublicKey clock key text) := by
  intro api hs
  unfold encryptByPublicKey
  rw [after_get_bind]
  split
  · next index t hlatest ht =>
    refine after_encryptAt clock index _ text ?_
    rw [getTransportByPublicKey, hlatest] at ht
    exact ht
  · rw [after_throw]
    exact .refl api

lemma evolving_encryptBySocket (addr : SocketAddr) (text : List C.Byte) :
    Evolving (encryptBySocket clock addr text) := by
  intro api hs
  unfold encryptBySocket
  rw [after_get_bind]
  split
  · next index t hlatest ht =>
    refine after_encryptAt clock index _ text ?_
    rw [getTransportBySocket, hlatest] at ht
    exact ht
  · rw [after_throw]
    exact .refl api

end

lemma evolving_bufferMessage (key : C.PubKey) (message : List C.Byte) :
    Evolving (bufferMessage key message) := by
  intro api hs
  unfold bufferMessage
  rw [after_get_bind]
  split
  · rw [after_throw]
    exact .refl api
  · next id i hlookup =>
    simp only [Option.bind_eq_some_iff, Option.map_eq_some_iff, Prod.mk.injEq] at hlookup
    obtain ⟨_, -, i', hi, rfl, rfl⟩ := hlookup
    simp only [after_ite, after_bind, after_throw, andThen_error, setState, after_modify]
    refine ⟨fun _ => .refl api, fun _ => ⟨fun _ => .refl api, fun _ => ?_⟩⟩
    exact evolves_of_change (.updateInitiator hi rfl) rfl

lemma silent_nextPacket : Silent (nextPacket : ApiM C (Option (SocketAddr × List C.Byte))) := by
  intro api
  simp only [nextPacket, after_bind, after_get, andThen_ok, after_set, after_pure]
  simp

lemma evolving_disconnect (key : C.PubKey) : Evolving (disconnect key) := by
  intro api hs
  unfold disconnect
  simp only [after_bind, after_get, andThen_ok, setState, after_modify]
  exact ⟨[], hs.changes_terminateByPublicKey key, rfl⟩

lemma evolving_perform (clock : Clock) (call : Call C) : Evolving (call.perform clock) := by
  cases call with
  | connect key addr retries => exact evolving_connect clock key addr retries
  | disconnect key => exact evolving_disconnect key
  | dispatchControl control addr => exact evolving_dispatchControl clock control addr
  | decrypt packet addr => exact (evolving_decrypt clock packet).bind fun _ => evolving_pure ()
  | encryptByPublicKey key text =>
    exact (evolving_encryptByPublicKey clock key text).bind fun _ => evolving_pure ()
  | encryptBySocket addr text =>
    exact (evolving_encryptBySocket clock addr text).bind fun _ => evolving_pure ()
  | bufferMessage key message => exact evolving_bufferMessage key message
  | nextPacket => exact silent_nextPacket.evolving.bind fun _ => evolving_pure ()
  | tick => exact evolving_tick clock

end API

/-! ## Runs -/

/-- Calls one after the other, at any times. -/
inductive Run : API C → API C → Prop
  | refl (api : API C) : Run api api
  | step {api api' api'' : API C} (clock : Clock) (call : Call C) (run : Run api api')
      (leads : call.Leads clock api' api'') : Run api api''

variable {api api' : API C} {localStaticKey : C.KeyPair}

theorem Run.evolves (h : Run api api') (hs : api.state.Indexed) : api.Evolves api' := by
  induction h with
  | refl => exact .refl _
  | step clock call _ leads ih =>
    obtain ⟨result, hresult⟩ := leads
    exact ih.trans (API.evolving_perform clock call _ (ih.indexed hs) result _ hresult)

variable {config : Config C}

/-- The table and the log of a session layer that was started without sessions. -/
lemma Run.changes
    (h : Run (API.new config localStaticKey rng) api) : Changes {} api.log api.state := by
  obtain ⟨events, hchanges, hlog⟩ := h.evolves indexed_empty
  have hlog : api.log = events := hlog
  rw [hlog]
  exact hchanges

lemma Run.indexed (h : Run (API.new config localStaticKey rng) api) : api.state.Indexed :=
  h.changes.indexed indexed_empty

/-! ### Sample runs -/

/-- The session layer after some calls at one time. -/
def API.performAll (clock : Clock) : List (Call C) → API C → Checked (API C)
  | [], api => pure api
  | call :: calls, api => do
    let (_, api) ← (call.perform clock).run.run api
    performAll clock calls api

lemma Run.trans {api'' : API C} (h : Run api api') (h' : Run api' api'') : Run api api'' := by
  induction h' with
  | refl => exact h
  | step clock call _ leads ih => exact .step clock call ih leads

lemma run_of_performAll {clock : Clock} {calls : List (Call C)}
    (h : api.performAll clock calls = .ok api') : Run api api' := by
  induction calls generalizing api with
  | nil =>
    cases h
    exact .refl _
  | cons call calls ih =>
    rw [API.performAll, bind_eq_ok] at h
    obtain ⟨⟨result, api1⟩, hcall, hcalls⟩ := h
    exact (Run.step clock call (.refl api) ⟨result, hcall⟩).trans (ih hcalls)

lemma leads_of_performAll {clock : Clock} {call : Call C}
    (h : api.performAll clock [call] = .ok api') : call.Leads clock api api' := by
  rw [API.performAll, bind_eq_ok] at h
  obtain ⟨⟨result, api1⟩, hcall, hcalls⟩ := h
  cases hcalls
  exact ⟨result, hcall⟩

def samplePeer : symbolic.PubKey := (2 : Nat)

def sampleAddr : SocketAddr := ⟨.v4 (List.Vector.replicate 4 0), 0⟩

def sampleNode : API symbolic := .new (.default symbolic) (1 : Nat) (10 : Nat)

/-- First messages of the sample peer, one per second. -/
def sampleInit (second : Nat) : HandshakeInitiation symbolic :=
  (sendHandshakeInit (100 + second : Nat) (.ofSystemTime (secs second)) 7 (2 : Nat) (1 : Nat) none).1

/-- The sample node gets a first message. -/
def sampleReceive (second : Nat) : Call symbolic :=
  .dispatchControl (.handshakeInitiation (sampleInit second)) sampleAddr

/-- The peer's first packet for a session: empty, under the key of the session. -/
def sampleFirstPacket (api : API symbolic) (index : UInt32) : Call symbolic :=
  match api.state.respondingSessions.lookup index with
  | none => .nextPacket
  | some r =>
    .decrypt
      { header :=
          { receiverIndex := index
            nonce := 0
            tag := (Crypto.encryptInPlace r.transport.recvKey (Crypto.cipherNonce 0)
              (List.Vector.nil : symbolic.Array 0) []).2 }
        plaintext := [] }
      sampleAddr

/-- In every run the maps, the indices and the counters of the session table agree, and there
are at most two transport sessions of a role for a key or an address. -/
theorem session_table_indexed (hrun : Run (API.new config localStaticKey rng) api) :
    api.state.Indexed ∧ ∀ isInitiator,
      (∀ key, (api.state.lastEstablishedSessionByPublicKey.ids key isInitiator).length ≤ 2) ∧
      ∀ addr, (api.state.lastEstablishedSessionBySocket.ids addr isInitiator).length ≤ 2 :=
  ⟨hrun.indexed, fun _ => ⟨fun _ => EstablishedTable.length_ids_le .., fun _ =>
    EstablishedTable.length_ids_le ..⟩⟩

/-- The node has a session with the peer that the peer began, and begins another one itself. -/
theorem session_table_indexed_sample :
    ∃ api : API symbolic, Run sampleNode api ∧ api.state.totalSessions = 2 ∧
      api.state.lastEstablishedSessionByPublicKey.ids samplePeer false = [0] ∧
      api.state.Indexed := by
  have heval : (do
      let before ← sampleNode.performAll ⟨0, 0⟩ [sampleReceive 1, .connect samplePeer sampleAddr 0]
      let api ← before.performAll ⟨0, 0⟩ [sampleFirstPacket before 0]
      pure (api.state.totalSessions,
        api.state.lastEstablishedSessionByPublicKey.ids samplePeer false) : Checked _) =
      .ok (2, [0]) := by decide +kernel
  simp only [bind_eq_ok] at heval
  obtain ⟨before, hbefore, api, hapi, hfacts⟩ := heval
  obtain ⟨htotal, hids⟩ := Prod.mk.inj (Except.ok.inj hfacts)
  have hrun := (run_of_performAll hbefore).trans (run_of_performAll hapi)
  exact ⟨api, hrun, htotal, hids, (session_table_indexed hrun).1⟩

end Kinet.Wireauth
