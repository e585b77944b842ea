import Kinet.Foundation.Effect
import Kinet.Wireauth.Session

/-!
# Replayed data packets

The life of a session on the receiving side: packets arrive, the first accepted packet turns
a responder into a transport session, and the session is used for sending and ticked in
between.  Each counter is accepted at most once, but for the largest one, and a genuine
packet inside of the window is not refused until the window reaches the largest counter.

Main results:

- `Session.perform_cases`: what one event does to the filter and the key.
- `Session.no_replay`: each counter is accepted once and only replays are refused.
-/

namespace Kinet.Wireauth

open Crypto Checked ResponderState TransportState List.Vector Config

variable {C : Crypto}

/-- A session that receives data packets. -/
inductive Session (C : Crypto) where
  | responder (r : ResponderState C)
  | transport (t : TransportState C)

namespace Session

/-- The receiving half of either kind. -/
def toTransport : Session C → TransportState C
  | responder r => r.transport
  | transport t => t

/-- What can happen to a session. -/
inductive Event (C : Crypto) where
  | packet (now : Nat) (packet : DataPacket C)
  | encrypt (now : Nat) (plaintext : List C.Byte)
  | cookieReply (reply : CookieReply C)
  | tick (now : Nat)

/-- Counter of a packet and whether the packet was accepted. -/
structure Outcome where
  nonce : UInt64
  accepted : Bool
deriving DecidableEq

/-- Decrypt a packet; a responder becomes a transport session. -/
def decrypt (s : Session C) (rng : C.Rng) (config : Config C) (now : Nat) (packet : DataPacket C) :
    ExceptT (SessionError C) Checked (List C.Byte × Session C × C.Rng) :=
  match s with
  | transport t => do
    let (_, plaintext, t) ← t.decrypt config now packet
    pure (plaintext, transport t, rng)
  | responder r => do
    let (_, plaintext, r) ← r.decrypt config now packet
    let (t, _, rng) ← ExceptT.lift (r.establish rng config now)
    pure (plaintext, transport t, rng)

def perform (config : Config C) (s : Session C) (rng : C.Rng) :
    Event C → Checked (Option Outcome × Session C × C.Rng)
  | .packet now packet => do
    match ← (s.decrypt rng config now packet).run with
    | .ok (_, s, rng) => pure (some ⟨packet.header.nonce, true⟩, s, rng)
    | .error _ => pure (some ⟨packet.header.nonce, false⟩, s, rng)
  | .encrypt now plaintext =>
    match s with
    | responder _ => pure (none, s, rng)
    | transport t => do
      let (_, _, _, t, rng) ← t.encrypt rng config now plaintext
      pure (none, transport t, rng)
  | .cookieReply reply =>
    match s with
    | transport _ => pure (none, s, rng)
    | responder r =>
      match r.handleCookie reply with
      | .ok r => pure (none, responder r, rng)
      | .error _ => pure (none, s, rng)
  | .tick now =>
    match s with
    | responder r =>
      match r.tick now with
      | some (_, r) => pure (none, responder r, rng)
      | none => pure (none, s, rng)
    | transport t => do
      let (_, t, rng) ← t.tick rng config now
      pure (none, transport t, rng)

def life (config : Config C) : Session C → C.Rng → List (Event C) →
    Checked (List Outcome × Session C × C.Rng)
  | s, rng, [] => pure ([], s, rng)
  | s, rng, event :: events => do
    let (outcome, s, rng) ← s.perform config rng event
    let (outcomes, s, rng) ← life config s rng events
    pure (outcome.toList ++ outcomes, s, rng)

def acceptedNonces (outcomes : List Outcome) : List UInt64 :=
  (outcomes.filter Outcome.accepted).map Outcome.nonce

/-! ## One event -/

/-- What one event can do: accept a packet that passes the filter, or leave the filter
alone. -/
inductive Effect (t t' : TransportState C) : Option Outcome → Prop where
  | accepted (nonce : UInt64)
      (hcheck : t.replayFilter.check nonce = (.ok () : Except (SessionError C) Unit))
      (hupdate : t'.replayFilter = t.replayFilter.update nonce) (hcontinues : t.Continues t') :
      Effect t t' (some ⟨nonce, true⟩)
  | refused (nonce : UInt64) (hquiet : t.Quiet t') : Effect t t' (some ⟨nonce, false⟩)
  | other (hquiet : t.Quiet t') : Effect t t' none

variable {config : Config C} {s s' : Session C} {rng rng' : C.Rng} {packet : DataPacket C}

lemma decrypt_eq_ok {now : Nat} {plaintext : List C.Byte}
    (h : (s.decrypt rng config now packet).run = .ok (.ok (plaintext, s', rng'))) :
    Effect s.toTransport s'.toTransport (some ⟨packet.header.nonce, true⟩) := by
  cases s with
  | transport t =>
    rw [decrypt, run_bind_eq_ok] at h
    obtain ⟨⟨timer, text, t'⟩, ht, h⟩ := h
    cases h
    obtain ⟨hcheck, hupdate, hcontinues⟩ := decrypt_eq_ok ht
    exact .accepted _ hcheck hupdate hcontinues
  | responder r =>
    simp only [decrypt, ResponderState.decrypt, run_bind_eq_ok] at h
    obtain ⟨_, ⟨⟨timer, text, t⟩, ht, hr⟩, ⟨t', timer', rng1⟩, hestablish, h⟩ := h
    cases hr
    cases h
    obtain ⟨hcheck, hupdate, hcontinues⟩ := decrypt_eq_ok ht
    have hquiet := establish_quiet (run_lift_eq_ok.mp hestablish)
    exact .accepted _ hcheck (hquiet.replayFilter.trans hupdate)
      ⟨hquiet.recvKey.trans hcontinues.recvKey, hquiet.identity.trans hcontinues.identity⟩

theorem perform_cases {event : Event C}
    {outcome : Option Outcome} (h : s.perform config rng event = .ok (outcome, s', rng')) :
    Effect s.toTransport s'.toTransport outcome := by
  cases event with
  | packet now packet =>
    rw [perform, bind_eq_ok] at h
    obtain ⟨result, hresult, h⟩ := h
    cases result with
    | ok accepted =>
      cases h
      exact decrypt_eq_ok hresult
    | error e =>
      cases h
      exact .refused _ (.refl _)
  | encrypt now plaintext =>
    cases s with
    | responder r =>
      cases h
      exact .other (.refl _)
    | transport t =>
      rw [perform, bind_eq_ok] at h
      obtain ⟨⟨header, data, timer, t', rng1⟩, hencrypt, h⟩ := h
      cases h
      exact .other (encrypt_quiet hencrypt)
  | cookieReply reply =>
    cases s with
    | transport t =>
      cases h
      exact .other (.refl _)
    | responder r =>
      simp only [perform] at h
      split at h
      · next hcookie =>
        cases h
        exact .other (handleCookie_quiet hcookie)
      · cases h
        exact .other (.refl _)
  | tick now =>
    cases s with
    | responder r =>
      simp only [perform] at h
      split at h
      · next htick =>
        cases h
        exact .other (tick_spec htick).1
      · cases h
        exact .other (.refl _)
    | transport t =>
      rw [perform, bind_eq_ok] at h
      obtain ⟨⟨result, t', rng1⟩, htick, h⟩ := h
      cases h
      exact .other (tick_spec htick).1

/-! ## A whole life -/

/-- Counters were accepted at most once, the largest one apart. -/
def Once (nonces : List UInt64) : Prop := ∀ c : UInt64, c.toNat ≠ u64Max → nonces.count c ≤ 1

/-- The filter knows the counters that were accepted, each of them once. -/
structure Known (t : TransportState C) (nonces : List UInt64) : Prop where
  tracks : t.replayFilter.Tracks (· ∈ nonces)
  once : Once nonces

lemma known_new {t : TransportState C} (h : t.replayFilter = .new) : Known t [] where
  tracks := by
    rw [h]
    simpa using ReplayFilter.tracks_new
  once := by simp [Once]

namespace Known

variable {t t' : TransportState C} {nonces : List UInt64} {nonce : UInt64}

lemma accept (h : Known t nonces)
    (hcheck : t.replayFilter.check nonce = (.ok () : Except (SessionError C) Unit))
    (hupdate : t'.replayFilter = t.replayFilter.update nonce) : Known t' (nonces ++ [nonce]) := by
  constructor
  · rw [hupdate]
    simpa using h.tracks.update hcheck
  · intro c hc
    by_cases heq : nonce = c
    · subst heq
      have hnew : nonce ∉ nonces := fun hmem => h.tracks.check_accepted hmem hc hcheck
      simp [List.count_eq_zero_of_not_mem hnew]
    · simpa [heq] using h.once c hc

lemma of_quiet (h : Known t nonces) (hquiet : t.Quiet t') : Known t' nonces :=
  ⟨hquiet.replayFilter ▸ h.tracks, h.once⟩

/-- The window ends at the largest counter only after one of the last two was accepted. -/
lemma next_ne (h : Known t nonces) (hlast : ∀ c ∈ nonces, c.toNat + 1 < u64Max) :
    t.replayFilter.next.toNat ≠ u64Max := by
  rcases h.tracks.attained with hzero | ⟨c, hc, hnext⟩
  · rw [hzero]
    decide
  · have := hlast c hc
    rw [hnext]
    unfold saturatingAdd
    omega

end Known

/-- Lives are added up from the left: `earlier` are the counters accepted so far. -/
theorem life_known {events : List (Event C)} {outcomes : List Outcome} {earlier : List UInt64}
    (hs : Known s.toTransport earlier) (h : s.life config rng events = .ok (outcomes, s', rng')) :
    Known s'.toTransport (earlier ++ acceptedNonces outcomes) := by
  induction events generalizing s rng outcomes earlier with
  | nil =>
    cases h
    simpa [acceptedNonces] using hs
  | cons event events ih =>
    simp only [life, bind_eq_ok] at h
    obtain ⟨⟨outcome, s1, rng1⟩, hperform, ⟨rest, s2, rng2⟩, hlife, h⟩ := h
    cases h
    cases perform_cases hperform with
    | accepted nonce hcheck hupdate hcontinues =>
      simpa [acceptedNonces] using ih (hs.accept hcheck hupdate) hlife
    | refused nonce hquiet
    | other hquiet => simpa [acceptedNonces] using ih (hs.of_quiet hquiet) hlife

/-- A packet as the peer makes it under the key of the session. -/
def Authentic (key : C.CipherKey) (packet : DataPacket C) : Prop :=
  ∃ text : C.Array packet.plaintext.length,
    encryptInPlace key (cipherNonce packet.header.nonce) text [] =
      (packet.text, packet.header.tag)

lemma decrypt_of_check (law : C.Lawful)
    (hcheck : s.toTransport.replayFilter.check packet.header.nonce =
      (.ok () : Except (SessionError C) Unit))
    (hpacket : Authentic s.toTransport.recvKey packet) (rng : C.Rng) (config : Config C)
    (now : Nat) :
    ∃ plaintext s' rng', (s.decrypt rng config now packet).run = .ok (.ok (plaintext, s', rng')) := by
  obtain ⟨text, htext⟩ := hpacket
  obtain ⟨timer, t', ht⟩ := decrypt_of_authentic config now hcheck
    (law.decryptInPlace_eq_ok.mpr htext)
  cases s with
  | transport t =>
    refine ⟨text.toList, transport t', rng, ?_⟩
    rw [decrypt, run_bind_eq_ok]
    exact ⟨_, ht, rfl⟩
  | responder r =>
    obtain ⟨t1, timer1, rng', hestablish⟩ := exists_establish ⟨t'⟩ rng config now
    refine ⟨text.toList, transport t1, rng', ?_⟩
    simp only [decrypt, ResponderState.decrypt, run_bind_eq_ok]
    exact ⟨_, ⟨_, ht, rfl⟩, _, run_lift_eq_ok.mpr hestablish, rfl⟩

/-- Over the life of a session every counter but the largest one is accepted at most once.
As long as neither of the two largest counters was accepted, a genuine packet whose counter
was not accepted before and is less than a window behind the next expected one is accepted. -/
theorem no_replay {C : Crypto} (law : C.Lawful) (config : Config C) (s : Session C)
    (hnew : s.toTransport.replayFilter = .new) (rng : C.Rng) (events : List (Event C))
    {outcomes : List Outcome} {s₁ : Session C} {rng₁ : C.Rng}
    (hlife : s.life config rng events = .ok (outcomes, s₁, rng₁)) :
    (∀ nonce : UInt64, nonce.toNat ≠ u64Max → (acceptedNonces outcomes).count nonce ≤ 1) ∧
    ∀ (packet : DataPacket C) (now : Nat) (rng₂ : C.Rng),
      Authentic s₁.toTransport.recvKey packet →
      packet.header.nonce ∉ acceptedNonces outcomes →
      s₁.toTransport.replayFilter.next.toNat < packet.header.nonce.toNat + replayWindowBits →
      (∀ nonce ∈ acceptedNonces outcomes, nonce.toNat + 1 < u64Max) →
      ∃ plaintext s₂ rng₃,
        (s₁.decrypt rng₂ config now packet).run = .ok (.ok (plaintext, s₂, rng₃)) := by
  have hknown := life_known (known_new hnew) hlife
  refine ⟨hknown.once, fun packet now rng₂ hpacket hfresh hwindow hlast => ?_⟩
  exact decrypt_of_check law
    (hknown.tracks.check_fresh hfresh hwindow (hknown.next_ne hlast)) hpacket rng₂ config now

/-! ## Sample lives -/

/-- A new session whose keys are zero. -/
def sample : Session symbolic :=
  .transport (.new 0 (symbolic.zeros 16) (symbolic.zeros 16)
    { retryAttempts := 0
      initiatorTimestamp := none
      remoteAddr := ⟨.v4 (replicate 4 0), 0⟩
      remotePublicKey := (0 : Nat)
      localIndex := 0
      created := 0
      isInitiator := true })

def samplePacket (nonce : UInt64) : DataPacket symbolic where
  header :=
    { nonce := nonce
      tag := (encryptInPlace (symbolic.zeros 16) (cipherNonce nonce)
        (nil : symbolic.Array 0) []).2 }
  plaintext := []

/-- Outcomes of the packets with these counters. -/
def sampleLife (nonces : List UInt64) : Checked (List Outcome) :=
  (sample.life (default symbolic) (0 : Nat)
    (nonces.map fun nonce => .packet 0 (samplePacket nonce))).map Prod.fst

theorem no_replay_sample :
    ∃ s₁ rng₁, sample.life (default symbolic) (0 : Nat) [.packet 0 (samplePacket 5)] =
        .ok ([⟨5, true⟩], s₁, rng₁) ∧
      ∃ plaintext s₂ rng₃, (s₁.decrypt (0 : Nat) (default symbolic) 0 (samplePacket 3)).run =
        .ok (.ok (plaintext, s₂, rng₃)) := by
  obtain ⟨s₁, rng₁, hlife, hnext, hkey⟩ : ∃ s₁ rng₁,
      sample.life (default symbolic) (0 : Nat) [.packet 0 (samplePacket 5)] =
        .ok ([⟨5, true⟩], s₁, rng₁) ∧ s₁.toTransport.replayFilter.next = 6 ∧
      s₁.toTransport.recvKey = symbolic.zeros 16 := ⟨_, _, rfl, rfl, rfl⟩
  refine ⟨s₁, rng₁, hlife, (no_replay symbolic_lawful _ sample rfl (0 : Nat) _ hlife).2
    (samplePacket 3) 0 (0 : Nat) ?_ (by decide) ?_ ?_⟩
  · rw [hkey]
    exact ⟨nil, rfl⟩
  · rw [hnext]
    decide
  · simp [acceptedNonces, u64Max]

/-- The largest counter is accepted twice, and once the window has reached it a counter that
was never accepted is refused. -/
theorem replay_of_largest_nonce : sampleLife [18446744073709551615, 18446744073709551615] =
        .ok [⟨18446744073709551615, true⟩, ⟨18446744073709551615, true⟩] ∧
      sampleLife [18446744073709551614, 18446744073709551613] =
        .ok [⟨18446744073709551614, true⟩, ⟨18446744073709551613, false⟩] := by
  constructor <;> rfl

end Session

end Kinet.Wireauth
