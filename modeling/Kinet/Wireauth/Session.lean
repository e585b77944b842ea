import Kinet.Wireauth.ReplayFilter

/-!
# Sessions

A session starts as an initiator, which has sent a first message, or as a responder, which
has answered one.  Either becomes a transport session once the other side has proved that
it holds its key.  Durations count nanoseconds since the start of the process.
-/

namespace Kinet.Wireauth

open Crypto Checked Option

/-- An address of either version. -/
inductive IpAddr where
  | v4 (octets : List.Vector UInt8 4)
  | v6 (octets : List.Vector UInt8 16)
deriving DecidableEq

/-- Address and port. -/
structure SocketAddr where
  ip : IpAddr
  port : UInt16
deriving DecidableEq

/-- Number of attempts that stands for no limit. -/
def retryAlways : Nat := u64Max

variable (C : Crypto)

/-- Settings; times are in nanoseconds. -/
structure Config where
  sessionTimeout : Nat
  sessionTimeoutJitter : Nat
  keepaliveInterval : Nat
  keepaliveJitter : Nat
  rekeyInterval : Nat
  rekeyJitter : Nat
  maxSessionDuration : Nat
  handshakeCookieUnverifiedRateLimit : Nat
  handshakeCookieVerifiedRateLimit : Nat
  handshakeRateResetInterval : Nat
  connectRateLimit : Nat
  connectRateResetInterval : Nat
  cookieRefreshDuration : Nat
  lowWatermarkSessions : Nat
  highWatermarkSessions : Nat
  maxSessionsPerIp : Nat
  ipRateLimitWindow : Nat
  ipHistoryCapacity : Nat
  /-- `Filter::new` unwraps the capacity as a `NonZeroUsize` -/
  ipHistoryCapacity_pos : 0 < ipHistoryCapacity
  psk : C.Array 32
  maxInitiatedSessions : Nat
  maxBufferedBytesPerSession : Nat
  gcIdleTimeout : Nat
  maxExpiredTimersPerTick : Nat

/-- Nanoseconds in so many milliseconds. -/
def millis (n : Nat) : Nat := n * 1000000

/-- Nanoseconds in so many seconds. -/
def secs (n : Nat) : Nat := n * 1000000000

/-- The default settings. -/
def Config.default : Config C where
  sessionTimeout := secs 10
  sessionTimeoutJitter := secs 1
  keepaliveInterval := secs 3
  keepaliveJitter := millis 300
  rekeyInterval := secs (6 * 60 * 60)
  rekeyJitter := secs 60
  maxSessionDuration := secs (6 * 60 * 60 + 5 * 60)
  handshakeCookieUnverifiedRateLimit := 300
  handshakeCookieVerifiedRateLimit := 300
  handshakeRateResetInterval := secs 1
  connectRateLimit := 300
  connectRateResetInterval := secs 1
  cookieRefreshDuration := secs 120
  lowWatermarkSessions := 5000
  highWatermarkSessions := 40000
  maxSessionsPerIp := 4
  ipRateLimitWindow := secs 10
  ipHistoryCapacity := 1000000
  ipHistoryCapacity_pos := by decide
  psk := C.zeros 32
  maxInitiatedSessions := 1000
  maxBufferedBytesPerSession := 128 * 1024
  gcIdleTimeout := secs 120
  maxExpiredTimersPerTick := 10000

/-- The end of a session. -/
structure TerminatedEvent where
  remotePublicKey : C.PubKey
  remoteAddr : SocketAddr

/-- The wish for a new handshake. -/
structure RekeyEvent where
  remotePublicKey : C.PubKey
  remoteAddr : SocketAddr
  retryAttempts : Nat
  storedCookie : Option (C.Array 16)

/-- A packet without data that is to be sent. -/
structure MessageEvent where
  remoteAddr : SocketAddr
  header : DataPacketHeader C

/-- A deadline that was moved. -/
structure RenewedTimer where
  previous : Option Nat
  current : Nat

/-- What all kinds of sessions keep: deadlines, cookie and identity. -/
structure SessionState where
  keepaliveDeadline : Option Nat := none
  rekeyDeadline : Option Nat := none
  sessionTimeoutDeadline : Option Nat := none
  maxSessionDurationDeadline : Option Nat := none
  gcDeadline : Option Nat := none
  storedCookie : Option (C.Array 16) := none
  lastHandshakeMac1 : Option (C.Array 16) := none
  retryAttempts : Nat
  initiatorTimestamp : Option Tai64N
  remoteAddr : SocketAddr
  remotePublicKey : C.PubKey
  localIndex : UInt32
  created : Nat
  isInitiator : Bool

variable {C}

/-- A time with up to `jitter` added at random. -/
def addJitter (rng : C.Rng) (base jitter : Nat) : Nat × C.Rng :=
  let jitterMillis := jitter / millis 1
  let (random, rng) := C.nextU64 rng
  (base + millis (random.toNat % (jitterMillis + 1)), rng)

/-- Decrypt the cookie that answers a handshake message. -/
def acceptCookieReply (responderStaticPublic : C.PubKey) (reply : CookieReply C)
    (msgMac1 : C.Array 16) : Except (CookieError C) (C.Array 16) :=
  (decryptInPlace (cipherKey (cookieKey responderStaticPublic)) reply.nonce reply.encryptedCookie
    reply.encryptedCookieTag msgMac1.toList).mapError .cookieDecryptionFailed

namespace SessionState

variable (s : SessionState C) (now timer : Nat)

/-- Move the time of the next keepalive. -/
def resetKeepalive : RenewedTimer × SessionState C :=
  (⟨s.keepaliveDeadline, now + timer⟩, { s with keepaliveDeadline := some (now + timer) })

/-- Move the time of the next handshake. -/
def resetRekey : SessionState C :=
  { s with rekeyDeadline := some (now + timer) }

/-- Move the time at which a silent session ends. -/
def resetSessionTimeout : RenewedTimer × SessionState C :=
  (⟨s.sessionTimeoutDeadline, now + timer⟩,
    { s with sessionTimeoutDeadline := some (now + timer) })

/-- Set the time at which the session ends anyway. -/
def setMaxSessionDuration : SessionState C :=
  { s with maxSessionDurationDeadline := some (now + timer) }

/-- Move the time at which an idle session is dropped. -/
def resetGcDeadline : SessionState C :=
  { s with gcDeadline := some (now + timer) }

/-- The earliest deadline. -/
def getNextDeadline : Option Nat :=
  ([s.keepaliveDeadline, s.rekeyDeadline, s.sessionTimeoutDeadline,
    s.maxSessionDurationDeadline, s.gcDeadline].filterMap id).min?

/-- The deadline has come. -/
def expired (deadline : Option Nat) (now : Nat) : Bool :=
  match deadline with
  | some deadline => decide (deadline ≤ now)
  | none => false

/-- Keep the cookie of a reply to the last handshake message. -/
def handleCookie (reply : CookieReply C) : Except (SessionError C) (SessionState C) :=
  match s.lastHandshakeMac1 with
  | none => .error (.invalidCookie (.invalidCookieMac .macVerificationFailed))
  | some mac1 =>
    match acceptCookieReply s.remotePublicKey reply mac1 with
    | .error e => .error (.invalidCookie e)
    | .ok cookie => .ok { s with storedCookie := some cookie }

/-- End a session; an initiator tries again as long as it has attempts left. -/
def handleSessionTimeout : TerminatedEvent C × Option (RekeyEvent C) × SessionState C :=
  let terminated := ⟨s.remotePublicKey, s.remoteAddr⟩
  if !s.isInitiator then (terminated, none, s)
  else
    let shouldRetry := decide (0 < s.retryAttempts) || decide (s.retryAttempts = retryAlways)
    let s :=
      if 0 < s.retryAttempts ∧ s.retryAttempts ≠ retryAlways then
        { s with retryAttempts := s.retryAttempts - 1 }
      else s
    let rekey : RekeyEvent C :=
      ⟨s.remotePublicKey, s.remoteAddr, s.retryAttempts, s.storedCookie⟩
    (terminated, if shouldRetry then some rekey else none, s)

variable {s}

lemma exists_getNextDeadline {d : Nat}
    (h : some d ∈ [s.keepaliveDeadline, s.rekeyDeadline, s.sessionTimeoutDeadline,
      s.maxSessionDurationDeadline, s.gcDeadline]) : ∃ m, s.getNextDeadline = some m := by
  have hmem : d ∈ [s.keepaliveDeadline, s.rekeyDeadline, s.sessionTimeoutDeadline,
      s.maxSessionDurationDeadline, s.gcDeadline].filterMap id :=
    List.mem_filterMap.mpr ⟨some d, h, rfl⟩
  exact isSome_iff_exists.mp (List.isSome_min?_of_mem hmem)

/-! ### Identity

What tells sessions apart never changes during their life.
-/

/-- The part of a session's state that is fixed when it is created. -/
structure Identity (C : Crypto) where
  initiatorTimestamp : Option Tai64N
  remoteAddr : SocketAddr
  remotePublicKey : C.PubKey
  localIndex : UInt32
  created : Nat
  isInitiator : Bool

variable (s)

/-- What is fixed of a session. -/
def identity : Identity C where
  initiatorTimestamp := s.initiatorTimestamp
  remoteAddr := s.remoteAddr
  remotePublicKey := s.remotePublicKey
  localIndex := s.localIndex
  created := s.created
  isInitiator := s.isInitiator

lemma identity_handleSessionTimeout : s.handleSessionTimeout.2.2.identity = s.identity := by
  unfold handleSessionTimeout
  split
  · rfl
  · split <;> rfl

lemma identity_handleCookie {s' : SessionState C} {reply : CookieReply C}
    (h : s.handleCookie reply = .ok s') : s'.identity = s.identity := by
  unfold handleCookie at h
  split at h
  · cases h
  · split at h
    · cases h
    · cases h
      rfl

end SessionState

/-! ## Transport -/

/-- An established session. -/
structure TransportState (C : Crypto) where
  remoteIndex : UInt32
  sendKey : C.CipherKey
  sendNonce : UInt64
  recvKey : C.CipherKey
  replayFilter : ReplayFilter
  common : SessionState C

/-- What a session asks for when its timer fires: its next timer, a packet, a handshake, its
end. -/
structure TickResult (C : Crypto) where
  timer : Option Nat
  message : Option (MessageEvent C)
  rekey : Option (RekeyEvent C)
  terminated : Option (TerminatedEvent C)

/-- The session that ends is this one. -/
def TickResult.Ends (result : TickResult C) (s : SessionState C) : Prop :=
  ∀ e, result.terminated = some e → e = ⟨s.remotePublicKey, s.remoteAddr⟩

variable {message : Option (MessageEvent C)}

lemma TickResult.Ends.handleSessionTimeout {s : SessionState C} {timer : Option Nat}
    {rekey : Option (RekeyEvent C)} :
    Ends ⟨timer, message, rekey, some s.handleSessionTimeout.1⟩ s := by
  rintro _ ⟨⟩
  unfold SessionState.handleSessionTimeout
  split <;> rfl

variable {config : Config C} {timer : RenewedTimer} {packet : DataPacket C}
  {plaintext : List C.Byte}

namespace TransportState

/-- A session with the keys of a handshake. -/
def new (remoteIndex : UInt32) (sendKey recvKey : C.CipherKey) (common : SessionState C) :
    TransportState C where
  remoteIndex := remoteIndex
  sendKey := sendKey
  sendNonce := 0
  recvKey := recvKey
  replayFilter := .new
  common := common

section

variable (t : TransportState C) (rng : C.Rng) (config : Config C) (now : Nat)

/-- Header and ciphertext of a packet, and the session's new timer. -/
def encrypt (plaintext : List C.Byte) :
    Checked (DataPacketHeader C × List C.Byte × RenewedTimer × TransportState C × C.Rng) := do
  let sealed := encryptInPlace t.sendKey (cipherNonce t.sendNonce)
    (⟨plaintext, rfl⟩ : C.Array plaintext.length) []
  let header : DataPacketHeader C :=
    { receiverIndex := t.remoteIndex
      nonce := t.sendNonce
      tag := sealed.2 }
  let sendNonce ← add 64 t.sendNonce.toNat 1
  let common :=
    if plaintext.isEmpty then t.common else t.common.resetGcDeadline now config.gcIdleTimeout
  let (interval, rng) := addJitter rng config.keepaliveInterval config.keepaliveJitter
  let (keepaliveTimer, common) := common.resetKeepalive now interval
  let nextDeadline ← unwrap common.getNextDeadline
  pure (header, sealed.1.toList, ⟨keepaliveTimer.previous, nextDeadline⟩,
    { t with sendNonce := UInt64.ofNat sendNonce, common := common }, rng)

/-- Plaintext of a packet and the session's new timer.  A packet that is refused leaves the
session as it is. -/
def decrypt (config : Config C) (now : Nat) (packet : DataPacket C) :
    ExceptT (SessionError C) Checked (RenewedTimer × List C.Byte × TransportState C) := do
  let counter := packet.header.nonce
  ExceptT.mk (pure (t.replayFilter.check counter))
  let data ← ExceptT.mk (pure ((decryptInPlace t.recvKey (cipherNonce counter)
    packet.text packet.header.tag []).mapError .invalidMac))
  let replayFilter := t.replayFilter.update counter
  let common :=
    if data.toList.isEmpty then t.common else t.common.resetGcDeadline now config.gcIdleTimeout
  let (sessionTimer, common) := common.resetSessionTimeout now config.sessionTimeout
  let nextDeadline ← ExceptT.lift (unwrap common.getNextDeadline)
  pure (⟨sessionTimer.previous, nextDeadline⟩, data.toList,
    { t with replayFilter := replayFilter, common := common })

/-- Send an empty packet if it is time. -/
def tickKeepalive : Checked (Option (MessageEvent C) × TransportState C × C.Rng) :=
  if SessionState.expired t.common.keepaliveDeadline now then do
    let common := { t.common with keepaliveDeadline := none }
    let (header, _, _, t, rng) ← { t with common := common }.encrypt rng config now []
    pure (some ⟨t.common.remoteAddr, header⟩, t, rng)
  else pure (none, t, rng)

/-- The handshake that is due. -/
def tickRekey (now : Nat) : Option (RekeyEvent C) × TransportState C :=
  if SessionState.expired t.common.rekeyDeadline now then
    let common := { t.common with rekeyDeadline := none }
    (some ⟨common.remotePublicKey, common.remoteAddr, common.retryAttempts, common.storedCookie⟩,
      { t with common := common })
  else (none, t)

/-- End the session if its time is over, or else send what is due. -/
def tick : Checked (TickResult C × TransportState C × C.Rng) :=
  if SessionState.expired t.common.maxSessionDurationDeadline now then
    let common := { t.common with maxSessionDurationDeadline := none }
    -- the session ends without another handshake
    let (terminated, _, common) := common.handleSessionTimeout
    pure (⟨none, none, none, some terminated⟩, { t with common := common }, rng)
  else if SessionState.expired t.common.sessionTimeoutDeadline now then
    let common := { t.common with sessionTimeoutDeadline := none }
    let (terminated, rekey, common) := common.handleSessionTimeout
    pure (⟨none, none, rekey, some terminated⟩, { t with common := common }, rng)
  else if SessionState.expired t.common.gcDeadline now then
    let common := { t.common with gcDeadline := none }
    pure (⟨none, none, none, some ⟨common.remotePublicKey, common.remoteAddr⟩⟩,
      { t with common := common }, rng)
  else do
    let (message, t, rng) ← t.tickKeepalive rng config now
    let (rekey, t) := t.tickRekey now
    pure (⟨t.common.getNextDeadline, message, rekey, none⟩, t, rng)

end

/-- A later state of the same session. -/
structure Continues (t t' : TransportState C) : Prop where
  recvKey : t'.recvKey = t.recvKey
  identity : t'.common.identity = t.common.identity

/-- A later state of the same session that has accepted no other packet. -/
structure Quiet (t t' : TransportState C) : Prop extends t.Continues t' where
  replayFilter : t'.replayFilter = t.replayFilter

variable {t t' : TransportState C}

lemma encrypt_quiet {rng rng' : C.Rng} {now : Nat}
    {data : List C.Byte} {header : DataPacketHeader C}
    (h : t.encrypt rng config now plaintext = .ok (header, data, timer, t', rng')) :
    t.Quiet t' := by
  simp only [encrypt, bind_eq_ok, pure, Except.pure, Except.ok.injEq, Prod.mk.injEq] at h
  obtain ⟨_, -, _, -, -, -, -, rfl, -⟩ := h
  refine ⟨⟨rfl, ?_⟩, rfl⟩
  by_cases hempty : plaintext.isEmpty = true <;> simp only [hempty] <;> rfl

lemma decrypt_eq_ok {now : Nat}
    (h : (t.decrypt config now packet).run = .ok (.ok (timer, plaintext, t'))) :
    t.replayFilter.check packet.header.nonce = (.ok () : Except (SessionError C) Unit) ∧
      t'.replayFilter = t.replayFilter.update packet.header.nonce ∧ t.Continues t' := by
  simp only [decrypt, run_bind_eq_ok, run_lift_eq_ok, ExceptT.run_mk,
    pure, Except.pure, Except.ok.injEq] at h
  obtain ⟨_, hcheck, data, -, _, -, -, -, rfl⟩ := h
  refine ⟨hcheck, rfl, rfl, ?_⟩
  by_cases hempty : data.toList.isEmpty = true <;> simp only [hempty] <;> rfl

/-- A packet that passes the filter and the cipher is accepted. -/
lemma decrypt_of_authentic (config : Config C) (now : Nat)
    {data : C.Array packet.plaintext.length}
    (hcheck : t.replayFilter.check packet.header.nonce = (.ok () : Except (SessionError C) Unit))
    (hdata : decryptInPlace t.recvKey (cipherNonce packet.header.nonce) packet.text
      packet.header.tag [] = .ok data) :
    ∃ timer t', (t.decrypt config now packet).run = .ok (.ok (timer, data.toList, t')) := by
  generalize hcommon : (if data.toList.isEmpty then t.common
    else t.common.resetGcDeadline now config.gcIdleTimeout) = common
  obtain ⟨deadline, hdeadline⟩ : ∃ m,
      (common.resetSessionTimeout now config.sessionTimeout).2.getNextDeadline = some m :=
    SessionState.exists_getNextDeadline (d := now + config.sessionTimeout) (by
      simp [SessionState.resetSessionTimeout])
  refine ⟨⟨common.sessionTimeoutDeadline, deadline⟩,
    { t with
      replayFilter := t.replayFilter.update packet.header.nonce
      common := (common.resetSessionTimeout now config.sessionTimeout).2 }, ?_⟩
  simp only [decrypt, run_bind_eq_ok, run_lift_eq_ok, ExceptT.run_mk, pure,
    Except.pure, Except.ok.injEq]
  refine ⟨(), hcheck, data, by rw [hdata]; rfl, deadline, ?_, ?_⟩
  · rw [hcommon, hdeadline]
    rfl
  · rw [hcommon]
    rfl

lemma Quiet.refl (t : TransportState C) : t.Quiet t := ⟨⟨rfl, rfl⟩, rfl⟩

lemma Quiet.trans {t'' : TransportState C} (h : t.Quiet t') (h' : t'.Quiet t'') : t.Quiet t'' :=
  ⟨⟨h'.recvKey.trans h.recvKey, h'.identity.trans h.identity⟩,
    h'.replayFilter.trans h.replayFilter⟩

lemma quiet_of_identity (t : TransportState C) {common : SessionState C}
    (h : common.identity = t.common.identity) : t.Quiet { t with common := common } :=
  ⟨⟨rfl, h⟩, rfl⟩

section

variable {rng rng' : C.Rng} {config : Config C} {now : Nat}

lemma tickKeepalive_quiet
    (h : t.tickKeepalive rng config now = .ok (message, t', rng')) : t.Quiet t' := by
  unfold tickKeepalive at h
  split at h
  · rw [bind_eq_ok] at h
    obtain ⟨⟨header, data, timer, t2, rng2⟩, hencrypt, h⟩ := h
    cases h
    refine Quiet.trans ?_ (encrypt_quiet hencrypt)
    exact t.quiet_of_identity rfl
  · cases h
    exact .refl t

lemma tickRekey_quiet (t : TransportState C) (now : Nat) : t.Quiet (t.tickRekey now).2 := by
  unfold tickRekey
  split
  · exact t.quiet_of_identity rfl
  · exact .refl t

lemma tick_spec {result : TickResult C} (h : t.tick rng config now = .ok (result, t', rng')) :
    t.Quiet t' ∧ result.Ends t.common := by
  unfold tick at h
  split at h
  · cases h
    exact ⟨t.quiet_of_identity (SessionState.identity_handleSessionTimeout _), .handleSessionTimeout⟩
  split at h
  · cases h
    exact ⟨t.quiet_of_identity (SessionState.identity_handleSessionTimeout _), .handleSessionTimeout⟩
  split at h
  · cases h
    exact ⟨t.quiet_of_identity rfl, fun _ he => (some.inj he).symm⟩
  rw [bind_eq_ok] at h
  obtain ⟨⟨message, t1, rng1⟩, hmessage, h⟩ := h
  cases h
  exact ⟨(tickKeepalive_quiet hmessage).trans (t1.tickRekey_quiet now), fun _ he => by cases he⟩

end

end TransportState

/-- A handshake message that was not answered in time: the remaining timer, the end of the
session and a new attempt. -/
def handshakeTick (common : SessionState C) (now : Nat) : Option (TickResult C × SessionState C) :=
  if !SessionState.expired common.sessionTimeoutDeadline now then none
  else
    let common := { common with sessionTimeoutDeadline := none }
    let (terminated, rekey, common) := common.handleSessionTimeout
    some (⟨common.getNextDeadline, none, rekey, some terminated⟩, common)

variable {common common' : SessionState C} {now : Nat} {result : TickResult C}

lemma handshakeTick_spec (h : handshakeTick common now = some (result, common')) :
    common'.identity = common.identity ∧ result.Ends common := by
  unfold handshakeTick at h
  split at h
  · cases h
  · cases h
    exact ⟨SessionState.identity_handleSessionTimeout _, .handleSessionTimeout⟩

/-! ## Responder -/

/-- A first message that was accepted. -/
structure ValidatedHandshakeInit (C : Crypto) where
  handshakeState : HandshakeState C
  remotePublicKey : C.PubKey
  timestamp : Tai64N

/-- A session that has answered and waits for a packet. -/
structure ResponderState (C : Crypto) where
  transport : TransportState C

variable {cookie : Option (C.Array 16)} {addr : SocketAddr}

namespace ResponderState

/-- Decrypt the first message of a handshake. -/
def validateInit (localStaticKey : C.KeyPair) (packet : HandshakeInitiation C) :
    ExceptT (SessionError C) Checked (ValidatedHandshakeInit C) := do
  let (handshakeState, timestamp) ← ExceptT.mk (pure
    ((acceptHandshakeInit localStaticKey packet).mapError .handshakeError))
  let remotePublicKey ← ExceptT.lift (unwrap handshakeState.remoteStatic)
  pure ⟨handshakeState, remotePublicKey, timestamp⟩

/-- Answer the first message of a handshake. -/
def new (rng : C.Rng) (now : Nat) (config : Config C) (localSessionIndex : UInt32)
    (storedCookie : Option (C.Array 16)) (validatedInit : ValidatedHandshakeInit C)
    (remoteAddr : SocketAddr) :
    Checked (ResponderState C × Nat × HandshakeResponse C × C.Rng) := do
  let (ephemeral, rng) := C.generate rng
  let (response, transportKeys, handshakeState) ← sendHandshakeResponse ephemeral
    localSessionIndex validatedInit.handshakeState config.psk storedCookie
  let common : SessionState C :=
    { remoteAddr := remoteAddr
      remotePublicKey := validatedInit.remotePublicKey
      localIndex := localSessionIndex
      created := now
      retryAttempts := 0
      initiatorTimestamp := some validatedInit.timestamp
      isInitiator := false
      lastHandshakeMac1 := some response.mac1 }
  let (timeout, rng) := addJitter rng config.sessionTimeout config.sessionTimeoutJitter
  let (_, common) := common.resetSessionTimeout now timeout
  let timer ← unwrap common.getNextDeadline
  pure (⟨.new handshakeState.receiverIndex transportKeys.sendKey transportKeys.recvKey common⟩,
    timer, response, rng)

/-- Decrypt the first packet. -/
def decrypt (r : ResponderState C) (config : Config C) (now : Nat) (packet : DataPacket C) :
    ExceptT (SessionError C) Checked (RenewedTimer × List C.Byte × ResponderState C) := do
  let (timer, plaintext, transport) ← r.transport.decrypt config now packet
  pure (timer, plaintext, ⟨transport⟩)

/-- Become a transport session after the first packet. -/
def establish (r : ResponderState C) (rng : C.Rng) (config : Config C) (now : Nat) :
    Checked (TransportState C × Nat × C.Rng) := do
  let (_, common) := r.transport.common.resetSessionTimeout now config.sessionTimeout
  let (interval, rng) := addJitter rng config.keepaliveInterval config.keepaliveJitter
  let (_, common) := common.resetKeepalive now interval
  let common := common.setMaxSessionDuration now config.maxSessionDuration
  let common := common.resetGcDeadline now config.gcIdleTimeout
  let timer ← unwrap common.getNextDeadline
  pure ({ r.transport with common := common }, timer, rng)

variable {r r' : ResponderState C}

lemma establish_quiet {rng rng' : C.Rng} {timer : Nat} {t : TransportState C}
    (h : r.establish rng config now = .ok (t, timer, rng')) : r.transport.Quiet t := by
  obtain ⟨_, -, rfl, -, -⟩ := h
  exact r.transport.quiet_of_identity rfl

lemma exists_establish (r : ResponderState C) (rng : C.Rng) (config : Config C) (now : Nat) :
    ∃ t timer rng', r.establish rng config now = .ok (t, timer, rng') := by
  simp only [establish]
  generalize hcommon : SessionState.resetGcDeadline _ now config.gcIdleTimeout = common
  obtain ⟨timer, htimer⟩ : ∃ m, common.getNextDeadline = some m :=
    SessionState.exists_getNextDeadline (d := now + config.gcIdleTimeout) (by
      simp [← hcommon, SessionState.resetGcDeadline])
  rw [htimer]
  exact ⟨_, timer, _, rfl⟩

/-- A session that is not confirmed only times out. -/
def tick (r : ResponderState C) (now : Nat) : Option (TickResult C × ResponderState C) :=
  (handshakeTick r.transport.common now).map fun (result, common) =>
    (result, ⟨{ r.transport with common := common }⟩)

def handleCookie (r : ResponderState C) (reply : CookieReply C) :
    Except (SessionError C) (ResponderState C) :=
  (r.transport.common.handleCookie reply).map fun common =>
    ⟨{ r.transport with common := common }⟩

lemma identity_new {rng rng' : C.Rng} {timer : Nat} {index : UInt32}
    {validated : ValidatedHandshakeInit C} {response : HandshakeResponse C}
    (h : new rng now config index cookie validated addr = .ok (r, timer, response, rng')) :
    r.transport.common.identity =
      ⟨some validated.timestamp, addr, validated.remotePublicKey, index, now, false⟩ := by
  simp only [new, bind_eq_ok, pure, Except.pure, Except.ok.injEq, Prod.mk.injEq] at h
  obtain ⟨_, -, _, -, rfl, -⟩ := h
  rfl

lemma identity_decrypt
    (h : (r.decrypt config now packet).run = .ok (.ok (timer, plaintext, r'))) :
    r'.transport.common.identity = r.transport.common.identity := by
  simp only [decrypt, run_bind_eq_ok] at h
  obtain ⟨⟨timer', plaintext', t⟩, hdecrypt, h⟩ := h
  cases h
  exact (TransportState.decrypt_eq_ok hdecrypt).2.2.identity

lemma tick_spec (h : r.tick now = some (result, r')) :
    r.transport.Quiet r'.transport ∧ result.Ends r.transport.common := by
  simp only [tick, map_eq_some_iff, Prod.mk.injEq] at h
  obtain ⟨⟨_, common⟩, htick, rfl, rfl⟩ := h
  exact (handshakeTick_spec htick).imp_left r.transport.quiet_of_identity

lemma handleCookie_quiet {reply : CookieReply C} (h : r.handleCookie reply = .ok r') :
    r.transport.Quiet r'.transport := by
  unfold handleCookie at h
  cases hcookie : r.transport.common.handleCookie reply with
  | error e =>
    rw [hcookie] at h
    cases h
  | ok common =>
    rw [hcookie] at h
    cases h
    exact r.transport.quiet_of_identity (r.transport.common.identity_handleCookie hcookie)

end ResponderState

/-! ## Initiator -/

/-- A session that has sent its first message. -/
structure InitiatorState (C : Crypto) where
  handshakeState : HandshakeState C
  common : SessionState C
  bufferedMessages : List (List C.Byte)
  bufferedBytes : Nat

/-- An answer that was accepted. -/
structure ValidatedHandshakeResponse (C : Crypto) where
  transportKeys : TransportKeys C
  remoteIndex : UInt32

def usizeMax : Nat := 2 ^ 64 - 1

namespace InitiatorState

/-- New session, its timer and the first message. -/
def new (rng : C.Rng) (systemTime now : Nat) (config : Config C) (localSessionIndex : UInt32)
    (localStaticKey : C.KeyPair) (remoteStaticKey : C.PubKey) (remoteAddr : SocketAddr)
    (cookieSecret : Option (C.Array 16)) (retryAttempts : Nat) :
    Checked (InitiatorState C × Nat × HandshakeInitiation C × C.Rng) := do
  let (ephemeral, rng) := C.generate rng
  let (initMsg, handshakeState) := sendHandshakeInit ephemeral (Tai64N.ofSystemTime systemTime)
    localSessionIndex localStaticKey remoteStaticKey cookieSecret
  let common : SessionState C :=
    { remoteAddr := remoteAddr
      remotePublicKey := remoteStaticKey
      localIndex := localSessionIndex
      created := now
      retryAttempts := retryAttempts
      initiatorTimestamp := none
      isInitiator := true
      storedCookie := cookieSecret
      lastHandshakeMac1 := some initMsg.mac1 }
  let (timeout, rng) := addJitter rng config.sessionTimeout config.sessionTimeoutJitter
  let (_, common) := common.resetSessionTimeout now timeout
  let timer ← unwrap common.getNextDeadline
  pure (⟨handshakeState, common, [], 0⟩, timer, initMsg, rng)

section

variable (i : InitiatorState C)

/-- Decrypt the answer of the responder. -/
def validateResponse (config : Config C) (localStaticKey : C.KeyPair) (msg : HandshakeResponse C) :
    ExceptT (SessionError C) Checked (ValidatedHandshakeResponse C) := do
  let initiatorEphemeralPrivate ← ExceptT.lift (unwrap i.handshakeState.ephemeralPrivate)
  let transportKeys ← ExceptT.mk (pure ((acceptHandshakeResponse localStaticKey
    initiatorEphemeralPrivate i.handshakeState.hash i.handshakeState.chainingKey msg
    config.psk).mapError .handshakeError))
  pure ⟨transportKeys, msg.senderIndex⟩

/-- Become a transport session; the second result are the messages to send, one empty
message if none waits. -/
def establish (rng : C.Rng) (config : Config C) (now : Nat)
    (validated : ValidatedHandshakeResponse C) :
    TransportState C × List (List C.Byte) × C.Rng :=
  let (timeout, rng) := addJitter rng config.sessionTimeout config.sessionTimeoutJitter
  let (_, common) := i.common.resetSessionTimeout now timeout
  let (interval, rng) := addJitter rng config.rekeyInterval config.rekeyJitter
  let common := common.resetRekey now interval
  let common := common.setMaxSessionDuration now config.maxSessionDuration
  let common := common.resetGcDeadline now config.gcIdleTimeout
  (.new validated.remoteIndex validated.transportKeys.sendKey validated.transportKeys.recvKey
      common,
    if i.bufferedMessages.isEmpty then [[]] else i.bufferedMessages, rng)

def handleCookie (reply : CookieReply C) : Except (SessionError C) (InitiatorState C) :=
  (i.common.handleCookie reply).map fun common => { i with common := common }

/-- A handshake only times out. -/
def tick (now : Nat) : Option (TickResult C × InitiatorState C) :=
  (handshakeTick i.common now).map fun (result, common) => (result, { i with common := common })

/-- Keep a message until the handshake is done. -/
def bufferMessage (message : List C.Byte) : InitiatorState C :=
  { i with
    bufferedBytes := min (i.bufferedBytes + message.length) usizeMax
    bufferedMessages := i.bufferedMessages ++ [message] }

end

section

variable {i i' : InitiatorState C}

lemma identity_new {rng rng' : C.Rng} {systemTime timer : Nat}
    {index : UInt32} {localStaticKey : C.KeyPair} {key : C.PubKey}
    {retryAttempts : Nat} {message : HandshakeInitiation C}
    (h : new rng systemTime now config index localStaticKey key addr cookie retryAttempts =
      .ok (i, timer, message, rng')) :
    i.common.identity = ⟨none, addr, key, index, now, true⟩ := by
  obtain ⟨_, -, rfl, -⟩ := h
  rfl

lemma identity_handleCookie {reply : CookieReply C} (h : i.handleCookie reply = .ok i') :
    i'.common.identity = i.common.identity := by
  unfold handleCookie at h
  cases hcookie : i.common.handleCookie reply with
  | error e =>
    rw [hcookie] at h
    cases h
  | ok common =>
    rw [hcookie] at h
    cases h
    exact i.common.identity_handleCookie hcookie

lemma tick_spec (h : i.tick now = some (result, i')) :
    i'.common.identity = i.common.identity ∧ result.Ends i.common := by
  simp only [tick, map_eq_some_iff, Prod.mk.injEq] at h
  obtain ⟨⟨_, common⟩, htick, rfl, rfl⟩ := h
  exact handshakeTick_spec htick

end

end InitiatorState

end Kinet.Wireauth
