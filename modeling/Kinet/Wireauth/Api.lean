import Kinet.Foundation.Fallible
import Kinet.Wireauth.Filter

/-!
# The interface of the session layer

`API` is the source's struct of that name: the session table, the timers, the packets to be
sent and the admission filter.  A call that fails keeps the changes it has made; a failed
`expect` is a fault.  The clock is read once per call.  `log` is not part of the source: it
lists the sessions that were started and established.
-/

namespace Kinet.Wireauth

open Crypto
open Fallible (ofChecked)

/-- Why a call fails. -/
inductive Error (C : Crypto) where
  | session (error : SessionError C)
  | crypto (error : CryptoError C)
  | sessionNotFound
  | sessionIndexExhausted
  | sessionNotEstablishedForAddress (addr : SocketAddr)
  | invalidReceiverIndex (index : UInt32)
  | handshakeResponseAddressMismatch (expected actual : SocketAddr)
  | timestampReplay
  | sessionIndexNotFound (index : UInt32)
  | connectRateLimited (limit interval : Nat)
  | tooManyInitiatedSessions (limit : Nat)
  | bufferLimitExceeded (size limit : Nat)

inductive SessionEvent (C : Crypto) where
  /-- a first message was made for a peer -/
  | initiated (key : C.PubKey) (index : UInt32)
  /-- a first message of a peer was accepted -/
  | accepted (key : C.PubKey) (index : UInt32) (timestamp : Tai64N)
  /-- a session with a peer became a transport session; the timestamp is that of the peer's
  first message, if the peer sent it -/
  | established (key : C.PubKey) (index : UInt32) (timestamp : Option Tai64N)

/-- A reading of the clock: nanoseconds since the start and since 1970. -/
structure Clock where
  now : Nat
  systemTime : Nat

abbrev Timers := FiniteSet (Nat × UInt32)

namespace Timers

/-- Timers are ordered by their deadline first. -/
def le (a b : Nat × UInt32) : Bool :=
  decide (a.1 < b.1) || decide (a.1 = b.1) && decide (a.2 ≤ b.2)

def first (timers : Timers) : Option (Nat × UInt32) :=
  (timers.keys.insertionSort fun a b => le a b).head?

end Timers

structure API (C : Crypto) where
  state : State C
  timers : Timers
  packetQueue : List (SocketAddr × List C.Byte)
  config : Config C
  localStaticKey : C.KeyPair
  cookies : Cookies C
  filter : Filter
  rng : C.Rng
  connectRateCounter : Nat
  connectRateLastReset : Nat
  log : List (SessionEvent C)

variable {C : Crypto}

/-- Calls. -/
abbrev ApiM (C : Crypto) := ExceptT (Error C) (StateT (API C) Checked)

namespace API

/-- A session layer without sessions. -/
def new (config : Config C) (localStaticKey : C.KeyPair) (rng : C.Rng) : API C :=
  let (cookies, rng) := Cookies.new rng (C.pubkey localStaticKey) config.cookieRefreshDuration
  { state := {}
    timers := ∅
    packetQueue := []
    config := config
    localStaticKey := localStaticKey
    cookies := cookies
    filter := .new config
    rng := rng
    connectRateCounter := 0
    connectRateLastReset := 0
    log := [] }

/-! ## Pieces -/

/-- The result of a part that may fail. -/
def ofExcept {α ε : Type} (f : ε → Error C) (x : Except ε α) : ApiM C α :=
  match x with
  | .ok a => pure a
  | .error e => throw (f e)

/-- The result of a part that may fail or fault. -/
def ofFallible {α ε : Type} (f : ε → Error C) (x : ExceptT ε Checked α) : ApiM C α := do
  ofExcept f (← ofChecked x.run)

/-- Replace the session table, and note what happened to sessions. -/
def setState (state : State C) (events : List (SessionEvent C)) : ApiM C Unit :=
  modify fun api => { api with state := state, log := api.log ++ events }

def setRng (rng : C.Rng) : ApiM C Unit := modify fun api => { api with rng := rng }

def enqueuePacket (addr : SocketAddr) (packet : List C.Byte) : ApiM C Unit :=
  modify fun api => { api with packetQueue := api.packetQueue ++ [(addr, packet)] }

def insertTimer (timer : Nat) (sessionId : UInt32) : ApiM C Unit :=
  modify fun api => { api with timers := api.timers.insert (timer, sessionId) () }

def replaceTimer (timer : RenewedTimer) (sessionIndex : UInt32) : ApiM C Unit :=
  modify fun api =>
    let timers :=
      match timer.previous with
      | some previous => api.timers.erase (previous, sessionIndex)
      | none => api.timers
    { api with timers := timers.insert (timer.current, sessionIndex) () }

/-! ## Starting a session -/

def checkConnectRateLimit (clock : Clock) : ApiM C Unit := do
  let api ← get
  let api :=
    if clock.now - api.connectRateLastReset ≥ api.config.connectRateResetInterval then
      { api with connectRateCounter := 0, connectRateLastReset := clock.now }
    else api
  set api
  if api.connectRateCounter ≥ api.config.connectRateLimit then
    throw (.connectRateLimited api.config.connectRateLimit api.config.connectRateResetInterval)
  set { api with connectRateCounter := api.connectRateCounter + 1 }

variable (clock : Clock) (remoteStaticKey : C.PubKey) (remoteAddr : SocketAddr)

/-- Send a first message; the results are the index of the session, its timer and the
message. -/
def initSessionWithCookie (cookie : Option (C.Array 16)) (retryAttempts : Nat) :
    ApiM C (UInt32 × Nat × HandshakeInitiation C) := do
  let api ← get
  match api.state.reserveSessionIndex with
  | none => throw .sessionIndexExhausted
  | some index =>
    let (session, timer, message, rng) ← ofChecked (InitiatorState.new api.rng clock.systemTime
      clock.now api.config index api.localStaticKey remoteStaticKey remoteAddr cookie
      retryAttempts)
    setRng rng
    setState ((api.state.commit index).insertInitiator index session remoteStaticKey)
      [.initiated remoteStaticKey index]
    pure (index, timer, message)

/-- Start a session with a peer, whether or not there is one already. -/
def connect (retryAttempts : Nat) : ApiM C Unit := do
  checkConnectRateLimit clock
  let api ← get
  if api.state.initiatedSessionsCount ≥ api.config.maxInitiatedSessions then
    throw (.tooManyInitiatedSessions api.config.maxInitiatedSessions)
  let cookie := api.state.lookupCookieFromInitiatedSessions remoteStaticKey
  let (localIndex, timer, message) ←
    initSessionWithCookie clock remoteStaticKey remoteAddr cookie retryAttempts
  enqueuePacket remoteAddr message.asBytes
  insertTimer timer localIndex

/-! ## Timers -/

/-- The session at an index handles its timer. -/
def tickSession (now : Nat) (sessionId : UInt32) : ApiM C (Option (TickResult C)) := do
  let api ← get
  match api.state.initiatingSessions.lookup sessionId with
  | some i =>
    match i.tick now with
    | none => pure none
    | some (result, i) => do
      setState { api.state with
        initiatingSessions := api.state.initiatingSessions.insert sessionId i } []
      pure (some result)
  | none =>
    match api.state.respondingSessions.lookup sessionId with
    | some r =>
      match r.tick now with
      | none => pure none
      | some (result, r) => do
        setState { api.state with
          respondingSessions := api.state.respondingSessions.insert sessionId r } []
        pure (some result)
    | none =>
      match api.state.transportSessions.lookup sessionId with
      | some t => do
        let (result, t, rng) ← ofChecked (t.tick api.rng api.config now)
        setRng rng
        setState { api.state with
          transportSessions := api.state.transportSessions.insert sessionId t } []
        pure (some result)
      | none => pure none

/-- Start the session that an old one asked for, if there is an index for it. -/
def rekey (clock : Clock) (event : RekeyEvent C) : ApiM C Unit := do
  let result ← ExceptT.lift (initSessionWithCookie clock event.remotePublicKey event.remoteAddr
    event.storedCookie event.retryAttempts).run
  match result with
  | .ok (newSessionIndex, timer, message) => do
    enqueuePacket event.remoteAddr message.asBytes
    insertTimer timer newSessionIndex
  | .error _ => pure ()

def handleTimer (clock : Clock) (sessionId : UInt32) : ApiM C Unit := do
  match ← tickSession clock.now sessionId with
  | none => pure ()
  | some result => do
    result.message.forM fun message => enqueuePacket message.remoteAddr message.header.asBytes
    result.rekey.forM fun event => rekey clock event
    result.timer.forM fun timer => insertTimer timer sessionId
    result.terminated.forM fun terminated => do
      let api ← get
      setState (api.state.terminateSession sessionId terminated.remotePublicKey
        terminated.remoteAddr) []

/-- Handle up to so many timers that are due. -/
def tickLoop (clock : Clock) : Nat → ApiM C Unit
  | 0 => pure ()
  | budget + 1 => do
    let api ← get
    match api.timers.first with
    | none => pure ()
    | some (deadline, sessionId) =>
      if deadline > clock.now then pure ()
      else do
        modify fun api => { api with timers := api.timers.erase (deadline, sessionId) }
        handleTimer clock sessionId
        tickLoop clock budget

def tick (clock : Clock) : ApiM C Unit := do
  modify fun api => { api with filter := api.filter.tick clock.now }
  tickLoop clock (← get).config.maxExpiredTimersPerTick

/-! ## Handshake messages -/

/-- May a handshake message be handled?  If not, a cookie may have been sent. -/
def isUnderLoad {M : Type} [MacMessage C M] (clock : Clock) (remoteAddr : SocketAddr)
    (senderIndex : UInt32) (message : M) : ApiM C Bool := do
  let api ← get
  let cookieValid ← ofChecked (api.cookies.verify remoteAddr.ip message clock.now)
  let (action, filter) := api.filter.apply api.state remoteAddr clock.now cookieValid.toBool
  set { api with filter := filter }
  match action with
  | .pass => pure true
  | .sendCookie => do
    let (reply, cookies) ← ofChecked
      (api.cookies.create remoteAddr.ip senderIndex message clock.now)
    modify fun api => { api with cookies := cookies }
    enqueuePacket remoteAddr reply.asBytes
    pure false
  | .drop => pure false

/-- Answer a first message. -/
def acceptHandshakeInit (clock : Clock) (packet : HandshakeInitiation C)
    (remoteAddr : SocketAddr) : ApiM C Unit := do
  let api ← get
  ofExcept .crypto (verifyMac1 packet (C.pubkey api.localStaticKey))
  if !(← isUnderLoad clock remoteAddr packet.senderIndex packet) then pure ()
  else do
    let validatedInit ← ofFallible .session (ResponderState.validateInit api.localStaticKey packet)
    let api ← get
    let remoteKey := validatedInit.remotePublicKey
    if (api.state.getMaxTimestamp remoteKey).any fun latest => validatedInit.timestamp ≤ latest then
      throw .timestampReplay
    let storedCookie := api.state.lookupCookieFromAcceptedSessions remoteKey
    match api.state.reserveSessionIndex with
    | none => throw .sessionIndexExhausted
    | some localIndex => do
      let (session, timer, message, rng) ← ofChecked (ResponderState.new api.rng clock.now
        api.config localIndex storedCookie validatedInit remoteAddr)
      setRng rng
      setState ((api.state.commit localIndex).insertResponder localIndex session remoteKey)
        [.accepted remoteKey localIndex validatedInit.timestamp]
      enqueuePacket remoteAddr message.asBytes
      insertTimer timer localIndex

def acceptCookie (reply : CookieReply C) : ApiM C Unit := do
  let api ← get
  match api.state.initiatingSessions.lookup reply.receiverIndex with
  | some i => do
    let i ← ofExcept .session (i.handleCookie reply)
    setState { api.state with
      initiatingSessions := api.state.initiatingSessions.insert reply.receiverIndex i } []
  | none =>
    match api.state.respondingSessions.lookup reply.receiverIndex with
    | some r => do
      let r ← ofExcept .session (r.handleCookie reply)
      setState { api.state with
        respondingSessions := api.state.respondingSessions.insert reply.receiverIndex r } []
    | none => pure ()

/-- Encrypt with the transport session at an index and move a timer. -/
def encryptAt (clock : Clock) (sessionIndex timerIndex : UInt32) (t : TransportState C)
    (plaintext : List C.Byte) : ApiM C (DataPacketHeader C × List C.Byte) := do
  let api ← get
  let (header, data, timer, t, rng) ← ofChecked (t.encrypt api.rng api.config clock.now plaintext)
  setRng rng
  setState { api.state with
    transportSessions := api.state.transportSessions.insert sessionIndex t } []
  replaceTimer timer timerIndex
  pure (header, data)

def sendMessages (clock : Clock) (remoteAddr : SocketAddr) (sessionIndex : UInt32) :
    List (List C.Byte) → ApiM C Unit
  | [] => pure ()
  | msg :: messages => do
    let api ← get
    let t ← ofChecked (Checked.unwrap (api.state.transportSessions.lookup sessionIndex))
    let (header, data) ← encryptAt clock sessionIndex sessionIndex t msg
    enqueuePacket remoteAddr (header.asBytes ++ data)
    sendMessages clock remoteAddr sessionIndex messages

/-- Establish the session that an answer is for. -/
def completeHandshake (response : HandshakeResponse C) (remoteAddr : SocketAddr) : ApiM C Unit := do
  let api ← get
  ofExcept .crypto (verifyMac1 response (C.pubkey api.localStaticKey))
  if !(← isUnderLoad clock remoteAddr response.senderIndex response) then pure ()
  else do
    let api ← get
    let index := response.receiverIndex
    match api.state.initiatingSessions.lookup index with
    | none => throw (.invalidReceiverIndex index)
    | some initiator => do
      if remoteAddr ≠ initiator.common.remoteAddr then
        throw (.handshakeResponseAddressMismatch initiator.common.remoteAddr remoteAddr)
      let validated ← ofFallible .session
        (initiator.validateResponse api.config api.localStaticKey response)
      let (initiator, state) ← ofChecked (Checked.unwrap (api.state.removeInitiator index))
      let (transport, messages, rng) := initiator.establish api.rng api.config clock.now validated
      setRng rng
      setState (state.insertTransport index transport)
        [.established transport.common.remotePublicKey index transport.common.initiatorTimestamp]
      sendMessages clock remoteAddr index messages

/-! ## Data packets -/

/-- Decrypt a packet; the result is the plaintext and the key of its sender. -/
def decrypt (packet : DataPacket C) : ApiM C (List C.Byte × C.PubKey) := do
  let api ← get
  let index := packet.header.receiverIndex
  match api.state.transportSessions.lookup index with
  | some t => do
    let (timer, plaintext, t) ← ofFallible .session (t.decrypt api.config clock.now packet)
    setState { api.state with transportSessions := api.state.transportSessions.insert index t } []
    replaceTimer timer index
    pure (plaintext, t.common.remotePublicKey)
  | none =>
    match api.state.respondingSessions.lookup index with
    | some r => do
      let (_, plaintext, r) ← ofFallible .session (r.decrypt api.config clock.now packet)
      let state := { api.state with
        respondingSessions := api.state.respondingSessions.insert index r }
      let (r, state) ← ofChecked (Checked.unwrap (state.removeResponder index))
      let (transport, timer, rng) ← ofChecked (r.establish api.rng api.config clock.now)
      setRng rng
      setState (state.insertTransport index transport)
        [.established transport.common.remotePublicKey index transport.common.initiatorTimestamp]
      insertTimer timer index
      pure (plaintext, r.transport.common.remotePublicKey)
    | none => throw (.sessionIndexNotFound index)

inductive ControlPacket (C : Crypto) where
  | handshakeInitiation (msg : HandshakeInitiation C)
  | handshakeResponse (msg : HandshakeResponse C)
  | cookieReply (msg : CookieReply C)
  | keepalive (packet : DataPacket C)

def dispatchControl (control : ControlPacket C) (remoteAddr : SocketAddr) : ApiM C Unit :=
  match control with
  | .handshakeInitiation msg => acceptHandshakeInit clock msg remoteAddr
  | .handshakeResponse msg => completeHandshake clock msg remoteAddr
  | .cookieReply msg => acceptCookie msg
  | .keepalive packet => do
    let _ ← decrypt clock packet
    pure ()

def encryptByPublicKey (publicKey : C.PubKey) (plaintext : List C.Byte) :
    ApiM C (DataPacketHeader C × List C.Byte) := do
  let api ← get
  match api.state.latestByPublicKey publicKey, api.state.getTransportByPublicKey publicKey with
  | some index, some t => encryptAt clock index t.common.localIndex t plaintext
  | _, _ => throw .sessionNotFound

def encryptBySocket (addr : SocketAddr) (plaintext : List C.Byte) :
    ApiM C (DataPacketHeader C × List C.Byte) := do
  let api ← get
  match api.state.latestBySocket addr, api.state.getTransportBySocket addr with
  | some index, some t => encryptAt clock index t.common.localIndex t plaintext
  | _, _ => throw (.sessionNotEstablishedForAddress addr)

/-- Keep a message until the session with a peer is established. -/
def bufferMessage (publicKey : C.PubKey) (message : List C.Byte) : ApiM C Unit := do
  let api ← get
  let limit := api.config.maxBufferedBytesPerSession
  match (api.state.initiatedSessionByPeer.lookup publicKey).bind fun id =>
      (api.state.initiatingSessions.lookup id).map fun i => (id, i) with
  | none => throw .sessionNotFound
  | some (id, i) => do
    let newSize := i.bufferedBytes + message.length
    if newSize > usizeMax then throw (.bufferLimitExceeded usizeMax limit)
    if newSize > limit then throw (.bufferLimitExceeded newSize limit)
    setState { api.state with
      initiatingSessions := api.state.initiatingSessions.insert id (i.bufferMessage message) } []

/-- Forget all sessions of a peer. -/
def disconnect (publicKey : C.PubKey) : ApiM C Unit := do
  let api ← get
  setState (api.state.terminateByPublicKey publicKey) []

def nextPacket : ApiM C (Option (SocketAddr × List C.Byte)) := do
  let api ← get
  set { api with packetQueue := api.packetQueue.tail }
  pure api.packetQueue.head?

end API

/-! ## Runs -/

/-- The calls that change a session layer. -/
inductive Call (C : Crypto) where
  | connect (remoteStaticKey : C.PubKey) (remoteAddr : SocketAddr) (retryAttempts : Nat)
  | disconnect (publicKey : C.PubKey)
  | dispatchControl (control : API.ControlPacket C) (remoteAddr : SocketAddr)
  | decrypt (packet : DataPacket C) (remoteAddr : SocketAddr)
  | encryptByPublicKey (publicKey : C.PubKey) (plaintext : List C.Byte)
  | encryptBySocket (addr : SocketAddr) (plaintext : List C.Byte)
  | bufferMessage (publicKey : C.PubKey) (message : List C.Byte)
  | nextPacket
  | tick

/-- Make a call and forget its result. -/
def Call.perform (clock : Clock) : Call C → ApiM C Unit
  | .connect key addr retries => API.connect clock key addr retries
  | .disconnect key => API.disconnect key
  | .dispatchControl control addr => API.dispatchControl clock control addr
  | .decrypt packet _ => do
    let _ ← API.decrypt clock packet
    pure ()
  | .encryptByPublicKey key text => do
    let _ ← API.encryptByPublicKey clock key text
    pure ()
  | .encryptBySocket addr text => do
    let _ ← API.encryptBySocket clock addr text
    pure ()
  | .bufferMessage key message => API.bufferMessage key message
  | .nextPacket => do
    let _ ← API.nextPacket
    pure ()
  | .tick => API.tick clock

/-- A call takes a session layer to another one, whether or not it fails. -/
def Call.Leads (clock : Clock) (call : Call C) (api api' : API C) : Prop :=
  ∃ result, (call.perform clock).run.run api = .ok (result, api')

end Kinet.Wireauth
