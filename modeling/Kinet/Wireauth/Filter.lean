import Kinet.Foundation.LruCache
import Kinet.Wireauth.State

/-!
# Admission of handshake messages

Under load a node asks the sender of a handshake message to prove its address with a cookie,
or drops the message.
-/

namespace Kinet.Wireauth

open Crypto

variable {C : Crypto}

/-! ## Cookies -/

/-- Secrets that cookies and their nonces are made of. -/
structure Cookies (C : Crypto) where
  nonceSecret : C.Array 32
  cookieSecret : C.Array 32
  nonce : Nat
  localStaticPublic : C.PubKey
  refreshDuration : Nat

def IpAddr.bytes : IpAddr → List UInt8
  | .v4 octets => octets.toList ++ List.replicate 12 0
  | .v6 octets => octets.toList

def generateCookie (cookieSecret : C.Array 32) (nonce : Nat) (remoteIp : IpAddr) : C.Array 16 :=
  macTag (keyedHash cookieSecret [C.octets (ByteOrder.toLe 8 nonce), C.octets remoteIp.bytes])

/-- Encrypt a cookie for the sender of the message with this code. -/
def sendCookieReply (nonceSecret : C.Array 32) (nonceCounter : Nat)
    (responderStaticPublic : C.PubKey) (msgSenderIndex : UInt32) (msgMac1 cookie : C.Array 16) :
    CookieReply C :=
  let nonce := macTag (keyedHash nonceSecret [C.octets (ByteOrder.toLe 16 nonceCounter)])
  let sealed := encryptInPlace (cipherKey (cookieKey responderStaticPublic)) nonce cookie
    msgMac1.toList
  { receiverIndex := msgSenderIndex
    nonce := nonce
    encryptedCookie := sealed.1
    encryptedCookieTag := sealed.2 }

namespace Cookies

def new (rng : C.Rng) (localStaticPublic : C.PubKey) (refreshDuration : Nat) : Cookies C × C.Rng :=
  let (cookieSecret, rng) := C.fillBytes 32 rng
  let (nonceSecret, rng) := C.fillBytes 32 rng
  ({ cookieSecret := cookieSecret
     nonceSecret := nonceSecret
     nonce := 0
     localStaticPublic := localStaticPublic
     refreshDuration := refreshDuration }, rng)

/-- Number of the period that a time falls into. -/
def timeCounter (c : Cookies C) (now : Nat) : Checked Nat :=
  Checked.div (now / secs 1) (c.refreshDuration / secs 1)

variable {M : Type} [MacMessage C M]

def create (c : Cookies C) (ip : IpAddr) (senderIndex : UInt32) (message : M) (now : Nat) :
    Checked (CookieReply C × Cookies C) := do
  let cookie := generateCookie c.cookieSecret (← c.timeCounter now) ip
  let nonce ← Checked.add 128 c.nonce 1
  pure (sendCookieReply c.nonceSecret c.nonce c.localStaticPublic senderIndex
    (MacMessage.mac1 message) cookie, { c with nonce := nonce })

def verify (c : Cookies C) (remoteIp : IpAddr) (message : M) (now : Nat) :
    Checked (Except (CookieError C) Unit) := do
  let cookie := generateCookie c.cookieSecret (← c.timeCounter now) remoteIp
  pure ((verifyMac2 message c.localStaticPublic cookie).mapError .invalidCookieMac)

end Cookies

/-! ## The filter -/

/-- What to do with a handshake message. -/
inductive FilterAction where
  | pass
  | sendCookie
  | drop
deriving DecidableEq

/-- Limits on handshakes, with their counters. -/
structure Filter where
  cookieUnverifiedCounter : Nat := 0
  cookieVerifiedCounter : Nat := 0
  lastReset : Nat := 0
  handshakeCookieUnverifiedRateLimit : Nat
  handshakeCookieVerifiedRateLimit : Nat
  handshakeRateResetInterval : Nat
  ipRequestHistory : LruCache IpAddr Nat
  ipRateLimitWindow : Nat
  maxSessionsPerIp : Nat
  lowWatermarkSessions : Nat
  highWatermarkSessions : Nat

namespace Filter

def new (config : Config C) : Filter where
  handshakeCookieUnverifiedRateLimit := config.handshakeCookieUnverifiedRateLimit
  handshakeCookieVerifiedRateLimit := config.handshakeCookieVerifiedRateLimit
  handshakeRateResetInterval := config.handshakeRateResetInterval
  ipRequestHistory := { capacity := config.ipHistoryCapacity }
  ipRateLimitWindow := config.ipRateLimitWindow
  maxSessionsPerIp := config.maxSessionsPerIp
  lowWatermarkSessions := config.lowWatermarkSessions
  highWatermarkSessions := config.highWatermarkSessions

variable (f : Filter)

/-- Counters start again after the interval. -/
def tick (now : Nat) : Filter :=
  if now - f.lastReset ≥ f.handshakeRateResetInterval then
    { f with cookieUnverifiedCounter := 0, cookieVerifiedCounter := 0, lastReset := now }
  else f

def checkHighWatermark (totalSessions : Nat) : Option FilterAction :=
  if totalSessions ≥ f.highWatermarkSessions then some .drop else none

/-- Handshakes with and without a cookie have limits of their own. -/
def checkCookieRateLimit (cookieValid : Bool) : Option FilterAction × Filter :=
  if cookieValid then
    if f.cookieVerifiedCounter ≥ f.handshakeCookieVerifiedRateLimit then (some .drop, f)
    else (none, { f with cookieVerifiedCounter := f.cookieVerifiedCounter + 1 })
  else if f.cookieUnverifiedCounter ≥ f.handshakeCookieUnverifiedRateLimit then
    if f.cookieVerifiedCounter < f.handshakeCookieVerifiedRateLimit then (some .sendCookie, f)
    else (some .drop, f)
  else (none, { f with cookieUnverifiedCounter := f.cookieUnverifiedCounter + 1 })

def checkLowWatermark (totalSessions : Nat) : Option FilterAction :=
  if totalSessions < f.lowWatermarkSessions then some .pass else none

def checkCookieValidity (cookieValid : Bool) : Option FilterAction :=
  if !cookieValid then some .sendCookie else none

/-- One handshake of an address in a window of time. -/
def checkIpRateLimit (ip : IpAddr) (now : Nat) : Option FilterAction × Filter :=
  let windowStart := now - f.ipRateLimitWindow
  let (lastTime, history) := f.ipRequestHistory.get ip
  match lastTime with
  | some lastTime =>
    if lastTime ≥ windowStart then (some .drop, { f with ipRequestHistory := history })
    else (none, { f with ipRequestHistory := history.put ip now })
  | none => (none, { f with ipRequestHistory := history.put ip now })

def checkMaxSessionsPerIp (state : State C) (ip : IpAddr) : Option FilterAction :=
  if state.ipSessionCount ip ≥ f.maxSessionsPerIp then some .drop else none

/-- The first check that decides, or pass. -/
def apply (state : State C) (remoteAddr : SocketAddr) (now : Nat)
    (cookieValid : Bool) : FilterAction × Filter :=
  let ip := remoteAddr.ip
  match f.checkHighWatermark state.totalSessions with
  | some action => (action, f)
  | none =>
    let (action, f) := f.checkCookieRateLimit cookieValid
    match action <|> f.checkLowWatermark state.totalSessions <|>
        checkCookieValidity cookieValid with
    | some action => (action, f)
    | none =>
      let (action, f) := f.checkIpRateLimit ip now
      match action <|> f.checkMaxSessionsPerIp state ip with
      | some action => (action, f)
      | none => (.pass, f)

end Filter

end Kinet.Wireauth
