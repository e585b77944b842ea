import Kinet.Foundation.Checked
import Kinet.Wireauth.Messages

/-!
# The handshake

One round trip in the Noise pattern `IKpsk2`.  Both parties run a chaining key and a
transcript hash through the fields of the two messages; the four functions below are
written separately in the source.  Ephemeral key pairs are drawn by the caller.
-/

namespace Kinet.Wireauth

open Crypto MacMessage

variable (C : Crypto)

structure HandshakeState where
  chainingKey : C.HashOutput
  hash : C.HashOutput
  ephemeralPrivate : Option C.KeyPair
  remoteEphemeral : Option C.PubKey
  remoteStatic : Option C.PubKey
  senderIndex : UInt32
  receiverIndex : UInt32

structure TransportKeys where
  sendKey : C.CipherKey
  recvKey : C.CipherKey

inductive HandshakeError where
  | staticKeyDecryptionFailed (error : CryptoError C)
  | timestampDecryptionFailed (error : CryptoError C)
  /-- nanoseconds exceed one second -/
  | invalidTimestamp (nanos : Nat)
  | emptyMessageDecryptionFailed (error : CryptoError C)

inductive CookieError where
  | cookieDecryptionFailed (error : CryptoError C)
  | invalidCookieMac (error : CryptoError C)

inductive SessionError where
  | handshakeError (error : HandshakeError C)
  | invalidMac (error : CryptoError C)
  | invalidCookie (error : CookieError C)
  /-- the counter is too far behind the next expected one -/
  | nonceOutsideWindow (counter next : UInt64)
  /-- a packet with this counter was accepted before -/
  | nonceDuplicate (counter : UInt64)

variable {C}

def HandshakeState.default : HandshakeState C where
  chainingKey := Crypto.hash [[]]
  hash := Crypto.hash [[]]
  ephemeralPrivate := none
  remoteEphemeral := none
  remoteStatic := none
  senderIndex := 0
  receiverIndex := 0

/-! ## Updates of the chaining key and the transcript hash -/

/-- Mix a value into the chaining key.  The first result is the key that further keys are
derived from, the second is the new chaining key. -/
def mixKey (chainingKey : C.HashOutput) (value : List C.Byte) : C.HashOutput × C.HashOutput :=
  let temp := keyedHash chainingKey [value]
  (temp, keyedHash temp [C.octets [1]])

/-- Key for a field that is encrypted after `mixKey`. -/
def fieldKey (mixed : C.HashOutput × C.HashOutput) : C.CipherKey :=
  cipherKey (keyedHash mixed.1 [mixed.2.toList, C.octets [2]])

def initialChainingKey : C.HashOutput := hash [C.construction]

/-- Transcript hash before the first message to `responderStaticPublic`. -/
def initialHash (responderStaticPublic : C.PubKey) : C.HashOutput :=
  hash [(hash [(initialChainingKey (C := C)).toList, C.identifier]).toList,
    (C.bytesCompressed responderStaticPublic).toList]

def deriveTransportKeys (chainingKey : C.HashOutput) (isInitiator : Bool) : TransportKeys C :=
  let temp1 := keyedHash chainingKey [[]]
  let temp2 := keyedHash temp1 [C.octets [1]]
  let temp3 := keyedHash temp1 [temp2.toList, C.octets [2]]
  if isInitiator then
    { sendKey := cipherKey temp2
      recvKey := cipherKey temp3 }
  else
    { sendKey := cipherKey temp3
      recvKey := cipherKey temp2 }

/-! ## The four functions -/

/-- First message to `responderStaticPublic`, and the state to await the answer in. -/
def sendHandshakeInit (ephemeralKeypair : C.KeyPair) (timestamp : Tai64N)
    (localSessionIndex : UInt32) (initiatorStaticKeypair : C.KeyPair)
    (responderStaticPublic : C.PubKey) (storedCookie : Option (C.Array 16)) :
    HandshakeInitiation C × HandshakeState C :=
  let ephemeralPublic := C.bytesCompressed (C.pubkey ephemeralKeypair)
  let msg : HandshakeInitiation C :=
    { ephemeralPublic := ephemeralPublic
      senderIndex := localSessionIndex }
  let hash₁ := hash [(initialHash responderStaticPublic).toList, ephemeralPublic.toList]
  let chainingKey₁ := (mixKey initialChainingKey ephemeralPublic.toList).2
  let ecdhEs := C.ecdh ephemeralKeypair responderStaticPublic
  let mixed₂ := mixKey chainingKey₁ ecdhEs.toList
  let encryptedStatic := encryptInPlace (fieldKey mixed₂) (cipherNonce 0)
    (C.bytesCompressed (C.pubkey initiatorStaticKeypair)) hash₁.toList
  let msg := { msg with
    encryptedStatic := encryptedStatic.1
    encryptedStaticTag := encryptedStatic.2 }
  let hash₂ := hash [hash₁.toList, msg.encryptedStatic.toList, msg.encryptedStaticTag.toList]
  let ecdhSs := C.ecdh initiatorStaticKeypair responderStaticPublic
  let mixed₃ := mixKey mixed₂.2 ecdhSs.toList
  let encryptedTimestamp := encryptInPlace (fieldKey mixed₃) (cipherNonce 0)
    timestamp.toBytes hash₂.toList
  let msg := { msg with
    encryptedTimestamp := encryptedTimestamp.1
    encryptedTimestampTag := encryptedTimestamp.2 }
  let hash₃ := hash [hash₂.toList, msg.encryptedTimestamp.toList, msg.encryptedTimestampTag.toList]
  let msg := { msg with
    mac1 := macTag (keyedHash (mac1Key responderStaticPublic) [mac1Input msg]) }
  let msg :=
    match storedCookie with
    | some cookie => { msg with
        mac2 := macTag (keyedHash (cookieKey responderStaticPublic)
          [mac2Input msg, cookie.toList]) }
    | none => msg
  (msg, { HandshakeState.default with
      chainingKey := mixed₃.2
      hash := hash₃
      senderIndex := localSessionIndex
      ephemeralPrivate := some ephemeralKeypair })

/-- Responder's state after a first message, and the timestamp in it. -/
def acceptHandshakeInit (responderStaticKeypair : C.KeyPair) (msg : HandshakeInitiation C) :
    Except (HandshakeError C) (HandshakeState C × Tai64N) := do
  let hash₁ := hash [(initialHash (C.pubkey responderStaticKeypair)).toList,
    msg.ephemeralPublic.toList]
  let remoteEphemeral ← (C.fromSlice msg.ephemeralPublic).mapError
    fun e => .staticKeyDecryptionFailed (.invalidKey e)
  let chainingKey₁ := (mixKey initialChainingKey msg.ephemeralPublic.toList).2
  let ecdhEe := C.ecdh responderStaticKeypair remoteEphemeral
  let mixed₂ := mixKey chainingKey₁ ecdhEe.toList
  -- the transcript takes the ciphertext before the field is decrypted in place
  let hash₂ := hash [hash₁.toList, msg.encryptedStatic.toList, msg.encryptedStaticTag.toList]
  let static ← (decryptInPlace (fieldKey mixed₂) (cipherNonce 0) msg.encryptedStatic
    msg.encryptedStaticTag hash₁.toList).mapError .staticKeyDecryptionFailed
  let remoteStatic ← (C.fromSlice static).mapError
    fun e => .staticKeyDecryptionFailed (.invalidKey e)
  let ecdhSs := C.ecdh responderStaticKeypair remoteStatic
  let mixed₃ := mixKey mixed₂.2 ecdhSs.toList
  let hash₃ := hash [hash₂.toList, msg.encryptedTimestamp.toList, msg.encryptedTimestampTag.toList]
  let timestampBytes ← (decryptInPlace (fieldKey mixed₃) (cipherNonce 0) msg.encryptedTimestamp
    msg.encryptedTimestampTag hash₂.toList).mapError .timestampDecryptionFailed
  let timestamp ← (Tai64N.ofBytes timestampBytes).mapError .invalidTimestamp
  pure ({ HandshakeState.default with
        chainingKey := mixed₃.2
        hash := hash₃
        remoteEphemeral := some remoteEphemeral
        remoteStatic := some remoteStatic
        receiverIndex := msg.senderIndex },
      timestamp)

/-- Answer to a first message: the message, the keys and the final state. -/
def sendHandshakeResponse (ephemeralKeypair : C.KeyPair) (localSessionIndex : UInt32)
    (state : HandshakeState C) (psk : C.Array 32) (storedCookie : Option (C.Array 16)) :
    Checked (HandshakeResponse C × TransportKeys C × HandshakeState C) := do
  let initiatorStaticPublic ← Checked.unwrap state.remoteStatic
  let msg : HandshakeResponse C :=
    { senderIndex := localSessionIndex
      receiverIndex := state.receiverIndex
      ephemeralPublic := C.bytesCompressed (C.pubkey ephemeralKeypair) }
  let hash₁ := hash [state.hash.toList, msg.ephemeralPublic.toList]
  let chainingKey₁ := (mixKey state.chainingKey msg.ephemeralPublic.toList).2
  let remoteEphemeral ← Checked.unwrap state.remoteEphemeral
  let ecdhEe := C.ecdh ephemeralKeypair remoteEphemeral
  let chainingKey₂ := (mixKey chainingKey₁ ecdhEe.toList).2
  let ecdhSe := C.ecdh ephemeralKeypair initiatorStaticPublic
  let chainingKey₃ := (mixKey chainingKey₂ ecdhSe.toList).2
  let mixed₄ := mixKey chainingKey₃ psk.toList
  let temp2 := keyedHash mixed₄.1 [mixed₄.2.toList, C.octets [2]]
  let key := keyedHash mixed₄.1 [temp2.toList, C.octets [3]]
  let hash₂ := hash [hash₁.toList, temp2.toList]
  let nothing : C.Array 0 := List.Vector.nil
  let msg := { msg with
    encryptedNothingTag :=
      (encryptInPlace (cipherKey key) (cipherNonce 0) nothing hash₂.toList).2 }
  let hash₃ := hash [hash₂.toList, msg.encryptedNothingTag.toList]
  let msg := { msg with
    mac1 := macTag (keyedHash (mac1Key initiatorStaticPublic) [mac1Input msg]) }
  let msg :=
    match storedCookie with
    | some cookie => { msg with
        mac2 := macTag (keyedHash (cookieKey initiatorStaticPublic)
          [mac2Input msg, cookie.toList]) }
    | none => msg
  pure (msg, deriveTransportKeys mixed₄.2 false, { state with
      senderIndex := localSessionIndex
      chainingKey := mixed₄.2
      hash := hash₃ })

def acceptHandshakeResponse (initiatorStaticKeypair initiatorEphemeralPrivate : C.KeyPair)
    (initiatorHash initiatorChainingKey : C.HashOutput) (msg : HandshakeResponse C)
    (psk : C.Array 32) : Except (HandshakeError C) (TransportKeys C) := do
  let remoteEphemeral ← (C.fromSlice msg.ephemeralPublic).mapError
    fun e => .staticKeyDecryptionFailed (.invalidKey e)
  let handshakeHash₁ := hash [initiatorHash.toList, msg.ephemeralPublic.toList]
  let chainingKey₁ := (mixKey initiatorChainingKey msg.ephemeralPublic.toList).2
  let ecdhEe := C.ecdh initiatorEphemeralPrivate remoteEphemeral
  let chainingKey₂ := (mixKey chainingKey₁ ecdhEe.toList).2
  let ecdhSe := C.ecdh initiatorStaticKeypair remoteEphemeral
  let chainingKey₃ := (mixKey chainingKey₂ ecdhSe.toList).2
  let mixed₄ := mixKey chainingKey₃ psk.toList
  let temp2 := keyedHash mixed₄.1 [mixed₄.2.toList, C.octets [2]]
  let key := keyedHash mixed₄.1 [temp2.toList, C.octets [3]]
  let handshakeHash₂ := hash [handshakeHash₁.toList, temp2.toList]
  let nothing : C.Array 0 := List.Vector.nil
  let _ ← (decryptInPlace (cipherKey key) (cipherNonce 0) nothing msg.encryptedNothingTag
    handshakeHash₂.toList).mapError .emptyMessageDecryptionFailed
  pure (deriveTransportKeys mixed₄.2 true)

end Kinet.Wireauth
