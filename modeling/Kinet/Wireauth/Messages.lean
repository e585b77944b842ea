import Mathlib.Data.Prod.Lex
import Mathlib.Order.Fin.Basic
import Kinet.Wireauth.Crypto

/-!
# Messages of the session protocol

The packed records that travel over the socket, and the timestamps inside of handshake
initiations.

Main results:

- `Tai64N.ofBytes_toBytes`: a timestamp is read back from its bytes.
-/

namespace Kinet.Wireauth

open Crypto ByteOrder

/-! ## Timestamps -/

/-- A point in time: seconds since an epoch and nanoseconds within the second. -/
structure Tai64N where
  seconds : Fin (2 ^ 64)
  nanoseconds : Fin 1000000000
deriving DecidableEq

namespace Tai64N

/-- Timestamps are compared by the seconds first. -/
instance : LinearOrder Tai64N :=
  LinearOrder.lift' (fun t : Tai64N => toLex (t.seconds, t.nanoseconds)) fun s t h => by
    have hpair := toLex.injective h
    cases s
    cases t
    simpa using hpair

def tai64UnixEpoch : Nat := 37 + 2 ^ 62

def ofSystemTime (nanos : Nat) : Tai64N where
  seconds := Fin.ofNat _ (nanos / 1000000000 + tai64UnixEpoch)
  nanoseconds := Fin.ofNat _ (nanos % 1000000000)

variable {C : Crypto}

def toBytes (t : Tai64N) : C.Array 12 :=
  ⟨C.octets (toBe 8 t.seconds.val ++ toBe 4 t.nanoseconds.val),
    by simp [Crypto.octets]⟩

/-- Timestamp of 12 bytes; the number of nanoseconds is the error if it is too large. -/
def ofBytes (b : C.Array 12) : Except Nat Tai64N :=
  let octets := b.toList.map C.toOctet
  let nanos := ofBe (octets.drop 8)
  if h : nanos < 1000000000 then
    .ok
      { seconds := Fin.ofNat _ (ofBe (octets.take 8))
        nanoseconds := ⟨nanos, h⟩ }
  else .error nanos

theorem ofBytes_toBytes (law : C.Lawful) (t : Tai64N) :
    ofBytes (t.toBytes : C.Array 12) = .ok t := by
  have hoctets : (t.toBytes : C.Array 12).toList.map C.toOctet =
      toBe 8 t.seconds.val ++ toBe 4 t.nanoseconds.val := by
    simp [toBytes, octets, Function.comp_def, law.toOctet_ofOctet]
  have hseconds : ofBe (toBe 8 t.seconds.val) = t.seconds.val :=
    ofBe_toBe (by have := t.seconds.isLt; omega)
  have hnanos : ofBe (toBe 4 t.nanoseconds.val) = t.nanoseconds.val :=
    ofBe_toBe (by have := t.nanoseconds.isLt; omega)
  have htake : (toBe 8 t.seconds.val ++ toBe 4 t.nanoseconds.val).take 8 =
      toBe 8 t.seconds.val := List.take_left' (by simp)
  have hdrop : (toBe 8 t.seconds.val ++ toBe 4 t.nanoseconds.val).drop 8 =
      toBe 4 t.nanoseconds.val := List.drop_left' (by simp)
  have hfin : Fin.ofNat (2 ^ 64) t.seconds.val = t.seconds :=
    Fin.ext (Nat.mod_eq_of_lt t.seconds.isLt)
  simp only [ofBytes, hoctets, htake, hdrop, hseconds, hnanos, t.nanoseconds.isLt, dite_true, hfin]

end Tai64N

/-! ## Handshake messages -/

variable (C : Crypto)

structure HandshakeInitiation where
  messageType : UInt8 := 1
  reserved : C.Array 3 := C.zeros 3
  senderIndex : UInt32 := 0
  ephemeralPublic : C.Array 33 := C.zeros 33
  encryptedStatic : C.Array 33 := C.zeros 33
  encryptedStaticTag : C.Array 16 := C.zeros 16
  encryptedTimestamp : C.Array 12 := C.zeros 12
  encryptedTimestampTag : C.Array 16 := C.zeros 16
  mac1 : C.MacTag := C.zeros 16
  mac2 : C.MacTag := C.zeros 16

structure HandshakeResponse where
  messageType : UInt8 := 2
  reserved : C.Array 3 := C.zeros 3
  senderIndex : UInt32 := 0
  receiverIndex : UInt32 := 0
  ephemeralPublic : C.Array 33 := C.zeros 33
  encryptedNothingTag : C.Array 16 := C.zeros 16
  mac1 : C.MacTag := C.zeros 16
  mac2 : C.MacTag := C.zeros 16

/-- Answer to a handshake message of a peer that has to prove its address. -/
structure CookieReply where
  messageType : UInt8 := 3
  reserved : C.Array 3 := C.zeros 3
  receiverIndex : UInt32 := 0
  nonce : C.CipherNonce := C.zeros 16
  encryptedCookie : C.Array 16 := C.zeros 16
  encryptedCookieTag : C.Array 16 := C.zeros 16

structure DataPacketHeader where
  messageType : UInt8 := 4
  reserved : C.Array 3 := C.zeros 3
  receiverIndex : UInt32 := 0
  nonce : UInt64 := 0
  tag : C.Array 16 := C.zeros 16

/-- A data packet; its text is decrypted in place. -/
structure DataPacket where
  header : DataPacketHeader C
  plaintext : List C.Byte

variable {C}

def DataPacket.text (packet : DataPacket C) : C.Array packet.plaintext.length :=
  ⟨packet.plaintext, rfl⟩

/-- A 32-bit integer in a packed record. -/
def u32Bytes (n : UInt32) : List C.Byte := C.octets (toLe 4 n.toNat)

/-- A 64-bit integer in a packed record. -/
def u64Bytes (n : UInt64) : List C.Byte := C.octets (toLe 8 n.toNat)

def HandshakeInitiation.asBytes (msg : HandshakeInitiation C) : List C.Byte :=
  C.ofOctet msg.messageType :: msg.reserved.toList ++ u32Bytes msg.senderIndex ++
    msg.ephemeralPublic.toList ++ msg.encryptedStatic.toList ++ msg.encryptedStaticTag.toList ++
    msg.encryptedTimestamp.toList ++ msg.encryptedTimestampTag.toList ++ msg.mac1.toList ++
    msg.mac2.toList

def HandshakeResponse.asBytes (msg : HandshakeResponse C) : List C.Byte :=
  C.ofOctet msg.messageType :: msg.reserved.toList ++ u32Bytes msg.senderIndex ++
    u32Bytes msg.receiverIndex ++ msg.ephemeralPublic.toList ++ msg.encryptedNothingTag.toList ++
    msg.mac1.toList ++ msg.mac2.toList

def CookieReply.asBytes (msg : CookieReply C) : List C.Byte :=
  C.ofOctet msg.messageType :: msg.reserved.toList ++ u32Bytes msg.receiverIndex ++
    msg.nonce.toList ++ msg.encryptedCookie.toList ++ msg.encryptedCookieTag.toList

def DataPacketHeader.asBytes (header : DataPacketHeader C) : List C.Byte :=
  C.ofOctet header.messageType :: header.reserved.toList ++ u32Bytes header.receiverIndex ++
    u64Bytes header.nonce ++ header.tag.toList

/-- Messages that end in two message authentication codes. -/
class MacMessage (C : outParam Crypto) (M : Type) where
  mac1 : M → C.MacTag
  mac2 : M → C.MacTag
  mac1Input : M → List C.Byte
  mac2Input : M → List C.Byte

def HandshakeInitiation.mac1Offset : Nat := 4 + 4 + 33 + 33 + 16 + 12 + 16

def HandshakeInitiation.mac2Offset : Nat := mac1Offset + 16

instance : MacMessage C (HandshakeInitiation C) where
  mac1 := HandshakeInitiation.mac1
  mac2 := HandshakeInitiation.mac2
  mac1Input msg := msg.asBytes.take HandshakeInitiation.mac1Offset
  mac2Input msg := msg.asBytes.take HandshakeInitiation.mac2Offset

def HandshakeResponse.mac1Offset : Nat := 4 + 4 + 4 + 33 + 16

def HandshakeResponse.mac2Offset : Nat := mac1Offset + 16

instance : MacMessage C (HandshakeResponse C) where
  mac1 := HandshakeResponse.mac1
  mac2 := HandshakeResponse.mac2
  mac1Input msg := msg.asBytes.take HandshakeResponse.mac1Offset
  mac2Input msg := msg.asBytes.take HandshakeResponse.mac2Offset

/-- Compare a message authentication code with the one that the data should have. -/
def verifyKeyedHash (key : C.HashOutput) (data : List C.Byte) (tag : C.MacTag) :
    Except (CryptoError C) Unit :=
  if macTag (keyedHash key [data]) = tag then .ok () else .error .macVerificationFailed

/-- Key of the first code of messages to the owner of `staticPublic`. -/
def mac1Key (staticPublic : C.PubKey) : C.HashOutput :=
  hash [C.labelMac1, (C.bytesCompressed staticPublic).toList]

/-- Key that protects cookies of the owner of `staticPublic`. -/
def cookieKey (staticPublic : C.PubKey) : C.HashOutput :=
  hash [C.labelCookie, (C.bytesCompressed staticPublic).toList]

variable {M : Type} [MacMessage C M]

def verifyMac1 (message : M) (staticPublic : C.PubKey) : Except (CryptoError C) Unit :=
  verifyKeyedHash (mac1Key staticPublic) (MacMessage.mac1Input message) (MacMessage.mac1 message)

def verifyMac2 (message : M) (staticPublic : C.PubKey) (cookie : C.Array 16) :
    Except (CryptoError C) Unit :=
  if MacMessage.mac2 message =
      macTag (keyedHash (cookieKey staticPublic) [MacMessage.mac2Input message, cookie.toList]) then
    .ok ()
  else .error .macVerificationFailed

end Kinet.Wireauth
