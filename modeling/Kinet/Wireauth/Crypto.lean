import Mathlib.Data.Vector.Basic
import Kinet.Foundation.ByteOrder

/-!
# Cryptographic primitives of the session protocol

Handshakes mix BLAKE3 hashes, secp256k1 key agreement and AEGIS-128L encryption.
`Crypto` keeps the three abstract, and the letters of byte strings as well: no hash into 32
octets is free of collisions, a hash into 32 letters of an infinite alphabet can be.
`Crypto.Lawful` collects the assumptions, and `symbolic` is an instance of them.

Main results:

- `Crypto.Lawful.decryptInPlace_eq_ok`: decryption inverts encryption and
  accepts nothing else.
- `symbolic_lawful`: the assumptions are satisfiable.
-/

namespace Kinet.Wireauth

/-- The primitives. -/
structure Crypto where
  /-- letters of byte strings -/
  Byte : Type
  KeyPair : Type
  PubKey : Type
  /-- why a byte string is not a public key -/
  KeyError : Type
  /-- states of the random number generator -/
  Rng : Type
  [decidableEqByte : DecidableEq Byte]
  [linearOrderPubKey : LinearOrder PubKey]
  ofOctet : UInt8 → Byte
  toOctet : Byte → UInt8
  nextU64 : Rng → UInt64 × Rng
  fillBytes : (n : Nat) → Rng → List.Vector Byte n × Rng
  /-- draw a key pair -/
  generate : Rng → KeyPair × Rng
  pubkey : KeyPair → PubKey
  bytesCompressed : PubKey → List.Vector Byte 33
  fromSlice : List.Vector Byte 33 → Except KeyError PubKey
  /-- shared secret of a key pair and a public key -/
  ecdh : KeyPair → PubKey → List.Vector Byte 32
  /-- `blake3::hash` -/
  blake3 : List Byte → List.Vector Byte 32
  /-- `blake3::keyed_hash` -/
  blake3Keyed : List.Vector Byte 32 → List Byte → List.Vector Byte 32
  /-- ciphertext and tag for a key, a nonce, a plaintext and associated data -/
  aeadEncrypt : {n : Nat} → List.Vector Byte 16 → List.Vector Byte 16 → List.Vector Byte n →
    List Byte → List.Vector Byte n × List.Vector Byte 16
  /-- plaintext for a key, a nonce, a ciphertext, a tag and associated data -/
  aeadDecrypt : {n : Nat} → List.Vector Byte 16 → List.Vector Byte 16 → List.Vector Byte n →
    List.Vector Byte 16 → List Byte → Option (List.Vector Byte n)

attribute [instance] Crypto.decidableEqByte Crypto.linearOrderPubKey

inductive CryptoError (C : Crypto) where
  | macVerificationFailed
  | invalidKey (error : C.KeyError)

namespace Crypto

variable (C : Crypto)

/-- A byte string of fixed length. -/
abbrev Array (n : Nat) := List.Vector C.Byte n

abbrev HashOutput := C.Array 32

abbrev CipherKey := C.Array 16

abbrev CipherNonce := C.Array 16

abbrev MacTag := C.Array 16

abbrev SharedSecret := C.Array 32

def octets (bs : List UInt8) : List C.Byte := bs.map C.ofOctet

def ascii (text : List Char) : List C.Byte := C.octets (text.map fun c => UInt8.ofNat c.toNat)

def zeros (n : Nat) : C.Array n := List.Vector.replicate n (C.ofOctet 0)

/-- `CONSTRUCTION`: `Noise_IKpsk2_secp256k1_AEGIS128L_BLAKE3`. -/
def construction : List C.Byte :=
  C.ascii ['N', 'o', 'i', 's', 'e', '_', 'I', 'K', 'p', 's', 'k', '2', '_', 's', 'e', 'c', 'p',
    '2', '5', '6', 'k', '1', '_', 'A', 'E', 'G', 'I', 'S', '1', '2', '8', 'L', '_', 'B', 'L',
    'A', 'K', 'E', '3']

/-- `IDENTIFIER`: `authenticated udp v1 -- kinet`. -/
def identifier : List C.Byte :=
  C.ascii ['a', 'u', 't', 'h', 'e', 'n', 't', 'i', 'c', 'a', 't', 'e', 'd', ' ', 'u', 'd', 'p',
    ' ', 'v', '1', ' ', '-', '-', ' ', 'k', 'i', 'n', 'e', 't']

/-- `LABEL_MAC1`: `mac1----`. -/
def labelMac1 : List C.Byte := C.ascii ['m', 'a', 'c', '1', '-', '-', '-', '-']

/-- `LABEL_COOKIE`: `cookie--`. -/
def labelCookie : List C.Byte := C.ascii ['c', 'o', 'o', 'k', 'i', 'e', '-', '-']

variable {C}

def hash (data : List (List C.Byte)) : C.HashOutput := C.blake3 data.flatten

def keyedHash (key : C.HashOutput) (data : List (List C.Byte)) : C.HashOutput :=
  C.blake3Keyed key data.flatten

def cipherKey (h : C.HashOutput) : C.CipherKey := ⟨h.toList.take 16, by simp⟩

/-- First 16 bytes of a hash, as a message authentication code. -/
def macTag (h : C.HashOutput) : C.MacTag := ⟨h.toList.take 16, by simp⟩

def cipherNonce (value : UInt64) : C.CipherNonce :=
  ⟨C.octets (ByteOrder.toLe 8 value.toNat) ++ (C.zeros 8).toList, by simp [octets]⟩

variable {n : Nat} (key : C.CipherKey) (nonce : C.CipherNonce) (data : C.Array n)

def encryptInPlace (ad : List C.Byte) : C.Array n × C.MacTag :=
  C.aeadEncrypt key nonce data ad

/-- Plaintext of a ciphertext whose tag is right. -/
def decryptInPlace (tag : C.MacTag) (ad : List C.Byte) : Except (CryptoError C) (C.Array n) :=
  match C.aeadDecrypt key nonce data tag ad with
  | some plaintext => .ok plaintext
  | none => .error .macVerificationFailed

/-- Assumptions about the primitives: decryption is the exact inverse of encryption and
succeeds for nothing else, key agreement is symmetric, hashes have no collisions (cut to
the 16 bytes of a cipher key too), and public keys are the points of a cyclic group with
one encoding each. -/
structure Lawful (C : Crypto) : Prop where
  toOctet_ofOctet : ∀ b, C.toOctet (C.ofOctet b) = b
  fromSlice_bytesCompressed : ∀ p, C.fromSlice (C.bytesCompressed p) = .ok p
  bytesCompressed_of_fromSlice : ∀ {b p}, C.fromSlice b = .ok p → C.bytesCompressed p = b
  exists_keyPair : ∀ p, ∃ k, C.pubkey k = p
  ecdh_comm : ∀ a b, C.ecdh a (C.pubkey b) = C.ecdh b (C.pubkey a)
  aeadDecrypt_eq_some : ∀ {n : Nat} {key nonce : List.Vector C.Byte 16}
    {c p : List.Vector C.Byte n} {tag : List.Vector C.Byte 16} {ad : List C.Byte},
    C.aeadDecrypt key nonce c tag ad = some p ↔ C.aeadEncrypt key nonce p ad = (c, tag)
  aeadEncrypt_inj : ∀ {n : Nat} {key nonce key' nonce' : List.Vector C.Byte 16}
    {p p' : List.Vector C.Byte n} {ad ad' : List C.Byte},
    C.aeadEncrypt key nonce p ad = C.aeadEncrypt key' nonce' p' ad' →
      key = key' ∧ nonce = nonce' ∧ p = p' ∧ ad = ad'
  blake3_inj : ∀ {d d'}, C.blake3 d = C.blake3 d' → d = d'
  blake3Keyed_inj : ∀ {k k' : C.HashOutput} {d d' : List C.Byte},
    cipherKey (C.blake3Keyed k d) = cipherKey (C.blake3Keyed k' d') → k = k' ∧ d = d'

namespace Lawful

variable (law : C.Lawful)

include law

theorem decryptInPlace_eq_ok {key : C.CipherKey} {nonce : C.CipherNonce}
    {data plaintext : C.Array n} {tag : C.MacTag} {ad : List C.Byte} :
    decryptInPlace key nonce data tag ad = .ok plaintext ↔
      encryptInPlace key nonce plaintext ad = (data, tag) := by
  rw [encryptInPlace, ← law.aeadDecrypt_eq_some, decryptInPlace]
  cases C.aeadDecrypt key nonce data tag ad <;> simp

variable {data data' : List (List C.Byte)}

/-- Equal hashes of two parts whose first parts are hashes have equal parts. -/
lemma hash_cons_inj {h h' : C.HashOutput}
    (heq : hash (h.toList :: data) = hash (h'.toList :: data')) :
    h = h' ∧ data.flatten = data'.flatten := by
  have hflat := law.blake3_inj heq
  obtain ⟨hhead, htail⟩ := List.append_inj hflat (by simp)
  exact ⟨List.Vector.eq _ _ hhead, htail⟩

lemma keyedHash_inj {k k' : C.HashOutput}
    (heq : keyedHash k data = keyedHash k' data') : k = k' ∧ data.flatten = data'.flatten :=
  law.blake3Keyed_inj (congrArg cipherKey heq)

end Lawful

end Crypto

/-! ## Free primitives -/

/-- Letters that remember how they were made. -/
inductive Sym where
  | octet (b : UInt8)
  | key (n : Nat)
  | pair (a b : Sym)
deriving DecidableEq

namespace Sym

/-- A byte string as one letter. -/
def word : List Sym → Sym
  | [] => octet 0
  | a :: w => pair a (word w)

lemma word_injective : Function.Injective word := by
  intro v w h
  induction v generalizing w with
  | nil =>
    cases w with
    | nil => rfl
    | cons b w => cases h
  | cons a v ih =>
    cases w with
    | nil => cases h
    | cons b w =>
      rw [word, word, pair.injEq] at h
      rw [h.1, ih h.2]

/-- The array of `n + 1` letters that starts with `a`. -/
def pad (n : Nat) (a : Sym) : List.Vector Sym (n + 1) := a ::ᵥ List.Vector.replicate n (octet 0)

lemma pad_injective (n : Nat) : Function.Injective (pad n) := fun a b h => by
  simpa [pad] using congrArg List.Vector.head h

lemma head?_take_pad (n m : Nat) (a : Sym) : ((pad n a).toList.take (m + 1)).head? = some a := by
  simp [pad]

def toOctet : Sym → UInt8
  | octet b => b
  | _ => 0

/-- A public key as a byte string. -/
def compress (p : Nat) : List.Vector Sym 33 := pad 32 (key p)

/-- The public key that a byte string encodes. -/
def decompress (b : List.Vector Sym 33) : Except Unit Nat :=
  match b.head with
  | key p => if b = compress p then .ok p else .error ()
  | _ => .error ()

lemma decompress_compress (p : Nat) : decompress (compress p) = .ok p := by
  simp [decompress, compress, pad]

lemma compress_of_decompress {b : List.Vector Sym 33} {p : Nat} (h : decompress b = .ok p) :
    compress p = b := by
  unfold decompress at h
  split at h
  · split at h
    · next hb =>
      cases h
      exact hb.symm
    · cases h
  · cases h

def shared (a p : Nat) : List.Vector Sym 32 := pad 31 (pair (key (min a p)) (key (max a p)))

lemma shared_comm (a p : Nat) : shared a p = shared p a := by
  rw [shared, shared, min_comm, max_comm]

/-- A hash is its input. -/
def digest (d : List Sym) : List.Vector Sym 32 := pad 31 (word d)

/-- A keyed hash is its key and its input. -/
def digestKeyed (k : List.Vector Sym 32) (d : List Sym) : List.Vector Sym 32 :=
  pad 31 (pair (word k.toList) (word d))

lemma digestKeyed_inj {k k' : List.Vector Sym 32} {d d' : List Sym}
    (h : (digestKeyed k d).toList.take 16 = (digestKeyed k' d').toList.take 16) :
    k = k' ∧ d = d' := by
  have hhead := congrArg List.head? h
  rw [digestKeyed, digestKeyed, head?_take_pad, head?_take_pad, Option.some.injEq,
    pair.injEq] at hhead
  exact ⟨List.Vector.eq _ _ (word_injective hhead.1), word_injective hhead.2⟩

variable {n : Nat}

/-- A tag is all that went into it. -/
def tagOf (key nonce : List.Vector Sym 16) (p : List.Vector Sym n) (ad : List Sym) :
    List.Vector Sym 16 :=
  pad 15 (pair (pair (word key.toList) (word nonce.toList)) (pair (word p.toList) (word ad)))

variable {key nonce : List.Vector Sym 16} {p : List.Vector Sym n}

lemma tagOf_inj {key' nonce' : List.Vector Sym 16} {p' : List.Vector Sym n}
    {ad ad' : List Sym} (h : tagOf key nonce p ad = tagOf key' nonce' p' ad') :
    key = key' ∧ nonce = nonce' ∧ p = p' ∧ ad = ad' := by
  have htag := pad_injective 15 h
  simp only [pair.injEq, word_injective.eq_iff] at htag
  obtain ⟨⟨hkey, hnonce⟩, hp, had⟩ := htag
  exact ⟨List.Vector.eq _ _ hkey, List.Vector.eq _ _ hnonce, List.Vector.eq _ _ hp, had⟩

/-- Accept a text with its own tag. -/
def openTag (key nonce : List.Vector Sym 16) (c : List.Vector Sym n) (tag : List.Vector Sym 16)
    (ad : List Sym) : Option (List.Vector Sym n) :=
  if tag = tagOf key nonce c ad then some c else none

lemma openTag_eq_some {c : List.Vector Sym n} {tag : List.Vector Sym 16} {ad : List Sym} :
    openTag key nonce c tag ad = some p ↔ (p, tagOf key nonce p ad) = (c, tag) := by
  rw [openTag, Option.ite_none_right_eq_some, Prod.mk.injEq, Option.some.injEq]
  constructor
  · rintro ⟨rfl, rfl⟩
    exact ⟨rfl, rfl⟩
  · rintro ⟨rfl, rfl⟩
    exact ⟨rfl, rfl⟩

end Sym

/-- Primitives over free letters. -/
def symbolic : Crypto where
  Byte := Sym
  KeyPair := Nat
  PubKey := Nat
  KeyError := Unit
  Rng := Nat
  ofOctet := Sym.octet
  toOctet := Sym.toOctet
  nextU64 rng := (UInt64.ofNat rng, rng + 1)
  fillBytes n rng := (List.Vector.replicate n (Sym.key rng), rng + 1)
  generate rng := (rng, rng + 1)
  pubkey k := k
  bytesCompressed := Sym.compress
  fromSlice := Sym.decompress
  ecdh := Sym.shared
  blake3 := Sym.digest
  blake3Keyed := Sym.digestKeyed
  aeadEncrypt key nonce p ad := (p, Sym.tagOf key nonce p ad)
  aeadDecrypt := Sym.openTag

theorem symbolic_lawful : symbolic.Lawful where
  toOctet_ofOctet _ := rfl
  fromSlice_bytesCompressed := Sym.decompress_compress
  bytesCompressed_of_fromSlice := Sym.compress_of_decompress
  exists_keyPair p := ⟨p, rfl⟩
  ecdh_comm := Sym.shared_comm
  aeadDecrypt_eq_some := Sym.openTag_eq_some
  aeadEncrypt_inj h := Sym.tagOf_inj (congrArg Prod.snd h)
  blake3_inj h := Sym.word_injective (Sym.pad_injective 31 h)
  blake3Keyed_inj h := Sym.digestKeyed_inj (congrArg List.Vector.toList h)

end Kinet.Wireauth
