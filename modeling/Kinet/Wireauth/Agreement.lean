import Kinet.Foundation.Effect
import Kinet.Wireauth.Handshake

/-!
# Agreement of the handshake

The two parties compute the same transcript and chaining key, so an honest exchange ends
with the keys of one mirrored at the other.  Conversely, whatever second message an
initiator accepts, a run of the intended responder on the same first message and the same
pre-shared key makes its tag, and no other run does.

Main results:

- `acceptHandshakeInit_sendHandshakeInit`: the responder accepts a first message
  and recovers what is in it.
- `initTranscript_inj`: a transcript fixes the responder and the first message.
- `mixResponse_inj`: the key and the transcript of the second message fix their
  inputs.
- `handshake_agreement`: agreement in both directions.
-/

namespace Kinet.Wireauth

open Crypto List Effect

variable {C : Crypto}

/-! ## First message -/

/-- The fields of a first message that go into the transcript. -/
structure InitFields (C : Crypto) where
  ephemeralPublic : C.Array 33
  encryptedStatic : C.Array 33
  encryptedStaticTag : C.Array 16
  encryptedTimestamp : C.Array 12
  encryptedTimestampTag : C.Array 16

/-- Transcript part of a first message. -/
def HandshakeInitiation.fields (msg : HandshakeInitiation C) : InitFields C where
  ephemeralPublic := msg.ephemeralPublic
  encryptedStatic := msg.encryptedStatic
  encryptedStaticTag := msg.encryptedStaticTag
  encryptedTimestamp := msg.encryptedTimestamp
  encryptedTimestampTag := msg.encryptedTimestampTag

/-- Transcript after the ephemeral key. -/
def transcript₁ (responder : C.PubKey) (msg : InitFields C) : C.HashOutput :=
  hash [(initialHash responder).toList, msg.ephemeralPublic.toList]

/-- Transcript after the static key. -/
def transcript₂ (responder : C.PubKey) (msg : InitFields C) : C.HashOutput :=
  hash [(transcript₁ responder msg).toList, msg.encryptedStatic.toList,
    msg.encryptedStaticTag.toList]

def initTranscript (responder : C.PubKey) (msg : InitFields C) : C.HashOutput :=
  hash [(transcript₂ responder msg).toList, msg.encryptedTimestamp.toList,
    msg.encryptedTimestampTag.toList]

/-- Keys after the ephemeral key and its shared secret with the responder. -/
def initKeys (ephemeralPublic : C.Array 33) (es : C.SharedSecret) : C.HashOutput × C.HashOutput :=
  mixKey (mixKey initialChainingKey ephemeralPublic.toList).2 es.toList

lemma vector_append_inj {n m : Nat} {a a' : C.Array n} {b b' : C.Array m}
    (h : a.toList ++ b.toList = a'.toList ++ b'.toList) : a = a' ∧ b = b' := by
  obtain ⟨ha, hb⟩ := append_inj h (by simp)
  exact ⟨Vector.eq _ _ ha, Vector.eq _ _ hb⟩

section

variable (law : C.Lawful)

include law

lemma bytesCompressed_injective : Function.Injective C.bytesCompressed := by
  intro p q h
  have hp := law.fromSlice_bytesCompressed p
  rw [h, law.fromSlice_bytesCompressed q] at hp
  exact (Except.ok.inj hp).symm

lemma initialHash_inj {p q : C.PubKey} (h : initialHash p = initialHash q) : p = q := by
  obtain ⟨-, hkeys⟩ := law.hash_cons_inj h
  rw [flatten_singleton, flatten_singleton] at hkeys
  exact bytesCompressed_injective law (Vector.eq _ _ hkeys)

theorem initTranscript_inj {p q : C.PubKey} {msg msg' : InitFields C}
    (h : initTranscript p msg = initTranscript q msg') : p = q ∧ msg = msg' := by
  obtain ⟨h2, htimestamp⟩ := law.hash_cons_inj h
  obtain ⟨h1, hstatic⟩ := law.hash_cons_inj h2
  obtain ⟨h0, hephemeral⟩ := law.hash_cons_inj h1
  simp only [flatten_cons, flatten_nil, append_nil] at htimestamp hstatic hephemeral
  obtain ⟨hts, htsTag⟩ := vector_append_inj htimestamp
  obtain ⟨hst, hstTag⟩ := vector_append_inj hstatic
  refine ⟨initialHash_inj law h0, ?_⟩
  cases msg
  cases msg'
  simp only [InitFields.mk.injEq]
  exact ⟨Vector.eq _ _ hephemeral, hst, hstTag, hts, htsTag⟩

end

variable {responder : C.KeyPair} {timestamp : Tai64N}

/-- What the responder checks and computes. -/
lemma acceptHandshakeInit_eq_ok {msg : HandshakeInitiation C} {state : HandshakeState C} :
    acceptHandshakeInit responder msg = .ok (state, timestamp) ↔
      ∃ ephemeral, C.fromSlice msg.ephemeralPublic = .ok ephemeral ∧
      ∃ static, decryptInPlace
          (fieldKey (initKeys msg.ephemeralPublic (C.ecdh responder ephemeral)))
          (cipherNonce 0) msg.encryptedStatic msg.encryptedStaticTag
          (transcript₁ (C.pubkey responder) msg.fields).toList = .ok static ∧
      ∃ remoteStatic, C.fromSlice static = .ok remoteStatic ∧
      ∃ bytes, decryptInPlace
          (fieldKey (mixKey (initKeys msg.ephemeralPublic (C.ecdh responder ephemeral)).2
            (C.ecdh responder remoteStatic).toList))
          (cipherNonce 0) msg.encryptedTimestamp msg.encryptedTimestampTag
          (transcript₂ (C.pubkey responder) msg.fields).toList = .ok bytes ∧
      Tai64N.ofBytes bytes = .ok timestamp ∧
      state = { HandshakeState.default with
          chainingKey := (mixKey (initKeys msg.ephemeralPublic (C.ecdh responder ephemeral)).2
            (C.ecdh responder remoteStatic).toList).2
          hash := initTranscript (C.pubkey responder) msg.fields
          remoteEphemeral := some ephemeral
          remoteStatic := some remoteStatic
          receiverIndex := msg.senderIndex } := by
  simp only [acceptHandshakeInit, bind_eq_ok, mapError_eq_ok, pure, Except.pure,
    Except.ok.injEq, Prod.mk.injEq]
  constructor
  · rintro ⟨e, he, s, hs, r, hr, b, hb, t, ht, rfl, rfl⟩
    exact ⟨e, he, s, hs, r, hr, b, hb, ht, rfl⟩
  · rintro ⟨e, he, s, hs, r, hr, b, hb, ht, rfl⟩
    exact ⟨e, he, s, hs, r, hr, b, hb, timestamp, ht, rfl, rfl⟩

section

variable {ephemeral : C.KeyPair} {timestamp : Tai64N} {index : UInt32} {initiator : C.KeyPair}
  {responder : C.PubKey} {cookie : Option (C.Array 16)}
  {sent : HandshakeInitiation C × HandshakeState C}
  (hsent : sendHandshakeInit ephemeral timestamp index initiator responder cookie = sent)

include hsent

lemma sent_hash : sent.2.hash = initTranscript responder sent.1.fields := by
  subst hsent
  cases cookie <;> rfl

lemma sent_ephemeralPublic : sent.1.ephemeralPublic = C.bytesCompressed (C.pubkey ephemeral) := by
  subst hsent
  cases cookie <;> rfl

lemma sent_senderIndex : sent.1.senderIndex = index := by
  subst hsent
  cases cookie <;> rfl

end

/-- The responder's state after the message that `sendHandshakeInit` makes for it. -/
def agreedState (sent : HandshakeInitiation C × HandshakeState C)
    (ephemeral initiator : C.PubKey) : HandshakeState C :=
  { HandshakeState.default with
    chainingKey := sent.2.chainingKey
    hash := sent.2.hash
    remoteEphemeral := some ephemeral
    remoteStatic := some initiator
    receiverIndex := sent.1.senderIndex }

variable {ephemeral initiator : C.KeyPair}

theorem acceptHandshakeInit_sendHandshakeInit (law : C.Lawful) {index : UInt32}
    {cookie : Option (C.Array 16)} {sent : HandshakeInitiation C × HandshakeState C}
    (hsent : sendHandshakeInit ephemeral timestamp index initiator (C.pubkey responder) cookie =
      sent) :
    acceptHandshakeInit responder sent.1 =
      .ok (agreedState sent (C.pubkey ephemeral) (C.pubkey initiator), timestamp) := by
  rw [acceptHandshakeInit_eq_ok]
  have hes : C.ecdh responder (C.pubkey ephemeral) = C.ecdh ephemeral (C.pubkey responder) :=
    law.ecdh_comm _ _
  have hss : C.ecdh responder (C.pubkey initiator) = C.ecdh initiator (C.pubkey responder) :=
    law.ecdh_comm _ _
  refine ⟨C.pubkey ephemeral, ?_, C.bytesCompressed (C.pubkey initiator), ?_, C.pubkey initiator,
    law.fromSlice_bytesCompressed _, timestamp.toBytes, ?_, Tai64N.ofBytes_toBytes law timestamp, ?_⟩
  · rw [sent_ephemeralPublic hsent]
    exact law.fromSlice_bytesCompressed _
  · rw [law.decryptInPlace_eq_ok, hes, sent_ephemeralPublic hsent]
    subst hsent
    cases cookie <;> rfl
  · rw [law.decryptInPlace_eq_ok, hes, hss, sent_ephemeralPublic hsent]
    subst hsent
    cases cookie <;> rfl
  · rw [agreedState, sent_hash hsent, sent_ephemeralPublic hsent, hes, hss]
    subst hsent
    rfl

/-! ## Second message -/

/-- What the second message adds to the chaining key, and the key and the transcript of its
empty field. -/
structure ResponseKeys (C : Crypto) where
  chainingKey : C.HashOutput
  hash : C.HashOutput
  key : C.CipherKey

/-- Mix the second ephemeral key, its two shared secrets and the pre-shared key into the
chaining key and the transcript. -/
def mixResponse (chainingKey transcript : C.HashOutput) (ephemeralPublic : C.Array 33)
    (ee se : C.SharedSecret) (psk : C.Array 32) : ResponseKeys C :=
  let chainingKey₁ := (mixKey chainingKey ephemeralPublic.toList).2
  let chainingKey₂ := (mixKey chainingKey₁ ee.toList).2
  let chainingKey₃ := (mixKey chainingKey₂ se.toList).2
  let mixed := mixKey chainingKey₃ psk.toList
  let temp2 := keyedHash mixed.1 [mixed.2.toList, C.octets [2]]
  { chainingKey := mixed.2
    hash := hash [(hash [transcript.toList, ephemeralPublic.toList]).toList, temp2.toList]
    key := cipherKey (keyedHash mixed.1 [temp2.toList, C.octets [3]]) }

/-- The empty text. -/
def nothing : C.Array 0 := List.Vector.nil

lemma keyedHash_two_inj (law : C.Lawful) {k k' v v' : C.HashOutput} {b b' : List UInt8}
    (h : cipherKey (keyedHash k [v.toList, C.octets b]) =
      cipherKey (keyedHash k' [v'.toList, C.octets b'])) : k = k' ∧ v = v' := by
  obtain ⟨hk, hdata⟩ := law.blake3Keyed_inj h
  exact ⟨hk, Vector.eq _ _ (append_inj_left hdata (by simp))⟩

variable {ck : C.HashOutput} {ee se : C.SharedSecret} {psk : C.Array 32}

theorem mixResponse_inj (law : C.Lawful) {ck' t t' : C.HashOutput} {e e' : C.Array 33}
    {ee' se' : C.SharedSecret} {psk' : C.Array 32}
    (hkey : (mixResponse ck t e ee se psk).key = (mixResponse ck' t' e' ee' se' psk').key)
    (hhash : (mixResponse ck t e ee se psk).hash = (mixResponse ck' t' e' ee' se' psk').hash) :
    t = t' ∧ e = e' ∧ psk = psk' ∧ (mixResponse ck t e ee se psk).chainingKey =
        (mixResponse ck' t' e' ee' se' psk').chainingKey := by
  obtain ⟨htemp, -⟩ := keyedHash_two_inj law hkey
  obtain ⟨htranscript, -⟩ := law.hash_cons_inj hhash
  obtain ⟨ht, he⟩ := law.hash_cons_inj htranscript
  obtain ⟨-, hpsk⟩ := law.keyedHash_inj htemp
  rw [flatten_singleton, flatten_singleton] at he hpsk
  refine ⟨ht, Vector.eq _ _ he, Vector.eq _ _ hpsk, ?_⟩
  exact congrArg (fun temp => keyedHash temp [C.octets [1]]) htemp

lemma acceptHandshakeResponse_eq_ok (law : C.Lawful) {t : C.HashOutput}
    {msg : HandshakeResponse C} {keys : TransportKeys C} :
    acceptHandshakeResponse initiator ephemeral t ck msg psk = .ok keys ↔
      ∃ remote, C.fromSlice msg.ephemeralPublic = .ok remote ∧
        let mixed := mixResponse ck t msg.ephemeralPublic (C.ecdh ephemeral remote)
          (C.ecdh initiator remote) psk
        (encryptInPlace mixed.key (cipherNonce 0) nothing mixed.hash.toList).2 =
          msg.encryptedNothingTag ∧
        deriveTransportKeys mixed.chainingKey true = keys := by
  have hempty (c : C.Array 0) : c = nothing := Subsingleton.elim _ _
  simp only [acceptHandshakeResponse, bind_eq_ok, mapError_eq_ok, pure, Except.pure,
    Except.ok.injEq, law.decryptInPlace_eq_ok, Prod.ext_iff]
  constructor
  · rintro ⟨remote, hremote, text, ⟨-, htag⟩, hkeys⟩
    rw [hempty text] at htag
    exact ⟨remote, hremote, htag, hkeys⟩
  · rintro ⟨remote, hremote, htag, hkeys⟩
    exact ⟨remote, hremote, nothing, ⟨hempty _, htag⟩, hkeys⟩

lemma sendHandshakeResponse_eq_ok (ephemeral : C.KeyPair) (index : UInt32)
    (state : HandshakeState C) (psk : C.Array 32) (cookie : Option (C.Array 16))
    {remoteEphemeral remoteStatic : C.PubKey}
    (hephemeral : state.remoteEphemeral = some remoteEphemeral)
    (hstatic : state.remoteStatic = some remoteStatic) :
    let mixed := mixResponse state.chainingKey state.hash (C.bytesCompressed (C.pubkey ephemeral))
      (C.ecdh ephemeral remoteEphemeral) (C.ecdh ephemeral remoteStatic) psk
    ∃ response final, sendHandshakeResponse ephemeral index state psk cookie =
        .ok (response, deriveTransportKeys mixed.chainingKey false, final) ∧
      response.ephemeralPublic = C.bytesCompressed (C.pubkey ephemeral) ∧
      response.encryptedNothingTag =
        (encryptInPlace mixed.key (cipherNonce 0) nothing mixed.hash.toList).2 := by
  simp only [sendHandshakeResponse, hephemeral, hstatic, Checked.unwrap_some, Checked.ok_bind]
  cases cookie <;> exact ⟨_, _, rfl, rfl, rfl⟩

/-! ## Agreement -/

/-- A run of a responder: it accepted a first message and answered it. -/
structure ResponderRun (C : Crypto) where
  static : C.KeyPair
  init : HandshakeInitiation C
  state : HandshakeState C
  timestamp : Tai64N
  ephemeral : C.KeyPair
  index : UInt32
  psk : C.Array 32
  cookie : Option (C.Array 16)
  response : HandshakeResponse C
  keys : TransportKeys C
  final : HandshakeState C
  accept_eq : acceptHandshakeInit static init = .ok (state, timestamp)
  send_eq : sendHandshakeResponse ephemeral index state psk cookie = .ok (response, keys, final)

/-- The keys of the two ends of a session. -/
def Mirrored (initiatorKeys responderKeys : TransportKeys C) : Prop :=
  initiatorKeys.sendKey = responderKeys.recvKey ∧ initiatorKeys.recvKey = responderKeys.sendKey

lemma mirrored_deriveTransportKeys (chainingKey : C.HashOutput) :
    Mirrored (deriveTransportKeys chainingKey true) (deriveTransportKeys chainingKey false) :=
  ⟨rfl, rfl⟩

namespace ResponderRun

variable (run : ResponderRun C)

lemma exists_mixed : ∃ ee se,
    let mixed := mixResponse run.state.chainingKey
      (initTranscript (C.pubkey run.static) run.init.fields) run.response.ephemeralPublic ee se
      run.psk
    run.response.encryptedNothingTag =
        (encryptInPlace mixed.key (cipherNonce 0) nothing mixed.hash.toList).2 ∧
      run.keys = deriveTransportKeys mixed.chainingKey false := by
  obtain ⟨e, -, -, -, s, -, -, -, -, hstate⟩ := acceptHandshakeInit_eq_ok.mp run.accept_eq
  have hephemeral : run.state.remoteEphemeral = some e := by rw [hstate]
  have hstatic : run.state.remoteStatic = some s := by rw [hstate]
  have hhash : run.state.hash = initTranscript (C.pubkey run.static) run.init.fields := by
    rw [hstate]
  obtain ⟨response, final, hsend, hpublic, htag⟩ :=
    sendHandshakeResponse_eq_ok run.ephemeral run.index run.state run.psk run.cookie hephemeral
      hstatic
  rw [run.send_eq] at hsend
  simp only [Except.ok.injEq, Prod.mk.injEq] at hsend
  rw [← hhash, hsend.1, hpublic]
  exact ⟨_, _, htag, hsend.2.1⟩

/-- Two ends whose answer has the same key and transcript share the first message, the
pre-shared key and the session keys. -/
lemma agrees (law : C.Lawful) {responder : C.PubKey} {init : InitFields C}
    {ephemeralPublic : C.Array 33}
    (htag : let mixed := mixResponse ck (initTranscript responder init) ephemeralPublic ee se psk
      (encryptInPlace mixed.key (cipherNonce 0) nothing mixed.hash.toList).2 =
        run.response.encryptedNothingTag) :
    run.init.fields = init ∧ C.pubkey run.static = responder ∧ run.psk = psk ∧
      run.response.ephemeralPublic = ephemeralPublic ∧
      Mirrored (deriveTransportKeys
        (mixResponse ck (initTranscript responder init) ephemeralPublic ee se psk).chainingKey true)
        run.keys := by
  obtain ⟨ee', se', htag', hkeys⟩ := run.exists_mixed
  have hsealed := htag.trans htag'
  obtain ⟨hkey, -, -, hhash⟩ := law.aeadEncrypt_inj (Prod.ext (Subsingleton.elim _ _) hsealed)
  obtain ⟨htranscript, hpublic, hpsk, hchain⟩ :=
    mixResponse_inj law hkey (Vector.eq _ _ hhash)
  obtain ⟨hresponder, hinit⟩ := initTranscript_inj law htranscript
  refine ⟨hinit.symm, hresponder.symm, hpsk.symm, hpublic.symm, ?_⟩
  rw [hkeys, hchain]
  exact mirrored_deriveTransportKeys _

end ResponderRun

/-- Any answer of the responder to the message that was sent to it, seen with the shared
secrets of the initiator. -/
lemma sendHandshakeResponse_agreedState (law : C.Lawful)
    (sent : HandshakeInitiation C × HandshakeState C)
    (initiator initiatorEphemeral ephemeral : C.KeyPair) (index : UInt32) (psk : C.Array 32)
    (cookie : Option (C.Array 16)) :
    let mixed := mixResponse sent.2.chainingKey sent.2.hash
      (C.bytesCompressed (C.pubkey ephemeral)) (C.ecdh initiatorEphemeral (C.pubkey ephemeral))
      (C.ecdh initiator (C.pubkey ephemeral)) psk
    ∃ response final, sendHandshakeResponse ephemeral index
          (agreedState sent (C.pubkey initiatorEphemeral) (C.pubkey initiator)) psk cookie =
        .ok (response, deriveTransportKeys mixed.chainingKey false, final) ∧
      response.ephemeralPublic = C.bytesCompressed (C.pubkey ephemeral) ∧
      response.encryptedNothingTag =
        (encryptInPlace mixed.key (cipherNonce 0) nothing mixed.hash.toList).2 := by
  rw [law.ecdh_comm initiatorEphemeral, law.ecdh_comm initiator]
  exact sendHandshakeResponse_eq_ok ephemeral index _ psk cookie rfl rfl

/-- Let an initiator send a first message to a responder.  The responder accepts it and
recovers its static key, timestamp and index.  Every answer that it then makes is accepted
and leaves the two with mirrored keys.  Conversely, whenever the initiator accepts any
message at all, there is a run of that responder on that first message and the same
pre-shared key that makes the tag of the message and the initiator's keys, and every run of
any responder that makes this tag has this transcript, this pre-shared key, this responder's
static key and these keys. -/
theorem handshake_agreement {C : Crypto} (law : C.Lawful)
    (initiator responder initiatorEphemeral : C.KeyPair) (timestamp : Tai64N)
    (initiatorIndex : UInt32) (initiatorCookie : Option (C.Array 16)) (psk : C.Array 32) :
    let sent := sendHandshakeInit initiatorEphemeral timestamp initiatorIndex initiator
      (C.pubkey responder) initiatorCookie
    let accept := fun msg =>
      acceptHandshakeResponse initiator initiatorEphemeral sent.2.hash sent.2.chainingKey msg psk
    (∃ state, acceptHandshakeInit responder sent.1 = .ok (state, timestamp) ∧
      state.remoteStatic = some (C.pubkey initiator) ∧ state.receiverIndex = initiatorIndex ∧
      ∀ (ephemeral : C.KeyPair) (index : UInt32) (cookie : Option (C.Array 16)),
        ∃ response keys final,
          sendHandshakeResponse ephemeral index state psk cookie = .ok (response, keys, final) ∧
          ∃ initiatorKeys, accept response = .ok initiatorKeys ∧ Mirrored initiatorKeys keys) ∧
    ∀ msg initiatorKeys, accept msg = .ok initiatorKeys →
      (∃ run : ResponderRun C, run.static = responder ∧ run.init = sent.1 ∧ run.psk = psk ∧
        run.response.ephemeralPublic = msg.ephemeralPublic ∧
        run.response.encryptedNothingTag = msg.encryptedNothingTag ∧
        Mirrored initiatorKeys run.keys) ∧
      ∀ run : ResponderRun C, run.response.encryptedNothingTag = msg.encryptedNothingTag →
        run.init.fields = sent.1.fields ∧ C.pubkey run.static = C.pubkey responder ∧
          run.psk = psk ∧ run.response.ephemeralPublic = msg.ephemeralPublic ∧
          Mirrored initiatorKeys run.keys := by
  intro sent accept
  have hsent : sendHandshakeInit initiatorEphemeral timestamp initiatorIndex initiator
      (C.pubkey responder) initiatorCookie = sent := rfl
  have haccept := acceptHandshakeInit_sendHandshakeInit law hsent
  have hhash := sent_hash hsent
  constructor
  · refine ⟨_, haccept, rfl, sent_senderIndex hsent, fun ephemeral index cookie => ?_⟩
    obtain ⟨response, final, hsend, hpublic, htag⟩ := sendHandshakeResponse_agreedState law sent
      initiator initiatorEphemeral ephemeral index psk cookie
    have hremote : C.fromSlice response.ephemeralPublic = .ok (C.pubkey ephemeral) := by
      rw [hpublic]
      exact law.fromSlice_bytesCompressed _
    refine ⟨response, _, final, hsend, _, (acceptHandshakeResponse_eq_ok law).mpr
      ⟨C.pubkey ephemeral, hremote, ?_, rfl⟩, ?_⟩
    · rw [htag, hpublic]
    · rw [hpublic]
      exact mirrored_deriveTransportKeys _
  · intro msg initiatorKeys hmsg
    obtain ⟨remote, hremote, htag, rfl⟩ := (acceptHandshakeResponse_eq_ok law).mp hmsg
    constructor
    · obtain ⟨ephemeral, rfl⟩ := law.exists_keyPair remote
      have hpublic := law.bytesCompressed_of_fromSlice hremote
      obtain ⟨response, final, hsend, hresponse, hresponseTag⟩ :=
        sendHandshakeResponse_agreedState law sent initiator initiatorEphemeral ephemeral 0 psk none
      rw [← hpublic] at htag ⊢
      exact ⟨⟨responder, sent.1, _, timestamp, ephemeral, 0, psk, none, response, _, final, haccept,
        hsend⟩, rfl, rfl, rfl, hresponse, hresponseTag.trans htag, mirrored_deriveTransportKeys _⟩
    · intro run hrun
      rw [hhash] at htag ⊢
      exact run.agrees law (htag.trans hrun.symm)

/-- The first message of an exchange between the free keys 1 and 2. -/
def symbolicInit (timestamp : Tai64N) : HandshakeInitiation symbolic × HandshakeState symbolic :=
  sendHandshakeInit (3 : Nat) timestamp 7 (1 : Nat) (2 : Nat) none

/-- The exchange leaves both sides with mirrored keys, and the initiator's keys are those of a
run of key 2 on this message. -/
theorem handshake_agreement_symbolic : ∃ state response keys final initiatorKeys,
    acceptHandshakeInit (C := symbolic) (2 : Nat) (symbolicInit ⟨5, 6⟩).1 = .ok (state, ⟨5, 6⟩) ∧
      state.remoteStatic = some (1 : Nat) ∧ state.receiverIndex = 7 ∧
      sendHandshakeResponse (4 : Nat) 8 state (symbolic.zeros 32) none =
        .ok (response, keys, final) ∧
      acceptHandshakeResponse (1 : Nat) (3 : Nat) (symbolicInit ⟨5, 6⟩).2.hash
        (symbolicInit ⟨5, 6⟩).2.chainingKey response (symbolic.zeros 32) = .ok initiatorKeys ∧
      Mirrored initiatorKeys keys ∧
      ∃ run : ResponderRun symbolic, run.static = (2 : Nat) ∧ run.init = (symbolicInit ⟨5, 6⟩).1 ∧
        Mirrored initiatorKeys run.keys := by
  obtain ⟨⟨state, haccept, hstatic, hindex, hanswers⟩, hconverse⟩ :=
    handshake_agreement symbolic_lawful (1 : Nat) (2 : Nat) (3 : Nat) ⟨5, 6⟩ 7 none
      (symbolic.zeros 32)
  obtain ⟨response, keys, final, hsend, initiatorKeys, hresponse, hmirrored⟩ :=
    hanswers (4 : Nat) 8 none
  obtain ⟨⟨run, hrun, hinit, -, -, -, hkeys⟩, -⟩ := hconverse response initiatorKeys hresponse
  exact ⟨state, response, keys, final, initiatorKeys, haccept, hstatic, hindex, hsend, hresponse,
    hmirrored, run, hrun, hinit, hkeys⟩

end Kinet.Wireauth
