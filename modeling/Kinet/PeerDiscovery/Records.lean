import Kinet.Foundation.Checked
import Kinet.Foundation.Rlp

/-!
# Name records in configuration files

A record is signed as encoded; a configuration keeps some of its fields, from which the record
is built again and its signature checked.

Main results:

- `record_survives`: exactly what `newWithPorts` builds comes back from both configurations.
- `record_with_capability_is_lost`: a record with a capability does not.
-/

namespace Kinet.PeerDiscovery.Records

open Rlp Checked

abbrev NonZeroU16 := {port : BitVec 16 // port ≠ 0}

inductive PortTag where
  | tcp | udp | authenticatedUdp | directUdp | encryptedTcp

def PortTag.code : PortTag → BitVec 8
  | .tcp => 0
  | .udp => 1
  | .authenticatedUdp => 2
  | .directUdp => 3
  | .encryptedTcp => 4

/-- Unknown tags are allowed. -/
structure Port where
  tag : BitVec 8
  port : NonZeroU16
deriving DecidableEq

def Port.new (tag : PortTag) (port : NonZeroU16) : Port := ⟨tag.code, port⟩

instance : RlpEncodable Port where
  encode p := encodeList [item p.tag, item p.port.val]

instance : RlpDecodable Port where
  decode := decodePayload do
    let tag ← decode
    let port ← (decode : Decoder (BitVec 16))
    if h : port ≠ 0 then pure ⟨tag, port, h⟩ else throw (.custom "invalid port")

/-- Read ports to the end, at most so many. -/
def decodePorts : Nat → Bytes → Except Rlp.Error (List Port)
  | _, [] => .ok []
  | 0, bs => do
    let _ ← (decode : Decoder Port) bs
    throw (.custom "too many ports")
  | room + 1, bs => do
    let (port, bs) ← (decode : Decoder Port) bs
    return port :: (← decodePorts room bs)

structure NameRecord where
  ip : FixedBytes 4
  ports : List Port
  capabilities : BitVec 64
  seq : BitVec 64
deriving DecidableEq

namespace NameRecord

def portByTag (r : NameRecord) (tag : PortTag) : Option NonZeroU16 :=
  (r.ports.find? fun p => p.tag = tag.code).map Port.port

def validate (r : NameRecord) : Except Rlp.Error Unit :=
  if ¬ (r.ports.map Port.tag).Nodup then .error (.custom "duplicate port tag")
  else if (r.portByTag .tcp).isNone then .error (.custom "Missing TCP port")
  else if (r.portByTag .authenticatedUdp).isNone then
    .error (.custom "Missing Authenticated UDP port")
  else .ok ()

def newWithPorts (ip : FixedBytes 4) (tcpPort : NonZeroU16) (udpPort : Option NonZeroU16)
    (authenticatedUdpPort : NonZeroU16) (directUdpPort encryptedTcpPort : Option NonZeroU16)
    (seq : BitVec 64) : NameRecord where
  ip := ip
  ports := [.new .tcp tcpPort] ++ udpPort.toList.map (.new .udp) ++
    [.new .authenticatedUdp authenticatedUdpPort] ++ directUdpPort.toList.map (.new .directUdp) ++
    encryptedTcpPort.toList.map (.new .encryptedTcp)
  capabilities := 0
  seq := seq

instance : RlpEncodable NameRecord where
  encode r := encodeList [item r.ip, let ports := r.ports.map item
    ⟨listLength ports, encodeList ports⟩, item r.capabilities, item r.seq]

instance : RlpDecodable NameRecord where
  decode := do
    let r ← decodePayload do
      let ip ← (fun bs => (decode bs).mapError fun _ => .custom "Invalid IPv4 address")
      let ports ← decodePorts 8 (← Header.decodeBytes true)
      pure ⟨ip, ports, ← decode, ← decode⟩
    r.validate
    pure r

end NameRecord

structure Signing where
  PubKey : Type
  Signature : Type
  verify : Signature → Bytes → PubKey → Bool

variable {S : Signing}

structure KinetNameRecord (S : Signing) where
  nameRecord : NameRecord
  signature : S.Signature

structure PeerEntry (S : Signing) where
  pubkey : S.PubKey
  ip : FixedBytes 4
  tcpPort : NonZeroU16
  udpPort : Option NonZeroU16
  signature : S.Signature
  recordSeqNum : BitVec 64
  authPort : NonZeroU16
  directUdpPort : Option NonZeroU16
  encryptedTcpPort : Option NonZeroU16

/-- A peer of the bootstrap configuration; its host may also be a domain. -/
structure NodeBootstrapPeerConfig (S : Signing) where
  address : FixedBytes 4 ⊕ String
  tcpPort : Option NonZeroU16
  udpPort : Option NonZeroU16
  recordSeqNum : BitVec 64
  secp256k1Pubkey : S.PubKey
  nameRecordSig : S.Signature
  authPort : NonZeroU16
  directUdpPort : Option NonZeroU16
  encryptedTcpPort : Option NonZeroU16

inductive PeerConfigConversionError where
  | invalidSignature
  | invalidAddress (domain : String) (tcpPort : NonZeroU16)

namespace KinetNameRecord

def toPeerEntry (r : KinetNameRecord S) (pubkey : S.PubKey) : Checked (PeerEntry S) := do
  let tcpPort ← unwrap (r.nameRecord.portByTag .tcp)
  let authPort ← unwrap (r.nameRecord.portByTag .authenticatedUdp)
  pure ⟨pubkey, r.nameRecord.ip, tcpPort, r.nameRecord.portByTag .udp, r.signature, r.nameRecord.seq,
    authPort, r.nameRecord.portByTag .directUdp, r.nameRecord.portByTag .encryptedTcp⟩

def toConfig (r : KinetNameRecord S) (pubkey : S.PubKey) : Checked (NodeBootstrapPeerConfig S) := do
  let p ← r.toPeerEntry pubkey
  pure ⟨.inl p.ip, some p.tcpPort, p.udpPort, p.recordSeqNum, p.pubkey, p.signature, p.authPort,
    p.directUdpPort, p.encryptedTcpPort⟩

def ofPeerEntry (p : PeerEntry S) : Option (KinetNameRecord S) :=
  let nameRecord := NameRecord.newWithPorts p.ip p.tcpPort p.udpPort p.authPort p.directUdpPort
    p.encryptedTcpPort p.recordSeqNum
  if S.verify p.signature (encode nameRecord) p.pubkey then some ⟨nameRecord, p.signature⟩ else none

def ofConfig (c : NodeBootstrapPeerConfig S) :
    Checked (Except PeerConfigConversionError (KinetNameRecord S)) := do
  let tcpPort ← unwrap c.tcpPort
  match c.address with
  | .inr domain => pure (.error (.invalidAddress domain tcpPort))
  | .inl ip =>
    let nameRecord := NameRecord.newWithPorts ip tcpPort c.udpPort c.authPort c.directUdpPort
      c.encryptedTcpPort c.recordSeqNum
    if S.verify c.nameRecordSig (encode nameRecord) c.secp256k1Pubkey then
      pure (.ok ⟨nameRecord, c.nameRecordSig⟩)
    else pure (.error .invalidSignature)

end KinetNameRecord

open KinetNameRecord

/-- The record has no capabilities, and its ports are those with known tags, in the order of
`newWithPorts`. -/
def NameRecord.Built (r : NameRecord) : Prop :=
  ∃ ip tcp udp auth direct encrypted seq,
    r = .newWithPorts ip tcp udp auth direct encrypted seq

variable {r : KinetNameRecord S} {k : S.PubKey}

lemma ofPeerEntry_built {peer : PeerEntry S} (h : ofPeerEntry peer = some r) :
    r.nameRecord.Built := by
  unfold ofPeerEntry at h
  dsimp only at h
  split at h
  · cases h
    exact ⟨_, _, _, _, _, _, _, rfl⟩
  · cases h

lemma ofConfig_built {config : NodeBootstrapPeerConfig S}
    (h : ofConfig config = .ok (.ok r)) : r.nameRecord.Built := by
  obtain ⟨_, -, h⟩ := bind_eq_ok.mp h
  split at h
  · cases h
  · dsimp only at h
    split at h
    · cases h
      exact ⟨_, _, _, _, _, _, _, rfl⟩
    · cases h

/-- A record with a valid signature is the same after it was stored, in either form, exactly
if it is one that is built from its ports. -/
theorem record_survives (r : KinetNameRecord S) (k : S.PubKey)
    (hvalid : S.verify r.signature (encode r.nameRecord) k = true) :
    ((∃ peer, r.toPeerEntry k = .ok peer ∧ ofPeerEntry peer = some r) ↔ r.nameRecord.Built) ∧
      ((∃ config, r.toConfig k = .ok config ∧ ofConfig config = .ok (.ok r)) ↔
        r.nameRecord.Built) := by
  refine ⟨⟨fun ⟨_, _, h⟩ => ofPeerEntry_built h, ?_⟩, fun ⟨_, _, h⟩ => ofConfig_built h, ?_⟩
  all_goals
    rintro ⟨ip, tcp, udp, auth, direct, encrypted, seq, hbuilt⟩
    have hpeer : r.toPeerEntry k =
        .ok ⟨k, ip, tcp, udp, r.signature, seq, auth, direct, encrypted⟩ := by
      rw [toPeerEntry, hbuilt]
      cases udp <;> cases direct <;> cases encrypted <;> rfl
    rw [hbuilt] at hvalid
    have hr : (⟨.newWithPorts ip tcp udp auth direct encrypted seq, r.signature⟩ :
        KinetNameRecord S) = r := by rw [← hbuilt]
  · exact ⟨_, hpeer, by simp [ofPeerEntry, hvalid, hr]⟩
  · refine ⟨_, by rw [toConfig, hpeer, ok_bind]; rfl, ?_⟩
    simp [ofConfig, hvalid, hr, pure, Except.pure]

def ideal : Signing := ⟨Nat, Nat × Bytes, fun sig bytes key => sig = (key, bytes)⟩

lemma samplePort_ne_zero : (7 : BitVec 16) ≠ 0 := by decide

def sampleRecord (capabilities : BitVec 64) : NameRecord :=
  { NameRecord.newWithPorts ⟨#[9, 9, 9, 9], rfl⟩ ⟨7, samplePort_ne_zero⟩ none
      ⟨7, samplePort_ne_zero⟩ none none 3 with capabilities }

def signed (nameRecord : NameRecord) : KinetNameRecord ideal :=
  ⟨nameRecord, (5, encode nameRecord)⟩

theorem record_survives_sample :
    (∃ peer, (signed (sampleRecord 0)).toPeerEntry (5 : Nat) = .ok peer ∧
      ofPeerEntry peer = some (signed (sampleRecord 0))) ∧
    ∃ config, (signed (sampleRecord 0)).toConfig (5 : Nat) = .ok config ∧
      ofConfig config = .ok (.ok (signed (sampleRecord 0))) :=
  have hlaw := record_survives (signed (sampleRecord 0)) (5 : Nat) (by simp [signed, ideal])
  have hbuilt : (sampleRecord 0).Built := ⟨_, _, _, _, _, _, _, rfl⟩
  ⟨hlaw.1.mpr hbuilt, hlaw.2.mpr hbuilt⟩

/-- The record of these bytes has the capability 0, and its signature is valid. -/
theorem record_with_capability_is_lost :
    (decode : Decoder NameRecord)
      [0xCE, 0x84, 9, 9, 9, 9, 0xC6, 0xC2, 0x80, 7, 0xC2, 2, 7, 1, 3] = .ok (sampleRecord 1, []) ∧
    ideal.verify (signed (sampleRecord 1)).signature (encode (sampleRecord 1)) (5 : Nat) = true ∧
    ∃ config, (signed (sampleRecord 1)).toConfig (5 : Nat) = .ok config ∧
      ofConfig config = .ok (.error .invalidSignature) := by
  refine ⟨by decide, by simp [signed, ideal], _, rfl, ?_⟩
  rfl

end Kinet.PeerDiscovery.Records
