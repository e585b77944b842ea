import Kinet.Foundation.ByteOrder

/-!
# Packets of LeanUDP

A message is cut into fragments, and each fragment travels in one packet behind a header of
six bytes: version, message id, sequence number, flags.  Bit 0 of the flags marks the last
fragment.

Main results:

- `Packet.tryFrom_toBytes`: a packet is read back as it was written.
-/

namespace Kinet.LeanUdp

open ByteOrder List

abbrev Bytes := List UInt8

/-- 16-bit numbers. -/
abbrev U16 := Fin (2 ^ 16)

def protocolVersion : UInt8 := 1

def maxConcurrentMessagesPerIdentity : Nat := 100

def maxConcurrentMessagesPerDedicatedIdentity : Nat := 10

/-- Largest number of fragments of a message. -/
def maxFragments : Nat := 512

def usizeMax : Nat := 2 ^ 64 - 1

/-- Sizes. -/
abbrev Usize := Fin (2 ^ 64)

/-- Position of a fragment in its message; `last` is `End` in the source. -/
inductive FragmentType where
  | start
  | middle
  | last
  | complete
deriving DecidableEq

def FragmentType.isEnd : FragmentType → Bool
  | last => true
  | complete => true
  | start => false
  | middle => false

/-! ## Headers -/

structure PacketHeader where
  version : UInt8
  msgId : U16
  seqNum : U16
  flags : UInt8
deriving DecidableEq

namespace PacketHeader

def size : Nat := 6

def endFlag : UInt8 := 1

def knownFlagsMask : UInt8 := endFlag

def flagsOf : FragmentType → UInt8
  | .start => 0
  | .middle => 0
  | .complete => endFlag
  | .last => endFlag

def new (msgId seqNum : U16) (fragmentType : FragmentType) : PacketHeader where
  version := protocolVersion
  msgId := msgId
  seqNum := seqNum
  flags := flagsOf fragmentType

def fragmentType (h : PacketHeader) : FragmentType :=
  match decide (h.seqNum = 0), h.flags &&& endFlag != 0 with
  | true, true => .complete
  | true, false => .start
  | false, true => .last
  | false, false => .middle

def hasKnownFlags (h : PacketHeader) : Bool := h.flags &&& ~~~knownFlagsMask == 0

def toBytes (h : PacketHeader) : Bytes :=
  h.version :: toLe 2 h.msgId.val ++ toLe 2 h.seqNum.val ++ [h.flags]

def readFromBytes (b : Bytes) : Option PacketHeader :=
  match b with
  | [version, m0, m1, s0, s1, flags] =>
    some
      { version := version
        msgId := Fin.ofNat _ (ofLe [m0, m1])
        seqNum := Fin.ofNat _ (ofLe [s0, s1])
        flags := flags }
  | _ => none

/-- The type of a fragment survives if it fits its sequence number. -/
theorem fragmentType_new (msgId seqNum : U16) (t : FragmentType)
    (h : t = .start ∨ t = .complete ↔ seqNum = 0) : (new msgId seqNum t).fragmentType = t := by
  unfold fragmentType
  by_cases hzero : seqNum = 0
  · cases t <;> simp [hzero] at h <;> simp [new, hzero, flagsOf, endFlag]
  · cases t <;> simp [hzero] at h <;> simp [new, hzero, flagsOf, endFlag]

lemma hasKnownFlags_new (msgId seqNum : U16) (t : FragmentType) :
    (new msgId seqNum t).hasKnownFlags = true := by
  cases t <;> simp [new, hasKnownFlags, flagsOf, knownFlagsMask, endFlag]

lemma ofNat_ofLe_toLe (n : U16) :
    Fin.ofNat (2 ^ 16) (ofLe (toLe 2 n.val)) = n := by
  rw [ofLe_toLe (by omega)]
  simp

lemma readFromBytes_toBytes (h : PacketHeader) : readFromBytes h.toBytes = some h := by
  have hmsg := ofNat_ofLe_toLe h.msgId
  have hseq := ofNat_ofLe_toLe h.seqNum
  simp only [toLe] at hmsg hseq
  simp only [readFromBytes, toBytes, toLe, cons_append, nil_append, hmsg, hseq]

end PacketHeader

/-! ## Packets and outcomes -/

inductive DecodeOutcome where
  | pending
  | complete (message : Bytes)
deriving DecidableEq

inductive DecodeError where
  | invalidHeaderSize (actual required : Nat)
  | invalidHeader
  | unsupportedVersion (version expected : UInt8)
  | identityLimitExceeded (max : Nat)
  | duplicateFragment (msgId seqNum : U16)
  | tooManyFragments (count max : Nat)
  | conflictingEndMarker (expected actual : Nat)
  | messageSizeExceeded (size max : Nat)
  | poolFull
deriving DecidableEq

structure Packet where
  header : PacketHeader
  payload : Bytes
deriving DecidableEq

namespace Packet

def tryFrom (packet : Bytes) : Except DecodeError Packet :=
  if packet.length < PacketHeader.size then
    .error (.invalidHeaderSize packet.length PacketHeader.size)
  else
    match PacketHeader.readFromBytes (packet.take PacketHeader.size) with
    | none => .error .invalidHeader
    | some header => .ok ⟨header, packet.drop PacketHeader.size⟩

def toBytes (p : Packet) : Bytes := p.header.toBytes ++ p.payload

theorem tryFrom_toBytes (p : Packet) : tryFrom p.toBytes = .ok p := by
  have hlength : p.header.toBytes.length = PacketHeader.size := by
    simp [PacketHeader.toBytes, PacketHeader.size]
  have htake : p.toBytes.take PacketHeader.size = p.header.toBytes := by
    rw [toBytes, ← hlength, take_left]
  have hdrop : p.toBytes.drop PacketHeader.size = p.payload := by
    rw [toBytes, ← hlength, drop_left]
  unfold tryFrom
  rw [if_neg (by simp [toBytes, hlength]), htake, PacketHeader.readFromBytes_toBytes]
  simp [hdrop]

end Packet

/-! ## Configuration -/

structure Config where
  maxMessageSize : Usize
  maxPriorityMessages : Nat
  maxRegularMessages : Nat
  maxMessagesPerIdentity : Nat
  maxMessagesPerDedicatedIdentity : Nat
  messageTimeout : Nat
  maxFragmentPayload : Nat

namespace Config

/-- The assertions that a configuration must pass. -/
structure Valid (c : Config) : Prop where
  maxMessageSize : 0 < c.maxMessageSize
  maxMessagesPerIdentity : 0 < c.maxMessagesPerIdentity
  maxMessagesPerDedicatedIdentity : 0 < c.maxMessagesPerDedicatedIdentity
  messageTimeout : 0 < c.messageTimeout
  maxFragmentPayload : PacketHeader.size < c.maxFragmentPayload

def default : Config where
  maxMessageSize := 512 * 1024
  maxPriorityMessages := 2048
  maxRegularMessages := 1024
  maxMessagesPerIdentity := maxConcurrentMessagesPerIdentity
  maxMessagesPerDedicatedIdentity := maxConcurrentMessagesPerDedicatedIdentity
  messageTimeout := 100000000
  maxFragmentPayload := 1440

end Config

/-- How an identity is scored. -/
inductive FragmentPolicy where
  | regular
  | prioritized
deriving DecidableEq

end Kinet.LeanUdp
