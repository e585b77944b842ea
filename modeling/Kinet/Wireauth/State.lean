import Kinet.Foundation.FiniteMap
import Kinet.Wireauth.Session

/-!
# The session table

All sessions of a node by their index, and the indices over them: which session was
initiated to a peer, which were accepted from it, which two per role were established last
with a key or an address, how many an address has.
-/

namespace Kinet.Wireauth

variable {C : Crypto}

/-! ## Established sessions -/

/-- The two sessions of one role that were established last, with their times of creation. -/
structure RoleSessions where
  current : Option (UInt32 × Nat) := none
  previous : Option (UInt32 × Nat) := none
deriving DecidableEq

namespace RoleSessions

variable (r : RoleSessions)

/-- Add a session; the result is the session that has to go. -/
def push (sessionId : UInt32) (created : Nat) : Option UInt32 × RoleSessions :=
  (r.previous.map Prod.fst, { current := some (sessionId, created), previous := r.current })

def remove (sessionId : UInt32) : RoleSessions :=
  if r.current.map Prod.fst = some sessionId then { current := r.previous, previous := none }
  else if r.previous.map Prod.fst = some sessionId then { r with previous := none }
  else r

def isEmpty : Bool := r.current.isNone && r.previous.isNone

/-- The sessions, the latest first. -/
def ids : List UInt32 := (r.current.toList ++ r.previous.toList).map Prod.fst

end RoleSessions

structure EstablishedSessions where
  initiator : RoleSessions := {}
  responder : RoleSessions := {}
deriving DecidableEq

namespace EstablishedSessions

variable (e : EstablishedSessions)

def getLatest : Option UInt32 :=
  match e.initiator.current, e.responder.current with
  | some (id0, ts0), some (id1, ts1) => if ts0 ≥ ts1 then some id0 else some id1
  | some (id, _), none => some id
  | none, some (id, _) => some id
  | none, none => none

def isEmpty : Bool := e.initiator.isEmpty && e.responder.isEmpty

def role (isInitiator : Bool) : RoleSessions :=
  if isInitiator then e.initiator else e.responder

def setRole (isInitiator : Bool) (r : RoleSessions) : EstablishedSessions :=
  if isInitiator then { e with initiator := r } else { e with responder := r }

end EstablishedSessions

/-- Tables of established sessions, by key or by address. -/
abbrev EstablishedTable (κ : Type) := FiniteMap κ EstablishedSessions

namespace EstablishedTable

variable {κ : Type} [DecidableEq κ] (table : EstablishedTable κ) (k : κ)

/-- Sessions under a key, none if there is no entry. -/
def get : EstablishedSessions := (table.lookup k).getD {}

/-- Add a session under a key; the result is the session that has to go. -/
def push (isInitiator : Bool) (sessionId : UInt32)
    (created : Nat) : Option UInt32 × EstablishedTable κ :=
  let sessions := get table k
  let (evicted, r) := (sessions.role isInitiator).push sessionId created
  (evicted, table.insert k (sessions.setRole isInitiator r))

/-- Remove a session under a key, and the entry if it is empty then. -/
def drop (isInitiator : Bool) (sessionId : UInt32) : EstablishedTable κ :=
  match table.lookup k with
  | none => table
  | some sessions =>
    let sessions :=
      sessions.setRole isInitiator ((sessions.role isInitiator).remove sessionId)
    if sessions.isEmpty then table.erase k else table.insert k sessions

end EstablishedTable

/-! ## The table -/

/-- The session table. -/
structure State (C : Crypto) where
  initiatingSessions : FiniteMap UInt32 (InitiatorState C) := ∅
  respondingSessions : FiniteMap UInt32 (ResponderState C) := ∅
  transportSessions : FiniteMap UInt32 (TransportState C) := ∅
  lastEstablishedSessionByPublicKey : EstablishedTable C.PubKey := ∅
  lastEstablishedSessionBySocket : EstablishedTable SocketAddr := ∅
  allocatedIndices : FiniteSet UInt32 := ∅
  nextSessionIndex : UInt32 := 0
  initiatedSessionByPeer : FiniteMap C.PubKey UInt32 := ∅
  acceptedSessionsByPeer : FiniteSet (C.PubKey × UInt32) := ∅
  ipSessionCounts : FiniteMap IpAddr Nat := ∅
  totalSessions : Nat := 0

namespace State

variable (s : State C) (publicKey : C.PubKey)

/-- Established session that was created last with this key. -/
def latestByPublicKey : Option UInt32 :=
  (s.lastEstablishedSessionByPublicKey.lookup publicKey).bind EstablishedSessions.getLatest

def latestBySocket (addr : SocketAddr) : Option UInt32 :=
  (s.lastEstablishedSessionBySocket.lookup addr).bind EstablishedSessions.getLatest

def hasTransportByPublicKey : Bool :=
  match s.latestByPublicKey publicKey with
  | some id => (s.transportSessions.lookup id).isSome
  | none => false

/-- Indices of the sessions accepted from a peer, in increasing order. -/
def acceptedRange : List UInt32 :=
  ((s.acceptedSessionsByPeer.keys.filter fun entry => entry.1 = publicKey).map
    Prod.snd).insertionSort (· ≤ ·)

def hasAnySessionByPublicKey : Bool :=
  if s.hasTransportByPublicKey publicKey then true
  else if (s.initiatedSessionByPeer.lookup publicKey).isSome then true
  else (s.acceptedRange publicKey).head?.isSome

def getTransportByPublicKey : Option (TransportState C) :=
  (s.latestByPublicKey publicKey).bind s.transportSessions.lookup

def getTransportBySocket (addr : SocketAddr) : Option (TransportState C) :=
  (s.latestBySocket addr).bind s.transportSessions.lookup

/-- First free index among `tries` indices from `candidate` on. -/
def freeIndex (allocated : FiniteSet UInt32) : Nat → UInt32 → Option UInt32
  | 0, _ => none
  | tries + 1, candidate =>
    if candidate ∈ allocated then freeIndex allocated tries (candidate + 1) else some candidate

def reserveSessionIndex : Option UInt32 := freeIndex s.allocatedIndices (2 ^ 32) s.nextSessionIndex

variable (index : UInt32)

def commit : State C :=
  { s with
    nextSessionIndex := index + 1
    allocatedIndices := s.allocatedIndices.insert index () }

def releaseIp (counts : FiniteMap IpAddr Nat) (ip : IpAddr) : FiniteMap IpAddr Nat :=
  match counts.lookup ip with
  | none => counts
  | some count => if count - 1 = 0 then counts.erase ip else counts.insert ip (count - 1)

def addIp (counts : FiniteMap IpAddr Nat) (ip : IpAddr) : FiniteMap IpAddr Nat :=
  counts.insert ip ((counts.lookup ip).getD 0 + 1)

def terminateSession (sessionId : UInt32) (remotePublicKey : C.PubKey) (remoteAddr : SocketAddr) :
    State C :=
  let transport := s.transportSessions.lookup sessionId
  { s with
    ipSessionCounts := releaseIp s.ipSessionCounts remoteAddr.ip
    totalSessions := s.totalSessions - 1
    transportSessions := s.transportSessions.erase sessionId
    initiatingSessions := s.initiatingSessions.erase sessionId
    respondingSessions := s.respondingSessions.erase sessionId
    allocatedIndices := s.allocatedIndices.erase sessionId
    lastEstablishedSessionBySocket :=
      match transport with
      | some t => s.lastEstablishedSessionBySocket.drop remoteAddr t.common.isInitiator sessionId
      | none => s.lastEstablishedSessionBySocket
    lastEstablishedSessionByPublicKey :=
      match transport with
      | some t =>
        s.lastEstablishedSessionByPublicKey.drop remotePublicKey t.common.isInitiator sessionId
      | none => s.lastEstablishedSessionByPublicKey
    initiatedSessionByPeer :=
      if s.initiatedSessionByPeer.lookup remotePublicKey = some sessionId then
        s.initiatedSessionByPeer.erase remotePublicKey
      else s.initiatedSessionByPeer
    acceptedSessionsByPeer := s.acceptedSessionsByPeer.erase (remotePublicKey, sessionId) }

/-- Forget a transport session that had to make room. -/
def evict (sessionId : UInt32) : State C :=
  match s.transportSessions.lookup sessionId with
  | some t => s.terminateSession sessionId t.common.remotePublicKey t.common.remoteAddr
  | none => s

/-- Add an established session; the third-latest session of its role with its key and with
its address have to go. -/
def insertTransport (sessionId : UInt32) (transport : TransportState C) : State C :=
  let isInitiator := transport.common.isInitiator
  let s :=
    if isInitiator then { s with initiatingSessions := s.initiatingSessions.erase sessionId }
    else { s with respondingSessions := s.respondingSessions.erase sessionId }
  let (evicted, byKey) := s.lastEstablishedSessionByPublicKey.push
    transport.common.remotePublicKey isInitiator sessionId transport.common.created
  let (evicted', bySocket) := s.lastEstablishedSessionBySocket.push
    transport.common.remoteAddr isInitiator sessionId transport.common.created
  let s := { s with
    lastEstablishedSessionByPublicKey := byKey
    lastEstablishedSessionBySocket := bySocket }
  let evictedSessions :=
    evicted.toList ++ (if evicted' = evicted then [] else evicted'.toList)
  let s := evictedSessions.foldl evict s
  { s with transportSessions := s.transportSessions.insert sessionId transport }

/-- Take a session that waits for an answer out of the table. -/
def removeInitiator : Option (InitiatorState C × State C) :=
  match s.initiatingSessions.lookup index with
  | none => none
  | some session =>
    let key := session.common.remotePublicKey
    some (session, { s with
        initiatingSessions := s.initiatingSessions.erase index
        initiatedSessionByPeer :=
          if s.initiatedSessionByPeer.lookup key = some index then
            s.initiatedSessionByPeer.erase key
          else s.initiatedSessionByPeer })

/-- Take a session that waits for its first packet out of the table. -/
def removeResponder : Option (ResponderState C × State C) :=
  match s.respondingSessions.lookup index with
  | none => none
  | some session =>
    some (session, { s with
        respondingSessions := s.respondingSessions.erase index
        acceptedSessionsByPeer :=
          s.acceptedSessionsByPeer.erase (session.transport.common.remotePublicKey, index) })

def insertInitiator (session : InitiatorState C) (remoteKey : C.PubKey) : State C :=
  { s with
    initiatingSessions := s.initiatingSessions.insert index session
    initiatedSessionByPeer := s.initiatedSessionByPeer.insert remoteKey index
    ipSessionCounts := addIp s.ipSessionCounts session.common.remoteAddr.ip
    totalSessions := s.totalSessions + 1 }

def insertResponder (session : ResponderState C) (remoteKey : C.PubKey) : State C :=
  { s with
    respondingSessions := s.respondingSessions.insert index session
    acceptedSessionsByPeer := s.acceptedSessionsByPeer.insert (remoteKey, index) ()
    ipSessionCounts := addIp s.ipSessionCounts session.transport.common.remoteAddr.ip
    totalSessions := s.totalSessions + 1 }

section

variable (remoteKey : C.PubKey)

def lookupCookieFromInitiatedSessions : Option (C.Array 16) :=
  (s.initiatedSessionByPeer.lookup remoteKey).bind fun id =>
    (s.initiatingSessions.lookup id).bind (·.common.storedCookie)

def lookupCookieFromAcceptedSessions : Option (C.Array 16) :=
  (s.acceptedRange remoteKey).findSome? fun id =>
    (s.respondingSessions.lookup id).bind (·.transport.common.storedCookie)

/-- Timestamps of the sessions accepted from a peer that wait for their first packet. -/
def acceptedTimestamps : List Tai64N :=
  ((s.acceptedRange remoteKey).filterMap s.respondingSessions.lookup).filterMap
    (·.transport.common.initiatorTimestamp)

/-- Timestamp of the session that was established last from a first message of a peer. -/
def openTimestamp : Option Tai64N :=
  (s.lastEstablishedSessionByPublicKey.lookup remoteKey).bind fun sessions =>
    sessions.responder.current.bind fun entry =>
      (s.transportSessions.lookup entry.1).bind (·.common.initiatorTimestamp)

/-- First messages of a peer must be newer than this. -/
def getMaxTimestamp : Option Tai64N :=
  match (s.acceptedTimestamps remoteKey).max?, s.openTimestamp remoteKey with
  | some a, some o => some (max a o)
  | some a, none => some a
  | none, some o => some o
  | none, none => none

end

def sessionIdsByPublicKey (publicKey : C.PubKey) : List UInt32 :=
  let sessions := s.lastEstablishedSessionByPublicKey.get publicKey
  ((s.initiatedSessionByPeer.lookup publicKey).toList ++ s.acceptedRange publicKey ++
    sessions.initiator.ids ++ sessions.responder.ids).dedup

def remoteAddrOf (id : UInt32) : Option SocketAddr :=
  ((s.transportSessions.lookup id).map (·.common.remoteAddr)) <|>
    ((s.initiatingSessions.lookup id).map (·.common.remoteAddr)) <|>
    ((s.respondingSessions.lookup id).map (·.transport.common.remoteAddr))

def terminateByPublicKey (publicKey : C.PubKey) : State C :=
  (s.sessionIdsByPublicKey publicKey).foldl (fun s id =>
      match s.remoteAddrOf id with
      | some addr => s.terminateSession id publicKey addr
      | none => s)
    s

def ipSessionCount (ip : IpAddr) : Nat := (s.ipSessionCounts.lookup ip).getD 0

def initiatedSessionsCount : Nat := s.initiatingSessions.keys.length

end State

end Kinet.Wireauth
