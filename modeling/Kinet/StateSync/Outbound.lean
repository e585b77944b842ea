import Mathlib.Data.Prod.Lex
import Mathlib.Data.List.MinMax
import Kinet.Foundation.FiniteMap
import Kinet.Foundation.History

/-!
# Requests of a state-sync client

A client asks its upstream peers for pieces of the state.  A request waits in
`pendingRequests` until it is sent to a peer, and is then in flight until its last response is
handed on or it is sent again.  A response comes in chunks, which are handed on in order.

Times, in nanoseconds, and the random choice among the peers are arguments.
-/

namespace Kinet.StateSync

open Checked

/-- A major and a minor number, compared in this order. -/
abbrev StateSyncVersion := Nat ×ₗ Nat

def stateSyncVersion1_2 : StateSyncVersion := toLex (1, 2)

def selfStateSyncVersion : StateSyncVersion := stateSyncVersion1_2

def stateSyncVersionMin : StateSyncVersion := stateSyncVersion1_2

def isCompatible (version : StateSyncVersion) : Bool :=
  stateSyncVersionMin ≤ version && version ≤ selfStateSyncVersion

/-- A range of state of a prefix of keys. -/
structure StateSyncRequest where
  version : StateSyncVersion
  keyPrefix : Nat
  prefixBytes : Nat
  target : Nat
  fromBlock : Nat
  untilBlock : Nat
  oldTarget : Nat

namespace StateSyncRequest

def fields (r : StateSyncRequest) : StateSyncVersion ×ₗ Nat ×ₗ Nat ×ₗ Nat ×ₗ Nat ×ₗ Nat ×ₗ Nat :=
  toLex (r.version, toLex (r.keyPrefix, toLex (r.prefixBytes, toLex (r.target,
    toLex (r.fromBlock, toLex (r.untilBlock, r.oldTarget))))))

lemma fields_injective : Function.Injective fields := by
  rintro ⟨⟩ ⟨⟩ h
  simpa [fields] using h

instance : LinearOrder StateSyncRequest := LinearOrder.lift' fields fields_injective

def body (r : StateSyncRequest) : StateSyncRequest := { r with version := toLex (0, 0) }

end StateSyncRequest

inductive StateSyncUpsertType where
  | code
  | account
  | storage
  | accountDelete
  | storageDelete
  | header
deriving DecidableEq

/-- A change of the state. -/
structure StateSyncUpsert where
  upsertType : StateSyncUpsertType
  data : List UInt8
deriving DecidableEq

/-- A chunk of the answer to a request. -/
structure StateSyncResponse where
  version : StateSyncVersion
  nonce : Nat
  responseIndex : Nat
  request : StateSyncRequest
  response : List StateSyncUpsert
  responseN : Nat
deriving DecidableEq

structure StateSyncBadVersion where
  minVersion : StateSyncVersion
  maxVersion : StateSyncVersion
deriving DecidableEq

structure PeerInfo where
  version : StateSyncVersion := selfStateSyncVersion
  /-- `⊥` if the peer has not timed out, before every time -/
  lastTimeout : WithBot Nat := ⊥

/-- A request that was sent, and the chunks that came early. -/
structure InFlightRequest (P : Type) where
  peer : P
  lastActive : Nat
  /-- chunks that came before their turn -/
  responses : FiniteMap Nat StateSyncResponse
  /-- the index of the next chunk to hand on -/
  responseIndex : Nat
  /-- how many responses came with each nonce -/
  seenNonces : FiniteMap Nat Nat

/-- Five minutes. -/
def stateSyncChunkedResponseTimeout : Nat := 5 * 60 * 10 ^ 9

namespace InFlightRequest

variable {P : Type}

def new (peer : P) (now : Nat) : InFlightRequest P where
  peer := peer
  lastActive := now
  responses := ∅
  responseIndex := 0
  seenNonces := ∅

/-- Take the consecutive chunks from the buffer, beginning with the expected one. -/
def takeConsecutive : Nat → InFlightRequest P → Checked (InFlightRequest P × List StateSyncResponse)
  | 0, f => pure (f, [])
  | rounds + 1, f =>
    match f.responses.lookup f.responseIndex with
    | none => pure (f, [])
    | some response => do
      let responseIndex ← add 32 f.responseIndex 1
      let r ← takeConsecutive rounds { f with
        responses := f.responses.erase f.responseIndex
        responseIndex := responseIndex }
      pure (r.1, response :: r.2)

def firstBuffered (f : InFlightRequest P) : Option StateSyncResponse :=
  f.responses.sortedPairs.head?.map Prod.snd

variable (f : InFlightRequest P) (response : StateSyncResponse) (now : Nat)

/-- Hand on the next chunk and those after it; keep one that is early. -/
def accept : Checked (InFlightRequest P × List StateSyncResponse) :=
  let f := { f with lastActive := now }
  if response.responseIndex < f.responseIndex then
    pure (f, [])
  else if response.responseIndex = f.responseIndex then do
    let responseIndex ← add 32 f.responseIndex 1
    -- a round takes a chunk from the buffer, so that there are no more rounds than chunks
    let r ← takeConsecutive f.responses.keys.length { f with responseIndex := responseIndex }
    pure (r.1, response :: r.2)
  else if (f.responses.lookup response.responseIndex).isSome then
    pure (f, [])
  else
    pure ({ f with responses := f.responses.insert response.responseIndex response }, [])

/-- Chunks of another response are refused while some are kept. -/
def applyResponse : Checked (InFlightRequest P × List StateSyncResponse) :=
  let numNonceSeen := (f.seenNonces.lookup response.nonce).getD 0 + 1
  let f := { f with seenNonces := f.seenNonces.insert response.nonce numNonceSeen }
  if f.firstBuffered.any (fun existing => existing.nonce != response.nonce) then
    if stateSyncChunkedResponseTimeout < now - f.lastActive ∧ numNonceSeen = 1 then
      -- the chunks of another response are given up, the index of the next chunk is not
      accept { f with responses := ∅ } response now
    else
      pure (f, [])
  else
    accept f response now

end InFlightRequest

/-- Requests of a client, and the peers that answer them. -/
structure OutboundRequests (P : Type) where
  peers : FiniteMap P PeerInfo
  prunedPeers : FiniteSet P
  maxParallelRequests : Nat
  requestTimeout : Nat
  pendingRequests : FiniteSet StateSyncRequest
  inFlightRequests : FiniteMap StateSyncRequest (InFlightRequest P)
  /-- for a prefix, the peer that all further responses must come from -/
  prefixPeers : FiniteMap Nat P

inductive RequestPollResult (P : Type) where
  | request (peer : P) (request : StateSyncRequest)
  | timer (at? : Option Nat)

namespace OutboundRequests

variable {P : Type} [DecidableEq P] (maxParallelRequests requestTimeout : Nat) (initPeers : List P)

def start : OutboundRequests P where
  peers := initPeers.foldl (fun peers peer => peers.insert peer {}) ∅
  prunedPeers := ∅
  maxParallelRequests := maxParallelRequests
  requestTimeout := requestTimeout
  pendingRequests := ∅
  inFlightRequests := ∅
  prefixPeers := ∅

def new : Checked (OutboundRequests P) := do
  require (0 < maxParallelRequests)
  pure (start maxParallelRequests requestTimeout initPeers)

variable (s : OutboundRequests P)

def isTrustedPeer (peer : P) : Bool := (s.peers.lookup peer).isSome

def clearPrefixPeers : OutboundRequests P := { s with prefixPeers := ∅ }

/-- Ask for a range; all requests are of one target. -/
def queueRequest (request : StateSyncRequest) : Checked (OutboundRequests P) := do
  let current := s.pendingRequests.first.or (s.inFlightRequests.sortedPairs.head?.map Prod.fst)
  require (current.all fun current => current.target = request.target)
  pure { s with pendingRequests := s.pendingRequests.insert request () }

/-- The responses that a response sets free. -/
def handleResponse (sender : P) (response : StateSyncResponse) (now : Nat) :
    Checked (OutboundRequests P × List StateSyncResponse) :=
  if (s.prefixPeers.lookup response.request.keyPrefix).any (· != sender) then
    pure (s, [])
  else
    let s := { s with prefixPeers := s.prefixPeers.insert response.request.keyPrefix sender }
    match s.inFlightRequests.lookup response.request with
    | none => pure (s, [])
    | some inFlight => do
      let r ← inFlight.applyResponse response now
      if r.2.getLast?.any (fun last => last.responseN != 0) then
        pure ({ s with inFlightRequests := s.inFlightRequests.erase response.request }, r.2)
      else
        pure ({ s with
          inFlightRequests := s.inFlightRequests.insert response.request r.1 }, r.2)

/-- Requests in flight that `p` selects are pending again. -/
def retry (p : StateSyncRequest → InFlightRequest P → Bool) : OutboundRequests P :=
  let requestsToRemove := (s.inFlightRequests.pairs.filter fun e => p e.1 e.2).map Prod.fst
  requestsToRemove.foldl (fun s request => { s with
    inFlightRequests := s.inFlightRequests.erase request
    pendingRequests := s.pendingRequests.insert request () }) s

/-- The peer is not asked again. -/
def prune (peer : P) : OutboundRequests P :=
  { s with peers := s.peers.erase peer, prunedPeers := s.prunedPeers.insert peer () }

/-- Use the version of a peer, or drop it if there is no common one. -/
def handleBadVersion (sender : P) (badVersion : StateSyncBadVersion) : OutboundRequests P :=
  let s :=
    if badVersion.maxVersion < stateSyncVersionMin ∨
        selfStateSyncVersion < badVersion.minVersion then
      s.prune sender
    else
      { s with peers := s.peers.insert sender { version := badVersion.maxVersion } }
  s.retry fun request inFlight =>
    inFlight.peer = sender ∧ badVersion.maxVersion < request.version

/-- A peer that does not serve us is dropped. -/
def handleNotWhitelisted (sender : P) : OutboundRequests P :=
  (s.prune sender).retry fun _ inFlight => inFlight.peer = sender

def expandUpstreamPeers (newPeers : List P) : OutboundRequests P :=
  let newPeers := newPeers.filter fun peer =>
    (s.peers.lookup peer).isNone && (s.prunedPeers.lookup peer).isNone
  { s with peers := newPeers.foldl (fun peers peer => peers.insert peer {}) s.peers }

/-- The peer to ask: the one that is fixed for the prefix, or one of those that have not timed
out for the longest time. -/
def choosePeer (keyPrefix pick : Nat) : Checked (Option P) :=
  match s.prefixPeers.lookup keyPrefix with
  | some prefixPeer => pure (some prefixPeer)
  | none =>
    if s.peers.keys.isEmpty then pure none
    else do
      let candidates := s.peers.pairs.filter fun e =>
        s.peers.pairs.all fun e' => e.2.lastTimeout ≤ e'.2.lastTimeout
      let peer ← unwrap candidates[pick % candidates.length]?
      pure (some peer.1)

def insertRequest (toSend : StateSyncRequest) (now pick : Nat) :
    Checked (OutboundRequests P × RequestPollResult P) := do
  match ← s.choosePeer toSend.keyPrefix pick with
  | none =>
    pure ({ s with pendingRequests := s.pendingRequests.insert toSend () }, .timer none)
  | some peer =>
    let info ← unwrap (s.peers.lookup peer)
    let toSend := { toSend with version := info.version }
    pure ({ s with inFlightRequests :=
      s.inFlightRequests.insert toSend (InFlightRequest.new peer now) }, .request peer toSend)

/-- Send the first request that waits, or one that has timed out. -/
def poll (now pick : Nat) : Checked (OutboundRequests P × RequestPollResult P) :=
  match s.pendingRequests.first with
  | some toSend =>
    if s.inFlightRequests.keys.length < s.maxParallelRequests then
      { s with pendingRequests := s.pendingRequests.erase toSend }.insertRequest toSend now pick
    else pollTimeout
  | none => pollTimeout
where
  /-- Send the request again that times out first, if it has timed out. -/
  pollTimeout : Checked (OutboundRequests P × RequestPollResult P) :=
    match s.inFlightRequests.sortedPairs.argmin fun e => e.2.lastActive with
    | none => pure (s, .timer none)
    | some (request, inFlight) =>
      if now - inFlight.lastActive < s.requestTimeout then
        pure (s, .timer (some (inFlight.lastActive + s.requestTimeout)))
      else
        { s with
          peers := s.peers.modify inFlight.peer fun info => { info with lastTimeout := now }
          inFlightRequests := s.inFlightRequests.erase request }.insertRequest request now pick

end OutboundRequests

/-! ## The client -/

/-- What happens to a client. -/
inductive Event (P : Type) where
  | queueRequest (request : StateSyncRequest)
  | response (sender : P) (response : StateSyncResponse) (now : Nat)
  | badVersion (sender : P) (badVersion : StateSyncBadVersion)
  | notWhitelisted (sender : P)
  | expandUpstreamPeers (newPeers : List P)
  | clearPrefixPeers
  | poll (now pick : Nat)

inductive Answer (P : Type) where
  | nothing
  | handedOn (request : StateSyncRequest) (responses : List StateSyncResponse)
  | polled (result : RequestPollResult P)

variable {P : Type} [DecidableEq P]

/-- An event at the client, which does not listen to peers that it does not trust and drops
responses of another version. -/
def step (s : OutboundRequests P) : Event P → Checked (OutboundRequests P × Answer P)
  | .queueRequest request => do
    let s ← s.queueRequest request
    pure (s, .nothing)
  | .response sender response now =>
    if s.isTrustedPeer sender && isCompatible response.version then do
      let r ← s.handleResponse sender response now
      pure (r.1, .handedOn response.request r.2)
    else pure (s, .nothing)
  | .badVersion sender badVersion =>
    pure (if s.isTrustedPeer sender then s.handleBadVersion sender badVersion else s, .nothing)
  | .notWhitelisted sender =>
    pure (if s.isTrustedPeer sender then s.handleNotWhitelisted sender else s, .nothing)
  | .expandUpstreamPeers newPeers => pure (s.expandUpstreamPeers newPeers, .nothing)
  | .clearPrefixPeers => pure (s.clearPrefixPeers, .nothing)
  | .poll now pick => do
    let r ← s.poll now pick
    pure (r.1, .polled r.2)

end Kinet.StateSync
