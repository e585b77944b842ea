import Kinet.Foundation.FiniteMap
import Kinet.Foundation.History

/-!
# Peers and their sockets

A peer whose name record becomes known waits in `pendingQueue` until it has answered a ping, and
is then promoted to `routingInfo`; `socketToId` says to whom a UDP socket belongs.  Whether a
socket is free is checked when a record is announced, and it is taken when the peer is promoted.

Random choices, the rate limiter and the decision to look a peer up are arguments of the events.

Main results:

- `sockets_bound`: with every promotion onto free sockets, the map of sockets is exact.
- `socket_of_two_peers`: two pending peers with one socket are both promoted.
-/

namespace Kinet.PeerDiscovery

open Option

/-- A signed name record: who has signed it, and the UDP sockets it names. -/
structure NameRecord (N Socket Ip : Type) where
  signer : Option N
  seq : Nat
  ip : Ip
  allUdpSockets : List Socket

structure ConnectionInfo (N Socket Ip : Type) where
  lastPing : Nat
  unresponsivePings : Nat
  nameRecord : NameRecord N Socket Ip

structure Config (N Ip : Type) where
  selfId : N
  /-- `validate_socket_ipv4_address` with the address of this node -/
  validIp : Ip → Bool
  maxNumPeers : Nat
  unresponsivePruneThreshold : Nat
  lastParticipationPruneThreshold : Nat

/-- The tables of peers. -/
structure State (N Socket Ip : Type) where
  routingInfo : FiniteMap N (NameRecord N Socket Ip)
  pendingQueue : FiniteMap N (ConnectionInfo N Socket Ip)
  socketToId : FiniteMap Socket N
  /-- the rounds in which peers were last active -/
  participationInfo : FiniteMap N Nat
  outstandingLookupRequests : FiniteMap Nat N
  currentRound : Nat
  pinned : List N

variable {N Socket Ip : Type} [DecidableEq N] [DecidableEq Socket] [DecidableEq Ip]
  (config : Config N Ip) (s : State N Socket Ip)

namespace State

def insertPeerToPending (peer : N) (nameRecord : NameRecord N Socket Ip) (pingId : Nat) :
    State N Socket Ip :=
  if peer = config.selfId ∨ ¬ config.validIp nameRecord.ip then s
  else if (s.routingInfo.lookup peer).any (fun current => nameRecord.seq ≤ current.seq) then s
  else if (s.pendingQueue.lookup peer).any (fun info => nameRecord.seq ≤ info.nameRecord.seq) then s
  else { s with pendingQueue := s.pendingQueue.insert peer ⟨pingId, 0, nameRecord⟩ }

/-- Route a peer and bind its sockets. -/
def promotePeerToRoutingInfo (peer : N) (nameRecord : NameRecord N Socket Ip) : State N Socket Ip :=
  let old := (s.routingInfo.lookup peer).elim [] (·.allUdpSockets)
  { s with
    routingInfo := s.routingInfo.insert peer nameRecord
    participationInfo := s.participationInfo.insert peer
      (max ((s.participationInfo.lookup peer).getD 0) s.currentRound)
    pendingQueue := s.pendingQueue.erase peer
    socketToId := nameRecord.allUdpSockets.foldl (fun m socket => m.insert socket peer)
      (old.foldl (fun m socket => m.erase socket) s.socketToId) }

def checkSocketAvailability (peer : N) (socket : Socket) : Bool :=
  (s.socketToId.lookup socket).all (· = peer)

variable (sender : N) (source : Ip)

/-- A sender with a good record that is newer becomes pending. -/
def handlePing (nameRecord : NameRecord N Socket Ip)
    (limited : Bool) (pingId : Nat) : State N Socket Ip :=
  if source ≠ nameRecord.ip ∨ limited then s
  else if nameRecord.allUdpSockets.any fun socket => !s.checkSocketAvailability sender socket then s
  else if nameRecord.signer ≠ some sender then s
  else if config.maxNumPeers ≤ s.routingInfo.keys.length + s.pendingQueue.keys.length ∧
      sender ∉ s.pinned ∧ sender ∉ s.routingInfo then s
  else if (s.routingInfo.lookup sender).all (fun current => current.seq < nameRecord.seq) then
    s.insertPeerToPending config sender nameRecord pingId
  else s

/-- The record with which a pong promotes its sender. -/
def promotion (pingId : Nat) : Option (NameRecord N Socket Ip) :=
  (s.pendingQueue.lookup sender).bind fun info =>
    if source = info.nameRecord.ip ∧ info.lastPing = pingId then some info.nameRecord else none

/-- A peer that answers is routed. -/
def handlePong (pingId : Nat) : State N Socket Ip :=
  (s.promotion sender source pingId).elim s (s.promotePeerToRoutingInfo sender)

def handlePingTimeout (peer : N) (pingId newPingId : Nat) : State N Socket Ip :=
  match s.pendingQueue.lookup peer with
  | none => s
  | some info =>
    if info.lastPing ≠ pingId then s
    else if config.unresponsivePruneThreshold ≤ info.unresponsivePings + 1 then
      { s with pendingQueue := s.pendingQueue.erase peer }
    else { s with pendingQueue :=
      s.pendingQueue.insert peer ⟨newPingId, info.unresponsivePings + 1, info.nameRecord⟩ }

def maxPeerInResponse : Nat := 16

/-- Each record comes with the id of the ping that its peer may get. -/
def handlePeerLookupResponse (sender : N) (lookupId : Nat)
    (nameRecords : List (NameRecord N Socket Ip × Nat)) : State N Socket Ip :=
  if s.outstandingLookupRequests.lookup lookupId ≠ some sender ∨
      maxPeerInResponse < nameRecords.length then s
  else
    let s := nameRecords.foldl (fun s r => r.1.signer.elim s fun peer =>
      s.insertPeerToPending config peer r.1 r.2) s
    { s with outstandingLookupRequests := s.outstandingLookupRequests.erase lookupId }

/-- A peer is taken off the tables. -/
def removePeer (peer : N) : State N Socket Ip :=
  let old := (s.routingInfo.lookup peer).elim [] (·.allUdpSockets)
  { s with
    participationInfo := s.participationInfo.erase peer
    routingInfo := s.routingInfo.erase peer
    socketToId := old.foldl (fun m socket => m.erase socket) s.socketToId }

/-- Prune peers that do not participate, and some of those who are too many. -/
def refresh (chosen : List N) : State N Socket Ip :=
  let nonParticipating := (s.participationInfo.pairs.filter fun e =>
    config.lastParticipationPruneThreshold ≤ max s.currentRound e.2 - e.2 ∧
      e.1 ∉ s.pinned).map Prod.fst
  let s := nonParticipating.foldl removePeer s
  let excessive := (s.routingInfo.keys.filter fun peer => peer ∉ s.pinned ∧ peer ∈ chosen).take
    (s.routingInfo.keys.length - config.maxNumPeers)
  excessive.foldl removePeer s

def updatePeers (peers : List (N × NameRecord N Socket Ip × Nat)) : State N Socket Ip :=
  peers.foldl (fun s e =>
    if e.2.1.allUdpSockets.any fun socket => !s.checkSocketAvailability e.1 socket then s
    else s.insertPeerToPending config e.1 e.2.1 e.2.2) s

def updatePeerParticipation (round : Nat) (peers : List N) : State N Socket Ip :=
  { s with participationInfo := (peers.filter (· ≠ config.selfId)).foldl (fun m peer =>
    m.insert peer (max ((m.lookup peer).getD 0) round)) s.participationInfo }

end State

/-- What changes the tables. -/
inductive Event (N Socket Ip : Type) where
  | ping (sender : N) (source : Ip) (nameRecord : NameRecord N Socket Ip) (limited : Bool)
      (pingId : Nat)
  | pong (sender : N) (source : Ip) (pingId : Nat)
  | pingTimeout (peer : N) (pingId newPingId : Nat)
  | lookupSent (lookupId : Nat) (receiver : N)
  | lookupResponse (sender : N) (lookupId : Nat) (nameRecords : List (NameRecord N Socket Ip × Nat))
  | lookupTimeout (lookupId : Nat)
  | refresh (chosen : List N)
  | updatePeers (peers : List (N × NameRecord N Socket Ip × Nat))
  | updatePeerParticipation (round : Nat) (peers : List N)
  | updateCurrentRound (round : Nat)
  | updatePinned (pinned : List N)

def step (s : State N Socket Ip) (e : Event N Socket Ip) : Checked (State N Socket Ip × Unit) :=
  pure (match e with
    | .ping sender source nameRecord limited pingId =>
      s.handlePing config sender source nameRecord limited pingId
    | .pong sender source pingId => s.handlePong sender source pingId
    | .pingTimeout peer pingId newPingId => s.handlePingTimeout config peer pingId newPingId
    | .lookupSent lookupId receiver => { s with
        outstandingLookupRequests := s.outstandingLookupRequests.insert lookupId receiver }
    | .lookupResponse sender lookupId nameRecords =>
      s.handlePeerLookupResponse config sender lookupId nameRecords
    | .lookupTimeout lookupId => { s with
        outstandingLookupRequests := s.outstandingLookupRequests.erase lookupId }
    | .refresh chosen => s.refresh config chosen
    | .updatePeers peers => s.updatePeers config peers
    | .updatePeerParticipation round peers => s.updatePeerParticipation config round peers
    | .updateCurrentRound round => { s with currentRound := max s.currentRound round }
    | .updatePinned pinned => { s with pinned := pinned }, ())

/-- Before the first event. -/
def init : State N Socket Ip := ⟨∅, ∅, ∅, ∅, ∅, 0, []⟩

/-! ## The map of sockets -/

/-- Sockets belong exactly to the routed peers whose records name them. -/
def Bound (s : State N Socket Ip) : Prop :=
  ∀ socket peer, s.socketToId.lookup socket = some peer ↔
    ∃ nameRecord, s.routingInfo.lookup peer = some nameRecord ∧ socket ∈ nameRecord.allUdpSockets

/-- The peer that an event promotes, and its record. -/
def Event.promotion (s : State N Socket Ip) :
    Event N Socket Ip → Option (N × NameRecord N Socket Ip)
  | .pong sender source pingId => (s.promotion sender source pingId).map (sender, ·)
  | _ => none

/-- A peer is promoted onto sockets that belong to nobody else. -/
def OntoFree {ω : Type} (_ : List ω) (s : State N Socket Ip) (e : Event N Socket Ip) : Prop :=
  ∀ r ∈ e.promotion s, ∀ socket ∈ r.2.allUdpSockets, s.checkSocketAvailability r.1 socket = true

instance {ω : Type} (history : List ω) (s : State N Socket Ip) (e : Event N Socket Ip) :
    Decidable (OntoFree history s e) :=
  inferInstanceAs (Decidable (∀ r ∈ e.promotion s, _))

variable {config s}

/-- The tables that hold the peers and their sockets are the same. -/
def SameRouting (s s' : State N Socket Ip) : Prop :=
  s'.routingInfo = s.routingInfo ∧ s'.socketToId = s.socketToId

section

omit [DecidableEq Ip]

omit [DecidableEq Socket] in
lemma sameRouting_insertPeerToPending (peer : N) (nameRecord : NameRecord N Socket Ip)
    (pingId : Nat) : SameRouting s (s.insertPeerToPending config peer nameRecord pingId) := by
  unfold State.insertPeerToPending
  split_ifs <;> exact ⟨rfl, rfl⟩

omit [DecidableEq N] [DecidableEq Socket] in
lemma sameRouting_foldl {α : Type} {f : State N Socket Ip → α → State N Socket Ip}
    (hf : ∀ s a, SameRouting s (f s a)) (l : List α) : SameRouting s (l.foldl f s) := by
  induction l generalizing s with
  | nil => exact ⟨rfl, rfl⟩
  | cons a l ih => exact ⟨(ih (s := f s a)).1.trans (hf s a).1, (ih (s := f s a)).2.trans (hf s a).2⟩

variable {s' : State N Socket Ip}

lemma SameRouting.bound (h : SameRouting s s') (hbound : Bound s) :
    Bound s' := by
  unfold Bound
  rw [h.1, h.2]
  exact hbound

omit [DecidableEq N] in
lemma lookup_foldl_erase (l : List Socket) (m : FiniteMap Socket N) (socket : Socket) :
    (l.foldl (fun m socket => m.erase socket) m).lookup socket =
      if socket ∈ l then none else m.lookup socket := by
  induction l generalizing m with
  | nil => simp
  | cons a l ih =>
    rw [List.foldl_cons, ih, FiniteMap.lookup_erase_eq_ite]
    by_cases ha : socket = a <;> simp [ha]

omit [DecidableEq N] in
lemma lookup_foldl_insert (l : List Socket) (m : FiniteMap Socket N) (peer : N)
    (socket : Socket) : (l.foldl (fun m socket => m.insert socket peer) m).lookup socket =
      if socket ∈ l then some peer else m.lookup socket := by
  induction l generalizing m with
  | nil => simp
  | cons a l ih =>
    rw [List.foldl_cons, ih, FiniteMap.lookup_insert_eq_ite]
    by_cases ha : socket = a <;> simp [ha]

/-- Without the sockets of a peer, the sockets of the others are left. -/
lemma Bound.lookup_erased (h : Bound s) (peer : N) (socket : Socket) (q : N) :
    (((s.routingInfo.lookup peer).elim [] (·.allUdpSockets)).foldl (fun m socket => m.erase socket)
      s.socketToId).lookup socket = some q ↔ q ≠ peer ∧ s.socketToId.lookup socket = some q := by
  rw [lookup_foldl_erase]
  split
  · next hmem =>
    -- the socket is one of the peer's, so that it is nobody else's
    cases hlookup : s.routingInfo.lookup peer with
    | none => simp [hlookup] at hmem
    | some nameRecord =>
      have howner := (h socket peer).mpr ⟨nameRecord, hlookup, by simpa [hlookup] using hmem⟩
      rw [howner]
      simp [eq_comm]
  · next hmem =>
    refine ⟨fun hq => ⟨?_, hq⟩, (·.2)⟩
    rintro rfl
    obtain ⟨nameRecord, hlookup, hsocket⟩ := (h socket q).mp hq
    exact hmem (by simpa [hlookup] using hsocket)

lemma Bound.removePeer (h : Bound s) (peer : N) : Bound (s.removePeer peer) := by
  intro socket q
  rw [State.removePeer, h.lookup_erased peer socket q, h socket q]
  by_cases hq : q = peer
  · subst hq
    simp
  · simp [hq]

lemma Bound.promote (h : Bound s) {peer : N} {nameRecord : NameRecord N Socket Ip}
    (hfree : ∀ socket ∈ nameRecord.allUdpSockets, s.checkSocketAvailability peer socket = true) :
    Bound (s.promotePeerToRoutingInfo peer nameRecord) := by
  intro socket q
  rw [State.promotePeerToRoutingInfo, lookup_foldl_insert]
  by_cases hsocket : socket ∈ nameRecord.allUdpSockets
  · rw [if_pos hsocket, some.injEq]
    constructor
    · rintro rfl
      exact ⟨nameRecord, by simp, hsocket⟩
    · rintro ⟨record, hrecord, hmem⟩
      by_contra hne
      rw [FiniteMap.lookup_insert_eq_ite, if_neg (Ne.symm hne)] at hrecord
      have howner := (h socket q).mpr ⟨record, hrecord, hmem⟩
      have hq := hfree socket hsocket
      simp only [State.checkSocketAvailability, howner, all_some, decide_eq_true_eq] at hq
      exact hne hq.symm
  · rw [if_neg hsocket, h.lookup_erased peer socket q, h socket q]
    by_cases hq : q = peer
    · subst hq
      simp [hsocket]
    · simp [hq]

lemma Bound.foldl_removePeer (h : Bound s) (peers : List N) :
    Bound (peers.foldl State.removePeer s) := by
  induction peers generalizing s with
  | nil => exact h
  | cons peer peers ih => exact ih (h.removePeer peer)

end

lemma Bound.step {history : List (Event N Socket Ip × Unit)} {o : Unit}
    {e : Event N Socket Ip} (h : Bound s) (hfree : OntoFree history s e)
    (hstep : step config s e = .ok (s', o)) : Bound s' := by
  cases hstep
  cases e with
  | pong sender source pingId =>
    dsimp only [State.handlePong]
    cases hpromotion : s.promotion sender source pingId with
    | none => exact h
    | some nameRecord => exact h.promote (hfree (sender, nameRecord) (by
        simp [Event.promotion, hpromotion]))
  | refresh chosen => exact (h.foldl_removePeer _).foldl_removePeer _
  | ping sender source nameRecord limited pingId =>
    dsimp only [State.handlePing]
    split_ifs
    all_goals first | exact h | exact (sameRouting_insertPeerToPending ..).bound h
  | pingTimeout peer pingId newPingId =>
    dsimp only [State.handlePingTimeout]
    split
    · exact h
    · split_ifs <;> exact h
  | lookupResponse sender lookupId nameRecords =>
    dsimp only [State.handlePeerLookupResponse]
    split_ifs
    · exact h
    · refine SameRouting.bound (s := s) (sameRouting_foldl (fun s r => ?_) nameRecords) h
      cases r.1.signer with
      | none => exact ⟨rfl, rfl⟩
      | some peer => exact sameRouting_insertPeerToPending ..
  | updatePeers peers =>
    refine SameRouting.bound (s := s) (sameRouting_foldl (fun s e => ?_) peers) h
    split_ifs
    · exact ⟨rfl, rfl⟩
    · exact sameRouting_insertPeerToPending ..
  | lookupSent | lookupTimeout | updatePeerParticipation | updateCurrentRound | updatePinned =>
    exact h

/-- **Sockets belong to one peer.**  If every peer is promoted onto sockets that no other peer has,
then after every event the map holds exactly the sockets of the routed peers, each with its
peer; in particular no two routed peers have a socket in common. -/
theorem sockets_bound {history : List (Event N Socket Ip × Unit)}
    (hrun : Run (step config) OntoFree init history s) :
    (∀ socket peer, s.socketToId.lookup socket = some peer ↔
      ∃ nameRecord, s.routingInfo.lookup peer = some nameRecord ∧
        socket ∈ nameRecord.allUdpSockets) ∧
    ∀ p q r₁ r₂ socket, s.routingInfo.lookup p = some r₁ → s.routingInfo.lookup q = some r₂ →
      socket ∈ r₁.allUdpSockets → socket ∈ r₂.allUdpSockets → p = q := by
  have h : Bound s := by
    apply hrun.invariant (I := fun _ s => Bound s)
    · intro socket peer
      simp [init]
    · intro history s e s' o h hfree hstep
      exact h.step hfree hstep
  refine ⟨h, ?_⟩
  intro p q r₁ r₂ socket hp hq h1 h2
  have hsame := (h socket p).mpr ⟨r₁, hp, h1⟩
  rw [(h socket q).mpr ⟨r₂, hq, h2⟩] at hsame
  exact (some.inj hsame).symm

def sampleConfig : Config Nat Nat := ⟨0, fun _ => true, 100, 3, 1000⟩

def sampleRecord (signer socket : Nat) : NameRecord Nat Nat Nat := ⟨some signer, 1, 9, [socket]⟩

/-- Two peers announce themselves and answer the ping. -/
theorem sockets_bound_two : ∃ history s, Run (step sampleConfig) OntoFree init history s ∧
    s.socketToId.lookup 5 = some 1 ∧ s.socketToId.lookup 6 = some 2 := by
  obtain ⟨history, s, hrun, hfirst, hsecond⟩ := Run.exists_of_replay (step sampleConfig) OntoFree
    init [.ping 1 9 (sampleRecord 1 5) false 77, .ping 2 9 (sampleRecord 2 6) false 78,
      .pong 1 9 77, .pong 2 9 78]
    (P := fun _ s => (s.routingInfo.lookup 1).any (5 ∈ ·.allUdpSockets) = true ∧
      (s.routingInfo.lookup 2).any (6 ∈ ·.allUdpSockets) = true) (by decide +kernel)
  have hbound := (sockets_bound hrun).1
  obtain ⟨nameRecord, hlookup, hsocket⟩ := any_eq_true _ _ |>.mp hfirst
  obtain ⟨nameRecord', hlookup', hsocket'⟩ := any_eq_true _ _ |>.mp hsecond
  exact ⟨history, s, hrun, (hbound 5 1).mpr ⟨nameRecord, hlookup, of_decide_eq_true hsocket⟩,
    (hbound 6 2).mpr ⟨nameRecord', hlookup', of_decide_eq_true hsocket'⟩⟩

/-- **One socket, two peers.**  Peers 1 and 2 announce the same socket while neither is routed;
both are pending, both answer, and both are routed. -/
theorem socket_of_two_peers :
    ∃ history s, Run (step sampleConfig) (fun _ _ _ => True) init history s ∧
      (s.routingInfo.lookup 1).map (·.allUdpSockets) = some [5] ∧
      (s.routingInfo.lookup 2).map (·.allUdpSockets) = some [5] := by
  exact Run.exists_of_replay _ _ _ [.ping 1 9 (sampleRecord 1 5) false 77,
    .ping 2 9 (sampleRecord 2 5) false 78, .pong 1 9 77, .pong 2 9 78] (by decide +kernel)

end Kinet.PeerDiscovery
