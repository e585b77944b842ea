import Kinet.PeerDiscovery.Sockets

/-!
# Refreshing the peers

`refresh` takes peers off the tables that have not participated for long, and some if there are
too many, but no pinned ones: the validators of the current and the next epoch, the full nodes
of the configuration and, until that is read again, the bootstrap peers.

Main results:

- `refresh_keeps_protected`: pinned peers stay, and only they can be too many.
- `refresh_drops_bootstrap_peer`: with a new configuration, bootstrap peers go.
-/

namespace Kinet.PeerDiscovery

open List

variable {N Socket Ip : Type} [DecidableEq N] [DecidableEq Socket] {config : Config N Ip}
  {s : State N Socket Ip} {chosen : List N}

/-! ## One refresh -/

lemma foldl_removePeer (peers : List N) (s : State N Socket Ip) :
    (peers.foldl State.removePeer s).routingInfo.keys = s.routingInfo.keys.diff peers ∧
      (peers.foldl State.removePeer s).pinned = s.pinned := by
  induction peers generalizing s with
  | nil => exact ⟨rfl, rfl⟩
  | cons peer peers ih =>
    rw [foldl_cons, diff_cons, (ih _).1, (ih _).2]
    exact ⟨by rw [State.removePeer, AList.keys_erase], rfl⟩

def State.participating (config : Config N Ip) (s : State N Socket Ip) : State N Socket Ip :=
  ((s.participationInfo.pairs.filter fun e =>
    config.lastParticipationPruneThreshold ≤ max s.currentRound e.2 - e.2 ∧
      e.1 ∉ s.pinned).map Prod.fst).foldl removePeer s

/-- As many peers are chosen as are too many, or all that are not pinned. -/
def State.Chooses (config : Config N Ip) (s : State N Socket Ip) (chosen : List N) : Prop :=
  min ((s.participating config).routingInfo.keys.length - config.maxNumPeers)
      ((s.participating config).routingInfo.keys.filter fun peer => peer ∉ s.pinned).length ≤
    ((s.participating config).routingInfo.keys.filter fun peer =>
      peer ∉ s.pinned ∧ peer ∈ chosen).length

instance State.decidableChooses (s : State N Socket Ip) (chosen : List N) :
    Decidable (s.Chooses config chosen) :=
  inferInstanceAs (Decidable (_ ≤ _))

lemma mem_refresh {peer : N} (hrouted : peer ∈ s.routingInfo) (hpinned : peer ∈ s.pinned) :
    peer ∈ (s.refresh config chosen).routingInfo := by
  have hkeep {s : State N Socket Ip} {peers : List N} (hrouted : peer ∈ s.routingInfo)
      (hnot : peer ∉ peers) : peer ∈ (peers.foldl State.removePeer s).routingInfo := by
    rw [AList.mem_keys, (foldl_removePeer peers s).1, s.routingInfo.keys_nodup.mem_sdiff_iff]
    exact ⟨hrouted, hnot⟩
  refine hkeep (hkeep hrouted (by simp [hpinned])) fun hexcessive => ?_
  have hexcessive := (mem_filter.mp (mem_of_mem_take hexcessive)).2
  rw [(foldl_removePeer _ s).2] at hexcessive
  simp [hpinned] at hexcessive

lemma length_refresh_le (hchosen : s.Chooses config chosen) :
    (s.refresh config chosen).routingInfo.keys.length ≤ max config.maxNumPeers
      ((s.refresh config chosen).routingInfo.keys.filter fun peer => peer ∈ s.pinned).length := by
  obtain ⟨keys, hkeys⟩ : ∃ keys, keys = (s.participating config).routingInfo.keys := ⟨_, rfl⟩
  obtain ⟨excessive, hexcessive⟩ : ∃ l, l = (keys.filter fun peer =>
    peer ∉ s.pinned ∧ peer ∈ chosen).take (keys.length - config.maxNumPeers) := ⟨_, rfl⟩
  have hrefresh : (s.refresh config chosen).routingInfo.keys = keys.diff excessive := by
    rw [hexcessive, hkeys, ← (foldl_removePeer _ s).2]
    exact (foldl_removePeer _ (s.participating config)).1
  rw [State.Chooses, ← hkeys] at hchosen
  rw [hrefresh]
  have hperm : (excessive ++ keys.diff excessive).Perm keys := by
    refine subperm_append_diff_self_of_count_le fun peer _ => Sublist.count_le peer ?_
    exact hexcessive ▸ (take_sublist _ _).trans filter_sublist
  have hnone : (excessive.filter fun peer => peer ∈ s.pinned) = [] := by
    refine filter_eq_nil_iff.mpr fun peer hpeer => ?_
    rw [hexcessive] at hpeer
    have hpeer := (mem_filter.mp (mem_of_mem_take hpeer)).2
    simp only [decide_eq_true_eq] at hpeer ⊢
    exact hpeer.1
  have hlength := hperm.length_eq
  have hkept := (hperm.filter fun peer => peer ∈ s.pinned).length_eq
  have hsplit := keys.length_eq_length_filter_add fun peer => decide (peer ∈ s.pinned)
  have htake := congrArg length hexcessive
  rw [length_append] at hlength
  rw [length_take] at htake
  rw [filter_append, hnone, nil_append] at hkept
  simp only [decide_not] at hchosen
  omega

/-! ## Who is pinned -/

variable [DecidableEq Ip]

/-- The peers, and what says who is pinned. -/
structure Node (N Socket Ip : Type) where
  peers : State N Socket Ip
  currentEpoch : Nat
  epochValidators : FiniteMap Nat (List N)
  pinnedFullNodes : List N

inductive NodeEvent (N Socket Ip : Type) where
  | peers (e : Event N Socket Ip)
  | updateCurrentRound (round epoch : Nat)
  | updateValidatorSet (epoch : Nat) (validators : List N)
  | updatePinnedNodes (dedicated prioritized : List N)

namespace Node

def validators (n : Node N Socket Ip) : List N :=
  (n.epochValidators.lookup n.currentEpoch).getD [] ++
    (n.epochValidators.lookup (n.currentEpoch + 1)).getD []

/-- The peers know who is pinned. -/
def sync (n : Node N Socket Ip) : Node N Socket Ip :=
  { n with peers := { n.peers with pinned := n.validators ++ n.pinnedFullNodes } }

/-- The bootstrap peers come with their records and the ids of their first pings. -/
def start (config : Config N Ip) (round epoch : Nat) (epochValidators : FiniteMap Nat (List N))
    (fullNodes : List N) (bootstrap : List (N × NameRecord N Socket Ip × Nat)) :
    Node N Socket Ip :=
  sync ⟨bootstrap.foldl (fun s b => s.insertPeerToPending config b.1 b.2.1 b.2.2)
    { init with currentRound := round }, epoch, epochValidators,
    fullNodes ++ bootstrap.map Prod.fst⟩

def step (config : Config N Ip) (n : Node N Socket Ip) (e : NodeEvent N Socket Ip) :
    Checked (Node N Socket Ip × Unit) := do
  match e with
  | .peers e =>
    let (peers, _) ← PeerDiscovery.step config n.peers e
    pure (sync { n with peers := peers }, ())
  | .updateCurrentRound round epoch =>
    let currentEpoch := max n.currentEpoch epoch
    pure (sync { n with
      peers := { n.peers with currentRound := max n.peers.currentRound round }
      currentEpoch := currentEpoch
      epochValidators := n.epochValidators.retain fun e _ => currentEpoch ≤ e + 1 }, ())
  | .updateValidatorSet epoch validators =>
    pure (sync { n with epochValidators := n.epochValidators.insert epoch validators }, ())
  | .updatePinnedNodes dedicated prioritized =>
    pure (sync { n with pinnedFullNodes := dedicated ++ prioritized }, ())

end Node

def NodeEvent.fullNodes : NodeEvent N Socket Ip → Option (List N)
  | .updatePinnedNodes dedicated prioritized => some (dedicated ++ prioritized)
  | _ => none

/-- The full nodes of the latest configuration since the start. -/
def latest (history : List (NodeEvent N Socket Ip × Unit)) : Option (List N) :=
  (history.filterMap (·.1.fullNodes)).getLast?

variable {round epoch : Nat} {epochValidators : FiniteMap Nat (List N)} {fullNodes : List N}
  {bootstrap : List (N × NameRecord N Socket Ip × Nat)}
  {history : List (NodeEvent N Socket Ip × Unit)} {n : Node N Socket Ip}

/-- A refresh keeps the validators of the current and the next epoch, the full nodes of the
latest configuration and, until a new configuration comes, the bootstrap peers.  It leaves no
more peers than allowed, unless all of them are pinned. -/
theorem refresh_keeps_protected (hrun : Run (Node.step config) (fun _ _ _ => True)
      (.start config round epoch epochValidators fullNodes bootstrap) history n)
    (chosen : List N) :
    (∀ peer ∈ n.peers.routingInfo, (peer ∈ n.validators ∨ peer ∈ (latest history).getD fullNodes ∨
        peer ∈ bootstrap.map Prod.fst ∧ latest history = none) →
      peer ∈ (n.peers.refresh config chosen).routingInfo) ∧
    (n.peers.Chooses config chosen →
      (n.peers.refresh config chosen).routingInfo.keys.length ≤ max config.maxNumPeers
        ((n.peers.refresh config chosen).routingInfo.keys.filter fun peer =>
          peer ∈ n.validators ++ n.pinnedFullNodes).length) := by
  have h : n.peers.pinned = n.validators ++ n.pinnedFullNodes ∧
      n.pinnedFullNodes = (latest history).getD (fullNodes ++ bootstrap.map Prod.fst) := by
    refine hrun.invariant (I := fun history n => n.peers.pinned = n.validators ++
      n.pinnedFullNodes ∧ n.pinnedFullNodes = (latest history).getD _) ⟨rfl, rfl⟩ ?_
    intro history n e n' o h _ hstep
    cases e <;> cases hstep <;> refine ⟨rfl, ?_⟩ <;>
      simp [latest, NodeEvent.fullNodes, Node.sync, h.2]
  rw [← h.1]
  refine ⟨fun peer hrouted hprotected => mem_refresh hrouted ?_, length_refresh_le⟩
  rw [h.1, h.2, mem_append]
  cases hlatest : latest history with
  | none => simpa [hlatest] using hprotected
  | some fullNodes => simpa [hlatest] using hprotected

/-- Peer 1 is a bootstrap peer of the node. -/
def sampleStart : Node Nat Nat Nat := .start sampleConfig 0 0 ∅ [] [(1, sampleRecord 1 5, 77)]

/-- A node with room for two peers, with a bootstrap peer and two validators. -/
def smallConfig : Config Nat Nat := { sampleConfig with maxNumPeers := 2 }

def smallStart : Node Nat Nat Nat :=
  .start smallConfig 0 0 (AList.insert 0 [2, 3] ∅) [] [(1, sampleRecord 1 5, 77)]

/-- The bootstrap peer and the validators answer.  When their epoch is over, the validators are
one peer too many: peer 3 is chosen, and the bootstrap peer stays. -/
theorem refresh_keeps_protected_sample :
    ∃ history n, Run (Node.step smallConfig) (fun _ _ _ => True) smallStart history n ∧
      n.peers.routingInfo.keys.length = 3 ∧ n.peers.Chooses smallConfig [3] ∧
      1 ∈ (n.peers.refresh smallConfig [3]).routingInfo ∧
      (n.peers.refresh smallConfig [3]).routingInfo.keys.length ≤ 2 := by
  obtain ⟨history, n, hrun, hlength, hchosen, hpinned, hrouted, hlatest⟩ :=
    Run.exists_of_replay (Node.step smallConfig) (fun _ _ _ => True) smallStart
      [.peers (.ping 2 9 (sampleRecord 2 6) false 78),
        .peers (.ping 3 9 (sampleRecord 3 7) false 79), .peers (.pong 1 9 77),
        .peers (.pong 2 9 78), .peers (.pong 3 9 79), .updateCurrentRound 10 2]
      (P := fun history n => n.peers.routingInfo.keys.length = 3 ∧
        n.peers.Chooses smallConfig [3] ∧
        ((n.peers.refresh smallConfig [3]).routingInfo.keys.filter fun peer =>
          peer ∈ n.validators ++ n.pinnedFullNodes).length ≤ 2 ∧
        1 ∈ n.peers.routingInfo ∧ latest history = none) (by decide +kernel)
  obtain ⟨hkeeps, hbound⟩ := refresh_keeps_protected hrun [3]
  exact ⟨history, n, hrun, hlength, hchosen,
    hkeeps 1 hrouted (.inr (.inr ⟨by decide, hlatest⟩)),
    (hbound hchosen).trans (max_le le_rfl hpinned)⟩

/-- With a configuration that does not name it, the bootstrap peer is pruned. -/
theorem refresh_drops_bootstrap_peer :
    ∃ history n, Run (Node.step sampleConfig) (fun _ _ _ => True) sampleStart history n ∧
      1 ∈ n.peers.routingInfo ∧ 1 ∉ (n.peers.refresh sampleConfig []).routingInfo :=
  Run.exists_of_replay _ _ _ [.peers (.pong 1 9 77), .updatePinnedNodes [] [],
    .updateCurrentRound 5000 0] (by decide +kernel)

end Kinet.PeerDiscovery
