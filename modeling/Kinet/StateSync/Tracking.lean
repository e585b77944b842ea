import Kinet.StateSync.Chunks

/-!
# No request is lost

A request that was queued is pending or in flight until its last response is handed on.  The
client does not stop as long as no peer to which a prefix is pinned leaves: the pin survives
the peer, and the next request of the prefix looks the peer up.

Main results:

- `requests_tracked`: every step returns, and every request is in one place.
- `poll_stops_at_stale_pin`: a pin to a peer that has left stops the client.
-/

namespace Kinet.StateSync

open FiniteMap Checked OutboundRequests List AList StateSyncRequest Except

variable {P : Type}

/-! ## What can go wrong

The index of the next chunk has 32 bits; nothing else in the handling of a response can fail.
-/

/-- `x` returns, or stops at an index that does not fit. -/
def ReturnsOrOverflows {α : Type} (x : Checked α) : Prop := ∀ e, x = .error e → e = .overflow

lemma returnsOrOverflows_ok {α : Type} (a : α) : ReturnsOrOverflows (.ok a : Checked α) := by
  intro e h
  cases h

lemma returnsOrOverflows_add (bits a b : Nat) : ReturnsOrOverflows (add bits a b) := by
  intro e h
  simp only [add, fits] at h
  split at h
  · cases h
  · exact (error.inj h).symm

lemma ReturnsOrOverflows.bind {α β : Type} {x : Checked α} {f : α → Checked β}
    (hx : ReturnsOrOverflows x) (hf : ∀ a, ReturnsOrOverflows (f a)) :
    ReturnsOrOverflows (x >>= f) := by
  cases x with
  | error e => exact fun e' h => hx e' (congrArg error (error.inj h))
  | ok a => exact hf a

namespace InFlightRequest

lemma returnsOrOverflows_takeConsecutive (rounds : Nat) (f : InFlightRequest P) :
    ReturnsOrOverflows (takeConsecutive rounds f) := by
  induction rounds generalizing f with
  | zero => exact returnsOrOverflows_ok _
  | succ rounds ih =>
    rw [takeConsecutive]
    split
    · exact returnsOrOverflows_ok _
    · exact (returnsOrOverflows_add _ _ _).bind fun _ =>
        (ih _).bind fun _ => returnsOrOverflows_ok _

variable (f : InFlightRequest P) (response : StateSyncResponse) (now : Nat)

lemma returnsOrOverflows_accept : ReturnsOrOverflows (accept f response now) := by
  unfold accept
  dsimp only
  split
  · exact returnsOrOverflows_ok _
  split
  · exact (returnsOrOverflows_add _ _ _).bind fun _ =>
      (returnsOrOverflows_takeConsecutive _ _).bind fun _ => returnsOrOverflows_ok _
  split
  · exact returnsOrOverflows_ok _
  · exact returnsOrOverflows_ok _

lemma returnsOrOverflows_applyResponse : ReturnsOrOverflows (applyResponse f response now) := by
  unfold applyResponse
  dsimp only
  split
  · split
    · exact returnsOrOverflows_accept _ _ _
    · exact returnsOrOverflows_ok _
  · exact returnsOrOverflows_accept _ _ _

end InFlightRequest

variable [DecidableEq P] {now pick : Nat} {result : RequestPollResult P}

namespace OutboundRequests

lemma returnsOrOverflows_handleResponse (s : OutboundRequests P) (sender : P)
    (response : StateSyncResponse) (now : Nat) :
    ReturnsOrOverflows (s.handleResponse sender response now) := by
  unfold handleResponse
  split
  · exact returnsOrOverflows_ok _
  dsimp only
  split
  · exact returnsOrOverflows_ok _
  · apply (InFlightRequest.returnsOrOverflows_applyResponse _ _ _).bind
    intro r
    split <;> exact returnsOrOverflows_ok _

/-- The peers to which prefixes are pinned are known. -/
def PinsKnown (s : OutboundRequests P) : Prop :=
  ∀ k p, s.prefixPeers.lookup k = some p → p ∈ s.peers

variable {s : OutboundRequests P} {r : StateSyncRequest}

lemma exists_choosePeer (hpins : s.PinsKnown) (keyPrefix pick : Nat) :
    ∃ choice, s.choosePeer keyPrefix pick = .ok choice ∧ ∀ p, choice = some p → p ∈ s.peers := by
  unfold choosePeer
  split
  · next p hp =>
    refine ⟨some p, rfl, ?_⟩
    rintro _ ⟨⟩
    exact hpins _ _ hp
  split
  · exact ⟨none, rfl, by simp⟩
  · next hpeers =>
    generalize hcandidates : (s.peers.pairs.filter fun e =>
      s.peers.pairs.all fun e' => e.2.lastTimeout ≤ e'.2.lastTimeout) = candidates
    -- the peer that has not timed out for the longest time is a candidate
    have hne : candidates ≠ [] := by
      cases hmin : s.peers.pairs.argmin fun e => e.2.lastTimeout with
      | none =>
        rw [argmin_eq_none] at hmin
        simp [← map_fst_pairs, hmin] at hpeers
      | some e =>
        refine ne_nil_of_mem (a := e) ?_
        rw [← hcandidates, mem_filter]
        refine ⟨argmin_mem hmin, ?_⟩
        simpa using fun a b hab => le_of_mem_argmin hab hmin
    have hlt : pick % candidates.length < candidates.length :=
      Nat.mod_lt _ (length_pos_iff.mpr hne)
    refine ⟨some candidates[pick % candidates.length].1, ?_, ?_⟩
    · simp [getElem?_eq_getElem hlt]
    · rintro _ ⟨⟩
      have hsub : ∀ e ∈ candidates, e ∈ s.peers.pairs := by
        rw [← hcandidates]
        exact fun e => mem_of_mem_filter
      have hmem := hsub _ (getElem_mem hlt)
      exact mem_iff_lookup.mpr ⟨_, mem_pairs.mp hmem⟩

lemma exists_insertRequest (hpins : s.PinsKnown) (toSend : StateSyncRequest) (now pick : Nat) :
    ∃ r, s.insertRequest toSend now pick = .ok r := by
  obtain ⟨choice, hchoice, hmem⟩ := exists_choosePeer hpins toSend.keyPrefix pick
  unfold insertRequest
  rw [hchoice]
  cases choice with
  | none => exact ⟨_, rfl⟩
  | some p =>
    obtain ⟨info, hinfo⟩ := mem_iff_lookup.mp (hmem p rfl)
    simp only [ok_bind, hinfo, unwrap_some]
    exact ⟨_, rfl⟩

lemma exists_poll (hpins : s.PinsKnown) (now pick : Nat) : ∃ r, s.poll now pick = .ok r := by
  have htimeout : ∃ r, poll.pollTimeout s now pick = .ok r := by
    unfold poll.pollTimeout
    split
    · exact ⟨_, rfl⟩
    split
    · exact ⟨_, rfl⟩
    · apply exists_insertRequest
      intro k p hp
      exact mem_modify.mpr (hpins k p hp)
  unfold poll
  split
  · split
    · apply exists_insertRequest
      exact hpins
    · exact htimeout
  · exact htimeout

/-! ## Where the requests are -/

def tracked (s : OutboundRequests P) : List StateSyncRequest :=
  s.pendingRequests.keys ++ s.inFlightRequests.keys

/-- Up to their versions. -/
def bodies (s : OutboundRequests P) : List StateSyncRequest := s.tracked.map body

section

omit [DecidableEq P]

lemma notMem_of_body_notMem (h : r.body ∉ s.bodies) :
    r ∉ s.pendingRequests ∧ r ∉ s.inFlightRequests := by
  constructor
  · intro hr
    exact h (mem_map_of_mem (mem_append_left _ (mem_keys.mp hr)))
  · intro hr
    exact h (mem_map_of_mem (mem_append_right _ (mem_keys.mp hr)))

lemma bodies_insert_pending (h : r.body ∉ s.bodies) :
    { s with pendingRequests := s.pendingRequests.insert r () }.bodies = r.body :: s.bodies := by
  simp only [bodies, tracked, keys_insert_of_notMem (notMem_of_body_notMem h).1,
    cons_append, map_cons]

lemma bodies_insert_inFlight (h : r.body ∉ s.bodies) (f : InFlightRequest P) :
    { s with inFlightRequests := s.inFlightRequests.insert r f }.bodies.Perm
      (r.body :: s.bodies) := by
  simp only [bodies, tracked, keys_insert_of_notMem (notMem_of_body_notMem h).2]
  exact perm_middle.map _

lemma bodies_erase_pending (h : r ∈ s.pendingRequests) : s.bodies.Perm
      (r.body :: { s with pendingRequests := s.pendingRequests.erase r }.bodies) :=
  ((keys_perm_cons_erase h).append_right _).map _

lemma bodies_erase_inFlight (h : r ∈ s.inFlightRequests) : s.bodies.Perm
      (r.body :: { s with inFlightRequests := s.inFlightRequests.erase r }.bodies) :=
  (((keys_perm_cons_erase h).append_left _).trans perm_middle).map _

end

variable {s' : OutboundRequests P}

lemma insertRequest_bodies {toSend : StateSyncRequest}
    (h : s.insertRequest toSend now pick = .ok (s', result))
    (hnew : toSend.body ∉ s.bodies) : s'.bodies.Perm (toSend.body :: s.bodies) := by
  rcases insertRequest_cases h with ⟨-, -, rfl⟩ | ⟨peer, info, -, -, rfl⟩
  · exact .of_eq (bodies_insert_pending hnew)
  · exact bodies_insert_inFlight (r := { toSend with version := info.version }) hnew _

lemma poll_bodies (h : s.poll now pick = .ok (s', result)) (hnodup : s.bodies.Nodup) :
    s'.bodies.Perm s.bodies := by
  rcases poll_cases h with ⟨rfl, -⟩ | ⟨toSend, hfirst, -, hinsert⟩ | ⟨request, f, hf, hinsert⟩
  · exact .refl _
  · have hperm := bodies_erase_pending (FiniteSet.mem_of_first hfirst)
    rw [hperm.nodup_iff, nodup_cons] at hnodup
    exact (insertRequest_bodies hinsert hnodup.1).trans hperm.symm
  · have hperm := bodies_erase_inFlight (mem_iff_lookup.mpr ⟨f, hf⟩)
    rw [hperm.nodup_iff, nodup_cons] at hnodup
    exact (insertRequest_bodies hinsert hnodup.1).trans hperm.symm

omit [DecidableEq P] in
/-- Requests that are to be retried go from one place to the other. -/
lemma retry_spec (p : StateSyncRequest → InFlightRequest P → Bool) (hnodup : s.bodies.Nodup) :
    (s.retry p).bodies.Perm s.bodies ∧ (s.retry p).peers = s.peers ∧
      (s.retry p).prefixPeers = s.prefixPeers ∧
      (s.retry p).maxParallelRequests = s.maxParallelRequests ∧
      (s.retry p).inFlightRequests.keys.length ≤ s.inFlightRequests.keys.length := by
  have hrequests : ((s.inFlightRequests.pairs.filter fun e => p e.1 e.2).map Prod.fst).Nodup ∧
      ∀ r ∈ (s.inFlightRequests.pairs.filter fun e => p e.1 e.2).map Prod.fst,
        r ∈ s.inFlightRequests := by
    have hsub := (filter_sublist (p := fun e => p e.1 e.2)
      (l := s.inFlightRequests.pairs)).map Prod.fst
    rw [map_fst_pairs] at hsub
    exact ⟨hsub.nodup s.inFlightRequests.keys_nodup, fun r hr =>
      mem_keys.mpr (hsub.subset hr)⟩
  unfold retry
  revert hrequests
  generalize (s.inFlightRequests.pairs.filter fun e => p e.1 e.2).map Prod.fst = requests
  induction requests generalizing s with
  | nil => simp
  | cons r requests ih =>
    rintro ⟨hdistinct, hmem⟩
    rw [nodup_cons] at hdistinct
    have herase := bodies_erase_inFlight (hmem r mem_cons_self)
    rw [herase.nodup_iff, nodup_cons] at hnodup
    -- after one request has moved
    have hmove : { s with
        inFlightRequests := s.inFlightRequests.erase r
        pendingRequests := s.pendingRequests.insert r () }.bodies.Perm s.bodies :=
      (Perm.of_eq (bodies_insert_pending
        (s := { s with inFlightRequests := s.inFlightRequests.erase r }) hnodup.1)).trans herase.symm
    obtain ⟨hperm, hrest⟩ := ih (s := { s with
        inFlightRequests := s.inFlightRequests.erase r
        pendingRequests := s.pendingRequests.insert r () })
      (hmove.nodup_iff.mpr (herase.nodup_iff.mpr (nodup_cons.mpr hnodup)))
      ⟨hdistinct.2, fun r' hr' => mem_erase.mpr
        ⟨fun h => hdistinct.1 (h ▸ hr'), hmem r' (mem_cons_of_mem _ hr')⟩⟩
    refine ⟨hperm.trans hmove, hrest.1, hrest.2.1, hrest.2.2.1, hrest.2.2.2.trans ?_⟩
    exact length_keys_erase_le _ _

omit [DecidableEq P] in
lemma mem_foldl_insert {peers : FiniteMap P PeerInfo} [DecidableEq P] {p : P} (h : p ∈ peers)
    (newPeers : List P) : p ∈ newPeers.foldl (fun peers peer => peers.insert peer {}) peers := by
  induction newPeers generalizing peers with
  | nil => exact h
  | cons q newPeers ih => exact ih ((mem_insert _).mpr (.inr h))

end OutboundRequests

/-! ## Runs -/

def Event.queued? : Event P → Option StateSyncRequest
  | .queueRequest request => some request
  | _ => none

def queued (history : List (Event P × Answer P)) : List StateSyncRequest :=
  history.filterMap fun e => e.1.queued?.map body

def Completed (body : StateSyncRequest) (history : List (Event P × Answer P)) : Prop :=
  ∃ e request responses, (e, Answer.handedOn request responses) ∈ history ∧
    request.body = body ∧ ∃ x ∈ responses, x.responseN ≠ 0

/-- Requests are distinct, and of one target. -/
def OneTarget (history : List (Event P × Answer P)) (e : Event P) : Prop :=
  ∀ request ∈ e.queued?,
    request.body ∉ queued history ∧ ∀ q ∈ queued history, q.target = request.target

instance (history : List (Event P × Answer P)) (e : Event P) : Decidable (OneTarget history e) :=
  inferInstanceAs (Decidable (∀ request ∈ e.queued?, _))

/-- The peer that an event takes off the list of peers. -/
def Event.removes : Event P → Option P
  | .badVersion sender v =>
    if v.maxVersion < stateSyncVersionMin ∨ selfStateSyncVersion < v.minVersion then some sender
    else none
  | .notWhitelisted sender => some sender
  | _ => none

/-- Requests are distinct and of one target, and no peer is removed to which a prefix is
pinned. -/
def Orderly (history : List (Event P × Answer P)) (s : OutboundRequests P) (e : Event P) : Prop :=
  OneTarget history e ∧ ∀ p ∈ e.removes, p ∉ s.prefixPeers.pairs.map Prod.snd

instance (history : List (Event P × Answer P)) (s : OutboundRequests P) (e : Event P) :
    Decidable (Orderly history s e) :=
  inferInstanceAs (Decidable (_ ∧ _))

variable {e : Event P} {history : List (Event P × Answer P)} {s s' : OutboundRequests P}
  {sender : P} {maxParallel : Nat} {o : Answer P}

section

omit [DecidableEq P]

lemma Orderly.removes_ne {p : P} {k : Nat} (h : Orderly history s e)
    (hremoves : e.removes = some sender) (hp : s.prefixPeers.lookup k = some p) : sender ≠ p := by
  rintro rfl
  exact h.2 sender hremoves (mem_map.mpr ⟨(k, sender), mem_pairs.mpr hp, rfl⟩)

/-- The invariant of runs. -/
structure Tracked (maxParallel : Nat) (history : List (Event P × Answer P))
    (s : OutboundRequests P) : Prop where
  pins : s.PinsKnown
  maximum : s.maxParallelRequests = maxParallel
  room : s.inFlightRequests.keys.length ≤ maxParallel
  distinct : (queued history).Nodup
  /-- a request that was queued is somewhere or completed -/
  places : ∃ done, (queued history).Perm (s.bodies ++ done) ∧ ∀ b ∈ done, Completed b history

lemma Completed.snoc {body : StateSyncRequest} (h : Completed body history)
    (e : Event P × Answer P) : Completed body (history ++ [e]) := by
  obtain ⟨e', request, responses, hmem, hrest⟩ := h
  exact ⟨e', request, responses, mem_append_left _ hmem, hrest⟩

lemma queued_snoc (hnone : e.queued? = none) (o : Answer P) :
    queued (history ++ [(e, o)]) = queued history := by
  simp [queued, hnone]

lemma Tracked.nodup (h : Tracked maxParallel history s) : s.bodies.Nodup := by
  obtain ⟨done, hperm, -⟩ := h.places
  exact (nodup_append.mp (hperm.nodup_iff.mp h.distinct)).1

/-- Nothing was queued, and the requests have only changed places. -/
lemma Tracked.move (h : Tracked maxParallel history s) (hnone : e.queued? = none)
    (hpins : s'.PinsKnown) (hmax : s'.maxParallelRequests = s.maxParallelRequests)
    (hroom : s'.inFlightRequests.keys.length ≤ maxParallel) (hperm : s'.bodies.Perm s.bodies) :
    Tracked maxParallel (history ++ [(e, o)]) s' where
  pins := hpins
  maximum := hmax.trans h.maximum
  room := hroom
  distinct := by rw [queued_snoc hnone]; exact h.distinct
  places := by
    obtain ⟨done, hplaces, hdone⟩ := h.places
    rw [queued_snoc hnone]
    exact ⟨done, hplaces.trans (hperm.symm.append_right done), fun b hb => (hdone b hb).snoc _⟩

end

lemma Tracked.response {response : StateSyncResponse} {out : List StateSyncResponse}
    (h : Tracked maxParallel history s) (hsender : sender ∈ s.peers)
    (hs : s.handleResponse sender response now = .ok (s', out)) :
    Tracked maxParallel
      (history ++ [(.response sender response now, .handedOn response.request out)]) s' := by
  have hpins : PinsKnown { s with
      prefixPeers := s.prefixPeers.insert response.request.keyPrefix sender } := by
    exact forall_insert h.pins hsender
  rcases handleResponse_cases hs with ⟨rfl, rfl | rfl⟩ | ⟨f, f', hf, -, rfl⟩
  · exact h.move rfl h.pins rfl h.room (.refl _)
  · exact h.move rfl hpins rfl h.room (.refl _)
  · have hmem := mem_iff_lookup.mpr ⟨f, hf⟩
    by_cases hlast : out.getLast?.any (fun last => last.responseN != 0) = true
    · -- the last response: the request is done
      simp only [hlast, if_true]
      obtain ⟨x, hx, hn⟩ := Option.any_eq_true _ _ |>.mp hlast
      obtain ⟨done, hplaces, hdone⟩ := h.places
      refine ⟨hpins, h.maximum, (length_keys_erase_le _ _).trans h.room, ?_,
        response.request.body :: done, ?_, ?_⟩
      · rw [queued_snoc rfl]
        exact h.distinct
      · have hperm := hplaces.trans ((bodies_erase_inFlight hmem).append_right done)
        rw [queued_snoc rfl]
        exact hperm.trans perm_middle.symm
      · rintro b (_ | ⟨_, hb⟩)
        · exact ⟨_, _, out, mem_append_right _ mem_cons_self, rfl, x,
            mem_of_mem_getLast? hx, by simpa using hn⟩
        · exact (hdone b hb).snoc _
    · simp only [hlast]
      have hkeys := keys_insert_perm hmem f'
      refine h.move rfl hpins rfl ?_ ?_
      · exact hkeys.length_eq ▸ h.room
      · exact (hkeys.append_left _).map _

lemma Tracked.poll (h : Tracked maxParallel history s) (hs : s.poll now pick = .ok (s', result)) :
    Tracked maxParallel (history ++ [(.poll now pick, .polled result)]) s' := by
  have hperm := poll_bodies hs h.nodup
  rcases poll_cases hs with
    ⟨rfl, -⟩ | ⟨toSend, -, hroom, hinsert⟩ | ⟨request, f, hf, hinsert⟩
  · exact h.move rfl h.pins rfl h.room hperm
  · rcases insertRequest_cases hinsert with ⟨-, -, rfl⟩ | ⟨peer, info, -, -, rfl⟩
    · exact h.move rfl h.pins rfl h.room hperm
    · refine h.move rfl h.pins rfl ?_ hperm
      rw [h.maximum] at hroom
      rw [keys_insert]
      have hle := length_erase_le (l := s.inFlightRequests.keys)
        (a := { toSend with version := info.version })
      simp only [length_cons]
      omega
  · have hpins : ∀ k p, s.prefixPeers.lookup k = some p →
        p ∈ s.peers.modify f.peer fun info => { info with lastTimeout := now } :=
      fun k p hp => mem_modify.mpr (h.pins k p hp)
    have hlength := (keys_perm_cons_erase (mem_iff_lookup.mpr ⟨f, hf⟩)).length_eq
    rw [length_cons] at hlength
    have hroom := h.room
    rcases insertRequest_cases hinsert with ⟨-, -, rfl⟩ | ⟨peer, info, -, -, rfl⟩
    · refine h.move rfl hpins rfl ?_ hperm
      dsimp only
      omega
    · refine h.move rfl hpins rfl ?_ hperm
      rw [keys_insert]
      have hle := length_erase_le (l := (s.inFlightRequests.erase request).keys)
        (a := { request with version := info.version })
      simp only [length_cons]
      omega

omit [DecidableEq P] in
/-- A notice of a peer: some requests are pending again, and the peer may be gone. -/
lemma Tracked.notice {t : OutboundRequests P} (h : Tracked maxParallel history s)
    (hnone : e.queued? = none) (p : StateSyncRequest → InFlightRequest P → Bool)
    (ht : t.pendingRequests = s.pendingRequests ∧ t.inFlightRequests = s.inFlightRequests ∧
      t.maxParallelRequests = s.maxParallelRequests) (hpins : t.PinsKnown) :
    Tracked maxParallel (history ++ [(e, o)]) (t.retry p) := by
  have hbodies : t.bodies = s.bodies := by
    simp [bodies, tracked, ht]
  obtain ⟨hperm, hpeers, hsamePrefixes, hmax, hlength⟩ :=
    retry_spec (s := t) p (hbodies ▸ h.nodup)
  refine h.move hnone ?_ (hmax.trans ht.2.2) (hlength.trans (ht.2.1 ▸ h.room))
    (hperm.trans (.of_eq hbodies))
  intro k q hq
  rw [hpeers]
  exact hpins k q (hsamePrefixes ▸ hq)

lemma pinsKnown_prune (h : s.PinsKnown)
    (hfree : ∀ k p, s.prefixPeers.lookup k = some p → sender ≠ p) : (s.prune sender).PinsKnown := by
  intro k p hp
  exact mem_erase.mpr ⟨fun heq => hfree k p hp heq.symm, h k p hp⟩

lemma Tracked.step (h : Tracked maxParallel history s)
    (horderly : Orderly history s e) (hs : step s e = .ok (s', o)) :
    Tracked maxParallel (history ++ [(e, o)]) s' := by
  cases e with
  | queueRequest request =>
    simp only [StateSync.step, queueRequest, bind_eq_ok] at hs
    obtain ⟨t, ⟨-, -, ht⟩, hpure⟩ := hs
    cases ht
    cases hpure
    obtain ⟨hnew, -⟩ := horderly.1 request rfl
    obtain ⟨done, hplaces, hdone⟩ := h.places
    have hqueued : queued (history ++ [(.queueRequest request, .nothing)]) =
        queued history ++ [request.body] := by simp [queued, Event.queued?]
    have hbody : request.body ∉ s.bodies := fun hmem =>
      hnew (hplaces.mem_iff.mpr (mem_append_left _ hmem))
    refine ⟨h.pins, h.maximum, h.room, ?_, done, ?_, fun b hb => (hdone b hb).snoc _⟩
    · rw [hqueued]
      exact nodup_append.mpr ⟨h.distinct, nodup_singleton _, by
        rintro a ha b hb rfl
        exact hnew (mem_singleton.mp hb ▸ ha)⟩
    · rw [hqueued, bodies_insert_pending hbody, cons_append]
      exact (perm_append_singleton _ _).trans (hplaces.cons _)
  | response sender response now =>
    simp only [StateSync.step] at hs
    split at hs
    · next htrusted =>
      simp only [bind_eq_ok] at hs
      obtain ⟨r, hr, hpure⟩ := hs
      cases hpure
      apply h.response ?_ hr
      have hsome : (s.peers.lookup sender).isSome = true :=
        (Bool.and_eq_true_iff.mp htrusted).1
      exact lookup_isSome.mp hsome
    · cases hs
      exact h.move rfl h.pins rfl h.room (.refl _)
  | badVersion sender badVersion =>
    cases hs
    split
    · unfold handleBadVersion
      refine h.notice rfl _ ?_ ?_
      · split <;> exact ⟨rfl, rfl, rfl⟩
      · split
        · next hremoved =>
          apply pinsKnown_prune h.pins
          intro k p hp
          exact horderly.removes_ne (by simp [Event.removes, hremoved]) hp
        · intro k p hp
          exact (mem_insert _).mpr (.inr (h.pins k p hp))
    · exact h.move rfl h.pins rfl h.room (.refl _)
  | notWhitelisted sender =>
    cases hs
    split
    · exact h.notice (t := s.prune sender) rfl _ ⟨rfl, rfl, rfl⟩
        (pinsKnown_prune h.pins fun k p hp => horderly.removes_ne rfl hp)
    · exact h.move rfl h.pins rfl h.room (.refl _)
  | expandUpstreamPeers newPeers =>
    cases hs
    refine h.move rfl ?_ rfl h.room (.refl _)
    intro k p hp
    exact mem_foldl_insert (h.pins k p hp) _
  | clearPrefixPeers =>
    cases hs
    refine h.move rfl ?_ rfl h.room (.refl _)
    intro k p hp
    simp [clearPrefixPeers] at hp
  | poll now pick =>
    simp only [StateSync.step, bind_eq_ok] at hs
    obtain ⟨r, hr, hpure⟩ := hs
    cases hpure
    exact h.poll hr

lemma Tracked.returns (h : Tracked maxParallel history s) (htarget : OneTarget history e) :
    ReturnsOrOverflows (StateSync.step s e) := by
  cases e with
  | queueRequest request =>
    have hcurrent : (s.pendingRequests.first.or
        (s.inFlightRequests.sortedPairs.head?.map Prod.fst)).all
          (fun current => current.target = request.target) = true := by
      rw [Option.all_eq_true]
      intro current hcurrent
      have hmem : current ∈ s.tracked := by
        rcases Option.or_eq_some_iff.mp hcurrent with hfirst | ⟨-, hfirst⟩
        · exact mem_append_left _ (mem_keys.mp (FiniteSet.mem_of_first hfirst))
        · obtain ⟨⟨r, f⟩, hhead, rfl⟩ := Option.map_eq_some_iff.mp hfirst
          have hlookup := mem_sortedPairs.mp (mem_of_head? hhead)
          exact mem_append_right _ (mem_keys.mp (mem_iff_lookup.mpr ⟨f, hlookup⟩))
      obtain ⟨done, hplaces, -⟩ := h.places
      have hqueued := hplaces.mem_iff.mpr (mem_append_left _ (mem_map_of_mem (f := body) hmem))
      simpa [body] using (htarget request rfl).2 _ hqueued
    simp only [StateSync.step, queueRequest, hcurrent, require_true, ok_bind]
    exact returnsOrOverflows_ok _
  | response sender response now =>
    simp only [StateSync.step]
    split
    · exact (returnsOrOverflows_handleResponse s _ _ _).bind fun _ =>
        returnsOrOverflows_ok _
    · exact returnsOrOverflows_ok _
  | badVersion | notWhitelisted | expandUpstreamPeers | clearPrefixPeers =>
    exact returnsOrOverflows_ok _
  | poll now pick =>
    obtain ⟨r, hr⟩ := exists_poll h.pins now pick
    simp only [StateSync.step, hr]
    exact returnsOrOverflows_ok _

lemma tracked_of_run {timeout : Nat} {initPeers : List P}
    (hrun : Run step Orderly (start maxParallel timeout initPeers) history s) :
    Tracked maxParallel history s := by
  apply hrun.invariant
  · refine ⟨?_, rfl, by simp [start], by simp [queued], [], ?_, by simp⟩
    · intro k p hp
      simp [start] at hp
    · simp [queued, bodies, tracked, start]
  · intro history s e s' o ih horderly hs
    exact ih.step horderly hs

/-- **The client neither stops nor loses a request.**  If requests are distinct and of one
target and no peer with a pinned prefix is removed, then no `expect` and no `assert` fails, no
more than the maximal number of requests are in flight, and a request that was queued and whose
last response was not handed on is either pending or in flight. -/
theorem requests_tracked {maxParallel timeout : Nat} {initPeers : List P}
    {history : List (Event P × Answer P)} {s : OutboundRequests P}
    (hrun : Run step Orderly (start maxParallel timeout initPeers) history s) :
    (∀ e, OneTarget history e → ∀ fault, step s e = .error fault → fault = .overflow) ∧
      s.inFlightRequests.keys.length ≤ maxParallel ∧
      ∀ b ∈ queued history, ¬ Completed b history →
        Xor (b ∈ s.pendingRequests.keys.map body) (b ∈ s.inFlightRequests.keys.map body) := by
  have h := tracked_of_run hrun
  refine ⟨fun e htarget => h.returns htarget, h.room, ?_⟩
  intro b hb hopen
  obtain ⟨done, hplaces, hdone⟩ := h.places
  have hsplit : s.bodies = s.pendingRequests.keys.map body ++
      s.inFlightRequests.keys.map body := map_append
  have hdisjoint := disjoint_of_nodup_append (hsplit ▸ h.nodup)
  rcases mem_append.mp (hplaces.mem_iff.mp hb) with hmem | hmem
  · rcases mem_append.mp (hsplit ▸ hmem) with hpending | hinFlight
    · exact .inl ⟨hpending, fun hinFlight => hdisjoint hpending hinFlight⟩
    · exact .inr ⟨hinFlight, fun hpending => hdisjoint hpending hinFlight⟩
  · exact absurd (hdone b hmem) hopen

/-- The answer hands on a last response. -/
def handsOnLast : Answer P → Bool
  | .handedOn _ responses => responses.any (·.responseN != 0)
  | _ => false

/-- Two requests and a removal of a peer without a pin: one request is in flight and the other
one is pending. -/
theorem requests_tracked_two : ∃ history s, Run step Orderly (start 1 5 [0, 1]) history s ∧
      s.pendingRequests.keys.length = 1 ∧ s.inFlightRequests.keys.length = 1 ∧
      (queued history).length = 2 ∧ ∀ b ∈ queued history,
        Xor (b ∈ s.pendingRequests.keys.map body) (b ∈ s.inFlightRequests.keys.map body) := by
  obtain ⟨history, s, hrun, hpending, hinFlight, hlength, hopen⟩ := Run.exists_of_replay step Orderly
    (start 1 5 [0, 1])
    [.queueRequest sampleRequest, .poll 0 0, .response 0 (sampleChunk 7 0 0) 0,
      .queueRequest { sampleRequest with keyPrefix := 1 }, .notWhitelisted 1, .poll 9 0]
    (P := fun history s => s.pendingRequests.keys.length = 1 ∧ s.inFlightRequests.keys.length = 1 ∧
      (queued history).length = 2 ∧ ∀ e ∈ history, handsOnLast e.2 = false)
    (by decide +kernel)
  refine ⟨history, s, hrun, hpending, hinFlight, hlength, fun b hb =>
    (requests_tracked hrun).2.2 b hb ?_⟩
  rintro ⟨e, request, responses, hmem, -, x, hx, hlast⟩
  have hnone := hopen _ hmem
  simp only [handsOnLast, any_eq_false, bne_iff_ne] at hnone
  exact hnone x hx hlast

/-- **A pin outlives its peer.**  A chunk pins the prefix to peer 0, who then refuses to serve:
the request is pending again, but its prefix still belongs to the peer that is gone. -/
theorem poll_stops_at_stale_pin : ∃ history s, Run step (fun history _ => OneTarget history)
      (start 1 5 [0, 1]) history s ∧
      step s (.poll 9 0) = .error .unwrapNone := by
  obtain ⟨history, s, hrun, hstops⟩ := Run.exists_of_replay step
    (fun history _ => OneTarget history) (start 1 5 [0, 1])
    [.queueRequest sampleRequest, .poll 0 0, .response 0 (sampleChunk 7 0 0) 0, .notWhitelisted 0]
    (P := fun _ s => (step s (.poll 9 0)).fault? = some .unwrapNone) (by decide +kernel)
  exact ⟨history, s, hrun, fault?_eq_some.mp hstops⟩

end Kinet.StateSync
