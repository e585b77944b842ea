import Kinet.StateSync.Outbound

/-!
# Chunks are handed on in order

Since a request was sent, the chunks that were handed on for it have the indices 0, 1, 2, …
That they come from one response holds as long as the out-of-order buffer pins its nonce: after
a first chunk was handed on, a chunk of another response must meet a chunk in the buffer, and
the buffer must not be given up for it.

Main results:

- `chunks_in_order`: the chunks handed on for a request are whole and unmixed.
- `chunks_of_two_responses`: two responses can be spliced where nothing is buffered.
-/

namespace Kinet.StateSync

open FiniteMap Checked OutboundRequests List

variable {P : Type}

/-! ## One request in flight -/

namespace InFlightRequest

def Buffered (f : InFlightRequest P) (x : StateSyncResponse) : Prop :=
  ∃ k, f.responses.lookup k = some x

/-- `log` has been handed on for the request: its indices count up to the expected one. -/
structure InOrder (log : List StateSyncResponse) (f : InFlightRequest P) : Prop where
  indices : log.map (·.responseIndex) = List.range log.length
  expected : f.responseIndex = log.length
  keyed : ∀ k x, f.responses.lookup k = some x → x.responseIndex = k

variable {f f' : InFlightRequest P} {log out : List StateSyncResponse} {now : Nat}
  {x : StateSyncResponse}

/-- One more chunk, with the expected index. -/
lemma InOrder.snoc (h : InOrder log f)
    (hx : x.responseIndex = f.responseIndex) {responses : FiniteMap Nat StateSyncResponse}
    (hkeyed : ∀ k x, responses.lookup k = some x → x.responseIndex = k) :
    InOrder (log ++ [x]) { f with responses := responses, responseIndex := f.responseIndex + 1 } where
  indices := by simp [h.indices, hx, h.expected, range_succ]
  expected := by simp [h.expected]
  keyed := hkeyed

lemma add_eq_ok {i j : Nat} (h : add 32 i 1 = .ok j) : j = i + 1 := by
  simp only [add, fits] at h
  split at h
  · exact (Except.ok.inj h).symm
  · cases h

lemma takeConsecutive_spec {rounds : Nat} (h : takeConsecutive rounds f = .ok (f', out))
    (hf : InOrder log f) :
    InOrder (log ++ out) f' ∧ ∀ x, x ∈ out ∨ Buffered f' x → Buffered f x := by
  induction rounds generalizing f log out with
  | zero =>
    cases h
    simpa using hf
  | succ rounds ih =>
    rw [takeConsecutive] at h
    cases hnext : f.responses.lookup f.responseIndex with
    | none =>
      simp only [hnext] at h
      cases h
      simpa using hf
    | some x =>
      simp only [hnext, bind_eq_ok] at h
      obtain ⟨i, hi, r, hr, hpure⟩ := h
      cases hpure
      rw [add_eq_ok hi] at hr
      have hkeyed : ∀ k y, (f.responses.erase f.responseIndex).lookup k = some y →
          y.responseIndex = k :=
        fun k y hy => hf.keyed k y (lookup_of_lookup_erase hy)
      have hsnoc := hf.snoc (hf.keyed _ _ hnext) hkeyed
      obtain ⟨horder, hfrom⟩ := ih hr hsnoc
      constructor
      · simpa using horder
      · intro y hy
        rw [mem_cons, or_assoc] at hy
        rcases hy with rfl | hy
        · exact ⟨_, hnext⟩
        · rcases hfrom y hy with ⟨k, hk⟩
          exact ⟨k, lookup_of_lookup_erase hk⟩

variable {response : StateSyncResponse}

lemma accept_spec (h : accept f response now = .ok (f', out)) (hf : InOrder log f) :
    InOrder (log ++ out) f' ∧ ∀ x, x ∈ out ∨ Buffered f' x → x = response ∨ Buffered f x := by
  have hlater : InOrder log { f with lastActive := now } := ⟨hf.indices, hf.expected, hf.keyed⟩
  unfold accept at h
  dsimp only at h
  split at h
  · cases h
    simp only [append_nil, not_mem_nil, false_or]
    exact ⟨hlater, fun _ => .inr⟩
  split at h
  · next heq =>
    simp only [bind_eq_ok] at h
    obtain ⟨i, hi, r, hr, hpure⟩ := h
    cases hpure
    rw [add_eq_ok hi] at hr
    obtain ⟨horder, hfrom⟩ := takeConsecutive_spec hr (hlater.snoc heq hlater.keyed)
    constructor
    · simpa using horder
    · intro x hx
      rw [mem_cons, or_assoc] at hx
      exact hx.imp id (hfrom x)
  split at h
  · cases h
    simp only [append_nil, not_mem_nil, false_or]
    exact ⟨hlater, fun _ => .inr⟩
  · cases h
    simp only [append_nil, not_mem_nil, false_or]
    refine ⟨⟨hf.indices, hf.expected, ?_⟩, ?_⟩
    · exact forall_insert hf.keyed rfl
    · rintro x ⟨k, hk⟩
      exact forall_insert (P := fun _ y => y = _ ∨ f.Buffered y) (fun k y hy => .inr ⟨k, hy⟩)
        (.inl rfl) k x hk

lemma firstBuffered_eq_none (h : f.firstBuffered = none) (x : StateSyncResponse) :
    ¬ Buffered f x := by
  rintro ⟨k, hk⟩
  have hempty : f.responses.sortedPairs = [] := by simpa [firstBuffered] using h
  have hmem := mem_sortedPairs.mpr hk
  simp [hempty] at hmem

lemma buffered_of_firstBuffered (h : f.firstBuffered = some x) :
    Buffered f x := by
  obtain ⟨⟨k, y⟩, hhead, rfl⟩ := Option.map_eq_some_iff.mp h
  exact ⟨k, mem_sortedPairs.mp (mem_of_head? hhead)⟩

/-- What happens to a chunk: it is dropped, or accepted along with a buffer of its own nonce, or
accepted after the buffer was given up for it. -/
lemma applyResponse_cases (h : applyResponse f response now = .ok (f', out)) :
    ∃ seen, (f' = { f with seenNonces := seen } ∧ out = []) ∨
      (accept { f with seenNonces := seen } response now = .ok (f', out) ∧
        ∀ x, f.firstBuffered = some x → x.nonce = response.nonce) ∨
      (accept { f with seenNonces := seen, responses := ∅ } response now = .ok (f', out) ∧
        (∃ x, f.firstBuffered = some x ∧ x.nonce ≠ response.nonce) ∧
        stateSyncChunkedResponseTimeout < now - f.lastActive ∧
        (f.seenNonces.lookup response.nonce).getD 0 = 0) := by
  refine ⟨f.seenNonces.insert response.nonce ((f.seenNonces.lookup response.nonce).getD 0 + 1), ?_⟩
  unfold applyResponse at h
  dsimp only at h
  split at h
  · next hany =>
    split at h
    · next hstale =>
      right; right
      refine ⟨h, ?_, hstale.1, by omega⟩
      simpa [Option.any_eq_true, firstBuffered] using hany
    · cases h
      exact .inl ⟨rfl, rfl⟩
  · next hany =>
    right; left
    refine ⟨h, ?_⟩
    intro x hx
    by_contra hne
    refine hany ?_
    change f.firstBuffered.any _ = true
    rw [hx]
    simpa using hne

lemma applyResponse_inOrder
    (h : applyResponse f response now = .ok (f', out)) (hf : InOrder log f) :
    InOrder (log ++ out) f' := by
  rcases applyResponse_cases h with ⟨seen, ⟨rfl, rfl⟩ | ⟨haccept, -⟩ | ⟨haccept, -⟩⟩
  · rw [append_nil]
    exact ⟨hf.indices, hf.expected, hf.keyed⟩
  · exact (accept_spec haccept ⟨hf.indices, hf.expected, hf.keyed⟩).1
  · exact (accept_spec haccept ⟨hf.indices, hf.expected, by simp⟩).1

/-- The chunks that were handed on or wait have the nonce `n`. -/
def OneNonce (n : Nat) (log : List StateSyncResponse) (f : InFlightRequest P) : Prop :=
  ∀ x, x ∈ log ∨ Buffered f x → x.nonce = n

/-- The buffer pins the nonce against a chunk: something waits in it, and it is not given up. -/
def Pins (f : InFlightRequest P) (response : StateSyncResponse) (now : Nat) : Prop :=
  f.responses ≠ ∅ ∧ (now - f.lastActive ≤ stateSyncChunkedResponseTimeout ∨
    (f.seenNonces.lookup response.nonce).getD 0 ≠ 0)

lemma applyResponse_oneNonce {n : Nat}
    (h : applyResponse f response now = .ok (f', out)) (hf : InOrder log f)
    (hone : OneNonce n log f) (hpins : ∀ x ∈ log, x.nonce ≠ response.nonce → Pins f response now) :
    ∃ n, OneNonce n (log ++ out) f' := by
  -- a nonce of what was there and of the chunk is the nonce of all there is afterwards
  have haccept : ∀ {g : InFlightRequest P} {m : Nat}, accept g response now = .ok (f', out) →
      InOrder log g → OneNonce m log g → response.nonce = m → OneNonce m (log ++ out) f' := by
    intro g m hg horder hm hresponse x hx
    rw [mem_append, or_assoc] at hx
    rcases hx with hx | hx
    · exact hm x (.inl hx)
    · rcases (accept_spec hg horder).2 x hx with rfl | hx
      · exact hresponse
      · exact hm x (.inr hx)
  -- the chunks of another nonce have been handed on only where the buffer pins it
  have hlog : (∀ x ∈ log, x.nonce = response.nonce) ∨ Pins f response now := by
    by_cases hall : ∀ x ∈ log, x.nonce = response.nonce
    · exact .inl hall
    · push Not at hall
      obtain ⟨x, hx, hne⟩ := hall
      exact .inr (hpins x hx hne)
  obtain ⟨seen, ⟨rfl, rfl⟩ | ⟨hg, hfirst⟩ | ⟨hg, ⟨x, hx, hne⟩, hstale, hunseen⟩⟩ :=
    applyResponse_cases h
  · rw [append_nil]
    exact ⟨n, hone⟩
  · refine ⟨response.nonce, haccept hg ⟨hf.indices, hf.expected, hf.keyed⟩ ?_ rfl⟩
    cases hbuf : f.firstBuffered with
    | some y =>
      -- what waits has the nonce of the chunk, and so has all the rest
      have hn : n = response.nonce :=
        (hone y (.inr (buffered_of_firstBuffered hbuf))).symm.trans (hfirst y hbuf)
      exact hn ▸ hone
    | none =>
      have hnone := firstBuffered_eq_none hbuf
      rintro y (hy | hy)
      · rcases hlog with hall | ⟨hne, -⟩
        · exact hall y hy
        · refine absurd ?_ hne
          apply AList.ext
          have hsorted : f.responses.sortedPairs = [] := by simpa [firstBuffered] using hbuf
          have hpairs := sortedPairs_perm f.responses
          rw [hsorted] at hpairs
          simpa [pairs] using hpairs.nil_eq.symm
      · exact absurd hy (hnone y)
  · refine ⟨response.nonce, haccept hg ⟨hf.indices, hf.expected, by simp⟩ ?_ rfl⟩
    rintro y (hy | ⟨k, hk⟩)
    · rcases hlog with hall | ⟨-, hfresh | hseen⟩
      · exact hall y hy
      · omega
      · exact absurd hunseen hseen
    · simp at hk

end InFlightRequest

/-! ## What one event does to the requests in flight -/

variable [DecidableEq P] {f : InFlightRequest P}

namespace OutboundRequests

variable {s s' : OutboundRequests P}

omit [DecidableEq P] in
lemma lookup_retry {p : StateSyncRequest → InFlightRequest P → Bool} {r : StateSyncRequest}
    (h : (s.retry p).inFlightRequests.lookup r = some f) :
    s.inFlightRequests.lookup r = some f := by
  revert h
  unfold retry
  generalize (s.inFlightRequests.pairs.filter fun e => p e.1 e.2).map Prod.fst = requests
  induction requests generalizing s with
  | nil => exact id
  | cons request requests ih =>
    intro h
    exact lookup_of_lookup_erase (ih h)

variable {now : Nat} {result : RequestPollResult P}

lemma insertRequest_cases {toSend : StateSyncRequest} {pick : Nat}
    (h : s.insertRequest toSend now pick = .ok (s', result)) :
    (s.choosePeer toSend.keyPrefix pick = .ok none ∧ result = .timer none ∧
      s' = { s with pendingRequests := s.pendingRequests.insert toSend () }) ∨
    ∃ peer info, s.peers.lookup peer = some info ∧
      result = .request peer { toSend with version := info.version } ∧
      s' = { s with
        inFlightRequests := s.inFlightRequests.insert ({ toSend with version := info.version })
          (InFlightRequest.new peer now) } := by
  simp only [insertRequest, bind_eq_ok] at h
  obtain ⟨choice, hchoice, h⟩ := h
  cases choice with
  | none =>
    cases h
    exact .inl ⟨hchoice, rfl, rfl⟩
  | some peer =>
    simp only [bind_eq_ok, unwrap_eq_ok] at h
    obtain ⟨info, hinfo, hpure⟩ := h
    cases hpure
    exact .inr ⟨peer, info, hinfo, rfl, rfl⟩

/-- A poll leaves everything as it is, or takes one request and inserts it anew. -/
lemma poll_cases {pick : Nat} (h : s.poll now pick = .ok (s', result)) :
    (s' = s ∧ ∃ t, result = .timer t) ∨
    (∃ toSend, s.pendingRequests.first = some toSend ∧
      s.inFlightRequests.keys.length < s.maxParallelRequests ∧
      { s with pendingRequests := s.pendingRequests.erase toSend }.insertRequest toSend now pick =
        .ok (s', result)) ∨
    ∃ request inFlight, s.inFlightRequests.lookup request = some inFlight ∧ { s with
        peers := s.peers.modify inFlight.peer fun info => { info with lastTimeout := now }
        inFlightRequests := s.inFlightRequests.erase request }.insertRequest request now pick =
          .ok (s', result) := by
  unfold poll at h
  split at h <;> try split at h
  · next toSend hfirst hroom => exact .inr (.inl ⟨toSend, hfirst, hroom, h⟩)
  -- nothing is pending, or there is no room
  all_goals
    unfold poll.pollTimeout at h
    split at h
    · cases h
      exact .inl ⟨rfl, _, rfl⟩
    · next request inFlight hmin =>
      split at h
      · cases h
        exact .inl ⟨rfl, _, rfl⟩
      · exact .inr (.inr ⟨request, inFlight, mem_sortedPairs.mp (argmin_mem hmin), h⟩)

/-- A response does nothing to the requests, or reaches the request that is in flight for it. -/
lemma handleResponse_cases {sender : P} {response : StateSyncResponse}
    {out : List StateSyncResponse} (h : s.handleResponse sender response now = .ok (s', out)) :
    (out = [] ∧ (s' = s ∨ s' = { s with
      prefixPeers := s.prefixPeers.insert response.request.keyPrefix sender })) ∨
    ∃ f f', s.inFlightRequests.lookup response.request = some f ∧
      f.applyResponse response now = .ok (f', out) ∧
      s' = { s with
        prefixPeers := s.prefixPeers.insert response.request.keyPrefix sender
        inFlightRequests :=
          if out.getLast?.any (fun last => last.responseN != 0) then
            s.inFlightRequests.erase response.request
          else s.inFlightRequests.insert response.request f' } := by
  unfold handleResponse at h
  split at h
  · cases h
    exact .inl ⟨rfl, .inl rfl⟩
  · dsimp only at h
    split at h
    · cases h
      exact .inl ⟨rfl, .inr rfl⟩
    · next f hf =>
      simp only [bind_eq_ok] at h
      obtain ⟨r, hr, h⟩ := h
      refine .inr ⟨f, r.1, hf, ?_⟩
      split at h
      · next hlast =>
        cases h
        simp [hr, hlast]
      · next hlast =>
        cases h
        simp [hr, hlast]

end OutboundRequests

/-- What was handed on for `r` since it was sent, after one more answer. -/
def record (r : StateSyncRequest) (log : List StateSyncResponse) : Answer P → List StateSyncResponse
  | .handedOn request responses => if request = r then log ++ responses else log
  | .polled (.request _ request) => if request = r then [] else log
  | _ => log

/-- What was handed on for `r` since it was last sent. -/
def handedOn (r : StateSyncRequest) (history : List (Event P × Answer P)) :
    List StateSyncResponse :=
  history.foldl (fun log e => record r log e.2) []

variable {s s' : OutboundRequests P}

/-- The requests in flight after an event: those from before, but for one that got a response
or was sent. -/
lemma step_cases {e : Event P} {o : Answer P} (h : step s e = .ok (s', o)) :
    ((∀ r log, record r log o = log) ∧ ∀ r f, s'.inFlightRequests.lookup r = some f →
      s.inFlightRequests.lookup r = some f) ∨
    (∃ sender response now f f' out, e = .response sender response now ∧
      s.inFlightRequests.lookup response.request = some f ∧
      f.applyResponse response now = .ok (f', out) ∧ o = .handedOn response.request out ∧
      ∀ r g, s'.inFlightRequests.lookup r = some g →
        if r = response.request then g = f' else s.inFlightRequests.lookup r = some g) ∨
    ∃ peer request now, o = .polled (.request peer request) ∧
      ∀ r g, s'.inFlightRequests.lookup r = some g →
        if r = request then g = InFlightRequest.new peer now
        else s.inFlightRequests.lookup r = some g := by
  cases e with
  | queueRequest request =>
    simp only [step, queueRequest, bind_eq_ok] at h
    obtain ⟨t, ⟨-, -, ht⟩, hpure⟩ := h
    cases ht
    cases hpure
    exact .inl ⟨fun _ _ => rfl, fun _ _ => id⟩
  | response sender response now =>
    simp only [step] at h
    split at h
    · simp only [bind_eq_ok] at h
      obtain ⟨⟨t, out⟩, ht, hpure⟩ := h
      cases hpure
      rcases handleResponse_cases ht with
        ⟨rfl, rfl | rfl⟩ | ⟨f, f', hf, happly, rfl⟩
      · exact .inl ⟨by simp [record], fun _ _ => id⟩
      · exact .inl ⟨by simp [record], fun _ _ => id⟩
      · refine .inr (.inl ⟨sender, response, now, f, f', out, rfl, hf, happly, rfl, ?_⟩)
        intro r g hg
        by_cases hr : r = response.request
        · subst hr
          split at hg <;> simp_all
        · split at hg <;> simp_all
    · cases h
      exact .inl ⟨fun _ _ => rfl, fun _ _ => id⟩
  | badVersion sender badVersion =>
    cases h
    refine .inl ⟨fun _ _ => rfl, ?_⟩
    intro r f hf
    split at hf
    · have hlookup := lookup_retry hf
      split at hlookup <;> exact hlookup
    · exact hf
  | notWhitelisted sender =>
    cases h
    refine .inl ⟨fun _ _ => rfl, ?_⟩
    intro r f hf
    split at hf
    · have hlookup := lookup_retry (s := s.prune sender) hf
      exact hlookup
    · exact hf
  | expandUpstreamPeers newPeers | clearPrefixPeers =>
    cases h
    exact .inl ⟨fun _ _ => rfl, fun _ _ => id⟩
  | poll now pick =>
    simp only [step, bind_eq_ok] at h
    obtain ⟨⟨t, result⟩, ht, hpure⟩ := h
    cases hpure
    rcases poll_cases ht with ⟨rfl, _, rfl⟩ | hsent
    · exact .inl ⟨fun _ _ => rfl, fun _ _ => id⟩
    obtain ⟨u, toSend, hu, hinserted⟩ : ∃ u toSend,
        (∀ r f, u.inFlightRequests.lookup r = some f → s.inFlightRequests.lookup r = some f) ∧
        insertRequest u toSend now pick = .ok (t, result) := by
      rcases hsent with ⟨toSend, -, -, hinserted⟩ | ⟨request, inFlight, -, hinserted⟩
      · refine ⟨_, _, ?_, hinserted⟩
        exact fun _ _ => id
      · refine ⟨_, _, ?_, hinserted⟩
        exact fun r f hf => lookup_of_lookup_erase hf
    rcases insertRequest_cases hinserted with
      ⟨-, rfl, rfl⟩ | ⟨peer, info, -, rfl, rfl⟩
    · exact .inl ⟨fun _ _ => rfl, hu⟩
    · refine .inr (.inr ⟨peer, _, now, rfl, ?_⟩)
      intro r g hg
      rw [lookup_insert_eq_ite] at hg
      split at hg
      · next heq => rw [if_pos heq, Option.some.inj hg]
      · next hne => exact (if_neg hne).symm ▸ hu r g hg

/-! ## Runs -/

/-- A chunk of another response than the one that was begun finds its nonce pinned. -/
def NoncePinned (history : List (Event P × Answer P)) (s : OutboundRequests P) : Event P → Prop
  | .response _ response now => ∀ f, s.inFlightRequests.lookup response.request = some f →
    ∀ x ∈ handedOn response.request history, x.nonce ≠ response.nonce → f.Pins response now
  | _ => True

/-- `W` relates the chunks handed on for a request to what is in flight for it, and `V` holds of
them also when nothing is. -/
def Kept (V : List StateSyncResponse → Prop) (W : List StateSyncResponse → InFlightRequest P → Prop)
    (log : List StateSyncResponse) (inFlight : Option (InFlightRequest P)) : Prop :=
  V log ∧ ∀ f, inFlight = some f → W log f

/-- What holds of a new request and is kept by its responses is kept by every event. -/
lemma step_kept {V : List StateSyncResponse → Prop}
    {W : List StateSyncResponse → InFlightRequest P → Prop} (hV : ∀ {log f}, W log f → V log)
    (hnew : ∀ peer now, W [] (InFlightRequest.new peer now))
    {history : List (Event P × Answer P)} {e : Event P} {o : Answer P}
    (hkept : ∀ r, Kept V W (handedOn r history) (s.inFlightRequests.lookup r))
    (happly : ∀ {sender response now f f' out}, e = .response sender response now →
      s.inFlightRequests.lookup response.request = some f →
      f.applyResponse response now = .ok (f', out) → W (handedOn response.request history) f →
      W (handedOn response.request history ++ out) f')
    (h : step s e = .ok (s', o)) (r : StateSyncRequest) :
    Kept V W (handedOn r (history ++ [(e, o)])) (s'.inFlightRequests.lookup r) := by
  have hsnoc : handedOn r (history ++ [(e, o)]) = record r (handedOn r history) o := by
    simp [handedOn]
  rw [hsnoc]
  have hr := hkept r
  rcases step_cases h with ⟨hquiet, hsame⟩ |
    ⟨sender, response, now, f, f', out, rfl, hf, hrun, rfl, hlookup⟩ |
    ⟨peer, request, now, rfl, hlookup⟩
  · rw [hquiet]
    exact ⟨hr.1, fun f hf => hr.2 f (hsame r f hf)⟩
  · by_cases heq : r = response.request
    · subst heq
      have hW := happly rfl hf hrun (hr.2 f hf)
      simp only [record, if_true]
      refine ⟨hV hW, fun g hg => ?_⟩
      have hg := hlookup _ g hg
      rw [if_pos rfl] at hg
      exact hg ▸ hW
    · simp only [record, Ne.symm heq, if_false]
      refine ⟨hr.1, fun g hg => hr.2 g ?_⟩
      simpa [heq] using hlookup r g hg
  · by_cases heq : r = request
    · subst heq
      simp only [record, if_true]
      refine ⟨hV (hnew peer now), fun g hg => ?_⟩
      have hg := hlookup r g hg
      rw [if_pos rfl] at hg
      exact hg ▸ hnew peer now
    · simp only [record, Ne.symm heq, if_false]
      refine ⟨hr.1, fun g hg => hr.2 g ?_⟩
      simpa [heq] using hlookup r g hg

omit [DecidableEq P] in
lemma inOrder_new (peer : P) (now : Nat) : (InFlightRequest.new peer now).InOrder [] :=
  ⟨rfl, rfl, by simp [InFlightRequest.new]⟩

/-- **Chunks come whole and unmixed.**  Whatever responses, notices and polls a client gets, the
chunks handed on for a request since it was sent have the indices 0, 1, 2, …  They have one
nonce, provided that the nonce is pinned whenever a chunk of another response arrives. -/
theorem chunks_in_order {maxParallel timeout : Nat} {initPeers : List P}
    {history : List (Event P × Answer P)} {s : OutboundRequests P}
    (hrun : Run step (fun _ _ _ => True) (start maxParallel timeout initPeers) history s)
    (r : StateSyncRequest) :
    (handedOn r history).map (·.responseIndex) = List.range (handedOn r history).length ∧
      (Run step NoncePinned (start maxParallel timeout initPeers) history s →
        ∃ n, ∀ x ∈ handedOn r history, x.nonce = n) := by
  constructor
  · refine (hrun.invariant (I := fun history s => ∀ r,
      Kept (fun log => log.map (·.responseIndex) = List.range log.length) (fun log f => f.InOrder log)
        (handedOn r history) (s.inFlightRequests.lookup r)) ?_ ?_ r).1
    · exact fun r => ⟨rfl, by simp [start]⟩
    · intro history s e s' o ih _ h
      exact step_kept (fun hf => hf.indices) inOrder_new ih
        (fun _ _ happly hf => InFlightRequest.applyResponse_inOrder happly hf) h
  · intro hpinned
    refine (hpinned.invariant (I := fun history s => ∀ r,
      Kept (fun log => ∃ n, ∀ x ∈ log, x.nonce = n)
        (fun log f => f.InOrder log ∧ ∃ n, f.OneNonce n log)
        (handedOn r history) (s.inFlightRequests.lookup r)) ?_ ?_ r).1
    · exact fun r => ⟨⟨0, by simp [handedOn]⟩, by simp [start]⟩
    · intro history s e s' o ih hpinned h
      refine step_kept (fun hf => hf.2.imp fun _ hn x hx => hn x (.inl hx)) ?_ ih ?_ h
      · exact fun peer now => ⟨inOrder_new peer now, 0, by
          simp [InFlightRequest.OneNonce, InFlightRequest.Buffered, InFlightRequest.new]⟩
      · rintro sender response now f f' out rfl hf happly ⟨horder, n, hone⟩
        exact ⟨InFlightRequest.applyResponse_inOrder happly horder,
          InFlightRequest.applyResponse_oneNonce happly horder hone (hpinned f hf)⟩

def sampleRequest : StateSyncRequest where
  version := selfStateSyncVersion
  keyPrefix := 0
  prefixBytes := 1
  target := 10
  fromBlock := 0
  untilBlock := 10
  oldTarget := 0

def sampleChunk (nonce responseIndex responseN : Nat) : StateSyncResponse where
  version := selfStateSyncVersion
  nonce := nonce
  responseIndex := responseIndex
  request := sampleRequest
  response := []
  responseN := responseN

instance (f : InFlightRequest P) (response : StateSyncResponse) (now : Nat) :
    Decidable (f.Pins response now) :=
  decidable_of_iff (f.responses.entries.isEmpty = false ∧
    (now - f.lastActive ≤ stateSyncChunkedResponseTimeout ∨
      (f.seenNonces.lookup response.nonce).getD 0 ≠ 0)) <| and_congr_left' <| by
    rw [ne_eq, AList.ext_iff, ← Bool.not_eq_true, List.isEmpty_iff]
    rfl

instance decidableNoncePinned (history : List (Event P × Answer P)) (s : OutboundRequests P) :
    DecidablePred (NoncePinned history s)
  | .response _ response now =>
    inferInstanceAs (Decidable (∀ f ∈ s.inFlightRequests.lookup response.request,
      ∀ x ∈ handedOn response.request history, x.nonce ≠ response.nonce → f.Pins response now))
  | .queueRequest _ | .badVersion _ _ | .notWhitelisted _ | .expandUpstreamPeers _
  | .clearPrefixPeers | .poll _ _ => .isTrue trivial

/-- Three chunks of one response, the last of them first.  It waits in the buffer when a chunk of
another response arrives, which is dropped. -/
theorem chunks_in_order_two : ∃ history s, Run step NoncePinned (start 1 5 [0]) history s ∧
      (handedOn sampleRequest history).map (·.responseIndex) = [0, 1, 2] ∧
      ∃ n, ∀ x ∈ handedOn sampleRequest history, x.nonce = n := by
  obtain ⟨history, s, hrun, hindices⟩ := Run.exists_of_replay step NoncePinned (start 1 5 [0])
    [.queueRequest sampleRequest, .poll 0 0, .response 0 (sampleChunk 7 2 10) 0,
      .response 0 (sampleChunk 7 0 0) 0, .response 0 (sampleChunk 8 1 0) 0,
      .response 0 (sampleChunk 7 1 0) 0]
    (P := fun history _ => (handedOn sampleRequest history).map (·.responseIndex) = [0, 1, 2])
    (by decide +kernel)
  exact ⟨history, s, hrun, hindices,
    (chunks_in_order (hrun.mono fun _ _ _ _ => trivial) sampleRequest).2 hrun⟩

/-- **Two responses spliced.**  The first chunk is handed on from a response with nonce 7 and
leaves the buffer empty, so that the second chunk of the response with nonce 8 follows it. -/
theorem chunks_of_two_responses :
    ∃ history s, Run step (fun _ _ _ => True) (start 1 5 [0]) history s ∧
      (handedOn sampleRequest history).map (fun x => (x.nonce, x.responseIndex)) =
        [(7, 0), (8, 1)] := by
  exact Run.exists_of_replay _ _ _ [.queueRequest sampleRequest, .poll 0 0,
    .response 0 (sampleChunk 7 0 0) 0, .response 0 (sampleChunk 8 1 10) 0] (by decide +kernel)

end Kinet.StateSync
