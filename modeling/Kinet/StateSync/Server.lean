import Kinet.StateSync.Chunks

/-!
# The state-sync server

A live node passes the requests of its peers to execution one at a time, and sends what
execution answers in batches.  A batch is sent when it is full or its time has come, unless
too many batches wait for the socket or for the client.

Times, in nanoseconds, the nonce and the room in the response channel are inputs.

Main results:

- `responses_in_order`: what is written for a request is one stream, if the channel has
  room.
-/

namespace Kinet.StateSync.Server

open Checked List Option

variable {P : Type}

/-- Bytes in a response. -/
def maxResponseSize : Nat := 1500000

/-- Responses that are not completed. -/
def maxPendingResponses : Nat := 2

/-- Responses that the client has not acknowledged. -/
def maxUnacknowledgedResponses : Nat := 100

/-- Upserts in a response. -/
def maxUpsertsPerResponse : Nat := 20000

/-- Half a second. -/
def messageScheduleDuration : Nat := 5 * 10 ^ 8

/-- One minute. -/
def clientTimeout : Nat := 60 * 10 ^ 9

/-- A request that waits to be served. -/
structure PendingRequest (P : Type) where
  sender : P
  rxTime : Nat
  request : StateSyncRequest

/-- The response that is being put together. -/
structure WipResponse (P : Type) where
  sender : P
  nextMessageSchedule : Nat
  completionTime : Nat
  responseSize : Nat
  response : StateSyncResponse
  unacknowledgedResponses : Nat
  /-- whether the channel took each message that is not completed; `none` after a failure -/
  pendingResponseCompletions : Option (List Bool)

/-- State of the server. -/
structure StreamState (P : Type) where
  pendingRequests : List (PendingRequest P)
  wipResponse : Option (WipResponse P)

/-- Messages of clients. -/
inductive Message where
  | request (request : StateSyncRequest)
  | completion (nonce : Nat)
  | other

/-- What the server handles. -/
inductive Event (P : Type) where
  | upsert (upsert : StateSyncUpsert)
  | done (success : Bool) (keyPrefix n : Nat)
  | message (sender : P) (message : Message)
  | timeout
  | tcpCompletion (ok : Bool)
  | clientTimeout

/-- An event with what the environment adds to it. -/
structure Input (P : Type) where
  event : Event P
  now : Nat
  nonce : Nat
  /-- whether the response channel has room -/
  accepts : Bool

/-- What the server sends. -/
inductive Output (P : Type) where
  /-- a request is passed to execution -/
  | execute (request : PendingRequest P)
  | response (receiver : P) (response : StateSyncResponse) (accepted : Bool)
  | badVersion (receiver : P) (badVersion : StateSyncBadVersion) (accepted : Bool)

namespace WipResponse

/-- The first response to a request. -/
def new (r : PendingRequest P) (now nonce : Nat) : WipResponse P where
  sender := r.sender
  nextMessageSchedule := now + messageScheduleDuration
  completionTime := now
  responseSize := 0
  response := ⟨r.request.version, nonce, 0, r.request, [], 0⟩
  unacknowledgedResponses := 0
  pendingResponseCompletions := some []

/-- The limits on responses on their way allow another one. -/
def canSend (w : WipResponse P) : Bool :=
  w.pendingResponseCompletions.all fun completions =>
    completions.length < maxPendingResponses &&
      w.unacknowledgedResponses < maxUnacknowledgedResponses

/-- The response can take another upsert. -/
def hasSpace (w : WipResponse P) : Bool :=
  w.responseSize < maxResponseSize && w.response.response.length < maxUpsertsPerResponse

/-- Add an upsert to the response. -/
def push (upsert : StateSyncUpsert) (w : WipResponse P) : WipResponse P :=
  { w with
    responseSize := w.responseSize + upsert.data.length
    response := { w.response with response := w.response.response ++ [upsert] } }

/-- The first message that is not completed is, or has failed. -/
def complete (ok : Bool) (w : WipResponse P) : WipResponse P :=
  { w with pendingResponseCompletions :=
      if ok then w.pendingResponseCompletions.map tail else none }

/-- A client acknowledges a response. -/
def acknowledge [DecidableEq P] (now : Nat) (sender : P) (nonce : Nat) (w : WipResponse P) :
    WipResponse P :=
  { w with
    unacknowledgedResponses :=
      if w.sender = sender ∧ w.response.nonce = nonce then w.unacknowledgedResponses - 1
      else w.unacknowledgedResponses
    -- whoever sent the completion
    completionTime := now }

/-- Send the response and begin the next one. -/
def sendBatch (i : Input P) (w : WipResponse P) : Checked (WipResponse P × List (Output P)) := do
  let responseIndex ← add 32 w.response.responseIndex 1
  let next := { w with
    response := { w.response with responseIndex := responseIndex, response := [] }
    responseSize := 0
    nextMessageSchedule := i.now + messageScheduleDuration }
  match w.pendingResponseCompletions with
  | some completions =>
    pure ({ next with
      unacknowledgedResponses := w.unacknowledgedResponses + 1
      pendingResponseCompletions := some (completions ++ [i.accepts]) },
      [.response w.sender w.response i.accepts])
  | none => pure (next, [])

/-- Send the response if it is full. -/
def maybeSendBatch (i : Input P) (w : WipResponse P) : Checked (WipResponse P × List (Output P)) :=
  if !w.hasSpace && w.canSend then w.sendBatch i else pure (w, [])

end WipResponse

namespace StreamState

/-- Change the response in service, if there is one. -/
def update (f : WipResponse P → Checked (WipResponse P × List (Output P))) (s : StreamState P) :
    Checked (StreamState P × List (Output P)) :=
  match s.wipResponse with
  | none => pure (s, [])
  | some w => do
    let r ← f w
    pure ({ s with wipResponse := some r.1 }, r.2)

variable (requestTimeout : Nat) (i : Input P)

/-- Serve the first request that is not too old. -/
def tryQueueResponse (s : StreamState P) : StreamState P × List (Output P) :=
  if s.wipResponse.isSome then (s, [])
  else
    match s.pendingRequests.dropWhile fun r => requestTimeout < i.now - r.rxTime with
    | [] => (⟨[], none⟩, [])
    | request :: rest => (⟨rest, some (.new request i.now i.nonce)⟩, [.execute request])

/-- Execution has an upsert for the request in service. -/
def handleUpsert (i : Input P) (upsert : StateSyncUpsert) (s : StreamState P) :
    Checked (StreamState P × List (Output P)) := do
  let _ ← unwrap s.wipResponse
  s.update fun w => (w.push upsert).maybeSendBatch i

/-- Execution is done: the last response is sent, and the next request served. -/
def handleDone (success : Bool) (keyPrefix n : Nat)
    (s : StreamState P) : Checked (StreamState P × List (Output P)) := do
  let w ← unwrap s.wipResponse
  require (!success || w.response.request.keyPrefix = keyPrefix)
  let last :=
    if success && w.pendingResponseCompletions.isSome then
      [.response w.sender { w.response with responseN := n } i.accepts]
    else []
  let r := { s with wipResponse := none }.tryQueueResponse requestTimeout i
  pure (r.1, last ++ r.2)

/-- The transport has sent a response, or failed to. -/
def handleTcpCompletion (i : Input P) (ok : Bool) :
    StreamState P → Checked (StreamState P × List (Output P)) :=
  update fun w => (w.complete ok).maybeSendBatch i

/-- The client does not acknowledge: nothing more is sent to it. -/
def handleClientTimeout : StreamState P → Checked (StreamState P × List (Output P)) :=
  update fun w => pure ({ w with pendingResponseCompletions := none }, [])

/-- A client has received a response. -/
def handleCompletion [DecidableEq P] (i : Input P) (sender : P) (nonce : Nat) :
    StreamState P → Checked (StreamState P × List (Output P)) :=
  update fun w => (w.acknowledge i.now sender nonce).maybeSendBatch i

/-- Queue a request; those of its sender for other targets go. -/
def handleRequest [DecidableEq P] (sender : P) (request : StateSyncRequest)
    (s : StreamState P) : StreamState P × List (Output P) :=
  if isCompatible request.version then
    let pendingRequests := s.pendingRequests.filter fun pending =>
      !(pending.sender = sender &&
        (pending.request.target ≠ request.target || pending.request = request))
    -- whoever is served
    if s.wipResponse.any fun w => w.response.request = request then
      ({ s with pendingRequests := pendingRequests }, [])
    else
      tryQueueResponse requestTimeout i
        { s with pendingRequests := pendingRequests ++ [⟨sender, i.now, request⟩] }
  else (s, [.badVersion sender ⟨stateSyncVersionMin, selfStateSyncVersion⟩ i.accepts])

end StreamState

/-- The events that a poll can return. -/
def enabled (s : StreamState P) (i : Input P) : Bool :=
  match i.event with
  | .message _ _ => true
  | .upsert _ | .done _ _ _ => s.wipResponse.any (·.hasSpace)
  | .timeout => s.wipResponse.any fun w => w.canSend && w.nextMessageSchedule ≤ i.now
  | .tcpCompletion ok => s.wipResponse.any fun w =>
    -- a message that was not taken is cancelled
    (w.pendingResponseCompletions.bind List.head?).any fun taken => !ok || taken
  | .clientTimeout => s.wipResponse.any fun w =>
    0 < w.unacknowledgedResponses && w.pendingResponseCompletions.isSome &&
      w.completionTime + clientTimeout ≤ i.now

/-- Handle an event. -/
def step [DecidableEq P] (requestTimeout : Nat) (s : StreamState P) (i : Input P) :
    Checked (StreamState P × List (Output P)) :=
  match i.event with
  | .upsert upsert => s.handleUpsert i upsert
  | .done success keyPrefix n => s.handleDone requestTimeout i success keyPrefix n
  | .message sender (.request request) => pure (s.handleRequest requestTimeout i sender request)
  | .message sender (.completion nonce) => s.handleCompletion i sender nonce
  | .message _ .other => pure (s, [])
  | .timeout => s.update (WipResponse.sendBatch i)
  | .tcpCompletion ok => s.handleTcpCompletion i ok
  | .clientTimeout => s.handleClientTimeout

section

variable {requestTimeout : Nat} {s s' : StreamState P} {i : Input P} {o : List (Output P)}
  {w : WipResponse P}

lemma update_eq_ok {f : WipResponse P → Checked (WipResponse P × List (Output P))}
    (h : s.update f = .ok (s', o)) (hw : s.wipResponse = some w) :
    ∃ w', f w = .ok (w', o) ∧ s' = { s with wipResponse := some w' } := by
  simp only [StreamState.update, hw] at h
  obtain ⟨⟨w', o'⟩, hf, heq⟩ := bind_eq_ok.mp h
  cases heq
  exact ⟨w', hf, rfl⟩

lemma handleDone_eq_ok {success : Bool} {keyPrefix n : Nat}
    (h : s.handleDone requestTimeout i success keyPrefix n = .ok (s', o))
    (hw : s.wipResponse = some w) :
    ∃ last, s' = (StreamState.tryQueueResponse requestTimeout i ⟨s.pendingRequests, none⟩).1 ∧
      o = last ++ (StreamState.tryQueueResponse requestTimeout i ⟨s.pendingRequests, none⟩).2 ∧
      (last = [] ∨ w.pendingResponseCompletions.isSome = true ∧
        last = [.response w.sender { w.response with responseN := n } i.accepts]) := by
  simp only [StreamState.handleDone, hw, unwrap_some, ok_bind] at h
  obtain ⟨-, -, heq⟩ := bind_eq_ok.mp h
  cases heq
  refine ⟨_, rfl, rfl, ?_⟩
  split_ifs with hlast
  · exact .inr ⟨(Bool.and_eq_true_iff.mp hlast).2, rfl⟩
  · exact .inl rfl

end

def sampleInput (event : Event Nat) (now : Nat) (accepts : Bool) : Input Nat :=
  ⟨event, now, 7, accepts⟩

def sampleRequestOf (sender now : Nat) : Input Nat :=
  sampleInput (.message sender (.request sampleRequest)) now true

/-! ## Streams -/

/-- What happened in the service of one request. -/
structure Service (P : Type) where
  request : PendingRequest P
  /-- what execution has sent -/
  upserts : List StateSyncUpsert
  /-- what the channel has taken -/
  written : List (P × StateSyncResponse)

/-- The upserts written for a request. -/
def Service.sent (c : Service P) : List StateSyncUpsert := c.written.flatMap (·.2.response)

/-- The services after an output, the current one first. -/
def note (services : List (Service P)) : Output P → List (Service P)
  | .execute request => ⟨request, [], []⟩ :: services
  | .response receiver response true =>
    services.modifyHead fun c => { c with written := c.written ++ [(receiver, response)] }
  | _ => services

/-- Upserts belong to the request in service. -/
def arrive (services : List (Service P)) : Event P → List (Service P)
  | .upsert upsert => services.modifyHead fun c => { c with upserts := c.upserts ++ [upsert] }
  | _ => services

/-- The requests that were served, the latest first. -/
def services (history : List (Input P × List (Output P))) : List (Service P) :=
  history.foldl (fun services x => x.2.foldl note (arrive services x.1.event)) []

/-- The responses to a request are a stream without gaps. -/
structure Service.Stream (nonce : Nat) (c : Service P) : Prop where
  addressed : ∀ x ∈ c.written, x.1 = c.request.sender ∧ x.2.request = c.request.request ∧
    x.2.nonce = nonce ∧ x.2.response.length ≤ maxUpsertsPerResponse
  indices : c.written.map (·.2.responseIndex) = List.range c.written.length
  inOrder : c.sent <+: c.upserts

/-- In addition, only a response that completes the stream is final. -/
def Service.Sound (c : Service P) : Prop :=
  (∃ nonce, c.Stream nonce) ∧ ∀ x ∈ c.written, x.2.responseN ≠ 0 → c.sent = c.upserts

/-- The response in service goes on with the stream. -/
structure Continues (w : WipResponse P) (c : Service P) : Prop where
  stream : c.Stream w.response.nonce
  sender : c.request.sender = w.sender
  request : c.request.request = w.response.request
  open_ : ∀ x ∈ c.written, x.2.responseN = 0
  notFinal : w.response.responseN = 0
  small : w.response.response.length ≤ maxUpsertsPerResponse
  unacknowledged : w.unacknowledgedResponses ≤ maxUnacknowledgedResponses
  /-- as long as nothing has failed, nothing is lost -/
  live : ∀ completions, w.pendingResponseCompletions = some completions →
    completions.length ≤ maxPendingResponses ∧ w.response.responseIndex = c.written.length ∧
      c.sent ++ w.response.response = c.upserts

/-- The services before the current one are sound, and the current one goes on. -/
def Served (services : List (Service P)) : Option (WipResponse P) → Prop
  | none => ∀ c ∈ services, c.Sound
  | some w => ∃ c past, services = c :: past ∧ Continues w c ∧ ∀ c ∈ past, c.Sound

/-- A full batch is written, as long as nothing has failed. -/
def WipResponse.writesFull (w : WipResponse P) : Bool :=
  !w.hasSpace && w.canSend && w.pendingResponseCompletions.isSome

/-- The event makes the server write a response that is not the last one. -/
def writesBatch [DecidableEq P] (s : StreamState P) (i : Input P) : Bool :=
  s.wipResponse.any fun w =>
    match i.event with
    | .upsert upsert => (w.push upsert).writesFull
    | .message sender (.completion nonce) => (w.acknowledge i.now sender nonce).writesFull
    | .tcpCompletion ok => (w.complete ok).writesFull
    | .timeout => w.pendingResponseCompletions.isSome
    | _ => false

/-- The channel has room for every response that is not the last one. -/
def lossless [DecidableEq P] (s : StreamState P) (i : Input P) : Bool :=
  enabled s i && (i.accepts || !writesBatch s i)

section

variable {w w' : WipResponse P} {c : Service P} {past : List (Service P)} {i : Input P}
  {o : List (Output P)}

section

variable (h : Continues w c)
include h

/-- The response in the making is written, as it is or as the last one. -/
lemma Continues.write (hlive : w.pendingResponseCompletions.isSome = true) (n : Nat) :
    let c' := { c with written := c.written ++ [(w.sender, { w.response with responseN := n })] }
    c'.Stream w.response.nonce ∧ c'.sent = c'.upserts := by
  obtain ⟨completions, hcompletions⟩ := isSome_iff_exists.mp hlive
  obtain ⟨-, hindex, hall⟩ := h.live completions hcompletions
  intro c'
  have hsent : c'.sent = c.upserts := by simpa [c', Service.sent] using hall
  refine ⟨⟨?_, ?_, hsent ▸ prefix_rfl⟩, hsent⟩
  · intro x hx
    rcases mem_append.mp hx with hx | hx
    · exact h.stream.addressed x hx
    · cases mem_singleton.mp hx
      exact ⟨h.sender.symm, h.request.symm, rfl, h.small⟩
  · simp [c', h.stream.indices, hindex, range_succ]

lemma Continues.sendBatch (hcan : w.canSend = true)
    (hsend : w.sendBatch i = .ok (w', o))
    (hkept : w.pendingResponseCompletions.isSome = true → i.accepts = true)
    (hpast : ∀ c ∈ past, c.Sound) :
    Served (o.foldl note (c :: past)) (some w') := by
  obtain ⟨responseIndex, hadd, hsend⟩ := bind_eq_ok.mp hsend
  have hindex := InFlightRequest.add_eq_ok hadd
  cases hcompletions : w.pendingResponseCompletions with
  | none =>
    simp only [hcompletions] at hsend
    cases hsend
    exact ⟨c, past, rfl, ⟨h.stream, h.sender, h.request, h.open_, h.notFinal, Nat.zero_le _,
      h.unacknowledged, by simp⟩, hpast⟩
  | some completions =>
    simp only [hcompletions] at hsend
    cases hsend
    simp only [WipResponse.canSend, hcompletions, all_some, Bool.and_eq_true,
      decide_eq_true_eq] at hcan
    have haccepts : i.accepts = true := hkept (by simp [hcompletions])
    obtain ⟨hstream, hsent⟩ := h.write (by simp [hcompletions]) w.response.responseN
    rw [haccepts]
    refine ⟨_, past, rfl,
      ⟨hstream, h.sender, h.request, ?_, h.notFinal, Nat.zero_le _, hcan.2, ?_⟩, hpast⟩
    · intro x hx
      rcases mem_append.mp hx with hx | hx
      · exact h.open_ x hx
      · cases mem_singleton.mp hx
        exact h.notFinal
    · rintro _ ⟨⟩
      refine ⟨by rw [length_append]; exact hcan.1, ?_, by simpa using hsent⟩
      simp [hindex, (h.live completions hcompletions).2.1]

lemma Continues.maybeSendBatch (hsend : w.maybeSendBatch i = .ok (w', o))
    (hkept : w.writesFull = true → i.accepts = true) (hpast : ∀ c ∈ past, c.Sound) :
    Served (o.foldl note (c :: past)) (some w') := by
  unfold WipResponse.maybeSendBatch at hsend
  split_ifs at hsend with hdue
  · refine h.sendBatch (Bool.and_eq_true_iff.mp hdue).2 hsend (fun hlive => hkept ?_) hpast
    rw [WipResponse.writesFull, hdue, hlive]
    rfl
  · cases hsend
    exact ⟨c, past, rfl, h, hpast⟩

lemma Continues.push (hspace : w.hasSpace = true) (upsert : StateSyncUpsert) :
    Continues (w.push upsert) { c with upserts := c.upserts ++ [upsert] } where
  stream := ⟨h.stream.addressed, h.stream.indices, h.stream.inOrder.trans (prefix_append _ _)⟩
  sender := h.sender
  request := h.request
  open_ := h.open_
  notFinal := h.notFinal
  small := by
    rw [WipResponse.push, length_append]
    exact of_decide_eq_true (Bool.and_eq_true_iff.mp hspace).2
  unacknowledged := h.unacknowledged
  live := by
    intro completions hcompletions
    obtain ⟨hlength, hindex, hall⟩ := h.live completions hcompletions
    refine ⟨hlength, hindex, ?_⟩
    rw [← hall, append_assoc]
    rfl

/-- Completions of either kind, or a failure. -/
lemma Continues.settle (hsender : w'.sender = w.sender) (hresponse : w'.response = w.response)
    (hunacknowledged : w'.unacknowledgedResponses ≤ w.unacknowledgedResponses)
    (hlive : ∀ l, w'.pendingResponseCompletions = some l →
      ∃ l', w.pendingResponseCompletions = some l' ∧ l.length ≤ l'.length) : Continues w' c where
  stream := hresponse ▸ h.stream
  sender := hsender ▸ h.sender
  request := hresponse ▸ h.request
  open_ := h.open_
  notFinal := hresponse ▸ h.notFinal
  small := hresponse ▸ h.small
  unacknowledged := hunacknowledged.trans h.unacknowledged
  live := by
    intro l hl
    obtain ⟨l', hl', hle⟩ := hlive l hl
    rw [hresponse]
    exact ⟨hle.trans (h.live l' hl').1, (h.live l' hl').2⟩

lemma Continues.sound : c.Sound :=
  ⟨⟨_, h.stream⟩, fun x hx hfinal => absurd (h.open_ x hx) hfinal⟩

end

variable {requestTimeout : Nat} {s' : StreamState P}

lemma served_tryQueueResponse {pending : List (PendingRequest P)} (h : ∀ c ∈ past, c.Sound)
    (hr : StreamState.tryQueueResponse requestTimeout i ⟨pending, none⟩ = (s', o)) :
    Served (o.foldl note past) s'.wipResponse := by
  simp only [StreamState.tryQueueResponse, isSome_none, Bool.false_eq_true, if_false] at hr
  split at hr
  · cases hr
    exact h
  · next p rest _ =>
    cases hr
    refine ⟨⟨p, [], []⟩, past, rfl, ⟨⟨?_, rfl, prefix_rfl⟩, rfl, rfl, ?_, rfl, Nat.zero_le _,
      Nat.zero_le _, ?_⟩, h⟩
    · simp
    · simp
    · rintro _ ⟨⟩
      exact ⟨Nat.zero_le _, rfl, rfl⟩

lemma served_step [DecidableEq P] {s : StreamState P} {l : List (Service P)}
    (h : Served l s.wipResponse) (hlossless : lossless s i = true)
    (hstep : step requestTimeout s i = .ok (s', o)) :
    Served (o.foldl note (arrive l i.event)) s'.wipResponse := by
  obtain ⟨henabled, hkept⟩ := Bool.and_eq_true_iff.mp hlossless
  have hroom (hwrites : writesBatch s i = true) : i.accepts = true := by
    simpa [hwrites] using hkept
  rcases i with ⟨event, now, nonce, accepts⟩
  cases hw : s.wipResponse with
  | none =>
    rw [hw] at h
    rcases event with u | ⟨_, _, _⟩ | ⟨peer, request | completed | _⟩ | _ | ok | _
    case message.request =>
      obtain ⟨rfl, rfl⟩ := Prod.ext_iff.mp (Except.ok.inj hstep)
      simp only [StreamState.handleRequest, hw, any_none, Bool.false_eq_true, if_false]
      split
      · exact served_tryQueueResponse h rfl
      · rw [hw]
        exact h
    case message.completion =>
      simp only [step, StreamState.handleCompletion, StreamState.update, hw] at hstep
      cases hstep
      rw [hw]
      exact h
    case message.other =>
      cases hstep
      rw [hw]
      exact h
    all_goals simp [enabled, hw] at henabled
  | some w =>
    rw [hw] at h
    obtain ⟨c, past, rfl, hc, hpast⟩ := h
    simp only [writesBatch, hw, any_some] at hroom
    rcases event with u | ⟨success, keyPrefix, n⟩ | ⟨peer, request | completed | _⟩ | _ | ok | _
    case upsert =>
      obtain ⟨-, -, hstep⟩ := bind_eq_ok.mp hstep
      obtain ⟨w', hsent, rfl⟩ := update_eq_ok hstep hw
      have hpush := hc.push (by simpa [enabled, hw] using henabled) u
      exact hpush.maybeSendBatch hsent hroom hpast
    case done =>
      obtain ⟨last, rfl, rfl, hlast⟩ := handleDone_eq_ok hstep hw
      rw [foldl_append]
      apply served_tryQueueResponse _ rfl
      rcases hlast with rfl | ⟨hlive, rfl⟩
      · exact forall_mem_cons.mpr ⟨hc.sound, hpast⟩
      · cases accepts with
        | false => exact forall_mem_cons.mpr ⟨hc.sound, hpast⟩
        | true =>
          obtain ⟨hstream, hsent⟩ := hc.write hlive n
          exact forall_mem_cons.mpr ⟨⟨⟨_, hstream⟩, fun _ _ _ => hsent⟩, hpast⟩
    case message.request =>
      obtain ⟨rfl, rfl⟩ := Prod.ext_iff.mp (Except.ok.inj hstep)
      simp only [StreamState.handleRequest, StreamState.tryQueueResponse, hw, isSome_some, if_true]
      split_ifs
      · exact ⟨c, past, rfl, hc, hpast⟩
      · exact ⟨c, past, rfl, hc, hpast⟩
      · rw [hw]
        exact ⟨c, past, rfl, hc, hpast⟩
    case message.completion =>
      obtain ⟨w', hsent, rfl⟩ := update_eq_ok hstep hw
      have hsettled : Continues (w.acknowledge now peer completed) c := by
        refine hc.settle rfl rfl ?_ ?_
        · unfold WipResponse.acknowledge
          split_ifs <;> simp
        · exact fun l hl => ⟨l, hl, le_rfl⟩
      exact hsettled.maybeSendBatch hsent hroom hpast
    case message.other =>
      cases hstep
      rw [hw]
      exact ⟨c, past, rfl, hc, hpast⟩
    case timeout =>
      obtain ⟨w', hsent, rfl⟩ := update_eq_ok hstep hw
      simp only [enabled, hw, any_some, Bool.and_eq_true] at henabled
      exact hc.sendBatch henabled.1 hsent hroom hpast
    case tcpCompletion =>
      obtain ⟨w', hsent, rfl⟩ := update_eq_ok hstep hw
      have hsettled : Continues (w.complete ok) c := by
        refine hc.settle rfl rfl le_rfl ?_
        intro l hl
        cases ok <;> simp [WipResponse.complete] at hl
        obtain ⟨l', hl', rfl⟩ := hl
        exact ⟨l', hl', by simp⟩
      exact hsettled.maybeSendBatch hsent hroom hpast
    case clientTimeout =>
      obtain ⟨w', hsent, rfl⟩ := update_eq_ok hstep hw
      cases hsent
      exact ⟨c, past, rfl, hc.settle rfl rfl le_rfl (by simp), hpast⟩

end

/-- **One request, one stream.**  If the response channel has room for every response that is not
the last one, then what is written in the service of a request goes to its sender, with its
request and one nonce, has the indices 0, 1, 2, …, and holds the first upserts of execution in
order, or all of them if it is final; and no more completions and acknowledgements are
outstanding than allowed. -/
theorem responses_in_order [DecidableEq P] {requestTimeout : Nat}
    {history : List (Input P × List (Output P))} {s : StreamState P}
    (hrun : Run (step requestTimeout) (fun _ s i => lossless s i = true) ⟨[], none⟩
      history s) :
    (∀ c ∈ services history, c.Sound) ∧ ∀ w ∈ s.wipResponse,
      w.unacknowledgedResponses ≤ maxUnacknowledgedResponses ∧
        ∀ completions ∈ w.pendingResponseCompletions, completions.length ≤ maxPendingResponses := by
  have h : Served (services history) s.wipResponse := by
    apply hrun.invariant (I := fun history s => Served (services history) s.wipResponse)
    · simp [Served, services]
    · intro history s i s' o h hlossless hstep
      have hserved := served_step h hlossless hstep
      simpa [services] using hserved
  cases hw : s.wipResponse with
  | none =>
    rw [hw] at h
    exact ⟨h, by simp⟩
  | some w =>
    rw [hw] at h
    obtain ⟨c, past, heq, hc, hpast⟩ := h
    rw [heq]
    refine ⟨forall_mem_cons.mpr ⟨hc.sound, hpast⟩, ?_⟩
    rintro _ ⟨⟩
    exact ⟨hc.unacknowledged, fun completions h => (hc.live completions h).1⟩

/-- One batch, and the last response. -/
theorem responses_in_order_two : ∃ history, ∃ s : StreamState Nat,
      Run (step 5) (fun _ s i => lossless s i = true) ⟨[], none⟩ history s ∧
      (services history).map (·.written.length) = [2] ∧ ∀ c ∈ services history, c.Sound := by
  obtain ⟨history, s, hrun, hlength⟩ := Run.exists_of_replay (step 5)
    (fun _ s i => lossless s i = true) ⟨[], none⟩
    [sampleRequestOf 0 0, sampleInput (.upsert ⟨.code, []⟩) 1 true,
      sampleInput .timeout (10 ^ 9) true, sampleInput (.done true 0 10) (10 ^ 9) true]
    (P := fun history _ => (services history).map (·.written.length) = [2]) (by decide +kernel)
  exact ⟨history, s, hrun, hlength, (responses_in_order hrun).1⟩

/-- **A batch is lost.**  The channel is full when the first batch is sent.  This is noticed when
its completion is polled, but the last response comes first: it has index 1, and not the upsert
that was lost. -/
theorem last_response_after_lost_batch : ∃ history, ∃ s : StreamState Nat, ∃ c,
      Run (step 5) (fun _ s i => enabled s i = true) ⟨[], none⟩ history s ∧
      services history = [c] ∧ c.upserts.length = 1 ∧ c.written.map (fun x =>
        (x.2.responseIndex, x.2.response.length, x.2.responseN)) = [(1, 0, 10)] ∧ ¬ c.Sound := by
  obtain ⟨history, s, hrun, hservices⟩ := Run.exists_of_replay (step 5)
    (fun _ s i => enabled s i = true) ⟨[], none⟩
    [sampleRequestOf 0 0, sampleInput (.upsert ⟨.code, []⟩) 1 true,
      sampleInput .timeout (10 ^ 9) false, sampleInput (.done true 0 10) (10 ^ 9) true]
    (P := fun history _ => (services history).map (fun c => (c.upserts.length, c.written.map
      fun x => (x.2.responseIndex, x.2.response.length, x.2.responseN))) = [(1, [(1, 0, 10)])])
    (by decide +kernel)
  obtain ⟨c, hc, hcontent⟩ := map_eq_singleton_iff.mp hservices
  obtain ⟨hupserts, hwritten⟩ := Prod.mk.inj hcontent
  refine ⟨history, s, c, hrun, hc, hupserts, hwritten, fun hsound => ?_⟩
  obtain ⟨⟨nonce, hstream⟩, -⟩ := hsound
  obtain ⟨x, hx, hindex⟩ := map_eq_singleton_iff.mp hwritten
  have hindices := hstream.indices
  simp [hx, (Prod.mk.inj hindex).1] at hindices

end Kinet.StateSync.Server
