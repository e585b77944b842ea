import Kinet.LeanUdp.Entries

/-!
# Isolation of dedicated identities

While an identity is dedicated, the decoder handles its packets as its own pool would alone:
what is returned for them depends on them and on their times, and on nothing else.

Main results:

- `dedicated_isolated`: two runs with the same packets of the identity return the same
  for them.
- `undedicated_disturbed`: an identity that is dropped from the dedicated ones is
  isolated no longer.
-/

namespace Kinet.LeanUdp

open Fallible List MessagePool Decoder Checked

variable {I : Type} [LinearOrder I]

/-! ## A pool with one identity -/

/-- A pool of `identity` alone. -/
structure MessagePool.Own (identity : I) (pool : MessagePool I) : Prop where
  wellFormed : pool.WellFormed
  limit : pool.identityUsage.maxMessagesPerIdentity = pool.cfg.maxMessages
  own : ∀ key state, pool.messages.lookup key = some state → key.1 = identity

namespace MessagePool.Own

variable {identity : I} {pool pool' : MessagePool I}

lemma shrinks (h : pool.Own identity) (hshrinks : pool.Shrinks pool')
    (hpool' : pool'.WellFormed) : pool'.Own identity where
  wellFormed := hpool'
  limit := by rw [hshrinks.limit, hshrinks.cfg, h.limit]
  own key state hkey := h.own key state (hshrinks.lookup key state hkey)

/-- The limit of the identity is reached before the pool is full. -/
lemma not_admissionBlocked (h : pool.Own identity)
    (hcount : pool.identityUsage.identityCount identity <
      pool.identityUsage.maxMessagesPerIdentity) : pool.admissionBlocked = false := by
  have hall : ∀ key ∈ pool.messages.keys.map Prod.fst, identity = key := by
    intro i hi
    obtain ⟨key, hkey, rfl⟩ := mem_map.mp hi
    obtain ⟨state, hstate⟩ := FiniteMap.mem_iff_lookup.mp (AList.mem_keys.mpr hkey)
    exact (h.own key state hstate).symm
  have hlength : pool.identityUsage.identityCount identity = pool.messages.keys.length := by
    rw [IdentityUsage.identityCount, h.wellFormed.counts.count_eq, count_eq_length.mpr hall,
      length_map]
  rw [hlength, h.limit] at hcount
  simpa [admissionBlocked] using hcount

end MessagePool.Own

section

variable {pool : MessagePool I} (now choice choice' : Nat) (key : MessageKey I)

lemma MessagePool.makePlace_choice (hroom : pool.admissionBlocked = false) :
    (makePlace now choice key).run.run pool = (makePlace now choice' key).run.run pool := by
  have hnot : ¬ pool.admissionBlocked = true := by simp [hroom]
  refine run_bind_congr ?_
  rw [after_get]
  rintro _ ⟨⟩
  rw [if_neg hnot, if_neg hnot]

lemma MessagePool.decodeWithAdmission_choice (input : FragmentInput I)
    (hroom : pool.hasMessage key = true ∨ pool.admissionBlocked = false) :
    (decodeWithAdmission now choice key input).run.run pool =
      (decodeWithAdmission now choice' key input).run.run pool := by
  refine run_bind_congr ?_
  rw [after_get]
  rintro _ ⟨⟩
  by_cases hmem : pool.hasMessage key = true
  · have hnot : ¬ (!pool.hasMessage key) = true := by simp [hmem]
    rw [if_neg hnot, if_neg hnot]
  · have hnew : (!pool.hasMessage key) = true := by simpa using hmem
    rw [if_pos hnew, if_pos hnew]
    rw [run_bind, run_bind, makePlace_choice now choice choice' key (hroom.resolve_left hmem)]

/-- A pool with one identity makes no random choice. -/
theorem Decoder.decodeInPool_choice {input : FragmentInput I} (h : pool.Own input.identity) :
    (decodeInPool now choice key input).run.run pool =
      (decodeInPool now choice' key input).run.run pool := by
  refine run_bind_congr ?_
  rw [after_get]
  rintro _ ⟨⟩
  by_cases hmem : pool.hasMessage key = true
  · have hnot : ¬ (!pool.hasMessage key) = true := by simp [hmem]
    rw [if_neg hnot, if_neg hnot]
    exact decodeWithAdmission_choice now choice choice' key input (.inl hmem)
  · have hnew : (!pool.hasMessage key) = true := by simpa using hmem
    rw [if_pos hnew, if_pos hnew]
    refine run_bind_congr ?_
    refine after_mono (returns_evictOneStaleForIdentityIfLimited h.wellFormed _ now).after ?_
    rintro _ pool1 ⟨-, hpool1, hshrinks⟩ _ -
    have hown := h.shrinks hshrinks hpool1
    refine run_bind_congr ?_
    rw [after_get]
    rintro _ ⟨⟩
    rw [IdentityUsage.ensureIdentityCapacity]
    by_cases hcount : pool1.identityUsage.identityCount input.identity <
        pool1.identityUsage.maxMessagesPerIdentity
    · rw [if_pos hcount]
      exact decodeWithAdmission_choice now choice choice' key input
        (.inr (hown.not_admissionBlocked hcount))
    · rw [if_neg hcount]
      refine run_bind_congr ?_
      rw [after_throw]
      intro _ hok
      cases hok

end

/-! ## The view of an identity -/

def MessagePool.ownDecode (now choice : Nat) (identity : I) (packet : Except DecodeError Packet) :
    PoolM I DecodeOutcome :=
  match packet with
  | .error e => throw e
  | .ok packet =>
    if packet.header.version ≠ protocolVersion then
      throw (.unsupportedVersion packet.header.version protocolVersion)
    else if !packet.header.hasKnownFlags then throw .invalidHeader
    else do
      let _ ← messageStatus (identity, packet.header.msgId) now
      decodeInPool now choice (identity, packet.header.msgId) (packet.input identity)

namespace Decoder

/-- `identity` is in its own pool only. -/
structure Isolated (config : Config) (identity : I) (view : Option (MessagePool I))
    (d : Decoder I) : Prop where
  wellFormed : d.WellFormed config
  pool : d.dedicatedPools.lookup identity = view
  priority : ∀ msgId, d.priorityPool.messages.lookup (identity, msgId) = none
  regular : ∀ msgId, d.regularPool.messages.lookup (identity, msgId) = none

section

variable {config : Config} {identity : I} {pool : MessagePool I} {view : Option (MessagePool I)}
  {d : Decoder I}

lemma Isolated.pool? (h : Isolated config identity (some pool) d) :
    d.pool? .dedicated identity = some pool := h.pool

lemma Isolated.own (h : Isolated config identity (some pool) d) : pool.Own identity where
  wellFormed := h.wellFormed.pools h.pool?
  limit := by
    rw [h.wellFormed.limit h.pool?, h.wellFormed.cfg h.pool?]
    rfl
  own := h.wellFormed.own h.pool?

/-! ### Packets of others -/

/-- Calls in the name of another identity. -/
lemma preserves_poolMut {α : Type} {other : I} (hne : identity ≠ other)
    (view : Option (MessagePool I)) (selected : PoolSelection) (m : PoolM I α) :
    Preserves (fun d => d.dedicatedPools.lookup identity = view) (poolMut selected other m) := by
  unfold poolMut
  intro d hd
  simp only [after_bind, after_get, andThen_ok, after_ofChecked, after_set]
  intro pool hpool p hp
  have hview : (d.setPool selected other p.2).dedicatedPools.lookup identity = view := by
    rw [← hd]
    cases selected with
    | dedicated =>
      rw [setPool]
      rw [FiniteMap.lookup_insert_eq_ite, if_neg hne]
    | priority | regular => rfl
  split
  · rwa [after_pure]
  · rwa [after_throw]

lemma preserves_decode {other : I} (hne : identity ≠ other) (view : Option (MessagePool I))
    (now choice : Nat) (score : FragmentPolicy) (packet : Except DecodeError Packet) :
    Preserves (fun d => d.dedicatedPools.lookup identity = view)
      (decode now score choice other packet) := by
  have hstatus := fun selected (key : MessageKey I) =>
    preserves_poolMut hne view selected (messageStatus key now)
  unfold decode
  split
  · exact preserves_throw _ _
  · refine .ite (preserves_throw _ _) (.ite (preserves_throw _ _) ?_)
    refine Preserves.bind ?_ fun selected => preserves_poolMut hne view _ _
    refine .get_bind fun d => ?_
    refine Preserves.bind (.get_bind fun d => .ite (hstatus _ _) (preserves_pure _ _)) fun _ => ?_
    refine .ite (preserves_pure _ _) ?_
    refine Preserves.bind (hstatus _ _) fun _ => .ite (preserves_pure _ _) ?_
    refine Preserves.bind (hstatus _ _) fun _ => .ite (preserves_pure _ _) ?_
    exact .ite (preserves_pure _ _) (preserves_pure _ _)

/-! ### Packets of the identity -/

section

variable (h : Isolated config identity (some pool) d)

include h

lemma Isolated.setPool {pool' : MessagePool I} (hpool' : pool'.WellFormed)
    (hshrinks : pool.Shrinks pool') :
    Isolated config identity (some pool') (d.setPool .dedicated identity pool') where
  wellFormed := h.wellFormed.forget h.pool? hpool' hshrinks
  pool := AList.lookup_insert _
  priority := h.priority
  regular := h.regular

lemma Isolated.returns_messageStatus (selected : PoolSelection) (hshared : selected ≠ .dedicated)
    (msgId : U16) (now : Nat) :
    returns (poolMut selected identity (messageStatus (identity, msgId) now)) d
      fun r d' => r = .ok .missing ∧ d' = d := by
  cases selected with
  | dedicated => exact absurd rfl hshared
  | priority =>
    refine returns_poolMut rfl ?_
    unfold messageStatus
    rw [returns_get_bind, h.priority, returns_pure]
    exact ⟨rfl, rfl⟩
  | regular =>
    refine returns_poolMut rfl ?_
    unfold messageStatus
    rw [returns_get_bind, h.regular, returns_pure]
    exact ⟨rfl, rfl⟩

lemma Isolated.returns_selectPool (msgId : U16) (now : Nat) (score : FragmentPolicy)
    {pool₁ : MessagePool I} {status : MessageStatus}
    (hstatus : (messageStatus (identity, msgId) now).run.run pool =
      .ok (.ok status, pool₁)) (hpool₁ : pool₁.WellFormed) (hshrinks : pool.Shrinks pool₁) :
    returns (selectPool identity (identity, msgId) now score) d fun r d₁ =>
      r = .ok .dedicated ∧ d₁ = d.setPool .dedicated identity pool₁ := by
  have hdedicated : (d.dedicatedPools.lookup identity).isSome = true := by
    rw [h.pool]
    rfl
  have h1 := h.setPool hpool₁ hshrinks
  unfold selectPool dedicatedStatus
  simp only [returns_bind, returns_get, andThen_ok]
  rw [returns_ite]
  refine ⟨fun _ => ?_, fun hnot => absurd hdedicated hnot⟩
  refine returns_poolMut h.pool? ⟨.ok status, pool₁, hstatus, ?_⟩
  dsimp only
  rw [andThen_ok, returns_ite, returns_pure]
  refine ⟨fun _ => ⟨rfl, rfl⟩, fun _ => ?_⟩
  rw [returns_bind]
  refine returns_mono (h1.returns_messageStatus .priority (by simp) msgId now) ?_
  rintro _ _ ⟨rfl, rfl⟩
  rw [andThen_ok, if_neg (by simp), returns_bind]
  refine returns_mono (h1.returns_messageStatus .regular (by simp) msgId now) ?_
  rintro _ _ ⟨rfl, rfl⟩
  rw [andThen_ok, if_neg (by simp), hdedicated, if_pos rfl, returns_pure]
  exact ⟨rfl, rfl⟩

/-- The decoder does what the pool would do alone. -/
lemma Isolated.returns_decode (now choice : Nat) (score : FragmentPolicy)
    (packet : Except DecodeError Packet) :
    returns (decode now score choice identity packet) d fun r d' =>
      ∃ pool', (ownDecode now choice identity packet).run.run pool = .ok (r, pool') ∧
        d'.dedicatedPools.lookup identity = some pool' ∧ d'.priorityPool = d.priorityPool ∧
        d'.regularPool = d.regularPool := by
  unfold decode ownDecode
  cases packet with
  | error e =>
    rw [returns_throw]
    exact ⟨pool, rfl, h.pool, rfl, rfl⟩
  | ok packet =>
    dsimp only
    split
    · rw [returns_throw]
      exact ⟨pool, rfl, h.pool, rfl, rfl⟩
    split
    · rw [returns_throw]
      exact ⟨pool, rfl, h.pool, rfl, rfl⟩
    -- first the status of the message, then the packet
    obtain ⟨_, pool1, hstatus, hpool1, hshrinks, status, rfl, -⟩ :=
      MessagePool.returns_messageStatus h.own.wellFormed (identity, packet.header.msgId) now
    obtain ⟨r, pool2, hdecode, -⟩ :=
      returns_decodeInPool hpool1 (packet.input identity) now choice
    rw [returns_bind]
    refine returns_mono (h.returns_selectPool packet.header.msgId now score hstatus hpool1 hshrinks) ?_
    rintro _ _ ⟨rfl, rfl⟩
    refine returns_poolMut (h.setPool hpool1 hshrinks).pool? ⟨r, pool2, hdecode, pool2, ?_, ?_, rfl, rfl⟩
    · rw [ExceptT.run_bind, StateT.run_bind, hstatus]
      exact hdecode
    · exact AList.lookup_insert _

omit h in
lemma ownDecode_choice (h : pool.Own identity) (now choice choice' : Nat)
    (packet : Except DecodeError Packet) :
    (ownDecode now choice identity packet).run.run pool =
      (ownDecode now choice' identity packet).run.run pool := by
  unfold ownDecode
  cases packet with
  | error e => rfl
  | ok packet =>
    dsimp only
    split
    · rfl
    split
    · rfl
    refine run_bind_congr ?_
    refine after_mono (MessagePool.returns_messageStatus h.wellFormed _ now).after ?_
    rintro _ pool1 ⟨hpool1, hshrinks, -⟩ _ -
    exact decodeInPool_choice now choice choice' _ (h.shrinks hshrinks hpool1)

end

end

end Decoder

/-! ## Runs -/

def Call.packetOf (identity : I) : Call I → Option (Nat × Except DecodeError Packet)
  | .decode now _ _ identity' packet => if identity' = identity then some (now, packet) else none
  | .setDedicatedIdentities _ => none

/-- The packets of an identity among some calls, with their times. -/
def ownPackets (identity : I) (calls : List (Call I)) : List (Nat × Except DecodeError Packet) :=
  calls.filterMap fun call => call.packetOf identity

def ownOutcomes (identity : I) (calls : List (Call I)) (outcomes : List Outcome) :
    List (Except DecodeError DecodeOutcome) :=
  (calls.zip outcomes).filterMap fun (call, outcome) =>
    (call.packetOf identity).bind fun _ => outcome

/-- Packets in a pool, one after the other. -/
def MessagePool.runOwn (identity : I) (pool : MessagePool I) :
    List (Nat × Except DecodeError Packet) → Checked (List (Except DecodeError DecodeOutcome))
  | [] => pure []
  | (now, packet) :: packets => do
    let (r, pool) ← (ownDecode now 0 identity packet).run.run pool
    let rs ← pool.runOwn identity packets
    pure (r :: rs)

def freshPool (config : Config) : MessagePool I :=
  .new (config.poolConfig .dedicated) (.withLimit (config.identityLimit .dedicated))

/-- The call leaves the identity among the dedicated ones. -/
def Call.Keeps (identity : I) : Call I → Prop
  | .decode _ _ _ _ _ => True
  | .setDedicatedIdentities identities => identity ∈ identities

variable {calls : List (Call I)}

namespace Decoder

section

variable {config : Config} {identity : I} {pool : MessagePool I} {view : Option (MessagePool I)}
  {d : Decoder I} {call : Call I}

lemma Isolated.other (h : Isolated config identity view d) {other : I} (hne : identity ≠ other)
    (now choice : Nat) (score : FragmentPolicy) (packet : Except DecodeError Packet) :
    ∃ outcome d', d.step (.decode now score choice other packet) = .ok (outcome, d') ∧
      Isolated config identity view d' := by
  obtain ⟨outcome, d', hstep, hstepped⟩ := h.wellFormed.stepped (.decode now score choice other packet)
  have hshared : ∀ selected msgId, d.lookup selected (identity, msgId) = none →
      d'.lookup selected (identity, msgId) = none := by
    intro selected msgId hnone
    cases hstepped with
    | handled _ handled =>
      refine Option.eq_none_iff_forall_ne_some.mpr fun state hstate => ?_
      rw [handled.others _ (fun heq => hne (congrArg Prod.fst heq)) selected state hstate] at hnone
      cases hnone
    | ignored => exact hnone
  refine ⟨outcome, d', hstep, hstepped.wellFormed h.wellFormed, ?_,
    fun msgId => hshared .priority msgId (h.priority msgId),
    fun msgId => hshared .regular msgId (h.regular msgId)⟩
  simp only [step, bind_eq_ok] at hstep
  obtain ⟨⟨r, d''⟩, hrun, hpure⟩ := hstep
  cases hpure
  exact preserves_decode hne view now choice score packet d h.pool _ _ hrun

lemma Isolated.packet (h : Isolated config identity (some pool) d) (now choice : Nat)
    (score : FragmentPolicy) (packet : Except DecodeError Packet) :
    ∃ r pool' d', d.step (.decode now score choice identity packet) = .ok (some r, d') ∧
      (ownDecode now 0 identity packet).run.run pool = .ok (r, pool') ∧
      Isolated config identity (some pool') d' := by
  obtain ⟨r, d', hrun, pool', hown, hpool', hpriority, hregular⟩ :=
    h.returns_decode now choice score packet
  have hstep : d.step (.decode now score choice identity packet) = .ok (some r, d') := by
    simp only [step, bind_eq_ok]
    exact ⟨_, hrun, rfl⟩
  rw [ownDecode_choice h.own now choice 0] at hown
  refine ⟨r, pool', d', hstep, hown, (h.wellFormed.step hstep).wellFormed h.wellFormed, hpool', ?_, ?_⟩
  · rw [hpriority]
    exact h.priority
  · rw [hregular]
    exact h.regular

lemma Isolated.rededicated (h : Isolated config identity view d) (identities : List I) :
    ∃ d', d.step (.setDedicatedIdentities identities) = .ok (none, d') ∧
      Isolated config identity (if identity ∈ identities then
        view.or (some (freshPool config)) else none) d' := by
  obtain ⟨outcome, d', hstep, hstepped⟩ := h.wellFormed.stepped (.setDedicatedIdentities identities)
  cases hstepped with
  | rededicated hd' =>
    refine ⟨d', hstep, h.wellFormed.rededicated hd', ?_, ?_, ?_⟩
    · rw [hd'.dedicatedPools, h.pool, h.wellFormed.dedicatedPoolConfig, h.wellFormed.dedicatedLimit]
      rfl
    · rw [hd'.priorityPool]
      exact h.priority
    · rw [hd'.regularPool]
      exact h.regular

/-- While the identity is dedicated, its packets are handled as by its pool alone. -/
theorem Isolated.run (h : Isolated config identity (some pool) d)
    (hkeeps : ∀ call ∈ calls, call.Keeps identity) :
    ∃ outcomes d', d.run calls = .ok (outcomes, d') ∧
      pool.runOwn identity (ownPackets identity calls) =
        .ok (ownOutcomes identity calls outcomes) := by
  induction calls generalizing pool d with
  | nil => exact ⟨[], d, rfl, rfl⟩
  | cons call calls ih =>
    have hrest := fun {pool d} (h : Isolated config identity (some pool) d) =>
      ih h fun call hcall => hkeeps call (mem_cons_of_mem _ hcall)
    cases call with
    | decode now score choice other packet =>
      by_cases heq : other = identity
      · subst heq
        obtain ⟨r, pool', d1, hstep, hown, h1⟩ := h.packet now choice score packet
        obtain ⟨outcomes, d', hrun, hresults⟩ := hrest h1
        refine ⟨some r :: outcomes, d', run_cons hstep hrun, ?_⟩
        simp only [ownPackets, Call.packetOf, if_pos, filterMap_cons, runOwn, bind_eq_ok]
        exact ⟨_, hown, _, hresults, by simp [ownOutcomes, Call.packetOf]; rfl⟩
      · obtain ⟨outcome, d1, hstep, h1⟩ := h.other (Ne.symm heq) now choice score packet
        obtain ⟨outcomes, d', hrun, hresults⟩ := hrest h1
        refine ⟨outcome :: outcomes, d', run_cons hstep hrun, ?_⟩
        simpa [ownPackets, ownOutcomes, Call.packetOf, heq] using hresults
    | setDedicatedIdentities identities =>
      obtain ⟨d1, hstep, h1⟩ := h.rededicated identities
      have hmem : identity ∈ identities := hkeeps _ mem_cons_self
      rw [if_pos hmem, Option.some_or] at h1
      obtain ⟨outcomes, d', hrun, hresults⟩ := hrest h1
      exact ⟨none :: outcomes, d', run_cons hstep hrun, hresults⟩

lemma Isolated.unheard {before rest : List (Call I)} (h : Isolated config identity view d)
    (hview : ∀ pool, view = some pool → pool = freshPool config)
    (hnone : ownPackets identity before = []) (P : List (Except DecodeError DecodeOutcome) → Prop)
    (hrest : ∀ {view d}, Isolated config identity view d →
      (∀ pool, view = some pool → pool = freshPool config) →
      ∃ outcomes d', d.run rest = .ok (outcomes, d') ∧ P (ownOutcomes identity rest outcomes)) :
    ∃ outcomes d', d.run (before ++ rest) = .ok (outcomes, d') ∧
      P (ownOutcomes identity (before ++ rest) outcomes) := by
  induction before generalizing view d with
  | nil => exact hrest h hview
  | cons call before ih =>
    have hcall : call.packetOf identity = none := by
      simp only [ownPackets, filterMap_eq_nil_iff] at hnone
      exact hnone call mem_cons_self
    have hnone : ownPackets identity before = [] := by
      simpa [ownPackets, hcall] using hnone
    suffices hstep : ∃ outcome d1 view1, d.step call = .ok (outcome, d1) ∧
        Isolated config identity view1 d1 ∧ ∀ pool, view1 = some pool → pool = freshPool config by
      obtain ⟨outcome, d1, view1, hstep, h1, hview1⟩ := hstep
      obtain ⟨outcomes, d', hrun, hP⟩ := ih h1 hview1 hnone
      refine ⟨outcome :: outcomes, d', run_cons hstep hrun, ?_⟩
      simpa [ownOutcomes, hcall] using hP
    cases call with
    | decode now score choice other packet =>
      have hne : identity ≠ other := by
        rintro rfl
        simp [Call.packetOf] at hcall
      obtain ⟨outcome, d1, hstep, h1⟩ := h.other hne now choice score packet
      exact ⟨outcome, d1, view, hstep, h1, hview⟩
    | setDedicatedIdentities identities =>
      obtain ⟨d1, hstep, h1⟩ := h.rededicated identities
      refine ⟨none, d1, _, hstep, h1, fun pool hpool => ?_⟩
      split at hpool
      · rw [Option.or_eq_some_iff] at hpool
        obtain hpool | ⟨-, hpool⟩ := hpool
        · exact hview pool hpool
        · exact (Option.some.inj hpool).symm
      · cases hpool

end

lemma isolated_new (config : Config) (identity : I) :
    Isolated config identity none (new config) where
  wellFormed := wellFormed_new config
  pool := rfl
  priority _ := rfl
  regular _ := rfl

end Decoder

/-- The identity is dedicated before its first packet and from then on. -/
def Dedicates (identity : I) (calls : List (Call I)) : Prop :=
  ∃ before identities after, calls = before ++ .setDedicatedIdentities identities :: after ∧
    identity ∈ identities ∧ ownPackets identity before = [] ∧
    ∀ call ∈ after, call.Keeps identity

theorem Dedicates.run {identity : I} (h : Dedicates identity calls)
    (config : Config) : ∃ outcomes d', (new config).run calls = .ok (outcomes, d') ∧
      (freshPool config).runOwn identity (ownPackets identity calls) =
        .ok (ownOutcomes identity calls outcomes) := by
  obtain ⟨before, identities, after, rfl, hmem, hnone, hkeeps⟩ := h
  have hpackets : ownPackets identity (before ++ .setDedicatedIdentities identities :: after) =
      ownPackets identity after := by
    rw [ownPackets, filterMap_append]
    exact (congrArg (· ++ _) hnone).trans (nil_append _)
  rw [hpackets]
  refine (isolated_new config identity).unheard nofun hnone
    (fun results => (freshPool config).runOwn identity (ownPackets identity after) = .ok results) ?_
  intro view d h hview
  obtain ⟨d1, hstep, h1⟩ := h.rededicated identities
  have hfresh : (if identity ∈ identities then view.or (some (freshPool config)) else none) =
      some (freshPool config) := by
    rw [if_pos hmem]
    cases view with
    | none => rfl
    | some pool => rw [hview pool rfl, Option.some_or]
  rw [hfresh] at h1
  obtain ⟨outcomes, d', hrun, hresults⟩ := h1.run hkeeps
  exact ⟨none :: outcomes, d', run_cons hstep hrun, hresults⟩

/-- Two runs with the same packets of a dedicated identity, at the same times: whatever the
others send and whatever is chosen at random, the same is returned for its packets. -/
theorem dedicated_isolated (config : Config) (identity : I) {calls₁ calls₂ : List (Call I)}
    (h₁ : Dedicates identity calls₁) (h₂ : Dedicates identity calls₂)
    (hsame : ownPackets identity calls₁ = ownPackets identity calls₂) :
    ∃ outcomes₁ d₁ outcomes₂ d₂, (new config).run calls₁ = .ok (outcomes₁, d₁) ∧
      (new config).run calls₂ = .ok (outcomes₂, d₂) ∧
      ownOutcomes identity calls₁ outcomes₁ = ownOutcomes identity calls₂ outcomes₂ := by
  obtain ⟨outcomes₁, d₁, hrun1, hown1⟩ := h₁.run config
  obtain ⟨outcomes₂, d₂, hrun2, hown2⟩ := h₂.run config
  rw [hsame, hown2] at hown1
  exact ⟨outcomes₁, d₁, outcomes₂, d₂, hrun1, hrun2, (Except.ok.inj hown1).symm⟩

/-! ## Sample runs -/

def sendBy (identity : Nat) (seqNum : U16) (fragmentType : FragmentType) (payload : Bytes) :
    Call Nat :=
  .decode 0 .regular 0 identity (.ok ⟨.new 7 seqNum fragmentType, payload⟩)

/-- Identity 1 sends a message in two packets; in the second run, identity 2 sends one between
them. -/
theorem dedicated_isolated_sample : ∃ outcomes₁ d₁ outcomes₂ d₂, (new .default).run
      [.setDedicatedIdentities [1], sendBy 1 0 .start [10], sendBy 1 1 .last [20]] =
      .ok (outcomes₁, d₁) ∧
    (new .default).run
      [.setDedicatedIdentities [1], sendBy 1 0 .start [10], sendBy 2 0 .start [30],
        sendBy 1 1 .last [20]] = .ok (outcomes₂, d₂) ∧
    ownOutcomes 1 [.setDedicatedIdentities [1], sendBy 1 0 .start [10], sendBy 1 1 .last [20]]
      outcomes₁ =
    ownOutcomes 1 [.setDedicatedIdentities [1], sendBy 1 0 .start [10], sendBy 2 0 .start [30],
      sendBy 1 1 .last [20]] outcomes₂ := by
  refine dedicated_isolated .default 1 ⟨[], [1], _, rfl, by decide, rfl, ?_⟩
    ⟨[], [1], _, rfl, by decide, rfl, ?_⟩ rfl
  · simp [sendBy, Call.Keeps]
  · simp [sendBy, Call.Keeps]

/-- A configuration with one message for all identities that are not dedicated. -/
def oneRegular : Config := { Config.default with maxRegularMessages := 1 }

/-- Identity 1 is dropped after its first message; then the packet of identity 2 takes the only
place away from its second message. -/
theorem undedicated_disturbed : oneRegular.Valid ∧
    ∃ (calls₁ calls₂ : List (Call Nat)) (outcomes₁ outcomes₂ : List Outcome) (d₁ d₂ : Decoder Nat),
      calls₁ = [.setDedicatedIdentities [1], sendBy 1 0 .complete [5], .setDedicatedIdentities [],
        sendBy 1 0 .start [10], sendBy 1 1 .last [20]] ∧
      calls₂ = [.setDedicatedIdentities [1], sendBy 1 0 .complete [5], .setDedicatedIdentities [],
        sendBy 1 0 .start [10], sendBy 2 0 .start [30], sendBy 1 1 .last [20]] ∧
      ownPackets 1 calls₁ = ownPackets 1 calls₂ ∧
      (new oneRegular).run calls₁ = .ok (outcomes₁, d₁) ∧
      (new oneRegular).run calls₂ = .ok (outcomes₂, d₂) ∧
      ownOutcomes 1 calls₁ outcomes₁ =
        [.ok (.complete [5]), .ok .pending, .ok (.complete [10, 20])] ∧
      ownOutcomes 1 calls₂ outcomes₂ = [.ok (.complete [5]), .ok .pending, .ok .pending] := by
  have heval : (do
      let (outcomes₁, _) ← (new oneRegular).run [.setDedicatedIdentities [1],
        sendBy 1 0 .complete [5], .setDedicatedIdentities [], sendBy 1 0 .start [10],
        sendBy 1 1 .last [20]]
      let (outcomes₂, _) ← (new oneRegular).run [.setDedicatedIdentities [1],
        sendBy 1 0 .complete [5], .setDedicatedIdentities [], sendBy 1 0 .start [10],
        sendBy 2 0 .start [30], sendBy 1 1 .last [20]]
      pure (outcomes₁, outcomes₂)) =
      .ok ([none, some (.ok (.complete [5])), none, some (.ok .pending),
          some (.ok (.complete [10, 20]))],
        [none, some (.ok (.complete [5])), none, some (.ok .pending), some (.ok .pending),
          some (.ok .pending)]) := by
    decide +kernel
  simp only [bind_eq_ok] at heval
  obtain ⟨⟨outcomes₁, d₁⟩, hrun1, ⟨outcomes₂, d₂⟩, hrun2, hpure⟩ := heval
  cases hpure
  exact ⟨by constructor <;> decide, _, _, _, _, d₁, d₂, rfl, rfl, rfl, hrun1, hrun2, rfl, rfl⟩

end Kinet.LeanUdp
