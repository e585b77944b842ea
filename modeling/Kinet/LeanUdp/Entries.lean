import Kinet.LeanUdp.Bookkeeping

/-!
# The entries of a decoder

To its callers a decoder is a table of unfinished messages.  A message is in one pool at
most, so the table has one entry for a message, and a call with a fragment changes it as
the pool of the message does.

Main results:

- `Decoder.returns_decode`: what a fragment does to the entry of its message; other
  entries are kept or forgotten.
-/

namespace Kinet.LeanUdp

open Fallible FiniteMap Option MessagePool

variable {I : Type} [LinearOrder I]

def Config.poolConfig (config : Config) : PoolSelection → PoolConfig
  | .dedicated => .fromConfig config config.maxMessagesPerDedicatedIdentity
  | .priority => .fromConfig config config.maxPriorityMessages
  | .regular => .fromConfig config config.maxRegularMessages

def Config.identityLimit (config : Config) : PoolSelection → Nat
  | .dedicated => config.maxMessagesPerDedicatedIdentity
  | .priority => config.maxMessagesPerIdentity
  | .regular => config.maxMessagesPerIdentity

variable {selected : PoolSelection} {pool : MessagePool I} {r : Except DecodeError DecodeOutcome}
  {state : MessageState} {pool' : MessagePool I} {now : Nat}

namespace Decoder

def lookup (d : Decoder I) (selected : PoolSelection) (key : MessageKey I) : Option MessageState :=
  (d.pool? selected key.1).bind fun pool => pool.messages.lookup key

def find (d : Decoder I) (key : MessageKey I) : Option MessageState :=
  (d.lookup .dedicated key).or ((d.lookup .priority key).or (d.lookup .regular key))

/-- The entry of a message whose deadline has not passed. -/
def held (d : Decoder I) (key : MessageKey I) (now : Nat) : Option MessageState :=
  (d.find key).filter fun state => now < state.evictionDeadline

/-- Every pool is in order, dedicated pools have messages of their identity only, and no
message is in two pools. -/
structure WellFormed (config : Config) (d : Decoder I) : Prop where
  dedicatedPoolConfig : d.dedicatedPoolConfig = config.poolConfig .dedicated
  dedicatedLimit : d.maxMessagesPerDedicatedIdentity = config.identityLimit .dedicated
  pools : ∀ {selected identity pool}, d.pool? selected identity = some pool → pool.WellFormed
  cfg : ∀ {selected identity pool}, d.pool? selected identity = some pool →
    pool.cfg = config.poolConfig selected
  limit : ∀ {selected identity pool}, d.pool? selected identity = some pool →
    pool.identityUsage.maxMessagesPerIdentity = config.identityLimit selected
  own : ∀ {identity pool}, d.pool? .dedicated identity = some pool →
    ∀ key state, pool.messages.lookup key = some state → key.1 = identity
  unique : ∀ {key selected selected' state state'}, d.lookup selected key = some state →
    d.lookup selected' key = some state' → selected = selected'

lemma wellFormed_new (config : Config) : (new config : Decoder I).WellFormed config := by
  have hpool : ∀ {selected identity pool}, (new config : Decoder I).pool? selected identity = some pool →
      pool = .new (config.poolConfig selected) (.withLimit (config.identityLimit selected)) := by
    intro selected identity pool hpool
    cases selected with
    | dedicated => simp [new, pool?] at hpool
    | priority | regular => exact (some.inj hpool).symm
  have hlookup : ∀ selected key, (new config : Decoder I).lookup selected key = none := by
    intro selected key
    rw [lookup, bind_eq_none_iff]
    intro pool h
    rw [hpool h]
    rfl
  refine ⟨rfl, rfl, fun h => ?_, fun h => ?_, fun h => ?_, fun h => ?_, fun h => ?_⟩
  · rw [hpool h]
    exact MessagePool.wellFormed_new _ _
  · rw [hpool h]
    rfl
  · rw [hpool h]
    rfl
  · simp [new, pool?] at h
  · rw [hlookup] at h
    cases h

section

variable {config : Config} {d : Decoder I} (h : d.WellFormed config) {key : MessageKey I}

include h

lemma WellFormed.find_eq_some :
    d.find key = some state ↔ ∃ selected, d.lookup selected key = some state := by
  constructor
  · intro hfind
    simp only [find, or_eq_some_iff] at hfind
    obtain hfind | ⟨-, hfind | ⟨-, hfind⟩⟩ := hfind
    · exact ⟨_, hfind⟩
    · exact ⟨_, hfind⟩
    · exact ⟨_, hfind⟩
  · rintro ⟨selected, hlookup⟩
    have hnone : ∀ selected', selected' ≠ selected → d.lookup selected' key = none := by
      intro selected' hne
      refine eq_none_iff_forall_ne_some.mpr fun state' hstate' => hne ?_
      exact h.unique hstate' hlookup
    cases selected with
    | dedicated => simp [find, hlookup]
    | priority => simp [find, hlookup, hnone .dedicated]
    | regular => simp [find, hlookup, hnone .dedicated, hnone .priority]

lemma WellFormed.held_eq_some : d.held key now = some state ↔
      now < state.evictionDeadline ∧ ∃ selected, d.lookup selected key = some state := by
  rw [held, filter_eq_some_iff, h.find_eq_some, and_comm, decide_eq_true_iff]

omit h in
lemma find_eq_none : d.find key = none ↔ ∀ selected, d.lookup selected key = none := by
  simp only [find, or_eq_none_iff]
  constructor
  · rintro ⟨hdedicated, hpriority, hregular⟩ selected
    cases selected <;> assumption
  · intro h
    exact ⟨h _, h _, h _⟩

end

/-! ## Calls of a pool -/

section

variable {d : Decoder I} {selected : PoolSelection} {identity : I} {pool : MessagePool I}

lemma pool?_setPool (selected' : PoolSelection) (identity' : I) :
    (d.setPool selected identity pool).pool? selected' identity' =
      if selected' = selected ∧ (selected = .dedicated → identity' = identity) then some pool
      else d.pool? selected' identity' := by
  cases selected <;> cases selected' <;> simp [setPool, pool?, lookup_insert_eq_ite]

lemma lookup_setPool (selected' : PoolSelection) (key : MessageKey I) :
    (d.setPool selected identity pool).lookup selected' key =
      if selected' = selected ∧ (selected = .dedicated → key.1 = identity) then
        pool.messages.lookup key
      else d.lookup selected' key := by
  rw [lookup, pool?_setPool]
  split
  · rfl
  · rfl

lemma returns_poolMut {α : Type} {m : PoolM I α} {Q : Except DecodeError α → Decoder I → Prop}
    (hpool : d.pool? selected identity = some pool)
    (hm : returns m pool fun r pool' => Q r (d.setPool selected identity pool')) :
    returns (poolMut selected identity m) d Q := by
  obtain ⟨r, pool', hrun, hQ⟩ := hm
  unfold poolMut
  simp only [returns_bind, returns_get, andThen_ok, returns_ofChecked, hpool, Checked.unwrap_eq_ok,
    hrun, Except.ok.injEq, some.injEq, exists_eq_left', returns_set]
  cases r with
  | ok a => rwa [returns_pure]
  | error e => rwa [returns_throw]

end

section

variable {config : Config} {d : Decoder I} {selected : PoolSelection} {identity : I}
  {pool pool' : MessagePool I}

lemma lookup_of_pool? (hpool : d.pool? selected identity = some pool) (key : MessageKey I)
    (hkey : selected = .dedicated → key.1 = identity) :
    d.lookup selected key = pool.messages.lookup key := by
  have hpool' : d.pool? selected key.1 = some pool := by
    cases selected with
    | dedicated => rw [hkey rfl, hpool]
    | priority | regular => exact hpool
  rw [lookup, hpool', bind_some]

/-- A pool is replaced by one with the same limits; what is new in it is a message of the
identity that no pool had. -/
lemma WellFormed.setPool (h : d.WellFormed config) (hpool : d.pool? selected identity = some pool)
    (hpool' : pool'.WellFormed) (hcfg : pool'.cfg = pool.cfg)
    (hlimit : pool'.identityUsage.maxMessagesPerIdentity = pool.identityUsage.maxMessagesPerIdentity)
    (hmessages : ∀ key state', pool'.messages.lookup key = some state' →
      (∃ state, pool.messages.lookup key = some state) ∨
        key.1 = identity ∧ ∀ selected', d.lookup selected' key = none) :
    (d.setPool selected identity pool').WellFormed config := by
  -- a message of another pool is not in the new pool
  have hother : ∀ {key selected' state state'}, pool'.messages.lookup key = some state →
      (selected = .dedicated → key.1 = identity) → d.lookup selected' key = some state' →
      selected' = selected := by
    intro key selected' state state' hkey hidentity hlookup
    obtain ⟨state0, hstate0⟩ | ⟨-, hnone⟩ := hmessages key state hkey
    · exact h.unique hlookup ((lookup_of_pool? hpool key hidentity).trans hstate0)
    · rw [hnone] at hlookup
      cases hlookup
  refine ⟨?_, ?_, fun h' => ?_, fun h' => ?_, fun h' => ?_, fun h' => ?_, fun hkey hkey' => ?_⟩
  · cases selected <;> exact h.dedicatedPoolConfig
  · cases selected <;> exact h.dedicatedLimit
  · rw [pool?_setPool] at h'
    split at h'
    · cases h'
      exact hpool'
    · exact h.pools h'
  · rw [pool?_setPool] at h'
    split at h'
    · next heq =>
      cases h'
      rw [hcfg, h.cfg hpool, heq.1]
    · exact h.cfg h'
  · rw [pool?_setPool] at h'
    split at h'
    · next heq =>
      cases h'
      rw [hlimit, h.limit hpool, heq.1]
    · exact h.limit h'
  · rw [pool?_setPool] at h'
    split at h'
    · next heq =>
      cases h'
      obtain ⟨rfl, hidentity⟩ := heq
      intro key state hkey
      obtain ⟨state0, hstate0⟩ | ⟨hkey, -⟩ := hmessages key state hkey
      · rw [hidentity rfl]
        exact h.own hpool key state0 hstate0
      · rw [hidentity rfl]
        exact hkey
    · exact h.own h'
  · rw [lookup_setPool] at hkey hkey'
    split at hkey
    · next heq =>
      split at hkey'
      · next heq' => exact heq.1.trans heq'.1.symm
      · exact heq.1.trans (hother hkey heq.2 hkey').symm
    · split at hkey'
      · next heq' => exact (hother hkey' heq'.2 hkey).trans heq'.1.symm
      · exact h.unique hkey hkey'

end

/-- The same dedicated identities, and only entries that were there, in the same pools. -/
structure Shrinks (d d' : Decoder I) : Prop where
  dedicated : ∀ identity, (d'.dedicatedPools.lookup identity).isSome =
    (d.dedicatedPools.lookup identity).isSome
  lookup : ∀ selected key state, d'.lookup selected key = some state →
    d.lookup selected key = some state

lemma Shrinks.refl (d : Decoder I) : d.Shrinks d := ⟨fun _ => rfl, fun _ _ _ h => h⟩

lemma Shrinks.trans {d d' d'' : Decoder I} (h : d.Shrinks d') (h' : d'.Shrinks d'') :
    d.Shrinks d'' :=
  ⟨fun identity => (h'.dedicated identity).trans (h.dedicated identity),
    fun selected key state hkey => h.lookup selected key state (h'.lookup selected key state hkey)⟩

lemma dedicated_setPool {d : Decoder I} {identity : I}
    (hpool : d.pool? selected identity = some pool) (identity' : I) :
    ((d.setPool selected identity pool').dedicatedPools.lookup identity').isSome =
      (d.dedicatedPools.lookup identity').isSome := by
  cases selected with
  | dedicated =>
    rw [setPool]
    rw [lookup_insert_eq_ite]
    split
    · next heq =>
      rw [heq, show d.dedicatedPools.lookup identity = some pool from hpool]
      rfl
    · rfl
  | priority | regular => rfl

section

variable {d : Decoder I} {selected : PoolSelection} {identity : I} {pool pool' : MessagePool I}

lemma shrinks_setPool (hpool : d.pool? selected identity = some pool)
    (hshrinks : pool.Shrinks pool') : d.Shrinks (d.setPool selected identity pool') := by
  refine ⟨dedicated_setPool hpool, fun selected' key state hkey => ?_⟩
  rw [lookup_setPool] at hkey
  split at hkey
  · next heq =>
    rw [heq.1, lookup_of_pool? hpool key heq.2]
    exact hshrinks.lookup key state hkey
  · exact hkey

lemma WellFormed.forget {config : Config} (h : d.WellFormed config)
    (hpool : d.pool? selected identity = some pool) (hpool' : pool'.WellFormed)
    (hshrinks : pool.Shrinks pool') : (d.setPool selected identity pool').WellFormed config := by
  refine h.setPool hpool hpool' hshrinks.cfg hshrinks.limit fun key state' hkey => .inl ?_
  exact ⟨state', hshrinks.lookup key state' hkey⟩

end

/-! ## Choice of a pool -/

structure Status (d : Decoder I) (selected : PoolSelection) (key : MessageKey I) (now : Nat)
    (status : MessageStatus) (d' : Decoder I) : Prop where
  shrinks : d.Shrinks d'
  others : ∀ selected', selected' ≠ selected → d'.lookup selected' key = d.lookup selected' key
  active : status = .active →
    ∃ state, d'.lookup selected key = some state ∧ now < state.evictionDeadline
  inactive : status ≠ .active → d'.lookup selected key = none ∧
    ∀ state, d.lookup selected key = some state → ¬ now < state.evictionDeadline

/-- The pool for a fragment: the one with the entry of its message if the entry is in time;
otherwise no entry is left. -/
structure Selected (d : Decoder I) (key : MessageKey I) (now : Nat) (selected : PoolSelection)
    (d' : Decoder I) : Prop where
  shrinks : d.Shrinks d'
  pool : ∃ pool, d'.pool? selected key.1 = some pool
  lookup : ∀ selected', d'.lookup selected' key =
    if selected' = selected then d.held key now else none

section

variable {config : Config} {d : Decoder I} (h : d.WellFormed config) {selected : PoolSelection}
  {key : MessageKey I} {now : Nat}

include h

lemma returns_messageStatus (hpool : d.pool? selected key.1 = some pool) :
    returns (poolMut selected key.1 (messageStatus key now)) d fun r d' =>
      d'.WellFormed config ∧ ∃ status, r = .ok status ∧ d.Status selected key now status d' := by
  refine returns_poolMut hpool ?_
  refine returns_mono (MessagePool.returns_messageStatus (h.pools hpool) key now) ?_
  rintro r pool' ⟨hpool', hshrinks, status, hr, hactive, hinactive⟩
  have hlookup' : (d.setPool selected key.1 pool').lookup selected key =
      pool'.messages.lookup key := by
    rw [lookup_setPool, if_pos ⟨rfl, fun _ => rfl⟩]
  refine ⟨h.forget hpool hpool' hshrinks, status, hr, shrinks_setPool hpool hshrinks,
    fun selected' hne => ?_, ?_, ?_⟩
  · rw [lookup_setPool, if_neg fun heq => hne heq.1]
  · rwa [hlookup']
  · rwa [hlookup', lookup_of_pool? hpool key fun _ => rfl]

/-- A pool with an entry in time is the right one. -/
lemma WellFormed.selected_of_active {d₀ d' : Decoder I} (h' : d'.WellFormed config)
    (hshrinks : d.Shrinks d') {status : MessageStatus} (hstatus : d₀.Status selected key now status d')
    (hactive : status = .active) : d.Selected key now selected d' := by
  obtain ⟨state, hstate, hlt⟩ := hstatus.active hactive
  refine ⟨hshrinks, ?_, fun selected' => ?_⟩
  · obtain ⟨pool, hpool, -⟩ := bind_eq_some_iff.mp hstate
    exact ⟨pool, hpool⟩
  · have hheld : d.held key now = some state :=
      h.held_eq_some.mpr ⟨hlt, selected, hshrinks.lookup selected key state hstate⟩
    split
    · next heq => rw [heq, hheld, hstate]
    · next hne =>
      refine eq_none_iff_forall_ne_some.mpr fun state' hstate' => hne ?_
      exact h'.unique hstate' hstate

lemma returns_dedicatedStatus : returns (dedicatedStatus key.1 key now) d fun r d' =>
      d'.WellFormed config ∧ ∃ status, r = .ok status ∧ d.Status .dedicated key now status d' := by
  unfold dedicatedStatus
  rw [returns_get_bind, returns_ite]
  refine ⟨fun hsome => ?_, fun hnone => ?_⟩
  · obtain ⟨pool, hpool⟩ := isSome_iff_exists.mp hsome
    exact returns_messageStatus h hpool
  · rw [Bool.not_eq_true, isSome_eq_false_iff, isNone_iff_eq_none] at hnone
    have hlookup : d.lookup .dedicated key = none := by
      rw [lookup, pool?, hnone, bind_none]
    rw [returns_pure]
    refine ⟨h, .missing, rfl, .refl d, fun _ _ => rfl, nofun, fun _ => ⟨hlookup, ?_⟩⟩
    rw [hlookup]
    nofun

variable (key) in
lemma returns_selectPool (score : FragmentPolicy) :
    returns (selectPool key.1 key now score) d fun r d' =>
      d'.WellFormed config ∧ ∃ selected, r = .ok selected ∧ d.Selected key now selected d' := by
  unfold selectPool
  rw [returns_get_bind, returns_bind]
  refine returns_mono (returns_dedicatedStatus h) ?_
  rintro r d1 ⟨h1, status1, rfl, hstatus1⟩
  rw [andThen_ok, returns_ite]
  refine ⟨fun hactive => ?_, fun hinactive1 => ?_⟩
  · rw [returns_pure]
    exact ⟨h1, _, rfl, h.selected_of_active h1 hstatus1.shrinks hstatus1 hactive⟩
  rw [returns_bind]
  refine returns_mono (returns_messageStatus h1 rfl) ?_
  rintro r d2 ⟨h2, status2, rfl, hstatus2⟩
  have hshrinks := hstatus1.shrinks.trans hstatus2.shrinks
  rw [andThen_ok, returns_ite]
  refine ⟨fun hactive => ?_, fun hinactive2 => ?_⟩
  · rw [returns_pure]
    exact ⟨h2, _, rfl, h.selected_of_active h2 hshrinks hstatus2 hactive⟩
  rw [returns_bind]
  refine returns_mono (returns_messageStatus h2 rfl) ?_
  rintro r d3 ⟨h3, status3, rfl, hstatus3⟩
  have hshrinks := hshrinks.trans hstatus3.shrinks
  rw [andThen_ok, returns_ite]
  refine ⟨fun hactive => ?_, fun hinactive3 => ?_⟩
  · rw [returns_pure]
    exact ⟨h3, _, rfl, h.selected_of_active h3 hshrinks hstatus3 hactive⟩
  -- no pool has the message any more
  obtain ⟨hnone1, hstale1⟩ := hstatus1.inactive hinactive1
  obtain ⟨hnone2, hstale2⟩ := hstatus2.inactive hinactive2
  obtain ⟨hnone3, hstale3⟩ := hstatus3.inactive hinactive3
  have hnone : ∀ selected', d3.lookup selected' key = none := by
    intro selected'
    cases selected' with
    | dedicated =>
      rw [hstatus3.others .dedicated nofun, hstatus2.others .dedicated nofun, hnone1]
    | priority => rw [hstatus3.others .priority nofun, hnone2]
    | regular => exact hnone3
  have hheld : d.held key now = none := by
    refine eq_none_iff_forall_ne_some.mpr fun state hstate => ?_
    obtain ⟨hlt, selected, hlookup⟩ := h.held_eq_some.mp hstate
    cases selected with
    | dedicated => exact hstale1 state hlookup hlt
    | priority =>
      rw [← hstatus1.others .priority nofun] at hlookup
      exact hstale2 state hlookup hlt
    | regular =>
      rw [← hstatus1.others .regular nofun, ← hstatus2.others .regular nofun] at hlookup
      exact hstale3 state hlookup hlt
  rw [returns_ite, returns_pure, returns_pure]
  refine ⟨fun hdedicated => ⟨h3, _, rfl, hshrinks, ?_, fun selected' => ?_⟩,
    fun _ => ⟨h3, _, rfl, hshrinks, ?_, fun selected' => ?_⟩⟩
  · rw [← hshrinks.dedicated] at hdedicated
    exact isSome_iff_exists.mp hdedicated
  · rw [hnone, hheld, ite_self]
  · cases score <;> exact ⟨_, rfl⟩
  · rw [hnone, hheld, ite_self]

end

/-! ## Fragments -/

def NoRoom : DecodeError → Prop
  | .poolFull => True
  | .identityLimitExceeded _ => True
  | _ => False

/-- What a fragment does to the entry of its message.  Without an entry, one is made if there
is room. -/
inductive EntryStep (cfg : PoolConfig) (now : Nat) (input : FragmentInput I) :
    Option MessageState → Except DecodeError DecodeOutcome → Option MessageState → Prop
  | added {state r entry} (added : MessagePool.Added cfg state input r entry) :
      EntryStep cfg now input (some state) r entry
  | created {r entry}
      (added : MessagePool.Added cfg (.new (now + cfg.messageTimeout)) input r entry) :
      EntryStep cfg now input none r entry
  | refused {e} (noRoom : NoRoom e) : EntryStep cfg now input none (.error e) none

omit [LinearOrder I] in
lemma EntryStep.of_none {cfg : PoolConfig} {input : FragmentInput I} {entry : Option MessageState}
    (h : EntryStep cfg now input none r entry) :
    Added cfg (.new (now + cfg.messageTimeout)) input r entry ∨
      ∃ e, NoRoom e ∧ r = .error e := by
  cases h with
  | created added => exact .inl added
  | refused noRoom => exact .inr ⟨_, noRoom, rfl⟩

/-- What a fragment does to its pool. -/
structure PoolStep (pool : MessagePool I) (now : Nat) (input : FragmentInput I)
    (r : Except DecodeError DecodeOutcome) (pool' : MessagePool I) : Prop where
  wellFormed : pool'.WellFormed
  cfg : pool'.cfg = pool.cfg
  limit : pool'.identityUsage.maxMessagesPerIdentity = pool.identityUsage.maxMessagesPerIdentity
  others : ∀ key, key ≠ (input.identity, input.msgId) →
    ∀ state, pool'.messages.lookup key = some state → pool.messages.lookup key = some state
  entry : EntryStep pool.cfg now input (pool.messages.lookup (input.identity, input.msgId)) r
    (pool'.messages.lookup (input.identity, input.msgId))

section

variable {pool : MessagePool I} (h : pool.WellFormed) {input : FragmentInput I} (now choice : Nat)

include h

lemma returns_decodeWithAdmission_of_mem
    (hstate : pool.messages.lookup (input.identity, input.msgId) = some state) :
    returns (decodeWithAdmission now choice (input.identity, input.msgId) input) pool
      (PoolStep pool now input) := by
  unfold decodeWithAdmission
  rw [returns_get_bind, if_neg (by simp [hasMessage, hstate])]
  refine returns_mono (returns_decode h hstate) ?_
  intro r pool' hdecoded
  refine ⟨hdecoded.wellFormed, hdecoded.cfg, hdecoded.limit, fun key hne state hkey => ?_, ?_⟩
  · rw [← hdecoded.others key hne, hkey]
  · rw [hstate]
    exact .added hdecoded.added

/-- A new message, when its identity has not too many. -/
lemma returns_decodeWithAdmission_of_notMem
    (hnew : pool.messages.lookup (input.identity, input.msgId) = none)
    (hcount : pool.identityUsage.identityCount input.identity <
      pool.identityUsage.maxMessagesPerIdentity) :
    returns (decodeWithAdmission now choice (input.identity, input.msgId) input) pool
      (PoolStep pool now input) := by
  unfold decodeWithAdmission
  rw [returns_get_bind, if_pos (by simp [hasMessage, hnew]), returns_bind]
  refine returns_mono (returns_makePlace h hnew hcount now choice) ?_
  rintro r pool' ⟨hpool', ⟨rfl, hshrinks⟩ | ⟨pool1, rfl, hshrinks, rfl⟩⟩
  · have hnew' : pool'.messages.lookup (input.identity, input.msgId) = none :=
      eq_none_iff_forall_ne_some.mpr fun state hstate => by
        rw [hshrinks.lookup _ state hstate] at hnew
        cases hnew
    refine ⟨hpool', hshrinks.cfg, hshrinks.limit, fun key _ => hshrinks.lookup key, ?_⟩
    rw [hnew, hnew']
    exact .refused trivial
  · refine returns_mono (returns_decode hpool' (AList.lookup_insert _)) ?_
    intro r pool' hdecoded
    refine ⟨hdecoded.wellFormed, hdecoded.cfg.trans hshrinks.cfg,
      hdecoded.limit.trans hshrinks.limit, fun key hne state hkey => ?_, ?_⟩
    · rw [hdecoded.others key hne, withMessage, lookup_insert_eq_ite, if_neg hne] at hkey
      exact hshrinks.lookup key state hkey
    · rw [hnew]
      have hadded := hdecoded.added
      rw [show (pool1.withMessage (input.identity, input.msgId) now).cfg = pool.cfg from
        hshrinks.cfg] at hadded
      rw [← hshrinks.cfg] at hadded ⊢
      exact .created hadded

variable (input) in
lemma returns_decodeInPool :
    returns (decodeInPool now choice (input.identity, input.msgId) input) pool
      (PoolStep pool now input) := by
  unfold decodeInPool
  rw [returns_get_bind]
  cases hstate : pool.messages.lookup (input.identity, input.msgId) with
  | some state =>
    rw [if_neg (by simp [hasMessage, hstate])]
    exact returns_decodeWithAdmission_of_mem h now choice hstate
  | none =>
    rw [if_pos (by simp [hasMessage, hstate]), returns_bind]
    refine returns_mono (returns_evictOneStaleForIdentityIfLimited h _ now) ?_
    rintro r pool1 ⟨⟨b, rfl⟩, hpool1, hshrinks⟩
    have hnew : pool1.messages.lookup (input.identity, input.msgId) = none :=
      eq_none_iff_forall_ne_some.mpr fun state hstate' => by
        rw [hshrinks.lookup _ state hstate'] at hstate
        cases hstate
    rw [andThen_ok, returns_get_bind, IdentityUsage.ensureIdentityCapacity]
    split
    · next hok =>
      split at hok
      · next hcount =>
        refine returns_mono (returns_decodeWithAdmission_of_notMem hpool1 now choice hnew hcount) ?_
        intro r pool' hstep
        refine ⟨hstep.wellFormed, hstep.cfg.trans hshrinks.cfg, hstep.limit.trans hshrinks.limit,
          fun key hne state hkey => hshrinks.lookup key state (hstep.others key hne state hkey), ?_⟩
        rw [hstate, ← hnew, ← hshrinks.cfg]
        exact hstep.entry
      · cases hok
    · next e herror =>
      split at herror
      · cases herror
      · cases herror
        rw [returns_bind, returns_throw, andThen_error]
        refine ⟨hpool1, hshrinks.cfg, hshrinks.limit, fun key _ => hshrinks.lookup key, ?_⟩
        rw [hstate, hnew]
        exact .refused trivial

end

end Decoder

def Packet.Supported (packet : Packet) : Prop :=
  packet.header.version = protocolVersion ∧ packet.header.hasKnownFlags = true

def Packet.input (packet : Packet) (identity : I) : FragmentInput I where
  identity := identity
  msgId := packet.header.msgId
  seqNum := packet.header.seqNum
  fragmentType := packet.header.fragmentType
  payload := packet.payload

namespace Decoder

/-- What a packet does to the decoder. -/
structure Handled (config : Config) (d : Decoder I) (now : Nat) (input : FragmentInput I)
    (r : Except DecodeError DecodeOutcome) (d' : Decoder I) : Prop where
  wellFormed : d'.WellFormed config
  dedicated : ∀ identity, (d'.dedicatedPools.lookup identity).isSome =
    (d.dedicatedPools.lookup identity).isSome
  others : ∀ key, key ≠ (input.identity, input.msgId) →
    ∀ selected state, d'.lookup selected key = some state → d.lookup selected key = some state
  entry : ∃ selected, EntryStep (config.poolConfig selected) now input
    (d.held (input.identity, input.msgId) now) r (d'.find (input.identity, input.msgId))

section

variable {config : Config} {d : Decoder I}

lemma handled_of_poolStep {d₁ : Decoder I} (h₁ : d₁.WellFormed config) {input : FragmentInput I}
    (hselected : d.Selected (input.identity, input.msgId) now selected d₁)
    (hpool : d₁.pool? selected input.identity = some pool)
    (hstep : PoolStep pool now input r pool') :
    d.Handled config now input r (d₁.setPool selected input.identity pool') := by
  have hentry : pool.messages.lookup (input.identity, input.msgId) =
      d.held (input.identity, input.msgId) now := by
    rw [← lookup_of_pool? hpool (input.identity, input.msgId) fun _ => rfl, hselected.lookup,
      if_pos rfl]
  have hd' : (d₁.setPool selected input.identity pool').WellFormed config := by
    refine h₁.setPool hpool hstep.wellFormed hstep.cfg hstep.limit fun key state' hkey => ?_
    by_cases heq : key = (input.identity, input.msgId)
    · subst heq
      cases hheld : d.held (input.identity, input.msgId) now with
      | some state => exact .inl ⟨state, hentry.trans hheld⟩
      | none =>
        refine .inr ⟨rfl, fun selected' => ?_⟩
        rw [hselected.lookup, hheld, ite_self]
    · exact .inl ⟨state', hstep.others key heq state' hkey⟩
  -- only the chosen pool can have an entry
  have hlookup : ∀ selected', (d₁.setPool selected input.identity pool').lookup selected'
      (input.identity, input.msgId) =
      if selected' = selected then pool'.messages.lookup (input.identity, input.msgId) else none := by
    intro selected'
    rw [lookup_setPool, hselected.lookup]
    by_cases heq : selected' = selected
    · rw [if_pos ⟨heq, fun _ => rfl⟩, if_pos heq]
    · rw [if_neg fun hand => heq hand.1, if_neg heq, if_neg heq]
  have hfind : (d₁.setPool selected input.identity pool').find (input.identity, input.msgId) =
      pool'.messages.lookup (input.identity, input.msgId) := by
    cases hnew : pool'.messages.lookup (input.identity, input.msgId) with
    | none =>
      refine find_eq_none.mpr fun selected' => ?_
      rw [hlookup, hnew, ite_self]
    | some state =>
      refine hd'.find_eq_some.mpr ⟨selected, ?_⟩
      rw [hlookup, if_pos rfl, hnew]
  refine ⟨hd', fun identity => ?_, fun key hne selected' state hkey => ?_, selected, ?_⟩
  · rw [dedicated_setPool hpool, hselected.shrinks.dedicated]
  · rw [lookup_setPool] at hkey
    refine hselected.shrinks.lookup selected' key state ?_
    split at hkey
    · next heq =>
      rw [heq.1, lookup_of_pool? hpool key heq.2]
      exact hstep.others key hne state hkey
    · exact hkey
  · rw [hfind, ← hentry, ← h₁.cfg hpool]
    exact hstep.entry

theorem returns_decode (h : d.WellFormed config) {packet : Packet} (hsupported : packet.Supported)
    (now choice : Nat) (score : FragmentPolicy) (identity : I) :
    returns (decode now score choice identity (.ok packet)) d
      (d.Handled config now (packet.input identity)) := by
  unfold decode
  dsimp only
  rw [if_neg (not_not.mpr hsupported.1), hsupported.2, if_neg (by decide), returns_bind]
  refine returns_mono (returns_selectPool h (identity, packet.header.msgId) score) ?_
  rintro r d1 ⟨h1, selected, rfl, hselected⟩
  obtain ⟨pool, hpool⟩ := hselected.pool
  refine returns_poolMut hpool ?_
  refine returns_mono (returns_decodeInPool (h1.pools hpool) (packet.input identity) now choice) ?_
  intro r pool' hstep
  exact handled_of_poolStep h1 hselected hpool hstep

/-- Other packets change nothing. -/
lemma returns_decode_of_not_supported {packet : Except DecodeError Packet}
    (hnot : ∀ p, packet = .ok p → ¬ p.Supported) (now choice : Nat) (score : FragmentPolicy)
    (identity : I) :
    returns (decode now score choice identity packet) d fun r d' =>
      (∃ e, r = .error e) ∧ d' = d := by
  unfold decode
  cases packet with
  | error e =>
    rw [returns_throw]
    exact ⟨⟨e, rfl⟩, rfl⟩
  | ok p =>
    have hnot := hnot p rfl
    rw [returns_ite, returns_throw, returns_ite, returns_throw]
    refine ⟨fun _ => ⟨⟨_, rfl⟩, rfl⟩, fun hversion => ⟨fun _ => ⟨⟨_, rfl⟩, rfl⟩, fun hflags => ?_⟩⟩
    refine absurd ⟨not_not.mp hversion, ?_⟩ hnot
    simpa using hflags

end

/-! ## Dedicated identities -/

lemma lookup_addPools (pool : MessagePool I) (identities : List I) (identity : I)
    (pools : FiniteMap I (MessagePool I)) :
    (identities.foldl (fun pools identity =>
        if identity ∈ pools then pools else pools.insert identity pool) pools).lookup identity =
      (pools.lookup identity).or (if identity ∈ identities then some pool else none) := by
  induction identities generalizing pools with
  | nil => simp
  | cons head tail ih =>
    rw [List.foldl_cons, ih]
    by_cases hmem : head ∈ pools
    · rw [if_pos hmem]
      by_cases heq : identity = head
      · obtain ⟨pool', hpool'⟩ := mem_iff_lookup.mp hmem
        rw [heq, hpool', some_or, some_or]
      · simp [heq]
    · rw [if_neg hmem, lookup_insert_eq_ite]
      by_cases heq : identity = head
      · subst heq
        rw [← AList.lookup_eq_none] at hmem
        simp [hmem]
      · simp [heq]

section

variable {config : Config} {d d' : Decoder I} {identities : List I}

/-- The pools after a change of the dedicated identities: those of the identities that stay,
and empty ones. -/
structure Rededicated (d : Decoder I) (identities : List I) (d' : Decoder I) : Prop where
  dedicatedPoolConfig : d'.dedicatedPoolConfig = d.dedicatedPoolConfig
  dedicatedLimit : d'.maxMessagesPerDedicatedIdentity = d.maxMessagesPerDedicatedIdentity
  priorityPool : d'.priorityPool = d.priorityPool
  regularPool : d'.regularPool = d.regularPool
  dedicatedPools : ∀ identity, d'.dedicatedPools.lookup identity = if identity ∈ identities then
      (d.dedicatedPools.lookup identity).or
        (some (.new d.dedicatedPoolConfig (.withLimit d.maxMessagesPerDedicatedIdentity)))
    else none

lemma returns_setDedicatedIdentities (d : Decoder I) (identities : List I) :
    returns (setDedicatedIdentities identities) d fun r d' =>
      r = .ok () ∧ d.Rededicated identities d' := by
  unfold setDedicatedIdentities
  rw [returns_modify]
  refine ⟨rfl, rfl, rfl, rfl, rfl, fun identity => ?_⟩
  rw [lookup_addPools, lookup_retain]
  by_cases hmem : identity ∈ identities
  · cases d.dedicatedPools.lookup identity <;> simp [hmem, Option.filter]
  · cases d.dedicatedPools.lookup identity <;> simp [hmem, Option.filter]

variable (hd' : d.Rededicated identities d')

include hd'

lemma Rededicated.pool? {identity : I} (hpool : d'.pool? selected identity = some pool) :
    d.pool? selected identity = some pool ∨ selected = .dedicated ∧
      pool = .new d.dedicatedPoolConfig (.withLimit d.maxMessagesPerDedicatedIdentity) := by
  cases selected with
  | dedicated =>
    rw [pool?, hd'.dedicatedPools] at hpool
    split at hpool
    · rw [or_eq_some_iff] at hpool
      obtain hpool | ⟨-, hpool⟩ := hpool
      · exact .inl hpool
      · exact .inr ⟨rfl, (some.inj hpool).symm⟩
    · cases hpool
  | priority =>
    rw [pool?, hd'.priorityPool] at hpool
    exact .inl hpool
  | regular =>
    rw [pool?, hd'.regularPool] at hpool
    exact .inl hpool

lemma Rededicated.lookup {key : MessageKey I}
    (hkey : d'.lookup selected key = some state) : d.lookup selected key = some state := by
  obtain ⟨pool, hpool, hstate⟩ := bind_eq_some_iff.mp hkey
  obtain hpool | ⟨-, rfl⟩ := hd'.pool? hpool
  · rw [Decoder.lookup, hpool]
    exact hstate
  · cases hstate

lemma WellFormed.rededicated (h : d.WellFormed config) : d'.WellFormed config := by
  refine ⟨?_, ?_, fun h' => ?_, fun h' => ?_, fun h' => ?_, fun h' => ?_, fun hkey hkey' => ?_⟩
  · rw [hd'.dedicatedPoolConfig, h.dedicatedPoolConfig]
  · rw [hd'.dedicatedLimit, h.dedicatedLimit]
  · obtain h' | ⟨-, rfl⟩ := hd'.pool? h'
    · exact h.pools h'
    · exact MessagePool.wellFormed_new _ _
  · obtain h' | ⟨rfl, rfl⟩ := hd'.pool? h'
    · exact h.cfg h'
    · exact h.dedicatedPoolConfig
  · obtain h' | ⟨rfl, rfl⟩ := hd'.pool? h'
    · exact h.limit h'
    · exact h.dedicatedLimit
  · obtain h' | ⟨-, rfl⟩ := hd'.pool? h'
    · exact h.own h'
    · nofun
  · exact h.unique (hd'.lookup hkey) (hd'.lookup hkey')

end

/-! ## Runs -/

/-- What a call does. -/
inductive Stepped (config : Config) (d : Decoder I) : Call I → Outcome → Decoder I → Prop
  | handled {now score choice identity packet r d'} (supported : packet.Supported)
      (handled : d.Handled config now (packet.input identity) r d') :
      Stepped config d (.decode now score choice identity (.ok packet)) (some r) d'
  | ignored {now score choice identity packet e} (notSupported : ∀ p, packet = .ok p → ¬ p.Supported) :
      Stepped config d (.decode now score choice identity packet) (some (.error e)) d
  | rededicated {identities d'} (rededicated : d.Rededicated identities d') :
      Stepped config d (.setDedicatedIdentities identities) none d'

variable {d d' : Decoder I} {outcome : Outcome} {config : Config}

lemma WellFormed.stepped (h : d.WellFormed config) (call : Call I) :
    ∃ outcome d', d.step call = .ok (outcome, d') ∧ d.Stepped config call outcome d' := by
  cases call with
  | decode now score choice identity packet =>
    by_cases hsupported : ∃ p, packet = .ok p ∧ p.Supported
    · obtain ⟨p, rfl, hp⟩ := hsupported
      obtain ⟨r, d', hrun, hd'⟩ := returns_decode h hp now choice score identity
      exact ⟨some r, d', by rw [step, hrun]; rfl, .handled hp hd'⟩
    · have hnot : ∀ p, packet = .ok p → ¬ p.Supported := fun p hp hs => hsupported ⟨p, hp, hs⟩
      obtain ⟨r, d', hrun, ⟨e, rfl⟩, rfl⟩ :=
        returns_decode_of_not_supported hnot now choice score identity
      exact ⟨some (.error e), _, by rw [step, hrun]; rfl, .ignored hnot⟩
  | setDedicatedIdentities identities =>
    obtain ⟨r, d', hrun, -, hd'⟩ := returns_setDedicatedIdentities d identities
    exact ⟨none, d', by rw [step, hrun]; rfl, .rededicated hd'⟩

variable {call : Call I}

lemma Stepped.wellFormed (hstep : d.Stepped config call outcome d') (h : d.WellFormed config) :
    d'.WellFormed config := by
  cases hstep with
  | handled _ hhandled => exact hhandled.wellFormed
  | ignored _ => exact h
  | rededicated hd' => exact h.rededicated hd'

/-- Calls keep the pools in order and return. -/
theorem WellFormed.step (h : d.WellFormed config)
    (hstep : d.step call = .ok (outcome, d')) : d.Stepped config call outcome d' := by
  obtain ⟨outcome', d'', hstep', hstepped⟩ := h.stepped call
  rw [hstep] at hstep'
  cases hstep'
  exact hstepped

variable {calls : List (Call I)} {outcomes : List Outcome}

lemma run_cons {d₁ : Decoder I}
    (hstep : d.step call = .ok (outcome, d₁)) (hrun : d₁.run calls = .ok (outcomes, d')) :
    d.run (call :: calls) = .ok (outcome :: outcomes, d') := by
  simp only [run, Checked.bind_eq_ok]
  exact ⟨_, hstep, _, hrun, rfl⟩

lemma WellFormed.returns_run (h : d.WellFormed config) (calls : List (Call I)) :
    ∃ outcomes d', d.run calls = .ok (outcomes, d') ∧ d'.WellFormed config := by
  induction calls generalizing d with
  | nil => exact ⟨[], d, rfl, h⟩
  | cons call calls ih =>
    obtain ⟨outcome, d1, hstep, hstepped⟩ := h.stepped call
    obtain ⟨outcomes, d', hrun, hd'⟩ := ih (hstepped.wellFormed h)
    exact ⟨outcome :: outcomes, d', run_cons hstep hrun, hd'⟩

/-- Every sequence of calls returns, and after it the messages, the counters and the indices of
every pool agree and its limits hold. -/
theorem run_keeps_books (config : Config) (calls : List (Call I)) :
    ∃ outcomes d, (new config : Decoder I).run calls = .ok (outcomes, d) ∧
      ∀ selected identity pool, d.pool? selected identity = some pool → pool.WellFormed ∧
        pool.cfg = config.poolConfig selected ∧
        pool.identityUsage.maxMessagesPerIdentity = config.identityLimit selected := by
  obtain ⟨outcomes, d, hrun, hd⟩ := (wellFormed_new config).returns_run calls
  exact ⟨outcomes, d, hrun, fun _ _ _ hpool => ⟨hd.pools hpool, hd.cfg hpool, hd.limit hpool⟩⟩

end Decoder

end Kinet.LeanUdp
