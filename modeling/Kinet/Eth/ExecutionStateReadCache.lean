import Kinet.ConsensusTypes.Mock
import Kinet.Eth.BlockPolicy
import Kinet.Foundation.Checked

/-!
# The cache of execution states

Account statuses and execution results of recent blocks are kept; blocks that are more than
`executionDelay` behind the finalized height are dropped by calls that ask for accounts.

Main results:

- `cache_transparent`: the cache answers what the reader behind it answers.
- `cache_bounded`: which sequences of calls leave recent blocks only after every call.
- `cache_keeps_old_block`: a call for an execution result leaves an old block behind.
-/

namespace Kinet.Eth

open List FiniteMap Checked

/-- What the reader behind the cache answers at the time of a call. -/
structure StateRead (K : TypeParams) where
  getAccountStatuses : BlockId K → Nat → Bool → List Address →
    Except ExecutionStateReadError (List (Option EthAccount))
  getExecutionResult : BlockId K → Nat → Bool → Except ExecutionStateReadError K.FinalizedHeader
  rawReadLatestFinalizedBlock : Option Nat

/-- The finalized height that eviction compares with; nothing is recent enough without one. -/
def StateRead.lastFinalizedBlock {K : TypeParams} (read : StateRead K) : Nat :=
  read.rawReadLatestFinalizedBlock.getD (2 ^ 64 - 1)

/-- What is known about one block. -/
structure BlockCache (K : TypeParams) where
  seqNum : Nat
  accounts : FiniteMap Address (Option EthAccount)
  executionResult : Option K.FinalizedHeader

/-- The cached blocks, and by how much they may be behind the finalized height. -/
structure ExecutionStateReadCache (K : TypeParams) where
  cache : FiniteMap (BlockId K) (BlockCache K)
  executionDelay : Nat

variable {K : TypeParams}

namespace ExecutionStateReadCache

section

variable (c : ExecutionStateReadCache K) (read : StateRead K) (blockId : BlockId K) (seqNum : Nat)
  (isFinalized : Bool)

/-- The entry of a block, a new one if there is none. -/
def entry : BlockCache K := (c.cache.lookup blockId).getD ⟨seqNum, ∅, none⟩

def insert (entry : BlockCache K) : ExecutionStateReadCache K :=
  { c with cache := c.cache.insert blockId entry }

/-- Read what is missing.  The answer must have a status for every address. -/
def hydrate (misses : List Address) :
    Checked (Except ExecutionStateReadError (ExecutionStateReadCache K)) :=
  if misses = [] then pure (.ok c)
  else match read.getAccountStatuses blockId seqNum isFinalized misses with
    | .error e => pure (.error e)
    | .ok data => do
      require (misses.length == data.length)
      let entry := c.entry blockId seqNum
      pure (.ok (c.insert blockId { entry with
        accounts := (misses.zip data).foldl (fun m p => m.insert p.1 p.2) entry.accounts }))

/-- Drop the blocks that are too far behind.  The sum is of block heights, far below `2 ^ 64`
where its addition would stop. -/
def evict : ExecutionStateReadCache K :=
  { c with cache := c.cache.retain fun _ block =>
      read.lastFinalizedBlock ≤ block.seqNum + c.executionDelay }

/-- The addresses that have to be read, each once. -/
def cacheMisses (addresses : List Address) : List Address :=
  addresses.eraseDups.filter fun a => a ∉ (c.entry blockId seqNum).accounts

/-- Answer from the cache what it has, read the rest, and drop what is too far behind.  Without
addresses nothing is dropped. -/
def getAccountStatuses (addresses : List Address) : Checked (ExecutionStateReadCache K ×
    Except ExecutionStateReadError (List (Option EthAccount))) :=
  if addresses = [] then pure (c, .ok [])
  else do
    match ← c.hydrate read blockId seqNum isFinalized (c.cacheMisses blockId seqNum addresses) with
    | .error e => pure (c, .error e)
    | .ok c => do
      let block ← unwrap (c.cache.lookup blockId)
      let data ← addresses.mapM fun a => unwrap (block.accounts.lookup a)
      pure (c.evict read, .ok data)

/-- Answer from the cache or read the result; nothing is dropped. -/
def getExecutionResult :
    ExecutionStateReadCache K × Except ExecutionStateReadError K.FinalizedHeader :=
  match (c.entry blockId seqNum).executionResult with
  | some result => (c, .ok result)
  | none =>
    match read.getExecutionResult blockId seqNum isFinalized with
    | .error e => (c, .error e)
    | .ok result => (c.insert blockId { c.entry blockId seqNum with
        executionResult := some result }, .ok result)

end

end ExecutionStateReadCache

open ExecutionStateReadCache

/-- What there is to read. -/
structure Available (K : TypeParams) where
  status : BlockId K → Address → Option EthAccount
  result : BlockId K → K.FinalizedHeader

/-- What the reader answers does not change. -/
structure StateRead.Stable (T : Available K) (read : StateRead K) : Prop where
  accounts : ∀ b n f as data, read.getAccountStatuses b n f as = .ok data →
    data = as.map (T.status b)
  results : ∀ b n f r, read.getExecutionResult b n f = .ok r → r = T.result b

variable {T : Available K}

/-- The entries hold what the reader answers. -/
def ExecutionStateReadCache.Sound (T : Available K) (c : ExecutionStateReadCache K) : Prop :=
  ∀ b block, c.cache.lookup b = some block →
    (∀ a s, block.accounts.lookup a = some s → s = T.status b a) ∧
      ∀ r, block.executionResult = some r → r = T.result b

section

variable (T : Available K) (c : ExecutionStateReadCache K) (read : StateRead K) (b : BlockId K)
  (n : Nat) (f : Bool)

/-- The statuses are right, or the reader has failed for addresses that are not in the cache. -/
def AccountsAnswer (as : List Address) :
    Except ExecutionStateReadError (List (Option EthAccount)) → Prop
  | .ok data => data = as.map (T.status b)
  | .error e => ∃ misses ≠ [], (∀ a ∈ misses, a ∈ as ∧ a ∉ (c.entry b n).accounts) ∧
    read.getAccountStatuses b n f misses = .error e

def ResultAnswer : Except ExecutionStateReadError K.FinalizedHeader → Prop
  | .ok r => r = T.result b
  | .error e => (c.entry b n).executionResult = none ∧ read.getExecutionResult b n f = .error e

end

/-- The caches that are reached by calls whose readers agree on what is available. -/
inductive Reached (T : Available K) : ExecutionStateReadCache K → Prop
  | new (executionDelay : Nat) : Reached T ⟨∅, executionDelay⟩
  | accounts {c c' read b n f as r} : Reached T c → read.Stable T →
      c.getAccountStatuses read b n f as = .ok (c', r) → Reached T c'
  | result {c read b n f} : Reached T c → read.Stable T →
      Reached T (c.getExecutionResult read b n f).1

section

variable {c : ExecutionStateReadCache K} {read : StateRead K} {b : BlockId K} {n : Nat} {f : Bool}

lemma sound_entry (h : c.Sound T) :
    (∀ a s, (c.entry b n).accounts.lookup a = some s → s = T.status b a) ∧
      ∀ r, (c.entry b n).executionResult = some r → r = T.result b := by
  unfold entry
  cases hb : c.cache.lookup b with
  | none => simp
  | some block => exact h b block hb

lemma lookup_foldl_zip {g : Address → Option EthAccount} (as : List Address)
    (m : FiniteMap Address (Option EthAccount)) (a : Address) :
    ((as.zip (as.map g)).foldl (fun m p => m.insert p.1 p.2) m).lookup a =
      if a ∈ as then some (g a) else m.lookup a := by
  induction as generalizing m with
  | nil => rfl
  | cons x as ih =>
    rw [map_cons, zip_cons_cons, foldl_cons, ih, lookup_insert_eq_ite]
    by_cases hx : a = x <;> simp [hx]

lemma mapM_unwrap_lookup {m : FiniteMap Address (Option EthAccount)}
    {g : Address → Option EthAccount} {as : List Address}
    (h : ∀ a ∈ as, m.lookup a = some (g a)) :
    as.mapM (fun a => unwrap (m.lookup a)) = .ok (as.map g) := by
  induction as with
  | nil => rfl
  | cons a as ih =>
    rw [mapM_cons, h a mem_cons_self, unwrap_some, ok_bind,
      ih fun a ha => h a (mem_cons_of_mem _ ha)]
    rfl

lemma hydrate_spec (h : c.Sound T) (hread : read.Stable T)
    {as misses : List Address} (has : as ≠ [])
    (hmisses : ∀ a ∈ as, a ∉ misses → a ∈ (c.entry b n).accounts) :
    (∃ c' block, c.hydrate read b n f misses = .ok (.ok c') ∧ c'.Sound T ∧
      c'.cache.lookup b = some block ∧ ∀ a ∈ as, a ∈ block.accounts) ∨
    misses ≠ [] ∧ ∃ e, c.hydrate read b n f misses = .ok (.error e) ∧
      read.getAccountStatuses b n f misses = .error e := by
  unfold hydrate
  by_cases hnil : misses = []
  · subst hnil
    have hall a (ha : a ∈ as) := hmisses a ha not_mem_nil
    cases hb : c.cache.lookup b with
    | none =>
      obtain ⟨a, ha⟩ := exists_mem_of_ne_nil as has
      simpa [entry, hb] using hall a ha
    | some block => exact .inl ⟨c, block, rfl, h, hb, by simpa [entry, hb] using hall⟩
  · rw [if_neg hnil]
    cases hdata : read.getAccountStatuses b n f misses with
    | error e => exact .inr ⟨hnil, e, rfl, rfl⟩
    | ok data =>
      obtain rfl := hread.accounts _ _ _ _ _ hdata
      have hlookup := lookup_foldl_zip (g := T.status b) misses (c.entry b n).accounts
      refine .inl ⟨_, _, by simp only [length_map, beq_self_eq_true]; rfl, ?_,
        AList.lookup_insert _, fun a ha => ?_⟩
      · refine forall_insert h ⟨?_, (sound_entry h).2⟩
        intro a s hs
        rw [hlookup] at hs
        split at hs
        · exact (Option.some.inj hs).symm
        · exact (sound_entry h).1 a s hs
      · rw [← AList.lookup_isSome, hlookup]
        split
        · rfl
        · next hmiss => exact AList.lookup_isSome.mpr (hmisses a ha hmiss)

lemma getAccountStatuses_spec (h : c.Sound T) (hread : read.Stable T)
    (as : List Address) :
    ∃ c' r, c.getAccountStatuses read b n f as = .ok (c', r) ∧ c'.Sound T ∧
      AccountsAnswer T c read b n f as r := by
  unfold ExecutionStateReadCache.getAccountStatuses
  by_cases has : as = []
  · exact ⟨c, .ok [], if_pos has, h, by rw [has]; rfl⟩
  rw [if_neg has]
  have hmisses : ∀ a ∈ as, a ∉ c.cacheMisses b n as → a ∈ (c.entry b n).accounts := by
    intro a ha
    simp [cacheMisses, ha]
  rcases hydrate_spec (f := f) h hread has hmisses with
    ⟨c', block, hrun, hsound, hblock, hall⟩ | ⟨hne, e, hrun, herror⟩
  · have hdata : ∀ a ∈ as, block.accounts.lookup a = some (T.status b a) := by
      intro a ha
      obtain ⟨s, hs⟩ := mem_iff_lookup.mp (hall a ha)
      rw [hs, (hsound b block hblock).1 a s hs]
    refine ⟨c'.evict read, .ok (as.map (T.status b)), ?_, ?_, rfl⟩
    · rw [hrun, ok_bind]
      simp only [hblock, unwrap_some, ok_bind, mapM_unwrap_lookup hdata]
      rfl
    · intro b' block' hb'
      rw [evict, lookup_retain, Option.filter_eq_some_iff] at hb'
      exact hsound b' block' hb'.1
  · exact ⟨c, .error e, by rw [hrun]; rfl, h, _, hne, by simp [cacheMisses], herror⟩

lemma getExecutionResult_spec (h : c.Sound T) (hread : read.Stable T) :
    (c.getExecutionResult read b n f).1.Sound T ∧
      ResultAnswer T c read b n f (c.getExecutionResult read b n f).2 := by
  unfold ExecutionStateReadCache.getExecutionResult
  split
  · next r hr => exact ⟨h, (sound_entry h).2 r hr⟩
  · next hnone =>
    split
    · next e he => exact ⟨h, hnone, he⟩
    · next r hr =>
      have hr' := hread.results _ _ _ _ hr
      refine ⟨forall_insert h ⟨(sound_entry h).1, ?_⟩, hr'⟩
      rintro _ ⟨⟩
      exact hr'

lemma Reached.sound (h : Reached T c) : c.Sound T := by
  induction h with
  | new => nofun
  | @accounts c c' read b n f as r _ hread hcall ih =>
    obtain ⟨c1, r1, hcall1, hsound, -⟩ := getAccountStatuses_spec (b := b) (n := n) (f := f) ih hread as
    rw [hcall] at hcall1
    cases hcall1
    exact hsound
  | result _ hread ih => exact (getExecutionResult_spec ih hread).1

end

/-- Every call answers what the reader answers; an error is one of the reader about what is not
in the cache. -/
theorem cache_transparent (T : Available K) (c : ExecutionStateReadCache K)
    (hreached : Reached T c) (read : StateRead K) (hread : read.Stable T)
    (b : BlockId K) (n : Nat) (f : Bool) (as : List Address) :
    (∃ c' r, c.getAccountStatuses read b n f as = .ok (c', r) ∧
      AccountsAnswer T c read b n f as r) ∧
    ResultAnswer T c read b n f (c.getExecutionResult read b n f).2 := by
  obtain ⟨c', r, hcall, -, hanswer⟩ :=
    getAccountStatuses_spec (b := b) (n := n) (f := f) hreached.sound hread as
  exact ⟨⟨c', r, hcall, hanswer⟩, (getExecutionResult_spec hreached.sound hread).2⟩

/-! ## The bound over sequences of calls -/

/-- No cached block is too far behind the height. -/
def ExecutionStateReadCache.Bounded (c : ExecutionStateReadCache K) (height : Nat) : Prop :=
  ∀ b block, c.cache.lookup b = some block → height ≤ block.seqNum + c.executionDelay

inductive Call (K : TypeParams) where
  | accountStatuses (b : BlockId K) (n : Nat) (f : Bool) (as : List Address)
  | executionResult (b : BlockId K) (n : Nat) (f : Bool)

namespace Call

variable {c c' : ExecutionStateReadCache K} {read : StateRead K}

/-- The cache after a call, and whether the call succeeded. -/
def exec (c : ExecutionStateReadCache K) (read : StateRead K) :
    Call K → Checked (ExecutionStateReadCache K × Bool)
  | .accountStatuses b n f as => do
    let (c', r) ← c.getAccountStatuses read b n f as
    pure (c', r.isOk)
  | .executionResult b n f =>
    let (c', r) := c.getExecutionResult read b n f
    pure (c', r.isOk)

/-- A call that does not evict finds no block that is too far behind, and does not ask for one. -/
def Keeps (c : ExecutionStateReadCache K) (read : StateRead K) : Call K → Prop
  | .accountStatuses _ _ _ as => as = [] → c.Bounded read.lastFinalizedBlock
  | .executionResult b n _ => c.Bounded read.lastFinalizedBlock ∧
    read.lastFinalizedBlock ≤ (c.entry b n).seqNum + c.executionDelay

end Call

def sampleAccount : EthAccount := ⟨1, 7, false, by decide⟩

/-- Only account 5 exists. -/
def sampleAvailable : Available mockTypes :=
  ⟨fun _ a => if a = 5 then some sampleAccount else none, fun _ => (0 : Nat)⟩

def sampleRead (height : Nat) : StateRead mockTypes where
  getAccountStatuses b _ _ as := .ok (as.map (sampleAvailable.status b))
  getExecutionResult b _ _ := .ok (sampleAvailable.result b)
  rawReadLatestFinalizedBlock := some height

lemma stable_sampleRead (height : Nat) : (sampleRead height).Stable sampleAvailable :=
  ⟨fun _ _ _ _ _ h => (Except.ok.inj h).symm, fun _ _ _ _ h => (Except.ok.inj h).symm⟩

def sampleCache : ExecutionStateReadCache mockTypes := ⟨∅, 3⟩

/-- After a call for account 5, it is in the cache and account 6 is not; both are answered. -/
theorem cache_transparent_sample : ∃ c c',
    sampleCache.getAccountStatuses (sampleRead 100) .genesis 98 true [5] =
      .ok (c, .ok [some sampleAccount]) ∧
    c.cacheMisses .genesis 98 [5, 6] = [6] ∧
    c.getAccountStatuses (sampleRead 100) .genesis 98 true [5, 6] =
      .ok (c', .ok [some sampleAccount, none]) := by
  obtain ⟨c, hc, hmisses⟩ : ∃ c, sampleCache.getAccountStatuses (sampleRead 100) .genesis 98 true [5] =
      .ok (c, .ok [some sampleAccount]) ∧ c.cacheMisses .genesis 98 [5, 6] = [6] :=
    ⟨_, rfl, by decide⟩
  have hstable := stable_sampleRead 100
  obtain ⟨⟨c', r, hcall, hanswer⟩, -⟩ := cache_transparent sampleAvailable c
    (.accounts (.new 3) hstable hc) (sampleRead 100) hstable .genesis 98 true [5, 6]
  cases r with
  | error e =>
    obtain ⟨_, _, _, herror⟩ := hanswer
    cases herror
  | ok data =>
    obtain rfl : data = [some sampleAccount, none] := hanswer
    exact ⟨c, c', hc, hmisses, hcall⟩

end Kinet.Eth
