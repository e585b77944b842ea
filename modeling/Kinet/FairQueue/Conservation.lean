import Mathlib.Data.Nat.Periodic
import Kinet.FairQueue.Bookkeeping
import Kinet.FairQueue.Queue

/-!
# What goes in comes out

Main results:

- `FairQueue.WellFormed.push_spec` and `FairQueue.WellFormed.pop_spec`: a push puts an
  item last in the queue of its identity, a pop takes the first item of an identity.
- `FairQueue.WellFormed.share`: the share of the regular pool in a window of pops.
- `fair_queue`: conservation, order, limits and shares of all runs.
-/

namespace Kinet

open FairQueue Checked List Function FairQueueBuilder

variable {Time Score Id T : Type} [LinearOrder Time] [DecidableEq Id]

def FairQueueBuilder.poolPerIdLimit (builder : FairQueueBuilder) : PoolKind → Nat
  | .priority => builder.perIdLimit
  | .regular => builder.regularPerIdLimit

def FairQueueBuilder.poolMaxSize (builder : FairQueueBuilder) : PoolKind → Nat
  | .priority => builder.maxSize
  | .regular => builder.regularMaxSize

namespace FairQueue

/-- The items of an identity in the order in which they come out. -/
def queued (q : FairQueue Time Score Id T) (id : Id) : List T :=
  q.priorityPool.queued id ++ q.regularPool.queued id

def items (q : FairQueue Time Score Id T) : List (Id × T) :=
  q.priorityPool.items ++ q.regularPool.items

/-- Both pools are in order, and no identity has items in both. -/
structure WellFormed (builder : FairQueueBuilder) (q : FairQueue Time Score Id T) : Prop where
  pools : ∀ kind, (q.pool kind).WellFormed
  perIdLimit : ∀ kind, (q.pool kind).perIdLimit = builder.poolPerIdLimit kind
  maxSize : ∀ kind, (q.pool kind).maxSize = builder.poolMaxSize kind
  perIdLimit_pos : ∀ kind, 0 < builder.poolPerIdLimit kind
  apart : ∀ id kind kind', (q.pool kind).queued id ≠ [] → (q.pool kind').queued id ≠ [] →
    kind = kind'
  pct : q.regularBandwidthPct = builder.regularBandwidthPct
  popCounter : q.popCounter < popCounterWindow

variable {builder : FairQueueBuilder} {setting : Setting Time Score} {q : FairQueue Time Score Id T}

omit [LinearOrder Time] in
lemma queued_build (h : builder.build setting = .ok q) (id : Id) : q.queued id = [] := by
  simp only [build, bind_eq_ok] at h
  obtain ⟨_, -, _, -, _, -, _, -, hpure⟩ := h
  cases hpure
  rfl

omit [LinearOrder Time] in
lemma wellFormed_build (h : builder.build setting = .ok q) : q.WellFormed builder := by
  simp only [build, bind_eq_ok] at h
  obtain ⟨_, hpriority, _, -, _, hregular, _, -, hpure⟩ := h
  cases hpure
  have hqueued : ∀ (perIdLimit maxSize : Nat) (id : Id),
      (Pool.new setting.clock perIdLimit maxSize : Pool Time Score Id T).queued id = [] :=
    fun _ _ _ => rfl
  refine ⟨fun kind => ?_, fun kind => ?_, fun kind => ?_, fun kind => ?_,
    fun id kind kind' hne => ?_, rfl, Nat.succ_pos 99⟩
  · cases kind <;> exact Pool.wellFormed_new _ _ _
  · cases kind <;> rfl
  · cases kind <;> rfl
  · cases kind with
    | priority => exact of_decide_eq_true (require_eq_ok.mp hpriority)
    | regular => exact of_decide_eq_true (require_eq_ok.mp hregular)
  · cases kind <;> exact absurd (hqueued _ _ id) hne

omit [LinearOrder Time] [DecidableEq Id] in
lemma eq_order (q : FairQueue Time Score Id T) (kind : PoolKind) :
    kind = q.order.1 ∨ kind = q.order.2 := by
  unfold order
  split <;> cases kind <;> simp

section

variable {pool' : Pool Time Score Id T} {kind : PoolKind}

omit [LinearOrder Time] [DecidableEq Id] in
lemma pool_setPool (kind' : PoolKind) :
    (q.setPool pool' kind).pool kind' = if kind' = kind then pool' else q.pool kind' := by
  cases kind <;> cases kind' <;> rfl

variable (h : q.WellFormed builder) {id : Id} {l : List T}
  (hother : ∀ kind', kind' ≠ kind → (q.pool kind').queued id = [])
  (hqueued : pool'.queued = update (q.pool kind).queued id l)

omit [LinearOrder Time]

include h hother hqueued

/-- A pool is replaced by one where the queue of one identity has changed. -/
lemma WellFormed.setPool (hpool' : pool'.WellFormed) (hlimits : (q.pool kind).SameLimits pool') :
    (q.setPool pool' kind).WellFormed builder := by
  have hqueue : ∀ kind' id', ((q.setPool pool' kind).pool kind').queued id' ≠ [] →
      (q.pool kind').queued id' ≠ [] ∨ kind' = kind ∧ id' = id := by
    intro kind' id' hne
    rw [pool_setPool] at hne
    split at hne
    · next heq =>
      rw [hqueued, update_apply] at hne
      split at hne
      · next hid => exact .inr ⟨heq, hid⟩
      · rw [heq]
        exact .inl hne
    · exact .inl hne
  refine ⟨fun kind' => ?_, fun kind' => ?_, fun kind' => ?_, h.perIdLimit_pos,
    fun id' kind1 kind2 h1 h2 => ?_, ?_, ?_⟩
  · rw [pool_setPool]
    split
    · exact hpool'
    · exact h.pools kind'
  · rw [pool_setPool]
    split
    · next heq => rw [hlimits.perIdLimit, heq, h.perIdLimit]
    · exact h.perIdLimit kind'
  · rw [pool_setPool]
    split
    · next heq => rw [hlimits.maxSize, heq, h.maxSize]
    · exact h.maxSize kind'
  · obtain hold1 | ⟨rfl, rfl⟩ := hqueue kind1 id' h1
    · obtain hold2 | ⟨rfl, rfl⟩ := hqueue kind2 id' h2
      · exact h.apart id' kind1 kind2 hold1 hold2
      · by_contra hne
        exact hold1 (hother kind1 hne)
    · obtain hold2 | ⟨rfl, -⟩ := hqueue kind2 id' h2
      · by_contra hne
        exact hold2 (hother kind2 (Ne.symm hne))
      · rfl
  · cases kind <;> exact h.pct
  · cases kind <;> exact h.popCounter

omit h

lemma queued_setPool : (q.setPool pool' kind).queued = update q.queued id l ∧
      q.queued id = (q.pool kind).queued id := by
  cases kind with
  | priority =>
    have hregular : q.regularPool.queued id = [] := hother .regular (by simp)
    have hqueued : pool'.queued = update q.priorityPool.queued id l := hqueued
    refine ⟨funext fun id' => ?_, ?_⟩
    · simp only [setPool, queued, hqueued, update_apply]
      split
      · next heq => rw [heq, hregular, append_nil]
      · rfl
    · rw [queued, hregular, append_nil]
      rfl
  | regular =>
    have hpriority : q.priorityPool.queued id = [] := hother .priority (by simp)
    have hqueued : pool'.queued = update q.regularPool.queued id l := hqueued
    refine ⟨funext fun id' => ?_, ?_⟩
    · simp only [setPool, queued, hqueued, update_apply]
      split
      · next heq => rw [heq, hpriority, nil_append]
      · rfl
    · rw [queued, hpriority, nil_append]
      rfl

end

section

variable {builder : FairQueueBuilder} (h : q.WellFormed builder) (setting)

include h

omit [LinearOrder Time] in
lemma WellFormed.poolContainingIdentity (id : Id) : match q.poolContainingIdentity id with
    | some kind => (q.pool kind).queued id ≠ []
    | none => ∀ kind, (q.pool kind).queued id = [] := by
  have hpriority := (h.pools .priority).containsIdentity id
  have hregular := (h.pools .regular).containsIdentity id
  unfold FairQueue.poolContainingIdentity
  by_cases hp : q.priorityPool.containsIdentity id = true
  · rw [if_pos hp]
    exact hpriority.mp hp
  · rw [if_neg hp]
    by_cases hr : q.regularPool.containsIdentity id = true
    · rw [if_pos hr]
      exact hregular.mp hr
    · rw [if_neg hr]
      intro kind
      cases kind with
      | priority => exact not_not.mp (mt hpriority.mpr hp)
      | regular => exact not_not.mp (mt hregular.mpr hr)

/-- The outcomes of a push. -/
inductive Pushed (builder : FairQueueBuilder) (q : FairQueue Time Score Id T) (id : Id) (item : T) :
    Except (PushError Id) Unit → FairQueue Time Score Id T → Prop
  | accepted {q'} (wellFormed : q'.WellFormed builder) (popCounter : q'.popCounter = q.popCounter)
      (queued : q'.queued = update q.queued id (q.queued id ++ [item])) :
      Pushed builder q id item (.ok ()) q'
  | refused (e : PushError Id) : Pushed builder q id item (.error e) q

variable {pool' : Pool Time Score Id T}

omit [LinearOrder Time] in
lemma WellFormed.pushed {id : Id} {item : T} {kind : PoolKind}
    (hother : ∀ kind', kind' ≠ kind → (q.pool kind').queued id = [])
    {result : Except (PushError Id) Unit} (hpushed : (q.pool kind).Pushed id item result pool') :
    Pushed builder q id item result (q.setPool pool' kind) := by
  cases hpushed with
  | accepted wellFormed limits queued =>
    obtain ⟨hqueued, hid⟩ := queued_setPool hother queued
    refine .accepted (h.setPool hother queued wellFormed limits) (by cases kind <;> rfl) ?_
    rw [hqueued, hid]
  | refused e =>
    have hsame : q.setPool (q.pool kind) kind = q := by cases kind <;> rfl
    rw [hsame]
    exact .refused e

omit [LinearOrder Time] in
theorem WellFormed.push_spec (id : Id) (item : T) (status : PeerStatus Score) :
    ∃ result q', q.push setting id item status = .ok (result, q') ∧
      Pushed builder q id item result q' := by
  have hpool := h.poolContainingIdentity id
  unfold push
  cases hkind : q.poolContainingIdentity id with
  | some kind =>
    rw [hkind] at hpool
    obtain ⟨result, pool', hrun, hpushed⟩ := Pool.pushExisting_spec (h.pools kind) hpool item
    refine ⟨result, q.setPool pool' kind, by simp only [hrun]; rfl,
      h.pushed (fun kind' hne => ?_) hpushed⟩
    by_contra hqueued
    exact hne (h.apart id kind' kind hqueued hpool)
  | none =>
    rw [hkind] at hpool
    have hlimit : 0 < (q.pool (poolAndScore setting.one status).1).perIdLimit := by
      rw [h.perIdLimit]
      exact h.perIdLimit_pos _
    exact ⟨_, _, rfl, h.pushed (fun kind' _ => hpool kind')
      (Pool.pushNew_spec (h.pools _) hlimit (hpool _) setting.clock item _)⟩

omit [LinearOrder Time] in
lemma WellFormed.recordSuccessfulPop (kind : PoolKind) (firstAttempt : Bool) :
    ∃ q', q.recordSuccessfulPop kind firstAttempt = .ok q' ∧ q'.WellFormed builder ∧
      q'.queued = q.queued ∧
      (firstAttempt = true → q'.popCounter = (q.popCounter + 1) % popCounterWindow) := by
  have hcounter : q.popCounter < 100 := h.popCounter
  unfold FairQueue.recordSuccessfulPop
  split
  · have hadd : add 8 q.popCounter 1 = .ok (q.popCounter + 1) :=
      fits_of_lt (by omega)
    rw [hadd]
    refine ⟨_, rfl, ?_, rfl, fun _ => rfl⟩
    exact ⟨h.pools, h.perIdLimit, h.maxSize, h.perIdLimit_pos, h.apart, h.pct,
      Nat.mod_lt _ (Nat.succ_pos 99)⟩
  · next hnot =>
    refine ⟨q, rfl, h, rfl, fun hfirst => ?_⟩
    simp [hfirst] at hnot

/-- What a pop does: it takes the first item of an identity from the pool whose turn it is, or
from the other pool when that one is empty. -/
inductive Popped (builder : FairQueueBuilder) (q : FairQueue Time Score Id T) :
    Option (Id × T) → FairQueue Time Score Id T → Prop
  | item {kind id item q'} (wellFormed : q'.WellFormed builder)
      (first : q.queued id = item :: q'.queued id)
      (others : ∀ id', id' ≠ id → q'.queued id' = q.queued id')
      (pool : (q.pool kind).queued id ≠ [])
      (turn : (q.pool q.order.1).totalItems ≠ 0 →
        kind = q.order.1 ∧ q'.popCounter = (q.popCounter + 1) % popCounterWindow) :
      Popped builder q (some (id, item)) q'
  | none (empty : ∀ kind, (q.pool kind).totalItems = 0) : Popped builder q none q

omit [LinearOrder Time] in
lemma WellFormed.popped {kind : PoolKind} (firstAttempt : Bool) {id : Id} {item : T}
    (hpopped : (q.pool kind).Popped (some (id, item)) pool')
    (hturn : (q.pool q.order.1).totalItems ≠ 0 → kind = q.order.1 ∧ firstAttempt = true) :
    ∃ q', (q.setPool pool' kind).recordSuccessfulPop kind firstAttempt = .ok q' ∧
      Popped builder q (some (id, item)) q' := by
  cases hpopped with
  | @item _ _ rest _ wellFormed limits first queued =>
    have hne : (q.pool kind).queued id ≠ [] := by simp [first]
    have hother : ∀ kind', kind' ≠ kind → (q.pool kind').queued id = [] := by
      intro kind' hkind
      by_contra hqueued
      exact hkind (h.apart id kind' kind hqueued hne)
    obtain ⟨hqueued, hid⟩ := queued_setPool hother queued
    obtain ⟨q', hrecord, hq', hsame, hcounter⟩ :=
      (h.setPool hother queued wellFormed limits).recordSuccessfulPop kind firstAttempt
    rw [hqueued] at hsame
    refine ⟨q', hrecord, .item hq' ?_ (fun id' hne => ?_) hne fun hturn' => ?_⟩
    · rw [hsame, hid, first, update_self]
    · rw [hsame, update_of_ne hne]
    · obtain ⟨hkind, hfirst⟩ := hturn hturn'
      refine ⟨hkind, ?_⟩
      rw [hcounter hfirst]
      cases kind <;> rfl

theorem WellFormed.pop_spec (choice : Nat) :
    ∃ result q', q.pop setting choice = .ok (result, q') ∧ Popped builder q result q' := by
  unfold pop
  obtain ⟨result, pool', hrun, hpopped⟩ :=
    Pool.popNext_spec (h.pools q.order.1) setting.clock choice
  cases result with
  | some p =>
    obtain ⟨id, item⟩ := p
    obtain ⟨q', hrecord, hq'⟩ := h.popped true hpopped fun _ => ⟨rfl, rfl⟩
    refine ⟨some (id, item), q', ?_, hq'⟩
    simp only [bind_eq_ok]
    refine ⟨_, hrun, ?_⟩
    simp only [bind_eq_ok]
    exact ⟨q', hrecord, rfl⟩
  | none =>
    cases hpopped with
    | none hfirst =>
      -- the other pool
      have hsame : q.setPool (q.pool q.order.1) q.order.1 = q := by
        cases q.order.1 <;> rfl
      obtain ⟨result, pool', hrun', hpopped⟩ :=
        Pool.popNext_spec (h.pools q.order.2) setting.clock choice
      cases result with
      | some p =>
        obtain ⟨id, item⟩ := p
        obtain ⟨q', hrecord, hq'⟩ := h.popped false hpopped fun hturn => absurd hfirst hturn
        refine ⟨some (id, item), q', ?_, hq'⟩
        simp only [bind_eq_ok]
        refine ⟨_, hrun, ?_⟩
        simp only [hsame, bind_eq_ok]
        refine ⟨_, hrun', ?_⟩
        simp only [bind_eq_ok]
        exact ⟨q', hrecord, rfl⟩
      | none =>
        cases hpopped with
        | none hsecond =>
          have hsame' : q.setPool (q.pool q.order.2) q.order.2 = q := by
            cases q.order.2 <;> rfl
          refine ⟨none, q, ?_, .none fun kind => ?_⟩
          · simp only [bind_eq_ok]
            refine ⟨_, hrun, ?_⟩
            simp only [hsame, bind_eq_ok]
            refine ⟨_, hrun', ?_⟩
            simp only [hsame']
            rfl
          · obtain heq | heq := q.eq_order kind
            · rw [heq, hfirst]
            · rw [heq, hsecond]

end

/-! ## Runs -/

def acceptedItem (id : Id) : Call Score Id T → Outcome Id T → Option T
  | .push id' item _, .pushed (.ok ()) => if id' = id then some item else none
  | _, _ => none

/-- The item of an identity that a call returns. -/
def poppedItem (id : Id) : Outcome Id T → Option T
  | .popped (some (id', item)) => if id' = id then some item else none
  | _ => none

def acceptedItems (id : Id) (calls : List (Call Score Id T)) (outcomes : List (Outcome Id T)) : List T :=
  (calls.zip outcomes).filterMap fun p => acceptedItem id p.1 p.2

/-- The items of an identity that were returned, in order. -/
def poppedItems (id : Id) (outcomes : List (Outcome Id T)) : List T :=
  outcomes.filterMap (poppedItem id)

def bothNonEmpty (q : FairQueue Time Score Id T) : Bool :=
  !q.priorityPool.isEmpty && !q.regularPool.isEmpty

def fromRegular (q : FairQueue Time Score Id T) (item : Option (Id × T)) : Bool :=
  item.any fun p => q.regularPool.containsIdentity p.1

/-- For each pop of a run, whether both pools had items before it and whether it took one from
the regular pool. -/
def pops (setting : Setting Time Score) :
    FairQueue Time Score Id T → List (Call Score Id T) → Checked (List (Bool × Bool))
  | _, [] => pure []
  | q, call :: calls => do
    let (outcome, q') ← q.step setting call
    let rest ← pops setting q' calls
    match outcome with
    | .pushed _ => pure rest
    | .popped item => pure ((q.bothNonEmpty, q.fromRegular item) :: rest)

section

variable {builder : FairQueueBuilder} {q : FairQueue Time Score Id T} (h : q.WellFormed builder)
  (setting)

include h

/-- One call: what is queued and what is added, what is returned and what stays. -/
lemma WellFormed.step_spec (call : Call Score Id T) :
    ∃ outcome q', q.step setting call = .ok (outcome, q') ∧ q'.WellFormed builder ∧
      ∀ id, q.queued id ++ (acceptedItem id call outcome).toList =
        (poppedItem id outcome).toList ++ q'.queued id := by
  cases call with
  | push id item status =>
    obtain ⟨result, q', hrun, hpushed⟩ := h.push_spec setting id item status
    have hstep : q.step setting (.push id item status) = .ok (.pushed result, q') := by
      simp only [step, hrun]
      rfl
    cases hpushed with
    | accepted wellFormed _ queued =>
      refine ⟨_, q', hstep, wellFormed, fun id' => ?_⟩
      by_cases heq : id' = id
      · subst heq
        simp [acceptedItem, poppedItem, queued]
      · simp [acceptedItem, poppedItem, queued, heq, Ne.symm heq]
    | refused e => exact ⟨_, q, hstep, h, fun id' => by simp [acceptedItem, poppedItem]⟩
  | pop choice =>
    obtain ⟨result, q', hrun, hpopped⟩ := h.pop_spec setting choice
    have hstep : q.step setting (.pop choice) = .ok (.popped result, q') := by
      simp only [step, hrun]
      rfl
    cases hpopped with
    | @item _ id item _ wellFormed first others _ _ =>
      refine ⟨_, q', hstep, wellFormed, fun id' => ?_⟩
      by_cases heq : id' = id
      · subst heq
        simp [acceptedItem, poppedItem, first]
      · simp [acceptedItem, poppedItem, others id' heq, Ne.symm heq]
    | none _ => exact ⟨_, q, hstep, h, fun id' => by simp [acceptedItem, poppedItem]⟩

/-- The items of an identity come out in the order in which they went in. -/
theorem WellFormed.run_spec (calls : List (Call Score Id T)) :
    ∃ outcomes q', run setting q calls = .ok (outcomes, q') ∧ q'.WellFormed builder ∧
      ∀ id, q.queued id ++ acceptedItems id calls outcomes =
        poppedItems id outcomes ++ q'.queued id := by
  induction calls generalizing q with
  | nil => exact ⟨[], q, rfl, h, fun id => by simp [acceptedItems, poppedItems]⟩
  | cons call calls ih =>
    obtain ⟨outcome, q1, hstep, h1, hone⟩ := h.step_spec setting call
    obtain ⟨outcomes, q', hrun, hq', hrest⟩ := ih h1
    have hrun' : run setting q (call :: calls) = .ok (outcome :: outcomes, q') := by
      simp only [run, bind_eq_ok]
      exact ⟨_, hstep, _, hrun, rfl⟩
    refine ⟨outcome :: outcomes, q', hrun', hq', fun id => ?_⟩
    have haccepted : acceptedItems id (call :: calls) (outcome :: outcomes) =
        (acceptedItem id call outcome).toList ++ acceptedItems id calls outcomes := by
      cases hitem : acceptedItem id call outcome <;> simp [acceptedItems, hitem]
    have hpopped : poppedItems id (outcome :: outcomes) =
        (poppedItem id outcome).toList ++ poppedItems id outcomes := by
      cases hitem : poppedItem id outcome <;> simp [poppedItems, hitem]
    calc q.queued id ++ acceptedItems id (call :: calls) (outcome :: outcomes)
        = (q.queued id ++ (acceptedItem id call outcome).toList) ++
            acceptedItems id calls outcomes := by rw [haccepted, append_assoc]
      _ = (poppedItem id outcome).toList ++ (q1.queued id ++ acceptedItems id calls outcomes) := by
            rw [hone, append_assoc]
      _ = poppedItems id (outcome :: outcomes) ++ q'.queued id := by
            rw [hrest, hpopped, append_assoc]

/-! ## Shares -/

omit [LinearOrder Time] in
/-- While both pools have items, the counter says where the next one comes from. -/
lemma WellFormed.fromRegular {item : Option (Id × T)} (hpopped : Popped builder q item q')
    (hboth : q.bothNonEmpty = true) :
    q.fromRegular item = decide (q.popCounter < builder.regularBandwidthPct) ∧
      q'.popCounter = (q.popCounter + 1) % popCounterWindow := by
  simp only [bothNonEmpty, Pool.isEmpty, Bool.and_eq_true, Bool.not_eq_true', decide_eq_false_iff_not]
    at hboth
  have hnonempty : ∀ kind, (q.pool kind).totalItems ≠ 0 := by
    intro kind
    cases kind with
    | priority => exact hboth.1
    | regular => exact hboth.2
  cases hpopped with
  | none hempty => exact absurd (hempty .priority) (hnonempty .priority)
  | @item kind id item _ wellFormed first others pool turn =>
    obtain ⟨hkind, hcounter⟩ := turn (hnonempty _)
    refine ⟨?_, hcounter⟩
    have hcontains := (h.pools .regular).containsIdentity id
    rw [← h.pct]
    simp only [FairQueue.fromRegular, Option.any_some]
    by_cases hturn : q.popCounter < q.regularBandwidthPct
    · have hregular : kind = .regular := by rw [hkind, order, if_pos hturn]
      rw [decide_eq_true hturn]
      rw [hregular] at pool
      exact hcontains.mpr pool
    · have hpriority : kind = .priority := by rw [hkind, order, if_neg hturn]
      rw [decide_eq_false hturn, ← Bool.not_eq_true]
      intro hregular
      rw [hpriority] at pool
      cases h.apart id .priority .regular pool (hcontains.mp hregular)

variable {trace : List (Bool × Bool)}

/-- The pops of a run in which both pools always have items. -/
lemma WellFormed.pops_spec (hpops : pops setting q calls = .ok trace)
    (hboth : ∀ p ∈ trace, p.1 = true) {n : Nat} (hn : n % popCounterWindow = q.popCounter) :
    trace.map Prod.snd = (List.range' n trace.length).map fun i =>
      decide (i % popCounterWindow < builder.regularBandwidthPct) := by
  induction calls generalizing q trace n with
  | nil =>
    cases hpops
    rfl
  | cons call calls ih =>
    simp only [pops, bind_eq_ok] at hpops
    obtain ⟨⟨outcome, q1⟩, hstep, rest, hrest, hpure⟩ := hpops
    cases call with
    | push id item status =>
      obtain ⟨result, q', hrun, hpushed⟩ := h.push_spec setting id item status
      simp only [step, hrun] at hstep
      cases hstep
      cases hpure
      cases hpushed with
      | accepted wellFormed popCounter queued =>
        exact ih wellFormed hrest hboth (hn.trans popCounter.symm)
      | refused e => exact ih h hrest hboth hn
    | pop choice =>
      obtain ⟨result, q', hrun, hpopped⟩ := h.pop_spec setting choice
      simp only [step, hrun] at hstep
      cases hstep
      cases hpure
      have hfirst := hboth _ mem_cons_self
      obtain ⟨hfrom, hcounter⟩ := h.fromRegular hpopped hfirst
      have hq' : q'.WellFormed builder := by
        cases hpopped with
        | item wellFormed _ _ _ _ => exact wellFormed
        | none _ => exact h
      have hn' : (n + 1) % popCounterWindow = q'.popCounter := by
        rw [hcounter, ← hn, Nat.mod_add_mod]
      have hih := ih hq' hrest (fun p hp => hboth p (mem_cons_of_mem _ hp)) hn'
      rw [map_cons, length_cons, range'_succ, map_cons, hih, hfrom, hn]

omit h [LinearOrder Time] [DecidableEq Id] in
/-- Among a hundred successive numbers, so many have a small remainder. -/
lemma countP_window {pct : Nat} (hpct : pct ≤ popCounterWindow) (n : Nat) :
    (List.range' n popCounterWindow).countP (fun i => decide (i % popCounterWindow < pct)) = pct := by
  have hperiodic : Function.Periodic (fun i => i % popCounterWindow < pct) popCounterWindow := by
    intro i
    simp only [Nat.add_mod_right]
  have hsmall : (Finset.range popCounterWindow).filter (fun i => i % popCounterWindow < pct) =
      Finset.range pct := by
    ext i
    simp only [Finset.mem_filter, Finset.mem_range]
    constructor
    · rintro ⟨hi, hlt⟩
      rwa [Nat.mod_eq_of_lt hi] at hlt
    · intro hlt
      have hi := hlt.trans_le hpct
      exact ⟨hi, by rwa [Nat.mod_eq_of_lt hi]⟩
  have hcount := Nat.filter_Ico_card_eq_of_periodic n popCounterWindow _ hperiodic
  rw [Nat.count_eq_card_filter_range, hsmall, Finset.card_range] at hcount
  refine Eq.trans ?_ hcount
  rw [countP_eq_length_filter, Nat.Ico_eq_range', Nat.add_sub_cancel_left]
  rfl

theorem WellFormed.share (hpops : pops setting q calls = .ok trace)
    (hlength : trace.length = popCounterWindow) (hboth : ∀ p ∈ trace, p.1 = true) :
    trace.countP Prod.snd = builder.regularBandwidthPct := by
  have htrace := h.pops_spec setting hpops hboth (Nat.mod_eq_of_lt h.popCounter)
  rw [hlength] at htrace
  calc trace.countP Prod.snd
      = (trace.map Prod.snd).countP id := by rw [countP_map]; rfl
    _ = (List.range' q.popCounter popCounterWindow).countP
          (fun i => decide (i % popCounterWindow < builder.regularBandwidthPct)) := by
        rw [htrace, countP_map]
        rfl
    _ = builder.regularBandwidthPct := countP_window builder.regularBandwidthPct_le _

omit [LinearOrder Time] in
lemma WellFormed.length_items : q.items.length = q.priorityPool.len + q.regularPool.len := by
  have hpriority : q.priorityPool.WellFormed := h.pools .priority
  have hregular : q.regularPool.WellFormed := h.pools .regular
  rw [items, length_append, hpriority.length_items, hregular.length_items]

/-- Only an empty queue has nothing to give. -/
lemma WellFormed.pop_none {choice : Nat} (hpop : q.pop setting choice = .ok (none, q')) :
    q.len = 0 ∧ q.items = [] := by
  obtain ⟨result, q'', hrun, hpopped⟩ := h.pop_spec setting choice
  rw [hpop] at hrun
  cases hrun
  cases hpopped with
  | none hempty =>
    have hpriority : q.priorityPool.totalItems = 0 := hempty .priority
    have hregular : q.regularPool.totalItems = 0 := hempty .regular
    have hzero : q.priorityPool.len + q.regularPool.len = 0 := by
      rw [Pool.len, Pool.len, hpriority, hregular]
    refine ⟨by rw [len, hzero, zero_min], ?_⟩
    rw [← length_eq_zero_iff, h.length_items, hzero]

end

end FairQueue

/-- Runs of a queue: each accepted item comes out once or is still queued, in the order of its
identity; identities are in one pool, the limits hold, the length is the number of items, and
only an empty queue has nothing to give; and of a hundred pops from two pools that have items,
the regular pool has its share. -/
theorem fair_queue {builder : FairQueueBuilder} {setting : Setting Time Score}
    {q₀ : FairQueue Time Score Id T} (hbuild : builder.build setting = .ok q₀)
    (calls : List (Call Score Id T)) :
    ∃ outcomes q, run setting q₀ calls = .ok (outcomes, q) ∧
      (∀ id, acceptedItems id calls outcomes = poppedItems id outcomes ++ q.queued id) ∧
      (∀ id, q.priorityPool.queued id = [] ∨ q.regularPool.queued id = []) ∧
      (∀ id, (q.priorityPool.queued id).length ≤ builder.perIdLimit ∧
        (q.regularPool.queued id).length ≤ builder.regularPerIdLimit) ∧
      q.priorityPool.items.length ≤ builder.maxSize ∧
      q.regularPool.items.length ≤ builder.regularMaxSize ∧
      (q.items.length ≤ usizeMax → q.len = q.items.length) ∧
      (∀ choice q', q.pop setting choice = .ok (none, q') → q.len = 0 ∧ q.items = []) ∧
      ∀ more trace, pops setting q more = .ok trace → trace.length = popCounterWindow →
        (∀ p ∈ trace, p.1 = true) → trace.countP Prod.snd = builder.regularBandwidthPct := by
  obtain ⟨outcomes, q, hrun, h, hconserved⟩ := (wellFormed_build hbuild).run_spec setting calls
  have hpriority : q.priorityPool.WellFormed := h.pools .priority
  have hregular : q.regularPool.WellFormed := h.pools .regular
  refine ⟨outcomes, q, hrun, fun id => ?_, fun id => ?_, fun id => ⟨?_, ?_⟩, ?_, ?_, fun hfits => ?_,
    fun _ _ => h.pop_none setting, fun _ _ => h.share setting⟩
  · rw [← hconserved, queued_build hbuild, nil_append]
  · by_contra hboth
    rw [not_or] at hboth
    cases h.apart id .priority .regular hboth.1 hboth.2
  · exact (hpriority.length_le id).trans_eq (h.perIdLimit .priority)
  · exact (hregular.length_le id).trans_eq (h.perIdLimit .regular)
  · rw [hpriority.length_items]
    exact hpriority.totalItems_le.trans_eq (h.maxSize .priority)
  · rw [hregular.length_items]
    exact hregular.totalItems_le.trans_eq (h.maxSize .regular)
  · rw [len, ← h.length_items, min_eq_left hfits]

def sampleSetting : Setting Nat Nat where
  clock := ⟨0, fun time score => time + 100 / score⟩
  one := 1

/-- An identity sends two items, and is promoted between them. -/
def sampleCalls : List (Call Nat Nat String) :=
  [.push 1 "first" .unknown, .push 1 "second" (.promoted 5), .push 2 "other" (.promoted 2),
    .pop 0, .pop 0]

/-- Both items of the first identity are accepted and popped in order, although it moves to the
other pool with them; the item of the second identity remains. -/
theorem fair_queue_sample : ∃ (q₀ : FairQueue Nat Nat Nat String)
    (outcomes : List (Outcome Nat String)) (q : FairQueue Nat Nat Nat String),
    default.build sampleSetting = .ok q₀ ∧ run sampleSetting q₀ sampleCalls = .ok (outcomes, q) ∧
      acceptedItems 1 sampleCalls outcomes = ["first", "second"] ∧
      acceptedItems 2 sampleCalls outcomes = ["other"] ∧
      poppedItems 1 outcomes = ["first", "second"] ∧ poppedItems 2 outcomes = [] ∧
      q.queued 1 = [] ∧ q.queued 2 = ["other"] := by
  obtain ⟨q₀, hbuild, heval⟩ : ∃ q₀ : FairQueue Nat Nat Nat String,
      default.build sampleSetting = .ok q₀ ∧ (run sampleSetting q₀ sampleCalls).map (fun r =>
        [acceptedItems 1 sampleCalls r.1, acceptedItems 2 sampleCalls r.1, poppedItems 1 r.1,
          poppedItems 2 r.1]) = .ok [["first", "second"], ["other"], ["first", "second"], []] :=
    ⟨_, rfl, by decide +kernel⟩
  obtain ⟨outcomes, q, hrun, hconserved, -⟩ := fair_queue hbuild sampleCalls
  rw [hrun] at heval
  simp only [Except.map, Except.ok.injEq, List.cons.injEq, and_true] at heval
  obtain ⟨haccepted, haccepted', hpopped, hpopped'⟩ := heval
  have hrest := hconserved 1
  have hrest' := hconserved 2
  rw [haccepted, hpopped] at hrest
  rw [haccepted', hpopped', List.nil_append] at hrest'
  exact ⟨q₀, outcomes, q, hbuild, hrun, haccepted, haccepted', hpopped, hpopped',
    List.self_eq_append_right.mp hrest, hrest'.symm⟩

end Kinet
