import Kinet.Foundation.History
import Kinet.Validator.ValidatorSet

/-!
# Validator sets after a restart

A node that starts gets the validator sets of its locked epochs from the forkpoint, and later
the set of each epoch whose boundary block it finalizes or replays.  Each set goes through the
same handler, which ends with a write of the validators file.  `V` is the type of sets.

Main results:

- `sets_in_order`: if the replay begins in the highest locked epoch, no assertion fails.
- `repeated_set_stops`: the replay of a boundary block of a locked epoch stops the node.
-/

namespace Kinet.Restart

open Checked List AList SeqNum EpochManager

variable {V : Type} [DecidableEq V]

/-- What a node knows of epochs and validator sets. -/
structure Node (V : Type) where
  epochManager : EpochManager
  valEpochMap : FiniteMap Nat V
  lastValidatorSet : Option (Nat × V)
  /-- finalized boundary blocks whose sets have not arrived -/
  notified : List Nat

/-- The one or two consecutive locked epochs of a forkpoint: the number of the first, and their
start rounds and validator sets. -/
structure Forkpoint (V : Type) where
  epoch : Nat
  first : Nat × V
  second : Option (Nat × V)

/-- The locked epochs with their start rounds and sets. -/
def Forkpoint.locked (fp : Forkpoint V) : List (Nat × Nat × V) :=
  (fp.epoch, fp.first) :: (fp.second.map fun s => (fp.epoch + 1, s)).toList

/-- The last locked epoch. -/
def Forkpoint.highest (fp : Forkpoint V) : Nat := fp.epoch + if fp.second.isSome then 1 else 0

/-- `ValidatorsEpochMapping::insert` -/
def insertValidators (m : FiniteMap Nat V) (epoch : Nat) (validators : V) :
    Checked (FiniteMap Nat V) :=
  match m.lookup epoch with
  | none => pure (m.insert epoch validators)
  | some known => do
    require (known = validators)
    pure m

omit [DecidableEq V] in
/-- The file holds the last set; a new one has to be of the next epoch. -/
def writeValidatorSet (lastValidatorSet : Option (Nat × V)) (newValidatorSet : Nat × V) :
    Checked (Option (Nat × V)) := do
  require (lastValidatorSet.all fun last => newValidatorSet.1 = last.1 + 1)
  pure (some newValidatorSet)

/-- Take in the validator set of an epoch. -/
def updateValidators (n : Node V) (validatorSetData : Nat × V) : Checked (Node V) := do
  let valEpochMap ← insertValidators n.valEpochMap validatorSetData.1 validatorSetData.2
  let lastValidatorSet ← writeValidatorSet n.lastValidatorSet validatorSetData
  pure { n with valEpochMap := valEpochMap, lastValidatorSet := lastValidatorSet }

/-- Start from a forkpoint: its epochs, then its validator sets. -/
def startUp (epochManager : EpochManager) (fp : Forkpoint V) : Checked (Node V) := do
  let epochManager ← unwrap (fp.locked.foldlM
    (fun m locked => m.insertEpochStart locked.1 locked.2.1)
    { epochManager with epochStarts := ∅ })
  fp.locked.foldlM (fun n locked => updateValidators n (locked.1, locked.2.2))
    ⟨epochManager, ∅, none, []⟩

/-- What happens to a node after its start. -/
inductive Event (V : Type) where
  /-- a block is finalized, in the replay or later -/
  | finalize (seqNum round : Nat)
  /-- the validator set arrives for the first boundary block that waits for one -/
  | deliver (validators : V)

/-- The epoch whose set a boundary block determines. -/
def lockedEpoch (n : Node V) (seqNum : Nat) : Nat :=
  toEpoch seqNum n.epochManager.epochLength + 1

/-- Finalize a block, or take in the set that arrives. -/
def step (n : Node V) : Event V → Checked (Node V × Option (Nat × V))
  | .finalize seqNum round => do
    let epochManager ← unwrap (n.epochManager.scheduleEpochStart seqNum round)
    let boundary := isBoundaryBlock seqNum n.epochManager.epochLength
    pure ({ n with
      epochManager := epochManager
      notified := if boundary then n.notified ++ [seqNum] else n.notified }, none)
  | .deliver validators =>
    match n.notified with
    | [] => pure (n, none)
    | seqNum :: notified => do
      let validatorSetData := (lockedEpoch n seqNum, validators)
      let n ← updateValidators { n with notified := notified } validatorSetData
      pure (n, some validatorSetData)

def Event.isFinalize : Event V → Bool
  | .finalize _ _ => true
  | .deliver _ => false

/-- How many blocks have been finalized. -/
def finalized (history : List (Event V × Option (Nat × V))) : Nat :=
  history.countP (·.1.isFinalize)

/-- Blocks are finalized in order from `start` on, and what is known of an epoch is true: the
round of its boundary block, and its validator set. -/
def InOrder (start : Nat) (history : List (Event V × Option (Nat × V))) (n : Node V) :
    Event V → Prop
  | .finalize seqNum round =>
    seqNum = start + finalized history ∧ (isBoundaryBlock seqNum n.epochManager.epochLength = true →
        ∀ r ∈ n.epochManager.epochStarts.lookup (lockedEpoch n seqNum),
          r = round + n.epochManager.epochStartDelay)
  | .deliver validators => ∀ seqNum ∈ n.notified.head?,
      ∀ known ∈ n.valEpochMap.lookup (lockedEpoch n seqNum), known = validators

instance (start : Nat) (history : List (Event V × Option (Nat × V))) (n : Node V) :
    (e : Event V) → Decidable (InOrder start history n e)
  | .finalize _ _ => inferInstanceAs (Decidable (_ ∧ _))
  | .deliver _ => inferInstanceAs (Decidable (∀ seqNum ∈ n.notified.head?, _))

/-- The sets that have arrived, those of the forkpoint first. -/
def arrived (fp : Forkpoint V) (history : List (Event V × Option (Nat × V))) : List (Nat × V) :=
  fp.locked.map (fun locked => (locked.1, locked.2.2)) ++ history.filterMap Prod.snd

/-! ## Epochs follow one another -/

lemma toEpoch_succ {n epochLength : Nat} (hpos : 0 < epochLength) :
    toEpoch (n + 1) epochLength = toEpoch n epochLength +
      if isBoundaryBlock n epochLength then 1 else 0 := by
  have hlt := Nat.mod_lt n hpos
  have hdvd : epochLength ∣ n + 1 ↔ isBoundaryBlock n epochLength = true := by
    rw [isBoundaryBlock, beq_iff_eq]
    conv_lhs => rw [← Nat.div_add_mod n epochLength, add_assoc]
    rw [Nat.dvd_add_right (Nat.dvd_mul_right ..)]
    constructor
    · intro h
      have := Nat.le_of_dvd (Nat.succ_pos _) h
      omega
    · intro h
      rw [h, Nat.sub_add_cancel hpos]
  rw [toEpoch, toEpoch, Nat.succ_div]
  simp only [hdvd]
  omega

/-- The node knows the epochs up to `highest`, and the next ones wait for their sets. -/
structure Sequential (start : Nat) (fp : Forkpoint V)
    (history : List (Event V × Option (Nat × V))) (n : Node V) (highest : Nat) : Prop where
  last : n.lastValidatorSet = (arrived fp history).getLast? ∧
    n.lastValidatorSet.map Prod.fst = some highest
  known : ∀ d ∈ arrived fp history, d.1 ≤ highest
  sets : ∀ e ∈ n.valEpochMap, e ≤ highest
  starts : ∀ e ∈ n.epochManager.epochStarts, e ≤ highest + n.notified.length
  notified : n.notified.map (lockedEpoch n) = List.range' (highest + 1) n.notified.length
  next : toEpoch (start + finalized history)
    n.epochManager.epochLength = highest + n.notified.length

variable {start : Nat} {fp : Forkpoint V} {history : List (Event V × Option (Nat × V))}
  {n : Node V} {highest : Nat}

lemma Sequential.finalize (h : Sequential start fp history n highest) {seqNum : Nat}
    (hseq : seqNum = start + finalized history) (round : Nat) :
    ∃ n', step n (.finalize seqNum round) = .ok (n', none) ∧
      Sequential start fp (history ++ [(.finalize seqNum round, none)]) n' highest := by
  have hepoch := h.next
  rw [← hseq] at hepoch
  have harrived : arrived fp (history ++ [(.finalize seqNum round, none)]) = arrived fp history := by
    simp [arrived]
  have hcount : start + finalized (history ++ [(.finalize seqNum round, none)]) = seqNum + 1 := by
    simp [finalized, Event.isFinalize, hseq, add_assoc]
  have hnext := toEpoch_succ (n := seqNum) n.epochManager.epochLength_pos
  by_cases hboundary : isBoundaryBlock seqNum n.epochManager.epochLength = true
  · -- the epoch after the last one that waits is new
    have hnew : n.epochManager.epochStarts.lookup
        (toEpoch seqNum n.epochManager.epochLength + 1) = none := by
      by_contra hne
      obtain ⟨r, hr⟩ := Option.ne_none_iff_exists'.mp hne
      have := h.starts _ (FiniteMap.mem_iff_lookup.mpr ⟨r, hr⟩)
      omega
    simp only [step, scheduleEpochStart, insertEpochStart, hboundary,
      if_true, hnew, unwrap_some, ok_bind]
    refine ⟨_, rfl, harrived ▸ h.last, harrived ▸ h.known, h.sets, ?_, ?_, ?_⟩
    · intro e he
      simp only [length_append, length_singleton]
      rcases (mem_insert _).mp he with rfl | he
      · omega
      · have := h.starts e he
        omega
    · rw [length_append, length_singleton, range'_1_concat, ← h.notified, map_append]
      simp only [map_cons, map_nil, lockedEpoch, hepoch]
      rw [add_right_comm]
      rfl
    · simp only [hcount, length_append, length_singleton]
      rw [hnext, if_pos hboundary, hepoch, add_assoc]
  · simp only [step, scheduleEpochStart, hboundary, unwrap_some,
      ok_bind, Bool.false_eq_true, if_false]
    refine ⟨_, rfl, harrived ▸ h.last, harrived ▸ h.known, h.sets, h.starts, h.notified, ?_⟩
    rw [hcount, hnext, if_neg hboundary, hepoch, add_zero]

lemma Sequential.deliver (h : Sequential start fp history n highest) (validators : V) :
    ∃ n' o highest', step n (.deliver validators) = .ok (n', o) ∧
      Sequential start fp (history ++ [(.deliver validators, o)]) n' highest' := by
  have hcount : ∀ o, finalized (history ++ [(.deliver validators, o)]) = finalized history := by
    simp [finalized, Event.isFinalize]
  have hnotified := h.notified
  have hnext := h.next
  have hstarts := h.starts
  simp only [step]
  cases hqueue : n.notified with
  | nil =>
    refine ⟨n, none, highest, rfl, ?_⟩
    have harrived : arrived fp (history ++ [(.deliver validators, none)]) = arrived fp history := by
      simp [arrived]
    exact ⟨harrived ▸ h.last, harrived ▸ h.known, h.sets, h.starts, h.notified, by
      rw [hcount]; exact h.next⟩
  | cons seqNum notified =>
    rw [hqueue] at hnotified hnext hstarts
    simp only [map_cons, length_cons, range'_succ, cons.injEq] at hnotified
    obtain ⟨hlocked, hrest⟩ := hnotified
    have hnew : n.valEpochMap.lookup (lockedEpoch n seqNum) = none := by
      by_contra hne
      obtain ⟨v, hv⟩ := Option.ne_none_iff_exists'.mp hne
      have := h.sets _ (FiniteMap.mem_iff_lookup.mpr ⟨v, hv⟩)
      omega
    have hlast : n.lastValidatorSet.all (fun last => highest + 1 = last.1 + 1) = true := by
      rw [Option.all_eq_true]
      intro last hl
      simpa [hl, eq_comm] using h.last.2
    simp only [updateValidators, insertValidators, writeValidatorSet, hnew, pure_bind]
    simp only [hlocked, hlast, require_true, ok_bind, pure_bind]
    have harrived : arrived fp (history ++ [(.deliver validators, some (highest + 1, validators))]) =
        arrived fp history ++ [(highest + 1, validators)] := by
      simp [arrived]
    refine ⟨_, _, highest + 1, rfl, ?_, ?_, ?_, ?_, hrest, ?_⟩
    · simp [harrived]
    · intro d hd
      rw [harrived, mem_append, mem_singleton] at hd
      rcases hd with hd | rfl
      · exact (h.known d hd).trans (Nat.le_succ _)
      · exact le_rfl
    · intro e he
      rcases (mem_insert _).mp he with rfl | he
      · exact le_rfl
      · exact (h.sets e he).trans (Nat.le_succ _)
    · intro e he
      have := hstarts e he
      simp only [length_cons] at this
      dsimp only
      omega
    · rw [hcount, hnext, length_cons]
      dsimp only
      omega

/-- The state right after the start. -/
lemma sequential_startUp (epochManager : EpochManager) (fp : Forkpoint V)
    (hstart : toEpoch start epochManager.epochLength = fp.highest) :
    ∃ n, startUp epochManager fp = .ok n ∧ Sequential start fp [] n fp.highest := by
  obtain ⟨epoch, ⟨r1, v1⟩, _ | ⟨r2, v2⟩⟩ := fp
  all_goals have hmem {α : Type} (a : α) (e : Nat) :
    e ∈ (AList.singleton epoch a : FiniteMap Nat α) ↔ e = epoch := by simp [AList.mem_keys]
  · refine ⟨⟨{ epochManager with epochStarts := insert epoch r1 ∅ },
      insert epoch v1 ∅, some (epoch, v1), []⟩, rfl, ?_⟩
    constructor <;> simp_all [arrived, Forkpoint.locked, Forkpoint.highest, finalized]
  · refine ⟨⟨{ epochManager with
        epochStarts := insert (epoch + 1) r2 (insert epoch r1 ∅) },
      insert (epoch + 1) v2 (insert epoch v1 ∅), some (epoch + 1, v2), []⟩, ?_, ?_⟩
    · have hne {α : Type} (a : α) :
          (singleton epoch a : FiniteMap Nat α).lookup (epoch + 1) = none :=
        lookup_eq_none.mpr (by simp [hmem])
      simp [startUp, Forkpoint.locked, insertEpochStart, updateValidators,
        insertValidators, writeValidatorSet, hne]
    · constructor <;> simp_all [arrived, Forkpoint.locked, Forkpoint.highest, finalized]

/-- **Sets arrive in order.**  If the first finalized block belongs to the highest locked epoch of
the forkpoint, then the node starts, no assertion fails in any later run, and the last set that
was written is the one of the highest epoch that has arrived. -/
theorem sets_in_order (epochManager : EpochManager) (fp : Forkpoint V) {start : Nat}
    (hstart : toEpoch start epochManager.epochLength = fp.highest) :
    ∃ init, startUp epochManager fp = .ok init ∧
      ∀ history n, Run step (InOrder start) init history n →
        (∀ e, InOrder start history n e → ∃ r, step n e = .ok r) ∧
        n.lastValidatorSet = (arrived fp history).getLast? ∧
        ∀ last ∈ n.lastValidatorSet, ∀ d ∈ arrived fp history, d.1 ≤ last.1 := by
  obtain ⟨init, hinit, hfirst⟩ := sequential_startUp epochManager fp hstart
  refine ⟨init, hinit, fun history n hrun => ?_⟩
  obtain ⟨highest, h⟩ : ∃ highest, Sequential start fp history n highest := by
    apply hrun.invariant (I := fun history n => ∃ highest, Sequential start fp history n highest)
      ⟨_, hfirst⟩
    rintro history n (⟨seqNum, round⟩ | validators) n' o ⟨highest, h⟩ horder hstep
    · obtain ⟨n'', heq, hseq⟩ := h.finalize horder.1 round
      rw [heq] at hstep
      cases hstep
      exact ⟨highest, hseq⟩
    · obtain ⟨n'', o', highest', heq, hseq⟩ := h.deliver validators
      rw [heq] at hstep
      cases hstep
      exact ⟨highest', hseq⟩
  refine ⟨?_, h.last.1, ?_⟩
  · rintro (⟨seqNum, round⟩ | validators) horder
    · obtain ⟨n', heq, -⟩ := h.finalize horder.1 round
      exact ⟨_, heq⟩
    · obtain ⟨n', o, -, heq, -⟩ := h.deliver validators
      exact ⟨_, heq⟩
  · intro last hlast d hd
    have hhighest := h.last.2
    rw [Option.mem_def.mp hlast] at hhighest
    exact (Option.some.inj hhighest) ▸ h.known d hd

/-- Epochs of ten blocks, which start four rounds after their boundary blocks. -/
def sampleManager : EpochManager := ⟨10, 4, ∅, Nat.succ_pos 9⟩

/-- Epochs 1 and 2 are locked. -/
def sampleForkpoint : Forkpoint Nat := ⟨1, (0, 100), some (15, 200)⟩

/-- Block 19 locks epoch 3, and its set arrives after those of the forkpoint. -/
theorem sets_in_order_sample : ∃ init history n,
    startUp sampleManager sampleForkpoint = .ok init ∧
      Run step (InOrder 18) init history n ∧
      arrived sampleForkpoint history = [(1, 100), (2, 200), (3, 300)] ∧
      n.lastValidatorSet = some (3, 300) := by
  have hstart : ((startUp sampleManager sampleForkpoint).bind fun init => .ok
      ((replay step (InOrder 18) [] init [.finalize 18 20, .finalize 19 21, .deliver 300]).any
        fun r => decide (arrived sampleForkpoint r.1 = [(1, 100), (2, 200), (3, 300)]))) =
          .ok true := by
    decide +kernel
  obtain ⟨init, hinit, hreplay⟩ := bind_eq_ok.mp hstart
  obtain ⟨history, n, hrun, harrived⟩ := Run.exists_of_replay step (InOrder 18) init
    [.finalize 18 20, .finalize 19 21, .deliver 300]
    (P := fun history _ => arrived sampleForkpoint history = [(1, 100), (2, 200), (3, 300)])
    (Except.ok.inj hreplay)
  obtain ⟨init', hinit', hruns⟩ := sets_in_order sampleManager sampleForkpoint
    (show toEpoch 18 _ = _ from rfl)
  obtain rfl := Except.ok.inj (hinit.symm.trans hinit')
  refine ⟨init, history, n, hinit, hrun, harrived, ?_⟩
  rw [(hruns history n hrun).2.1, harrived]
  rfl

/-- **A set that comes again stops the node.**  Epochs 1 and 2 are locked by the forkpoint, and
the replay begins before block 9, which has locked epoch 2: its set comes a second time. -/
theorem repeated_set_stops : ∃ init, startUp sampleManager sampleForkpoint = .ok init ∧
      ∃ history n, Run step (InOrder 8) init history n ∧
        InOrder 8 history n (.deliver 200) ∧ step n (.deliver 200) = .error .assertion := by
  have hstart : ((startUp sampleManager sampleForkpoint).bind fun init => .ok
      ((replay step (InOrder 8) [] init [.finalize 8 10, .finalize 9 11]).any fun r =>
        decide (InOrder 8 r.1 r.2 (.deliver 200) ∧
          (step r.2 (.deliver 200)).fault? = some .assertion))) = .ok true := by
    decide +kernel
  obtain ⟨init, hinit, hreplay⟩ := bind_eq_ok.mp hstart
  obtain ⟨history, n, hrun, horder, hfault⟩ := Run.exists_of_replay step (InOrder 8) init
    [.finalize 8 10, .finalize 9 11] (P := fun history n => InOrder 8 history n (.deliver 200) ∧
      (step n (.deliver 200)).fault? = some .assertion) (Except.ok.inj hreplay)
  exact ⟨init, hinit, history, n, hrun, horder, fault?_eq_some.mp hfault⟩

end Kinet.Restart
