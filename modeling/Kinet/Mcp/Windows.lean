import Mathlib.Data.Finset.Interval
import Kinet.Foundation.Effect
import Kinet.Mcp.Conductor

/-!
# Windows of the conductor

The tracker, the count of open windows and the agreement round stay in step over every
sequence of finalizations and messages, whatever the agreement protocol does.

Main results:

- `ConductorRun.run_windows`: windows are opened in order, one at a time, each
  after the boundary of the one before, and no assertion fails.
-/

namespace Kinet.Mcp

open Effect List Finset KinetConductor ConductorConfig Function

/-! ## Completed slots -/

namespace CompletionTracker

/-- The tracker is exact for the completed slots `done`. -/
structure Tracks (t : CompletionTracker) (done : Finset Nat) : Prop where
  below : ∀ s < t.cap, s ∈ done
  missing : t.cap ∉ done
  completed : t.completed = done.filter (t.cap < ·)

lemma tracks_new : new.Tracks ∅ :=
  ⟨fun _ h => absurd h (Nat.not_lt_zero _), notMem_empty _, rfl⟩

variable {done : Finset Nat}

lemma Tracks.of_le {t : CompletionTracker} (hbelow : ∀ s < t.cap, s ∈ done)
    (hcap : t.cap ∉ done) (hcompleted : t.completed = done.filter (t.cap ≤ ·)) : t.Tracks done := by
  refine ⟨hbelow, hcap, hcompleted.trans (filter_congr fun s hs => ?_)⟩
  have hne : t.cap ≠ s := fun h => hcap (h ▸ hs)
  omega

/-- Moving the cap over completed slots ends at a slot that is not completed. -/
theorem advance_spec (hdone : ∀ s ∈ done, s + 1 < 2 ^ 64) {fuel : Nat}
    {t : CompletionTracker} (hbelow : ∀ s < t.cap, s ∈ done)
    (hcompleted : t.completed = done.filter (t.cap ≤ ·)) (hfuel : t.completed.card ≤ fuel) :
    ∃ t', t.advance fuel = (.ok (), t') ∧ t'.Tracks done ∧ t.cap ≤ t'.cap := by
  have hmem : t.cap ∈ t.completed ↔ t.cap ∈ done := by simp [hcompleted]
  induction fuel generalizing t with
  | zero =>
    have hempty : t.completed = ∅ := card_eq_zero.mp (Nat.le_zero.mp hfuel)
    refine ⟨t, rfl, .of_le hbelow ?_ hcompleted, le_rfl⟩
    rw [← hmem, hempty]
    exact notMem_empty _
  | succ fuel ih =>
    rw [advance]
    by_cases hcap : t.cap ∈ done
    · have hnext : checkedInt 64 (t.cap + 1) = .ok (t.cap + 1) :=
        checkedInt_eq_ok.mpr ⟨hdone _ hcap, rfl⟩
      rw [if_pos (hmem.mpr hcap), hnext]
      have herase : t.completed.erase t.cap = done.filter (t.cap + 1 ≤ ·) := by
        ext s
        simp only [hcompleted, Finset.mem_erase, Finset.mem_filter, Nat.succ_le_iff,
          Nat.lt_iff_le_and_ne]
        tauto
      have hcard : (t.completed.erase t.cap).card ≤ fuel := by
        rw [Finset.card_erase_of_mem (hmem.mpr hcap)]
        omega
      obtain ⟨t', hadvance, htracks, hle⟩ := @ih ⟨t.cap + 1, t.completed.erase t.cap⟩
        (Nat.forall_lt_succ_right.mpr ⟨hbelow, hcap⟩) herase hcard (by simp [herase])
      exact ⟨t', hadvance, htracks, Nat.le_of_succ_le hle⟩
    · rw [if_neg (mt hmem.mp hcap)]
      exact ⟨t, rfl, .of_le hbelow hcap hcompleted, le_rfl⟩

lemma markCompleted_of_notMem {t : CompletionTracker} (h : t.Tracks done)
    (hdone : ∀ s ∈ done, s + 1 < 2 ^ 64) {slot : Nat} (hslot : slot + 1 < 2 ^ 64)
    (hnew : slot ∉ done) :
    ∃ t', t.markCompleted slot = .ok (.ok (), t') ∧ t'.Tracks (insert slot done) ∧
      t.cap ≤ t'.cap := by
  have hle : t.cap ≤ slot := by
    by_contra hlt
    exact hnew (h.below slot (Nat.lt_of_not_le hlt))
  have hout : slot ∉ t.completed := by
    rw [h.completed, Finset.mem_filter]
    exact fun hmem => hnew hmem.1
  have hcompleted : insert slot t.completed = (insert slot done).filter (t.cap ≤ ·) := by
    ext s
    have hcap : s = t.cap → s ∉ done := fun heq => heq ▸ h.missing
    simp only [h.completed, Finset.mem_insert, Finset.mem_filter]
    by_cases hs : s ∈ done
    · have hne : s ≠ t.cap := fun heq => hcap heq hs
      simp only [hs, true_and, or_true]
      omega
    · simp only [hs, false_and, or_false]
      exact ⟨fun heq => ⟨heq, heq ▸ hle⟩, (·.1)⟩
  obtain ⟨t', hadvance, htracks, hcap⟩ :=
    @advance_spec (insert slot done)
      (by simpa [Finset.forall_mem_insert] using And.intro hslot hdone) _
      ⟨t.cap, insert slot t.completed⟩ (fun s hs => Finset.mem_insert_of_mem (h.below s hs))
      hcompleted le_rfl
  refine ⟨t', ?_, htracks, hcap⟩
  unfold markCompleted
  rw [if_neg (by omega), if_neg (by omega), if_neg hout]
  exact congrArg Except.ok hadvance

lemma markCompleted_of_mem {t : CompletionTracker} (h : t.Tracks done)
    {slot : Nat} (hslot : slot + 1 < 2 ^ 64) (hold : slot ∈ done) :
    t.markCompleted slot = .ok (.error (.invalidSlot slot), t) := by
  unfold markCompleted
  rw [if_neg (by omega)]
  by_cases hlt : slot < t.cap
  · rw [if_pos hlt]
  · have hne : slot ≠ t.cap := fun heq => h.missing (heq ▸ hold)
    have hmem : slot ∈ t.completed := by
      rw [h.completed, Finset.mem_filter]
      exact ⟨hold, by omega⟩
    rw [if_neg hlt, if_pos hmem]

end CompletionTracker

/-! ## Opening a window -/

variable {firstDeadline : Nat}

namespace ConductorConfig

lemma mapM_eq_map {α β ε : Type} {f : α → Except ε β} {g : α → β} {l : List α} {l' : List β}
    (h : l.mapM f = .ok l') (hf : ∀ a ∈ l, ∀ b, f a = .ok b → b = g a) : l' = l.map g := by
  induction l generalizing l' with
  | nil =>
    cases h
    rfl
  | cons a l ih =>
    rw [mapM_cons, bind_eq_ok] at h
    obtain ⟨b, hb, h⟩ := h
    obtain ⟨bs, hbs, h⟩ := bind_eq_ok.mp h
    cases h
    rw [List.map_cons, hf a List.mem_cons_self b hb,
      ih hbs fun a' ha' => hf a' (mem_cons_of_mem _ ha')]

lemma addDeltas_eq_ok {timestamp delta count t : Nat}
    (h : addDeltas timestamp delta count = .ok t) : t = timestamp + delta * count := by
  obtain ⟨d, hd, ht⟩ := bind_eq_ok.mp h
  obtain ⟨_, rfl⟩ := checkedInt_eq_ok.mp hd
  obtain ⟨_, rfl⟩ := checkedInt_eq_ok.mp ht
  rfl

variable {config : ConductorConfig}

def windowSlots (config : ConductorConfig) (window firstDeadline : Nat) : List (Nat × Nat) :=
  (List.range config.slotsPerWindow).map fun k =>
    (window * config.slotsPerWindow + k, firstDeadline + config.slotInterval * k)

lemma deadlineForSlot_eq_ok {window slot t : Nat}
    (h : config.deadlineForSlot window firstDeadline slot = .ok t) :
    t = firstDeadline + config.slotInterval * (slot - window * config.slotsPerWindow) := by
  obtain ⟨_, _, h⟩ := bind_eq_ok.mp h
  obtain ⟨slotStart, hstart, h⟩ := bind_eq_ok.mp h
  obtain ⟨_, _, h⟩ := bind_eq_ok.mp h
  obtain ⟨_, rfl⟩ := checkedInt_eq_ok.mp hstart
  split at h
  · cases h
  · exact addDeltas_eq_ok h

lemma computeOpenSlots_eq_ok {window : Nat} {slots : List (Nat × Nat)}
    (h : config.computeOpenSlots window firstDeadline = .ok slots) :
    (window + 1) * config.slotsPerWindow < 2 ^ 64 ∧
      slots = config.windowSlots window firstDeadline := by
  obtain ⟨next, hnext, h⟩ := bind_eq_ok.mp h
  obtain ⟨slotStart, hstart, h⟩ := bind_eq_ok.mp h
  obtain ⟨slotEnd, hend, h⟩ := bind_eq_ok.mp h
  obtain ⟨_, rfl⟩ := checkedInt_eq_ok.mp hnext
  obtain ⟨_, rfl⟩ := checkedInt_eq_ok.mp hstart
  obtain ⟨hfits, rfl⟩ := checkedInt_eq_ok.mp hend
  refine ⟨hfits, ?_⟩
  have hlength : (window + 1) * config.slotsPerWindow - window * config.slotsPerWindow =
      config.slotsPerWindow := by
    rw [Nat.succ_mul]
    omega
  rw [hlength] at h
  rw [mapM_eq_map (g := fun slot => (slot, firstDeadline + config.slotInterval *
    (slot - window * config.slotsPerWindow))) h, windowSlots, List.range'_eq_map_range,
    List.map_map]
  · refine List.map_congr_left fun k _ => ?_
    simp
  · intro slot _ entry hentry
    obtain ⟨deadline, hdeadline, hentry⟩ := bind_eq_ok.mp hentry
    cases hentry
    rw [deadlineForSlot_eq_ok hdeadline]

lemma syncBoundarySlot_eq_ok {window slot : Nat} (h : config.syncBoundarySlot window = .ok slot) :
    slot + 1 = window * config.slotsPerWindow + config.syncBoundarySlots := by
  obtain ⟨first, hfirst, h⟩ := bind_eq_ok.mp h
  obtain ⟨_, rfl⟩ := checkedInt_eq_ok.mp hfirst
  obtain ⟨_, rfl⟩ := checkedInt_eq_ok.mp h
  have hpos := config.syncBoundarySlots_pos
  omega

end ConductorConfig

variable {NodeId : Type} {A : Acs NodeId}

namespace KinetConductor

/-- A call leaves the conductor in a state with `P`, or is still in its loop. -/
def Leaves (P : KinetConductor A → Prop) : Outcome A → Prop
  | .ok (_, c) => P c
  | .error p => p = .polling

def withWindow (c : KinetConductor A) (firstDeadline : Nat) : KinetConductor A :=
  { c with
    outputs := c.outputs ++ [.openSlots (c.config.windowSlots c.openWindowCap firstDeadline)]
    openWindowCap := c.openWindowCap + 1
    deadlineAgreementManager := { c.deadlineAgreementManager with
      activeRound := .new (c.openWindowCap + 1) c.deadlineAgreementManager.context } }

/-- If the round for it may end, the window is opened unless something overflows. -/
lemma openWindow_cases {c : KinetConductor A} (firstDeadline : Nat)
    (hround : c.deadlineAgreementManager.activeRound.openedWindow.isNone ∨
      c.deadlineAgreementManager.activeRound.decision.isSome)
    (htarget : c.deadlineAgreementManager.activeRound.targetWindow = c.openWindowCap) :
    (∃ e, c.openWindow firstDeadline = .ok (.error e, c)) ∨
      c.openWindow firstDeadline = .ok (.ok (), c.withWindow firstDeadline) ∧
        (c.openWindowCap + 1) * c.config.slotsPerWindow < 2 ^ 64 := by
  unfold openWindow
  cases hnext : checkedInt 64 (c.openWindowCap + 1) with
  | error e => exact .inl ⟨e, rfl⟩
  | ok next =>
    cases hslots : c.config.computeOpenSlots c.openWindowCap firstDeadline with
    | error e => exact .inl ⟨e, rfl⟩
    | ok slots =>
      obtain ⟨hfits, rfl⟩ := computeOpenSlots_eq_ok hslots
      obtain ⟨_, rfl⟩ := checkedInt_eq_ok.mp hnext
      have hstart : c.deadlineAgreementManager.startRound (c.openWindowCap + 1) =
          .ok { c.deadlineAgreementManager with
            activeRound := .new (c.openWindowCap + 1) c.deadlineAgreementManager.context } := by
        unfold DeadlineAgreementManager.startRound
        rw [htarget, hnext, if_neg (not_not_intro hround), if_neg (not_not_intro rfl)]
      simp only [hstart]
      exact .inr ⟨rfl, hfits⟩

end KinetConductor

variable {round : ActiveDeadlineRound A} {polls : Nat}

/-- Taking messages keeps the target and the proposal. -/
lemma ActiveDeadlineRound.drain_spec (round : ActiveDeadlineRound A) (polls : Nat) :
    Ends (round.drain polls) (fun (_, round') => round'.targetWindow = round.targetWindow ∧
      round'.proposed = round.proposed) (· = .polling) := by
  induction polls generalizing round with
  | zero => rfl
  | succ polls ih =>
    rw [drain]
    cases hpoll : round.poll with
    | mk message round1 =>
      have hround : round1 = { round with acs := (A.poll round.acs).2 } :=
        (congrArg Prod.snd hpoll).symm
      subst hround
      cases message with
      | none => exact ⟨rfl, rfl⟩
      | some m => exact (ih _).bind (fun _ => id) fun _ hrest => hrest

/-- A round is left as it is, or proposes after the boundary of the window before. -/
lemma ActiveDeadlineRound.tryPropose_cases (config : ConductorConfig) (cap : Nat)
    (round : ActiveDeadlineRound A) :
    ∃ result round', round.tryPropose config cap = (result, round') ∧
      (round' = round ∨ round'.targetWindow = round.targetWindow ∧
        ∃ sbsSlot, config.syncBoundarySlot (round.targetWindow - 1) = .ok sbsSlot ∧
          sbsSlot < cap) := by
  unfold tryPropose openedWindow
  by_cases hzero : round.targetWindow = 0
  · exact ⟨_, round, by rw [if_pos hzero], .inl rfl⟩
  · rw [if_neg hzero]
    cases hsbs : config.syncBoundarySlot (round.targetWindow - 1) with
    | error e => exact ⟨.error e, round, by simp only [hsbs], .inl rfl⟩
    | ok sbsSlot =>
      simp only [hsbs]
      by_cases hcap : sbsSlot < cap ∧ round.proposed = false
      · rw [if_pos hcap]
        cases config.naturalFirstSlotDeadline round.targetWindow with
        | error e => exact ⟨_, round, rfl, .inl rfl⟩
        | ok deadline => exact ⟨_, _, rfl, .inr ⟨rfl, sbsSlot, rfl, hcap.1⟩⟩
      · exact ⟨_, round, by rw [if_neg hcap], .inl rfl⟩

/-! ## Runs -/

namespace ConductorRun

/-- The windows below `cap` are opened in order, the first one with the deadline of the
settings. -/
def OpenedInOrder (config : ConductorConfig) (cap : Nat) (opened : List (List (Nat × Nat))) :
    Prop :=
  ∃ deadline : Nat → Nat, deadline 0 = config.genesisDeadline ∧
    opened = (List.range cap).map fun w => config.windowSlots w (deadline w)

lemma OpenedInOrder.append {config : ConductorConfig} {cap : Nat}
    {opened : List (List (Nat × Nat))} (h : OpenedInOrder config cap opened) (hcap : 0 < cap)
    (firstDeadline : Nat) :
    OpenedInOrder config (cap + 1) (opened ++ [config.windowSlots cap firstDeadline]) := by
  obtain ⟨deadline, hzero, rfl⟩ := h
  refine ⟨update deadline cap firstDeadline, ?_, ?_⟩
  · rw [update_of_ne (by omega), hzero]
  · rw [range_succ, map_append]
    congr 1
    · refine map_congr_left fun w hw => ?_
      rw [update_of_ne (Nat.ne_of_lt (List.mem_range.mp hw))]
    · simp

/-- The loop that takes the messages of the agreement ends. -/
def PollEnds (A : Acs NodeId) : Prop :=
  ∀ round : ActiveDeadlineRound A, ∃ polls result, round.drain polls = .ok result

/-- Calls leave the conductor in a state with `P`, and one returns if the loop ends. -/
def Handled (P : KinetConductor A → Prop) (call : Nat → Outcome A) : Prop :=
  (∀ polls, Leaves P (call polls)) ∧ (PollEnds A → ∃ polls p, call polls = .ok p)

lemma Handled.of_eq {P : KinetConductor A → Prop} {call : Nat → Outcome A}
    {p : Except ConductorError Unit × KinetConductor A} (heq : ∀ polls, call polls = .ok p)
    (h : P p.2) : Handled P call :=
  ⟨fun polls => by rw [heq]; exact h, fun _ => ⟨0, p, heq 0⟩⟩

/-- The tracker, the count of open windows and the agreement round are in step. -/
structure InStep (config : ConductorConfig) (r : ConductorRun A) : Prop where
  config_eq : r.conductor.config = config
  target_eq : r.conductor.deadlineAgreementManager.activeRound.targetWindow =
    r.conductor.openWindowCap
  windows_pos : 0 < r.conductor.openWindowCap
  windows_fit : r.conductor.openWindowCap * config.slotsPerWindow < 2 ^ 64
  tracks : r.conductor.completionTracker.Tracks r.finalized
  finalized_open : ∀ s ∈ r.finalized, s < r.conductor.openWindowCap * config.slotsPerWindow
  proposed : r.conductor.deadlineAgreementManager.activeRound.proposed = true →
    (r.conductor.openWindowCap - 1) * config.slotsPerWindow + config.syncBoundarySlots ≤
      r.conductor.completedCap
  boundary : ∀ w, w + 1 < r.conductor.openWindowCap →
    w * config.slotsPerWindow + config.syncBoundarySlots ≤ r.conductor.completedCap
  opened : OpenedInOrder config r.conductor.openWindowCap r.opened

variable {config : ConductorConfig} {c : KinetConductor A}
  {polled : List (ConductorOutput A.Message)} {finalized : Finset Nat}

section

variable (h : InStep config ⟨c, polled, finalized⟩)
include h

/-- A window may be opened after the boundary of the one before. -/
lemma InStep.withWindow
    (hboundary : (c.openWindowCap - 1) * config.slotsPerWindow + config.syncBoundarySlots ≤
      c.completionTracker.cap)
    (hfits : (c.openWindowCap + 1) * c.config.slotsPerWindow < 2 ^ 64) :
    InStep config ⟨c.withWindow firstDeadline, polled, finalized⟩ := by
  have hconfig : c.config = config := h.config_eq
  refine ⟨h.config_eq, rfl, Nat.succ_pos _, hconfig ▸ hfits, h.tracks, fun s hs => ?_,
    fun hfalse => (by cases hfalse), fun w hw => ?_, ?_⟩
  · refine lt_of_lt_of_le (h.finalized_open s hs) ?_
    exact Nat.mul_le_mul_right _ (Nat.le_succ _)
  · rcases Nat.lt_succ_iff_lt_or_eq.mp hw with hlt | heq
    · exact h.boundary w hlt
    · rw [Nat.eq_sub_of_add_eq heq]
      exact hboundary
  · unfold ConductorRun.opened KinetConductor.withWindow
    rw [← append_assoc, filterMap_append, hconfig]
    exact h.opened.append h.windows_pos firstDeadline

/-- Taking the messages and opening the next window. -/
lemma InStep.pollDeadlineAgreement_returns {messages : List (DeadlineAgreementMessage A.Message)}
    (hdrain : c.deadlineAgreementManager.activeRound.drain polls = .ok (messages, round)) :
    ∃ p, c.pollDeadlineAgreement polls = .ok p ∧ InStep config ⟨p.2, polled, finalized⟩ := by
  obtain ⟨htarget, hproposed⟩ := (ActiveDeadlineRound.drain_spec _ polls).ok hdrain
  have hopened (outputs : List (ConductorOutput A.Message)) :
      (polled ++ (outputs ++ messages.map ConductorOutput.broadcast)).filterMap openedBy =
        (polled ++ outputs).filterMap openedBy := by
    simp [openedBy, comp_def]
  have hpolled : InStep config ⟨{ c with
      outputs := c.outputs ++ messages.map .broadcast
      deadlineAgreementManager := { c.deadlineAgreementManager with activeRound := round } },
      polled, finalized⟩ := by
    refine { h with target_eq := htarget.trans h.target_eq, proposed := ?_, opened := ?_ }
    · exact fun hprop => h.proposed (hproposed.symm.trans hprop)
    · unfold ConductorRun.opened
      rw [hopened]
      exact h.opened
  unfold pollDeadlineAgreement
  rw [hdrain]
  dsimp only [bind, Except.bind]
  cases hdecision : round.decision with
  | none => exact ⟨_, rfl, hpolled⟩
  | some decidedDeadline =>
    have hprop : round.proposed = true := by
      unfold ActiveDeadlineRound.decision at hdecision
      by_contra hnot
      rw [if_pos (Bool.eq_false_iff.mpr hnot)] at hdecision
      cases hdecision
    rcases openWindow_cases decidedDeadline (.inr (hdecision ▸ rfl))
      hpolled.target_eq with ⟨e, hopen⟩ | ⟨hopen, hfits⟩
    · exact ⟨_, hopen, hpolled⟩
    · exact ⟨_, hopen, hpolled.withWindow (hpolled.proposed hprop) hfits⟩

lemma InStep.pollDeadlineAgreement :
    Handled (fun c' => InStep config ⟨c', polled, finalized⟩) c.pollDeadlineAgreement := by
  refine ⟨fun polls => ?_, fun hends => ?_⟩
  · beta_reduce
    cases hdrain : c.deadlineAgreementManager.activeRound.drain polls with
    | ok result =>
      obtain ⟨p, hpoll, hstep⟩ := h.pollDeadlineAgreement_returns hdrain
      rw [hpoll]
      exact hstep
    | error p =>
      unfold KinetConductor.pollDeadlineAgreement
      rw [hdrain]
      exact (ActiveDeadlineRound.drain_spec _ polls).error hdrain
  · obtain ⟨polls, result, hdrain⟩ := hends c.deadlineAgreementManager.activeRound
    obtain ⟨p, hpoll, -⟩ := h.pollDeadlineAgreement_returns hdrain
    exact ⟨polls, p, hpoll⟩

lemma InStep.tryPropose : ∃ result round, c.deadlineAgreementManager.activeRound.tryPropose c.config
        c.completionTracker.cap = (result, round) ∧
      InStep config ⟨{ c with
        deadlineAgreementManager := { c.deadlineAgreementManager with activeRound := round } },
        polled, finalized⟩ := by
  have hconfig : c.config = config := h.config_eq
  have htarget : c.deadlineAgreementManager.activeRound.targetWindow = c.openWindowCap :=
    h.target_eq
  obtain ⟨result, round, hpropose, hround⟩ := ActiveDeadlineRound.tryPropose_cases c.config
    c.completionTracker.cap c.deadlineAgreementManager.activeRound
  refine ⟨result, round, hpropose, ?_⟩
  rcases hround with rfl | ⟨heq, hproposed⟩
  · exact h
  · refine { h with target_eq := heq.trans h.target_eq, proposed := fun _ => ?_ }
    obtain ⟨sbsSlot, hsbs, hcap⟩ := hproposed
    have hboundary := syncBoundarySlot_eq_ok hsbs
    rw [htarget, hconfig] at hboundary
    exact hboundary ▸ hcap

lemma InStep.tryRunDeadlineAgreement :
    Handled (fun c' => InStep config ⟨c', polled, finalized⟩) c.tryRunDeadlineAgreement := by
  obtain ⟨result, round, hpropose, hkeep⟩ := h.tryPropose
  unfold KinetConductor.tryRunDeadlineAgreement
  simp only [hpropose]
  cases result with
  | error e => exact .of_eq (fun _ => rfl) hkeep
  | ok _ => exact hkeep.pollDeadlineAgreement

lemma InStep.openSlotCap : c.openSlotCap = .ok (c.openWindowCap * config.slotsPerWindow) := by
  have hconfig : c.config = config := h.config_eq
  unfold KinetConductor.openSlotCap firstSlot
  rw [hconfig]
  exact checkedInt_eq_ok.mpr ⟨h.windows_fit, rfl⟩

/-- A slot that is not open, or was finalized before, is refused. -/
lemma InStep.handleSlotCompleted_refused
    {slot : Nat} (hslot : c.openWindowCap * config.slotsPerWindow ≤ slot ∨ slot ∈ finalized) :
    ∃ e, ∀ polls, c.handleSlotCompleted slot polls = .ok (.error e, c) := by
  unfold KinetConductor.handleSlotCompleted
  rw [h.openSlotCap]
  by_cases hopen : c.openWindowCap * config.slotsPerWindow ≤ slot
  · exact ⟨_, fun _ => if_pos hopen⟩
  · have hold : slot ∈ finalized := hslot.resolve_left hopen
    have hfits := h.windows_fit
    have hmark := @CompletionTracker.markCompleted_of_mem _ _ h.tracks slot
      (by simp only at hfits; omega) hold
    refine ⟨.invalidSlot slot, fun _ => ?_⟩
    simp only [if_neg hopen, hmark]
    rfl

/-- The first finalization of an open slot is recorded, and the agreement goes on. -/
lemma InStep.markCompleted {slot : Nat} (hopen : slot < c.openWindowCap * config.slotsPerWindow)
    (hnew : slot ∉ finalized) :
    ∃ t, InStep config ⟨{ c with completionTracker := t }, polled, insert slot finalized⟩ ∧
      (c.handleSlotCompleted slot ·) =
        (KinetConductor.tryRunDeadlineAgreement · { c with completionTracker := t }) := by
  have hfits := h.windows_fit
  simp only at hfits
  have hdone : ∀ s ∈ finalized, s + 1 < 2 ^ 64 := by
    intro s hs
    have hs := h.finalized_open s hs
    simp only at hs
    omega
  obtain ⟨t, hmark, htracks, hcap⟩ :=
    CompletionTracker.markCompleted_of_notMem h.tracks hdone (by omega) hnew
  refine ⟨t, ⟨h.config_eq, h.target_eq, h.windows_pos, h.windows_fit, htracks,
    forall_mem_insert _ _ _ |>.mpr ⟨hopen, h.finalized_open⟩,
    fun hprop => (h.proposed hprop).trans hcap, fun w hw => (h.boundary w hw).trans hcap,
    h.opened⟩, funext fun polls => ?_⟩
  unfold KinetConductor.handleSlotCompleted
  rw [h.openSlotCap]
  simp only [if_neg (Nat.not_le_of_lt hopen), hmark]
  rfl

lemma InStep.handleSlotCompleted (slot : Nat) : Handled (fun c' => InStep config ⟨c', polled,
        if slot < c.openWindowCap * config.slotsPerWindow then insert slot finalized
        else finalized⟩) (c.handleSlotCompleted slot ·) := by
  split
  · next hopen =>
    by_cases hnew : slot ∈ finalized
    · obtain ⟨e, hcall⟩ := h.handleSlotCompleted_refused (.inr hnew)
      rw [insert_eq_of_mem hnew]
      exact .of_eq hcall h
    · obtain ⟨t, hmarked, hcall⟩ := h.markCompleted hopen hnew
      rw [hcall]
      exact hmarked.tryRunDeadlineAgreement
  · next hopen =>
    obtain ⟨e, hcall⟩ := h.handleSlotCompleted_refused (.inl (Nat.le_of_not_lt hopen))
    exact .of_eq hcall h

variable (sender : NodeId) (message : DeadlineAgreementMessage A.Message)

lemma InStep.handleMessage : InStep config ⟨{ c with
      deadlineAgreementManager := { c.deadlineAgreementManager with
        activeRound := c.deadlineAgreementManager.activeRound.handleMessage sender message } },
      polled, finalized⟩ := by
  unfold ActiveDeadlineRound.handleMessage
  split
  · exact h
  · exact { h with }

end

variable {r : ConductorRun A}

/-- An event leaves the run in step, or is still in its loop. -/
lemma InStep.step (h : InStep config r) (event : ConductorEvent A) :
    (∀ polls, Ends (r.step (event, polls)) (InStep config) (· = .polling)) ∧
      (PollEnds A → ∃ polls r', r.step (event, polls) = .ok r') := by
  obtain ⟨c, polled, finalized⟩ := r
  have hreturn {call : Nat → Outcome A} {f : KinetConductor A → ConductorRun A}
      (hcall : Handled (fun c' => InStep config (f c')) call) :
      (∀ polls, Ends (call polls >>= fun p => .ok (f p.2)) (InStep config) (· = .polling)) ∧
        (PollEnds A → ∃ polls r', (call polls >>= fun p => .ok (f p.2)) = .ok r') := by
    refine ⟨fun polls => ?_, fun hends => ?_⟩
    · have hleaves := hcall.1 polls
      cases hp : call polls with
      | error p | ok p => rwa [hp] at hleaves
    · obtain ⟨polls, p, hp⟩ := hcall.2 hends
      exact ⟨polls, f p.2, by rw [hp]; rfl⟩
  cases event with
  | slotFinalization slot =>
    have hconfig : c.config = config := h.config_eq
    subst hconfig
    exact hreturn (h.handleSlotCompleted slot)
  | message sender message => exact hreturn (h.handleMessage sender message).pollDeadlineAgreement
  | poll =>
    refine ⟨fun _ => { h with opened := ?_ }, fun _ => ⟨0, _, rfl⟩⟩
    have hopened := h.opened
    unfold ConductorRun.opened poll at *
    cases houtputs : c.outputs with
    | nil | cons out rest => simpa [houtputs] using hopened

lemma InStep.foldlM (h : InStep config r) (events : List (ConductorEvent A × Nat)) :
    Ends (events.foldlM ConductorRun.step r) (InStep config) (· = .polling) := by
  induction events generalizing r with
  | nil => exact h
  | cons event events ih =>
    exact ((h.step event.1).1 event.2).bind (fun _ => id) fun _ => ih

/-- The conductor starts in step, with the first window open. -/
lemma inStep_genesis (config : ConductorConfig) (context : A.Context) :
    ∃ r c, KinetConductor.genesis config context = .ok (r, c) ∧
      (r = .ok () → InStep config ⟨c, [], ∅⟩) := by
  rcases openWindow_cases (A := A)
    (c := ⟨config, .new context, 0, .new, []⟩) config.genesisDeadline (.inl rfl) rfl with
    ⟨e, hopen⟩ | ⟨hopen, hfits⟩
  · exact ⟨_, _, hopen, fun h => by cases h⟩
  · refine ⟨_, _, hopen, fun _ => ⟨rfl, rfl, Nat.one_pos, hfits, CompletionTracker.tracks_new,
      fun s hs => ?_, fun hfalse => (by cases hfalse), fun w hw => ?_,
      fun _ => config.genesisDeadline, rfl, rfl⟩⟩
    · exact absurd hs (notMem_empty s)
    · exact absurd hw (Nat.not_lt_of_ge (Nat.succ_le_succ (Nat.zero_le w)))

/-! ## Counting open slots -/

section

variable (h : InStep config r)
include h

lemma InStep.card_finalized : r.finalized.card =
      r.conductor.completedCap + r.conductor.completionTracker.completed.card := by
  have hbelow : r.finalized.filter (· < r.conductor.completedCap) =
      Finset.range r.conductor.completedCap := by
    ext s
    rw [Finset.mem_filter, Finset.mem_range, and_iff_right_iff_imp]
    exact h.tracks.below s
  have habove : r.finalized.filter (¬ · < r.conductor.completedCap) =
      r.conductor.completionTracker.completed := by
    rw [h.tracks.completed]
    refine filter_congr fun s hs => ?_
    have hne : r.conductor.completionTracker.cap ≠ s := fun heq => h.tracks.missing (heq ▸ hs)
    unfold completedCap
    omega
  rw [← card_filter_add_card_filter_not (· < r.conductor.completedCap), hbelow, habove, card_range]

lemma InStep.card_open :
    (Finset.range r.openSlots \ r.finalized).card + r.finalized.card = r.openSlots := by
  have hsub : r.finalized ⊆ Finset.range r.openSlots := by
    intro s hs
    rw [Finset.mem_range, openSlots, h.config_eq]
    exact h.finalized_open s hs
  have hcard := card_sdiff_add_card_eq_card hsub
  rwa [card_range] at hcard

lemma InStep.openSlotCount :
    r.conductor.openSlotCount = .ok (Finset.range r.openSlots \ r.finalized).card := by
  have hopen := h.card_open
  have hfinalized := h.card_finalized
  have hcap : r.conductor.openSlotCap = .ok r.openSlots := by
    have hcap := h.openSlotCap
    rwa [← h.config_eq] at hcap
  unfold KinetConductor.openSlotCount
  rw [hcap]
  change CompletionTracker.openSlotCount _ r.openSlots = _
  unfold CompletionTracker.openSlotCount completedCap at *
  rw [if_pos (by omega)]
  congr 1
  omega

lemma InStep.card_open_le : (Finset.range r.openSlots \ r.finalized).card ≤
      2 * config.slotsPerWindow - config.syncBoundarySlots := by
  have hopen := h.card_open
  have hfinalized := h.card_finalized
  have hsync := config.syncBoundarySlots_le
  have hwindows : r.openSlots = r.conductor.openWindowCap * config.slotsPerWindow := by
    rw [openSlots, h.config_eq]
  have hpos := h.windows_pos
  -- the slots before the boundary of the second to last window are finalized
  by_cases hone : r.conductor.openWindowCap = 1
  · rw [hone, one_mul] at hwindows
    omega
  · obtain ⟨w, hw⟩ : ∃ w, r.conductor.openWindowCap = w + 2 :=
      ⟨r.conductor.openWindowCap - 2, by omega⟩
    have hboundary := h.boundary w (by omega)
    rw [hw, add_mul] at hwindows
    omega

end

/-! ## Main theorem -/

/-- What holds between any two events. -/
structure Correct (r : ConductorRun A) : Prop where
  /-- the cap is the least slot that is not completed -/
  cap_least : IsLeast {s | s ∉ r.finalized} r.conductor.completedCap
  /-- the tracker has the completed slots above the cap -/
  tracked : r.conductor.completionTracker.completed =
    r.finalized.filter (r.conductor.completedCap < ·)
  /-- windows are opened in order, once each, with evenly spaced deadlines -/
  opened : OpenedInOrder r.conductor.config r.conductor.openWindowCap r.opened
  /-- a window is opened after the boundary of the one before -/
  boundary : ∀ w, w + 1 < r.conductor.openWindowCap →
    ∀ s < w * r.conductor.config.slotsPerWindow + r.conductor.config.syncBoundarySlots,
      s ∈ r.finalized
  open_count : r.conductor.openSlotCount = .ok (Finset.range r.openSlots \ r.finalized).card
  open_le : (Finset.range r.openSlots \ r.finalized).card ≤
    2 * r.conductor.config.slotsPerWindow - r.conductor.config.syncBoundarySlots
  /-- a slot that is not open or was completed before is refused and changes nothing -/
  refused : ∀ slot polls, r.openSlots ≤ slot ∨ slot ∈ r.finalized →
    ∃ e, r.conductor.handleSlotCompleted slot polls = .ok (.error e, r.conductor)

lemma InStep.correct (h : InStep config r) : r.Correct := by
  have hconfig := h.config_eq
  subst hconfig
  refine ⟨⟨h.tracks.missing, fun s hs => ?_⟩, h.tracks.completed, h.opened, fun w hw s hs => ?_,
    h.openSlotCount, h.card_open_le, fun slot polls hslot => ?_⟩
  · by_contra hlt
    exact hs (h.tracks.below s (Nat.lt_of_not_le hlt))
  · exact h.tracks.below s (lt_of_lt_of_le hs (h.boundary w hw))
  · obtain ⟨e, hrefused⟩ := h.handleSlotCompleted_refused hslot
    exact ⟨e, hrefused polls⟩

lemma InStep.exists_foldlM (hends : PollEnds A) (h : InStep config r)
    (events : List (ConductorEvent A)) :
    ∃ (inputs : List (ConductorEvent A × Nat)) (r' : ConductorRun A),
      inputs.map Prod.fst = events ∧ inputs.foldlM ConductorRun.step r = .ok r' := by
  induction events generalizing r with
  | nil => exact ⟨[], r, rfl, rfl⟩
  | cons event events ih =>
    obtain ⟨polls, r1, hstep⟩ := (h.step event).2 hends
    obtain ⟨inputs, r', hmap, hrun⟩ := ih (((h.step event).1 polls).ok hstep)
    refine ⟨(event, polls) :: inputs, r', by rw [List.map_cons, hmap], ?_⟩
    rw [foldlM_cons, hstep]
    exact hrun

/-- For every agreement protocol and every sequence of finalizations, messages and polls,
no assertion fails and the windows are correct after every event.  If the loop that takes
messages ends, every event is handled. -/
theorem run_windows (A : Acs NodeId) (config : ConductorConfig) (context : A.Context) :
    (∃ p, KinetConductor.genesis config context = .ok p) ∧
    ∀ c, KinetConductor.genesis config context = .ok (.ok (), c) →
      (∀ events, (∀ p, run c events = .error p → p = .polling) ∧
        ∀ r, run c events = .ok r → r.conductor.config = config ∧ r.Correct) ∧
      (PollEnds A → ∀ events, ∃ (inputs : List (ConductorEvent A × Nat)) (r : ConductorRun A),
        inputs.map Prod.fst = events ∧ run c inputs = .ok r) := by
  obtain ⟨r, c, hgenesis, hstart⟩ := inStep_genesis config context
  refine ⟨⟨_, hgenesis⟩, fun c' hc' => ?_⟩
  cases hgenesis.symm.trans hc'
  have hstart := hstart rfl
  refine ⟨fun events => ⟨fun p hp => (hstart.foldlM events).error hp, fun r hr => ?_⟩,
    fun hends events => hstart.exists_foldlM hends events⟩
  have hr := (hstart.foldlM events).ok hr
  exact ⟨hr.config_eq, hr.correct⟩

/-! ## A protocol without communication -/

/-- The protocol that decides on the own proposal. -/
def nopAcs : Acs Nat where
  State := Option Nat
  Message := Empty
  Context := Unit
  new _ := none
  propose _ deadline := some deadline
  handleMessage state _ _ := state
  decision state := state
  poll state := (none, state)

/-- Windows of two slots, with the boundary after the first. -/
def twoSlots : ConductorConfig := ⟨2, 1, 10, 100, by decide, by decide, by decide⟩

def nopStart : KinetConductor nopAcs :=
  KinetConductor.withWindow ⟨twoSlots, .new (), 0, .new, []⟩ 100

/-- Slot 1 is finalized, then slot 0, and then again slot 1 and a slot that is not open. -/
def nopEvents : List (ConductorEvent nopAcs × Nat) :=
  [(.slotFinalization 1, 1), (.slotFinalization 0, 1), (.slotFinalization 1, 1),
    (.slotFinalization 7, 1)]

def nopReaches (p : ConductorRun nopAcs → Bool) : Bool :=
  match run nopStart nopEvents with
  | .ok r => p r
  | .error _ => false

/-- The second window is opened once slot 0 is finalized. -/
theorem run_windows_nop :
    ∃ r, run nopStart nopEvents = .ok r ∧ r.opened = [[(0, 100), (1, 110)], [(2, 120), (3, 130)]] ∧
      r.conductor.completedCap = 2 ∧ r.Correct := by
  have hreaches : nopReaches (fun r =>
      decide (r.opened = [[(0, 100), (1, 110)], [(2, 120), (3, 130)]] ∧
        r.conductor.completedCap = 2)) = true := by
    decide +kernel
  unfold nopReaches at hreaches
  cases hrun : run nopStart nopEvents with
  | error p =>
    rw [hrun] at hreaches
    cases hreaches
  | ok r =>
    rw [hrun] at hreaches
    obtain ⟨hopened, hcap⟩ := of_decide_eq_true hreaches
    have hgenesis : genesis twoSlots () = .ok (.ok (), nopStart) := rfl
    obtain ⟨_, hall⟩ := run_windows nopAcs twoSlots ()
    exact ⟨r, rfl, hopened, hcap, (((hall nopStart hgenesis).1 nopEvents).2 r hrun).2⟩

end ConductorRun

end Kinet.Mcp
