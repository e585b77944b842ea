import Kinet.Mcp.Scope

/-!
# Decided slots

An instance that has finalized ignores messages and the deadline of its slot.  Its timers
are not ignored: a timer that was started before goes on to start timers, and to vote.

Main results:

- `SlotRun.run_finalized_inert`: messages and deadlines change nothing after the
  decision.
- `Stub.timer_after_finalize`: a timer does.
-/

namespace Kinet.Mcp

open List SlotRun

variable {E : Types}

/-- An instance that has queued its decision is decided. -/
def Chorus.DecidesOnce (c : Chorus E) : Prop := ∀ qc, .finalize qc ∈ c.outputs → c.decided = true

section

variable {context : ChorusContext E} {A : Admission E} {c c' : Chorus E}

lemma Chorus.Step.decidesOnce (h : Step context A c c') (hc : c.DecidesOnce) : c'.DecidesOnce := by
  intro qc hqc
  cases h with
  | fast _ | enterFallback _ _ _ => exact hc qc hqc
  | emit hquiet =>
    rcases mem_append.mp hqc with hold | hnew
    · exact hc qc hold
    · rw [← mem_singleton.mp hnew] at hquiet
      cases hquiet
  | castVote _ _ | castCommitVote _ _ | castFallbackVote _ _ =>
    rcases mem_append.mp hqc with hold | hnew
    · exact hc qc hold
    · simp at hnew
  | finalize _ _ => rfl

lemma Chorus.Steps.decidesOnce (h : Steps context A c c') (hc : c.DecidesOnce) :
    c'.DecidesOnce := by
  induction h with
  | refl => exact hc
  | tail _ hstep ih => exact hstep.decidesOnce ih

end

def SlotInput.isTimer : SlotInput E → Bool
  | .timer _ _ => true
  | _ => false

namespace SlotRun

/-- No output is added, and neither path has changed. -/
structure Inert (r r' : SlotRun E) : Prop where
  emitted : r'.emitted = r.emitted
  fast : r'.chorus.fast = r.chorus.fast
  fallback : r'.chorus.fallback = r.chorus.fallback
  decided : r'.chorus.decided = r.chorus.decided

variable {context : ChorusContext E} {config : ChorusConfig} {slot : Nat} {r : SlotRun E}

/-- A handler that starts with the check for a decision. -/
lemma exec_of_decided (hdecided : r.chorus.decided = true) (m : ChorusM E Unit) : r.exec (do
      let c ← get
      if c.decided then pure () else m) = .ok r := by
  have hrun : (do
      let c ← get
      if c.decided then pure () else m : ChorusM E Unit) r.chorus = .ok ((), r.chorus) := by
    change (if r.chorus.decided then pure () else m : ChorusM E Unit) r.chorus = _
    rw [if_pos hdecided]
    rfl
  unfold exec
  rw [hrun]

lemma step_inert (context : ChorusContext E) (hdecided : r.chorus.decided = true)
    {input : SlotInput E} (hinput : input.isTimer = false) :
    ∃ r', r.step context input = .ok r' ∧ r.Inert r' := by
  cases input with
  | message _ _ | deadline _ => exact ⟨r, exec_of_decided hdecided _, rfl, rfl, rfl, rfl⟩
  | timer event da => cases hinput
  | poll =>
    refine ⟨_, rfl, ?_, rfl, rfl, rfl⟩
    unfold emitted Chorus.poll
    cases r.chorus.outputs <;> simp

/-- After the decision messages, deadlines and polls add no output and change neither
path. -/
theorem run_finalized_inert {inputs later : List (SlotInput E)} {qc : FastCommitQc E}
    (h : run context config slot inputs = .ok r) (hqc : .finalize qc ∈ r.emitted)
    (hlater : ∀ input ∈ later, input.isTimer = false) :
    ∃ r', run context config slot (inputs ++ later) = .ok r' ∧ r.Inert r' := by
  have hdecided : r.chorus.decided = true :=
    (run_steps h fun input _ => Admission.any_input slot input).decidesOnce
      (fun qc hqc => by cases hqc) qc hqc
  induction later using reverseRecOn with
  | nil => exact ⟨r, by rwa [append_nil], rfl, rfl, rfl, rfl⟩
  | append_singleton later input ih =>
    obtain ⟨r1, hrun, hinert⟩ := ih fun input' hin => hlater input' (mem_append_left _ hin)
    obtain ⟨r', hstep, hinert'⟩ := step_inert context (hinert.decided.trans hdecided)
      (hlater input (mem_append_right _ (mem_singleton_self _)))
    refine ⟨r', ?_, hinert'.emitted.trans hinert.emitted, hinert'.fast.trans hinert.fast,
      hinert'.fallback.trans hinert.fallback, hinert'.decided.trans hinert.decided⟩
    unfold run at hrun ⊢
    rw [← append_assoc, foldlM_append, hrun]
    simp only [foldlM_cons, foldlM_nil, bind_pure]
    exact hstep

end SlotRun

namespace Stub

/-- The deadline of the slot passes, and a certificate of the slot is delivered. -/
def decision : List (SlotInput types) := [.deadline .stub, .message 1 (.fastCommitQc (commitQc 8))]

/-- Another certificate does nothing after the decision. -/
theorem run_finalized_inert_certificates : ∃ r r', run (context 0) config 8 decision = .ok r ∧
      run (context 0) config 8 (decision ++ certificates 8) = .ok r' ∧ r.Inert r' := by
  have hreaches : reaches decision (fun r => decide (.finalize (commitQc 8) ∈ r.emitted)) =
      true := by
    decide +kernel
  obtain ⟨r, hrun, hfinal⟩ := exists_of_reaches hreaches
  obtain ⟨r', hrun', hinert⟩ := run_finalized_inert hrun (of_decide_eq_true hfinal)
    (show ∀ input ∈ certificates 8, input.isTimer = false by decide)
  exact ⟨r, r', hrun, hrun', hinert⟩

/-- The timer of the deadline fires after the decision, and starts two timers. -/
theorem timer_after_finalize : ∃ r r', run (context 0) config 8 decision = .ok r ∧
      .finalize (commitQc 8) ∈ r.emitted ∧ r.chorus.decided = true ∧
      run (context 0) config 8 (decision ++ [.timer .fallbackTransitionTimeout .stub]) = .ok r' ∧
      r'.emitted = r.emitted ++ [.scheduleTimer 1 .fallbackDecisionDelayElapsed,
        .scheduleTimer 1 .fallbackTransitionTimeout] := by
  have hreaches : reaches decision (fun r => decide (.finalize (commitQc 8) ∈ r.emitted ∧
      r.chorus.decided = true ∧
      reaches (decision ++ [.timer .fallbackTransitionTimeout .stub]) (fun r' =>
        decide (r'.emitted = r.emitted ++ [.scheduleTimer 1 .fallbackDecisionDelayElapsed,
          .scheduleTimer 1 .fallbackTransitionTimeout])) = true)) = true := by
    decide +kernel
  obtain ⟨r, hrun, hp⟩ := exists_of_reaches hreaches
  obtain ⟨hfinal, hdecided, hreaches'⟩ := of_decide_eq_true hp
  obtain ⟨r', hrun', hemitted⟩ := exists_of_reaches hreaches'
  exact ⟨r, r', hrun, hfinal, hdecided, hrun', of_decide_eq_true hemitted⟩

end Stub

end Kinet.Mcp
