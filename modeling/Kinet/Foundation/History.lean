import Kinet.Foundation.Checked

/-!
# Runs with their histories

A system takes events one after another and may stop at one of them.  A run carries the
history of its events, each with what the system answered, and admits an event only where
`allowed` holds; what is assumed about the environment is a choice of `allowed`.

Main results:

- `Run.invariant`: what every admitted step keeps holds at the end of every run.
- `Run.exists_of_replay`: a list of events that replays is a run.
-/

section

variable {σ ε ω : Type}

/-- The states that are reached from `init`, with the events and answers on the way. -/
inductive Run (step : σ → ε → Checked (σ × ω)) (allowed : List (ε × ω) → σ → ε → Prop)
    (init : σ) : List (ε × ω) → σ → Prop
  | start : Run step allowed init [] init
  | next {history : List (ε × ω)} {s s' : σ} {e : ε} {o : ω} :
      Run step allowed init history s → allowed history s e → step s e = .ok (s', o) →
      Run step allowed init (history ++ [(e, o)]) s'

namespace Run

variable {step : σ → ε → Checked (σ × ω)} {allowed : List (ε × ω) → σ → ε → Prop} {init : σ}
  {history : List (ε × ω)}

theorem invariant {I : List (ε × ω) → σ → Prop} (hinit : I [] init)
    (hstep : ∀ history s e s' o, I history s → allowed history s e → step s e = .ok (s', o) →
      I (history ++ [(e, o)]) s')
    {s : σ} (hrun : Run step allowed init history s) : I history s := by
  induction hrun with
  | start => exact hinit
  | next _ hallowed hs ih => exact hstep _ _ _ _ _ ih hallowed hs

/-- Fewer runs under a stronger condition on the events. -/
lemma mono {allowed' : List (ε × ω) → σ → ε → Prop}
    (h : ∀ history s e, allowed history s e → allowed' history s e)
    {s : σ} (hrun : Run step allowed init history s) :
    Run step allowed' init history s := by
  induction hrun with
  | start => exact .start
  | next _ hallowed hs ih => exact ih.next (h _ _ _ hallowed) hs

end Run

/-- The run through a list of events, if each of them is admitted and returns. -/
def replay (step : σ → ε → Checked (σ × ω)) (allowed : List (ε × ω) → σ → ε → Prop)
    [∀ history s e, Decidable (allowed history s e)] :
    List (ε × ω) → σ → List ε → Option (List (ε × ω) × σ)
  | history, s, [] => some (history, s)
  | history, s, e :: events =>
    if allowed history s e then
      match step s e with
      | .ok (s', o) => replay step allowed (history ++ [(e, o)]) s' events
      | .error _ => none
    else none

theorem Run.exists_of_replay (step : σ → ε → Checked (σ × ω))
    (allowed : List (ε × ω) → σ → ε → Prop) [∀ history s e, Decidable (allowed history s e)]
    (init : σ) (events : List ε) {P : List (ε × ω) → σ → Prop} [∀ history s, Decidable (P history s)]
    (h : (replay step allowed [] init events).any (fun r => P r.1 r.2) = true) :
    ∃ history s, Run step allowed init history s ∧ P history s := by
  have hgo : ∀ history s, Run step allowed init history s →
      (replay step allowed history s events).any (fun r => P r.1 r.2) = true →
      ∃ history s, Run step allowed init history s ∧ P history s := by
    clear h
    induction events with
    | nil =>
      intro history s hrun hp
      exact ⟨history, s, hrun, by simpa [replay] using hp⟩
    | cons e events ih =>
      intro history s hrun hp
      by_cases hallowed : allowed history s e
      · cases hs : step s e with
        | error f => simp [replay, hallowed, hs] at hp
        | ok r =>
          simp only [replay, hallowed, hs, if_true] at hp
          exact ih _ _ (hrun.next hallowed hs) hp
      · simp [replay, hallowed] at hp
  exact hgo [] init .start h

end
