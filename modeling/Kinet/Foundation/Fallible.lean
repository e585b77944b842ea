import Kinet.Foundation.Checked

/-!
# Stateful calls that report errors

`ExceptT ε (StateT σ Checked)` is the shape of a method that changes its object and returns
a value or an error; the changes made before an error stay.  The predicate
`after m s Q` says that if `m` returns from `s`, then `Q` holds of its result and state,
and the stronger `returns m s Q` that `m` does return.

Main results:

- `Fallible.returns.after`: calls have one result.
-/

namespace Fallible

variable {ε σ α β : Type}

/-- If `m` returns from `s`, then with a result and a state that satisfy `Q`. -/
def after (m : ExceptT ε (StateT σ Checked) α) (s : σ) (Q : Except ε α → σ → Prop) : Prop :=
  ∀ r s', m.run.run s = .ok (r, s') → Q r s'

variable {s : σ} {Q : Except ε α → σ → Prop}
  {m : ExceptT ε (StateT σ Checked) α} {f : α → ExceptT ε (StateT σ Checked) β}

lemma after_of_run {r : Except ε α} {t : σ} (h : m.run.run s = .ok (r, t)) :
    after m s Q ↔ Q r t := by
  constructor
  · intro hafter
    exact hafter r t h
  · intro hQ r' t' hrun
    rw [h] at hrun
    cases hrun
    exact hQ

@[simp]
lemma after_pure (a : α) : after (pure a : ExceptT ε (StateT σ Checked) α) s Q ↔ Q (.ok a) s :=
  after_of_run rfl

@[simp]
lemma after_throw (e : ε) : after (throw e : ExceptT ε (StateT σ Checked) α) s Q ↔ Q (.error e) s :=
  after_of_run rfl

section

variable (f : α → σ → Prop) (g : ε → σ → Prop)

/-- Continue with `f`, or keep the error. -/
def andThen : Except ε α → σ → Prop
  | .ok a, s => f a s
  | .error e, s => g e s

@[simp]
lemma andThen_ok (a : α) (s : σ) : andThen f g (.ok a) s ↔ f a s := Iff.rfl

@[simp]
lemma andThen_error (e : ε) (s : σ) : andThen f g (.error e) s ↔ g e s := Iff.rfl

end

lemma run_bind : (m >>= f).run.run s = m.run.run s >>= fun p =>
    match p with
    | (.ok a, s') => (f a).run.run s'
    | (.error e, s') => .ok (.error e, s') := by
  rw [ExceptT.run_bind, StateT.run_bind]
  congr 1
  funext ⟨r, s'⟩
  cases r <;> rfl

theorem after_bind (m : ExceptT ε (StateT σ Checked) α) (f : α → ExceptT ε (StateT σ Checked) β)
    (R : Except ε β → σ → Prop) :
    after (m >>= f) s R ↔
      after m s (andThen (fun a s' => after (f a) s' R) fun e s' => R (.error e) s') := by
  cases hm : m.run.run s with
  | error fault =>
    unfold after
    rw [run_bind, hm]
    constructor <;> intro _ _ _ h <;> cases h
  | ok p =>
    rw [after_of_run hm]
    unfold after
    rw [run_bind, hm]
    obtain ⟨e | a, s'⟩ := p
    · exact after_throw e
    · exact Iff.rfl

lemma after_get_bind (f : σ → ExceptT ε (StateT σ Checked) β) (R : Except ε β → σ → Prop) :
    after (get >>= f) s R ↔ after (f s) s R := Iff.rfl

@[simp]
lemma after_get (Q : Except ε σ → σ → Prop) :
    after (get : ExceptT ε (StateT σ Checked) σ) s Q ↔ Q (.ok s) s :=
  after_of_run rfl

@[simp]
lemma after_set (t : σ) (Q : Except ε PUnit → σ → Prop) :
    after (set t : ExceptT ε (StateT σ Checked) PUnit) s Q ↔ Q (.ok ⟨⟩) t :=
  after_of_run rfl

@[simp]
lemma after_modify (f : σ → σ) (Q : Except ε PUnit → σ → Prop) :
    after (modify f : ExceptT ε (StateT σ Checked) PUnit) s Q ↔ Q (.ok ⟨⟩) (f s) :=
  after_of_run rfl

lemma after_lift (x : StateT σ Checked α) :
    after (ExceptT.lift x : ExceptT ε (StateT σ Checked) α) s Q ↔
      ∀ a s', x.run s = .ok (a, s') → Q (.ok a) s' := by
  have hrun : (ExceptT.lift x : ExceptT ε (StateT σ Checked) α).run.run s =
      x.run s >>= fun p => .ok (.ok p.1, p.2) := rfl
  cases hx : x.run s with
  | error fault =>
    rw [hx] at hrun
    unfold after
    rw [hrun]
    constructor <;> intro _ _ _ h <;> cases h
  | ok p =>
    rw [hx] at hrun
    rw [after_of_run hrun]
    refine ⟨?_, fun h => h _ _ rfl⟩
    rintro h _ _ ⟨⟩
    exact h

lemma after_ite (c : Prop) [Decidable c] (m n : ExceptT ε (StateT σ Checked) α) :
    after (if c then m else n) s Q ↔ (c → after m s Q) ∧ (¬ c → after n s Q) := by
  split
  · next h => simp [h]
  · next h => simp [h]

variable {P : σ → Prop} {R : Except ε α → σ → Prop}

/-- Consequence. -/
theorem after_mono (h : after m s Q) (hQ : ∀ r s', Q r s' → R r s') : after m s R :=
  fun r s' hrun => hQ r s' (h r s' hrun)

/-- A computation on machine integers as part of a call. -/
def ofChecked (x : Checked α) : ExceptT ε (StateT σ Checked) α := ExceptT.lift (StateT.lift x)

lemma after_ofChecked (x : Checked α) (Q : Except ε α → σ → Prop) :
    after (ofChecked x) s Q ↔ ∀ a, x = .ok a → Q (.ok a) s := by
  cases x with
  | error fault => exact ⟨fun _ _ h => (by cases h), fun _ _ _ h => (by cases h)⟩
  | ok a =>
    refine (after_of_run rfl).trans ⟨?_, fun h => h a rfl⟩
    rintro h _ ⟨⟩
    exact h

/-- `m` keeps `P`, whether or not it fails. -/
def Preserves (P : σ → Prop) (m : ExceptT ε (StateT σ Checked) α) : Prop :=
  ∀ s, P s → after m s fun _ s' => P s'

lemma preserves_pure (P : σ → Prop) (a : α) :
    Preserves P (pure a : ExceptT ε (StateT σ Checked) α) := by
  intro s hs
  rwa [after_pure]

/-- Continue after a part that keeps `P`. -/
theorem Preserves.after_bind {R : Except ε β → σ → Prop} (h : Preserves P m) (hs : P s)
    (hf : ∀ a s', P s' → after (f a) s' R) (herror : ∀ e s', P s' → R (.error e) s') :
    after (m >>= f) s R := by
  rw [Fallible.after_bind]
  refine after_mono (h s hs) fun r s' hs' => ?_
  cases r with
  | error e => exact herror e s' hs'
  | ok a => exact hf a s' hs'

lemma Preserves.bind (h : Preserves P m) (hf : ∀ a, Preserves P (f a)) : Preserves P (m >>= f) := by
  intro s hs
  exact h.after_bind hs hf fun _ _ hs' => hs'

lemma Preserves.get_bind {f : σ → ExceptT ε (StateT σ Checked) β} (hf : ∀ s, Preserves P (f s)) :
    Preserves P (get >>= f) := by
  intro s hs
  exact hf s s hs

lemma preserves_throw (P : σ → Prop) (e : ε) :
    Preserves P (throw e : ExceptT ε (StateT σ Checked) α) := by
  intro s hs
  rwa [after_throw]

variable {n : ExceptT ε (StateT σ Checked) α}

lemma Preserves.ite {c : Prop} [Decidable c]
    (hm : Preserves P m) (hn : Preserves P n) : Preserves P (if c then m else n) := by
  split
  · exact hm
  · exact hn

lemma Preserves.forM_option {f : α → ExceptT ε (StateT σ Checked) PUnit} {o : Option α}
    (hf : ∀ a, o = some a → Preserves P (f a)) : Preserves P (o.forM f) := by
  cases o with
  | none => exact preserves_pure P _
  | some a => exact hf a rfl

/-! ## Calls that return -/

/-- `m` returns from `s`, with a result and a state that satisfy `Q`. -/
def returns (m : ExceptT ε (StateT σ Checked) α) (s : σ) (Q : Except ε α → σ → Prop) : Prop :=
  ∃ r s', m.run.run s = .ok (r, s') ∧ Q r s'

theorem returns.after (h : returns m s Q) : after m s Q := by
  obtain ⟨r, s', hrun, hQ⟩ := h
  intro r' s'' hrun'
  rw [hrun] at hrun'
  cases hrun'
  exact hQ

theorem returns_mono (h : returns m s Q) (hQ : ∀ r s', Q r s' → R r s') : returns m s R := by
  obtain ⟨r, s', hrun, hQrs⟩ := h
  exact ⟨r, s', hrun, hQ r s' hQrs⟩

lemma returns_of_run {r : Except ε α} {t : σ} (h : m.run.run s = .ok (r, t)) :
    returns m s Q ↔ Q r t := by
  constructor
  · intro hreturns
    exact hreturns.after r t h
  · intro hQ
    exact ⟨r, t, h, hQ⟩

@[simp]
lemma returns_pure (a : α) : returns (pure a : ExceptT ε (StateT σ Checked) α) s Q ↔ Q (.ok a) s :=
  returns_of_run rfl

@[simp]
lemma returns_throw (e : ε) :
    returns (throw e : ExceptT ε (StateT σ Checked) α) s Q ↔ Q (.error e) s :=
  returns_of_run rfl

@[simp]
lemma returns_get (Q : Except ε σ → σ → Prop) :
    returns (get : ExceptT ε (StateT σ Checked) σ) s Q ↔ Q (.ok s) s :=
  returns_of_run rfl

@[simp]
lemma returns_set (t : σ) (Q : Except ε PUnit → σ → Prop) :
    returns (set t : ExceptT ε (StateT σ Checked) PUnit) s Q ↔ Q (.ok ⟨⟩) t :=
  returns_of_run rfl

@[simp]
lemma returns_modify (f : σ → σ) (Q : Except ε PUnit → σ → Prop) :
    returns (modify f : ExceptT ε (StateT σ Checked) PUnit) s Q ↔ Q (.ok ⟨⟩) (f s) :=
  returns_of_run rfl

theorem returns_bind (m : ExceptT ε (StateT σ Checked) α) (f : α → ExceptT ε (StateT σ Checked) β)
    (R : Except ε β → σ → Prop) :
    returns (m >>= f) s R ↔
      returns m s (andThen (fun a s' => returns (f a) s' R) fun e s' => R (.error e) s') := by
  cases hm : m.run.run s with
  | error fault =>
    unfold returns
    rw [run_bind, hm]
    constructor <;> rintro ⟨_, _, h, _⟩ <;> cases h
  | ok p =>
    rw [returns_of_run hm]
    unfold returns
    rw [run_bind, hm]
    obtain ⟨e | a, s'⟩ := p
    · exact returns_throw e
    · exact Iff.rfl

lemma returns_get_bind (f : σ → ExceptT ε (StateT σ Checked) β) (R : Except ε β → σ → Prop) :
    returns (get >>= f) s R ↔ returns (f s) s R := Iff.rfl

lemma returns_ofChecked (x : Checked α) (Q : Except ε α → σ → Prop) :
    returns (ofChecked x) s Q ↔ ∃ a, x = .ok a ∧ Q (.ok a) s := by
  cases x with
  | error fault =>
    constructor
    · rintro ⟨_, _, hrun, -⟩
      cases hrun
    · rintro ⟨_, ha, -⟩
      cases ha
  | ok a =>
    refine (returns_of_run rfl).trans ⟨fun h => ⟨a, rfl, h⟩, ?_⟩
    rintro ⟨_, ⟨⟩, h⟩
    exact h

lemma returns_ite (c : Prop) [Decidable c] (m n : ExceptT ε (StateT σ Checked) α) :
    returns (if c then m else n) s Q ↔ (c → returns m s Q) ∧ (¬ c → returns n s Q) := by
  split
  · next h => simp [h]
  · next h => simp [h]

/-- Two continuations that agree on what `m` returns. -/
lemma run_bind_congr {g : α → ExceptT ε (StateT σ Checked) β}
    (h : after m s fun r s' => ∀ a, r = .ok a → (f a).run.run s' = (g a).run.run s') :
    (m >>= f).run.run s = (m >>= g).run.run s := by
  rw [run_bind, run_bind]
  cases hm : m.run.run s with
  | error fault => rfl
  | ok p =>
    obtain ⟨e | a, s'⟩ := p
    · rfl
    · exact h (.ok a) s' hm a rfl

end Fallible
