import Mathlib.Tactic.Ring

/-!
# Weakest preconditions for stateful computations that may abort

`StateT σ (Except ε)` is the shape of imperative code with a mutable state and
assertions.  The predicate `wp m Q E s` says that running `m` from `s` either
returns with `Q` or aborts with an error that satisfies `E`.  The rules below
compose such statements along the program text.

Main results:

- `Effect.wp_bind`: sequencing.
- `Effect.Keeps.bind`: an invariant of two computations is one of their
  sequence.
-/

namespace Effect

variable {σ ε α β : Type}

/-- Running `m` from `s` returns with `Q` or aborts with `E`. -/
def wp (m : StateT σ (Except ε) α) (Q : α → σ → Prop) (E : ε → Prop) (s : σ) : Prop :=
  match m s with
  | .ok (a, s') => Q a s'
  | .error e => E e

variable {Q : α → σ → Prop} {E : ε → Prop} {s : σ}

@[simp]
lemma wp_pure (a : α) : wp (pure a : StateT σ (Except ε) α) Q E s ↔ Q a s :=
  Iff.rfl

@[simp]
theorem wp_bind (m : StateT σ (Except ε) α) (f : α → StateT σ (Except ε) β) (R : β → σ → Prop) :
    wp (m >>= f) R E s ↔ wp m (fun a s' => wp (f a) R E s') E s := by
  change (match (m s >>= fun p => f p.1 p.2 : Except ε (β × σ)) with
    | .ok (b, s') => R b s' | .error e => E e) ↔ _
  unfold wp
  cases m s <;> rfl

@[simp]
lemma wp_get (Q : σ → σ → Prop) : wp (get : StateT σ (Except ε) σ) Q E s ↔ Q s s :=
  Iff.rfl

@[simp]
lemma wp_set (s' : σ) (Q : PUnit → σ → Prop) :
    wp (set s' : StateT σ (Except ε) PUnit) Q E s ↔ Q ⟨⟩ s' :=
  Iff.rfl

@[simp]
lemma wp_modify (f : σ → σ) (Q : PUnit → σ → Prop) :
    wp (modify f : StateT σ (Except ε) PUnit) Q E s ↔ Q ⟨⟩ (f s) :=
  Iff.rfl

@[simp]
lemma wp_throw (e : ε) : wp (throw e : StateT σ (Except ε) α) Q E s ↔ E e :=
  Iff.rfl

@[simp]
lemma wp_liftOk (a : α) :
    wp (liftM (Except.ok a : Except ε α) : StateT σ (Except ε) α) Q E s ↔ Q a s :=
  Iff.rfl

@[simp]
lemma wp_liftError (e : ε) :
    wp (liftM (Except.error e : Except ε α) : StateT σ (Except ε) α) Q E s ↔ E e :=
  Iff.rfl

/-- A lifted result is used through the two cases of its outcome. -/
lemma wp_lift (x : Except ε α) : wp (liftM x : StateT σ (Except ε) α) Q E s ↔
      (∀ a, x = .ok a → Q a s) ∧ ∀ e, x = .error e → E e := by
  cases x with
  | ok a | error e => simp

/-- If only returning matters, a lifted result is one that is there. -/
lemma wp_lift_bind (x : Except ε α) (f : α → StateT σ (Except ε) β) (R : β → σ → Prop) :
    wp (liftM x >>= f) R (fun _ => True) s ↔ ∀ a, x = .ok a → wp (f a) R (fun _ => True) s := by
  rw [wp_bind, wp_lift]
  exact and_iff_left fun _ _ => trivial

lemma wp_ite (c : Prop) [Decidable c] (m n : StateT σ (Except ε) α) :
    wp (if c then m else n) Q E s ↔ (c → wp m Q E s) ∧ (¬c → wp n Q E s) := by
  split
  · next h => simp [h]
  · next h => simp [h]

variable {m : StateT σ (Except ε) α} {f : α → StateT σ (Except ε) β} {F : ε → Prop}
  {R : α → σ → Prop}

/-- Consequence: both postconditions may be weakened. -/
theorem wp_mono (h : wp m Q E s) (hQ : ∀ a s', Q a s' → R a s')
    (hE : ∀ e, E e → F e) : wp m R F s := by
  unfold wp at *
  cases hm : m s with
  | ok p =>
    obtain ⟨a, s'⟩ := p
    rw [hm] at h
    exact hQ a s' h
  | error e =>
    rw [hm] at h
    exact hE e h

/-- Consequence for the returning case only. -/
lemma wp_weaken (h : wp m Q E s) (hQ : ∀ a s', Q a s' → R a s') : wp m R E s :=
  wp_mono h hQ fun _ he => he

variable {x : Except ε α}

lemma bind_eq_ok {f : α → Except ε β} {b : β} :
    (x >>= f) = .ok b ↔ ∃ a, x = .ok a ∧ f a = .ok b := by
  cases x with
  | error e | ok a => simp [bind, Except.bind]

lemma mapError_eq_ok {ε' : Type} {f : ε → ε'} {a : α} : x.mapError f = .ok a ↔ x = .ok a := by
  cases x <;> simp [Except.mapError]

lemma unit_bind_eq_ok {x : Except ε Unit} {f : Unit → Except ε β} {b : β} :
    (x >>= f) = .ok b ↔ x = .ok () ∧ f () = .ok b := by
  rw [bind_eq_ok]
  exact ⟨fun ⟨_, h⟩ => h, fun h => ⟨(), h⟩⟩

/-- `x` is a result with `Q` or an error with `E`. -/
def Ends (x : Except ε α) (Q : α → Prop) (E : ε → Prop) : Prop :=
  match x with
  | .ok a => Q a
  | .error e => E e

lemma Ends.ok {Q : α → Prop} (h : Ends x Q E) {a : α} (hx : x = .ok a) : Q a := by
  rwa [hx] at h

lemma Ends.error {Q : α → Prop} (h : Ends x Q E) {e : ε} (hx : x = .error e) : E e := by
  rwa [hx] at h

theorem Ends.bind {Q : α → Prop} (h : Ends x Q E)
    (hE : ∀ e, E e → F e) {f : α → Except ε β} {R : β → Prop} (hf : ∀ a, Q a → Ends (f a) R F) :
    Ends (x >>= f) R F := by
  cases x with
  | ok a => exact hf a h
  | error e => exact hE e h

/-- A lifted result is used through what is known of it. -/
lemma wp_of_ends {P : α → Prop} (h : Ends x P F) (hQ : ∀ a, P a → Q a s) (hE : ∀ e, F e → E e) :
    wp (liftM x : StateT σ (Except ε) α) Q E s := by
  cases x with
  | ok a => exact hQ a h
  | error e => exact hE e h

lemma Ends.mono {Q R : α → Prop} (h : Ends x Q E) (hQ : ∀ a, Q a → R a) : Ends x R E := by
  cases x with
  | ok a => exact hQ a h
  | error e => exact h

variable {body : α → StateT σ (Except ε) PUnit} {l : List α}

/-- A loop over a list keeps every invariant that its body keeps. -/
theorem wp_forM {I : σ → Prop}
    (hs : I s) (hbody : ∀ a ∈ l, ∀ t, I t → wp (body a) (fun _ t' => I t') E t) :
    wp (forM l body) (fun _ s' => I s') E s := by
  induction l generalizing s with
  | nil => exact hs
  | cons a l ih =>
    rw [List.forM_cons, wp_bind]
    refine wp_weaken (hbody a (by simp) s hs) fun _ s' hs' => ?_
    exact ih hs' fun b hb => hbody b (by simp [hb])

lemma wp_of_ok {a : α} {s' : σ} (h : wp m Q E s) (hrun : m s = .ok (a, s')) : Q a s' := by
  unfold wp at h
  rwa [hrun] at h

lemma wp_of_error {e : ε} (h : wp m Q E s) (hrun : m s = .error e) : E e := by
  unfold wp at h
  rwa [hrun] at h

/-! ## Invariants of computations -/

/-- Running `m` from a state with `I` returns with `I` or aborts with `E`. -/
def Keeps (I : σ → Prop) (E : ε → Prop) (m : StateT σ (Except ε) α) : Prop :=
  ∀ s, I s → wp m (fun _ s' => I s') E s

variable {I : σ → Prop}

lemma keeps_pure (a : α) : Keeps I E (pure a : StateT σ (Except ε) α) :=
  fun _ hs => hs

theorem Keeps.bind (hm : Keeps I E m) (hf : ∀ a, Keeps I E (f a)) : Keeps I E (m >>= f) := by
  intro s hs
  rw [wp_bind]
  exact wp_weaken (hm s hs) fun a s' hs' => hf a s' hs'

/-- The state that was read is the one that the continuation starts from. -/
lemma keeps_get {f : σ → StateT σ (Except ε) β}
    (hf : ∀ s, I s → wp (f s) (fun _ s' => I s') E s) : Keeps I E (get >>= f) := by
  intro s hs
  exact hf s hs

lemma keeps_forM (hbody : ∀ a ∈ l, Keeps I E (body a)) : Keeps I E (forM l body) :=
  fun _ hs => wp_forM hs fun a ha t ht => hbody a ha t ht

/-! ## Computations that return -/

/-- Running `m` from `s` does not abort. -/
def Returns (m : StateT σ (Except ε) α) (s : σ) : Prop :=
  wp m (fun _ _ => True) (fun _ => False) s

lemma returns_iff : Returns m s ↔ ∃ a s', m s = .ok (a, s') := by
  unfold Returns wp
  cases m s with
  | ok p => exact ⟨fun _ => ⟨p.1, p.2, rfl⟩, fun _ => trivial⟩
  | error e => simp

/-- A sequence returns if both parts do. -/
lemma returns_bind :
    Returns (m >>= f) s ↔ Returns m s ∧ wp m (fun a s' => Returns (f a) s') (fun _ => True) s := by
  unfold Returns
  rw [wp_bind]
  unfold wp
  cases m s with
  | ok p | error e => simp

/-- A computation that begins with a fallible update of the state. -/
lemma returns_update {g : σ → Except ε σ} {rest : σ → StateT σ (Except ε) α} :
    Returns (do let s ← get; let s' ← g s; set s'; rest s' : StateT σ (Except ε) α) s ↔
      ∃ s', g s = .ok s' ∧ Returns (rest s') s' := by
  unfold Returns
  rw [wp_bind, wp_get, wp_bind]
  cases g s with
  | ok s' | error e => simp

lemma returns_bind_of_returns (hf : ∀ a s', Returns (f a) s') :
    Returns (m >>= f) s ↔ Returns m s := by
  rw [returns_bind, and_iff_left]
  unfold wp
  cases m s with
  | ok p => exact hf p.1 p.2
  | error e => trivial

/-- A loop returns exactly if its body does, where that depends on the element alone. -/
theorem returns_forM {P : α → Prop} (hs : I s) (hkeeps : ∀ a ∈ l, Keeps I (fun _ => True) (body a))
    (hbody : ∀ a ∈ l, ∀ t, I t → (Returns (body a) t ↔ P a)) :
    Returns (forM l body) s ↔ ∀ a ∈ l, P a := by
  induction l generalizing s with
  | nil => simp [Returns]
  | cons a l ih =>
    have hrest : ∀ t, I t → (Returns (forM l body) t ↔ ∀ b ∈ l, P b) := fun t ht =>
      ih ht (fun b hb => hkeeps b (by simp [hb])) fun b hb => hbody b (by simp [hb])
    rw [List.forM_cons, returns_bind, hbody a (by simp) s hs, List.forall_mem_cons]
    constructor
    · rintro ⟨ha, hwp⟩
      obtain ⟨b, t, hrun⟩ := returns_iff.mp ((hbody a (by simp) s hs).mpr ha)
      have ht : I t := wp_of_ok (hkeeps a (by simp) s hs) hrun
      exact ⟨ha, (hrest t ht).mp (wp_of_ok (Q := fun _ t => Returns (forM l body) t) hwp hrun)⟩
    · rintro ⟨ha, hl⟩
      exact ⟨ha, wp_weaken (hkeeps a (by simp) s hs) fun _ t ht => (hrest t ht).mpr hl⟩

end Effect
