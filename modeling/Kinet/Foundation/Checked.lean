import Mathlib.Tactic.Ring

/-!
# Machine arithmetic that can fault

Values of machine integers are natural numbers.  The operations below are the ones
that stop a program: arithmetic that does not fit, a division by zero, an index out of
range, a failed assertion, and the unwrapping of nothing.

Main results:

- `Checked.bind_eq_ok`: a sequence returns if both of its parts do.
- `Checked.slice_of_le`: a slice within bounds is a piece of the list.
- `Checked.run_bind_eq_ok`: the same for code that may return an error of its own.
-/

/-- Why a computation stops. -/
inductive Fault where
  | overflow
  | divisionByZero
  | indexOutOfRange
  | assertion
  | unwrapNone
  /-- a loop has gone on for more rounds than its model allows -/
  | diverged
deriving DecidableEq, Repr

/-- A computation that returns a value or stops. -/
abbrev Checked (α : Type) := Except Fault α

namespace Checked

variable {α β : Type}

def fits (bits n : Nat) : Checked Nat := if n < 2 ^ bits then .ok n else .error .overflow

def add (bits a b : Nat) : Checked Nat := fits bits (a + b)

/-- Subtraction of unsigned integers. -/
def sub (a b : Nat) : Checked Nat := if b ≤ a then .ok (a - b) else .error .overflow

def div (a b : Nat) : Checked Nat := if b = 0 then .error .divisionByZero else .ok (a / b)

def index (l : List α) (i : Nat) : Checked α :=
  match l[i]? with
  | some a => .ok a
  | none => .error .indexOutOfRange

def slice (l : List α) (start stop : Nat) : Checked (List α) :=
  if start ≤ stop ∧ stop ≤ l.length then .ok ((l.take stop).drop start)
  else .error .indexOutOfRange

def require (b : Bool) : Checked Unit := if b then .ok () else .error .assertion

def unwrap : Option α → Checked α
  | some a => .ok a
  | none => .error .unwrapNone

/-- Why `x` stops, if it does. -/
def fault? : Checked α → Option Fault
  | .ok _ => none
  | .error e => some e

variable {x : Checked α}

lemma fault?_eq_some {e : Fault} : fault? x = some e ↔ x = .error e := by
  cases x <;> simp [fault?]

@[simp]
lemma fits_of_lt {bits n : Nat} (h : n < 2 ^ bits) : fits bits n = .ok n := if_pos h

@[simp]
lemma sub_of_le {a b : Nat} (h : b ≤ a) : sub a b = .ok (a - b) := if_pos h

@[simp]
lemma div_of_pos {a b : Nat} (h : 0 < b) : div a b = .ok (a / b) := if_neg (by omega)

@[simp]
lemma unwrap_some (a : α) : unwrap (some a) = .ok a := rfl

lemma unwrap_eq_ok {o : Option α} {a : α} : unwrap o = .ok a ↔ o = some a := by
  cases o with
  | none | some b => simp [unwrap]

@[simp]
lemma require_true : require true = .ok () := rfl

lemma require_eq_ok {b : Bool} {u : Unit} : require b = .ok u ↔ b = true := by
  cases b <;> simp [require]

lemma index_of_getElem? {l : List α} {i : Nat} {a : α} (h : l[i]? = some a) :
    index l i = .ok a := by
  simp [index, h]

theorem slice_of_le {l : List α} {start stop : Nat} (h : start ≤ stop) (hstop : stop ≤ l.length) :
    slice l start stop = .ok ((l.take stop).drop start) :=
  if_pos ⟨h, hstop⟩

theorem bind_eq_ok {f : α → Checked β} {b : β} :
    x >>= f = .ok b ↔ ∃ a, x = .ok a ∧ f a = .ok b := by
  cases x with
  | error e =>
    constructor
    · intro h
      cases h
    · rintro ⟨a, h, -⟩
      cases h
  | ok a =>
    constructor
    · intro h
      exact ⟨a, rfl, h⟩
    · rintro ⟨a', h, hb⟩
      cases h
      exact hb

@[simp]
lemma ok_bind (a : α) (f : α → Checked β) : (Except.ok a : Checked α) >>= f = f a := rfl

/-! ## Computations that report errors

`ExceptT ε Checked` is the shape of code that stops, returns a value, or returns an
error of its own.
-/

section

variable {ε : Type}

theorem run_bind_eq_ok {x : ExceptT ε Checked α} {f : α → ExceptT ε Checked β} {b : β} :
    (x >>= f).run = .ok (.ok b) ↔ ∃ a, x.run = .ok (.ok a) ∧ (f a).run = .ok (.ok b) := by
  rw [ExceptT.run_bind, bind_eq_ok]
  constructor
  · rintro ⟨r, hr, hb⟩
    cases r with
    | ok a => exact ⟨a, hr, hb⟩
    | error e => cases hb
  · rintro ⟨a, ha, hb⟩
    exact ⟨.ok a, ha, hb⟩

lemma run_lift_eq_ok {a : α} :
    (ExceptT.lift x : ExceptT ε Checked α).run = .ok (.ok a) ↔ x = .ok a := by
  cases x <;> simp [Functor.map, Except.map]

end

end Checked
