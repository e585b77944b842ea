import Mathlib.Data.List.Basic
import Mathlib.Tactic.Ring

/-!
# Consecutively numbered lists

A list whose elements carry consecutive numbers, such as the blocks of a chain
with their heights.  Selecting elements by number is selecting them by position.
-/

namespace Numbered

open List

variable {α : Type} {num : α → Nat}

/-- The elements are numbered `s`, `s + 1` and so on. -/
def From (num : α → Nat) : Nat → List α → Prop
  | _, [] => True
  | s, x :: xs => num x = s ∧ From num (s + 1) xs

@[simp]
lemma from_nil (s : Nat) : From num s [] := trivial

variable {s : Nat} {x : α} {l : List α}

@[simp]
lemma from_cons {xs : List α} : From num s (x :: xs) ↔ num x = s ∧ From num (s + 1) xs :=
  Iff.rfl

lemma from_append {l₁ l₂ : List α} :
    From num s (l₁ ++ l₂) ↔ From num s l₁ ∧ From num (s + l₁.length) l₂ := by
  induction l₁ generalizing s with
  | nil => simp
  | cons x l₁ ih =>
    have hlen : s + (x :: l₁).length = s + 1 + l₁.length := by
      rw [length_cons]
      omega
    rw [cons_append, from_cons, from_cons, ih, hlen, and_assoc]

lemma from_map {β : Type} {f : β → α} {l : List β} :
    From num s (l.map f) ↔ From (fun x => num (f x)) s l := by
  induction l generalizing s with
  | nil => simp
  | cons x xs ih => rw [map_cons, from_cons, from_cons, ih]

section

variable (h : From num s l)
include h

lemma From.drop (d : Nat) : From num (s + d) (l.drop d) := by
  induction d generalizing s l with
  | zero => simpa using h
  | succ d ih =>
    cases l with
    | nil => simp
    | cons x xs =>
      have hdrop := ih h.2
      have hshift : s + (d + 1) = s + 1 + d := by omega
      rw [hshift, drop_succ_cons]
      exact hdrop

lemma num_getElem? {i : Nat} (hx : l[i]? = some x) : num x = s + i := by
  induction l generalizing s i with
  | nil => simp at hx
  | cons y ys ih =>
    cases i with
    | zero =>
      simp only [getElem?_cons_zero, Option.some.injEq] at hx
      rw [← hx, h.1, Nat.add_zero]
    | succ i =>
      have hnum := ih h.2 (by simpa using hx)
      omega

lemma From.bounds (hx : x ∈ l) : s ≤ num x ∧ num x < s + l.length := by
  obtain ⟨i, hi⟩ := mem_iff_getElem?.1 hx
  have hlt : i < l.length := (List.getElem?_eq_some_iff.1 hi).1
  have hnum := num_getElem? h hi
  omega

/-- The elements with a number from `t` on are a final segment. -/
theorem filter_le (t : Nat) : l.filter (fun x => t ≤ num x) = l.drop (t - s) := by
  induction l generalizing s with
  | nil => simp
  | cons x xs ih =>
    rw [filter_cons, h.1]
    by_cases hle : t ≤ s
    · have hzero : t - s = 0 := by omega
      have hzero' : t - (s + 1) = 0 := by omega
      simp [hle, hzero, ih h.2, hzero']
    · have hsucc : t - s = t - (s + 1) + 1 := by omega
      simp [hle, hsucc, ih h.2]

/-- The elements with a number before `t` are an initial segment. -/
theorem filter_lt (t : Nat) : l.filter (fun x => num x < t) = l.take (t - s) := by
  induction l generalizing s with
  | nil => simp
  | cons x xs ih =>
    rw [filter_cons, h.1]
    by_cases hlt : s < t
    · have hsucc : t - s = t - (s + 1) + 1 := by omega
      simp [hlt, hsucc, ih h.2]
    · have hzero : t - s = 0 := by omega
      have hzero' : t - (s + 1) = 0 := by omega
      simp [hlt, hzero, ih h.2, hzero']

theorem dropWhile_lt (t : Nat) : l.dropWhile (fun x => num x < t) = l.drop (t - s) := by
  induction l generalizing s with
  | nil => simp
  | cons x xs ih =>
    rw [dropWhile_cons, h.1]
    by_cases hlt : s < t
    · have hsucc : t - s = t - (s + 1) + 1 := by omega
      simp [hlt, hsucc, ih h.2]
    · have hzero : t - s = 0 := by omega
      simp [hlt, hzero]

/-- Looking up a number is indexing. -/
theorem find?_eq {t : Nat} (hst : s ≤ t) : l.find? (fun x => num x = t) = l[t - s]? := by
  induction l generalizing s with
  | nil => simp
  | cons x xs ih =>
    rw [find?_cons, h.1]
    by_cases heq : s = t
    · subst heq
      simp
    · have hsucc : t - s = t - (s + 1) + 1 := by omega
      simp only [heq, decide_false, hsucc, getElem?_cons_succ]
      exact ih h.2 (by omega)

lemma num_getLast? (hx : l.getLast? = some x) : num x + 1 = s + l.length := by
  rw [List.getLast?_eq_getElem?] at hx
  have hlt := (List.getElem?_eq_some_iff.1 hx).1
  have hnum := num_getElem? h hx
  omega

end

end Numbered
