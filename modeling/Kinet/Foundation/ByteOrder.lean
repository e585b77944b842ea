import Mathlib.Tactic.Ring

/-!
# Numbers as byte strings

Fixed-width little-endian and big-endian encodings of natural numbers.

Main results:

- `ByteOrder.ofLe_toLe`: a number that fits the width is read back.
- `ByteOrder.ofBe_toBe`: the same for the big-endian encoding.
-/

namespace ByteOrder

instance neZero_u16 : NeZero (2 ^ 16) := ⟨by decide⟩

instance neZero_u64 : NeZero (2 ^ 64) := ⟨by decide⟩

/-- The `width` lowest bytes of `n`, the lowest first. -/
def toLe : Nat → Nat → List UInt8
  | 0, _ => []
  | width + 1, n => UInt8.ofNat n :: toLe width (n / 256)

/-- The number whose bytes are given, the lowest first. -/
def ofLe : List UInt8 → Nat
  | [] => 0
  | b :: bs => b.toNat + 256 * ofLe bs

/-- The `width` lowest bytes of `n`, the highest first. -/
def toBe (width n : Nat) : List UInt8 := (toLe width n).reverse

/-- The number whose bytes are given, the highest first. -/
def ofBe (bs : List UInt8) : Nat := ofLe bs.reverse

@[simp]
lemma length_toLe (width n : Nat) : (toLe width n).length = width := by
  induction width generalizing n with
  | zero => rfl
  | succ width ih => simp [toLe, ih]

@[simp]
lemma length_toBe (width n : Nat) : (toBe width n).length = width := by
  simp [toBe]

theorem ofLe_toLe {width n : Nat} (h : n < 256 ^ width) : ofLe (toLe width n) = n := by
  induction width generalizing n with
  | zero =>
    simp only [toLe, ofLe]
    omega
  | succ width ih =>
    have hhigh : n / 256 < 256 ^ width := by
      omega
    rw [toLe, ofLe, ih hhigh, UInt8.toNat_ofNat']
    omega

theorem ofBe_toBe {width n : Nat} (h : n < 256 ^ width) : ofBe (toBe width n) = n := by
  rw [ofBe, toBe, List.reverse_reverse, ofLe_toLe h]

end ByteOrder
