import Mathlib.Data.Vector.Basic
import Mathlib.Tactic.Ring

/-!
# Ring bitmaps

One bit for each residue class of the counters modulo the number of bits, packed into
64-bit words.  Within a window of that length the bitmap is a set of counters.

Main results:

- `RingBitmap.isSet_set`, `RingBitmap.isSet_clear`: an update changes one class.
-/

structure RingBitmap (words : Nat) where
  bits : List.Vector (BitVec 64) words
deriving DecidableEq

namespace RingBitmap

open List List.Vector

variable {words : Nat}

/-- No bit is set. -/
def empty (words : Nat) : RingBitmap words := ⟨replicate words 0⟩

variable [NeZero words]

def wordIndex (words counter : Nat) [NeZero words] : Fin words :=
  ⟨counter % (words * 64) / 64, by
    have hpos : 0 < words * 64 := Nat.mul_pos (Nat.pos_of_neZero words) (by decide)
    have hlt := Nat.mod_lt counter hpos
    omega⟩

def bitIndex (words counter : Nat) : Nat := counter % (words * 64) % 64

variable (b : RingBitmap words)

def isSet (counter : Nat) : Bool :=
  (b.bits.get (wordIndex words counter) >>> bitIndex words counter) &&& 1#64 = 1#64

def set (counter : Nat) : RingBitmap words :=
  let word := wordIndex words counter
  ⟨b.bits.set word (b.bits.get word ||| (1#64 <<< bitIndex words counter))⟩

def clear (counter : Nat) : RingBitmap words :=
  let word := wordIndex words counter
  ⟨b.bits.set word (b.bits.get word &&& ~~~(1#64 <<< bitIndex words counter))⟩

def clearRange (start stop : Nat) : RingBitmap words :=
  (range' start (stop - start)).foldl clear b

lemma bitIndex_lt (words counter : Nat) : bitIndex words counter < 64 :=
  Nat.mod_lt _ (by decide)

lemma isSet_eq_getLsbD (counter : Nat) : b.isSet counter =
      (b.bits.get (wordIndex words counter)).getLsbD (bitIndex words counter) := by
  rw [isSet, BitVec.and_one_eq_setWidth_ofBool_getLsbD, BitVec.getLsbD_ushiftRight, add_zero]
  cases (b.bits.get (wordIndex words counter)).getLsbD (bitIndex words counter) <;> decide

/-- Two counters share their bit exactly if they are congruent. -/
lemma wordIndex_bitIndex_eq_iff (c d : Nat) :
    wordIndex words c = wordIndex words d ∧ bitIndex words c = bitIndex words d ↔
      c % (words * 64) = d % (words * 64) := by
  simp only [wordIndex, bitIndex, Fin.mk.injEq]
  generalize c % (words * 64) = m, d % (words * 64) = n
  omega

@[simp]
lemma isSet_empty (counter : Nat) : (empty words).isSet counter = false := by
  simp [isSet_eq_getLsbD, empty]

lemma isSet_mk_set (c d : Nat) (w : BitVec 64) : isSet ⟨b.bits.set (wordIndex words c) w⟩ d =
      if wordIndex words c = wordIndex words d then w.getLsbD (bitIndex words d) else b.isSet d := by
  rw [isSet_eq_getLsbD, isSet_eq_getLsbD]
  split
  · next h => rw [← h, get_set_same]
  · next h => rw [get_set_of_ne h]

lemma getLsbD_one_shiftLeft {i j : Nat} (hj : j < 64) :
    (1#64 <<< i).getLsbD j = decide (i = j) := by
  by_cases h : i = j
  · simp [h, hj]
  · simp [h, hj]
    omega

theorem isSet_set (c d : Nat) :
    (b.set c).isSet d = (b.isSet d || decide (c % (words * 64) = d % (words * 64))) := by
  simp only [set, isSet_mk_set, ← wordIndex_bitIndex_eq_iff]
  by_cases h : wordIndex words c = wordIndex words d
  · simp [h, isSet_eq_getLsbD, getLsbD_one_shiftLeft (bitIndex_lt words d)]
  · simp [h]

theorem isSet_clear (c d : Nat) :
    (b.clear c).isSet d = (b.isSet d && !decide (c % (words * 64) = d % (words * 64))) := by
  simp only [clear, isSet_mk_set, ← wordIndex_bitIndex_eq_iff]
  by_cases h : wordIndex words c = wordIndex words d
  · rw [if_pos h, h, BitVec.getLsbD_and, BitVec.getLsbD_not,
      getLsbD_one_shiftLeft (bitIndex_lt words d), isSet_eq_getLsbD]
    simp [bitIndex_lt]
  · simp [h]

lemma isSet_foldl_clear (l : List Nat) (b : RingBitmap words) (d : Nat) :
    (l.foldl clear b).isSet d =
      (b.isSet d && l.all fun c => !decide (c % (words * 64) = d % (words * 64))) := by
  induction l generalizing b with
  | nil => simp
  | cons c l ih => rw [foldl_cons, ih, isSet_clear, all_cons, Bool.and_assoc]

/-- A bit stays set if no counter of the cleared range shares it. -/
theorem isSet_clearRange (start stop d : Nat) : (b.clearRange start stop).isSet d = true ↔
      b.isSet d = true ∧ ∀ c, start ≤ c → c < stop → c % (words * 64) ≠ d % (words * 64) := by
  rw [clearRange, isSet_foldl_clear, Bool.and_eq_true, all_eq_true]
  refine and_congr_right fun _ => forall_congr' fun c => ?_
  rw [mem_range'_1]
  simp only [Bool.not_eq_true', decide_eq_false_iff_not, and_imp]
  constructor
  · intro h hstart hstop
    exact h hstart (by omega)
  · intro h hstart hstop
    exact h hstart (by omega)

end RingBitmap
