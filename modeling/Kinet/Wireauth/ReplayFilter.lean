import Kinet.Foundation.RingBitmap
import Kinet.Wireauth.Handshake

/-!
# The replay filter

A session remembers which of the last 8192 packet counters it has accepted in a ring
bitmap that is cleared as the window moves on.

Main results:

- `ReplayFilter.Tracks.update`: accepting a counter keeps the bitmap exact on the
  window.
- `ReplayFilter.Tracks.check_accepted`: a counter that was accepted before is
  refused, the largest one apart.
- `ReplayFilter.Tracks.check_fresh`: a counter of the window that was not accepted
  before passes until the window has reached the largest counter.
-/

namespace Kinet.Wireauth

open RingBitmap

/-- Largest 64-bit counter. -/
def u64Max : Nat := 2 ^ 64 - 1

/-- Addition that stops at the largest counter. -/
def saturatingAdd (a : UInt64) (b : Nat) : Nat := min (a.toNat + b) u64Max

/-- Number of words in the bitmap. -/
def replayWindowSize : Nat := 128

def replayWindowBits : Nat := replayWindowSize * 64

/-- The counters that were accepted lately. -/
structure ReplayFilter where
  /-- one more than the largest counter that was accepted -/
  next : UInt64
  bitmap : RingBitmap 128
deriving DecidableEq

namespace ReplayFilter

/-- Filter of a session without packets. -/
def new : ReplayFilter where
  next := 0
  bitmap := .empty 128

variable {C : Crypto}

/-- May a packet with this counter be accepted? -/
def check (f : ReplayFilter) (counter : UInt64) : Except (SessionError C) Unit :=
  if f.next ≤ counter then .ok ()
  else if saturatingAdd counter replayWindowBits ≤ f.next.toNat then
    .error (.nonceOutsideWindow counter f.next)
  else if f.bitmap.isSet counter.toNat then .error (.nonceDuplicate counter)
  else .ok ()

/-- Record that a packet with this counter was accepted. -/
def update (f : ReplayFilter) (counter : UInt64) : ReplayFilter :=
  let f :=
    if f.next ≤ counter then
      let gap := counter.toNat - f.next.toNat
      { bitmap :=
          if replayWindowBits ≤ gap then .empty 128
          else f.bitmap.clearRange f.next.toNat counter.toNat
        next := UInt64.ofNat (saturatingAdd counter 1) }
    else f
  { f with bitmap := f.bitmap.set counter.toNat }

/-! ## What the filter knows -/

/-- The filter knows the accepted counters: they are below the window's end, one of them is
next to it, and inside of the window the bits are exact. -/
structure Tracks (f : ReplayFilter) (accepted : UInt64 → Prop) : Prop where
  below : ∀ c, accepted c → saturatingAdd c 1 ≤ f.next.toNat
  attained : f.next = 0 ∨ ∃ c, accepted c ∧ f.next.toNat = saturatingAdd c 1
  exact : ∀ c : UInt64, c < f.next → f.next.toNat < c.toNat + replayWindowBits →
    (f.bitmap.isSet c.toNat = true ↔ accepted c)

lemma tracks_new : new.Tracks fun _ => False where
  below _ h := h.elim
  attained := .inl rfl
  exact c h := by simp [new] at h

variable {f : ReplayFilter} {accepted : UInt64 → Prop} {c : UInt64}

/-- A counter passes if it is new or in the window with a clear bit. -/
lemma check_eq_ok : f.check c = (.ok () : Except (SessionError C) Unit) ↔
    f.next ≤ c ∨ f.next.toNat < saturatingAdd c replayWindowBits ∧
      f.bitmap.isSet c.toNat = false := by
  unfold check
  split
  · next h => simp [h]
  · next h =>
    split
    · next hold => simp [h, hold]
    · next hold =>
      rw [not_le] at hold
      cases hset : f.bitmap.isSet c.toNat <;> simp [h, hold]

/-- Counters that share their bit are equal or a window apart. -/
lemma eq_of_mod_eq {a b : Nat} (h : a % (128 * 64) = b % (128 * 64)) (hle : a ≤ b)
    (hlt : b < a + replayWindowBits) : a = b := by
  unfold replayWindowBits replayWindowSize at hlt
  omega

lemma next_update_of_le (h : f.next ≤ c) : (f.update c).next.toNat = saturatingAdd c 1 := by
  have hlt : saturatingAdd c 1 < 2 ^ 64 := by
    unfold saturatingAdd u64Max
    omega
  simp only [update, if_pos h]
  exact Nat.mod_eq_of_lt hlt

/-- The moving window forgets the counters that were jumped over. -/
lemma isSet_clearRange_iff {b : RingBitmap 128} {next d c : Nat}
    (hd : c < d + replayWindowBits) (hdc : d < c) :
    (b.clearRange next c).isSet d = true ↔ d < next ∧ b.isSet d = true := by
  rw [isSet_clearRange]
  constructor
  · rintro ⟨hset, hrange⟩
    refine ⟨?_, hset⟩
    by_contra hnext
    exact hrange d (by omega) hdc rfl
  · rintro ⟨hnext, hset⟩
    refine ⟨hset, fun i hi hic hmod => ?_⟩
    have := eq_of_mod_eq hmod.symm (by omega) (by omega)
    omega

lemma isSet_update_of_le (h : f.next ≤ c) {d : Nat} (hd : c.toNat < d + replayWindowBits)
    (hdc : d ≤ c.toNat) :
    (f.update c).bitmap.isSet d = true ↔
      d = c.toNat ∨ d < f.next.toNat ∧ f.bitmap.isSet d = true := by
  simp only [update, if_pos h, isSet_set, Bool.or_eq_true, decide_eq_true_eq]
  rw [or_comm]
  rcases eq_or_lt_of_le hdc with rfl | hlt
  · simp
  have hmod : ¬ c.toNat % (128 * 64) = d % (128 * 64) := fun hmod => by
    have := eq_of_mod_eq hmod.symm hdc hd
    omega
  simp only [hmod, false_or, hlt.ne]
  split
  · next hgap =>
    rw [isSet_empty]
    simp only [Bool.false_eq_true, false_iff, not_and]
    omega
  · exact isSet_clearRange_iff hd hlt

namespace Tracks

/-- A counter that is accepted below the window's end sets its own bit only. -/
lemma isSet_update_of_lt (hc : c < f.next) (hwindow : f.next.toNat < c.toNat + replayWindowBits)
    {d : UInt64} (hd : d < f.next) (hdwindow : f.next.toNat < d.toNat + replayWindowBits) :
    (f.update c).bitmap.isSet d.toNat = true ↔ f.bitmap.isSet d.toNat = true ∨ d = c := by
  have hclt : c.toNat < f.next.toNat := hc
  have hdlt : d.toNat < f.next.toNat := hd
  have hnot : ¬ f.next ≤ c := UInt64.not_le.mpr hc
  simp only [update, if_neg hnot, isSet_set, Bool.or_eq_true,
    decide_eq_true_eq]
  refine or_congr_right ⟨fun hmod => ?_, fun heq => by rw [heq]⟩
  rcases le_total c.toNat d.toNat with hle | hle
  · exact UInt64.toNat_inj.mp (eq_of_mod_eq hmod hle (by omega)).symm
  · exact UInt64.toNat_inj.mp (eq_of_mod_eq hmod.symm hle (by omega))

section

variable (h : f.Tracks accepted)
include h

lemma lt_next (hc : accepted c) (hmax : c.toNat ≠ u64Max) : c.toNat < f.next.toNat := by
  have hbelow := h.below c hc
  have := c.toNat_lt
  unfold saturatingAdd u64Max at *
  omega

lemma update_of_le (hle : f.next ≤ c) : (f.update c).Tracks fun d => accepted d ∨ d = c := by
  have hlen : f.next.toNat ≤ c.toNat := hle
  have hnext := next_update_of_le hle
  have hc : c.toNat ≤ saturatingAdd c 1 := by
    have := c.toNat_lt
    unfold saturatingAdd u64Max
    omega
  refine ⟨?_, .inr ⟨c, .inr rfl, hnext⟩, fun d hd hwindow => ?_⟩
  · rintro d (hd | rfl)
    · rw [hnext]
      exact (h.below d hd).trans (hlen.trans hc)
    · exact hnext.ge
  · have hdlt : d.toNat < saturatingAdd c 1 := by
      rw [← hnext]
      exact hd
    have hmax : d.toNat ≠ u64Max := by
      unfold saturatingAdd at hdlt
      omega
    have hdc : d.toNat ≤ c.toNat := by
      unfold saturatingAdd at hdlt
      omega
    rw [isSet_update_of_le hle (by omega) hdc, UInt64.toNat_inj, or_comm]
    refine or_congr_left ⟨?_, fun haccepted => ?_⟩
    · rintro ⟨hold, hset⟩
      exact (h.exact d hold (by omega)).mp hset
    · have hold := h.lt_next haccepted hmax
      exact ⟨hold, (h.exact d hold (by omega)).mpr haccepted⟩

lemma update_of_lt (hlt : c < f.next) (hwindow : f.next.toNat < c.toNat + replayWindowBits) :
    (f.update c).Tracks fun d => accepted d ∨ d = c := by
  have hltNat : c.toNat < f.next.toNat := hlt
  have hnext : (f.update c).next = f.next := by
    simp only [update, if_neg (UInt64.not_le.mpr hlt)]
  refine ⟨?_, ?_, fun d hd hdwindow => ?_⟩
  · rintro d (hd | rfl)
    · rw [hnext]
      exact h.below d hd
    · rw [hnext]
      unfold saturatingAdd
      omega
  · rw [hnext]
    exact h.attained.imp_right fun ⟨d, hd, hdnext⟩ => ⟨d, .inl hd, hdnext⟩
  · rw [hnext] at hd hdwindow
    rw [isSet_update_of_lt hlt hwindow hd hdwindow, h.exact d hd hdwindow]

theorem update (hcheck : f.check c = (.ok () : Except (SessionError C) Unit)) :
    (f.update c).Tracks fun d => accepted d ∨ d = c := by
  by_cases hle : f.next ≤ c
  · exact h.update_of_le hle
  · have hwindow := (check_eq_ok.mp hcheck).resolve_left hle
    refine h.update_of_lt (UInt64.not_le.mp hle) ?_
    exact hwindow.1.trans_le (min_le_left _ _)

theorem check_accepted (hc : accepted c) (hmax : c.toNat ≠ u64Max) :
    f.check c ≠ (.ok () : Except (SessionError C) Unit) := by
  have hlt := h.lt_next hc hmax
  rw [Ne, check_eq_ok, not_or]
  refine ⟨UInt64.not_le.mpr hlt, ?_⟩
  rintro ⟨hwindow, hclear⟩
  have hset := (h.exact c hlt (by unfold saturatingAdd at hwindow; omega)).mpr hc
  rw [hclear] at hset
  cases hset

theorem check_fresh (hc : ¬ accepted c)
    (hwindow : f.next.toNat < c.toNat + replayWindowBits) (hnext : f.next.toNat ≠ u64Max) :
    f.check c = (.ok () : Except (SessionError C) Unit) := by
  rw [check_eq_ok]
  by_cases hle : f.next ≤ c
  · exact .inl hle
  · have hlt : c < f.next := UInt64.not_le.mp hle
    refine .inr ⟨?_, ?_⟩
    · have := f.next.toNat_lt
      unfold saturatingAdd u64Max at *
      omega
    · rw [← Bool.not_eq_true, h.exact c hlt hwindow]
      exact hc

end

end Tracks

end ReplayFilter

end Kinet.Wireauth
