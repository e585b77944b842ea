import Mathlib.Tactic.Linarith

/-!
# Base fee update

The controller that computes the base fee of a block, with its trend and its
second moment, from the fields of the parent block.  The source computes with
checked 64-bit integers that abort on overflow; `none` stands for that abort.

Main results:

- `run_in_range`: no sequence of blocks makes the controller abort, and its fee, trend
  and moment stay in their ranges.
-/

namespace Kinet.Eth.BaseFee

def genesisBaseFee : Nat := 0
def genesisBaseFeeTrend : Nat := 0
def genesisBaseFeeMoment : Nat := 0

/-- 100 gwei. -/
def minBaseFee : Nat := 100000000000

/-- A million times the least base fee. -/
def maxBaseFee : Nat := 100000000000000000

/-- A value that must fit 64 bits. -/
def checkedU64 (n : Int) : Option Nat := if 0 ≤ n ∧ n < 2 ^ 64 then some n.toNat else none

/-- A value that must fit 128 bits. -/
def checkedU128 (n : Nat) : Option Nat := if n < 2 ^ 128 then some n else none

/-- A value that must fit a signed 64-bit integer. -/
def checkedI64 (n : Int) : Option Int := if -2 ^ 63 ≤ n ∧ n < 2 ^ 63 then some n else none

/-- The signed reading of a 64-bit pattern. -/
def castSigned (n : Nat) : Int := if n < 2 ^ 63 then n else (n : Int) - 2 ^ 64

/-- The 64-bit pattern of a signed value. -/
def castUnsigned (n : Int) : Nat := (n % 2 ^ 64).toNat

/-- Terms of the exponential series, summed until they vanish. -/
def fakeExponentialLoop (numerator : Int) (denominator : Nat) : Nat → Nat → Int → Int → Option Int
  | 0, _, _, _ => none
  | fuel + 1, i, output, numeratorAccum =>
    if numeratorAccum = 0 then some output
    else
      fakeExponentialLoop numerator denominator fuel (i + 1) (output + numeratorAccum)
        ((numeratorAccum * numerator).tdiv (denominator * i : Nat))

/-- `factor * e ^ (numerator / denominator)` by its Taylor series.  The terms
shrink at least by the factorial of their index, so that 64 of them are enough
for 64-bit arguments. -/
def fakeExponential (factor : Nat) (numerator : Int) (denominator : Nat) : Option Nat := do
  guard (denominator ≠ 0)
  guard (numerator.natAbs ≤ denominator)
  guard (factor ≤ maxBaseFee)
  let output ← fakeExponentialLoop numerator denominator 64 1 0 (factor * denominator : Nat)
  checkedU64 (output.tdiv denominator)

def computeBaseFeeMath (blockGasLimit parentGasUsage parentBaseFee : Nat) (parentTrend : Int)
    (parentMoment : Nat) : Option (Nat × Int × Nat) := do
  let maxStepSizeDenom : Nat := 28
  let beta : Nat := 96
  -- the target is 80% of the limit
  let scaledLimit ← checkedU64 (blockGasLimit * 8 : Nat)
  let blockGasTarget := scaledLimit / 10
  let gasUsage ← checkedI64 parentGasUsage
  let gasTarget ← checkedI64 blockGasTarget
  let parentDelta ← checkedI64 (gasUsage - gasTarget)
  let numerator ← checkedI64 (gasTarget * parentDelta)
  let moment ← checkedI64 parentMoment
  let trendSquare ← checkedI64 (parentTrend * parentTrend)
  let variance ← checkedI64 (moment - trendSquare)
  let sqrtTerm := Nat.sqrt variance.toNat
  let spread ← checkedU64 (blockGasTarget + sqrtTerm : Nat)
  let headroom ← checkedU64 ((blockGasLimit : Int) - blockGasTarget)
  let step ← checkedU64 (maxStepSizeDenom * spread : Nat)
  let denominator ← checkedU64 (step * headroom : Nat)
  let exponential ← fakeExponential parentBaseFee numerator denominator
  let baseFee := max minBaseFee (min exponential maxBaseFee)
  -- the trend is kept with the opposite sign
  let decayedTrend ← checkedI64 (beta * parentTrend)
  let negatedDelta ← checkedI64 (-parentDelta)
  let trendContrib ← checkedI64 ((100 - beta) * negatedDelta)
  let trendSum ← checkedI64 (decayedTrend + trendContrib)
  let trend ← checkedI64 (trendSum.tdiv 100)
  let momentDecay ← checkedU128 (beta * parentMoment)
  let parentDeltaSqr ← checkedU128 (parentDelta * parentDelta).toNat
  let currentContrib ← checkedU128 ((100 - beta) * parentDeltaSqr)
  let momentSum ← checkedU128 (momentDecay + currentContrib)
  let nextMoment ← checkedU64 (momentSum / 100 : Nat)
  pure (baseFee, trend, nextMoment)

/-- Base fee fields of the next block, with the trend as a 64-bit pattern. -/
def computeBaseFee (parentBlockGasLimit parentGasUsage parentBaseFee parentTrend
    parentMoment : Nat) : Option (Nat × Nat × Nat) := do
  guard (parentGasUsage ≤ parentBlockGasLimit)
  let (baseFee, trend, moment) ← computeBaseFeeMath parentBlockGasLimit parentGasUsage
    parentBaseFee (castSigned parentTrend) parentMoment
  pure (baseFee, castUnsigned trend, moment)

-- the first block of a chain with the latest gas limit
example : computeBaseFee 150000000 0 genesisBaseFee genesisBaseFeeTrend genesisBaseFeeMoment =
    some (minBaseFee, 4800000, 576000000000000) := by decide +kernel

/-! ## The exponential -/

section

variable {α β : Type}

lemma some_bind (a : α) (f : α → Option β) : some a >>= f = f a := rfl

lemma check_bind {p : Prop} [Decidable p] (h : p) (a : α) (f : α → Option β) :
    (if p then some a else none) >>= f = f a := by
  rw [if_pos h, some_bind]

end

/-- Each term is less than a seventh of the one before it. -/
lemma fakeExponentialLoop_spec {numerator : Int} {denominator : Nat}
    (hstep : 7 * numerator.natAbs ≤ denominator) (hpos : 0 < denominator) {fuel terms i : Nat}
    (hfuel : fuel = terms + 1) (hi : 0 < i) (output : Int) {accum : Int}
    (haccum : accum.natAbs < 7 ^ terms) :
    ∃ r, fakeExponentialLoop numerator denominator fuel i output accum = some r ∧
      (r - output - accum).natAbs ≤ accum.natAbs := by
  subst hfuel
  induction terms generalizing i output accum with
  | zero =>
    obtain rfl : accum = 0 := by omega
    exact ⟨output, rfl, by simp⟩
  | succ terms ih =>
    rw [fakeExponentialLoop]
    split
    · next hzero => exact ⟨output, rfl, by simp [hzero]⟩
    · have hnext : 7 * ((accum * numerator).tdiv (denominator * i : Nat)).natAbs ≤
          accum.natAbs := by
        rw [Int.natAbs_tdiv, Int.natAbs_mul, Int.natAbs_natCast]
        refine Nat.le_of_mul_le_mul_right ?_ (Nat.mul_pos hpos hi)
        calc 7 * (accum.natAbs * numerator.natAbs / (denominator * i)) * (denominator * i)
            ≤ 7 * (accum.natAbs * numerator.natAbs) := by
              rw [Nat.mul_assoc]
              exact Nat.mul_le_mul_left 7 (Nat.div_mul_le_self _ _)
          _ = accum.natAbs * (7 * numerator.natAbs) := Nat.mul_left_comm _ _ _
          _ ≤ accum.natAbs * (denominator * i) :=
              Nat.mul_le_mul_left _ (hstep.trans (Nat.le_mul_of_pos_right _ hi))
      rw [pow_succ] at haccum
      obtain ⟨r, hr, hle⟩ := ih (Nat.succ_pos i) (output + accum)
        (show ((accum * numerator).tdiv (denominator * i : Nat)).natAbs < 7 ^ terms by omega)
      exact ⟨r, hr, by omega⟩

lemma fakeExponential_eq {factor denominator : Nat} {numerator r : Int}
    (hpos : 0 < denominator) (hnumerator : numerator.natAbs ≤ denominator)
    (hfactor : factor ≤ maxBaseFee)
    (hr : fakeExponentialLoop numerator denominator 64 1 0 (factor * denominator : Nat) = some r) :
    fakeExponential factor numerator denominator = checkedU64 (r.tdiv denominator) := by
  unfold fakeExponential guard
  rw [if_pos hpos.ne', if_pos hnumerator, if_pos hfactor, hr]
  simp only [pure_bind, some_bind]

lemma fakeExponential_returns {factor denominator : Nat} {numerator : Int}
    (hfactor : factor ≤ maxBaseFee) (hstep : 7 * numerator.natAbs ≤ denominator)
    (hpos : 0 < denominator) (hdenominator : denominator < 2 ^ 64) :
    ∃ fee, fakeExponential factor numerator denominator = some fee := by
  have hmul : factor * denominator ≤ maxBaseFee * 2 ^ 64 := Nat.mul_le_mul hfactor hdenominator.le
  have hfirst : ((factor * denominator : Nat) : Int).natAbs < 7 ^ 63 :=
    Nat.lt_of_le_of_lt hmul (by norm_num [maxBaseFee])
  obtain ⟨r, hr, hle⟩ := fakeExponentialLoop_spec hstep hpos (show 64 = 63 + 1 from rfl)
    Nat.one_pos 0 hfirst
  rw [Int.natAbs_natCast] at hle
  obtain ⟨n, rfl⟩ := Int.eq_ofNat_of_zero_le (show 0 ≤ r by omega)
  have hfee : n / denominator ≤ 2 * factor :=
    Nat.div_le_of_le_mul (by rw [Nat.mul_left_comm, Nat.mul_comm denominator]; omega)
  rw [fakeExponential_eq hpos (by omega) hfactor hr, ← Int.ofNat_tdiv]
  simp only [maxBaseFee] at hfactor
  exact ⟨_, if_pos ⟨Int.natCast_nonneg _, by omega⟩⟩

/-! ## Runs -/

/-- The documented ranges, for blocks of at most `limit` gas. -/
structure InRange (limit fee : Nat) (trend : Int) (moment : Nat) : Prop where
  fee_le : fee ≤ maxBaseFee
  le_trend : -limit ≤ 5 * trend
  trend_le : 5 * trend ≤ 4 * limit
  moment_le : 25 * moment ≤ 16 * (limit * limit)

lemma tdiv_hundred {limit : Nat} {n : Int} (hlow : -(20 * limit + 3) ≤ n) (hhigh : n ≤ 80 * limit) :
    -limit ≤ 5 * n.tdiv 100 ∧ 5 * n.tdiv 100 ≤ 4 * limit := by
  rw [Int.tdiv_eq_ediv]
  split
  · omega
  · rw [show Int.sign 100 = 1 from rfl]
    omega

lemma InRange.computeBaseFeeMath {limit gasLimit usage fee moment : Nat} {trend : Int}
    (h : InRange limit fee trend moment) (hlimit : limit ≤ 1000000000)
    (hmin : 100000000 ≤ gasLimit) (hmax : gasLimit ≤ limit) (husage : usage ≤ gasLimit) :
    ∃ fee' trend' moment',
      computeBaseFeeMath gasLimit usage fee trend moment = some (fee', trend', moment') ∧
        minBaseFee ≤ fee' ∧ InRange limit fee' trend' moment' := by
  obtain ⟨hfee, hle, hge, hmoment⟩ := h
  obtain ⟨target, htarget⟩ : ∃ n, n = gasLimit * 8 / 10 := ⟨_, rfl⟩
  obtain ⟨headroom, hheadroom⟩ : ∃ n, n = (gasLimit - target : Int).toNat := ⟨_, rfl⟩
  obtain ⟨delta, hdelta⟩ : ∃ n : Int, n = usage - target := ⟨_, rfl⟩
  obtain ⟨root, hroot⟩ : ∃ n, n = Nat.sqrt (moment - trend * trend : Int).toNat := ⟨_, rfl⟩
  have htrend := mul_self_nonneg trend
  have htrend' : trend * trend ≤ 800000000 * 800000000 := by
    have hlow : 0 ≤ 800000000 + trend := by omega
    have hhigh : 0 ≤ 800000000 - trend := by omega
    linarith only [mul_nonneg hlow hhigh]
  have hsquare : limit * limit ≤ 1000000000 * 1000000000 := Nat.mul_le_mul hlimit hlimit
  have htarget' : 25 * (target * target) ≤ 16 * (limit * limit) := by
    have hle : 5 * target ≤ 4 * limit := by omega
    linarith only [Nat.mul_le_mul hle hle]
  have hdelta' : delta * delta ≤ target * target := by
    have hlow : 0 ≤ delta + target := by omega
    have hhigh : 0 ≤ target - delta := by omega
    linarith only [mul_nonneg hlow hhigh]
  have hroot' : root ≤ 800000000 := by
    have hsqrt := Nat.sqrt_le (moment - trend * trend : Int).toNat
    rw [← hroot] at hsqrt
    exact Nat.mul_self_le_mul_self_iff.mp (by omega)
  have hdenominator : 28 * (target + root) * headroom ≤ 28 * 1600000000 * 200000001 :=
    Nat.mul_le_mul (by omega) (by omega)
  have hnumerator : 7 * (target * delta).natAbs ≤ 28 * (target + root) * headroom := by
    rw [Int.natAbs_mul, Int.natAbs_natCast]
    have hle : delta.natAbs ≤ 4 * headroom := by omega
    linarith only [Nat.mul_le_mul_left target hle, Nat.zero_le (root * headroom)]
  have hpos : 0 < 28 * (target + root) * headroom := Nat.mul_pos (by omega) (by omega)
  obtain ⟨sum, hsum⟩ : ∃ n : Int, n = (96 : Nat) * trend + (100 - (96 : Nat)) * -delta :=
    ⟨_, rfl⟩
  have hsum' := tdiv_hundred (show -(20 * limit + 3) ≤ sum by omega) (by omega)
  obtain ⟨exponential, hexponential⟩ := fakeExponential_returns hfee hnumerator hpos (by omega)
  -- the names go, so that every check is about the terms of the facts above
  unfold BaseFee.computeBaseFeeMath
  simp only [checkedU64, checkedI64, checkedU128, Int.toNat_natCast]
  subst hheadroom hsum hdelta hroot htarget
  repeat rw [check_bind (by omega)]
  rw [hexponential, some_bind]
  repeat rw [check_bind (by omega)]
  refine ⟨_, _, _, rfl, le_max_left _ _, max_le (by decide) (min_le_right _ _), hsum'.1, hsum'.2, ?_⟩
  omega

/-- Base fee fields after blocks with the given gas limits and usages, the latest block first. -/
def run : List (Nat × Nat) → Option (Nat × Nat × Nat)
  | [] => some (genesisBaseFee, genesisBaseFeeTrend, genesisBaseFeeMoment)
  | (gasLimit, usage) :: blocks => do
    let (fee, trend, moment) ← run blocks
    computeBaseFee gasLimit usage fee trend moment

/-- No sequence of blocks makes the controller abort. -/
theorem run_in_range {limit : Nat} {blocks : List (Nat × Nat)} (hlimit : limit ≤ 1000000000)
    (hblocks : ∀ b ∈ blocks, 100000000 ≤ b.1 ∧ b.1 ≤ limit ∧ b.2 ≤ b.1) :
    ∃ fee trend moment, run blocks = some (fee, trend, moment) ∧
      (blocks ≠ [] → minBaseFee ≤ fee) ∧ InRange limit fee (castSigned trend) moment := by
  induction blocks with
  | nil =>
    refine ⟨_, _, _, rfl, fun hne => absurd rfl hne, by decide, ?_, ?_, Nat.zero_le _⟩
    · exact neg_nonpos.mpr (Int.natCast_nonneg _)
    · exact Int.natCast_nonneg _
  | cons b blocks ih =>
    obtain ⟨⟨hmin, hmax, husage⟩, hblocks⟩ := List.forall_mem_cons.mp hblocks
    obtain ⟨fee, trend, moment, hrun, -, h⟩ := ih hblocks
    obtain ⟨fee', trend', moment', hmath, hfee', h'⟩ :=
      h.computeBaseFeeMath hlimit hmin hmax husage
    refine ⟨fee', castUnsigned trend', moment', ?_, fun _ => hfee', ?_⟩
    · rw [run, hrun, some_bind]
      dsimp only
      rw [computeBaseFee, guard, if_pos husage, pure_bind, hmath, some_bind]
      rfl
    · have hcast : castSigned (castUnsigned trend') = trend' := by
        have hle := h'.le_trend
        have hge := h'.trend_le
        unfold castSigned castUnsigned
        omega
      rwa [hcast]

/-- The gas limit changes between two blocks. -/
theorem run_in_range_sample : ∃ fee trend moment,
    run [(200000000, 200000000), (150000000, 0)] = some (fee, trend, moment) ∧
      minBaseFee ≤ fee ∧ InRange 200000000 fee (castSigned trend) moment := by
  obtain ⟨fee, trend, moment, hrun, hfee, h⟩ :=
    run_in_range (show 200000000 ≤ 1000000000 by decide)
      (show ∀ b ∈ [(200000000, 200000000), (150000000, 0)], _ by decide)
  exact ⟨fee, trend, moment, hrun, hfee (by decide), h⟩

end Kinet.Eth.BaseFee
