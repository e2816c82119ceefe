import FreqTrading.Lib.Rounding

/-!
# Position sizing

`compute_lot` of `orb/svp/sizing.py`: the lot whose loss at the stop is a percentage of the balance, or a
hard cap if that is less, snapped down to the volume step. Snapping down divides with a tolerance of a
billionth of a step and rounds to ten places, so the lot may exceed what the risk pays for by that much
(`computeLot_affordable`).
-/

namespace FreqTrading

open Lib

/-- `_floor_to_step`. -/
def floorToStep (x step : ℚ) : ℚ :=
  if step ≤ 0 then x else roundPlaces 10 (⌊x / step + 1 / 1000000000⌋ * step)

/-- The risk in money, at most the cap if there is one. -/
def cappedRisk (risk : ℚ) : Option ℚ → ℚ
  | none => risk
  | some m => min risk m

def computeLot (balance riskPct entry stop valuePerMove volMin volStep volMax : ℚ) (maxRisk : Option ℚ) : ℚ :=
  let stopDist := |entry - stop|
  if stopDist ≤ 0 ∨ valuePerMove ≤ 0 ∨ balance ≤ 0 ∨ riskPct ≤ 0 then 0
  else if maxRisk.any (· ≤ 0) then 0
  else
    let riskDollars := cappedRisk (balance * (riskPct / 100)) maxRisk
    let lot := floorToStep (riskDollars / (stopDist * valuePerMove)) volStep
    if lot < volMin then 0 else min lot volMax

theorem cappedRisk_le (risk : ℚ) (maxRisk : Option ℚ) : cappedRisk risk maxRisk ≤ risk := by
  cases maxRisk with
  | none => exact le_rfl
  | some m => exact min_le_left _ _

theorem cappedRisk_le_cap (risk : ℚ) {maxRisk : Option ℚ} {m : ℚ} (h : m ∈ maxRisk) : cappedRisk risk maxRisk ≤ m := by
  obtain rfl : maxRisk = some m := h
  exact min_le_right _ _

/-- What snapping down to a step may add. -/
def lotTolerance (step : ℚ) : ℚ := max step 0 / 1000000000 + 1 / 20000000000

theorem lotTolerance_pos (step : ℚ) : 0 < lotTolerance step := by
  have : 0 ≤ max step 0 := le_max_right _ _
  unfold lotTolerance
  linarith

theorem floorToStep_le (x step : ℚ) : floorToStep x step ≤ x + lotTolerance step := by
  unfold floorToStep
  split
  · have := lotTolerance_pos step
    linarith
  · next hstep =>
    have hpos : 0 < step := not_le.mp hstep
    have hround := (abs_le.mp (roundPlaces_error 10 (⌊x / step + 1 / 1000000000⌋ * step : ℚ))).2
    have hfloor : (⌊x / step + 1 / 1000000000⌋ : ℚ) * step ≤ (x / step + 1 / 1000000000) * step :=
      mul_le_mul_of_nonneg_right (Int.floor_le _) hpos.le
    have hmul : (x / step + 1 / 1000000000) * step = x + step / 1000000000 := by
      field_simp
    rw [lotTolerance, max_eq_left hpos.le]
    norm_num at hround
    linarith

/-- **A lot is affordable up to the rounding of the step**: its loss at the stop is at most the percentage of
the balance, and at most the cap, plus the value of the tolerance. -/
theorem computeLot_affordable {balance riskPct entry stop valuePerMove volMin volStep volMax : ℚ}
    {maxRisk : Option ℚ}
    (hpos : 0 < computeLot balance riskPct entry stop valuePerMove volMin volStep volMax maxRisk) :
    0 < |entry - stop| * valuePerMove ∧
    computeLot balance riskPct entry stop valuePerMove volMin volStep volMax maxRisk *
        (|entry - stop| * valuePerMove) ≤
      balance * (riskPct / 100) + lotTolerance volStep * (|entry - stop| * valuePerMove) ∧
    ∀ m ∈ maxRisk,
      computeLot balance riskPct entry stop valuePerMove volMin volStep volMax maxRisk *
          (|entry - stop| * valuePerMove) ≤
        m + lotTolerance volStep * (|entry - stop| * valuePerMove) := by
  unfold computeLot at *
  simp only at *
  split at hpos
  · exact absurd hpos (lt_irrefl _)
  · next hsane =>
    obtain ⟨hdist, hvalue, -, -⟩ : 0 < |entry - stop| ∧ 0 < valuePerMove ∧ 0 < balance ∧ 0 < riskPct := by
      simpa only [not_or, not_le] using hsane
    have hunit : 0 < |entry - stop| * valuePerMove := mul_pos hdist hvalue
    rw [if_neg hsane]
    split at hpos
    · exact absurd hpos (lt_irrefl _)
    · next hcap =>
      rw [if_neg hcap]
      -- a lot within the tolerance of what `risk` pays for
      have hlot : ∀ risk, min (floorToStep (risk / (|entry - stop| * valuePerMove)) volStep) volMax *
          (|entry - stop| * valuePerMove) ≤ risk + lotTolerance volStep * (|entry - stop| * valuePerMove) := by
        intro risk
        have hle := (min_le_left _ volMax).trans (floorToStep_le (risk / (|entry - stop| * valuePerMove)) volStep)
        calc _ ≤ (risk / (|entry - stop| * valuePerMove) + lotTolerance volStep) *
              (|entry - stop| * valuePerMove) := mul_le_mul_of_nonneg_right hle hunit.le
          _ = _ := by rw [add_mul, div_mul_cancel₀ _ hunit.ne']
      refine ⟨hunit, ?_⟩
      split at hpos
      · exact absurd hpos (lt_irrefl _)
      · next hmin =>
        rw [if_neg hmin]
        refine ⟨(hlot _).trans (by linarith [cappedRisk_le (balance * (riskPct / 100)) maxRisk]), fun m hm => ?_⟩
        exact (hlot _).trans (by linarith [cappedRisk_le_cap (balance * (riskPct / 100)) hm])

/-! ### The sizing law -/

section law

/-- The volumes of a symbol: a step of at most ten decimals, and bounds on its grid. -/
structure VolumeGrid (volMin volStep volMax : ℚ) : Prop where
  step_pos : 0 < volStep
  places : ∃ z : ℤ, volStep * 10 ^ 10 = z
  min_grid : ∃ k : ℤ, volMin = k * volStep
  max_grid : ∃ k : ℤ, volMax = k * volStep
  ordered : volMin ≤ volMax
  max_nonneg : 0 ≤ volMax

/-- The lots of the grid up to `volMax` whose loss, at `unit` for a lot, is within the budget and the money value of a
billionth of a step. -/
def affordableLots (budget unit volStep volMax : ℚ) : Set ℚ :=
  {lot | (∃ k : ℤ, lot = k * volStep) ∧ lot * unit ≤ budget + 1 / 1000000000 * volStep * unit ∧ lot ≤ volMax}

/-- `cap` is no higher than `cap'`; no cap is the highest. -/
def CapLe (cap cap' : Option ℚ) : Prop := ∀ m' ∈ cap', ∃ m ∈ cap, m ≤ m'

variable {volMin volStep volMax : ℚ}

theorem VolumeGrid.floorToStep_eq (h : VolumeGrid volMin volStep volMax) (x : ℚ) :
    floorToStep x volStep = ⌊x / volStep + 1 / 1000000000⌋ * volStep := by
  obtain ⟨z, hz⟩ := h.places
  rw [floorToStep, if_neg (not_le.mpr h.step_pos)]
  apply roundPlaces_of_int (k := ⌊x / volStep + 1 / 1000000000⌋ * z)
  rw [mul_assoc, hz]
  push_cast
  rfl

/-- Snapped down is a whole number of steps that is paid for, and no larger number of steps is. -/
theorem VolumeGrid.affordable_iff (h : VolumeGrid volMin volStep volMax) {budget unit : ℚ} (hunit : 0 < unit) (k : ℤ) :
    k * volStep * unit ≤ budget + 1 / 1000000000 * volStep * unit ↔ (k : ℚ) * volStep ≤ floorToStep (budget / unit) volStep := by
  have hstep := h.step_pos
  have hmul : 0 < unit * volStep := mul_pos hunit hstep
  rw [h.floorToStep_eq, mul_le_mul_iff_left₀ hstep, Int.cast_le, Int.le_floor, div_div]
  constructor
  · intro hle
    have hdiv : (k : ℚ) - 1 / 1000000000 ≤ budget / (unit * volStep) := (le_div_iff₀ hmul).mpr (by linarith)
    linarith
  · intro hle
    have hdiv : ((k : ℚ) - 1 / 1000000000) * (unit * volStep) ≤ budget := (le_div_iff₀ hmul).mp (by linarith)
    linarith

theorem VolumeGrid.isGreatest (h : VolumeGrid volMin volStep volMax) {budget unit : ℚ} (hunit : 0 < unit) :
    IsGreatest (affordableLots budget unit volStep volMax) (min (floorToStep (budget / unit) volStep) volMax) := by
  obtain ⟨kmax, hmax⟩ := h.max_grid
  have hgrid : ∃ k : ℤ, min (floorToStep (budget / unit) volStep) volMax = k * volStep := by
    rcases min_choice (floorToStep (budget / unit) volStep) volMax with heq | heq
    · exact ⟨_, heq.trans (h.floorToStep_eq _)⟩
    · exact ⟨kmax, heq.trans hmax⟩
  constructor
  · obtain ⟨k, hk⟩ := hgrid
    refine ⟨⟨k, hk⟩, ?_, min_le_right _ _⟩
    rw [hk, h.affordable_iff hunit, ← hk]
    exact min_le_left _ _
  · rintro lot ⟨⟨k, rfl⟩, hafford, hle⟩
    exact le_min ((h.affordable_iff hunit k).mp hafford) hle

theorem VolumeGrid.floorToStep_mono (h : VolumeGrid volMin volStep volMax) {x y : ℚ} (hxy : x ≤ y) :
    floorToStep x volStep ≤ floorToStep y volStep := by
  rw [h.floorToStep_eq, h.floorToStep_eq]
  have hdiv : x / volStep ≤ y / volStep := div_le_div_of_nonneg_right hxy h.step_pos.le
  have hfloor : ⌊x / volStep + 1 / 1000000000⌋ ≤ ⌊y / volStep + 1 / 1000000000⌋ := Int.floor_le_floor (by linarith)
  exact mul_le_mul_of_nonneg_right (by exact_mod_cast hfloor) h.step_pos.le

theorem VolumeGrid.floorToStep_nonneg (h : VolumeGrid volMin volStep volMax) {x : ℚ} (hx : 0 ≤ x) :
    0 ≤ floorToStep x volStep := by
  rw [h.floorToStep_eq]
  have hdiv : 0 ≤ x / volStep := div_nonneg hx h.step_pos.le
  have hfloor : 0 ≤ ⌊x / volStep + 1 / 1000000000⌋ := Int.floor_nonneg.mpr (by linarith)
  exact mul_nonneg (by exact_mod_cast hfloor) h.step_pos.le

theorem cappedRisk_pos_iff {risk : ℚ} (hrisk : 0 < risk) (maxRisk : Option ℚ) :
    0 < cappedRisk risk maxRisk ↔ ¬ maxRisk.any (· ≤ 0) = true := by
  cases maxRisk with
  | none => simpa [cappedRisk] using hrisk
  | some m => simp [cappedRisk, hrisk]

theorem cappedRisk_mono {risk risk' : ℚ} (hrisk : risk ≤ risk') {cap cap' : Option ℚ} (hcap : CapLe cap cap') :
    cappedRisk risk cap ≤ cappedRisk risk' cap' := by
  cases cap' with
  | none => exact (cappedRisk_le risk cap).trans hrisk
  | some m' =>
    obtain ⟨m, hm, hle⟩ := hcap m' rfl
    exact le_min ((cappedRisk_le risk cap).trans hrisk) ((cappedRisk_le_cap risk hm).trans hle)

/-- `compute_lot` where the inputs are not degenerate: the lot before the test against the minimum is clamped first. -/
theorem computeLot_eq {balance riskPct entry stop valuePerMove : ℚ} (maxRisk : Option ℚ)
    (hgrid : VolumeGrid volMin volStep volMax) (hbalance : 0 < balance) (hrisk : 0 < riskPct)
    (hvalue : 0 < valuePerMove) (hdist : 0 < |entry - stop|) :
    computeLot balance riskPct entry stop valuePerMove volMin volStep volMax maxRisk =
      if 0 < cappedRisk (balance * (riskPct / 100)) maxRisk ∧
          volMin ≤ min (floorToStep (cappedRisk (balance * (riskPct / 100)) maxRisk /
            (|entry - stop| * valuePerMove)) volStep) volMax then
        min (floorToStep (cappedRisk (balance * (riskPct / 100)) maxRisk / (|entry - stop| * valuePerMove)) volStep) volMax
      else 0 := by
  have hmoney : 0 < balance * (riskPct / 100) := by positivity
  have hsane : ¬ (|entry - stop| ≤ 0 ∨ valuePerMove ≤ 0 ∨ balance ≤ 0 ∨ riskPct ≤ 0) := by
    simp only [not_or, not_le]
    exact ⟨hdist, hvalue, hbalance, hrisk⟩
  unfold computeLot
  simp only
  have hbudget := cappedRisk_pos_iff hmoney maxRisk
  rw [if_neg hsane]
  by_cases hcap : maxRisk.any (· ≤ 0) = true
  · rw [if_pos hcap, if_neg fun h => hbudget.mp h.1 hcap]
  · rw [if_neg hcap]
    by_cases hmin : floorToStep (cappedRisk (balance * (riskPct / 100)) maxRisk / (|entry - stop| * valuePerMove))
        volStep < volMin
    · rw [if_pos hmin, if_neg fun h => absurd hmin (not_lt.mpr (h.2.trans (min_le_left _ _)))]
    · rw [if_neg hmin, if_pos ⟨hbudget.mpr hcap, le_min (not_lt.mp hmin) hgrid.ordered⟩]

theorem centLots : VolumeGrid (1 / 100) (1 / 100) 100 where
  step_pos := by norm_num
  places := ⟨100000000, by norm_num⟩
  min_grid := ⟨1, by norm_num⟩
  max_grid := ⟨10000, by norm_num⟩
  ordered := by norm_num
  max_nonneg := by norm_num

end law

end FreqTrading
