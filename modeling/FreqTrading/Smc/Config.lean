import FreqTrading.Models

/-!
# Configuration of the SMC strategy

`SmcConfig` of `orb/smc/config.py`: `SmcConfigFields` with the proof that `__post_init__` raised nothing. That
a partial level is a pair is its type here.
-/

namespace FreqTrading

structure SmcConfigFields where
  triggerTfMin : Int := 30
  htfMin : Int := 240
  d1Min : Int := 1440
  swingLookback : Int := 2
  maxSwings : Int := 50
  dispBodyFrac : ℚ := 1 / 2
  dispAtrMult : ℚ := 12 / 10
  obConfirmBars : Int := 10
  maxBlocks : Int := 20
  obExpiryBars : Int := 180
  atrPeriod : Int := 14
  pocTol : ℚ := 2
  ticksPerRow : Int := 100
  tickSize : ℚ := 1 / 100
  minProfileBars : Int := 60
  minConfluences : Int := 3
  volMult : ℚ := 3 / 2
  volSmaPeriod : Int := 20
  riskPct : ℚ := 2
  stopBuffer : ℚ := 1 / 2
  stopMaxDist : ℚ := 15
  maxTradesPerDay : Int := 2
  /-- `(r_multiple, close_fraction)`, ascending in r. -/
  partialLevels : List (ℚ × ℚ) := [(5, 40 / 100), (7, 30 / 100)]
  finalTpR : ℚ := 10
  stage1AtR : ℚ := 1
  stage2AtR : ℚ := 2
  stage2MinLockR : ℚ := 1
  commPerLot : ℚ := 7
  strictMonotonic : Bool := true
  instrumentDp : Nat := 2
  deriving DecidableEq

namespace SmcConfigFields

variable (f : SmcConfigFields)

/-- The integer parameters that must be at least 1, with their names. -/
def counts : List (Int × String) :=
  [(f.triggerTfMin, "trigger_tf_min"), (f.htfMin, "htf_min"), (f.d1Min, "d1_min"),
   (f.swingLookback, "swing_lookback"), (f.maxSwings, "max_swings"), (f.obConfirmBars, "ob_confirm_bars"),
   (f.maxBlocks, "max_blocks"), (f.obExpiryBars, "ob_expiry_bars"), (f.atrPeriod, "atr_period"),
   (f.ticksPerRow, "ticks_per_row"), (f.minProfileBars, "min_profile_bars"), (f.volSmaPeriod, "vol_sma_period"),
   (f.maxTradesPerDay, "max_trades_per_day")]

/-- The checks of one rung after another, with the r of the rung before. -/
def levelChecks : ℚ → List (ℚ × ℚ) → List (Bool × String)
  | _, [] => []
  | prevR, (r, frac) :: rest =>
    (decide (r ≤ prevR), "partial_levels r must be > 0 and strictly ascending") ::
      (!(0 < frac && frac < 1), "partial_levels frac must be in (0, 1)") :: levelChecks r rest

def lastR : ℚ := (f.partialLevels.getLast?.map (·.1)).getD 0

/-- The checks of `SmcConfig.__post_init__` in their order: whether the check raises, and its text. -/
def checks : List (Bool × String) :=
  f.counts.map (fun (x, name) => (decide (x < 1), name ++ " must be >= 1")) ++
  ([(f.tickSize ≤ 0, "tick_size must be > 0"),
    (f.pocTol < 0, "poc_tol must be >= 0"),
    (!(0 < f.dispBodyFrac && f.dispBodyFrac < 1), "disp_body_frac must be in (0, 1)"),
    (f.dispAtrMult ≤ 0, "disp_atr_mult must be > 0"),
    (f.volMult ≤ 0, "vol_mult must be > 0"),
    (!(0 < f.riskPct && f.riskPct ≤ 10), "risk_pct must be in (0, 10]"),
    (!(f.triggerTfMin < f.htfMin && f.htfMin < f.d1Min), "timeframes must satisfy trigger_tf_min < htf_min < d1_min"),
    (f.d1Min ≠ 1440, "d1_min must be 1440 (daily)")] : List (Bool × String)) ++
  levelChecks 0 f.partialLevels ++
  ([(1 < (f.partialLevels.map (·.2)).sum, "partial_levels fractions must sum to <= 1.0"),
    (f.finalTpR ≠ 0 && f.finalTpR ≤ f.lastR, "final_tp_r must be 0 (off) or > the last partial r"),
    (f.finalTpR < 0, "final_tp_r must be >= 0"),
    (f.stage1AtR ≤ 0, "stage1_at_r must be > 0"),
    (f.stage2AtR ≤ f.stage1AtR, "stage2_at_r must be > stage1_at_r"),
    (f.stage2MinLockR ≤ 0, "stage2_min_lock_r must be > 0"),
    (f.commPerLot < 0, "comm_per_lot must be >= 0"),
    (f.stopBuffer ≤ 0, "stop_buffer must be > 0"),
    (f.stopMaxDist ≤ f.stopBuffer, "stop_max_dist must be > stop_buffer"),
    (!(1 ≤ f.minConfluences && f.minConfluences ≤ 6), "min_confluences must be in 1..6")] : List (Bool × String))

/-- `SmcConfig.__post_init__`: the first check that raises, with its text. -/
def postInit : Except String Unit :=
  match f.checks.find? (·.1) with
  | some (_, text) => .error text
  | none => .ok ()

end SmcConfigFields

/-- An accepted configuration: `__post_init__` raised nothing. -/
structure SmcConfig extends SmcConfigFields where
  accepted : toSmcConfigFields.postInit = .ok ()

namespace SmcConfig

theorem check_passes (cfg : SmcConfig) {check : Bool × String} (h : check ∈ cfg.checks) : check.1 = false := by
  have hacc := cfg.accepted
  unfold SmcConfigFields.postInit at hacc
  split at hacc
  · cases hacc
  · next hnone =>
    rw [List.find?_eq_none] at hnone
    simpa using hnone check h

/-- The default configuration is accepted. -/
def default : SmcConfig := ⟨{}, by decide +kernel⟩

def rowSize (cfg : SmcConfig) : ℚ := cfg.ticksPerRow * cfg.tickSize

theorem stopBuffer_pos (cfg : SmcConfig) : 0 < cfg.stopBuffer := by
  have hcheck : (decide (cfg.stopBuffer ≤ 0), "stop_buffer must be > 0").1 = false :=
    cfg.check_passes (by simp [SmcConfigFields.checks])
  simpa using hcheck

theorem stages_pos (cfg : SmcConfig) :
    0 < cfg.stage1AtR ∧ cfg.stage1AtR < cfg.stage2AtR ∧ 0 < cfg.stage2MinLockR := by
  have hone : (decide (cfg.stage1AtR ≤ 0), "stage1_at_r must be > 0").1 = false :=
    cfg.check_passes (by simp [SmcConfigFields.checks])
  have htwo : (decide (cfg.stage2AtR ≤ cfg.stage1AtR), "stage2_at_r must be > stage1_at_r").1 = false :=
    cfg.check_passes (by simp [SmcConfigFields.checks])
  have hlock : (decide (cfg.stage2MinLockR ≤ 0), "stage2_min_lock_r must be > 0").1 = false :=
    cfg.check_passes (by simp [SmcConfigFields.checks])
  simp only [decide_eq_false_iff_not, not_le] at hone htwo hlock
  exact ⟨hone, htwo, hlock⟩

end SmcConfig

end FreqTrading
