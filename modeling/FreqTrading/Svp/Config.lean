import FreqTrading.Svp.Profile

/-!
# Configuration of the SVP strategy

`SvpConfig` of `orb/svp/config.py`: `SvpConfigFields` with the proof that `__post_init__` raised nothing. The
checks of the string parameters and of the length of a killzone are their types here.
-/

namespace FreqTrading

/-- `trend_filter_mode`. -/
inductive TrendFilterMode
  | off | openSide | structureSide | both | either
  deriving DecidableEq, Repr

structure SvpConfigFields where
  sessionOpenUtc : TimeOfDay := .midnight
  sessionLenMin : Int := 1440
  ticksPerRow : Int := 10
  tickSize : ℚ := 1 / 100
  valueAreaPct : ℚ := 70 / 100
  vaTiebreak : Tiebreak := .up
  hvnFrac : ℚ := 70 / 100
  lvnFrac : ℚ := 30 / 100
  iMaxPeak : ℚ := 3 / 2
  minSessionBars : Int := 20
  maxRowsPerBar : Int := 5000
  tpoFallback : Bool := false
  enableEdgeRotation : Bool := true
  enableLvn : Bool := false
  enableAbsorptionProxy : Bool := false
  stopBufferTicks : ℚ := 50
  absorbLookback : Int := 20
  absorbVolMult : ℚ := 18 / 10
  absorbBodyTicks : ℚ := 5
  absorbWickMult : ℚ := 2
  riskPct : ℚ := 3
  partialFrac : ℚ := 7 / 10
  partialAtR : ℚ := 2
  maxTradesPerSession : Int := 4
  allowLong : Bool := true
  allowShort : Bool := true
  trendFilterMode : TrendFilterMode := .off
  swingLookback : Int := 2
  atrPeriod : Int := 14
  atrStopMult : ℚ := 0
  atrStopFloorStructural : Bool := true
  breakevenAtR : ℚ := 0
  /-- Minutes of the day, start and end. -/
  killzones : List (Int × Int) := []
  blockOpenMin : Int := 0
  blockCloseMin : Int := 0
  useDeltaConfirmation : Bool := false
  maxConsecutiveLosses : Int := 0
  expectedBarSec : Int := 60
  maxGapBars : Int := 3
  strictMonotonic : Bool := true
  deriving DecidableEq

/-- A killzone outside the day, or empty. -/
def badKillzone (kz : Int × Int) : Bool := !(0 ≤ kz.1 && kz.1 < kz.2 && kz.2 ≤ 1440)

def killzoneText (kz : Int × Int) : String :=
  "killzone must be (start_min, end_min) in [0,1440]: (" ++ toString kz.1 ++ ", " ++ toString kz.2 ++ ")"

/-- The checks of `SvpConfig.__post_init__` in their order: whether the check raises, and its text. -/
def SvpConfigFields.checks (f : SvpConfigFields) : List (Bool × String) :=
  ([(f.ticksPerRow < 1, "ticks_per_row must be >= 1"),
   (f.tickSize ≤ 0, "tick_size must be > 0"),
   (!(0 < f.valueAreaPct && f.valueAreaPct ≤ 1), "value_area_pct must be in (0, 1]"),
   (!(0 < f.hvnFrac && f.hvnFrac ≤ 1), "hvn_frac must be in (0, 1]"),
   (!(0 < f.lvnFrac && f.lvnFrac ≤ 1), "lvn_frac must be in (0, 1]"),
   (f.iMaxPeak ≤ 1, "i_max_peak must be > 1"),
   (f.minSessionBars < 1, "min_session_bars must be >= 1"),
   (f.maxRowsPerBar < 1, "max_rows_per_bar must be >= 1"),
   (f.stopBufferTicks < 0, "stop_buffer_ticks must be >= 0"),
   (f.absorbLookback < 1, "absorb_lookback must be >= 1"),
   (f.riskPct ≤ 0, "risk_pct must be > 0"),
   (!(0 < f.partialFrac && f.partialFrac ≤ 1), "partial_frac must be in (0, 1]"),
   (f.partialAtR ≤ 0, "partial_at_r must be > 0"),
   (f.maxTradesPerSession < 1, "max_trades_per_session must be >= 1"),
   (!(f.allowLong || f.allowShort), "at least one of allow_long/allow_short must be True"),
   (f.swingLookback < 1, "swing_lookback must be >= 1"),
   (f.atrPeriod < 1, "atr_period must be >= 1"),
   (f.atrStopMult < 0, "atr_stop_mult must be >= 0"),
   (f.breakevenAtR < 0, "breakeven_at_r must be >= 0"),
   (f.blockOpenMin < 0 || f.blockCloseMin < 0, "block_open_min/block_close_min must be >= 0")] :
    List (Bool × String)) ++
  f.killzones.map (fun kz => (badKillzone kz, killzoneText kz)) ++
  ([(f.maxConsecutiveLosses < 0, "max_consecutive_losses must be >= 0"),
   (f.sessionLenMin < 2, "session_len_min must be >= 2"),
   (f.expectedBarSec < 1, "expected_bar_sec must be >= 1"),
   (f.maxGapBars < 0, "max_gap_bars must be >= 0")] : List (Bool × String))

/-- `SvpConfig.__post_init__`: the first check that raises, with its text. -/
def SvpConfigFields.postInit (f : SvpConfigFields) : Except String Unit :=
  match f.checks.find? (·.1) with
  | some (_, text) => .error text
  | none => .ok ()

/-- An accepted configuration: `__post_init__` raised nothing. -/
structure SvpConfig extends SvpConfigFields where
  accepted : toSvpConfigFields.postInit = .ok ()

namespace SvpConfig

theorem check_passes (cfg : SvpConfig) {check : Bool × String} (h : check ∈ cfg.checks) : check.1 = false := by
  have hacc := cfg.accepted
  unfold SvpConfigFields.postInit at hacc
  split at hacc
  · cases hacc
  · next hnone =>
    rw [List.find?_eq_none] at hnone
    simpa using hnone check h

/-- The default configuration is accepted. -/
def default : SvpConfig := ⟨{}, by decide +kernel⟩

def rowSize (cfg : SvpConfig) : ℚ := cfg.ticksPerRow * cfg.tickSize

def buffer (cfg : SvpConfig) : ℚ := cfg.stopBufferTicks * cfg.tickSize

theorem sessionLen (cfg : SvpConfig) : 2 ≤ cfg.sessionLenMin := by
  have hcheck : (decide (cfg.sessionLenMin < 2), "session_len_min must be >= 2").1 = false :=
    cfg.check_passes (by simp [SvpConfigFields.checks])
  exact not_lt.mp (of_decide_eq_false hcheck)

/-- The configuration its session clock is built from. -/
def clock (cfg : SvpConfig) : OrbConfig where
  sessionOpenUtc := cfg.sessionOpenUtc
  sessionLenMin := cfg.sessionLenMin
  rangeMinutes := 1
  accepted := by
    have hlen : ¬ cfg.sessionLenMin ≤ 1 := by have := cfg.sessionLen; omega
    simp [OrbConfigFields.postInit, OrbConfigFields.checks, hlen]

end SvpConfig

end FreqTrading
