import Mathlib.Data.Rat.Defs
import Mathlib.Algebra.Order.Ring.Rat

/-!
# Candles, configuration and signals

The data of `orb/models.py`. A price is an exact rational: the finite floats are rationals, and the
engine only adds, multiplies, divides and compares them. A time stamp counts microseconds from the
epoch (UTC), as `datetime` does.

A raw candle is what a feed hands over; `validate` turns it into a `Candle`, whose fields are finite
and whose OHLC conditions are fields of the structure, or names the check that failed. `OrbConfig` is
`OrbConfigFields` with the proof that `__post_init__` raised nothing; the checks of the three string
parameters (`reentry_on`, `on_gap`, `rearm_range`) are their types here.
-/

namespace FreqTrading

def minuteMicros : Int := 60000000

def dayMicros : Int := 86400000000

/-- `ts.date()`, as a day number. -/
def date (ts : Int) : Int := ts / dayMicros

/-! ### Enumerations -/

inductive State
  | idle | rangeDefined | breakout | exit
  deriving DecidableEq, Repr

inductive Direction
  | long | short
  deriving DecidableEq, Repr

inductive ExitReason
  | takeProfit | trailStop | brokerClosed | rangeReentry | sessionEnd | gapInvalidate
  deriving DecidableEq, Repr

/-- `reason.value.lower()`. -/
def ExitReason.text : ExitReason → String
  | .takeProfit => "take_profit"
  | .trailStop => "trail_stop"
  | .brokerClosed => "broker_closed"
  | .rangeReentry => "range_reentry"
  | .sessionEnd => "session_end"
  | .gapInvalidate => "gap_invalidate"

inductive SignalKind
  | entry | exit | reject
  deriving DecidableEq, Repr

/-! ### Candles -/

/-- A candle as a feed delivers it. A price or volume that is NaN, infinite or no number is `none`. -/
structure RawCandle where
  ts : Int
  tzAware : Bool
  open' : Option ℚ
  high : Option ℚ
  low : Option ℚ
  close : Option ℚ
  volume : Option ℚ
  deriving DecidableEq, Repr

/-- A candle that passed `validate`. -/
structure Candle where
  ts : Int
  open' : ℚ
  high : ℚ
  low : ℚ
  close : ℚ
  volume : ℚ
  volume_nonneg : 0 ≤ volume
  low_le_high : low ≤ high
  body_le_high : max open' close ≤ high
  low_le_body : low ≤ min open' close
  deriving DecidableEq

/-- The check of `validate` that raised `CandleError`. -/
inductive CandleFault
  | naiveTimestamp | nonFiniteOhlc | nonFiniteVolume | negativeVolume | highBelowLow
  | highBelowBody | lowAboveBody
  deriving DecidableEq, Repr

def validate (c : RawCandle) : Except CandleFault Candle :=
  if c.tzAware = false then .error .naiveTimestamp else
  match c.open', c.high, c.low, c.close with
  | some o, some h, some l, some cl =>
    match c.volume with
    | none => .error .nonFiniteVolume
    | some v =>
      if hv : v < 0 then .error .negativeVolume
      else if hhl : h < l then .error .highBelowLow
      else if hb : h < max o cl then .error .highBelowBody
      else if lb : min o cl < l then .error .lowAboveBody
      else .ok ⟨c.ts, o, h, l, cl, v, not_lt.mp hv, not_lt.mp hhl, not_lt.mp hb, not_lt.mp lb⟩
  | _, _, _, _ => .error .nonFiniteOhlc

theorem validate_spec {raw : RawCandle} {c : Candle} (h : validate raw = .ok c) :
    c.ts = raw.ts ∧ raw.close = some c.close := by
  unfold validate at h
  split_ifs at h
  split at h
  · next hclose =>
    split at h
    · cases h
    · split_ifs at h
      cases h
      exact ⟨rfl, hclose⟩
  · cases h

theorem Candle.low_le_close (c : Candle) : c.low ≤ c.close := c.low_le_body.trans (min_le_right _ _)

theorem Candle.close_le_high (c : Candle) : c.close ≤ c.high := (le_max_right _ _).trans c.body_le_high

theorem no_volume : (0 : ℚ) ≤ 0 := le_rfl

/-- A bar from `o` to `c` that reaches up to `h` and down to `l`. -/
def barOf (ts : Int) (o h l c : ℚ) : Candle where
  ts := ts
  open' := o
  high := max h (max o c)
  low := min l (min o c)
  close := c
  volume := 0
  volume_nonneg := no_volume
  low_le_high := ((min_le_right _ _).trans min_le_max).trans (le_max_right _ _)
  body_le_high := le_max_right _ _
  low_le_body := min_le_right _ _

/-! ### Configuration -/

/-- A time of day (`datetime.time`), in microseconds after midnight. -/
structure TimeOfDay where
  micros : Int
  nonneg : 0 ≤ micros
  lt_day : micros < dayMicros
  deriving DecidableEq

def TimeOfDay.midnight : TimeOfDay := ⟨0, by decide, by decide⟩

/-- `reentry_on`. -/
inductive PriceMode
  | close | intrabar
  deriving DecidableEq, Repr

/-- `on_gap`. -/
inductive GapMode
  | hold | reset
  deriving DecidableEq, Repr

/-- `rearm_range`. -/
inductive RearmMode
  | rebuild | keep
  deriving DecidableEq, Repr

structure OrbConfigFields where
  sessionOpenUtc : TimeOfDay := .midnight
  sessionLenMin : Int := 480
  rangeMinutes : Int := 5
  useRoc : Bool := true
  rocPeriod : Int := 5
  rocMin : ℚ := 5 / 100
  useRvol : Bool := false
  rvolPeriod : Int := 20
  rvolMin : ℚ := 3 / 2
  atrPeriod : Int := 14
  atrMult : ℚ := 3 / 2
  stopMaxDist : Option ℚ := none
  stopMinDist : Option ℚ := none
  reentryOn : PriceMode := .close
  qty : ℚ := 0
  tpRrr : Option ℚ := none
  tpCloseFrac : ℚ := 1
  allowLong : Bool := true
  allowShort : Bool := true
  oneTradePerSession : Bool := true
  rearmAfterExit : Bool := false
  rearmRange : RearmMode := .rebuild
  expectedBarSec : Int := 60
  maxGapBars : Int := 3
  onGap : GapMode := .hold
  strictMonotonic : Bool := true
  deriving DecidableEq

/-- The checks of `OrbConfig.__post_init__` in their order: whether the check raises, and the text of its
`ConfigError`. -/
def OrbConfigFields.checks (f : OrbConfigFields) : List (Bool × String) :=
  [(f.rangeMinutes < 1, "range_minutes must be >= 1"),
   (f.rocPeriod < 1, "roc_period must be >= 1"),
   (f.rvolPeriod < 1, "rvol_period must be >= 1"),
   (f.atrPeriod < 1, "atr_period must be >= 1"),
   (f.atrMult ≤ 0, "atr_mult must be > 0"),
   (f.stopMaxDist.any (· ≤ 0), "stop_max_dist must be > 0"),
   (f.stopMinDist.any (· ≤ 0), "stop_min_dist must be > 0"),
   (f.stopMinDist.any fun lo => f.stopMaxDist.any (· < lo), "stop_min_dist must be <= stop_max_dist"),
   (f.qty < 0, "qty must be >= 0"),
   (f.tpRrr.any (· ≤ 0), "tp_rrr must be > 0"),
   (!(0 < f.tpCloseFrac && f.tpCloseFrac ≤ 1), "tp_close_frac must be in (0, 1]"),
   (!(f.allowLong || f.allowShort), "at least one of allow_long/allow_short must be True"),
   (f.sessionLenMin ≤ f.rangeMinutes, "session_len_min must exceed range_minutes"),
   (f.expectedBarSec < 1, "expected_bar_sec must be >= 1"),
   (f.maxGapBars < 0, "max_gap_bars must be >= 0")]

/-- `OrbConfig.__post_init__`: the first check that raises, with its text. -/
def OrbConfigFields.postInit (f : OrbConfigFields) : Except String Unit :=
  match f.checks.find? (·.1) with
  | some (_, text) => .error text
  | none => .ok ()

/-- An accepted configuration: `__post_init__` raised nothing. -/
structure OrbConfig extends OrbConfigFields where
  accepted : toOrbConfigFields.postInit = .ok ()

theorem OrbConfig.check_passes (cfg : OrbConfig) {check : Bool × String}
    (h : check ∈ cfg.checks) : check.1 = false := by
  have hacc := cfg.accepted
  unfold OrbConfigFields.postInit at hacc
  split at hacc
  · cases hacc
  · next hnone =>
    rw [List.find?_eq_none] at hnone
    simpa using hnone check h

/-- The default configuration is accepted. -/
def OrbConfig.default : OrbConfig := ⟨{}, by decide +kernel⟩

/-! ### Output records -/

/-- `Signal`. The `direction` of every signal the engines build is set. -/
structure Signal where
  ts : Int
  kind : SignalKind
  direction : Direction
  price : ℚ
  stateFrom : State
  stateTo : State
  reason : String
  rangeHigh : Option ℚ := none
  rangeLow : Option ℚ := none
  roc : Option ℚ := none
  rvol : Option ℚ := none
  atr : Option ℚ := none
  stop : Option ℚ := none
  tp : Option ℚ := none
  qty : Option ℚ := none
  barsHeld : Option Nat := none
  deriving DecidableEq, Repr

/-- The simulated position. -/
structure PositionState where
  direction : Direction
  entryTs : Int
  entryPrice : ℚ
  stop : ℚ
  atrAtEntry : ℚ
  tp : Option ℚ := none
  barsHeld : Nat := 0
  mfe : ℚ := 0
  mae : ℚ := 0
  deriving DecidableEq, Repr

end FreqTrading
