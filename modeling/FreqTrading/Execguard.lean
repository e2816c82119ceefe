import FreqTrading.Lib.Rounding
import FreqTrading.Models

/-!
# Execution guards

`orb/execguard.py`, past the parsing of its arguments: the spread gate, the killzone gate and the
comparison of a fill with the signal's levels.
-/

namespace FreqTrading

open Lib

/-! ### Gates -/

structure SpreadGate where
  maxSpread : ℚ
  max_pos : 0 < maxSpread
  deriving DecidableEq

/-- The spread is at most the cap, rounded to strip float noise. -/
def SpreadGate.allows (g : SpreadGate) (bid ask : ℚ) : Bool := roundPlaces 10 (ask - bid) ≤ g.maxSpread

/-- Windows of minutes of the day; one that starts after its end wraps past midnight. -/
structure SessionGate where
  windows : List (Int × Int)
  deriving DecidableEq, Repr

def minuteOfDay (ts : Int) : Int := ts / minuteMicros % 1440

def SessionGate.allows (g : SessionGate) (ts : Int) : Bool :=
  g.windows.isEmpty || g.windows.any fun (start, stop) =>
    if start < stop then start ≤ minuteOfDay ts && minuteOfDay ts < stop
    else start ≤ minuteOfDay ts || minuteOfDay ts < stop

/-! ### Fill assessment -/

structure FillAssessment where
  slippage : ℚ
  riskInflationR : Option ℚ
  rrPlanned : Option ℚ
  rrAchieved : Option ℚ
  breach : Bool
  degraded : Bool
  deriving DecidableEq, Repr

/-- A level that is set: not `None` and not 0. -/
def setLevel (level : Option ℚ) : Option ℚ := level.filter (· ≠ 0)

def assessFill (requested filled : ℚ) (stop tp maxSlippage rrFloor : Option ℚ) : FillAssessment :=
  let slippage := roundPlaces 10 |filled - requested|
  let planDist := (setLevel stop).elim 0 fun s => |requested - s|
  let fillDist := (setLevel stop).elim 0 fun s => |filled - s|
  let rrPlanned := if 0 < planDist then (setLevel tp).map fun t => |t - requested| / planDist else none
  let rrAchieved :=
    if 0 < planDist ∧ 0 < fillDist then (setLevel tp).map fun t => |t - filled| / fillDist else none
  { slippage := slippage
    riskInflationR := if 0 < planDist then some (slippage / planDist) else none
    rrPlanned := rrPlanned
    rrAchieved := rrAchieved
    breach := maxSlippage.any (· < slippage)
    degraded := rrFloor.any fun floor => rrAchieved.any (· < floor) }

end FreqTrading
