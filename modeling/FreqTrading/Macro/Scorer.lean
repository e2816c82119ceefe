import FreqTrading.Macro.Events

/-!
# The calendar scorer

`macro/scorer.py` with the table of `macro/sensitivity.py`. `halving` is the function `0.5 ** x`, of which nothing is
assumed.
-/

namespace FreqTrading

namespace Macro

open Lib

/-- `IMPACT_WEIGHT`. -/
def impactWeight : Impact → ℚ
  | .high => 1
  | .medium => 4 / 10
  | .low => 1 / 10
  | .holiday | .unknown => 0

/-- The coefficients of an event kind for the four assets, in the order of the table. -/
def coefficients (xauusd xagusd us100 us500 : ℚ) : List (Text × ℚ) :=
  [("XAUUSD".toList, xauusd), ("XAGUSD".toList, xagusd), ("US100".toList, us100), ("US500".toList, us500)]

/-- `SENSITIVITY.get(kind)`. -/
def sensitivity : Kind → Option (List (Text × ℚ))
  | .cpi => some (coefficients (-1) (-1) (-8 / 10) (-8 / 10))
  | .ppi => some (coefficients (-7 / 10) (-7 / 10) (-6 / 10) (-6 / 10))
  | .nfp => some (coefficients (-6 / 10) (-5 / 10) (7 / 10) (7 / 10))
  | .fomc => some (coefficients (-1) (-9 / 10) (-9 / 10) (-9 / 10))
  | .gdp => some (coefficients (-3 / 10) (-3 / 10) (6 / 10) (6 / 10))
  | .jobs => some (coefficients (4 / 10) (3 / 10) (-5 / 10) (-5 / 10))
  | .other => none

/-- The least divisor of a surprise. -/
def minForecast : ℚ := 1 / 1000000000

/-- `surprise`: the difference to the forecast in units of the forecast, clamped to a finite number. -/
def surprise (ev : RawEvent) : Option ℚ :=
  match parseValue ev.actual, parseValue ev.forecast with
  | some a, some f => some ((a.sub f).div (f.abs.max (.fin minForecast))).clamp
  | _, _ => none

/-- What the loop over the events keeps: per symbol the sum and the tags, and the confidence. -/
structure Tally where
  acc : List (Text × ℚ)
  drivers : List (Text × List Text)
  confidence : ℚ
  deriving DecidableEq

/-- `score_lookback_h` and `half_life_h` of `build_state`. -/
def scoreLookbackH : ℚ := 36

def scoreHalfLifeH : ℚ := 12

variable (halving : ℚ → ℚ)

/-- The hours from an event to `now`. -/
def ageH (now ts : DateTime) : ℚ := now.secondsSince ts / 3600

/-- The members of the table under one key. -/
def at' {α : Type} (members : List (Text × α)) (key : Text) (f : α → α) : List (Text × α) :=
  members.map fun m => if m.1 = key then (m.1, f m.2) else m

/-- One turn of the loop of `score`. -/
def Tally.add (now : DateTime) (t : Tally) (ev : RawEvent) : Tally :=
  let age := ageH now ev.ts
  if ¬(ev.impact = .high ∨ ev.impact = .medium) ∨ age < 0 ∨ scoreLookbackH < age then t
  else
    match surprise ev, sensitivity ev.kind with
    | some sv, some coeffs =>
      let weight := impactWeight ev.impact * halving (age / scoreHalfLifeH)
      let tag := ev.kind.text ++ ':' :: (if 0 < sv then "hot".toList else "cool".toList)
      { acc := coeffs.foldl (fun acc c => at' acc c.1 (· + weight * c.2 * sv)) t.acc
        drivers := coeffs.foldl (fun drivers c => at' drivers c.1 (addTag · tag)) t.drivers
        confidence := max t.confidence weight }
    | _, _ => t

/-- What `score` returns. -/
structure Scored where
  assets : List (Text × AssetState)
  riskRegime : Regime
  riskScore : ℚ
  confidence : ℚ
  deriving DecidableEq

/-- The mean score of those of the symbols that are there. -/
def meanScore (assets : List (Text × AssetState)) (symbols : List Text) : ℚ :=
  let scores := symbols.filterMap fun sym => (assets.lookup sym).map AssetState.score
  if scores = [] then 0 else scores.sum / scores.length

/-- `score`. -/
def score (events : List RawEvent) (now : DateTime) (symbols : List Text) : Scored :=
  let keys := symbols.eraseDups
  let t := events.foldl (Tally.add halving now)
    { acc := keys.map fun sym => (sym, 0), drivers := keys.map fun sym => (sym, []), confidence := 0 }
  let assets := keys.map fun sym =>
    let sc := round3 (clamp ((t.acc.lookup sym).getD 0))
    (sym, { bias := biasOf sc, score := sc, drivers := (t.drivers.lookup sym).getD [] : AssetState })
  let risk := clamp ((meanScore assets ["US100".toList, "US500".toList] -
    meanScore assets ["XAUUSD".toList, "XAGUSD".toList]) / 2)
  { assets
    riskRegime := if 3 / 10 < risk then .riskOn else if risk < -3 / 10 then .riskOff else .neutral
    riskScore := round3 risk
    confidence := round3 (max 0 (min 1 t.confidence)) }

end Macro

end FreqTrading
