import FreqTrading.Macro.State

/-!
# The thematic and the geopolitical layer

`macro/thematic.py` and `macro/geopolitics.py`, with the default thresholds.
-/

namespace FreqTrading

namespace Macro

open Lib

/-! ### The thematic layer -/

/-- `_CONF_CAP` of the thematic layer. -/
def themeConfCap : ℚ := 6 / 10

structure ThemeResult where
  score : ℚ
  drivers : List Text
  confidence : ℚ
  deriving DecidableEq

/-- The values that are there. -/
def known (momentum : List (Text × Option ℚ)) : List ℚ := momentum.filterMap Prod.snd

/-- `assess_semis`. -/
def assessSemis (momentum : List (Text × Option ℚ)) : ThemeResult :=
  let vals := known momentum
  if vals = [] then ⟨0, [], 0⟩
  else
    let score := clamp (vals.sum / vals.length)
    { score := round3 score
      drivers := ["semis_mom=".toList ++ signed2 score ++ "(n=".toList ++ (toString vals.length).toList ++ [')']]
      confidence := round3 (min themeConfCap |score|) }

/-- `_W_US100` and `_W_US500`. -/
def themeWeight (sym : Text) : Option ℚ :=
  if sym = "US100".toList then some (4 / 10) else if sym = "US500".toList then some (2 / 10) else none

/-- What a theme does to an asset. -/
def themeMove (theme : ThemeResult) (sym : Text) : Option (ℚ × List Text) :=
  (themeWeight sym).map fun w => (w * theme.score, theme.drivers)

/-- `merge_thematic`. -/
def mergeThematic (s : State) (theme : Option ThemeResult) : State :=
  match theme with
  | none => s
  | some theme =>
    if theme.score = 0 then s
    else
      { s with
        assets := tiltAssets s.assets (themeMove theme)
        global := { s.global with confidence := max s.global.confidence theme.confidence } }

/-! ### Geopolitics -/

structure GeoResult where
  riskOff : Bool
  warSpike : Bool
  score : ℚ
  drivers : List Text
  confidence : ℚ
  deriving DecidableEq

/-- The defaults of `assess`. -/
def toneDropMin : ℚ := 2

def volZMin : ℚ := 15 / 10

def vixThreshold : ℚ := 25

/-- `assess`. -/
def assess (toneNow toneBase volZ : ℚ) (vix : Option ℚ) : GeoResult :=
  let toneDrop := toneBase - toneNow
  let toneSpike : Bool := toneDropMin ≤ toneDrop && volZMin ≤ volZ
  let proxyConfirm : Bool := vix.any fun v => vixThreshold ≤ v
  let warSpike := toneSpike && proxyConfirm
  let riskOff := toneSpike || proxyConfirm
  let score :=
    (if toneSpike then 6 / 10 * min 1 (toneDrop / (2 * toneDropMin)) else 0) +
      (if proxyConfirm then 2 / 10 + 2 / 10 * min 1 ((vix.getD 0 - vixThreshold) / 15) else 0)
  { riskOff, warSpike
    score := round3 (min 1 score)
    drivers := (if toneSpike then ["gdelt_tone_drop=".toList ++ (fixedPoint 1 toneDrop).toList] else []) ++
      (if proxyConfirm then ["vix=".toList ++ (fixedPoint 1 (vix.getD 0)).toList] else [])
    confidence := if warSpike then 9 / 10 else if riskOff then 6 / 10 else 0 }

/-- `_TILT_SIGN.get(sym)`. -/
def tiltSign (sym : Text) : Option ℚ :=
  if sym = "XAUUSD".toList ∨ sym = "XAGUSD".toList then some 1
  else if sym = "US100".toList ∨ sym = "US500".toList then some (-1)
  else none

/-- What a risk-off does to an asset. -/
def geoMove (geo : GeoResult) (sym : Text) : Option (ℚ × List Text) :=
  (tiltSign sym).map fun sign => (sign * geo.score, ["risk_off".toList])

/-- `cooldown_min`, in microseconds. -/
def cooldown : Int := 120 * 60000000

/-- `merge_geo`. -/
def mergeGeo (s : State) (geo : Option GeoResult) (now : DateTime) : Except PyError State :=
  match geo with
  | none => .ok s
  | some geo =>
    if ¬geo.riskOff then .ok s
    else do
      let blackout ←
        if geo.warSpike then do
          let until' ← now.add cooldown
          pure { active := true, until' := some (until'.isoText ['Z']), reason := some "war_spike".toList }
        else pure s.global.blackout
      return { s with
        assets := tiltAssets s.assets (geoMove geo)
        global :=
          { riskRegime := .riskOff
            riskScore := round3 (min s.global.riskScore (-geo.score))
            confidence := max s.global.confidence geo.confidence
            blackout } }

end Macro

end FreqTrading
