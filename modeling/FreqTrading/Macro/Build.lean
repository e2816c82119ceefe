import FreqTrading.Macro.Sentiment
import FreqTrading.Macro.Layers

/-!
# Building the macro state

`macro/build.py`. `Args` are the arguments of `build_state` that its callers set; the others have the values of their
defaults.
-/

namespace FreqTrading

namespace Macro

open Lib Macroguard

structure Args where
  symbols : List Text := defaultSymbols
  ttlSec : Int := 300
  preMin : Int := defaultPreMin
  postMin : Int := defaultPostMin

variable (halving : ℚ → ℚ)

/-- The neutral state with the scores of the calendar. -/
def scoredState (args : Args) (events : List RawEvent) (now : DateTime) : State :=
  let scored := score halving events now args.symbols
  let s := neutralState args.symbols args.ttlSec (now.isoText ['Z'])
  { s with
    assets := scored.assets
    global := { s.global with
      riskRegime := scored.riskRegime, riskScore := scored.riskScore, confidence := scored.confidence } }

/-- What `build_state` does after the thematic layer: blackout, events and geopolitics. -/
def finish (args : Args) (events : List RawEvent) (now : DateTime) (geo : Option GeoResult) (s : State) :
    Except PyError State := do
  let bo ← activeBlackout events now args.preMin args.postMin defaultImpacts
  let upcoming ← upcomingEvents events now args.preMin args.postMin
  mergeGeo { s with global := { s.global with blackout := bo.getD s.global.blackout }, events := upcoming } geo now

/-- `build_state`. -/
def buildState (args : Args) (events : List RawEvent) (now : DateTime) (geo : Option GeoResult)
    (agg : Option (List (Text × Sentiment))) (theme : Option ThemeResult) : Except PyError State :=
  finish args events now geo (mergeThematic (mergeSentiment (scoredState halving args events now) agg) theme)

/-- The state as the guard parses it. -/
def builtState (args : Args) (events : List RawEvent) (now : DateTime) (geo : Option GeoResult)
    (agg : Option (List (Text × Sentiment))) (theme : Option ThemeResult) : Except PyError MacroState := do
  fromDict (← buildState halving args events now geo agg theme).toPy

end Macro

end FreqTrading
