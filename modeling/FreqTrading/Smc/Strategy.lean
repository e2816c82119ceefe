import FreqTrading.Timeframes
import FreqTrading.Smc.Config
import FreqTrading.Smc.OrderBlocks
import FreqTrading.Svp.Profile
import FreqTrading.Engine.Basic

/-!
# The SMC engine

`SmcEngine` of `orb/smc/strategy.py`, with an explicit state as in `OrbEngine`. M1 candles feed the day's volume
profile and three aggregators; a completed trigger bar (M15 in the source's names) is a decision bar. The
transition callbacks, the log and `snapshot` are left out.
-/

namespace FreqTrading

structure SmcEngine where
  aggM15 : TimeframeAggregator
  aggH4 : TimeframeAggregator
  aggD1 : TimeframeAggregator
  structM15 : StructureTracker
  structH4 : StructureTracker
  structD1 : StructureTracker
  obH4 : OrderBlockTracker
  obD1 : OrderBlockTracker
  atr : WilderATR
  vsma : VolumeSMA
  dayProfile : VolumeProfile
  prior : Option PriorProfile := none
  /-- The last completed trigger bars, oldest first. -/
  m15Hist : List Candle := []
  priorH4High : Option ℚ := none
  priorH4Low : Option ℚ := none
  state : State := .idle
  position : Option PositionState := none
  lastTs : Option Int := none
  tradedToday : Nat := 0
  curDate : Option Int := none

/-- What `_resolve_poi` finds. -/
inductive Poi
  | dayPoc (price : ℚ)
  | priorPoc (price : ℚ)
  | d1Block (ob : OrderBlock)
  | h4Block (ob : OrderBlock)
  deriving DecidableEq, Repr

/-- `poi_desc`. -/
def Poi.desc (dp : Nat) : Poi → String
  | .dayPoc price => "poc@" ++ Lib.fixedPoint dp price
  | .priorPoc price => "prior_poc@" ++ Lib.fixedPoint dp price
  | .d1Block _ => "d1_ob"
  | .h4Block _ => "h4_ob"

def Poi.block : Poi → Option OrderBlock
  | .d1Block ob | .h4Block ob => some ob
  | _ => none

/-- `direction.value.lower()`. -/
def Direction.text : Direction → String
  | .long => "long"
  | .short => "short"

namespace SmcEngine

variable (cfg : SmcConfig)

/-! ### Construction -/

def newOb : OrderBlockTracker where
  dispBodyFrac := cfg.dispBodyFrac
  dispAtrMult := cfg.dispAtrMult
  confirmBars := cfg.obConfirmBars
  maxBlocks := cfg.maxBlocks
  expiryBars := cfg.obExpiryBars
  atr := { period := cfg.atrPeriod }

def newProfile : VolumeProfile where
  rowSize := cfg.rowSize
  minBars := cfg.minProfileBars
  tpoFallback := true

def newStructure : StructureTracker where
  lookback := cfg.swingLookback
  maxSwings := cfg.maxSwings

/-- `__init__`: the aggregators reject a timeframe that does not divide the day. -/
def create : Except String SmcEngine := do
  let aggM15 ← TimeframeAggregator.create cfg.triggerTfMin
  let aggH4 ← TimeframeAggregator.create cfg.htfMin
  let aggD1 ← TimeframeAggregator.create cfg.d1Min
  return {
    aggM15, aggH4, aggD1
    structM15 := newStructure cfg
    structH4 := newStructure cfg
    structD1 := newStructure cfg
    obH4 := newOb cfg
    obD1 := newOb cfg
    atr := { period := cfg.atrPeriod }
    vsma := { period := cfg.volSmaPeriod }
    dayProfile := newProfile cfg }

/-- `force_flat`: drop a position the server has closed. -/
def forceFlat (e : SmcEngine) (ts : Int) : Option Signal × SmcEngine :=
  match e.position with
  | none => (none, e)
  | some pos =>
    (some {
      ts := ts, kind := .exit, direction := pos.direction, price := pos.stop, stateFrom := .breakout
      stateTo := .rangeDefined, reason := "broker_closed", stop := some pos.stop, barsHeld := some pos.barsHeld },
    { e with position := none, state := .rangeDefined })

/-! ### Feeding a candle -/

/-- The prior profile of the day that is over. -/
def snapshotPrior (e : SmcEngine) (prevDate : Int) : Option PriorProfile :=
  e.dayProfile.levels.map fun lv => ⟨prevDate, lv.poc, lv.vah, lv.val, lv.shape⟩

/-- The rollover to another UTC day. -/
def rollDay (e : SmcEngine) (c : Candle) : SmcEngine :=
  if some (date c.ts) = e.curDate then e
  else
    { e with
      prior := match e.curDate with
        | some prevDate => if e.dayProfile.ready then e.snapshotPrior prevDate else e.prior
        | none => e.prior
      dayProfile := newProfile cfg
      tradedToday := 0
      curDate := some (date c.ts) }

def feedProfile (e : SmcEngine) (c : Candle) : SmcEngine := { e with dayProfile := e.dayProfile.update c }

def feedD1 (e : SmcEngine) (c : Candle) : SmcEngine :=
  let (done, agg) := e.aggD1.update c
  match done with
  | none => { e with aggD1 := agg }
  | some d1c =>
    let (event, struct) := e.structD1.update d1c
    { e with aggD1 := agg, structD1 := struct, obD1 := e.obD1.update d1c event }

def feedH4 (e : SmcEngine) (c : Candle) : SmcEngine :=
  let (done, agg) := e.aggH4.update c
  match done with
  | none => { e with aggH4 := agg }
  | some h4c =>
    let (event, struct) := e.structH4.update h4c
    { e with
      aggH4 := agg, structH4 := struct, obH4 := e.obH4.update h4c event
      priorH4High := some h4c.high, priorH4Low := some h4c.low }

/-- Everything before the trigger timeframe. -/
def feed (e : SmcEngine) (c : Candle) : SmcEngine :=
  (((({ e with lastTs := some c.ts }).rollDay cfg c).feedProfile c).feedD1 c).feedH4 c

/-- The trigger timeframe: a completed bar and its structure event. -/
def feedM15 (e : SmcEngine) (c : Candle) : Option (Candle × Option StructureEvent) × SmcEngine :=
  let (done, agg) := e.aggM15.update c
  match done with
  | none => (none, { e with aggM15 := agg })
  | some m15c =>
    let (event, struct) := e.structM15.update m15c
    (some (m15c, event), { e with
      aggM15 := agg, structM15 := struct
      atr := e.atr.update m15c.high m15c.low m15c.close
      vsma := if 0 < m15c.volume then e.vsma.update m15c.volume else e.vsma })

/-! ### The checks of a decision bar -/

/-- The H4 trend, unless the D1 trend is the opposite one. -/
def htfBias (e : SmcEngine) : Option Direction :=
  match e.structH4.trend with
  | none => none
  | some base =>
    match e.structD1.trend with
    | none => some base
    | some d1 => if d1 = base then some base else none

/-- The level swept: the last M15 swing, or else the prior H4 extreme. -/
def checkSweep (e : SmcEngine) (m15c : Candle) (bias : Direction) : Option ℚ :=
  match bias with
  | .long =>
    (e.structM15.sweptLow m15c).or (e.priorH4Low.filter fun plo => m15c.low < plo && plo < m15c.close)
  | .short =>
    (e.structM15.sweptHigh m15c).or (e.priorH4High.filter fun phi => phi < m15c.high && m15c.close < phi)

def checkDisplacement (e : SmcEngine) (m15c : Candle) : Bool :=
  let rng := m15c.high - m15c.low
  if rng ≤ 0 then false
  else if |m15c.close - m15c.open'| / rng < cfg.dispBodyFrac then false
  else
    match e.atr.value with
    | none => false
    | some atr =>
      if rng < cfg.dispAtrMult * atr then false
      else
        -- the volume gate holds only with volume and a ready, nonzero average
        match e.vsma.value with
        | none => true
        | some avg => !(0 < m15c.volume && avg ≠ 0 && m15c.volume < cfg.volMult * avg)

def checkCisd (e : SmcEngine) (m15c : Candle) (bias : Direction) : Bool :=
  match e.m15Hist.reverse with
  | prev :: prev2 :: _ =>
    match bias with
    | .long => prev.close < prev.open' && prev.open' < m15c.close && prev2.close ≤ prev.open'
    | .short => prev.open' < prev.close && m15c.close < prev.open' && prev.open' ≤ prev2.close
  | _ => false

def checkAlignment (e : SmcEngine) (event : Option StructureEvent) (bias : Direction) : Bool :=
  e.structM15.trend = some bias || event.any fun ev => ev.kind = .choch && ev.direction = bias

def dayEquilibrium (e : SmcEngine) : Option ℚ := e.dayProfile.levels.map fun lv => (lv.vah + lv.val) / 2

/-- Discount for a long, premium for a short. -/
def checkPremiumDiscount (e : SmcEngine) (m15c : Candle) (bias : Direction) : Bool :=
  match e.dayEquilibrium.or e.dayProfile.poc with
  | none => true
  | some eq =>
    match bias with
    | .long => m15c.close ≤ eq
    | .short => eq ≤ m15c.close

/-- The names of the checks that fired, without the point of interest. -/
def fired (e : SmcEngine) (m15c : Candle) (event : Option StructureEvent) (bias : Direction) : List String :=
  [((e.checkSweep m15c bias).isSome, "sweep"), (e.checkDisplacement cfg m15c, "disp"), (e.checkCisd m15c bias, "cisd"),
    (e.checkAlignment event bias, "align"), (e.checkPremiumDiscount m15c bias, "pd")].filterMap fun (fires, name) =>
      if fires then some name else none

/-- The close is at the POC of the day, or else of the prior day. -/
def pocPoi (e : SmcEngine) (m15c : Candle) : Option Poi :=
  ((e.dayProfile.poc.filter fun poc => |m15c.close - poc| ≤ cfg.pocTol).map Poi.dayPoc).or
    ((e.prior.filter fun prior => |m15c.close - prior.poc| ≤ cfg.pocTol).map fun prior => .priorPoc prior.poc)

/-- `_resolve_poi`: a POC, or a block, D1 before H4, which it consumes. -/
def resolvePoi (e : SmcEngine) (m15c : Candle) (bias : Direction) : Option (Poi × SmcEngine) :=
  match e.pocPoi cfg m15c with
  | some poi => some (poi, e)
  | none =>
    match e.obD1.poiAt m15c.low m15c.high bias with
    | some (ob, obD1) => some (.d1Block ob, { e with obD1 := obD1 })
    | none =>
      match e.obH4.poiAt m15c.low m15c.high bias with
      | some (ob, obH4) => some (.h4Block ob, { e with obH4 := obH4 })
      | none => none

/-! ### Entry -/

/-- The stop beyond the bar, the block and the swept level. -/
def structuralStop (m15c : Candle) (direction : Direction) (ob : Option OrderBlock) (swept : Option ℚ) : ℚ :=
  match direction with
  | .long =>
    let floor := match ob with
      | some ob => min m15c.low ob.bottom
      | none => m15c.low
    let floor := match swept with
      | some level => min floor level
      | none => floor
    floor - cfg.stopBuffer
  | .short =>
    let ceil := match ob with
      | some ob => max m15c.high ob.top
      | none => m15c.high
    let ceil := match swept with
      | some level => max ceil level
      | none => ceil
    ceil + cfg.stopBuffer

def entryReason (direction : Direction) (fired : List String) (poi : Poi) : String :=
  "smc_" ++ direction.text ++ " conf=" ++ "+".intercalate fired ++ " " ++ toString fired.length ++ "/6 poi=" ++
    poi.desc cfg.instrumentDp

def openedPosition (e : SmcEngine) (m15c : Candle) (direction : Direction) (stop : ℚ) : PositionState where
  direction := direction
  entryTs := m15c.ts
  entryPrice := m15c.close
  stop := stop
  atrAtEntry := e.atr.value.getD 0

def entrySignal (e : SmcEngine) (m15c : Candle) (direction : Direction) (stop : ℚ) (reason : String) : Signal where
  ts := m15c.ts
  kind := .entry
  direction := direction
  price := m15c.close
  stateFrom := .rangeDefined
  stateTo := .breakout
  reason := reason
  stop := some stop
  atr := some (e.atr.value.getD 0)
  barsHeld := some 0

def openPosition (e : SmcEngine) (m15c : Candle) (direction : Direction) (stop : ℚ) : SmcEngine :=
  { e with
    position := some (e.openedPosition m15c direction stop), tradedToday := e.tradedToday + 1, state := .breakout }

/-- `_enter`: a stop that is too wide is no entry. -/
def enter (e : SmcEngine) (m15c : Candle) (direction : Direction) (fired : List String) (poi : Poi) (swept : Option ℚ) :
    Option Signal × SmcEngine :=
  let stop := structuralStop cfg m15c direction poi.block swept
  let stopDist := |m15c.close - stop|
  if stopDist ≤ 0 ∨ cfg.stopMaxDist < stopDist then (none, e)
  else
    (some (e.entrySignal m15c direction stop (entryReason cfg direction fired poi)), e.openPosition m15c direction stop)

def confluence (e : SmcEngine) (m15c : Candle) (event : Option StructureEvent) (bias : Direction) :
    Option Signal × SmcEngine :=
  let fired := e.fired cfg m15c event bias
  if (fired.length : Int) + 1 < cfg.minConfluences then (none, e)
  else
    match e.resolvePoi cfg m15c bias with
    | none => (none, e)
    | some (poi, resolved) =>
      let fired := fired ++ ["poi"]
      if (fired.length : Int) < cfg.minConfluences then (none, resolved)
      else resolved.enter cfg m15c bias fired poi (e.checkSweep m15c bias)

def onDecision (e : SmcEngine) (m15c : Candle) (event : Option StructureEvent) : Option Signal × SmcEngine :=
  if e.position.isSome then (none, e)
  else
    match e.htfBias with
    | none => (none, { e with state := .idle })
    | some bias =>
      let e := { e with state := .rangeDefined }
      if cfg.maxTradesPerDay ≤ e.tradedToday then (none, e) else e.confluence cfg m15c event bias

/-! ### `on_candle` -/

/-- A completed trigger bar is decided on, and only then remembered. -/
def decide (e : SmcEngine) (c : Candle) : Option Signal × SmcEngine :=
  match e.feedM15 c with
  | (none, e) => (none, e)
  | (some (m15c, event), e) =>
    let (sig, e) := e.onDecision cfg m15c event
    (sig, { e with m15Hist := pushBounded 3 e.m15Hist m15c })

def countBar (e : SmcEngine) : SmcEngine :=
  { e with position := e.position.map fun pos => { pos with barsHeld := pos.barsHeld + 1 } }

/-- `c.ts <= self._last_ts`. -/
def isLate (e : SmcEngine) (ts : Int) : Bool := e.lastTs.any (ts ≤ ·)

/-- An accepted candle. -/
def accept (e : SmcEngine) (c : Candle) : Option Signal × SmcEngine :=
  let (sig, e) := (e.feed cfg c).decide cfg c
  (sig, e.countBar)

def onCandle (e : SmcEngine) (raw : RawCandle) : Except EngineError (Option Signal × SmcEngine) := do
  let c ← (validate raw).mapError .candle
  if e.isLate c.ts then
    if cfg.strictMonotonic then throw (.outOfOrder c.ts (e.lastTs.getD 0))
    return (none, e)
  return e.accept cfg c

end SmcEngine

end FreqTrading
