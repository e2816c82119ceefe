import FreqTrading.Svp.Config
import FreqTrading.Engine.Basic

/-!
# The SVP engine

`SvpEngine` of `orb/svp/strategy.py` and `SwingStructure` of `orb/svp/structure.py`, with an explicit state as
in `OrbEngine`. A detected setup is a `Setup`; `enter` is the one place where it becomes a position. The
transition callbacks, the log and `snapshot` are left out.
-/

namespace FreqTrading

/-! ### Swings -/

structure SwingStructure where
  lookback : Int := 2
  highs : List ℚ := []
  lows : List ℚ := []
  /-- The last two confirmed swings, oldest first. -/
  swingHighs : List ℚ := []
  swingLows : List ℚ := []
  deriving DecidableEq, Repr

namespace SwingStructure

/-- The centre of a full window, if it beats every other item. -/
def centre (window : List ℚ) (k : Nat) (beats : ℚ → ℚ → Bool) : Option ℚ :=
  window[k]?.filter fun x => (window.eraseIdx k).all (beats x)

def update (s : SwingStructure) (high low : ℚ) : SwingStructure :=
  let k := s.lookback.toNat
  let highs := pushBounded (2 * k + 1) s.highs high
  let lows := pushBounded (2 * k + 1) s.lows low
  let s := { s with highs := highs, lows := lows }
  if highs.length < 2 * k + 1 then s
  else
    { s with
      swingHighs := match centre highs k fun x y => y < x with
        | some x => pushBounded 2 s.swingHighs x
        | none => s.swingHighs
      swingLows := match centre lows k fun x y => x < y with
        | some x => pushBounded 2 s.swingLows x
        | none => s.swingLows }

/-- Higher highs and higher lows, or lower highs and lower lows. -/
def bias (s : SwingStructure) : Option Direction :=
  match s.swingHighs, s.swingLows with
  | [h₁, h₂], [l₁, l₂] =>
    if h₁ < h₂ ∧ l₁ < l₂ then some .long else if h₂ < h₁ ∧ l₂ < l₁ then some .short else none
  | _, _ => none

end SwingStructure

/-! ### State -/

structure SvpEngine where
  developing : VolumeProfile
  vsma : VolumeSMA
  atr : WilderATR
  swing : SwingStructure
  sessionOpenPx : Option ℚ := none
  state : State := .idle
  pos : Option PositionState := none
  prior : Option PriorProfile := none
  traded : Nat := 0
  prevClose : Option ℚ := none
  lastTs : Option Int := none
  sessionId : Option Int := none

/-- A detected entry: its direction, its structural stop and its reason. -/
structure Setup where
  direction : Direction
  stop : ℚ
  reason : String
  deriving DecidableEq, Repr

namespace SvpEngine

variable (cfg : SvpConfig)

def newProfile : VolumeProfile where
  rowSize := cfg.rowSize
  valueAreaPct := cfg.valueAreaPct
  hvnFrac := cfg.hvnFrac
  lvnFrac := cfg.lvnFrac
  minBars := cfg.minSessionBars
  maxRowsPerBar := cfg.maxRowsPerBar
  vaTiebreak := cfg.vaTiebreak
  iMaxPeak := cfg.iMaxPeak
  tpoFallback := cfg.tpoFallback

/-- `__init__`, and what `reset` goes back to. -/
def init : SvpEngine where
  developing := newProfile cfg
  vsma := { period := cfg.absorbLookback }
  atr := { period := cfg.atrPeriod }
  swing := { lookback := cfg.swingLookback }

/-! ### Signals -/

/-- The full EXIT of a position. -/
def exitSignal (ts : Int) (pos : PositionState) (price : ℚ) (toState : State) (reason : String) : Signal where
  ts := ts
  kind := .exit
  direction := pos.direction
  price := price
  stateFrom := .breakout
  stateTo := toState
  reason := reason
  stop := some pos.stop
  barsHeld := some pos.barsHeld

/-- `force_flat`: drop a position the server has closed. -/
def forceFlat (e : SvpEngine) (ts : Int) : Option Signal × SvpEngine :=
  match e.pos with
  | none => (none, e)
  | some pos =>
    (some (exitSignal ts pos pos.stop .rangeDefined "broker_closed"), { e with pos := none, state := .rangeDefined })

/-- `_force_exit` at the end of a session. -/
def forceExit (e : SvpEngine) (c : Candle) : Except EngineError (Signal × SvpEngine) :=
  match e.pos with
  | none => .error .assertion
  | some pos => .ok (exitSignal c.ts pos c.close .idle "session_end", { e with pos := none, state := .idle })

/-! ### Filters and risk -/

def inBlackout (c : Candle) : Bool :=
  let midnight := date c.ts * dayMicros
  let openDt := midnight + cfg.sessionOpenUtc.micros
  -- the bar may belong to the open of the day before
  let openDt := if c.ts < openDt then openDt - dayMicros else openDt
  let minsSince : ℚ := (c.ts - openDt : Int) / minuteMicros
  let minsToClose := cfg.sessionLenMin - minsSince
  let mod := (c.ts - midnight) / minuteMicros
  (cfg.blockOpenMin ≠ 0 && minsSince < cfg.blockOpenMin) || (cfg.blockCloseMin ≠ 0 && minsToClose < cfg.blockCloseMin) ||
    (cfg.killzones ≠ [] && !cfg.killzones.any fun kz => kz.1 ≤ mod && mod < kz.2)

/-- The session's open against the prior session's POC. -/
def biasOpen (e : SvpEngine) : Option Direction :=
  match e.prior, e.sessionOpenPx with
  | some prior, some px => if prior.poc < px then some .long else if px < prior.poc then some .short else none
  | _, _ => none

def trendOk (e : SvpEngine) (direction : Direction) : Bool :=
  match cfg.trendFilterMode with
  | .off => true
  | .openSide => e.biasOpen = some direction
  | .structureSide => e.swing.bias = some direction
  | .both => e.biasOpen = some direction && e.swing.bias = some direction
  | .either => e.biasOpen = some direction || e.swing.bias = some direction

def deltaConfirms (e : SvpEngine) (c : Candle) : Bool :=
  if !cfg.useDeltaConfirmation || c.volume ≤ 0 then true
  else
    match e.vsma.value with
    | none => true
    | some avg => avg ≤ 0 || c.volume < avg

def entryAllowed (e : SvpEngine) (c : Candle) (direction : Direction) : Bool :=
  !inBlackout cfg c && e.trendOk cfg direction && e.deltaConfirms cfg c

/-- The structural stop, or the ATR stop in its place. -/
def riskStop (e : SvpEngine) (c : Candle) (direction : Direction) (structural : ℚ) : ℚ :=
  match e.atr.value with
  | none => structural
  | some atr =>
    if cfg.atrStopMult ≤ 0 then structural
    else
      let dist := cfg.atrStopMult * atr
      match direction with
      | .short =>
        let atrStop := c.close + dist
        if cfg.atrStopFloorStructural then max atrStop structural else atrStop
      | .long =>
        let atrStop := c.close - dist
        if cfg.atrStopFloorStructural then min atrStop structural else atrStop

/-! ### Setups -/

/-- Fade a value-area edge back inside, on balanced days. -/
def edgeRotation (c : Candle) (lv : ProfileLevels) : Option Setup :=
  if lv.shape ≠ .d then none
  else
    let piercedHigh := lv.vah ≤ c.high
    let piercedLow := c.low ≤ lv.val
    let closedInside := lv.val < c.close && c.close < lv.vah
    if piercedHigh && !piercedLow && closedInside && cfg.allowShort then
      some ⟨.short, lv.vah + cfg.buffer, "edge_rot_vah_fade"⟩
    else if piercedLow && !piercedHigh && closedInside && cfg.allowLong then
      some ⟨.long, lv.val - cfg.buffer, "edge_rot_val_fade"⟩
    else none

/-- The break of a low-volume node by the close. -/
def lvnBreak (c : Candle) (lv : ProfileLevels) (prevClose : Option ℚ) : Option Setup :=
  prevClose.bind fun prev => lv.lvns.findSome? fun lvn =>
    if prev ≤ lvn ∧ lvn < c.close ∧ cfg.allowLong = true then some ⟨.long, lvn - cfg.buffer, "lvn_break_long"⟩
    else if lvn ≤ prev ∧ c.close < lvn ∧ cfg.allowShort = true then some ⟨.short, lvn + cfg.buffer, "lvn_break_short"⟩
    else none

/-- Heavy volume, a small body and a long wick at a high-volume node. -/
def absorptionProxy (c : Candle) (lv : ProfileLevels) (avg : Option ℚ) : Option Setup :=
  let body := |c.close - c.open'|
  let upper := c.high - max c.open' c.close
  let lower := min c.open' c.close - c.low
  let wickMin := cfg.absorbWickMult * max body cfg.tickSize
  if !avg.any (fun avg => 0 < avg && cfg.absorbVolMult * avg ≤ c.volume) then none
  else if cfg.absorbBodyTicks * cfg.tickSize < body then none
  else if !lv.hvns.any (fun hvn => |c.close - hvn| ≤ cfg.rowSize) then none
  else if wickMin ≤ lower ∧ upper ≤ lower ∧ cfg.allowLong = true then some ⟨.long, c.low - cfg.buffer, "absorb_long"⟩
  else if wickMin ≤ upper ∧ lower < upper ∧ cfg.allowShort = true then some ⟨.short, c.high + cfg.buffer, "absorb_short"⟩
  else none

/-! ### Entry -/

/-- The position a setup becomes. -/
def openedPosition (e : SvpEngine) (c : Candle) (setup : Setup) : PositionState where
  direction := setup.direction
  entryTs := c.ts
  entryPrice := c.close
  stop := e.riskStop cfg c setup.direction setup.stop
  atrAtEntry := e.atr.value.getD 0

def entrySignal (e : SvpEngine) (c : Candle) (lv : ProfileLevels) (setup : Setup) : Signal where
  ts := c.ts
  kind := .entry
  direction := setup.direction
  price := c.close
  stateFrom := .rangeDefined
  stateTo := .breakout
  reason := setup.reason
  rangeHigh := some lv.vah
  rangeLow := some lv.val
  stop := some (e.riskStop cfg c setup.direction setup.stop)
  barsHeld := some 0

/-- `_enter`: a vetoed setup leaves the engine armed. -/
def enter (e : SvpEngine) (c : Candle) (lv : ProfileLevels) (setup : Setup) : Option (Signal × SvpEngine) :=
  if e.entryAllowed cfg c setup.direction then
    some (e.entrySignal cfg c lv setup,
      { e with pos := some (e.openedPosition cfg c setup), traded := e.traded + 1, state := .breakout })
  else none

/-- `_detect_setup`: the first setup that is not vetoed. -/
def detectSetup (e : SvpEngine) (c : Candle) (lv : ProfileLevels) (prevClose avg : Option ℚ) :
    Option (Signal × SvpEngine) :=
  let edge := if cfg.enableEdgeRotation then edgeRotation cfg c lv else none
  let lvn := if cfg.enableLvn then lvnBreak cfg c lv prevClose else none
  let absorb := if cfg.enableAbsorptionProxy then absorptionProxy cfg c lv avg else none
  [edge, lvn, absorb].findSome? fun setup => setup.bind (e.enter cfg c lv)

/-! ### State handlers -/

def onIdle (e : SvpEngine) (info : SessionInfo) : SvpEngine :=
  if info.zone.Inside then { e with state := .rangeDefined } else e

def onArmed (e : SvpEngine) (c : Candle) (prevClose : Option ℚ) (levels : Option ProfileLevels) (avg : Option ℚ) :
    Option Signal × SvpEngine :=
  if cfg.maxTradesPerSession ≤ e.traded then (none, e)
  else
    match levels with
    | none => (none, e)
    | some lv =>
      match e.detectSetup cfg c lv prevClose avg with
      | none => (none, e)
      | some (sig, e) => (some sig, e)

def onInPosition (e : SvpEngine) : SvpEngine :=
  { e with pos := e.pos.map fun pos => { pos with barsHeld := pos.barsHeld + 1 } }

/-! ### Sessions -/

/-- Carry the prior profile over at most three days. -/
def gapOk (prevId newId : Int) : Bool := 0 < newId - prevId && newId - prevId ≤ 3

/-- The prior profile of the next session. -/
def carried (e : SvpEngine) (newId : Int) : Option PriorProfile :=
  match e.sessionId with
  | none => e.prior
  | some id =>
    match e.developing.levels with
    | none => none
    | some lv => if gapOk id newId then some ⟨id, lv.poc, lv.vah, lv.val, lv.shape⟩ else none

def rollSession (e : SvpEngine) (newId : Int) : SvpEngine :=
  { init cfg with prior := e.carried newId, lastTs := e.lastTs, sessionId := some newId }

/-! ### `on_candle` -/

/-- `c.ts <= self._last_ts`. -/
def isLate (e : SvpEngine) (ts : Int) : Bool := e.lastTs.any (ts ≤ ·)

/-- A bar of another session: what is left of the last one, and whether the call is over. -/
def newSession (e : SvpEngine) (c : Candle) (info : SessionInfo) : Except EngineError (Option Signal × SvpEngine) := do
  if e.state = .breakout then
    let (sig, e) ← e.forceExit c
    return (some sig, { e.rollSession cfg info.sessionId with lastTs := some c.ts })
  return (none, { e.rollSession cfg info.sessionId with lastTs := some c.ts })

/-- A bar after the session's end. -/
def afterSession (e : SvpEngine) (c : Candle) : Except EngineError (Option Signal × SvpEngine) := do
  if e.state = .breakout then
    let (sig, e) ← e.forceExit c
    return (some sig, e)
  return (none, { e with state := .idle })

/-- Feed the profile and the indicators, with in-session bars only. -/
def feed (e : SvpEngine) (c : Candle) (info : SessionInfo) : SvpEngine :=
  if info.zone.Inside then
    { e with
      developing := e.developing.update c
      vsma := e.vsma.update c.volume
      atr := e.atr.update c.high c.low c.close
      swing := e.swing.update c.high c.low
      sessionOpenPx := some (e.sessionOpenPx.getD c.open')
      prevClose := some c.close }
  else e

/-- The levels before this bar; a bar outside the session has none. -/
def preLevels (e : SvpEngine) (info : SessionInfo) : Option ProfileLevels :=
  if info.zone.Inside then e.developing.levels else none

/-- Feed a bar, and decide on what was known before it. -/
def process (e : SvpEngine) (c : Candle) (info : SessionInfo) : Option Signal × SvpEngine :=
  let fed := e.feed c info
  match fed.state with
  | .idle => (none, fed.onIdle info)
  | .rangeDefined => fed.onArmed cfg c e.prevClose (e.preLevels info) e.vsma.value
  | .breakout => (none, fed.onInPosition)
  | .exit => (none, fed)

def onCandle (e : SvpEngine) (raw : RawCandle) : Except EngineError (Option Signal × SvpEngine) := do
  let c ← (validate raw).mapError .candle
  if e.isLate c.ts then
    if cfg.strictMonotonic then throw (.outOfOrder c.ts (e.lastTs.getD 0))
    return (none, e)
  let info ← classified cfg.clock c.ts
  if some info.sessionId ≠ e.sessionId then
    let (sig, e) ← e.newSession cfg c info
    if sig.isSome then return (sig, e)
    return e.process cfg c info
  let e := { e with lastTs := some c.ts }
  if info.zone = .after then return ← e.afterSession c
  return e.process cfg c info

end SvpEngine

end FreqTrading
