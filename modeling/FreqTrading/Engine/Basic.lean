import FreqTrading.Lib.Rounding
import FreqTrading.Session
import FreqTrading.Indicators

/-!
# The ORB engine

`OrbEngine` of `orb/engine.py`. The engine is an explicit state; `onCandle` returns the emitted signal and
the next state, or the exception it raises. The two exceptions a stream survives (`CandleError`,
`OutOfOrderError`) are raised before anything is written, so they leave the state as it was, and so does the
`OverflowError` of the clock. A `None` used as a number and a failed `assert` are errors here (`typeError`,
`assertion`), not excluded by the types. The transition callbacks and the log are left out.
-/

namespace FreqTrading

inductive EngineError
  | candle (fault : CandleFault)
  | outOfOrder (ts last : Int)
  | indicator
  | typeError
  | assertion
  /-- A time outside the years 1 to 9999. -/
  | overflow
  deriving DecidableEq, Repr

/-- The error is one that `CandleStream.run` skips a bar for. -/
def EngineError.isData : EngineError → Bool
  | .candle _ => true
  | .outOfOrder _ _ => true
  | _ => false

/-- The error leaves the engine as it was: one of the checks before the first write raised it. -/
def EngineError.isEarly : EngineError → Bool
  | .overflow => true
  | err => err.isData

/-- `self._clock.classify(ts)`. -/
def classified (clock : OrbConfig) (ts : Int) : Except EngineError SessionInfo :=
  (SessionClock.classify clock ts).mapError fun _ => .overflow

theorem classified_eq (clock : OrbConfig) (ts : Int) :
    classified clock ts =
      if SessionClock.Overflows clock ts then .error .overflow else .ok (SessionClock.place clock ts) := by
  unfold classified
  rw [SessionClock.classify_eq]
  split <;> rfl

theorem classified_ok_iff {clock : OrbConfig} {ts : Int} {info : SessionInfo} :
    classified clock ts = .ok info ↔ ¬ SessionClock.Overflows clock ts ∧ info = SessionClock.place clock ts :=
  Lib.mapError_ok.trans (SessionClock.classify_ok_iff clock)

/-- A value that Python uses as a number: `None` raises `TypeError`. -/
def number : Option ℚ → Except EngineError ℚ
  | some x => .ok x
  | none => .error .typeError

structure OrbEngine where
  atr : WilderATR
  roc : ROC
  vsma : VolumeSMA
  state : State := .idle
  rangeHi : Option ℚ := none
  rangeLo : Option ℚ := none
  rangeBars : Nat := 0
  rangeLocked : Bool := false
  pos : Option PositionState := none
  rebuild : Bool := false
  tradedThisSession : Bool := false
  lastTs : Option Int := none
  sessionId : Option Int := none
  deriving DecidableEq, Repr

/-- How a bar begins: the call is over with this signal, or the bar goes on to the state handlers. -/
inductive Intake
  | done (sig : Option Signal) (e : OrbEngine)
  | go (e : OrbEngine)

namespace OrbEngine

variable (cfg : OrbConfig)

/-! ### Small pieces of state -/

def buildIndicators (e : OrbEngine) : OrbEngine :=
  { e with atr := { period := cfg.atrPeriod }, roc := { period := cfg.rocPeriod }, vsma := { period := cfg.rvolPeriod } }

/-- `__init__`, and what `reset` goes back to. -/
def init : OrbEngine :=
  { atr := { period := cfg.atrPeriod }, roc := { period := cfg.rocPeriod }, vsma := { period := cfg.rvolPeriod } }

def clearRange (e : OrbEngine) : OrbEngine :=
  { e with rangeHi := none, rangeLo := none, rangeBars := 0, rangeLocked := false }

def reset (_ : OrbEngine) : OrbEngine := init cfg

def warm (e : OrbEngine) : Bool :=
  e.atr.ready && (!cfg.useRoc || e.roc.ready) && (!cfg.useRvol || e.vsma.ready)

def lockRange (e : OrbEngine) : OrbEngine := { e with rangeLocked := true, rebuild := false }

def maybeLock (e : OrbEngine) : OrbEngine :=
  if cfg.rangeMinutes ≤ e.rangeBars then e.lockRange else e

/-- `ATR stop distance, clamped to [stop_min_dist, stop_max_dist]`. -/
def stopDist (atr : ℚ) : ℚ :=
  let dist := cfg.atrMult * atr
  let dist := match cfg.stopMaxDist with
    | some hi => min dist hi
    | none => dist
  match cfg.stopMinDist with
  | some lo => max dist lo
  | none => dist

/-- The `qty` a signal carries by default: the configured one if it is positive. -/
def defaultQty : Option ℚ := if 0 < cfg.qty then some cfg.qty else none

/-- `_signal`, with the fields every caller sets. -/
def signal (e : OrbEngine) (ts : Int) (kind : SignalKind) (direction : Direction) (price : ℚ)
    (stateFrom stateTo : State) (reason : String) : Signal where
  ts := ts
  kind := kind
  direction := direction
  price := price
  stateFrom := stateFrom
  stateTo := stateTo
  reason := reason
  rangeHigh := e.rangeHi
  rangeLow := e.rangeLo
  qty := defaultQty cfg

/-! ### Breakout and momentum -/

def breakoutReason : Direction → String
  | .long => "breakout_long"
  | .short => "breakout_short"

def allows : Direction → Bool
  | .long => cfg.allowLong
  | .short => cfg.allowShort

/-- The side of the range the close lies beyond. -/
def breakoutDirection (e : OrbEngine) (c : Candle) : Except EngineError (Option Direction) := do
  let hi ← number e.rangeHi
  if hi < c.close then return some .long
  let lo ← number e.rangeLo
  if c.close < lo then return some .short
  return none

/-- What `_momentum` returns. -/
structure Momentum where
  roc : Option ℚ
  rvol : Option ℚ
  passed : Bool
  fail : String
  deriving DecidableEq, Repr

def rvolValue (e : OrbEngine) (c : Candle) : ℚ :=
  match e.vsma.value with
  | some sma => if 0 < sma then c.volume / sma else 0
  | none => 0

def momentum (e : OrbEngine) (c : Candle) (direction : Direction) : Except EngineError Momentum := do
  let roc ← if cfg.useRoc then
      match e.roc.value with
      | some v => pure v
      | none => throw .indicator
    else pure none
  let rvol := if cfg.useRvol then some (e.rvolValue c) else none
  if !cfg.useRoc && !cfg.useRvol then return ⟨roc, rvol, true, ""⟩
  if cfg.useRoc then
    let r ← number roc
    match direction with
    | .long => if ¬ cfg.rocMin ≤ r then return ⟨roc, rvol, false, "roc"⟩
    | .short => if ¬ r ≤ -cfg.rocMin then return ⟨roc, rvol, false, "roc"⟩
  if cfg.useRvol then
    let v ← number rvol
    if ¬ cfg.rvolMin ≤ v then return ⟨roc, rvol, false, "rvol"⟩
  return ⟨roc, rvol, true, ""⟩

/-- The initial stop: `close - dist` for a long, `close + dist` for a short. -/
def initialStop (direction : Direction) (close dist : ℚ) : ℚ :=
  match direction with
  | .long => close - dist
  | .short => close + dist

def initialTp (direction : Direction) (close stop : ℚ) : Option ℚ :=
  cfg.tpRrr.map fun rrr =>
    match direction with
    | .long => close + rrr * |stop - close|
    | .short => close - rrr * |stop - close|

/-- The simulated position a breakout opens. -/
def openedPosition (c : Candle) (direction : Direction) (atr : ℚ) : PositionState :=
  let stop := initialStop direction c.close (stopDist cfg atr)
  { direction := direction, entryTs := c.ts, entryPrice := c.close, stop := stop, atrAtEntry := atr,
    tp := initialTp cfg direction c.close stop }

def entrySignal (e : OrbEngine) (c : Candle) (direction : Direction) (atr : ℚ) (m : Momentum) : Signal :=
  let pos := openedPosition cfg c direction atr
  { e.signal cfg c.ts .entry direction c.close .rangeDefined .breakout (breakoutReason direction) with
    roc := m.roc, rvol := m.rvol, atr := some atr, stop := some pos.stop, tp := pos.tp, barsHeld := some 0 }

def rejectSignal (e : OrbEngine) (c : Candle) (direction : Direction) (m : Momentum) : Signal :=
  { e.signal cfg c.ts .reject direction c.close .rangeDefined .rangeDefined ("momentum_fail:" ++ m.fail) with
    roc := m.roc, rvol := m.rvol, atr := e.atr.value }

def openPosition (e : OrbEngine) (c : Candle) (direction : Direction) (atr : ℚ) : OrbEngine :=
  { e with
    pos := some (openedPosition cfg c direction atr)
    tradedThisSession := true
    state := .breakout }

def checkBreakout (e : OrbEngine) (c : Candle) : Except EngineError (Option Signal × OrbEngine) := do
  match ← e.breakoutDirection c with
  | none => return (none, e)
  | some direction =>
    if !allows cfg direction then return (none, e)
    let m ← e.momentum cfg c direction
    if !m.passed then return (some (e.rejectSignal cfg c direction m), e)
    let atr ← number e.atr.value
    return (some (e.entrySignal cfg c direction atr m), e.openPosition cfg c direction atr)

/-! ### Exits -/

def postExitState (e : OrbEngine) : State :=
  if !cfg.oneTradePerSession && cfg.rearmAfterExit && (cfg.rearmRange == .rebuild || e.rangeLocked) then
    .rangeDefined
  else .idle

/-- The state after a full exit to `toState`: flat, with the range discarded for a rebuild. -/
def flatten (e : OrbEngine) (toState : State) : OrbEngine :=
  let e := { e with pos := none, state := toState }
  if toState = .rangeDefined ∧ cfg.rearmRange = .rebuild then { e.clearRange with rebuild := true } else e

/-- The full EXIT signal of a position. -/
def exitSignal (e : OrbEngine) (ts : Int) (pos : PositionState) (reason : String) (toState : State)
    (price : ℚ) : Signal :=
  { e.signal cfg ts .exit pos.direction price .breakout toState reason with
    atr := e.atr.value, stop := some pos.stop, tp := pos.tp, barsHeld := some pos.barsHeld }

/-- `_exit`: a full EXIT at `price`. -/
def exitPosition (e : OrbEngine) (c : Candle) (reason : ExitReason) (toState : State) (price : ℚ) :
    Except EngineError (Signal × OrbEngine) :=
  match e.pos with
  | none => .error .assertion
  | some pos => .ok (e.exitSignal cfg c.ts pos reason.text toState price, e.flatten cfg toState)

/-- `force_flat`: drop a position the server has closed. -/
def forceFlat (e : OrbEngine) (ts : Int) : Option Signal × OrbEngine :=
  match e.pos with
  | none => (none, e)
  | some pos =>
    let toState := e.postExitState cfg
    (some (e.exitSignal cfg ts pos ExitReason.brokerClosed.text toState pos.stop), e.flatten cfg toState)

def rangeReentered (e : OrbEngine) (pos : PositionState) (c : Candle) : Except EngineError Bool := do
  match cfg.reentryOn, pos.direction with
  | .close, .long => return c.close ≤ (← number e.rangeHi)
  | .close, .short => return (← number e.rangeLo) ≤ c.close
  | .intrabar, .long => return c.low ≤ (← number e.rangeHi)
  | .intrabar, .short => return (← number e.rangeLo) ≤ c.high

def tpHit (pos : PositionState) (c : Candle) : Bool :=
  match pos.tp with
  | none => false
  | some tp =>
    match cfg.reentryOn, pos.direction with
    | .close, .long => tp ≤ c.close
    | .close, .short => c.close ≤ tp
    | .intrabar, .long => tp ≤ c.high
    | .intrabar, .short => c.low ≤ tp

def trailHit (pos : PositionState) (c : Candle) : Bool :=
  match cfg.reentryOn, pos.direction with
  | .close, .long => c.close ≤ pos.stop
  | .close, .short => pos.stop ≤ c.close
  | .intrabar, .long => c.low ≤ pos.stop
  | .intrabar, .short => pos.stop ≤ c.high

/-- The price of an exit: the close, or the level itself in intrabar mode. -/
def exitPrice (c : Candle) (level : Option ℚ) : ℚ :=
  match cfg.reentryOn with
  | .close => c.close
  | .intrabar => level.getD c.close

/-- The quantity `_partial_tp` closes: the configured fraction of the configured `qty`. -/
def partialQty : Option ℚ := if 0 < cfg.qty then some (cfg.qty * cfg.tpCloseFrac) else none

/-- `_partial_tp`: close `tp_close_frac` at the TP, leave the rest to the trail. -/
def partialTp (e : OrbEngine) (pos : PositionState) (c : Candle) (price : ℚ) : Signal × OrbEngine :=
  ({ e.signal cfg c.ts .exit pos.direction price .breakout .breakout "take_profit_partial" with
      atr := e.atr.value, stop := some pos.stop, tp := pos.tp, barsHeld := some pos.barsHeld,
      qty := (partialQty cfg).or (defaultQty cfg) },
    { e with pos := some { pos with tp := none } })

/-- One more bar held, with the favourable and adverse excursion of the bar. -/
def heldBar (pos : PositionState) (c : Candle) : PositionState :=
  match pos.direction with
  | .long =>
    { pos with
      barsHeld := pos.barsHeld + 1
      mfe := max pos.mfe (c.high - pos.entryPrice)
      mae := max pos.mae (pos.entryPrice - c.low) }
  | .short =>
    { pos with
      barsHeld := pos.barsHeld + 1
      mfe := max pos.mfe (pos.entryPrice - c.low)
      mae := max pos.mae (c.high - pos.entryPrice) }

/-- The stop after the ratchet: always off the close, never looser. -/
def ratchetStop (pos : PositionState) (close dist : ℚ) : ℚ :=
  match pos.direction with
  | .long => max pos.stop (close - dist)
  | .short => min pos.stop (close + dist)

/-! ### State handlers -/

def onIdle (e : OrbEngine) (c : Candle) (info : SessionInfo) : Option Signal × OrbEngine :=
  if info.zone = .inRangeWindow then
    let e := { e with
      rangeHi := some c.high
      rangeLo := some c.low
      rangeBars := 1
      rangeLocked := false
      state := .rangeDefined }
    (none, e.maybeLock cfg)
  else (none, e)

/-- One more bar of the range being built. -/
def buildRange (e : OrbEngine) (c : Candle) : Except EngineError OrbEngine :=
  match e.rangeHi with
  | none => .ok { e with rangeHi := some c.high, rangeLo := some c.low, rangeBars := 1 }
  | some hi => do
    let lo ← number e.rangeLo
    return { e with rangeHi := some (max hi c.high), rangeLo := some (min lo c.low), rangeBars := e.rangeBars + 1 }

/-- Entered the session: a range that never reached N bars is locked partial. -/
def settleRange (e : OrbEngine) (info : SessionInfo) : OrbEngine :=
  if info.zone = .inSession ∧ ¬ e.rangeLocked then e.lockRange else e

/-- The bar still builds a range: the opening window, or an in-session rebuild. -/
def Building (e : OrbEngine) (info : SessionInfo) : Prop :=
  (info.zone = .inRangeWindow ∨ e.rebuild = true) ∧ e.rangeLocked = false

instance (e : OrbEngine) (info : SessionInfo) : Decidable (e.Building info) :=
  inferInstanceAs (Decidable (_ ∧ _))

def onRangeDefined (e : OrbEngine) (c : Candle) (info : SessionInfo) :
    Except EngineError (Option Signal × OrbEngine) := do
  if e.Building info then
    let e ← e.buildRange c
    return (none, e.maybeLock cfg)
  let e := e.settleRange info
  if !e.warm cfg then return (none, e)
  e.checkBreakout cfg c

def onBreakout (e : OrbEngine) (c : Candle) : Except EngineError (Option Signal × OrbEngine) :=
  match e.pos with
  | none => .error .assertion
  | some old => do
    let pos := heldBar old c
    let e := { e with pos := some pos }
    -- exit precedence: range re-entry > take profit > trail stop > ratchet
    if ← e.rangeReentered cfg pos c then
      let level := match pos.direction with
        | .long => e.rangeHi
        | .short => e.rangeLo
      let (sig, e) ← e.exitPosition cfg c .rangeReentry (e.postExitState cfg) (exitPrice cfg c level)
      return (some sig, e)
    if tpHit cfg pos c then
      if cfg.tpCloseFrac < 1 then
        let (sig, e) := e.partialTp cfg pos c (exitPrice cfg c pos.tp)
        return (some sig, e)
      let (sig, e) ← e.exitPosition cfg c .takeProfit (e.postExitState cfg) (exitPrice cfg c pos.tp)
      return (some sig, e)
    if trailHit cfg pos c then
      let (sig, e) ← e.exitPosition cfg c .trailStop (e.postExitState cfg) (exitPrice cfg c (some pos.stop))
      return (some sig, e)
    let atr ← number e.atr.value
    return (none, { e with pos := some { pos with stop := ratchetStop pos c.close (stopDist cfg atr) } })

/-! ### Resets -/

/-- A mid-session gap rebuilds a fresh range; outside the session it tears down. -/
def afterGap (e : OrbEngine) (info : SessionInfo) : OrbEngine :=
  let e := e.buildIndicators cfg
  if info.zone.Inside then { e.clearRange with state := .rangeDefined, rebuild := true }
  else { e.clearRange with state := .idle, rebuild := false }

def handleGapReset (e : OrbEngine) (c : Candle) : Except EngineError (Option Signal × OrbEngine) := do
  let info ← classified cfg c.ts
  if e.state = .breakout then
    let (sig, e) ← e.exitPosition cfg c .gapInvalidate .idle c.close
    return (some sig, e.afterGap cfg info)
  return (none, e.afterGap cfg info)

def resetForNewSession (e : OrbEngine) (newId : Int) : OrbEngine :=
  { (e.buildIndicators cfg).clearRange with
    state := .idle
    pos := none
    rebuild := false
    tradedThisSession := false
    sessionId := some newId }

/-! ### `on_candle` -/

/-- Bars missing between the last bar and this one. -/
def gapBars (last ts : Int) : Int :=
  Lib.roundEven (((ts - last : Int) : ℚ) / 1000000 / cfg.expectedBarSec) - 1

/-- The gap to the last bar is one that resets the engine. -/
def GapResets (e : OrbEngine) (ts : Int) : Prop :=
  match e.lastTs with
  | none => False
  | some last =>
    0 < gapBars cfg last ts ∧ (cfg.maxGapBars < gapBars cfg last ts ∨ cfg.onGap = .reset)

instance (e : OrbEngine) (ts : Int) : Decidable (e.GapResets cfg ts) := by
  unfold GapResets
  cases e.lastTs <;> exact inferInstance

/-- `c.ts <= self._last_ts`. -/
def isLate (e : OrbEngine) (ts : Int) : Bool := e.lastTs.any (ts ≤ ·)

/-- A bar of another session id. -/
def newSession (e : OrbEngine) (c : Candle) (info : SessionInfo) : Except EngineError Intake := do
  if e.state = .breakout then
    -- a position carried across a session boundary is closed as SESSION_END
    let (sig, e) ← e.exitPosition cfg c .sessionEnd .idle c.close
    return .done (some sig) { e.resetForNewSession cfg info.sessionId with lastTs := some c.ts }
  return .go { e.resetForNewSession cfg info.sessionId with lastTs := some c.ts }

/-- A bar of the current session id: teardown after the session, gap detection inside it. -/
def sameSession (e : OrbEngine) (c : Candle) (info : SessionInfo) : Except EngineError Intake := do
  if info.zone = .after then
    let e := { e with lastTs := some c.ts }
    if e.state = .breakout then
      let (sig, e) ← e.exitPosition cfg c .sessionEnd .idle c.close
      return .done (some sig) e
    if e.state ≠ .idle then return .done none { e.clearRange with state := .idle }
    return .done none e
  if e.GapResets cfg c.ts then
    let (sig, e) ← e.handleGapReset cfg c
    let e := { e with lastTs := some c.ts }
    if sig.isSome then return .done sig e
    return .go e
  return .go { e with lastTs := some c.ts }

def feedIndicators (e : OrbEngine) (c : Candle) (info : SessionInfo) : OrbEngine :=
  if info.zone.Inside then
    { e with
      atr := e.atr.update c.high c.low c.close
      roc := if cfg.useRoc then e.roc.update c.close else e.roc
      vsma := if cfg.useRvol then e.vsma.update c.volume else e.vsma }
  else e

def dispatch (e : OrbEngine) (c : Candle) (info : SessionInfo) :
    Except EngineError (Option Signal × OrbEngine) :=
  match e.state with
  | .idle => .ok (e.onIdle cfg c info)
  | .rangeDefined => e.onRangeDefined cfg c info
  | .breakout => e.onBreakout cfg c
  | .exit => .ok (none, e)

def onCandle (e : OrbEngine) (raw : RawCandle) : Except EngineError (Option Signal × OrbEngine) := do
  let c ← (validate raw).mapError .candle
  if e.isLate c.ts then
    if cfg.strictMonotonic then throw (.outOfOrder c.ts (e.lastTs.getD 0))
    return (none, e)
  let info ← classified cfg c.ts
  let intake ← if some info.sessionId ≠ e.sessionId then e.newSession cfg c info else e.sameSession cfg c info
  match intake with
  | .done sig e => return (sig, e)
  | .go e => (e.feedIndicators cfg c info).dispatch cfg c info

end OrbEngine

end FreqTrading
