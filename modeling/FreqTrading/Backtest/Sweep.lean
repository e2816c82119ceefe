import FreqTrading.Lib.Run
import FreqTrading.Riskguard
import FreqTrading.Sizing
import FreqTrading.Trueopen
import FreqTrading.Backtest.HigherTf

/-!
# The sweep backtest

`SweepSim` and `run_sweep` of `scripts/backtest_sweep.py`: a bar that takes the prior high or low of the higher timeframe
and closes back across it is a signal, entered at its close or by a limit order at the level. The rows of the file are not
checked, so nothing is known of a candle's prices.
-/

namespace FreqTrading

open Lib

/-! ### The levels -/

/-- `HtfErl.fold` reads the time stamp, the high and the low of a candle. -/
def HtfErl.see (e : HtfErl) (ts : Int) (high low : ℚ) : HtfErl :=
  let key := keyOf e.m ts
  if e.key = none then { e with key := some key, hi := some high, lo := some low }
  else if e.key = some key then { e with hi := e.hi.map (max · high), lo := e.lo.map (min · low) }
  else { e with prevHi := e.hi, prevLo := e.lo, key := some key, hi := some high, lo := some low }

theorem HtfErl.fold_eq_see (e : HtfErl) (c : Candle) : e.fold c = e.see c.ts c.high c.low := rfl

/-- `TrueOpenTracker.bias`. -/
def Trueopen.TrueOpenTracker.bias (t : TrueOpenTracker) (close : ℚ) : Option String :=
  t.levels.sessionOpen.map fun x => if x < close then "bullish" else "bearish"

/-! ### The simulated position -/

namespace SweepSim

structure Pos where
  side : Direction
  entry : ℚ
  sl : ℚ
  tp : ℚ
  risk0 : ℚ
  vol : ℚ
  openTs : Int
  reason : String
  partialed : Bool := false
  pnl : ℚ := 0
  deriving DecidableEq, Repr

structure Pend where
  side : Direction
  px : ℚ
  sl : ℚ
  placedTs : Int
  reason : String
  deriving DecidableEq, Repr

/-- An entry of `closed`. -/
structure Trade where
  dir : Direction
  entry : ℚ
  openTs : Int
  signalTs : Int
  closeTs : Int
  pnl : ℚ
  reason : String
  deriving DecidableEq, Repr

end SweepSim

/-- `LONG` is 1 and `SHORT` is -1. -/
def Direction.sign : Direction → ℚ
  | .long => 1
  | .short => -1

structure SweepSim where
  half : ℚ
  comm : ℚ
  vpm : ℚ
  usePartial : Bool
  equity : ℚ := 0
  pos : Option SweepSim.Pos := none
  closed : List SweepSim.Trade := []
  deriving DecidableEq, Repr

namespace SweepSim

/-- `__init__`. -/
def create (spread comm valuePerMove : ℚ) (usePartial : Bool) : SweepSim where
  half := spread / 2
  comm := comm
  vpm := valuePerMove
  usePartial := usePartial

/-- What closing this much of a position brings in. -/
def pnlOf (s : SweepSim) (p : Pos) (px vol : ℚ) : ℚ := p.side.sign * (px - p.entry) * vol * s.vpm - s.comm * vol

def Pos.after (p : Pos) (pnl vol : ℚ) : Pos := { p with pnl := p.pnl + pnl, vol := roundPlaces 8 (p.vol - vol) }

/-- The code keeps no time of the signal: `signal_ts` is the open time. -/
def Pos.trade (p : Pos) (ts : Int) : Trade where
  dir := p.side
  entry := p.entry
  openTs := p.openTs
  signalTs := p.openTs
  closeTs := ts
  pnl := p.pnl
  reason := p.reason

/-- `_close`; the reason it is given is not used. -/
def close (s : SweepSim) (p : Pos) (px vol : ℚ) (ts : Int) : SweepSim :=
  let pnl := s.pnlOf p px vol
  let p := p.after pnl vol
  if p.vol ≤ 1 / 1000000000 then
    { s with equity := s.equity + pnl, closed := s.closed ++ [p.trade ts], pos := none }
  else { s with equity := s.equity + pnl, pos := some p }

/-- The price of an exit at this level. -/
def exitPrice (s : SweepSim) : Direction → ℚ → ℚ
  | .long, px => px - s.half
  | .short, px => px + s.half

/-- The bar reaches the stop. -/
def stopHit (p : Pos) (c : FileCandle) : Bool :=
  match p.side with
  | .long => c.low ≤ p.sl
  | .short => p.sl ≤ c.high

/-- The price of the partial close. -/
def Pos.twoR (p : Pos) : ℚ :=
  match p.side with
  | .long => p.entry + 2 * p.risk0
  | .short => p.entry - 2 * p.risk0

/-- The partial close comes before the target, and the bar reaches it. -/
def partialHit (p : Pos) (c : FileCandle) : Bool :=
  match p.side with
  | .long => p.twoR < p.tp && p.twoR ≤ c.high
  | .short => p.tp < p.twoR && c.low ≤ p.twoR

def targetHit (p : Pos) (c : FileCandle) : Bool :=
  match p.side with
  | .long => p.tp ≤ c.high
  | .short => c.low ≤ p.tp

/-- The close of 70% at twice the risk. -/
def takePartial (s : SweepSim) (p : Pos) (c : FileCandle) : SweepSim :=
  let s := s.close p (s.exitPrice p.side p.twoR) (roundPlaces 8 (p.vol * (7 / 10))) c.ts
  { s with pos := s.pos.map fun p => { p with partialed := true } }

/-- The rest of the position at its target. -/
def takeTarget (s : SweepSim) (c : FileCandle) : SweepSim :=
  match s.pos with
  | none => s
  | some p => if targetHit p c then s.close p (s.exitPrice p.side p.tp) p.vol c.ts else s

def manageExits (s : SweepSim) (c : FileCandle) : SweepSim :=
  match s.pos with
  | none => s
  | some p =>
    if stopHit p c then s.close p (s.exitPrice p.side p.sl) p.vol c.ts
    else if s.usePartial && !p.partialed && partialHit p c then (s.takePartial p c).takeTarget c
    else s.takeTarget c

def flatten (s : SweepSim) (c : FileCandle) : SweepSim :=
  match s.pos with
  | none => s
  | some p => s.close p (s.exitPrice p.side c.close) p.vol c.ts

end SweepSim

/-! ### `run_sweep` -/

inductive SweepEntry
  | limit | market
  deriving DecidableEq, Repr

/-- The arguments of `run_sweep`, and the clock of New York. The breaker raises without a positive cap, and a bucket of no
minutes raises at the first candle. -/
structure SweepParams where
  htfMin : Int
  htf_pos : 0 < htfMin
  rr : ℚ
  entryMode : SweepEntry
  useBias : Bool
  spread : ℚ
  comm : ℚ
  riskPct : ℚ
  startBalance : ℚ
  maxDailyLossPct : ℚ
  pct_pos : 0 < maxDailyLossPct
  stopBuf : ℚ
  ttlSec : ℚ
  valuePerMove : ℚ
  volMin : ℚ
  volStep : ℚ
  volMax : ℚ
  usePartial : Bool
  toNy : Int → Int

structure SweepRun where
  erl : HtfErl
  topen : Trueopen.TrueOpenTracker := {}
  breaker : DailyLossBreaker
  sim : SweepSim
  pend : Option SweepSim.Pend := none

namespace SweepParams

open SweepSim

def cap (p : SweepParams) : DailyCap where
  flat := none
  pct := some p.maxDailyLossPct
  given := Or.inr rfl
  flat_pos := DailyCap.none_pos
  pct_pos := by simpa using p.pct_pos

/-- The state before the first candle. -/
def start (p : SweepParams) : SweepRun where
  erl := { m := p.htfMin }
  breaker := { cap := p.cap }
  sim := .create p.spread p.comm p.valuePerMove p.usePartial

/-- The price of a fill at this level. -/
def fillPrice (p : SweepParams) : Direction → ℚ → ℚ
  | .long, px => px + p.spread / 2
  | .short, px => px - p.spread / 2

/-- How far the stop is from the fill. -/
def riskOf (fill sl : ℚ) : Direction → ℚ
  | .long => fill - sl
  | .short => sl - fill

def targetOf (fill distance : ℚ) : Direction → ℚ
  | .long => fill + distance
  | .short => fill - distance

/-- What the day may still lose. -/
def remaining (breaker : DailyLossBreaker) : ℚ := max 0 (breaker.dayCap + breaker.dayPnl)

/-- The position that an order becomes when it fills at this level, if any. -/
def opened (p : SweepParams) (breaker : DailyLossBreaker) (bal : ℚ) (order : Pend) (px : ℚ) (ts : Int) : Option Pos :=
  let fill := p.fillPrice order.side px
  let risk := riskOf fill order.sl order.side
  if 0 < risk then
    let lot := computeLot bal p.riskPct fill order.sl p.valuePerMove p.volMin p.volStep p.volMax (some (remaining breaker))
    if 0 < lot then
      some {
        side := order.side, entry := fill, sl := order.sl, tp := targetOf fill (p.rr * risk) order.side, risk0 := risk,
        vol := lot, openTs := ts, reason := order.reason }
    else none
  else none

/-- The age of an order, in seconds. -/
def age (order : Pend) (c : FileCandle) : ℚ := (c.ts - order.placedTs : Int) / 1000000

def touched (order : Pend) (c : FileCandle) : Bool :=
  match order.side with
  | .long => c.low ≤ order.px
  | .short => order.px ≤ c.high

/-- The fill of a limit order that rests while no position is open, and what rests then. -/
def fillLimit (p : SweepParams) (breaker : DailyLossBreaker) (bal : ℚ) (sim : SweepSim) (order : Pend) (c : FileCandle) :
    SweepSim × Option Pend :=
  if p.ttlSec ≤ age order c then (sim, none)
  else if 0 < age order c ∧ sim.pos = none then
    if touched order c then ({ sim with pos := p.opened breaker bal order order.px c.ts }, none) else (sim, some order)
  else (sim, some order)

def longSignal (p : SweepParams) (erl : HtfErl) (topen : Trueopen.TrueOpenTracker) (c : FileCandle) : Option Pend :=
  match erl.prevLo with
  | none => none
  | some level =>
    if c.low < level ∧ level < c.close ∧ (p.useBias = false ∨ topen.bias c.close = some "bullish") then
      some { side := .long, px := level, sl := c.low - p.stopBuf, placedTs := c.ts, reason := "sweep_low_reclaim" }
    else none

def shortSignal (p : SweepParams) (erl : HtfErl) (topen : Trueopen.TrueOpenTracker) (c : FileCandle) : Option Pend :=
  match erl.prevHi with
  | none => none
  | some level =>
    if level < c.high ∧ c.close < level ∧ (p.useBias = false ∨ topen.bias c.close = some "bearish") then
      some { side := .short, px := level, sl := c.high + p.stopBuf, placedTs := c.ts, reason := "sweep_high_reclaim" }
    else none

/-- The order of a signal; a long one comes first. -/
def signal (p : SweepParams) (erl : HtfErl) (topen : Trueopen.TrueOpenTracker) (c : FileCandle) : Option Pend :=
  (p.longSignal erl topen c).or (p.shortSignal erl topen c)

/-- What an order does at the bar of its signal. -/
def place (p : SweepParams) (breaker : DailyLossBreaker) (bal : ℚ) (sim : SweepSim) (order : Pend) (c : FileCandle) :
    SweepSim × Option Pend :=
  match p.entryMode with
  | .market => ({ sim with pos := p.opened breaker bal order c.close c.ts }, none)
  | .limit => (sim, some order)

/-- One iteration. -/
def step (p : SweepParams) (s : SweepRun) (c : FileCandle) : SweepRun :=
  let erl := s.erl.see c.ts c.high c.low
  let topen := Trueopen.update p.toNy s.topen ⟨c.ts, c.open'⟩
  let bal := p.startBalance + s.sim.equity
  let breaker := s.breaker.update (date c.ts) bal
  let sim := s.sim.manageExits c
  if breaker.halted then { erl, topen, breaker, sim := sim.flatten c, pend := none }
  else
    let (sim, pend) := match s.pend with
      | none => (sim, none)
      | some order => p.fillLimit breaker bal sim order c
    let (sim, pend) := match sim.pos, pend, p.signal erl topen c with
      | none, none, some order => p.place breaker bal sim order c
      | _, _, _ => (sim, pend)
    { erl, topen, breaker, sim, pend }

end SweepParams

/-- `run_sweep`: the trades. -/
def runSweep (p : SweepParams) (candles : List FileCandle) : List SweepSim.Trade := (run p.step p.start candles).sim.closed

end FreqTrading
