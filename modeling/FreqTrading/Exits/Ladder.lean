import FreqTrading.Lib.Rounding
import FreqTrading.Exits.Babysitter

/-!
# The ladder

`LadderExitManager` of `orb/smc/exits.py`: partial closes at rungs of profit, a final close of the rest, and
two discrete stop moves that wait for a closed candle and are confirmed by the next one. Its arguments are
those `__init__` accepts. `spread` gives the answer of `spread_fn` at each position; without a `spread_fn` it
is constant.
-/

namespace FreqTrading

open Lib

def ladderEps : ℚ := 1 / 1000000000

/-- `_snap_down`. -/
def snapDown (v step : ℚ) : ℚ := roundPlaces 10 (⌊v / step + ladderEps⌋ * step)

/-- The arguments of the ladder, as `__init__` takes them. -/
structure LadderConfig where
  partialLevels : List (ℚ × ℚ) := [(5, 2 / 5), (7, 3 / 10)]
  finalTpR : ℚ := 10
  stage1AtR : ℚ := 1
  stage2AtR : ℚ := 2
  stage2MinLockR : ℚ := 1
  stage2Buffer : ℚ := 1 / 2
  commPerLot : ℚ := 7
  valuePerMove : ℚ := 100
  volMin : ℚ := 1 / 100
  volStep : ℚ := 1 / 100
  defaultD : ℚ := 2
  volumes_pos : 0 < volStep ∧ 0 < volMin := by decide +kernel
  defaultD_pos : 0 < defaultD := by decide +kernel
  stage1_pos : 0 < stage1AtR := by decide +kernel
  stage2_gt : stage1AtR < stage2AtR := by decide +kernel
  minLock_pos : 0 < stage2MinLockR := by decide +kernel
  value_pos : 0 < valuePerMove := by decide +kernel

theorem LadderConfig.two_pos : (0 : ℚ) < 2 := by norm_num

/-- `_PosState`. -/
structure PosState where
  entry : ℚ
  d : ℚ
  vol0 : ℚ
  /-- The rungs consumed. -/
  filled : List Nat := []
  stage1Done : Bool := false
  stage2Done : Bool := false
  deriving DecidableEq, Repr

structure Ladder where
  trades : Memory Nat PosState := Memory.empty
  prevCandle : Option Candle := none

namespace Ladder

variable (cfg : LadderConfig)

/-- The stop's distance, or the default where there is no stop or it sits at the entry. -/
def riskUnit (p : Position) : ℚ :=
  let d := p.stopDistance cfg.defaultD
  if d ≤ 0 then cfg.defaultD else d

/-- The state of a ticket, made at first sight. -/
def stateOf (l : Ladder) (p : Position) : PosState :=
  (l.trades p.ticket).getD { entry := p.priceOpen, d := riskUnit cfg p, vol0 := p.volume }

/-- The gain at a price, counted from the entry the state has. -/
def PosState.gain (st : PosState) (direction : Direction) (price : ℚ) : ℚ :=
  match direction with
  | .long => price - st.entry
  | .short => st.entry - price

/-- What the rungs of a bar have done so far. -/
structure Rungs where
  st : PosState
  emitted : ℚ := 0
  acts : List SitterAction := []

/-- One rung: consumed once it is reached, and closed if both parts are fillable. -/
def rung (p : Position) (r : ℚ) (s : Rungs) (level : (ℚ × ℚ) × Nat) : Rungs :=
  if level.2 ∈ s.st.filled ∨ r < level.1.1 then s
  else
    let st := { s.st with filled := level.2 :: s.st.filled }
    let vol := snapDown (st.vol0 * level.1.2) cfg.volStep
    let residual := p.volume - s.emitted - vol
    if vol < cfg.volMin - ladderEps ∨ residual < cfg.volMin - ladderEps then { s with st := st }
    else ⟨st, s.emitted + vol, s.acts ++ [.partialClose p.ticket vol]⟩

/-- The rungs in order, with the cumulative residual of the bar. -/
def rungs (p : Position) (r : ℚ) (st : PosState) : Rungs :=
  cfg.partialLevels.zipIdx.foldl (rung cfg p r) { st := st }

/-- `_stage1_level`. -/
def stage1Level (entry spread : ℚ) : Direction → ℚ
  | .long => entry + (spread + cfg.commPerLot / cfg.valuePerMove)
  | .short => entry - (spread + cfg.commPerLot / cfg.valuePerMove)

/-- `_stage2_level`. -/
def stage2Level (entry d : ℚ) (candidate : Candle) : Direction → ℚ
  | .long => max (candidate.low - cfg.stage2Buffer) (entry + cfg.stage2MinLockR * d)
  | .short => min (candidate.high + cfg.stage2Buffer) (entry - cfg.stage2MinLockR * d)

/-- The stop a confirmed candle asks for, with the stages it would complete. -/
def staged (p : Position) (st : PosState) (spread : ℚ) (candidate : Candle) : Option (ℚ × PosState) :=
  let r := PosState.gain st p.direction candidate.close / st.d
  if cfg.stage2AtR ≤ r then
    some (stage2Level cfg st.entry st.d candidate p.direction, { st with stage1Done := true, stage2Done := true })
  else if !st.stage1Done ∧ cfg.stage1AtR ≤ r then
    some (stage1Level cfg st.entry spread p.direction, { st with stage1Done := true })
  else none

/-- The new stop is on the protected side of the current price. -/
def validAt (sl close : ℚ) : Direction → Bool
  | .long => sl < close
  | .short => close < sl

/-- The discrete stop: asked for if it is valid and tighter, else tried again on a later bar. -/
def stage (p : Position) (st : PosState) (close spread : ℚ) : Option Candle → List SitterAction × PosState
  | none => ([], st)
  | some candidate =>
    if st.stage2Done then ([], st)
    else match staged cfg p st spread candidate with
      | none => ([], st)
      | some (sl, done) =>
        if p.tightens sl && validAt sl close p.direction then ([.updateSl p.ticket sl], done) else ([], st)

variable (candle : Candle) (spread : Nat → ℚ)

/-- One position of the snapshot. -/
def visit (l : Ladder) (p : Position) : List SitterAction × Ladder :=
  let st := l.stateOf cfg p
  let r := PosState.gain st p.direction candle.close / st.d
  let s := rungs cfg p r st
  if 0 < cfg.finalTpR ∧ cfg.finalTpR ≤ r then
    -- the final target: the remainder, and the ticket is forgotten
    let remainder := p.volume - s.emitted
    (s.acts ++ (if ladderEps < remainder then [.partialClose p.ticket remainder] else []),
      { l with trades := l.trades.drop p.ticket })
  else
    let (acts, st) := stage cfg p s.st candle.close (spread p.ticket) l.prevCandle
    (s.acts ++ acts, { l with trades := l.trades.put p.ticket st })

def visits : Ladder → List Position → List SitterAction × Ladder
  | l, [] => ([], l)
  | l, p :: ps =>
    let (acts, l) := l.visit cfg candle spread p
    let (rest, l) := visits l ps
    (acts ++ rest, l)

/-- `on_bar`. -/
def onBar (l : Ladder) (positions : List Position) : List SitterAction × Ladder :=
  let (acts, l) := l.visits cfg candle spread positions
  (acts, { trades := l.trades.keep (positions.map (·.ticket)), prevCandle := some candle })

end Ladder

end FreqTrading
