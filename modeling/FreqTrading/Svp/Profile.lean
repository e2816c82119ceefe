import Mathlib.Data.Rat.Floor
import FreqTrading.Models

/-!
# Volume profiles

`VolumeProfile` of `orb/svp/profile.py` and the snapshots of `orb/svp/levels.py`. The histogram is a function
of the row; a row without an entry weighs 0, and the rows with an entry lie between `minRow` and `maxRow`.
-/

namespace FreqTrading

/-! ### Snapshots -/

/-- The day types of a profile: balanced, bullish, bearish, double, thin trend, unclassified. -/
inductive Shape
  | d | p | b | double | i | none
  deriving DecidableEq, Repr

structure ProfileLevels where
  poc : ℚ
  vah : ℚ
  val : ℚ
  hvns : List ℚ
  lvns : List ℚ
  shape : Shape
  totalVolume : ℚ
  deriving DecidableEq, Repr

/-- A completed profile, carried into the next session. -/
structure PriorProfile where
  sessionId : Int
  poc : ℚ
  vah : ℚ
  val : ℚ
  shape : Shape
  deriving DecidableEq, Repr

/-- `va_tiebreak`. -/
inductive Tiebreak
  | up | down
  deriving DecidableEq, Repr

/-! ### The accumulator -/

structure VolumeProfile where
  rowSize : ℚ
  valueAreaPct : ℚ := 70 / 100
  hvnFrac : ℚ := 70 / 100
  lvnFrac : ℚ := 30 / 100
  minBars : Int := 20
  maxRowsPerBar : Int := 5000
  vaTiebreak : Tiebreak := .up
  iMaxPeak : ℚ := 3 / 2
  tpoFallback : Bool := false
  anchor : Option ℚ := none
  hist : Int → ℚ := fun _ => 0
  /-- The lowest and the highest row with an entry. -/
  span : Option (Int × Int) := none
  total : ℚ := 0
  bars : Int := 0

namespace VolumeProfile

variable (p : VolumeProfile)

/-! ### Geometry -/

def rowOf (price : ℚ) : Int := ⌊(price - p.anchor.getD 0) / p.rowSize⌋

/-- The centre of the row. -/
def rowPrice (row : Int) : ℚ := p.anchor.getD 0 + (row + 1 / 2) * p.rowSize

/-- The rows `lo, …, hi`. -/
def rows (lo hi : Int) : List Int := (List.range (hi + 1 - lo).toNat).map fun (k : Nat) => lo + k

/-! ### Accumulation -/

def weight (c : Candle) : ℚ := if 0 < c.volume then c.volume else if p.tpoFallback then 1 else 0

/-- The bar's weight, spread evenly over its rows. -/
def spread (weight : ℚ) (lo hi : Int) : VolumeProfile :=
  let share := weight / (hi - lo + 1 : Int)
  { p with
    hist := fun r => if lo ≤ r ∧ r ≤ hi then p.hist r + share else p.hist r
    total := p.total + weight
    span := some (match p.span with
      | none => (lo, hi)
      | some (mn, mx) => (min mn lo, max mx hi)) }

def update (c : Candle) : VolumeProfile :=
  let p := { p with anchor := some (p.anchor.getD c.low), bars := p.bars + 1 }
  let weight := p.weight c
  if weight ≤ 0 then p
  else
    let lo := p.rowOf c.low
    let hi := p.rowOf c.high
    -- swapped if the grid is upside down
    let (lo, hi) := if hi < lo then (hi, lo) else (lo, hi)
    if p.maxRowsPerBar < hi - lo + 1 then p else p.spread weight lo hi

def ready : Bool := p.minBars ≤ p.bars && 0 < p.total

/-! ### Point of control and value area -/

/-- The lowest of the heaviest rows. -/
def pocRow : Option Int :=
  match p.span with
  | none => none
  | some (mn, mx) => some ((rows mn mx).foldl (fun best r => if p.hist best < p.hist r then r else best) mn)

/-- The value area while it grows: its weight, its rows, and the next rows above and below. -/
structure ValueArea where
  va : ℚ
  lo : Int
  hi : Int
  up : Int
  dn : Int
  deriving DecidableEq, Repr

/-- Whether the two rows above are absorbed before the two below. -/
def goesUp (mn mx : Int) (a : ValueArea) : Bool :=
  let upSum := p.hist a.up + p.hist (a.up + 1)
  let dnSum := p.hist a.dn + p.hist (a.dn - 1)
  if a.dn < mn then true
  else if mx < a.up then false
  else if dnSum < upSum then true
  else if upSum < dnSum then false
  else p.vaTiebreak = .up

def absorb (mn mx : Int) (a : ValueArea) : ValueArea :=
  if p.goesUp mn mx a then
    if a.up + 1 ≤ mx then
      { a with va := a.va + p.hist a.up + p.hist (a.up + 1), hi := a.up + 1, up := a.up + 2 }
    else { a with va := a.va + p.hist a.up, hi := a.up, up := a.up + 1 }
  else
    if mn ≤ a.dn - 1 then
      { a with va := a.va + p.hist a.dn + p.hist (a.dn - 1), lo := a.dn - 1, dn := a.dn - 2 }
    else { a with va := a.va + p.hist a.dn, lo := a.dn, dn := a.dn - 1 }

/-- The loop of `_value_area`; each turn takes at least one row, so the number of rows is fuel enough. -/
def grow (mn mx : Int) (target : ℚ) : Nat → ValueArea → ValueArea
  | 0, a => a
  | n + 1, a =>
    if a.va < target then
      if mx < a.up ∧ a.dn < mn then a else grow mn mx target n (p.absorb mn mx a)
    else a

/-- The lowest and the highest row of the value area. -/
def valueArea : Option (Int × Int) :=
  match p.pocRow, p.span with
  | some poc, some (mn, mx) =>
    if p.total ≤ 0 then none
    else
      let a := p.grow mn mx (p.valueAreaPct * p.total) (mx - mn + 1).toNat ⟨p.hist poc, poc, poc, poc + 1, poc - 1⟩
      some (a.lo, a.hi)
  | _, _ => none

/-! ### Nodes -/

def rowVols (mn mx : Int) : List ℚ := (rows mn mx).map p.hist

def maxVol (vols : List ℚ) : ℚ := vols.foldl max 0

/-- The mean weight of the occupied rows. -/
def meanVol (vols : List ℚ) : ℚ :=
  let occupied := vols.filter fun v => 0 < v
  if occupied = [] then 0 else occupied.sum / occupied.length

/-- A row that weighs enough and no less than its neighbours. -/
def isPeak (mn mx : Int) (thresh : ℚ) (r : Int) : Bool :=
  thresh ≤ p.hist r && (r = mn || p.hist (r - 1) ≤ p.hist r) && (r = mx || p.hist (r + 1) ≤ p.hist r)

/-- Runs of consecutive rows. -/
def runs : List Int → List (List Int)
  | [] => []
  | r :: rest =>
    match runs rest with
    | (s :: run) :: others => if r + 1 = s then (r :: s :: run) :: others else [r] :: (s :: run) :: others
    | others => [r] :: others

/-- The heaviest row of a run, the lowest of equals. -/
def heaviest (run : List Int) : Option Int :=
  run.head?.map fun first => run.foldl (fun best r => if p.hist best < p.hist r then r else best) first

def suppressAdjacent (peaks : List Int) : List Int := (runs peaks).filterMap p.heaviest

/-- The first of the lightest rows strictly between two nodes. -/
def lightestBetween (a b : Int) : Option Int :=
  match rows (a + 1) (b - 1) with
  | [] => none
  | first :: rest => some (rest.foldl (fun best r => if p.hist r < p.hist best then r else best) first)

def nodes : List Int × List Int :=
  match p.span with
  | none => ([], [])
  | some (mn, mx) =>
    let vols := p.rowVols mn mx
    if maxVol vols ≤ 0 then ([], [])
    else
      let hvn := p.suppressAdjacent ((rows mn mx).filter (p.isPeak mn mx (p.hvnFrac * maxVol vols)))
      let lvn := (hvn.zip hvn.tail).filterMap fun (a, b) =>
        (p.lightestBetween a b).filter fun r => p.hist r ≤ p.lvnFrac * meanVol vols
      (hvn, lvn)

/-! ### Shape and levels -/

def classifyShape : Shape :=
  match p.pocRow, p.valueArea, p.span with
  | some poc, some _, some (mn, mx) =>
    if mx = mn then .none
    else
      let vols := p.rowVols mn mx
      let (hvn, lvn) := p.nodes
      -- no dominant node
      if 0 < meanVol vols ∧ maxVol vols / meanVol vols < p.iMaxPeak then .i
      else if 2 ≤ hvn.length ∧ 1 ≤ lvn.length then .double
      else
        let pos : ℚ := (poc - mn : Int) / (mx - mn : Int)
        if 66 / 100 ≤ pos then .p else if pos ≤ 34 / 100 then .b else .d
  | _, _, _ => .none

def poc : Option ℚ := if p.ready then p.pocRow.map p.rowPrice else none

/-- The snapshot, once the profile is ready. -/
def levels : Option ProfileLevels :=
  if p.ready then
    match p.pocRow, p.valueArea with
    | some poc, some (lo, hi) =>
      let (hvn, lvn) := p.nodes
      some {
        poc := p.rowPrice poc
        vah := p.rowPrice hi
        val := p.rowPrice lo
        hvns := hvn.map p.rowPrice
        lvns := lvn.map p.rowPrice
        shape := p.classifyShape
        totalVolume := p.total }
    | _, _ => none
  else none

end VolumeProfile

end FreqTrading
