import Mathlib.Algebra.Order.BigOperators.Group.List
import Mathlib.Tactic.FieldSimp
import FreqTrading.Lib.Calendar
import FreqTrading.Mql5.OrderBlocks
import FreqTrading.Mql5.Stops

/-!
# The confluences of the EA

What `TryEnter` of `mql5/SmcXau_EA.mq5` weighs: the sweep, the displacement, the change of delivery, the alignment, the
half of the day's range, and the point of interest, which is the POC of a day's profile or an order block. The profile
spreads the weight of a bar over the rows between its low and its high; no row falls outside the array, so that nothing is
lost, and the POC is in the reach of a bar that was copied for the day (`dayPoc_sound`).
-/

namespace FreqTrading

open Lib

namespace Ea

/-! ### What the EA reads -/

/-- The inputs of the entry, with the checks of the `SmcConfig` they mirror. -/
structure Inputs extends ObInputs where
  riskPct : ℚ := 2
  maxTradesPerDay : Int := 2
  dailyLossPct : ℚ := 10
  pocTol : ℚ := 2
  ticksPerRow : Int := 100
  minConfluences : Int := 3
  volMult : ℚ := 3 / 2
  volSmaPeriod : Nat := 20
  stopBuffer : ℚ := 1 / 2
  stopMaxDist : ℚ := 15
  lookbackBars : Nat := 300
  buffer_nonneg : 0 ≤ stopBuffer := by decide +kernel
  atr_pos : 1 ≤ atrPeriod := by decide +kernel

/-- The timeframes of the entry; the first is `g_trig_tf`. -/
inductive Timeframe
  | trigger | h4 | d1
  deriving DecidableEq, Repr

/-- The bars at the terminal: the closed ones, oldest first, and the one of `g_trig_tf` that is forming. -/
structure Market where
  closed : Timeframe → List Candle
  forming : Option Candle := none

/-- `CopyRates` and its like, from shift 1: the last `n` closed bars. -/
def copied (n : Nat) (bars : List Candle) : List Candle := bars.drop (bars.length - n)

/-- The closed bar at a shift of at least 1. -/
def shift (bars : List Candle) (k : Nat) : Option Candle := bars.reverse[k - 1]?

/-- `iOpen`, `iHigh`, `iLow`, `iClose` and `iVolume`: 0 where there is no bar. -/
def read (field : Candle → ℚ) (bar : Option Candle) : ℚ := (bar.map field).getD 0

/-! ### Indicators -/

/-- `AtrOnTf`. -/
def atrOnTf (period : Nat) (bars : List Candle) : ℚ :=
  let r := Rates.copy (copied (period + 2) bars)
  let cnt := r.close.length
  let tr (i : Nat) : ℚ := max (r.hi i - r.lo i) (max |r.hi i - r.cl (i - 1)| |r.lo i - r.cl (i - 1)|)
  if cnt < period + 1 then 0
  else
    let first := ((List.range' 1 period).map tr).sum / period
    (List.range' (period + 1) (cnt - (period + 1))).foldl (fun atr i => (atr * (period - 1) + tr i) / period) first

/-- `VolumeSmaOnTf`. -/
def volumeSmaOnTf (period : Nat) (bars : List Candle) : ℚ :=
  let v := copied period bars
  if v = [] ∨ v.length < period then 0 else (v.map (·.volume)).sum / period

/-! ### The profile of a day -/

variable (inp : Inputs) (sym : SymbolPrices) (m : Market)

/-- The first moment of the UTC day. -/
def dayStart (t : DateTime) : Int := t.us / microsPerDay * microsPerDay

/-- `CopyRatesRange_M15` on a day: the bars that open in it, or at its end, with the forming one. -/
def dayRates (now : DateTime) (dayOffset : Int) : List Candle :=
  let start := dayStart now - dayOffset * microsPerDay
  (m.closed .trigger ++ m.forming.toList).filter fun c => start ≤ c.ts && c.ts ≤ start + microsPerDay

/-- The smallest value; the default is for no bars. -/
def lowest (xs : List ℚ) : ℚ := xs.min?.getD 0

def highest (xs : List ℚ) : ℚ := xs.max?.getD 0

/-- The weight of a bar; a bar without volume counts as one. -/
def weight (c : Candle) : ℚ := if 0 < c.volume then c.volume else 1

/-- The row of a price. -/
def rowOf (gmin row x : ℚ) : Int := ⌊(x - gmin) / row⌋

/-- The body of the inner loop: a row outside the array is passed over. -/
def addRow (nrows : Int) (per : ℚ) (hist : List ℚ) (r : Int) : List ℚ :=
  if 0 ≤ r ∧ r < nrows then hist.modify r.toNat (· + per) else hist

/-- The rows from one to another, in either order. -/
def rowsBetween (r0 r1 : Int) : List Int :=
  let lo := min r0 r1
  (List.range (max r0 r1 - lo + 1).toNat).map fun (k : Nat) => lo + k

/-- The body of the outer loop. -/
def addBar (gmin row : ℚ) (nrows : Int) (hist : List ℚ) (c : Candle) : List ℚ :=
  let rows := rowsBetween (rowOf gmin row c.low) (rowOf gmin row c.high)
  rows.foldl (addRow nrows (weight c / rows.length)) hist

/-- `nrows`. -/
def rowCount (gmin gmax row : ℚ) : Int := ⌈(gmax - gmin) / row⌉ + 1

/-- `hist`. -/
def histogram (row : ℚ) (rates : List Candle) : List ℚ :=
  let gmin := lowest (rates.map (·.low))
  let nrows := rowCount gmin (highest (rates.map (·.high))) row
  rates.foldl (addBar gmin row nrows) (List.replicate nrows.toNat 0)

/-- `ArrayMaximum`: the index of the first largest entry. -/
def arrayMaximum (xs : List ℚ) : Option Nat := xs.findIdx? fun x => xs.all fun y => y ≤ x

/-- `DayPoc`. -/
def dayPoc (now : DateTime) (dayOffset : Int) : Option ℚ :=
  let rates := dayRates m now dayOffset
  let row := inp.ticksPerRow * sym.point
  let gmin := lowest (rates.map (·.low))
  let nrows := rowCount gmin (highest (rates.map (·.high))) row
  if rates.length < 5 ∨ row ≤ 0 ∨ nrows ≤ 0 ∨ 100000 < nrows then none
  else (arrayMaximum (histogram row rates)).map fun (pk : Nat) => gmin + (pk + 1 / 2) * row

/-- `DayEquilibrium`. -/
def dayEquilibrium (now : DateTime) : Option ℚ :=
  let rates := dayRates m now 0
  if rates.length < 1 then none
  else some ((highest (rates.map (·.high)) + lowest (rates.map (·.low))) / 2)

/-! ### The checks -/

variable (bias : Direction)

/-- `ScanStructure` on a timeframe. -/
def structureOf (tf : Timeframe) : StructResult :=
  scanStructure inp.swingLookback (Rates.copy (copied inp.lookbackBars (m.closed tf)))

/-- The last closed bar of `g_trig_tf`. -/
def Market.decision : Option Candle := shift (m.closed .trigger) 1

/-- `CheckSweep`: the level swept, of the last swing or of the last H4 bar. -/
def checkSweep (m15 : StructResult) : Option ℚ :=
  let dH := read (·.high) m.decision
  let dL := read (·.low) m.decision
  let dC := read (·.close) m.decision
  match bias with
  | .long =>
    match m15.lastLow.filter fun sp => dL < sp.price && sp.price < dC with
    | some sp => some sp.price
    | none =>
      let plo := read (·.low) (shift (m.closed .h4) 1)
      if dL < plo ∧ plo < dC then some plo else none
  | .short =>
    match m15.lastHigh.filter fun sp => sp.price < dH && dC < sp.price with
    | some sp => some sp.price
    | none =>
      let phi := read (·.high) (shift (m.closed .h4) 1)
      if phi < dH ∧ dC < phi then some phi else none

/-- `CheckDisplacement`. -/
def checkDisplacement (atr : ℚ) : Bool :=
  let rng := read (·.high) m.decision - read (·.low) m.decision
  let body := |read (·.close) m.decision - read (·.open') m.decision|
  let vol := read (·.volume) m.decision
  let vsma := volumeSmaOnTf inp.volSmaPeriod (m.closed .trigger)
  if rng ≤ 0 then false
  else if body / rng < inp.dispBodyFrac then false
  else if rng < inp.dispAtrMult * atr then false
  else !(0 < vol && 0 < vsma && vol < inp.volMult * vsma)

/-- `CheckCisd`: through the open of the bar before, which went the other way. -/
def checkCisd : Bool :=
  let dC := read (·.close) m.decision
  let pO := read (·.open') (shift (m.closed .trigger) 2)
  let pC := read (·.close) (shift (m.closed .trigger) 2)
  let p2C := read (·.close) (shift (m.closed .trigger) 3)
  match bias with
  | .long => pC < pO && pO < dC && p2C ≤ pO
  | .short => pO < pC && dC < pO && pO ≤ p2C

/-- `CheckAlignment`. -/
def checkAlignment (m15 : StructResult) : Bool :=
  m15.trend = some bias ||
    (m15.lastEvent = some .choch && m15.lastEventDir = some bias && (inp.lookbackBars : Int) - 2 ≤ m15.lastEventBar)

/-- `CheckPremiumDiscount`: without bars of the day it lets pass. -/
def checkPremiumDiscount (now : DateTime) : Bool :=
  let dC := read (·.close) m.decision
  match (dayEquilibrium m now).or (dayPoc inp sym m now 0) with
  | none => true
  | some eq =>
    match bias with
    | .long => dC ≤ eq
    | .short => eq ≤ dC

/-- What `ResolvePoi` finds. -/
inductive Poi
  | poc (level : ℚ)
  | priorPoc (level : ℚ)
  | d1Ob (top bottom : ℚ)
  | h4Ob (top bottom : ℚ)
  deriving DecidableEq, Repr

/-- `ob_top` and `ob_bottom`, where `ob_used`. -/
def Poi.block : Poi → Option (ℚ × ℚ)
  | .poc _ | .priorPoc _ => none
  | .d1Ob top bottom | .h4Ob top bottom => some (top, bottom)

/-- `FindOrderBlock` on a timeframe, for the bar of the decision. -/
def blockOf (tf : Timeframe) : Option (ℚ × ℚ) :=
  findOrderBlock inp.toObInputs (Rates.copy (copied inp.lookbackBars (m.closed tf))) bias (read (·.low) m.decision)
    (read (·.high) m.decision)

/-- `ResolvePoi`: the POC of the day, of the day before, a block of D1, a block of H4. -/
def resolvePoi (now : DateTime) : Option Poi :=
  let near (level : ℚ) : Bool := |read (·.close) m.decision - level| ≤ inp.pocTol
  ((((dayPoc inp sym m now 0).filter near).map Poi.poc).or
    (((dayPoc inp sym m now 1).filter near).map Poi.priorPoc)).or
    (((blockOf inp m bias .d1).map fun (top, bottom) => Poi.d1Ob top bottom).or
      ((blockOf inp m bias .h4).map fun (top, bottom) => Poi.h4Ob top bottom))

/-! ### The profile keeps the volume of the day -/

section profile

variable {row gmin gmax per : ℚ} {nrows r : Int} {hist : List ℚ} {rates : List Candle} {c : Candle}

theorem lowest_le {xs : List ℚ} {x : ℚ} (hx : x ∈ xs) : lowest xs ≤ x := by
  obtain ⟨least, hleast⟩ := Option.isSome_iff_exists.mp (List.isSome_min?_of_mem hx)
  rw [lowest, hleast]
  exact (List.min?_eq_some_iff.mp hleast).2 x hx

theorem le_highest {xs : List ℚ} {x : ℚ} (hx : x ∈ xs) : x ≤ highest xs := by
  obtain ⟨most, hmost⟩ := Option.isSome_iff_exists.mp (List.isSome_max?_of_mem hx)
  rw [highest, hmost]
  exact (List.max?_eq_some_iff.mp hmost).2 x hx

theorem weight_pos (c : Candle) : 0 < weight c := by
  unfold weight
  split
  · assumption
  · exact one_pos

theorem sum_modify {xs : List ℚ} {i : Nat} (hi : i < xs.length) (x : ℚ) : (xs.modify i (· + x)).sum = xs.sum + x := by
  induction xs generalizing i with
  | nil => exact absurd hi (Nat.not_lt_zero i)
  | cons y ys ih =>
    cases i with
    | zero =>
      rw [List.modify_zero_cons, List.sum_cons, List.sum_cons]
      ring
    | succ i =>
      rw [List.modify_succ_cons, List.sum_cons, List.sum_cons, ih (Nat.lt_of_succ_lt_succ hi)]
      ring

theorem addRow_length (nrows : Int) (per : ℚ) (hist : List ℚ) (r : Int) : (addRow nrows per hist r).length = hist.length := by
  unfold addRow
  split
  · exact List.length_modify _ _ _
  · rfl

theorem addRow_sum (hlen : hist.length = nrows.toNat) (hr : 0 ≤ r ∧ r < nrows) :
    (addRow nrows per hist r).sum = hist.sum + per := by
  rw [addRow, if_pos hr]
  exact sum_modify (by omega) per

theorem addRow_filled {k : Nat} {v : ℚ} (h : (addRow nrows per hist r)[k]? = some v) (hv : v ≠ 0) :
    (k : Int) = r ∨ ∃ w, hist[k]? = some w ∧ w ≠ 0 := by
  unfold addRow at h
  split at h
  · next hr =>
    by_cases hk : r.toNat = k
    · exact Or.inl (by omega)
    · rw [List.getElem?_modify_ne _ _ hk] at h
      exact Or.inr ⟨v, h, hv⟩
  · exact Or.inr ⟨v, h, hv⟩

theorem foldl_addRow_length (rows : List Int) (hist : List ℚ) : (rows.foldl (addRow nrows per) hist).length = hist.length := by
  induction rows generalizing hist with
  | nil => rfl
  | cons r rows ih => rw [List.foldl_cons, ih, addRow_length]

theorem foldl_addRow_sum {rows : List Int} (hlen : hist.length = nrows.toNat) (hrows : ∀ r ∈ rows, 0 ≤ r ∧ r < nrows) :
    (rows.foldl (addRow nrows per) hist).sum = hist.sum + rows.length * per := by
  induction rows generalizing hist with
  | nil => simp
  | cons r rows ih =>
    rw [List.foldl_cons, ih ((addRow_length nrows per hist r).trans hlen) fun x hx => hrows x (List.mem_cons_of_mem r hx),
      addRow_sum hlen (hrows r List.mem_cons_self), List.length_cons]
    push_cast
    ring

theorem foldl_addRow_filled {rows : List Int} {k : Nat} {v : ℚ} (h : (rows.foldl (addRow nrows per) hist)[k]? = some v)
    (hv : v ≠ 0) : (k : Int) ∈ rows ∨ ∃ w, hist[k]? = some w ∧ w ≠ 0 := by
  induction rows generalizing hist with
  | nil => exact Or.inr ⟨v, h, hv⟩
  | cons r rows ih =>
    rcases ih h with hmem | ⟨w, hw, hne⟩
    · exact Or.inl (List.mem_cons_of_mem r hmem)
    · rcases addRow_filled hw hne with hk | hold
      · exact Or.inl (hk ▸ List.mem_cons_self)
      · exact Or.inr hold

theorem mem_rowsBetween {r0 r1 : Int} (h : r0 ≤ r1) : r ∈ rowsBetween r0 r1 ↔ r0 ≤ r ∧ r ≤ r1 := by
  unfold rowsBetween
  rw [min_eq_left h, max_eq_right h, List.mem_map]
  constructor
  · rintro ⟨k, hk, rfl⟩
    rw [List.mem_range] at hk
    omega
  · rintro ⟨hlow, hhigh⟩
    exact ⟨(r - r0).toNat, List.mem_range.mpr (by omega), by omega⟩

theorem rowOf_le_rowOf (hrow : 0 < row) {x y : ℚ} (h : x ≤ y) : rowOf gmin row x ≤ rowOf gmin row y :=
  Int.floor_le_floor (div_le_div_of_nonneg_right (sub_le_sub_right h gmin) hrow.le)

theorem rows_inside (hrow : 0 < row) (hlow : gmin ≤ c.low) (hhigh : c.high ≤ gmax) :
    ∀ r ∈ rowsBetween (rowOf gmin row c.low) (rowOf gmin row c.high), 0 ≤ r ∧ r < rowCount gmin gmax row := by
  intro r hr
  rw [mem_rowsBetween (rowOf_le_rowOf hrow c.low_le_high)] at hr
  constructor
  · exact le_trans (Int.floor_nonneg.mpr (div_nonneg (sub_nonneg.mpr hlow) hrow.le)) hr.1
  · have htop : rowOf gmin row c.high ≤ ⌈(gmax - gmin) / row⌉ :=
      (Int.floor_le_ceil _).trans (Int.ceil_le_ceil (div_le_div_of_nonneg_right (sub_le_sub_right hhigh gmin) hrow.le))
    unfold rowCount
    omega

theorem rowsBetween_ne_nil (r0 r1 : Int) : (rowsBetween r0 r1).length ≠ 0 := by
  unfold rowsBetween
  rw [List.length_map, List.length_range]
  omega

theorem addBar_length (c : Candle) (hist : List ℚ) : (addBar gmin row nrows hist c).length = hist.length :=
  foldl_addRow_length _ hist

theorem addBar_sum (hrow : 0 < row) (hlow : gmin ≤ c.low) (hhigh : c.high ≤ gmax)
    (hlen : hist.length = (rowCount gmin gmax row).toNat) :
    (addBar gmin row (rowCount gmin gmax row) hist c).sum = hist.sum + weight c := by
  have hne : ((rowsBetween (rowOf gmin row c.low) (rowOf gmin row c.high)).length : ℚ) ≠ 0 :=
    Nat.cast_ne_zero.mpr (rowsBetween_ne_nil _ _)
  unfold addBar
  rw [foldl_addRow_sum hlen (rows_inside hrow hlow hhigh), mul_div_cancel₀ _ hne]

theorem foldl_addBar_sum (hrow : 0 < row) (hrates : ∀ c ∈ rates, gmin ≤ c.low ∧ c.high ≤ gmax)
    (hlen : hist.length = (rowCount gmin gmax row).toNat) :
    (rates.foldl (addBar gmin row (rowCount gmin gmax row)) hist).sum = hist.sum + (rates.map weight).sum := by
  induction rates generalizing hist with
  | nil => simp
  | cons c rates ih =>
    obtain ⟨hlow, hhigh⟩ := hrates c List.mem_cons_self
    rw [List.foldl_cons, ih (fun x hx => hrates x (List.mem_cons_of_mem c hx)) ((addBar_length c hist).trans hlen),
      addBar_sum hrow hlow hhigh hlen, List.map_cons, List.sum_cons, add_assoc]

theorem foldl_addBar_filled (hrow : 0 < row) {k : Nat} {v : ℚ} (h : (rates.foldl (addBar gmin row nrows) hist)[k]? = some v)
    (hv : v ≠ 0) : (∃ c ∈ rates, rowOf gmin row c.low ≤ k ∧ k ≤ rowOf gmin row c.high) ∨
      ∃ w, hist[k]? = some w ∧ w ≠ 0 := by
  induction rates generalizing hist with
  | nil => exact Or.inr ⟨v, h, hv⟩
  | cons c rates ih =>
    rcases ih h with ⟨d, hd, hreach⟩ | ⟨w, hw, hne⟩
    · exact Or.inl ⟨d, List.mem_cons_of_mem c hd, hreach⟩
    · rcases foldl_addRow_filled hw hne with hmem | hold
      · exact Or.inl ⟨c, List.mem_cons_self, (mem_rowsBetween (rowOf_le_rowOf hrow c.low_le_high)).mp hmem⟩
      · exact Or.inr hold

theorem histogram_sum (hrow : 0 < row) (rates : List Candle) : (histogram row rates).sum = (rates.map weight).sum := by
  unfold histogram
  dsimp only
  rw [foldl_addBar_sum hrow (fun c hc => ⟨lowest_le (List.mem_map_of_mem hc), le_highest (List.mem_map_of_mem hc)⟩)
    List.length_replicate]
  simp

theorem histogram_filled (hrow : 0 < row) {k : Nat} {v : ℚ} (h : (histogram row rates)[k]? = some v) (hv : v ≠ 0) :
    ∃ c ∈ rates, rowOf (lowest (rates.map (·.low))) row c.low ≤ k ∧ k ≤ rowOf (lowest (rates.map (·.low))) row c.high := by
  rcases foldl_addBar_filled hrow h hv with hreach | ⟨w, hw, hne⟩
  · exact hreach
  · exact absurd (List.eq_of_mem_replicate (List.mem_of_getElem? hw)) hne

theorem arrayMaximum_spec {xs : List ℚ} {k : Nat} (h : arrayMaximum xs = some k) :
    ∃ v, xs[k]? = some v ∧ ∀ y ∈ xs, y ≤ v := by
  obtain ⟨hk, hbest, -⟩ := List.findIdx?_eq_some_iff_getElem.mp h
  exact ⟨xs[k], List.getElem?_eq_getElem hk, fun y hy => of_decide_eq_true (List.all_eq_true.mp hbest y hy)⟩

theorem centre_near (hrow : 0 < row) {k : Nat} (hlow : rowOf gmin row c.low ≤ k) (hhigh : (k : Int) ≤ rowOf gmin row c.high) :
    c.low - row / 2 ≤ gmin + (k + 1 / 2) * row ∧ gmin + (k + 1 / 2) * row ≤ c.high + row / 2 := by
  have hbelow : (c.low - gmin) / row < k + 1 := by
    have := Int.lt_floor_add_one ((c.low - gmin) / row)
    have hcast : ((rowOf gmin row c.low : Int) : ℚ) ≤ k := by exact_mod_cast hlow
    unfold rowOf at hcast
    linarith
  have habove : (k : ℚ) ≤ (c.high - gmin) / row := by
    have := Int.le_floor.mp hhigh
    exact_mod_cast this
  rw [div_lt_iff₀ hrow] at hbelow
  rw [le_div_iff₀ hrow] at habove
  constructor <;> linarith

theorem histogram_best_pos (hrow : 0 < row) (hrates : rates ≠ []) {v : ℚ} (hbest : ∀ y ∈ histogram row rates, y ≤ v) :
    0 < v := by
  have htotal : 0 < (histogram row rates).sum := by
    rw [histogram_sum hrow]
    refine List.sum_pos _ (fun x hx => ?_) (by simpa using hrates)
    obtain ⟨c, -, rfl⟩ := List.mem_map.mp hx
    exact weight_pos c
  by_contra hneg
  have hle := List.sum_le_card_nsmul (histogram row rates) v hbest
  exact absurd (htotal.trans_le hle) (not_lt.mpr (nsmul_nonpos (not_lt.mp hneg) _))

/-- **The POC of a day is a price of the bars copied for it.** The rows of its profile have all their weight, the POC is
the centre of a row with the most of it, and one of these bars comes within half a row of it. -/
theorem dayPoc_sound (inp : Inputs) (sym : SymbolPrices) (m : Market) (now : DateTime) (dayOffset : Int) {poc : ℚ}
    (h : dayPoc inp sym m now dayOffset = some poc) :
    let rates := dayRates m now dayOffset
    let row := inp.ticksPerRow * sym.point
    let hist := histogram row rates
    hist.sum = (rates.map weight).sum ∧
      (∃ (pk : Nat) (v : ℚ), hist[pk]? = some v ∧ (∀ y ∈ hist, y ≤ v) ∧ poc = lowest (rates.map (·.low)) + (pk + 1 / 2) * row) ∧
      ∃ c ∈ rates, c.low - row / 2 ≤ poc ∧ poc ≤ c.high + row / 2 := by
  intro rates row hist
  unfold dayPoc at h
  dsimp only at h
  split at h
  · cases h
  · next hguard =>
    obtain ⟨hcount, hrow, -⟩ : 5 ≤ rates.length ∧ 0 < row ∧ _ := by simpa only [not_or, not_lt, not_le] using hguard
    obtain ⟨pk, hpk, rfl⟩ := Option.map_eq_some_iff.mp h
    obtain ⟨v, hv, hbest⟩ := arrayMaximum_spec hpk
    have hsome : rates ≠ [] := List.ne_nil_of_length_pos (by omega)
    have hpos := histogram_best_pos hrow hsome hbest
    obtain ⟨c, hc, hlow, hhigh⟩ := histogram_filled hrow hv hpos.ne'
    exact ⟨histogram_sum hrow rates, ⟨pk, v, hv, hbest, rfl⟩, c, hc, centre_near hrow hlow hhigh⟩

end profile

def midday : DateTime := ⟨43200000000, by decide⟩

def rangeDay : Market where
  closed _ := [barOf 0 2000 2004 1999 2003, barOf 1 2003 2005 2002 2004, barOf 2 2004 2006 2003 2003,
    barOf 3 2003 2004 2001 2002, barOf 4 2002 2003 2000 2002]

theorem dayPoc_sound_range :
    ∃ (inp : Inputs) (poc : ℚ), dayPoc inp {} rangeDay midday 0 = some poc ∧
      ∃ c ∈ dayRates rangeDay midday 0, c.low - 1 / 2 ≤ poc ∧ poc ≤ c.high + 1 / 2 := by
  have h : dayPoc {} {} rangeDay midday 0 = some (4007 / 2) := by decide +kernel
  obtain ⟨-, -, c, hc, hlow, hhigh⟩ := dayPoc_sound {} {} rangeDay midday 0 h
  have hrow : ((100 : Int) : ℚ) * SymbolPrices.point {} = 1 := by decide +kernel
  exact ⟨{}, 4007 / 2, h, c, hc, hrow ▸ hlow, hrow ▸ hhigh⟩

end Ea

end FreqTrading
