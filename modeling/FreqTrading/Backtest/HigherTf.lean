import FreqTrading.Lib.Buckets
import FreqTrading.Backtest.Aggregate

/-!
# Higher timeframes from a base

`scripts/build_higher_tf.py` makes the M30, M45, M90, H1, H2 and H4 files of a market from its M15 file, which was
itself aggregated by the broker. The rows that `load_csv` reads are not checked as the engine checks its candles, so
`aggregate_candles` is here on any rows; on checked candles it is `aggregateCandles` (`aggregateCandles_row`).
-/

namespace FreqTrading

open Lib TimeframeAggregator

/-- A `Candle` as `load_csv` makes it: nothing is known of its prices and its volume. -/
structure FileCandle where
  ts : Int
  open' : ℚ
  high : ℚ
  low : ℚ
  close : ℚ
  volume : ℚ
  deriving DecidableEq, Repr

namespace FileCandle

/-- A bucket of which this is the first candle. -/
def opening (ts : Int) (c : FileCandle) : FileCandle := { c with ts := ts }

/-- A bucket with one more candle. -/
def fold (b c : FileCandle) : FileCandle :=
  { b with high := max b.high c.high, low := min b.low c.low, close := c.close, volume := b.volume + c.volume }

def foldable : Foldable FileCandle Int where
  time := FileCandle.ts
  opening := opening
  fold := fold
  time_opening _ _ := rfl
  time_fold _ _ := rfl
  opening_self _ := rfl
  opening_opening _ _ _ := rfl
  opening_fold _ _ _ := rfl
  fold_opening _ _ _ := rfl
  fold_assoc b c d := by simp only [fold, max_assoc, min_assoc, add_assoc]

/-- `aggregate_candles`. -/
def aggregateCandles (candles : List FileCandle) (minutes : Int) : List FileCandle :=
  if minutes ≤ 1 then candles else foldable.collect (Batch.floored minutes) candles

end FileCandle

/-! ### The buckets of a timeframe -/

section keys

variable {minutes fine : Int}

theorem floored_le (h : Divides minutes) {ts ts' : Int} (hle : ts ≤ ts') :
    Batch.floored minutes ts ≤ Batch.floored minutes ts' := by
  rw [floored_eq, floored_eq, bucketOpen_eq h, bucketOpen_eq h]
  exact mul_le_mul_of_nonneg_right (Int.ediv_le_ediv (width_pos h) hle) (width_pos h).le

theorem floored_floored (h : Divides minutes) (hfine : Divides fine) (hdvd : fine ∣ minutes) (ts : Int) :
    Batch.floored minutes (Batch.floored fine ts) = Batch.floored minutes ts := by
  obtain ⟨k, hk⟩ := hdvd
  have hwidth : width minutes = width fine * k := by
    unfold width
    rw [hk]
    ring
  have hquot : ∀ ts : Int, ts / width minutes = ts / width fine / k := by
    intro ts
    rw [hwidth, Int.ediv_ediv_of_nonneg (width_pos hfine).le]
  simp only [floored_eq, bucketOpen_eq h, bucketOpen_eq hfine, hquot, Int.mul_ediv_cancel _ (width_pos hfine).ne']

theorem divides_of_dvd (h : Divides minutes) (hpos : 1 ≤ fine) (hdvd : fine ∣ minutes) : Divides fine :=
  ⟨hpos, hdvd.trans h.2⟩

end keys

theorem collect_floored {α : Type*} (F : Foldable α Int) {fine minutes : Int} (h : Divides minutes) (hpos : 1 ≤ fine)
    (hdvd : fine ∣ minutes) {cs : List α} (hsorted : cs.Pairwise fun c d => F.time c ≤ F.time d) :
    F.collect (Batch.floored minutes) (F.collect (Batch.floored fine) cs) = F.collect (Batch.floored minutes) cs := by
  have hfine := divides_of_dvd h hpos hdvd
  exact Foldable.collect_collect (fun _ _ => floored_le hfine) (fun _ _ => floored_le h)
    (floored_floored hfine hfine (dvd_refl fine)) (floored_floored h h (dvd_refl minutes)) (floored_floored h hfine hdvd)
    hsorted

/-! ### The files -/

/-- **Aggregation composes.** The candles of a timeframe are those made from the candles of a finer one that divides
it. -/
theorem FileCandle.aggregate_aggregate {fine minutes : Int} (h : Divides minutes) (hdvd : fine ∣ minutes)
    (candles : List FileCandle) (hsorted : candles.Pairwise fun c d => c.ts ≤ d.ts) :
    aggregateCandles (aggregateCandles candles fine) minutes = aggregateCandles candles minutes := by
  by_cases hone : fine ≤ 1
  · have hsame : aggregateCandles candles fine = candles := if_pos hone
    rw [hsame]
  · have hle : fine ≤ minutes := Int.le_of_dvd (by have := h.1; omega) hdvd
    unfold aggregateCandles
    rw [if_neg hone, if_neg (by omega), if_neg (by omega)]
    exact collect_floored foldable h (by omega) hdvd hsorted

/-- A row of a file. -/
def rowAt (minute : Int) (o h l c v : ℚ) : FileCandle := ⟨minute * minuteMicros, o, h, l, c, v⟩

/-- Four rows of M15, two of an hour, one after a gap, and one after midnight. -/
def baseRows : List FileCandle :=
  [rowAt 0 10 12 9 11 5, rowAt 45 11 13 10 12 4, rowAt 150 12 12 8 9 1, rowAt 1440 9 10 9 10 2]

theorem hour_divides : Divides 60 := ⟨by decide, 24, by decide⟩

theorem half_hour_dvd : (30 : Int) ∣ 60 := ⟨2, by decide⟩

/-- The theorem on these rows: by way of M30 to H1. -/
theorem aggregate_aggregate_baseRows :
    FileCandle.aggregateCandles (FileCandle.aggregateCandles baseRows 30) 60 = FileCandle.aggregateCandles baseRows 60 ∧
      (FileCandle.aggregateCandles baseRows 60).map (·.volume) = [9, 1, 2] :=
  ⟨FileCandle.aggregate_aggregate hour_divides half_hour_dvd baseRows (by decide +kernel), by decide +kernel⟩

/-! ### The candles of the engine -/

namespace Candle

/-- A row with the values of a candle. -/
def row (c : Candle) : FileCandle := ⟨c.ts, c.open', c.high, c.low, c.close, c.volume⟩

def foldable : Foldable Candle Int where
  time := Candle.ts
  opening k c := c.opening k
  fold := fold
  time_opening _ _ := rfl
  time_fold _ _ := rfl
  opening_self _ := rfl
  opening_opening _ _ _ := rfl
  opening_fold _ _ _ := rfl
  fold_opening _ _ _ := rfl
  fold_assoc b c d := by simp only [fold, max_assoc, min_assoc, add_assoc]

end Candle

theorem aggregateCandles_eq (candles : List Candle) (minutes : Int) :
    aggregateCandles candles minutes =
      if minutes ≤ 1 then candles else Candle.foldable.collect (Batch.floored minutes) candles := by
  have hstep : ∀ (s : Batch) (c : Candle), ((s.step minutes c).out, (s.step minutes c).current) =
      Candle.foldable.collectStep (Batch.floored minutes) (s.out, s.current) c := by
    rintro ⟨out, current⟩ c
    cases current with
    | none => rfl
    | some b =>
      unfold Batch.step
      rcases lt_trichotomy (Batch.floored minutes c.ts) b.ts with hold | hjoin | hnew
      · rw [Foldable.collectStep_old hold]
        simp only [if_neg hold.ne, if_neg hold.not_gt]
      · rw [Foldable.collectStep_join hjoin]
        simp only [if_pos hjoin]
        rfl
      · rw [Foldable.collectStep_new hnew]
        simp only [if_neg hnew.ne', if_pos hnew]
        rfl
  have hpass : ∀ (candles : List Candle) (s : Batch),
      ((candles.foldl (Batch.step minutes) s).out, (candles.foldl (Batch.step minutes) s).current) =
        candles.foldl (Candle.foldable.collectStep (Batch.floored minutes)) (s.out, s.current) := by
    intro candles
    induction candles with
    | nil => exact fun _ => rfl
    | cons c candles ih =>
      intro s
      rw [List.foldl_cons, ih, hstep, List.foldl_cons]
  unfold aggregateCandles
  split
  · rfl
  · unfold Foldable.collect
    dsimp only
    rw [← hpass candles {}]

/-- On checked candles the function is the same. -/
theorem aggregateCandles_row (candles : List Candle) (minutes : Int) :
    (aggregateCandles candles minutes).map Candle.row = FileCandle.aggregateCandles (candles.map Candle.row) minutes := by
  rw [aggregateCandles_eq]
  unfold FileCandle.aggregateCandles
  split
  · rfl
  · exact Foldable.collect_map Candle.row (fun _ => rfl) (fun _ _ => rfl) (fun _ _ => rfl) candles

theorem aggregateCandles_composes {fine minutes : Int} (h : Divides minutes) (hfine : 1 < fine) (hdvd : fine ∣ minutes)
    {candles : List Candle} (hsorted : candles.Pairwise fun c d => c.ts ≤ d.ts) :
    aggregateCandles (aggregateCandles candles fine) minutes = aggregateCandles candles minutes := by
  have hle : fine ≤ minutes := Int.le_of_dvd (by have := h.1; omega) hdvd
  rw [aggregateCandles_eq _ fine, aggregateCandles_eq _ minutes, aggregateCandles_eq _ minutes, if_neg (by omega),
    if_neg (by omega), if_neg (by omega)]
  exact collect_floored Candle.foldable h (by omega) hdvd hsorted

end FreqTrading
