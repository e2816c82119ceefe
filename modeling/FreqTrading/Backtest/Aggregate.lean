import FreqTrading.Timeframes

/-!
# Aggregation in the backtests

`aggregate_candles` of `scripts/sim_realistic.py`, which folds a whole list of candles into buckets, and `HtfErl` of
`scripts/backtest_sweep.py`, which keeps the high and the low of the last complete bucket. The live
`TimeframeAggregator` is fed one candle at a time; over candles in time order the three agree.
-/

namespace FreqTrading

/-! ### `aggregate_candles` -/

/-- The buckets that are done, and the one in progress; its key is its time stamp. -/
structure Batch where
  out : List Candle := []
  current : Option Candle := none

namespace Batch

/-- `floored`: the time stamp of a candle, floored to the bucket inside its day. -/
def floored (minutes ts : Int) : Int :=
  let day := date ts * dayMicros
  let mins := (ts - day) / minuteMicros
  day + (mins - mins % minutes) * minuteMicros

/-- One candle. One that is older than the bucket in progress is dropped. -/
def step (minutes : Int) (s : Batch) (c : Candle) : Batch :=
  let key := floored minutes c.ts
  match s.current with
  | none => { s with current := some (c.opening key) }
  | some b =>
    if key = b.ts then { s with current := some (b.fold c) }
    else if b.ts < key then { out := s.out ++ [b], current := some (c.opening key) }
    else s

end Batch

def aggregateCandles (candles : List Candle) (minutes : Int) : List Candle :=
  if minutes ≤ 1 then candles
  else
    let s := candles.foldl (Batch.step minutes) {}
    s.out ++ s.current.toList

/-! ### `HtfErl` -/

structure HtfErl where
  m : Int
  key : Option (Int × Int) := none
  hi : Option ℚ := none
  lo : Option ℚ := none
  prevHi : Option ℚ := none
  prevLo : Option ℚ := none
  deriving DecidableEq, Repr

namespace HtfErl

/-- The date of a time stamp, and the minute of the day at which its bucket starts. -/
def keyOf (m ts : Int) : Int × Int :=
  let mins := (ts - date ts * dayMicros) / minuteMicros
  (date ts, mins - mins % m)

def fold (e : HtfErl) (c : Candle) : HtfErl :=
  let key := keyOf e.m c.ts
  if e.key = none then { e with key := some key, hi := some c.high, lo := some c.low }
  else if e.key = some key then { e with hi := e.hi.map (max · c.high), lo := e.lo.map (min · c.low) }
  else { e with prevHi := e.hi, prevLo := e.lo, key := some key, hi := some c.high, lo := some c.low }

/-- `update`: the high and the low of the last complete bucket. -/
def update (e : HtfErl) (c : Candle) : (Option ℚ × Option ℚ) × HtfErl :=
  let e := e.fold c
  ((e.prevHi, e.prevLo), e)

end HtfErl

/-! ### The live aggregator, candle by candle -/

namespace TimeframeAggregator

/-- The candles emitted so far, and the aggregator. -/
def push (s : List Candle × TimeframeAggregator) (c : Candle) : List Candle × TimeframeAggregator :=
  let out := s.2.update c
  (s.1 ++ out.1.toList, out.2)

def pushAll (a : TimeframeAggregator) (candles : List Candle) : List Candle × TimeframeAggregator :=
  candles.foldl push ([], a)

end TimeframeAggregator

/-! ### One key for all three -/

section keys

open TimeframeAggregator

variable {minutes : Int}

theorem minute_range (ts : Int) :
    0 ≤ (ts - date ts * dayMicros) / minuteMicros ∧ (ts - date ts * dayMicros) / minuteMicros < 1440 := by
  have hrange := SessionClock.date_le ts
  unfold dayMicros minuteMicros at *
  omega

theorem floored_eq (minutes ts : Int) : Batch.floored minutes ts = bucketOpen minutes ts := by
  unfold Batch.floored bucketOpen
  dsimp only
  split
  · next hday =>
    have hmins := minute_range ts
    rw [hday, Int.emod_eq_of_lt hmins.1 hmins.2, sub_self, zero_mul, add_zero]
  · rfl

theorem keyOf_eq_iff (hdiv : Divides minutes) (hintraday : minutes < 1440) (ts ts' : Int) :
    HtfErl.keyOf minutes ts = HtfErl.keyOf minutes ts' ↔ bucketOpen minutes ts = bucketOpen minutes ts' := by
  have hstart (ts : Int) : bucketOpen minutes ts =
      (HtfErl.keyOf minutes ts).1 * dayMicros + (HtfErl.keyOf minutes ts).2 * minuteMicros := by
    unfold bucketOpen HtfErl.keyOf
    dsimp only
    rw [if_neg (by omega)]
  have hrange (ts : Int) : 0 ≤ (HtfErl.keyOf minutes ts).2 ∧ (HtfErl.keyOf minutes ts).2 < 1440 := by
    obtain ⟨hlow, hhigh⟩ := minute_range ts
    have hpos := hdiv.1
    have hmod := Int.emod_add_mul_ediv ((ts - date ts * dayMicros) / minuteMicros) minutes
    have hquot := mul_nonneg (show 0 ≤ minutes by omega) (Int.ediv_nonneg hlow (show 0 ≤ minutes by omega))
    have hrem := Int.emod_nonneg ((ts - date ts * dayMicros) / minuteMicros) (show minutes ≠ 0 by omega)
    unfold HtfErl.keyOf
    dsimp only
    omega
  constructor
  · intro h
    rw [hstart, hstart, h]
  · intro h
    rw [hstart, hstart] at h
    have h1 := hrange ts
    have h2 := hrange ts'
    unfold dayMicros minuteMicros at h
    exact Prod.ext (by omega) (by omega)

end keys

/-! ### The three side by side -/

open TimeframeAggregator

/-- The live aggregator and the batch after the same candles, the last of them at `last`. -/
structure Aligned (minutes : Int) (last : Option Int) (s : List Candle × TimeframeAggregator) (b : Batch) : Prop where
  minutes : s.2.minutes = minutes
  inStep : s.2.InStep last
  out : b.out = s.1
  current : b.current = s.2.bucket

/-- `HtfErl` after the same candles. -/
structure Shadows (minutes : Int) (last : Option Int) (s : List Candle × TimeframeAggregator) (e : HtfErl) : Prop where
  m : e.m = minutes
  key : e.key = last.map (HtfErl.keyOf minutes)
  hi : e.hi = s.2.bucket.map (·.high)
  lo : e.lo = s.2.bucket.map (·.low)
  prevHi : e.prevHi = s.1.getLast?.map (·.high)
  prevLo : e.prevLo = s.1.getLast?.map (·.low)

section step

variable {minutes : Int} {last : Option Int} {s : List Candle × TimeframeAggregator} {c : Candle}

theorem Aligned.later {b : Batch} (h : Aligned minutes last s b) (hdiv : Divides minutes)
    (hafter : ∀ ts ∈ last, ts < c.ts) {d : Candle} (hbucket : s.2.bucket = some d)
    (hother : bucketOpen minutes c.ts ≠ d.ts) : d.ts < bucketOpen minutes c.ts := by
  have hstep := h.inStep
  unfold InStep at hstep
  rw [hbucket, h.minutes] at hstep
  cases last with
  | none => cases hstep
  | some ts =>
    have hopen : d.ts = bucketOpen minutes ts := by simpa using hstep
    rw [hopen] at hother ⊢
    have hnext := bucketOpen_next hdiv (hafter ts rfl).le hother
    have hpos := width_pos hdiv
    omega

theorem Aligned.push {b : Batch} (h : Aligned minutes last s b) (hdiv : Divides minutes)
    (hafter : ∀ ts ∈ last, ts < c.ts) :
    Aligned minutes (some c.ts) (push s c) (b.step minutes c) := by
  have hmin := h.minutes
  refine ⟨by simp [TimeframeAggregator.push, hmin], update_inStep _ _, ?_, ?_⟩ <;>
    unfold TimeframeAggregator.push Batch.step TimeframeAggregator.update <;>
    rw [h.current, floored_eq, hmin]
  · cases hbucket : s.2.bucket with
    | none => simp [h.out]
    | some d =>
      by_cases hsame : bucketOpen minutes c.ts = d.ts
      · simp [hsame, h.out]
      · simp [hsame, h.later hdiv hafter hbucket hsame, h.out]
  · cases hbucket : s.2.bucket with
    | none => rfl
    | some d =>
      by_cases hsame : bucketOpen minutes c.ts = d.ts
      · simp [hsame]
      · simp [hsame, h.later hdiv hafter hbucket hsame]

theorem Shadows.push {e : HtfErl} (h : Shadows minutes last s e) (hmin : s.2.minutes = minutes)
    (hstep : s.2.InStep last) (hdiv : Divides minutes) (hintraday : minutes < 1440) :
    Shadows minutes (some c.ts) (push s c) (e.update c).2 := by
  unfold InStep at hstep
  rw [hmin] at hstep
  unfold HtfErl.update HtfErl.fold TimeframeAggregator.push TimeframeAggregator.update
  cases hbucket : s.2.bucket with
  | none =>
    have hlast : last = none := by simpa [hbucket] using hstep.symm
    have hkey : e.key = none := by rw [h.key, hlast, Option.map_none]
    rw [if_pos hkey]
    exact ⟨h.m, by rw [h.m]; rfl, rfl, rfl, by simp [h.prevHi], by simp [h.prevLo]⟩
  | some d =>
    obtain ⟨ts, hts⟩ : ∃ ts, last = some ts := by
      cases last with
      | none => simp [hbucket] at hstep
      | some ts => exact ⟨ts, rfl⟩
    have hkey : e.key = some (HtfErl.keyOf minutes ts) := by rw [h.key, hts, Option.map_some]
    have hopen : d.ts = bucketOpen minutes ts := by simpa [hbucket, hts] using hstep
    rw [if_neg (by simp [hkey]), hkey, h.m, hmin]
    by_cases hsame : bucketOpen minutes c.ts = d.ts
    · have hone : HtfErl.keyOf minutes ts = HtfErl.keyOf minutes c.ts :=
        (keyOf_eq_iff hdiv hintraday _ _).mpr (by rw [hsame, hopen])
      rw [if_pos (congrArg some hone)]
      simp only [hsame, if_true]
      exact ⟨rfl, congrArg some hone, by simp [h.hi, hbucket, Candle.fold], by simp [h.lo, hbucket, Candle.fold],
        by simp [h.prevHi], by simp [h.prevLo]⟩
    · have hother : HtfErl.keyOf minutes ts ≠ HtfErl.keyOf minutes c.ts := by
        intro heq
        exact hsame (((keyOf_eq_iff hdiv hintraday _ _).mp heq).symm.trans hopen.symm)
      rw [if_neg fun heq => hother (Option.some.inj heq)]
      simp only [hsame, if_false]
      exact ⟨rfl, rfl, rfl, rfl, by simp [h.hi, hbucket], by simp [h.lo, hbucket]⟩

/-- Candles in time order, all after the last one. -/
theorem Aligned.run {b : Batch} (h : Aligned minutes last s b) (hdiv : Divides minutes) {candles : List Candle}
    (hsorted : candles.Pairwise fun c d => c.ts < d.ts) (hafter : ∀ c ∈ candles, ∀ ts ∈ last, ts < c.ts) :
    ∃ last, Aligned minutes last (candles.foldl TimeframeAggregator.push s) (candles.foldl (Batch.step minutes) b) := by
  induction candles generalizing last s b with
  | nil => exact ⟨last, h⟩
  | cons c rest ih =>
    obtain ⟨hfirst, hrest⟩ := List.pairwise_cons.mp hsorted
    refine ih (h.push hdiv (hafter c List.mem_cons_self)) hrest ?_
    rintro d hd ts ⟨⟩
    exact hfirst d hd

theorem Shadows.run {e : HtfErl} (h : Shadows minutes last s e) (hmin : s.2.minutes = minutes)
    (hstep : s.2.InStep last) (hdiv : Divides minutes) (hintraday : minutes < 1440) (candles : List Candle) :
    ∃ last, Shadows minutes last (candles.foldl TimeframeAggregator.push s)
      (candles.foldl (fun e c => (e.update c).2) e) := by
  induction candles generalizing last s e with
  | nil => exact ⟨last, h⟩
  | cons c rest ih =>
    exact ih (h.push hmin hstep hdiv hintraday) (by simp [TimeframeAggregator.push, hmin]) (update_inStep _ _)

end step

/-- **Live aggregation is batch aggregation.** The candles emitted and the developing one are what
`aggregate_candles` returns, and `HtfErl` answers with the last one emitted so far. -/
theorem pushAll_eq_aggregate {minutes : Int} {a : TimeframeAggregator} (hcreate : create minutes = .ok a)
    (hmin : 2 ≤ minutes) {candles : List Candle} (hsorted : candles.Pairwise fun c d => c.ts < d.ts) :
    (a.pushAll candles).1 ++ (a.pushAll candles).2.developing.toList = aggregateCandles candles minutes ∧
      (minutes < 1440 → ∀ before c after, candles = before ++ c :: after →
        ((before.foldl (fun e c => (e.update c).2) ({ m := minutes } : HtfErl)).update c).1 =
          let done := (a.pushAll (before ++ [c])).1.getLast?
          (done.map (·.high), done.map (·.low))) := by
  obtain ⟨rfl, hdiv⟩ := create_ok hcreate
  have hinit : Aligned minutes none ([], { minutes }) {} := ⟨rfl, inStep_new _, rfl, rfl⟩
  refine ⟨?_, ?_⟩
  · obtain ⟨last, h⟩ := hinit.run hdiv hsorted fun _ _ _ hts => nomatch hts
    unfold aggregateCandles
    rw [if_neg (by omega)]
    simp only [h.out, h.current]
    rfl
  · intro hintraday before c after _
    have hshadow : Shadows minutes none ([], { minutes }) { m := minutes } := ⟨rfl, rfl, rfl, rfl, rfl, rfl⟩
    obtain ⟨last, h⟩ := hshadow.run rfl (inStep_new _) hdiv hintraday (before ++ [c])
    rw [← pushAll, List.foldl_append] at h
    exact Prod.ext h.prevHi h.prevLo

/-- Two candles of one five-minute bucket, a gap, and a candle of the next day. -/
def sparse : List Candle :=
  [barOf 0 10 12 9 11, barOf (3 * minuteMicros) 11 13 10 12, barOf (27 * minuteMicros) 12 12 8 9,
    barOf (dayMicros + minuteMicros) 9 10 9 10]

theorem pushAll_sparse :
    (({ minutes := 5 } : TimeframeAggregator).pushAll sparse).1 ++
        (({ minutes := 5 } : TimeframeAggregator).pushAll sparse).2.developing.toList = aggregateCandles sparse 5 ∧
      (aggregateCandles sparse 5).map (·.high) = [13, 12, 10] :=
  ⟨(pushAll_eq_aggregate rfl (by decide) (by decide +kernel)).1, by decide +kernel⟩

end FreqTrading
