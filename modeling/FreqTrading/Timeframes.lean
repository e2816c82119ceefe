import Mathlib.Tactic.LinearCombination
import Mathlib.Tactic.Ring
import FreqTrading.Session

/-!
# Higher timeframes

`TimeframeAggregator` of `orb/smc/mtf.py`: M1 candles are folded into buckets of a number of minutes, and a
bucket is complete when a candle of another one arrives. The key of a bucket is its open time. For a number
of minutes that divides the day the buckets tile the time line (`bucketOpen_eq`).
-/

namespace FreqTrading

/-! ### Folding candles -/

/-- A bucket of which this is the first candle. -/
def Candle.opening (c : Candle) (openTs : Int) : Candle := { c with ts := openTs }

/-- A bucket with one more candle. -/
def Candle.fold (b c : Candle) : Candle where
  ts := b.ts
  open' := b.open'
  high := max b.high c.high
  low := min b.low c.low
  close := c.close
  volume := b.volume + c.volume
  volume_nonneg := add_nonneg b.volume_nonneg c.volume_nonneg
  low_le_high := (min_le_left _ _).trans (b.low_le_high.trans (le_max_left _ _))
  body_le_high :=
    max_le ((le_max_left _ _).trans (b.body_le_high.trans (le_max_left _ _))) (c.close_le_high.trans (le_max_right _ _))
  low_le_body :=
    le_min ((min_le_left _ _).trans (b.low_le_body.trans (min_le_left _ _))) ((min_le_right _ _).trans c.low_le_close)

structure TimeframeAggregator where
  minutes : Int
  /-- The bucket in progress. -/
  bucket : Option Candle := none
  deriving DecidableEq

namespace TimeframeAggregator

/-- `__init__`. -/
def create (minutes : Int) : Except String TimeframeAggregator :=
  if !(1 ≤ minutes && minutes ≤ 1440) then .error "minutes must be an int in 1..1440"
  else if minutes < 1440 ∧ 1440 % minutes ≠ 0 then .error "intraday minutes must divide 1440"
  else .ok { minutes }

/-- The open time of the bucket of a time stamp. -/
def bucketOpen (minutes ts : Int) : Int :=
  let day := date ts * dayMicros
  if minutes = 1440 then day
  else
    let mins := (ts - day) / minuteMicros
    day + (mins - mins % minutes) * minuteMicros

/-- Fold a candle; the prior bucket, if the candle opens a new one. -/
def update (a : TimeframeAggregator) (c : Candle) : Option Candle × TimeframeAggregator :=
  let openTs := bucketOpen a.minutes c.ts
  match a.bucket with
  | none => (none, { a with bucket := some (c.opening openTs) })
  | some b =>
    if openTs = b.ts then (none, { a with bucket := some (b.fold c) })
    else (some b, { a with bucket := some (c.opening openTs) })

def developing (a : TimeframeAggregator) : Option Candle := a.bucket

/-! ### Buckets tile the time line -/

/-- A number of minutes that divides the day. -/
def Divides (minutes : Int) : Prop := 1 ≤ minutes ∧ minutes ∣ 1440

theorem create_ok {minutes : Int} {a : TimeframeAggregator} (h : create minutes = .ok a) :
    a = { minutes } ∧ Divides minutes := by
  unfold create at h
  split_ifs at h with hrange hdiv
  injection h with h
  refine ⟨h.symm, ?_⟩
  simp only [Bool.not_eq_true', Bool.and_eq_false_iff, decide_eq_false_iff_not, not_or, not_not] at hrange
  refine ⟨hrange.1, ?_⟩
  rcases lt_or_eq_of_le hrange.2 with hlt | heq
  · rw [not_and, not_not] at hdiv
    exact Int.dvd_of_emod_eq_zero (hdiv hlt)
  · exact ⟨1, by rw [heq, mul_one]⟩

/-- The length of a bucket. -/
def width (minutes : Int) : Int := minutes * minuteMicros

theorem width_pos {minutes : Int} (h : Divides minutes) : 0 < width minutes := by
  have := h.1
  unfold width minuteMicros
  omega

theorem bucketOpen_eq {minutes : Int} (h : Divides minutes) (ts : Int) :
    bucketOpen minutes ts = ts / width minutes * width minutes := by
  obtain ⟨hpos, k, hk⟩ := h
  have hday : dayMicros = k * width minutes := by
    unfold width dayMicros minuteMicros
    linear_combination 60000000 * hk
  have hw : width minutes ≠ 0 := by unfold width minuteMicros; omega
  -- the day is a whole number of buckets, and the bucket is counted from its start
  have hts : ts / width minutes = date ts * k + (ts - date ts * dayMicros) / width minutes := by
    have hsplit : ts = (ts - date ts * dayMicros) + date ts * k * width minutes := by rw [hday]; ring
    conv_lhs => rw [hsplit]
    rw [Int.add_mul_ediv_right _ _ hw]
    ring
  have hmins : (ts - date ts * dayMicros) / width minutes = (ts - date ts * dayMicros) / minuteMicros / minutes := by
    rw [Int.ediv_ediv_of_nonneg (by unfold minuteMicros; omega), width, mul_comm minutes]
  unfold bucketOpen
  dsimp only
  split
  · next hfull =>
    have hrange := SessionClock.date_le ts
    have hwidth : width minutes = dayMicros := by subst hfull; rfl
    have hzero : (ts - date ts * dayMicros) / width minutes = 0 := by
      rw [hwidth]
      apply Int.ediv_eq_zero_of_lt
      · omega
      · rw [add_mul, one_mul] at hrange
        omega
    rw [hts, hzero, add_zero, mul_assoc, ← hday]
  · have hmod := Int.ediv_mul_add_emod ((ts - date ts * dayMicros) / minuteMicros) minutes
    rw [hts, hmins, add_mul, mul_assoc, ← hday, width, ← mul_assoc]
    congr 2
    omega

theorem bucketOpen_le {minutes : Int} (h : Divides minutes) (ts : Int) : bucketOpen minutes ts ≤ ts := by
  rw [bucketOpen_eq h]
  exact Int.ediv_mul_le ts (width_pos h).ne'

theorem bucketOpen_next {minutes : Int} (h : Divides minutes) {ts ts' : Int} (hle : ts ≤ ts')
    (hne : bucketOpen minutes ts' ≠ bucketOpen minutes ts) :
    bucketOpen minutes ts + width minutes ≤ bucketOpen minutes ts' := by
  rw [bucketOpen_eq h, bucketOpen_eq h] at hne ⊢
  have hdiv : ts / width minutes ≤ ts' / width minutes := Int.ediv_le_ediv (width_pos h) hle
  have hlt : ts / width minutes < ts' / width minutes := by
    refine lt_of_le_of_ne hdiv fun heq => hne ?_
    rw [heq]
  have hmul := mul_le_mul_of_nonneg_right (Int.add_one_le_iff.mpr hlt) (width_pos h).le
  rwa [add_mul, one_mul] at hmul

/-! ### What is in progress -/

/-- The bucket in progress is that of the last candle. -/
def InStep (a : TimeframeAggregator) (last : Option Int) : Prop :=
  a.bucket.map (·.ts) = last.map (bucketOpen a.minutes)

theorem inStep_new (minutes : Int) : InStep { minutes } none := rfl

@[simp] theorem update_minutes (a : TimeframeAggregator) (c : Candle) : (a.update c).2.minutes = a.minutes := by
  unfold update
  cases a.bucket with
  | none => rfl
  | some b =>
    dsimp only
    split <;> rfl

theorem update_inStep (a : TimeframeAggregator) (c : Candle) : (a.update c).2.InStep (some c.ts) := by
  unfold InStep
  rw [update_minutes]
  unfold update
  cases hbucket : a.bucket with
  | none => rfl
  | some b =>
    dsimp only
    split
    · next hsame =>
      simp only [Option.map_some, Candle.fold, hsame]
    · rfl

theorem update_done {a : TimeframeAggregator} {last : Option Int} (hdiv : Divides a.minutes) (h : a.InStep last)
    {c done : Candle} (hafter : ∀ ts ∈ last, ts < c.ts) (hdone : (a.update c).1 = some done) :
    done.ts + width a.minutes ≤ c.ts := by
  unfold update at hdone
  cases hbucket : a.bucket with
  | none => simp [hbucket] at hdone
  | some b =>
    simp only [hbucket] at hdone
    split at hdone
    · cases hdone
    · next hother =>
      obtain rfl : b = done := by simpa using hdone
      unfold InStep at h
      cases last with
      | none => simp [hbucket] at h
      | some ts =>
        have hopen : b.ts = bucketOpen a.minutes ts := by simpa [hbucket] using h
        rw [hopen] at hother ⊢
        have hnext := bucketOpen_next hdiv (hafter ts rfl).le hother
        have hle := bucketOpen_le hdiv c.ts
        omega

end TimeframeAggregator

end FreqTrading
