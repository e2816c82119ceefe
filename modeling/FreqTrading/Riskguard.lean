import FreqTrading.Models
import Mathlib.Data.List.Induction
import Mathlib.Tactic.Linarith

/-!
# Risk guards

`orb/riskguard.py`: the daily loss breaker, the consecutive-loss guard and the spike detector. The breaker
measures the drawdown from the first balance it sees on a UTC day; the loss guard counts the losing closes
it is told of; the spike detector compares a bar's range with the average of the ranges before it. Days are
day numbers. Logging is left out.
-/

namespace FreqTrading

/-! ### The daily loss breaker -/

/-- The arguments `DailyLossBreaker` accepts: at least one cap, and positive ones. -/
structure DailyCap where
  flat : Option ℚ
  pct : Option ℚ := none
  given : flat.isSome = true ∨ pct.isSome = true
  flat_pos : ∀ x ∈ flat, 0 < x
  pct_pos : ∀ x ∈ pct, 0 < x
  deriving DecidableEq

theorem DailyCap.none_pos : ∀ x ∈ (none : Option ℚ), 0 < x := by simp

/-- The cap of a day that starts with this balance. -/
def DailyCap.of (cap : DailyCap) (balance : ℚ) : ℚ :=
  match cap.pct with
  | some p => balance * (p / 100)
  | none => cap.flat.getD 0

structure DailyLossBreaker where
  cap : DailyCap
  day : Option Int := none
  dayStart : ℚ := 0
  dayCap : ℚ := cap.flat.getD 0
  delta : ℚ := 0
  halted : Bool := false
  deriving DecidableEq

namespace DailyLossBreaker

def dayPnl (br : DailyLossBreaker) : ℚ := if br.day = none then 0 else br.delta

/-- The first balance of another day starts that day. -/
def startDay (br : DailyLossBreaker) (day : Int) (balance : ℚ) : DailyLossBreaker :=
  if br.day = some day then br
  else { br with day := some day, dayStart := balance, dayCap := br.cap.of balance, halted := false }

def update (br : DailyLossBreaker) (day : Int) (balance : ℚ) : DailyLossBreaker :=
  let br := br.startDay day balance
  { br with
    delta := balance - br.dayStart
    halted := br.halted || br.dayCap ≤ br.dayStart - balance }

@[simp] theorem startDay_cap (br : DailyLossBreaker) (day : Int) (balance : ℚ) :
    (br.startDay day balance).cap = br.cap := by
  unfold startDay
  split <;> rfl

@[simp] theorem startDay_day (br : DailyLossBreaker) (day : Int) (balance : ℚ) :
    (br.startDay day balance).day = some day := by
  unfold startDay
  split
  · assumption
  · rfl

@[simp] theorem update_cap (br : DailyLossBreaker) (day : Int) (balance : ℚ) :
    (br.update day balance).cap = br.cap := br.startDay_cap day balance

theorem update_same_day {br : DailyLossBreaker} {day : Int} (h : br.day = some day) (balance : ℚ) :
    (br.update day balance).dayStart = br.dayStart ∧
      (br.halted = true → (br.update day balance).halted = true) := by
  unfold update startDay
  rw [if_pos h]
  exact ⟨rfl, fun hhalt => by simp [hhalt]⟩

theorem update_same {br : DailyLossBreaker} {day : Int} (h : br.day = some day) (balance : ℚ) :
    br.update day balance = { br with
      delta := balance - br.dayStart
      halted := br.halted || br.dayCap ≤ br.dayStart - balance } := by
  have hstart : br.startDay day balance = br := if_pos h
  simp only [update, hstart]

/-- A breaker fed with observations of a day and a balance, one after the other. -/
def fed (cap : DailyCap) (obs : List (Int × ℚ)) : DailyLossBreaker :=
  obs.foldl (fun br o => br.update o.1 o.2) { cap }

theorem fed_concat (cap : DailyCap) (obs : List (Int × ℚ)) (o : Int × ℚ) :
    fed cap (obs ++ [o]) = (fed cap obs).update o.1 o.2 := by simp [fed]

@[simp] theorem fed_cap (cap : DailyCap) (obs : List (Int × ℚ)) : (fed cap obs).cap = cap := by
  induction obs using List.reverseRecOn with
  | nil => rfl
  | append_singleton obs o ih => rw [fed_concat, update_cap, ih]

theorem fed_day (cap : DailyCap) (obs : List (Int × ℚ)) : (fed cap obs).day = obs.getLast?.map (·.1) := by
  induction obs using List.reverseRecOn with
  | nil => rfl
  | append_singleton obs o ih =>
    rw [fed_concat, List.getLast?_concat]
    exact startDay_day ..

theorem update_new_day {br : DailyLossBreaker} {day : Int} (h : br.day ≠ some day) (balance : ℚ) :
    br.update day balance = fed br.cap [(day, balance)] := by
  have hstart : br.startDay day balance =
      { br with day := some day, dayStart := balance, dayCap := br.cap.of balance, halted := false } := if_neg h
  simp only [fed, List.foldl_cons, List.foldl_nil, update, hstart]
  rfl

theorem fed_halted_same {cap : DailyCap} {obs : List (Int × ℚ)} {o : Int × ℚ} (h : obs.getLast?.map (·.1) = some o.1)
    (hhalted : (fed cap obs).halted = true) : (fed cap (obs ++ [o])).halted = true := by
  rw [fed_concat]
  exact (update_same_day ((fed_day cap obs).trans h) o.2).2 hhalted

theorem fed_singleton (cap : DailyCap) (o : Int × ℚ) :
    (fed cap [o]).dayStart = o.2 ∧ (fed cap [o]).dayCap = cap.of o.2 ∧
      ((fed cap [o]).halted = true ↔ cap.of o.2 ≤ 0) := by
  refine ⟨rfl, rfl, ?_⟩
  simp [fed, update, startDay]

end DailyLossBreaker

/-! ### What the breaker is for -/

/-- Days follow one another. -/
def Nondecreasing (obs : List (Int × ℚ)) : Prop := obs.Pairwise fun o o' => o.1 ≤ o'.1

/-- The observations of the current day so far. -/
def today (obs : List (Int × ℚ)) : List (Int × ℚ) := obs.filter fun o => obs.getLast?.map (·.1) = some o.1

/-- Some observation of the current day showed a loss of that day's cap. -/
def LossReached (cap : DailyCap) (obs : List (Int × ℚ)) : Prop :=
  ∃ first ∈ (today obs).head?, ∃ o ∈ today obs, cap.of first.2 ≤ first.2 - o.2

theorem mem_today {obs : List (Int × ℚ)} {o : Int × ℚ} : o ∈ today obs ↔ o ∈ obs ∧ obs.getLast?.map (·.1) = some o.1 := by
  simp [today]

theorem today_same {obs : List (Int × ℚ)} {o : Int × ℚ} (h : obs.getLast?.map (·.1) = some o.1) :
    today (obs ++ [o]) = today obs ++ [o] := by
  unfold today
  rw [h, List.getLast?_concat, List.filter_append]
  simp

theorem today_new {obs : List (Int × ℚ)} {o : Int × ℚ} (hobs : Nondecreasing (obs ++ [o]))
    (h : obs.getLast?.map (·.1) ≠ some o.1) : today (obs ++ [o]) = [o] := by
  obtain ⟨hbefore, -, hlast⟩ := List.pairwise_append.mp hobs
  have hnone : ∀ p ∈ obs, p.1 ≠ o.1 := by
    intro p hp heq
    rcases List.eq_nil_or_concat obs with rfl | ⟨init, last, rfl⟩
    · cases hp
    · rw [List.concat_eq_append] at *
      have hle : last.1 ≤ o.1 := hlast last (by simp) o (by simp)
      have hge : p.1 ≤ last.1 := by
        rcases List.mem_append.mp hp with hmem | hmem
        · exact (List.pairwise_append.mp hbefore).2.2 p hmem last (by simp)
        · rw [List.mem_singleton.mp hmem]
      apply h
      rw [List.getLast?_concat, Option.map_some, show last.1 = o.1 by omega]
  unfold today
  rw [List.getLast?_concat, List.filter_append, List.filter_eq_nil_iff.mpr]
  · simp
  · intro p hp
    simpa using Ne.symm (hnone p hp)

/-- The breaker keeps the start and the cap of the day, and is halted exactly if that day's loss was reached. -/
structure DailyLossBreaker.Follows (cap : DailyCap) (obs : List (Int × ℚ)) (br : DailyLossBreaker) : Prop where
  start : ∀ first ∈ (today obs).head?, br.dayStart = first.2 ∧ br.dayCap = cap.of first.2
  halted : br.halted = true ↔ LossReached cap obs

theorem DailyLossBreaker.fed_follows (cap : DailyCap) {obs : List (Int × ℚ)} (hobs : Nondecreasing obs) :
    (fed cap obs).Follows cap obs := by
  induction obs using List.reverseRecOn with
  | nil => exact ⟨fun first hfirst => (by cases hfirst), by simp [fed, LossReached, today]⟩
  | append_singleton obs o ih =>
    have h := ih (List.pairwise_append.mp hobs).1
    rw [fed_concat]
    by_cases hday : obs.getLast?.map (·.1) = some o.1
    · -- another observation of the day
      have hsame : (fed cap obs).day = some o.1 := (fed_day cap obs).trans hday
      obtain ⟨last, hlast, hlastday⟩ := Option.map_eq_some_iff.mp hday
      obtain ⟨first, hfirst⟩ : ∃ first, (today obs).head? = some first := by
        have hmem : last ∈ today obs := mem_today.mpr ⟨List.mem_of_getLast? hlast, by rw [hday, hlastday]⟩
        cases htoday : today obs with
        | nil => rw [htoday] at hmem; cases hmem
        | cons first rest => exact ⟨first, rfl⟩
      obtain ⟨hstart, hcap⟩ := h.start first hfirst
      have hhead : (today (obs ++ [o])).head? = some first := by rw [today_same hday, List.head?_append, hfirst]; rfl
      constructor
      · intro first' hfirst'
        rw [hhead] at hfirst'
        cases hfirst'
        rw [update_same hsame]
        exact ⟨hstart, hcap⟩
      · have hlater : LossReached cap (obs ++ [o]) ↔ LossReached cap obs ∨ cap.of first.2 ≤ first.2 - o.2 := by
          unfold LossReached
          rw [hhead, hfirst, today_same hday]
          simp [or_and_right, exists_or]
        rw [hlater, ← h.halted, update_same hsame, hstart, hcap]
        simp
    · -- the first observation of a day
      have hother : (fed cap obs).day ≠ some o.1 := by rwa [fed_day]
      have htoday := today_new hobs hday
      obtain ⟨hstart, hcap, hhalted⟩ := fed_singleton cap o
      rw [update_new_day hother, fed_cap]
      constructor
      · intro first hfirst
        rw [htoday] at hfirst
        cases hfirst
        exact ⟨hstart, hcap⟩
      · rw [hhalted, LossReached, htoday]
        simp

/-! ### The consecutive-loss guard -/

structure ConsecutiveLossGuard where
  maxConsecutive : Int
  period : Option Int := none
  streak : Nat := 0
  deriving DecidableEq, Repr

namespace ConsecutiveLossGuard

def onPeriod (g : ConsecutiveLossGuard) (period : Int) : ConsecutiveLossGuard :=
  if g.period = some period then g else { g with period := some period, streak := 0 }

def record (g : ConsecutiveLossGuard) (pnl : ℚ) : ConsecutiveLossGuard :=
  if pnl < 0 then { g with streak := g.streak + 1 }
  else if 0 < pnl then { g with streak := 0 }
  else g

def blocked (g : ConsecutiveLossGuard) : Bool := 0 < g.maxConsecutive && g.maxConsecutive ≤ g.streak

@[simp] theorem onPeriod_max (g : ConsecutiveLossGuard) (period : Int) :
    (g.onPeriod period).maxConsecutive = g.maxConsecutive := by
  unfold onPeriod
  split <;> rfl

@[simp] theorem record_frame (g : ConsecutiveLossGuard) (pnl : ℚ) :
    (g.record pnl).period = g.period ∧ (g.record pnl).maxConsecutive = g.maxConsecutive := by
  unfold record
  split
  · exact ⟨rfl, rfl⟩
  · split <;> exact ⟨rfl, rfl⟩

theorem record_loss {g : ConsecutiveLossGuard} {pnl : ℚ} (h : pnl < 0) : (g.record pnl).streak = g.streak + 1 := by
  unfold record
  rw [if_pos h]

theorem streak_le_record {g : ConsecutiveLossGuard} {pnl : ℚ} (h : pnl ≤ 0) : g.streak ≤ (g.record pnl).streak := by
  unfold record
  split
  · exact Nat.le_succ _
  · rw [if_neg (not_lt.mpr h)]

end ConsecutiveLossGuard

/-! ### The spike detector -/

structure SpikeCancel where
  ratio : ℚ
  ratio_gt : 1 < ratio
  lookback : Nat := 20
  minBars : Nat := 5
  ranges : List ℚ := []
  deriving DecidableEq

namespace SpikeCancel

/-- `xs[-n:]`. -/
def lastN (n : Nat) (xs : List ℚ) : List ℚ := if n = 0 then xs else xs.drop (xs.length - n)

/-- Whether the bar is a spike, and the detector after it. -/
def update (s : SpikeCancel) (high low : ℚ) : Bool × SpikeCancel :=
  let rng := high - low
  let history := lastN s.lookback s.ranges
  let total := history.sum
  let avg := if history = [] then 0 else total / history.length
  let spike := s.minBars ≤ history.length && 0 < total && s.ratio * avg ≤ rng
  let ranges := s.ranges ++ [rng]
  (spike, { s with ranges := if s.lookback < ranges.length then lastN s.lookback ranges else ranges })

end SpikeCancel

end FreqTrading
