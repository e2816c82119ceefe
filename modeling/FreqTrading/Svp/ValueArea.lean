import Mathlib.Algebra.BigOperators.Intervals
import Mathlib.Data.Int.Interval
import Mathlib.Data.Int.ConditionallyCompleteOrder
import Mathlib.Tactic.Positivity
import Mathlib.Tactic.Linarith
import FreqTrading.Lib.Run
import FreqTrading.Lib.Extremum
import FreqTrading.Svp.Profile

/-!
# The value area of a profile

What is known of a profile after any updates (`Filled`): its histogram weighs the total, and both ends of its span are
occupied. From this the point of control is the lowest of the heaviest rows, and the value area grows from it, two rows
at a time, until it weighs enough: `Grown` holds between the turns, and `Expands` says that the loop comes to an end.
-/

namespace FreqTrading

open Lib

namespace VolumeProfile

variable {p : VolumeProfile} {lo hi mn mx : Int}

/-! ### Updates -/

/-- What `update` reads of a bar. -/
structure Sample where
  low : ℚ
  high : ℚ
  volume : ℚ
  deriving DecidableEq, Repr

/-- `update`, on bars that `validate` need not have passed; on a candle the two are one (`update_eq`). -/
def feed (p : VolumeProfile) (c : Sample) : VolumeProfile :=
  let p := { p with anchor := some (p.anchor.getD c.low), bars := p.bars + 1 }
  let weight := if 0 < c.volume then c.volume else if p.tpoFallback then 1 else 0
  if weight ≤ 0 then p
  else
    let lo := p.rowOf c.low
    let hi := p.rowOf c.high
    let (lo, hi) := if hi < lo then (hi, lo) else (lo, hi)
    if p.maxRowsPerBar < hi - lo + 1 then p else p.spread weight lo hi

theorem update_eq (p : VolumeProfile) (c : Candle) : p.update c = p.feed ⟨c.low, c.high, c.volume⟩ := rfl

/-- A profile as `__init__` makes it. -/
structure Constructed (p : VolumeProfile) : Prop where
  rowSize_pos : 0 < p.rowSize
  pct_pos : 0 < p.valueAreaPct
  pct_le : p.valueAreaPct ≤ 1
  hist : ∀ r, p.hist r = 0
  span : p.span = none
  total : p.total = 0

/-! ### Rows -/

theorem mem_rows {r : Int} : r ∈ rows lo hi ↔ lo ≤ r ∧ r ≤ hi := by
  unfold rows
  rw [List.mem_map]
  constructor
  · rintro ⟨k, hk, rfl⟩
    rw [List.mem_range] at hk
    omega
  · intro h
    exact ⟨(r - lo).toNat, by rw [List.mem_range]; omega, by omega⟩

theorem rows_ascending (lo hi : Int) : (rows lo hi).Pairwise (· < ·) := by
  unfold rows
  rw [List.pairwise_map]
  exact List.pairwise_lt_range.imp fun h => by omega

theorem rows_cons (h : lo ≤ hi) : rows lo hi = lo :: rows (lo + 1) hi := by
  have hcount : (hi + 1 - lo).toNat = (hi + 1 - (lo + 1)).toNat + 1 := by omega
  unfold rows
  rw [hcount, List.range_succ_eq_map, List.map_cons, List.map_map]
  refine congrArg₂ _ (by simp) (List.map_congr_left fun k _ => ?_)
  show lo + ((k + 1 : Nat) : Int) = lo + 1 + k
  omega

theorem rowVols_sum (p : VolumeProfile) (lo hi : Int) : (p.rowVols lo hi).sum = ∑ r ∈ Finset.Icc lo hi, p.hist r := by
  have hset : (rows lo hi).toFinset = Finset.Icc lo hi := by
    ext r
    rw [List.mem_toFinset, mem_rows, Finset.mem_Icc]
  rw [rowVols, ← hset, List.sum_toFinset _ ((rows_ascending lo hi).imp ne_of_lt)]

/-! ### What updates keep -/

/-- The rows `mn` to `mx` carry the weight of the profile. -/
structure Spans (p : VolumeProfile) (mn mx : Int) : Prop where
  ordered : mn ≤ mx
  lowest : 0 < p.hist mn
  highest : 0 < p.hist mx
  outside : ∀ r, r < mn ∨ mx < r → p.hist r = 0
  sum : (p.rowVols mn mx).sum = p.total

/-- The histogram of a profile, after any updates. -/
structure Filled (p : VolumeProfile) : Prop where
  nonneg : ∀ r, 0 ≤ p.hist r
  empty : p.span = none → p.total = 0 ∧ ∀ r, p.hist r = 0
  spans : ∀ mn mx, p.span = some (mn, mx) → p.Spans mn mx

theorem Constructed.filled (h : p.Constructed) : p.Filled := by
  refine ⟨fun r => (h.hist r).ge, fun _ => ⟨h.total, h.hist⟩, fun mn mx hspan => ?_⟩
  rw [h.span] at hspan
  cases hspan

theorem Spans.sum_of_subset (h : p.Spans mn mx) {a b : Int} (ha : a ≤ mn) (hb : mx ≤ b) :
    ∑ r ∈ Finset.Icc a b, p.hist r = p.total := by
  rw [← h.sum, rowVols_sum]
  refine (Finset.sum_subset (Finset.Icc_subset_Icc ha hb) fun r _ hr => h.outside r ?_).symm
  rw [Finset.mem_Icc] at hr
  omega

theorem Filled.total_nonneg (h : p.Filled) : 0 ≤ p.total := by
  cases hspan : p.span with
  | none => rw [(h.empty hspan).1]
  | some ends =>
    rw [← (h.spans ends.1 ends.2 hspan).sum, rowVols_sum]
    exact Finset.sum_nonneg fun r _ => h.nonneg r

theorem share_pos {weight : ℚ} (hweight : 0 < weight) (hle : lo ≤ hi) : 0 < weight / ((hi - lo + 1 : Int) : ℚ) := by
  have hrows : (0 : ℚ) < ((hi - lo + 1 : Int) : ℚ) := by exact_mod_cast (show (0 : Int) < hi - lo + 1 by omega)
  positivity

theorem spread_hist (p : VolumeProfile) (weight : ℚ) (lo hi r : Int) : (p.spread weight lo hi).hist r =
    p.hist r + if lo ≤ r ∧ r ≤ hi then weight / ((hi - lo + 1 : Int) : ℚ) else 0 := by
  show (if lo ≤ r ∧ r ≤ hi then p.hist r + weight / ((hi - lo + 1 : Int) : ℚ) else p.hist r) = _
  split
  · rfl
  · rw [add_zero]

theorem spread_sum (p : VolumeProfile) (weight : ℚ) (hle : lo ≤ hi) {a b : Int} (ha : a ≤ lo) (hb : hi ≤ b) :
    ∑ r ∈ Finset.Icc a b, (p.spread weight lo hi).hist r = ∑ r ∈ Finset.Icc a b, p.hist r + weight := by
  have hrows : (Finset.Icc a b).filter (fun r => lo ≤ r ∧ r ≤ hi) = Finset.Icc lo hi := by
    ext r
    simp only [Finset.mem_filter, Finset.mem_Icc]
    omega
  have hcard : ((Finset.Icc lo hi).card : ℚ) = ((hi - lo + 1 : Int) : ℚ) := by
    rw [Int.card_Icc]
    have hcast : (((hi + 1 - lo).toNat : Int) : ℚ) = ((hi - lo + 1 : Int) : ℚ) := by
      congr 1
      omega
    exact_mod_cast hcast
  have hne : ((hi - lo + 1 : Int) : ℚ) ≠ 0 := by
    have : hi - lo + 1 ≠ 0 := by omega
    exact_mod_cast this
  simp only [spread_hist, Finset.sum_add_distrib]
  rw [← Finset.sum_filter, hrows, Finset.sum_const, nsmul_eq_mul, hcard, mul_div_cancel₀ _ hne]

theorem spread_outside (p : VolumeProfile) (weight : ℚ) {r : Int} (hr : r < lo ∨ hi < r) :
    (p.spread weight lo hi).hist r = p.hist r := by
  rw [spread_hist, if_neg (by omega), add_zero]

theorem Filled.spread_inside (h : p.Filled) {weight : ℚ} (hweight : 0 < weight) {r : Int} (hlow : lo ≤ r)
    (hhigh : r ≤ hi) : 0 < (p.spread weight lo hi).hist r := by
  rw [spread_hist, if_pos ⟨hlow, hhigh⟩]
  exact add_pos_of_nonneg_of_pos (h.nonneg r) (share_pos hweight (hlow.trans hhigh))

theorem spread_kept {weight : ℚ} (hweight : 0 < weight) (hle : lo ≤ hi) {r : Int} (hr : 0 < p.hist r) :
    0 < (p.spread weight lo hi).hist r := by
  rw [spread_hist]
  refine add_pos_of_pos_of_nonneg hr ?_
  split
  · exact (share_pos hweight hle).le
  · exact le_rfl

theorem Filled.spans_first (h : p.Filled) {weight : ℚ} (hweight : 0 < weight) (hle : lo ≤ hi) (hold : p.span = none) :
    (p.spread weight lo hi).Spans lo hi := by
  obtain ⟨htotal, hhist⟩ := h.empty hold
  refine ⟨hle, h.spread_inside hweight le_rfl hle, h.spread_inside hweight hle le_rfl, ?_, ?_⟩
  · intro r hr
    rw [spread_outside p weight hr, hhist]
  · rw [rowVols_sum, spread_sum p weight hle le_rfl le_rfl, Finset.sum_eq_zero fun r _ => hhist r]
    show 0 + weight = p.total + weight
    rw [htotal]

theorem Filled.spans_wider (h : p.Filled) {weight : ℚ} (hweight : 0 < weight) (hle : lo ≤ hi) {mn mx : Int}
    (hspans : p.Spans mn mx) : (p.spread weight lo hi).Spans (min mn lo) (max mx hi) := by
  have hordered := hspans.ordered
  refine ⟨by omega, ?_, ?_, ?_, ?_⟩
  · rcases le_total mn lo with hmin | hmin
    · rw [min_eq_left hmin]
      exact spread_kept hweight hle hspans.lowest
    · rw [min_eq_right hmin]
      exact h.spread_inside hweight le_rfl hle
  · rcases le_total hi mx with hmax | hmax
    · rw [max_eq_left hmax]
      exact spread_kept hweight hle hspans.highest
    · rw [max_eq_right hmax]
      exact h.spread_inside hweight hle le_rfl
  · intro r hr
    rw [spread_outside p weight (by omega), hspans.outside r (by omega)]
  · rw [rowVols_sum, spread_sum p weight hle (min_le_right _ _) (le_max_right _ _),
      hspans.sum_of_subset (min_le_left _ _) (le_max_left _ _)]
    rfl

theorem Filled.spread (h : p.Filled) {weight : ℚ} (hweight : 0 < weight) (hle : lo ≤ hi) :
    (p.spread weight lo hi).Filled := by
  refine ⟨?_, fun hspan => (by cases hspan), ?_⟩
  · intro r
    by_cases hr : lo ≤ r ∧ r ≤ hi
    · exact (h.spread_inside hweight hr.1 hr.2).le
    · rw [spread_outside p weight (by omega)]
      exact h.nonneg r
  · intro mn' mx' hspan
    unfold VolumeProfile.spread at hspan
    dsimp only at hspan
    cases hold : p.span with
    | none =>
      rw [hold] at hspan
      cases hspan
      exact h.spans_first hweight hle hold
    | some ends =>
      rw [hold] at hspan
      cases hspan
      exact h.spans_wider hweight hle (h.spans ends.1 ends.2 hold)

theorem feed_cases (p : VolumeProfile) (c : Sample) :
    ∃ anchor bars, p.feed c = { p with anchor := anchor, bars := bars } ∨
      ∃ weight lo hi, 0 < weight ∧ lo ≤ hi ∧ p.feed c = spread { p with anchor := anchor, bars := bars } weight lo hi := by
  refine ⟨some (p.anchor.getD c.low), p.bars + 1, ?_⟩
  unfold VolumeProfile.feed
  dsimp only
  generalize (if 0 < c.volume then c.volume else if p.tpoFallback = true then 1 else 0) = weight
  by_cases hweight : weight ≤ 0
  · rw [if_pos hweight]
    exact Or.inl rfl
  rw [if_neg hweight]
  generalize rowOf { p with anchor := some (p.anchor.getD c.low), bars := p.bars + 1 } c.low = lo
  generalize rowOf { p with anchor := some (p.anchor.getD c.low), bars := p.bars + 1 } c.high = hi
  by_cases hswap : hi < lo
  · simp only [if_pos hswap]
    split
    · exact Or.inl rfl
    · exact Or.inr ⟨weight, hi, lo, not_le.mp hweight, hswap.le, rfl⟩
  · simp only [if_neg hswap]
    split
    · exact Or.inl rfl
    · exact Or.inr ⟨weight, lo, hi, not_le.mp hweight, not_lt.mp hswap, rfl⟩

theorem Filled.feed (h : p.Filled) (c : Sample) : (p.feed c).Filled := by
  obtain ⟨anchor, bars, hcases⟩ := feed_cases p c
  have hseen : ({ p with anchor := anchor, bars := bars } : VolumeProfile).Filled := by
    refine ⟨h.nonneg, h.empty, fun mn mx hspan => ?_⟩
    obtain ⟨hordered, hlowest, hhighest, houtside, hsum⟩ := h.spans mn mx hspan
    exact ⟨hordered, hlowest, hhighest, houtside, hsum⟩
  rcases hcases with hsame | ⟨weight, lo, hi, hweight, hle, hspread⟩
  · rw [hsame]
    exact hseen
  · rw [hspread]
    exact hseen.spread hweight hle

theorem run_filled (h : p.Filled) (bars : List Sample) : (run feed p bars).Filled :=
  run_always (I := Filled) (fun _ c hp => hp.feed c) h bars

theorem feed_fractions (p : VolumeProfile) (c : Sample) :
    (p.feed c).valueAreaPct = p.valueAreaPct ∧ (p.feed c).hvnFrac = p.hvnFrac := by
  obtain ⟨anchor, bars, hsame | ⟨weight, lo, hi, -, -, hspread⟩⟩ := feed_cases p c
  · rw [hsame]
    exact ⟨rfl, rfl⟩
  · rw [hspread]
    exact ⟨rfl, rfl⟩

theorem run_fractions (p : VolumeProfile) (bars : List Sample) :
    (run feed p bars).valueAreaPct = p.valueAreaPct ∧ (run feed p bars).hvnFrac = p.hvnFrac :=
  run_always (I := fun q : VolumeProfile => q.valueAreaPct = p.valueAreaPct ∧ q.hvnFrac = p.hvnFrac)
    (fun q c hq => ⟨(feed_fractions q c).1.trans hq.1, (feed_fractions q c).2.trans hq.2⟩) ⟨rfl, rfl⟩ bars

/-! ### The point of control -/

/-- The lowest of the heaviest rows of a span. -/
structure IsPoc (p : VolumeProfile) (mn mx poc : Int) : Prop where
  low : mn ≤ poc
  high : poc ≤ mx
  heaviest : ∀ r, p.hist r ≤ p.hist poc
  lowest : ∀ r, r < poc → p.hist r < p.hist poc

theorem Spans.pocRow (h : p.Spans mn mx) (hnonneg : ∀ r, 0 ≤ p.hist r) (hspan : p.span = some (mn, mx)) :
    ∃ poc, p.pocRow = some poc ∧ p.IsPoc mn mx poc := by
  have hscan : (rows mn mx).foldl (fun best r => if p.hist best < p.hist r then r else best) mn =
      (rows (mn + 1) mx).foldl (fun best r => if p.hist best < p.hist r then r else best) mn := by
    rw [rows_cons h.ordered, List.foldl_cons, if_neg (lt_irrefl _)]
  have hfirst : FirstBest p.hist (rows mn mx)
      ((rows (mn + 1) mx).foldl (fun best r => if p.hist best < p.hist r then r else best) mn) := by
    rw [rows_cons h.ordered]
    exact foldl_firstBest (fun _ _ => Iff.rfl) mn _
  refine ⟨_, by unfold VolumeProfile.pocRow; rw [hspan], ?_⟩
  rw [hscan]
  generalize (rows (mn + 1) mx).foldl (fun best r => if p.hist best < p.hist r then r else best) mn = poc at hfirst
  obtain ⟨hlow, hhigh⟩ := mem_rows.mp hfirst.mem
  have hpoc : 0 < p.hist poc := h.lowest.trans_le (hfirst.best mn (mem_rows.mpr ⟨le_rfl, h.ordered⟩))
  refine ⟨hlow, hhigh, fun r => ?_, fun r hr => ?_⟩
  · by_cases hin : mn ≤ r ∧ r ≤ mx
    · exact hfirst.best r (mem_rows.mpr hin)
    · rw [h.outside r (by omega)]
      exact hnonneg poc
  · by_cases hin : mn ≤ r
    · exact hfirst.lowest (rows_ascending mn mx) (mem_rows.mpr ⟨hin, by omega⟩) hr
    · rw [h.outside r (by omega)]
      exact hpoc

/-! ### The loop -/

/-- The loop is left: the area weighs enough, or there are no rows left. -/
def Done (mn mx : Int) (target : ℚ) (a : ValueArea) : Prop := target ≤ a.va ∨ mx < a.up ∧ a.dn < mn

/-- The loop of `_value_area` from `a` on comes to an end, with `b`. -/
inductive Expands (p : VolumeProfile) (mn mx : Int) (target : ℚ) : ValueArea → ValueArea → Prop
  | stop {a : ValueArea} (hdone : Done mn mx target a) : Expands p mn mx target a a
  | turn {a b : ValueArea} (hgoes : ¬ Done mn mx target a) (hrest : Expands p mn mx target (p.absorb mn mx a) b) :
      Expands p mn mx target a b

/-- Between the turns: the area is an interval of the span around the point of control, and weighs what its rows do. -/
structure Grown (p : VolumeProfile) (mn mx poc : Int) (a : ValueArea) : Prop where
  low : mn ≤ a.lo
  poc_ge : a.lo ≤ poc
  poc_le : poc ≤ a.hi
  high : a.hi ≤ mx
  up : a.up = a.hi + 1
  dn : a.dn = a.lo - 1
  va : a.va = ∑ r ∈ Finset.Icc a.lo a.hi, p.hist r

theorem sum_above (p : VolumeProfile) (h : lo ≤ hi + 1) :
    ∑ r ∈ Finset.Icc lo (hi + 1), p.hist r = ∑ r ∈ Finset.Icc lo hi, p.hist r + p.hist (hi + 1) := by
  have hset : Finset.Icc lo (hi + 1) = insert (hi + 1) (Finset.Icc lo hi) := by
    ext r
    simp only [Finset.mem_insert, Finset.mem_Icc]
    omega
  rw [hset, Finset.sum_insert (by simp), add_comm]

theorem sum_below (p : VolumeProfile) (h : lo - 1 ≤ hi) :
    ∑ r ∈ Finset.Icc (lo - 1) hi, p.hist r = ∑ r ∈ Finset.Icc lo hi, p.hist r + p.hist (lo - 1) := by
  have hset : Finset.Icc (lo - 1) hi = insert (lo - 1) (Finset.Icc lo hi) := by
    ext r
    simp only [Finset.mem_insert, Finset.mem_Icc]
    omega
  rw [hset, Finset.sum_insert (by simp), add_comm]

theorem goesUp_iff {a : ValueArea} (h : ¬ (mx < a.up ∧ a.dn < mn)) :
    (p.goesUp mn mx a = true → a.up ≤ mx) ∧ (p.goesUp mn mx a = false → mn ≤ a.dn) := by
  unfold goesUp
  dsimp only
  by_cases hbelow : a.dn < mn
  · rw [if_pos hbelow]
    exact ⟨fun _ => not_lt.mp fun habove => h ⟨habove, hbelow⟩, fun hfalse => (by cases hfalse)⟩
  rw [if_neg hbelow]
  by_cases habove : mx < a.up
  · rw [if_pos habove]
    exact ⟨fun hfalse => (by cases hfalse), fun _ => not_lt.mp hbelow⟩
  · exact ⟨fun _ => not_lt.mp habove, fun _ => not_lt.mp hbelow⟩

/-- The rows outside of the area. -/
def outer (mn mx : Int) (a : ValueArea) : Nat := (mx - a.hi).toNat + (a.lo - mn).toNat

theorem Grown.absorb {poc : Int} {a : ValueArea} (h : p.Grown mn mx poc a) (hrows : ¬ (mx < a.up ∧ a.dn < mn)) :
    p.Grown mn mx poc (p.absorb mn mx a) ∧ outer mn mx (p.absorb mn mx a) < outer mn mx a := by
  obtain ⟨va, lo, hi, up, dn⟩ := a
  obtain ⟨hlow, hpocge, hpocle, hhigh, hup, hdn, hva⟩ := h
  obtain ⟨hgoes, hstays⟩ := goesUp_iff (p := p) hrows
  dsimp only at hlow hpocge hpocle hhigh hup hdn hva hgoes hstays
  subst hup hdn
  unfold VolumeProfile.absorb outer
  by_cases hdir : p.goesUp mn mx ⟨va, lo, hi, hi + 1, lo - 1⟩ = true
  · rw [if_pos hdir]
    have hroom := hgoes hdir
    dsimp only
    by_cases htwo : hi + 1 + 1 ≤ mx
    · rw [if_pos htwo]
      refine ⟨⟨hlow, hpocge, by dsimp only; omega, htwo, by dsimp only; omega, rfl, ?_⟩, by dsimp only; omega⟩
      dsimp only
      rw [sum_above p (by omega), sum_above p (by omega), ← hva]
    · rw [if_neg htwo]
      refine ⟨⟨hlow, hpocge, by dsimp only; omega, hroom, rfl, rfl, ?_⟩, by dsimp only; omega⟩
      dsimp only
      rw [sum_above p (by omega), ← hva]
  · rw [if_neg hdir]
    have hroom := hstays (by simpa using hdir)
    dsimp only
    by_cases htwo : mn ≤ lo - 1 - 1
    · rw [if_pos htwo]
      refine ⟨⟨htwo, by dsimp only; omega, hpocle, hhigh, rfl, by dsimp only; omega, ?_⟩, by dsimp only; omega⟩
      dsimp only
      rw [sum_below p (by omega), sum_below p (by omega), ← hva]
    · rw [if_neg htwo]
      refine ⟨⟨hroom, by dsimp only; omega, hpocle, hhigh, rfl, rfl, ?_⟩, by dsimp only; omega⟩
      dsimp only
      rw [sum_below p (by omega), ← hva]

/-- As many turns as there are rows outside are enough. -/
theorem Grown.grow {poc : Int} (target : ℚ) (n : Nat) {a : ValueArea} (h : p.Grown mn mx poc a) (hfuel : outer mn mx a ≤ n) :
    Expands p mn mx target a (p.grow mn mx target n a) ∧ p.Grown mn mx poc (p.grow mn mx target n a) := by
  induction n generalizing a with
  | zero =>
    have hup := h.up
    have hdn := h.dn
    unfold outer at hfuel
    exact ⟨.stop (Or.inr (by omega)), h⟩
  | succ n ih =>
    rw [VolumeProfile.grow]
    by_cases henough : a.va < target
    · rw [if_pos henough]
      by_cases hrows : mx < a.up ∧ a.dn < mn
      · rw [if_pos hrows]
        exact ⟨.stop (Or.inr hrows), h⟩
      · rw [if_neg hrows]
        obtain ⟨hgrown, hless⟩ := h.absorb hrows
        obtain ⟨hexpands, hend⟩ := ih hgrown (by omega)
        refine ⟨.turn ?_ hexpands, hend⟩
        rintro (hdone | hdone)
        · exact absurd hdone (not_le.mpr henough)
        · exact hrows hdone
    · rw [if_neg henough]
      exact ⟨.stop (Or.inl (not_lt.mp henough)), h⟩

theorem Expands.done {target : ℚ} {a b : ValueArea} (h : Expands p mn mx target a b) : Done mn mx target b := by
  induction h with
  | stop hdone => exact hdone
  | turn _ _ ih => exact ih

/-! ### The value area -/

/-- The area from `lo` to `hi` is what the loop ends with, and it encloses the point of control and enough weight. -/
structure HasArea (p : VolumeProfile) (mn mx poc lo hi : Int) : Prop where
  area : p.valueArea = some (lo, hi)
  expands : ∃ a, Expands p mn mx (p.valueAreaPct * p.total) ⟨p.hist poc, poc, poc, poc + 1, poc - 1⟩ a ∧ a.lo = lo ∧ a.hi = hi
  low : mn ≤ lo
  poc_ge : lo ≤ poc
  poc_le : poc ≤ hi
  high : hi ≤ mx
  encloses : p.valueAreaPct * p.total ≤ (p.rowVols lo hi).sum

theorem Filled.spans_of_total (h : p.Filled) (htotal : 0 < p.total) : ∃ mn mx, p.span = some (mn, mx) ∧ p.Spans mn mx := by
  cases hspan : p.span with
  | none =>
    rw [(h.empty hspan).1] at htotal
    exact absurd htotal (lt_irrefl 0)
  | some ends => exact ⟨ends.1, ends.2, rfl, h.spans ends.1 ends.2 hspan⟩

theorem Filled.hasArea (h : p.Filled) (hpct : p.valueAreaPct ≤ 1) (htotal : 0 < p.total) {poc : Int}
    (hspan : p.span = some (mn, mx)) (hspans : p.Spans mn mx) (hrow : p.pocRow = some poc) (hpoc : p.IsPoc mn mx poc) :
    ∃ lo hi, p.HasArea mn mx poc lo hi := by
  have hseed : p.Grown mn mx poc ⟨p.hist poc, poc, poc, poc + 1, poc - 1⟩ :=
    ⟨hpoc.low, le_rfl, le_rfl, hpoc.high, rfl, rfl, by simp⟩
  have hfuel : outer mn mx ⟨p.hist poc, poc, poc, poc + 1, poc - 1⟩ ≤ (mx - mn + 1).toNat := by
    have hlow := hpoc.low
    have hhigh := hpoc.high
    unfold outer
    dsimp only
    omega
  obtain ⟨hexpands, hgrown⟩ := hseed.grow (p.valueAreaPct * p.total) (mx - mn + 1).toNat hfuel
  refine ⟨_, _, ?_, ⟨_, hexpands, rfl, rfl⟩, hgrown.low, hgrown.poc_ge, hgrown.poc_le, hgrown.high, ?_⟩
  · unfold VolumeProfile.valueArea
    rw [hrow, hspan]
    dsimp only
    rw [if_neg (not_le.mpr htotal)]
  · rw [rowVols_sum, ← hgrown.va]
    rcases hexpands.done with henough | ⟨habove, hbelow⟩
    · exact henough
    · -- the whole span weighs the total
      rw [hgrown.up] at habove
      rw [hgrown.dn] at hbelow
      rw [hgrown.va, hspans.sum_of_subset (by omega) (by omega)]
      exact mul_le_of_le_one_left h.total_nonneg hpct

/-- **Volume profile and value area.** After any updates the histogram weighs the total and both ends of its span are
occupied; and once there is some weight, the point of control is the lowest of the heaviest rows, and the loop of the
value area ends with an interval of the span that holds it and weighs at least the fraction asked for. -/
theorem value_area_of_updates (p : VolumeProfile) (h : p.Constructed) (bars : List Sample) :
    (run feed p bars).Filled ∧ (0 < (run feed p bars).total → ∃ mn mx poc lo hi,
      (run feed p bars).span = some (mn, mx) ∧ (run feed p bars).pocRow = some poc ∧
        (run feed p bars).IsPoc mn mx poc ∧ (run feed p bars).HasArea mn mx poc lo hi) := by
  have hfilled := run_filled h.filled bars
  refine ⟨hfilled, fun htotal => ?_⟩
  obtain ⟨mn, mx, hspan, hspans⟩ := hfilled.spans_of_total htotal
  obtain ⟨poc, hrow, hpoc⟩ := hspans.pocRow hfilled.nonneg hspan
  have hpct : (run feed p bars).valueAreaPct ≤ 1 := by
    rw [(run_fractions p bars).1]
    exact h.pct_le
  obtain ⟨lo, hi, harea⟩ := hfilled.hasArea hpct htotal hspan hspans hrow hpoc
  exact ⟨mn, mx, poc, lo, hi, hspan, hrow, hpoc, harea⟩

/-- A profile of rows of one dollar. -/
def dollarRows : VolumeProfile := { rowSize := 1 }

theorem dollarRows_constructed : dollarRows.Constructed :=
  ⟨by decide +kernel, by decide +kernel, by decide +kernel, fun _ => rfl, rfl, rfl⟩

/-- Three bars that overlap around 102. -/
def overlapping : List Sample := [⟨100, 102, 30⟩, ⟨102, 103, 40⟩, ⟨101, 105, 10⟩]

theorem value_area_of_updates_overlapping :
    ((run feed dollarRows overlapping).Filled ∧ (0 < (run feed dollarRows overlapping).total → ∃ mn mx poc lo hi,
      (run feed dollarRows overlapping).span = some (mn, mx) ∧ (run feed dollarRows overlapping).pocRow = some poc ∧
        (run feed dollarRows overlapping).IsPoc mn mx poc ∧ (run feed dollarRows overlapping).HasArea mn mx poc lo hi)) ∧
      (run feed dollarRows overlapping).total = 80 ∧ (run feed dollarRows overlapping).pocRow = some 2 ∧
      (run feed dollarRows overlapping).valueArea = some (2, 4) :=
  ⟨value_area_of_updates dollarRows dollarRows_constructed overlapping, by decide +kernel, by decide +kernel,
    by decide +kernel⟩

end VolumeProfile

end FreqTrading
