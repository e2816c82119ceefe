import FreqTrading.Lib.Run
import FreqTrading.Smc.OrderBlocks

/-!
# The structure of a whole series

What a series of bars has for swings, references and breaks, read off the series as a whole, beside the tracker
that is fed one bar at a time and keeps a window. The sides are the directions in which a swing is broken: a swing
high is broken to the long side. Since a bar closes within its range, no close breaks a reference of each side
(`reference_order`), so the tie-break of the tracker is never taken and it agrees with the series (`tracker_offline`).
-/

namespace FreqTrading

open Lib

/-- `x` lies further than `y` on the side. -/
def Beyond : Direction → ℚ → ℚ → Prop
  | .long, x, y => y < x
  | .short, x, y => x < y

instance (side : Direction) (x y : ℚ) : Decidable (Beyond side x y) := by
  cases side <;> exact inferInstanceAs (Decidable (_ < _))

/-- The extreme of a bar on the side. -/
def SwingBar.extreme : Direction → SwingBar → ℚ
  | .long, bar => bar.high
  | .short, bar => bar.low

/-! ### Offline -/

namespace Offline

variable (k : Nat) (bars : List Candle) (side : Direction)

def extreme (j : Nat) : ℚ := (bars.map fun c => (swingBar c).extreme side).getD j 0

def close (j : Nat) : ℚ := (bars.map (·.close)).getD j 0

def point (j : Nat) : SwingPoint := ⟨(bars.map (·.ts)).getD j 0, extreme bars side j⟩

/-- Bar `j` is the strict extreme of the bars `j - k, …, j + k`. -/
def IsSwing (j : Nat) : Prop :=
  k ≤ j ∧ ∀ m ∈ List.range' (j - k) (2 * k + 1), m ≠ j → Beyond side (extreme bars side j) (extreme bars side m)

instance (j : Nat) : Decidable (IsSwing k bars side j) := inferInstanceAs (Decidable (_ ∧ _))

/-- The swings among the first `n` bars, `k` bars before the last of them at the latest. -/
def swings (n : Nat) : List Nat := (List.range (n - k)).filter fun j => IsSwing k bars side j

/-- No bar of `first, …, last - 1` closes beyond bar `j`. -/
def Unbroken (j first last : Nat) : Prop :=
  ∀ m ∈ List.range' first (last - first), ¬ Beyond side (close bars m) (extreme bars side j)

instance (j first last : Nat) : Decidable (Unbroken bars side j first last) :=
  inferInstanceAs (Decidable (∀ m ∈ List.range' first (last - first), ¬ _))

/-- The last swing of the first `n` bars, unless a bar before bar `last` closed beyond it from its confirmation on. -/
def open' (n last : Nat) : Option Nat :=
  (swings k bars side n).getLast?.filter fun j => Unbroken bars side j (j + k) last

/-- The break reference before the check at bar `i`. -/
def reference (i : Nat) : Option Nat := open' k bars side (i + 1) i

/-- A break against the event before changes the character. -/
def kindAfter (events : List (Nat × StructureEvent)) : StructureKind :=
  match events.getLast? with
  | none => .bos
  | some (_, before) => if before.direction = side then .bos else .choch

end Offline

/-! ### A tracker and what it has found -/

namespace StructureTracker

def kept (t : StructureTracker) : Direction → List SwingPoint
  | .long => t.highs
  | .short => t.lows

def ref (t : StructureTracker) : Direction → Option SwingPoint
  | .long => t.refHigh
  | .short => t.refLow

/-- The window with a bar taken in. -/
def push (t : StructureTracker) (c : Candle) : StructureTracker :=
  { t with window := pushBounded (2 * t.lookback.toNat + 1) t.window (swingBar c) }

/-- The swing that the bar confirms. -/
def newSwing (t : StructureTracker) (c : Candle) (side : Direction) : Option SwingPoint :=
  ((t.push c).centre.filter fun bar =>
    (t.push c).othersAll fun other => Beyond side (bar.extreme side) (other.extreme side)).map fun bar =>
      ⟨bar.ts, bar.extreme side⟩

end StructureTracker

/-- A tracker, the swings it has confirmed, and its events with the index of their bar. -/
structure SwingRun where
  tracker : StructureTracker
  bars : Nat := 0
  confirmed : Direction → List SwingPoint := fun _ => []
  events : List (Nat × StructureEvent) := []

def SwingRun.step (r : SwingRun) (c : Candle) : SwingRun :=
  let out := r.tracker.update c
  { tracker := out.2
    bars := r.bars + 1
    confirmed := fun side => r.confirmed side ++ (r.tracker.newSwing c side).toList
    events := r.events ++ (out.1.map fun event => (r.bars, event)).toList }

/-- A new tracker. -/
def SwingRun.start (lookback : Nat) (maxSwings : Int) : SwingRun :=
  { tracker := { lookback := lookback, maxSwings := maxSwings } }

/-! ### One update of the tracker -/

namespace StructureTracker

variable (t : StructureTracker) (c : Candle) (side : Direction)

theorem confirm_eq :
    t.confirm c =
      { t.push c with
        highs := (t.newSwing c .long).elim t.highs (pushBounded t.maxSwings.toNat t.highs)
        lows := (t.newSwing c .short).elim t.lows (pushBounded t.maxSwings.toNat t.lows)
        refHigh := (t.newSwing c .long).or t.refHigh
        refLow := (t.newSwing c .short).or t.refLow } := by
  have hpush : t.confirm c =
      (t.push c).centre.elim (t.push c) fun bar => ((t.push c).confirmHigh bar).confirmLow bar := by
    have hwindow : { t with window := pushBounded (2 * t.lookback.toNat + 1) t.window ⟨c.ts, c.high, c.low⟩ } = t.push c :=
      rfl
    unfold confirm
    dsimp only
    rw [hwindow]
    cases (t.push c).centre <;> rfl
  rw [hpush]
  unfold newSwing
  cases hcentre : (t.push c).centre with
  | none => rfl
  | some bar =>
    rw [Option.elim_some]
    have hhigh : ((t.push c).othersAll fun other => decide (Beyond .long (bar.extreme .long) (other.extreme .long))) =
        (t.push c).othersAll fun other => decide (other.high < bar.high) := rfl
    have hlow : ((t.push c).othersAll fun other => decide (Beyond .short (bar.extreme .short) (other.extreme .short))) =
        (t.push c).othersAll fun other => decide (bar.low < other.low) := rfl
    rw [Option.filter_some, Option.filter_some, hhigh, hlow]
    have hafter : ((t.push c).confirmHigh bar).othersAll (fun other => decide (bar.low < other.low)) =
        (t.push c).othersAll fun other => decide (bar.low < other.low) := by
      unfold confirmHigh
      split <;> rfl
    unfold confirmLow
    rw [hafter]
    unfold confirmHigh
    by_cases hup : ((t.push c).othersAll fun other => decide (other.high < bar.high)) = true <;>
      by_cases hdn : ((t.push c).othersAll fun other => decide (bar.low < other.low)) = true <;>
        simp only [hup, hdn, if_true, if_false, Bool.false_eq_true] <;> rfl

theorem confirm_kept : (t.confirm c).kept side =
    (t.newSwing c side).elim (t.kept side) (pushBounded t.maxSwings.toNat (t.kept side)) := by
  rw [confirm_eq]
  cases side <;> rfl

theorem confirm_ref : (t.confirm c).ref side = (t.newSwing c side).or (t.ref side) := by
  rw [confirm_eq]
  cases side <;> rfl

theorem confirm_rest : (t.confirm c).window = (t.push c).window ∧ (t.confirm c).lookback = t.lookback ∧
    (t.confirm c).maxSwings = t.maxSwings ∧ (t.confirm c).trend = t.trend := by
  rw [confirm_eq]
  exact ⟨rfl, rfl, rfl, rfl⟩

/-- The reference that the close is beyond. -/
def broken : Option SwingPoint := (t.ref side).filter fun sp => Beyond side c.close sp.price

theorem breakCheck_cases (hone : t.broken c .long = none ∨ t.broken c .short = none) :
    (t.breakCheck c = (none, t) ∧ ∀ side, t.broken c side = none) ∨
      ∃ side sp, t.broken c side = some sp ∧ (t.breakCheck c).1 = some ⟨c.ts, t.kindOf side, side, sp.price⟩ ∧
        (t.breakCheck c).2.ref side = none ∧
        (∀ other, other ≠ side → t.broken c other = none ∧ (t.breakCheck c).2.ref other = t.ref other) ∧
        (t.breakCheck c).2.trend = some side := by
  have hup : t.broken c .long = t.refHigh.filter fun sp => sp.price < c.close := rfl
  have hdn : t.broken c .short = t.refLow.filter fun sp => c.close < sp.price := rfl
  unfold breakCheck
  rw [← hup, ← hdn]
  cases hlong : t.broken c .long with
  | some sp =>
    have hshort : t.broken c .short = none := hone.resolve_left (by rw [hlong]; exact Option.some_ne_none _)
    right
    refine ⟨.long, sp, hlong, ?_⟩
    rw [hshort]
    refine ⟨rfl, rfl, fun other hother => ?_, rfl⟩
    cases other with
    | long => exact absurd rfl hother
    | short => exact ⟨hshort, rfl⟩
  | none =>
    cases hshort : t.broken c .short with
    | some sp =>
      right
      refine ⟨.short, sp, hshort, rfl, rfl, fun other hother => ?_, rfl⟩
      cases other with
      | long => exact ⟨hlong, rfl⟩
      | short => exact absurd rfl hother
    | none =>
      left
      refine ⟨rfl, fun side => ?_⟩
      cases side with
      | long => exact hlong
      | short => exact hshort

theorem breakCheck_event (hone : t.broken c .long = none ∨ t.broken c .short = none) (event : StructureEvent) :
    (t.breakCheck c).1 = some event ↔
      ∃ side sp, t.broken c side = some sp ∧ event = ⟨c.ts, t.kindOf side, side, sp.price⟩ := by
  rcases t.breakCheck_cases c hone with ⟨hquiet, hnone⟩ | ⟨side, sp, hsp, hevent, -, hothers, -⟩
  · rw [hquiet]
    constructor
    · intro h
      cases h
    · rintro ⟨side, sp, hsp, -⟩
      rw [hnone side] at hsp
      cases hsp
  · rw [hevent]
    constructor
    · intro h
      exact ⟨side, sp, hsp, (Option.some.inj h).symm⟩
    · rintro ⟨side', sp', hsp', rfl⟩
      by_cases hside : side' = side
      · subst hside
        rw [hsp] at hsp'
        cases hsp'
        rfl
      · rw [(hothers side' hside).1] at hsp'
        cases hsp'

theorem breakCheck_ref (hone : t.broken c .long = none ∨ t.broken c .short = none) :
    (t.breakCheck c).2.ref side = (t.ref side).filter fun sp => ¬ Beyond side c.close sp.price := by
  have hkeep (hnone : t.broken c side = none) :
      t.ref side = (t.ref side).filter fun sp => ¬ Beyond side c.close sp.price := by
    unfold broken at hnone
    rw [Option.filter_eq_none_iff] at hnone
    cases href : t.ref side with
    | none => rfl
    | some sp => rw [Option.filter_some, if_pos (by simpa using hnone sp href)]
  rcases t.breakCheck_cases c hone with ⟨hquiet, hnone⟩ | ⟨side', sp, hsp, -, hgone, hothers, -⟩
  · rw [hquiet]
    exact hkeep (hnone side)
  · by_cases hside : side = side'
    · subst hside
      obtain ⟨href, hbeyond⟩ := Option.filter_eq_some_iff.mp hsp
      rw [hgone, href, Option.filter_some, if_neg (by simpa using hbeyond)]
    · rw [(hothers side hside).2]
      exact hkeep (hothers side hside).1

theorem breakCheck_trend (hone : t.broken c .long = none ∨ t.broken c .short = none) :
    (t.breakCheck c).2.trend = ((t.breakCheck c).1.map (·.direction)).or t.trend := by
  rcases t.breakCheck_cases c hone with ⟨hquiet, -⟩ | ⟨side, sp, -, hevent, -, -, htrend⟩
  · rw [hquiet]
    rfl
  · rw [hevent, htrend]
    rfl

theorem breakCheck_rest : (t.breakCheck c).2.lookback = t.lookback ∧ (t.breakCheck c).2.maxSwings = t.maxSwings ∧
    (t.breakCheck c).2.window = t.window ∧ (t.breakCheck c).2.kept side = t.kept side := by
  unfold breakCheck
  dsimp only
  split <;> cases side <;> exact ⟨rfl, rfl, rfl, rfl⟩

end StructureTracker

/-! ### The series -/

namespace Offline

variable {k : Nat} {bars : List Candle} {side : Direction} {i j n : Nat}

theorem extreme_eq (hj : j < bars.length) : extreme bars side j = (swingBar bars[j]).extreme side := by
  simp [extreme, hj]

theorem close_eq (hj : j < bars.length) : close bars j = bars[j].close := by
  simp [close, hj]

theorem point_eq (hj : j < bars.length) : point bars side j = ⟨bars[j].ts, (swingBar bars[j]).extreme side⟩ := by
  simp [point, hj, extreme_eq]

theorem low_le_close (hj : j < bars.length) : extreme bars .short j ≤ close bars j := by
  rw [extreme_eq hj, close_eq hj]
  exact bars[j].low_le_close

theorem close_le_high (hj : j < bars.length) : close bars j ≤ extreme bars .long j := by
  rw [extreme_eq hj, close_eq hj]
  exact bars[j].close_le_high

theorem mem_swings : j ∈ swings k bars side n ↔ j + k < n ∧ IsSwing k bars side j := by
  simp only [swings, List.mem_filter, List.mem_range, decide_eq_true_eq]
  constructor
  · rintro ⟨hj, hswing⟩
    exact ⟨by omega, hswing⟩
  · rintro ⟨hj, hswing⟩
    exact ⟨by omega, hswing⟩

theorem mem_open' {last : Nat} (h : open' k bars side n last = some j) :
    j + k < n ∧ IsSwing k bars side j ∧ Unbroken bars side j (j + k) last := by
  obtain ⟨hlast, hopen⟩ := Option.filter_eq_some_iff.mp h
  obtain ⟨hj, hswing⟩ := mem_swings.mp (List.mem_of_getLast? hlast)
  exact ⟨hj, hswing, by simpa using hopen⟩

/-- The swing that bar `i` confirms. -/
def fresh (k : Nat) (bars : List Candle) (side : Direction) (i : Nat) : Option Nat :=
  if IsSwing k bars side (i - k) then some (i - k) else none

theorem fresh_eq_some (h : fresh k bars side i = some j) : j + k = i ∧ IsSwing k bars side j := by
  unfold fresh at h
  split at h
  · next hswing =>
    have hk := hswing.1
    cases h
    exact ⟨by omega, hswing⟩
  · cases h

theorem swings_succ : swings k bars side (i + 1) = swings k bars side i ++ (fresh k bars side i).toList := by
  unfold swings fresh
  by_cases hik : k ≤ i
  · have hnext : i + 1 - k = (i - k) + 1 := by omega
    rw [hnext, List.range_succ, List.filter_append, List.filter_singleton]
    by_cases hswing : IsSwing k bars side (i - k) <;> simp [hswing]
  · have hswing : ¬ IsSwing k bars side (i - k) := fun h => hik (by have := h.1; omega)
    have hnow : i + 1 - k = 0 := by omega
    have hbefore : i - k = 0 := by omega
    rw [if_neg hswing, hnow, hbefore]
    rfl

theorem reference_eq : reference k bars side i = (fresh k bars side i).or (open' k bars side i i) := by
  unfold reference open'
  rw [swings_succ]
  cases hfresh : fresh k bars side i with
  | none => simp
  | some j =>
    have hjk := (fresh_eq_some hfresh).1
    have hopen : Unbroken bars side j (j + k) i := by
      unfold Unbroken
      rw [hjk, Nat.sub_self]
      intro m hm
      cases hm
    simp [hopen]

theorem open'_succ : open' k bars side (i + 1) (i + 1) =
    (reference k bars side i).filter fun j => ¬ Beyond side (close bars i) (extreme bars side j) := by
  unfold reference open'
  cases hlast : (swings k bars side (i + 1)).getLast? with
  | none => rfl
  | some j =>
    have hj := (mem_swings.mp (List.mem_of_getLast? hlast)).1
    have hsucc : Unbroken bars side j (j + k) (i + 1) ↔
        Unbroken bars side j (j + k) i ∧ ¬ Beyond side (close bars i) (extreme bars side j) := by
      have hrange : i + 1 - (j + k) = i - (j + k) + 1 := by omega
      have hat : j + k + (i - (j + k)) = i := by omega
      unfold Unbroken
      rw [hrange, List.range'_1_concat, hat]
      simp only [List.mem_append, List.mem_singleton, or_imp, forall_and, forall_eq]
    by_cases hopen : Unbroken bars side j (j + k) i <;>
      by_cases hbeyond : Beyond side (close bars i) (extreme bars side j) <;>
        simp [Option.filter_some, hsucc, hopen, hbeyond]

/-- **The references are in order**: a swing low that no close has broken is no higher than a swing high that none
has. -/
theorem reference_order (hk : 1 ≤ k) (hi : i < bars.length) {hi' lo : Nat} (hhigh : reference k bars .long i = some hi')
    (hlow : reference k bars .short i = some lo) : extreme bars .short lo ≤ extreme bars .long hi' := by
  obtain ⟨hhighIn, hhighSwing, hhighOpen⟩ := mem_open' hhigh
  obtain ⟨hlowIn, -, hlowOpen⟩ := mem_open' hlow
  by_cases hafter : hi' + k < lo
  · -- the low came after the high was confirmed, and its bar did not close above it
    have hclose := hhighOpen lo (by rw [List.mem_range'_1]; omega)
    exact (low_le_close (by omega)).trans (not_lt.mp hclose)
  by_cases hbefore : lo + k < hi'
  · have hclose := hlowOpen hi' (by rw [List.mem_range'_1]; omega)
    exact (not_lt.mp hclose).trans (close_le_high (by omega))
  -- within the window of the high, which is above every other bar of it
  have hlohi : extreme bars .short lo ≤ extreme bars .long lo :=
    (low_le_close (by omega)).trans (close_le_high (by omega))
  by_cases hsame : lo = hi'
  · rwa [hsame] at hlohi ⊢
  · have hhighK := hhighSwing.1
    have hbeyond := hhighSwing.2 lo (by rw [List.mem_range'_1]; omega) hsame
    exact hlohi.trans hbeyond.le

end Offline

/-! ### The tracker on the series -/

open Offline

/-- The run has been fed the first `i` bars. -/
structure SwingRun.Fed (k : Nat) (maxSwings : Int) (bars : List Candle) (i : Nat) (r : SwingRun) : Prop where
  lookback : r.tracker.lookback = k
  bound : r.tracker.maxSwings = maxSwings
  count : r.bars = i
  window : r.tracker.window = ((bars.map swingBar).take i).drop (i - (2 * k + 1))
  confirmed : ∀ side, r.confirmed side = (swings k bars side i).map (point bars side)
  kept : ∀ side, r.tracker.kept side = (r.confirmed side).rtake maxSwings.toNat
  ref : ∀ side, r.tracker.ref side = (open' k bars side i i).map (point bars side)
  trend : r.tracker.trend = r.events.getLast?.map (·.2.direction)

/-- The direction of an event and the swing it broke. -/
def Offline.broke (k : Nat) (bars : List Candle) : Nat × StructureEvent → Direction × Option Nat :=
  fun (m, event) => (event.direction, reference k bars event.direction m)

/-- What bar `i` does to the run of the bars before it, read off the series. -/
structure SwingRun.AgreesAt (k : Nat) (maxSwings : Int) (bars : List Candle) (r : SwingRun) (i : Nat) (c : Candle) :
    Prop where
  confirmed : ∀ side, (r.step c).confirmed side = (swings k bars side (i + 1)).map (point bars side)
  kept : ∀ side, (r.step c).tracker.kept side = ((r.step c).confirmed side).rtake maxSwings.toNat
  reference : ∀ side, (r.tracker.confirm c).ref side = (reference k bars side i).map (point bars side)
  event : ∀ event, (r.tracker.update c).1 = some event ↔
    ∃ side j, Offline.reference k bars side i = some j ∧ Beyond side c.close (extreme bars side j) ∧
      event = ⟨c.ts, kindAfter side r.events, side, extreme bars side j⟩

namespace SwingRun

variable {k : Nat} {maxSwings : Int} {bars : List Candle} {i : Nat} {r : SwingRun}

theorem Fed.push_window (h : r.Fed k maxSwings bars i) (hi : i < bars.length) :
    (r.tracker.push bars[i]).window = ((bars.map swingBar).take (i + 1)).drop (i - 2 * k) := by
  have hi' : i < (bars.map swingBar).length := by simpa using hi
  have hx : swingBar bars[i] = (bars.map swingBar)[i] := by simp
  unfold StructureTracker.push
  rw [h.window, h.lookback, hx, Int.toNat_natCast]
  have hslice : i - 2 * k = i + 1 - (2 * k + 1) := by omega
  rw [hslice]
  exact pushBounded_slice _

theorem Fed.newSwing_eq (h : r.Fed k maxSwings bars i) (hk : 1 ≤ k) (hi : i < bars.length) (side : Direction) :
    r.tracker.newSwing bars[i] side = (fresh k bars side i).map (point bars side) := by
  have hlookback : (r.tracker.push bars[i]).lookback = k := h.lookback
  unfold StructureTracker.newSwing StructureTracker.centre StructureTracker.othersAll fresh
  rw [h.push_window hi, hlookback, Int.toNat_natCast]
  by_cases hfull : 2 * k ≤ i
  · have hlen : (((bars.map swingBar).take (i + 1)).drop (i - 2 * k)).length = 2 * k + 1 := by
      simp
      omega
    have hothers := slice_others (show i < (bars.map swingBar).length by simpa using hi) hfull fun other =>
      decide (Beyond side ((swingBar bars[i - k]).extreme side) (other.extreme side))
    have hswing : IsSwing k bars side (i - k) ↔ ((((bars.map swingBar).take (i + 1)).drop (i - 2 * k)).eraseIdx k).all
        (fun other => decide (Beyond side ((swingBar bars[i - k]).extreme side) (other.extreme side))) = true := by
      rw [hothers]
      constructor
      · intro hswing m hm hlow hup hne
        have hbeyond := hswing.2 m (by rw [List.mem_range'_1]; omega) hne
        rw [extreme_eq (by omega), extreme_eq (by simpa using hm)] at hbeyond
        simpa using hbeyond
      · intro hall
        refine ⟨by omega, fun m hm hne => ?_⟩
        rw [List.mem_range'_1] at hm
        have hlt : m < bars.length := by omega
        have hbeyond := hall m (by simpa using hlt) (by omega) (by omega) hne
        rw [extreme_eq (by omega), extreme_eq hlt]
        simpa using hbeyond
    rw [if_pos hlen, slice_centre hi hfull, Option.filter_some]
    by_cases hyes : IsSwing k bars side (i - k)
    · rw [if_pos hyes, if_pos (hswing.mp hyes), Option.map_some, Option.map_some, point_eq (by omega)]
      rfl
    · rw [if_neg hyes, if_neg (hswing.not.mp hyes)]
      rfl
  · have hlen : (((bars.map swingBar).take (i + 1)).drop (i - 2 * k)).length ≠ 2 * k + 1 := by
      simp
      omega
    have hno : ¬ IsSwing k bars side (i - k) := fun hswing => by
      have := hswing.1
      omega
    rw [if_neg hlen, if_neg hno]
    rfl

theorem Fed.reference_eq (h : r.Fed k maxSwings bars i) (hk : 1 ≤ k) (hi : i < bars.length) (side : Direction) :
    (r.tracker.confirm bars[i]).ref side = (reference k bars side i).map (point bars side) := by
  rw [StructureTracker.confirm_ref, h.newSwing_eq hk hi, h.ref, Offline.reference_eq]
  cases fresh k bars side i <;> rfl

theorem Fed.broken_eq (h : r.Fed k maxSwings bars i) (hk : 1 ≤ k) (hi : i < bars.length) (side : Direction) :
    (r.tracker.confirm bars[i]).broken bars[i] side =
      ((reference k bars side i).filter fun j => Beyond side (close bars i) (extreme bars side j)).map
        (point bars side) := by
  unfold StructureTracker.broken
  rw [h.reference_eq hk hi, close_eq hi, Option.filter_map]
  rfl

/-- The tie-break is never taken. -/
theorem Fed.one_side (h : r.Fed k maxSwings bars i) (hk : 1 ≤ k) (hi : i < bars.length) :
    (r.tracker.confirm bars[i]).broken bars[i] .long = none ∨ (r.tracker.confirm bars[i]).broken bars[i] .short = none := by
  rw [h.broken_eq hk hi, h.broken_eq hk hi, Option.map_eq_none_iff, Option.map_eq_none_iff]
  cases hhigh : reference k bars .long i with
  | none => exact Or.inl rfl
  | some high =>
    cases hlow : reference k bars .short i with
    | none => exact Or.inr rfl
    | some low =>
      have horder := reference_order hk hi hhigh hlow
      by_cases hup : extreme bars .long high < close bars i
      · have hin : ¬ Beyond .short (close bars i) (extreme bars .short low) := not_lt.mpr (horder.trans hup.le)
        refine Or.inr ?_
        rw [Option.filter_some, if_neg (by simpa using hin)]
      · have hin : ¬ Beyond .long (close bars i) (extreme bars .long high) := hup
        refine Or.inl ?_
        rw [Option.filter_some, if_neg (by simpa using hin)]

theorem Fed.event_iff (h : r.Fed k maxSwings bars i) (hk : 1 ≤ k) (hi : i < bars.length) (event : StructureEvent) :
    (r.tracker.update bars[i]).1 = some event ↔
      ∃ side j, reference k bars side i = some j ∧ Beyond side bars[i].close (extreme bars side j) ∧
        event = ⟨bars[i].ts, kindAfter side r.events, side, extreme bars side j⟩ := by
  have hkind (side : Direction) : (r.tracker.confirm bars[i]).kindOf side = kindAfter side r.events := by
    unfold StructureTracker.kindOf kindAfter
    rw [(StructureTracker.confirm_rest _ _).2.2.2, h.trend]
    cases r.events.getLast? <;> rfl
  unfold StructureTracker.update
  rw [StructureTracker.breakCheck_event _ _ (h.one_side hk hi)]
  constructor
  · rintro ⟨side, sp, hsp, rfl⟩
    rw [h.broken_eq hk hi] at hsp
    obtain ⟨j, hj, rfl⟩ := Option.map_eq_some_iff.mp hsp
    obtain ⟨href, hbeyond⟩ := Option.filter_eq_some_iff.mp hj
    rw [close_eq hi, decide_eq_true_eq] at hbeyond
    exact ⟨side, j, href, hbeyond, by rw [hkind]; rfl⟩
  · rintro ⟨side, j, href, hbeyond, rfl⟩
    refine ⟨side, point bars side j, ?_, by rw [hkind]; rfl⟩
    rw [h.broken_eq hk hi, href, Option.filter_some, close_eq hi, if_pos (decide_eq_true hbeyond)]
    rfl

/-- Fed bar `i`, the tracker is where the series says. -/
theorem Fed.step (h : r.Fed k maxSwings bars i) (hk : 1 ≤ k) (hi : i < bars.length) :
    (r.step bars[i]).Fed k maxSwings bars (i + 1) := by
  have hone := h.one_side hk hi
  have hrest := StructureTracker.breakCheck_rest (r.tracker.confirm bars[i]) bars[i]
  obtain ⟨hlookback', hbound', hwindow', -⟩ := hrest .long
  obtain ⟨hwindow, hlookback, hbound, htrend⟩ := StructureTracker.confirm_rest r.tracker bars[i]
  constructor
  · exact hlookback'.trans (hlookback.trans h.lookback)
  · exact hbound'.trans (hbound.trans h.bound)
  · exact congrArg (· + 1) h.count
  · calc (r.tracker.update bars[i]).2.window = (r.tracker.confirm bars[i]).window := hwindow'
      _ = ((bars.map swingBar).take (i + 1)).drop (i - 2 * k) := hwindow.trans (h.push_window hi)
      _ = ((bars.map swingBar).take (i + 1)).drop (i + 1 - (2 * k + 1)) := by rw [Nat.add_sub_add_right]
  · intro side
    show r.confirmed side ++ (r.tracker.newSwing bars[i] side).toList = _
    rw [h.confirmed, h.newSwing_eq hk hi, swings_succ, List.map_append]
    cases fresh k bars side i <;> rfl
  · intro side
    show (r.tracker.update bars[i]).2.kept side = (r.confirmed side ++ (r.tracker.newSwing bars[i] side).toList).rtake _
    unfold StructureTracker.update
    rw [(hrest side).2.2.2, StructureTracker.confirm_kept, h.kept, h.bound]
    cases r.tracker.newSwing bars[i] side with
    | none =>
      rw [Option.toList_none, List.append_nil]
      rfl
    | some sp => exact pushBounded_rtake _ _ _
  · intro side
    show ((r.tracker.confirm bars[i]).breakCheck bars[i]).2.ref side = _
    rw [StructureTracker.breakCheck_ref _ _ _ hone, h.reference_eq hk hi, open'_succ, close_eq hi, Option.filter_map]
    rfl
  · show ((r.tracker.confirm bars[i]).breakCheck bars[i]).2.trend = _
    rw [StructureTracker.breakCheck_trend _ _ hone, htrend, h.trend]
    show _ = ((r.events ++ ((r.tracker.update bars[i]).1.map fun event => (r.bars, event)).toList).getLast?).map _
    unfold StructureTracker.update
    cases ((r.tracker.confirm bars[i]).breakCheck bars[i]).1 with
    | none => simp
    | some event => simp

theorem Fed.agreesAt (h : r.Fed k maxSwings bars i) (hk : 1 ≤ k) (hi : i < bars.length) :
    AgreesAt k maxSwings bars r i bars[i] where
  confirmed := (h.step hk hi).confirmed
  kept := (h.step hk hi).kept
  reference := h.reference_eq hk hi
  event := h.event_iff hk hi

/-- Every event is of an earlier bar, which closed beyond the swing it broke. -/
def Broken (k : Nat) (bars : List Candle) (i : Nat) (r : SwingRun) : Prop :=
  ∀ m event, (m, event) ∈ r.events → m < i ∧ ∃ j, reference k bars event.direction m = some j ∧
    Beyond event.direction (close bars m) (extreme bars event.direction j)

theorem Fed.step_events (h : r.Fed k maxSwings bars i) (hk : 1 ≤ k) (hi : i < bars.length)
    (hbroken : Broken k bars i r) (honce : (r.events.map (broke k bars)).Nodup) :
    Broken k bars (i + 1) (r.step bars[i]) ∧ ((r.step bars[i]).events.map (broke k bars)).Nodup := by
  have hevents : (r.step bars[i]).events = r.events ++ ((r.tracker.update bars[i]).1.map fun event => (i, event)).toList := by
    show r.events ++ (Option.map (fun event => (r.bars, event)) _).toList = _
    rw [h.count]
  unfold Broken
  rw [hevents]
  cases hout : (r.tracker.update bars[i]).1 with
  | none =>
    simp only [Option.map_none, Option.toList_none, List.append_nil]
    exact ⟨fun m event hmem => ⟨Nat.lt_succ_of_lt (hbroken m event hmem).1, (hbroken m event hmem).2⟩, honce⟩
  | some event =>
    obtain ⟨side, j, href, hbeyond, rfl⟩ := (h.event_iff hk hi event).mp hout
    simp only [Option.map_some, Option.toList_some, List.mem_append, List.mem_singleton, List.map_append, List.map_cons,
      List.map_nil]
    constructor
    · rintro m event (hmem | hnew)
      · exact ⟨Nat.lt_succ_of_lt (hbroken m event hmem).1, (hbroken m event hmem).2⟩
      · cases hnew
        exact ⟨Nat.lt_succ_self i, j, href, by rwa [close_eq hi]⟩
    · refine List.nodup_append.mpr ⟨honce, List.pairwise_singleton _ _, ?_⟩
      intro pair hold pair' hnew heq
      rw [List.mem_singleton] at hnew
      subst heq hnew
      obtain ⟨⟨m, event⟩, hmem, hpair⟩ := List.mem_map.mp hold
      obtain ⟨hside, hsame⟩ := Prod.mk.inj hpair
      obtain ⟨hm, j', href', hbeyond'⟩ := hbroken m event hmem
      dsimp only at hside hsame
      subst hside
      rw [href', href] at hsame
      cases hsame
      -- the bar of the earlier event closed beyond the swing, which is broken since
      have hconfirmed := (mem_open' href').1
      exact (mem_open' href).2.2 m (by rw [List.mem_range'_1]; omega) hbeyond'

/-- Fed a part of the series, the tracker is where the series says. -/
theorem run_fed (k : Nat) (maxSwings : Int) (hk : 1 ≤ k) (bars : List Candle) {i : Nat} (hi : i ≤ bars.length) :
    (run SwingRun.step (SwingRun.start k maxSwings) (bars.take i)).Fed k maxSwings bars i := by
  induction i with
  | zero =>
    refine ⟨rfl, rfl, rfl, by simp [SwingRun.start], fun side => ?_, fun side => ?_, fun side => ?_, rfl⟩
    · simp [swings, SwingRun.start]
    · cases side <;> simp [SwingRun.start, StructureTracker.kept]
    · cases side <;> simp [SwingRun.start, StructureTracker.ref, open', swings]
  | succ i ih =>
    rw [List.take_succ_eq_append_getElem (by omega), run_append]
    exact (ih (by omega)).step hk hi

theorem run_tracker (r : SwingRun) (cs : List Candle) :
    (run SwingRun.step r cs).tracker = run (fun t c => (t.update c).2) r.tracker cs := by
  induction cs generalizing r with
  | nil => rfl
  | cons c cs ih => exact ih (r.step c)

end SwingRun

/-- **The streaming structure is the structure of the series.** Before and after every bar the tracker has the swings,
the references and the event that the series defines, and no swing is broken twice. -/
theorem tracker_offline (k : Nat) (maxSwings : Int) (hk : 1 ≤ k) (bars : List Candle) :
    (∀ i (hi : i < bars.length),
      (run SwingRun.step (SwingRun.start k maxSwings) (bars.take i)).AgreesAt k maxSwings bars i bars[i]) ∧
    ((run SwingRun.step (SwingRun.start k maxSwings) bars).events.map (broke k bars)).Nodup := by
  have honce : ∀ i, i ≤ bars.length →
      let r := run SwingRun.step (SwingRun.start k maxSwings) (bars.take i)
      r.Broken k bars i ∧ (r.events.map (broke k bars)).Nodup := by
    intro i
    induction i with
    | zero =>
      intro _
      refine ⟨?_, List.nodup_nil⟩
      intro m event hmem
      cases hmem
    | succ i ih =>
      intro hi
      obtain ⟨hbroken, honce⟩ := ih (by omega)
      rw [List.take_succ_eq_append_getElem (by omega), run_append]
      exact (SwingRun.run_fed k maxSwings hk bars (by omega)).step_events hk hi hbroken honce
  refine ⟨fun i hi => (SwingRun.run_fed k maxSwings hk bars hi.le).agreesAt hk hi, ?_⟩
  have hall := (honce bars.length le_rfl).2
  rwa [List.take_length] at hall

/-- A swing high at 4 that bar 3 closes above, and a swing low at 3 that the last bar closes below. -/
def reversal : List Candle :=
  [barOf 0 1 2 1 2, barOf 1 2 4 2 3, barOf 2 3 3 2 2, barOf 3 2 5 2 5, barOf 4 5 6 4 5, barOf 5 5 5 3 4, barOf 6 4 5 4 4,
    barOf 7 4 4 2 2]

theorem tracker_offline_reversal :
    let r := run SwingRun.step (SwingRun.start 1 50) reversal
    (r.events.map (broke 1 reversal)).Nodup ∧
      r.events.map (fun (m, event) => (m, event.kind, event.direction)) = [(3, .bos, .long), (7, .choch, .short)] :=
  ⟨(tracker_offline 1 50 le_rfl reversal).2, by decide +kernel⟩

/-! ### The tie-break -/

/-- A new tracker that was fed these bars. -/
def StructureTracker.fed (lookback : Nat) (maxSwings : Int) (bars : List Candle) : StructureTracker :=
  run (fun t c => (t.update c).2) { lookback := lookback, maxSwings := maxSwings } bars

/-- Both `up` and `dn`: the close is beyond both references. -/
def StructureTracker.BreaksBoth (t : StructureTracker) (c : Candle) : Prop :=
  (∃ sp ∈ t.refHigh, sp.price < c.close) ∧ ∃ sp ∈ t.refLow, c.close < sp.price

theorem StructureTracker.broken_eq_none_iff (t : StructureTracker) (c : Candle) (side : Direction) :
    t.broken c side = none ↔ ¬ ∃ sp ∈ t.ref side, Beyond side c.close sp.price := by
  unfold broken
  rw [Option.filter_eq_none_iff]
  simp

/-- **No bar breaks both references**, so the tie-break by the body of the bar is never taken. -/
theorem never_breaksBoth (k : Nat) (maxSwings : Int) (hk : 1 ≤ k) (bars : List Candle) (i : Nat)
    (hi : i < bars.length) :
    ¬ ((StructureTracker.fed k maxSwings (bars.take i)).confirm bars[i]).BreaksBoth bars[i] := by
  have hone := (SwingRun.run_fed k maxSwings hk bars hi.le).one_side hk hi
  rw [SwingRun.run_tracker] at hone
  rintro ⟨hup, hdn⟩
  rcases hone with hlong | hshort
  · exact (StructureTracker.broken_eq_none_iff _ _ _).mp hlong hup
  · exact (StructureTracker.broken_eq_none_iff _ _ _).mp hshort hdn

/-- The last bar of the reversal breaks the swing low only. -/
theorem never_breaksBoth_reversal :
    ¬ ((StructureTracker.fed 1 50 (reversal.take 7)).confirm (barOf 7 4 4 2 2)).BreaksBoth (barOf 7 4 4 2 2) :=
  never_breaksBoth 1 50 le_rfl reversal 7 (by decide)

end FreqTrading
