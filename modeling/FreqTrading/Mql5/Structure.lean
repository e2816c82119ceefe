import FreqTrading.Smc.Structure

/-!
# The structure scan of the EA

`ScanStructure` of `mql5/SmcXau_EA.mq5`, beside the `StructureTracker` it ports. The scan walks the arrays of all
closed bars, oldest first; the tracker is fed one bar at a time and keeps a window. They tell a bar that breaks
both references by different rules, and no such bar exists: as long as both references stand, no close has left
the span between them.
-/

namespace FreqTrading

namespace Ea

/-- What `CopyTime`, `CopyOpen`, `CopyHigh`, `CopyLow` and `CopyClose` fill, oldest bar first. -/
structure Rates where
  time : List Int
  open' : List ℚ
  high : List ℚ
  low : List ℚ
  close : List ℚ

namespace Rates

def copy (bars : List Candle) : Rates where
  time := bars.map (·.ts)
  open' := bars.map (·.open')
  high := bars.map (·.high)
  low := bars.map (·.low)
  close := bars.map (·.close)

def tm (r : Rates) (k : Nat) : Int := r.time.getD k 0

def op (r : Rates) (k : Nat) : ℚ := r.open'.getD k 0

def hi (r : Rates) (k : Nat) : ℚ := r.high.getD k 0

def lo (r : Rates) (k : Nat) : ℚ := r.low.getD k 0

def cl (r : Rates) (k : Nat) : ℚ := r.close.getD k 0

/-- `is_high`: every other bar of `[j - lb, j + lb]` is lower. -/
def isHigh (r : Rates) (lb j : Nat) : Bool :=
  (List.range' (j - lb) (2 * lb + 1)).all fun k => k == j || decide (r.hi k < r.hi j)

def isLow (r : Rates) (lb j : Nat) : Bool :=
  (List.range' (j - lb) (2 * lb + 1)).all fun k => k == j || decide (r.lo j < r.lo k)

end Rates

/-- The swings a close can break, each while it is valid. -/
structure Refs where
  high : Option SwingPoint := none
  low : Option SwingPoint := none
  deriving DecidableEq, Repr

namespace Refs

/-- Confirm the swing `lb` bars before bar `i`. -/
def confirm (refs : Refs) (r : Rates) (lb i : Nat) : Refs :=
  let j := i - lb
  { high := if r.isHigh lb j then some ⟨r.tm j, r.hi j⟩ else refs.high
    low := if r.isLow lb j then some ⟨r.tm j, r.lo j⟩ else refs.low }

/-- The direction in which the close of bar `i` breaks a reference. A tie goes by the close before. -/
def breakDir (refs : Refs) (r : Rates) (i : Nat) : Option Direction :=
  let up := refs.high.any fun sp => sp.price < r.cl i
  let dn := refs.low.any fun sp => r.cl i < sp.price
  let both := up && dn
  let rises := decide (r.cl (i - 1) ≤ r.cl i)
  if up && !(both && !rises) then some .long
  else if dn && !(both && rises) then some .short
  else none

/-- A broken reference is consumed. -/
def consume (refs : Refs) : Option Direction → Refs
  | none => refs
  | some .long => { refs with high := none }
  | some .short => { refs with low := none }

end Refs

structure StructResult where
  trend : Option Direction := none
  lastHigh : Option SwingPoint := none
  lastLow : Option SwingPoint := none
  lastEvent : Option StructureKind := none
  lastEventDir : Option Direction := none
  lastEventBar : Int := -1
  deriving DecidableEq, Repr

/-- The variables of the loop of `ScanStructure`. -/
structure Scan where
  res : StructResult := {}
  refs : Refs := {}
  deriving DecidableEq, Repr

/-- The body of the loop at bar `i`. -/
def scanBar (r : Rates) (lb : Nat) (s : Scan) (i : Nat) : Scan :=
  let refs := s.refs.confirm r lb i
  let res := { s.res with
    lastHigh := if r.isHigh lb (i - lb) then refs.high else s.res.lastHigh
    lastLow := if r.isLow lb (i - lb) then refs.low else s.res.lastLow }
  match refs.breakDir r i with
  | none => ⟨res, refs⟩
  | some direction =>
    { res := { res with
        lastEvent := some (if res.trend = some direction ∨ res.trend = none then .bos else .choch)
        lastEventDir := some direction
        lastEventBar := i
        trend := some direction }
      refs := refs.consume (some direction) }

/-- `ScanStructure`, over the bars copied. -/
def scanStructure (lb : Nat) (r : Rates) : StructResult :=
  let cnt := r.close.length
  if cnt < 2 * lb + 2 then {}
  else ((List.range' (2 * lb) (cnt - 2 * lb)).foldl (scanBar r lb) {}).res

end Ea

/-! ### Replaying a series through the tracker -/

/-- A tracker that is fed a series, with the last event and the index of its bar. -/
structure Replay where
  tracker : StructureTracker
  bars : Nat := 0
  last : Option (StructureEvent × Nat) := none

namespace Replay

def step (s : Replay) (c : Candle) : Replay :=
  let out := s.tracker.update c
  { tracker := out.2, bars := s.bars + 1, last := (out.1.map fun event => (event, s.bars)).or s.last }

end Replay

/-! ### The arrays of a series -/

namespace Ea

variable {bars : List Candle} {k : Nat}

theorem Rates.tm_copy (hk : k < bars.length) : (Rates.copy bars).tm k = bars[k].ts := by
  simp [copy, tm, hk]

theorem Rates.hi_copy (hk : k < bars.length) : (Rates.copy bars).hi k = bars[k].high := by
  simp [copy, hi, hk]

theorem Rates.lo_copy (hk : k < bars.length) : (Rates.copy bars).lo k = bars[k].low := by
  simp [copy, lo, hk]

theorem Rates.op_copy (hk : k < bars.length) : (Rates.copy bars).op k = bars[k].open' := by
  simp [copy, op, hk]

theorem Rates.cl_copy (hk : k < bars.length) : (Rates.copy bars).cl k = bars[k].close := by
  simp [copy, cl, hk]

variable {r : Rates} {lb j : Nat}

theorem Rates.isHigh_iff (hj : lb ≤ j) :
    r.isHigh lb j = true ↔ ∀ k, j ≤ k + lb → k ≤ j + lb → k ≠ j → r.hi k < r.hi j := by
  simp only [isHigh, List.all_eq_true, List.mem_range'_1, Bool.or_eq_true, beq_iff_eq, decide_eq_true_eq]
  constructor
  · intro h k hlow hhigh hne
    exact (h k ⟨by omega, by omega⟩).resolve_left hne
  · intro h k hk
    by_cases hne : k = j
    · exact Or.inl hne
    · exact Or.inr (h k (by omega) (by omega) hne)

theorem Rates.isLow_iff (hj : lb ≤ j) :
    r.isLow lb j = true ↔ ∀ k, j ≤ k + lb → k ≤ j + lb → k ≠ j → r.lo j < r.lo k := by
  simp only [isLow, List.all_eq_true, List.mem_range'_1, Bool.or_eq_true, beq_iff_eq, decide_eq_true_eq]
  constructor
  · intro h k hlow hhigh hne
    exact (h k ⟨by omega, by omega⟩).resolve_left hne
  · intro h k hk
    by_cases hne : k = j
    · exact Or.inl hne
    · exact Or.inr (h k (by omega) (by omega) hne)

end Ea

/-- A series of closed bars through a new tracker. -/
def replay (lookback : Nat) (maxSwings : Int) (bars : List Candle) : Replay :=
  bars.foldl Replay.step { tracker := { lookback := lookback, maxSwings := maxSwings } }

/-! ### One bar -/

namespace StructureTracker

theorem confirmHigh_eq (t : StructureTracker) (bar : SwingBar) :
    t.confirmHigh bar =
      { t with
        highs := if t.othersAll fun other => other.high < bar.high
          then pushBounded t.maxSwings.toNat t.highs ⟨bar.ts, bar.high⟩ else t.highs
        refHigh := if t.othersAll fun other => other.high < bar.high
          then some ⟨bar.ts, bar.high⟩ else t.refHigh } := by
  unfold confirmHigh
  split <;> rfl

theorem confirmLow_eq (t : StructureTracker) (bar : SwingBar) :
    t.confirmLow bar =
      { t with
        lows := if t.othersAll fun other => bar.low < other.low
          then pushBounded t.maxSwings.toNat t.lows ⟨bar.ts, bar.low⟩ else t.lows
        refLow := if t.othersAll fun other => bar.low < other.low
          then some ⟨bar.ts, bar.low⟩ else t.refLow } := by
  unfold confirmLow
  split <;> rfl

end StructureTracker

section slice

variable {lb n : Nat} {bars : List Candle}

theorem slice_isHigh (hn : n < bars.length) (hfull : 2 * lb ≤ n) :
    ((((bars.map swingBar).take (n + 1)).drop (n - 2 * lb)).eraseIdx lb).all
      (fun other => decide (other.high < bars[n - lb].high)) = (Ea.Rates.copy bars).isHigh lb (n - lb) := by
  have hj : n - lb < bars.length := by omega
  rw [Bool.eq_iff_iff, slice_others (by simpa using hn) hfull, Ea.Rates.isHigh_iff (by omega)]
  simp only [List.length_map, List.getElem_map, decide_eq_true_eq, swingBar]
  constructor
  · intro h k hlow hup hne
    rw [Ea.Rates.hi_copy (k := k) (by omega), Ea.Rates.hi_copy hj]
    exact h k (by omega) (by omega) (by omega) hne
  · intro h k hk hlow hup hne
    have := h k (by omega) (by omega) hne
    rwa [Ea.Rates.hi_copy hk, Ea.Rates.hi_copy hj] at this

theorem slice_isLow (hn : n < bars.length) (hfull : 2 * lb ≤ n) :
    ((((bars.map swingBar).take (n + 1)).drop (n - 2 * lb)).eraseIdx lb).all
      (fun other => decide (bars[n - lb].low < other.low)) = (Ea.Rates.copy bars).isLow lb (n - lb) := by
  have hj : n - lb < bars.length := by omega
  rw [Bool.eq_iff_iff, slice_others (by simpa using hn) hfull, Ea.Rates.isLow_iff (by omega)]
  simp only [List.length_map, List.getElem_map, decide_eq_true_eq, swingBar]
  constructor
  · intro h k hlow hup hne
    rw [Ea.Rates.lo_copy (k := k) (by omega), Ea.Rates.lo_copy hj]
    exact h k (by omega) (by omega) (by omega) hne
  · intro h k hk hlow hup hne
    have := h k (by omega) (by omega) hne
    rwa [Ea.Rates.lo_copy hk, Ea.Rates.lo_copy hj] at this

end slice

/-- The tracker has been fed the first `n` bars, and stands where the references of the scan stand. -/
structure Follows (lb : Nat) (bars : List Candle) (n : Nat) (t : StructureTracker) (refs : Ea.Refs) : Prop where
  lookback : t.lookback = lb
  window : t.window = ((bars.map swingBar).take n).drop (n - (2 * lb + 1))
  high : t.refHigh = refs.high
  low : t.refLow = refs.low

section bar

variable {lb n : Nat} {bars : List Candle} {t : StructureTracker} {refs : Ea.Refs}

theorem Follows.window_next (hf : Follows lb bars n t refs) (hn : n < bars.length) :
    pushBounded (2 * t.lookback.toNat + 1) t.window ⟨bars[n].ts, bars[n].high, bars[n].low⟩ =
      ((bars.map swingBar).take (n + 1)).drop (n + 1 - (2 * lb + 1)) := by
  have hn' : n < (bars.map swingBar).length := by simpa using hn
  have hx : (bars.map swingBar)[n] = ⟨bars[n].ts, bars[n].high, bars[n].low⟩ := by simp [swingBar]
  rw [hf.window, hf.lookback, ← hx]
  exact pushBounded_slice _

theorem Follows.confirm_early (hf : Follows lb bars n t refs) (hn : n < bars.length) (hfull : n < 2 * lb) :
    t.confirm bars[n] =
      { t with window := ((bars.map swingBar).take (n + 1)).drop (n + 1 - (2 * lb + 1)) } := by
  unfold StructureTracker.confirm
  rw [hf.window_next hn]
  have hlen : (((bars.map swingBar).take (n + 1)).drop (n + 1 - (2 * lb + 1))).length ≠ 2 * lb + 1 := by
    simp
    omega
  simp only [StructureTracker.centre, hf.lookback, Int.toNat_natCast, if_neg hlen]

theorem Follows.confirm_full (hf : Follows lb bars n t refs) (hn : n < bars.length) (hfull : 2 * lb ≤ n) :
    let r := Ea.Rates.copy bars
    let j := n - lb
    t.confirm bars[n] =
      { t with
        window := ((bars.map swingBar).take (n + 1)).drop (n + 1 - (2 * lb + 1))
        highs := if r.isHigh lb j then pushBounded t.maxSwings.toNat t.highs ⟨r.tm j, r.hi j⟩ else t.highs
        lows := if r.isLow lb j then pushBounded t.maxSwings.toNat t.lows ⟨r.tm j, r.lo j⟩ else t.lows
        refHigh := (refs.confirm r lb n).high
        refLow := (refs.confirm r lb n).low } := by
  intro r j
  have hslice : n + 1 - (2 * lb + 1) = n - 2 * lb := by omega
  have hj : j < bars.length := by omega
  have hlen : (((bars.map swingBar).take (n + 1)).drop (n - 2 * lb)).length = 2 * lb + 1 := by simp; omega
  have hhigh := slice_isHigh hn hfull
  have hlow := slice_isLow hn hfull
  unfold StructureTracker.confirm
  rw [hf.window_next hn, hslice]
  simp only [StructureTracker.centre, hf.lookback, Int.toNat_natCast, if_pos hlen, slice_centre hn hfull,
    StructureTracker.confirmHigh_eq, StructureTracker.confirmLow_eq, StructureTracker.othersAll, swingBar, hhigh, hlow]
  simp only [Ea.Refs.confirm, hf.high, hf.low, r, j, Ea.Rates.tm_copy hj, Ea.Rates.hi_copy hj, Ea.Rates.lo_copy hj]

end bar

/-! ### No close breaks both references -/

namespace Ea.Refs

/-- The references are in order, and of the bars before `m` that can still become a swing after `n` none lies
outside them. -/
structure Apart (r : Rates) (lb m n : Nat) (refs : Refs) : Prop where
  order : ∀ hi ∈ refs.high, ∀ lo ∈ refs.low, lo.price ≤ hi.price
  above : ∀ hi ∈ refs.high, ∀ k, k < m → n ≤ k + lb → r.lo k ≤ hi.price
  below : ∀ lo ∈ refs.low, ∀ k, k < m → n ≤ k + lb → lo.price ≤ r.hi k

variable {bars : List Candle} {lb m n : Nat} {refs : Refs}

theorem Apart.confirm (h : refs.Apart (Rates.copy bars) lb n n) (hlb : 1 ≤ lb) (hn : n < bars.length)
    (hfull : 2 * lb ≤ n) : (refs.confirm (Rates.copy bars) lb n).Apart (Rates.copy bars) lb n (n + 1) := by
  have hj : n - lb < bars.length := by omega
  have hspan (k : Nat) (hk : k < bars.length) : (Rates.copy bars).lo k ≤ (Rates.copy bars).hi k := by
    rw [Rates.lo_copy hk, Rates.hi_copy hk]
    exact bars[k].low_le_high
  refine ⟨?_, ?_, ?_⟩
  · intro hi hhi lo hlo
    simp only [Refs.confirm] at hhi hlo
    split at hhi <;> split at hlo
    · cases hhi
      cases hlo
      exact hspan _ hj
    · cases hhi
      exact h.below lo hlo _ (by omega) (by omega)
    · cases hlo
      exact h.above hi hhi _ (by omega) (by omega)
    · exact h.order hi hhi lo hlo
  · intro hi hhi k hk hlate
    simp only [Refs.confirm] at hhi
    split at hhi
    · next hup =>
      cases hhi
      have hlt := (Rates.isHigh_iff (by omega)).mp hup k (by omega) (by omega) (by omega)
      exact (hspan k (by omega)).trans hlt.le
    · exact h.above hi hhi k hk (by omega)
  · intro lo hlo k hk hlate
    simp only [Refs.confirm] at hlo
    split at hlo
    · next hdn =>
      cases hlo
      have hlt := (Rates.isLow_iff (by omega)).mp hdn k (by omega) (by omega) (by omega)
      exact hlt.le.trans (hspan k (by omega))
    · exact h.below lo hlo k hk (by omega)

/-- With the references in order a close breaks one of them at most. -/
theorem breakDir_eq {r : Rates} {i : Nat} (h : ∀ hi ∈ refs.high, ∀ lo ∈ refs.low, lo.price ≤ hi.price) :
    refs.breakDir r i =
      if refs.high.any fun sp => sp.price < r.cl i then some .long
      else if refs.low.any fun sp => r.cl i < sp.price then some .short
      else none := by
  have hboth : (refs.high.any (fun sp => sp.price < r.cl i) && refs.low.any fun sp => r.cl i < sp.price) = false := by
    rw [Bool.eq_false_iff]
    intro hboth
    obtain ⟨hup, hdn⟩ := Bool.and_eq_true_iff.mp hboth
    obtain ⟨hi, hhi, hlt⟩ := (Option.any_eq_true _ _).mp hup
    obtain ⟨lo, hlo, hgt⟩ := (Option.any_eq_true _ _).mp hdn
    have hin : lo.price ≤ hi.price := h hi hhi lo hlo
    exact absurd ((of_decide_eq_true hlt).trans (of_decide_eq_true hgt)) (not_lt.mpr hin)
  simp only [breakDir, hboth, Bool.false_and, Bool.not_false, Bool.and_true]

/-- A close that breaks nothing lies between the references; one that breaks a reference consumes it. -/
theorem Apart.consume (h : refs.Apart (Rates.copy bars) lb n (n + 1)) (hn : n < bars.length) :
    (refs.consume (refs.breakDir (Rates.copy bars) n)).Apart (Rates.copy bars) lb (n + 1) (n + 1) := by
  have hlo : (Rates.copy bars).lo n ≤ (Rates.copy bars).cl n := by
    rw [Rates.lo_copy hn, Rates.cl_copy hn]
    exact bars[n].low_le_close
  have hhi : (Rates.copy bars).cl n ≤ (Rates.copy bars).hi n := by
    rw [Rates.cl_copy hn, Rates.hi_copy hn]
    exact bars[n].close_le_high
  -- a bar before `n`, or bar `n` itself with its close inside
  have above {hi : SwingPoint} (hmem : hi ∈ refs.high) (hin : (Rates.copy bars).cl n ≤ hi.price) {k : Nat}
      (hk : k < n + 1) (hlate : n + 1 ≤ k + lb) : (Rates.copy bars).lo k ≤ hi.price := by
    by_cases hkn : k = n
    · exact hkn ▸ hlo.trans hin
    · exact h.above hi hmem k (by omega) hlate
  have below {lo : SwingPoint} (hmem : lo ∈ refs.low) (hin : lo.price ≤ (Rates.copy bars).cl n) {k : Nat}
      (hk : k < n + 1) (hlate : n + 1 ≤ k + lb) : lo.price ≤ (Rates.copy bars).hi k := by
    by_cases hkn : k = n
    · exact hkn ▸ hin.trans hhi
    · exact h.below lo hmem k (by omega) hlate
  rw [breakDir_eq h.order]
  split
  · next hup =>
    obtain ⟨hi, hmem, hlt⟩ := (Option.any_eq_true _ _).mp hup
    refine ⟨by simp [Refs.consume], by simp [Refs.consume], ?_⟩
    intro lo hlow k hk hlate
    exact below hlow ((h.order hi hmem lo hlow).trans (of_decide_eq_true hlt).le) hk hlate
  · next hup =>
    have hin (hi : SwingPoint) (hmem : hi ∈ refs.high) : (Rates.copy bars).cl n ≤ hi.price := by
      rw [← not_lt]
      intro hlt
      exact hup ((Option.any_eq_true _ _).mpr ⟨hi, hmem, decide_eq_true hlt⟩)
    split
    · refine ⟨by simp [Refs.consume], ?_, by simp [Refs.consume]⟩
      intro hi hmem k hk hlate
      exact above hmem (hin hi hmem) hk hlate
    · next hdn =>
      have hin' (lo : SwingPoint) (hmem : lo ∈ refs.low) : lo.price ≤ (Rates.copy bars).cl n := by
        rw [← not_lt]
        intro hlt
        exact hdn ((Option.any_eq_true _ _).mpr ⟨lo, hmem, decide_eq_true hlt⟩)
      exact ⟨h.order, fun hi hmem k => above hmem (hin hi hmem), fun lo hmem k => below hmem (hin' lo hmem)⟩

end Ea.Refs

theorem breakCheck_eq {t : StructureTracker} {refs : Ea.Refs} {r : Ea.Rates} {i : Nat} {c : Candle}
    (hhigh : t.refHigh = refs.high) (hlow : t.refLow = refs.low) (hclose : r.cl i = c.close)
    (horder : ∀ hi ∈ refs.high, ∀ lo ∈ refs.low, lo.price ≤ hi.price) :
    ∃ level, t.breakCheck c = ((refs.breakDir r i).map fun direction => ⟨c.ts, t.kindOf direction, direction, level⟩,
      { t with
        refHigh := (refs.consume (refs.breakDir r i)).high
        refLow := (refs.consume (refs.breakDir r i)).low
        trend := (refs.breakDir r i).or t.trend }) := by
  rw [Ea.Refs.breakDir_eq horder, hclose]
  unfold StructureTracker.breakCheck
  rw [hhigh, hlow]
  cases hup : refs.high.filter fun sp => decide (sp.price < c.close) with
  | some hi =>
    obtain ⟨hmem, hlt⟩ := Option.filter_eq_some_iff.mp hup
    have hdn : refs.low.filter (fun sp => decide (c.close < sp.price)) = none := by
      rw [Option.filter_eq_none_iff]
      intro lo hlo hgt
      exact absurd ((of_decide_eq_true hlt).trans (of_decide_eq_true hgt)) (not_lt.mpr (horder hi hmem lo hlo))
    refine ⟨hi.price, ?_⟩
    simp [hdn, hmem, of_decide_eq_true hlt, Ea.Refs.consume]
  | none =>
    have hin : refs.high.any (fun sp => decide (sp.price < c.close)) = false := by
      rw [← Option.isSome_filter, hup, Option.isSome_none]
    cases hdn : refs.low.filter fun sp => decide (c.close < sp.price) with
    | some lo =>
      obtain ⟨hmem, hlt⟩ := Option.filter_eq_some_iff.mp hdn
      refine ⟨lo.price, ?_⟩
      simp [hin, hmem, of_decide_eq_true hlt, Ea.Refs.consume]
    | none =>
      have hin' : refs.low.any (fun sp => decide (c.close < sp.price)) = false := by
        rw [← Option.isSome_filter, hdn, Option.isSome_none]
      rw [← hhigh] at hin
      rw [← hlow] at hin'
      refine ⟨0, ?_⟩
      simp [hin, hin', Ea.Refs.consume, ← hhigh, ← hlow]

/-! ### The two scans side by side -/

section scans

variable {lb n : Nat} {bars : List Candle} {t : StructureTracker} {refs : Ea.Refs}

theorem Follows.early (hf : Follows lb bars n t refs) (hn : n < bars.length) (hfull : n < 2 * lb)
    (hhigh : refs.high = none) (hlow : refs.low = none) :
    (t.update bars[n]).1 = none ∧ Follows lb bars (n + 1) (t.update bars[n]).2 refs ∧
      (t.update bars[n]).2 = { t with window := (t.update bars[n]).2.window } := by
  have hquiet : t.update bars[n] =
      (none, { t with window := ((bars.map swingBar).take (n + 1)).drop (n + 1 - (2 * lb + 1)) }) := by
    have h1 : t.refHigh = none := hf.high.trans hhigh
    have h2 : t.refLow = none := hf.low.trans hlow
    rw [StructureTracker.update, hf.confirm_early hn hfull]
    simp [StructureTracker.breakCheck, h1, h2]
  rw [hquiet]
  exact ⟨rfl, ⟨hf.lookback, rfl, hf.high, hf.low⟩, rfl⟩

/-- A bar that fills the window takes the tracker where it takes the scan. -/
theorem Follows.full (hf : Follows lb bars n t refs) (hapart : refs.Apart (Ea.Rates.copy bars) lb n n)
    (hlb : 1 ≤ lb) (hn : n < bars.length) (hfull : 2 * lb ≤ n) :
    let r := Ea.Rates.copy bars
    let j := n - lb
    let seen := refs.confirm r lb n
    let dir := seen.breakDir r n
    ∃ level, t.update bars[n] =
      (dir.map fun direction => ⟨bars[n].ts, t.kindOf direction, direction, level⟩,
        { t with
          window := ((bars.map swingBar).take (n + 1)).drop (n + 1 - (2 * lb + 1))
          highs := if r.isHigh lb j then pushBounded t.maxSwings.toNat t.highs ⟨r.tm j, r.hi j⟩ else t.highs
          lows := if r.isLow lb j then pushBounded t.maxSwings.toNat t.lows ⟨r.tm j, r.lo j⟩ else t.lows
          refHigh := (seen.consume dir).high
          refLow := (seen.consume dir).low
          trend := dir.or t.trend }) := by
  intro r j seen dir
  rw [StructureTracker.update, hf.confirm_full hn hfull]
  exact breakCheck_eq rfl rfl (Ea.Rates.cl_copy hn) (hapart.confirm hlb hn hfull).order

end scans

/-- What the tracker knows after a replay, as the scan reports it. -/
def Replay.result (s : Replay) : Ea.StructResult where
  trend := s.tracker.trend
  lastHigh := s.tracker.lastSwingHigh
  lastLow := s.tracker.lastSwingLow
  lastEvent := s.last.map (·.1.kind)
  lastEventDir := s.last.map (·.1.direction)
  lastEventBar := (s.last.map fun (_, bar) => (bar : Int)).getD (-1)

/-- The replay of the first `n` bars and the scan of the same bars. -/
structure Mirrors (lb : Nat) (bars : List Candle) (n : Nat) (s : Replay) (e : Ea.Scan) : Prop where
  follows : Follows lb bars n s.tracker e.refs
  apart : e.refs.Apart (Ea.Rates.copy bars) lb n n
  fed : s.bars = n
  swings : 1 ≤ s.tracker.maxSwings.toNat
  result : e.res = s.result

theorem Ea.scanBar_eq (r : Ea.Rates) (lb : Nat) (s : Ea.Scan) (i : Nat) :
    let j := i - lb
    let seen := s.refs.confirm r lb i
    let dir := seen.breakDir r i
    Ea.scanBar r lb s i =
      { res :=
          { trend := dir.or s.res.trend
            lastHigh := if r.isHigh lb j then some ⟨r.tm j, r.hi j⟩ else s.res.lastHigh
            lastLow := if r.isLow lb j then some ⟨r.tm j, r.lo j⟩ else s.res.lastLow
            lastEvent := (dir.map fun direction =>
              if s.res.trend = some direction ∨ s.res.trend = none then .bos else .choch).or s.res.lastEvent
            lastEventDir := dir.or s.res.lastEventDir
            lastEventBar := (dir.map fun _ => (i : Int)).getD s.res.lastEventBar }
        refs := seen.consume dir } := by
  intro j seen dir
  have hhigh : (if r.isHigh lb j then seen.high else s.res.lastHigh) =
      if r.isHigh lb j then some ⟨r.tm j, r.hi j⟩ else s.res.lastHigh := by
    by_cases hup : r.isHigh lb j = true <;> simp [seen, Refs.confirm, j, hup]
  have hlow : (if r.isLow lb j then seen.low else s.res.lastLow) =
      if r.isLow lb j then some ⟨r.tm j, r.lo j⟩ else s.res.lastLow := by
    by_cases hdn : r.isLow lb j = true <;> simp [seen, Refs.confirm, j, hdn]
  unfold scanBar
  simp only [← hhigh, ← hlow]
  cases hdir : dir with
  | none => simp [seen, dir, j, hdir, Refs.consume]
  | some direction => simp [seen, dir, j, hdir, Refs.consume]

theorem Mirrors.step {lb n : Nat} {bars : List Candle} {s : Replay} {e : Ea.Scan} (h : Mirrors lb bars n s e)
    (hlb : 1 ≤ lb) (hn : n < bars.length) (hfull : 2 * lb ≤ n) :
    Mirrors lb bars (n + 1) (s.step bars[n]) (Ea.scanBar (Ea.Rates.copy bars) lb e n) := by
  obtain ⟨level, hupdate⟩ := h.follows.full h.apart hlb hn hfull
  have hapart := (h.apart.confirm hlb hn hfull).consume hn
  have hlast {sp : SwingPoint} {sps : List SwingPoint} {b : Bool} :
      (if b then pushBounded s.tracker.maxSwings.toNat sps sp else sps).getLast? =
        if b then some sp else sps.getLast? := by
    cases b with
    | false => rfl
    | true => simp [getLast?_pushBounded h.swings]
  rw [Ea.scanBar_eq, Replay.step, hupdate]
  generalize (e.refs.confirm (Ea.Rates.copy bars) lb n).breakDir (Ea.Rates.copy bars) n = dir at *
  refine ⟨⟨h.follows.lookback, rfl, rfl, rfl⟩, hapart, by simp [h.fed], h.swings, ?_⟩
  simp only [h.result, Replay.result, StructureTracker.lastSwingHigh, StructureTracker.lastSwingLow, hlast,
    StructureTracker.kindOf, h.fed]
  cases dir with
  | none => rfl
  | some direction =>
    cases s.tracker.trend with
    | none => simp
    | some trend => simp

theorem Ea.Refs.apart_none (r : Ea.Rates) (lb m n : Nat) : ({} : Ea.Refs).Apart r lb m n where
  order _ h := nomatch h
  above _ h := nomatch h
  below _ h := nomatch h

theorem Mirrors.early {lb n : Nat} {bars : List Candle} {s : Replay} (h : Mirrors lb bars n s {})
    (hn : n < bars.length) (hfull : n < 2 * lb) : Mirrors lb bars (n + 1) (s.step bars[n]) {} := by
  obtain ⟨hevent, hfollows, htracker⟩ := h.follows.early hn hfull rfl rfl
  refine ⟨hfollows, Ea.Refs.apart_none _ _ _ _, by simp [Replay.step, h.fed], ?_, ?_⟩
  · rw [Replay.step, htracker]
    exact h.swings
  · rw [h.result]
    simp only [Replay.result, Replay.step, hevent, Option.map_none, Option.none_or, StructureTracker.lastSwingHigh,
      StructureTracker.lastSwingLow]
    rw [htracker]

/-- **The scan reports what a replay finds.** -/
theorem scanStructure_eq_replay {lb : Nat} {maxSwings : Int} (hlb : 1 ≤ lb) (hmax : 1 ≤ maxSwings)
    (bars : List Candle) (hlen : 2 * lb + 2 ≤ bars.length) :
    Ea.scanStructure lb (Ea.Rates.copy bars) = (replay lb maxSwings bars).result := by
  have hstep (n : Nat) (hn : n < bars.length) :
      replay lb maxSwings (bars.take (n + 1)) = (replay lb maxSwings (bars.take n)).step bars[n] := by
    rw [List.take_succ_eq_append_getElem hn, replay, List.foldl_append]
    rfl
  have hearly (n : Nat) (hn : n ≤ 2 * lb) : Mirrors lb bars n (replay lb maxSwings (bars.take n)) {} := by
    induction n with
    | zero => exact ⟨⟨rfl, by simp [replay], rfl, rfl⟩, Ea.Refs.apart_none _ _ _ _, rfl, by simp [replay]; omega, rfl⟩
    | succ n ih =>
      rw [hstep n (by omega)]
      exact (ih (by omega)).early (by omega) (by omega)
  have hrun (m : Nat) (hm : 2 * lb + m ≤ bars.length) :
      Mirrors lb bars (2 * lb + m) (replay lb maxSwings (bars.take (2 * lb + m)))
        ((List.range' (2 * lb) m).foldl (Ea.scanBar (Ea.Rates.copy bars) lb) {}) := by
    induction m with
    | zero => exact hearly _ le_rfl
    | succ m ih =>
      have hn : 2 * lb + m < bars.length := by omega
      rw [← Nat.add_assoc, hstep _ hn, List.range'_1_concat, List.foldl_append]
      exact (ih (by omega)).step hlb hn (by omega)
  have hall := hrun (bars.length - 2 * lb) (by omega)
  have hcnt : (Ea.Rates.copy bars).close.length = bars.length := by simp [Ea.Rates.copy]
  unfold Ea.scanStructure
  rw [hcnt, if_neg (by omega), hall.result, List.take_of_length_le (by omega)]

/-- A swing high at 4 that the last bar closes above. -/
def breakout : List Candle :=
  [barOf 0 1 2 1 2, barOf 1 2 4 2 3, barOf 2 3 3 2 2, barOf 3 2 5 2 5]

theorem scanStructure_breakout :
    Ea.scanStructure 1 (Ea.Rates.copy breakout) = (replay 1 50 breakout).result ∧
      (replay 1 50 breakout).result.lastEventDir = some .long :=
  ⟨scanStructure_eq_replay (by decide) (by decide) breakout (by decide), by decide +kernel⟩

end FreqTrading
