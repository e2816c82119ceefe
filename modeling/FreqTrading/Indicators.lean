import Mathlib.Data.List.DropRight
import FreqTrading.Models

/-!
# Indicators

Wilder ATR, rate of change and volume SMA of `orb/indicators.py`. A `deque` with a bound is a list whose
oldest items are dropped. The finiteness checks of the inputs hold by the type of the inputs; the one
`IndicatorError` left is the zero divisor of `ROC.value`.
-/

namespace FreqTrading

/-- `deque.append` on a deque of at most `maxlen` items. -/
def pushBounded {α : Type} (maxlen : Nat) (xs : List α) (x : α) : List α :=
  (xs ++ [x]).drop (xs.length + 1 - maxlen)

theorem mem_pushBounded {α : Type} {maxlen : Nat} {xs : List α} {x y : α} (h : y ∈ pushBounded maxlen xs x) :
    y ∈ xs ∨ y = x := by
  have := List.mem_of_mem_drop h
  simpa using this

theorem pushBounded_sublist {α : Type} (maxlen : Nat) (xs : List α) (x : α) :
    (pushBounded maxlen xs x).Sublist (xs ++ [x]) :=
  List.drop_sublist _ _

theorem length_pushBounded {α : Type} (maxlen : Nat) (xs : List α) (x : α) : (pushBounded maxlen xs x).length ≤ maxlen := by
  rw [pushBounded, List.length_drop, List.length_append, List.length_singleton]
  omega

theorem foldl_pushBounded_sublist {α : Type} (maxlen : Nat) (xs ys : List α) :
    (ys.foldl (pushBounded maxlen) xs).Sublist (xs ++ ys) := by
  induction ys generalizing xs with
  | nil => simp
  | cons y ys ih =>
    have hpush := (pushBounded_sublist maxlen xs y).append_right ys
    rw [List.append_assoc, List.singleton_append] at hpush
    exact (ih (pushBounded maxlen xs y)).trans hpush

theorem length_foldl_pushBounded {α : Type} {maxlen : Nat} {xs : List α} (h : xs.length ≤ maxlen) (ys : List α) :
    (ys.foldl (pushBounded maxlen) xs).length ≤ maxlen := by
  induction ys generalizing xs with
  | nil => exact h
  | cons y ys ih => exact ih (length_pushBounded maxlen xs y)

theorem pushBounded_slice {α : Type} {xs : List α} {m n : Nat} (hn : n < xs.length) :
    pushBounded m ((xs.take n).drop (n - m)) xs[n] = (xs.take (n + 1)).drop (n + 1 - m) := by
  have hlen : ((xs.take n).drop (n - m)).length = n - (n - m) := by simp; omega
  have hjoin : (xs.take n).drop (n - m) ++ [xs[n]] = (xs.take (n + 1)).drop (n - m) := by
    rw [List.take_succ_eq_append_getElem hn, List.drop_append_of_le_length (by simp; omega)]
  rw [pushBounded, hjoin, hlen, List.drop_drop]
  congr 1
  omega

theorem getLast?_pushBounded {α : Type} {m : Nat} {ys : List α} {y : α} (hm : 1 ≤ m) :
    (pushBounded m ys y).getLast? = some y := by
  rw [pushBounded, List.getLast?_drop, if_neg (by simp; omega)]
  simp

theorem pushBounded_rtake {α : Type} (m : Nat) (xs : List α) (x : α) :
    pushBounded m (xs.rtake m) x = (xs ++ [x]).rtake m := by
  have hslice : pushBounded m (((xs ++ [x]).take xs.length).drop (xs.length - m)) (xs ++ [x])[xs.length] =
      ((xs ++ [x]).take (xs.length + 1)).drop (xs.length + 1 - m) := pushBounded_slice (by simp)
  have hall : (xs ++ [x]).take (xs.length + 1) = xs ++ [x] := List.take_of_length_le (by simp)
  simpa [List.rtake, hall] using hslice

structure WilderATR where
  period : Int
  prevClose : Option ℚ := none
  count : Nat := 0
  seedSum : ℚ := 0
  atr : Option ℚ := none
  deriving DecidableEq, Repr

namespace WilderATR

/-- The true range of a bar. -/
def trueRange (a : WilderATR) (high low : ℚ) : ℚ :=
  match a.prevClose with
  | none => high - low
  | some p => max (max (high - low) |high - p|) |low - p|

def update (a : WilderATR) (high low close : ℚ) : WilderATR :=
  let tr := a.trueRange high low
  let count := a.count + 1
  match a.atr with
  | some v =>
    { a with
      prevClose := some close
      count := count
      atr := some ((v * (a.period - 1) + tr) / a.period) }
  | none =>
    if (count : Int) ≤ a.period then
      { a with
        prevClose := some close
        count := count
        seedSum := a.seedSum + tr
        atr := if (count : Int) = a.period then some ((a.seedSum + tr) / a.period) else none }
    else { a with prevClose := some close, count := count }

def ready (a : WilderATR) : Bool := a.atr.isSome

def value (a : WilderATR) : Option ℚ := a.atr

theorem ready_update {a : WilderATR} (h : a.ready = true) (high low close : ℚ) :
    (a.update high low close).ready = true := by
  unfold ready at h
  obtain ⟨v, hv⟩ := Option.isSome_iff_exists.mp h
  simp [update, ready, hv]

end WilderATR

structure ROC where
  period : Int
  closes : List ℚ := []
  deriving DecidableEq, Repr

namespace ROC

def update (r : ROC) (close : ℚ) : ROC :=
  { r with closes := pushBounded (r.period + 1).toNat r.closes close }

def ready (r : ROC) : Bool := (r.closes.length : Int) = r.period + 1

/-- `ROC.value`: `none` until ready; the outer `none` is the `IndicatorError` of a zero divisor. -/
def value (r : ROC) : Option (Option ℚ) :=
  if r.ready then
    if r.closes.headD 0 = 0 then none
    else some (some ((r.closes.getLastD 0 / r.closes.headD 0 - 1) * 100))
  else some none

theorem value_ready {r : ROC} (hr : r.ready = true) (h0 : r.closes.headD 0 ≠ 0) : ∃ v, r.value = some (some v) := by
  unfold value
  rw [if_pos hr, if_neg h0]
  exact ⟨_, rfl⟩

end ROC

structure VolumeSMA where
  period : Int
  vols : List ℚ := []
  sum : ℚ := 0
  deriving DecidableEq, Repr

namespace VolumeSMA

def update (s : VolumeSMA) (volume : ℚ) : VolumeSMA :=
  let sum := if (s.vols.length : Int) = s.period then s.sum - s.vols.headD 0 else s.sum
  { s with vols := pushBounded s.period.toNat s.vols volume, sum := sum + volume }

def ready (s : VolumeSMA) : Bool := (s.vols.length : Int) = s.period

def value (s : VolumeSMA) : Option ℚ := if s.ready then some (s.sum / s.period) else none

end VolumeSMA

end FreqTrading
