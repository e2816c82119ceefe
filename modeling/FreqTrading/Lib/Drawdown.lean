import Mathlib.Order.Bounds.Basic
import Mathlib.Algebra.Order.Group.Defs
import Mathlib.Data.List.Basic

/-!
# Drawdowns

The drops of a curve from a point to a later one, and the first trough of the deepest of them. Both are followed as
the curve grows at its end: a pass that keeps the peak so far finds them.
-/

namespace FreqTrading.Lib

variable {α : Type*}

/-- How far the curve falls from one of its points to one that is not before it. -/
def drops [Sub α] (curve : List α) : Set α :=
  {d | ∃ (i j : Nat) (x y : α), i ≤ j ∧ curve[i]? = some x ∧ curve[j]? = some y ∧ d = x - y}

/-- `j` is the first place that lies `depth` below a point up to it, and `peak` the highest point up to `j`. -/
structure FirstTrough [Sub α] [LinearOrder α] (curve : List α) (depth : α) (j : Nat) (peak : α) : Prop where
  isPeak : IsGreatest {x | ∃ i ≤ j, curve[i]? = some x} peak
  deep : ∃ y, curve[j]? = some y ∧ peak - y = depth
  first : ∀ i k x y, i ≤ k → k < j → curve[i]? = some x → curve[k]? = some y → x - y < depth

variable {curve : List α} {x y peak depth : α} {i j : Nat}

theorem getElem?_concat_eq_some : (curve ++ [y])[i]? = some x ↔ curve[i]? = some x ∨ i = curve.length ∧ x = y := by
  rcases lt_trichotomy i curve.length with hlt | rfl | hgt
  · rw [List.getElem?_append_left hlt]
    exact (or_iff_left fun h => hlt.ne h.1).symm
  · simp [eq_comm]
  · rw [List.getElem?_eq_none (by simp; omega), List.getElem?_eq_none (by omega)]
    simp [hgt.ne']

theorem drops_concat [Sub α] {d : α} : d ∈ drops (curve ++ [y]) ↔ d ∈ drops curve ∨ ∃ x ∈ curve ++ [y], d = x - y := by
  constructor
  · rintro ⟨i, j, x, z, hij, hx, hz, rfl⟩
    rcases getElem?_concat_eq_some.mp hz with hold | ⟨rfl, rfl⟩
    · -- both points lie in the old curve
      have hj := (List.getElem?_eq_some_iff.mp hold).1
      rcases getElem?_concat_eq_some.mp hx with hx | ⟨rfl, -⟩
      · exact Or.inl ⟨i, j, x, z, hij, hx, hold, rfl⟩
      · omega
    · exact Or.inr ⟨x, List.mem_of_getElem? hx, rfl⟩
  · rintro (⟨i, j, x, z, hij, hx, hz, rfl⟩ | ⟨x, hx, rfl⟩)
    · exact ⟨i, j, x, z, hij, getElem?_concat_eq_some.mpr (Or.inl hx), getElem?_concat_eq_some.mpr (Or.inl hz), rfl⟩
    · obtain ⟨i, hi⟩ := List.mem_iff_getElem?.mp hx
      have hlt := (List.getElem?_eq_some_iff.mp hi).1
      rw [List.length_append, List.length_singleton] at hlt
      exact ⟨i, curve.length, x, y, by omega, hi, getElem?_concat_eq_some.mpr (Or.inr ⟨rfl, rfl⟩), rfl⟩

theorem isGreatest_concat [LinearOrder α] (h : IsGreatest {x | x ∈ curve} peak) :
    IsGreatest {x | x ∈ curve ++ [y]} (max peak y) := by
  constructor
  · rcases max_choice peak y with hmax | hmax
    · rw [hmax]
      exact List.mem_append_left _ h.1
    · rw [hmax]
      exact List.mem_append_right _ (List.mem_singleton_self y)
  · intro x hx
    rcases List.mem_append.mp hx with hx | hx
    · exact (h.2 hx).trans (le_max_left peak y)
    · rw [List.mem_singleton.mp hx]
      exact le_max_right peak y

theorem setOf_upTo_end : {x | ∃ i ≤ curve.length, (curve ++ [y])[i]? = some x} = {x | x ∈ curve ++ [y]} := by
  ext x
  constructor
  · rintro ⟨i, -, hi⟩
    exact List.mem_of_getElem? hi
  · intro hx
    obtain ⟨i, hi⟩ := List.mem_iff_getElem?.mp hx
    have hlt := (List.getElem?_eq_some_iff.mp hi).1
    rw [List.length_append, List.length_singleton] at hlt
    exact ⟨i, by omega, hi⟩

/-- The deepest drop, as the curve grows: either the one so far, or down from the peak to the new point. -/
theorem isGreatest_drops_concat [AddCommGroup α] [LinearOrder α] [IsOrderedAddMonoid α]
    (hpeak : IsGreatest {x | x ∈ curve ++ [y]} peak) (h : IsGreatest (drops curve) depth) :
    IsGreatest (drops (curve ++ [y])) (max depth (peak - y)) := by
  constructor
  · rcases max_choice depth (peak - y) with hmax | hmax
    · rw [hmax]
      exact drops_concat.mpr (Or.inl h.1)
    · rw [hmax]
      exact drops_concat.mpr (Or.inr ⟨peak, hpeak.1, rfl⟩)
  · intro d hd
    rcases drops_concat.mp hd with hold | ⟨x, hx, rfl⟩
    · exact (h.2 hold).trans (le_max_left _ _)
    · exact (sub_le_sub_right (hpeak.2 hx) y).trans (le_max_right _ _)

theorem FirstTrough.concat [Sub α] [LinearOrder α] (h : FirstTrough curve depth j peak) (y : α) :
    FirstTrough (curve ++ [y]) depth j peak := by
  obtain ⟨z, hz, hdeep⟩ := h.deep
  have hj := (List.getElem?_eq_some_iff.mp hz).1
  have hsame : ∀ k ≤ j, (curve ++ [y])[k]? = curve[k]? := fun k hk => List.getElem?_append_left (by omega)
  refine ⟨?_, ⟨z, (hsame j (Nat.le_refl j)).trans hz, hdeep⟩, fun i k x w hik hk hx hw => ?_⟩
  · have hpoints : {x | ∃ i ≤ j, (curve ++ [y])[i]? = some x} = {x | ∃ i ≤ j, curve[i]? = some x} := by
      ext x
      exact exists_congr fun i => and_congr_right fun hi => by rw [hsame i hi]
    rw [hpoints]
    exact h.isPeak
  · rw [hsame i (by omega)] at hx
    rw [hsame k (by omega)] at hw
    exact h.first i k x w hik hk hx hw

theorem firstTrough_concat [Sub α] [LinearOrder α] (hpeak : IsGreatest {x | x ∈ curve ++ [y]} peak)
    (h : IsGreatest (drops curve) depth) (hdeeper : depth < peak - y) :
    FirstTrough (curve ++ [y]) (peak - y) curve.length peak := by
  refine ⟨?_, ⟨y, getElem?_concat_eq_some.mpr (Or.inr ⟨rfl, rfl⟩), rfl⟩, fun i k x z hik hk hx hz => ?_⟩
  · rw [setOf_upTo_end]
    exact hpeak
  · rw [List.getElem?_append_left (by omega)] at hx hz
    exact (h.2 ⟨i, k, x, z, hik, hx, hz, rfl⟩).trans_lt hdeeper

end FreqTrading.Lib
