import Mathlib.Data.List.Forall2
import FreqTrading.Lib.Program

/-!
# Loops that collect results

A loop that computes a result for each entry of a list and stops at the first exception, as `List.mapM` in `Except`. What
it returns is told entry by entry (`mapM_ok_iff`).
-/

namespace FreqTrading.Lib

variable {ε α β γ : Type} {f g : α → Except ε β} {xs : List α} {ys : List β}

/-- The results of a loop that raises nothing, each with what it is the result of. -/
theorem mapM_ok_iff : xs.mapM f = .ok ys ↔ List.Forall₂ (fun x y => f x = .ok y) xs ys := by
  induction xs generalizing ys with
  | nil =>
    rw [List.forall₂_nil_left_iff]
    exact ⟨fun h => (Except.ok.inj h).symm, fun h => congrArg Except.ok h.symm⟩
  | cons x xs ih =>
    rw [List.mapM_cons, List.forall₂_cons_left_iff]
    constructor
    · intro h
      obtain ⟨y, hy, h⟩ := bind_ok.mp h
      obtain ⟨ys', hys, h⟩ := bind_ok.mp h
      cases h
      exact ⟨y, ys', hy, ih.mp hys, rfl⟩
    · rintro ⟨y, ys', hy, hys, rfl⟩
      rw [hy, ih.mpr hys]
      rfl

theorem mapM_congr_mem (h : ∀ x ∈ xs, f x = g x) : xs.mapM f = xs.mapM g := by
  induction xs with
  | nil => rfl
  | cons x xs ih =>
    rw [List.mapM_cons, List.mapM_cons, h x List.mem_cons_self, ih fun y hy => h y (List.mem_cons_of_mem x hy)]

theorem exists_of_mem_mapM (h : xs.mapM f = .ok ys) {y : β} (hy : y ∈ ys) : ∃ x ∈ xs, f x = .ok y := by
  induction mapM_ok_iff.mp h with
  | nil => exact absurd hy List.not_mem_nil
  | @cons x y' xs ys hfirst hrest ih =>
    rcases List.mem_cons.mp hy with rfl | hmem
    · exact ⟨x, List.mem_cons_self, hfirst⟩
    · obtain ⟨x', hx', hresult⟩ := ih (mapM_ok_iff.mpr hrest) hmem
      exact ⟨x', List.mem_cons_of_mem x hx', hresult⟩

theorem mapM_ok_of_ok {g : α → Except γ β} (h : xs.mapM f = .ok ys) (hfg : ∀ x y, f x = .ok y → g x = .ok y) :
    xs.mapM g = .ok ys :=
  mapM_ok_iff.mpr ((mapM_ok_iff.mp h).imp hfg)

theorem mapM_map_ok {h : γ → α} {r : γ → β} (hr : ∀ c, f (h c) = .ok (r c)) (cs : List γ) :
    (cs.map h).mapM f = .ok (cs.map r) := by
  rw [mapM_ok_iff, List.forall₂_map_left_iff, List.forall₂_map_right_iff, List.forall₂_same]
  exact fun c _ => hr c

end FreqTrading.Lib
