import Mathlib.Order.Lattice
import Mathlib.Data.List.Basic

/-!
# The first of the best

A scan that keeps the best entry so far, and gives it up only for a better one, ends with the first of the best entries.
-/

namespace FreqTrading.Lib

variable {α β : Type*} [LinearOrder β] {f : α → β}

/-- `b` is the first of the entries with the greatest value. -/
structure FirstBest (f : α → β) (l : List α) (b : α) : Prop where
  mem : b ∈ l
  best : ∀ x ∈ l, f x ≤ f b
  first : ∃ before after, l = before ++ b :: after ∧ ∀ x ∈ before, f x < f b

theorem FirstBest.cons {a b : α} {l : List α} (h : FirstBest f l b) (ha : f a < f b) : FirstBest f (a :: l) b := by
  obtain ⟨hmem, hbest, before, after, hsplit, hfirst⟩ := h
  refine ⟨List.mem_cons_of_mem a hmem, ?_, a :: before, after, by rw [hsplit]; rfl, ?_⟩
  · intro y hy
    rcases List.mem_cons.mp hy with rfl | hrest
    · exact ha.le
    · exact hbest y hrest
  · intro y hy
    rcases List.mem_cons.mp hy with rfl | hrest
    · exact ha
    · exact hfirst y hrest

theorem FirstBest.insert {a b x : α} {l : List α} (h : FirstBest f (a :: l) b) (hx : f x ≤ f a) :
    FirstBest f (a :: x :: l) b := by
  obtain ⟨hmem, hbest, before, after, hsplit, hfirst⟩ := h
  have hall : ∀ y ∈ a :: x :: l, f y ≤ f b := by
    intro y hy
    rcases List.mem_cons.mp hy with rfl | hrest
    · exact hbest y List.mem_cons_self
    · rcases List.mem_cons.mp hrest with rfl | hrest
      · exact hx.trans (hbest a List.mem_cons_self)
      · exact hbest y (List.mem_cons_of_mem a hrest)
  cases before with
  | nil =>
    obtain ⟨rfl, rfl⟩ := List.cons.inj hsplit
    exact ⟨List.mem_cons_self, hall, [], x :: l, rfl, fun _ hy => (by cases hy)⟩
  | cons a' before =>
    obtain ⟨rfl, rfl⟩ := List.cons.inj hsplit
    refine ⟨by simp, hall, a :: x :: before, after, rfl, ?_⟩
    intro y hy
    rcases List.mem_cons.mp hy with rfl | hrest
    · exact hfirst y List.mem_cons_self
    · rcases List.mem_cons.mp hrest with rfl | hrest
      · exact hx.trans_lt (hfirst a List.mem_cons_self)
      · exact hfirst y (List.mem_cons_of_mem a hrest)

theorem foldl_firstBest {better : α → α → Prop} [DecidableRel better] (hbetter : ∀ x y, better x y ↔ f y < f x) (a : α)
    (l : List α) : FirstBest f (a :: l) (l.foldl (fun b x => if better x b then x else b) a) := by
  induction l generalizing a with
  | nil =>
    refine ⟨List.mem_singleton_self a, fun x hx => ?_, [], [], rfl, fun _ h => (by cases h)⟩
    rw [List.mem_singleton.mp hx]
    exact le_rfl
  | cons x l ih =>
    rw [List.foldl_cons]
    by_cases hx : better x a
    · rw [if_pos hx]
      have hnext := ih x
      exact hnext.cons (((hbetter x a).mp hx).trans_le (hnext.best x List.mem_cons_self))
    · rw [if_neg hx]
      exact (ih a).insert (not_lt.mp fun hlt => hx ((hbetter x a).mpr hlt))

theorem FirstBest.lowest [LinearOrder α] {l : List α} {b x : α} (h : FirstBest f l b) (hl : l.Pairwise (· < ·)) (hx : x ∈ l)
    (hlt : x < b) : f x < f b := by
  obtain ⟨before, after, rfl, hfirst⟩ := h.first
  rcases List.mem_append.mp hx with hbefore | hafter
  · exact hfirst x hbefore
  · obtain ⟨-, hrest, -⟩ := List.pairwise_append.mp hl
    rcases List.mem_cons.mp hafter with rfl | hlater
    · exact absurd hlt (lt_irrefl x)
    · exact absurd (hlt.trans (List.rel_of_pairwise_cons hrest hlater)) (lt_irrefl x)

end FreqTrading.Lib
