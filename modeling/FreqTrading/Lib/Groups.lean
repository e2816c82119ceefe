import Mathlib.Data.List.Induction
import Mathlib.Data.List.Nodup

/-!
# Groups of a key

A pass that adds every entry to the group of its key, the groups in the order in which their keys first appear: the
groups have different keys, and each of them is what the list has of its key.
-/

namespace FreqTrading.Lib

variable {α κ : Type*} [DecidableEq κ] (key : α → κ)

/-- An entry joins the group of its key, or opens one behind the others. -/
def joinGroup (groups : List (κ × List α)) (x : α) : List (κ × List α) :=
  if groups.any (·.1 = key x) then groups.map fun g => if g.1 = key x then (g.1, g.2 ++ [x]) else g
  else groups ++ [(key x, [x])]

def groups (xs : List α) : List (κ × List α) := xs.foldl (joinGroup key) []

variable {key}

theorem joinGroup_keys (gs : List (κ × List α)) (x : α) : (joinGroup key gs x).map Prod.fst =
    if key x ∈ gs.map Prod.fst then gs.map Prod.fst else gs.map Prod.fst ++ [key x] := by
  have hany : gs.any (·.1 = key x) = true ↔ key x ∈ gs.map Prod.fst := by
    rw [List.any_eq_true, List.mem_map]
    exact exists_congr fun g => and_congr_right fun _ => decide_eq_true_iff
  unfold joinGroup
  by_cases hmem : key x ∈ gs.map Prod.fst
  · rw [if_pos (hany.mpr hmem), if_pos hmem, List.map_map]
    refine List.map_congr_left fun g _ => ?_
    simp only [Function.comp]
    split <;> rfl
  · rw [if_neg (mt hany.mp hmem), if_neg hmem]
    simp

/-- The groups of a list. -/
structure Grouped (key : α → κ) (gs : List (κ × List α)) (xs : List α) : Prop where
  nodup : (gs.map Prod.fst).Nodup
  keys : ∀ k, k ∈ gs.map Prod.fst ↔ ∃ x ∈ xs, key x = k
  members : ∀ g ∈ gs, g.2 = xs.filter fun x => key x = g.1

theorem Grouped.join {gs : List (κ × List α)} {xs : List α} (h : Grouped key gs xs) (x : α) :
    Grouped key (joinGroup key gs x) (xs ++ [x]) := by
  have hkeys : ∀ k, k ∈ (joinGroup key gs x).map Prod.fst ↔ k ∈ gs.map Prod.fst ∨ k = key x := by
    intro k
    rw [joinGroup_keys]
    split
    · next hmem => exact (or_iff_left_of_imp fun heq => heq ▸ hmem).symm
    · rw [List.mem_append, List.mem_singleton]
  refine ⟨?_, fun k => ?_, ?_⟩
  · rw [joinGroup_keys]
    split
    · exact h.nodup
    · next hnew =>
      refine List.nodup_append.mpr ⟨h.nodup, List.nodup_singleton _, fun k hk k' hk' => ?_⟩
      rw [List.mem_singleton.mp hk']
      exact fun heq => hnew (heq ▸ hk)
  · rw [hkeys, h.keys]
    simp only [List.mem_append, List.mem_singleton, or_and_right, exists_or, exists_eq_left, @eq_comm κ k]
  · intro g hg
    rw [List.filter_append]
    unfold joinGroup at hg
    split at hg
    · obtain ⟨old, hold, rfl⟩ := List.mem_map.mp hg
      split
      · next heq =>
        have hold := h.members old hold
        rw [heq] at hold
        simp [hold, heq]
      · next hne => simp [← h.members old hold, Ne.symm hne]
    · next hnew =>
      rcases List.mem_append.mp hg with hold | hlast
      · have hne : key x ≠ g.1 := fun heq => hnew (List.any_eq_true.mpr ⟨g, hold, by simp [heq]⟩)
        simp [← h.members g hold, hne]
      · obtain rfl := List.mem_singleton.mp hlast
        have hnone : xs.filter (fun y => key y = key x) = [] := by
          refine List.filter_eq_nil_iff.mpr fun y hy heq => hnew ?_
          obtain ⟨g, hg, hkey⟩ := List.mem_map.mp ((h.keys (key x)).mpr ⟨y, hy, of_decide_eq_true heq⟩)
          exact List.any_eq_true.mpr ⟨g, hg, by simp [hkey]⟩
        simp [hnone]

theorem groups_grouped (key : α → κ) (xs : List α) : Grouped key (groups key xs) xs := by
  induction xs using List.reverseRecOn with
  | nil => exact ⟨List.nodup_nil, fun k => by simp [groups], fun g hg => (by cases hg)⟩
  | append_singleton xs x ih =>
    rw [groups, List.foldl_append]
    exact ih.join x

end FreqTrading.Lib
