import Mathlib.Data.List.Induction
import Mathlib.Data.List.Pairwise
import Mathlib.Order.Lattice
import FreqTrading.Lib.Run

/-!
# A value latched once for each key

A latch goes through entries that have keys. At a new key it is cleared; while it is clear, the first entry that opens it
sets its value. When the keys come in order, its value is that of the first opening entry with the key of the last one
(`latch_value`), however many keys there have been.
-/

namespace FreqTrading.Lib

variable {α β κ ρ : Type*} [DecidableEq κ]

/-- The key of the last entry, and the value if there is one for it yet. -/
structure Latch (κ β : Type*) where
  key : Option κ := none
  value : Option β := none
  deriving DecidableEq, Repr

namespace Latch

/-- One entry: the latch is cleared at a new key, and is set by an entry that opens it while it is clear. -/
def feed (key : α → κ) (opens : α → Bool) (val : α → β) (l : Latch κ β) (a : α) : Latch κ β :=
  let held := if l.key = some (key a) then l.value else none
  { key := some (key a), value := held.or (if opens a then some (val a) else none) }

variable {key : α → κ} {opens : α → Bool} {val : α → β}

theorem run_concat (as : List α) (a : α) :
    run (feed key opens val) {} (as ++ [a]) = feed key opens val (run (feed key opens val) {} as) a := by
  rw [run_append]
  rfl

/-- **What a latch holds.** Where the keys come in order, it is the value of the first entry that opens it, of those with
the key of the last one. -/
theorem latch_value [LinearOrder ρ] {rank : α → ρ} (hrank : ∀ x y, key x = key y ↔ rank x = rank y) {as : List α}
    {a : α} (hordered : (as ++ [a]).Pairwise fun x y => rank x ≤ rank y) :
    (run (feed key opens val) {} (as ++ [a])).value =
      ((as ++ [a]).find? fun x => key x = key a && opens x).map val := by
  induction as using List.reverseRecOn generalizing a with
  | nil => by_cases ha : opens a = true <;> simp [feed, ha]
  | append_singleton as b ih =>
    obtain ⟨hbefore, -, hlast⟩ := List.pairwise_append.mp hordered
    have hkey : (run (feed key opens val) {} (as ++ [b])).key = some (key b) := by
      rw [run_concat]
      rfl
    have hvalue := ih hbefore
    have hfound : ((as ++ [b] ++ [a]).find? fun x => key x = key a && opens x) =
        ((as ++ [b]).find? fun x => key x = key a && opens x).or (if opens a then some a else none) := by
      rw [List.find?_append, List.find?_singleton, decide_eq_true rfl, Bool.true_and]
    rw [run_concat, hfound, feed, hkey, hvalue]
    dsimp only
    by_cases hsame : key b = key a
    · rw [if_pos (congrArg some hsame), hsame, Option.map_or]
      by_cases ha : opens a = true <;> simp [ha]
    · -- the key is new, so that no entry before has it
      have hnone : ((as ++ [b]).find? fun x => key x = key a && opens x) = none := by
        rw [List.find?_eq_none]
        intro x hx hopens
        obtain ⟨hxa, -⟩ := Bool.and_eq_true_iff.mp hopens
        have hxa := of_decide_eq_true hxa
        have hxb : rank x ≤ rank b := by
          rcases List.mem_append.mp hx with hold | hend
          · exact (List.pairwise_append.mp hbefore).2.2 x hold b (List.mem_singleton.mpr rfl)
          · rw [List.mem_singleton.mp hend]
        have hba := hlast b (List.mem_append_right _ (List.mem_singleton.mpr rfl)) a (List.mem_singleton.mpr rfl)
        exact hsame ((hrank b a).mpr (le_antisymm hba ((hrank x a).mp hxa ▸ hxb)))
      rw [if_neg fun h => hsame (Option.some.inj h), hnone, Option.none_or, Option.none_or]
      by_cases ha : opens a = true <;> simp [ha]

end Latch

end FreqTrading.Lib
