import Mathlib.Data.List.Basic
import Mathlib.Order.MinMax

/-!
# Quotas with a counter that is counted again

Events fall into periods, and periods only advance. A counter of the current period starts at zero, no event is let through
once it has reached the cap, and now and then it is set to what a count of the log finds. A count that finds fewer events
than there are gives the period at most another cap: a period has no more events than the cap for itself and for each count
that missed some (`Recounted.capped`).
-/

namespace FreqTrading.Lib

variable {κ : Type*} [LinearOrder κ] {cap used : Nat} {log missed : List κ} {current : Option κ} {now next : κ}

/-- The log against the counter of the current period, with the periods of the counts that missed some of it. -/
structure Recounted (cap : Nat) (log missed : List κ) (current : Option κ) (used : Nat) : Prop where
  past : ∀ k ∈ log, ∃ now, current = some now ∧ k ≤ now
  counted : ∀ now, current = some now → log.count now ≤ min used cap + cap * missed.count now
  capped : ∀ k, log.count k ≤ cap * (1 + missed.count k)

theorem recounted_start (cap : Nat) : Recounted cap ([] : List κ) [] none 0 :=
  ⟨fun _ hk => absurd hk List.not_mem_nil, fun _ hnow => (nomatch hnow), fun _ => Nat.zero_le _⟩

theorem Recounted.advance (h : Recounted cap log missed current used) (hnext : ∀ now, current = some now → now < next) :
    Recounted cap log missed (some next) 0 := by
  have hlater : ∀ k ∈ log, k < next := by
    intro k hk
    obtain ⟨now, hnow, hle⟩ := h.past k hk
    exact lt_of_le_of_lt hle (hnext now hnow)
  refine ⟨fun k hk => ⟨next, rfl, (hlater k hk).le⟩, fun now hnow => ?_, h.capped⟩
  cases hnow
  rw [List.count_eq_zero_of_not_mem fun hmem => lt_irrefl next (hlater next hmem)]
  exact Nat.zero_le _

theorem Recounted.spend (h : Recounted cap log missed (some now) used) (hleft : used < cap) :
    Recounted cap (log ++ [now]) missed (some now) (used + 1) := by
  have hnow := h.counted now rfl
  rw [min_eq_left hleft.le] at hnow
  have hone : (log ++ [now]).count now = log.count now + 1 := by
    rw [List.count_append, List.count_singleton_self]
  refine ⟨fun k hk => ?_, fun k hk => ?_, fun k => ?_⟩
  · rcases List.mem_append.mp hk with hold | hlast
    · exact h.past k hold
    · exact ⟨now, rfl, (List.mem_singleton.mp hlast).le⟩
  · cases hk
    rw [hone, min_eq_left hleft]
    omega
  · by_cases hk : now = k
    · subst hk
      rw [hone, Nat.mul_add]
      omega
    · rw [List.count_append, List.count_singleton, if_neg (by simpa using hk)]
      exact h.capped k

theorem Recounted.raise (h : Recounted cap log missed current used) {more : Nat} (hmore : used ≤ more) :
    Recounted cap log missed current more :=
  ⟨h.past, fun now hnow => (h.counted now hnow).trans (Nat.add_le_add_right (min_le_min hmore le_rfl) _), h.capped⟩

theorem Recounted.recount (h : Recounted cap log missed (some now) used) {found : Nat} (hfound : log.count now ≤ found) :
    Recounted cap log missed (some now) found := by
  refine ⟨h.past, fun k hk => ?_, h.capped⟩
  cases hk
  have hcap := h.capped now
  rw [Nat.mul_add] at hcap
  rcases Nat.le_total found cap with hle | hle
  · rw [min_eq_left hle]
    omega
  · rw [min_eq_right hle]
    omega

theorem Recounted.miss (h : Recounted cap log missed (some now) used) (found : Nat) :
    Recounted cap log (missed ++ [now]) (some now) found := by
  have hmore : ∀ k, missed.count k ≤ (missed ++ [now]).count k := fun k => by
    rw [List.count_append]
    exact Nat.le_add_right _ _
  refine ⟨h.past, fun k hk => ?_, fun k => (h.capped k).trans (Nat.mul_le_mul_left cap (Nat.add_le_add_left (hmore k) 1))⟩
  cases hk
  rw [List.count_append, List.count_singleton_self, Nat.add_comm (missed.count now)]
  exact (h.capped now).trans (Nat.le_add_left _ _)

end FreqTrading.Lib
