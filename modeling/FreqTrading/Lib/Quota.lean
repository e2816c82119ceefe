import Mathlib.Data.List.Basic
import Mathlib.Order.Lattice

/-!
# Quotas per period

Events fall into periods, and periods only advance. A counter holds the events of the current period and starts
at zero in every new one, and no event is let through once it has reached the cap. Then no period of the whole
log has more events than the cap (`Quota.capped`).
-/

namespace FreqTrading.Lib

variable {κ : Type*} [LinearOrder κ] {cap used : Nat} {log : List κ} {current : Option κ} {now next : κ}

/-- The log against the counter of the current period. -/
structure Quota (cap : Nat) (log : List κ) (current : Option κ) (used : Nat) : Prop where
  past : ∀ k ∈ log, ∃ now, current = some now ∧ k ≤ now
  counted : ∀ now, current = some now → log.count now ≤ used
  capped : ∀ k, log.count k ≤ cap

theorem quota_start (cap : Nat) (current : Option κ) : Quota cap [] current 0 :=
  ⟨by simp, by simp, by simp⟩

theorem Quota.advance (h : Quota cap log current used) (hnext : ∀ now, current = some now → now < next) :
    Quota cap log (some next) 0 := by
  have hlater : ∀ k ∈ log, k < next := by
    intro k hk
    obtain ⟨now, hnow, hle⟩ := h.past k hk
    exact lt_of_le_of_lt hle (hnext now hnow)
  refine ⟨fun k hk => ⟨next, rfl, (hlater k hk).le⟩, fun now hnow => ?_, h.capped⟩
  cases hnow
  have habsent : next ∉ log := fun hmem => lt_irrefl next (hlater next hmem)
  exact Nat.le_of_eq (List.count_eq_zero_of_not_mem habsent)

theorem Quota.spend (h : Quota cap log current used) (hcurrent : current = some now) (hleft : used < cap) :
    Quota cap (log ++ [now]) current (used + 1) := by
  have hnow := h.counted now hcurrent
  refine ⟨fun k hk => ?_, fun k hk => ?_, fun k => ?_⟩
  · rcases List.mem_append.mp hk with hold | hlast
    · exact h.past k hold
    · exact ⟨now, hcurrent, (List.mem_singleton.mp hlast).le⟩
  · rw [hcurrent] at hk
    cases hk
    rw [List.count_append, List.count_singleton_self]
    omega
  · rw [List.count_append]
    by_cases hk : now = k
    · subst hk
      rw [List.count_singleton_self]
      omega
    · rw [List.count_singleton, if_neg (by simpa using hk)]
      exact h.capped k

end FreqTrading.Lib
