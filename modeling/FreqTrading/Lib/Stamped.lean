import Mathlib.Data.List.Nodup

/-!
# A cell that is replaced, and a reader with a cache

A cell has had some versions, each a value under a stamp of its own, and the last one is in place. A reader looks at the
stamp first and, unless it knows it, at the value later, when another version may be in place. It so keeps the stamp of
one version with the value of another, and what it returns is nevertheless the value of a version that was in place
between the two looks (`Within.see`).
-/

namespace FreqTrading.Lib

variable {τ α : Type*}

/-- What a reader keeps: the stamp it saw, and the value it then read. -/
abbrev Kept (τ α : Type*) := Option (τ × α)

/-- A look under a stamp: a known one leaves all as it is. -/
def Kept.see [DecidableEq τ] (kept : Kept τ α) (stamp : τ) (value : α) : Kept τ α :=
  if kept.map Prod.fst = some stamp then kept else some (stamp, value)

/-- The stamp is that of a version, and the value is that of the same or a later one, among the first `n`. -/
def Within (versions : List (τ × α)) (n : Nat) (kept : Kept τ α) : Prop :=
  ∀ stamp value, kept = some (stamp, value) → ∃ i j, i ≤ j ∧ j < n ∧
    versions[i]?.map Prod.fst = some stamp ∧ versions[j]?.map Prod.snd = some value

variable {versions : List (τ × α)} {n m : Nat} {kept : Kept τ α}

theorem within_none : Within versions n none := fun _ _ h => nomatch h

theorem Within.mono (h : Within versions n kept) (hle : n ≤ m) : Within versions m kept := by
  intro stamp value hkept
  obtain ⟨i, j, hij, hj, hstamp, hvalue⟩ := h stamp value hkept
  exact ⟨i, j, hij, Nat.lt_of_lt_of_le hj hle, hstamp, hvalue⟩

theorem getElem?_append_map {β : Type*} {f : τ × α → β} {i : Nat} {b : β} (h : versions[i]?.map f = some b)
    (new : List (τ × α)) : (versions ++ new)[i]?.map f = some b := by
  obtain ⟨v, hv, hb⟩ := Option.map_eq_some_iff.mp h
  rw [List.getElem?_append_left (List.getElem?_eq_some_iff.mp hv).1, hv, ← hb]
  rfl

/-- New versions change nothing. -/
theorem Within.append (h : Within versions n kept) (new : List (τ × α)) : Within (versions ++ new) n kept := by
  intro stamp value hkept
  obtain ⟨i, j, hij, hj, hstamp, hvalue⟩ := h stamp value hkept
  exact ⟨i, j, hij, hj, getElem?_append_map hstamp new, getElem?_append_map hvalue new⟩

theorem stamp_inj (hnodup : (versions.map Prod.fst).Nodup) {i j : Nat} {stamp : τ}
    (hi : versions[i]?.map Prod.fst = some stamp) (hj : versions[j]?.map Prod.fst = some stamp) : i = j := by
  rw [← List.getElem?_map] at hi hj
  exact (List.getElem?_inj (List.getElem?_eq_some_iff.mp hi).1 hnodup).mp (hi.trans hj.symm)

/-- **What a look returns** is the value of a version between the one whose stamp it saw and the one that was in place when
it read, if the reader has kept nothing newer than the first of them. -/
theorem Within.see [DecidableEq τ] (hnodup : (versions.map Prod.fst).Nodup) {a b : Nat} {stamp : τ} {value : α}
    (h : Within versions (a + 1) kept) (hab : a ≤ b) (hstamp : versions[a]?.map Prod.fst = some stamp)
    (hvalue : versions[b]?.map Prod.snd = some value) :
    Within versions (b + 1) (kept.see stamp value) ∧
      ∃ k, a ≤ k ∧ k ≤ b ∧ (kept.see stamp value).map Prod.snd = versions[k]?.map Prod.snd := by
  unfold Kept.see
  by_cases hknown : kept.map Prod.fst = some stamp
  · rw [if_pos hknown]
    refine ⟨h.mono (by omega), a, Nat.le_refl a, hab, ?_⟩
    obtain ⟨⟨stamp', value'⟩, rfl, heq⟩ := Option.map_eq_some_iff.mp hknown
    obtain rfl : stamp' = stamp := heq
    obtain ⟨i, j, hij, hj, hi, hvalue'⟩ := h stamp' value' rfl
    -- the version that was read is the one whose stamp is seen now
    obtain rfl : i = a := stamp_inj hnodup hi hstamp
    obtain rfl : j = i := by omega
    exact hvalue'.symm
  · rw [if_neg hknown]
    refine ⟨?_, b, hab, Nat.le_refl b, hvalue.symm⟩
    rintro _ _ ⟨⟩
    exact ⟨a, b, hab, Nat.lt_succ_self b, hstamp, hvalue⟩

end FreqTrading.Lib
