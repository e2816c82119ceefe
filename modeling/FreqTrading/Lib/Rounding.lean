import Mathlib.Data.Rat.Floor
import Mathlib.Algebra.Order.Floor.Ring
import Mathlib.Algebra.Order.Round
import Mathlib.Tactic.Linarith
import Mathlib.Tactic.Positivity
import Mathlib.Tactic.FieldSimp
import Mathlib.Tactic.NormNum
import Mathlib.Tactic.Push

/-!
# Rounding to an integer and to a decimal place

`roundEven x` is the integer closest to `x`, a tie going to the even one; `roundPlaces n x` rounds to `n`
decimal places. Over any ordered field with a floor. The error of either is at most half a unit, and
rounding keeps the order.
-/

namespace FreqTrading.Lib

variable {α : Type*} [Field α] [LinearOrder α] [FloorRing α]

/-- The closest integer, ties to even. -/
def roundEven (x : α) : ℤ :=
  if x - ⌊x⌋ < 1 / 2 then ⌊x⌋
  else if 1 / 2 < x - ⌊x⌋ then ⌊x⌋ + 1
  else if ⌊x⌋ % 2 = 0 then ⌊x⌋ else ⌊x⌋ + 1

/-- The closest multiple of `10⁻ⁿ`, ties to even. -/
def roundPlaces (n : ℕ) (x : α) : α := roundEven (x * 10 ^ n) / 10 ^ n

/-- `x` with `n` decimal places, as `format` writes it. -/
def fixedPoint (n : ℕ) (x : ℚ) : String :=
  let units := (roundEven (|x| * 10 ^ n)).toNat
  let frac := toString (units % 10 ^ n)
  let sign := if x < 0 then "-" else ""
  let places := if n = 0 then "" else "." ++ String.ofList (List.replicate (n - frac.length) '0') ++ frac
  sign ++ toString (units / 10 ^ n) ++ places

/-- `x` has at most `n` decimal places. -/
def HasPlaces (n : ℕ) (x : α) : Prop := ∃ k : ℤ, x * 10 ^ n = k

variable [IsStrictOrderedRing α]

@[simp] theorem roundEven_intCast (k : ℤ) : roundEven (k : α) = k := by
  simp [roundEven]

theorem roundEven_error (x : α) : |(roundEven x : α) - x| ≤ 1 / 2 := by
  have hlo := Int.floor_le x
  have hhi := Int.lt_floor_add_one x
  unfold roundEven
  split_ifs <;> push_cast <;> rw [abs_le] <;> constructor <;> linarith

theorem roundEven_mono {x y : α} (h : x ≤ y) : roundEven x ≤ roundEven y := by
  rcases lt_or_eq_of_le (Int.floor_le_floor h) with hlt | heq
  · -- different floors: the smaller one rounds to at most its floor plus one
    have hx : roundEven x ≤ ⌊x⌋ + 1 := by unfold roundEven; split_ifs <;> omega
    have hy : ⌊y⌋ ≤ roundEven y := by unfold roundEven; split_ifs <;> omega
    omega
  · unfold roundEven
    rw [heq]
    split_ifs <;> first | omega | (exfalso; linarith)

theorem roundEven_le_iff {x : α} {k : ℤ} : roundEven x ≤ k ↔ x < k + 1 / 2 ∨ x = k + 1 / 2 ∧ k % 2 = 0 := by
  have hlo := Int.floor_le x
  have hhi := Int.lt_floor_add_one x
  rcases lt_trichotomy ⌊x⌋ k with hbelow | hsame | habove
  · -- the floor is at least one below
    have hnext : ((⌊x⌋ + 1 : ℤ) : α) ≤ k := by exact_mod_cast hbelow
    push_cast at hnext
    have hround : roundEven x ≤ ⌊x⌋ + 1 := by unfold roundEven; split_ifs <;> omega
    exact iff_of_true (by omega) (Or.inl (by linarith))
  · have hcast : (⌊x⌋ : α) = k := by exact_mod_cast hsame
    unfold roundEven
    rw [hsame]
    rw [hcast] at hlo hhi
    split_ifs with hlt hgt heven
    · exact iff_of_true le_rfl (Or.inl (by linarith))
    · refine iff_of_false (by omega) ?_
      rintro (h | ⟨h, -⟩) <;> linarith
    · exact iff_of_true le_rfl (Or.inr ⟨by linarith, heven⟩)
    · refine iff_of_false (by omega) ?_
      rintro (h | ⟨-, h⟩)
      · linarith
      · exact heven h
  · have hnext : ((k + 1 : ℤ) : α) ≤ ⌊x⌋ := by exact_mod_cast habove
    push_cast at hnext
    have hround : ⌊x⌋ ≤ roundEven x := by unfold roundEven; split_ifs <;> omega
    refine iff_of_false (by omega) ?_
    rintro (h | ⟨h, -⟩) <;> linarith

theorem roundEven_eq_iff {x : α} {k : ℤ} : roundEven x = k ↔ |x - k| < 1 / 2 ∨ |x - k| = 1 / 2 ∧ k % 2 = 0 := by
  have hbelow : roundEven x ≤ k - 1 ↔ x < k - 1 / 2 ∨ x = k - 1 / 2 ∧ (k - 1) % 2 = 0 := by
    have hhalf : ((k - 1 : ℤ) : α) + 1 / 2 = k - 1 / 2 := by push_cast; ring
    rw [roundEven_le_iff, hhalf]
  have heq : roundEven x = k ↔ roundEven x ≤ k ∧ ¬ roundEven x ≤ k - 1 := by omega
  rw [heq, roundEven_le_iff, hbelow, abs_lt, abs_eq (by norm_num)]
  constructor
  · rintro ⟨hle, hnot⟩
    push Not at hnot
    rcases hle with hlt | ⟨hend, heven⟩
    · rcases hnot.1.lt_or_eq with hgt | hend
      · exact Or.inl ⟨by linarith, by linarith⟩
      · exact Or.inr ⟨Or.inr (by linarith), by have := hnot.2 hend.symm; omega⟩
    · exact Or.inr ⟨Or.inl (by linarith), heven⟩
  · rintro (⟨hgt, hlt⟩ | ⟨hend | hend, heven⟩)
    · refine ⟨Or.inl (by linarith), ?_⟩
      rintro (h | ⟨h, -⟩) <;> linarith
    · refine ⟨Or.inr ⟨by linarith, heven⟩, ?_⟩
      rintro (h | ⟨h, -⟩) <;> linarith
    · refine ⟨Or.inl (by linarith), ?_⟩
      rintro (h | ⟨-, hodd⟩)
      · linarith
      · omega

theorem roundPlaces_of_int {n : ℕ} {x : α} {k : ℤ} (h : x * 10 ^ n = k) : roundPlaces n x = x := by
  have hpow : (10 : α) ^ n ≠ 0 := by positivity
  rw [roundPlaces, h, roundEven_intCast, ← h, mul_div_cancel_right₀ _ hpow]

omit [LinearOrder α] [FloorRing α] [IsStrictOrderedRing α] in
theorem HasPlaces.sub {n : ℕ} {x y : α} (hx : HasPlaces n x) (hy : HasPlaces n y) : HasPlaces n (x - y) := by
  obtain ⟨k, hk⟩ := hx
  obtain ⟨l, hl⟩ := hy
  exact ⟨k - l, by push_cast; rw [sub_mul, hk, hl]⟩

theorem HasPlaces.eq_zero {n : ℕ} {x : α} (h : HasPlaces n x) (hpos : 0 ≤ x) (hlt : x * 10 ^ n < 1) : x = 0 := by
  obtain ⟨k, hk⟩ := h
  have hpow : (0 : α) < 10 ^ n := by positivity
  rw [hk] at hlt
  have hlow : (0 : α) ≤ k := hk ▸ mul_nonneg hpos hpow.le
  have hzero : k = 0 := le_antisymm (Int.lt_add_one_iff.mp (by exact_mod_cast hlt)) (by exact_mod_cast hlow)
  rw [hzero, Int.cast_zero] at hk
  exact (mul_eq_zero.mp hk).resolve_right hpow.ne'

theorem roundPlaces_error (n : ℕ) (x : α) : |roundPlaces n x - x| ≤ 1 / 2 / 10 ^ n := by
  have hpow : (0 : α) < 10 ^ n := by positivity
  have hscale : roundPlaces n x - x = ((roundEven (x * 10 ^ n) : α) - x * 10 ^ n) / 10 ^ n := by
    unfold roundPlaces
    field_simp
  rw [hscale, abs_div, abs_of_pos hpow]
  exact div_le_div_of_nonneg_right (roundEven_error _) hpow.le

end FreqTrading.Lib
