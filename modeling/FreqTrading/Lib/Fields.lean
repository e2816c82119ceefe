import FreqTrading.Lib.Python

/-!
# Fields of a text

A text that is cut at a character, as `str.split` with a separator cuts it, into fields of digits: which texts have which
fields, and that `int` reads a field of digits as the number it writes.
-/

namespace FreqTrading.Lib

/-- A field of digits, of any script. -/
structure IsDigits (t : Text) : Prop where
  ne_nil : t ≠ []
  digits : ∀ c ∈ t, isDecimal c = true

variable {t u v : Text} {a : Char}

theorem splitOn_pair_iff : t.splitOn a = [u, v] ↔ t = u ++ a :: v ∧ a ∉ u ∧ a ∉ v := by
  constructor
  · intro h
    have hjoined : [a].intercalate (t.splitOn a) = t := List.intercalate_splitOn a
    rw [h] at hjoined
    have hpieces := splitOnP_pieces (p := (· == a)) t
    rw [← List.splitOn_eq_splitOnP, h] at hpieces
    refine ⟨by simpa using hjoined.symm, fun hu => ?_, fun hv => ?_⟩
    · have := hpieces u (by simp) a hu
      simp at this
    · have := hpieces v (by simp) a hv
      simp at this
  · rintro ⟨rfl, hu, hv⟩
    rw [List.splitOn_append_cons_self, List.splitOn_eq_singleton hu, List.splitOn_eq_singleton hv]
    rfl

theorem isDigit_bounds {c : Char} (h : c.isDigit = true) : 48 ≤ c.toNat ∧ c.toNat ≤ 57 := by
  simpa [Char.isDigit, UInt32.le_iff_toNat_le] using h

theorem asciiDigit_of_isDigit {c : Char} (h : c.isDigit = true) : asciiDigit c = c := by
  obtain ⟨hlow, hhigh⟩ := isDigit_bounds h
  have hall : ∀ k < 10, asciiDigit (Char.ofNat (48 + k)) = Char.ofNat (48 + k) := by decide
  have hc := hall (c.toNat - 48) (by omega)
  rwa [Nat.add_sub_cancel' hlow, Char.ofNat_toNat] at hc

theorem isDecimal_of_isDigit {c : Char} (h : c.isDigit = true) : isDecimal c = true := by
  rwa [isDecimal, asciiDigit_of_isDigit h]

theorem exists_zero {c : Char} (h : isDecimal c = true) : ∃ z ∈ digitZeros, z ≤ c.toNat ∧ c.toNat < z + 10 := by
  unfold isDecimal asciiDigit at h
  split at h
  · next z hz => exact ⟨z, List.mem_of_find?_eq_some hz, by simpa using List.find?_some hz⟩
  · obtain ⟨hlow, hhigh⟩ := isDigit_bounds h
    exact ⟨48, by decide, hlow, Nat.lt_succ_of_le hhigh⟩

theorem isDecimal_not_blank {c : Char} (h : isDecimal c = true) : isBlank c = false := by
  obtain ⟨z, hz, hlow, hhigh⟩ := exists_zero h
  have hall : ∀ z ∈ digitZeros, ∀ k < 10, isBlank (Char.ofNat (z + k)) = false := by decide +kernel
  have hc := hall z hz (c.toNat - z) (by omega)
  rwa [Nat.add_sub_cancel' hlow, Char.ofNat_toNat] at hc

/-- The digit that a decimal digit stands for. -/
def digitOf (c : Char) : Nat := (asciiDigit c).toNat - 48

theorem digitOf_lt {c : Char} (h : isDecimal c = true) : digitOf c < 10 := by
  have := isDigit_bounds h
  unfold digitOf
  omega

theorem decimalOf_single (c : Char) : decimalOf [c] = digitOf c := by simp [decimalOf, natOf, digitOf]

theorem decimalOf_pair (c d : Char) : decimalOf [c, d] = 10 * digitOf c + digitOf d := by
  simp [decimalOf, natOf, digitOf]

theorem IsDigits.notMem (h : IsDigits t) (ha : isDecimal a = false) : a ∉ t := by
  intro hmem
  rw [h.digits a hmem] at ha
  cases ha

theorem strip_digits (hu : IsDigits u) (hv : IsDigits v) (w : Text) : strip (u ++ w ++ v) = u ++ w ++ v := by
  refine strip_eq (fun c hc => isDecimal_not_blank (hu.digits c ?_)) fun c hc => isDecimal_not_blank (hv.digits c ?_)
  · rw [List.append_assoc, List.head?_append_of_ne_nil _ hu.ne_nil] at hc
    exact List.mem_of_head? hc
  · rw [List.getLast?_append_of_ne_nil _ hv.ne_nil] at hc
    exact List.mem_of_getLast? hc

theorem plain_digits (h : ∀ c ∈ t, c.isDigit = true) : takeSign t = (false, t) ∧ dropUnderscores t = some t := by
  have hnone : ∀ a : Char, a.isDigit = false → a ∉ t := by
    intro a ha hmem
    rw [h a hmem] at ha
    cases ha
  constructor
  · unfold takeSign
    split
    · exact absurd List.mem_cons_self (hnone '-' (by decide))
    · exact absurd List.mem_cons_self (hnone '+' (by decide))
    · rfl
  · have hunder := hnone '_' (by decide)
    unfold dropUnderscores
    rw [if_neg]
    · refine congrArg some (List.filter_eq_self.mpr fun c hc => ?_)
      exact decide_eq_true fun h' => hunder (h' ▸ hc)
    · rintro (hany | hhead | hlast)
      · obtain ⟨⟨c, d⟩, hmem, hcd⟩ := List.any_eq_true.mp hany
        have hc : c ≠ '_' := fun hc => hunder (hc ▸ (List.of_mem_zip hmem).1)
        have hd : d ≠ '_' := fun hd => hunder (hd ▸ List.mem_of_mem_drop (List.of_mem_zip hmem).2)
        simp [hc, hd] at hcd
      · exact hunder (List.mem_of_head? hhead)
      · exact hunder (List.mem_of_getLast? hlast)

theorem intOf?_digits (h : IsDigits t) (hlength : t.length ≤ maxStrDigits) : intOf? t = some (decimalOf t : Int) := by
  have hstrip : strip t = t :=
    strip_eq (fun c hc => isDecimal_not_blank (h.digits c (List.mem_of_head? hc)))
      fun c hc => isDecimal_not_blank (h.digits c (List.mem_of_getLast? hc))
  have hdigits : ∀ c ∈ t.map asciiDigit, c.isDigit = true := by
    intro c hc
    obtain ⟨d, hd, rfl⟩ := List.mem_map.mp hc
    exact h.digits d hd
  obtain ⟨hsign, hunder⟩ := plain_digits hdigits
  unfold intOf?
  rw [hstrip, hsign]
  dsimp only
  rw [hunder, Option.bind_some, if_pos ⟨by simpa using h.ne_nil, List.all_eq_true.mpr hdigits, by simpa using hlength⟩]
  rfl

end FreqTrading.Lib
