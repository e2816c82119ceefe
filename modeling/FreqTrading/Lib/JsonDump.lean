import Mathlib.Tactic.FieldSimp
import Mathlib.Tactic.NormNum
import FreqTrading.Lib.JsonLoad
import FreqTrading.Lib.Rounding

/-!
# Writing a JSON file

The text that `json.dump` writes of a Python value with `indent=2`. How a float is shown is a parameter; `decimalFloat`
shows those with few decimal places as `repr` does. What has been written is read back (`load_dump`): the texts of
strings are any, the keys of an object differ, a number is short enough for `int`, and nothing nests deeper than the
reader goes.
-/

namespace FreqTrading.Lib.Json

/-! ### Strings -/

/-- The character after the backslash in the short escape of a character. -/
def shortEscape (c : Char) : Option Char := "\"\\bfnrt".toList.find? fun s => shortChar s = c

theorem shortChar_of_shortEscape {c s : Char} (h : shortEscape c = some s) : shortChar s = c := by
  unfold shortEscape at h
  simpa using List.find?_some h

theorem isShort_of_shortEscape {c s : Char} (h : shortEscape c = some s) : isShort s = true := by
  have hall : "\"\\bfnrt".toList.all isShort = true := by decide
  exact List.all_eq_true.mp hall s (List.mem_of_find?_eq_some h)

/-- The pieces of a character. -/
def charPieces (c : Char) : Str :=
  if h : isPlain c = true then [.plain c h]
  else
    match h : shortEscape c with
    | some s => [.short s (isShort_of_shortEscape h)]
    | none => escaped c

/-- The pieces of a text. -/
def Str.spell (cs : Text) : Str := cs.flatMap charPieces

/-- The pieces of a code point; a lone surrogate is escaped as it is. -/
def pointPieces (u : Nat) : Str := if 55296 ≤ u ∧ u < 57344 then [codeUnit u] else charPieces (Char.ofNat u)

/-- The pieces of a key. -/
def Str.spellKey (key : Key) : Str := key.flatMap pointPieces

theorem hexDigit_hexChar (n : Nat) : hexDigit (hexChar n) = n % 16 := by
  have h : ∀ k < 16, hexDigit ("0123456789abcdef".toList.getD k '0') = k := by decide
  exact h _ (Nat.mod_lt _ (by decide))

theorem codeUnit_unit {n : Nat} (h : n < 65536) : (codeUnit n).unit = n := by
  simp only [codeUnit, Piece.unit, hexDigit_hexChar]
  omega

/-- A code unit that is no half of a character. -/
def IsWhole (u : Nat) : Prop := u < 55296 ∨ 57344 ≤ u

theorem joinUnits_whole {u : Nat} (h : IsWhole u) (us : List Nat) : joinUnits (u :: us) = u :: joinUnits us := by
  unfold IsWhole at h
  cases us with
  | nil => rfl
  | cons v us => rw [joinUnits, if_neg (by omega)]

theorem joinUnits_pair {n : Nat} (hlow : 65536 ≤ n) (hhigh : n < 1114112) (us : List Nat) :
    joinUnits ((55296 + (n - 65536) / 1024) :: (56320 + (n - 65536) % 1024) :: us) = n :: joinUnits us := by
  have hjoined : 65536 + (55296 + (n - 65536) / 1024 - 55296) * 1024 + (56320 + (n - 65536) % 1024 - 56320) = n := by
    omega
  rw [joinUnits, if_pos (by omega), hjoined]

theorem toNat_range (c : Char) : IsWhole c.toNat ∧ c.toNat < 1114112 := by
  have h := c.valid
  simp only [UInt32.isValidChar, Nat.isValidChar] at h
  unfold IsWhole
  simp only [Char.toNat]
  omega

theorem joinUnits_charPieces (c : Char) (us : List Nat) :
    joinUnits ((charPieces c).map Piece.unit ++ us) = c.toNat :: joinUnits us := by
  obtain ⟨hwhole, hlt⟩ := toNat_range c
  unfold charPieces
  split
  · exact joinUnits_whole hwhole us
  · split
    · next s hs =>
      show joinUnits ((shortChar s).toNat :: us) = _
      rw [shortChar_of_shortEscape hs, joinUnits_whole hwhole]
    · unfold escaped
      split
      · next hsmall =>
        show joinUnits ((codeUnit c.toNat).unit :: us) = _
        rw [codeUnit_unit hsmall, joinUnits_whole hwhole]
      · show joinUnits ((codeUnit _).unit :: (codeUnit _).unit :: us) = _
        rw [codeUnit_unit (by omega), codeUnit_unit (by omega), joinUnits_pair (by omega) hlt]

@[simp] theorem points_spell (cs : Text) : (Str.spell cs).points = keyOf cs := by
  unfold Str.points Str.spell
  induction cs with
  | nil => rfl
  | cons c cs ih => rw [List.flatMap_cons, List.map_append, joinUnits_charPieces, ih, keyOf, keyOf, List.map_cons]

theorem charOf_toNat (c : Char) : charOf c.toNat = c := by
  obtain ⟨hwhole, -⟩ := toNat_range c
  unfold IsWhole at hwhole
  rw [charOf, if_neg (by omega), Char.ofNat_toNat]

@[simp] theorem chars_spell (cs : Text) : (Str.spell cs).chars = cs := by
  rw [Str.chars, points_spell, keyOf, List.map_map, show charOf ∘ Char.toNat = id from funext charOf_toNat, List.map_id]

@[simp] theorem spellKey_keyOf (cs : Text) : Str.spellKey (keyOf cs) = Str.spell cs := by
  unfold Str.spellKey Str.spell keyOf
  rw [List.flatMap_map]
  refine List.flatMap_congr fun c _ => ?_
  obtain ⟨hwhole, -⟩ := toNat_range c
  unfold IsWhole at hwhole
  rw [pointPieces, if_neg (by omega), Char.ofNat_toNat]

/-! ### Numbers -/

/-- A text of an atom that is read as `x`. -/
structure Reads (cs : Text) (x : Py) : Prop where
  ne_nil : cs ≠ []
  bare : ∀ c ∈ cs, isBare c = true
  value : atomOf cs = .ok x

theorem natOf_append_text (cs ds : Text) : natOf (cs ++ ds) = natOf cs * 10 ^ ds.length + natOf ds := by
  induction ds using List.reverseRecOn with
  | nil => simp [natOf]
  | append_singleton ds d ih =>
    rw [← List.append_assoc, natOf_append, natOf_append, ih, List.length_append, List.length_singleton, pow_succ]
    ring

theorem natOf_toDigits (n : Nat) : natOf (Nat.toDigits 10 n) = n := Nat.ofDigitChars_ten_toDigits

theorem toDigits_isDigit (n : Nat) : ∀ c ∈ Nat.toDigits 10 n, c.isDigit = true := fun _ hc =>
  Nat.isDigit_of_mem_toDigits (by decide) (by decide) hc

theorem isBare_of_isDigit {c : Char} (h : c.isDigit = true) : isBare c = true := by
  simp [isBare, Char.isAlphanum, h]

theorem toDigits_ne_zero_cons (n : Nat) (c : Char) (cs : Text) : Nat.toDigits 10 n ≠ '0' :: c :: cs := by
  intro h
  rcases Nat.eq_zero_or_pos n with rfl | hpos
  · rw [Nat.toDigits_zero] at h
    cases h
  · exact toDigits_head hpos (by rw [h]; rfl)

theorem takeWhile_digits {ds rest : Text} (hds : ∀ c ∈ ds, c.isDigit = true) (hrest : ∀ c ∈ rest.head?, c.isDigit = false) :
    (ds ++ rest).takeWhile Char.isDigit = ds ∧ (ds ++ rest).dropWhile Char.isDigit = rest := by
  rw [List.takeWhile_append_of_pos hds, List.dropWhile_append_of_pos hds]
  cases rest with
  | nil => simp
  | cons c cs =>
    have hc : ¬c.isDigit = true := by simp [hrest c rfl]
    rw [List.takeWhile_cons_of_neg hc, List.dropWhile_cons_of_neg hc, List.append_nil]
    exact ⟨rfl, rfl⟩

theorem isUnsigned_toDigits (n : Nat) {rest : Text} (hrest : ∀ c ∈ rest.head?, c.isDigit = false) :
    isUnsigned (Nat.toDigits 10 n ++ rest) = isFraction rest := by
  obtain ⟨htake, hdrop⟩ := takeWhile_digits (toDigits_isDigit n) hrest
  unfold isUnsigned
  rw [htake, hdrop]
  split
  · next hnil => exact absurd hnil Nat.toDigits_ne_nil
  · next hzero => exact absurd hzero (toDigits_ne_zero_cons n _ _)
  · rfl

theorem isNumber_of_digit {c : Char} {cs : Text} (hc : c.isDigit = true) : isNumber (c :: cs) = isUnsigned (c :: cs) := by
  unfold isNumber
  split
  · next heq =>
    rw [(List.cons.inj heq).1] at hc
    cases hc
  · rfl

theorem ne_word {cs : Text} {c : Char} (hc : c ∈ cs) (hword : ∀ w ∈ words, c ∉ w) : ∀ w ∈ words, cs ≠ w := by
  rintro w hw rfl
  exact hword cs hw hc

section number

variable {cs ds : Text} {negative : Bool}

theorem atomOf_int (hword : ∀ w ∈ words, cs ≠ w) (hnumber : isNumber cs = true) (hsign : takeSign cs = (negative, ds))
    (hdigits : ds.all Char.isDigit = true) (hlen : ds.length ≤ maxStrDigits) :
    atomOf cs = .ok (.int (if negative then -(natOf ds : Int) else natOf ds)) := by
  simp only [words, List.forall_mem_cons, List.not_mem_nil, false_imp_iff, implies_true, and_true] at hword
  obtain ⟨h1, h2, h3, h4, h5, h6⟩ := hword
  unfold atomOf
  rw [if_neg h1, if_neg h2, if_neg h3, if_neg h4, if_neg h5, if_neg h6, if_neg (by simp [hnumber]), hsign]
  exact (if_pos hdigits).trans (if_pos hlen)

theorem atomOf_float {q : ℚ} (hword : ∀ w ∈ words, cs ≠ w) (hnumber : isNumber cs = true)
    (hsign : takeSign cs = (negative, ds)) (hpoint : ¬ds.all Char.isDigit = true) (hq : decimal? ds = some q) :
    atomOf cs = .ok (.float (.ofRat (if negative then -q else q))) := by
  simp only [words, List.forall_mem_cons, List.not_mem_nil, false_imp_iff, implies_true, and_true] at hword
  obtain ⟨h1, h2, h3, h4, h5, h6⟩ := hword
  unfold atomOf
  rw [if_neg h1, if_neg h2, if_neg h3, if_neg h4, if_neg h5, if_neg h6, if_neg (by simp [hnumber]), hsign]
  refine (if_neg hpoint).trans ?_
  simp only [hq]

end number

/-- A number with its sign. -/
def withSign (negative : Bool) (cs : Text) : Text := if negative then '-' :: cs else cs

theorem takeSign_withSign (negative : Bool) {c : Char} {cs : Text} (hc : c.isDigit = true) :
    takeSign (withSign negative (c :: cs)) = (negative, c :: cs) := by
  cases negative with
  | true => rfl
  | false =>
    show takeSign (c :: cs) = _
    unfold takeSign
    split
    · next heq =>
      rw [(List.cons.inj heq).1] at hc
      cases hc
    · next heq =>
      rw [(List.cons.inj heq).1] at hc
      cases hc
    · rfl

theorem isNumber_withSign (negative : Bool) {c : Char} {cs : Text} (hc : c.isDigit = true) :
    isNumber (withSign negative (c :: cs)) = isUnsigned (c :: cs) := by
  cases negative with
  | true => rfl
  | false => exact isNumber_of_digit hc

theorem withSign_bare (negative : Bool) {cs : Text} (h : ∀ c ∈ cs, isBare c = true) :
    ∀ c ∈ withSign negative cs, isBare c = true := by
  cases negative with
  | true => exact List.forall_mem_cons.mpr ⟨by decide, h⟩
  | false => exact h

theorem mem_withSign (negative : Bool) {cs : Text} {c : Char} (h : c ∈ cs) : c ∈ withSign negative cs := by
  cases negative with
  | true => exact List.mem_cons_of_mem _ h
  | false => exact h

/-- `repr` of an `int`. -/
def intText (n : Int) : Text := withSign (n < 0) (Nat.toDigits 10 n.natAbs)

theorem digit_of_no_word {c : Char} (hc : c.isDigit = true) : ∀ w ∈ words, c ∉ w := by
  have hall : (words.all fun w => w.all fun d => !d.isDigit) = true := by decide +kernel
  intro w hw hmem
  have hdigit := List.all_eq_true.mp (List.all_eq_true.mp hall w hw) c hmem
  rw [hc] at hdigit
  cases hdigit

theorem intText_reads {n : Int} (h : n.natAbs < 10 ^ maxStrDigits) : Reads (intText n) (.int n) := by
  obtain ⟨d, ds, hds⟩ := List.exists_cons_of_ne_nil (Nat.toDigits_ne_nil (b := 10) (n := n.natAbs))
  have hdigits := toDigits_isDigit n.natAbs
  have hd : d.isDigit = true := hdigits d (by rw [hds]; exact List.mem_cons_self)
  have hnumber : isNumber (intText n) = true := by
    rw [intText, hds, isNumber_withSign _ hd, ← hds]
    simpa [isFraction, isExponent] using @isUnsigned_toDigits n.natAbs [] (by simp)
  have hmem : d ∈ intText n := mem_withSign _ (hds ▸ List.mem_cons_self)
  have hsign : takeSign (intText n) = (decide (n < 0), Nat.toDigits 10 n.natAbs) := by
    rw [intText, hds, takeSign_withSign _ hd]
  refine ⟨List.ne_nil_of_mem hmem, withSign_bare _ fun c hc => isBare_of_isDigit (hdigits c hc), ?_⟩
  rw [atomOf_int (ne_word hmem (digit_of_no_word hd)) hnumber hsign (List.all_eq_true.mpr hdigits)
    ((Nat.length_toDigits_le_iff (by decide) (by decide)).mpr h), natOf_toDigits]
  congr 2
  by_cases hneg : n < 0
  · simp only [hneg, decide_true, if_true]
    omega
  · simp only [hneg, decide_false, Bool.false_eq_true, if_false]
    omega

/-! ### Floats with few places -/

/-- The digits after the point of `f / 10 ^ places`, without zeros at the end but at least one. -/
def fraction : Nat → Nat → Text
  | 0, _ => ['0']
  | 1, f => padded 1 f
  | places + 2, f => if f % 10 = 0 then fraction (places + 1) (f / 10) else padded (places + 2) f

theorem fraction_digits (places f : Nat) : ∀ c ∈ fraction places f, c.isDigit = true := by
  fun_induction fraction places f with
  | case1 => exact List.all_eq_true.mp (by decide)
  | case2 f => exact padded_digits 1 f
  | case3 places f hzero ih => exact ih
  | case4 places f hzero => exact padded_digits (places + 2) f

theorem fraction_ne_nil (places f : Nat) : fraction places f ≠ [] := by
  fun_induction fraction places f with
  | case1 => decide
  | case2 f => exact List.ne_nil_of_length_eq_add_one (padded_length 1 f)
  | case3 places f hzero ih => exact ih
  | case4 places f hzero => exact List.ne_nil_of_length_eq_add_one (padded_length (places + 2) f)

theorem natOf_fraction (places f : Nat) (h : f < 10 ^ places) :
    natOf (fraction places f) * 10 ^ places = f * 10 ^ (fraction places f).length := by
  fun_induction fraction places f with
  | case1 f =>
    obtain rfl : f = 0 := by omega
    rfl
  | case2 f => rw [natOf_padded 1 f h, padded_length]
  | case3 places f hzero ih =>
    rw [pow_succ, ← mul_assoc, ih (by rw [pow_succ] at h; omega)]
    rw [mul_right_comm, Nat.div_mul_cancel (Nat.dvd_of_mod_eq_zero hzero)]
  | case4 places f hzero => rw [natOf_padded (places + 2) f h, padded_length]

/-- The number of so many units of the last place. -/
def decimalText (places units : Nat) : Text :=
  Nat.toDigits 10 (units / 10 ^ places) ++ '.' :: fraction places (units % 10 ^ places)

section decimalText

variable (places units : Nat)

theorem decimalText_head : ∃ d ds, decimalText places units = d :: ds ∧ d.isDigit = true := by
  obtain ⟨d, ds, hds⟩ := List.exists_cons_of_ne_nil (Nat.toDigits_ne_nil (b := 10) (n := units / 10 ^ places))
  refine ⟨d, ds ++ '.' :: fraction places (units % 10 ^ places), ?_, ?_⟩
  · rw [decimalText, hds, List.cons_append]
  · exact toDigits_isDigit _ d (by rw [hds]; exact List.mem_cons_self)

theorem decimalText_bare : ∀ c ∈ decimalText places units, isBare c = true := by
  intro c hc
  rcases List.mem_append.mp hc with hc | hc
  · exact isBare_of_isDigit (toDigits_isDigit _ c hc)
  · rcases List.mem_cons.mp hc with rfl | hc
    · decide
    · exact isBare_of_isDigit (fraction_digits _ _ c hc)

theorem decimalText_point : '.' ∈ decimalText places units := by
  simp [decimalText]

theorem isUnsigned_decimalText : isUnsigned (decimalText places units) = true := by
  obtain ⟨htake, hdrop⟩ := @takeWhile_digits _ [] (fraction_digits places (units % 10 ^ places)) (by simp)
  rw [List.append_nil] at htake hdrop
  rw [decimalText, isUnsigned_toDigits _ (by simp)]
  simp [isFraction, htake, hdrop, isExponent, fraction_ne_nil]

theorem decimal?_decimalText : decimal? (decimalText places units) = some ((units : ℚ) / 10 ^ places) := by
  have hdigits := fraction_digits places (units % 10 ^ places)
  obtain ⟨hwhole, hpoint⟩ := @takeWhile_digits _ ('.' :: fraction places (units % 10 ^ places))
    (toDigits_isDigit (units / 10 ^ places)) (by simp)
  obtain ⟨hplaces, hrest⟩ := @takeWhile_digits _ [] hdigits (by simp)
  rw [List.append_nil] at hplaces hrest
  have hfraction : (natOf (fraction places (units % 10 ^ places)) : ℚ) * 10 ^ places =
      (units % 10 ^ places : ℕ) * 10 ^ (fraction places (units % 10 ^ places)).length := by
    exact_mod_cast natOf_fraction places (units % 10 ^ places) (Nat.mod_lt _ (by positivity))
  have hsplit : (10 : ℚ) ^ places * (units / 10 ^ places : ℕ) + (units % 10 ^ places : ℕ) = units := by
    exact_mod_cast Nat.div_add_mod units (10 ^ places)
  unfold decimal? decimalText
  simp only [hwhole, hpoint, hplaces, hrest]
  rw [if_neg (fun h => Nat.toDigits_ne_nil h.1)]
  simp only [exponent?, Option.map_some, natOf_append_text, natOf_toDigits]
  congr 1
  rw [zero_sub, zpow_neg, zpow_natCast]
  push_cast
  field_simp
  rw [add_mul, hfraction, ← hsplit]
  ring

end decimalText

/-- `repr` of a `float`, as `json` writes it, for a number below 10 ^ 16 with at most `places` decimal places. -/
def decimalFloat (places : Nat) : PyFloat → Text
  | .nan => "NaN".toList
  | .inf negative => withSign negative "Infinity".toList
  | .fin q => withSign (q < 0) (decimalText places (roundEven (|q| * 10 ^ places)).toNat)

theorem decimalFloat_reads {places : Nat} {q : ℚ} (hplaces : HasPlaces places q) (hfinite : |q| < floatLimit) :
    Reads (decimalFloat places (.fin q)) (.float (.fin q)) := by
  obtain ⟨k, hk⟩ := hplaces
  have hpow : (0 : ℚ) < 10 ^ places := by positivity
  have habs : |q| * 10 ^ places = (k.natAbs : ℤ) := by
    rw [← abs_of_pos hpow, ← abs_mul, hk, ← Int.cast_abs, Int.abs_eq_natAbs]
  have hunits : (roundEven (|q| * 10 ^ places)).toNat = k.natAbs := by
    rw [habs, roundEven_intCast, Int.toNat_natCast]
  obtain ⟨d, ds, hds, hd⟩ := decimalText_head places k.natAbs
  have hpoint : '.' ∈ decimalFloat places (.fin q) := mem_withSign _ (decimalText_point _ _)
  have hnumber : isNumber (decimalFloat places (.fin q)) = true := by
    simp only [decimalFloat, hunits]
    rw [hds, isNumber_withSign _ hd, ← hds]
    exact isUnsigned_decimalText _ _
  have hsign : takeSign (decimalFloat places (.fin q)) = (decide (q < 0), decimalText places k.natAbs) := by
    simp only [decimalFloat, hunits]
    rw [hds, takeSign_withSign _ hd]
  have hnot : ¬(decimalText places k.natAbs).all Char.isDigit = true := by
    intro hall
    have := List.all_eq_true.mp hall '.' (decimalText_point _ _)
    cases this
  have hvalue : (k.natAbs : ℚ) / 10 ^ places = |q| := by
    rw [div_eq_iff hpow.ne', habs, Int.cast_natCast]
  have hsigned : (if decide (q < 0) = true then -|q| else |q|) = q := by
    by_cases hneg : q < 0
    · rw [if_pos (by simpa using hneg), abs_of_neg hneg, neg_neg]
    · rw [if_neg (by simpa using hneg), abs_of_nonneg (not_lt.mp hneg)]
  refine ⟨List.ne_nil_of_mem hpoint, withSign_bare _ (decimalText_bare _ _), ?_⟩
  rw [atomOf_float (ne_word hpoint (by decide)) hnumber hsign hnot (decimal?_decimalText _ _), hvalue, hsigned,
    PyFloat.ofRat, if_neg (not_le.mpr hfinite)]

/-! ### Values -/

/-- A new line and `indent=2` for every level. -/
def newline (level : Nat) : Text := '\n' :: List.replicate (2 * level) ' '

section dump

variable (showFloat : PyFloat → Text)

mutual

/-- `json.dump(x, f, indent=2)`, of a value at a level of nesting. -/
def dump (level : Nat) : Py → Text
  | .null => "null".toList
  | .bool b => if b then "true".toList else "false".toList
  | .int n => intText n
  | .float x => showFloat x
  | .str s => (Str.spell s).quoted
  | .list xs =>
    if xs.isEmpty then ['[', ']']
    else '[' :: (newline (level + 1) ++ (dumpElements (level + 1) xs ++ (newline level ++ [']'])))
  | .dict members =>
    if members.isEmpty then ['{', '}']
    else '{' :: (newline (level + 1) ++ (dumpMembers (level + 1) members ++ (newline level ++ ['}'])))

def dumpElements (level : Nat) : List Py → Text
  | [] => []
  | [x] => dump level x
  | x :: y :: xs => dump level x ++ ',' :: (newline level ++ dumpElements level (y :: xs))

def dumpMembers (level : Nat) : List (Key × Py) → Text
  | [] => []
  | [(key, x)] => (Str.spellKey key).quoted ++ ':' :: ' ' :: dump level x
  | (key, x) :: m :: members =>
    (Str.spellKey key).quoted ++
      ':' :: ' ' :: (dump level x ++ ',' :: (newline level ++ dumpMembers level (m :: members)))

end

/-- A value that is written and read back, with no more than `depth` levels of nesting. -/
inductive Printable : Nat → Py → Prop
  | null (depth : Nat) : Printable depth .null
  | bool (depth : Nat) (b : Bool) : Printable depth (.bool b)
  | int (depth : Nat) {n : Int} (h : n.natAbs < 10 ^ maxStrDigits) : Printable depth (.int n)
  | float (depth : Nat) {x : PyFloat} (h : Reads (showFloat x) (.float x)) : Printable depth (.float x)
  | str (depth : Nat) (s : Text) : Printable depth (.str s)
  | list {depth : Nat} {xs : List Py} (h : ∀ x ∈ xs, Printable depth x) : Printable (depth + 1) (.list xs)
  | dict {depth : Nat} {members : List (Key × Py)} (h : ∀ m ∈ members, Printable depth m.2)
      (htexts : ∀ m ∈ members, ∃ t, m.1 = keyOf t) (hkeys : (members.map Prod.fst).Nodup) :
      Printable (depth + 1) (.dict members)

variable {showFloat}

theorem Printable.obj {depth : Nat} {members : List (Text × Py)} (h : ∀ m ∈ members, Printable showFloat depth m.2)
    (hkeys : (members.map Prod.fst).Nodup) : Printable showFloat (depth + 1) (.obj members) := by
  refine .dict (fun m hm => ?_) (fun m hm => ?_) ?_
  · obtain ⟨m', hm', rfl⟩ := List.mem_map.mp hm
    exact h m' hm'
  · obtain ⟨m', -, rfl⟩ := List.mem_map.mp hm
    exact ⟨m'.1, rfl⟩
  · rw [List.map_map, show Prod.fst ∘ (fun m : Text × Py => (keyOf m.1, m.2)) = keyOf ∘ Prod.fst from rfl, ← List.map_map]
    exact hkeys.map keyOf_injective

theorem Printable.mono {depth depth' : Nat} {x : Py} (h : Printable showFloat depth x) (hle : depth ≤ depth') :
    Printable showFloat depth' x := by
  induction h generalizing depth' with
  | null => exact .null _
  | bool => exact .bool _ _
  | int _ h => exact .int _ h
  | float _ h => exact .float _ h
  | str => exact .str _ _
  | list h ih =>
    obtain ⟨d, rfl⟩ : ∃ d, depth' = d + 1 := ⟨depth' - 1, by omega⟩
    exact .list fun x hx => ih x hx (by omega)
  | dict h htexts hkeys ih =>
    obtain ⟨d, rfl⟩ : ∃ d, depth' = d + 1 := ⟨depth' - 1, by omega⟩
    exact .dict (fun m hm => ih m hm (by omega)) htexts hkeys

/-! ### Reading back what was written -/

theorem skipSpace_newline (level : Nat) (cs : Text) : skipSpace (newline level ++ cs) = skipSpace cs := by
  have hspace : ∀ c ∈ newline level, isSpace c = true := by
    intro c hc
    rcases List.mem_cons.mp hc with rfl | hc
    · decide
    · rw [List.eq_of_mem_replicate hc]
      decide
  exact List.dropWhile_append_of_pos hspace

theorem scanValue_newline (n depth level : Nat) (cs : Text) :
    scanValue n depth (newline level ++ cs) = scanValue n depth cs := by
  cases n with
  | zero => rfl
  | succ n => rw [scanValue, scanValue, skipSpace_newline]

theorem scanValue_space (n depth : Nat) (cs : Text) : scanValue n depth (' ' :: cs) = scanValue n depth cs := by
  cases n with
  | zero => rfl
  | succ n => rw [scanValue, scanValue, skipSpace_space]

theorem scanElements_newline (n depth level : Nat) (cs : Text) :
    scanElements n depth (newline level ++ cs) = scanElements n depth cs := by
  cases n with
  | zero => rfl
  | succ n => rw [scanElements, scanElements, scanValue_newline]

theorem scanMembers_newline (n depth level : Nat) (cs : Text) :
    scanMembers n depth (newline level ++ cs) = scanMembers n depth cs := by
  cases n with
  | zero => rfl
  | succ n => rw [scanMembers, scanMembers, skipSpace_newline]

theorem Reads.scanValue {cs : Text} {x : Py} (h : Reads cs x) (n depth : Nat) {rest : Text} (hrest : Delimited rest) :
    Json.scanValue (n + 1) depth (cs ++ rest) = .ok (x, rest) := by
  have htake : (cs ++ rest).takeWhile isBare = cs ∧ (cs ++ rest).dropWhile isBare = rest := by
    rw [List.takeWhile_append_of_pos h.bare, List.dropWhile_append_of_pos h.bare]
    cases rest with
    | nil => simp
    | cons c rest =>
      have hc : ¬isBare c = true := by simp [hrest c rfl]
      rw [List.takeWhile_cons_of_neg hc, List.dropWhile_cons_of_neg hc, List.append_nil]
      exact ⟨rfl, rfl⟩
  obtain ⟨c, cs', hcs⟩ := List.exists_cons_of_ne_nil h.ne_nil
  obtain ⟨hspace, hquote, hbracket, hbrace, -⟩ := isBare_facts (h.bare c (by simp [hcs]))
  have hskip : skipSpace (cs ++ rest) = cs ++ rest := by rw [hcs, List.cons_append, skipSpace_cons hspace]
  rw [Json.scanValue, hskip]
  split
  · next heq =>
    rw [hcs] at heq
    exact absurd (List.cons.inj heq).1 hquote
  · next heq =>
    rw [hcs] at heq
    exact absurd (List.cons.inj heq).1 hbracket
  · next heq =>
    rw [hcs] at heq
    exact absurd (List.cons.inj heq).1 hbrace
  · rw [htake.1, htake.2, h.value]
    rfl

theorem reads_null : Reads "null".toList .null := ⟨by decide, List.all_eq_true.mp (by decide), rfl⟩

theorem reads_bool (b : Bool) : Reads (if b then "true".toList else "false".toList) (.bool b) := by
  cases b with
  | false => exact ⟨by decide, List.all_eq_true.mp (by decide), rfl⟩
  | true => exact ⟨by decide, List.all_eq_true.mp (by decide), rfl⟩

theorem foldl_put_members (members before : List (Key × Py)) (h : (before ++ members).map Prod.fst |>.Nodup) :
    members.foldl (fun d m => put d m.1 m.2) before = before ++ members := by
  induction members generalizing before with
  | nil => simp
  | cons m members ih =>
    have hnew : ¬before.any (·.1 = m.1) = true := by
      rw [List.map_append, List.nodup_append] at h
      intro hany
      obtain ⟨m', hm', heq⟩ := List.any_eq_true.mp hany
      exact h.2.2 m'.1 (List.mem_map_of_mem hm') m.1 (by simp) (of_decide_eq_true heq)
    have hput : put before m.1 m.2 = before ++ [m] := by rw [put, if_neg hnew]
    rw [List.foldl_cons, hput, ih _ (by rwa [List.append_assoc, List.singleton_append]), List.append_assoc,
      List.singleton_append]

theorem dictOf_eq {members : List (Key × Py)} (h : (members.map Prod.fst).Nodup) : dictOf members = .dict members := by
  rw [dictOf, foldl_put_members members [] h, List.nil_append]

theorem Reads.head {cs : Text} {x : Py} (h : Reads cs x) : ∃ c cs', cs = c :: cs' ∧ isSpace c = false ∧ c ≠ ']' := by
  obtain ⟨c, cs', hcs⟩ := List.exists_cons_of_ne_nil h.ne_nil
  obtain ⟨hspace, -, -, -, hclose, -⟩ := isBare_facts (h.bare c (by simp [hcs]))
  exact ⟨c, cs', hcs, hspace, hclose⟩

theorem dump_head {depth : Nat} {x : Py} (h : Printable showFloat depth x) (level : Nat) :
    ∃ c cs, dump showFloat level x = c :: cs ∧ isSpace c = false ∧ c ≠ ']' := by
  cases h with
  | null => exact reads_null.head
  | bool b =>
    rw [dump]
    exact (reads_bool _).head
  | int _ h =>
    rw [dump]
    exact (intText_reads h).head
  | float _ h =>
    rw [dump]
    exact h.head
  | str s => exact ⟨_, _, by rw [dump, Str.quoted], by decide, by decide⟩
  | list =>
    rw [dump]
    split
    · exact ⟨_, _, rfl, by decide, by decide⟩
    · exact ⟨_, _, rfl, by decide, by decide⟩
  | dict =>
    rw [dump]
    split
    · exact ⟨_, _, rfl, by decide, by decide⟩
    · exact ⟨_, _, rfl, by decide, by decide⟩

theorem dumpElements_head {depth : Nat} {x : Py} (h : Printable showFloat depth x) (level : Nat) (xs : List Py) :
    ∃ c cs, dumpElements showFloat level (x :: xs) = c :: cs ∧ isSpace c = false ∧ c ≠ ']' := by
  obtain ⟨c, cs, hc, hspace, hclose⟩ := dump_head h level
  cases xs with
  | nil => exact ⟨c, cs, by rw [dumpElements, hc], hspace, hclose⟩
  | cons y ys => exact ⟨c, _, by rw [dumpElements, hc, List.cons_append], hspace, hclose⟩

theorem dumpMembers_quote (level : Nat) (m : Key × Py) (ms : List (Key × Py)) :
    ∃ cs, dumpMembers showFloat level (m :: ms) = '"' :: cs := by
  cases ms with
  | nil => exact ⟨_, by rw [dumpMembers, Str.quoted, List.cons_append]⟩
  | cons m' ms => exact ⟨_, by rw [dumpMembers, Str.quoted, List.cons_append]⟩

theorem delimited_newline (level : Nat) (cs : Text) : Delimited (newline level ++ cs) :=
  delimited_cons (by decide) _

mutual

/-- The value that was written is read back, whatever follows it. -/
theorem scanValue_dump (x : Py) (n depth level : Nat) (rest : Text) (hx : Printable showFloat depth x)
    (hn : (dump showFloat level x).length < n) (hrest : Delimited rest) :
    scanValue n depth (dump showFloat level x ++ rest) = .ok (x, rest) := by
  obtain ⟨n, rfl⟩ : ∃ k, n = k + 1 := ⟨n - 1, by omega⟩
  match x, hx with
  | .null, _ =>
    rw [dump]
    exact reads_null.scanValue n depth hrest
  | .bool b, _ =>
    rw [dump]
    exact (reads_bool b).scanValue n depth hrest
  | .int k, .int _ h =>
    rw [dump]
    exact (intText_reads h).scanValue n depth hrest
  | .float y, .float _ h =>
    rw [dump]
    exact h.scanValue n depth hrest
  | .str s, _ =>
    rw [dump, Str.quoted, List.cons_append, scanValue, skipSpace_cons (by decide)]
    simp [strBody_quoted]
  | .list [], .list _ =>
    rw [dump, List.isEmpty_nil, if_pos rfl, scanValue.eq_def]
    rfl
  | .list (y :: ys), @Printable.list _ depth _ h =>
    rw [dump, if_neg (by simp)] at hn ⊢
    have helements := scanElements_dump y ys n depth (level + 1) level rest h (by simp at hn; omega)
    obtain ⟨c, cs, hc, hspace, hclose⟩ := dumpElements_head (h y List.mem_cons_self) (level + 1) ys
    rw [List.cons_append, scanValue, skipSpace_cons (by decide)]
    simp only [List.append_assoc, skipSpace_newline]
    rw [hc, List.cons_append] at helements ⊢
    rw [skipSpace_cons hspace]
    split
    · next heq => exact absurd (List.cons.inj heq).1 hclose
    · rw [List.singleton_append, helements]
      rfl
  | .dict [], .dict _ _ _ =>
    rw [dump, List.isEmpty_nil, if_pos rfl, scanValue.eq_def]
    rfl
  | .dict (m :: ms), @Printable.dict _ depth _ h htexts hkeys =>
    rw [dump, if_neg (by simp)] at hn ⊢
    have hmembers := scanMembers_dump m ms n depth (level + 1) level rest h htexts (by simp at hn; omega)
    obtain ⟨cs, hc⟩ := @dumpMembers_quote showFloat (level + 1) m ms
    rw [List.cons_append, scanValue, skipSpace_cons (by decide)]
    simp only [List.append_assoc, skipSpace_newline]
    rw [hc, List.cons_append] at hmembers ⊢
    rw [skipSpace_cons (by decide)]
    split
    · next heq => exact absurd (List.cons.inj heq).1 (by decide)
    · rw [List.singleton_append, hmembers]
      exact congrArg (fun d => Except.ok (d, rest)) (dictOf_eq hkeys)
termination_by n

theorem scanElements_dump (x : Py) (xs : List Py) (n depth level outer : Nat) (rest : Text)
    (h : ∀ y ∈ x :: xs, Printable showFloat depth y)
    (hn : (dumpElements showFloat level (x :: xs)).length + 1 < n) :
    scanElements n depth (dumpElements showFloat level (x :: xs) ++ (newline outer ++ ']' :: rest)) =
      .ok (x :: xs, rest) := by
  obtain ⟨n, rfl⟩ : ∃ k, n = k + 1 := ⟨n - 1, by omega⟩
  have hx := h x List.mem_cons_self
  match xs with
  | [] =>
    rw [dumpElements] at hn ⊢
    rw [scanElements, scanValue_dump x n depth level _ hx (by omega) (delimited_newline _ _)]
    simp only [skipSpace_newline, skipSpace_cons (show isSpace ']' = false by decide)]
  | y :: ys =>
    rw [dumpElements] at hn ⊢
    have hrec := scanElements_dump y ys n depth level outer rest (fun z hz => h z (List.mem_cons_of_mem _ hz))
      (by simp at hn; omega)
    rw [List.append_assoc, List.cons_append, List.append_assoc, scanElements,
      scanValue_dump x n depth level _ hx (by simp at hn; omega) (delimited_cons (by decide) _)]
    simp only [skipSpace_cons (show isSpace ',' = false by decide), scanElements_newline, hrec]
    rfl
termination_by n

theorem scanMembers_dump (m : Key × Py) (ms : List (Key × Py)) (n depth level outer : Nat) (rest : Text)
    (h : ∀ m' ∈ m :: ms, Printable showFloat depth m'.2) (htexts : ∀ m' ∈ m :: ms, ∃ t, m'.1 = keyOf t)
    (hn : (dumpMembers showFloat level (m :: ms)).length + 1 < n) :
    scanMembers n depth (dumpMembers showFloat level (m :: ms) ++ (newline outer ++ '}' :: rest)) =
      .ok (m :: ms, rest) := by
  obtain ⟨n, rfl⟩ : ∃ k, n = k + 1 := ⟨n - 1, by omega⟩
  have hx := h m List.mem_cons_self
  obtain ⟨t, ht⟩ := htexts m List.mem_cons_self
  obtain ⟨key, x⟩ := m
  obtain rfl : key = keyOf t := ht
  have hquote : isSpace '"' = false := by decide
  have hcolon : isSpace ':' = false := by decide
  match ms with
  | [] =>
    rw [dumpMembers, Str.quoted] at hn ⊢
    simp only [List.cons_append, List.append_assoc, List.nil_append] at hn ⊢
    rw [scanMembers, skipSpace_cons hquote]
    simp only [strBody_quoted, skipSpace_cons hcolon, scanValue_space]
    rw [scanValue_dump x n depth level _ hx (by simp at hn; omega) (delimited_newline _ _)]
    simp only [skipSpace_newline, skipSpace_cons (show isSpace '}' = false by decide), spellKey_keyOf, points_spell]
  | m' :: ms =>
    rw [dumpMembers, Str.quoted] at hn ⊢
    have hrec := scanMembers_dump m' ms n depth level outer rest (fun z hz => h z (List.mem_cons_of_mem _ hz))
      (fun z hz => htexts z (List.mem_cons_of_mem _ hz)) (by simp at hn; omega)
    simp only [List.cons_append, List.append_assoc, List.nil_append] at hn ⊢
    rw [scanMembers, skipSpace_cons hquote]
    simp only [strBody_quoted, skipSpace_cons hcolon, scanValue_space]
    rw [scanValue_dump x n depth level _ hx (by simp at hn; omega) (delimited_cons (by decide) _)]
    simp only [skipSpace_cons (show isSpace ',' = false by decide), scanMembers_newline, hrec, spellKey_keyOf,
      points_spell]
    rfl
termination_by n

end

/-- **What was written is read back.** -/
theorem parse_dump {limit : Nat} {x : Py} (h : Printable showFloat limit x) : parse limit (dump showFloat 0 x) = .ok x := by
  have hscan := scanValue_dump x (2 * (dump showFloat 0 x).length + 1) limit 0 [] h (by omega) (by simp [Delimited])
  rw [List.append_nil] at hscan
  unfold parse
  rw [hscan]
  rfl

theorem load_encode (limit : Nat) (cs : Text) : load limit (encode cs) = parse limit cs := by
  have hbytes : (⟨(encode cs).toArray⟩ : ByteArray) = cs.utf8Encode := by
    have hlist : (encode cs).toByteArray.data.toList = encode cs := List.toList_data_toByteArray
    exact ByteArray.ext (by rw [← hlist]; rfl)
  have hvalid : (⟨(encode cs).toArray⟩ : ByteArray).IsValidUTF8 := by
    rw [hbytes]
    exact ByteArray.isValidUTF8_utf8Encode
  have htext : String.fromUTF8 ⟨(encode cs).toArray⟩ hvalid = String.ofList cs := by
    rw [← String.toByteArray_inj, String.toByteArray_ofList]
    exact hbytes
  unfold load String.fromUTF8?
  rw [dif_pos hvalid, htext]
  simp

theorem load_dump {limit : Nat} {x : Py} (h : Printable showFloat limit x) :
    load limit (encode (dump showFloat 0 x)) = .ok x :=
  (load_encode limit _).trans (parse_dump h)

end dump

example : String.ofList (dump (decimalFloat 3) 0 (.obj [("score".toList, .float (.fin (-42 / 100))),
    ("drivers".toList, .list [.str "é".toList])])) =
      "\x7b\n  \"score\": -0.42,\n  \"drivers\": [\n    \"\\u00e9\"\n  ]\n\x7d" := by
  decide +kernel

end FreqTrading.Lib.Json
