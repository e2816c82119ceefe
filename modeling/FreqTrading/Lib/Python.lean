import FreqTrading.Lib.Lines
import FreqTrading.Lib.Program
import Mathlib.Algebra.Order.Field.Basic
import Mathlib.Data.Rat.Floor
import Mathlib.Tactic.Linarith

/-!
# Python values

The values `json` reads, with the conversions `float`, `int` and `bool` and the exceptions these raise. A float is
exact: a rational, an infinity or no number. A conversion whose exception is not among those its caller catches
*escapes*; `verdict` says so of a computation, and of a sequence of computations the first that fails decides
(`verdict_bind`).
-/

namespace FreqTrading.Lib

/-- The exceptions that matter here; a `JSONDecodeError` and a `UnicodeDecodeError` are value errors. -/
inductive PyError
  | osError | valueError | keyError | typeError | attributeError | overflowError | recursionError
  deriving DecidableEq, Repr

/-! ### Floats -/

inductive PyFloat
  | nan
  | inf (negative : Bool)
  | fin (q : ℚ)
  deriving DecidableEq, Repr

/-- From here on a number rounds to no finite double. -/
def floatLimit : ℚ := 2 ^ 1024 - 2 ^ 970

/-- The float of a literal: a number that is too large gives an infinity. -/
def PyFloat.ofRat (q : ℚ) : PyFloat := if floatLimit ≤ |q| then .inf (q < 0) else .fin q

namespace PyFloat

/-- `x < y`; no comparison with NaN holds. -/
def lt : PyFloat → PyFloat → Bool
  | .nan, _ | _, .nan => false
  | .inf a, .inf b => a && !b
  | .inf a, .fin _ => a
  | .fin _, .inf b => !b
  | .fin p, .fin q => p < q

/-- `x <= y`. -/
def le : PyFloat → PyFloat → Bool
  | .nan, _ | _, .nan => false
  | .inf a, .inf b => a || !b
  | .inf a, .fin _ => a
  | .fin _, .inf b => !b
  | .fin p, .fin q => p ≤ q

def abs : PyFloat → PyFloat
  | .nan => .nan
  | .inf _ => .inf false
  | .fin q => .fin |q|

def sub : PyFloat → PyFloat → PyFloat
  | .nan, _ | _, .nan => .nan
  | .inf a, .inf b => if a = b then .nan else .inf a
  | .inf a, .fin _ => .inf a
  | .fin _, .inf b => .inf !b
  | .fin p, .fin q => .fin (p - q)

/-- `x / y` for a divisor that is positive or NaN. -/
def div : PyFloat → PyFloat → PyFloat
  | .nan, _ | _, .nan | .inf _, .inf _ => .nan
  | .inf a, .fin _ => .inf a
  | .fin _, .inf _ => .fin 0
  | .fin p, .fin q => .fin (p / q)

/-- `x * m` for a positive number. -/
def scale (m : ℚ) : PyFloat → PyFloat
  | .nan => .nan
  | .inf a => .inf a
  | .fin q => .fin (q * m)

/-- `max(x, y)`. -/
def max (x y : PyFloat) : PyFloat := if x.lt y then y else x

/-- The number that `max(-1.0, min(1.0, x))` is. -/
def clamp : PyFloat → ℚ
  | .nan => 1
  | .inf negative => if negative then -1 else 1
  | .fin q => if q < 1 then (if -1 < q then q else -1) else 1

end PyFloat

/-! ### Numbers in texts -/

/-- The zeros of the decimal digits of Unicode 15 (category Nd); the other nine follow each of them. -/
def digitZeros : List Nat :=
  [0x30, 0x660, 0x6f0, 0x7c0, 0x966, 0x9e6, 0xa66, 0xae6, 0xb66, 0xbe6, 0xc66, 0xce6, 0xd66, 0xde6, 0xe50, 0xed0,
   0xf20, 0x1040, 0x1090, 0x17e0, 0x1810, 0x1946, 0x19d0, 0x1a80, 0x1a90, 0x1b50, 0x1bb0, 0x1c40, 0x1c50, 0xa620,
   0xa8d0, 0xa900, 0xa9d0, 0xa9f0, 0xaa50, 0xabf0, 0xff10, 0x104a0, 0x10d30, 0x11066, 0x110f0, 0x11136, 0x111d0,
   0x112f0, 0x11450, 0x114d0, 0x11650, 0x116c0, 0x11730, 0x118e0, 0x11950, 0x11c50, 0x11d50, 0x11da0, 0x11f50,
   0x16a60, 0x16ac0, 0x16b50, 0x1d7ce, 0x1d7d8, 0x1d7e2, 0x1d7ec, 0x1d7f6, 0x1e140, 0x1e2f0, 0x1e4f0, 0x1e950,
   0x1fbf0]

/-- The digit of ASCII for a decimal digit of any script; another character stays as it is. -/
def asciiDigit (c : Char) : Char :=
  match digitZeros.find? fun z => z ≤ c.toNat && c.toNat < z + 10 with
  | some z => Char.ofNat ('0'.toNat + (c.toNat - z))
  | none => c

/-- `str.isdecimal` of a character. -/
def isDecimal (c : Char) : Bool := (asciiDigit c).isDigit

/-- The number that a text of digits writes. -/
def natOf (cs : Text) : Nat := cs.foldl (fun n c => 10 * n + (c.toNat - '0'.toNat)) 0

/-- The number that a text of decimal digits of any script writes. -/
def decimalOf (cs : Text) : Nat := natOf (cs.map asciiDigit)

/-- `n` with leading zeros, in `width` digits. -/
def padded : Nat → Nat → Text
  | 0, _ => []
  | width + 1, n => padded width (n / 10) ++ [Char.ofNat ('0'.toNat + n % 10)]

/-- The sign of a number, and the rest. -/
def takeSign : Text → Bool × Text
  | '-' :: cs => (true, cs)
  | '+' :: cs => (false, cs)
  | cs => (false, cs)

/-- The exponent at the end of a number. -/
def exponent? : Text → Option Int
  | [] => some 0
  | e :: cs =>
    let (negative, ds) := takeSign cs
    if (e = 'e' ∨ e = 'E') ∧ ds ≠ [] ∧ ds.all Char.isDigit then
      some (if negative then -(natOf ds : Int) else natOf ds)
    else none

/-- An unsigned decimal number: digits on at least one side of the point, and an exponent. -/
def decimal? (cs : Text) : Option ℚ :=
  let whole := cs.takeWhile Char.isDigit
  let rest := cs.dropWhile Char.isDigit
  let (places, rest) :=
    match rest with
    | '.' :: rest => (rest.takeWhile Char.isDigit, rest.dropWhile Char.isDigit)
    | rest => ([], rest)
  if whole = [] ∧ places = [] then none
  else (exponent? rest).map fun e => (natOf (whole ++ places) : ℚ) * 10 ^ (e - (places.length : Int))

/-- The text without its underscores, if each stands between two digits. -/
def dropUnderscores (cs : Text) : Option Text :=
  let isolated := (cs.zip (cs.drop 1)).any fun (c, d) => (c = '_' && !d.isDigit) || (d = '_' && !c.isDigit)
  if isolated ∨ cs.head? = some '_' ∨ cs.getLast? = some '_' then none else some (cs.filter (· ≠ '_'))

/-- `float(text)`; `none` is a `ValueError`. -/
def floatOf? (cs : Text) : Option PyFloat :=
  let (negative, cs) := takeSign ((strip cs).map asciiDigit)
  let word := cs.map Char.toLower
  if word = "nan".toList then some .nan
  else if word = "inf".toList ∨ word = "infinity".toList then some (.inf negative)
  else ((dropUnderscores cs).bind decimal?).map fun q => .ofRat (if negative then -q else q)

/-- `sys.int_info.default_max_str_digits`. -/
def maxStrDigits : Nat := 4300

/-- `int(text)`; `none` is a `ValueError`. -/
def intOf? (cs : Text) : Option Int :=
  let (negative, cs) := takeSign ((strip cs).map asciiDigit)
  (dropUnderscores cs).bind fun ds =>
    if ds ≠ [] ∧ ds.all Char.isDigit ∧ ds.length ≤ maxStrDigits then
      some (if negative then -(natOf ds : Int) else natOf ds)
    else none

theorem mem_dropWhile {p : Char → Bool} {cs : Text} {c : Char} (hc : p c = false) (h : c ∈ cs) : c ∈ cs.dropWhile p := by
  rw [← List.takeWhile_append_dropWhile (p := p) (l := cs), List.mem_append] at h
  rcases h with htaken | hmem
  · have hall := List.all_eq_true.mp (@List.all_takeWhile _ p cs) c htaken
    rw [hc] at hall
    cases hall
  · exact hmem

theorem mem_strip {cs : Text} {c : Char} (hc : isBlank c = false) (h : c ∈ cs) : c ∈ strip cs := by
  rw [strip, List.mem_reverse]
  exact mem_dropWhile hc (List.mem_reverse.mpr (mem_dropWhile hc h))

theorem mem_takeSign {cs : Text} {c : Char} (hminus : c ≠ '-') (hplus : c ≠ '+') (h : c ∈ cs) :
    c ∈ (takeSign cs).2 := by
  unfold takeSign
  split
  · exact (List.mem_cons.mp h).resolve_left hminus
  · exact (List.mem_cons.mp h).resolve_left hplus
  · exact h

theorem exponent?_brace {cs : Text} (h : '{' ∈ cs) : exponent? cs = none := by
  cases cs with
  | nil => cases h
  | cons e cs =>
    refine if_neg ?_
    rintro ⟨he, _, hdigits⟩
    rcases List.mem_cons.mp h with rfl | hmem
    · rcases he with he | he <;> cases he
    · have := List.all_eq_true.mp hdigits '{' (mem_takeSign (by decide) (by decide) hmem)
      cases this

theorem decimal?_brace {cs : Text} (h : '{' ∈ cs) : decimal? cs = none := by
  have hrest : '{' ∈ cs.dropWhile Char.isDigit := mem_dropWhile (by decide) h
  unfold decimal?
  simp only
  split
  · next rest hpoint =>
    rw [hpoint] at hrest
    have hexponent := exponent?_brace (mem_dropWhile (p := Char.isDigit) (by decide)
      ((List.mem_cons.mp hrest).resolve_left (by decide)))
    simp [hexponent]
  · simp [exponent?_brace hrest]

theorem floatOf?_brace {cs : Text} (h : '{' ∈ cs) : floatOf? cs = none := by
  have hmem : '{' ∈ (takeSign ((strip cs).map asciiDigit)).2 :=
    mem_takeSign (by decide) (by decide) (List.mem_map.mpr ⟨'{', mem_strip (by decide) h, by decide⟩)
  have hword : ∀ word : Text, '{' ∉ word → (takeSign ((strip cs).map asciiDigit)).2.map Char.toLower ≠ word := by
    rintro word hword rfl
    exact hword (List.mem_map.mpr ⟨'{', hmem, by decide⟩)
  have hnumber : ((dropUnderscores (takeSign ((strip cs).map asciiDigit)).2).bind decimal?) = none := by
    unfold dropUnderscores
    simp only
    split
    · rfl
    · exact decimal?_brace (List.mem_filter.mpr ⟨hmem, by decide⟩)
  unfold floatOf?
  simp only
  rw [if_neg (hword _ (by decide)), if_neg (not_or.mpr ⟨hword _ (by decide), hword _ (by decide)⟩), hnumber]
  rfl

theorem natOf_append (cs : Text) (c : Char) : natOf (cs ++ [c]) = 10 * natOf cs + (c.toNat - '0'.toNat) := by
  simp [natOf, List.foldl_append]

theorem digit_spec (n : Nat) :
    (Char.ofNat ('0'.toNat + n % 10)).isDigit = true ∧ (Char.ofNat ('0'.toNat + n % 10)).toNat - '0'.toNat = n % 10 := by
  have hall : ∀ k < 10, (Char.ofNat ('0'.toNat + k)).isDigit = true ∧
      (Char.ofNat ('0'.toNat + k)).toNat - '0'.toNat = k := by decide
  exact hall _ (Nat.mod_lt _ (by decide))

@[simp] theorem padded_length (width n : Nat) : (padded width n).length = width := by
  induction width generalizing n with
  | zero => rfl
  | succ width ih => simp [padded, ih]

theorem padded_digits (width n : Nat) : ∀ c ∈ padded width n, c.isDigit = true := by
  induction width generalizing n with
  | zero => intro c hc; cases hc
  | succ width ih =>
    intro c hc
    rcases List.mem_append.mp hc with hc | hc
    · exact ih _ c hc
    · obtain rfl := List.mem_singleton.mp hc
      exact (digit_spec n).1

theorem natOf_padded (width n : Nat) (h : n < 10 ^ width) : natOf (padded width n) = n := by
  induction width generalizing n with
  | zero =>
    obtain rfl : n = 0 := by omega
    rfl
  | succ width ih =>
    rw [padded, natOf_append, (digit_spec n).2, ih (n / 10) (by rw [pow_succ] at h; omega)]
    omega

/-! ### Values -/

/-- The code points of a Python string, which may have surrogates among them. -/
abbrev Key := List Nat

def keyOf (t : Text) : Key := t.map Char.toNat

theorem keyOf_injective : Function.Injective keyOf := List.map_injective_iff.mpr fun _ _ => Char.toNat_inj.mp

/-- The character of a code point; a surrogate is shown as the replacement character. -/
def charOf (u : Nat) : Char := if 0xd800 ≤ u ∧ u < 0xe000 then Char.ofNat 0xfffd else Char.ofNat u

/-- The values that `json` reads. Of a string the characters are kept, and of a key the code points, so that keys that
differ stay different. -/
inductive Py
  | null
  | bool (b : Bool)
  | int (n : Int)
  | float (x : PyFloat)
  | str (s : Text)
  | list (xs : List Py)
  | dict (members : List (Key × Py))

section put

variable {κ α : Type*} [DecidableEq κ]

/-- `d[key] = x`: a new key goes to the end. -/
def put (members : List (κ × α)) (key : κ) (x : α) : List (κ × α) :=
  if members.any (·.1 = key) then members.map fun m => if m.1 = key then (key, x) else m else members ++ [(key, x)]

variable [BEq κ] [LawfulBEq κ]

theorem lookup_map_put (members : List (κ × α)) (key key' : κ) (x : α) :
    (members.map fun m => if m.1 = key then (key, x) else m).lookup key' =
      if key' = key then (members.lookup key').map fun _ => x else members.lookup key' := by
  induction members with
  | nil => simp
  | cons m members ih =>
    obtain ⟨k, y⟩ := m
    rw [List.map_cons, List.lookup_cons]
    by_cases hkey : key' = key
    · subst hkey
      rw [if_pos rfl] at ih ⊢
      by_cases hk : k = key'
      · simp [hk]
      · rw [if_neg hk, List.lookup_cons, beq_false_of_ne (Ne.symm hk)]
        exact ih
    · rw [if_neg hkey] at ih ⊢
      by_cases hk : k = key
      · rw [if_pos hk, List.lookup_cons, beq_false_of_ne hkey, hk, beq_false_of_ne hkey]
        exact ih
      · rw [if_neg hk, List.lookup_cons, ih]

theorem lookup_put (members : List (κ × α)) (key key' : κ) (x : α) :
    (put members key x).lookup key' = if key' = key then some x else members.lookup key' := by
  unfold put
  by_cases hany : members.any (·.1 = key)
  · rw [if_pos hany, lookup_map_put]
    by_cases hkey : key' = key
    · obtain ⟨m, hm, heq⟩ := List.any_eq_true.mp hany
      have hsome : (members.lookup key').isSome := by
        rw [List.lookup_isSome_iff]
        exact ⟨m, hm, beq_of_eq (hkey.trans (of_decide_eq_true heq).symm)⟩
      obtain ⟨y, hy⟩ := Option.isSome_iff_exists.mp hsome
      rw [if_pos hkey, if_pos hkey, hy]
      rfl
    · rw [if_neg hkey, if_neg hkey]
  · rw [if_neg hany, List.lookup_append]
    by_cases hkey : key' = key
    · have hnone : members.lookup key' = none := by
        rw [List.lookup_eq_none_iff]
        intro m hm
        exact bne_iff_ne.mpr fun heq => hany (List.any_eq_true.mpr ⟨m, hm, decide_eq_true (heq.symm.trans hkey)⟩)
      rw [hnone, if_pos hkey, hkey]
      simp
    · rw [if_neg hkey, List.lookup_cons, beq_false_of_ne hkey]
      simp

end put

namespace Py

/-- An object with these members. -/
def obj (members : List (Text × Py)) : Py := .dict (members.map fun m => (keyOf m.1, m.2))

/-- `bool(x)`. -/
def truthy : Py → Bool
  | .null => false
  | .bool b => b
  | .int n => n ≠ 0
  | .float x => x ≠ .fin 0
  | .str s => s ≠ []
  | .list xs => !xs.isEmpty
  | .dict members => !members.isEmpty

/-- `x or y`. -/
def or (x y : Py) : Py := if x.truthy then x else y

/-- The members of an object. -/
def members : Py → List (Key × Py)
  | .dict members => members
  | _ => []

/-- `x.get(key, default)`. -/
def get (x : Py) (key : Text) (default : Py) : Except PyError Py :=
  match x with
  | .dict members => .ok ((members.lookup (keyOf key)).getD default)
  | _ => .error .attributeError

/-- `x.items()`. -/
def items : Py → Except PyError (List (Key × Py))
  | .dict members => .ok members
  | _ => .error .attributeError

/-- `tuple(x)`. -/
def tuple : Py → Except PyError (List Py)
  | .list xs => .ok xs
  | .str s => .ok (s.map fun c => .str [c])
  | .dict members => .ok (members.map fun m => .str (m.1.map charOf))
  | _ => .error .typeError

/-- `float(x)`. -/
def toFloat : Py → Except PyError PyFloat
  | .bool b => .ok (.fin (if b then 1 else 0))
  | .int n => if floatLimit ≤ |(n : ℚ)| then .error .overflowError else .ok (.fin n)
  | .float x => .ok x
  | .str s =>
    match floatOf? s with
    | some x => .ok x
    | none => .error .valueError
  | .null | .list _ | .dict _ => .error .typeError

/-- `int(q)`: towards zero. -/
def truncate (q : ℚ) : Int := if 0 ≤ q then ⌊q⌋ else ⌈q⌉

/-- `int(x)`. -/
def toInt : Py → Except PyError Int
  | .bool b => .ok (if b then 1 else 0)
  | .int n => .ok n
  | .float (.fin q) => .ok (truncate q)
  | .float .nan => .error .valueError
  | .float (.inf _) => .error .overflowError
  | .str s =>
    match intOf? s with
    | some n => .ok n
    | none => .error .valueError
  | .null | .list _ | .dict _ => .error .typeError

end Py

/-! ### Verdicts -/

/-- What becomes of a computation under an `except` clause. -/
inductive Verdict
  | fine | caught | escapes
  deriving DecidableEq, Repr

/-- The first that is not fine. -/
def Verdict.seq : Verdict → Verdict → Verdict
  | .fine, v => v
  | v, _ => v

def Verdict.first (vs : List Verdict) : Verdict := vs.foldr Verdict.seq .fine

variable {α β : Type} (caught : PyError → Bool)

def verdict : Except PyError α → Verdict
  | .ok _ => .fine
  | .error e => if caught e then .caught else .escapes

variable {caught}

theorem verdict_bind {x : Except PyError α} {f : α → Except PyError β} {v : Verdict}
    (h : ∀ a, x = .ok a → verdict caught (f a) = v) : verdict caught (x >>= f) = (verdict caught x).seq v := by
  cases x with
  | ok a => exact h a rfl
  | error e =>
    show (if caught e then Verdict.caught else .escapes) = (if caught e then Verdict.caught else .escapes).seq v
    split <;> rfl

theorem Verdict.first_append (us vs : List Verdict) : first (us ++ vs) = (first us).seq (first vs) := by
  induction us with
  | nil => rfl
  | cons u us ih =>
    show u.seq (first (us ++ vs)) = (u.seq (first us)).seq (first vs)
    rw [ih]
    cases u <;> rfl

end FreqTrading.Lib
