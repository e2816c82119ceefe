import Mathlib.Tactic.SplitIfs
import FreqTrading.Lib.Lines

/-!
# JSON texts

`dumps` and `loads` of Python's `json` with the default arguments, over texts as lists of characters. Values
are kept the way `dumps` writes them, so that no number or character has to be decoded: an atom (`null`,
`true`, a number) is its text, and a string is the pieces between its quotes, printable ASCII characters and
escapes. What was dumped is one line of printable ASCII (`dumps_printable`), and `loads` reads it back
(`loads_dumps`).
-/

namespace FreqTrading.Lib.Json

/-! ### Atoms -/

/-- A character of an atom. -/
def isBare (c : Char) : Bool := c.isAlphanum || c = '+' || c = '-' || c = '.'

/-- An exponent, if there is one, and nothing else. -/
def isExponent : Text → Bool
  | [] => true
  | e :: cs =>
    (e = 'e' || e = 'E') &&
      match cs with
      | '+' :: cs | '-' :: cs => cs ≠ [] && cs.all Char.isDigit
      | cs => cs ≠ [] && cs.all Char.isDigit

/-- A fraction, if there is one, and an exponent. -/
def isFraction : Text → Bool
  | '.' :: cs => cs.takeWhile Char.isDigit ≠ [] && isExponent (cs.dropWhile Char.isDigit)
  | cs => isExponent cs

/-- A number without its sign. -/
def isUnsigned (cs : Text) : Bool :=
  match cs.takeWhile Char.isDigit with
  | [] => false
  | '0' :: _ :: _ => false
  | _ => isFraction (cs.dropWhile Char.isDigit)

def isNumber : Text → Bool
  | '-' :: cs => isUnsigned cs
  | cs => isUnsigned cs

/-- The words `loads` reads. -/
def words : List Text :=
  ["null".toList, "true".toList, "false".toList, "NaN".toList, "Infinity".toList, "-Infinity".toList]

def isAtom (cs : Text) : Bool := cs ≠ [] && cs.all isBare && (words.contains cs || isNumber cs)

structure Atom where
  text : Text
  valid : isAtom text = true
  deriving DecidableEq, Repr

theorem Atom.ne_nil (a : Atom) : a.text ≠ [] := by
  have := a.valid
  simp only [isAtom, Bool.and_eq_true, decide_eq_true_eq] at this
  exact this.1.1

theorem Atom.bare (a : Atom) : ∀ c ∈ a.text, isBare c = true := by
  have := a.valid
  simp only [isAtom, Bool.and_eq_true, List.all_eq_true] at this
  exact this.1.2

/-! ### Strings -/

/-- A character that `dumps` writes as it is. -/
def isPlain (c : Char) : Bool := 32 ≤ c.toNat && c.toNat < 127 && c ≠ '"' && c ≠ '\\'

/-- The character after a backslash, other than `u`. -/
def isShort (c : Char) : Bool := "\"\\/bfnrt".toList.contains c

def isHex (c : Char) : Bool := c.isDigit || "abcdefABCDEF".toList.contains c

/-- What stands for a character, or for half of one, between the quotes of a string. -/
inductive Piece
  | plain (c : Char) (h : isPlain c = true)
  | short (c : Char) (h : isShort c = true)
  | code (a b c d : Char) (h : ([a, b, c, d].all isHex) = true)
  deriving DecidableEq, Repr

abbrev Str := List Piece

def Piece.text : Piece → Text
  | .plain c _ => [c]
  | .short c _ => ['\\', c]
  | .code a b c d _ => ['\\', 'u', a, b, c, d]

/-- The pieces of a text; a character that has none of its own is left out. -/
def Str.ofText (cs : Text) : Str := cs.filterMap fun c => if h : isPlain c = true then some (.plain c h) else none

def Str.quoted (s : Str) : Text := '"' :: (s.flatMap Piece.text ++ ['"'])

/-- The digit characters of a number below 16. -/
def hexChar (n : Nat) : Char := "0123456789abcdef".toList.getD (n % 16) '0'

theorem hexChar_isHex (n : Nat) : isHex (hexChar n) = true := by
  have h : ∀ k < 16, isHex ("0123456789abcdef".toList.getD k '0') = true := by decide
  exact h _ (Nat.mod_lt _ (by decide))

/-- The piece of a UTF-16 code unit. -/
def codeUnit (n : Nat) : Piece :=
  .code (hexChar (n / 4096)) (hexChar (n / 256)) (hexChar (n / 16)) (hexChar n) (by simp [hexChar_isHex])

/-- The pieces of a character that `dumps` escapes as UTF-16. -/
def escaped (c : Char) : Str :=
  if c.toNat < 65536 then [codeUnit c.toNat]
  else [codeUnit (55296 + (c.toNat - 65536) / 1024), codeUnit (56320 + (c.toNat - 65536) % 1024)]

/-- The rest of a string after its opening quote. -/
def strBody : Text → Option (Str × Text)
  | [] => none
  | '"' :: rest => some ([], rest)
  | '\\' :: 'u' :: a :: b :: c :: d :: rest =>
    if h : ([a, b, c, d].all isHex) = true then (strBody rest).map fun (s, rest) => (.code a b c d h :: s, rest)
    else none
  | '\\' :: c :: rest =>
    if h : isShort c = true then (strBody rest).map fun (s, rest) => (.short c h :: s, rest) else none
  | c :: rest =>
    if h : isPlain c = true then (strBody rest).map fun (s, rest) => (.plain c h :: s, rest)
    else if c.toNat < 32 ∨ c = '\\' then none
    else (strBody rest).map fun (s, rest) => (escaped c ++ s, rest)

theorem strBody_piece (u : Piece) (cs : Text) :
    strBody (u.text ++ cs) = (strBody cs).map fun (s, rest) => (u :: s, rest) := by
  cases u with
  | plain c h =>
    have hquote : c ≠ '"' := by rintro rfl; revert h; decide
    have hback : c ≠ '\\' := by rintro rfl; revert h; decide
    show strBody (c :: cs) = _
    rw [strBody]
    · rw [dif_pos h]
    · exact hquote
    · exact fun _ _ _ _ _ hc => absurd hc hback
    · exact fun _ _ hc => absurd hc hback
  | short c h =>
    have hu : c ≠ 'u' := by rintro rfl; revert h; decide
    show strBody ('\\' :: c :: cs) = _
    rw [strBody]
    · rw [dif_pos h]
    · exact fun _ _ _ _ _ hc => absurd hc hu
  | code a b c d h =>
    show strBody ('\\' :: 'u' :: a :: b :: c :: d :: cs) = _
    rw [strBody, dif_pos h]

theorem strBody_quoted (s : Str) (rest : Text) :
    strBody (s.flatMap Piece.text ++ '"' :: rest) = some (s, rest) := by
  induction s with
  | nil => rfl
  | cons u s ih => rw [List.flatMap_cons, List.append_assoc, strBody_piece, ih]; rfl

/-! ### Values -/

inductive Value
  | atom (a : Atom)
  | str (s : Str)
  | arr (xs : List Value)
  | obj (members : List (Str × Value))

mutual

def dumps : Value → Text
  | .atom a => a.text
  | .str s => s.quoted
  | .arr xs => '[' :: (dumpsElements xs ++ [']'])
  | .obj members => '{' :: (dumpsMembers members ++ ['}'])

def dumpsElements : List Value → Text
  | [] => []
  | [x] => dumps x
  | x :: y :: xs => dumps x ++ ',' :: ' ' :: dumpsElements (y :: xs)

def dumpsMembers : List (Str × Value) → Text
  | [] => []
  | [(k, x)] => k.quoted ++ ':' :: ' ' :: dumps x
  | (k, x) :: m :: members => k.quoted ++ ':' :: ' ' :: (dumps x ++ ',' :: ' ' :: dumpsMembers (m :: members))

end

/-- White space between tokens. -/
def isSpace (c : Char) : Bool := c = ' ' || c = '\t' || c = '\n' || c = '\r'

def skipSpace (cs : Text) : Text := cs.dropWhile isSpace

def readAtom (cs : Text) : Option (Value × Text) :=
  if h : isAtom (cs.takeWhile isBare) = true then some (.atom ⟨_, h⟩, cs.dropWhile isBare) else none

mutual

/-- A value at the head of a text, and the text after it. The number bounds the nesting. -/
def readValue : Nat → Text → Option (Value × Text)
  | 0, _ => none
  | n + 1, cs =>
    match skipSpace cs with
    | '"' :: cs => (strBody cs).map fun (s, rest) => (.str s, rest)
    | '[' :: cs =>
      match skipSpace cs with
      | ']' :: rest => some (.arr [], rest)
      | cs => (readElements n cs).map fun (xs, rest) => (.arr xs, rest)
    | '{' :: cs =>
      match skipSpace cs with
      | '}' :: rest => some (.obj [], rest)
      | cs => (readMembers n cs).map fun (ms, rest) => (.obj ms, rest)
    | cs => readAtom cs

/-- The elements of an array, up to its bracket. -/
def readElements : Nat → Text → Option (List Value × Text)
  | 0, _ => none
  | n + 1, cs =>
    match readValue n cs with
    | none => none
    | some (x, cs) =>
      match skipSpace cs with
      | ']' :: rest => some ([x], rest)
      | ',' :: cs => (readElements n cs).map fun (xs, rest) => (x :: xs, rest)
      | _ => none

/-- The members of an object, up to its brace. -/
def readMembers : Nat → Text → Option (List (Str × Value) × Text)
  | 0, _ => none
  | n + 1, cs =>
    match skipSpace cs with
    | '"' :: cs =>
      match strBody cs with
      | none => none
      | some (k, cs) =>
        match skipSpace cs with
        | ':' :: cs =>
          match readValue n cs with
          | none => none
          | some (x, cs) =>
            match skipSpace cs with
            | '}' :: rest => some ([(k, x)], rest)
            | ',' :: cs => (readMembers n cs).map fun (ms, rest) => ((k, x) :: ms, rest)
            | _ => none
        | _ => none
    | _ => none

end

def loads (cs : Text) : Option Value :=
  match readValue (cs.length + 1) cs with
  | some (x, rest) => if skipSpace rest = [] then some x else none
  | none => none

/-! ### Reading back what was dumped -/

/-- The text does not go on an atom. -/
def Delimited (rest : Text) : Prop := ∀ c ∈ rest.head?, isBare c = false

theorem skipSpace_cons {c : Char} (h : isSpace c = false) (cs : Text) : skipSpace (c :: cs) = c :: cs := by
  simp [skipSpace, h]

theorem skipSpace_space (cs : Text) : skipSpace (' ' :: cs) = skipSpace cs := by
  rw [skipSpace, List.dropWhile_cons_of_pos (by decide)]
  rfl

theorem readValue_space (n : Nat) (cs : Text) : readValue n (' ' :: cs) = readValue n cs := by
  cases n with
  | zero => rfl
  | succ n => rw [readValue, readValue, skipSpace_space]

theorem readElements_space (n : Nat) (cs : Text) : readElements n (' ' :: cs) = readElements n cs := by
  cases n with
  | zero => rfl
  | succ n => rw [readElements, readElements, readValue_space]

theorem readMembers_space (n : Nat) (cs : Text) : readMembers n (' ' :: cs) = readMembers n cs := by
  cases n with
  | zero => rfl
  | succ n => rw [readMembers, readMembers, skipSpace_space]

theorem isBare_facts {c : Char} (h : isBare c = true) :
    isSpace c = false ∧ c ≠ '"' ∧ c ≠ '[' ∧ c ≠ '{' ∧ c ≠ ']' ∧ c ≠ '}' := by
  refine ⟨?_, ?_, ?_, ?_, ?_, ?_⟩
  · by_contra hspace
    simp only [isSpace, Bool.not_eq_false, Bool.or_eq_true, decide_eq_true_eq] at hspace
    rcases hspace with ((rfl | rfl) | rfl) | rfl <;> revert h <;> decide
  all_goals (rintro rfl; revert h; decide)

theorem dumps_head (x : Value) :
    ∃ c cs, dumps x = c :: cs ∧ isSpace c = false ∧ c ≠ ']' := by
  cases x with
  | atom a =>
    obtain ⟨c, cs, hcs⟩ := List.exists_cons_of_ne_nil a.ne_nil
    obtain ⟨hspace, -, -, -, hclose, -⟩ := isBare_facts (a.bare c (by simp [hcs]))
    exact ⟨c, cs, by rw [dumps, hcs], hspace, hclose⟩
  | str s => exact ⟨_, _, by rw [dumps, Str.quoted], by decide, by decide⟩
  | arr xs => exact ⟨_, _, by rw [dumps], by decide, by decide⟩
  | obj ms => exact ⟨_, _, by rw [dumps], by decide, by decide⟩

theorem readAtom_dumps (a : Atom) {rest : Text} (h : Delimited rest) :
    readAtom (a.text ++ rest) = some (.atom a, rest) := by
  have htake : (a.text ++ rest).takeWhile isBare = a.text := by
    rw [List.takeWhile_append_of_pos a.bare]
    cases rest with
    | nil => simp
    | cons c cs => rw [List.takeWhile_cons_of_neg (by simp [h c rfl]), List.append_nil]
  have hdrop : (a.text ++ rest).dropWhile isBare = rest := by
    rw [List.dropWhile_append_of_pos a.bare]
    cases rest with
    | nil => rfl
    | cons c cs => rw [List.dropWhile_cons_of_neg (by simp [h c rfl])]
  unfold readAtom
  rw [dif_pos (by rw [htake]; exact a.valid)]
  simp only [htake, hdrop]

theorem readValue_atom (a : Atom) (n : Nat) {rest : Text} (h : Delimited rest) :
    readValue (n + 1) (a.text ++ rest) = some (.atom a, rest) := by
  obtain ⟨c, cs, hcs⟩ := List.exists_cons_of_ne_nil a.ne_nil
  obtain ⟨hspace, hquote, hbracket, hbrace, -⟩ := isBare_facts (a.bare c (by simp [hcs]))
  rw [← readAtom_dumps a h, hcs, List.cons_append, readValue, skipSpace_cons hspace]
  split <;> simp_all

theorem dumpsElements_head (x : Value) (xs : List Value) :
    ∃ c cs, dumpsElements (x :: xs) = c :: cs ∧ isSpace c = false ∧ c ≠ ']' := by
  obtain ⟨c, cs, hc, hspace, hclose⟩ := dumps_head x
  cases xs with
  | nil => exact ⟨c, cs, by rw [dumpsElements, hc], hspace, hclose⟩
  | cons y ys => exact ⟨c, _, by rw [dumpsElements, hc, List.cons_append], hspace, hclose⟩

theorem dumpsMembers_head (m : Str × Value) (ms : List (Str × Value)) :
    ∃ cs, dumpsMembers (m :: ms) = '"' :: cs := by
  cases ms with
  | nil => exact ⟨_, by rw [dumpsMembers, Str.quoted, List.cons_append]⟩
  | cons m' ms => exact ⟨_, by rw [dumpsMembers, Str.quoted, List.cons_append]⟩

theorem delimited_cons {c : Char} (h : isBare c = false) (cs : Text) : Delimited (c :: cs) := by
  intro d hd
  obtain rfl : c = d := by simpa using hd
  exact h

mutual

theorem readValue_dumps (x : Value) (n : Nat) (rest : Text) (hn : (dumps x).length < n)
    (hrest : Delimited rest) : readValue n (dumps x ++ rest) = some (x, rest) := by
  obtain ⟨n, rfl⟩ : ∃ k, n = k + 1 := ⟨n - 1, by omega⟩
  match x with
  | .atom a => rw [dumps]; exact readValue_atom a n hrest
  | .str s =>
    rw [dumps, Str.quoted, List.cons_append, readValue, skipSpace_cons (by decide)]
    simp [strBody_quoted]
  | .arr [] =>
    rw [dumps, dumpsElements, List.cons_append, readValue, skipSpace_cons (by decide)]
    simp [skipSpace_cons (show isSpace ']' = false by decide)]
  | .arr (y :: ys) =>
    rw [dumps] at hn ⊢
    have helements := readElements_dumps y ys n rest (by simp at hn; omega)
    obtain ⟨c, cs, hc, hspace, hclose⟩ := dumpsElements_head y ys
    rw [hc, List.cons_append] at helements
    rw [hc, List.cons_append, List.cons_append, List.cons_append, List.append_assoc, readValue,
      skipSpace_cons (by decide)]
    simp only [skipSpace_cons hspace, List.singleton_append]
    split
    · next heq => exact absurd (List.cons.inj heq).1 hclose
    · rw [helements]; rfl
  | .obj [] =>
    rw [dumps, dumpsMembers, List.cons_append, readValue, skipSpace_cons (by decide)]
    simp [skipSpace_cons (show isSpace '}' = false by decide)]
  | .obj (m :: ms) =>
    rw [dumps] at hn ⊢
    have hmembers := readMembers_dumps m ms n rest (by simp at hn; omega)
    obtain ⟨cs, hc⟩ := dumpsMembers_head m ms
    rw [hc, List.cons_append] at hmembers
    rw [hc, List.cons_append, List.cons_append, List.cons_append, List.append_assoc, readValue,
      skipSpace_cons (by decide)]
    simp only [skipSpace_cons (show isSpace '"' = false by decide), List.singleton_append]
    split
    · next heq => exact absurd (List.cons.inj heq).1 (by decide)
    · rw [hmembers]; rfl
termination_by n

theorem readElements_dumps (x : Value) (xs : List Value) (n : Nat) (rest : Text)
    (hn : (dumpsElements (x :: xs)).length + 1 < n) :
    readElements n (dumpsElements (x :: xs) ++ ']' :: rest) = some (x :: xs, rest) := by
  obtain ⟨n, rfl⟩ : ∃ k, n = k + 1 := ⟨n - 1, by omega⟩
  match xs with
  | [] =>
    rw [dumpsElements] at hn ⊢
    rw [readElements, readValue_dumps x n _ (by omega) (delimited_cons (by decide) rest)]
    simp only [skipSpace_cons (show isSpace ']' = false by decide)]
  | y :: ys =>
    rw [dumpsElements] at hn ⊢
    have hrec := readElements_dumps y ys n rest (by simp at hn; omega)
    rw [List.append_assoc, List.cons_append, List.cons_append, readElements,
      readValue_dumps x n _ (by simp at hn; omega) (delimited_cons (by decide) _)]
    simp only [skipSpace_cons (show isSpace ',' = false by decide), readElements_space, hrec, Option.map_some]
termination_by n

theorem readMembers_dumps (m : Str × Value) (ms : List (Str × Value)) (n : Nat) (rest : Text)
    (hn : (dumpsMembers (m :: ms)).length + 1 < n) :
    readMembers n (dumpsMembers (m :: ms) ++ '}' :: rest) = some (m :: ms, rest) := by
  obtain ⟨n, rfl⟩ : ∃ k, n = k + 1 := ⟨n - 1, by omega⟩
  obtain ⟨k, x⟩ := m
  have hquote : isSpace '"' = false := by decide
  have hcolon : isSpace ':' = false := by decide
  match ms with
  | [] =>
    rw [dumpsMembers, Str.quoted] at hn ⊢
    simp only [List.cons_append, List.append_assoc, List.nil_append] at hn ⊢
    rw [readMembers, skipSpace_cons hquote]
    simp only [strBody_quoted, skipSpace_cons hcolon, readValue_space]
    rw [readValue_dumps x n _ (by simp at hn; omega) (delimited_cons (by decide) rest)]
    simp only [skipSpace_cons (show isSpace '}' = false by decide)]
  | m' :: ms =>
    rw [dumpsMembers, Str.quoted] at hn ⊢
    have hrec := readMembers_dumps m' ms n rest (by simp at hn; omega)
    simp only [List.cons_append, List.append_assoc, List.nil_append] at hn ⊢
    rw [readMembers, skipSpace_cons hquote]
    simp only [strBody_quoted, skipSpace_cons hcolon, readValue_space]
    rw [readValue_dumps x n _ (by simp at hn; omega) (delimited_cons (by decide) _)]
    simp only [skipSpace_cons (show isSpace ',' = false by decide), readMembers_space, hrec, Option.map_some]
termination_by n

end

/-- **What was dumped is read back.** -/
theorem loads_dumps (x : Value) : loads (dumps x) = some x := by
  have h := readValue_dumps x ((dumps x).length + 1) [] (by omega) (by simp [Delimited])
  rw [List.append_nil] at h
  simp [loads, h, skipSpace]

theorem dumps_injective {x y : Value} (h : dumps x = dumps y) : x = y :=
  Option.some.inj ((loads_dumps x).symm.trans ((congrArg loads h).trans (loads_dumps y)))

instance : DecidableEq Value := fun x y =>
  decidable_of_iff (dumps x = dumps y) ⟨dumps_injective, congrArg dumps⟩

/-! ### One line of printable ASCII -/

def isPrintable (c : Char) : Bool := 32 ≤ c.toNat && c.toNat < 127

theorem printable_of_alphanum {c : Char} (h : c.isAlphanum = true) : isPrintable c = true := by
  delta Char.isAlphanum Char.isAlpha Char.isUpper Char.isLower Char.isDigit at h
  simp only [Bool.or_eq_true, Bool.and_eq_true, decide_eq_true_eq, ge_iff_le, UInt32.le_iff_toNat_le] at h
  simp only [isPrintable, Bool.and_eq_true, decide_eq_true_eq, Char.toNat]
  have hA : 'A'.val.toNat = 65 := rfl
  have hZ : 'Z'.val.toNat = 90 := rfl
  have ha : 'a'.val.toNat = 97 := rfl
  have hz : 'z'.val.toNat = 122 := rfl
  have h0 : '0'.val.toNat = 48 := rfl
  have h9 : '9'.val.toNat = 57 := rfl
  omega

theorem isBare_printable {c : Char} (h : isBare c = true) : isPrintable c = true := by
  simp only [isBare, Bool.or_eq_true, decide_eq_true_eq] at h
  rcases h with ((halnum | rfl) | rfl) | rfl
  · exact printable_of_alphanum halnum
  all_goals decide

theorem isHex_printable {c : Char} (h : isHex c = true) : isPrintable c = true := by
  have hletters : "abcdefABCDEF".toList.all isPrintable = true := by decide
  simp only [isHex, Bool.or_eq_true, List.contains_iff_mem] at h
  rcases h with hdigit | hletter
  · exact printable_of_alphanum (by simp [Char.isAlphanum, hdigit])
  · exact List.all_eq_true.mp hletters c hletter

theorem piece_printable (p : Piece) : ∀ c ∈ p.text, isPrintable c = true := by
  have hshort : "\"\\/bfnrt".toList.all isPrintable = true := by decide
  cases p with
  | plain c h =>
    simp only [isPlain, Bool.and_eq_true] at h
    simp only [Piece.text, List.forall_mem_singleton, isPrintable, Bool.and_eq_true]
    exact h.1.1
  | short c h =>
    simp only [isShort, List.contains_iff_mem] at h
    simp only [Piece.text, List.forall_mem_cons]
    exact ⟨by decide, List.all_eq_true.mp hshort c h, by simp⟩
  | code a b c d h =>
    simp only [List.all_cons, List.all_nil, Bool.and_true, Bool.and_eq_true] at h
    simp only [Piece.text, List.forall_mem_cons]
    exact ⟨by decide, by decide, isHex_printable h.1, isHex_printable h.2.1, isHex_printable h.2.2.1,
      isHex_printable h.2.2.2, by simp⟩

theorem quoted_printable (s : Str) : ∀ c ∈ s.quoted, isPrintable c = true := by
  intro c hc
  simp only [Str.quoted, List.mem_cons, List.mem_append, List.mem_flatMap, List.not_mem_nil, or_false] at hc
  rcases hc with rfl | ⟨p, -, hp⟩ | rfl
  · decide
  · exact piece_printable p c hp
  · decide

mutual

/-- **What was dumped is printable ASCII**, in particular one line. -/
theorem dumps_printable (x : Value) : ∀ c ∈ dumps x, isPrintable c = true := by
  intro c hc
  match x with
  | .atom a => rw [dumps] at hc; exact isBare_printable (a.bare c hc)
  | .str s => rw [dumps] at hc; exact quoted_printable s c hc
  | .arr xs =>
    simp only [dumps, List.mem_cons, List.mem_append, List.not_mem_nil, or_false] at hc
    rcases hc with rfl | hc | rfl
    · decide
    · exact dumpsElements_printable xs c hc
    · decide
  | .obj ms =>
    simp only [dumps, List.mem_cons, List.mem_append, List.not_mem_nil, or_false] at hc
    rcases hc with rfl | hc | rfl
    · decide
    · exact dumpsMembers_printable ms c hc
    · decide

theorem dumpsElements_printable (xs : List Value) : ∀ c ∈ dumpsElements xs, isPrintable c = true := by
  intro c hc
  match xs with
  | [] => simp [dumpsElements] at hc
  | [x] => rw [dumpsElements] at hc; exact dumps_printable x c hc
  | x :: y :: xs =>
    simp only [dumpsElements, List.mem_append, List.mem_cons] at hc
    rcases hc with hc | rfl | rfl | hc
    · exact dumps_printable x c hc
    · decide
    · decide
    · exact dumpsElements_printable (y :: xs) c hc

theorem dumpsMembers_printable (ms : List (Str × Value)) : ∀ c ∈ dumpsMembers ms, isPrintable c = true := by
  intro c hc
  match ms with
  | [] => simp [dumpsMembers] at hc
  | [(k, x)] =>
    simp only [dumpsMembers, List.mem_append, List.mem_cons] at hc
    rcases hc with hc | rfl | rfl | hc
    · exact quoted_printable k c hc
    · decide
    · decide
    · exact dumps_printable x c hc
  | (k, x) :: m :: ms =>
    simp only [dumpsMembers, List.mem_append, List.mem_cons] at hc
    rcases hc with hc | rfl | rfl | hc | rfl | rfl | hc
    · exact quoted_printable k c hc
    · decide
    · decide
    · exact dumps_printable x c hc
    · decide
    · decide
    · exact dumpsMembers_printable (m :: ms) c hc

end

/-! ### Natural numbers -/

theorem toDigits_head {n : Nat} (h : 0 < n) : (Nat.toDigits 10 n).head? ≠ some '0' := by
  induction n using Nat.strongRecOn with
  | _ n ih =>
    rw [Nat.toDigits_eq_if (by decide)]
    split
    · next hlt =>
      have hdigit : ∀ k < 10, 0 < k → k.digitChar ≠ '0' := by decide
      simpa using hdigit n hlt h
    · next hge =>
      rw [List.head?_append_of_ne_nil _ Nat.toDigits_ne_nil]
      exact ih (n / 10) (by omega) (by omega)

theorem isAtom_toDigits (n : Nat) : isAtom (Nat.toDigits 10 n) = true := by
  have hdigits : ∀ c ∈ Nat.toDigits 10 n, c.isDigit = true := fun c hc =>
    Nat.isDigit_of_mem_toDigits (by decide) (by decide) hc
  have hbare : (Nat.toDigits 10 n).all isBare = true := by
    rw [List.all_eq_true]
    intro c hc
    simp [isBare, Char.isAlphanum, hdigits c hc]
  have htake : (Nat.toDigits 10 n).takeWhile Char.isDigit = Nat.toDigits 10 n := by
    have happend := @List.takeWhile_append_of_pos _ _ _ [] hdigits
    simpa using happend
  have hdrop : (Nat.toDigits 10 n).dropWhile Char.isDigit = [] := by
    have happend := @List.dropWhile_append_of_pos _ _ _ [] hdigits
    simpa using happend
  have hunsigned : isUnsigned (Nat.toDigits 10 n) = true := by
    unfold isUnsigned
    rw [htake, hdrop]
    split
    · next hnil => exact absurd hnil Nat.toDigits_ne_nil
    · next hzero =>
      -- a leading zero stands alone
      rcases Nat.eq_zero_or_pos n with rfl | hpos
      · rw [Nat.toDigits_zero] at hzero
        cases hzero
      · exact absurd (by rw [hzero]; rfl) (toDigits_head hpos)
    · rfl
  have hnumber : isNumber (Nat.toDigits 10 n) = true := by
    unfold isNumber
    split
    · next hminus =>
      have := hdigits '-' (by rw [hminus]; simp)
      cases this
    · exact hunsigned
  simp [isAtom, Nat.toDigits_ne_nil, hbare, hnumber]

/-- A natural number. -/
def ofNat (n : Nat) : Value := .atom ⟨Nat.toDigits 10 n, isAtom_toDigits n⟩

/-- The natural number an `int` is, if it is one; `True` counts as 1. -/
def asNat : Value → Option Nat
  | .atom a =>
    if a.text = "true".toList then some 1
    else if a.text.all Char.isDigit then some (Nat.ofDigitChars 10 a.text 0) else none
  | _ => none

@[simp] theorem asNat_ofNat (n : Nat) : asNat (ofNat n) = some n := by
  have hdigits : ∀ c ∈ Nat.toDigits 10 n, c.isDigit = true := fun c hc =>
    Nat.isDigit_of_mem_toDigits (by decide) (by decide) hc
  have hword : Nat.toDigits 10 n ≠ "true".toList := by
    intro h
    have := hdigits 't' (by rw [h]; decide)
    cases this
  have hall : (Nat.toDigits 10 n).all Char.isDigit = true := List.all_eq_true.mpr hdigits
  simp only [asNat, ofNat, if_neg hword, if_pos hall, Nat.ofDigitChars_ten_toDigits]

/-! ### Members -/

/-- `members[key] = x`, in place or at the end. -/
def setMember (key : Str) (x : Value) (members : List (Str × Value)) : List (Str × Value) :=
  if members.any (·.1 = key) then members.map fun m => if m.1 = key then (key, x) else m
  else members ++ [(key, x)]

/-- `members.get(key)`; of members with one key, `loads` keeps the last value. -/
def member (key : Str) (members : List (Str × Value)) : Option Value :=
  (members.reverse.find? (·.1 = key)).map (·.2)

theorem find?_update_self (key : Str) (x : Value) {ms : List (Str × Value)} (h : ∃ m ∈ ms, m.1 = key) :
    ((ms.map fun m => if m.1 = key then (key, x) else m).find? (·.1 = key)).map (·.2) = some x := by
  induction ms with
  | nil => simp at h
  | cons m ms ih =>
    by_cases hm : m.1 = key
    · simp [hm]
    · have hrec := ih (by simpa [hm] using h)
      simpa [hm] using hrec

theorem find?_update_of_ne {key key' : Str} (h : key' ≠ key) (x : Value) (ms : List (Str × Value)) :
    ((ms.map fun m => if m.1 = key then (key, x) else m).find? (·.1 = key')).map (·.2) =
      (ms.find? (·.1 = key')).map (·.2) := by
  induction ms with
  | nil => rfl
  | cons m ms ih =>
    by_cases hm : m.1 = key
    · simpa [hm, Ne.symm h] using ih
    · by_cases hm' : m.1 = key'
      · simp [hm', h]
      · simpa [hm, hm'] using ih

theorem member_setMember (key : Str) (x : Value) (members : List (Str × Value)) :
    member key (setMember key x members) = some x := by
  unfold setMember member
  split
  · next hany =>
    rw [← List.map_reverse]
    exact find?_update_self key x (by simpa using hany)
  · simp

theorem member_setMember_of_ne {key key' : Str} (h : key' ≠ key) (x : Value) (members : List (Str × Value)) :
    member key' (setMember key x members) = member key' members := by
  unfold setMember member
  split
  · rw [← List.map_reverse]
    exact find?_update_of_ne h x _
  · simp [Ne.symm h]

end FreqTrading.Lib.Json
