import FreqTrading.Lib.Json
import FreqTrading.Lib.Python

/-!
# Reading a JSON file

`json.load` of a file opened as UTF-8, from its bytes to a Python value or the exception it raises. The reader goes
from left to right as the scanner of `json` does, so that of two faults the first decides: a syntax error or an
integer with too many digits is a `ValueError`, and an object or array nested deeper than the recursion limit lets
through is a `RecursionError`. A key keeps its lone surrogates (`Str.points`); in a string that is a value they are read
as the replacement character.
-/

namespace FreqTrading.Lib.Json

/-! ### Strings and numbers -/

def hexDigit (c : Char) : Nat :=
  if c.isDigit then c.toNat - '0'.toNat
  else if 'a' ≤ c then c.toNat - 'a'.toNat + 10
  else c.toNat - 'A'.toNat + 10

/-- The character that a short escape stands for. -/
def shortChar : Char → Char
  | 'b' => Char.ofNat 8
  | 'f' => Char.ofNat 12
  | 'n' => '\n'
  | 'r' => '\r'
  | 't' => '\t'
  | c => c

/-- The UTF-16 code unit of a piece. -/
def Piece.unit : Piece → Nat
  | .plain c _ => c.toNat
  | .short c _ => (shortChar c).toNat
  | .code a b c d _ => ((hexDigit a * 16 + hexDigit b) * 16 + hexDigit c) * 16 + hexDigit d

/-- The code points of UTF-16 code units; half of a character without its other half stays a code point of its own. -/
def joinUnits : List Nat → Key
  | [] => []
  | [u] => [u]
  | u :: v :: us =>
    if 55296 ≤ u ∧ u < 56320 ∧ 56320 ≤ v ∧ v < 57344 then (65536 + (u - 55296) * 1024 + (v - 56320)) :: joinUnits us
    else u :: joinUnits (v :: us)

def Str.points (s : Str) : Key := joinUnits (s.map Piece.unit)

def Str.chars (s : Str) : Text := s.points.map charOf

/-- The value of an atom. -/
def atomOf (cs : Text) : Except PyError Py :=
  if cs = "null".toList then .ok .null
  else if cs = "true".toList then .ok (.bool true)
  else if cs = "false".toList then .ok (.bool false)
  else if cs = "NaN".toList then .ok (.float .nan)
  else if cs = "Infinity".toList then .ok (.float (.inf false))
  else if cs = "-Infinity".toList then .ok (.float (.inf true))
  else if ¬isNumber cs then .error .valueError
  else
    let (negative, ds) := takeSign cs
    if ds.all Char.isDigit then
      if ds.length ≤ maxStrDigits then .ok (.int (if negative then -(natOf ds : Int) else natOf ds))
      else .error .valueError
    else
      match decimal? ds with
      | some q => .ok (.float (.ofRat (if negative then -q else q)))
      | none => .error .valueError

/-! ### The scanner -/

/-- The members as a `dict`: of members with one key, the last. -/
def dictOf (members : List (Key × Py)) : Py := .dict (members.foldl (fun d m => put d m.1 m.2) [])

mutual

/-- A value at the head of a text, and the text after it. The first number bounds the work, the second how deep objects
and arrays may still nest. -/
def scanValue : Nat → Nat → Text → Except PyError (Py × Text)
  | 0, _, _ => .error .valueError
  | n + 1, depth, cs =>
    match skipSpace cs with
    | '"' :: cs =>
      match strBody cs with
      | some (s, rest) => .ok (.str s.chars, rest)
      | none => .error .valueError
    | '[' :: cs =>
      match depth with
      | 0 => .error .recursionError
      | depth + 1 =>
        match skipSpace cs with
        | ']' :: rest => .ok (.list [], rest)
        | cs => (scanElements n depth cs).map fun (xs, rest) => (.list xs, rest)
    | '{' :: cs =>
      match depth with
      | 0 => .error .recursionError
      | depth + 1 =>
        match skipSpace cs with
        | '}' :: rest => .ok (.dict [], rest)
        | cs => (scanMembers n depth cs).map fun (ms, rest) => (dictOf ms, rest)
    | cs => (atomOf (cs.takeWhile isBare)).map fun x => (x, cs.dropWhile isBare)

/-- The elements of an array, up to its bracket. -/
def scanElements : Nat → Nat → Text → Except PyError (List Py × Text)
  | 0, _, _ => .error .valueError
  | n + 1, depth, cs =>
    match scanValue n depth cs with
    | .error e => .error e
    | .ok (x, cs) =>
      match skipSpace cs with
      | ']' :: rest => .ok ([x], rest)
      | ',' :: cs => (scanElements n depth cs).map fun (xs, rest) => (x :: xs, rest)
      | _ => .error .valueError

/-- The members of an object, up to its brace. -/
def scanMembers : Nat → Nat → Text → Except PyError (List (Key × Py) × Text)
  | 0, _, _ => .error .valueError
  | n + 1, depth, cs =>
    match skipSpace cs with
    | '"' :: cs =>
      match strBody cs with
      | none => .error .valueError
      | some (k, cs) =>
        match skipSpace cs with
        | ':' :: cs =>
          match scanValue n depth cs with
          | .error e => .error e
          | .ok (x, cs) =>
            match skipSpace cs with
            | '}' :: rest => .ok ([(k.points, x)], rest)
            | ',' :: cs => (scanMembers n depth cs).map fun (ms, rest) => ((k.points, x) :: ms, rest)
            | _ => .error .valueError
        | _ => .error .valueError
    | _ => .error .valueError

end

/-- `json.loads`, with the depth at which the interpreter gives up. -/
def parse (limit : Nat) (cs : Text) : Except PyError Py :=
  match scanValue (2 * cs.length + 1) limit cs with
  | .error e => .error e
  | .ok (x, rest) => if skipSpace rest = [] then .ok x else .error .valueError

/-- `json.load` of a file with these bytes. -/
def load (limit : Nat) (bytes : List UInt8) : Except PyError Py :=
  match String.fromUTF8? ⟨bytes.toArray⟩ with
  | none => .error .valueError
  | some text => parse limit text.toList

/-! ### The bound on the work is never met -/

theorem skipSpace_length (cs : Text) : (skipSpace cs).length ≤ cs.length := (List.dropWhile_sublist _).length_le

theorem length_of_skipSpace {cs rest : Text} {c : Char} (h : skipSpace cs = c :: rest) : rest.length < cs.length := by
  have hle := skipSpace_length cs
  rw [h] at hle
  exact hle

theorem strBody_length {cs : Text} {s : Str} {rest : Text} (h : strBody cs = some (s, rest)) : rest.length < cs.length := by
  fun_induction strBody cs generalizing s rest with
  | case1 => cases h
  | case2 => cases h; simp
  | case3 a b c d cs hhex ih =>
    obtain ⟨⟨s', rest'⟩, hs, heq⟩ := Option.map_eq_some_iff.mp h
    cases heq
    have := ih hs
    simp only [List.length_cons]
    omega
  | case4 => cases h
  | case5 c cs hcode hshort ih =>
    obtain ⟨⟨s', rest'⟩, hs, heq⟩ := Option.map_eq_some_iff.mp h
    cases heq
    have := ih hs
    simp only [List.length_cons]
    omega
  | case6 => cases h
  | case7 c cs hquote hcode hshort hplain ih =>
    obtain ⟨⟨s', rest'⟩, hs, heq⟩ := Option.map_eq_some_iff.mp h
    cases heq
    exact Nat.lt_succ_of_lt (ih hs)
  | case8 => cases h
  | case9 c cs hquote hcode hshort hplain hcontrol ih =>
    obtain ⟨⟨s', rest'⟩, hs, heq⟩ := Option.map_eq_some_iff.mp h
    cases heq
    exact Nat.lt_succ_of_lt (ih hs)

theorem atom_length {cs : Text} {x : Py} (h : atomOf (cs.takeWhile isBare) = .ok x) :
    (cs.dropWhile isBare).length < cs.length := by
  cases cs with
  | nil => cases h
  | cons c cs =>
    by_cases hbare : isBare c = true
    · rw [List.dropWhile_cons_of_pos hbare]
      exact Nat.lt_succ_of_le (List.dropWhile_sublist _).length_le
    · rw [List.takeWhile_cons_of_neg hbare] at h
      cases h

theorem map_ok {α β : Type} {r : Except PyError (α × Text)} {f : α → β} {y : β} {rest : Text}
    (h : (r.map fun (x, rest) => (f x, rest)) = .ok (y, rest)) : ∃ x, r = .ok (x, rest) ∧ f x = y := by
  cases r with
  | error e => cases h
  | ok a =>
    cases h
    exact ⟨a.1, rfl, rfl⟩

section consumes

variable {n depth : Nat} {cs rest : Text}

/-- Under the bound `n` what is read is not empty. -/
structure Consumes (n : Nat) : Prop where
  value : ∀ {depth cs x rest}, scanValue n depth cs = .ok (x, rest) → rest.length < cs.length
  elements : ∀ {depth cs xs rest}, scanElements n depth cs = .ok (xs, rest) → rest.length < cs.length
  members : ∀ {depth cs ms rest}, scanMembers n depth cs = .ok (ms, rest) → rest.length < cs.length

theorem Consumes.scanValue {x : Py} (ih : Consumes n) (h : Json.scanValue (n + 1) depth cs = .ok (x, rest)) :
    rest.length < cs.length := by
  rw [Json.scanValue] at h
  split at h
  · -- a string
    next hcs =>
    split at h
    · next hs =>
      cases h
      exact (strBody_length hs).trans (length_of_skipSpace hcs)
    · cases h
  · -- an array
    next cs' hcs =>
    split at h
    · cases h
    · split at h
      · next hclose =>
        cases h
        exact (length_of_skipSpace hclose).trans (length_of_skipSpace hcs)
      · obtain ⟨xs, hxs, _⟩ := map_ok h
        exact ((ih.elements hxs).trans_le (skipSpace_length cs')).trans (length_of_skipSpace hcs)
  · -- an object
    next cs' hcs =>
    split at h
    · cases h
    · split at h
      · next hclose =>
        cases h
        exact (length_of_skipSpace hclose).trans (length_of_skipSpace hcs)
      · obtain ⟨ms, hms, _⟩ := map_ok h
        exact ((ih.members hms).trans_le (skipSpace_length cs')).trans (length_of_skipSpace hcs)
  · -- an atom
    cases hatom : atomOf ((skipSpace cs).takeWhile isBare) with
    | error e =>
      rw [hatom] at h
      cases h
    | ok y =>
      rw [hatom] at h
      cases h
      exact (atom_length hatom).trans_le (skipSpace_length cs)

theorem Consumes.scanElements {xs : List Py} (ih : Consumes n)
    (h : Json.scanElements (n + 1) depth cs = .ok (xs, rest)) : rest.length < cs.length := by
  rw [Json.scanElements] at h
  split at h
  · cases h
  · next x cs' hvalue =>
    have hlt := ih.value hvalue
    split at h
    · next hclose =>
      cases h
      exact (length_of_skipSpace hclose).trans hlt
    · next hcomma =>
      obtain ⟨ys, hys, _⟩ := map_ok h
      exact ((ih.elements hys).trans (length_of_skipSpace hcomma)).trans hlt
    · cases h

theorem Consumes.scanMembers {ms : List (Key × Py)} (ih : Consumes n)
    (h : Json.scanMembers (n + 1) depth cs = .ok (ms, rest)) : rest.length < cs.length := by
  rw [Json.scanMembers] at h
  split at h
  · next cs1 hquote =>
    split at h
    · cases h
    · next k cs2 hkey =>
      have hkeyed := (strBody_length hkey).trans (length_of_skipSpace hquote)
      split at h
      · next cs3 hcolon =>
        split at h
        · cases h
        · next x cs4 hvalue =>
          have hlt := ((ih.value hvalue).trans (length_of_skipSpace hcolon)).trans hkeyed
          split at h
          · next hclose =>
            cases h
            exact (length_of_skipSpace hclose).trans hlt
          · next hcomma =>
            obtain ⟨ys, hys, _⟩ := map_ok h
            exact ((ih.members hys).trans (length_of_skipSpace hcomma)).trans hlt
          · cases h
      · cases h
  · cases h

theorem scan_consumes (n : Nat) : Consumes n := by
  induction n with
  | zero =>
    refine ⟨?_, ?_, ?_⟩
    all_goals
      intro _ _ _ _ h
      cases h
  | succ n ih => exact ⟨ih.scanValue, ih.scanElements, ih.scanMembers⟩

end consumes

section bound

variable {n m depth : Nat} {cs : Text}

/-- The bounds `n` and `m` make no difference on a text that is short for them. -/
structure SameScan (n m : Nat) : Prop where
  value : ∀ {depth cs}, 2 * cs.length < n → 2 * cs.length < m → scanValue n depth cs = scanValue m depth cs
  elements : ∀ {depth cs}, 2 * cs.length + 1 < n → 2 * cs.length + 1 < m →
    scanElements n depth cs = scanElements m depth cs
  members : ∀ {depth cs}, 2 * cs.length + 1 < n → 2 * cs.length + 1 < m →
    scanMembers n depth cs = scanMembers m depth cs

theorem SameScan.scanValue (ih : SameScan n m) (hn : 2 * cs.length < n + 1) (hm : 2 * cs.length < m + 1) :
    Json.scanValue (n + 1) depth cs = Json.scanValue (m + 1) depth cs := by
  rw [Json.scanValue, Json.scanValue]
  split
  · rfl
  · next cs' hcs =>
    have hlt := length_of_skipSpace hcs
    have hinner := skipSpace_length cs'
    split
    · rfl
    · split
      · rfl
      · rw [ih.elements (by omega) (by omega)]
  · next cs' hcs =>
    have hlt := length_of_skipSpace hcs
    have hinner := skipSpace_length cs'
    split
    · rfl
    · split
      · rfl
      · rw [ih.members (by omega) (by omega)]
  · rfl

theorem SameScan.scanElements (ih : SameScan n m) (hn : 2 * cs.length + 1 < n + 1) (hm : 2 * cs.length + 1 < m + 1) :
    Json.scanElements (n + 1) depth cs = Json.scanElements (m + 1) depth cs := by
  rw [Json.scanElements, Json.scanElements, ih.value (by omega) (by omega)]
  cases hvalue : Json.scanValue m depth cs with
  | error e => rfl
  | ok r =>
    obtain ⟨x, cs'⟩ := r
    have hlt := (scan_consumes m).value hvalue
    simp only
    split
    · rfl
    · next hcomma =>
      have hrest := length_of_skipSpace hcomma
      rw [ih.elements (by omega) (by omega)]
    · rfl

theorem SameScan.scanMembers (ih : SameScan n m) (hn : 2 * cs.length + 1 < n + 1) (hm : 2 * cs.length + 1 < m + 1) :
    Json.scanMembers (n + 1) depth cs = Json.scanMembers (m + 1) depth cs := by
  rw [Json.scanMembers, Json.scanMembers]
  split
  · next cs1 hquote =>
    have hquoted := length_of_skipSpace hquote
    split
    · rfl
    · next k cs2 hkey =>
      have hkeyed := strBody_length hkey
      split
      · next cs3 hcolon =>
        have hvalued := length_of_skipSpace hcolon
        rw [ih.value (by omega) (by omega)]
        cases hvalue : Json.scanValue m depth cs3 with
        | error e => rfl
        | ok r =>
          obtain ⟨x, cs4⟩ := r
          have hlt := (scan_consumes m).value hvalue
          simp only
          split
          · rfl
          · next hcomma =>
            have hrest := length_of_skipSpace hcomma
            rw [ih.members (by omega) (by omega)]
          · rfl
      · rfl
  · rfl

/-- **The bound does not matter** from twice the length of the text on. -/
theorem scan_bound (n m : Nat) : SameScan n m := by
  induction n generalizing m with
  | zero => exact ⟨by omega, by omega, by omega⟩
  | succ n ih =>
    cases m with
    | zero => exact ⟨by omega, by omega, by omega⟩
    | succ m => exact ⟨(ih m).scanValue, (ih m).scanElements, (ih m).scanMembers⟩

end bound

/-- `parse` reads as far as there is text. -/
theorem parse_bound (limit : Nat) (cs : Text) {n : Nat} (hn : 2 * cs.length < n) :
    parse limit cs =
      match scanValue n limit cs with
      | .error e => .error e
      | .ok (x, rest) => if skipSpace rest = [] then .ok x else .error .valueError := by
  unfold parse
  rw [(scan_bound _ n).value (Nat.lt_succ_self _) hn]

/-! ### What reading raises -/

/-- A fault of the reader. -/
def IsFault (e : PyError) : Prop := e = .valueError ∨ e = .recursionError

/-- What `atomOf` gives: a `ValueError`, or a value that is no object. -/
def AtomAnswer (r : Except PyError Py) : Prop := r = .error .valueError ∨ ∃ x, r = .ok x ∧ ∀ members, x ≠ .dict members

theorem atomAnswer_error : AtomAnswer (.error .valueError) := Or.inl rfl

theorem atomAnswer_ok {x : Py} (h : ∀ members, x ≠ .dict members) : AtomAnswer (.ok x) := Or.inr ⟨x, rfl, h⟩

theorem AtomAnswer.ite {p : Prop} [Decidable p] {r s : Except PyError Py} (hr : AtomAnswer r) (hs : AtomAnswer s) :
    AtomAnswer (if p then r else s) := by
  by_cases hp : p
  · rwa [if_pos hp]
  · rwa [if_neg hp]

theorem atomOf_answer (cs : Text) : AtomAnswer (atomOf cs) := by
  unfold atomOf
  -- the words give values
  iterate 6 refine AtomAnswer.ite (atomAnswer_ok (by simp)) ?_
  refine AtomAnswer.ite atomAnswer_error ?_
  refine AtomAnswer.ite (AtomAnswer.ite (atomAnswer_ok (by simp)) atomAnswer_error) ?_
  split
  · exact atomAnswer_ok (by simp)
  · exact atomAnswer_error

theorem atomOf_fault {cs : Text} {e : PyError} (h : atomOf cs = .error e) : IsFault e := by
  rcases atomOf_answer cs with hfault | ⟨x, hvalue, -⟩
  · rw [h] at hfault
    cases hfault
    exact Or.inl rfl
  · rw [h] at hvalue
    cases hvalue

theorem map_fault {α β : Type} {r : Except PyError α} {f : α → β} {e : PyError} (h : r.map f = .error e) :
    r = .error e := by
  cases r with
  | error e' =>
    cases h
    rfl
  | ok a => cases h

section faults

variable {n depth : Nat} {cs : Text} {e : PyError}

/-- Under the bound `n` the scanner raises nothing else. -/
structure Faults (n : Nat) : Prop where
  value : ∀ {depth cs e}, scanValue n depth cs = .error e → IsFault e
  elements : ∀ {depth cs e}, scanElements n depth cs = .error e → IsFault e
  members : ∀ {depth cs e}, scanMembers n depth cs = .error e → IsFault e

theorem Faults.scanValue (ih : Faults n) (h : Json.scanValue (n + 1) depth cs = .error e) : IsFault e := by
  rw [Json.scanValue] at h
  split at h
  · -- a string
    split at h
    · cases h
    · cases h
      exact Or.inl rfl
  · -- an array
    split at h
    · cases h
      exact Or.inr rfl
    · split at h
      · cases h
      · exact ih.elements (map_fault h)
  · -- an object
    split at h
    · cases h
      exact Or.inr rfl
    · split at h
      · cases h
      · exact ih.members (map_fault h)
  · exact atomOf_fault (map_fault h)

theorem Faults.scanElements (ih : Faults n) (h : Json.scanElements (n + 1) depth cs = .error e) : IsFault e := by
  rw [Json.scanElements] at h
  split at h
  · next hvalue =>
    cases h
    exact ih.value hvalue
  · split at h
    · cases h
    · exact ih.elements (map_fault h)
    · cases h
      exact Or.inl rfl

theorem Faults.scanMembers (ih : Faults n) (h : Json.scanMembers (n + 1) depth cs = .error e) : IsFault e := by
  rw [Json.scanMembers] at h
  split at h
  · split at h
    · cases h
      exact Or.inl rfl
    · split at h
      · split at h
        · next hvalue =>
          cases h
          exact ih.value hvalue
        · split at h
          · cases h
          · exact ih.members (map_fault h)
          · cases h
            exact Or.inl rfl
      · cases h
        exact Or.inl rfl
  · cases h
    exact Or.inl rfl

theorem scan_fault (n : Nat) : Faults n := by
  induction n with
  | zero =>
    refine ⟨?_, ?_, ?_⟩
    all_goals
      intro depth cs e h
      cases h
      exact Or.inl rfl
  | succ n ih => exact ⟨ih.scanValue, ih.scanElements, ih.scanMembers⟩

end faults

/-- Reading raises nothing but a `ValueError` or a `RecursionError`. -/
theorem load_fault {limit : Nat} {bytes : List UInt8} {e : PyError} (h : load limit bytes = .error e) : IsFault e := by
  unfold load at h
  split at h
  · cases h
    exact Or.inl rfl
  · unfold parse at h
    split at h
    · next hscan =>
      cases h
      exact (scan_fault _).value hscan
    · split at h
      · cases h
      · cases h
        exact Or.inl rfl

/-! ### Objects -/

/-- The bytes of a text in UTF-8. -/
def encode (cs : Text) : List UInt8 := cs.flatMap String.utf8EncodeChar

theorem encode_append (cs cs' : Text) : encode (cs ++ cs') = encode cs ++ encode cs' := List.flatMap_append

theorem encode_injective {cs cs' : Text} (h : encode cs = encode cs') : cs = cs' := by
  have hbytes : cs.utf8Encode = cs'.utf8Encode := congrArg List.toByteArray h
  rw [← String.toByteArray_ofList, ← String.toByteArray_ofList, String.toByteArray_inj] at hbytes
  simpa using congrArg String.toList hbytes

theorem atomOf_not_dict {cs : Text} {members : List (Key × Py)} : atomOf cs ≠ .ok (.dict members) := by
  intro h
  rcases atomOf_answer cs with hfault | ⟨x, hvalue, hdict⟩
  · rw [h] at hfault
    cases hfault
  · rw [h] at hvalue
    cases hvalue
    exact hdict members rfl

theorem parse_dict {limit : Nat} {cs : Text} {members : List (Key × Py)} (h : parse limit cs = .ok (.dict members)) :
    ∃ rest, skipSpace cs = '{' :: rest := by
  unfold parse at h
  split at h
  · cases h
  · next x rest hscan =>
    split at h
    · cases h
      rw [scanValue] at hscan
      split at hscan
      · split at hscan <;> cases hscan
      · split at hscan
        · cases hscan
        · split at hscan
          · cases hscan
          · obtain ⟨xs, _, hxs⟩ := map_ok hscan
            cases hxs
      · next hcs => exact ⟨_, hcs⟩
      · cases hatom : atomOf ((skipSpace cs).takeWhile isBare) with
        | error e => rw [hatom] at hscan; cases hscan
        | ok x =>
          rw [hatom] at hscan
          cases hscan
          exact absurd hatom atomOf_not_dict
    · cases h

theorem load_ok {limit : Nat} {bytes : List UInt8} {x : Py} (h : load limit bytes = .ok x) :
    ∃ cs, bytes = encode cs ∧ parse limit cs = .ok x := by
  unfold load at h
  split at h
  · cases h
  · next text htext =>
    refine ⟨text.toList, ?_, h⟩
    unfold String.fromUTF8? at htext
    split at htext
    · next hvalid =>
      cases htext
      have hbytes : (encode (String.fromUTF8 ⟨bytes.toArray⟩ hvalid).toList).toByteArray = ⟨bytes.toArray⟩ :=
        String.utf8Encode_toList
      have hlist := congrArg (fun b : ByteArray => b.data.toList) hbytes
      simpa [List.toList_data_toByteArray] using hlist.symm
    · cases htext

end FreqTrading.Lib.Json
