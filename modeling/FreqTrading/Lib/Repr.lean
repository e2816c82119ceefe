import Mathlib.Data.List.Infix

/-!
# `repr` of a text, and where a word can stand in a text

`repr` of a Python string quotes it and escapes what cannot be printed. A text that is put together of parts
holds a word in one of the parts, or across a seam; no word stands across a seam of characters it does not
have (`infix_apart_iff`).
-/

namespace FreqTrading.Lib

/-! ### `repr` -/

/-- Beyond Latin-1: separators, format characters, surrogates and private use. Characters that no version of
Unicode has assigned are left out. -/
def unprintable : List (Nat × Nat) :=
  [(0x600, 0x605), (0x61c, 0x61c), (0x6dd, 0x6dd), (0x70f, 0x70f), (0x890, 0x891), (0x8e2, 0x8e2),
   (0x1680, 0x1680), (0x180e, 0x180e), (0x2000, 0x200f), (0x2028, 0x202f), (0x205f, 0x2064), (0x2066, 0x206f),
   (0x3000, 0x3000), (0xd800, 0xf8ff), (0xfeff, 0xfeff), (0xfff9, 0xfffb), (0x110bd, 0x110bd),
   (0x110cd, 0x110cd), (0x13430, 0x13438), (0x1bca0, 0x1bca3), (0x1d173, 0x1d17a), (0xe0001, 0xe0001),
   (0xe0020, 0xe007f), (0xf0000, 0xffffd), (0x100000, 0x10fffd)]

/-- `str.isprintable` of a character. -/
def printsItself (c : Char) : Bool :=
  if c.toNat < 256 then (32 ≤ c.toNat && c.toNat < 127) || (160 < c.toNat && c.toNat ≠ 173)
  else unprintable.all fun (low, high) => c.toNat < low || high < c.toNat

/-- The last `width` hexadecimal digits. -/
def hexDigits : Nat → Nat → List Char
  | 0, _ => []
  | width + 1, n => hexDigits width (n / 16) ++ [Nat.digitChar (n % 16)]

/-- A character of a string between these quotes. -/
def escape (quote c : Char) : List Char :=
  if c = quote ∨ c = '\\' then ['\\', c]
  else if c = '\t' then ['\\', 't']
  else if c = '\n' then ['\\', 'n']
  else if c = '\r' then ['\\', 'r']
  else if printsItself c then [c]
  else if c.toNat < 0x100 then '\\' :: 'x' :: hexDigits 2 c.toNat
  else if c.toNat < 0x10000 then '\\' :: 'u' :: hexDigits 4 c.toNat
  else '\\' :: 'U' :: hexDigits 8 c.toNat

def singleQuote : Char := Char.ofNat 39

def doubleQuote : Char := Char.ofNat 34

/-- `repr` of a string: in double quotes if it has single ones and no double ones. -/
def pyRepr (s : String) : String :=
  let cs := s.toList
  let quote := if singleQuote ∈ cs ∧ doubleQuote ∉ cs then doubleQuote else singleQuote
  String.ofList (quote :: cs.flatMap (escape quote) ++ [quote])

/-! ### Words -/

section Words

variable {α : Type*} {word xs ys seam : List α} {c : α}

theorem infix_append_cons_iff (hc : c ∉ word) : word <:+: xs ++ c :: ys ↔ word <:+: xs ∨ word <:+: ys := by
  constructor
  · rintro ⟨s, t, h⟩
    rw [List.append_assoc] at h
    rcases List.append_eq_append_iff.mp h with ⟨a, hxs, hrest⟩ | ⟨a, hs, hrest⟩
    · rcases List.append_eq_append_iff.mp hrest with ⟨d, ha, ht⟩ | ⟨d, hword, ht⟩
      · refine Or.inl ⟨s, d, ?_⟩
        rw [hxs, ha, List.append_assoc]
      · cases d with
        | nil =>
          refine Or.inl ⟨s, [], ?_⟩
          rw [hxs, hword]
          simp
        | cons e d =>
          obtain ⟨rfl, -⟩ : c = e ∧ ys = d ++ t := by simpa using ht
          exact absurd (hword ▸ by simp) hc
    · cases a with
      | nil =>
        cases word with
        | nil => exact Or.inl (List.nil_infix)
        | cons e word =>
          obtain ⟨rfl, -⟩ : c = e ∧ ys = word ++ t := by simpa using hrest
          exact absurd List.mem_cons_self hc
      | cons e a =>
        obtain ⟨rfl, hys⟩ : c = e ∧ ys = a ++ (word ++ t) := by simpa using hrest
        exact Or.inr ⟨a, t, by rw [hys, List.append_assoc]⟩
  · rintro (h | h)
    · exact h.trans (List.prefix_append _ _).isInfix
    · exact h.trans ((List.suffix_cons _ _).isInfix.trans (List.suffix_append _ _).isInfix)

theorem infix_append_of_disjoint (hword : word ≠ []) (h : ∀ c ∈ seam, c ∉ word) :
    word <:+: seam ++ ys ↔ word <:+: ys := by
  induction seam with
  | nil => rfl
  | cons c seam ih =>
    have hcons : word <:+: [] ++ c :: (seam ++ ys) ↔ word <:+: [] ∨ word <:+: seam ++ ys :=
      infix_append_cons_iff (h c List.mem_cons_self)
    have hnil : ¬ word <:+: ([] : List α) := by simpa using hword
    rw [List.cons_append, ← List.nil_append (c :: (seam ++ ys)), hcons, or_iff_right hnil]
    exact ih fun c hc => h c (List.mem_cons_of_mem _ hc)

/-- No word stands across a seam of characters it does not have. -/
theorem infix_apart_iff (hword : word ≠ []) (hseam : seam ≠ []) (h : ∀ c ∈ seam, c ∉ word) :
    word <:+: xs ++ (seam ++ ys) ↔ word <:+: xs ∨ word <:+: ys := by
  cases seam with
  | nil => exact absurd rfl hseam
  | cons c seam =>
    rw [List.cons_append, infix_append_cons_iff (h c List.mem_cons_self),
      infix_append_of_disjoint hword fun c hc => h c (List.mem_cons_of_mem _ hc)]

/-- A word of a text that is made of labels and values, where no label has a character of the word, stands in
one of the values. -/
theorem infix_labelled_iff (hword : word ≠ []) (parts : List (List α × List α))
    (h : ∀ p ∈ parts, p.1 ≠ [] ∧ ∀ c ∈ p.1, c ∉ word) :
    (word <:+: parts.flatMap fun p => p.1 ++ p.2) ↔ ∃ p ∈ parts, word <:+: p.2 := by
  induction parts with
  | nil => simpa using hword
  | cons p parts ih =>
    have hp := h p List.mem_cons_self
    have hrest := ih fun q hq => h q (List.mem_cons_of_mem _ hq)
    rw [List.flatMap_cons, List.append_assoc, infix_append_of_disjoint hword hp.2]
    cases parts with
    | nil => simp
    | cons q parts =>
      have hq := h q (List.mem_cons_of_mem _ List.mem_cons_self)
      rw [List.flatMap_cons, List.append_assoc, infix_append_of_disjoint hword hq.2] at hrest
      rw [List.flatMap_cons, List.append_assoc, infix_apart_iff hword hq.1 hq.2, hrest]
      simp

end Words

end FreqTrading.Lib
