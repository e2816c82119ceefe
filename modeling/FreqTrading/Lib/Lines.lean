import Mathlib.Data.List.Basic

/-!
# The lines of a text

A text is cut at the characters of a predicate `p`, and blank lines are left out. What ends in such a
character is `Terminated`: text after it starts a new line (`lines_append`), while text after anything else
goes on the last line.
-/

namespace FreqTrading.Lib

abbrev Text := List Char

/-- The line boundaries of `str.splitlines`. -/
def isBreak (c : Char) : Bool :=
  [10, 11, 12, 13, 28, 29, 30, 133, 8232, 8233].contains c.toNat

/-- The line ends of a file that is iterated over. -/
def isNewline (c : Char) : Bool := c = '\n' || c = '\r'

/-- What `str.strip` removes. -/
def isBlank (c : Char) : Bool :=
  (9 ≤ c.toNat && c.toNat ≤ 13) || (28 ≤ c.toNat && c.toNat ≤ 32) || (8192 ≤ c.toNat && c.toNat ≤ 8202) ||
    [133, 160, 5760, 8232, 8233, 8239, 8287, 12288].contains c.toNat

def strip (t : Text) : Text := ((t.dropWhile isBlank).reverse.dropWhile isBlank).reverse

theorem strip_eq {t : Text} (hhead : ∀ c ∈ t.head?, isBlank c = false) (hlast : ∀ c ∈ t.getLast?, isBlank c = false) :
    strip t = t := by
  have hkeep : ∀ {u : Text}, (∀ c ∈ u.head?, isBlank c = false) → u.dropWhile isBlank = u := by
    intro u hu
    cases u with
    | nil => rfl
    | cons c cs => simp [hu c (by simp)]
  rw [strip, hkeep hhead, hkeep (by simpa [List.head?_reverse] using hlast), List.reverse_reverse]

theorem strip_drops (t : Text) : strip t <+: t.dropWhile isBlank := by
  rw [strip, ← List.reverse_suffix, List.reverse_reverse]
  exact List.dropWhile_suffix _

theorem strip_within (t : Text) : strip t <:+: t :=
  (strip_drops t).isInfix.trans (List.dropWhile_suffix _).isInfix

theorem head?_strip (t : Text) : ∀ c ∈ (strip t).head?, isBlank c = false := by
  intro c hc
  obtain ⟨rest, hrest⟩ := strip_drops t
  have hhead := List.head?_dropWhile_not isBlank t
  rw [← hrest, List.head?_append, hc] at hhead
  exact hhead

theorem getLast?_strip (t : Text) : ∀ c ∈ (strip t).getLast?, isBlank c = false := by
  intro c hc
  have hhead := List.head?_dropWhile_not isBlank (t.dropWhile isBlank).reverse
  rw [strip, List.getLast?_reverse] at hc
  rw [hc] at hhead
  exact hhead

theorem strip_eq_iff {t : Text} :
    strip t = t ↔ (∀ c ∈ t.head?, isBlank c = false) ∧ ∀ c ∈ t.getLast?, isBlank c = false := by
  constructor
  · intro h
    have hhead := head?_strip t
    have hlast := getLast?_strip t
    rw [h] at hhead hlast
    exact ⟨hhead, hlast⟩
  · rintro ⟨hhead, hlast⟩
    exact strip_eq hhead hlast

variable {p : Char → Bool}

/-- The lines with anything on them. -/
def lines (p : Char → Bool) (t : Text) : List Text := (t.splitOnP p).filter fun line => !line.all isBlank

/-- Nothing is on an unfinished line. -/
def Terminated (p : Char → Bool) (t : Text) : Prop := ∀ c ∈ t.getLast?, p c = true

instance (p : Char → Bool) (t : Text) : Decidable (Terminated p t) :=
  decidable_of_iff (t.getLast?.all p = true) (Option.all_eq_true p _)

@[simp] theorem lines_nil : lines p [] = [] := by simp [lines, List.splitOnP_nil]

theorem terminated_nil : Terminated p [] := by simp [Terminated]

theorem terminated_concat (t : Text) {c : Char} (h : p c = true) : Terminated p (t ++ [c]) := by
  simp [Terminated, h]

theorem lines_break (xs ys : Text) {c : Char} (h : p c = true) :
    lines p (xs ++ c :: ys) = lines p xs ++ lines p ys := by
  rw [lines, List.splitOnP_append_cons xs ys h, List.filter_append]
  rfl

theorem lines_append {t : Text} (h : Terminated p t) (u : Text) : lines p (t ++ u) = lines p t ++ lines p u := by
  rcases List.eq_nil_or_concat t with rfl | ⟨t, c, rfl⟩
  · simp
  · have hc : p c = true := h c (by simp)
    rw [List.concat_eq_append, List.append_assoc, List.singleton_append, lines_break _ _ hc,
      lines_break t [] hc, lines_nil, List.append_nil]

theorem lines_single {t : Text} (hbreak : ∀ c ∈ t, p c = false) (hblank : ∃ c ∈ t, isBlank c = false) :
    lines p t = [t] := by
  obtain ⟨c, hc, hblank⟩ := hblank
  have hkeep : (!t.all isBlank) = true := by
    rw [Bool.not_eq_true', List.all_eq_false]
    exact ⟨c, hc, by simp [hblank]⟩
  rw [lines, List.splitOnP_eq_singleton hbreak]
  simp [hkeep]

theorem lines_line {t : Text} {c : Char} (hc : p c = true) (hbreak : ∀ d ∈ t, p d = false)
    (hblank : ∃ d ∈ t, isBlank d = false) : lines p (t ++ [c]) = [t] := by
  rw [lines_break t [] hc, lines_single hbreak hblank, lines_nil, List.append_nil]

/-! ### Texts made of lines -/

/-- A line that stays one: nothing in it ends it, and something is on it. -/
def IsLine (p : Char → Bool) (line : Text) : Prop := (∀ c ∈ line, p c = false) ∧ ∃ c ∈ line, isBlank c = false

theorem splitOnP_pieces (t : Text) : ∀ piece ∈ t.splitOnP p, ∀ c ∈ piece, p c = false := by
  induction t with
  | nil => simp [List.splitOnP_nil]
  | cons c t ih =>
    rw [List.splitOnP_cons_eq_if_modifyHead]
    split
    · intro piece hpiece
      rcases List.mem_cons.mp hpiece with rfl | hpiece
      · simp
      · exact ih piece hpiece
    · next hc =>
      intro piece hpiece d hd
      cases hsplit : t.splitOnP p with
      | nil => exact absurd hsplit (List.splitOnP_ne_nil _ _)
      | cons first others =>
        rw [hsplit] at hpiece ih
        rcases List.mem_cons.mp hpiece with rfl | hpiece
        · rcases List.mem_cons.mp hd with rfl | hd
          · simpa using hc
          · exact ih first (by simp) d hd
        · exact ih piece (by simp [hpiece]) d hd

theorem isLine_of_mem {t line : Text} (h : line ∈ lines p t) : IsLine p line := by
  obtain ⟨hpiece, hblank⟩ := List.mem_filter.mp h
  refine ⟨splitOnP_pieces t line hpiece, ?_⟩
  simpa using hblank

/-- The lines as a text, each with its end. -/
def joined (texts : List Text) : Text := texts.flatMap fun line => line ++ ['\n']

theorem joined_append (texts texts' : List Text) : joined (texts ++ texts') = joined texts ++ joined texts' :=
  List.flatMap_append

theorem joined_single (line : Text) : joined [line] = line ++ ['\n'] := by simp [joined]

theorem terminated_joined (hend : p '\n' = true) (texts : List Text) : Terminated p (joined texts) := by
  rcases List.eq_nil_or_concat texts with rfl | ⟨others, line, rfl⟩
  · exact terminated_nil
  · rw [List.concat_eq_append, joined_append, joined_single, ← List.append_assoc]
    exact terminated_concat _ hend

theorem lines_joined (hend : p '\n' = true) {texts : List Text} (h : ∀ line ∈ texts, IsLine p line) :
    lines p (joined texts) = texts := by
  induction texts with
  | nil => exact lines_nil
  | cons line texts ih =>
    obtain ⟨hbreak, hblank⟩ := h line (by simp)
    rw [← List.singleton_append, joined_append, joined_single, lines_append (terminated_concat _ hend),
      lines_line hend hbreak hblank, ih fun other hother => h other (by simp [hother])]

/-- `xs[-n:]`, which is all of `xs` for `n = 0`. -/
def lastItems {α : Type*} (n : Nat) (xs : List α) : List α := if n = 0 then xs else xs.drop (xs.length - n)

theorem lastItems_map {α β : Type*} (f : α → β) (n : Nat) (xs : List α) :
    lastItems n (xs.map f) = (lastItems n xs).map f := by
  unfold lastItems
  split
  · rfl
  · rw [List.length_map, List.map_drop]

theorem lastItems_all {α : Type*} {n : Nat} {xs : List α} (h : xs.length ≤ n) : lastItems n xs = xs := by
  unfold lastItems
  split
  · rfl
  · rw [Nat.sub_eq_zero_of_le h, List.drop_zero]

end FreqTrading.Lib
