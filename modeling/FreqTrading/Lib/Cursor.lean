import Mathlib.Order.Lattice
import Mathlib.Order.MinMax
import FreqTrading.Lib.Run

/-!
# A reader with a cursor

A log numbers its entries from 1. A reader is given the end of the log, from some entry on, keeps the highest number it
has seen, and takes the entries above it. Reads may overlap; what they skip is never taken. `Tracks` is the invariant of
such a reader, and `read_complete_iff` says which reads skip nothing.
-/

namespace FreqTrading.Lib

variable {α : Type*}

/-- The highest number seen, and the entries taken. -/
structure Cursor (α : Type*) where
  last : Nat := 0
  taken : List α := []

namespace Cursor

variable (number : α → Option Nat)

def see (c : Cursor α) (x : α) : Cursor α :=
  match number x with
  | some n => if c.last < n then ⟨n, c.taken ++ [x]⟩ else c
  | none => c

def read (c : Cursor α) (xs : List α) : Cursor α := run (see number) c xs

/-- The entries of the log are numbered from 1. -/
def Numbers (log : List α) : Prop := log.map number = (List.range' 1 log.length).map some

/-- A reader of this log: what it took is from the part up to its cursor, each entry at most once. -/
structure Tracks (log : List α) (c : Cursor α) : Prop where
  le : c.last ≤ log.length
  taken : c.taken.Sublist (log.take c.last)

variable {number} {log : List α} {c : Cursor α}

theorem Numbers.number_drop (h : Numbers number log) {k : Nat} {x : α} {xs : List α} (hdrop : log.drop k = x :: xs) :
    number x = some (k + 1) ∧ k < log.length := by
  have hlt : k < log.length := by
    have := congrArg List.length hdrop
    rw [List.length_drop, List.length_cons] at this
    omega
  have hx : log[k]? = some x := by
    have := congrArg List.head? hdrop
    rwa [List.head?_drop, List.head?_cons] at this
  have hnumber := congrArg (·[k]?) h
  simp only [List.getElem?_map, hx, List.getElem?_range' hlt, Option.map_some, Option.some.injEq] at hnumber
  exact ⟨by rw [hnumber]; congr 1; omega, hlt⟩

theorem tracks_start (log : List α) : Tracks log {} := ⟨Nat.zero_le _, List.nil_sublist _⟩

theorem Tracks.append (h : Tracks log c) (x : α) : Tracks (log ++ [x]) c := by
  refine ⟨?_, ?_⟩
  · rw [List.length_append]
    exact Nat.le_add_right_of_le h.le
  · rw [List.take_append_of_le_length h.le]
    exact h.taken

theorem read_drop (hlog : Numbers number log) (hle : c.last ≤ log.length) (k : Nat) :
    c.read number (log.drop k) =
      ⟨if k < log.length then log.length else c.last, c.taken ++ log.drop (max c.last k)⟩ := by
  unfold read
  generalize hxs : log.drop k = xs
  induction xs generalizing c k with
  | nil =>
    have hk : log.length ≤ k := List.drop_eq_nil_iff.mp hxs
    rw [run_nil, if_neg (by omega), max_eq_right (by omega), hxs, List.append_nil]
  | cons x xs ih =>
    obtain ⟨hnumber, hlt⟩ := hlog.number_drop hxs
    have hrest : log.drop (k + 1) = xs := by
      rw [← List.tail_drop, hxs, List.tail_cons]
    have hsee : c.see number x = if c.last < k + 1 then ⟨k + 1, c.taken ++ [x]⟩ else c := by
      unfold see
      rw [hnumber]
    rw [run_cons, hsee, if_pos hlt]
    by_cases hnew : c.last < k + 1
    · -- the entry is new, and so are all after it
      have hmax : max c.last k = k := max_eq_right (by omega)
      have hread := ih (c := ⟨k + 1, c.taken ++ [x]⟩) hlt (k + 1) hrest
      rw [if_pos hnew, hread, hmax, hxs]
      simp only [max_self, hrest, List.append_assoc, List.singleton_append]
      congr 1
      split <;> omega
    · rw [if_neg hnew, ih hle (k + 1) hrest, max_eq_left (by omega), max_eq_left (by omega)]
      congr 1
      split <;> omega

theorem Tracks.read_last (h : Tracks log c) (hlog : Numbers number log) {k : Nat} (hk : k < log.length ∨ log = []) :
    (c.read number (log.drop k)).last = log.length := by
  rw [read_drop hlog h.le]
  rcases hk with hk | rfl
  · exact if_pos hk
  · exact Nat.le_zero.mp h.le

theorem Tracks.read (h : Tracks log c) (hlog : Numbers number log) (k : Nat) : Tracks log (c.read number (log.drop k)) := by
  rw [read_drop hlog h.le]
  by_cases hk : k < log.length
  · rw [if_pos hk]
    refine ⟨le_rfl, ?_⟩
    show (c.taken ++ log.drop (max c.last k)).Sublist (log.take log.length)
    rw [List.take_length]
    have hparts : (c.taken ++ log.drop (max c.last k)).Sublist (log.take c.last ++ log.drop c.last) :=
      h.taken.append (List.drop_sublist_drop_left _ (le_max_left _ _))
    rwa [List.take_append_drop] at hparts
  · rw [if_neg hk, List.drop_eq_nil_of_le (by omega), List.append_nil]
    exact h

/-- **A read skips nothing exactly if it begins at the cursor or before it**, or there is nothing new. -/
theorem Tracks.read_complete_iff (h : Tracks log c) (hlog : Numbers number log) {k : Nat} (hk : k < log.length ∨ log = []) :
    (c.read number (log.drop k)).taken = log.take (c.read number (log.drop k)).last ↔
      c.taken = log.take c.last ∧ (k ≤ c.last ∨ c.last = log.length) := by
  rw [h.read_last hlog hk, List.take_length, read_drop hlog h.le]
  show c.taken ++ log.drop (max c.last k) = log ↔ _
  have hlength : (log.take c.last).length = c.last := List.length_take_of_le h.le
  constructor
  · intro hall
    have hcount := congrArg List.length hall
    rw [List.length_append, List.length_drop] at hcount
    have htaken := h.taken.length_le
    have hle := h.le
    have hwithin : k ≤ c.last ∨ c.last = log.length := by omega
    refine ⟨h.taken.eq_of_length ?_, hwithin⟩
    omega
  · rintro ⟨htaken, hwithin⟩
    have hmax : log.drop (max c.last k) = log.drop c.last := by
      rcases hwithin with hk | hend
      · rw [max_eq_left hk]
      · rw [List.drop_eq_nil_of_le (by omega), List.drop_eq_nil_of_le (by omega)]
    rw [hmax, htaken, List.take_append_drop]

end Cursor

end FreqTrading.Lib
