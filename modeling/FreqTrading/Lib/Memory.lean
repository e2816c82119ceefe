import Mathlib.Logic.Function.Basic

/-!
# A memory that forgets

A memory keeps one entry a key. It is filled when a key is seen, and `keep` forgets the keys that are not
among the given ones. A measure of the entries is *remembered* when every entry still has the measure its
key had at first sight, which `first` records: an entry is only ever replaced by one of the same measure,
and a forgotten key only comes back with the measure it had.
-/

namespace FreqTrading.Lib

variable {κ σ μ : Type*} [DecidableEq κ]

/-- One entry a key. -/
abbrev Memory (κ σ : Type*) := κ → Option σ

namespace Memory

def empty : Memory κ σ := fun _ => none

def put (m : Memory κ σ) (k : κ) (s : σ) : Memory κ σ := Function.update m k (some s)

def drop (m : Memory κ σ) (k : κ) : Memory κ σ := Function.update m k none

/-- Forget every key that is not in the list. -/
def keep (m : Memory κ σ) (keys : List κ) : Memory κ σ := fun k => if k ∈ keys then m k else none

@[simp] theorem put_self (m : Memory κ σ) (k : κ) (s : σ) : m.put k s k = some s := by simp [put]

@[simp] theorem drop_self (m : Memory κ σ) (k : κ) : m.drop k k = none := by simp [drop]

theorem put_of_ne (m : Memory κ σ) {k k' : κ} (h : k' ≠ k) (s : σ) : m.put k s k' = m k' := by simp [put, h]

theorem drop_of_ne (m : Memory κ σ) {k k' : κ} (h : k' ≠ k) : m.drop k k' = m k' := by simp [drop, h]

theorem keep_some {m : Memory κ σ} {keys : List κ} {k : κ} {s : σ} (h : m.keep keys k = some s) :
    k ∈ keys ∧ m k = some s := by
  unfold keep at h
  split at h
  · next hmem => exact ⟨hmem, h⟩
  · cases h

/-- The first value a key was given stays. -/
def record (first : Memory κ μ) (k : κ) (x : μ) : Memory κ μ := first.put k ((first k).getD x)

theorem record_of_ne (first : Memory κ μ) {k k' : κ} (h : k' ≠ k) (x : μ) : first.record k x k' = first k' :=
  first.put_of_ne h _

theorem record_of_some {first : Memory κ μ} {k : κ} {y : μ} (h : first k = some y) (k' : κ) (x : μ) :
    first.record k' x k = some y := by
  by_cases hk : k = k'
  · subst hk
    simp [record, h]
  · rw [first.record_of_ne hk, h]

/-- Every entry has the measure its key had at first sight. -/
def Remembers (measure : σ → μ) (m : Memory κ σ) (first : Memory κ μ) : Prop :=
  ∀ k s, m k = some s → first k = some (measure s)

namespace Remembers

variable {measure : σ → μ} {m : Memory κ σ} {first : Memory κ μ}

omit [DecidableEq κ] in
theorem empty : Remembers measure (Memory.empty : Memory κ σ) first := fun _ _ h => by cases h

theorem record (h : Remembers measure m first) (k : κ) (x : μ) : Remembers measure m (first.record k x) :=
  fun k' s hs => record_of_some (h k' s hs) k x

theorem put (h : Remembers measure m first) {k : κ} {s : σ} (hs : first k = some (measure s)) :
    Remembers measure (m.put k s) first := by
  intro k' s' hs'
  by_cases hk : k' = k
  · subst hk
    rw [put_self] at hs'
    obtain rfl := Option.some.inj hs'
    exact hs
  · rw [m.put_of_ne hk] at hs'
    exact h k' s' hs'

theorem drop (h : Remembers measure m first) (k : κ) : Remembers measure (m.drop k) first := by
  intro k' s hs
  by_cases hk : k' = k
  · subst hk
    rw [drop_self] at hs
    cases hs
  · rw [m.drop_of_ne hk] at hs
    exact h k' s hs

theorem keep (h : Remembers measure m first) (keys : List κ) : Remembers measure (m.keep keys) first :=
  fun k s hs => h k s (keep_some hs).2

/-- A key seen with a measure that is the first one, if there was one: `record` leaves the measure of the
entry, or of the sight where there is no entry. -/
theorem record_self (h : Remembers measure m first) {k : κ} {x : μ}
    (hback : m k = none → ∀ y, first k = some y → x = y) :
    first.record k x k = some (((m k).map measure).getD x) := by
  cases hentry : m k with
  | none =>
    cases hfirst : first k with
    | none => simp [Memory.record, hfirst]
    | some y => simp [Memory.record, hfirst, hback hentry y hfirst]
  | some s => simp [Memory.record, h k s hentry]

end Remembers

end Memory

end FreqTrading.Lib
