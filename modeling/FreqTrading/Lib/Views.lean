import FreqTrading.Lib.Run

/-!
# What one key sees

A machine answers each input with some outputs and a new state. `view s` is what a state holds for one observer, and
`own` says which inputs and outputs are the observer's. The machine is `Separate` if an input of somebody else's gives
the observer nothing and changes nothing of the view, and an input of the observer's own is answered from the view
alone. Then all inputs of others can be taken out of a run, and the observer cannot tell (`outputs_own`).
-/

namespace FreqTrading.Lib

variable {σ ι α ρ : Type*}

/-- The answers of a machine to the inputs, one after the other. -/
def outputs (machine : σ → ι → α × σ) : σ → List ι → List α
  | _, [] => []
  | s, i :: is => (machine s i).1 :: outputs machine (machine s i).2 is

/-- The state of a machine after the inputs. -/
def after (machine : σ → ι → α × σ) (s : σ) (is : List ι) : σ := run (fun s i => (machine s i).2) s is

@[simp] theorem outputs_nil (machine : σ → ι → α × σ) (s : σ) : outputs machine s [] = [] := rfl

@[simp] theorem outputs_cons (machine : σ → ι → α × σ) (s : σ) (i : ι) (is : List ι) :
    outputs machine s (i :: is) = (machine s i).1 :: outputs machine (machine s i).2 is := rfl

@[simp] theorem after_nil (machine : σ → ι → α × σ) (s : σ) : after machine s [] = s := rfl

@[simp] theorem after_cons (machine : σ → ι → α × σ) (s : σ) (i : ι) (is : List ι) :
    after machine s (i :: is) = after machine (machine s i).2 is := rfl

/-- Two answers the observer cannot tell apart: its outputs are the same, and so is the view afterwards. -/
def SameFor (view : σ → ρ) (mine : α → Bool) (x y : List α × σ) : Prop :=
  x.1.filter mine = y.1.filter mine ∧ view x.2 = view y.2

/-- The observer is served from its own inputs and its view alone. -/
structure Separate (machine : σ → ι → List α × σ) (view : σ → ρ) (own : ι → Bool) (mine : α → Bool) : Prop where
  others : ∀ s i, own i = false → (machine s i).1.filter mine = [] ∧ view (machine s i).2 = view s
  served : ∀ s s' i, own i = true → view s = view s' → SameFor view mine (machine s i) (machine s' i)

namespace Separate

variable {machine : σ → ι → List α × σ} {view : σ → ρ} {own : ι → Bool} {mine : α → Bool}

/-- A run, and the run of the observer's inputs alone. -/
theorem outputs_own (h : Separate machine view own mine) {s s' : σ} (hs : view s = view s') (is : List ι) :
    SameFor view mine ((outputs machine s is).flatten, after machine s is)
      ((outputs machine s' (is.filter own)).flatten, after machine s' (is.filter own)) := by
  induction is generalizing s s' with
  | nil => exact ⟨rfl, hs⟩
  | cons i is ih =>
    by_cases hi : own i = true
    · obtain ⟨hout, hview⟩ := h.served s s' i hi hs
      obtain ⟨hrest, hlast⟩ := ih hview
      rw [List.filter_cons_of_pos hi]
      refine ⟨?_, hlast⟩
      simp only [outputs_cons, List.flatten_cons, List.filter_append]
      exact congrArg₂ _ hout hrest
    · obtain ⟨hout, hview⟩ := h.others s i (Bool.not_eq_true _ ▸ hi)
      obtain ⟨hrest, hlast⟩ := ih (hview.trans hs)
      rw [List.filter_cons_of_neg hi]
      refine ⟨?_, hlast⟩
      simp only [outputs_cons, List.flatten_cons, List.filter_append]
      rw [hout, List.nil_append]
      exact hrest

theorem outputs_congr (h : Separate machine view own mine) {s s' : σ} (hs : view s = view s') {is is' : List ι}
    (his : is.filter own = is'.filter own) :
    SameFor view mine ((outputs machine s is).flatten, after machine s is)
      ((outputs machine s' is').flatten, after machine s' is') := by
  obtain ⟨hleft, hview⟩ := h.outputs_own (rfl : view s = view s) is
  obtain ⟨hright, hview'⟩ := h.outputs_own hs.symm is'
  rw [his] at hleft hview
  exact ⟨hleft.trans hright.symm, hview.trans hview'.symm⟩

end Separate

/-- **Two runs.** If on related inputs states of one view are answered alike for the observer, then runs on related
inputs are, answer by answer. -/
theorem outputs_forall₂ {machine : σ → ι → List α × σ} (view : σ → ρ) {mine : α → Bool} {Same : ι → ι → Prop}
    (hstep : ∀ s s' i i', view s = view s' → Same i i' → SameFor view mine (machine s i) (machine s' i')) {s s' : σ}
    (hs : view s = view s') {is is' : List ι} (his : List.Forall₂ Same is is') :
    (outputs machine s is).map (·.filter mine) = (outputs machine s' is').map (·.filter mine) := by
  induction his generalizing s s' with
  | nil => rfl
  | cons hi _ ih =>
    obtain ⟨hout, hview⟩ := hstep s s' _ _ hs hi
    simp only [outputs_cons, List.map_cons]
    exact congrArg₂ _ hout (ih hview)

end FreqTrading.Lib
