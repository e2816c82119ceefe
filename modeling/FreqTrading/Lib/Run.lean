import Mathlib.Data.List.Basic

/-!
# Runs of a step function

A deterministic system is a step function `σ → ι → σ`; a run feeds it a list of inputs, and all
nondeterminism of the environment is in the inputs. `StepsMeet step C s is` says that every input of the
run meets the condition `C` in the state it is fed in. An invariant that every step meeting `C` keeps
holds after every run whose steps meet `C` (`run_invariant`); since a prefix of such a run is such a run,
it holds in every state the run reaches.
-/

namespace FreqTrading.Lib

variable {σ ι : Type*}

/-- The state after feeding the inputs one after the other. -/
def run (step : σ → ι → σ) (s : σ) (is : List ι) : σ := is.foldl step s

/-- Every input meets `C` in the state it is fed in. -/
def StepsMeet (step : σ → ι → σ) (C : σ → ι → Prop) : σ → List ι → Prop
  | _, [] => True
  | s, i :: is => C s i ∧ StepsMeet step C (step s i) is

instance (step : σ → ι → σ) (C : σ → ι → Prop) [∀ s i, Decidable (C s i)] :
    (s : σ) → (is : List ι) → Decidable (StepsMeet step C s is)
  | _, [] => inferInstanceAs (Decidable True)
  | s, i :: is =>
    have := instDecidableStepsMeet step C (step s i) is
    inferInstanceAs (Decidable (_ ∧ _))

variable {step : σ → ι → σ} {C D : σ → ι → Prop} {I : σ → Prop}

@[simp] theorem run_nil (s : σ) : run step s [] = s := rfl

@[simp] theorem run_cons (s : σ) (i : ι) (is : List ι) : run step s (i :: is) = run step (step s i) is :=
  rfl

theorem run_append (s : σ) (is js : List ι) : run step s (is ++ js) = run step (run step s is) js :=
  List.foldl_append

theorem StepsMeet.mono (hCD : ∀ s i, C s i → D s i) {s : σ} {is : List ι}
    (h : StepsMeet step C s is) : StepsMeet step D s is := by
  induction is generalizing s with
  | nil => trivial
  | cons i is ih => exact ⟨hCD s i h.1, ih h.2⟩

theorem StepsMeet.and {s : σ} {is : List ι} (hC : StepsMeet step C s is) (hD : StepsMeet step D s is) :
    StepsMeet step (fun s i => C s i ∧ D s i) s is := by
  induction is generalizing s with
  | nil => trivial
  | cons i is ih => exact ⟨⟨hC.1, hD.1⟩, ih hC.2 hD.2⟩

theorem stepsMeet_of_forall {P : ι → Prop} {s : σ} {is : List ι} (h : ∀ i ∈ is, P i) :
    StepsMeet step (fun _ i => P i) s is := by
  induction is generalizing s with
  | nil => trivial
  | cons i is ih => exact ⟨h i (by simp), ih fun j hj => h j (by simp [hj])⟩

/-- Every input meets the condition in the state that the inputs before it lead to. -/
theorem StepsMeet.get {s : σ} {is : List ι} (h : StepsMeet step C s is) (n : Nat) (hn : n < is.length) :
    C (run step s (is.take n)) is[n] := by
  induction is generalizing s n with
  | nil => simp at hn
  | cons i is ih =>
    cases n with
    | zero => exact h.1
    | succ n => exact ih h.2 n (by simpa using hn)

theorem stepsMeet_of_pairwise {R : ι → ι → Prop} (hstep : ∀ s i j, C s j → R i j → C (step s i) j) {s : σ} {is : List ι}
    (hinit : ∀ i ∈ is, C s i) (hordered : is.Pairwise R) : StepsMeet step C s is := by
  induction is generalizing s with
  | nil => trivial
  | cons i is ih =>
    obtain ⟨hfirst, hrest⟩ := List.pairwise_cons.mp hordered
    refine ⟨hinit i List.mem_cons_self, ih (fun j hj => ?_) hrest⟩
    exact hstep s i j (hinit j (List.mem_cons_of_mem _ hj)) (hfirst j hj)

theorem StepsMeet.of_append {s : σ} {is js : List ι} (h : StepsMeet step C s (is ++ js)) :
    StepsMeet step C s is ∧ StepsMeet step C (run step s is) js := by
  induction is generalizing s with
  | nil => exact ⟨trivial, h⟩
  | cons i is ih =>
    obtain ⟨hleft, hright⟩ := ih h.2
    exact ⟨⟨h.1, hleft⟩, hright⟩

theorem StepsMeet.append {s : σ} {is js : List ι} (hleft : StepsMeet step C s is)
    (hright : StepsMeet step C (run step s is) js) : StepsMeet step C s (is ++ js) := by
  induction is generalizing s with
  | nil => exact hright
  | cons i is ih => exact ⟨hleft.1, ih hleft.2 hright⟩

theorem mem_log_run {α : Type*} {log : σ → List α} (hlog : ∀ s i, ∃ new, log (step s i) = log s ++ new) {s : σ}
    {is : List ι} {x : α} (h : x ∈ log (run step s is)) :
    x ∈ log s ∨ ∃ before i after new, is = before ++ i :: after ∧
      log (step (run step s before) i) = log (run step s before) ++ new ∧ x ∈ new := by
  induction is generalizing s with
  | nil => exact Or.inl h
  | cons i is ih =>
    rcases ih h with hfirst | ⟨before, j, after, new, rfl, hnew, hx⟩
    · obtain ⟨new, hnew⟩ := hlog s i
      rcases List.mem_append.mp (hnew ▸ hfirst) with hold | hx
      · exact Or.inl hold
      · exact Or.inr ⟨[], i, is, new, rfl, hnew, hx⟩
    · exact Or.inr ⟨i :: before, j, after, new, rfl, hnew, hx⟩

/-- **The run rule.** What every step meeting `C` keeps holds after every run whose steps meet `C`. -/
theorem run_invariant (hstep : ∀ s i, I s → C s i → I (step s i)) {s : σ} {is : List ι}
    (hinit : I s) (hmeet : StepsMeet step C s is) : I (run step s is) := by
  induction is generalizing s with
  | nil => exact hinit
  | cons i is ih => exact ih (hstep s i hinit hmeet.1) hmeet.2

/-- What every step keeps, whatever its input, holds after every run. -/
theorem run_always (hstep : ∀ s i, I s → I (step s i)) {s : σ} (hinit : I s) (is : List ι) : I (run step s is) :=
  run_invariant (C := fun _ _ => True) (fun s i h _ => hstep s i h) hinit (stepsMeet_of_forall fun _ _ => trivial)

/-- What holds of every step from a state in the invariant holds of every step of the run. -/
theorem StepsMeet.of_invariant (hstep : ∀ s i, I s → C s i → I (step s i)) (hD : ∀ s i, I s → C s i → D s i) {s : σ}
    {is : List ι} (hinit : I s) (hmeet : StepsMeet step C s is) : StepsMeet step D s is := by
  induction is generalizing s with
  | nil => trivial
  | cons i is ih => exact ⟨hD s i hinit hmeet.1, ih (hstep s i hinit hmeet.1) hmeet.2⟩

/-- Where `G` lasts exactly over the steps that meet `C`, in a run whose steps meet `D`, it is there after the run exactly
if every step met `C`. -/
theorem run_iff_within {G : σ → Prop} (hstep : ∀ s i, I s → D s i → I (step s i))
    (hlast : ∀ s i, I s → D s i → (G (step s i) ↔ G s ∧ C s i)) {s : σ} {is : List ι} (hinit : I s)
    (hD : StepsMeet step D s is) : G (run step s is) ↔ G s ∧ StepsMeet step C s is := by
  induction is generalizing s with
  | nil => exact (and_true _).symm.to_iff
  | cons i is ih => rw [run_cons, ih (hstep s i hinit hD.1) hD.2, hlast s i hinit hD.1, and_assoc]; rfl

/-- The same for all runs. -/
theorem run_iff_stepsMeet {G : σ → Prop} (hstep : ∀ s i, I s → I (step s i))
    (hlast : ∀ s i, I s → (G (step s i) ↔ G s ∧ C s i)) {s : σ} {is : List ι} (hinit : I s) :
    G (run step s is) ↔ G s ∧ StepsMeet step C s is :=
  run_iff_within (D := fun _ _ => True) (fun s i h _ => hstep s i h) (fun s i h _ => hlast s i h) hinit
    (stepsMeet_of_forall fun _ _ => trivial)

/-- Where a step from a good state in the invariant leads to a good one exactly if it meets `C`, every state of a run is
good exactly if every step meets `C`. -/
theorem run_prefixes_iff {G : σ → Prop} (hstep : ∀ s i, I s → D s i → I (step s i))
    (hgood : ∀ s i, I s → D s i → G s → (G (step s i) ↔ C s i)) {s : σ} {is : List ι} (hinit : I s) (hG : G s)
    (hD : StepsMeet step D s is) : (∀ n, G (run step s (is.take n))) ↔ StepsMeet step C s is := by
  induction is generalizing s with
  | nil => exact iff_of_true (fun n => by rwa [List.take_nil]) trivial
  | cons i is ih =>
    have hnext := hstep s i hinit hD.1
    constructor
    · intro hall
      have hone : G (step s i) := hall 1
      exact ⟨(hgood s i hinit hD.1 hG).mp hone, (ih hnext hone hD.2).mp fun n => hall (n + 1)⟩
    · rintro ⟨hmeets, hrest⟩ n
      cases n with
      | zero => exact hG
      | succ n => exact (ih hnext ((hgood s i hinit hD.1 hG).mpr hmeets) hD.2).mpr hrest n

end FreqTrading.Lib
