import Mathlib.Data.List.Chain
import FreqTrading.Lib.Run
import FreqTrading.Macro.Build

/-!
# The macro daemon

The loop of `run` in `macro/daemon.py`. A turn is fed the two clocks and what the host and the providers would
answer; a provider that is not configured answers nothing. Beside the variables of the loop, `Daemon` keeps what it
has done: the fetches it tried, the verdicts of the geo provider and the states it wrote.

A failed refresh leaves `last_fetch` where it was, so that the next turn fetches again: `spaced_iff` says which runs
keep the fetches apart.
-/

namespace FreqTrading

namespace Macro

open Lib

structure DaemonConfig where
  args : Args := {}
  fetchInterval : ℚ := 900

/-- What a turn of the loop meets. -/
structure Turn where
  mono : ℚ
  now : DateTime
  /-- What `_try_fetch` would return. -/
  fetched : Option (List RawEvent) := none
  geo : Option GeoResult := none
  news : Option (List (Text × Sentiment)) := none
  theme : Option ThemeResult := none
  /-- Writing the file raises no `OSError`. -/
  writes : Bool := true

/-- A geo verdict and the time the provider was asked at. -/
abbrev Verdict := DateTime × GeoResult

/-- A state in the file, with the verdicts there were when it was written. -/
structure Written where
  now : DateTime
  state : State
  verdicts : List Verdict

structure Daemon where
  events : List RawEvent := []
  geo : Option GeoResult := none
  newsSent : Option (List (Text × Sentiment)) := none
  theme : Option ThemeResult := none
  lastFetch : Option ℚ := none
  /-- An exception has ended the loop. -/
  crashed : Bool := false
  attempts : List ℚ := []
  verdicts : List Verdict := []
  written : List Written := []

namespace Daemon

/-- `last_fetch is None or (mono - last_fetch) >= fetch_interval`. -/
def due (cfg : DaemonConfig) (d : Daemon) (mono : ℚ) : Prop :=
  ∀ last ∈ d.lastFetch, cfg.fetchInterval ≤ mono - last

instance (cfg : DaemonConfig) (d : Daemon) (mono : ℚ) : Decidable (d.due cfg mono) :=
  inferInstanceAs (Decidable (∀ last ∈ d.lastFetch, _))

/-- The fetch and the providers. What they do not have leaves the last value. -/
def refresh (d : Daemon) (t : Turn) : Daemon :=
  { d with
    events := t.fetched.getD d.events
    lastFetch := if t.fetched.isSome then some t.mono else d.lastFetch.or (some t.mono)
    geo := t.geo.or d.geo
    newsSent := t.news.or d.newsSent
    theme := t.theme.or d.theme
    attempts := d.attempts ++ [t.mono]
    verdicts := d.verdicts ++ t.geo.toList.map fun g => (t.now, g) }

/-- `run_once`. Only an `OSError` is caught. -/
def runOnce (halving : ℚ → ℚ) (cfg : DaemonConfig) (d : Daemon) (t : Turn) : Daemon :=
  match buildState halving cfg.args d.events t.now d.geo d.newsSent d.theme with
  | .error _ => { d with crashed := true }
  | .ok state => if t.writes then { d with written := d.written ++ [⟨t.now, state, d.verdicts⟩] } else d

def refreshed (cfg : DaemonConfig) (d : Daemon) (t : Turn) : Daemon := if d.due cfg t.mono then d.refresh t else d

/-- A turn of the loop. -/
def iterate (halving : ℚ → ℚ) (cfg : DaemonConfig) (d : Daemon) (t : Turn) : Daemon :=
  if d.crashed then d else (d.refreshed cfg t).runOnce halving cfg t

variable {halving : ℚ → ℚ} {cfg : DaemonConfig} {d : Daemon} {t : Turn}

/-- What a build and a write leave alone. -/
structure SameSources (d d' : Daemon) : Prop where
  events : d'.events = d.events
  geo : d'.geo = d.geo
  lastFetch : d'.lastFetch = d.lastFetch
  attempts : d'.attempts = d.attempts
  verdicts : d'.verdicts = d.verdicts

theorem runOnce_sameSources (halving : ℚ → ℚ) (cfg : DaemonConfig) (d : Daemon) (t : Turn) :
    SameSources d (d.runOnce halving cfg t) := by
  unfold runOnce
  split
  · exact ⟨rfl, rfl, rfl, rfl, rfl⟩
  · split <;> exact ⟨rfl, rfl, rfl, rfl, rfl⟩

theorem iterate_sameSources (halving : ℚ → ℚ) (cfg : DaemonConfig) (t : Turn) (h : d.crashed = false) :
    SameSources (d.refreshed cfg t) (d.iterate halving cfg t) := by
  unfold iterate
  rw [h]
  exact runOnce_sameSources halving cfg _ t

theorem iterate_crashed (halving : ℚ → ℚ) (cfg : DaemonConfig) (t : Turn) (h : d.crashed = true) :
    d.iterate halving cfg t = d := by
  unfold iterate
  rw [if_pos h]

/-! ### The fetches -/

/-- Consecutive fetches are at least the interval apart. -/
def Spaced (cfg : DaemonConfig) (d : Daemon) : Prop := d.attempts.IsChain fun a b => a + cfg.fetchInterval ≤ b

/-- After a refresh that failed the loop takes its time: the last fetch is at least the interval ago, or was the one
that `last_fetch` stands at. -/
def TakesItsTime (cfg : DaemonConfig) (d : Daemon) (t : Turn) : Prop :=
  d.crashed = false → ∀ a ∈ d.attempts.getLast?, d.lastFetch ≠ some a → a + cfg.fetchInterval ≤ t.mono

instance (cfg : DaemonConfig) (d : Daemon) (t : Turn) : Decidable (d.TakesItsTime cfg t) :=
  inferInstanceAs (Decidable (_ → ∀ a ∈ d.attempts.getLast?, _ → _))

/-- How `last_fetch` and the fetches are related. -/
structure FetchState (cfg : DaemonConfig) (d : Daemon) : Prop where
  none_iff : d.lastFetch = none ↔ d.attempts = []
  last : ∀ f ∈ d.lastFetch, ∀ a ∈ d.attempts.getLast?, f = a ∨ f + cfg.fetchInterval ≤ a

theorem refreshed_fetchState (h : FetchState cfg d) : FetchState cfg (d.refreshed cfg t) := by
  unfold refreshed
  split
  · next hdue =>
    refine ⟨?_, ?_⟩
    · simp only [refresh]
      cases t.fetched <;> cases d.lastFetch <;> simp
    · intro f hf a ha
      simp only [refresh, List.getLast?_concat, Option.mem_def, Option.some.injEq] at ha
      subst ha
      simp only [refresh, Option.mem_def] at hf
      cases hfetched : t.fetched with
      | some events =>
        rw [hfetched] at hf
        exact Or.inl (Option.some.inj hf).symm
      | none =>
        rw [hfetched] at hf
        cases hlast : d.lastFetch with
        | none =>
          rw [hlast] at hf
          exact Or.inl (Option.some.inj hf).symm
        | some last =>
          rw [hlast] at hf
          obtain rfl : last = f := Option.some.inj hf
          have hapart := hdue last hlast
          exact Or.inr (by linarith)
  · exact h

theorem iterate_fetchState (t : Turn) (h : FetchState cfg d) : FetchState cfg (d.iterate halving cfg t) := by
  by_cases hcrashed : d.crashed = true
  · rwa [iterate_crashed halving cfg t hcrashed]
  · have hsame := iterate_sameSources halving cfg t (Bool.not_eq_true _ ▸ hcrashed)
    have hnext := refreshed_fetchState (t := t) h
    exact ⟨by rw [hsame.lastFetch, hsame.attempts]; exact hnext.none_iff,
      by rw [hsame.lastFetch, hsame.attempts]; exact hnext.last⟩

theorem iterate_attempts (halving : ℚ → ℚ) (cfg : DaemonConfig) (t : Turn) (h : d.crashed = false) :
    (d.iterate halving cfg t).attempts = if d.due cfg t.mono then d.attempts ++ [t.mono] else d.attempts := by
  rw [(iterate_sameSources halving cfg t h).attempts]
  unfold refreshed
  split <;> rfl

/-- A turn keeps the fetches apart exactly if it leaves time after a failed refresh. -/
theorem iterate_spaced (h : FetchState cfg d) (hclock : ∀ a ∈ d.attempts, a ≤ t.mono) :
    Spaced cfg (d.iterate halving cfg t) ↔ Spaced cfg d ∧ TakesItsTime cfg d t := by
  by_cases hcrashed : d.crashed = true
  · rw [iterate_crashed halving cfg t hcrashed]
    refine (and_iff_left fun hruns => ?_).symm
    rw [hcrashed] at hruns
    cases hruns
  rw [Bool.not_eq_true] at hcrashed
  unfold Spaced
  rw [iterate_attempts halving cfg t hcrashed]
  by_cases hdue : d.due cfg t.mono
  · rw [if_pos hdue, List.isChain_append]
    simp only [List.isChain_singleton, List.head?_cons, Option.mem_def, Option.some.injEq, forall_eq', true_and]
    refine and_congr_right fun _ => ⟨fun hapart _ a ha _ => hapart a ha, fun htime a ha => ?_⟩
    by_cases hlast : d.lastFetch = some a
    · -- the last fetch set `last_fetch`
      have hinterval := hdue a hlast
      linarith
    · exact htime hcrashed a ha hlast
  · rw [if_neg hdue]
    refine (and_iff_left fun _ a ha hne => ?_).symm
    -- after a failed refresh a fetch is due at once
    refine absurd (fun f hf => ?_) hdue
    rcases h.last f hf a ha with rfl | hapart
    · exact absurd hf hne
    · have hlater := hclock a (List.mem_of_getLast? ha)
      linarith

/-- **The fetches are the interval apart exactly if every turn after a failed refresh comes that late.** -/
theorem spaced_iff (halving : ℚ → ℚ) (cfg : DaemonConfig) {turns : List Turn}
    (hclock : turns.Pairwise fun t u => t.mono ≤ u.mono) :
    Spaced cfg (run (iterate halving cfg) {} turns) ↔
      StepsMeet (iterate halving cfg) (TakesItsTime cfg) {} turns := by
  have hstart : FetchState cfg {} := ⟨by simp, fun f hf => by cases hf⟩
  have hfetched : Spaced cfg {} := List.isChain_nil
  have hlater : StepsMeet (iterate halving cfg) (fun d t => ∀ a ∈ d.attempts, a ≤ t.mono) {} turns := by
    refine stepsMeet_of_pairwise (fun d t u hu htu a ha => ?_) (fun t _ a ha => by cases ha) hclock
    by_cases hcrashed : d.crashed = true
    · rw [iterate_crashed halving cfg t hcrashed] at ha
      exact hu a ha
    · rw [iterate_attempts halving cfg t (Bool.not_eq_true _ ▸ hcrashed)] at ha
      split at ha
      · rcases List.mem_append.mp ha with ha | ha
        · exact hu a ha
        · rw [List.mem_singleton.mp ha]
          exact htu
      · exact hu a ha
  rw [run_iff_within (I := FetchState cfg) (G := Spaced cfg) (C := TakesItsTime cfg)
    (fun d t h _ => iterate_fetchState t h) (fun d t h hclock => iterate_spaced h hclock) hstart hlater]
  exact and_iff_right hfetched

/-- The first moment of 1970. -/
def epoch : DateTime := ⟨0, by decide⟩

/-- A fetch, and fifteen minutes later one that fails; the next turn comes after the default `write_interval`. -/
def hammering : List Turn := [⟨0, epoch, some [], none, none, none, true⟩, ⟨900, epoch, none, none, none, none, true⟩,
  ⟨960, epoch, none, none, none, none, true⟩]

theorem hammering_clock : hammering.Pairwise fun t u => t.mono ≤ u.mono := by
  unfold hammering
  norm_num

theorem spaced_hammering :
    ¬ ∀ (halving : ℚ → ℚ) (cfg : DaemonConfig) (turns : List Turn), (turns.Pairwise fun t u => t.mono ≤ u.mono) →
      Spaced cfg (run (iterate halving cfg) {} turns) := by
  intro h
  have hspaced := h (fun _ => 1) {} hammering hammering_clock
  have hattempts : (run (iterate (fun _ => 1) {}) {} hammering).attempts = [0, 900, 960] := by decide +kernel
  unfold Spaced at hspaced
  rw [hattempts] at hspaced
  norm_num at hspaced

/-- With a turn every fifteen minutes a failed refresh does no harm. -/
theorem spaced_slow :
    Spaced {} (run (iterate (fun _ => 1) {}) {} [⟨0, epoch, some [], none, none, none, true⟩,
      ⟨900, epoch, none, none, none, none, true⟩, ⟨1800, epoch, some [], none, none, none, true⟩]) :=
  (spaced_iff (fun _ => 1) {} (by norm_num)).mpr (by decide +kernel)

end Daemon

end Macro

end FreqTrading
