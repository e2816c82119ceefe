import FreqTrading.Exits.StopStages

/-!
# The stop moves of the babysitter

`Babysitter` trails a stop at the risk unit behind the close. A unit is measured from the stop that a ticket is first
reported with, and it is zero where that stop sits at the entry: the babysitter has no counterpart of the ladder's
guard (`riskUnit`). A trailing stop of no distance is the close itself, which no terminal takes for a stop. `Measured`
is exactly where this does not show.
-/

namespace FreqTrading

open Lib

namespace Babysitter

open Ladder (Tighter stopOf)

/-- A stop move asked for: the position as its snapshot has it, the close of the bar, and the new stop. -/
structure TrailMove where
  position : Position
  close : ℚ
  sl : ℚ
  deriving DecidableEq, Repr

/-- The new stop is tighter than the one there is, if any, and on the losing side of the close. -/
structure TrailMove.Valid (m : TrailMove) : Prop where
  tighter : m.position.sl ≠ 0 → Tighter m.position.direction m.sl m.position.sl
  losing : Tighter m.position.direction m.close m.sl

/-- A babysitter and the stop moves asked for. -/
structure TrailWatch where
  manager : Babysitter
  moves : List TrailMove := []

/-- A babysitter before its first bar, with its settings. -/
def watching (b : Babysitter) : TrailWatch := { manager := { b with trades := Memory.empty } }

/-- One position of a snapshot, watched. -/
def trailVisit (close : ℚ) (w : TrailWatch) (p : Position) : TrailWatch where
  manager := (w.manager.visit close p).2
  moves := w.moves ++ ((w.manager.visit close p).1.filterMap (stopOf p.ticket)).map fun sl => ⟨p, close, sl⟩

/-- One bar, watched: the snapshot and the close. -/
def trailBar (w : TrailWatch) (bar : List Position × ℚ) : TrailWatch where
  manager := (w.manager.onBar bar.2 bar.1).2
  moves := (run (trailVisit bar.2) w bar.1).moves

/-- The ticket has a risk unit, or its stop is at the close or beyond already. -/
def Measured (close : ℚ) (w : TrailWatch) (p : Position) : Prop :=
  (w.manager.stateOf p).d = 0 → p.tightens close = false

instance (close : ℚ) (w : TrailWatch) (p : Position) : Decidable (Measured close w p) :=
  inferInstanceAs (Decidable (_ → _))

/-- Every position of the snapshot is measured. -/
def BarMeasured (w : TrailWatch) (bar : List Position × ℚ) : Prop := StepsMeet (trailVisit bar.2) (Measured bar.2) w bar.1

instance (w : TrailWatch) (bar : List Position × ℚ) : Decidable (BarMeasured w bar) :=
  inferInstanceAs (Decidable (StepsMeet _ _ _ _))

/-! ### One visit -/

variable {b : Babysitter} {p : Position} {close : ℚ} {w : TrailWatch}

theorem tightens_iff {sl : ℚ} : p.tightens sl = true ↔ p.sl = 0 ∨ Tighter p.direction sl p.sl := by
  unfold Position.tightens Tighter
  cases p.direction with
  | long => simp
  | short => simp

theorem visit_stops (b : Babysitter) (close : ℚ) (p : Position) :
    (b.visit close p).1.filterMap (stopOf p.ticket) = if p.tightens (b.target close p) then [b.target close p] else [] := by
  have hpartial : (if b.partialDue close p then
      [SitterAction.partialClose p.ticket (p.volume * b.partialFrac)] else []).filterMap (stopOf p.ticket) = [] := by
    split <;> rfl
  show (_ ++ _ : List SitterAction).filterMap (stopOf p.ticket) = _
  rw [List.filterMap_append, hpartial, List.nil_append]
  split
  · simp [stopOf]
  · rfl

theorem target_losing (h : 0 < (b.stateOf p).d) : Tighter p.direction close (b.target close p) := by
  unfold target Position.gain Tighter
  dsimp only
  cases p.direction with
  | long =>
    dsimp only
    split
    · next hbreakeven =>
      have hgain : 0 < close - p.priceOpen := (mul_pos hbreakeven.1 h).trans_le hbreakeven.2
      exact max_lt (by linarith) (by linarith)
    · linarith
  | short =>
    dsimp only
    split
    · next hbreakeven =>
      have hgain : 0 < p.priceOpen - close := (mul_pos hbreakeven.1 h).trans_le hbreakeven.2
      exact lt_min (by linarith) (by linarith)
    · linarith

theorem target_close (h : (b.stateOf p).d = 0) : b.target close p = close := by
  unfold target Position.gain
  dsimp only
  rw [h]
  cases p.direction with
  | long =>
    dsimp only
    split
    · next hbreakeven =>
      have hgain : 0 ≤ close - p.priceOpen := by simpa using hbreakeven.2
      rw [sub_zero]
      exact max_eq_left (by linarith)
    · exact sub_zero close
  | short =>
    dsimp only
    split
    · next hbreakeven =>
      have hgain : 0 ≤ p.priceOpen - close := by simpa using hbreakeven.2
      rw [add_zero]
      exact min_eq_left (by linarith)
    · exact add_zero close

theorem Tighter.irrefl (direction : Direction) (x : ℚ) : ¬ Tighter direction x x := by
  cases direction with
  | long => exact lt_irrefl x
  | short => exact lt_irrefl x

/-- No unit of a ticket is negative. -/
structure Units (b : Babysitter) : Prop where
  defaultD : 0 < b.defaultD
  trades : ∀ ticket, ∀ st ∈ b.trades ticket, 0 ≤ st.d

theorem Units.stateOf (h : Units b) (p : Position) : 0 ≤ (b.stateOf p).d := by
  unfold Babysitter.stateOf
  cases hst : b.trades p.ticket with
  | some st => exact h.trades p.ticket st hst
  | none =>
    show 0 ≤ p.stopDistance b.defaultD
    unfold Position.stopDistance
    split
    · exact abs_nonneg _
    · exact h.defaultD.le

theorem Units.visit (h : Units b) (close : ℚ) (p : Position) : Units (b.visit close p).2 := by
  refine ⟨h.defaultD, fun ticket st hst => ?_⟩
  change st ∈ b.trades.put p.ticket _ ticket at hst
  by_cases hmine : ticket = p.ticket
  · subst hmine
    rw [Memory.put_self] at hst
    cases hst
    exact h.stateOf p
  · rw [Memory.put_of_ne _ hmine] at hst
    exact h.trades ticket st hst

theorem trailVisit_valid (h : Units w.manager) (close : ℚ) (p : Position) :
    (∀ m ∈ (trailVisit close w p).moves, m.Valid) ↔ (∀ m ∈ w.moves, m.Valid) ∧ Measured close w p := by
  unfold trailVisit
  dsimp only
  rw [visit_stops, List.forall_mem_append]
  refine and_congr_right fun _ => ?_
  rcases (h.stateOf p).eq_or_lt with hzero | hpos
  · -- the close itself: never valid, so it must not be asked for
    unfold Measured
    rw [target_close hzero.symm]
    split
    · next htight =>
      simp only [List.map_cons, List.map_nil, List.forall_mem_singleton, hzero.symm, htight, forall_const]
      constructor
      · intro hvalid
        exact absurd hvalid.losing (Tighter.irrefl _ _)
      · intro hfalse
        cases hfalse
    · next hloose => simp [hloose]
  · have hmeasured : Measured close w p := fun hzero => absurd hzero hpos.ne'
    refine iff_of_true ?_ hmeasured
    split
    · next htight =>
      intro m hm
      rw [List.map_singleton, List.mem_singleton] at hm
      subst hm
      exact ⟨(tightens_iff.mp htight).resolve_left, target_losing hpos⟩
    · intro m hm
      cases hm

/-! ### Runs -/

theorem trailVisit_manager (close : ℚ) (w : TrailWatch) (ps : List Position) :
    (run (trailVisit close) w ps).manager = (w.manager.visits close ps).2 := by
  induction ps generalizing w with
  | nil => rfl
  | cons p ps ih =>
    rw [run_cons, ih]
    rfl

theorem trailBar_units (h : Units w.manager) (bar : List Position × ℚ) : Units (trailBar w bar).manager := by
  have hrun : Units (run (trailVisit bar.2) w bar.1).manager :=
    run_always (I := fun w : TrailWatch => Units w.manager) (fun _ p hw => hw.visit bar.2 p) h bar.1
  rw [trailVisit_manager] at hrun
  exact ⟨hrun.defaultD, fun ticket st hst => hrun.trades ticket st (Memory.keep_some hst).2⟩

theorem trailBar_valid (h : Units w.manager) (bar : List Position × ℚ) :
    (∀ m ∈ (trailBar w bar).moves, m.Valid) ↔ (∀ m ∈ w.moves, m.Valid) ∧ BarMeasured w bar :=
  run_iff_stepsMeet (I := fun w : TrailWatch => Units w.manager) (G := fun w : TrailWatch => ∀ m ∈ w.moves, m.Valid)
    (fun _ p hw => hw.visit bar.2 p) (fun _ p hw => trailVisit_valid hw bar.2 p) h

/-- **The trailing stops of the babysitter.** Over any bars, every stop move asked for is tighter than the stop reported
and on the losing side of the close, exactly if no ticket without a risk unit is visited with its stop short of the
close. -/
theorem trailing_stops_valid_iff (b : Babysitter) (hd : 0 < b.defaultD) (bars : List (List Position × ℚ)) :
    (∀ m ∈ (run trailBar (watching b) bars).moves, m.Valid) ↔ StepsMeet trailBar BarMeasured (watching b) bars := by
  have hstart : Units (watching b).manager := ⟨hd, fun _ _ hst => (by cases hst)⟩
  have hrun : (∀ m ∈ (run trailBar (watching b) bars).moves, m.Valid) ↔
      (∀ m ∈ (watching b).moves, m.Valid) ∧ StepsMeet trailBar BarMeasured (watching b) bars :=
    run_iff_stepsMeet (I := fun w : TrailWatch => Units w.manager) (G := fun w : TrailWatch => ∀ m ∈ w.moves, m.Valid)
      (fun _ bar hw => trailBar_units hw bar) (fun _ bar hw => trailBar_valid hw bar) hstart
  rw [hrun]
  exact and_iff_right fun _ hm => (by cases hm)

theorem default_pos : 0 < ({} : Babysitter).defaultD := by decide +kernel

/-- The theorem on a position with its stop two below the entry, trailed twice. -/
theorem trailing_stops_valid_iff_trailed :
    (∀ m ∈ (run trailBar (watching {}) [([longFrom100 98], 101), ([longFrom100 99], 103)]).moves, m.Valid) ↔
      StepsMeet trailBar BarMeasured (watching {}) [([longFrom100 98], 101), ([longFrom100 99], 103)] :=
  trailing_stops_valid_iff {} default_pos [([longFrom100 98], 101), ([longFrom100 99], 103)]

/-- **A stop at the entry.** A long position from 100 that is first reported with its stop at 100 has no risk unit: on a
close of 101 its stop is asked to go to 101. -/
theorem stop_at_entry_trails_at_close :
    0 < ({} : Babysitter).defaultD ∧ ¬ ∀ m ∈ (run trailBar (watching {}) [([longFrom100 100], 101)]).moves, m.Valid := by
  have hmoves : (run trailBar (watching {}) [([longFrom100 100], 101)]).moves = [⟨longFrom100 100, 101, 101⟩] := by
    decide +kernel
  refine ⟨default_pos, fun hvalid => ?_⟩
  have hmove := hvalid ⟨longFrom100 100, 101, 101⟩ (by rw [hmoves]; exact List.mem_singleton_self _)
  exact Tighter.irrefl _ _ hmove.losing

end Babysitter

end FreqTrading
