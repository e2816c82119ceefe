import FreqTrading.Lib.Run
import FreqTrading.Exits.Ladder

/-!
# The risk unit of a ticket

Both exit managers key their state by ticket and forget a ticket that a snapshot does not have, whether it
was closed or only missing from the answer. Here a manager runs over any snapshots, watched: `first` records
the risk unit of a ticket at first sight, `asked` every action asked for. Nothing relates the volumes and
stops of a snapshot to the actions, which may all have failed.

A ticket that comes back is measured again, from the stop it has by then. `Recalled` is the condition under
which this does no harm, at each position of each snapshot.
-/

namespace FreqTrading

open Lib

/-- An exit manager, the risk units at first sight and the actions asked for. -/
structure Watched (μ : Type) where
  manager : μ
  first : Memory Nat ℚ := Memory.empty
  asked : List SitterAction := []

/-! ### The babysitter -/

namespace Babysitter

/-- A babysitter before its first bar, with its settings. -/
def watched (b : Babysitter) : Watched Babysitter := { manager := { b with trades := Memory.empty } }

/-- One position of a snapshot, watched. -/
def watchVisit (close : ℚ) (w : Watched Babysitter) (p : Position) : Watched Babysitter where
  manager := (w.manager.visit close p).2
  first := w.first.record p.ticket (p.stopDistance w.manager.defaultD)
  asked := w.asked ++ (w.manager.visit close p).1

/-- One bar, watched: the snapshot and the close. -/
def watchBar (w : Watched Babysitter) (bar : List Position × ℚ) : Watched Babysitter where
  manager := (w.manager.onBar bar.2 bar.1).2
  first := bar.1.foldl (fun first p => first.record p.ticket (p.stopDistance w.manager.defaultD)) w.first
  asked := w.asked ++ (w.manager.onBar bar.2 bar.1).1

/-- A ticket that is back after it was forgotten has its first distance; and if its partial close was asked
for, and forgotten, it is not at that much profit again. -/
structure Recalled (close : ℚ) (w : Watched Babysitter) (p : Position) : Prop where
  distance : w.manager.trades p.ticket = none → ∀ d ∈ w.first p.ticket,
    p.stopDistance w.manager.defaultD = d
  profit : 0 < partialsOf p.ticket w.asked → (w.manager.stateOf p).partialDone = false →
    p.gain close < w.manager.partialAtR * (w.manager.stateOf p).d

instance (close : ℚ) (w : Watched Babysitter) (p : Position) : Decidable (Recalled close w p) :=
  decidable_of_iff (_ ∧ _) ⟨fun h => ⟨h.1, h.2⟩, fun h => ⟨h.distance, h.profit⟩⟩

/-- Every position of the snapshot is recalled. -/
def BarRecalled (w : Watched Babysitter) (bar : List Position × ℚ) : Prop :=
  StepsMeet (watchVisit bar.2) (Recalled bar.2) w bar.1

instance (w : Watched Babysitter) (bar : List Position × ℚ) : Decidable (BarRecalled w bar) :=
  inferInstanceAs (Decidable (StepsMeet _ _ _ _))

/-- What the watched run keeps. -/
structure Steady (w : Watched Babysitter) : Prop where
  once : ∀ ticket, partialsOf ticket w.asked ≤ 1
  unit : w.manager.trades.Remembers TradeState.d w.first

theorem watched_steady (b : Babysitter) : Steady b.watched :=
  ⟨fun _ => Nat.zero_le _, Memory.Remembers.empty⟩

theorem partialsOf_visit (close : ℚ) (b : Babysitter) (p : Position) (ticket : Nat) :
    partialsOf ticket (b.visit close p).1 = if b.partialDue close p = true ∧ p.ticket = ticket then 1 else 0 := by
  have hstop : ∀ sl : ℚ, partialsOf ticket (if p.tightens sl then [.updateSl p.ticket sl] else []) = 0 := by
    intro sl
    split <;> rfl
  simp only [visit, partialsOf_append, hstop, Nat.add_zero]
  by_cases hdue : b.partialDue close p = true
  · simp [hdue, partialsOf, SitterAction.isPartialOf, List.countP_cons]
  · simp [hdue, partialsOf]

theorem watchVisit_steady {close : ℚ} {w : Watched Babysitter} {p : Position} (h : Steady w)
    (hrec : Recalled close w p) : Steady (watchVisit close w p) := by
  constructor
  · intro ticket
    show partialsOf ticket (w.asked ++ _) ≤ 1
    rw [partialsOf_append, partialsOf_visit]
    split
    · next hdue =>
      obtain ⟨hdue, rfl⟩ := hdue
      -- a partial that is due now was not asked for before
      have hnone : partialsOf p.ticket w.asked = 0 := by
        by_contra hsome
        simp only [partialDue, Bool.and_eq_true, Bool.not_eq_true', decide_eq_true_eq] at hdue
        have hlow := hrec.profit (Nat.pos_of_ne_zero hsome) hdue.1
        exact absurd hdue.2 (not_le.mpr hlow)
      omega
    · exact h.once ticket
  · have hself := h.unit.record_self (k := p.ticket) (x := p.stopDistance w.manager.defaultD) hrec.distance
    refine (h.unit.record p.ticket _).put (hself.trans (congrArg some ?_))
    unfold stateOf
    cases w.manager.trades p.ticket <;> rfl

theorem visits_watched (close : ℚ) (w : Watched Babysitter) (ps : List Position) :
    run (watchVisit close) w ps =
      { manager := (w.manager.visits close ps).2
        first := ps.foldl (fun first p => first.record p.ticket (p.stopDistance w.manager.defaultD)) w.first
        asked := w.asked ++ (w.manager.visits close ps).1 } := by
  induction ps generalizing w with
  | nil => simp [visits]
  | cons p ps ih =>
    rw [run_cons, ih]
    simp only [watchVisit, visits, List.foldl_cons, List.append_assoc]
    rfl

theorem watchBar_steady {w : Watched Babysitter} {bar : List Position × ℚ} (h : Steady w)
    (hrec : BarRecalled w bar) : Steady (watchBar w bar) := by
  have hrun := run_invariant (fun _ _ => watchVisit_steady) h hrec
  rw [visits_watched] at hrun
  exact ⟨hrun.once, hrun.unit.keep _⟩

/-- **The babysitter's memory.** Over snapshots in which every ticket is recalled, at most one partial close
of a ticket is asked for, and the unit of a ticket stays the distance its stop had at first sight. -/
theorem run_steady (b : Babysitter) {bars : List (List Position × ℚ)}
    (hrec : StepsMeet watchBar BarRecalled b.watched bars) : Steady (run watchBar b.watched bars) :=
  run_invariant (fun _ _ => watchBar_steady) (watched_steady b) hrec

end Babysitter

/-! ### The ladder -/

/-- What the ladder is fed on a bar: the snapshot, the candle, and the spreads it reads. -/
structure LadderBar where
  positions : List Position
  candle : Candle
  spread : Nat → ℚ

namespace Ladder

variable (cfg : LadderConfig)

def watched : Watched Ladder := { manager := {} }

/-- One position of a snapshot, watched. -/
def watchVisit (candle : Candle) (spread : Nat → ℚ) (w : Watched Ladder) (p : Position) : Watched Ladder where
  manager := (w.manager.visit cfg candle spread p).2
  first := w.first.record p.ticket (riskUnit cfg p)
  asked := w.asked ++ (w.manager.visit cfg candle spread p).1

/-- One bar, watched. -/
def watchBar (w : Watched Ladder) (bar : LadderBar) : Watched Ladder where
  manager := (w.manager.onBar cfg bar.candle bar.spread bar.positions).2
  first := bar.positions.foldl (fun first p => first.record p.ticket (riskUnit cfg p)) w.first
  asked := w.asked ++ (w.manager.onBar cfg bar.candle bar.spread bar.positions).1

/-- A ticket that is back after it was forgotten (missing from a snapshot, or its final close asked for) has
its first distance. -/
def Recalled (w : Watched Ladder) (p : Position) : Prop :=
  w.manager.trades p.ticket = none → ∀ d ∈ w.first p.ticket, riskUnit cfg p = d

/-- Every position of the snapshot is recalled. -/
def BarRecalled (w : Watched Ladder) (bar : LadderBar) : Prop :=
  StepsMeet (watchVisit cfg bar.candle bar.spread) (Recalled cfg) w bar.positions

instance (w : Watched Ladder) (p : Position) : Decidable (Recalled cfg w p) :=
  inferInstanceAs (Decidable (_ → _))

instance (w : Watched Ladder) (bar : LadderBar) : Decidable (BarRecalled cfg w bar) :=
  inferInstanceAs (Decidable (StepsMeet _ _ _ _))

theorem rung_d (p : Position) (r : ℚ) (s : Rungs) (level : (ℚ × ℚ) × Nat) :
    (rung cfg p r s level).st.d = s.st.d := by
  unfold rung
  split
  · rfl
  · simp only
    split <;> rfl

theorem rungs_d (p : Position) (r : ℚ) (st : PosState) : (rungs cfg p r st).st.d = st.d := by
  have h : ∀ (levels : List ((ℚ × ℚ) × Nat)) (s : Rungs), (levels.foldl (rung cfg p r) s).st.d = s.st.d := by
    intro levels
    induction levels with
    | nil => exact fun _ => rfl
    | cons level levels ih => exact fun s => (ih _).trans (rung_d cfg p r s level)
  exact h _ _

theorem staged_d {p : Position} {st done : PosState} {spread sl : ℚ} {candidate : Candle}
    (h : staged cfg p st spread candidate = some (sl, done)) : done.d = st.d := by
  unfold staged at h
  simp only at h
  split at h
  · cases h; rfl
  · split at h
    · cases h; rfl
    · cases h

theorem stage_d (p : Position) (st : PosState) (close spread : ℚ) (candidate : Option Candle) :
    (stage cfg p st close spread candidate).2.d = st.d := by
  unfold stage
  split
  · rfl
  · split
    · rfl
    · split
      · rfl
      · next hstaged =>
        split
        · exact staged_d cfg hstaged
        · rfl

theorem visit_trades (candle : Candle) (spread : Nat → ℚ) (l : Ladder) (p : Position) :
    (l.visit cfg candle spread p).2.trades = l.trades.drop p.ticket ∨
      ∃ st, st.d = (l.stateOf cfg p).d ∧ (l.visit cfg candle spread p).2.trades = l.trades.put p.ticket st := by
  unfold visit
  simp only
  split
  · exact Or.inl rfl
  · exact Or.inr ⟨_, (stage_d cfg p _ _ _ _).trans (rungs_d cfg p _ _), rfl⟩

theorem watchVisit_remembers {candle : Candle} {spread : Nat → ℚ} {w : Watched Ladder} {p : Position}
    (h : w.manager.trades.Remembers PosState.d w.first) (hrec : Recalled cfg w p) :
    (watchVisit cfg candle spread w p).manager.trades.Remembers PosState.d
      (watchVisit cfg candle spread w p).first := by
  have hself := h.record_self (k := p.ticket) (x := riskUnit cfg p) hrec
  show (w.manager.visit cfg candle spread p).2.trades.Remembers PosState.d (w.first.record p.ticket _)
  rcases visit_trades cfg candle spread w.manager p with hdrop | ⟨st, hst, hput⟩
  · rw [hdrop]
    exact (h.record p.ticket _).drop p.ticket
  · rw [hput]
    refine (h.record p.ticket _).put (hself.trans (congrArg some ?_))
    rw [hst]
    unfold stateOf
    cases w.manager.trades p.ticket <;> rfl

theorem visits_watched (candle : Candle) (spread : Nat → ℚ) (w : Watched Ladder) (ps : List Position) :
    run (watchVisit cfg candle spread) w ps =
      { manager := (w.manager.visits cfg candle spread ps).2
        first := ps.foldl (fun first p => first.record p.ticket (riskUnit cfg p)) w.first
        asked := w.asked ++ (w.manager.visits cfg candle spread ps).1 } := by
  induction ps generalizing w with
  | nil => simp [visits]
  | cons p ps ih =>
    rw [run_cons, ih]
    simp only [watchVisit, visits, List.foldl_cons, List.append_assoc]

theorem watchBar_remembers {w : Watched Ladder} {bar : LadderBar}
    (h : w.manager.trades.Remembers PosState.d w.first) (hrec : BarRecalled cfg w bar) :
    (watchBar cfg w bar).manager.trades.Remembers PosState.d (watchBar cfg w bar).first := by
  have hrun := run_invariant (I := fun w : Watched Ladder => w.manager.trades.Remembers PosState.d w.first)
    (fun _ _ => watchVisit_remembers cfg) h hrec
  rw [visits_watched] at hrun
  exact hrun.keep _

/-- **The ladder's memory.** Over snapshots in which every ticket is recalled, the unit of a ticket stays the
one its stop had at first sight. -/
theorem run_remembers {bars : List LadderBar} (hrec : StepsMeet (watchBar cfg) (BarRecalled cfg) watched bars) :
    (run (watchBar cfg) watched bars).manager.trades.Remembers PosState.d
      (run (watchBar cfg) watched bars).first :=
  run_invariant (I := fun w : Watched Ladder => w.manager.trades.Remembers PosState.d w.first)
    (fun _ _ => watchBar_remembers cfg) Memory.Remembers.empty hrec

end Ladder

/-! ### Both managers -/

/-- **The state of the exit managers over any snapshots.** Where every ticket is recalled, the babysitter asks
for at most one partial close of a ticket, and both managers keep the risk unit of a ticket. -/
theorem exits_steady (b : Babysitter) (bars : List (List Position × ℚ)) (cfg : LadderConfig)
    (ladderBars : List LadderBar)
    (hsitter : StepsMeet Babysitter.watchBar Babysitter.BarRecalled b.watched bars)
    (hladder : StepsMeet (Ladder.watchBar cfg) (Ladder.BarRecalled cfg) Ladder.watched ladderBars) :
    let sitter := run Babysitter.watchBar b.watched bars
    let ladder := run (Ladder.watchBar cfg) Ladder.watched ladderBars
    (∀ ticket, partialsOf ticket sitter.asked ≤ 1) ∧
      (∀ ticket st, sitter.manager.trades ticket = some st → sitter.first ticket = some st.d) ∧
      ∀ ticket st, ladder.manager.trades ticket = some st → ladder.first ticket = some st.d :=
  ⟨(b.run_steady hsitter).once, (b.run_steady hsitter).unit, Ladder.run_remembers cfg hladder⟩

/-- A long position from 100 with its stop at `sl`. -/
def longFrom100 (sl : ℚ) : Position := ⟨1, 7, .long, 1, 100, sl, 0⟩

/-- A candle without a range. -/
def flatCandle (ts : Int) (price : ℚ) : Candle :=
  ⟨ts, price, price, price, price, 0, le_rfl, le_rfl, by simp, by simp⟩

/-- The theorem on runs in which the ticket is missing once and comes back with its first distance: its stop has
moved from 98 to 102, as far from the entry as before. -/
theorem exits_steady_recalled :
    partialsOf 1 (run Babysitter.watchBar ({} : Babysitter).watched
      [([longFrom100 98], 104), ([], 104), ([longFrom100 102], 103)]).asked ≤ 1 :=
  (exits_steady {} [([longFrom100 98], 104), ([], 104), ([longFrom100 102], 103)] {}
    [⟨[longFrom100 98], flatCandle 0 104, fun _ => 0⟩, ⟨[], flatCandle 60000000 104, fun _ => 0⟩,
      ⟨[longFrom100 102], flatCandle 120000000 103, fun _ => 0⟩] (by decide +kernel) (by decide +kernel)).1 1

/-- **A ticket missing from one snapshot is taken for closed.** Its partial close is asked for again, and its unit
is measured from the stop it has by then: 3 in place of 2, by the babysitter and by the ladder. -/
theorem ticket_forgotten :
    let bars := [([longFrom100 98], (104 : ℚ)), ([], 104), ([longFrom100 103], 106)]
    let sitter := run Babysitter.watchBar ({} : Babysitter).watched bars
    let ladder := run (Ladder.watchBar {}) Ladder.watched
      (bars.map fun bar => ⟨bar.1, flatCandle 0 bar.2, fun _ => 0⟩)
    partialsOf 1 sitter.asked = 2 ∧
      sitter.first 1 = some 2 ∧ (sitter.manager.trades 1).map (·.d) = some 3 ∧
      ladder.first 1 = some 2 ∧ (ladder.manager.trades 1).map (·.d) = some 3 := by
  decide +kernel

end FreqTrading
