import FreqTrading.Exits.StopStages
import FreqTrading.Smc.Config

/-!
# The volume that the ladder closes

The partial closes asked for a ticket, from its first snapshot to its final target, where each is applied exactly: the
next snapshot has the initial volume less all of them. A rung is consumed before its close is asked for, so it closes at
most once; what is left after a close is at least the minimal volume, up to the tolerance of the code, and that keeps
the total below the initial volume and the remainder large enough for the final close.
-/

namespace FreqTrading

open Lib

namespace Ladder

/-- The volume that an action closes, of the ticket. -/
def closeVolume (ticket : Nat) : SitterAction → ℚ
  | .partialClose t volume => if t = ticket then volume else 0
  | .updateSl _ _ => 0

def closeVolumes (ticket : Nat) (acts : List SitterAction) : ℚ := (acts.map (closeVolume ticket)).sum

theorem closeVolumes_append (ticket : Nat) (as bs : List SitterAction) :
    closeVolumes ticket (as ++ bs) = closeVolumes ticket as + closeVolumes ticket bs := by
  simp [closeVolumes]

variable {cfg : LadderConfig} {p : Position} {r : ℚ}

/-! ### The rungs of a visit -/

/-- What a rung can do. -/
inductive RungStep (cfg : LadderConfig) (p : Position) (s : Rungs) (i : Nat) : Rungs → Prop
  | idle : RungStep cfg p s i s
  | skipped (hnew : i ∉ s.st.filled) : RungStep cfg p s i { s with st := { s.st with filled := i :: s.st.filled } }
  | closed (volume : ℚ) (hnew : i ∉ s.st.filled) (hroom : cfg.volMin - ladderEps ≤ p.volume - s.emitted - volume) :
      RungStep cfg p s i
        ⟨{ s.st with filled := i :: s.st.filled }, s.emitted + volume, s.acts ++ [.partialClose p.ticket volume]⟩

theorem rung_cases (cfg : LadderConfig) (p : Position) (r : ℚ) (s : Rungs) (level : (ℚ × ℚ) × Nat) :
    RungStep cfg p s level.2 (rung cfg p r s level) := by
  unfold rung
  by_cases hidle : level.2 ∈ s.st.filled ∨ r < level.1.1
  · rw [if_pos hidle]
    exact .idle
  rw [if_neg hidle]
  rw [not_or] at hidle
  dsimp only
  split
  · exact .skipped hidle.1
  · next hroom =>
    rw [not_or, not_lt, not_lt] at hroom
    exact .closed _ hidle.1 hroom.2

/-- The rungs that ask for a close, one after the other. -/
def closing (cfg : LadderConfig) (p : Position) (r : ℚ) : Rungs → List ((ℚ × ℚ) × Nat) → List Nat
  | _, [] => []
  | s, level :: levels =>
    let after := rung cfg p r s level
    (after.acts.drop s.acts.length).map (fun _ => level.2) ++ closing cfg p r after levels

theorem closing_once (cfg : LadderConfig) (p : Position) (r : ℚ) (levels : List ((ℚ × ℚ) × Nat)) (s : Rungs) :
    (closing cfg p r s levels).Nodup ∧ (∀ i ∈ closing cfg p r s levels, i ∉ s.st.filled) ∧
      (∀ i ∈ closing cfg p r s levels, i ∈ (levels.foldl (rung cfg p r) s).st.filled) ∧
      ∀ i ∈ s.st.filled, i ∈ (levels.foldl (rung cfg p r) s).st.filled := by
  induction levels generalizing s with
  | nil => exact ⟨List.nodup_nil, fun _ h => (by cases h), fun _ h => (by cases h), fun _ h => h⟩
  | cons level levels ih =>
    obtain ⟨hnodup, hnew, hconsumed, hkept⟩ := ih (rung cfg p r s level)
    have hstep := rung_cases cfg p r s level
    rw [List.foldl_cons, closing]
    generalize rung cfg p r s level = after at *
    cases hstep with
    | idle =>
      rw [List.drop_length, List.map_nil, List.nil_append]
      exact ⟨hnodup, hnew, hconsumed, hkept⟩
    | skipped hunfilled =>
      rw [List.drop_length, List.map_nil, List.nil_append]
      exact ⟨hnodup, fun i hi hold => hnew i hi (List.mem_cons_of_mem _ hold), hconsumed,
        fun i hi => hkept i (List.mem_cons_of_mem _ hi)⟩
    | closed volume hunfilled hroom =>
      rw [List.drop_left, List.map_singleton, List.singleton_append]
      refine ⟨List.nodup_cons.mpr ⟨fun hi => hnew _ hi List.mem_cons_self, hnodup⟩, ?_, ?_,
        fun i hi => hkept i (List.mem_cons_of_mem _ hi)⟩
      · intro i hi
        rcases List.mem_cons.mp hi with rfl | hi
        · exact hunfilled
        · exact fun hold => hnew i hi (List.mem_cons_of_mem _ hold)
      · intro i hi
        rcases List.mem_cons.mp hi with rfl | hi
        · exact hkept _ List.mem_cons_self
        · exact hconsumed i hi

theorem rungs_room (cfg : LadderConfig) (p : Position) (r : ℚ) (levels : List ((ℚ × ℚ) × Nat)) (s : Rungs)
    (hacts : closeVolumes p.ticket s.acts = s.emitted) :
    closeVolumes p.ticket (levels.foldl (rung cfg p r) s).acts = (levels.foldl (rung cfg p r) s).emitted ∧
      ((levels.foldl (rung cfg p r) s).emitted = s.emitted ∨
        cfg.volMin - ladderEps ≤ p.volume - (levels.foldl (rung cfg p r) s).emitted) := by
  induction levels generalizing s with
  | nil => exact ⟨hacts, Or.inl rfl⟩
  | cons level levels ih =>
    have hstep := rung_cases cfg p r s level
    rw [List.foldl_cons]
    generalize rung cfg p r s level = after at *
    cases hstep with
    | idle => exact ih _ hacts
    | skipped hunfilled => exact ih _ hacts
    | closed volume hunfilled hleft =>
      have hnow : closeVolumes p.ticket (s.acts ++ [.partialClose p.ticket volume]) = s.emitted + volume := by
        rw [closeVolumes_append, hacts]
        simp [closeVolumes, closeVolume]
      obtain ⟨hsum, hrest⟩ := ih ⟨_, s.emitted + volume, s.acts ++ [.partialClose p.ticket volume]⟩ hnow
      refine ⟨hsum, Or.inr ?_⟩
      rcases hrest with hsame | hmore
      · rw [hsame]
        linarith
      · exact hmore

/-- The profit at the close, in units of risk. -/
def profitR (cfg : LadderConfig) (candle : Candle) (l : Ladder) (p : Position) : ℚ :=
  PosState.gain (l.stateOf cfg p) p.direction candle.close / (l.stateOf cfg p).d

/-- What the final target closes of what the rungs leave. -/
def remainder (left : ℚ) : ℚ := if ladderEps < left then left else 0

theorem StageStep.closes {st st' : PosState} {close : ℚ} {candidate : Option Candle} {acts : List SitterAction}
    (h : StageStep cfg p st close candidate acts st') (ticket : Nat) :
    closeVolumes ticket acts = 0 ∧ st'.filled = st.filled := by
  cases h <;> simp [closeVolumes, closeVolume]

theorem visit_volumes (cfg : LadderConfig) (candle : Candle) (spread : Nat → ℚ) (l : Ladder) (p : Position) :
    let s := rungs cfg p (profitR cfg candle l p) (l.stateOf cfg p)
    (closeVolumes p.ticket (l.visit cfg candle spread p).1 = s.emitted + remainder (p.volume - s.emitted) ∧
        (l.visit cfg candle spread p).2.trades p.ticket = none) ∨
      (closeVolumes p.ticket (l.visit cfg candle spread p).1 = s.emitted ∧
        ∃ st, (l.visit cfg candle spread p).2.trades p.ticket = some st ∧ st.filled = s.st.filled) := by
  intro s
  have hacts : closeVolumes p.ticket s.acts = s.emitted :=
    (rungs_room cfg p (profitR cfg candle l p) cfg.partialLevels.zipIdx { st := l.stateOf cfg p } rfl).1
  unfold visit
  dsimp only
  split
  · refine Or.inl ⟨?_, Memory.drop_self _ _⟩
    rw [closeVolumes_append]
    refine congrArg₂ (· + ·) hacts ?_
    show closeVolumes p.ticket (if ladderEps < p.volume - s.emitted then
      [.partialClose p.ticket (p.volume - s.emitted)] else []) = remainder _
    unfold remainder
    split
    · simp [closeVolumes, closeVolume]
    · rfl
  · obtain ⟨hnone, hfilled⟩ :=
      (stage_cases cfg p s.st candle.close (spread p.ticket) l.prevCandle).closes p.ticket
    refine Or.inr ⟨?_, _, Memory.put_self _ _ _, hfilled⟩
    rw [closeVolumes_append]
    exact (congrArg₂ (· + ·) hacts hnone).trans (add_zero _)

/-! ### The life of a ticket -/

/-- A ladder, and the volumes of one of its tickets watched: the initial volume, the volume of the closes asked for,
the rungs that asked for one, and whether the final target has fired. -/
structure VolumeWatch where
  manager : Ladder := {}
  vol0 : Option ℚ := none
  closed : ℚ := 0
  rungs : List Nat := []
  final : Bool := false

namespace VolumeWatch

/-- The final target has fired, or nothing is left. -/
def flat (w : VolumeWatch) : Bool := w.final || w.vol0.any fun v => v ≤ w.closed

variable (cfg : LadderConfig) (ticket : Nat)

def visit (candle : Candle) (spread : Nat → ℚ) (w : VolumeWatch) (p : Position) : VolumeWatch :=
  let out := w.manager.visit cfg candle spread p
  if p.ticket = ticket ∧ w.flat = false then
    { manager := out.2
      vol0 := w.vol0.or (some p.volume)
      closed := w.closed + closeVolumes ticket out.1
      rungs := w.rungs ++
        closing cfg p (profitR cfg candle w.manager p) { st := w.manager.stateOf cfg p } cfg.partialLevels.zipIdx
      final := (out.2.trades ticket).isNone }
  else { w with manager := out.2 }

def bar (w : VolumeWatch) (bar : LadderBar) : VolumeWatch :=
  { run (visit cfg ticket bar.candle bar.spread) w bar.positions with
    manager := (w.manager.onBar cfg bar.candle bar.spread bar.positions).2 }

/-- The closes are applied exactly: the position is there, with what is left of its volume, and at first with some. -/
def Exact (w : VolumeWatch) (p : Position) : Prop :=
  match w.vol0 with
  | none => 0 < p.volume
  | some v => p.volume = v - w.closed

instance (w : VolumeWatch) (p : Position) : Decidable (w.Exact p) := by
  unfold Exact
  split <;> infer_instance

/-- What a snapshot has of the ticket: once seen, just the one position. -/
def AppliedTo (w : VolumeWatch) : List Position → Prop
  | [] => w.vol0 = none
  | [p] => w.Exact p
  | _ => False

instance (w : VolumeWatch) : (ps : List Position) → Decidable (w.AppliedTo ps)
  | [] => inferInstanceAs (Decidable (_ = _))
  | [p] => inferInstanceAs (Decidable (w.Exact p))
  | _ :: _ :: _ => inferInstanceAs (Decidable False)

/-- Until it is flat the ticket stays in the snapshots, with the closes applied. -/
def Applied (w : VolumeWatch) (bar : LadderBar) : Prop :=
  w.flat = false → w.AppliedTo (bar.positions.filter fun p => p.ticket = ticket)

instance (w : VolumeWatch) (bar : LadderBar) : Decidable (w.Applied ticket bar) := inferInstanceAs (Decidable (_ → _))

/-- The volume of a ticket is conserved, within the tolerance. -/
structure Conserved (w : VolumeWatch) : Prop where
  once : w.rungs.Nodup
  within : ∀ v ∈ w.vol0, w.closed < v + ladderEps ∧ (ladderEps ≤ cfg.volMin → w.closed ≤ v)
  residual : ∀ v ∈ w.vol0, cfg.volMin ≤ v → |v - w.closed| ≤ ladderEps ∨ cfg.volMin - ladderEps ≤ v - w.closed
  complete : w.final = true → ∀ v ∈ w.vol0,
    |v - w.closed| ≤ ladderEps ∧ (2 * ladderEps < cfg.volMin → ladderEps < v → w.closed = v)

/-- What is left of the initial volume `v`, in terms of what the code compares. -/
def Left (v closed : ℚ) : Prop := 0 < v ∧ (closed = 0 ∨ cfg.volMin - ladderEps ≤ v - closed)

/-- What the final target leaves. -/
def LeftFinal (v closed : ℚ) : Prop := ∃ left, (left = v ∧ 0 < v ∨ cfg.volMin - ladderEps ≤ left) ∧
  v - closed = left - remainder left

/-- The watch of a ticket, between two visits. -/
structure Watching (w : VolumeWatch) : Prop where
  once : w.rungs.Nodup
  left : w.final = false → ∀ v ∈ w.vol0, Left cfg v w.closed
  leftFinal : w.final = true → ∀ v ∈ w.vol0, LeftFinal cfg v w.closed
  tracks : w.flat = false →
    (w.manager.trades ticket = none ∧ w.vol0 = none ∧ w.closed = 0 ∧ w.rungs = []) ∨
      ∃ st v, w.manager.trades ticket = some st ∧ w.vol0 = some v ∧ ∀ i ∈ w.rungs, i ∈ st.filled

end VolumeWatch

theorem ladderEps_pos : 0 < ladderEps := by
  unfold ladderEps
  norm_num

namespace VolumeWatch

variable {cfg : LadderConfig} {ticket : Nat} {w : VolumeWatch} {p : Position}

theorem Left.bounds {v closed : ℚ} (h : Left cfg v closed) :
    closed < v + ladderEps ∧ (ladderEps ≤ cfg.volMin → closed ≤ v) ∧ (cfg.volMin ≤ v → cfg.volMin - ladderEps ≤ v - closed) := by
  have heps := ladderEps_pos
  have hmin := cfg.volumes_pos.2
  obtain ⟨hv, rfl | hroom⟩ := h
  · exact ⟨by linarith, fun _ => hv.le, fun hle => by linarith⟩
  · exact ⟨by linarith, fun hle => by linarith, fun _ => hroom⟩

theorem LeftFinal.bounds {v closed : ℚ} (h : LeftFinal cfg v closed) :
    closed < v + ladderEps ∧ (ladderEps ≤ cfg.volMin → closed ≤ v) ∧ |v - closed| ≤ ladderEps ∧
      (2 * ladderEps < cfg.volMin → ladderEps < v → closed = v) := by
  have heps := ladderEps_pos
  have hmin := cfg.volumes_pos.2
  obtain ⟨left, hleft, hclosed⟩ := h
  unfold remainder at hclosed
  split at hclosed
  · next hlarge =>
    have heq : closed = v := by linarith
    subst heq
    rw [sub_self, abs_zero]
    exact ⟨by linarith, fun _ => le_rfl, heps.le, fun _ _ => rfl⟩
  · next hsmall =>
    rw [not_lt] at hsmall
    rw [sub_zero] at hclosed
    have hlow : -ladderEps < left := by
      rcases hleft with ⟨rfl, hv⟩ | hroom
      · linarith
      · linarith
    refine ⟨by linarith, fun hle => ?_, ?_, fun hlarge hv => ?_⟩
    · rcases hleft with ⟨rfl, hv⟩ | hroom <;> linarith
    · rw [hclosed, abs_le]
      exact ⟨hlow.le, hsmall⟩
    · rcases hleft with ⟨rfl, -⟩ | hroom
      · exact absurd hv (not_lt.mpr hsmall)
      · linarith

theorem Watching.conserved (h : Watching cfg ticket w) : Conserved cfg w := by
  refine ⟨h.once, fun v hv => ?_, fun v hv hmin => ?_, fun hfinal v hv => ?_⟩
  · cases hfinal : w.final with
    | false =>
      have hleft := (h.left hfinal v hv).bounds
      exact ⟨hleft.1, hleft.2.1⟩
    | true =>
      have hleft := (h.leftFinal hfinal v hv).bounds
      exact ⟨hleft.1, hleft.2.1⟩
  · cases hfinal : w.final with
    | false => exact Or.inr ((h.left hfinal v hv).bounds.2.2 hmin)
    | true => exact Or.inl (h.leftFinal hfinal v hv).bounds.2.2.1
  · exact (h.leftFinal hfinal v hv).bounds.2.2

theorem Watching.at_visit (h : Watching cfg ticket w) (hopen : w.flat = false) (hp : p.ticket = ticket) (hexact : w.Exact p) :
    ∃ v, w.vol0.or (some p.volume) = some v ∧ Left cfg v w.closed ∧ p.volume = v - w.closed ∧
      ∀ i ∈ w.rungs, i ∈ (w.manager.stateOf cfg p).filled := by
  have hfinal : w.final = false := (Bool.or_eq_false_iff.mp hopen).1
  unfold Exact at hexact
  rcases h.tracks hopen with ⟨-, hvol0, hclosed, hrungs⟩ | ⟨st, v, hst, hvol0, hfilled⟩
  · rw [hvol0] at hexact ⊢
    rw [hclosed, hrungs]
    exact ⟨p.volume, rfl, ⟨hexact, Or.inl rfl⟩, (sub_zero _).symm, fun _ hi => (by cases hi)⟩
  · rw [hvol0] at hexact ⊢
    refine ⟨v, rfl, h.left hfinal v hvol0, hexact, ?_⟩
    unfold stateOf
    rw [hp, hst]
    exact hfilled

theorem Left.after_rungs {v closed : ℚ} (h : Left cfg v closed) (hvolume : p.volume = v - closed) (r : ℚ) (st : PosState) :
    Left cfg v (closed + (Ladder.rungs cfg p r st).emitted) := by
  have hroom : (Ladder.rungs cfg p r st).emitted = 0 ∨
      cfg.volMin - ladderEps ≤ p.volume - (Ladder.rungs cfg p r st).emitted :=
    (rungs_room cfg p r cfg.partialLevels.zipIdx { st := st } rfl).2
  refine ⟨h.1, ?_⟩
  rcases hroom with hnone | hroom
  · rw [hnone, add_zero]
    exact h.2
  · exact Or.inr (by linarith)

theorem Watching.skip (h : Watching cfg ticket w) (candle : Candle) (spread : Nat → ℚ)
    (hother : w.flat = false → p.ticket ≠ ticket) :
    Watching cfg ticket { w with manager := (w.manager.visit cfg candle spread p).2 } := by
  refine ⟨h.once, h.left, h.leftFinal, fun hopen => ?_⟩
  have hkept := visit_other cfg candle spread w.manager p (hother hopen)
  rcases h.tracks hopen with ⟨hnone, hrest⟩ | ⟨st, v, hst, hrest⟩
  · exact Or.inl ⟨hkept.trans hnone, hrest⟩
  · exact Or.inr ⟨st, v, hkept.trans hst, hrest⟩

theorem Watching.visit (h : Watching cfg ticket w) (candle : Candle) (spread : Nat → ℚ) {p : Position}
    (hexact : p.ticket = ticket → w.flat = false → w.Exact p) : Watching cfg ticket (w.visit cfg ticket candle spread p) := by
  unfold VolumeWatch.visit
  dsimp only
  by_cases hmine : p.ticket = ticket ∧ w.flat = false
  · rw [if_pos hmine]
    obtain ⟨hp, hopen⟩ := hmine
    obtain ⟨v, hv, hleft, hvolume, hfilled⟩ := h.at_visit hopen hp (hexact hp hopen)
    subst hp
    obtain ⟨hnodup, hnew, hconsumed, hkept⟩ := closing_once cfg p (profitR cfg candle w.manager p) cfg.partialLevels.zipIdx
      { st := w.manager.stateOf cfg p }
    have hrest := hleft.after_rungs hvolume (profitR cfg candle w.manager p) (w.manager.stateOf cfg p)
    have honce : (w.rungs ++ closing cfg p (profitR cfg candle w.manager p) { st := w.manager.stateOf cfg p }
        cfg.partialLevels.zipIdx).Nodup := by
      refine List.nodup_append.mpr ⟨h.once, hnodup, fun i hold i' hi' heq => ?_⟩
      subst heq
      exact hnew i hi' (hfilled i hold)
    have hvisit := visit_volumes cfg candle spread w.manager p
    dsimp only at hvisit
    rw [hv]
    have hrungs : Ladder.rungs cfg p (profitR cfg candle w.manager p) (w.manager.stateOf cfg p) =
        cfg.partialLevels.zipIdx.foldl (rung cfg p (profitR cfg candle w.manager p)) { st := w.manager.stateOf cfg p } := rfl
    rw [← hrungs] at hconsumed hkept
    generalize Ladder.rungs cfg p (profitR cfg candle w.manager p) (w.manager.stateOf cfg p) = s at *
    rcases hvisit with ⟨hvolumes, htrades⟩ | ⟨hvolumes, st, htrades, hst⟩
    · rw [hvolumes, htrades]
      refine ⟨honce, fun hfinal => (by cases hfinal), fun _ v' hv' => ?_, fun hover => (by cases hover)⟩
      cases hv'
      refine ⟨p.volume - s.emitted, ?_, by linarith⟩
      rcases hrest.2 with hzero | hmore
      · exact Or.inl ⟨by linarith, hrest.1⟩
      · exact Or.inr (by linarith)
    · rw [hvolumes, htrades]
      refine ⟨honce, fun _ v' hv' => ?_, fun hfinal => (by cases hfinal), fun _ => Or.inr ⟨st, v, htrades, rfl, ?_⟩⟩
      · cases hv'
        exact hrest
      · intro i hi
        rw [hst]
        rcases List.mem_append.mp hi with hold | hnow
        · exact hkept i (hfilled i hold)
        · exact hconsumed i hnow
  · rw [if_neg hmine]
    exact h.skip candle spread fun hopen hp => hmine ⟨hp, hopen⟩

/-! ### Bars -/

theorem visits_manager (candle : Candle) (spread : Nat → ℚ) (w : VolumeWatch) (ps : List Position) :
    (run (VolumeWatch.visit cfg ticket candle spread) w ps).manager = (w.manager.visits cfg candle spread ps).2 := by
  refine run_ladder (fun w p => ?_) w ps
  unfold VolumeWatch.visit
  dsimp only
  split <;> rfl

theorem visit_skip (candle : Candle) (spread : Nat → ℚ) (w : VolumeWatch) (hskip : ¬ (p.ticket = ticket ∧ w.flat = false)) :
    w.visit cfg ticket candle spread p = { w with manager := (w.manager.visit cfg candle spread p).2 } := by
  unfold VolumeWatch.visit
  dsimp only
  rw [if_neg hskip]

theorem visits_absent (candle : Candle) (spread : Nat → ℚ) (w : VolumeWatch) {ps : List Position}
    (h : ∀ p ∈ ps, p.ticket ≠ ticket) : (run (VolumeWatch.visit cfg ticket candle spread) w ps).vol0 = w.vol0 ∧
      (run (VolumeWatch.visit cfg ticket candle spread) w ps).flat = w.flat := by
  refine run_invariant (I := fun w' : VolumeWatch => w'.vol0 = w.vol0 ∧ w'.flat = w.flat) ?_ ⟨rfl, rfl⟩
    (stepsMeet_of_forall h)
  intro w' p hw' hother
  rw [visit_skip candle spread w' fun hmine => hother hmine.1]
  exact hw'

theorem AppliedTo.single {others : List Position} (h : w.AppliedTo (p :: others)) : w.Exact p ∧ others = [] := by
  cases others with
  | nil => exact ⟨h, rfl⟩
  | cons => exact h.elim

theorem AppliedTo.of_manager {ps : List Position} (h : w.AppliedTo ps) (l : Ladder) :
    AppliedTo { w with manager := l } ps := by
  cases ps with
  | nil => exact h
  | cons p others =>
    obtain ⟨hexact, rfl⟩ := h.single
    exact hexact

theorem visits_exact (candle : Candle) (spread : Nat → ℚ) {w : VolumeWatch} {ps : List Position}
    (h : w.flat = false → w.AppliedTo (ps.filter fun p => p.ticket = ticket)) :
    StepsMeet (VolumeWatch.visit cfg ticket candle spread) (fun w p => p.ticket = ticket → w.flat = false → w.Exact p)
      w ps := by
  induction ps generalizing w with
  | nil => trivial
  | cons p ps ih =>
    by_cases hmine : p.ticket = ticket ∧ w.flat = false
    · have hall := h hmine.2
      rw [List.filter_cons_of_pos (by simpa using hmine.1)] at hall
      obtain ⟨hexact, hnone⟩ := hall.single
      rw [List.filter_eq_nil_iff] at hnone
      -- the rest of the snapshot does not have the ticket
      have hrest : StepsMeet (VolumeWatch.visit cfg ticket candle spread) (fun _ p => p.ticket ≠ ticket)
          (w.visit cfg ticket candle spread p) ps :=
        stepsMeet_of_forall fun p' hp' => by simpa using hnone p' hp'
      exact ⟨fun _ _ => hexact, hrest.mono fun _ _ hne hp => absurd hp hne⟩
    · refine ⟨fun hp hopen => absurd ⟨hp, hopen⟩ hmine, ?_⟩
      rw [visit_skip candle spread w hmine]
      refine ih fun hopen => ?_
      have hall := h hopen
      rw [List.filter_cons_of_neg (by simpa using fun hp => hmine ⟨hp, hopen⟩)] at hall
      exact hall.of_manager _

theorem Watching.bar (h : Watching cfg ticket w) {bar : LadderBar} (happlied : w.Applied ticket bar) :
    Watching cfg ticket (w.bar cfg ticket bar) := by
  have hw' : Watching cfg ticket (run (VolumeWatch.visit cfg ticket bar.candle bar.spread) w bar.positions) :=
    run_invariant (I := Watching cfg ticket) (fun _ _ h hexact => h.visit bar.candle bar.spread hexact) h
      (visits_exact bar.candle bar.spread happlied)
  have hmanager : (run (VolumeWatch.visit cfg ticket bar.candle bar.spread) w bar.positions).manager =
      (w.manager.visits cfg bar.candle bar.spread bar.positions).2 := visits_manager bar.candle bar.spread w bar.positions
  have habsent : (∀ p ∈ bar.positions, p.ticket ≠ ticket) →
      (run (VolumeWatch.visit cfg ticket bar.candle bar.spread) w bar.positions).vol0 = w.vol0 ∧
        (run (VolumeWatch.visit cfg ticket bar.candle bar.spread) w bar.positions).flat = w.flat :=
    visits_absent bar.candle bar.spread w
  have htrades : (w.bar cfg ticket bar).manager.trades =
      ((w.manager.visits cfg bar.candle bar.spread bar.positions).2.trades).keep (bar.positions.map (·.ticket)) := rfl
  rw [← hmanager] at htrades
  unfold VolumeWatch.bar at htrades ⊢
  generalize run (VolumeWatch.visit cfg ticket bar.candle bar.spread) w bar.positions = w' at *
  refine ⟨hw'.once, hw'.left, hw'.leftFinal, fun hopen => ?_⟩
  rw [htrades]
  unfold Memory.keep
  by_cases hin : ticket ∈ bar.positions.map (·.ticket)
  · rw [if_pos hin]
    exact hw'.tracks hopen
  · have hnone : ∀ p ∈ bar.positions, p.ticket ≠ ticket := fun p hp heq => hin (List.mem_map.mpr ⟨p, hp, heq⟩)
    obtain ⟨hvol0, hover⟩ := habsent hnone
    have hunseen : w.vol0 = none := by
      have hall := happlied (hover.symm.trans hopen)
      rwa [List.filter_eq_nil_iff.mpr fun p hp => by simpa using hnone p hp] at hall
    rw [if_neg hin]
    rcases hw'.tracks hopen with ⟨-, hrest⟩ | ⟨st, v, -, hsome, -⟩
    · exact Or.inl ⟨rfl, hrest⟩
    · rw [hvol0, hunseen] at hsome
      cases hsome

/-- **The ladder conserves the volume of a ticket**, up to the tolerance of the code: over any bars in which its closes
are applied exactly, each rung closes once at most, the total stays below the initial volume, what is left is closed in
full or at least the minimal volume, and the final target leaves nothing. -/
theorem ladder_conserves (cfg : LadderConfig) (ticket : Nat) (bars : List LadderBar)
    (happlied : StepsMeet (VolumeWatch.bar cfg ticket) (fun w bar => w.Applied ticket bar) {} bars) :
    Conserved cfg (run (VolumeWatch.bar cfg ticket) {} bars) := by
  have hstart : Watching cfg ticket {} :=
    ⟨List.nodup_nil, fun _ _ h => (by cases h), fun h => (by cases h), fun _ => Or.inl ⟨rfl, rfl, rfl, rfl⟩⟩
  exact (run_invariant (I := Watching cfg ticket) (fun _ _ h happlied => h.bar happlied) hstart happlied).conserved

/-- A long position from 100 with its stop at 98 and some volume, on a bar that closes at `close`. -/
def longBar (volume close : ℚ) : LadderBar := ⟨[⟨1, 7, .long, volume, 100, 98, 0⟩], flatCandle 0 close, fun _ => 0⟩

/-- Five, seven and ten units of risk: 0.4, 0.3 and the rest of one lot. -/
theorem ladder_conserves_targets :
    let w := run (VolumeWatch.bar defaults 1) {} [longBar 1 110, longBar (3 / 5) 114, longBar (3 / 10) 120]
    Conserved defaults w ∧ w.final = true ∧ w.closed = 1 ∧ w.rungs = [0, 1] :=
  ⟨ladder_conserves defaults 1 [longBar 1 110, longBar (3 / 5) 114, longBar (3 / 10) 120] (by decide +kernel),
    by decide +kernel⟩

/-- The ladder has the rungs and the final target of an accepted configuration. -/
def RungsOf (smc : SmcConfig) (cfg : LadderConfig) : Prop :=
  cfg.partialLevels = smc.partialLevels ∧ cfg.finalTpR = smc.finalTpR

instance (smc : SmcConfig) (cfg : LadderConfig) : Decidable (RungsOf smc cfg) := inferInstanceAs (Decidable (_ ∧ _))

/-- Two halves at one and two units of risk. -/
def halves : SmcConfig := ⟨{ partialLevels := [(1, 1 / 2), (2, 1 / 2)], finalTpR := 3 }, by decide +kernel⟩

theorem tiny_volumes : (0 : ℚ) < 1 ∧ (0 : ℚ) < 1 / 10000000000 := by norm_num

/-- The halves in whole lots, with a minimal volume below the tolerance. -/
def tinyMin : LadderConfig :=
  { defaults with
    partialLevels := [(1, 1 / 2), (2, 1 / 2)]
    finalTpR := 3
    volMin := 1 / 10000000000
    volStep := 1
    volumes_pos := tiny_volumes }

/-- **The tolerance shows.** With a minimal volume of a tenth of it two rungs close one lot each of a position that is
short of two lots by half of it; and of a position of no more than it the final target closes nothing. -/
theorem tolerance_shows :
    (¬ ∀ (smc : SmcConfig) (cfg : LadderConfig) (ticket : Nat) (bars : List LadderBar), RungsOf smc cfg →
      StepsMeet (VolumeWatch.bar cfg ticket) (fun w bar => w.Applied ticket bar) {} bars →
      ∀ v ∈ (run (VolumeWatch.bar cfg ticket) {} bars).vol0, (run (VolumeWatch.bar cfg ticket) {} bars).closed ≤ v) ∧
    ¬ ∀ (smc : SmcConfig) (cfg : LadderConfig) (ticket : Nat) (bars : List LadderBar), RungsOf smc cfg →
      StepsMeet (VolumeWatch.bar cfg ticket) (fun w bar => w.Applied ticket bar) {} bars →
      (run (VolumeWatch.bar cfg ticket) {} bars).final = true →
      ∀ v ∈ (run (VolumeWatch.bar cfg ticket) {} bars).vol0, (run (VolumeWatch.bar cfg ticket) {} bars).closed = v := by
  constructor
  · intro h
    have hle := h halves tinyMin 1 [longBar (2 - 1 / 2000000000) 104] ⟨rfl, rfl⟩ (by decide +kernel) (2 - 1 / 2000000000)
      (by decide +kernel)
    have hmore : ¬ (run (VolumeWatch.bar tinyMin 1) {} [longBar (2 - 1 / 2000000000) 104]).closed ≤ 2 - 1 / 2000000000 := by
      decide +kernel
    exact hmore hle
  · intro h
    have heq := h SmcConfig.default defaults 1 [longBar ladderEps 120] (by decide +kernel) (by decide +kernel)
      (by decide +kernel) ladderEps (by decide +kernel)
    have hnone : (run (VolumeWatch.bar defaults 1) {} [longBar ladderEps 120]).closed ≠ ladderEps := by
      decide +kernel
    exact hnone heq

end VolumeWatch

end Ladder

end FreqTrading
