import Mathlib.Algebra.Order.Field.Basic
import Mathlib.Algebra.Order.Floor.Ring
import Mathlib.Data.Rat.Floor
import Mathlib.Tactic.Linarith
import FreqTrading.Lib.Run
import FreqTrading.Models

/-!
# The partial closes of the EA

`ManageOpenPositions` of `mql5/SmcXau_EA.mq5`, as far as it closes volume. The EA keeps no state between bars: that
a rung is done it infers from the fraction of the original volume that is closed, while what it closes is snapped
down to the volume step.
-/

namespace FreqTrading

namespace Ea

/-- The inputs of the exits, with the checks of the `SmcConfig` they mirror. -/
structure PartialInputs where
  partialR1 : ℚ := 5
  partialFrac1 : ℚ := 2 / 5
  partialR2 : ℚ := 7
  partialFrac2 : ℚ := 3 / 10
  finalTpR : ℚ := 10
  r1_pos : 0 < partialR1 := by decide +kernel
  r_ascending : partialR1 < partialR2 := by decide +kernel
  frac1_range : 0 < partialFrac1 ∧ partialFrac1 < 1 := by decide +kernel
  frac2_range : 0 < partialFrac2 ∧ partialFrac2 < 1 := by decide +kernel
  frac_sum : partialFrac1 + partialFrac2 ≤ 1 := by decide +kernel
  final_off_or_last : finalTpR = 0 ∨ partialR2 < finalTpR := by decide +kernel

/-- `SYMBOL_VOLUME_MIN` and `SYMBOL_VOLUME_STEP`. -/
structure SymbolVolumes where
  minVol : ℚ := 1 / 100
  volumeStep : ℚ := 1 / 100
  deriving DecidableEq, Repr

/-- `SnapVol`. -/
def snapVol (sym : SymbolVolumes) (v : ℚ) : ℚ :=
  let step := if sym.volumeStep ≤ 0 then 1 / 100 else sym.volumeStep
  ⌊v / step + 1 / 1000000000⌋ * step

/-- A position, with its stop and its volume as the deal history has them. -/
structure Opened where
  direction : Direction
  entry : ℚ
  origSl : ℚ
  vol0 : ℚ
  deriving DecidableEq, Repr

variable (cfg : PartialInputs) (sym : SymbolVolumes) (pos : Opened)

/-- The risk distance from the original stop; without a stop on record there is none. -/
def Opened.unit : ℚ := if 0 < pos.origSl then |pos.entry - pos.origSl| else 0

/-- The profit of a close, in R. -/
def Opened.profit (close : ℚ) : ℚ :=
  match pos.direction with
  | .long => (close - pos.entry) / pos.unit
  | .short => (pos.entry - close) / pos.unit

def closedFrac (volNow : ℚ) : ℚ := 1 - volNow / max pos.vol0 (1 / 1000000000)

/-- `p1_done`. -/
def Done1 (volNow : ℚ) : Prop := cfg.partialFrac1 - 1 / 1000000 ≤ closedFrac pos volNow

/-- `p2_done`. -/
def Done2 (volNow : ℚ) : Prop := cfg.partialFrac1 + cfg.partialFrac2 - 1 / 1000000 ≤ closedFrac pos volNow

instance (volNow : ℚ) : Decidable (Done1 cfg pos volNow) := inferInstanceAs (Decidable (_ ≤ _))

instance (volNow : ℚ) : Decidable (Done2 cfg pos volNow) := inferInstanceAs (Decidable (_ ≤ _))

def rungVol1 : ℚ := snapVol sym (pos.vol0 * cfg.partialFrac1)

def rungVol2 : ℚ := snapVol sym (pos.vol0 * cfg.partialFrac2)

/-- A volume is closed if it is positive and leaves a position that is large enough. -/
def Fits (volNow v : ℚ) : Prop := 0 < v ∧ sym.minVol - 1 / 1000000000 ≤ volNow - v

instance (volNow v : ℚ) : Decidable (Fits sym volNow v) := inferInstanceAs (Decidable (_ ∧ _))

/-- The branch of the partials that a close takes. -/
inductive Branch
  | final | rung1 | rung2 | idle
  deriving DecidableEq, Repr

def branch (volNow close : ℚ) : Branch :=
  let r := pos.profit close
  if 0 < cfg.finalTpR ∧ cfg.finalTpR ≤ r then .final
  else if ¬Done1 cfg pos volNow ∧ cfg.partialR1 ≤ r then .rung1
  else if ¬Done2 cfg pos volNow ∧ cfg.partialR2 ≤ r then .rung2
  else .idle

/-- The volume that `PositionClosePartial` is called with. -/
def request (volNow : ℚ) : Branch → Option ℚ
  | .final => some volNow
  | .rung1 => if Fits sym volNow (rungVol1 cfg sym pos) then some (rungVol1 cfg sym pos) else none
  | .rung2 => if Fits sym volNow (rungVol2 cfg sym pos) then some (rungVol2 cfg sym pos) else none
  | .idle => none

end Ea

/-! ### A position over its bars -/

namespace Partials

open Ea

/-- The close of an M1 bar, and whether the terminal executes the request it leads to. -/
structure Bar where
  close : ℚ
  executed : Bool := true
  deriving DecidableEq, Repr

/-- A position, with what its rungs have done: how often each was executed, and whether a bar at the level of
rung 2 passed over it. -/
structure Ledger where
  volNow : ℚ
  isOpen : Bool := true
  fills1 : Nat := 0
  fills2 : Nat := 0
  passedOver : Bool := false
  deriving DecidableEq, Repr

variable (cfg : PartialInputs) (sym : SymbolVolumes) (pos : Opened)

/-- The bar is at the level of rung 2, which was not executed yet, and the bar neither comes to rung 2 nor closes
volume for another. -/
def PassesOver (s : Ledger) (close : ℚ) : Prop :=
  cfg.partialR2 ≤ pos.profit close ∧ s.fills2 = 0 ∧ branch cfg pos s.volNow close ≠ .rung2 ∧
    request cfg sym pos s.volNow (branch cfg pos s.volNow close) = none

instance (s : Ledger) (close : ℚ) : Decidable (PassesOver cfg sym pos s close) :=
  inferInstanceAs (Decidable (_ ∧ _ ∧ _ ∧ _))

/-- The position after a request was executed. -/
def Ledger.fill (s : Ledger) (v : ℚ) : Branch → Ledger
  | .final => { s with isOpen := false }
  | .rung1 => { s with volNow := s.volNow - v, fills1 := s.fills1 + 1 }
  | .rung2 => { s with volNow := s.volNow - v, fills2 := s.fills2 + 1 }
  | .idle => s

/-- `ManageOpenPositions` on a new M1 bar. -/
def manage (s : Ledger) (bar : Bar) : Ledger :=
  if s.isOpen = false ∨ pos.unit ≤ 0 then s
  else
    let taken := branch cfg pos s.volNow bar.close
    let s' := { s with passedOver := s.passedOver || decide (PassesOver cfg sym pos s bar.close) }
    match request cfg sym pos s.volNow taken with
    | none => s'
    | some v => if bar.executed then s'.fill v taken else s'

/-- The position when it is opened. -/
def opening : Ledger := { volNow := pos.vol0 }

/-- Each rung was executed once at most, and rung 2 was never passed over. -/
def Ledger.Sound (s : Ledger) : Prop := s.fills1 ≤ 1 ∧ s.fills2 ≤ 1 ∧ s.passedOver = false

instance (s : Ledger) : Decidable s.Sound := inferInstanceAs (Decidable (_ ∧ _ ∧ _))

/-- The volume with which the position comes to rung 2. -/
def afterRung1 : ℚ := if Done1 cfg pos pos.vol0 then pos.vol0 else pos.vol0 - rungVol1 cfg sym pos

/-- The snapped volumes are told apart by the fraction they close. -/
structure Inferable : Prop where
  /-- Rung 1 can be filled at the original volume. -/
  fits : ¬Done1 cfg pos pos.vol0 → Fits sym pos.vol0 (rungVol1 cfg sym pos)
  /-- What rung 1 closes is seen as rung 1 and not as both. -/
  first : Done1 cfg pos (afterRung1 cfg sym pos)
  notBoth : ¬Done2 cfg pos (afterRung1 cfg sym pos)
  /-- What rung 2 closes, if it can be filled, is seen as both, or it cannot be filled twice. -/
  both : Fits sym (afterRung1 cfg sym pos) (rungVol2 cfg sym pos) →
    Done2 cfg pos (afterRung1 cfg sym pos - rungVol2 cfg sym pos) ∨
      ¬Fits sym (afterRung1 cfg sym pos - rungVol2 cfg sym pos) (rungVol2 cfg sym pos)

/-! ### What is inferred from the volume -/

variable {cfg : PartialInputs} {sym : SymbolVolumes} {pos : Opened} {x y close : ℚ}

theorem closedFrac_anti (h : x ≤ y) : closedFrac pos y ≤ closedFrac pos x := by
  have hpos : 0 < max pos.vol0 (1 / 1000000000) := lt_max_of_lt_right (by norm_num)
  exact sub_le_sub_left (div_le_div_of_nonneg_right h hpos.le) 1

theorem Done1.anti (h : x ≤ y) (hdone : Done1 cfg pos y) : Done1 cfg pos x :=
  le_trans hdone (closedFrac_anti h)

theorem Done2.done1 (hdone : Done2 cfg pos x) : Done1 cfg pos x := by
  have hfrac := cfg.frac2_range.1
  unfold Done1 Done2 at *
  linarith

theorem not_final (h : pos.profit close = cfg.partialR2) : ¬(0 < cfg.finalTpR ∧ cfg.finalTpR ≤ pos.profit close) := by
  rw [h]
  rintro ⟨hon, hreached⟩
  rcases cfg.final_off_or_last with hoff | hlast
  · exact absurd hoff hon.ne'
  · exact absurd hreached (not_le.mpr hlast)

theorem branch_undone (h : pos.profit close = cfg.partialR2) (hx : ¬Done1 cfg pos x) :
    branch cfg pos x close = .rung1 := by
  unfold branch
  rw [if_neg (not_final h), if_pos ⟨hx, h ▸ cfg.r_ascending.le⟩]

theorem branch_first (h : pos.profit close = cfg.partialR2) (hx : Done1 cfg pos x) (hx' : ¬Done2 cfg pos x) :
    branch cfg pos x close = .rung2 := by
  unfold branch
  rw [if_neg (not_final h), if_neg fun hundone => hundone.1 hx, if_pos ⟨hx', h.ge⟩]

theorem branch_both (h : pos.profit close = cfg.partialR2) (hx : Done2 cfg pos x) :
    branch cfg pos x close = .idle := by
  unfold branch
  rw [if_neg (not_final h), if_neg fun hundone => hundone.1 (Done2.done1 hx), if_neg fun hundone => hundone.1 hx]

theorem of_branch_rung1 (h : branch cfg pos x close = .rung1) : ¬Done1 cfg pos x := by
  simp only [branch] at h
  split_ifs at h with _ hundone
  exact hundone.1

theorem of_branch_rung2 (h : branch cfg pos x close = .rung2) : Done1 cfg pos x ∧ ¬Done2 cfg pos x := by
  simp only [branch] at h
  split_ifs at h with _ hundone hlevel
  refine ⟨?_, hlevel.1⟩
  by_contra hdone
  exact hundone ⟨hdone, cfg.r_ascending.le.trans hlevel.2⟩

theorem exists_level (cfg : PartialInputs) {pos : Opened} (hunit : 0 < pos.unit) : ∃ close, pos.profit close = cfg.partialR2 := by
  cases hd : pos.direction with
  | long =>
    refine ⟨pos.entry + cfg.partialR2 * pos.unit, ?_⟩
    simp only [Opened.profit, hd]
    rw [add_sub_cancel_left, mul_div_cancel_right₀ _ hunit.ne']
  | short =>
    refine ⟨pos.entry - cfg.partialR2 * pos.unit, ?_⟩
    simp only [Opened.profit, hd]
    rw [sub_sub_cancel, mul_div_cancel_right₀ _ hunit.ne']

/-! ### Volumes that can be told apart -/

/-- Where a position stands on its way through the rungs. -/
inductive Stage (cfg : PartialInputs) (sym : SymbolVolumes) (pos : Opened) (s : Ledger) : Prop
  | fresh (hvol : s.volNow = pos.vol0) (hundone : ¬Done1 cfg pos pos.vol0) (h1 : s.fills1 = 0) (h2 : s.fills2 = 0)
      (hpassed : s.passedOver = false)
  | first (hvol : s.volNow = afterRung1 cfg sym pos) (h1 : s.fills1 ≤ 1) (h2 : s.fills2 = 0)
      (hpassed : s.passedOver = false)
  | both (hdone : Done1 cfg pos s.volNow)
      (hlast : Done2 cfg pos s.volNow ∨ ¬Fits sym s.volNow (rungVol2 cfg sym pos)) (h1 : s.fills1 ≤ 1)
      (h2 : s.fills2 = 1) (hpassed : s.passedOver = false)

theorem Stage.sound {s : Ledger} (h : Stage cfg sym pos s) : s.Sound := by
  cases h with
  | fresh _ _ h1 h2 hpassed => exact ⟨by omega, by omega, hpassed⟩
  | first _ h1 h2 hpassed => exact ⟨h1, by omega, hpassed⟩
  | both _ _ h1 h2 hpassed => exact ⟨h1, by omega, hpassed⟩

theorem Stage.not_passed {s : Ledger} (hinf : Inferable cfg sym pos) (h : Stage cfg sym pos s) (close : ℚ) :
    ¬PassesOver cfg sym pos s close := by
  rintro ⟨hlevel, hopen2, hbranch, hrequest⟩
  by_cases hfinal : 0 < cfg.finalTpR ∧ cfg.finalTpR ≤ pos.profit close
  · rw [branch, if_pos hfinal] at hrequest
    cases hrequest
  cases h with
  | fresh hvol hundone =>
    have hrung : branch cfg pos s.volNow close = .rung1 := by
      rw [branch, if_neg hfinal, if_pos ⟨hvol ▸ hundone, cfg.r_ascending.le.trans hlevel⟩]
    rw [hrung, hvol, request, if_pos (hinf.fits hundone)] at hrequest
    cases hrequest
  | first hvol =>
    rw [branch, if_neg hfinal, if_neg fun hundone => hundone.1 (hvol ▸ hinf.first),
      if_pos ⟨hvol ▸ hinf.notBoth, hlevel⟩] at hbranch
    exact hbranch rfl
  | both _ _ _ h2 => omega

theorem Stage.fill {s : Ledger} (hinf : Inferable cfg sym pos) (h : Stage cfg sym pos s) {v : ℚ}
    (hv : request cfg sym pos s.volNow (branch cfg pos s.volNow close) = some v) :
    Stage cfg sym pos (s.fill v (branch cfg pos s.volNow close)) := by
  cases hbranch : branch cfg pos s.volNow close with
  | final =>
    cases h with
    | fresh hvol hundone h1 h2 hpassed => exact .fresh hvol hundone h1 h2 hpassed
    | first hvol h1 h2 hpassed => exact .first hvol h1 h2 hpassed
    | both hdone hlast h1 h2 hpassed => exact .both hdone hlast h1 h2 hpassed
  | rung1 =>
    have hundone := of_branch_rung1 hbranch
    rw [hbranch, request] at hv
    split_ifs at hv
    cases hv
    cases h with
    | fresh hvol hundone0 h1 h2 hpassed =>
      refine .first ?_ (by simp [Ledger.fill, h1]) h2 hpassed
      rw [afterRung1, if_neg hundone0, ← hvol]
      rfl
    | first hvol => exact absurd (hvol ▸ hinf.first) hundone
    | both hdone => exact absurd hdone hundone
  | rung2 =>
    obtain ⟨hdone1, hundone2⟩ := of_branch_rung2 hbranch
    rw [hbranch, request] at hv
    split_ifs at hv with hfits
    cases hv
    cases h with
    | fresh hvol hundone0 => exact absurd (hvol ▸ hdone1) hundone0
    | first hvol h1 h2 hpassed =>
      rw [hvol] at hfits
      refine .both ?_ ?_ h1 (by simp [Ledger.fill, h2]) hpassed
      · exact Done1.anti (sub_le_self _ hfits.1.le) hdone1
      · simp only [Ledger.fill, hvol]
        exact hinf.both hfits
    | both _ hlast =>
      rcases hlast with hlast | hlast
      · exact absurd hlast hundone2
      · exact absurd hfits hlast
  | idle =>
    rw [hbranch] at hv
    cases hv

theorem Stage.manage {s : Ledger} (hinf : Inferable cfg sym pos) (h : Stage cfg sym pos s) (bar : Bar) :
    Stage cfg sym pos (manage cfg sym pos s bar) := by
  have hpassed : { s with passedOver := s.passedOver || decide (PassesOver cfg sym pos s bar.close) } = s := by
    rw [decide_eq_false (h.not_passed hinf bar.close), Bool.or_false]
  unfold Partials.manage
  by_cases hclosed : s.isOpen = false ∨ pos.unit ≤ 0
  · rwa [if_pos hclosed]
  · rw [if_neg hclosed]
    simp only [hpassed]
    cases hv : request cfg sym pos s.volNow (branch cfg pos s.volNow bar.close) with
    | none => exact h
    | some v =>
      simp only
      split
      · exact h.fill hinf hv
      · exact h

/-! ### Volumes that cannot -/

section level

variable {s : Ledger} (hopen : s.isOpen = true) (hunit : 0 < pos.unit)

include hopen hunit

theorem manage_none (hv : request cfg sym pos s.volNow (branch cfg pos s.volNow close) = none) :
    manage cfg sym pos s { close := close } =
      { s with passedOver := s.passedOver || decide (PassesOver cfg sym pos s close) } := by
  unfold manage
  rw [if_neg (by simp [hopen, hunit])]
  simp [hv]

theorem manage_some {v : ℚ} (hv : request cfg sym pos s.volNow (branch cfg pos s.volNow close) = some v) :
    manage cfg sym pos s { close := close } =
      { s with passedOver := s.passedOver || decide (PassesOver cfg sym pos s close) }.fill v
        (branch cfg pos s.volNow close) := by
  unfold manage
  rw [if_neg (by simp [hopen, hunit])]
  simp [hv]

/-- A bar at the level of rung 2 that does nothing, and does not come to rung 2, passes over it. -/
theorem manage_passes (hlevel : pos.profit close = cfg.partialR2) (h2 : s.fills2 = 0)
    (hbranch : branch cfg pos s.volNow close ≠ .rung2)
    (hv : request cfg sym pos s.volNow (branch cfg pos s.volNow close) = none) :
    (manage cfg sym pos s { close := close }).passedOver = true := by
  rw [manage_none hopen hunit hv]
  simp [PassesOver, hlevel, h2, hbranch, hv]

end level

/-- Sound however many bars at the level of rung 2 follow. -/
def StaysSound (cfg : PartialInputs) (sym : SymbolVolumes) (pos : Opened) (close : ℚ) (s : Ledger) : Prop :=
  ∀ n, (Lib.run (manage cfg sym pos) s (List.replicate n { close := close })).Sound

theorem StaysSound.now {s : Ledger} (h : StaysSound cfg sym pos close s) : s.Sound := h 0

theorem StaysSound.next {s : Ledger} (h : StaysSound cfg sym pos close s) :
    StaysSound cfg sym pos close (manage cfg sym pos s { close := close }) := fun n => h (n + 1)

section level

variable {s : Ledger} (hopen : s.isOpen = true) (hunit : 0 < pos.unit) (hlevel : pos.profit close = cfg.partialR2)

include hopen hunit hlevel

theorem StaysSound.comes (h : StaysSound cfg sym pos close s) (h2 : s.fills2 = 0)
    (hbranch : branch cfg pos s.volNow close ≠ .rung2) :
    request cfg sym pos s.volNow (branch cfg pos s.volNow close) ≠ none := by
  intro hv
  have hpassed := manage_passes hopen hunit hlevel h2 hbranch hv
  have hsound := h.next.now.2.2
  rw [hpassed] at hsound
  cases hsound

/-- A position whose rung 1 is not seen as done is closed by rung 1. -/
theorem StaysSound.rung1 (h : StaysSound cfg sym pos close s) (h2 : s.fills2 = 0)
    (hundone : ¬Done1 cfg pos s.volNow) :
    Fits sym s.volNow (rungVol1 cfg sym pos) ∧
      manage cfg sym pos s { close := close } =
        { s with
          volNow := s.volNow - rungVol1 cfg sym pos
          fills1 := s.fills1 + 1
          passedOver := (manage cfg sym pos s { close := close }).passedOver } := by
  have hbranch := branch_undone hlevel hundone
  have hcomes := h.comes hopen hunit hlevel h2 (by simp [hbranch])
  have hfits : Fits sym s.volNow (rungVol1 cfg sym pos) := by
    by_contra hno
    rw [hbranch, request, if_neg hno] at hcomes
    exact hcomes rfl
  have hv : request cfg sym pos s.volNow (branch cfg pos s.volNow close) = some (rungVol1 cfg sym pos) := by
    rw [hbranch, request, if_pos hfits]
  refine ⟨hfits, ?_⟩
  rw [manage_some hopen hunit hv, hbranch]
  rfl

/-- What rung 2 has closed is seen, or cannot be closed again. -/
theorem StaysSound.last (h : StaysSound cfg sym pos close s) (h2 : s.fills2 = 1) (hdone : Done1 cfg pos s.volNow) :
    Done2 cfg pos s.volNow ∨ ¬Fits sym s.volNow (rungVol2 cfg sym pos) := by
  by_contra hno
  obtain ⟨hundone2, hfits⟩ := not_or.mp hno
  rw [not_not] at hfits
  have hbranch := branch_first hlevel hdone hundone2
  have hv : request cfg sym pos s.volNow (branch cfg pos s.volNow close) = some (rungVol2 cfg sym pos) := by
    rw [hbranch, request, if_pos hfits]
  have hsound := h.next.now.2.1
  rw [manage_some hopen hunit hv, hbranch] at hsound
  simp only [Ledger.fill, h2] at hsound
  omega

/-- At the volume with which it comes to rung 2, the position is seen as it is. -/
theorem StaysSound.rung2 (h : StaysSound cfg sym pos close s) (h2 : s.fills2 = 0)
    (hdone : Done1 cfg pos s.volNow) :
    ¬Done2 cfg pos s.volNow ∧
      (Fits sym s.volNow (rungVol2 cfg sym pos) →
        Done2 cfg pos (s.volNow - rungVol2 cfg sym pos) ∨
          ¬Fits sym (s.volNow - rungVol2 cfg sym pos) (rungVol2 cfg sym pos)) := by
  have hundone2 : ¬Done2 cfg pos s.volNow := by
    intro hdone2
    have hbranch := branch_both hlevel hdone2
    refine h.comes hopen hunit hlevel h2 (by simp [hbranch]) ?_
    rw [hbranch]
    rfl
  refine ⟨hundone2, fun hfits => ?_⟩
  have hbranch := branch_first hlevel hdone hundone2
  have hv : request cfg sym pos s.volNow (branch cfg pos s.volNow close) = some (rungVol2 cfg sym pos) := by
    rw [hbranch, request, if_pos hfits]
  have hnext := manage_some hopen hunit hv
  rw [hbranch] at hnext
  have hvol : (manage cfg sym pos s { close := close }).volNow = s.volNow - rungVol2 cfg sym pos := by
    rw [hnext]
    rfl
  have hopen' : (manage cfg sym pos s { close := close }).isOpen = true := by
    rw [hnext]
    exact hopen
  have h2' : (manage cfg sym pos s { close := close }).fills2 = 1 := by
    rw [hnext]
    simp [Ledger.fill, h2]
  have hlast := StaysSound.last hopen' hunit hlevel h.next h2'
  rw [hvol] at hlast
  exact hlast (Done1.anti (sub_le_self _ hfits.1.le) hdone)

end level

/-- **Each rung at most once, and rung 2 at its level,** over every sequence of bars: exactly for the volumes that can
be told apart, and for a position without a stop on record, which is left alone. -/
theorem partials_sound_iff (cfg : PartialInputs) (sym : SymbolVolumes) (pos : Opened) :
    (∀ bars, (Lib.run (manage cfg sym pos) (opening pos) bars).Sound) ↔
      pos.unit ≤ 0 ∨ Inferable cfg sym pos := by
  constructor
  · intro hall
    by_cases hunit : pos.unit ≤ 0
    · exact Or.inl hunit
    rw [not_le] at hunit
    obtain ⟨close, hlevel⟩ := exists_level cfg hunit
    have hstays : StaysSound cfg sym pos close (opening pos) := fun n => hall _
    right
    by_cases hdone : Done1 cfg pos pos.vol0
    · obtain ⟨hnot, hboth⟩ := hstays.rung2 rfl hunit hlevel rfl hdone
      have hvol : afterRung1 cfg sym pos = pos.vol0 := if_pos hdone
      refine ⟨fun h => absurd hdone h, ?_, ?_, ?_⟩ <;> rw [hvol]
      · exact hdone
      · exact hnot
      · exact hboth
    · obtain ⟨hfits, hnext⟩ := hstays.rung1 rfl hunit hlevel rfl hdone
      have hvol : afterRung1 cfg sym pos = pos.vol0 - rungVol1 cfg sym pos := if_neg hdone
      have hstays' := hstays.next
      rw [hnext] at hstays'
      have hdone' : Done1 cfg pos (pos.vol0 - rungVol1 cfg sym pos) := by
        by_contra hundone
        obtain ⟨-, hagain⟩ := hstays'.rung1 rfl hunit hlevel rfl hundone
        have hsound := hstays'.next.now.1
        rw [hagain] at hsound
        simp [opening] at hsound
      obtain ⟨hnot, hboth⟩ := hstays'.rung2 rfl hunit hlevel rfl hdone'
      refine ⟨fun _ => hfits, ?_, ?_, ?_⟩ <;> rw [hvol]
      · exact hdone'
      · exact hnot
      · exact hboth
  · rintro (hunit | hinf) bars
    · have hstill (s : Ledger) (bar : Bar) : manage cfg sym pos s bar = s := by
        rw [manage, if_pos (Or.inr hunit)]
      have hrun : Lib.run (manage cfg sym pos) (opening pos) bars = opening pos :=
        Lib.run_always (I := fun s => s = opening pos) (fun s bar hs => (hstill s bar).trans hs) rfl bars
      rw [hrun]
      exact ⟨by simp [opening], by simp [opening], rfl⟩
    · have hinit : Stage cfg sym pos (opening pos) := by
        by_cases hdone : Done1 cfg pos pos.vol0
        · exact .first (if_pos hdone).symm (by simp [opening]) rfl rfl
        · exact .fresh rfl hdone rfl rfl rfl
      exact (Lib.run_always (fun s bar h => h.manage hinf bar) hinit bars).sound

/-- A tenth of a lot comes to 0.04 and 0.03. -/
example : Inferable {} {} ⟨.long, 2000, 1998, 1 / 10⟩ :=
  ⟨by decide +kernel, by decide +kernel, by decide +kernel, by decide +kernel⟩

/-- **Rung 1 of 0.03 lots is executed twice:** 0.01 of it is a third, less than the 40% that count as done. With a
minimum of 0.04 rung 1 of 0.05 lots cannot be filled, and rung 2, which could be, is passed over. -/
theorem partials_unsound :
    (Lib.run (manage {} {} ⟨.long, 2000, 1998, 3 / 100⟩) (opening ⟨.long, 2000, 1998, 3 / 100⟩)
        [{ close := 2010 }, { close := 2010 }]).fills1 = 2 ∧
      (Lib.run (manage {} { minVol := 4 / 100 } ⟨.long, 2000, 1998, 5 / 100⟩)
        (opening ⟨.long, 2000, 1998, 5 / 100⟩) [{ close := 2014 }]).passedOver = true ∧
      Fits { minVol := 4 / 100 } (5 / 100) (rungVol2 {} { minVol := 4 / 100 } ⟨.long, 2000, 1998, 5 / 100⟩) := by
  decide +kernel

end Partials

end FreqTrading
