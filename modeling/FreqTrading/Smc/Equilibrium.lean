import FreqTrading.Engine.OneTrade
import FreqTrading.Smc.Contract

/-!
# Premium and discount

The check of `_check_premium_discount` compares the close with the mid of the day's value area, and passes while the
profile is not ready. It follows the mid of the day's range, up to a row of the profile, exactly when the profile is
ready and its value area lies in the middle of the range (`follows_iff`); over runs this is `premium_discount_iff`.
-/

namespace FreqTrading

open Lib

theorem VolumeProfile.poc_of_levels_none {p : VolumeProfile} (h : p.levels = none) : p.poc = none := by
  unfold levels at h
  unfold poc
  by_cases hready : p.ready = true
  · rw [if_pos hready] at h ⊢
    have htotal : ¬ p.total ≤ 0 := by
      unfold ready at hready
      simp only [Bool.and_eq_true, decide_eq_true_eq] at hready
      exact not_le.mpr hready.2
    cases hrow : p.pocRow with
    | none => rfl
    | some row =>
      cases hspan : p.span with
      | none =>
        unfold pocRow at hrow
        rw [hspan] at hrow
        cases hrow
      | some span =>
        obtain ⟨mn, mx⟩ := span
        have harea : p.valueArea ≠ none := by
          unfold valueArea
          simp only [hrow, hspan, if_neg htotal]
          exact Option.some_ne_none _
        rw [hrow] at h
        cases hva : p.valueArea with
        | none => exact absurd hva harea
        | some area =>
          rw [hva] at h
          cases h
  · rw [if_neg hready]

namespace SmcEngine

variable {cfg : SmcConfig} {e : SmcEngine} {low high : ℚ}

/-- With `low` and `high` the range of the day so far, the check passes exactly on its own side of the mid, up to a row
of the profile, and there is a level to compare the close with. -/
structure FollowsMid (cfg : SmcConfig) (e : SmcEngine) (low high : ℚ) (bar : Candle) : Prop where
  evaluable : e.dayEquilibrium.or e.dayProfile.poc ≠ none
  long_passes : bar.close ≤ (low + high) / 2 - cfg.rowSize → e.checkPremiumDiscount bar .long = true
  long_only : e.checkPremiumDiscount bar .long = true → bar.close ≤ (low + high) / 2 + cfg.rowSize
  short_passes : (low + high) / 2 + cfg.rowSize ≤ bar.close → e.checkPremiumDiscount bar .short = true
  short_only : e.checkPremiumDiscount bar .short = true → (low + high) / 2 - cfg.rowSize ≤ bar.close

/-- The profile is ready, and its value area leaves as much of the range below it as above, to within two rows. -/
def Centred (cfg : SmcConfig) (e : SmcEngine) (low high : ℚ) : Prop :=
  ∃ lv, e.dayProfile.levels = some lv ∧ |(lv.val - low) - (high - lv.vah)| ≤ 2 * cfg.rowSize

theorem check_of_levels {lv : ProfileLevels} (h : e.dayProfile.levels = some lv) (bar : Candle) :
    (e.checkPremiumDiscount bar .long = true ↔ bar.close ≤ (lv.vah + lv.val) / 2) ∧
      (e.checkPremiumDiscount bar .short = true ↔ (lv.vah + lv.val) / 2 ≤ bar.close) := by
  unfold checkPremiumDiscount dayEquilibrium
  rw [h]
  simp only [Option.map_some, Option.some_or, decide_eq_true_eq, and_self]

/-- **One decision.** The check follows the mid of the range, whatever the close, exactly when the value area is
centred. -/
theorem follows_iff (cfg : SmcConfig) (e : SmcEngine) (low high : ℚ) :
    (∀ bar, FollowsMid cfg e low high bar) ↔ Centred cfg e low high := by
  constructor
  · intro h
    cases hlv : e.dayProfile.levels with
    | none =>
      -- nothing to compare with: the check passes for lack of data
      refine absurd ?_ (h (barOf 0 0 0 0 0)).evaluable
      unfold dayEquilibrium
      rw [hlv, VolumeProfile.poc_of_levels_none hlv]
      rfl
    | some lv =>
      refine ⟨lv, hlv, ?_⟩
      -- a close at the level compared with, and one at the lower end of the band
      have hat := (h (barOf 0 0 0 0 ((lv.vah + lv.val) / 2))).long_only ((check_of_levels hlv _).1.mpr le_rfl)
      have hlow := (check_of_levels hlv _).1.mp
        ((h (barOf 0 0 0 0 ((low + high) / 2 - cfg.rowSize))).long_passes le_rfl)
      simp only [barOf] at hat hlow
      rw [abs_le]
      constructor <;> linarith
  · rintro ⟨lv, hlv, hcentred⟩ bar
    obtain ⟨hlong, hshort⟩ := check_of_levels hlv bar
    rw [abs_le] at hcentred
    obtain ⟨hbelow, habove⟩ := hcentred
    constructor
    · unfold dayEquilibrium
      rw [hlv]
      exact Option.some_ne_none _
    · intro hclose
      rw [hlong]
      linarith
    · intro hpass
      rw [hlong] at hpass
      linarith
    · intro hclose
      rw [hshort]
      linarith
    · intro hpass
      rw [hshort] at hpass
      linarith

end SmcEngine

/-! ### Runs -/

/-- An engine and the candles it has accepted, oldest first. -/
structure DayRun where
  engine : SmcEngine
  candles : List Candle := []

namespace DayRun

open SmcEngine

variable (cfg : SmcConfig)

def step (r : DayRun) : SmcInput → DayRun
  | .candle raw =>
    match validate raw, r.engine.onCandle cfg raw with
    | .ok c, .ok (_, e) =>
      { engine := e, candles := if r.engine.isLate c.ts then r.candles else r.candles ++ [c] }
    | _, _ => r
  | .forceFlat ts => { r with engine := (r.engine.forceFlat ts).2 }

/-- The candles of the UTC day of `c` that came before it. -/
def today (r : DayRun) (c : Candle) : List Candle := r.candles.filter fun before => date before.ts = date c.ts

/-- The low of the day so far. -/
def low (r : DayRun) (c : Candle) : ℚ := ((r.today c).map (·.low)).foldl min c.low

/-- The high of the day so far. -/
def high (r : DayRun) (c : Candle) : ℚ := ((r.today c).map (·.high)).foldl max c.high

/-- The condition, whenever a candle completes a decision bar: of the engine that decides, the range of the day and
the bar. -/
def AtDecisions (P : SmcEngine → ℚ → ℚ → Candle → Prop) (r : DayRun) : SmcInput → Prop
  | .candle raw => ∀ c m15c event e, validate raw = .ok c → r.engine.isLate c.ts = false →
      (r.engine.feed cfg c).feedM15 c = (some (m15c, event), e) → P e (r.low c) (r.high c) m15c
  | .forceFlat _ => True

theorem AtDecisions.imp {cfg : SmcConfig} {P Q : SmcEngine → ℚ → ℚ → Candle → Prop}
    (hPQ : ∀ e low high bar, P e low high bar → Q e low high bar) (r : DayRun) (input : SmcInput)
    (h : AtDecisions cfg P r input) : AtDecisions cfg Q r input := by
  cases input with
  | candle raw => exact fun c m15c event e hc hlate hbar => hPQ _ _ _ _ (h c m15c event e hc hlate hbar)
  | forceFlat ts => trivial

/-- **Premium and discount are those of the day's mid** at every decision of a run, if the value area is centred in
the day's range at every decision; and for bars of any close, only if it is. -/
theorem premium_discount_iff (e : SmcEngine) (inputs : List SmcInput) :
    (StepsMeet (step cfg) (AtDecisions cfg fun e low high _ => Centred cfg e low high) ⟨e, []⟩ inputs →
        StepsMeet (step cfg) (AtDecisions cfg (FollowsMid cfg)) ⟨e, []⟩ inputs) ∧
      (StepsMeet (step cfg) (AtDecisions cfg fun e low high _ => ∀ bar, FollowsMid cfg e low high bar) ⟨e, []⟩ inputs ↔
        StepsMeet (step cfg) (AtDecisions cfg fun e low high _ => Centred cfg e low high) ⟨e, []⟩ inputs) := by
  refine ⟨fun h => ?_, fun h => ?_, fun h => ?_⟩
  · exact h.mono (AtDecisions.imp fun e low high bar hcentred => (follows_iff cfg e low high).mpr hcentred bar)
  · exact h.mono (AtDecisions.imp fun e low high _ => (follows_iff cfg e low high).mp)
  · exact h.mono (AtDecisions.imp fun e low high _ => (follows_iff cfg e low high).mpr)

/-- The first half hour of a day, every minute from 10 up to 20. -/
def morning : List SmcInput :=
  (List.range 30).map fun (m : Nat) => .candle (EngineRun.minuteBar m 10 20 10 20)

/-- At the first decision bar the profile is not ready: its close at the high of the day is a discount. -/
theorem discount_at_high :
    ¬ ∀ (cfg : SmcConfig) (e : SmcEngine) (inputs : List SmcInput), create cfg = .ok e →
      StepsMeet (step cfg) (AtDecisions cfg (FollowsMid cfg)) ⟨e, []⟩ inputs := by
  intro h
  have hrun : (create SmcConfig.default).toOption.bind (fun e =>
      let r := run (step SmcConfig.default) ⟨e, []⟩ morning
      (validate (EngineRun.minuteBar 30 10 20 10 20)).toOption.bind fun c =>
        ((r.engine.feed SmcConfig.default c).feedM15 c).1.map fun (m15c, _) =>
          (r.engine.isLate c.ts, ((r.engine.feed SmcConfig.default c).feedM15 c).2.checkPremiumDiscount m15c .long,
            m15c.close, r.low c, r.high c)) = some (false, true, 20, 10, 20) := by
    decide +kernel
  cases hcreate : create SmcConfig.default with
  | error text =>
    rw [hcreate] at hrun
    cases hrun
  | ok e =>
    have hmeet := h SmcConfig.default e (morning ++ [.candle (EngineRun.minuteBar 30 10 20 10 20)]) hcreate
    have hlast := hmeet.of_append.2.1
    rw [hcreate] at hrun
    simp only [Except.toOption, Option.bind_some] at hrun
    generalize run (step SmcConfig.default) ⟨e, []⟩ morning = r at hrun hlast
    obtain ⟨c, hc, hrun⟩ := Option.bind_eq_some_iff.mp hrun
    obtain ⟨⟨m15c, event⟩, hdone, hvalues⟩ := Option.map_eq_some_iff.mp hrun
    simp only [Prod.mk.injEq] at hvalues
    obtain ⟨hlate, hpass, hclose, hlow, hhigh⟩ := hvalues
    have hvalid : validate (EngineRun.minuteBar 30 10 20 10 20) = .ok c := by
      cases hval : validate (EngineRun.minuteBar 30 10 20 10 20) with
      | error fault =>
        rw [hval] at hc
        cases hc
      | ok found =>
        rw [hval] at hc
        cases hc
        rfl
    have hmid := (hlast c m15c event _ hvalid hlate (Prod.ext hdone rfl)).long_only hpass
    have hrow : SmcConfig.default.rowSize = 1 := by decide +kernel
    rw [hlow, hhigh, hclose, hrow] at hmid
    norm_num at hmid

end DayRun

end FreqTrading
