import FreqTrading.Engine.OneTrade
import FreqTrading.Stream

/-!
# What a stream survives

`CandleStream.run` gets through its candles if and only if no bar divides by zero and the clock can place every bar
that is on time. `ROC.value` is the only code behind the checks of `on_candle` that raises: `validate` accepts a close
of zero, and `rocPeriod` bars later it is the divisor of the momentum filter. `DividesByZero` is the bar at which that
happens, read off the engine before the bar. Before the handlers, `classify` raises at the two ends of `datetime`.
-/

namespace FreqTrading

open Lib

/-! ### Streams that reach their end -/

section Stream

variable {ε : Type} {onCandle : ε → RawCandle → Except EngineError (Option Signal × ε)}

/-- The engine a stream goes on with after a candle. -/
def CandleStream.advance (onCandle : ε → RawCandle → Except EngineError (Option Signal × ε)) (engine : ε)
    (candle : RawCandle) : ε :=
  match onCandle engine candle with
  | .error _ => engine
  | .ok (_, engine) => engine

/-- The call raises nothing, or one of the two data errors. -/
def Handled (onCandle : ε → RawCandle → Except EngineError (Option Signal × ε)) (engine : ε) (candle : RawCandle) : Prop :=
  ∀ err, onCandle engine candle = .error err → err.isData = true

theorem CandleStream.raised_none_iff (engine : ε) (source : List RawCandle) :
    (CandleStream.run onCandle false engine source).raised = none ↔
      StepsMeet (CandleStream.advance onCandle) (Handled onCandle) engine source := by
  induction source generalizing engine with
  | nil => exact ⟨fun _ => trivial, fun _ => rfl⟩
  | cons candle source ih =>
    rw [CandleStream.run, StepsMeet, CandleStream.advance, Handled]
    cases hout : onCandle engine candle with
    | ok out =>
      rw [← ih]
      exact ⟨fun h => ⟨fun _ herr => (by cases herr), h⟩, fun h => h.2⟩
    | error err =>
      rw [← ih]
      by_cases hdata : err.isData = true
      · simp only [hdata, Bool.not_false, Bool.and_self, if_true]
        exact ⟨fun h => ⟨fun _ herr => (by cases herr; exact hdata), h⟩, fun h => h.2⟩
      · simp only [hdata, Bool.false_and, Bool.false_eq_true, if_false]
        exact ⟨fun h => (by cases h), fun h => absurd (h.1 err rfl) hdata⟩

end Stream

namespace OrbEngine

variable {cfg : OrbConfig} {e : OrbEngine} {c : Candle} {info : SessionInfo}

/-! ### The bar that divides by zero -/

/-- A bar of the current session, neither late nor after a gap that resets the engine, finds the engine armed
and breaks out of its range while the oldest close of the momentum window is zero. -/
def DividesByZero (cfg : OrbConfig) (e : OrbEngine) (c : Candle) : Prop :=
  let info := SessionClock.place cfg c.ts
  e.isLate c.ts = false ∧ some info.sessionId = e.sessionId ∧ info.zone ≠ .after ∧ ¬ e.GapResets cfg c.ts ∧
    e.state = .rangeDefined ∧ (e.feedIndicators cfg c info).Divides cfg c info

instance (e : OrbEngine) (c : Candle) : Decidable (e.DividesByZero cfg c) := inferInstanceAs (Decidable (_ ∧ _))

/-- The candle is malformed or late, or its sessions are within the years 1 to 9999 and it does not divide by zero. -/
def Survivable (cfg : OrbConfig) (e : OrbEngine) (raw : RawCandle) : Prop :=
  ∀ c, validate raw = .ok c → e.isLate c.ts = false → ¬ SessionClock.Overflows cfg c.ts ∧ ¬ e.DividesByZero cfg c

/-! ### It raises -/

theorem momentum_error (hwarm : e.warm cfg = true) (hdiv : e.ZeroDivisor cfg) (direction : Direction) :
    e.momentum cfg c direction = .error .indicator := by
  have hvalue : e.roc.value = none := by
    unfold ROC.value
    rw [if_pos (roc_ready hwarm hdiv.1), if_pos hdiv.2]
  unfold momentum
  simp only [hdiv.1, hvalue]
  rfl

theorem checkBreakout_error (hwarm : e.warm cfg = true) (hbreak : e.breaksOut cfg c = true) (hdiv : e.ZeroDivisor cfg) :
    e.checkBreakout cfg c = .error .indicator := by
  unfold breaksOut at hbreak
  unfold checkBreakout
  cases hdir : e.breakoutDirection c with
  | error err => simp only [hdir, Bool.false_eq_true] at hbreak
  | ok direction =>
    rw [hdir] at hbreak
    cases direction with
    | none => simp only [Bool.false_eq_true] at hbreak
    | some direction =>
      simp only [ok_bind, hbreak, momentum_error hwarm hdiv direction]
      rfl

theorem onRangeDefined_error (hdiv : e.Divides cfg c info) : e.onRangeDefined cfg c info = .error .indicator := by
  obtain ⟨hbuild, hwarm, hbreak, hzero⟩ := hdiv
  unfold onRangeDefined
  rw [if_neg hbuild]
  simp only [settleRange_warm, hwarm, Bool.not_true, Bool.false_eq_true, if_false]
  refine checkBreakout_error (settleRange_warm.trans hwarm) ?_ ?_
  · unfold breaksOut at hbreak ⊢
    rw [settleRange_breakoutDirection]
    exact hbreak
  · unfold ZeroDivisor at hzero ⊢
    rw [settleRange_roc]
    exact hzero

theorem feedIndicators_stamped (cfg : OrbConfig) (e : OrbEngine) (c : Candle) (info : SessionInfo) (ts : Int) :
    ({ e with lastTs := some ts } : OrbEngine).feedIndicators cfg c info =
      { e.feedIndicators cfg c info with lastTs := some ts } := by
  unfold feedIndicators
  split <;> rfl

theorem onCandle_divides {raw : RawCandle} (hc : validate raw = .ok c) (hfits : ¬ SessionClock.Overflows cfg c.ts)
    (hdiv : e.DividesByZero cfg c) : e.onCandle cfg raw = .error .indicator := by
  obtain ⟨hlate, hid, hzone, hgap, hstate, hdiv⟩ := hdiv
  have hentered : ({ e with lastTs := some c.ts } : OrbEngine).feedIndicators cfg c (SessionClock.place cfg c.ts) |>.Divides
      cfg c (SessionClock.place cfg c.ts) := by
    rw [feedIndicators_stamped]
    exact hdiv
  have hdispatch : (({ e with lastTs := some c.ts } : OrbEngine).feedIndicators cfg c (SessionClock.place cfg c.ts)).dispatch
      cfg c (SessionClock.place cfg c.ts) = .error .indicator := by
    have hfed : (({ e with lastTs := some c.ts } : OrbEngine).feedIndicators cfg c (SessionClock.place cfg c.ts)).state =
        e.state := feedIndicators_state
    unfold dispatch
    rw [hfed.trans hstate]
    exact onRangeDefined_error hentered
  unfold onCandle sameSession
  simp only [hc, Except.mapError, ok_bind, hlate, Bool.false_eq_true, if_false]
  rw [classified_eq, if_neg hfits, ok_bind]
  simp only [hid, ne_eq, not_true_eq_false, if_false, hzone, hgap, pure_eq_ok, ok_bind]
  exact hdispatch

/-! ### Nothing else raises -/

theorem afterGap_not_divides (cfg : OrbConfig) (e : OrbEngine) (c : Candle) (info : SessionInfo) :
    ¬ (({ e.afterGap cfg info with lastTs := some c.ts } : OrbEngine).feedIndicators cfg c info).Divides cfg c info := by
  rintro ⟨-, hwarm, -, huse, -⟩
  have hready := roc_ready hwarm huse
  have hperiod : ¬ cfg.rocPeriod < 1 := by
    have hcheck : (decide (cfg.rocPeriod < 1), "roc_period must be >= 1") ∈ cfg.checks := by
      simp [OrbConfigFields.checks]
    simpa using cfg.check_passes hcheck
  have hroc : (e.afterGap cfg info).roc = { period := cfg.rocPeriod } := by
    unfold afterGap buildIndicators
    split <;> rfl
  rw [feedIndicators_stamped] at hready
  unfold feedIndicators at hready
  by_cases hin : info.zone.Inside
  · rw [if_pos hin] at hready
    simp only [huse, if_true, hroc, ROC.update, ROC.ready, pushBounded, List.nil_append, List.length_drop,
      List.length_singleton, List.length_nil, decide_eq_true_eq] at hready
    omega
  · rw [if_neg hin] at hready
    simp only [hroc, ROC.ready, List.length_nil, decide_eq_true_eq] at hready
    omega

theorem entered_not_divides (hlate : e.isLate c.ts = false) (hdiv : ¬ e.DividesByZero cfg c) {entered : OrbEngine}
    (hintake : IntakeStep cfg e c (SessionClock.place cfg c.ts) (.go entered)) (hstate : entered.state = .rangeDefined) :
    ¬ (entered.feedIndicators cfg c (SessionClock.place cfg c.ts)).Divides cfg c (SessionClock.place cfg c.ts) := by
  cases hintake with
  | fresh hid hbreak => cases hstate
  | gapReset hid hzone hgap hbreak => exact afterGap_not_divides cfg e c _
  | plain hid hzone hgap =>
    intro hentered
    rw [feedIndicators_stamped] at hentered
    exact hdiv ⟨hlate, hid, hzone, hgap, hstate, hentered⟩

/-- **What an engine in order raises**: a bar is handled by the stream if and only if it is survivable. -/
theorem handled_iff (hsound : Sound cfg e) (raw : RawCandle) :
    Handled (onCandle cfg) e raw ↔ e.Survivable cfg raw := by
  constructor
  · intro h c hc hlate
    have hfits : ¬ SessionClock.Overflows cfg c.ts := fun hover => by cases h _ (onCandle_overflow hc hlate hover)
    exact ⟨hfits, fun hdiv => by cases h _ (onCandle_divides hc hfits hdiv)⟩
  · intro h err herr
    rcases onCandle_error_cases herr with hdata | ⟨c, hc, hlate⟩
    · exact hdata
    · obtain ⟨hfits, hdiv⟩ := h c hc hlate
      obtain ⟨r, hr⟩ := onCandle_ok hsound hc hlate hfits fun entered hintake hstate =>
        entered_not_divides hlate hdiv hintake hstate
      cases hr.symm.trans herr

theorem advance_sound (hsound : Sound cfg e) (raw : RawCandle) : Sound cfg (CandleStream.advance (onCandle cfg) e raw) := by
  unfold CandleStream.advance
  cases hout : e.onCandle cfg raw with
  | error err => exact hsound
  | ok out =>
    obtain ⟨c, -, hstep⟩ := onCandle_cases hsound.core.ne_exit hout
    exact hstep.sound hsound

/-- **What a stream survives.** -/
theorem stream_survives_iff (cfg : OrbConfig) (source : List RawCandle) :
    (CandleStream.run (onCandle cfg) false (init cfg) source).raised = none ↔
      StepsMeet (CandleStream.advance (onCandle cfg)) (Survivable cfg) (init cfg) source := by
  rw [CandleStream.raised_none_iff]
  have hstep : ∀ {C : OrbEngine → RawCandle → Prop}, ∀ s i, Sound cfg s → C s i →
      Sound cfg (CandleStream.advance (onCandle cfg) s i) := fun _ raw hs _ => advance_sound hs raw
  constructor
  · exact fun h => StepsMeet.of_invariant hstep (fun s raw hs => (handled_iff hs raw).mp) sound_init h
  · exact fun h => StepsMeet.of_invariant hstep (fun s raw hs => (handled_iff hs raw).mpr) sound_init h

/-- The default settings with one-bar indicators and no volume filter. -/
def oneBarConfig : OrbConfig :=
  ⟨{ rangeMinutes := 1, atrPeriod := 1, rocPeriod := 1, useRvol := false }, by decide +kernel⟩

/-- A range whose bar closes at zero, and a breakout on the next bar. -/
theorem stream_stopped :
    ¬ ∀ (cfg : OrbConfig) (source : List RawCandle), (∀ raw ∈ source, (validate raw).isOk = true) →
      (CandleStream.run (onCandle cfg) false (init cfg) source).raised = none := by
  intro h
  have hrun := h oneBarConfig [EngineRun.minuteBar 0 5 10 0 0, EngineRun.minuteBar 1 5 20 5 20] (by decide +kernel)
  exact absurd hrun (by decide +kernel)

end OrbEngine

end FreqTrading
