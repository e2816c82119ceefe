import FreqTrading.Lib.Program
import FreqTrading.Engine.Basic

/-!
# What one bar can do

Every run of `onCandle` that returns is one of a few steps. `IntakeStep` says how the bar enters (a new
session, the end of the session, a gap, or plainly), `HandlerStep` what the handler of the engine's state
does with it. The two are inversions of the code: each constructor carries the guards of its branch and
the signal and engine the branch returns, so that an invariant is checked branch by branch without
unfolding the code again.
-/

namespace FreqTrading.OrbEngine

open Lib

variable {cfg : OrbConfig} {e e' : OrbEngine} {c : Candle} {info : SessionInfo} {sig : Option Signal}

/-- The position after the bar has been counted, in the engine. -/
def holding (e : OrbEngine) (pos : PositionState) : OrbEngine := { e with pos := some pos }

/-- The engine after the first bar of a range. -/
def rangeOpened (e : OrbEngine) (c : Candle) : OrbEngine :=
  { e with rangeHi := some c.high, rangeLo := some c.low, rangeBars := 1, rangeLocked := false,
           state := .rangeDefined }

/-- What the state handlers do with a bar. -/
inductive HandlerStep (cfg : OrbConfig) (e : OrbEngine) (c : Candle) (info : SessionInfo) :
    Option Signal → OrbEngine → Prop
  | waiting (hstate : e.state = .idle) (hzone : info.zone ≠ .inRangeWindow) :
      HandlerStep cfg e c info none e
  | opened (hstate : e.state = .idle) (hzone : info.zone = .inRangeWindow) :
      HandlerStep cfg e c info none ((e.rangeOpened c).maybeLock cfg)
  | building (built : OrbEngine) (hstate : e.state = .rangeDefined) (hbuild : e.Building info)
      (hbuilt : e.buildRange c = .ok built) :
      HandlerStep cfg e c info none (built.maybeLock cfg)
  | armed (sig : Option Signal) (hstate : e.state = .rangeDefined) (hbuild : ¬ e.Building info)
      (hsig : ∀ s ∈ sig, s.kind = .reject) :
      HandlerStep cfg e c info sig (e.settleRange info)
  | broke (direction : Direction) (atr : ℚ) (m : Momentum) (hstate : e.state = .rangeDefined)
      (hbuild : ¬ e.Building info) (hwarm : e.warm cfg = true) (hatr : e.atr.value = some atr)
      (hrange : (e.rangeHi).isSome = true) :
      HandlerStep cfg e c info (some ((e.settleRange info).entrySignal cfg c direction atr m))
        ((e.settleRange info).openPosition cfg c direction atr)
  | left (pos : PositionState) (reason : ExitReason) (price : ℚ) (hstate : e.state = .breakout)
      (hpos : e.pos = some pos) :
      HandlerStep cfg e c info
        (some ((e.holding (heldBar pos c)).exitSignal cfg c.ts (heldBar pos c) reason.text
          (e.postExitState cfg) price))
        ((e.holding (heldBar pos c)).flatten cfg (e.postExitState cfg))
  | partly (pos : PositionState) (price : ℚ) (hstate : e.state = .breakout) (hpos : e.pos = some pos)
      (htp : pos.tp.isSome = true) (hfrac : cfg.tpCloseFrac < 1) :
      HandlerStep cfg e c info (some ((e.holding (heldBar pos c)).partialTp cfg (heldBar pos c) c price).1)
        ((e.holding (heldBar pos c)).partialTp cfg (heldBar pos c) c price).2
  | trailed (pos : PositionState) (atr : ℚ) (hstate : e.state = .breakout) (hpos : e.pos = some pos)
      (hatr : e.atr.value = some atr) :
      HandlerStep cfg e c info none (e.holding
        { heldBar pos c with stop := ratchetStop (heldBar pos c) c.close (stopDist cfg atr) })

theorem heldBar_tp (pos : PositionState) (c : Candle) : (heldBar pos c).tp = pos.tp := by
  unfold heldBar
  cases pos.direction <;> rfl

theorem heldBar_stop (pos : PositionState) (c : Candle) : (heldBar pos c).stop = pos.stop := by
  unfold heldBar
  cases pos.direction <;> rfl

theorem heldBar_direction (pos : PositionState) (c : Candle) :
    (heldBar pos c).direction = pos.direction := by
  unfold heldBar
  split <;> rfl

theorem settleRange_pos : (e.settleRange info).pos = e.pos := by
  unfold settleRange lockRange; split <;> rfl

theorem settleRange_atr : (e.settleRange info).atr = e.atr := by
  unfold settleRange lockRange; split <;> rfl

theorem settleRange_roc : (e.settleRange info).roc = e.roc := by
  unfold settleRange lockRange; split <;> rfl

theorem settleRange_warm : (e.settleRange info).warm cfg = e.warm cfg := by
  unfold settleRange lockRange; split <;> rfl

theorem settleRange_rangeHi : (e.settleRange info).rangeHi = e.rangeHi := by
  unfold settleRange lockRange; split <;> rfl

theorem settleRange_rangeLo : (e.settleRange info).rangeLo = e.rangeLo := by
  unfold settleRange lockRange; split <;> rfl

theorem settleRange_state : (e.settleRange info).state = e.state := by
  unfold settleRange lockRange; split <;> rfl

theorem number_ok {x : Option ℚ} {v : ℚ} : number x = .ok v ↔ x = some v := by
  cases x <;> simp [number]

theorem buildRange_frame (h : e.buildRange c = .ok e') :
    ∃ hi lo bars, e' = { e with rangeHi := some hi, rangeLo := some lo, rangeBars := bars } := by
  unfold buildRange at h
  split at h
  · cases h
    exact ⟨_, _, _, rfl⟩
  · obtain ⟨lo, -, h⟩ := bind_ok.mp h
    cases h
    exact ⟨_, _, _, rfl⟩

theorem breakoutDirection_beyond {direction : Direction} (h : e.breakoutDirection c = .ok (some direction)) :
    e.rangeHi.isSome = true ∧
      ((direction = .long ∧ ∃ hi ∈ e.rangeHi, hi < c.close) ∨
        (direction = .short ∧ ∃ lo ∈ e.rangeLo, c.close < lo)) := by
  unfold breakoutDirection at h
  obtain ⟨hi, hhi, h⟩ := bind_ok.mp h
  have hhi := number_ok.mp hhi
  refine ⟨by rw [hhi]; rfl, ?_⟩
  split at h
  · next hup =>
    cases h
    exact Or.inl ⟨rfl, hi, hhi, hup⟩
  · obtain ⟨lo, hlo, h⟩ := bind_ok.mp h
    split at h
    · next hdn =>
      cases h
      exact Or.inr ⟨rfl, lo, number_ok.mp hlo, hdn⟩
    · cases h

theorem checkBreakout_cases (h : e.checkBreakout cfg c = .ok (sig, e')) :
    (e' = e ∧ ∀ s ∈ sig, s.kind = .reject) ∨
    ∃ direction atr m, e.breakoutDirection c = .ok (some direction) ∧ e.atr.value = some atr ∧
      sig = some (e.entrySignal cfg c direction atr m) ∧ e' = e.openPosition cfg c direction atr := by
  unfold checkBreakout at h
  obtain ⟨dir, hdir, h⟩ := bind_ok.mp h
  cases dir with
  | none => cases h; exact Or.inl ⟨rfl, by simp⟩
  | some direction =>
    simp only at h
    split at h
    · cases h; exact Or.inl ⟨rfl, by simp⟩
    obtain ⟨m, -, h⟩ := bind_ok.mp h
    split at h
    · cases h
      refine Or.inl ⟨rfl, fun s hs => ?_⟩
      cases hs; rfl
    obtain ⟨atr, hatr, h⟩ := bind_ok.mp h
    cases h
    exact Or.inr ⟨direction, atr, m, hdir, number_ok.mp hatr, rfl, rfl⟩

theorem settleRange_breakoutDirection : (e.settleRange info).breakoutDirection c = e.breakoutDirection c := by
  unfold breakoutDirection
  rw [settleRange_rangeHi, settleRange_rangeLo]

theorem onRangeDefined_cases (hstate : e.state = .rangeDefined)
    (h : e.onRangeDefined cfg c info = .ok (sig, e')) : HandlerStep cfg e c info sig e' := by
  unfold onRangeDefined at h
  by_cases hbuild : e.Building info
  · rw [if_pos hbuild] at h
    obtain ⟨built, hbuilt, h⟩ := bind_ok.mp h
    cases h
    exact .building built hstate hbuild hbuilt
  · simp only [if_neg hbuild, settleRange_warm] at h
    by_cases hwarm : e.warm cfg = true
    · simp only [hwarm, Bool.not_true, Bool.false_eq_true, if_false] at h
      rcases checkBreakout_cases h with ⟨rfl, hsig⟩ | ⟨direction, atr, m, hdir, hatr, rfl, rfl⟩
      · exact .armed sig hstate hbuild hsig
      · rw [settleRange_breakoutDirection] at hdir
        rw [settleRange_atr] at hatr
        exact .broke direction atr m hstate hbuild hwarm hatr (breakoutDirection_beyond hdir).1
    · simp only [hwarm, Bool.not_false, if_true] at h
      cases h
      exact .armed none hstate hbuild (by simp)

theorem tpHit_isSome {pos : PositionState} (h : tpHit cfg pos c = true) : pos.tp.isSome = true := by
  unfold tpHit at h
  split at h
  · cases h
  · next hsome => rw [hsome]; rfl

theorem onBreakout_cases (hstate : e.state = .breakout)
    (h : e.onBreakout cfg c = .ok (sig, e')) : HandlerStep cfg e c info sig e' := by
  unfold onBreakout at h
  cases hpos : e.pos with
  | none => rw [hpos] at h; cases h
  | some pos =>
    simp only [hpos] at h
    obtain ⟨reentered, -, h⟩ := bind_ok.mp h
    have hpost : ∀ p, ({ e with pos := some p } : OrbEngine).postExitState cfg = e.postExitState cfg :=
      fun _ => rfl
    split at h
    · cases h; exact .left pos .rangeReentry _ hstate hpos
    split at h
    · next htp =>
      split at h
      · next hfrac =>
        cases h
        exact .partly pos _ hstate hpos (heldBar_tp pos c ▸ tpHit_isSome htp) hfrac
      · cases h; exact .left pos .takeProfit _ hstate hpos
    split at h
    · cases h; exact .left pos .trailStop _ hstate hpos
    obtain ⟨atr, hatr, h⟩ := bind_ok.mp h
    cases h
    exact .trailed pos atr hstate hpos (number_ok.mp hatr)

theorem dispatch_cases (hexit : e.state ≠ .exit) (h : e.dispatch cfg c info = .ok (sig, e')) :
    HandlerStep cfg e c info sig e' := by
  unfold dispatch at h
  cases hstate : e.state with
  | idle =>
    simp only [hstate, onIdle] at h
    by_cases hzone : info.zone = .inRangeWindow
    · rw [if_pos hzone] at h
      cases h
      exact .opened hstate hzone
    · rw [if_neg hzone] at h
      cases h
      exact .waiting hstate hzone
  | rangeDefined => exact onRangeDefined_cases hstate (by simpa only [hstate] using h)
  | breakout => exact onBreakout_cases hstate (by simpa only [hstate] using h)
  | exit => exact absurd hstate hexit

/-! ### How a bar enters -/

/-- How `on_candle` takes in a bar that is not late. -/
inductive IntakeStep (cfg : OrbConfig) (e : OrbEngine) (c : Candle) (info : SessionInfo) : Intake → Prop
  | carried (pos : PositionState) (hid : some info.sessionId ≠ e.sessionId) (hstate : e.state = .breakout)
      (hpos : e.pos = some pos) :
      IntakeStep cfg e c info
        (.done (some (e.exitSignal cfg c.ts pos ExitReason.sessionEnd.text .idle c.close))
          { e.resetForNewSession cfg info.sessionId with lastTs := some c.ts })
  | fresh (hid : some info.sessionId ≠ e.sessionId) (hstate : e.state ≠ .breakout) :
      IntakeStep cfg e c info (.go { e.resetForNewSession cfg info.sessionId with lastTs := some c.ts })
  | closed (pos : PositionState) (hid : some info.sessionId = e.sessionId) (hzone : info.zone = .after)
      (hstate : e.state = .breakout) (hpos : e.pos = some pos) :
      IntakeStep cfg e c info
        (.done (some (e.exitSignal cfg c.ts pos ExitReason.sessionEnd.text .idle c.close))
          { e with pos := none, state := .idle, lastTs := some c.ts })
  | tornDown (hid : some info.sessionId = e.sessionId) (hzone : info.zone = .after)
      (hstate : e.state ≠ .breakout) (hidle : e.state ≠ .idle) :
      IntakeStep cfg e c info (.done none { e.clearRange with state := .idle, lastTs := some c.ts })
  | quiet (hid : some info.sessionId = e.sessionId) (hzone : info.zone = .after) (hidle : e.state = .idle) :
      IntakeStep cfg e c info (.done none { e with lastTs := some c.ts })
  | gapExit (pos : PositionState) (hid : some info.sessionId = e.sessionId) (hzone : info.zone ≠ .after)
      (hgap : e.GapResets cfg c.ts) (hstate : e.state = .breakout) (hpos : e.pos = some pos) :
      IntakeStep cfg e c info
        (.done (some (e.exitSignal cfg c.ts pos ExitReason.gapInvalidate.text .idle c.close))
          { ({ e with pos := none } : OrbEngine).afterGap cfg (SessionClock.place cfg c.ts) with
            lastTs := some c.ts })
  | gapReset (hid : some info.sessionId = e.sessionId) (hzone : info.zone ≠ .after)
      (hgap : e.GapResets cfg c.ts) (hstate : e.state ≠ .breakout) :
      IntakeStep cfg e c info
        (.go { e.afterGap cfg (SessionClock.place cfg c.ts) with lastTs := some c.ts })
  | plain (hid : some info.sessionId = e.sessionId) (hzone : info.zone ≠ .after)
      (hgap : ¬ e.GapResets cfg c.ts) :
      IntakeStep cfg e c info (.go { e with lastTs := some c.ts })

theorem flatten_idle : e.flatten cfg .idle = { e with pos := none, state := .idle } := by
  unfold flatten
  simp

theorem exitPosition_ok {reason : ExitReason} {toState : State} {price : ℚ} {s : Signal}
    (h : e.exitPosition cfg c reason toState price = .ok (s, e')) :
    ∃ pos, e.pos = some pos ∧ s = e.exitSignal cfg c.ts pos reason.text toState price ∧
      e' = e.flatten cfg toState := by
  unfold exitPosition at h
  cases hpos : e.pos with
  | none => rw [hpos] at h; cases h
  | some pos =>
    rw [hpos] at h
    cases h
    exact ⟨pos, rfl, rfl, rfl⟩

theorem newSession_cases {intake : Intake} (hid : some info.sessionId ≠ e.sessionId)
    (h : e.newSession cfg c info = .ok intake) : IntakeStep cfg e c info intake := by
  unfold newSession at h
  by_cases hstate : e.state = .breakout
  · rw [if_pos hstate] at h
    obtain ⟨⟨s, flat⟩, hexit, h⟩ := bind_ok.mp h
    obtain ⟨pos, hpos, rfl, rfl⟩ := exitPosition_ok hexit
    cases h
    exact .carried pos hid hstate hpos
  · rw [if_neg hstate] at h
    cases h
    exact .fresh hid hstate

theorem handleGapReset_cases (h : e.handleGapReset cfg c = .ok (sig, e')) :
    (e.state ≠ .breakout ∧ sig = none ∧ e' = e.afterGap cfg (SessionClock.place cfg c.ts)) ∨
    ∃ pos, e.state = .breakout ∧ e.pos = some pos ∧
      sig = some (e.exitSignal cfg c.ts pos ExitReason.gapInvalidate.text .idle c.close) ∧
      e' = ({ e with pos := none } : OrbEngine).afterGap cfg (SessionClock.place cfg c.ts) := by
  unfold handleGapReset at h
  obtain ⟨info, hinfo, h⟩ := bind_ok.mp h
  obtain rfl := (classified_ok_iff.mp hinfo).2
  by_cases hstate : e.state = .breakout
  · simp only [if_pos hstate] at h
    obtain ⟨⟨s, flat⟩, hexit, h⟩ := bind_ok.mp h
    obtain ⟨pos, hpos, rfl, rfl⟩ := exitPosition_ok hexit
    cases h
    refine Or.inr ⟨pos, hstate, hpos, rfl, ?_⟩
    -- the state `flatten` sets is overwritten by `afterGap`
    rw [flatten_idle]
    unfold afterGap buildIndicators clearRange
    split <;> rfl
  · simp only [if_neg hstate] at h
    cases h
    exact Or.inl ⟨hstate, rfl, rfl⟩

theorem sameSession_cases {intake : Intake} (hid : some info.sessionId = e.sessionId)
    (h : e.sameSession cfg c info = .ok intake) : IntakeStep cfg e c info intake := by
  unfold sameSession at h
  by_cases hzone : info.zone = .after
  · simp only [if_pos hzone] at h
    by_cases hstate : e.state = .breakout
    · simp only [if_pos hstate] at h
      obtain ⟨⟨s, flat⟩, hexit, h⟩ := bind_ok.mp h
      obtain ⟨pos, hpos, rfl, rfl⟩ := exitPosition_ok hexit
      cases h
      rw [flatten_idle]
      exact .closed pos hid hzone hstate hpos
    · simp only [if_neg hstate] at h
      by_cases hidle : e.state = .idle
      · rw [if_neg (not_not.mpr hidle)] at h
        cases h
        exact .quiet hid hzone hidle
      · rw [if_pos hidle] at h
        cases h
        exact .tornDown hid hzone hstate hidle
  · simp only [if_neg hzone] at h
    by_cases hgap : e.GapResets cfg c.ts
    · simp only [if_pos hgap] at h
      obtain ⟨⟨s, reset⟩, hreset, h⟩ := bind_ok.mp h
      rcases handleGapReset_cases hreset with ⟨hstate, rfl, rfl⟩ | ⟨pos, hstate, hpos, rfl, rfl⟩
      · cases h
        exact .gapReset hid hzone hgap hstate
      · cases h
        exact .gapExit pos hid hzone hgap hstate hpos
    · simp only [if_neg hgap] at h
      cases h
      exact .plain hid hzone hgap

/-! ### The whole bar -/

/-- What `on_candle` did with an accepted bar. -/
inductive BarStep (cfg : OrbConfig) (e : OrbEngine) (c : Candle) : Option Signal → OrbEngine → Prop
  | late (hlate : e.isLate c.ts = true) : BarStep cfg e c none e
  | done (sig : Option Signal) (e' : OrbEngine) (hlate : e.isLate c.ts = false)
      (hintake : IntakeStep cfg e c (SessionClock.place cfg c.ts) (.done sig e')) : BarStep cfg e c sig e'
  | handled (entered : OrbEngine) (sig : Option Signal) (e' : OrbEngine) (hlate : e.isLate c.ts = false)
      (hintake : IntakeStep cfg e c (SessionClock.place cfg c.ts) (.go entered))
      (hhandler : HandlerStep cfg (entered.feedIndicators cfg c (SessionClock.place cfg c.ts)) c
        (SessionClock.place cfg c.ts) sig e') : BarStep cfg e c sig e'

theorem afterGap_ne_exit : (e.afterGap cfg info).state ≠ .exit := by
  unfold afterGap
  split <;> exact fun h => by cases h

theorem IntakeStep.ne_exit {entered : OrbEngine} (h : IntakeStep cfg e c info (.go entered))
    (hexit : e.state ≠ .exit) : entered.state ≠ .exit := by
  cases h with
  | fresh => exact fun h => by cases h
  | gapReset => exact afterGap_ne_exit
  | plain => exact hexit

theorem feedIndicators_state : (e.feedIndicators cfg c info).state = e.state := by
  unfold feedIndicators; split <;> rfl

/-- The rest of `on_candle`, after the screening. -/
def accept (cfg : OrbConfig) (e : OrbEngine) (c : Candle) : Except EngineError (Option Signal × OrbEngine) := do
  let info ← classified cfg c.ts
  let intake ← if some info.sessionId ≠ e.sessionId then e.newSession cfg c info else e.sameSession cfg c info
  match intake with
  | .done sig e => return (sig, e)
  | .go e => (e.feedIndicators cfg c info).dispatch cfg c info

theorem accept_intake (h : e.accept cfg c = .ok (sig, e')) :
    ∃ intake, IntakeStep cfg e c (SessionClock.place cfg c.ts) intake ∧
      (match intake with
        | .done sig e => pure (sig, e)
        | .go e => (e.feedIndicators cfg c (SessionClock.place cfg c.ts)).dispatch cfg c
            (SessionClock.place cfg c.ts)) = Except.ok (sig, e') := by
  unfold accept at h
  obtain ⟨info, hinfo, h⟩ := bind_ok.mp h
  obtain rfl := (classified_ok_iff.mp hinfo).2
  split at h
  · next hid =>
    obtain ⟨intake, hintake, h⟩ := bind_ok.mp h
    exact ⟨intake, newSession_cases hid hintake, h⟩
  · next hid =>
    obtain ⟨intake, hintake, h⟩ := bind_ok.mp h
    exact ⟨intake, sameSession_cases (not_not.mp hid) hintake, h⟩

theorem onCandle_intake {raw : RawCandle} (h : e.onCandle cfg raw = .ok (sig, e')) :
    ∃ c, validate raw = .ok c ∧ ((e.isLate c.ts = true ∧ sig = none ∧ e' = e) ∨
      e.isLate c.ts = false ∧
        (IntakeStep cfg e c (SessionClock.place cfg c.ts) (.done sig e') ∨
          ∃ entered, IntakeStep cfg e c (SessionClock.place cfg c.ts) (.go entered) ∧
            (entered.feedIndicators cfg c (SessionClock.place cfg c.ts)).dispatch cfg c
              (SessionClock.place cfg c.ts) = .ok (sig, e'))) := by
  unfold onCandle at h
  obtain ⟨c, hc, h⟩ := bind_ok.mp h
  refine ⟨c, mapError_ok.mp hc, ?_⟩
  by_cases hlate : e.isLate c.ts = true
  · rw [if_pos hlate] at h
    split at h
    · cases h
    · cases h
      exact Or.inl ⟨hlate, rfl, rfl⟩
  rw [if_neg hlate] at h
  refine Or.inr ⟨by simpa using hlate, ?_⟩
  obtain ⟨intake, hstep, h⟩ := accept_intake h
  cases intake with
  | done s done => cases h; exact Or.inl hstep
  | go entered => exact Or.inr ⟨entered, hstep, h⟩

/-- **Every bar is one of the listed steps.** The bar was accepted by `validate`, and what the engine did
with it is a `BarStep`. -/
theorem onCandle_cases {raw : RawCandle} (hexit : e.state ≠ .exit)
    (h : e.onCandle cfg raw = .ok (sig, e')) : ∃ c, validate raw = .ok c ∧ BarStep cfg e c sig e' := by
  obtain ⟨c, hc, ⟨hlate, rfl, rfl⟩ | ⟨hlate, hdone | ⟨entered, hgo, hdispatch⟩⟩⟩ := onCandle_intake h
  · exact ⟨c, hc, .late hlate⟩
  · exact ⟨c, hc, .done sig e' hlate hdone⟩
  · refine ⟨c, hc, .handled entered sig e' hlate hgo (dispatch_cases ?_ hdispatch)⟩
    rw [feedIndicators_state]
    exact hgo.ne_exit hexit

end FreqTrading.OrbEngine
