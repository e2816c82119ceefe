import FreqTrading.Lib.Run
import FreqTrading.Engine.Steps
import FreqTrading.Engine.TradeCycle

/-!
# The reachable states of the engine

`Core` relates the state, the position, the range, its lock and the ATR; `Windowed` relates the state to
the session the engine is in. Neither is kept alone: a range is only locked because a bar that finds an
armed engine lies inside the session, and that it does follows from `Windowed`. Both are kept by every
step, `RocFed` makes the momentum filter answer, and together they leave no way to raise anything but the
two data errors. Over runs, the signals follow the trade cycle.
-/

namespace FreqTrading

/-- The new stop protects at least as much as the old one. -/
def Direction.AsTight : Direction → ℚ → ℚ → Prop
  | .long, old, new => old ≤ new
  | .short, old, new => new ≤ old

instance : (d : Direction) → (old new : ℚ) → Decidable (d.AsTight old new)
  | .long, old, new => inferInstanceAs (Decidable (old ≤ new))
  | .short, old, new => inferInstanceAs (Decidable (new ≤ old))

namespace OrbEngine

open Lib

variable {cfg : OrbConfig} {e e' : OrbEngine} {c : Candle} {info : SessionInfo} {sig : Option Signal}

/-! ### The invariants -/

/-- The bounds of the range are both unset, or set in order. -/
def RangeOrdered (e : OrbEngine) : Prop :=
  (e.rangeHi = none ∧ e.rangeLo = none) ∨
    ∃ hi lo, e.rangeHi = some hi ∧ e.rangeLo = some lo ∧ lo ≤ hi

structure Core (e : OrbEngine) : Prop where
  pos_iff : e.pos.isSome = true ↔ e.state = .breakout
  ne_exit : e.state ≠ .exit
  range : e.RangeOrdered
  breakout : e.state = .breakout → e.rangeHi.isSome = true ∧ e.rangeLocked = true ∧ e.atr.ready = true
  defined : e.state = .rangeDefined → e.rangeHi = none → e.rebuild = true ∧ e.rangeLocked = false

/-- An engine that is armed or in a trade has seen the open of its session. -/
def Windowed (cfg : OrbConfig) (e : OrbEngine) : Prop :=
  e.state ≠ .idle →
    ∃ id last, e.sessionId = some id ∧ e.lastTs = some last ∧ SessionClock.openOf cfg id ≤ last

structure RocFed (cfg : OrbConfig) (e : OrbEngine) : Prop where
  period : e.roc.period = cfg.rocPeriod
  closes : cfg.useRoc = true → ∀ x ∈ e.roc.closes, x ≠ 0

theorem Core.pos_none (h : Core e) (hstate : e.state ≠ .breakout) : e.pos = none := by
  have hnot : ¬ e.pos.isSome = true := fun hsome => hstate (h.pos_iff.mp hsome)
  simpa using hnot

theorem Core.pos_some (h : Core e) (hstate : e.state = .breakout) : ∃ pos, e.pos = some pos :=
  Option.isSome_iff_exists.mp (h.pos_iff.mpr hstate)

theorem RangeOrdered.of_isSome (h : e.RangeOrdered) (hhi : e.rangeHi.isSome = true) :
    ∃ hi lo, e.rangeHi = some hi ∧ e.rangeLo = some lo ∧ lo ≤ hi := by
  rcases h with ⟨hnone, _⟩ | h
  · rw [hnone] at hhi; cases hhi
  · exact h

theorem core_init : Core (init cfg) where
  pos_iff := by simp [init]
  ne_exit := by simp [init]
  range := Or.inl ⟨rfl, rfl⟩
  breakout := by simp [init]
  defined := by simp [init]

theorem rocFed_init : RocFed cfg (init cfg) where
  period := rfl
  closes := by simp [init]

theorem RocFed.congr (h : RocFed cfg e) (hroc : e'.roc = e.roc) : RocFed cfg e' :=
  ⟨hroc ▸ h.period, hroc ▸ h.closes⟩

theorem windowed_init : Windowed cfg (init cfg) := fun h => absurd rfl h

theorem Core.withLastTs (h : Core e) (ts : Int) : Core { e with lastTs := some ts } :=
  ⟨h.pos_iff, h.ne_exit, h.range, h.breakout, h.defined⟩

theorem core_of_idle (hstate : e.state = .idle) (hpos : e.pos = none) (hrange : e.RangeOrdered) : Core e where
  pos_iff := by simp [hstate, hpos]
  ne_exit := by simp [hstate]
  range := hrange
  breakout := by simp [hstate]
  defined := by simp [hstate]

/-! ### Entering a bar -/

theorem core_afterGap (hpos : e.pos = none) : Core (e.afterGap cfg info) := by
  unfold afterGap
  by_cases hzone : info.zone.Inside
  · simp only [if_pos hzone]
    exact ⟨by simp [buildIndicators, clearRange, hpos], by simp, Or.inl ⟨rfl, rfl⟩, by simp,
      fun _ _ => ⟨rfl, rfl⟩⟩
  · simp only [if_neg hzone]
    exact core_of_idle rfl hpos (Or.inl ⟨rfl, rfl⟩)

/-- What holds of the engine when a bar reaches the state handlers. -/
structure Entered (c : Candle) (info : SessionInfo) (e : OrbEngine) : Prop where
  core : Core e
  inside : e.state ≠ .idle → info.zone.Inside
  sessionId : e.sessionId = some info.sessionId
  lastTs : e.lastTs = some c.ts

theorem IntakeStep.core_done (h : IntakeStep cfg e c info (.done sig e')) (hcore : Core e) : Core e' := by
  cases h with
  | carried | closed => exact core_of_idle rfl rfl (by first | exact hcore.range | exact Or.inl ⟨rfl, rfl⟩)
  | tornDown hid hzone hstate hidle => exact core_of_idle rfl (hcore.pos_none hstate) (Or.inl ⟨rfl, rfl⟩)
  | quiet => exact hcore.withLastTs _
  | gapExit => exact (core_afterGap rfl).withLastTs _

theorem IntakeStep.lastTs_done (h : IntakeStep cfg e c info (.done sig e')) :
    e'.lastTs = some c.ts ∧ e'.sessionId = some info.sessionId := by
  cases h with
  | carried => exact ⟨rfl, rfl⟩
  | closed _ hid | quiet hid | tornDown hid => exact ⟨rfl, hid.symm⟩
  | gapExit _ hid =>
    refine ⟨rfl, ?_⟩
    show (afterGap cfg _ _).sessionId = _
    unfold afterGap
    split <;> exact hid.symm

theorem Windowed.not_before (h : Windowed cfg e) (hstate : e.state ≠ .idle) (hlate : e.isLate c.ts = false)
    (hid : some (SessionClock.place cfg c.ts).sessionId = e.sessionId) :
    (SessionClock.place cfg c.ts).zone ≠ .before := by
  obtain ⟨id, last, hsession, hlast, hopen⟩ := h hstate
  rw [hsession] at hid
  obtain rfl := Option.some.inj hid
  apply SessionClock.zone_ne_before
  have : last < c.ts := by simpa [isLate, hlast] using hlate
  omega

theorem inside_of_ne {z : Zone} (hbefore : z ≠ .before) (hafter : z ≠ .after) : z.Inside := by
  unfold Zone.Inside
  cases z <;> simp_all

theorem afterGap_inside (h : (e.afterGap cfg info).state ≠ .idle) : info.zone.Inside := by
  unfold afterGap at h
  by_contra hzone
  rw [if_neg hzone] at h
  exact h rfl

theorem IntakeStep.entered (h : IntakeStep cfg e c (SessionClock.place cfg c.ts) (.go e'))
    (hcore : Core e) (hwin : Windowed cfg e) (hlate : e.isLate c.ts = false) :
    Entered c (SessionClock.place cfg c.ts) e' := by
  cases h with
  | fresh hid hstate => exact ⟨core_of_idle rfl rfl (Or.inl ⟨rfl, rfl⟩), fun h => absurd rfl h, rfl, rfl⟩
  | gapReset hid hzone hgap hstate =>
    refine ⟨(core_afterGap (hcore.pos_none hstate)).withLastTs _, fun h => afterGap_inside h, ?_, rfl⟩
    show (afterGap cfg _ _).sessionId = _
    unfold afterGap
    split <;> exact hid.symm
  | plain hid hzone hgap =>
    refine ⟨hcore.withLastTs _, fun hstate => ?_, hid.symm, rfl⟩
    exact inside_of_ne (hwin.not_before hstate hlate hid) hzone

/-! ### Indicators -/

theorem Core.feedIndicators (h : Core e) : Core (e.feedIndicators cfg c info) := by
  unfold OrbEngine.feedIndicators
  split
  · refine ⟨h.pos_iff, h.ne_exit, h.range, fun hstate => ?_, h.defined⟩
    obtain ⟨hhi, hlock, hatr⟩ := h.breakout hstate
    exact ⟨hhi, hlock, WilderATR.ready_update hatr _ _ _⟩
  · exact h

theorem Entered.feedIndicators (cfg : OrbConfig) (h : Entered c info e) :
    Entered c info (e.feedIndicators cfg c info) := by
  refine ⟨h.core.feedIndicators, ?_, ?_, ?_⟩
  · rw [feedIndicators_state]
    exact h.inside
  · unfold OrbEngine.feedIndicators
    split <;> exact h.sessionId
  · unfold OrbEngine.feedIndicators
    split <;> exact h.lastTs

theorem RocFed.feedIndicators (h : RocFed cfg e) (hclose : cfg.useRoc = true → c.close ≠ 0) :
    RocFed cfg (e.feedIndicators cfg c info) := by
  unfold OrbEngine.feedIndicators
  by_cases hzone : info.zone.Inside
  · rw [if_pos hzone]
    by_cases huse : cfg.useRoc = true
    · refine ⟨?_, fun _ x hx => ?_⟩
      · simpa only [huse, if_true, ROC.update] using h.period
      · simp only [huse, if_true, ROC.update] at hx
        rcases mem_pushBounded hx with hold | rfl
        · exact h.closes huse x hold
        · exact hclose huse
    · refine ⟨?_, fun huse' => absurd huse' huse⟩
      show (if cfg.useRoc = true then _ else _ : ROC).period = _
      rw [if_neg huse]
      exact h.period
  · rw [if_neg hzone]
    exact h

/-! ### Handlers -/

theorem core_of_defined (hstate : e.state = .rangeDefined) (hpos : e.pos = none) (hrange : e.RangeOrdered)
    (hset : e.rangeHi = none → e.rebuild = true ∧ e.rangeLocked = false) : Core e where
  pos_iff := by simp [hstate, hpos]
  ne_exit := by simp [hstate]
  range := hrange
  breakout := by simp [hstate]
  defined := fun _ => hset

theorem core_maybeLock (hstate : e.state = .rangeDefined) (hpos : e.pos = none)
    (hrange : ∃ hi lo, e.rangeHi = some hi ∧ e.rangeLo = some lo ∧ lo ≤ hi) : Core (e.maybeLock cfg) := by
  obtain ⟨hi, lo, hhi, hlo, hle⟩ := hrange
  unfold maybeLock lockRange
  split <;> exact core_of_defined hstate hpos (Or.inr ⟨hi, lo, hhi, hlo, hle⟩) (by simp [hhi])

theorem buildRange_spec (hrange : e.RangeOrdered) (h : e.buildRange c = .ok e') :
    (∃ hi lo, e'.rangeHi = some hi ∧ e'.rangeLo = some lo ∧ lo ≤ hi) ∧ e'.state = e.state ∧
      e'.pos = e.pos ∧ e'.roc = e.roc ∧ e'.sessionId = e.sessionId ∧ e'.lastTs = e.lastTs ∧
      e'.tradedThisSession = e.tradedThisSession := by
  unfold buildRange at h
  rcases hrange with ⟨hnone, _⟩ | ⟨hi, lo, hhi, hlo, hle⟩
  · rw [hnone] at h
    cases h
    exact ⟨⟨c.high, c.low, rfl, rfl, c.low_le_high⟩, rfl, rfl, rfl, rfl, rfl, rfl⟩
  · simp only [hhi, hlo] at h
    cases h
    refine ⟨⟨_, _, rfl, rfl, ?_⟩, rfl, rfl, rfl, rfl, rfl, rfl⟩
    exact (min_le_left _ _).trans (hle.trans (le_max_left _ _))

theorem maybeLock_frame (cfg : OrbConfig) (e : OrbEngine) :
    (e.maybeLock cfg).state = e.state ∧ (e.maybeLock cfg).pos = e.pos ∧ (e.maybeLock cfg).roc = e.roc ∧
      (e.maybeLock cfg).sessionId = e.sessionId ∧ (e.maybeLock cfg).lastTs = e.lastTs ∧
      (e.maybeLock cfg).tradedThisSession = e.tradedThisSession := by
  unfold maybeLock lockRange
  split <;> exact ⟨rfl, rfl, rfl, rfl, rfl, rfl⟩

theorem settleRange_locked (hin : info.zone.Inside) (hbuild : ¬ e.Building info) :
    (e.settleRange info).rangeLocked = true := by
  unfold settleRange
  by_cases hlock : e.rangeLocked = true
  · simp [hlock]
  · have hzone : info.zone = .inSession := by
      rcases hin with hwindow | hzone
      · exact absurd ⟨Or.inl hwindow, by simpa using hlock⟩ hbuild
      · exact hzone
    rw [if_pos ⟨hzone, hlock⟩]
    rfl

theorem flatten_frame (cfg : OrbConfig) (e : OrbEngine) (toState : State) :
    (e.flatten cfg toState).state = toState ∧ (e.flatten cfg toState).pos = none ∧
      (e.flatten cfg toState).roc = e.roc ∧ (e.flatten cfg toState).sessionId = e.sessionId ∧
      (e.flatten cfg toState).lastTs = e.lastTs ∧
      (e.flatten cfg toState).tradedThisSession = e.tradedThisSession := by
  unfold flatten
  split <;> exact ⟨rfl, rfl, rfl, rfl, rfl, rfl⟩

theorem postExitState_cases (cfg : OrbConfig) (e : OrbEngine) :
    e.postExitState cfg = .idle ∨ (e.postExitState cfg = .rangeDefined ∧ cfg.oneTradePerSession = false) := by
  unfold postExitState
  split
  · next h => exact Or.inr ⟨rfl, by simp_all⟩
  · exact Or.inl rfl

theorem core_flatten (hrange : e.RangeOrdered) (hhi : e.rangeHi.isSome = true) :
    Core (e.flatten cfg (e.postExitState cfg)) := by
  rcases postExitState_cases cfg e with hidle | ⟨hdefined, _⟩
  · rw [hidle, flatten_idle]
    exact core_of_idle rfl rfl hrange
  · rw [hdefined]
    unfold flatten
    split
    · exact core_of_defined rfl rfl (Or.inl ⟨rfl, rfl⟩) (fun _ => ⟨rfl, rfl⟩)
    · refine core_of_defined rfl rfl hrange (fun hnone => ?_)
      rw [show e.rangeHi = none from hnone] at hhi
      cases hhi

theorem core_holding (hcore : Core e) (hstate : e.state = .breakout) (pos : PositionState) :
    Core (e.holding pos) :=
  ⟨by simp [holding, hstate], hcore.ne_exit, hcore.range, hcore.breakout, hcore.defined⟩

theorem rangeOrdered_settle (h : e.RangeOrdered) : (e.settleRange info).RangeOrdered := by
  unfold RangeOrdered
  rw [settleRange_rangeHi, settleRange_rangeLo]
  exact h

theorem HandlerStep.core (h : HandlerStep cfg e c info sig e') (hcore : Core e)
    (hin : e.state ≠ .idle → info.zone.Inside) : Core e' := by
  cases h with
  | waiting => exact hcore
  | opened hstate =>
    refine core_maybeLock rfl ?_ ⟨c.high, c.low, rfl, rfl, c.low_le_high⟩
    exact hcore.pos_none (by rw [hstate]; exact fun h => by cases h)
  | building built hstate hbuild hbuilt =>
    obtain ⟨hrange, hst, hpos, -⟩ := buildRange_spec hcore.range hbuilt
    refine core_maybeLock (hst.trans hstate) (hpos.trans ?_) hrange
    exact hcore.pos_none (by rw [hstate]; exact fun h => by cases h)
  | armed _ hstate hbuild =>
    have hpos : e.pos = none := hcore.pos_none (by rw [hstate]; exact fun h => by cases h)
    refine core_of_defined (settleRange_state.trans hstate) (settleRange_pos.trans hpos)
      (rangeOrdered_settle hcore.range) (fun hnone => ?_)
    -- an unset range is being rebuilt, and then the engine is not armed
    rw [settleRange_rangeHi] at hnone
    obtain ⟨hrebuild, hlock⟩ := hcore.defined hstate hnone
    exact absurd ⟨Or.inr hrebuild, hlock⟩ hbuild
  | broke direction atr m hstate hbuild hwarm hatr hrange =>
    refine ⟨by simp [openPosition], by simp [openPosition], rangeOrdered_settle hcore.range, fun _ => ?_,
      by simp [openPosition]⟩
    refine ⟨?_, settleRange_locked (hin (by rw [hstate]; exact fun h => by cases h)) hbuild, ?_⟩
    · show (e.settleRange info).rangeHi.isSome = true
      rw [settleRange_rangeHi]
      exact hrange
    · show (e.settleRange info).atr.ready = true
      rw [settleRange_atr]
      exact Option.isSome_iff_exists.mpr ⟨atr, hatr⟩
  | left pos reason price hstate hpos =>
    have hhold := core_holding hcore hstate (heldBar pos c)
    exact core_flatten (e := e.holding (heldBar pos c)) hhold.range (hhold.breakout hstate).1
  | partly pos price hstate => exact core_holding hcore hstate _
  | trailed pos atr hstate => exact core_holding hcore hstate _

theorem HandlerStep.frame (h : HandlerStep cfg e c info sig e') (hrange : e.RangeOrdered) :
    e'.sessionId = e.sessionId ∧ e'.lastTs = e.lastTs ∧ e'.roc = e.roc := by
  have hsettle : (e.settleRange info).sessionId = e.sessionId ∧ (e.settleRange info).lastTs = e.lastTs ∧
      (e.settleRange info).roc = e.roc := by
    unfold settleRange lockRange
    split <;> exact ⟨rfl, rfl, rfl⟩
  cases h with
  | waiting | partly | trailed => exact ⟨rfl, rfl, rfl⟩
  | opened =>
    obtain ⟨-, -, hroc, hid, hlast, -⟩ := maybeLock_frame cfg (e.rangeOpened c)
    exact ⟨hid, hlast, hroc⟩
  | building built hstate hbuild hbuilt =>
    obtain ⟨-, -, -, hroc, hid, hlast, -⟩ := buildRange_spec hrange hbuilt
    obtain ⟨-, -, hroc', hid', hlast', -⟩ := maybeLock_frame cfg built
    exact ⟨hid'.trans hid, hlast'.trans hlast, hroc'.trans hroc⟩
  | armed | broke => exact hsettle
  | left pos =>
    obtain ⟨-, -, hroc, hid, hlast, -⟩ :=
      flatten_frame cfg (e.holding (heldBar pos c)) (e.postExitState cfg)
    exact ⟨hid, hlast, hroc⟩

theorem HandlerStep.inside (h : HandlerStep cfg e c info sig e') (hin : e.state ≠ .idle → info.zone.Inside)
    (hstate' : e'.state ≠ .idle) : info.zone.Inside := by
  by_cases hidle : e.state = .idle
  · cases h with
    | waiting => exact absurd hidle hstate'
    | opened _ hzone => exact Or.inl hzone
    | building _ hstate | armed _ hstate | broke _ _ _ hstate | left _ _ _ hstate | partly _ _ hstate
    | trailed _ _ hstate => rw [hidle] at hstate; cases hstate
  · exact hin hidle

/-! ### Whole bars -/

/-- What holds of the engine between bars. -/
structure Sound (cfg : OrbConfig) (e : OrbEngine) : Prop where
  core : Core e
  windowed : Windowed cfg e

theorem sound_init : Sound cfg (init cfg) := ⟨core_init, windowed_init⟩

theorem Sound.entered (hsound : Sound cfg e) (hlate : e.isLate c.ts = false)
    (h : IntakeStep cfg e c (SessionClock.place cfg c.ts) (.go e')) :
    Entered c (SessionClock.place cfg c.ts)
      (e'.feedIndicators cfg c (SessionClock.place cfg c.ts)) :=
  (h.entered hsound.core hsound.windowed hlate).feedIndicators cfg

theorem BarStep.stamped (h : BarStep cfg e c sig e') (hsound : Sound cfg e) (hlate : e.isLate c.ts = false) :
    e'.lastTs = some c.ts ∧ e'.sessionId = some (SessionClock.place cfg c.ts).sessionId := by
  cases h with
  | late hlate' => rw [hlate] at hlate'; cases hlate'
  | done sig e' _ hintake => exact hintake.lastTs_done
  | handled entered sig e' _ hintake hhandler =>
    have hentered := hsound.entered hlate hintake
    obtain ⟨hid, hlast, -⟩ := hhandler.frame hentered.core.range
    exact ⟨hlast.trans hentered.lastTs, hid.trans hentered.sessionId⟩

theorem IntakeStep.armed_done (h : IntakeStep cfg e c (SessionClock.place cfg c.ts) (.done sig e'))
    (hstate : e'.state ≠ .idle) : (SessionClock.place cfg c.ts).zone.Inside := by
  cases h with
  | carried | closed | tornDown => exact absurd rfl hstate
  | quiet _ _ hidle => exact absurd hidle hstate
  | gapExit => exact afterGap_inside hstate

theorem windowed_of_inside (hin : (SessionClock.place cfg c.ts).zone.Inside)
    (hstamp : e.lastTs = some c.ts ∧ e.sessionId = some (SessionClock.place cfg c.ts).sessionId) :
    Windowed cfg e :=
  fun _ => ⟨_, _, hstamp.2, hstamp.1, (SessionClock.place_inside cfg hin).1⟩

/-- **Every bar keeps the engine in order.** -/
theorem BarStep.sound (h : BarStep cfg e c sig e') (hsound : Sound cfg e) : Sound cfg e' := by
  have hstamp := h.stamped hsound
  cases h with
  | late => exact hsound
  | done sig e' hlate hintake =>
    refine ⟨hintake.core_done hsound.core, fun hstate => ?_⟩
    exact windowed_of_inside (hintake.armed_done hstate) (hstamp hlate) hstate
  | handled entered sig e' hlate hintake hhandler =>
    have hentered := hsound.entered hlate hintake
    refine ⟨hhandler.core hentered.core hentered.inside, fun hstate => ?_⟩
    exact windowed_of_inside (hhandler.inside hentered.inside hstate) (hstamp hlate) hstate

theorem forceFlat_sound (hsound : Sound cfg e) (ts : Int) : Sound cfg (e.forceFlat cfg ts).2 := by
  unfold forceFlat
  cases hpos : e.pos with
  | none => exact hsound
  | some pos =>
    have hstate : e.state = .breakout := hsound.core.pos_iff.mp (by rw [hpos]; rfl)
    refine ⟨core_flatten hsound.core.range (hsound.core.breakout hstate).1, fun _ => ?_⟩
    obtain ⟨id, last, hid, hlast, hopen⟩ := hsound.windowed (by rw [hstate]; exact fun h => by cases h)
    obtain ⟨-, -, -, hid', hlast', -⟩ := flatten_frame cfg e (e.postExitState cfg)
    exact ⟨id, last, hid'.trans hid, hlast'.trans hlast, hopen⟩

theorem forceFlat_rocFed (hroc : RocFed cfg e) (ts : Int) : RocFed cfg (e.forceFlat cfg ts).2 := by
  unfold forceFlat
  cases e.pos with
  | none => exact hroc
  | some pos => exact hroc.congr (flatten_frame cfg e _).2.2.1

/-! ### No exception but the two data errors -/

theorem breakoutDirection_ok (hrange : e.RangeOrdered) (hhi : e.rangeHi.isSome = true) (c : Candle) :
    ∃ direction, e.breakoutDirection c = .ok direction := by
  obtain ⟨hi, lo, hhi, hlo, -⟩ := hrange.of_isSome hhi
  simp only [breakoutDirection, hhi, hlo, number, ok_bind]
  split
  · exact ⟨_, rfl⟩
  · split <;> exact ⟨_, rfl⟩

/-- The momentum filter is on, and the oldest close of its window is zero. -/
def ZeroDivisor (cfg : OrbConfig) (e : OrbEngine) : Prop := cfg.useRoc = true ∧ e.roc.closes.headD 0 = 0

instance (e : OrbEngine) : Decidable (ZeroDivisor cfg e) := inferInstanceAs (Decidable (_ ∧ _))

/-- The bar closes beyond the range in a direction the configuration allows. -/
def breaksOut (cfg : OrbConfig) (e : OrbEngine) (c : Candle) : Bool :=
  match e.breakoutDirection c with
  | .ok (some direction) => allows cfg direction
  | _ => false

/-- The bar that divides by zero: an armed, warm engine sees a breakout over a zero divisor. -/
def Divides (cfg : OrbConfig) (e : OrbEngine) (c : Candle) (info : SessionInfo) : Prop :=
  ¬ e.Building info ∧ e.warm cfg = true ∧ e.breaksOut cfg c = true ∧ e.ZeroDivisor cfg

instance (e : OrbEngine) (c : Candle) (info : SessionInfo) : Decidable (e.Divides cfg c info) :=
  inferInstanceAs (Decidable (_ ∧ _))

theorem roc_ready (hwarm : e.warm cfg = true) (huse : cfg.useRoc = true) : e.roc.ready = true := by
  simp only [warm, huse, Bool.and_eq_true] at hwarm
  simpa using hwarm.1.2

theorem RocFed.nonzero (hroc : RocFed cfg e) (hwarm : e.warm cfg = true) : ¬ e.ZeroDivisor cfg := by
  rintro ⟨huse, hzero⟩
  have hlen : (e.roc.closes.length : Int) = e.roc.period + 1 := by simpa [ROC.ready] using roc_ready hwarm huse
  have hperiod : ¬ cfg.rocPeriod < 1 := by
    have hcheck : (decide (cfg.rocPeriod < 1), "roc_period must be >= 1") ∈ cfg.checks := by
      simp [OrbConfigFields.checks]
    simpa using cfg.check_passes hcheck
  rw [hroc.period] at hlen
  cases hcloses : e.roc.closes with
  | nil =>
    simp only [hcloses, List.length_nil] at hlen
    omega
  | cons x xs =>
    rw [hcloses] at hzero
    exact hroc.closes huse x (by simp [hcloses]) hzero

theorem momentum_ok (hwarm : e.warm cfg = true) (hdiv : ¬ e.ZeroDivisor cfg) (c : Candle) (direction : Direction) :
    ∃ m, e.momentum cfg c direction = .ok m := by
  have hvalue : cfg.useRoc = true → ∃ v, e.roc.value = some (some v) :=
    fun huse => ROC.value_ready (roc_ready hwarm huse) fun hzero => hdiv ⟨huse, hzero⟩
  unfold momentum
  by_cases huse : cfg.useRoc = true
  · obtain ⟨v, hv⟩ := hvalue huse
    simp only [huse, hv, number]
    cases cfg.useRvol <;> cases direction <;>
      simp only [Bool.not_true, Bool.not_false, Bool.false_and, Bool.and_true, Bool.false_eq_true, if_true,
        if_false, pure_eq_ok, ok_bind] <;>
      split_ifs <;> exact ⟨_, rfl⟩
  · simp only [huse, number]
    cases cfg.useRvol <;>
      simp only [Bool.not_true, Bool.not_false, Bool.and_true, Bool.and_false, Bool.false_eq_true, if_true,
        if_false, pure_eq_ok, ok_bind] <;>
      (try split_ifs) <;> exact ⟨_, rfl⟩

theorem checkBreakout_ok (hrange : e.RangeOrdered) (hhi : e.rangeHi.isSome = true) (hwarm : e.warm cfg = true)
    (hdiv : e.breaksOut cfg c = true → ¬ e.ZeroDivisor cfg) : ∃ r, e.checkBreakout cfg c = .ok r := by
  obtain ⟨direction, hdir⟩ := breakoutDirection_ok hrange hhi c
  obtain ⟨atr, hatr⟩ : ∃ atr, e.atr.value = some atr := by
    simp only [warm, Bool.and_eq_true] at hwarm
    exact Option.isSome_iff_exists.mp hwarm.1.1
  unfold breaksOut at hdiv
  unfold checkBreakout
  rw [hdir] at hdiv ⊢
  rw [ok_bind]
  cases direction with
  | none => exact ⟨_, rfl⟩
  | some direction =>
    dsimp only
    by_cases hallow : allows cfg direction = true
    · obtain ⟨m, hm⟩ := momentum_ok hwarm (hdiv hallow) c direction
      simp only [hallow, hm, hatr, number, ok_bind]
      split
      · exact ⟨_, rfl⟩
      · split <;> exact ⟨_, rfl⟩
    · simp only [hallow]
      exact ⟨_, rfl⟩

theorem buildRange_ok (hrange : e.RangeOrdered) (c : Candle) : ∃ built, e.buildRange c = .ok built := by
  unfold buildRange
  rcases hrange with ⟨hnone, _⟩ | ⟨hi, lo, hhi, hlo, -⟩
  · rw [hnone]
    exact ⟨_, rfl⟩
  · simp only [hhi, hlo, number, ok_bind]
    exact ⟨_, rfl⟩

theorem onRangeDefined_ok (hcore : Core e) (hstate : e.state = .rangeDefined) (hdiv : ¬ e.Divides cfg c info) :
    ∃ r, e.onRangeDefined cfg c info = .ok r := by
  unfold onRangeDefined
  by_cases hbuild : e.Building info
  · obtain ⟨built, hbuilt⟩ := buildRange_ok hcore.range c
    rw [if_pos hbuild, hbuilt, ok_bind]
    exact ⟨_, rfl⟩
  · rw [if_neg hbuild]
    by_cases hwarm : e.warm cfg = true
    · have hhi : e.rangeHi.isSome = true := by
        cases hnone : e.rangeHi with
        | some _ => rfl
        | none =>
          obtain ⟨hrebuild, hlock⟩ := hcore.defined hstate hnone
          exact absurd ⟨Or.inr hrebuild, hlock⟩ hbuild
      have hsettle : (e.settleRange info).breaksOut cfg c = true → ¬ (e.settleRange info).ZeroDivisor cfg := by
        intro hbreak hzero
        unfold breaksOut at hbreak
        rw [settleRange_breakoutDirection] at hbreak
        unfold ZeroDivisor at hzero
        rw [settleRange_roc] at hzero
        exact hdiv ⟨hbuild, hwarm, hbreak, hzero⟩
      obtain ⟨r, hr⟩ := checkBreakout_ok (e := e.settleRange info) (c := c) (rangeOrdered_settle hcore.range)
        (settleRange_rangeHi.symm ▸ hhi) (settleRange_warm.symm ▸ hwarm) hsettle
      simp only [settleRange_warm, hwarm, hr]
      exact ⟨r, rfl⟩
    · simp only [settleRange_warm, hwarm]
      exact ⟨_, rfl⟩

theorem rangeReentered_ok (cfg : OrbConfig) (hrange : e.RangeOrdered) (hhi : e.rangeHi.isSome = true) (pos : PositionState)
    (c : Candle) : ∃ b, e.rangeReentered cfg pos c = .ok b := by
  obtain ⟨hi, lo, hhi, hlo, -⟩ := hrange.of_isSome hhi
  unfold rangeReentered
  rw [hhi, hlo]
  split <;> exact ⟨_, rfl⟩

theorem onBreakout_ok (hcore : Core e) (hstate : e.state = .breakout) : ∃ r, e.onBreakout cfg c = .ok r := by
  obtain ⟨pos, hpos⟩ := hcore.pos_some hstate
  obtain ⟨hhi, -, hatr⟩ := hcore.breakout hstate
  obtain ⟨atr, hatr⟩ : ∃ atr, e.atr.value = some atr := Option.isSome_iff_exists.mp hatr
  obtain ⟨reentered, hre⟩ := rangeReentered_ok cfg (e := e.holding (heldBar pos c)) hcore.range hhi
    (heldBar pos c) c
  unfold onBreakout
  simp only [hpos]
  rw [show rangeReentered cfg { e with pos := some (heldBar pos c) } (heldBar pos c) c = .ok reentered
    from hre, ok_bind]
  simp only [exitPosition, hatr, number, ok_bind]
  split_ifs <;> exact ⟨_, rfl⟩

theorem dispatch_ok (hcore : Core e) (hdiv : e.state = .rangeDefined → ¬ e.Divides cfg c info) :
    ∃ r, e.dispatch cfg c info = .ok r := by
  unfold dispatch
  cases hstate : e.state with
  | idle => exact ⟨_, rfl⟩
  | rangeDefined => exact onRangeDefined_ok hcore hstate (hdiv hstate)
  | breakout => exact onBreakout_ok hcore hstate
  | exit => exact ⟨_, rfl⟩

theorem exitPosition_total (cfg : OrbConfig) (hcore : Core e) (hstate : e.state = .breakout) (reason : ExitReason)
    (toState : State) (price : ℚ) : ∃ r, e.exitPosition cfg c reason toState price = .ok r := by
  obtain ⟨pos, hpos⟩ := hcore.pos_some hstate
  unfold exitPosition
  rw [hpos]
  exact ⟨_, rfl⟩

theorem newSession_ok (cfg : OrbConfig) (hcore : Core e) (c : Candle) (info : SessionInfo) : ∃ intake, e.newSession cfg c info = .ok intake := by
  unfold newSession
  by_cases hstate : e.state = .breakout
  · obtain ⟨r, hr⟩ := exitPosition_total cfg (c := c) hcore hstate .sessionEnd .idle c.close
    rw [if_pos hstate, hr]
    exact ⟨_, rfl⟩
  · rw [if_neg hstate]
    exact ⟨_, rfl⟩

theorem handleGapReset_ok (cfg : OrbConfig) (hcore : Core e) (c : Candle) (hfits : ¬ SessionClock.Overflows cfg c.ts) :
    ∃ r, e.handleGapReset cfg c = .ok r := by
  unfold handleGapReset
  rw [classified_eq, if_neg hfits, ok_bind]
  by_cases hstate : e.state = .breakout
  · obtain ⟨r, hr⟩ := exitPosition_total cfg (c := c) hcore hstate .gapInvalidate .idle c.close
    simp only [if_pos hstate, hr]
    exact ⟨_, rfl⟩
  · simp only [if_neg hstate]
    exact ⟨_, rfl⟩

theorem sameSession_ok (cfg : OrbConfig) (hcore : Core e) (c : Candle) (info : SessionInfo)
    (hfits : ¬ SessionClock.Overflows cfg c.ts) : ∃ intake, e.sameSession cfg c info = .ok intake := by
  unfold sameSession
  by_cases hzone : info.zone = .after
  · simp only [if_pos hzone]
    by_cases hstate : e.state = .breakout
    · obtain ⟨r, hr⟩ := exitPosition_total cfg (c := c) (hcore.withLastTs c.ts) hstate .sessionEnd
        .idle c.close
      simp only [if_pos hstate, hr]
      exact ⟨_, rfl⟩
    · simp only [if_neg hstate]
      split <;> exact ⟨_, rfl⟩
  · simp only [if_neg hzone]
    obtain ⟨r, hr⟩ := handleGapReset_ok cfg hcore c hfits
    rw [hr]
    simp only [ok_bind]
    split
    · split <;> exact ⟨_, rfl⟩
    · exact ⟨_, rfl⟩

theorem IntakeStep.rocFed (h : IntakeStep cfg e c info (.go e')) (hroc : RocFed cfg e) : RocFed cfg e' := by
  cases h with
  | fresh => exact ⟨rfl, by simp [resetForNewSession, buildIndicators, clearRange]⟩
  | gapReset =>
    show RocFed cfg { e.afterGap cfg (SessionClock.place cfg c.ts) with lastTs := some c.ts }
    unfold afterGap buildIndicators
    split <;> exact ⟨rfl, by simp [clearRange]⟩
  | plain => exact hroc.congr rfl

theorem BarStep.rocFed (h : BarStep cfg e c sig e') (hsound : Sound cfg e) (hroc : RocFed cfg e)
    (hclose : cfg.useRoc = true → c.close ≠ 0) : RocFed cfg e' := by
  cases h with
  | late => exact hroc
  | done sig e' hlate hintake =>
    cases hintake with
    | carried => exact ⟨rfl, by simp [resetForNewSession, buildIndicators, clearRange]⟩
    | closed | tornDown | quiet => exact hroc.congr rfl
    | gapExit =>
      show RocFed cfg { ({ e with pos := none } : OrbEngine).afterGap cfg _ with lastTs := some c.ts }
      unfold afterGap buildIndicators
      split <;> exact ⟨rfl, by simp [clearRange]⟩
  | handled entered sig e' hlate hintake hhandler =>
    have hentered := hsound.entered hlate hintake
    obtain ⟨-, -, hsame⟩ := hhandler.frame hentered.core.range
    exact ((hintake.rocFed hroc).feedIndicators hclose).congr hsame

/-- A bar past the checks raises only where a state handler divides by zero. -/
theorem onCandle_ok {raw : RawCandle} (hsound : Sound cfg e) (hc : validate raw = .ok c) (hlate : e.isLate c.ts = false)
    (hfits : ¬ SessionClock.Overflows cfg c.ts)
    (hdiv : ∀ entered, IntakeStep cfg e c (SessionClock.place cfg c.ts) (.go entered) → entered.state = .rangeDefined →
      ¬ (entered.feedIndicators cfg c (SessionClock.place cfg c.ts)).Divides cfg c (SessionClock.place cfg c.ts)) :
    ∃ r, e.onCandle cfg raw = .ok r := by
  have hgo : ∀ entered, IntakeStep cfg e c (SessionClock.place cfg c.ts) (.go entered) →
      ∃ r, (entered.feedIndicators cfg c (SessionClock.place cfg c.ts)).dispatch cfg c
        (SessionClock.place cfg c.ts) = .ok r := by
    intro entered hintake
    refine dispatch_ok (hsound.entered hlate hintake).core fun hstate => ?_
    rw [feedIndicators_state] at hstate
    exact hdiv entered hintake hstate
  unfold onCandle
  simp only [hc, Except.mapError, ok_bind, hlate, Bool.false_eq_true, if_false]
  rw [classified_eq, if_neg hfits, ok_bind]
  by_cases hid : some (SessionClock.place cfg c.ts).sessionId ≠ e.sessionId
  · obtain ⟨intake, hintake⟩ := newSession_ok cfg hsound.core c (SessionClock.place cfg c.ts)
    simp only [if_pos hid, hintake, ok_bind]
    cases intake with
    | done => exact ⟨_, rfl⟩
    | go entered => exact hgo entered (newSession_cases hid hintake)
  · obtain ⟨intake, hintake⟩ := sameSession_ok cfg hsound.core c (SessionClock.place cfg c.ts) hfits
    simp only [if_neg hid, hintake, ok_bind]
    cases intake with
    | done => exact ⟨_, rfl⟩
    | go entered => exact hgo entered (sameSession_cases (not_not.mp hid) hintake)

theorem onCandle_overflow {raw : RawCandle} (hc : validate raw = .ok c) (hlate : e.isLate c.ts = false)
    (hover : SessionClock.Overflows cfg c.ts) : e.onCandle cfg raw = .error .overflow := by
  unfold onCandle
  simp only [hc, Except.mapError, ok_bind, hlate, Bool.false_eq_true, if_false]
  rw [classified_eq, if_pos hover]
  rfl

theorem onCandle_error_cases {raw : RawCandle} {err : EngineError} (h : e.onCandle cfg raw = .error err) :
    err.isData = true ∨ ∃ c, validate raw = .ok c ∧ e.isLate c.ts = false := by
  unfold onCandle at h
  cases hv : validate raw with
  | error fault =>
    rw [hv] at h
    cases h
    exact Or.inl rfl
  | ok c =>
    simp only [hv, Except.mapError, ok_bind] at h
    by_cases hlate : e.isLate c.ts = true
    · rw [if_pos hlate] at h
      split at h
      · cases h
        exact Or.inl rfl
      · cases h
    · exact Or.inr ⟨c, rfl, by simpa using hlate⟩

/-- **Nothing but a data error or the clock's overflow is raised** by an engine that is fed nonzero closes. -/
theorem onCandle_error {raw : RawCandle} {err : EngineError} (hsound : Sound cfg e) (hroc : RocFed cfg e)
    (hclose : ∀ c, validate raw = .ok c → cfg.useRoc = true → c.close ≠ 0)
    (h : e.onCandle cfg raw = .error err) : err.isEarly = true := by
  rcases onCandle_error_cases h with hdata | ⟨c, hc, hlate⟩
  · cases err <;> first | exact hdata | rfl
  · by_cases hover : SessionClock.Overflows cfg c.ts
    · cases (onCandle_overflow hc hlate hover).symm.trans h
      rfl
    obtain ⟨r, hr⟩ := onCandle_ok hsound hc hlate hover fun entered hintake _ hdivides =>
      ((hintake.rocFed hroc).feedIndicators (hclose c hc)).nonzero hdivides.2.1 hdivides.2.2.2
    cases hr.symm.trans h

end OrbEngine

end FreqTrading
