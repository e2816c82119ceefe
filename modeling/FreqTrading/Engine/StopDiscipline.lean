import FreqTrading.Engine.OneTrade

/-!
# The stop of an open position

With close-based exits, a position that survives a bar has its stop strictly behind the close and its take
profit strictly ahead of it: the close has just passed neither, and the stop is pulled up to a positive
distance only. That the distance is positive is the ATR's part. An ATR is zero only while every bar since it
was built was one and the same price (`Fed`), and then the range is that price too and nothing breaks out
of it; once positive, an ATR of period two or more stays so. Over runs, `Disciplined` holds in every state,
and the life of a position is a chain of bars each of which keeps its stop as tight (`LifeStep`).
-/

namespace FreqTrading

open Lib

/-- The price `b` is strictly ahead of `a` in the direction. -/
def Direction.Ahead : Direction → ℚ → ℚ → Prop
  | .long, a, b => a < b
  | .short, a, b => b < a

instance : (d : Direction) → (a b : ℚ) → Decidable (d.Ahead a b)
  | .long, a, b => inferInstanceAs (Decidable (a < b))
  | .short, a, b => inferInstanceAs (Decidable (b < a))

theorem Direction.Ahead.trans {d : Direction} {x y z : ℚ} (hxy : d.Ahead x y) (hyz : d.Ahead y z) :
    d.Ahead x z := by
  cases d
  · exact lt_trans hxy hyz
  · exact lt_trans hyz hxy

theorem Direction.asTight_refl (d : Direction) (x : ℚ) : d.AsTight x x := by
  cases d <;> exact le_rfl

theorem Direction.AsTight.trans {d : Direction} {x y z : ℚ} (hxy : d.AsTight x y) (hyz : d.AsTight y z) :
    d.AsTight x z := by
  cases d
  · exact le_trans hxy hyz
  · exact le_trans hyz hxy

/-! ### The ATR of a price that has moved -/

namespace WilderATR

/-- The ATR, or the sum it is seeded from. Zero exactly if no bar had a true range. -/
def level (a : WilderATR) : ℚ := a.atr.getD a.seedSum

theorem trueRange_nonneg (a : WilderATR) {high low : ℚ} (h : low ≤ high) : 0 ≤ a.trueRange high low := by
  unfold trueRange
  split
  · exact sub_nonneg.mpr h
  · exact (abs_nonneg _).trans (le_max_right _ _)

theorem trueRange_zero {a : WilderATR} {high low : ℚ} (hle : low ≤ high) (h : a.trueRange high low = 0) :
    low = high ∧ ∀ p ∈ a.prevClose, p = high := by
  unfold trueRange at h
  split at h
  · next hnone => exact ⟨by linarith, by simp [hnone]⟩
  · next p hsome =>
    have hspan : high - low ≤ 0 := h ▸ (le_max_left _ _).trans (le_max_left _ _)
    have hjump : |high - p| ≤ 0 := h ▸ (le_max_right _ _).trans (le_max_left _ _)
    refine ⟨by linarith, fun q hq => ?_⟩
    obtain rfl : p = q := Option.some.inj (hsome.symm.trans hq)
    have := abs_nonpos_iff.mp hjump
    linarith

/-- What holds of an ATR between bars. -/
structure Seeding (period : Int) (a : WilderATR) : Prop where
  period_eq : a.period = period
  counting : a.atr = none → (a.count : Int) < a.period
  nonneg : 0 ≤ a.level

theorem seeding_start {period : Int} (h : 1 ≤ period) : Seeding period { period := period } :=
  ⟨rfl, fun _ => by simp; omega, le_rfl⟩

@[simp] theorem update_prevClose (a : WilderATR) (high low close : ℚ) :
    (a.update high low close).prevClose = some close := by
  unfold update
  simp only
  split
  · rfl
  · split <;> rfl

theorem Seeding.update {period : Int} {a : WilderATR} (h : Seeding period a) (hperiod : 1 ≤ period)
    {high low : ℚ} (hle : low ≤ high) (close : ℚ) : Seeding period (a.update high low close) := by
  have htr := a.trueRange_nonneg hle
  have hp : (1 : ℚ) ≤ a.period := by rw [h.period_eq]; exact_mod_cast hperiod
  have hlevel := h.nonneg
  unfold WilderATR.update
  simp only
  split
  · next v hv =>
    have hv0 : 0 ≤ v := by simpa [level, hv] using hlevel
    refine ⟨h.period_eq, by simp, ?_⟩
    exact div_nonneg (add_nonneg (mul_nonneg hv0 (by linarith)) htr) (by linarith)
  · next hnone =>
    have hseed : 0 ≤ a.seedSum := by simpa [level, hnone] using hlevel
    split
    · next hcount =>
      refine ⟨h.period_eq, fun hnone' => ?_, ?_⟩
      · simp only at hnone' ⊢
        split at hnone'
        · cases hnone'
        · omega
      · unfold level
        simp only
        split
        · exact div_nonneg (add_nonneg hseed htr) (by linarith)
        · exact add_nonneg hseed htr
    · next hcount =>
      have := h.counting hnone
      push_cast at hcount
      omega

theorem level_update_zero {period : Int} {a : WilderATR} (h : Seeding period a) (hperiod : 2 ≤ period)
    {high low close : ℚ} (hle : low ≤ high) (hzero : (a.update high low close).level = 0) :
    a.level = 0 ∧ a.trueRange high low = 0 := by
  have htr := a.trueRange_nonneg hle
  have hp : (2 : ℚ) ≤ a.period := by rw [h.period_eq]; exact_mod_cast hperiod
  have hlevel := h.nonneg
  unfold level WilderATR.update at hzero
  simp only at hzero
  split at hzero
  · next v hv =>
    have hv0 : 0 ≤ v := by simpa [level, hv] using hlevel
    simp only [Option.getD_some] at hzero
    rw [div_eq_zero_iff] at hzero
    have hsum : v * (a.period - 1) + a.trueRange high low = 0 := hzero.resolve_right (by linarith)
    have hprod : 0 ≤ v * ((a.period : ℚ) - 1) := mul_nonneg hv0 (by linarith)
    have hv : v * ((a.period : ℚ) - 1) = 0 := by linarith
    refine ⟨?_, by linarith⟩
    unfold level
    rw [‹a.atr = some v›]
    exact (mul_eq_zero.mp hv).resolve_right (by linarith)
  · next hnone =>
    have hseed : 0 ≤ a.seedSum := by simpa [level, hnone] using hlevel
    have hboth : a.seedSum + a.trueRange high low = 0 → a.level = 0 ∧ a.trueRange high low = 0 := by
      intro hsum
      refine ⟨?_, by linarith⟩
      unfold level
      rw [hnone, Option.getD_none]
      linarith
    split at hzero
    · split at hzero
      · rw [Option.getD_some, div_eq_zero_iff] at hzero
        exact hboth (hzero.resolve_right (by linarith))
      · exact hboth hzero
    · have := h.counting hnone
      omega

end WilderATR

namespace OrbEngine

variable {cfg : OrbConfig} {e e' : OrbEngine} {c : Candle} {info : SessionInfo} {sig : Option Signal}

/-- An ATR of zero has only seen one price, and the range is that price. -/
structure Fed (cfg : OrbConfig) (e : OrbEngine) : Prop where
  seeding : e.atr.Seeding cfg.atrPeriod
  hi : e.atr.level = 0 → ∀ x ∈ e.rangeHi, e.atr.prevClose = some x
  lo : e.atr.level = 0 → ∀ x ∈ e.rangeLo, e.atr.prevClose = some x

theorem fed_of_unset (hseed : e.atr.Seeding cfg.atrPeriod) (hhi : e.rangeHi = none) (hlo : e.rangeLo = none) :
    Fed cfg e :=
  ⟨hseed, by simp [hhi], by simp [hlo]⟩

theorem Fed.congr (h : Fed cfg e) (hatr : e'.atr = e.atr) (hhi : e'.rangeHi = e.rangeHi)
    (hlo : e'.rangeLo = e.rangeLo) : Fed cfg e' :=
  ⟨hatr ▸ h.seeding, hatr ▸ hhi ▸ h.hi, hatr ▸ hlo ▸ h.lo⟩

theorem fed_init (hperiod : 2 ≤ cfg.atrPeriod) : Fed cfg (init cfg) :=
  fed_of_unset (WilderATR.seeding_start (by omega)) rfl rfl

/-- The bar was fed to the ATR: one of zero has found it to be the single price. -/
structure JustFed (cfg : OrbConfig) (c : Candle) (e : OrbEngine) : Prop extends Fed cfg e where
  last : e.atr.prevClose = some c.close
  flat : e.atr.level = 0 → c.low = c.close ∧ c.high = c.close

theorem Fed.feed (h : Fed cfg e) (hperiod : 2 ≤ cfg.atrPeriod) (hin : info.zone.Inside) :
    JustFed cfg c (e.feedIndicators cfg c info) := by
  unfold feedIndicators
  rw [if_pos hin]
  have hflat : (e.atr.update c.high c.low c.close).level = 0 →
      e.atr.level = 0 ∧ c.low = c.high ∧ ∀ p ∈ e.atr.prevClose, p = c.high := by
    intro hzero
    obtain ⟨hlevel, htr⟩ := WilderATR.level_update_zero h.seeding hperiod c.low_le_high hzero
    exact ⟨hlevel, WilderATR.trueRange_zero c.low_le_high htr⟩
  have hclose : c.low = c.high → c.high = c.close := fun heq =>
    le_antisymm (heq ▸ c.low_le_close) c.close_le_high
  refine ⟨⟨h.seeding.update (by omega) c.low_le_high _, fun hzero x hx => ?_, fun hzero x hx => ?_⟩,
    by simp, fun hzero => ?_⟩
  · obtain ⟨hlevel, heq, hprev⟩ := hflat hzero
    rw [WilderATR.update_prevClose, hprev x (h.hi hlevel x hx), hclose heq]
  · obtain ⟨hlevel, heq, hprev⟩ := hflat hzero
    rw [WilderATR.update_prevClose, hprev x (h.lo hlevel x hx), hclose heq]
  · obtain ⟨-, heq, -⟩ := hflat hzero
    exact ⟨heq.trans (hclose heq), hclose heq⟩

theorem buildRange_fed (h : JustFed cfg c e) (hbuilt : e.buildRange c = .ok e') : Fed cfg e' := by
  unfold buildRange at hbuilt
  split at hbuilt
  · cases hbuilt
    refine ⟨h.seeding, fun hzero x hx => ?_, fun hzero x hx => ?_⟩
    · obtain rfl : c.high = x := Option.some.inj hx
      rw [(h.flat hzero).2]
      exact h.last
    · obtain rfl : c.low = x := Option.some.inj hx
      rw [(h.flat hzero).1]
      exact h.last
  · next hi hhi =>
    obtain ⟨lo, hlo, hbuilt⟩ := bind_ok.mp hbuilt
    cases hbuilt
    have hlo := number_ok.mp hlo
    refine ⟨h.seeding, fun hzero x hx => ?_, fun hzero x hx => ?_⟩
    · obtain rfl : max hi c.high = x := Option.some.inj hx
      have hsame : hi = c.close := Option.some.inj ((h.hi hzero hi hhi).symm.trans h.last)
      rw [(h.flat hzero).2, hsame, max_self]
      exact h.last
    · obtain rfl : min lo c.low = x := Option.some.inj hx
      have hsame : lo = c.close := Option.some.inj ((h.lo hzero lo hlo).symm.trans h.last)
      rw [(h.flat hzero).1, hsame, min_self]
      exact h.last

theorem maybeLock_range (cfg : OrbConfig) (e : OrbEngine) :
    (e.maybeLock cfg).atr = e.atr ∧ (e.maybeLock cfg).rangeHi = e.rangeHi ∧
      (e.maybeLock cfg).rangeLo = e.rangeLo := by
  unfold maybeLock lockRange
  split <;> exact ⟨rfl, rfl, rfl⟩

theorem Fed.flatten (h : Fed cfg e) (toState : State) : Fed cfg (e.flatten cfg toState) := by
  unfold OrbEngine.flatten
  split
  · exact fed_of_unset h.seeding rfl rfl
  · exact h.congr rfl rfl rfl

theorem fed_afterGap (e : OrbEngine) (info : SessionInfo) (hperiod : 2 ≤ cfg.atrPeriod) : Fed cfg (e.afterGap cfg info) := by
  have hseed : WilderATR.Seeding cfg.atrPeriod { period := cfg.atrPeriod } :=
    WilderATR.seeding_start (by omega)
  unfold OrbEngine.afterGap
  split <;> exact fed_of_unset hseed rfl rfl

theorem IntakeStep.fed_go (h : IntakeStep cfg e c info (.go e')) (hfed : Fed cfg e)
    (hperiod : 2 ≤ cfg.atrPeriod) : Fed cfg e' := by
  cases h with
  | fresh => exact fed_of_unset (WilderATR.seeding_start (by omega)) rfl rfl
  | gapReset => exact (fed_afterGap e _ hperiod).congr rfl rfl rfl
  | plain => exact hfed.congr rfl rfl rfl

theorem IntakeStep.fed_done (h : IntakeStep cfg e c info (.done sig e')) (hfed : Fed cfg e)
    (hperiod : 2 ≤ cfg.atrPeriod) : Fed cfg e' := by
  cases h with
  | carried => exact fed_of_unset (WilderATR.seeding_start (by omega)) rfl rfl
  | closed | quiet => exact hfed.congr rfl rfl rfl
  | tornDown => exact fed_of_unset hfed.seeding rfl rfl
  | gapExit pos =>
    exact (fed_afterGap { e with pos := none } _ hperiod).congr rfl rfl rfl

theorem HandlerStep.fed (h : HandlerStep cfg e c info sig e') (hfed : Fed cfg e)
    (hjust : info.zone.Inside → JustFed cfg c e) (hin : e.state ≠ .idle → info.zone.Inside) : Fed cfg e' := by
  cases h with
  | waiting => exact hfed
  | opened hstate hzone =>
    obtain ⟨hatr, hhi, hlo⟩ := maybeLock_range cfg (e.rangeOpened c)
    have hj := hjust (Or.inl hzone)
    refine Fed.congr (e := e.rangeOpened c) ⟨hj.seeding, fun hzero x hx => ?_, fun hzero x hx => ?_⟩ hatr hhi hlo
    · obtain rfl : c.high = x := Option.some.inj hx
      rw [(hj.flat hzero).2]
      exact hj.last
    · obtain rfl : c.low = x := Option.some.inj hx
      rw [(hj.flat hzero).1]
      exact hj.last
  | building built hstate hbuild hbuilt =>
    obtain ⟨hatr, hhi, hlo⟩ := maybeLock_range cfg built
    have hj := hjust (hin (by rw [hstate]; decide))
    exact (buildRange_fed hj hbuilt).congr hatr hhi hlo
  | armed | broke => exact hfed.congr settleRange_atr settleRange_rangeHi settleRange_rangeLo
  | left => exact Fed.flatten (hfed.congr rfl rfl rfl) _
  | partly | trailed => exact hfed.congr rfl rfl rfl

/-! ### The distance of the stop -/

theorem stopMinDist_pos {lo : ℚ} (h : cfg.stopMinDist = some lo) : 0 < lo := by
  have hcheck : (cfg.stopMinDist.any (· ≤ 0), "stop_min_dist must be > 0").1 = false :=
    cfg.check_passes (by simp [OrbConfigFields.checks])
  simpa [h] using hcheck

theorem stopMaxDist_pos {hi : ℚ} (h : cfg.stopMaxDist = some hi) : 0 < hi := by
  have hcheck : (cfg.stopMaxDist.any (· ≤ 0), "stop_max_dist must be > 0").1 = false :=
    cfg.check_passes (by simp [OrbConfigFields.checks])
  simpa [h] using hcheck

theorem atrMult_pos (cfg : OrbConfig) : 0 < cfg.atrMult := by
  have hcheck : (decide (cfg.atrMult ≤ 0), "atr_mult must be > 0").1 = false :=
    cfg.check_passes (by simp [OrbConfigFields.checks])
  simpa using hcheck

theorem tpRrr_pos {rrr : ℚ} (h : cfg.tpRrr = some rrr) : 0 < rrr := by
  have hcheck : (cfg.tpRrr.any (· ≤ 0), "tp_rrr must be > 0").1 = false :=
    cfg.check_passes (by simp [OrbConfigFields.checks])
  simpa [h] using hcheck

/-- The settings under which a stop keeps a distance. -/
def KeepsDistance (cfg : OrbConfig) : Prop := 2 ≤ cfg.atrPeriod ∨ cfg.stopMinDist.isSome = true

theorem stopDist_pos (h : KeepsDistance cfg) {atr : ℚ} (hatr : 2 ≤ cfg.atrPeriod → 0 < atr) :
    0 < stopDist cfg atr := by
  unfold stopDist
  simp only
  cases hmin : cfg.stopMinDist with
  | some lo => exact lt_of_lt_of_le (stopMinDist_pos hmin) (le_max_right _ _)
  | none =>
    have hpos : 0 < cfg.atrMult * atr := by
      refine mul_pos (atrMult_pos cfg) (hatr (h.resolve_right ?_))
      simp [hmin]
    cases hmax : cfg.stopMaxDist with
    | none => exact hpos
    | some hi => exact lt_min hpos (stopMaxDist_pos hmax)

/-! ### What a bar does to the position -/

/-- The stop lies strictly behind a price and the take profit strictly ahead of it. -/
structure Guarded (pos : PositionState) (price : ℚ) : Prop where
  stop : pos.direction.Ahead pos.stop price
  tp : ∀ tp ∈ pos.tp, pos.direction.Ahead price tp

theorem initialStop_ahead (d : Direction) (price : ℚ) {dist : ℚ} (h : 0 < dist) :
    d.Ahead (initialStop d price dist) price := by
  cases d
  · show price - dist < price
    linarith
  · show price < price + dist
    linarith

theorem openedPosition_guarded (h : KeepsDistance cfg) (c : Candle) (d : Direction) {atr : ℚ}
    (hatr : 2 ≤ cfg.atrPeriod → 0 < atr) : Guarded (openedPosition cfg c d atr) c.close := by
  have hstop := initialStop_ahead d c.close (stopDist_pos h hatr)
  refine ⟨hstop, fun tp htp => ?_⟩
  obtain ⟨rrr, hrrr, rfl⟩ := Option.map_eq_some_iff.mp htp
  have hreach : 0 < rrr * |initialStop d c.close (stopDist cfg atr) - c.close| := by
    refine mul_pos (tpRrr_pos hrrr) (abs_pos.mpr (sub_ne_zero.mpr ?_))
    cases d
    · exact ne_of_lt hstop
    · exact ne_of_gt hstop
  cases d
  · show c.close < c.close + _
    linarith
  · show c.close - _ < c.close
    linarith

theorem ahead_of_trailHit (hmode : cfg.reentryOn = .close) {pos : PositionState}
    (h : trailHit cfg pos c = false) : pos.direction.Ahead pos.stop c.close := by
  unfold trailHit at h
  rw [hmode] at h
  cases hdir : pos.direction <;> simpa [hdir, Direction.Ahead] using h

theorem ahead_of_tpHit (hmode : cfg.reentryOn = .close) {pos : PositionState} (h : tpHit cfg pos c = false) :
    ∀ tp ∈ pos.tp, pos.direction.Ahead c.close tp := by
  intro tp htp
  have htp : pos.tp = some tp := htp
  unfold tpHit at h
  rw [hmode, htp] at h
  cases hdir : pos.direction <;> simpa [hdir, Direction.Ahead] using h

/-- A close that has hit the take profit is ahead of whatever was strictly behind a price behind it. -/
theorem ahead_of_tp_reached (hmode : cfg.reentryOn = .close) {pos : PositionState} {price : ℚ}
    (hguard : Guarded pos price) (h : tpHit cfg pos c = true) : pos.direction.Ahead pos.stop c.close := by
  obtain ⟨tp, htp⟩ := Option.isSome_iff_exists.mp (tpHit_isSome h)
  have hahead := hguard.stop.trans (hguard.tp tp htp)
  unfold tpHit at h
  rw [hmode, htp] at h
  cases hdir : pos.direction with
  | long =>
    simp only [hdir, decide_eq_true_eq, Direction.Ahead] at h hahead ⊢
    exact lt_of_lt_of_le hahead h
  | short =>
    simp only [hdir, decide_eq_true_eq, Direction.Ahead] at h hahead ⊢
    exact lt_of_le_of_lt h hahead

theorem ratchetStop_ahead {pos : PositionState} {close dist : ℚ} (h : pos.direction.Ahead pos.stop close)
    (hdist : 0 < dist) : pos.direction.Ahead (ratchetStop pos close dist) close := by
  unfold ratchetStop
  cases hdir : pos.direction with
  | long =>
    rw [hdir] at h
    exact max_lt h (by linarith)
  | short =>
    rw [hdir] at h
    exact lt_min h (by linarith)

/-- What `_on_breakout` leaves of a position: the rest of one whose take profit was reached, or the position with
its stop pulled up, after neither the take profit nor the stop was. -/
theorem onBreakout_open {pos' : PositionState} (h : e.onBreakout cfg c = .ok (sig, e'))
    (hpos' : e'.pos = some pos') :
    ∃ pos, e.pos = some pos ∧ e'.atr = e.atr ∧
      ((tpHit cfg (heldBar pos c) c = true ∧ pos' = { heldBar pos c with tp := none }) ∨
        ∃ atr, e.atr.value = some atr ∧ tpHit cfg (heldBar pos c) c = false ∧
          trailHit cfg (heldBar pos c) c = false ∧
          pos' = { heldBar pos c with stop := ratchetStop (heldBar pos c) c.close (stopDist cfg atr) }) := by
  unfold onBreakout at h
  cases hpos : e.pos with
  | none => rw [hpos] at h; cases h
  | some pos =>
    have hgone : ∀ {f : OrbEngine} {st : State}, e' = f.flatten cfg st → False := by
      rintro f st rfl
      rw [(flatten_frame cfg f st).2.1] at hpos'
      cases hpos'
    simp only [hpos] at h
    obtain ⟨reentered, -, h⟩ := bind_ok.mp h
    split at h
    · cases h
      exact (hgone rfl).elim
    split at h
    · next htp =>
      split at h
      · cases h
        exact ⟨pos, rfl, rfl, Or.inl ⟨htp, (Option.some.inj hpos').symm⟩⟩
      · cases h
        exact (hgone rfl).elim
    · next htp =>
      split at h
      · cases h
        exact (hgone rfl).elim
      · next htrail =>
        obtain ⟨atr, hatr, h⟩ := bind_ok.mp h
        cases h
        exact ⟨pos, rfl, rfl, Or.inr ⟨atr, number_ok.mp hatr, by simpa using htp, by simpa using htrail,
          (Option.some.inj hpos').symm⟩⟩

theorem onRangeDefined_entry (hflat : e.pos = none) (h : e.onRangeDefined cfg c info = .ok (sig, e')) :
    (e'.pos = none ∧ ∀ s ∈ sig, s.kind ≠ .entry) ∨
    ∃ d atr m, ¬ e.Building info ∧ e.breakoutDirection c = .ok (some d) ∧ e.atr.value = some atr ∧
      sig = some ((e.settleRange info).entrySignal cfg c d atr m) ∧
      e' = (e.settleRange info).openPosition cfg c d atr := by
  unfold onRangeDefined at h
  by_cases hbuild : e.Building info
  · rw [if_pos hbuild] at h
    obtain ⟨built, hbuilt, h⟩ := bind_ok.mp h
    cases h
    obtain ⟨hi, lo, bars, rfl⟩ := buildRange_frame hbuilt
    exact Or.inl ⟨(maybeLock_frame cfg _).2.1.trans hflat, by simp⟩
  · rw [if_neg hbuild] at h
    simp only at h
    split at h
    · cases h
      exact Or.inl ⟨settleRange_pos.trans hflat, by simp⟩
    rcases checkBreakout_cases h with ⟨rfl, hsig⟩ | ⟨d, atr, m, hdir, hatr, rfl, rfl⟩
    · refine Or.inl ⟨settleRange_pos.trans hflat, fun s hs => ?_⟩
      rw [hsig s hs]
      decide
    · rw [settleRange_breakoutDirection] at hdir
      rw [settleRange_atr] at hatr
      exact Or.inr ⟨d, atr, m, hbuild, hdir, hatr, rfl, rfl⟩

/-! ### The invariant -/

/-- A position is guarded at the close last fed to the ATR, and the ATR has moved. -/
structure Held (cfg : OrbConfig) (e : OrbEngine) (pos : PositionState) : Prop where
  last : ∃ price, e.atr.prevClose = some price ∧ Guarded pos price
  moved : 2 ≤ cfg.atrPeriod → 0 < e.atr.level

/-- What holds of the engine between bars. -/
structure Disciplined (cfg : OrbConfig) (e : OrbEngine) : Prop where
  sound : Sound cfg e
  fed : 2 ≤ cfg.atrPeriod → Fed cfg e
  held : ∀ pos ∈ e.pos, Held cfg e pos

theorem disciplined_init : Disciplined cfg (init cfg) :=
  ⟨sound_init, fed_init, by simp [init]⟩

theorem Disciplined.of_flat (hsound : Sound cfg e) (hfed : 2 ≤ cfg.atrPeriod → Fed cfg e) (hflat : e.pos = none) :
    Disciplined cfg e :=
  ⟨hsound, hfed, by simp [hflat]⟩

theorem level_eq {a : WilderATR} {v : ℚ} (h : a.value = some v) : a.level = v := by
  unfold WilderATR.level
  rw [show a.atr = some v from h, Option.getD_some]

theorem moved_feed (hfed : Fed cfg e) (hperiod : 2 ≤ cfg.atrPeriod) (hin : info.zone.Inside)
    (hmoved : 0 < e.atr.level) : 0 < (e.feedIndicators cfg c info).atr.level := by
  have hnonneg := (hfed.feed (c := c) hperiod hin).seeding.nonneg
  refine lt_of_le_of_ne hnonneg (fun hzero => ?_)
  unfold feedIndicators at hzero
  rw [if_pos hin] at hzero
  have := (WilderATR.level_update_zero hfed.seeding hperiod c.low_le_high hzero.symm).1
  linarith

theorem feedIndicators_last (hin : info.zone.Inside) :
    (e.feedIndicators cfg c info).atr.prevClose = some c.close := by
  unfold feedIndicators
  rw [if_pos hin]
  exact WilderATR.update_prevClose _ _ _ _

theorem moved_of_breakout (hjust : JustFed cfg c e) {d : Direction}
    (h : e.breakoutDirection c = .ok (some d)) : 0 < e.atr.level := by
  refine lt_of_le_of_ne hjust.seeding.nonneg (fun hzero => ?_)
  rcases (breakoutDirection_beyond h).2 with ⟨-, hi, hhi, hlt⟩ | ⟨-, lo, hlo, hlt⟩
  · have := Option.some.inj ((hjust.hi hzero.symm hi hhi).symm.trans hjust.last)
    linarith
  · have := Option.some.inj ((hjust.lo hzero.symm lo hlo).symm.trans hjust.last)
    linarith

theorem heldBar_guarded {pos : PositionState} {price : ℚ} (h : Guarded pos price) (c : Candle) :
    Guarded (heldBar pos c) price := by
  obtain ⟨hstop, htp⟩ := h
  refine ⟨?_, ?_⟩
  · rwa [heldBar_direction, heldBar_stop]
  · rwa [heldBar_tp, heldBar_direction]

theorem guarded_rangeDefined (hkeep : KeepsDistance cfg) (hfed : 2 ≤ cfg.atrPeriod → Fed cfg e)
    (hin : info.zone.Inside) (hflat : (e.feedIndicators cfg c info).pos = none)
    (h : (e.feedIndicators cfg c info).onRangeDefined cfg c info = .ok (sig, e')) {pos' : PositionState}
    (hpos' : e'.pos = some pos') :
    Guarded pos' c.close ∧ e'.atr.prevClose = some c.close ∧ (2 ≤ cfg.atrPeriod → 0 < e'.atr.level) := by
  rcases onRangeDefined_entry hflat h with ⟨hnone, -⟩ | ⟨d, atr, m, -, hdir, hvalue, -, rfl⟩
  · rw [hnone] at hpos'
    cases hpos'
  obtain rfl := Option.some.inj hpos'
  have hatr : (((e.feedIndicators cfg c info).settleRange info).openPosition cfg c d atr).atr =
    (e.feedIndicators cfg c info).atr := settleRange_atr
  have hmoved : 2 ≤ cfg.atrPeriod → 0 < (e.feedIndicators cfg c info).atr.level := fun hperiod =>
    moved_of_breakout ((hfed hperiod).feed hperiod hin) hdir
  refine ⟨openedPosition_guarded hkeep c d (fun hperiod => ?_), ?_, ?_⟩
  · have := hmoved hperiod
    rwa [level_eq hvalue] at this
  · rw [hatr]
    exact feedIndicators_last hin
  · rw [hatr]
    exact hmoved

theorem guarded_breakout (hmode : cfg.reentryOn = .close) (hkeep : KeepsDistance cfg)
    (hfed : 2 ≤ cfg.atrPeriod → Fed cfg e) (hin : info.zone.Inside) (hheld : ∀ pos ∈ e.pos, Held cfg e pos)
    (h : (e.feedIndicators cfg c info).onBreakout cfg c = .ok (sig, e')) {pos' : PositionState}
    (hpos' : e'.pos = some pos') :
    Guarded pos' c.close ∧ e'.atr.prevClose = some c.close ∧ (2 ≤ cfg.atrPeriod → 0 < e'.atr.level) := by
  obtain ⟨pos, hold, hatr, hcase⟩ := onBreakout_open h hpos'
  obtain ⟨⟨price, hprice, hguard⟩, hmoved⟩ := hheld pos (feedIndicators_pos.symm.trans hold)
  have hguard := heldBar_guarded hguard c
  have hmoved' : 2 ≤ cfg.atrPeriod → 0 < (e.feedIndicators cfg c info).atr.level := fun hperiod =>
    moved_feed (hfed hperiod) hperiod hin (hmoved hperiod)
  refine ⟨?_, by rw [hatr]; exact feedIndicators_last hin, by rw [hatr]; exact hmoved'⟩
  rcases hcase with ⟨htp, rfl⟩ | ⟨atr, hvalue, htp, htrail, rfl⟩
  · have hstop := ahead_of_tp_reached hmode hguard htp
    exact ⟨hstop, fun tp htp => by cases htp⟩
  · refine ⟨ratchetStop_ahead (ahead_of_trailHit hmode htrail) (stopDist_pos hkeep fun hperiod => ?_),
      ahead_of_tpHit hmode htp⟩
    have := hmoved' hperiod
    rwa [level_eq hvalue] at this

/-- **A position that is open after a bar is guarded at its close.** -/
theorem guarded_after (hmode : cfg.reentryOn = .close) (hkeep : KeepsDistance cfg) {entered : OrbEngine}
    (hentered : Entered c info (entered.feedIndicators cfg c info)) (hfed : 2 ≤ cfg.atrPeriod → Fed cfg entered)
    (hheld : ∀ pos ∈ entered.pos, Held cfg entered pos)
    (h : (entered.feedIndicators cfg c info).dispatch cfg c info = .ok (sig, e')) {pos' : PositionState}
    (hpos' : e'.pos = some pos') :
    Guarded pos' c.close ∧ e'.atr.prevClose = some c.close ∧ (2 ≤ cfg.atrPeriod → 0 < e'.atr.level) := by
  unfold dispatch at h
  cases hstate : (entered.feedIndicators cfg c info).state with
  | idle =>
    simp only [hstate] at h
    have hflat := hentered.core.pos_none (by rw [hstate]; decide)
    have hsame : e'.pos = (entered.feedIndicators cfg c info).pos := by
      unfold onIdle at h
      split at h
      · cases h
        exact (maybeLock_frame cfg _).2.1
      · cases h; rfl
    rw [hsame, hflat] at hpos'
    cases hpos'
  | rangeDefined =>
    simp only [hstate] at h
    have hin := hentered.inside (by rw [hstate]; decide)
    exact guarded_rangeDefined hkeep hfed hin (hentered.core.pos_none (by rw [hstate]; decide)) h hpos'
  | breakout =>
    simp only [hstate] at h
    exact guarded_breakout hmode hkeep hfed (hentered.inside (by rw [hstate]; decide)) hheld h hpos'
  | exit =>
    exact absurd hstate hentered.core.ne_exit

theorem IntakeStep.held_go (h : IntakeStep cfg e c info (.go e')) (hheld : ∀ pos ∈ e.pos, Held cfg e pos)
    (hcore : Core e) : ∀ pos ∈ e'.pos, Held cfg e' pos := by
  cases h with
  | fresh => exact fun pos hpos => by cases hpos
  | gapReset hid hzone hgap hstate =>
    intro pos hpos
    rw [show ({ e.afterGap cfg (SessionClock.place cfg c.ts) with lastTs := some c.ts } : OrbEngine).pos = e.pos
      from afterGap_pos, hcore.pos_none hstate] at hpos
    cases hpos
  | plain => exact fun pos hpos => ⟨(hheld pos hpos).last, (hheld pos hpos).moved⟩

theorem IntakeStep.flat_done (h : IntakeStep cfg e c info (.done sig e')) (hcore : Core e) : e'.pos = none := by
  cases h with
  | carried | closed => rfl
  | tornDown _ _ hstate => exact hcore.pos_none hstate
  | quiet _ _ hidle => exact hcore.pos_none (by rw [hidle]; decide)
  | gapExit => exact afterGap_pos

theorem dispatch_fed {entered : OrbEngine} (hperiod : 2 ≤ cfg.atrPeriod) (hfed : Fed cfg entered)
    (hentered : Entered c info (entered.feedIndicators cfg c info))
    (h : (entered.feedIndicators cfg c info).dispatch cfg c info = .ok (sig, e')) : Fed cfg e' := by
  refine (dispatch_cases hentered.core.ne_exit h).fed ?_ (fun hin => hfed.feed hperiod hin) hentered.inside
  by_cases hin : info.zone.Inside
  · exact (hfed.feed hperiod hin).toFed
  · unfold feedIndicators
    rwa [if_neg hin]

/-- **Every bar keeps an ATR of zero on its one price.** -/
theorem onCandle_fed (hperiod : 2 ≤ cfg.atrPeriod) (hsound : Sound cfg e) (hfed : Fed cfg e) {raw : RawCandle}
    (h : e.onCandle cfg raw = .ok (sig, e')) : Fed cfg e' := by
  obtain ⟨c, -, ⟨-, -, rfl⟩ | ⟨hlate, hdone | ⟨entered, hgo, hdispatch⟩⟩⟩ := onCandle_intake h
  · exact hfed
  · exact hdone.fed_done hfed hperiod
  · exact dispatch_fed hperiod (hgo.fed_go hfed hperiod) (hsound.entered hlate hgo) hdispatch

theorem forceFlat_fed (hfed : Fed cfg e) (ts : Int) : Fed cfg (e.forceFlat cfg ts).2 := by
  unfold forceFlat
  cases e.pos with
  | none => exact hfed
  | some pos => exact hfed.flatten _

/-- **Every bar keeps the discipline**, and a position open after a bar that was not late is guarded at its
close. -/
theorem onCandle_disciplined (hmode : cfg.reentryOn = .close) (hkeep : KeepsDistance cfg) (hd : Disciplined cfg e)
    {raw : RawCandle} (h : e.onCandle cfg raw = .ok (sig, e')) :
    Disciplined cfg e' ∧ ∀ c, validate raw = .ok c → e.isLate c.ts = false →
      ∀ pos ∈ e'.pos, Guarded pos c.close := by
  obtain ⟨c, hc, hcase⟩ := onCandle_intake h
  have hsame : ∀ c', validate raw = .ok c' → c' = c := fun c' hc' => by
    rw [hc] at hc'
    cases hc'
    rfl
  obtain ⟨c₁, hc₁, hstep⟩ := onCandle_cases hd.sound.core.ne_exit h
  obtain rfl := hsame c₁ hc₁
  have hsound := hstep.sound hd.sound
  rcases hcase with ⟨hlate, rfl, rfl⟩ | ⟨hlate, hdone | ⟨entered, hgo, hdispatch⟩⟩
  · refine ⟨hd, fun c' hc' hlate' => ?_⟩
    rw [hsame c' hc', hlate] at hlate'
    cases hlate'
  · have hflat := hdone.flat_done hd.sound.core
    exact ⟨.of_flat hsound (fun hperiod => onCandle_fed hperiod hd.sound (hd.fed hperiod) h) hflat,
      fun _ _ _ pos hpos => by rw [hflat] at hpos; cases hpos⟩
  · have hentered := hd.sound.entered hlate hgo
    have hfed : 2 ≤ cfg.atrPeriod → Fed cfg entered := fun hperiod => hgo.fed_go (hd.fed hperiod) hperiod
    have hheld := hgo.held_go hd.held hd.sound.core
    have hafter := fun {pos'} (hpos' : e'.pos = some pos') =>
      guarded_after hmode hkeep hentered hfed hheld hdispatch hpos'
    refine ⟨⟨hsound, fun hperiod => onCandle_fed hperiod hd.sound (hd.fed hperiod) h, fun pos hpos => ?_⟩,
      fun c' hc' _ pos hpos => ?_⟩
    · obtain ⟨hguard, hlast, hmoved⟩ := hafter hpos
      exact ⟨⟨_, hlast, hguard⟩, hmoved⟩
    · rw [hsame c' hc']
      exact (hafter hpos).1

theorem forceFlat_disciplined (hd : Disciplined cfg e) (ts : Int) : Disciplined cfg (e.forceFlat cfg ts).2 := by
  have hsound := forceFlat_sound hd.sound ts
  have hfed : 2 ≤ cfg.atrPeriod → Fed cfg (e.forceFlat cfg ts).2 := fun hperiod => forceFlat_fed (hd.fed hperiod) ts
  revert hsound hfed
  unfold forceFlat
  cases hpos : e.pos with
  | none => exact fun _ _ => hd
  | some pos => exact fun hsound hfed => .of_flat hsound hfed (flatten_frame cfg e _).2.1

end OrbEngine

namespace EngineRun

variable {cfg : OrbConfig}

/-- One call on a run that has not ended: what it emits, and the engine after it. -/
theorem step_cases (cfg : OrbConfig) (r : EngineRun) (op : EngineOp) :
    (step cfg r op).engine = r.engine ∧ (step cfg r op).emitted = r.emitted ∨
    (∃ raw sig e', op = .candle raw ∧ r.engine.onCandle cfg raw = .ok (sig, e') ∧ step cfg r op = r.emit sig e') ∨
    (∃ ts, op = .forceFlat ts ∧
      step cfg r op = r.emit (r.engine.forceFlat cfg ts).1 (r.engine.forceFlat cfg ts).2) ∨
    (op = .reset ∧ (step cfg r op).engine = OrbEngine.init cfg ∧ (step cfg r op).emitted = r.emitted) := by
  unfold step
  split
  · exact Or.inl ⟨rfl, rfl⟩
  · cases op with
    | candle raw =>
      simp only
      cases hbar : r.engine.onCandle cfg raw with
      | error err =>
        refine Or.inl ?_
        simp only
        split <;> exact ⟨rfl, rfl⟩
      | ok out => exact Or.inr (Or.inl ⟨raw, out.1, out.2, rfl, hbar, rfl⟩)
    | forceFlat ts => exact Or.inr (Or.inr (Or.inl ⟨ts, rfl, rfl⟩))
    | reset => exact Or.inr (Or.inr (Or.inr ⟨rfl, rfl, rfl⟩))

theorem step_disciplined (hmode : cfg.reentryOn = .close) (hkeep : OrbEngine.KeepsDistance cfg) {r : EngineRun}
    (op : EngineOp) (h : r.engine.Disciplined cfg) : (step cfg r op).engine.Disciplined cfg := by
  rcases step_cases cfg r op with ⟨heng, -⟩ | ⟨raw, sig, e', -, hbar, hstep⟩ | ⟨ts, -, hstep⟩ | ⟨-, heng, -⟩
  · rwa [heng]
  · rw [hstep]
    exact (OrbEngine.onCandle_disciplined hmode hkeep h hbar).1
  · rw [hstep]
    exact OrbEngine.forceFlat_disciplined h ts
  · rw [heng]
    exact OrbEngine.disciplined_init

/-- Along every run, the engine is disciplined. -/
theorem run_disciplined (hmode : cfg.reentryOn = .close) (hkeep : OrbEngine.KeepsDistance cfg)
    (ops : List EngineOp) : (run (step cfg) (start cfg) ops).engine.Disciplined cfg :=
  run_always (I := fun r : EngineRun => r.engine.Disciplined cfg) (fun _ op h => step_disciplined hmode hkeep op h)
    OrbEngine.disciplined_init ops

/-! ### The life of a position -/

/-- The partial exits among the signals. -/
def partials (sigs : List Signal) : Nat := sigs.countP (·.reason = "take_profit_partial")

/-- What has become of a position over a part of its life: its stop is as tight, and its take profit is as it
was, or was consumed by the one partial. -/
def Lived (old new : PositionState) (parts : Nat) : Prop :=
  new.direction = old.direction ∧ old.direction.AsTight old.stop new.stop ∧
    ((parts = 0 ∧ new.tp = old.tp) ∨ (parts = 1 ∧ old.tp.isSome = true ∧ new.tp = none))

theorem lived_refl (pos : PositionState) : Lived pos pos 0 :=
  ⟨rfl, pos.direction.asTight_refl _, Or.inl ⟨rfl, rfl⟩⟩

theorem Lived.trans {p q s : PositionState} {m n : Nat} (hpq : Lived p q m) (hqs : Lived q s n) :
    Lived p s (m + n) := by
  obtain ⟨hdir, hstop, htp⟩ := hpq
  obtain ⟨hdir', hstop', htp'⟩ := hqs
  refine ⟨hdir'.trans hdir, hstop.trans (hdir ▸ hstop'), ?_⟩
  rcases htp with ⟨rfl, htp⟩ | ⟨rfl, hsome, htp⟩ <;> rcases htp' with ⟨rfl, htp'⟩ | ⟨rfl, hsome', htp'⟩
  · exact Or.inl ⟨rfl, htp'.trans htp⟩
  · exact Or.inr ⟨rfl, htp ▸ hsome', htp'⟩
  · exact Or.inr ⟨rfl, hsome, htp'.trans htp⟩
  · -- a take profit is consumed only once
    rw [htp] at hsome'
    cases hsome'

theorem PositionStep.lived {pos pos' : PositionState} {sig : Option Signal}
    (h : PositionStep (some pos) sig (some pos')) : Lived pos pos' (partials sig.toList) := by
  cases h with
  | held _ _ hdir htp hstop => exact ⟨hdir, hstop, Or.inl ⟨rfl, htp⟩⟩
  | partly s _ _ _ hreason _ hdir hstop htp htp' =>
    refine ⟨hdir, hstop ▸ pos.direction.asTight_refl _, Or.inr ⟨?_, htp, htp'⟩⟩
    simp [partials, hreason]

theorem step_lived {r : EngineRun} (hsound : r.engine.Sound cfg) (op : EngineOp) {pos pos' : PositionState}
    (hpos : r.engine.pos = some pos) (hpos' : (step cfg r op).engine.pos = some pos') :
    ∃ new, (step cfg r op).emitted = r.emitted ++ new ∧ Lived pos pos' (partials new) := by
  rcases step_cases cfg r op with ⟨heng, hemit⟩ | ⟨raw, sig, e', -, hbar, hstep⟩ | ⟨ts, -, hstep⟩ | ⟨-, heng, -⟩
  · rw [heng, hpos] at hpos'
    obtain rfl := Option.some.inj hpos'
    exact ⟨[], by simp [hemit], lived_refl pos⟩
  · rw [hstep] at hpos' ⊢
    obtain ⟨c, -, hbar⟩ := OrbEngine.onCandle_cases hsound.core.ne_exit hbar
    refine ⟨sig.toList, rfl, ?_⟩
    rcases hbar.position hsound with ⟨rfl, rfl⟩ | hposition
    · obtain rfl := Option.some.inj (hpos.symm.trans hpos')
      exact lived_refl pos
    · rw [hpos, show e'.pos = some pos' from hpos'] at hposition
      exact PositionStep.lived hposition
  · rw [hstep] at hpos' ⊢
    refine ⟨_, rfl, ?_⟩
    rcases OrbEngine.forceFlat_position cfg r.engine ts with ⟨hnone, -⟩ | hposition
    · rw [hpos] at hnone
      cases hnone
    · rw [hpos, show (r.engine.forceFlat cfg ts).2.pos = some pos' from hpos'] at hposition
      exact PositionStep.lived hposition
  · rw [heng] at hpos'
    cases hpos'

/-- A position is open after the call. -/
def StaysOpen (cfg : OrbConfig) (r : EngineRun) (op : EngineOp) : Prop := (step cfg r op).engine.pos.isSome = true

instance (cfg : OrbConfig) (r : EngineRun) (op : EngineOp) : Decidable (StaysOpen cfg r op) :=
  inferInstanceAs (Decidable (_ = _))

theorem run_lived (hmode : cfg.reentryOn = .close) (hkeep : OrbEngine.KeepsDistance cfg) {r : EngineRun}
    (hd : r.engine.Disciplined cfg) {life : List EngineOp} (hlife : StepsMeet (step cfg) (StaysOpen cfg) r life)
    {pos : PositionState} (hpos : r.engine.pos = some pos) :
    ∃ pos' new, (run (step cfg) r life).engine.pos = some pos' ∧
      (run (step cfg) r life).emitted = r.emitted ++ new ∧ Lived pos pos' (partials new) := by
  induction life generalizing r pos with
  | nil => exact ⟨pos, [], hpos, by simp, lived_refl pos⟩
  | cons op life ih =>
    obtain ⟨pos₁, hpos₁⟩ := Option.isSome_iff_exists.mp hlife.1
    obtain ⟨new₁, hemit₁, hlived₁⟩ := step_lived hd.sound op hpos hpos₁
    obtain ⟨pos', new₂, hpos', hemit₂, hlived₂⟩ := ih (step_disciplined hmode hkeep op hd) hlife.2 hpos₁
    refine ⟨pos', new₁ ++ new₂, hpos', ?_, ?_⟩
    · rw [run_cons, hemit₂, hemit₁, List.append_assoc]
    · simpa [partials] using hlived₁.trans hlived₂

/-- **The stop of an open position.** With close-based exits, and an ATR of period two or more or a minimum stop
distance, after any calls: a position that is open after an accepted bar has its stop strictly behind the
close; and while a position stays open, its stop never loosens and its take profit stays as it is until the
one partial consumes it. -/
theorem stop_discipline (cfg : OrbConfig) (hmode : cfg.reentryOn = .close)
    (hkeep : 2 ≤ cfg.atrPeriod ∨ cfg.stopMinDist.isSome = true) (ops : List EngineOp) :
    let r := run (step cfg) (start cfg) ops
    (∀ raw c sig e' pos, validate raw = .ok c → r.engine.isLate c.ts = false →
      r.engine.onCandle cfg raw = .ok (sig, e') → e'.pos = some pos → pos.direction.Ahead pos.stop c.close) ∧
    ∀ life pos, r.engine.pos = some pos → StepsMeet (step cfg) (StaysOpen cfg) r life →
      ∃ pos' new, (run (step cfg) r life).engine.pos = some pos' ∧
        (run (step cfg) r life).emitted = r.emitted ++ new ∧
        pos'.direction = pos.direction ∧ pos.direction.AsTight pos.stop pos'.stop ∧
        ((partials new = 0 ∧ pos'.tp = pos.tp) ∨
          (partials new = 1 ∧ pos.tp.isSome = true ∧ pos'.tp = none)) := by
  intro r
  have hd : r.engine.Disciplined cfg := run_disciplined hmode hkeep ops
  refine ⟨fun raw c sig e' pos hc hlate hbar hpos => ?_, fun life pos hpos hlife => ?_⟩
  · exact ((OrbEngine.onCandle_disciplined hmode hkeep hd hbar).2 c hc hlate pos hpos).stop
  · exact run_lived hmode hkeep hd hlife hpos

/-- The default settings with a two-bar ATR, no momentum filter and a partial take profit. -/
def partialConfig : OrbConfig :=
  ⟨{ rangeMinutes := 1, useRoc := false, atrPeriod := 2, tpRrr := some 2, tpCloseFrac := 1 / 2 }, by decide +kernel⟩

/-- A range and a breakout to 2005, and two bars on which the long stays open. -/
def longOpened : EngineRun := run (step partialConfig) (start partialConfig)
  [.candle (minuteBar 0 2000 2001 1999 2000), .candle (minuteBar 1 2002 2006 2001 2005)]

def longLife : List EngineOp := [.candle (minuteBar 2 2005 2030 2005 2030), .candle (minuteBar 3 2030 2060 2030 2060)]

/-- The theorem on that long: half of it is taken at 2030, and the rest is trailed. -/
theorem stop_discipline_long :
    ∃ pos' new, (run (step partialConfig) longOpened longLife).engine.pos = some pos' ∧
      (run (step partialConfig) longOpened longLife).emitted = longOpened.emitted ++ new ∧
      pos'.direction = .long ∧ Direction.long.AsTight 1999 pos'.stop ∧
      ((partials new = 0 ∧ pos'.tp = some 2017) ∨
        (partials new = 1 ∧ (some (2017 : ℚ)).isSome = true ∧ pos'.tp = none)) :=
  (stop_discipline partialConfig rfl (Or.inl (by decide)) _).2 longLife
    ⟨.long, 60000000, 2005, 1999, 4, some 2017, 0, 0, 0⟩ (by decide +kernel) (by decide +kernel)

end EngineRun

end FreqTrading
