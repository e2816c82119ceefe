import FreqTrading.Engine.StopDiscipline
import FreqTrading.Lib.Quota
import FreqTrading.Svp.Steps

/-!
# Entries of the SVP engine

Every ENTRY has its stop strictly on the losing side of the close. A structural stop does, setup by setup. An
ATR stop does because the ATR is positive whenever a setup fires: each of the three needs a bar that has moved,
within itself or from the close before it (`Setup.Fires`). The engine is flat when it enters, and its counter of
trades is a quota per session, since session ids only grow.
-/

namespace FreqTrading

open Lib

/-! ### The configuration -/

namespace SvpConfig

variable (cfg : SvpConfig)

theorem tickSize_pos : 0 < cfg.tickSize := by
  have hcheck : (decide (cfg.tickSize ≤ 0), "tick_size must be > 0") ∈ cfg.checks := by simp [SvpConfigFields.checks]
  simpa using cfg.check_passes hcheck

theorem buffer_nonneg : 0 ≤ cfg.buffer := by
  have hcheck : (decide (cfg.stopBufferTicks < 0), "stop_buffer_ticks must be >= 0") ∈ cfg.checks := by
    simp [SvpConfigFields.checks]
  have hticks : 0 ≤ cfg.stopBufferTicks := by simpa using cfg.check_passes hcheck
  exact mul_nonneg hticks cfg.tickSize_pos.le

theorem atrPeriod_pos : 1 ≤ cfg.atrPeriod := by
  have hcheck : (decide (cfg.atrPeriod < 1), "atr_period must be >= 1") ∈ cfg.checks := by simp [SvpConfigFields.checks]
  simpa using cfg.check_passes hcheck

end SvpConfig

theorem WilderATR.update_pos {period : Int} {a : WilderATR} (h : a.Seeding period) (hperiod : 1 ≤ period) {high low : ℚ}
    (hle : low ≤ high) (htr : a.trueRange high low ≠ 0) {close v : ℚ} (hv : (a.update high low close).value = some v) :
    0 < v := by
  have htr : 0 < a.trueRange high low := lt_of_le_of_ne (a.trueRange_nonneg hle) (Ne.symm htr)
  have hp : (1 : ℚ) ≤ a.period := by rw [h.period_eq]; exact_mod_cast hperiod
  have hlevel := h.nonneg
  unfold WilderATR.value WilderATR.update at hv
  dsimp only at hv
  split at hv
  · next u hu =>
    have hu0 : 0 ≤ u := by simpa [level, hu] using hlevel
    obtain rfl := Option.some.inj hv
    have hprod : 0 ≤ u * ((a.period : ℚ) - 1) := mul_nonneg hu0 (by linarith)
    exact div_pos (by linarith) (by linarith)
  · next hnone =>
    have hseed : 0 ≤ a.seedSum := by simpa [level, hnone] using hlevel
    split at hv
    · dsimp only at hv
      split at hv
      · obtain rfl := Option.some.inj hv
        exact div_pos (by linarith) (by linarith)
      · cases hv
    · rw [hnone] at hv
      cases hv

namespace SvpEngine

variable {cfg : SvpConfig} {e e' : SvpEngine} {c : Candle} {info : SessionInfo} {sig : Option Signal} {lv : ProfileLevels}
  {prevClose avg : Option ℚ} {setup : Setup}

/-! ### The three setups -/

/-- The bar has moved: within itself, or from the close before it. -/
def Moved (prevClose : Option ℚ) (c : Candle) : Prop := c.low < c.high ∨ ∃ prev, prevClose = some prev ∧ prev ≠ c.close

/-- What every setup guarantees of its bar. -/
structure Fires (prevClose : Option ℚ) (c : Candle) (setup : Setup) : Prop where
  ahead : setup.direction.Ahead setup.stop c.close
  moved : Moved prevClose c

theorem Moved.trueRange_ne {a : WilderATR} (h : Moved a.prevClose c) : a.trueRange c.high c.low ≠ 0 := by
  intro hzero
  obtain ⟨hflat, hprev⟩ := WilderATR.trueRange_zero c.low_le_high hzero
  rcases h with hspan | ⟨prev, hsome, hne⟩
  · exact absurd hflat hspan.ne
  · have hhigh := hprev prev hsome
    have hclose : c.close = c.high := le_antisymm c.close_le_high (hflat ▸ c.low_le_close)
    exact hne (hhigh.trans hclose.symm)

theorem edgeRotation_fires (h : edgeRotation cfg c lv = some setup) : Fires prevClose c setup := by
  have hbuffer := cfg.buffer_nonneg
  have hlow := c.low_le_close
  have hhigh := c.close_le_high
  unfold edgeRotation at h
  split at h
  · cases h
  · dsimp only at h
    split at h
    · next hshort =>
      obtain rfl := Option.some.inj h
      simp only [Bool.and_eq_true, decide_eq_true_eq] at hshort
      obtain ⟨⟨⟨hpierced, -⟩, -, hinside⟩, -⟩ := hshort
      exact ⟨show c.close < lv.vah + cfg.buffer by linarith, Or.inl (by linarith)⟩
    · split at h
      · next hlong =>
        obtain rfl := Option.some.inj h
        simp only [Bool.and_eq_true, decide_eq_true_eq] at hlong
        obtain ⟨⟨⟨hpierced, -⟩, hinside, -⟩, -⟩ := hlong
        exact ⟨show lv.val - cfg.buffer < c.close by linarith, Or.inl (by linarith)⟩
      · cases h

theorem lvnBreak_fires (h : lvnBreak cfg c lv prevClose = some setup) : Fires prevClose c setup := by
  have hbuffer := cfg.buffer_nonneg
  unfold lvnBreak at h
  obtain ⟨prev, hprev, h⟩ := Option.bind_eq_some_iff.mp h
  obtain ⟨lvn, -, h⟩ := List.exists_of_findSome?_eq_some h
  split at h
  · next hlong =>
    obtain rfl := Option.some.inj h
    exact ⟨show lvn - cfg.buffer < c.close by linarith [hlong.2.1],
      Or.inr ⟨prev, hprev, (lt_of_le_of_lt hlong.1 hlong.2.1).ne⟩⟩
  · split at h
    · next hshort =>
      obtain rfl := Option.some.inj h
      exact ⟨show c.close < lvn + cfg.buffer by linarith [hshort.2.1],
        Or.inr ⟨prev, hprev, (lt_of_lt_of_le hshort.2.1 hshort.1).ne'⟩⟩
    · cases h

theorem absorptionProxy_fires (hwick : 0 < cfg.absorbWickMult) (h : absorptionProxy cfg c lv avg = some setup) :
    Fires prevClose c setup := by
  have hbuffer := cfg.buffer_nonneg
  have hmin : 0 < cfg.absorbWickMult * max |c.close - c.open'| cfg.tickSize :=
    mul_pos hwick (lt_of_lt_of_le cfg.tickSize_pos (le_max_right _ _))
  have hlow := c.low_le_close
  have hhigh := c.close_le_high
  have hbelow := min_le_right c.open' c.close
  have habove := le_max_right c.open' c.close
  unfold absorptionProxy at h
  dsimp only at h
  split at h
  · cases h
  split at h
  · cases h
  split at h
  · cases h
  split at h
  · next hlong =>
    obtain rfl := Option.some.inj h
    have hlt : c.low < c.close := by linarith [hlong.1]
    exact ⟨show c.low - cfg.buffer < c.close by linarith, Or.inl (lt_of_lt_of_le hlt hhigh)⟩
  · split at h
    · next hshort =>
      obtain rfl := Option.some.inj h
      have hlt : c.close < c.high := by linarith [hshort.1]
      exact ⟨show c.close < c.high + cfg.buffer by linarith, Or.inl (lt_of_le_of_lt hlow hlt)⟩
    · cases h

/-! ### The stop -/

theorem riskStop_ahead (hmult : ∀ atr, e.atr.value = some atr → 0 < atr) {direction : Direction} {structural : ℚ}
    (h : direction.Ahead structural c.close) : direction.Ahead (e.riskStop cfg c direction structural) c.close := by
  unfold riskStop
  split
  · exact h
  · next atr hatr =>
    split
    · exact h
    · next hpos =>
      have hdist : 0 < cfg.atrStopMult * atr := mul_pos (not_le.mp hpos) (hmult atr hatr)
      cases direction with
      | long =>
        dsimp only
        split
        · exact lt_of_le_of_lt (min_le_right _ _) h
        · exact sub_lt_self _ hdist
      | short =>
        dsimp only
        split
        · exact lt_of_lt_of_le h (le_max_right _ _)
        · exact lt_add_of_pos_right _ hdist

/-! ### The engine between bars -/

structure Ordered (cfg : SvpConfig) (e : SvpEngine) : Prop where
  held : e.pos.isSome = true ↔ e.state = .breakout
  seeding : e.atr.Seeding cfg.atrPeriod
  prevClose : e.atr.prevClose = e.prevClose

theorem ordered_init (cfg : SvpConfig) : Ordered cfg (init cfg) where
  held := by simp [init]
  seeding := WilderATR.seeding_start cfg.atrPeriod_pos
  prevClose := rfl

theorem Ordered.flat (h : Ordered cfg e) (hstate : e.state ≠ .breakout) : e.pos = none := by
  have hnot : ¬ e.pos.isSome = true := fun hsome => hstate (h.held.mp hsome)
  simpa using hnot

theorem fed_frame (e : SvpEngine) (c : Candle) (info : SessionInfo) :
    (e.fed c info).state = e.state ∧ (e.fed c info).pos = e.pos ∧ (e.fed c info).traded = e.traded ∧
      (e.fed c info).sessionId = e.sessionId ∧ (e.fed c info).lastTs = some c.ts :=
  feed_frame { e with lastTs := some c.ts } c info

theorem onIdle_frame (e : SvpEngine) (info : SessionInfo) :
    (e.onIdle info).pos = e.pos ∧ (e.onIdle info).atr = e.atr ∧ (e.onIdle info).prevClose = e.prevClose ∧
      (e.onIdle info).traded = e.traded ∧ (e.onIdle info).sessionId = e.sessionId ∧ (e.onIdle info).lastTs = e.lastTs := by
  unfold onIdle
  split <;> exact ⟨rfl, rfl, rfl, rfl, rfl, rfl⟩

theorem onIdle_state (hstate : e.state = .idle) : (e.onIdle info).state ≠ .breakout := by
  unfold onIdle
  split
  · exact fun h => by cases h
  · rw [hstate]
    exact fun h => by cases h

theorem Ordered.fed (h : Ordered cfg e) (c : Candle) (info : SessionInfo) : Ordered cfg (e.fed c info) := by
  obtain ⟨hstate, hpos, -⟩ := fed_frame e c info
  refine ⟨by rw [hstate, hpos]; exact h.held, ?_, ?_⟩
  · unfold SvpEngine.fed feed
    split
    · exact h.seeding.update cfg.atrPeriod_pos c.low_le_high c.close
    · exact h.seeding
  · unfold SvpEngine.fed feed
    split
    · exact WilderATR.update_prevClose _ _ _ _
    · exact h.prevClose

theorem Ordered.idle (h : Ordered cfg e) (hpos : e'.pos = none) (hstate : e'.state ≠ .breakout) (hatr : e'.atr = e.atr)
    (hprev : e'.prevClose = e.prevClose) : Ordered cfg e' where
  held := by simp [hpos, hstate]
  seeding := hatr ▸ h.seeding
  prevClose := by rw [hatr, hprev, h.prevClose]

theorem ordered_roll (cfg : SvpConfig) (e : SvpEngine) (id : Int) : Ordered cfg (e.rollSession cfg id) :=
  (ordered_init cfg).idle rfl (fun h => by cases h) rfl rfl

theorem Ordered.bar (h : Ordered cfg e) (hstep : BarStep cfg e c info sig e') : Ordered cfg e' := by
  obtain ⟨hfedState, hfedPos, -⟩ := fed_frame e c info
  cases hstep with
  | carried pos hid hpos => exact (ordered_roll cfg e info.sessionId).idle rfl (fun h => by cases h) rfl rfl
  | fresh hid hstate =>
    have hrolled := (ordered_roll cfg e info.sessionId).fed c info
    obtain ⟨hidle, hnone, -⟩ := fed_frame (e.rollSession cfg info.sessionId) c info
    obtain ⟨hpos, hatr, hprev, -⟩ := onIdle_frame ((e.rollSession cfg info.sessionId).fed c info) info
    exact hrolled.idle (hpos.trans hnone) (onIdle_state hidle) hatr hprev
  | closed pos hid hpos => exact h.idle rfl (fun h => by cases h) rfl rfl
  | ended hid hstate => exact h.idle (h.flat hstate) (fun h => by cases h) rfl rfl
  | waiting hid hstate =>
    obtain ⟨hpos, hatr, hprev, -⟩ := onIdle_frame (e.fed c info) info
    have hflat : e.pos = none := h.flat (by rw [hstate]; exact fun h => by cases h)
    exact (h.fed c info).idle (hpos.trans (hfedPos.trans hflat)) (onIdle_state (hfedState.trans hstate)) hatr hprev
  | quiet => exact h.fed c info
  | entered => exact ⟨by simp, (h.fed c info).seeding, (h.fed c info).prevClose⟩
  | held hid hstate =>
    have hfed := h.fed c info
    refine ⟨?_, hfed.seeding, hfed.prevClose⟩
    unfold onInPosition
    rw [Option.isSome_map]
    exact hfed.held

theorem Ordered.atr_pos (h : Ordered cfg e) (hin : info.zone.Inside) (hmoved : Moved e.prevClose c) {atr : ℚ}
    (hatr : (e.fed c info).atr.value = some atr) : 0 < atr := by
  unfold SvpEngine.fed feed at hatr
  rw [if_pos hin] at hatr
  exact WilderATR.update_pos h.seeding cfg.atrPeriod_pos c.low_le_high (Moved.trueRange_ne (h.prevClose ▸ hmoved)) hatr

/-- **An entry is protected**, and made by a flat engine. -/
theorem BarStep.entry_protected (hwick : 0 < cfg.absorbWickMult) (h : Ordered cfg e) {s : Signal}
    (hstep : BarStep cfg e c info (some s) e') (hkind : s.kind = .entry) :
    e.pos = none ∧ s.price = c.close ∧ ∃ stop, s.stop = some stop ∧ s.direction.Ahead stop c.close := by
  cases hstep with
  | carried | closed => cases hkind
  | entered lv setup hid hin hstate htraded hsetup =>
    have hfires : Fires e.prevClose c setup := by
      rcases hsetup with hsetup | hsetup | hsetup
      · exact edgeRotation_fires hsetup
      · exact lvnBreak_fires hsetup
      · exact absorptionProxy_fires hwick hsetup
    refine ⟨h.flat (by rw [hstate]; exact fun h => by cases h), rfl, _, rfl, ?_⟩
    exact riskStop_ahead (fun atr hatr => h.atr_pos hin hfires.moved hatr) hfires.ahead

theorem BarStep.counted (hstep : BarStep cfg e c info sig e') :
    e'.sessionId = some info.sessionId ∧ e'.lastTs = some c.ts ∧
      (((∀ s ∈ sig, s.kind ≠ .entry) ∧
          ((some info.sessionId ≠ e.sessionId ∧ e'.traded = 0) ∨
            (some info.sessionId = e.sessionId ∧ e'.traded = e.traded))) ∨
        (some info.sessionId = e.sessionId ∧ e.traded < cfg.maxTradesPerSession ∧ e'.traded = e.traded + 1 ∧
          ∃ s, sig = some s ∧ s.ts = c.ts ∧ s.kind = .entry)) := by
  obtain ⟨-, -, htraded, hsession, hlast⟩ := fed_frame e c info
  cases hstep with
  | carried pos hid hpos =>
    refine ⟨rfl, rfl, Or.inl ⟨fun s hs => ?_, Or.inl ⟨hid, rfl⟩⟩⟩
    cases hs
    exact fun h => by cases h
  | fresh hid hstate =>
    obtain ⟨-, -, htraded, hsession, hlast⟩ := fed_frame (e.rollSession cfg info.sessionId) c info
    obtain ⟨-, -, -, htraded', hsession', hlast'⟩ := onIdle_frame ((e.rollSession cfg info.sessionId).fed c info) info
    exact ⟨hsession'.trans hsession, hlast'.trans hlast, Or.inl ⟨by simp, Or.inl ⟨hid, htraded'.trans htraded⟩⟩⟩
  | closed pos hid hpos =>
    refine ⟨hid.symm, rfl, Or.inl ⟨fun s hs => ?_, Or.inr ⟨hid, rfl⟩⟩⟩
    cases hs
    exact fun h => by cases h
  | ended hid hstate => exact ⟨hid.symm, rfl, Or.inl ⟨by simp, Or.inr ⟨hid, rfl⟩⟩⟩
  | waiting hid hstate =>
    obtain ⟨-, -, -, htraded', hsession', hlast'⟩ := onIdle_frame (e.fed c info) info
    exact ⟨hsession'.trans (hsession.trans hid.symm), hlast'.trans hlast,
      Or.inl ⟨by simp, Or.inr ⟨hid, htraded'.trans htraded⟩⟩⟩
  | quiet hid => exact ⟨hsession.trans hid.symm, hlast, Or.inl ⟨by simp, Or.inr ⟨hid, htraded⟩⟩⟩
  | entered lv setup hid hin hstate hleft hsetup =>
    exact ⟨hsession.trans hid.symm, hlast, Or.inr ⟨hid, hleft, rfl, _, rfl, rfl, rfl⟩⟩
  | held hid => exact ⟨hsession.trans hid.symm, hlast, Or.inl ⟨by simp, Or.inr ⟨hid, htraded⟩⟩⟩

end SvpEngine

/-! ### Runs -/

inductive SvpOp
  | candle (raw : RawCandle)
  | forceFlat (ts : Int)
  deriving DecidableEq, Repr

structure SvpRun where
  engine : SvpEngine
  emitted : List Signal := []

namespace SvpRun

variable {cfg : SvpConfig}

def start (cfg : SvpConfig) : SvpRun := { engine := SvpEngine.init cfg }

def emit (r : SvpRun) (sig : Option Signal) (e : SvpEngine) : SvpRun := ⟨e, r.emitted ++ sig.toList⟩

/-- A call that raises leaves the engine as it was. -/
def step (cfg : SvpConfig) (r : SvpRun) : SvpOp → SvpRun
  | .candle raw =>
    match r.engine.onCandle cfg raw with
    | .ok (sig, e) => r.emit sig e
    | .error _ => r
  | .forceFlat ts => r.emit (r.engine.forceFlat ts).1 (r.engine.forceFlat ts).2

/-- The session of each ENTRY emitted. -/
def entrySessions (cfg : SvpConfig) (r : SvpRun) : List Int :=
  (r.emitted.filter (·.kind = .entry)).map fun s => (SessionClock.place cfg.clock s.ts).sessionId

theorem entrySessions_emit (cfg : SvpConfig) (r : SvpRun) {sig : Option Signal} (h : ∀ s ∈ sig, s.kind ≠ .entry)
    (e : SvpEngine) : (r.emit sig e).entrySessions cfg = r.entrySessions cfg := by
  unfold entrySessions emit
  cases sig with
  | none => simp
  | some s => simp [List.filter_append, h s rfl]

theorem entrySessions_emit_entry (cfg : SvpConfig) (r : SvpRun) {s : Signal} (h : s.kind = .entry) (e : SvpEngine) :
    (r.emit (some s) e).entrySessions cfg = r.entrySessions cfg ++ [(SessionClock.place cfg.clock s.ts).sessionId] := by
  simp [entrySessions, emit, List.filter_append, h]

structure Capped (cfg : SvpConfig) (r : SvpRun) : Prop where
  ordered : r.engine.Ordered cfg
  stamped : r.engine.sessionId = r.engine.lastTs.map fun ts => (SessionClock.place cfg.clock ts).sessionId
  quota : Quota cfg.maxTradesPerSession.toNat (r.entrySessions cfg) r.engine.sessionId r.engine.traded

theorem capped_start (cfg : SvpConfig) : Capped cfg (start cfg) where
  ordered := SvpEngine.ordered_init cfg
  stamped := rfl
  quota := quota_start _ _

theorem capped_candle {r : SvpRun} (h : Capped cfg r) {raw : RawCandle} {sig : Option Signal} {e' : SvpEngine}
    (hbar : r.engine.onCandle cfg raw = .ok (sig, e')) : Capped cfg (r.emit sig e') := by
  obtain ⟨c, -, ⟨-, rfl, rfl⟩ | ⟨hlate, hstep⟩⟩ := SvpEngine.onCandle_cases hbar
  · refine ⟨h.ordered, h.stamped, ?_⟩
    rw [entrySessions_emit cfg r (by simp)]
    exact h.quota
  obtain ⟨hsession, hlast, hcount⟩ := hstep.counted
  have hstamped : e'.sessionId = e'.lastTs.map fun ts => (SessionClock.place cfg.clock ts).sessionId := by
    rw [hsession, hlast]
    rfl
  refine ⟨h.ordered.bar hstep, hstamped, ?_⟩
  show Quota _ _ e'.sessionId e'.traded
  rcases hcount with ⟨hnone, hsame | hsame⟩ | ⟨hsame, hleft, hspent, s, rfl, hts, hkind⟩
  · -- a session id that differs is a later one
    obtain ⟨hne, hzero⟩ := hsame
    rw [entrySessions_emit cfg r hnone, hsession, hzero]
    refine h.quota.advance fun now hnow => ?_
    have hstamp := h.stamped
    rw [hnow] at hstamp hne
    obtain ⟨last, hlast, hid⟩ := Option.map_eq_some_iff.mp hstamp.symm
    have hlt : last < c.ts := by simpa [SvpEngine.isLate, hlast] using hlate
    have hmono := SessionClock.sessionId_mono cfg.clock hlt.le
    rw [hid] at hmono
    have hne' : (SessionClock.place cfg.clock c.ts).sessionId ≠ now := fun heq => hne (by rw [heq])
    omega
  · rw [entrySessions_emit cfg r hnone, hsession, hsame.1, hsame.2]
    exact h.quota
  · rw [entrySessions_emit_entry cfg r hkind, hts, hsession, hspent, hsame]
    exact h.quota.spend hsame.symm (by omega)

theorem capped_step {r : SvpRun} (h : Capped cfg r) (op : SvpOp) : Capped cfg (step cfg r op) := by
  cases op with
  | candle raw =>
    unfold step
    dsimp only
    cases hbar : r.engine.onCandle cfg raw with
    | error err => exact h
    | ok out => exact capped_candle h hbar
  | forceFlat ts =>
    have hlist : (step cfg r (.forceFlat ts)).entrySessions cfg = r.entrySessions cfg := by
      refine entrySessions_emit cfg r (fun s hs => ?_) _
      unfold SvpEngine.forceFlat at hs
      split at hs
      · cases hs
      · cases hs
        exact fun h => by cases h
    have hframe : (step cfg r (.forceFlat ts)).engine.Ordered cfg ∧
        (step cfg r (.forceFlat ts)).engine.sessionId = r.engine.sessionId ∧
        (step cfg r (.forceFlat ts)).engine.lastTs = r.engine.lastTs ∧
        (step cfg r (.forceFlat ts)).engine.traded = r.engine.traded := by
      show (r.engine.forceFlat ts).2.Ordered cfg ∧ (r.engine.forceFlat ts).2.sessionId = _ ∧
        (r.engine.forceFlat ts).2.lastTs = _ ∧ (r.engine.forceFlat ts).2.traded = _
      unfold SvpEngine.forceFlat
      split
      · exact ⟨h.ordered, rfl, rfl, rfl⟩
      · exact ⟨h.ordered.idle rfl (fun h => by cases h) rfl rfl, rfl, rfl, rfl⟩
    obtain ⟨hordered, hsession, hlast, htraded⟩ := hframe
    refine ⟨hordered, ?_, ?_⟩
    · rw [hsession, hlast]
      exact h.stamped
    · rw [hlist, hsession, htraded]
      exact h.quota

/-- **SVP entries are protected.** In every state that calls of `on_candle` and `force_flat` reach, an ENTRY of
the next candle is emitted while flat, at its close, with a stop strictly on the losing side of it; and no
session id has more ENTRIES than the configured maximum. -/
theorem entries_protected (cfg : SvpConfig) (hwick : 0 < cfg.absorbWickMult) (ops : List SvpOp) :
    let r := run (step cfg) (start cfg) ops
    (∀ raw c s e', validate raw = .ok c → r.engine.onCandle cfg raw = .ok (some s, e') → s.kind = .entry →
      r.engine.pos = none ∧ s.price = c.close ∧ ∃ stop, s.stop = some stop ∧ s.direction.Ahead stop c.close) ∧
    ∀ id, ((r.entrySessions cfg).count id : Int) ≤ cfg.maxTradesPerSession := by
  intro r
  have h : Capped cfg r := run_always (I := Capped cfg) (fun _ op h => capped_step h op) (capped_start cfg) ops
  refine ⟨fun raw c s e' hc hbar hkind => ?_, fun id => ?_⟩
  · obtain ⟨c', hc', ⟨-, hnone, -⟩ | ⟨-, hstep⟩⟩ := SvpEngine.onCandle_cases hbar
    · cases hnone
    · rw [hc] at hc'
      cases hc'
      exact hstep.entry_protected hwick h.ordered hkind
  · have hcapped := h.quota.capped id
    have hcheck : (decide (cfg.maxTradesPerSession < 1), "max_trades_per_session must be >= 1") ∈ cfg.checks := by
      simp [SvpConfigFields.checks]
    have hmax : 1 ≤ cfg.maxTradesPerSession := by simpa using cfg.check_passes hcheck
    omega

/-- Absorption only, with one-bar indicators and an ATR stop without a floor. -/
def absorbConfig : SvpConfig :=
  ⟨{ minSessionBars := 1, enableEdgeRotation := false, enableAbsorptionProxy := true, absorbLookback := 1, atrPeriod := 1,
     atrStopMult := 2, atrStopFloorStructural := false }, by decide +kernel⟩

def heavyBar (m : Int) (low volume : ℚ) : RawCandle :=
  ⟨m * minuteMicros, true, some (1002 / 100), some (1005 / 100), some low, some (1002 / 100), some volume⟩

/-- The theorem on a bar that is absorbed at the only node of the profile. -/
theorem entries_protected_absorbed :
    ∃ s e', (run (step absorbConfig) (start absorbConfig) [.candle (heavyBar 0 10 10)]).engine.onCandle absorbConfig
        (heavyBar 1 (990 / 100) 100) = .ok (some s, e') ∧
      s.price = 1002 / 100 ∧ ∃ stop, s.stop = some stop ∧ s.direction.Ahead stop (1002 / 100) := by
  have hsignal : ((run (step absorbConfig) (start absorbConfig) [.candle (heavyBar 0 10 10)]).engine.onCandle absorbConfig
      (heavyBar 1 (990 / 100) 100)).toOption.bind (·.1.map (·.kind)) = some .entry := by decide +kernel
  cases hbar : (run (step absorbConfig) (start absorbConfig) [.candle (heavyBar 0 10 10)]).engine.onCandle absorbConfig
      (heavyBar 1 (990 / 100) 100) with
  | error err =>
    rw [hbar] at hsignal
    cases hsignal
  | ok out =>
    rw [hbar] at hsignal
    obtain ⟨sig, e'⟩ := out
    obtain ⟨s, rfl, hkind⟩ := Option.map_eq_some_iff.mp hsignal
    have hvalid : (validate (heavyBar 1 (990 / 100) 100)).toOption.map (·.close) = some (1002 / 100) := by decide +kernel
    cases hc : validate (heavyBar 1 (990 / 100) 100) with
    | error fault =>
      rw [hc] at hvalid
      cases hvalid
    | ok c =>
      rw [hc] at hvalid
      have hclose : c.close = 1002 / 100 := Option.some.inj hvalid
      have h := (entries_protected absorbConfig (by decide +kernel) [.candle (heavyBar 0 10 10)]).1 _ c s e' hc hbar hkind
      rw [hclose] at h
      exact ⟨s, e', rfl, h.2⟩

end SvpRun

end FreqTrading
