import FreqTrading.Engine.Invariant
import FreqTrading.Svp.Steps
import FreqTrading.Smc.Clock

/-!
# Candles through an engine

`CandleStream.run` of `orb/stream.py`, over any engine, without its two hooks. A data error skips the candle
unless the stream is strict; any other exception ends the run, with the engine as it was before the candle.

The three engines screen a candle in the same way before they write anything: `screened` is that prefix, and
`Screens` what an engine owes the stream. From it, candles that are rejected can be inserted anywhere without
a trace (`run_inserted`).
-/

namespace FreqTrading

open Lib

/-! ### The stream -/

structure StreamResult (ε : Type) where
  signals : List Signal
  engine : ε
  /-- The exception that ended the run. -/
  raised : Option EngineError

section Stream

variable {ε : Type}

def CandleStream.run (onCandle : ε → RawCandle → Except EngineError (Option Signal × ε)) (strict : Bool) (engine : ε) :
    List RawCandle → StreamResult ε
  | [] => ⟨[], engine, none⟩
  | candle :: source =>
    match onCandle engine candle with
    | .error err => if err.isData && !strict then run onCandle strict engine source else ⟨[], engine, some err⟩
    | .ok (sig, engine) =>
      let rest := run onCandle strict engine source
      { rest with signals := sig.toList ++ rest.signals }

/-! ### Rejected candles -/

/-- The candle fails `validate`, or its time stamp does not exceed the last accepted one. -/
def rejected (last : Option Int) (raw : RawCandle) : Bool :=
  match validate raw with
  | .error _ => true
  | .ok c => last.any (c.ts ≤ ·)

/-- The time stamp of the last accepted candle, after this one. -/
def lastAccepted (last : Option Int) (raw : RawCandle) : Option Int := if rejected last raw then last else some raw.ts

/-- The second sequence is the first one with rejected candles inserted. -/
inductive Inserted : Option Int → List RawCandle → List RawCandle → Prop
  | nil (last : Option Int) : Inserted last [] []
  | keep {last : Option Int} (raw : RawCandle) {xs ys : List RawCandle} (h : Inserted (lastAccepted last raw) xs ys) :
      Inserted last (raw :: xs) (raw :: ys)
  | insert {last : Option Int} (raw : RawCandle) {xs ys : List RawCandle} (hraw : rejected last raw = true)
      (h : Inserted last xs ys) : Inserted last xs (raw :: ys)

/-- How `on_candle` begins: the check of the candle and of its time stamp. -/
def screened (last : Option Int) (strictMonotonic : Bool) (e : ε) (raw : RawCandle)
    (accept : Candle → Except EngineError (Option Signal × ε)) : Except EngineError (Option Signal × ε) :=
  match validate raw with
  | .error fault => .error (.candle fault)
  | .ok c =>
    if last.any (c.ts ≤ ·) then
      if strictMonotonic then .error (.outOfOrder c.ts (last.getD 0)) else .ok (none, e)
    else accept c

/-- What an engine owes the stream. -/
structure Screens (onCandle : ε → RawCandle → Except EngineError (Option Signal × ε)) (lastTs : ε → Option Int) : Prop where
  rejects {e : ε} {raw : RawCandle} (h : rejected (lastTs e) raw = true) :
    onCandle e raw = .ok (none, e) ∨ ∃ err, err.isData = true ∧ onCandle e raw = .error err
  accepts {e : ε} {raw : RawCandle} {sig : Option Signal} {e' : ε} (h : rejected (lastTs e) raw = false)
    (hout : onCandle e raw = .ok (sig, e')) : lastTs e' = some raw.ts
  raises {e : ε} {raw : RawCandle} {err : EngineError} (h : rejected (lastTs e) raw = false)
    (hout : onCandle e raw = .error err) : err.isData = false

variable {onCandle : ε → RawCandle → Except EngineError (Option Signal × ε)} {lastTs : ε → Option Int}

theorem screens_of_screened {strictMonotonic : Bool} {accept : ε → Candle → Except EngineError (Option Signal × ε)}
    (heq : ∀ e raw, onCandle e raw = screened (lastTs e) strictMonotonic e raw (accept e))
    (hstamp : ∀ e c sig e', accept e c = .ok (sig, e') → lastTs e' = some c.ts)
    (hraise : ∀ e c err, accept e c = .error err → err.isData = false) : Screens onCandle lastTs where
  rejects := by
    intro e raw h
    rw [heq]
    unfold screened
    unfold rejected at h
    split at h
    · exact Or.inr ⟨_, rfl, rfl⟩
    · next c hraw =>
      simp only [h, if_true]
      cases strictMonotonic with
      | false => exact Or.inl rfl
      | true => exact Or.inr ⟨_, rfl, rfl⟩
  accepts := by
    intro e raw sig e' h hout
    rw [heq] at hout
    unfold screened at hout
    unfold rejected at h
    split at h
    · cases h
    · next c hraw =>
      rw [hraw] at hout
      simp only [h] at hout
      rw [hstamp e c sig e' hout, (validate_spec hraw).1]
  raises := by
    intro e raw err h hout
    rw [heq] at hout
    unfold screened at hout
    unfold rejected at h
    split at h
    · cases h
    · next c hraw =>
      rw [hraw] at hout
      simp only [h] at hout
      exact hraise e c err hout

theorem Screens.run_rejected (h : Screens onCandle lastTs) {e : ε} {raw : RawCandle}
    (hraw : rejected (lastTs e) raw = true) (source : List RawCandle) :
    CandleStream.run onCandle false e (raw :: source) = CandleStream.run onCandle false e source := by
  rw [CandleStream.run]
  rcases h.rejects hraw with hout | ⟨err, hdata, hout⟩
  · simp only [hout, Option.toList_none, List.nil_append]
  · simp only [hout, hdata, Bool.not_false, Bool.and_self, if_true]

/-- **Rejected candles leave no trace.** By induction on the insertion: the two engines stay equal. -/
theorem Screens.run_inserted (h : Screens onCandle lastTs) {last : Option Int} {xs ys : List RawCandle}
    (hins : Inserted last xs ys) {e : ε} (hlast : lastTs e = last) :
    CandleStream.run onCandle false e ys = CandleStream.run onCandle false e xs := by
  induction hins generalizing e with
  | nil => rfl
  | insert raw hraw hrest ih => rw [h.run_rejected (by rw [hlast]; exact hraw), ih hlast]
  | keep raw hrest ih =>
    unfold lastAccepted at ih
    by_cases hraw : rejected (lastTs e) raw = true
    · -- a candle of both sequences that is rejected in both runs
      rw [h.run_rejected hraw, h.run_rejected hraw]
      rw [← hlast, if_pos hraw] at ih
      exact ih rfl
    · rw [← hlast, if_neg hraw] at ih
      rw [Bool.not_eq_true] at hraw
      rw [CandleStream.run, CandleStream.run]
      cases hout : onCandle e raw with
      | error err => simp only [h.raises hraw hout, Bool.false_and, Bool.false_eq_true, if_false]
      | ok out =>
        obtain ⟨sig, e'⟩ := out
        dsimp only
        rw [ih (h.accepts hraw hout)]

end Stream

/-! ### Exceptions that are no data errors -/

/-- The code raises no data error. -/
def Internal {α : Type} (x : Except EngineError α) : Prop := ∀ err, x = .error err → err.isData = false

theorem internal_ok {α : Type} (a : α) : Internal (.ok a) := fun _ h => by cases h

theorem internal_bind {α β : Type} {x : Except EngineError α} {f : α → Except EngineError β} (hx : Internal x)
    (hf : ∀ a, Internal (f a)) : Internal (x >>= f) := by
  intro err h
  cases x with
  | error err' =>
    cases h
    exact hx err rfl
  | ok a => exact hf a err h

theorem internal_number (x : Option ℚ) : Internal (number x) := by
  cases x with
  | none =>
    intro err h
    cases h
    rfl
  | some x => exact internal_ok x

theorem internal_classified {clock : OrbConfig} {ts : Int} : Internal (classified clock ts) := by
  intro err h
  rw [classified_eq] at h
  split at h
  · cases h
    rfl
  · cases h

theorem internal_throw {α : Type} {err : EngineError} (h : err.isData = false) :
    Internal (.error err : Except EngineError α) := by
  intro err' herr
  cases herr
  exact h

/-! ### ORB -/

namespace OrbEngine

variable {cfg : OrbConfig} {e e' : OrbEngine} {c : Candle} {info : SessionInfo} {sig : Option Signal}

theorem internal_exitPosition (reason : ExitReason) (toState : State) (price : ℚ) :
    Internal (e.exitPosition cfg c reason toState price) := by
  unfold exitPosition
  split
  · exact internal_throw rfl
  · exact internal_ok _

theorem internal_breakoutDirection : Internal (e.breakoutDirection c) := by
  unfold breakoutDirection
  refine internal_bind (internal_number _) fun hi => ?_
  split
  · exact internal_ok _
  · refine internal_bind (internal_number _) fun lo => ?_
    split <;> exact internal_ok _

theorem internal_momentum (direction : Direction) : Internal (e.momentum cfg c direction) := by
  unfold momentum
  extract_lets rvol gates
  have hgates : ∀ roc, Internal (gates roc) := by
    intro roc
    unfold gates
    extract_lets passed volumeGate
    have hvolume : Internal (volumeGate ()) := by
      unfold volumeGate
      split
      · refine internal_bind (internal_number _) fun v => ?_
        split <;> exact internal_ok _
      · exact internal_ok _
    split
    · exact internal_ok _
    · split
      · refine internal_bind (internal_number _) fun r => ?_
        split
        · split
          · exact internal_ok _
          · exact hvolume
        · split
          · exact internal_ok _
          · exact hvolume
      · exact hvolume
  split
  · split
    · exact internal_bind (internal_ok _) hgates
    · exact internal_bind (internal_throw rfl) hgates
  · exact internal_bind (internal_ok _) hgates

theorem internal_checkBreakout : Internal (e.checkBreakout cfg c) := by
  unfold checkBreakout
  refine internal_bind internal_breakoutDirection fun direction => ?_
  split
  · exact internal_ok _
  · split
    · exact internal_ok _
    · refine internal_bind (internal_momentum _) fun m => ?_
      split
      · exact internal_ok _
      · exact internal_bind (internal_number _) fun atr => internal_ok _

theorem internal_onRangeDefined : Internal (e.onRangeDefined cfg c info) := by
  have hbuild : Internal (e.buildRange c) := by
    unfold buildRange
    split
    · exact internal_ok _
    · exact internal_bind (internal_number _) fun lo => internal_ok _
  unfold onRangeDefined
  split
  · exact internal_bind hbuild fun built => internal_ok _
  · dsimp only
    split
    · exact internal_ok _
    · exact internal_checkBreakout

theorem internal_rangeReentered (pos : PositionState) : Internal (e.rangeReentered cfg pos c) := by
  unfold rangeReentered
  split <;> exact internal_bind (internal_number _) fun level => internal_ok _

theorem internal_onBreakout : Internal (e.onBreakout cfg c) := by
  unfold onBreakout
  split
  · exact internal_throw rfl
  · refine internal_bind (internal_rangeReentered _) fun reentered => ?_
    split
    · exact internal_bind (internal_exitPosition _ _ _) fun out => internal_ok _
    · split
      · split
        · exact internal_ok _
        · exact internal_bind (internal_exitPosition _ _ _) fun out => internal_ok _
      · split
        · exact internal_bind (internal_exitPosition _ _ _) fun out => internal_ok _
        · exact internal_bind (internal_number _) fun atr => internal_ok _

theorem internal_dispatch : Internal (e.dispatch cfg c info) := by
  unfold dispatch
  split
  · exact internal_ok _
  · exact internal_onRangeDefined
  · exact internal_onBreakout
  · exact internal_ok _

theorem internal_newSession : Internal (e.newSession cfg c info) := by
  unfold newSession
  split
  · exact internal_bind (internal_exitPosition _ _ _) fun out => internal_ok _
  · exact internal_ok _

theorem internal_sameSession : Internal (e.sameSession cfg c info) := by
  have hgap : Internal (e.handleGapReset cfg c) := by
    unfold handleGapReset
    refine internal_bind internal_classified fun info => ?_
    split
    · exact internal_bind (internal_exitPosition _ _ _) fun out => internal_ok _
    · exact internal_ok _
  unfold sameSession
  split
  · dsimp only
    split
    · exact internal_bind (internal_exitPosition _ _ _) fun out => internal_ok _
    · split <;> exact internal_ok _
  · split
    · refine internal_bind hgap fun out => ?_
      dsimp only
      split <;> exact internal_ok _
    · exact internal_ok _

theorem buildRange_lastTs (h : e.buildRange c = .ok e') : e'.lastTs = e.lastTs := by
  unfold buildRange at h
  split at h
  · cases h
    rfl
  · obtain ⟨lo, -, h⟩ := bind_ok.mp h
    cases h
    rfl

theorem HandlerStep.lastTs (h : HandlerStep cfg e c info sig e') : e'.lastTs = e.lastTs := by
  have hsettle : (e.settleRange info).lastTs = e.lastTs := by
    unfold settleRange lockRange
    split <;> rfl
  cases h with
  | waiting | partly | trailed => rfl
  | opened => exact (maybeLock_frame cfg (e.rangeOpened c)).2.2.2.2.1
  | building built hstate hbuild hbuilt => exact (maybeLock_frame cfg built).2.2.2.2.1.trans (buildRange_lastTs hbuilt)
  | armed | broke => exact hsettle
  | left pos => exact (flatten_frame cfg (e.holding (heldBar pos c)) (e.postExitState cfg)).2.2.2.2.1

theorem dispatch_lastTs (h : e.dispatch cfg c info = .ok (sig, e')) : e'.lastTs = e.lastTs := by
  by_cases hexit : e.state = .exit
  · unfold dispatch at h
    rw [hexit] at h
    cases h
    rfl
  · exact (dispatch_cases hexit h).lastTs

theorem IntakeStep.lastTs_go (h : IntakeStep cfg e c info (.go e')) : e'.lastTs = some c.ts := by
  cases h <;> rfl

theorem feedIndicators_lastTs : (e.feedIndicators cfg c info).lastTs = e.lastTs := by
  unfold feedIndicators
  split <;> rfl

theorem onCandle_screened (cfg : OrbConfig) (e : OrbEngine) (raw : RawCandle) :
    e.onCandle cfg raw = screened e.lastTs cfg.strictMonotonic e raw (e.accept cfg) := by
  unfold onCandle screened
  cases validate raw <;> rfl

theorem screens (cfg : OrbConfig) : Screens (onCandle cfg) lastTs := by
  refine screens_of_screened (onCandle_screened cfg) (fun e c sig e' h => ?_) fun e c err h => ?_
  · obtain ⟨intake, hstep, h⟩ := accept_intake h
    cases intake with
    | done sig done =>
      cases h
      exact hstep.lastTs_done.1
    | go entered =>
      rw [dispatch_lastTs h, feedIndicators_lastTs]
      exact hstep.lastTs_go
  · revert err
    unfold accept
    refine internal_bind internal_classified fun info => ?_
    extract_lets handle
    have hhandle : ∀ intake : Intake, Internal (handle intake) := by
      intro intake
      cases intake with
      | done sig done => exact internal_ok _
      | go entered => exact internal_dispatch
    split
    · exact internal_bind internal_newSession hhandle
    · exact internal_bind internal_sameSession hhandle

end OrbEngine

/-! ### SVP -/

namespace SvpEngine

variable {cfg : SvpConfig} {e e' : SvpEngine} {c : Candle} {info : SessionInfo} {sig : Option Signal}

theorem internal_forceExit : Internal (e.forceExit c) := by
  unfold forceExit
  split
  · exact internal_throw rfl
  · exact internal_ok _

theorem feed_lastTs : (e.feed c info).lastTs = e.lastTs := (feed_frame e c info).2.2.2.2

theorem process_lastTs (cfg : SvpConfig) (e : SvpEngine) (c : Candle) (info : SessionInfo) :
    (e.process cfg c info).2.lastTs = e.lastTs := by
  unfold process
  dsimp only
  split
  · unfold onIdle
    split <;> exact feed_lastTs
  · unfold onArmed
    split
    · exact feed_lastTs
    · split
      · exact feed_lastTs
      · split
        · exact feed_lastTs
        · next hsetup =>
          obtain ⟨setup, -, -, rfl⟩ := detectSetup_cases hsetup
          exact feed_lastTs
  · exact feed_lastTs
  · exact feed_lastTs

/-- The rest of `on_candle`, after the screening. -/
def accept (cfg : SvpConfig) (e : SvpEngine) (c : Candle) : Except EngineError (Option Signal × SvpEngine) := do
  let info ← classified cfg.clock c.ts
  if some info.sessionId ≠ e.sessionId then
    let (sig, e) ← e.newSession cfg c info
    if sig.isSome then return (sig, e)
    return e.process cfg c info
  let e := { e with lastTs := some c.ts }
  if info.zone = .after then return ← e.afterSession c
  return e.process cfg c info

theorem onCandle_screened (cfg : SvpConfig) (e : SvpEngine) (raw : RawCandle) :
    e.onCandle cfg raw = screened e.lastTs cfg.strictMonotonic e raw (e.accept cfg) := by
  unfold onCandle screened
  cases validate raw <;> rfl

theorem newSession_lastTs (h : e.newSession cfg c info = .ok (sig, e')) : e'.lastTs = some c.ts := by
  unfold newSession at h
  split at h
  · obtain ⟨out, -, h⟩ := bind_ok.mp h
    cases h
    rfl
  · cases h
    rfl

theorem afterSession_lastTs (h : e.afterSession c = .ok (sig, e')) : e'.lastTs = e.lastTs := by
  unfold afterSession at h
  split at h
  · obtain ⟨out, hexit, h⟩ := bind_ok.mp h
    obtain ⟨pos, -, -, hflat⟩ := forceExit_cases hexit
    cases h
    rw [hflat]
  · cases h
    rfl

theorem screens (cfg : SvpConfig) : Screens (onCandle cfg) lastTs := by
  refine screens_of_screened (onCandle_screened cfg) (fun e c sig e' h => ?_) fun e c err h => ?_
  · unfold accept at h
    obtain ⟨info, -, h⟩ := bind_ok.mp h
    dsimp only at h
    split at h
    · obtain ⟨⟨sig, rolled⟩, hsession, h⟩ := bind_ok.mp h
      dsimp only at h
      split at h
      · cases h
        exact newSession_lastTs hsession
      · have hprocess := congrArg Prod.snd (Except.ok.inj h)
        rw [← show _ = e' from hprocess, process_lastTs]
        exact newSession_lastTs hsession
    · split at h
      · exact afterSession_lastTs h
      · have hprocess := congrArg Prod.snd (Except.ok.inj h)
        rw [← show _ = e' from hprocess, process_lastTs]
  · revert err
    unfold accept
    refine internal_bind internal_classified fun info => ?_
    dsimp only
    split
    · refine internal_bind ?_ fun out => ?_
      · unfold newSession
        split
        · exact internal_bind internal_forceExit fun out => internal_ok _
        · exact internal_ok _
      · split <;> exact internal_ok _
    · split
      · unfold afterSession
        split
        · exact internal_bind internal_forceExit fun out => internal_ok _
        · exact internal_ok _
      · exact internal_ok _

end SvpEngine

/-! ### SMC -/

namespace SmcEngine

theorem onCandle_screened (cfg : SmcConfig) (e : SmcEngine) (raw : RawCandle) :
    e.onCandle cfg raw = screened e.lastTs cfg.strictMonotonic e raw fun c => .ok (e.accept cfg c) := by
  unfold onCandle screened
  cases validate raw <;> rfl

theorem accept_lastTs (cfg : SmcConfig) (e : SmcEngine) (c : Candle) : (e.accept cfg c).2.lastTs = some c.ts :=
  (decide_clocked cfg (e.feed cfg c) c).2.1.trans (feed_fed cfg e c).lastTs

theorem screens (cfg : SmcConfig) : Screens (onCandle cfg) lastTs := by
  refine screens_of_screened (onCandle_screened cfg) (fun e c sig e' h => ?_) fun e c err h => by cases h
  cases h
  exact accept_lastTs cfg e c

end SmcEngine

/-! ### Every engine -/

/-- **Rejected candles are no-ops.** -/
theorem rejected_candles_noop (orb : OrbConfig) (svp : SvpConfig) (smc : SmcConfig) :
    (∀ (e : OrbEngine) (xs ys : List RawCandle), Inserted e.lastTs xs ys →
      CandleStream.run (OrbEngine.onCandle orb) false e ys = CandleStream.run (OrbEngine.onCandle orb) false e xs) ∧
    (∀ (e : SvpEngine) (xs ys : List RawCandle), Inserted e.lastTs xs ys →
      CandleStream.run (SvpEngine.onCandle svp) false e ys = CandleStream.run (SvpEngine.onCandle svp) false e xs) ∧
    (∀ (e : SmcEngine) (xs ys : List RawCandle), Inserted e.lastTs xs ys →
      CandleStream.run (SmcEngine.onCandle smc) false e ys = CandleStream.run (SmcEngine.onCandle smc) false e xs) :=
  ⟨fun _ _ _ hins => (OrbEngine.screens orb).run_inserted hins rfl,
    fun _ _ _ hins => (SvpEngine.screens svp).run_inserted hins rfl,
    fun _ _ _ hins => (SmcEngine.screens smc).run_inserted hins rfl⟩

/-- A candle with a negative volume before the first candle, and the first candle once more after it. -/
theorem rejected_candles_noop_default :
    let good : RawCandle := ⟨60000000, true, some 10, some 12, some 9, some 11, some 1⟩
    let bad : RawCandle := { good with volume := some (-1) }
    (CandleStream.run (OrbEngine.onCandle OrbConfig.default) false (OrbEngine.init OrbConfig.default) [bad, good, good] =
      CandleStream.run (OrbEngine.onCandle OrbConfig.default) false (OrbEngine.init OrbConfig.default) [good]) ∧
    (CandleStream.run (SvpEngine.onCandle SvpConfig.default) false (SvpEngine.init SvpConfig.default) [bad, good, good] =
      CandleStream.run (SvpEngine.onCandle SvpConfig.default) false (SvpEngine.init SvpConfig.default) [good]) ∧
    ∃ e, SmcEngine.create SmcConfig.default = .ok e ∧
      CandleStream.run (SmcEngine.onCandle SmcConfig.default) false e [bad, good, good] =
        CandleStream.run (SmcEngine.onCandle SmcConfig.default) false e [good] := by
  intro good bad
  have hins : Inserted none [good] [bad, good, good] :=
    .insert bad (by decide +kernel) (.keep good (.insert good (by decide +kernel) (.nil _)))
  obtain ⟨horb, hsvp, hsmc⟩ := rejected_candles_noop OrbConfig.default SvpConfig.default SmcConfig.default
  exact ⟨horb _ _ _ hins, hsvp _ _ _ hins, _, rfl, hsmc _ _ _ hins⟩

end FreqTrading
