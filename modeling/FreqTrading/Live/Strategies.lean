import FreqTrading.Engine.Steps
import FreqTrading.Live.Basic
import FreqTrading.Smc.Clock
import FreqTrading.Svp.Steps

/-!
# The three engines in the loop, and the age of their signals

What the loop calls of the SVP and SMC engines, and `Timely`: a signal is stamped at least `lag` before the
candle it is emitted on. An ORB or SVP signal has the time stamp of its candle. An SMC signal has the open time
of its decision bar, which a candle of a later bucket completed.
-/

namespace FreqTrading

open Lib

def svpOps (cfg : SvpConfig) : EngineOps SvpEngine where
  onCandle e raw := e.onCandle cfg raw
  forceFlat e ts := e.forceFlat ts
  inBreakout e := e.state = .breakout
  stop e := e.pos.map (·.stop)

def smcOps (cfg : SmcConfig) : EngineOps SmcEngine where
  onCandle e raw := e.onCandle cfg raw
  forceFlat e ts := e.forceFlat ts
  inBreakout e := e.state = .breakout
  stop e := e.position.map (·.stop)

/-- Signals are at least `lag` older than their candle, from engines in `I`. -/
structure Timely {ε : Type} (ops : EngineOps ε) (lag : Int) (I : ε → Prop) : Prop where
  candle {e e' : ε} {raw : RawCandle} {sig : Option Signal} (h : I e) (hout : ops.onCandle e raw = .ok (sig, e')) :
    I e' ∧ ∀ s ∈ sig, s.ts + lag ≤ raw.ts
  forceFlat {e : ε} (h : I e) (ts : Int) : I (ops.forceFlat e ts).2

/-- The signal of a call, if there is one, has this time stamp. -/
def StampedAt (ts : Int) (sig : Option Signal) : Prop := ∀ s ∈ sig, s.ts = ts

theorem stampedAt_none (ts : Int) : StampedAt ts none := fun _ h => by cases h

theorem stampedAt_some {s : Signal} : StampedAt s.ts (some s) := fun _ h => by
  cases h
  rfl

/-! ### ORB -/

namespace OrbEngine

variable {cfg : OrbConfig} {e e' : OrbEngine} {c : Candle} {info : SessionInfo} {sig : Option Signal}

theorem checkBreakout_stamped (h : e.checkBreakout cfg c = .ok (sig, e')) : StampedAt c.ts sig := by
  unfold checkBreakout at h
  obtain ⟨dir, -, h⟩ := bind_ok.mp h
  cases dir with
  | none =>
    cases h
    exact stampedAt_none _
  | some direction =>
    dsimp only at h
    split at h
    · cases h
      exact stampedAt_none _
    · obtain ⟨m, -, h⟩ := bind_ok.mp h
      split at h
      · cases h
        exact stampedAt_some
      · obtain ⟨atr, -, h⟩ := bind_ok.mp h
        cases h
        exact stampedAt_some

theorem onRangeDefined_stamped (h : e.onRangeDefined cfg c info = .ok (sig, e')) : StampedAt c.ts sig := by
  unfold onRangeDefined at h
  split at h
  · obtain ⟨built, -, h⟩ := bind_ok.mp h
    cases h
    exact stampedAt_none _
  · dsimp only at h
    split at h
    · cases h
      exact stampedAt_none _
    · exact checkBreakout_stamped h

theorem dispatch_stamped (h : e.dispatch cfg c info = .ok (sig, e')) : StampedAt c.ts sig := by
  cases hstate : e.state with
  | rangeDefined =>
    unfold dispatch at h
    rw [hstate] at h
    exact onRangeDefined_stamped h
  | exit =>
    unfold dispatch at h
    rw [hstate] at h
    cases h
    exact stampedAt_none _
  | idle | breakout =>
    have hstep : HandlerStep cfg e c info sig e' := dispatch_cases (by simp [hstate]) h
    cases hstep with
    | waiting | opened | building | trailed => exact stampedAt_none _
    | armed _ hdefined | broke _ _ _ hdefined => simp [hstate] at hdefined
    | left | partly => exact stampedAt_some

theorem IntakeStep.stamped (h : IntakeStep cfg e c info (.done sig e')) : StampedAt c.ts sig := by
  cases h with
  | carried | closed | gapExit => exact stampedAt_some
  | tornDown | quiet => exact stampedAt_none _

theorem timely (cfg : OrbConfig) : Timely (orbOps cfg) 0 fun _ => True where
  candle := by
    intro e e' raw sig _ hout
    refine ⟨trivial, fun s hs => ?_⟩
    obtain ⟨c, hraw, ⟨-, rfl, -⟩ | ⟨-, hdone | ⟨entered, -, hdispatch⟩⟩⟩ := onCandle_intake hout
    · cases hs
    · rw [hdone.stamped s hs, (validate_spec hraw).1, add_zero]
    · rw [dispatch_stamped hdispatch s hs, (validate_spec hraw).1, add_zero]
  forceFlat _ _ := trivial

end OrbEngine

/-! ### SVP -/

namespace SvpEngine

variable {cfg : SvpConfig} {e e' : SvpEngine} {c : Candle} {info : SessionInfo} {sig : Option Signal}

theorem BarStep.stamped (h : BarStep cfg e c info sig e') : StampedAt c.ts sig := by
  cases h with
  | carried | closed | entered => exact stampedAt_some
  | fresh | ended | waiting | quiet | held => exact stampedAt_none _

theorem onCandle_stamped {raw : RawCandle} (h : e.onCandle cfg raw = .ok (sig, e')) : StampedAt raw.ts sig := by
  obtain ⟨c, hc, hlate | hstep⟩ := onCandle_cases h
  · obtain ⟨-, rfl, -⟩ := hlate
    exact stampedAt_none _
  · rw [← (validate_spec hc).1]
    exact hstep.2.stamped

theorem timely (cfg : SvpConfig) : Timely (svpOps cfg) 0 fun _ => True where
  candle := by
    intro e e' raw sig _ hout
    refine ⟨trivial, fun s hs => ?_⟩
    rw [onCandle_stamped hout s hs, add_zero]
  forceFlat _ _ := trivial

end SvpEngine

/-! ### SMC -/

namespace SmcEngine

theorem timely (cfg : SmcConfig) : Timely (smcOps cfg) (TimeframeAggregator.width cfg.triggerTfMin) (Clocked cfg) where
  candle := by
    intro e e' raw sig h hout
    refine ⟨h.onCandle hout, fun s hs => ?_⟩
    obtain ⟨c, hraw, ⟨-, rfl, -⟩ | ⟨hlate, haccept⟩⟩ := onCandle_cases hout
    · cases hs
    · obtain ⟨rfl, -⟩ := Prod.mk.injEq .. |>.mp haccept
      obtain ⟨bar, -, ⟨hts, -⟩, hle⟩ := (h.accept hlate).2 s hs
      rw [hts, ← (validate_spec hraw).1]
      exact hle
  forceFlat h ts := h.forceFlat ts

end SmcEngine

end FreqTrading
