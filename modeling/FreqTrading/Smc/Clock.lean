import FreqTrading.Smc.Contract

/-!
# The clock of an SMC decision

A signal of the SMC engine has the open time and the close of its decision bar, which a candle of a later bucket
completed. The trigger aggregator is in step with the last accepted candle (`Clocked`), so the decision bar ended
before that candle (`Clocked.accept`).
-/

namespace FreqTrading

open Lib

namespace SmcEngine

variable {cfg : SmcConfig} {e e' : SmcEngine} {c m15c : Candle} {event : Option StructureEvent} {bias : Direction}

/-- A signal with the open time and the close of the decision bar. -/
def OfBar (m15c : Candle) (sig : Signal) : Prop := sig.ts = m15c.ts ∧ sig.price = m15c.close

/-- A decision emits a signal of its bar, if any, and leaves the aggregator alone. -/
def Decides (e : SmcEngine) (m15c : Candle) (out : Option Signal × SmcEngine) : Prop :=
  (∀ sig ∈ out.1, OfBar m15c sig) ∧ out.2.aggM15 = e.aggM15

theorem decides_none {e' : SmcEngine} (h : e'.aggM15 = e.aggM15) : Decides e m15c (none, e') :=
  ⟨fun _ h => (by cases h), h⟩

theorem resolvePoi_aggM15 {poi : Poi} (h : e.resolvePoi cfg m15c bias = some (poi, e')) : e'.aggM15 = e.aggM15 := by
  unfold resolvePoi at h
  split at h
  · cases h
    rfl
  · split at h
    · cases h
      rfl
    · split at h
      · cases h
        rfl
      · cases h

theorem confluence_decides : Decides e m15c (e.confluence cfg m15c event bias) := by
  unfold confluence
  dsimp only
  split
  · exact decides_none rfl
  · split
    · exact decides_none rfl
    · next hpoi =>
      have hagg := resolvePoi_aggM15 hpoi
      split
      · exact decides_none hagg
      · unfold enter
        dsimp only
        split
        · exact decides_none hagg
        · exact ⟨fun sig h => (by cases h; exact ⟨rfl, rfl⟩), hagg⟩

theorem onDecision_decides (cfg : SmcConfig) (e : SmcEngine) (m15c : Candle) (event : Option StructureEvent) :
    Decides e m15c (e.onDecision cfg m15c event) := by
  unfold onDecision
  split
  · exact decides_none rfl
  · split
    · exact decides_none rfl
    · dsimp only
      split
      · exact decides_none rfl
      · exact confluence_decides

theorem feed_aggM15 (cfg : SmcConfig) (e : SmcEngine) (c : Candle) : (e.feed cfg c).aggM15 = e.aggM15 := by
  have hh4 : ∀ e : SmcEngine, (e.feedH4 c).aggM15 = e.aggM15 := by
    intro e
    unfold feedH4
    split
    split <;> rfl
  have hd1 : ∀ e : SmcEngine, (e.feedD1 c).aggM15 = e.aggM15 := by
    intro e
    unfold feedD1
    split
    split <;> rfl
  have hroll : ∀ e : SmcEngine, (e.rollDay cfg c).aggM15 = e.aggM15 := by
    intro e
    unfold rollDay
    split <;> rfl
  unfold feed
  rw [hh4, hd1]
  exact hroll _

/-- The trigger aggregator is in step with the last candle. -/
structure Clocked (cfg : SmcConfig) (e : SmcEngine) : Prop where
  minutes : e.aggM15.minutes = cfg.triggerTfMin
  divides : TimeframeAggregator.Divides cfg.triggerTfMin
  inStep : e.aggM15.InStep e.lastTs

theorem clocked_create (h : create cfg = .ok e) : Clocked cfg e := by
  unfold create at h
  obtain ⟨m15, hm15, h⟩ := bind_ok.mp h
  obtain ⟨h4, -, h⟩ := bind_ok.mp h
  obtain ⟨d1, -, h⟩ := bind_ok.mp h
  cases h
  obtain ⟨rfl, hdiv⟩ := TimeframeAggregator.create_ok hm15
  exact ⟨rfl, hdiv, TimeframeAggregator.inStep_new _⟩

theorem onDecision_lastTs (cfg : SmcConfig) (e : SmcEngine) (m15c : Candle) (event : Option StructureEvent) :
    (e.onDecision cfg m15c event).2.lastTs = e.lastTs := by
  rcases onDecision_cases cfg e m15c event with ⟨-, hpassed⟩ | ⟨sig, -, hentered⟩
  · exact hpassed.lastTs
  · exact hentered.lastTs

theorem decide_clocked (cfg : SmcConfig) (e : SmcEngine) (c : Candle) :
    (e.decide cfg c).2.aggM15 = (e.aggM15.update c).2 ∧ (e.decide cfg c).2.lastTs = e.lastTs ∧
      ∀ s ∈ (e.decide cfg c).1, ∃ done, (e.aggM15.update c).1 = some done ∧ OfBar done s := by
  unfold decide feedM15
  rcases hup : e.aggM15.update c with ⟨_ | done, agg⟩
  · exact ⟨rfl, rfl, fun s hs => by cases hs⟩
  · dsimp only
    generalize hfed : ({ e with
        aggM15 := agg, structM15 := (e.structM15.update done).2
        atr := e.atr.update done.high done.low done.close
        vsma := if 0 < done.volume then e.vsma.update done.volume else e.vsma } : SmcEngine) = fed
    obtain ⟨hstamp, hagg⟩ := onDecision_decides cfg fed done (e.structM15.update done).1
    have hlast := onDecision_lastTs cfg fed done (e.structM15.update done).1
    subst hfed
    exact ⟨hagg, hlast, fun s hs => ⟨done, rfl, hstamp s hs⟩⟩

/-- **A candle in time**: its signal is of a decision bar that ended before it. -/
theorem Clocked.accept (h : Clocked cfg e) (hlate : e.isLate c.ts = false) :
    Clocked cfg (e.accept cfg c).2 ∧ ∀ s ∈ (e.accept cfg c).1, ∃ bar, (e.aggM15.update c).1 = some bar ∧ OfBar bar s ∧
      bar.ts + TimeframeAggregator.width cfg.triggerTfMin ≤ c.ts := by
  have hagg := feed_aggM15 cfg e c
  have hafter : ∀ ts ∈ e.lastTs, ts < c.ts := by
    intro ts hts
    rw [Option.mem_def] at hts
    simpa [isLate, hts] using hlate
  obtain ⟨hagg', hlast, hsig⟩ := decide_clocked cfg (e.feed cfg c) c
  rw [hagg] at hagg' hsig
  rw [(feed_fed cfg e c).lastTs] at hlast
  refine ⟨⟨?_, h.divides, ?_⟩, fun s hs => ?_⟩
  · show ((e.feed cfg c).decide cfg c).2.aggM15.minutes = _
    rw [hagg', TimeframeAggregator.update_minutes]
    exact h.minutes
  · show ((e.feed cfg c).decide cfg c).2.aggM15.InStep ((e.feed cfg c).decide cfg c).2.lastTs
    rw [hagg', hlast]
    exact TimeframeAggregator.update_inStep _ _
  · obtain ⟨done, hdone, hbar⟩ := hsig s hs
    have hdiv : TimeframeAggregator.Divides e.aggM15.minutes := by
      rw [h.minutes]
      exact h.divides
    have hle := TimeframeAggregator.update_done hdiv h.inStep hafter hdone
    rw [h.minutes] at hle
    exact ⟨done, hdone, hbar, hle⟩

theorem Clocked.onCandle {raw : RawCandle} {sig : Option Signal} (h : Clocked cfg e)
    (hout : e.onCandle cfg raw = .ok (sig, e')) : Clocked cfg e' := by
  obtain ⟨c, -, ⟨-, -, rfl⟩ | ⟨hlate, haccept⟩⟩ := onCandle_cases hout
  · exact h
  · obtain ⟨-, rfl⟩ := Prod.mk.injEq .. |>.mp haccept
    exact (h.accept hlate).1

theorem Clocked.forceFlat (h : Clocked cfg e) (ts : Int) : Clocked cfg (e.forceFlat ts).2 := by
  unfold SmcEngine.forceFlat
  split
  · exact h
  · exact ⟨h.minutes, h.divides, h.inStep⟩

end SmcEngine

end FreqTrading
