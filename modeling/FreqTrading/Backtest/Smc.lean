import FreqTrading.Lib.Run
import FreqTrading.Riskguard
import FreqTrading.Sizing
import FreqTrading.Exits.Ladder
import FreqTrading.Smc.Clock
import FreqTrading.Backtest.Sim

/-!
# The SMC backtest

`run_smc` of `scripts/sim_realistic.py`. A decision bar is completed by the first candle of a later bucket; the
position it asks for is filled at the decision bar's close, but opened only after that candle has been replayed.
Every later candle is checked against the stop (`stop_checked`).
-/

namespace FreqTrading

open Lib
open SmcRun (around climb)

/-! ### Arguments and setup -/

/-- The arguments of `run_smc`; `risk_pct` and the overrides are in the configuration. -/
structure SmcParams where
  cfg : SmcConfig
  spread : ℚ := 11 / 10
  comm : ℚ := 7
  maxDailyLossPct : ℚ := 10
  startBalance : ℚ := 1000
  valuePerMove : ℚ := 100
  volMin : ℚ := 1 / 100
  volStep : ℚ := 1 / 100
  volMax : ℚ := 50

structure SmcBacktest where
  engine : SmcEngine
  sim : Sim
  ladder : LadderConfig
  sitter : Ladder := {}
  spike : SpikeCancel
  breaker : DailyLossBreaker
  /-- The exception of the engine that ended the run. -/
  raised : Option EngineError := none

/-- `run_smc` up to its loop. -/
def SmcParams.setup (p : SmcParams) : Except String SmcBacktest := do
  let engine ← SmcEngine.create p.cfg
  if hvol : 0 < p.volStep ∧ 0 < p.volMin then
    if hvalue : 0 < p.valuePerMove then
      if hcap : 0 < p.maxDailyLossPct then
        return {
          engine := engine
          sim := Sim.create 0 p.spread p.comm p.valuePerMove
          ladder := {
            partialLevels := p.cfg.partialLevels, finalTpR := p.cfg.finalTpR, stage1AtR := p.cfg.stage1AtR
            stage2AtR := p.cfg.stage2AtR, stage2MinLockR := p.cfg.stage2MinLockR, stage2Buffer := p.cfg.stopBuffer
            commPerLot := p.cfg.commPerLot, valuePerMove := p.valuePerMove, volMin := p.volMin, volStep := p.volStep
            volumes_pos := hvol, defaultD_pos := LadderConfig.two_pos, value_pos := hvalue, stage1_pos := p.cfg.stages_pos.1
            stage2_gt := p.cfg.stages_pos.2.1, minLock_pos := p.cfg.stages_pos.2.2 }
          spike := { ratio := 5 / 2, ratio_gt := by norm_num }
          breaker := { cap := {
            flat := none, pct := some p.maxDailyLossPct, given := Or.inr rfl, flat_pos := DailyCap.none_pos
            pct_pos := by simpa using hcap } } }
      else throw "max_daily_loss_pct must be > 0"
    else throw "value_per_move must be > 0"
  else throw "vol_step and vol_min must be > 0"

namespace SmcBacktest

/-! ### The loop -/

/-- The top of the loop: re-arm the engine once the position is closed. -/
def rearm (s : SmcBacktest) (ts : Int) : SmcEngine :=
  if s.engine.position.isSome ∧ s.sim.positions = [] then (s.engine.forceFlat ts).2 else s.engine

/-- The entry, after the candle has been replayed. `bal` is the balance before it. -/
def enter (p : SmcParams) (breaker : DailyLossBreaker) (bal : ℚ) (sim : Sim) (sig : Option Signal) (c : Candle) : Sim :=
  match sig with
  | none => sim
  | some sig =>
    match sig.stop with
    | none => sim
    | some stop =>
      if sig.kind = .entry ∧ stop ≠ 0 ∧ breaker.halted = false then
        let remaining := max 0 (breaker.dayCap + breaker.dayPnl)
        let lot := computeLot bal p.cfg.riskPct sig.price stop p.valuePerMove p.volMin p.volStep p.volMax (some remaining)
        if 0 < lot then sim.placeMarket sig stop c.ts lot else sim
      else sim

/-- The rest of an iteration, after the engine. -/
def replay (p : SmcParams) (s : SmcBacktest) (sig : Option Signal) (c : Candle) : SmcBacktest :=
  let bal := p.startBalance + s.sim.equity
  let breaker := s.breaker.update (date c.ts) bal
  let (isSpike, spike) := s.spike.update c.high c.low
  let (sim, sitter) := s.sim.onBar c (s.sitter.onBar s.ladder c fun _ => p.spread) isSpike breaker.halted
  { s with sim := enter p breaker bal sim sig c, sitter, spike, breaker }

def step (p : SmcParams) (s : SmcBacktest) (raw : RawCandle) : SmcBacktest :=
  if s.raised.isSome then s
  else
    match validate raw with
    | .error fault => { s with raised := some (.candle fault) }
    | .ok c =>
      match (s.rearm c.ts).onCandle p.cfg raw with
      | .error err => { s with raised := some err }
      | .ok (sig, engine) => { s.replay p sig c with engine := engine }

/-! ### What holds between candles -/

variable {p : SmcParams} {s : SmcBacktest} {c : Candle} {raw : RawCandle}

structure Sound (p : SmcParams) (s : SmcBacktest) : Prop where
  clocked : s.engine.Clocked p.cfg
  ticketed : s.sim.Ticketed
  noOrders : s.sim.pendings = []

/-- The position was opened on this candle, at the close of a decision bar that ended before it. -/
def EnteredOn (p : SmcParams) (s : SmcBacktest) (c : Candle) (pos : Sim.Position) : Prop :=
  ∃ bar, (s.engine.aggM15.update c).1 = some bar ∧ bar.ts + TimeframeAggregator.width p.cfg.triggerTfMin ≤ c.ts ∧
    pos.priceOpen = s.sim.marketFill pos.type bar.close ∧ pos.openTs = c.ts ∧ pos.fills = []

theorem rearm_clocked (h : s.engine.Clocked p.cfg) (ts : Int) :
    (s.rearm ts).Clocked p.cfg ∧ (s.rearm ts).aggM15 = s.engine.aggM15 := by
  unfold rearm
  split
  · refine ⟨h.forceFlat ts, ?_⟩
    unfold SmcEngine.forceFlat
    split <;> rfl
  · exact ⟨h, rfl⟩

theorem signal_ofBar (h : s.engine.Clocked p.cfg) (hraw : validate raw = .ok c) {sig : Option Signal} {engine : SmcEngine}
    (hout : (s.rearm c.ts).onCandle p.cfg raw = .ok (sig, engine)) :
    ∀ sg ∈ sig, ∃ bar, (s.engine.aggM15.update c).1 = some bar ∧ SmcEngine.OfBar bar sg ∧
      bar.ts + TimeframeAggregator.width p.cfg.triggerTfMin ≤ c.ts := by
  obtain ⟨hclocked, hagg⟩ := rearm_clocked h c.ts
  intro sg hsg
  obtain ⟨c', hraw', ⟨-, rfl, -⟩ | ⟨hlate, haccept⟩⟩ := SmcEngine.onCandle_cases hout
  · cases hsg
  · obtain rfl : c' = c := Except.ok.inj (hraw'.symm.trans hraw)
    obtain ⟨rfl, -⟩ := Prod.mk.injEq .. |>.mp haccept
    rw [← hagg]
    exact (hclocked.accept hlate).2 sg hsg

theorem enter_cases (p : SmcParams) (breaker : DailyLossBreaker) (bal : ℚ) (sim : Sim) (sig : Option Signal) (c : Candle) :
    enter p breaker bal sim sig c = sim ∨
      ∃ sg stop lot, sig = some sg ∧ enter p breaker bal sim sig c = sim.placeMarket sg stop c.ts lot := by
  unfold enter
  split
  · exact Or.inl rfl
  · next sg =>
    split
    · exact Or.inl rfl
    · next stop _ =>
      split
      · dsimp only
        split
        · exact Or.inr ⟨sg, stop, _, rfl, rfl⟩
        · exact Or.inl rfl
      · exact Or.inl rfl

/-- What one candle does to the positions. -/
structure Replayed (p : SmcParams) (s : SmcBacktest) (c : Candle) (s' : SmcBacktest) : Prop where
  /-- A position that is open when the candle comes, and whose stop it reaches, is closed at the stop. -/
  stopped : ∀ pos ∈ s.sim.positions, pos.stopHit c = true → Sim.StoppedAt c pos s'.sim
  /-- A position that was not open before was opened on the candle. -/
  entered : ∀ pos ∈ s'.sim.positions, (∃ q ∈ s.sim.positions, q.ticket = pos.ticket) ∨ EnteredOn p s c pos
  /-- A position that was opened on the candle is still open after it. -/
  kept : ∀ ticket, s.sim.ticket < ticket → ticket ≤ s'.sim.ticket →
    ∃ pos ∈ s'.sim.positions, pos.ticket = ticket ∧ EnteredOn p s c pos
  /-- What was closed on the candle was open before it. -/
  closed : ∀ t ∈ s'.sim.closed, t ∈ s.sim.closed ∨ ∃ q ∈ s.sim.positions, q.ticket = t.ticket

theorem replay_sim (p : SmcParams) (s : SmcBacktest) (sig : Option Signal) (c : Candle) :
    ∃ breaker bal sim, (s.replay p sig c).sim = enter p breaker bal sim sig c ∧
      ∃ (sitter : List Position → List SitterAction × Ladder) (spike halted : Bool),
        sim = (s.sim.onBar c sitter spike halted).1 :=
  ⟨_, _, _, rfl, _, _, _, rfl⟩

theorem replay_sound (h : s.Sound p) (hraw : validate raw = .ok c) {sig : Option Signal} {engine : SmcEngine}
    (hout : (s.rearm c.ts).onCandle p.cfg raw = .ok (sig, engine)) :
    Sound p { s.replay p sig c with engine := engine } ∧ Replayed p s c { s.replay p sig c with engine := engine } := by
  have hclocked : engine.Clocked p.cfg := (rearm_clocked h.clocked c.ts).1.onCandle hout
  have hbar := signal_ofBar h.clocked hraw hout
  obtain ⟨breaker, bal, sim, hsim, sitter, spike, halted, hrun⟩ := replay_sim p s sig c
  obtain ⟨htrims, hstops⟩ := Sim.onBar_stops (c := c) h.ticketed h.noOrders sitter spike halted
  rw [← hrun] at htrims hstops
  have hold : ∀ pos ∈ sim.positions, ∃ q ∈ s.sim.positions, q.ticket = pos.ticket := fun pos hpos =>
    List.mem_map.mp (htrims.tickets.subset (List.mem_map_of_mem hpos))
  have hticketed : sim.Ticketed := h.ticketed.trims htrims
  rcases enter_cases p breaker bal sim sig c with hsame | ⟨sg, stop, lot, rfl, hplaced⟩
  · rw [hsame] at hsim
    refine ⟨⟨hclocked, ?_, ?_⟩,
      ⟨fun pos hpos hhit => ?_, fun pos hpos => Or.inl ?_, fun ticket hissued hle => ?_, fun t ht => ?_⟩⟩
    · show (s.replay p sig c).sim.Ticketed
      rwa [hsim]
    · show (s.replay p sig c).sim.pendings = []
      rw [hsim, htrims.pendings]
      exact h.noOrders
    · show Sim.StoppedAt c pos (s.replay p sig c).sim
      rw [hsim]
      exact hstops pos hpos hhit
    · have hpos' : pos ∈ (s.replay p sig c).sim.positions := hpos
      rw [hsim] at hpos'
      exact hold pos hpos'
    · have hle' : ticket ≤ (s.replay p sig c).sim.ticket := hle
      rw [hsim, htrims.ticket] at hle'
      omega
    · have ht' : t ∈ (s.replay p sig c).sim.closed := ht
      rw [hsim] at ht'
      exact htrims.trades t ht'
  · rw [hplaced] at hsim
    -- the entry, at the close of the decision bar
    obtain ⟨bar, hdone, ⟨-, hprice⟩, hended⟩ := hbar sg rfl
    have hentered : EnteredOn p s c
        { ticket := sim.ticket + 1, type := sg.direction, volume := lot, priceOpen := sim.marketFill sg.direction sg.price
          sl := stop, openTs := c.ts, placedTs := c.ts } := by
      refine ⟨bar, hdone, hended, ?_, rfl, rfl⟩
      show sim.marketFill sg.direction sg.price = s.sim.marketFill sg.direction bar.close
      unfold Sim.marketFill
      rw [hprice, htrims.halfSpread]
    refine ⟨⟨hclocked, ?_, ?_⟩,
      ⟨fun pos hpos hhit => ?_, fun pos hpos => ?_, fun ticket hissued hle => ?_, fun t ht => ?_⟩⟩
    · show (s.replay p (some sg) c).sim.Ticketed
      rw [hsim]
      exact Sim.placeMarket_ticketed hticketed sg stop c.ts lot
    · show (s.replay p (some sg) c).sim.pendings = []
      rw [hsim]
      exact htrims.pendings.trans h.noOrders
    · show Sim.StoppedAt c pos (s.replay p (some sg) c).sim
      rw [hsim]
      refine Sim.placeMarket_stoppedAt (hstops pos hpos hhit) ?_ sg stop c.ts lot
      rw [htrims.ticket]
      exact h.ticketed.issued pos hpos
    · have hpos' : pos ∈ (s.replay p (some sg) c).sim.positions := hpos
      rw [hsim] at hpos'
      rcases List.mem_append.mp hpos' with hkept | hnew
      · exact Or.inl (hold pos hkept)
      · rw [List.mem_singleton.mp hnew]
        exact Or.inr hentered
    · have hle' : ticket ≤ (s.replay p (some sg) c).sim.ticket := hle
      rw [hsim] at hle'
      have hlast : ticket = sim.ticket + 1 := by
        have hticket := htrims.ticket
        have hle'' : ticket ≤ sim.ticket + 1 := hle'
        omega
      refine ⟨_, ?_, hlast.symm, hentered⟩
      show _ ∈ (s.replay p (some sg) c).sim.positions
      rw [hsim]
      exact List.mem_append_right _ (List.mem_singleton.mpr rfl)
    · have ht' : t ∈ (s.replay p (some sg) c).sim.closed := ht
      rw [hsim] at ht'
      exact htrims.trades t ht'

theorem step_sound (raw : RawCandle) (h : s.Sound p) : (s.step p raw).Sound p ∧
    ((s.step p raw).raised = none → ∃ c, validate raw = .ok c ∧ Replayed p s c (s.step p raw)) := by
  unfold step
  split
  · next hraised => exact ⟨h, fun hnone => by simp [hnone] at hraised⟩
  · split
    · exact ⟨⟨h.clocked, h.ticketed, h.noOrders⟩, fun hnone => by cases hnone⟩
    · next c hraw =>
      split
      · exact ⟨⟨h.clocked, h.ticketed, h.noOrders⟩, fun hnone => by cases hnone⟩
      · next sig engine hout =>
        obtain ⟨hsound, hreplayed⟩ := replay_sound h hraw hout
        exact ⟨hsound, fun _ => ⟨c, hraw, hreplayed⟩⟩

theorem setup_sound (h : p.setup = .ok s) : s.Sound p := by
  unfold SmcParams.setup at h
  obtain ⟨engine, hengine, h⟩ := bind_ok.mp h
  split_ifs at h
  cases h
  exact ⟨SmcEngine.clocked_create hengine, ⟨List.nodup_nil, fun pos hpos => by simp [Sim.create] at hpos⟩, rfl⟩

/-! ### Runs -/

/-- **No stop check is skipped after the candle of the entry.** For all arguments, candles and a next candle: what it
finds open and stopped is closed at the stop, and what it opens was filled at the close of an earlier decision bar and
is still open after it. -/
theorem stop_checked (p : SmcParams) (h : p.setup = .ok s) (candles : List RawCandle) (raw : RawCandle)
    (hrunning : (run (step p) s (candles ++ [raw])).raised = none) :
    ∃ c, validate raw = .ok c ∧ Replayed p (run (step p) s candles) c (run (step p) s (candles ++ [raw])) := by
  have hsound : (run (step p) s candles).Sound p :=
    run_always (I := Sound p) (fun s raw hs => (step_sound raw hs).1) (setup_sound h) candles
  rw [run_append] at hrunning ⊢
  exact (step_sound raw hsound).2 hrunning

/-- One-minute decision bars on the default account. -/
def minuteParams : SmcParams where
  cfg := SmcRun.minuteConfig

theorem minute_setup : ∃ s, minuteParams.setup = .ok s := by
  have hok : minuteParams.setup.isOk = true := by decide +kernel
  cases h : minuteParams.setup with
  | error text =>
    rw [h] at hok
    cases hok
  | ok s => exact ⟨s, rfl⟩

theorem setup_reads {α : Type} (read : SmcBacktest → α) {x : α} (hs : p.setup = .ok s)
    (h : p.setup.toOption.map read = some x) : read s = x := by
  rw [hs] at h
  exact Option.some.inj h

theorem stop_checked_climb : ∃ s, minuteParams.setup = .ok s ∧
    ∃ c, validate (around 9 2015) = .ok c ∧
      Replayed minuteParams (run (step minuteParams) s (climb ++ [around 8 2015])) c
        (run (step minuteParams) s ((climb ++ [around 8 2015]) ++ [around 9 2015])) := by
  obtain ⟨s, hs⟩ := minute_setup
  have hraised : (run (step minuteParams) s ((climb ++ [around 8 2015]) ++ [around 9 2015])).raised.isNone = true :=
    setup_reads (fun s => (run (step minuteParams) s ((climb ++ [around 8 2015]) ++ [around 9 2015])).raised.isNone) hs
      (by decide +kernel)
  exact ⟨s, hs, stop_checked minuteParams hs (climb ++ [around 8 2015]) (around 9 2015) (Option.isNone_iff_eq_none.mp hraised)⟩

theorem one_volume : (0 : ℚ) ≤ 1 := by norm_num

/-- The candle after the climb, down to 2014. -/
def dip : Candle where
  ts := 8 * minuteMicros
  open' := 2015
  high := 2016
  low := 2014
  close := 2015
  volume := 1
  volume_nonneg := one_volume
  low_le_high := by norm_num
  body_le_high := by norm_num
  low_le_body := by norm_num

/-- The position of the climb: half the spread above 2020, and a stop half a dollar below the bar. -/
def climbEntry : Sim.Position where
  ticket := 1
  type := .long
  volume := 13 / 100
  priceOpen := 2020 + 11 / 20
  sl := 2019 - 1 / 2
  openTs := 8 * minuteMicros
  placedTs := 8 * minuteMicros

/-- The candle that completes the decision bar falls below the stop of the position it opens, which stays open. -/
theorem dip_not_checked : ∃ s, minuteParams.setup = .ok s ∧ validate (around 8 2015) = .ok dip ∧
    EnteredOn minuteParams (run (step minuteParams) s climb) dip climbEntry ∧ climbEntry.stopHit dip = true ∧
    (run (step minuteParams) s (climb ++ [around 8 2015])).sim.positions = [climbEntry] := by
  obtain ⟨s, hs⟩ := minute_setup
  have hopen : (run (step minuteParams) s (climb ++ [around 8 2015])).sim.positions = [climbEntry] :=
    setup_reads (fun s => (run (step minuteParams) s (climb ++ [around 8 2015])).sim.positions) hs (by decide +kernel)
  have hspread : (run (step minuteParams) s climb).sim.halfSpread = 11 / 20 :=
    setup_reads (fun s => (run (step minuteParams) s climb).sim.halfSpread) hs (by decide +kernel)
  have hbar : (((run (step minuteParams) s climb).engine.aggM15.update dip).1.map fun bar => (bar.ts, bar.close)) =
      some (7 * minuteMicros, 2020) :=
    setup_reads (fun s => ((run (step minuteParams) s climb).engine.aggM15.update dip).1.map fun bar => (bar.ts, bar.close))
      hs (by decide +kernel)
  obtain ⟨bar, hdone, hfields⟩ := Option.map_eq_some_iff.mp hbar
  obtain ⟨hts, hclose⟩ := Prod.mk.injEq .. |>.mp hfields
  refine ⟨s, hs, by decide +kernel, ⟨bar, hdone, ?_, ?_, rfl, rfl⟩, by decide +kernel, hopen⟩
  · rw [hts]
    decide +kernel
  · unfold Sim.marketFill
    rw [hspread, hclose]
    rfl

end SmcBacktest

end FreqTrading
