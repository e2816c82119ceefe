import FreqTrading.Lib.Run
import FreqTrading.Riskguard
import FreqTrading.Stream
import FreqTrading.Backtest.Sim

/-!
# The limit backtest

`run` of `scripts/sim_realistic.py`: the ORB engine decides on the close of a bar, and the limit orders it asks for
are placed before the same bar is replayed against them. A bar that reaches the level of its own orders fills them
at the time they were placed; `no_look_ahead_iff` says that nothing else does. The true-open and quarter trackers
only make tags and are left out.
-/

namespace FreqTrading

open Lib

/-! ### Arguments and setup -/

/-- The arguments of `run`. -/
structure LimitParams where
  qty : ℚ
  spread : ℚ
  comm : ℚ
  maxDailyLoss : ℚ := 110
  stopMin : ℚ := 2
  stopMax : ℚ := 4
  valuePerMove : ℚ := 100
  rocMin : ℚ := 15 / 100
  tpRrr : ℚ := 2
  tpCloseFrac : ℚ := 7 / 10
  partialFrac : ℚ := 7 / 10
  partialAtR : ℚ := 2
  spikeRatio : ℚ := 5 / 2

/-- `ts.time().replace(second=0, microsecond=0)`. -/
def openTime (ts : Int) : TimeOfDay where
  micros := (ts - date ts * dayMicros) / minuteMicros * minuteMicros
  nonneg := by
    have hle := (SessionClock.date_le ts).1
    exact mul_nonneg (Int.ediv_nonneg (by omega) (by decide)) (by decide)
  lt_day := by
    have hlt := (SessionClock.date_le ts).2
    have hdiv := Int.ediv_mul_le (ts - date ts * dayMicros) (show minuteMicros ≠ 0 by decide)
    rw [add_mul, one_mul] at hlt
    omega

/-- `_orb_cfg`. -/
def LimitParams.orbFields (p : LimitParams) (first : RawCandle) : OrbConfigFields where
  sessionOpenUtc := openTime first.ts
  sessionLenMin := 1440
  rocMin := p.rocMin
  stopMaxDist := some p.stopMax
  stopMinDist := some p.stopMin
  tpRrr := some p.tpRrr
  tpCloseFrac := p.tpCloseFrac
  qty := p.qty
  oneTradePerSession := false
  rearmAfterExit := true
  rearmRange := .rebuild

structure LimitRun where
  engine : OrbEngine
  sim : Sim
  sitter : Babysitter
  spike : SpikeCancel
  breaker : DailyLossBreaker
  /-- The exception of the engine that ended the run. -/
  raised : Option EngineError := none

/-- `run` up to its loop: the configuration, and the state before the first candle. -/
def LimitParams.setup (p : LimitParams) (candles : List RawCandle) : Except String (OrbConfig × LimitRun) :=
  match candles with
  | [] => .error "list index out of range"
  | first :: _ =>
    match haccepted : (p.orbFields first).postInit with
    | .error text => .error text
    | .ok () =>
      if hratio : p.spikeRatio ≤ 1 then .error "ratio must be > 1"
      else if hcap : p.maxDailyLoss ≤ 0 then .error "max_daily_loss must be > 0"
      else
        let cfg : OrbConfig := ⟨p.orbFields first, haccepted⟩
        .ok (cfg, {
          engine := OrbEngine.init cfg
          sim := Sim.create p.qty p.spread p.comm p.valuePerMove
          sitter := { partialFrac := p.partialFrac, partialAtR := p.partialAtR }
          spike := { ratio := p.spikeRatio, ratio_gt := not_le.mp hratio }
          breaker := { cap := {
            flat := some p.maxDailyLoss, given := Or.inl rfl, flat_pos := by simpa using hcap, pct_pos := DailyCap.none_pos } } })

namespace LimitRun

/-! ### The loop -/

/-- The limit set of an ENTRY, unless the breaker is halted. -/
def place (s : LimitRun) (sig : Option Signal) (c : Candle) : Sim :=
  match sig with
  | none => s.sim
  | some sig =>
    match sig.stop with
    | none => s.sim
    | some stop =>
      if sig.kind = .entry ∧ stop ≠ 0 ∧ s.breaker.halted = false then s.sim.placeLimitSet sig stop c.ts else s.sim

/-- The rest of an iteration, after the engine. -/
def replay (s : LimitRun) (sim : Sim) (c : Candle) : LimitRun :=
  let breaker := s.breaker.update (date c.ts) (1000 + sim.equity)
  let (isSpike, spike) := s.spike.update c.high c.low
  let (sim, sitter) := sim.onBar c (s.sitter.onBar c.close) isSpike breaker.halted
  { s with sim, sitter, spike, breaker }

/-- One iteration; the engine is the first to check the candle. -/
def step (cfg : OrbConfig) (s : LimitRun) (raw : RawCandle) : LimitRun :=
  if s.raised.isSome then s
  else
    match validate raw with
    | .error fault => { s with raised := some (.candle fault) }
    | .ok c =>
      match s.engine.onCandle cfg raw with
      | .error err => { s with raised := some err }
      | .ok (sig, engine) => { s.replay (s.place sig c) c with engine := engine }

/-! ### The fill law -/

/-- Every filled order was placed on an earlier bar. -/
def NoLookAhead (s : LimitRun) : Prop := ∀ k ∈ s.sim.stamps, k.1 < k.2

/-- The signal makes the loop place a limit set. -/
structure Asks (s : LimitRun) (sig : Signal) (stop : ℚ) : Prop where
  entry : sig.kind = .entry
  given : sig.stop = some stop
  stop_ne : stop ≠ 0
  live : s.breaker.halted = false
  apart : sig.price ≠ stop

/-- The bar reaches the level of the entry order, a risk unit behind its close. -/
def Reaches (c : Candle) (sig : Signal) (stop : ℚ) : Prop :=
  match sig.direction with
  | .long => c.low ≤ sig.price - |sig.price - stop|
  | .short => sig.price + |sig.price - stop| ≤ c.high

/-- The bar stays off the level of the orders that its own close places. -/
def Clear (cfg : OrbConfig) (s : LimitRun) (raw : RawCandle) : Prop :=
  s.raised = none → ∀ c sig engine stop, validate raw = .ok c → s.engine.onCandle cfg raw = .ok (some sig, engine) →
    s.Asks sig stop → ¬ Reaches c sig stop

variable {cfg : OrbConfig} {s : LimitRun} {c : Candle} {raw : RawCandle}

/-- What holds between bars: a resting order is no younger than the last candle. -/
structure Waiting (cfg : OrbConfig) (s : LimitRun) : Prop where
  strict : cfg.strictMonotonic = true
  placed : ∀ p ∈ s.sim.pendings, ∃ last ∈ s.engine.lastTs, p.placedTs ≤ last

/-! ### One bar -/

theorem place_cases (s : LimitRun) (sig : Option Signal) (c : Candle) :
    ((∀ sg ∈ sig, ∀ stop, ¬ s.Asks sg stop) ∧ s.place sig c = s.sim) ∨
      ∃ sg stop, sig = some sg ∧ s.Asks sg stop ∧
        s.place sig c = { s.sim with
          ticket := s.sim.ticket + 2
          pendings := s.sim.pendings ++ s.sim.limitOrders sg.direction sg.price |sg.price - stop| c.ts } := by
  unfold place
  split
  · exact Or.inl ⟨fun _ h => (by cases h), rfl⟩
  · next sg =>
    split
    · next hnone =>
      refine Or.inl ⟨fun sg' hsg stop hasks => ?_, rfl⟩
      cases hsg
      have hstop := hasks.given
      rw [hnone] at hstop
      cases hstop
    · next stop hstop =>
      split
      · next hguard =>
        unfold Sim.placeLimitSet
        dsimp only
        split
        · next hzero =>
          refine Or.inl ⟨fun sg' hsg stop' hasks => ?_, rfl⟩
          cases hsg
          obtain rfl : stop = stop' := Option.some.inj (hstop.symm.trans hasks.given)
          exact hasks.apart (sub_eq_zero.mp (abs_nonpos_iff.mp hzero))
        · next hpos =>
          refine Or.inr ⟨sg, stop, rfl, ⟨hguard.1, hstop, hguard.2.1, hguard.2.2, fun heq => hpos ?_⟩, rfl⟩
          rw [heq, sub_self, abs_zero]
      · next hguard =>
        refine Or.inl ⟨fun sg' hsg stop' hasks => hguard ?_, rfl⟩
        cases hsg
        obtain rfl : stop = stop' := Option.some.inj (hstop.symm.trans hasks.given)
        exact ⟨hasks.entry, hasks.stop_ne, hasks.live⟩

theorem touched_iff (sim : Sim) {sig : Signal} {stop : ℚ} {p : Sim.Pending}
    (hp : p ∈ sim.limitOrders sig.direction sig.price |sig.price - stop| c.ts) :
    p.placedTs = c.ts ∧ (p.touched c = true → Reaches c sig stop) := by
  have hd := abs_nonneg (sig.price - stop)
  unfold Reaches
  simp only [Sim.limitOrders, List.mem_cons, List.not_mem_nil, or_false] at hp
  rcases hp with rfl | rfl
  · refine ⟨rfl, fun htouched => ?_⟩
    cases hdir : sig.direction <;> simpa [Sim.Pending.touched, Sim.entryLevel, hdir] using htouched
  · refine ⟨rfl, fun htouched => ?_⟩
    cases hdir : sig.direction with
    | long =>
      simp only [Sim.Pending.touched, Sim.entryLevel, hdir, Sim.addonFrac, decide_eq_true_eq] at htouched ⊢
      linarith
    | short =>
      simp only [Sim.Pending.touched, Sim.entryLevel, hdir, Sim.addonFrac, decide_eq_true_eq] at htouched ⊢
      linarith

theorem rests_fresh {p : Sim.Pending} (spike : Bool) (h : p.placedTs = c.ts) : p.rests c spike = true := by
  simp [Sim.Pending.rests, h, Sim.limitTtlMicros, Sim.spikeMinAgeMicros]

theorem replay_stamps (s : LimitRun) (sim : Sim) (c : Candle) (k : Int × Int) :
    k ∈ (s.replay sim c).sim.stamps ↔ k ∈ sim.stamps ∨ ∃ p ∈ sim.pendings,
      p.rests c (s.spike.update c.high c.low).1 = true ∧ p.touched c = true ∧ k = (p.placedTs, c.ts) :=
  Sim.onBar_stamps ..

/-- **The fill law of one bar**: it looks ahead just if it reaches the level of its own orders. -/
theorem replay_noLookAhead (sig : Option Signal) (hbefore : ∀ p ∈ s.sim.pendings, p.placedTs < c.ts) :
    (s.replay (s.place sig c) c).NoLookAhead ↔
      s.NoLookAhead ∧ ∀ sg ∈ sig, ∀ stop, s.Asks sg stop → ¬ Reaches c sg stop := by
  unfold NoLookAhead
  rcases place_cases s sig c with ⟨hnone, hplace⟩ | ⟨sg, stop, rfl, hasks, hplace⟩
  · rw [hplace]
    constructor
    · exact fun h => ⟨fun k hk => h k ((replay_stamps s _ c k).mpr (Or.inl hk)), fun sg hsg stop hasks =>
        absurd hasks (hnone sg hsg stop)⟩
    · rintro ⟨h, -⟩ k hk
      rcases (replay_stamps s _ c k).mp hk with hk | ⟨p, hp, -, -, rfl⟩
      · exact h k hk
      · exact hbefore p hp
  · rw [hplace]
    constructor
    · refine fun h => ⟨fun k hk => h k ((replay_stamps s _ c k).mpr (Or.inl hk)), fun sg' hsg stop' hasks' hreach => ?_⟩
      cases hsg
      obtain rfl : stop = stop' := Option.some.inj (hasks.given.symm.trans hasks'.given)
      -- the entry order fills on this bar
      have hfilled := h (c.ts, c.ts) ((replay_stamps s _ c _).mpr (Or.inr
        ⟨⟨s.sim.ticket + 1, sg.direction, Sim.entryLevel sg.direction sg.price |sg.price - stop|,
          Sim.entryLevel sg.direction (Sim.entryLevel sg.direction sg.price |sg.price - stop|) |sg.price - stop|,
          s.sim.qty, c.ts, "entry"⟩, List.mem_append_right _ (List.mem_cons_self ..), rests_fresh _ rfl, ?_, rfl⟩))
      · exact lt_irrefl _ hfilled
      · unfold Reaches at hreach
        unfold Sim.Pending.touched Sim.entryLevel
        cases hdir : sg.direction <;> simp only [hdir] at hreach <;> exact decide_eq_true hreach
    · rintro ⟨h, hclear⟩ k hk
      rcases (replay_stamps s _ c k).mp hk with hk | ⟨p, hp, -, htouched, rfl⟩
      · exact h k hk
      · rcases List.mem_append.mp hp with hold | hnew
        · exact hbefore p hold
        · exact absurd ((touched_iff _ hnew).2 htouched) (hclear sg rfl stop hasks)

/-! ### Runs -/

theorem onCandle_after (hstrict : cfg.strictMonotonic = true) {e e' : OrbEngine} {sig : Option Signal}
    (h : e.onCandle cfg raw = .ok (sig, e')) :
    ∃ c, validate raw = .ok c ∧ (∀ last ∈ e.lastTs, last < c.ts) ∧ e'.lastTs = some c.ts := by
  have hscreened := h
  rw [OrbEngine.onCandle_screened] at hscreened
  unfold screened at hscreened
  cases hraw : validate raw with
  | error fault =>
    rw [hraw] at hscreened
    cases hscreened
  | ok c =>
    rw [hraw] at hscreened
    dsimp only at hscreened
    by_cases hlate : e.lastTs.any (c.ts ≤ ·) = true
    · rw [if_pos hlate, if_pos hstrict] at hscreened
      cases hscreened
    · have haccepted : rejected e.lastTs raw = false := by
        unfold rejected
        rw [hraw]
        simpa using hlate
      refine ⟨c, rfl, fun last hlast => ?_, ?_⟩
      · rw [Option.mem_def] at hlast
        simpa [hlast] using hlate
      · rw [(OrbEngine.screens cfg).accepts haccepted h, (validate_spec hraw).1]

theorem place_placed (sig : Option Signal) (c : Candle) (p : Sim.Pending) (hp : p ∈ (s.place sig c).pendings) :
    p ∈ s.sim.pendings ∨ p.placedTs = c.ts := by
  rcases place_cases s sig c with ⟨-, hplace⟩ | ⟨sg, stop, -, -, hplace⟩
  · rw [hplace] at hp
    exact Or.inl hp
  · rw [hplace] at hp
    rcases List.mem_append.mp hp with hold | hnew
    · exact Or.inl hold
    · exact Or.inr (touched_iff _ hnew).1

theorem step_waiting (raw : RawCandle) (h : Waiting cfg s) :
    Waiting cfg (s.step cfg raw) ∧ ((s.step cfg raw).NoLookAhead ↔ s.NoLookAhead ∧ Clear cfg s raw) := by
  have hquiet : (s.raised.isSome = true ∨ ∀ c sig engine, validate raw = .ok c → s.engine.onCandle cfg raw ≠ .ok (sig, engine)) →
      Clear cfg s raw := by
    rintro (hraised | hnone) hrunning c sig engine stop hraw hout
    · simp [hrunning] at hraised
    · exact absurd hout (hnone c _ engine hraw)
  unfold step
  split
  · next hraised => exact ⟨h, ⟨fun hs => ⟨hs, hquiet (Or.inl hraised)⟩, fun hs => hs.1⟩⟩
  · next hrunning =>
    split
    · next fault hraw =>
      refine ⟨⟨h.strict, h.placed⟩, ⟨fun hs => ⟨hs, hquiet (Or.inr fun c _ _ hc => ?_)⟩, fun hs => hs.1⟩⟩
      rw [hraw] at hc
      cases hc
    · next c hraw =>
      split
      · next err hout =>
        refine ⟨⟨h.strict, h.placed⟩, ⟨fun hs => ⟨hs, hquiet (Or.inr fun c _ _ _ hok => ?_)⟩, fun hs => hs.1⟩⟩
        rw [hout] at hok
        cases hok
      · next sig engine hout =>
        obtain ⟨c', hraw', hafter, hlast⟩ := onCandle_after h.strict hout
        obtain rfl : c' = c := Except.ok.inj (hraw'.symm.trans hraw)
        have hbefore : ∀ p ∈ s.sim.pendings, p.placedTs < c'.ts := by
          intro p hp
          obtain ⟨last, hmem, hle⟩ := h.placed p hp
          exact lt_of_le_of_lt hle (hafter last hmem)
        refine ⟨⟨h.strict, fun p hp => ⟨c'.ts, hlast, ?_⟩⟩, (replay_noLookAhead sig hbefore).trans ?_⟩
        · rcases place_placed sig c' p (Sim.onBar_pendings _ _ _ _ hp) with hold | hnew
          · exact (hbefore p hold).le
          · exact hnew.le
        · refine and_congr_right fun _ => ⟨fun hclear _ c'' sg engine' stop hraw'' hout' hasks => ?_, fun hclear sg hsg stop hasks => ?_⟩
          · obtain rfl : c' = c'' := Except.ok.inj (hraw.symm.trans hraw'')
            have hsame := Except.ok.inj (hout.symm.trans hout')
            exact hclear sg (congrArg Prod.fst hsame) stop hasks
          · cases hsg
            exact hclear (by simpa using hrunning) c' sg engine stop hraw hout hasks

theorem run_noLookAhead (candles : List RawCandle) (h : Waiting cfg s) :
    (run (step cfg) s candles).NoLookAhead ↔ s.NoLookAhead ∧ StepsMeet (step cfg) (Clear cfg) s candles :=
  run_iff_stepsMeet (I := Waiting cfg) (fun _ raw hs => (step_waiting raw hs).1) (fun _ raw hs => (step_waiting raw hs).2) h

theorem setup_waiting {p : LimitParams} {candles : List RawCandle} (h : p.setup candles = .ok (cfg, s)) :
    Waiting cfg s ∧ s.NoLookAhead := by
  unfold LimitParams.setup at h
  split at h
  · cases h
  · split at h
    · cases h
    · split_ifs at h
      cases h
      exact ⟨⟨rfl, fun p hp => by simp [Sim.create] at hp⟩, fun k hk => by simp [Sim.stamps, Sim.create] at hk⟩

/-- **The fill law of the limit backtest.** For all arguments and candles, every filled order was placed on an earlier
bar just if every bar is clear of the orders that its own close places. -/
theorem no_look_ahead_iff (p : LimitParams) (candles : List RawCandle) (h : p.setup candles = .ok (cfg, s)) :
    (run (step cfg) s candles).NoLookAhead ↔ StepsMeet (step cfg) (Clear cfg) s candles := by
  obtain ⟨hwaiting, hstart⟩ := setup_waiting h
  rw [run_noLookAhead candles hwaiting]
  exact and_iff_right hstart

/-- Fifteen minutes at 2000, and a last bar that closes at 2010 after it was down at 1990. -/
def longWick : List RawCandle :=
  (List.range 15).map (fun m => ⟨m * minuteMicros, true, some 2000, some 2000, some 2000, some 2000, some 1⟩) ++
    [⟨15 * minuteMicros, true, some 2000, some 2010, some 1990, some 2010, some 1⟩]

/-- Lots of 0.05, a spread of 0.25 and 7 dollars a lot. -/
def longWickParams : LimitParams := { qty := 1 / 20, spread := 1 / 4, comm := 7 }

theorem longWick_setup : ∃ cfg s, longWickParams.setup longWick = .ok (cfg, s) := by
  have hok : (longWickParams.setup longWick).isOk = true := by decide +kernel
  cases h : longWickParams.setup longWick with
  | error text =>
    rw [h] at hok
    cases hok
  | ok out => exact ⟨out.1, out.2, rfl⟩

theorem no_look_ahead_iff_longWick : ∃ cfg s, longWickParams.setup longWick = .ok (cfg, s) ∧
    ((run (step cfg) s longWick).NoLookAhead ↔ StepsMeet (step cfg) (Clear cfg) s longWick) := by
  obtain ⟨cfg, s, h⟩ := longWick_setup
  exact ⟨cfg, s, h, no_look_ahead_iff longWickParams longWick h⟩

/-- Both orders of the last bar are filled on it. -/
theorem longWick_looks_ahead :
    ∃ cfg s, longWickParams.setup longWick = .ok (cfg, s) ∧ ¬ (run (step cfg) s longWick).NoLookAhead := by
  obtain ⟨cfg, s, h⟩ := longWick_setup
  have hstamps : ((longWickParams.setup longWick).toOption.map fun (cfg, s) => (run (step cfg) s longWick).sim.stamps) =
      some [(15 * minuteMicros, 15 * minuteMicros), (15 * minuteMicros, 15 * minuteMicros)] := by decide +kernel
  rw [h] at hstamps
  refine ⟨cfg, s, h, fun hno => ?_⟩
  have hstamps' : (run (step cfg) s longWick).sim.stamps =
      [(15 * minuteMicros, 15 * minuteMicros), (15 * minuteMicros, 15 * minuteMicros)] := Option.some.inj hstamps
  have hlt := hno (15 * minuteMicros, 15 * minuteMicros) (by simp [hstamps'])
  exact lt_irrefl _ hlt

end LimitRun

end FreqTrading
