import FreqTrading.Live.Steps
import FreqTrading.Live.Strategies

/-!
# The warm-up gate

A feed that replays history drives the engine with old candles; the gate keeps them from the broker until a
candle is at most three minutes older than the start. The gate tests an ENTRY or EXIT by the time stamp of the
signal, which for SMC is the open time of a decision bar: `Timely` relates it to the candle. A run keeps
`Gated`: the engine's invariant, and that an open gate has seen a candle that opened it.
-/

namespace FreqTrading

open Lib

namespace Live

variable {ε : Type} (ops : EngineOps ε) (cfg : LiveConfig) (bar : Bar)

/-! ### What the gate does -/

/-- No call reaches the terminal: whatever it would answer, only the bot is written. -/
def MakesNoCall {α : Type} (x : Mt5 (Bot ε) α) (w : World (Bot ε)) : Prop :=
  ∀ (env : Nat → Reply) (calls : Nat), ∃ a bot,
    exec x { w with env := env, calls := calls } = (.ok a, { w with env := env, calls := calls, bot := bot })

/-- `on_signal` without the gate. -/
def passSignal (sig : Signal) : Mt5 (Bot ε) PUnit :=
  match sig.kind with
  | .entry => onEntry cfg bar sig
  | _ => submit cfg sig

/-- `on_bar` without the gate. -/
def passBar : Mt5 (Bot ε) PUnit := do
  modifyBot fun bot => { bot with consec := bot.consec.map (·.onPeriod (date bar.candle.ts)) }
  modifyBot fun bot => { bot with warming := false }
  against bar.atGuards (guards cfg bar)
  against bar.atSync (sync ops cfg bar)

/-- The signal that the candle makes the engine emit meets `Q`, in the world it is handed over in. -/
def Emitting (Q : Signal → World (Bot ε) → Prop) (w : World (Bot ε)) : Prop :=
  ∀ sig engine, ops.onCandle w.bot.engine bar.candle = .ok (some sig, engine) → Q sig (handed bar engine w)

/-- The candle is older than the start by more than three minutes. -/
def Historic : Prop := bar.candle.ts < cfg.warmStart - barGrace

/-- A candle without a broker call. -/
def Silent (w : World (Bot ε)) : Prop :=
  Emitting ops bar (fun sig => MakesNoCall (onSignal cfg bar sig)) w ∧ Reaching ops cfg bar (MakesNoCall (onBar ops cfg bar)) w

/-- The gate suppresses neither the candle nor its signal, unless the signal is `Excused`. -/
def Passing (Excused : Signal → Prop) (w : World (Bot ε)) : Prop :=
  Emitting ops bar (fun sig v => ¬ Excused sig → exec (onSignal cfg bar sig) v = exec (passSignal cfg bar sig) v) w ∧
    Reaching ops cfg bar (fun v => exec (onBar ops cfg bar) v = exec (passBar ops cfg bar) v) w

/-- The decision bar of the signal is stale at the start. -/
def StaleSignal (sig : Signal) : Prop := stale sig.ts cfg.warmStart (sigGrace cfg) = true

end Live

/-- The time stamps of the candles. -/
def candleTimes (inputs : List LiveInput) : List Int :=
  inputs.filterMap fun
    | .bar bar => some bar.candle.ts
    | _ => none

open LiveState in
/-- The law of the gate, over the runs of the loop. -/
structure WarmupGate {ε : Type} (ops : EngineOps ε) (cfg : LiveConfig) (engine : ε) : Prop where
  /-- A historic candle reaches the broker neither through its signal nor through `on_bar`. -/
  silent (server : Server) (inputs : List LiveInput) (bar : Bar)
    (hincreasing : (candleTimes (inputs ++ [.bar bar])).Pairwise (· < ·)) (hold : Live.Historic cfg bar) :
    Live.Silent ops cfg bar (run (step ops cfg) (start cfg engine server) inputs).world
  /-- Any other candle opens the gate, and of its signal only the staleness counts. -/
  opens (server : Server) (inputs : List LiveInput) (bar : Bar) (hnew : ¬ Live.Historic cfg bar) :
    Live.Passing ops cfg bar (Live.StaleSignal cfg) (run (step ops cfg) (start cfg engine server) inputs).world ∧
      Live.Reaching ops cfg bar (fun v => (exec (Live.onBar ops cfg bar) v).2.bot.warming = false)
        (run (step ops cfg) (start cfg engine server) inputs).world
  /-- A gate that is open stays open, and suppresses nothing. -/
  stays (server : Server) (inputs later : List LiveInput) (bar : Bar)
    (hopen : (run (step ops cfg) (start cfg engine server) inputs).world.bot.warming = false) :
    (run (step ops cfg) (start cfg engine server) (inputs ++ later)).world.bot.warming = false ∧
      Live.Passing ops cfg bar (fun _ => False) (run (step ops cfg) (start cfg engine server) (inputs ++ later)).world

namespace Live

variable {ε : Type} {ops : EngineOps ε} {cfg : LiveConfig} {bar : Bar} {w : World (Bot ε)}

/-! ### One call -/

theorem onSignal_silent {sig : Signal} (hwarm : w.bot.warming = true) (hstale : StaleSignal cfg sig) :
    MakesNoCall (onSignal cfg bar sig) w := by
  intro env calls
  refine ⟨⟨⟩, w.bot, ?_⟩
  unfold onSignal
  rw [exec_bind_of (exec_get _), if_pos (by rw [hwarm, show stale _ _ _ = true from hstale]; rfl)]
  rfl

theorem onSignal_passes {sig : Signal} (h : w.bot.warming = false ∨ ¬ StaleSignal cfg sig) :
    exec (onSignal cfg bar sig) w = exec (passSignal cfg bar sig) w := by
  unfold onSignal
  rw [exec_bind_of (exec_get _), if_neg]
  · rfl
  · rcases h with hopen | hfresh
    · simp [hopen]
    · intro hgate
      exact hfresh (Bool.and_eq_true_iff.mp hgate).2

/-- A historic candle only writes the loss guard's day and the range average to the bot. -/
theorem exec_onBar_historic (ops : EngineOps ε) (hwarm : w.bot.warming = true) (hold : Historic cfg bar) :
    ∃ consec spike, exec (onBar ops cfg bar) w = (.ok ⟨⟩, { w with bot := { w.bot with consec, spike } }) := by
  have hstale : stale bar.candle.ts cfg.warmStart barGrace = true :=
    decide_eq_true (show bar.candle.ts < cfg.warmStart - barGrace from hold)
  unfold onBar watch updateSpike
  simp only [bind_assoc]
  rw [exec_bind_of (exec_modifyBot _ _), exec_bind_of (exec_get _)]
  dsimp only
  rw [if_pos (by rw [hwarm, hstale]; rfl), bind_assoc, exec_bind_of (exec_get _)]
  dsimp only
  cases w.bot.spike with
  | none => exact ⟨_, none, rfl⟩
  | some spike => exact ⟨_, _, rfl⟩

theorem onBar_silent (hwarm : w.bot.warming = true) (hold : Historic cfg bar) :
    MakesNoCall (onBar ops cfg bar) w := by
  intro env calls
  have hwarm' : ({ w with env := env, calls := calls } : World (Bot ε)).bot.warming = true := hwarm
  obtain ⟨consec, spike, hexec⟩ := exec_onBar_historic ops hwarm' hold
  exact ⟨_, _, hexec⟩

theorem onBar_passes (h : w.bot.warming = false ∨ ¬ Historic cfg bar) :
    exec (onBar ops cfg bar) w = exec (passBar ops cfg bar) w := by
  unfold onBar watch passBar
  simp only [bind_assoc]
  rw [exec_bind_of (exec_modifyBot _ _), exec_bind_of (exec_get _), if_neg, exec_bind_of (exec_modifyBot _ _)]
  · simp only [bind_assoc, pure_bind, if_true]
  · rcases h with hopen | hnew
    · simp [hopen]
    · intro hgate
      have hstale : stale bar.candle.ts cfg.warmStart barGrace = true := (Bool.and_eq_true_iff.mp hgate).2
      exact hnew (show bar.candle.ts < cfg.warmStart - barGrace from by simpa [stale] using hstale)

/-! ### Engine and gate through a bar -/

theorem call_course {B : OrderBody → Prop} {α : Type} {x : Mt5 (Bot ε) α} (h : Steps (CallStep (mt5 cfg) B) x)
    (w : World (Bot ε)) : (exec x w).2.bot.engine = w.bot.engine ∧ (exec x w).2.bot.warming = w.bot.warming := by
  obtain ⟨c, hc⟩ := bot_of_steps (h w) fun _ _ hstep => hstep.bot
  rw [hc]
  exact ⟨rfl, rfl⟩

theorem live_course {B : OrderBody → Prop} {α : Type} {x : Mt5 (Bot ε) α} (h : Steps (LiveStep cfg B) x)
    (w : World (Bot ε)) : (exec x w).2.bot.engine = w.bot.engine ∧ (exec x w).2.bot.warming = w.bot.warming := by
  refine (h w).invariant (I := fun v => v.bot.engine = w.bot.engine ∧ v.bot.warming = w.bot.warming) ?_ ⟨rfl, rfl⟩
  rintro v v' hstep ⟨hengine, hwarm⟩
  obtain ⟨hengine', hwarm'⟩ := hstep.course
  exact ⟨hengine'.trans hengine, hwarm'.trans hwarm⟩

variable {lag : Int} {I : ε → Prop}

theorem sync_course (cfg : LiveConfig) (bar : Bar) (w : World (Bot ε)) (htimely : Timely ops lag I) (h : I w.bot.engine) :
    I (exec (sync ops cfg bar) w).2.bot.engine ∧ (exec (sync ops cfg bar) w).2.bot.warming = w.bot.warming := by
  refine (sync_steps w).invariant (I := fun v => I v.bot.engine ∧ v.bot.warming = w.bot.warming) ?_ ⟨h, rfl⟩
  rintro v v' hstep ⟨hengine, hwarm⟩
  cases hstep with
  | live hlive =>
    obtain ⟨hengine', hwarm'⟩ := hlive.course
    rw [hengine']
    exact ⟨hengine, hwarm'.trans hwarm⟩
  | flat ts => exact ⟨htimely.forceFlat hengine ts, hwarm⟩

theorem passBar_course (cfg : LiveConfig) (bar : Bar) (w : World (Bot ε)) (htimely : Timely ops lag I) (h : I w.bot.engine) :
    I (exec (passBar ops cfg bar) w).2.bot.engine ∧ (exec (passBar ops cfg bar) w).2.bot.warming = false := by
  unfold passBar
  rw [exec_bind_of (exec_modifyBot _ _), exec_bind_of (exec_modifyBot _ _), exec_bind, exec_against]
  have hguards := live_course (guards_steps cfg bar) { w with
    bot := { w.bot with consec := w.bot.consec.map (·.onPeriod (date bar.candle.ts)), warming := false }
    env := bar.atGuards
    calls := 0 }
  rcases hexec : exec (guards cfg bar) _ with ⟨err | _, v⟩
  · rw [hexec] at hguards
    rw [hguards.1, hguards.2]
    exact ⟨h, rfl⟩
  · rw [hexec] at hguards
    dsimp only at hguards ⊢
    rw [exec_against]
    have hsync := sync_course cfg bar { v with env := bar.atSync, calls := 0 } htimely
      (by rw [hguards.1]; exact h)
    exact ⟨hsync.1, hsync.2.trans hguards.2⟩

/-- What a candle leaves behind: an engine in order, and the gate as it was unless the candle opened it. -/
def After (cfg : LiveConfig) (bar : Bar) (I : ε → Prop) (warming : Bool) (v : World (Bot ε)) : Prop :=
  I v.bot.engine ∧ (v.bot.warming = warming ∨ (v.bot.warming = false ∧ ¬ Historic cfg bar))

theorem feed_course (cfg : LiveConfig) (bar : Bar) (w : World (Bot ε)) (htimely : Timely ops lag I) (h : I w.bot.engine) :
    I (exec (feed ops cfg bar) w).2.bot.engine ∧ (exec (feed ops cfg bar) w).2.bot.warming = w.bot.warming := by
  have hrun : Ensures (feed ops cfg bar) w fun _ v => I v.bot.engine ∧ v.bot.warming = w.bot.warming := by
    refine feed_rule ⟨h, rfl⟩ (fun sig engine hout => ⟨(htimely.candle h hout).1, rfl⟩) fun sig engine _ hhanded => ?_
    obtain ⟨hengine, hwarm⟩ :=
      call_course (onSignal_steps cfg bar sig) { handed bar engine w with env := bar.atSignal, calls := 0 }
    refine ⟨?_, hwarm⟩
    rw [hengine]
    exact hhanded.1
  exact hrun

theorem onBar_course (cfg : LiveConfig) (bar : Bar) (w : World (Bot ε)) (htimely : Timely ops lag I) (h : I w.bot.engine) :
    After cfg bar I w.bot.warming (exec (onBar ops cfg bar) w).2 := by
  by_cases hpass : w.bot.warming = false ∨ ¬ Historic cfg bar
  · rw [onBar_passes hpass]
    obtain ⟨hengine, hopen⟩ := passBar_course cfg bar w htimely h
    refine ⟨hengine, ?_⟩
    rcases hpass with hwas | hnew
    · exact Or.inl (hopen.trans hwas.symm)
    · exact Or.inr ⟨hopen, hnew⟩
  · rw [not_or, not_not, Bool.not_eq_false] at hpass
    obtain ⟨consec, spike, hexec⟩ := exec_onBar_historic ops hpass.1 hpass.2
    rw [hexec]
    exact ⟨h, Or.inl rfl⟩

theorem onCandle_course (cfg : LiveConfig) (bar : Bar) (w : World (Bot ε)) (htimely : Timely ops lag I) (h : I w.bot.engine) :
    After cfg bar I w.bot.warming (exec (onCandle ops cfg bar) w).2 := by
  have hfeed := feed_course cfg bar w htimely h
  unfold onCandle
  rw [exec_bind]
  rcases hexec : exec (feed ops cfg bar) w with ⟨err | goesOn, v⟩
  · rw [hexec] at hfeed
    exact ⟨hfeed.1, Or.inl hfeed.2⟩
  · rw [hexec] at hfeed
    cases goesOn with
    | false => exact ⟨hfeed.1, Or.inl hfeed.2⟩
    | true =>
      have hbar := onBar_course cfg bar v htimely hfeed.1
      rw [hfeed.2] at hbar
      exact hbar

end Live

/-! ### Runs -/

namespace LiveState

variable {ε : Type} {ops : EngineOps ε} {cfg : LiveConfig} {lag : Int} {I : ε → Prop} {engine : ε}

/-- What holds after every run: an open gate has seen a candle that is not historic. -/
structure Gated (cfg : LiveConfig) (I : ε → Prop) (inputs : List LiveInput) (s : LiveState ε) : Prop where
  engine : I s.world.bot.engine
  opened : s.world.bot.warming = false → ∃ bar, .bar bar ∈ inputs ∧ ¬ Live.Historic cfg bar

theorem step_gated (htimely : Timely ops lag I) {inputs : List LiveInput} {s : LiveState ε} (input : LiveInput)
    (h : s.Gated cfg I inputs) : (s.step ops cfg input).Gated cfg I (inputs ++ [input]) := by
  have hkeep : s.Gated cfg I (inputs ++ [input]) := by
    refine ⟨h.engine, fun hopen => ?_⟩
    obtain ⟨bar, hbar, hnew⟩ := h.opened hopen
    exact ⟨bar, List.mem_append_left _ hbar, hnew⟩
  unfold step
  split
  · exact hkeep
  · cases input with
    | refresh balance positions => exact ⟨hkeep.engine, hkeep.opened⟩
    | idle events => exact ⟨hkeep.engine, hkeep.opened⟩
    | bar bar =>
      have hafter := Live.onCandle_course cfg bar s.world htimely h.engine
      rw [← onBar_world] at hafter
      refine ⟨hafter.1, fun hopen => ?_⟩
      rcases hafter.2 with hsame | ⟨-, hnew⟩
      · exact hkeep.opened (hsame.symm.trans hopen)
      · exact ⟨bar, List.mem_append_right _ (List.mem_singleton.mpr rfl), hnew⟩

theorem run_gated (server : Server) (htimely : Timely ops lag I) (hgate : cfg.warmupGate = true) (h : I engine)
    (inputs : List LiveInput) :
    Gated cfg I inputs (run (step ops cfg) (start cfg engine server) inputs) := by
  induction inputs using List.reverseRecOn with
  | nil => exact ⟨h, fun hopen => by simp [start, Live.start, hgate] at hopen⟩
  | append_singleton inputs input ih =>
    rw [run_append]
    exact step_gated htimely input ih

theorem step_open (htimely : Timely ops lag I) {s : LiveState ε} (input : LiveInput)
    (h : I s.world.bot.engine ∧ s.world.bot.warming = false) :
    I (s.step ops cfg input).world.bot.engine ∧ (s.step ops cfg input).world.bot.warming = false := by
  unfold step
  split
  · exact h
  · cases input with
    | refresh balance positions => exact h
    | idle events => exact h
    | bar bar =>
      have hafter := Live.onCandle_course cfg bar s.world htimely h.1
      rw [← onBar_world] at hafter
      refine ⟨hafter.1, ?_⟩
      rcases hafter.2 with hsame | ⟨hopen, -⟩
      · exact hsame.trans h.2
      · exact hopen

theorem Gated.warming {inputs : List LiveInput} {s : LiveState ε} {bar : Bar} (h : s.Gated cfg I inputs)
    (hincreasing : (candleTimes (inputs ++ [.bar bar])).Pairwise (· < ·)) (hold : Live.Historic cfg bar) :
    s.world.bot.warming = true := by
  by_contra hopen
  rw [Bool.not_eq_true] at hopen
  obtain ⟨earlier, hmem, hnew⟩ := h.opened hopen
  have hlt : earlier.candle.ts < bar.candle.ts := by
    unfold candleTimes at hincreasing
    rw [List.filterMap_append, List.pairwise_append] at hincreasing
    refine hincreasing.2.2 _ ?_ _ (List.mem_singleton.mpr rfl)
    exact List.mem_filterMap.mpr ⟨_, hmem, rfl⟩
  unfold Live.Historic at hold hnew
  omega

end LiveState

open LiveState in
/-- **The gate, for any engine** whose signals are old enough: the signal of a historic candle is stale. -/
theorem warmupGate_of_timely {ε : Type} {ops : EngineOps ε} {cfg : LiveConfig} {lag : Int} {I : ε → Prop} {engine : ε}
    (htimely : Timely ops lag I) (hlag : Live.sigGrace cfg ≤ lag + Live.barGrace) (hgate : cfg.warmupGate = true)
    (h : I engine) : WarmupGate ops cfg engine where
  silent := by
    intro server inputs bar hincreasing hold
    have hgated := run_gated server htimely hgate h inputs
    have hwarm := hgated.warming hincreasing hold
    refine ⟨fun sig engine' hout => Live.onSignal_silent hwarm ?_, fun v hfeed => Live.onBar_silent ?_ hold⟩
    · obtain ⟨-, hage⟩ := htimely.candle hgated.engine hout
      have hts := hage sig rfl
      unfold Live.Historic at hold
      exact decide_eq_true (show sig.ts < cfg.warmStart - Live.sigGrace cfg from by omega)
    · have hfeed' := Live.feed_course cfg bar _ htimely hgated.engine
      rw [hfeed] at hfeed'
      exact hfeed'.2.trans hwarm
  opens := by
    intro server inputs bar hnew
    have hgated := run_gated server htimely hgate h inputs
    refine ⟨⟨fun sig engine' _ hfresh => Live.onSignal_passes (Or.inr hfresh), fun v _ => Live.onBar_passes (Or.inr hnew)⟩,
      fun v hfeed => ?_⟩
    have hfeed' := Live.feed_course cfg bar _ htimely hgated.engine
    rw [hfeed] at hfeed'
    show (exec (Live.onBar ops cfg bar) v).2.bot.warming = false
    rw [Live.onBar_passes (Or.inr hnew)]
    exact (Live.passBar_course cfg bar v htimely hfeed'.1).2
  stays := by
    intro server inputs later bar hopen
    have hgated := run_gated server htimely hgate h inputs
    rw [run_append]
    have hlater : I (run (step ops cfg) (run (step ops cfg) (start cfg engine server) inputs) later).world.bot.engine ∧
        (run (step ops cfg) (run (step ops cfg) (start cfg engine server) inputs) later).world.bot.warming = false :=
      run_always (I := fun s : LiveState ε => I s.world.bot.engine ∧ s.world.bot.warming = false)
        (fun s input hs => step_open htimely input hs) ⟨hgated.engine, hopen⟩ later
    refine ⟨hlater.2, fun sig engine' _ _ => Live.onSignal_passes (Or.inl hlater.2), fun v hfeed => ?_⟩
    have hfeed' := Live.feed_course cfg bar _ htimely hlater.1
    rw [hfeed] at hfeed'
    exact Live.onBar_passes (Or.inl (hfeed'.2.trans hlater.2))

/-- **The warm-up gate**, for the three strategies. -/
theorem warmup_gate (orb : OrbConfig) (svp : SvpConfig) (smc : SmcConfig) (cfg : LiveConfig) (hgate : cfg.warmupGate = true) :
    (cfg.smcTrigger = none →
      WarmupGate (orbOps orb) cfg (OrbEngine.init orb) ∧ WarmupGate (svpOps svp) cfg (SvpEngine.init svp)) ∧
    (cfg.smcTrigger = some smc.triggerTfMin → ∀ e, SmcEngine.create smc = .ok e → WarmupGate (smcOps smc) cfg e) := by
  refine ⟨fun hnone => ?_, fun hsome e he => ?_⟩
  · have hlag : Live.sigGrace cfg ≤ 0 + Live.barGrace := by
      simp [Live.sigGrace, Live.barGrace, hnone]
    exact ⟨warmupGate_of_timely (OrbEngine.timely orb) hlag hgate trivial,
      warmupGate_of_timely (SvpEngine.timely svp) hlag hgate trivial⟩
  · have hlag : Live.sigGrace cfg ≤ TimeframeAggregator.width smc.triggerTfMin + Live.barGrace := by
      simp only [Live.sigGrace, Live.barGrace, hsome, Option.getD_some, TimeframeAggregator.width, minuteMicros]
      omega
    exact warmupGate_of_timely (SmcEngine.timely smc) hlag hgate (SmcEngine.clocked_create he)

/-- The gate at noon on 1 January 1970. -/
theorem warmup_gate_noon :
    let cfg : LiveConfig := { warmupGate := true, warmStart := 12 * 60 * minuteMicros }
    let smcCfg : LiveConfig := { cfg with
      smcTrigger := some SmcConfig.default.triggerTfMin, structural := some 2, structural_market := fun _ => rfl }
    WarmupGate (orbOps OrbConfig.default) cfg (OrbEngine.init OrbConfig.default) ∧
      WarmupGate (svpOps SvpConfig.default) cfg (SvpEngine.init SvpConfig.default) ∧
      ∃ e, SmcEngine.create SmcConfig.default = .ok e ∧ WarmupGate (smcOps SmcConfig.default) smcCfg e :=
  ⟨((warmup_gate OrbConfig.default SvpConfig.default SmcConfig.default _ rfl).1 rfl).1,
    ((warmup_gate OrbConfig.default SvpConfig.default SmcConfig.default _ rfl).1 rfl).2, _, rfl,
    (warmup_gate OrbConfig.default SvpConfig.default SmcConfig.default _ rfl).2 rfl _ rfl⟩

end FreqTrading
