import FreqTrading.Live.Budget

/-!
# The daily-loss halt

The breaker is fed at most once a bar, with the day of the bar and the cached balance (`observation`), and by nothing
else in the loop. While the loss of the current day has reached the cap, no bar sends an order that opens a position,
the first bar of the next day included: its signal comes before its observation (`daily_loss_halt`).
-/

namespace FreqTrading

open Lib

namespace Live

variable {ε : Type}

/-! ### The observation of a bar -/

section Observation

variable (ops : EngineOps ε) (cfg : LiveConfig) (bar : Bar)

/-- A bar up to the breaker; whether it comes to it. -/
def atBreaker : Mt5 (Bot ε) Bool := do
  if ← feed ops cfg bar then
    modifyBot fun bot => { bot with consec := bot.consec.map (·.onPeriod (date bar.candle.ts)) }
    if (← get).bot.warming && stale bar.candle.ts cfg.warmStart barGrace then return false
    modifyBot fun bot => { bot with warming := false }
    against bar.atGuards (spikeGuard cfg bar)
    return true
  else return false

/-- The day and the balance that the bar feeds to the breaker. -/
def observation (w : World (Bot ε)) : Option (Int × ℚ) :=
  match exec (atBreaker ops cfg bar) w with
  | (.ok true, v) =>
    match exec cachedBalance v with
    | (.ok balance, _) => some (date bar.candle.ts, balance)
    | (.error _, _) => none
  | _ => none

end Observation

/-- The breaker after an observation, if there is one. -/
def fedWith (obs : Option (Int × ℚ)) (br : Option DailyLossBreaker) : Option DailyLossBreaker :=
  match obs with
  | none => br
  | some o => br.map fun br => br.update o.1 o.2

/-! ### What leaves the breaker alone -/

/-- Nothing is fed to the breaker. -/
def SameBreaker (w w' : World (Bot ε)) : Prop := w'.bot.breaker = w.bot.breaker

variable {ops : EngineOps ε} {cfg : LiveConfig} {bar : Bar} {B : OrderBody → Prop} {w w' : World (Bot ε)}

theorem sameBreaker_of_call {α : Type} {x : Mt5 (Bot ε) α} (h : Steps (CallStep (mt5 cfg) B) x) : Steps SameBreaker x := by
  refine fun w => (h w).mono fun v v' hstep => ?_
  obtain ⟨c, hc⟩ := hstep.bot
  show v'.bot.breaker = _
  rw [hc]

theorem sameBreaker_of_quiet {α : Type} {x : Mt5 (Bot ε) α} (h : Steps (MtStep (mt5 cfg) B BrokerEvent.Quiet) x) :
    Steps SameBreaker x := sameBreaker_of_call ((mt5 cfg).quiet_steps h)

theorem sameBreaker_of_read {α : Type} {x : Mt5 (Bot ε) α}
    (h : Steps (MtStep (mt5 cfg) (fun _ => False) BrokerEvent.Quiet) x) : Steps SameBreaker x := sameBreaker_of_quiet h

theorem modifyBot_sameBreaker {f : Bot ε → Bot ε} (h : ∀ bot, (f bot).breaker = bot.breaker := by exact fun _ => rfl) :
    Steps SameBreaker (modifyBot f) := fun w => .single (h w.bot)

theorem sameBreaker_exec {α : Type} {x : Mt5 (Bot ε) α} (h : StepsFrom SameBreaker x w) :
    (exec x w).2.bot.breaker = w.bot.breaker :=
  h.invariant (I := fun v => v.bot.breaker = w.bot.breaker) (fun _ _ hstep hv => hstep.trans hv) rfl

theorem feed_breaker (ops : EngineOps ε) (cfg : LiveConfig) (bar : Bar) (w : World (Bot ε)) :
    (exec (feed ops cfg bar) w).2.bot.breaker = w.bot.breaker :=
  feed_rule (I := fun v => v.bot.breaker = w.bot.breaker) rfl (fun _ _ _ => rfl) fun sig _ _ hhanded =>
    (sameBreaker_exec (sameBreaker_of_call (onSignal_steps cfg bar sig) _)).trans hhanded

theorem updateSpike_sameBreaker : Steps SameBreaker (updateSpike (ε := ε) bar) := by
  refine .bind (fun _ => .get) fun w => ?_
  cases w.bot.spike with
  | none => exact .pure _
  | some spike => exact .bind modifyBot_sameBreaker fun _ => .pure _

theorem spikeGuard_sameBreaker : Steps SameBreaker (spikeGuard (ε := ε) cfg bar) := by
  refine .bind updateSpike_sameBreaker fun hit => ?_
  split
  · refine .bind (sameBreaker_of_read (mt5 cfg).hasPending_steps) fun pending => ?_
    split
    · exact .bind (guarded_all (sameBreaker_of_quiet ((mt5 cfg).cancelPending_steps 120))) fun _ => .pure _
    · exact .pure _
  · exact .pure _

theorem flattenAll_sameBreaker (reason : String) : Steps SameBreaker (flattenAll (ε := ε) cfg reason) := by
  refine .bind (sameBreaker_of_call (B := fun _ => False) ((mt5 cfg).closeAll_steps reason)) fun _ => ?_
  split
  · exact sameBreaker_of_quiet ((mt5 cfg).cancelPending_steps 0)
  · exact .pure _

theorem macroGuard_sameBreaker : Steps SameBreaker (macroGuard (ε := ε) cfg bar) := by
  unfold macroGuard
  split
  · refine .bind (fun _ => .get) fun w => ?_
    split
    · exact .bind (guarded_all (.bind modifyBot_sameBreaker fun _ => flattenAll_sameBreaker _)) fun _ => .pure _
    · exact modifyBot_sameBreaker
    · exact .pure _
  · exact .pure _

theorem manage_sameBreaker : Steps SameBreaker (manage ops cfg bar) := by
  have hpositions : Steps SameBreaker (cachedPositions (ε := ε) cfg) := by
    refine .bind (fun _ => .get) fun w => ?_
    dsimp only
    split
    · exact .pure _
    · exact .bind (sameBreaker_of_read (mt5 cfg).myPositions_steps) fun _ => .bind modifyBot_sameBreaker fun _ => .pure _
  have hact : ∀ actions, Steps SameBreaker (act (ε := ε) cfg actions) := by
    intro actions
    induction actions with
    | nil => exact .pure _
    | cons action rest ih =>
      cases action with
      | partialClose ticket volume => exact .bind (sameBreaker_of_call (B := fun _ => False) ((mt5 cfg).closeTicket_steps ticket volume)) fun _ => ih
      | updateSl ticket sl => exact .bind (sameBreaker_of_quiet ((mt5 cfg).modifySl_steps ticket sl)) fun _ => ih
  have hbook : Steps SameBreaker (guarded (ε := ε) do
      let _ ← cachedPositions cfg
      act cfg bar.sitter) := guarded_all (.bind hpositions fun _ => hact _)
  have hdrop : Steps SameBreaker (do
      if ops.inBreakout (← get).bot.engine then
        if !(← (mt5 cfg).hasPosition) then
          if !(← (mt5 cfg).hasPending) then forceFlat ops bar) := by
    refine .bind (fun _ => .get) fun w => ?_
    split
    · refine .bind (sameBreaker_of_read (mt5 cfg).hasPosition_steps) fun held => ?_
      split
      · refine .bind (sameBreaker_of_read (mt5 cfg).hasPending_steps) fun pending => ?_
        split
        · exact modifyBot_sameBreaker
        · exact .pure _
      · exact .pure _
    · exact .pure _
  unfold manage
  split
  · exact .bind (guarded_all (sameBreaker_of_quiet ((mt5 cfg).cancelExpired_steps _))) fun _ => .bind hbook fun _ => hdrop
  · exact .bind hbook fun _ => hdrop

theorem sync_sameBreaker : Steps SameBreaker (sync ops cfg bar) := by
  unfold sync
  split
  · exact manage_sameBreaker
  · refine .bind (fun _ => .get) fun w => ?_
    split
    · refine .bind (sameBreaker_of_read (mt5 cfg).hasPosition_steps) fun held => ?_
      split
      · refine .bind (fun _ => .get) fun w => ?_
        split
        · exact .pure _
        · exact .bind (guarded_all (sameBreaker_of_quiet ((mt5 cfg).updateStop_steps _))) fun _ => .pure _
      · exact modifyBot_sameBreaker
    · exact .pure _

/-! ### What feeds it -/

theorem lossGuard_breaker (cfg : LiveConfig) (bar : Bar) (w : World (Bot ε)) :
    (exec (lossGuard cfg bar) w).2.bot.breaker =
      match exec cachedBalance w with
      | (.ok balance, _) => w.bot.breaker.map fun br => br.update (date bar.candle.ts) balance
      | (.error _, _) => w.bot.breaker := by
  unfold lossGuard
  rw [exec_bind_of (exec_get w)]
  cases hbr : w.bot.breaker with
  | none =>
    show w.bot.breaker = _
    rw [hbr]
    rcases exec cachedBalance w with ⟨err | balance, v⟩ <;> rfl
  | some br =>
    dsimp only
    rw [exec_discard, guarded_world, exec_bind]
    have hread := cachedBalance_breaker w
    unfold Ensures at hread
    rcases hbalance : exec cachedBalance w with ⟨err | balance, v⟩
    · rw [hbalance] at hread
      exact hread.trans hbr
    · dsimp only
      rw [exec_bind_of (exec_modifyBot _ v)]
      split
      · exact sameBreaker_exec (flattenAll_sameBreaker _ _)
      · rfl

theorem guards_breaker (cfg : LiveConfig) (bar : Bar) (w : World (Bot ε)) :
    (exec (guards cfg bar) w).2.bot.breaker =
      match exec (spikeGuard cfg bar) w with
      | (.ok _, v) => (exec (lossGuard cfg bar) v).2.bot.breaker
      | (.error _, _) => w.bot.breaker := by
  have hspike : (exec (spikeGuard cfg bar) w).2.bot.breaker = w.bot.breaker :=
    sameBreaker_exec (spikeGuard_sameBreaker w)
  unfold guards
  rw [exec_bind]
  rcases hexec : exec (spikeGuard cfg bar) w with ⟨err | _, v⟩
  · rw [hexec] at hspike
    exact hspike
  · dsimp only
    rw [exec_bind]
    rcases exec (lossGuard cfg bar) v with ⟨err | _, u⟩
    · rfl
    · exact sameBreaker_exec (macroGuard_sameBreaker u)

/-- **A bar feeds the breaker with its observation**, if it has one, and with nothing else. -/
theorem onCandle_breaker (ops : EngineOps ε) (cfg : LiveConfig) (bar : Bar) (w : World (Bot ε)) :
    (exec (onCandle ops cfg bar) w).2.bot.breaker = fedWith (observation ops cfg bar w) w.bot.breaker := by
  have hfeed := feed_breaker ops cfg bar w
  unfold onCandle observation atBreaker
  rw [exec_bind, exec_bind]
  rcases hexec : exec (feed ops cfg bar) w with ⟨err | fed, v⟩
  · rw [hexec] at hfeed
    exact hfeed
  · rw [hexec] at hfeed
    cases fed with
    | false => exact hfeed
    | true =>
      have hbar : (exec (onBar ops cfg bar) v).2.bot.breaker = (exec (watch cfg bar) v).2.bot.breaker := by
        unfold onBar
        rw [exec_bind]
        rcases exec (watch cfg bar) v with ⟨err | due, u⟩
        · rfl
        · cases due with
          | false => rfl
          | true =>
            have hsync : (exec (sync ops cfg bar) { u with env := bar.atSync, calls := 0 }).2.bot.breaker =
                u.bot.breaker := sameBreaker_exec (sync_sameBreaker _)
            exact hsync
      simp only [if_true]
      rw [hbar, ← hfeed]
      unfold watch
      simp only [exec_bind, exec_modifyBot, exec_get]
      by_cases hgate : (v.bot.warming && stale bar.candle.ts cfg.warmStart barGrace) = true
      · simp only [if_pos hgate]
        rw [exec_discard]
        exact sameBreaker_exec (updateSpike_sameBreaker _)
      · simp only [if_neg hgate]
        rw [exec_bind_of (exec_modifyBot _ _), exec_discard, exec_against]
        simp only [exec_bind, exec_modifyBot, exec_against]
        obtain ⟨u, hstart, hu⟩ : ∃ u : World (Bot ε), u = { v with
            bot := { v.bot with consec := v.bot.consec.map (·.onPeriod (date bar.candle.ts)), warming := false }
            env := bar.atGuards
            calls := 0 } ∧ v.bot.breaker = u.bot.breaker := ⟨_, rfl, rfl⟩
        rw [← hstart, hu]
        have hguards := guards_breaker cfg bar u
        have hspike : (exec (spikeGuard cfg bar) u).2.bot.breaker = u.bot.breaker :=
          sameBreaker_exec (spikeGuard_sameBreaker u)
        rw [hguards]
        rcases hexec : exec (spikeGuard cfg bar) u with ⟨err | _, x⟩
        · rfl
        · rw [hexec] at hspike
          dsimp only [exec_pure] at hspike ⊢
          rw [lossGuard_breaker, hspike]
          rcases exec cachedBalance x with ⟨err | balance, _⟩ <;> rfl

/-! ### No entry while halted -/

/-- The order opens no position. -/
def OpensNone (s : Sent) : Prop := s.request.body.opened = none

theorem not_enters_of_opensNone {s : Sent} (h : OpensNone s) : ¬ s.request.body.Enters := by
  unfold OpensNone at h
  cases hbody : s.request.body with
  | entry | pending =>
    rw [hbody] at h
    cases h
  | close | sltp | remove => exact id

theorem opensNone_onEntries : OnEntries OpensNone := fun _ hnone => hnone

theorem skips_halted {bot : Bot ε} (h : bot.breaker.any (·.halted) = true) (sig : Signal) : skips cfg bar bot sig = true := by
  unfold skips
  rw [h]
  rfl

theorem feed_halted {cap : ℚ} {n : Nat} (hhalted : w.bot.breaker.any (·.halted) = true) (h : Budgeted cap n OpensNone w) :
    Ensures (feed ops cfg bar) w fun _ v => Budgeted cap n OpensNone v := by
  refine feed_rule h (fun _ _ _ => h.congr rfl rfl) fun sig engine _ _ => ?_
  have hstart : Budgeted cap n OpensNone { handed bar engine w with env := bar.atSignal, calls := 0 } := h.congr rfl rfl
  refine onSignal_cases sig (fun _ _ => hstart) (fun _ _ => ?_) fun hkind => ?_
  · refine onEntry_rule (J := fun _ => False) (F := fun _ => False) (fun _ => hstart) (fun hopen => ?_)
      (fun _ hv => hv.elim) (fun _ hv => hv.elim) (fun _ _ hsig => hsig.elim)
    exact absurd (hopen.symm.trans (skips_halted hhalted sig)) (by decide)
  · cases hexit : sig.kind with
    | entry => exact absurd hexit hkind
    | exit => exact closes_budgeted (fun v => submit_steps (exit_steps cfg hexit v)) opensNone_onEntries hstart
    | reject =>
      unfold Ensures
      rw [submit_reject hexit]
      exact hstart

/-- **A bar that starts halted opens nothing.** -/
theorem onCandle_halted {cap : ℚ} {n : Nat} (ops : EngineOps ε) (cfg : LiveConfig) (bar : Bar)
    (hhalted : w.bot.breaker.any (·.halted) = true) (h : Budgeted cap n OpensNone w) :
    Budgeted cap n OpensNone (exec (onCandle ops cfg bar) w).2 := by
  have hrun : Ensures (onCandle ops cfg bar) w fun _ v => Budgeted cap n OpensNone v := by
    unfold onCandle
    refine Ensures.bind_keep (feed_halted hhalted h) (fun _ hv => hv) fun fed v hv => ?_
    split
    · unfold onBar
      refine Ensures.bind_keep (watch_budgeted opensNone_onEntries hv) (fun _ hu => hu) fun due u hu => ?_
      split
      · rw [ensures_against]
        exact sync_budgeted opensNone_onEntries (hu.congr rfl rfl)
      · exact hu
    · exact hv
  exact hrun

theorem dailyCap_given (max : { x : ℚ // 0 < x }) :
    (some max.1).isSome = true ∨ (none : Option ℚ).isSome = true := Or.inl rfl

theorem dailyCap_pos (max : { x : ℚ // 0 < x }) : ∀ x ∈ some max.1, 0 < x := by
  intro x hx
  obtain rfl := Option.some.inj hx
  exact max.2

/-- The cap that the loop starts its breaker with. -/
def dailyCap (max : { x : ℚ // 0 < x }) : DailyCap where
  flat := some max.1
  given := dailyCap_given max
  flat_pos := dailyCap_pos max
  pct_pos := DailyCap.none_pos

end Live

/-! ### Runs -/

namespace LiveState

variable {ε : Type}

/-- The observation of an input. -/
def observation (ops : EngineOps ε) (cfg : LiveConfig) (s : LiveState ε) : LiveInput → Option (Int × ℚ)
  | .bar bar => if s.stopped then none else Live.observation ops cfg bar s.world
  | _ => none

/-- The observations that a run makes, oldest first. -/
def observations (ops : EngineOps ε) (cfg : LiveConfig) : LiveState ε → List LiveInput → List (Int × ℚ)
  | _, [] => []
  | s, input :: inputs => (observation ops cfg s input).toList ++ observations ops cfg (step ops cfg s input) inputs

variable {ops : EngineOps ε} {cfg : LiveConfig} {max : { x : ℚ // 0 < x }} {s : LiveState ε}

theorem step_breaker (ops : EngineOps ε) (cfg : LiveConfig) (s : LiveState ε) (input : LiveInput) :
    (step ops cfg s input).world.bot.breaker =
      Live.fedWith (observation ops cfg s input) s.world.bot.breaker := by
  unfold step observation
  cases hstopped : s.stopped with
  | true => cases input <;> rfl
  | false =>
    cases input with
    | bar bar =>
      simp only [Bool.false_eq_true, if_false]
      rw [onBar_world]
      exact Live.onCandle_breaker ops cfg bar s.world
    | refresh balance positions => rfl
    | idle events => rfl

/-- The breaker has been fed with the observations. -/
def Fed (max : { x : ℚ // 0 < x }) (obs : List (Int × ℚ)) (s : LiveState ε) : Prop :=
  s.world.bot.breaker = some (DailyLossBreaker.fed (Live.dailyCap max) obs)

theorem Fed.step {obs : List (Int × ℚ)} (h : Fed max obs s) (input : LiveInput) :
    Fed max (obs ++ (observation ops cfg s input).toList) (step ops cfg s input) := by
  unfold Fed at *
  rw [step_breaker, h]
  cases observation ops cfg s input with
  | none => simp [Live.fedWith]
  | some o => simp [Live.fedWith, DailyLossBreaker.fed_concat]

theorem Fed.run {obs : List (Int × ℚ)} (h : Fed max obs s) (inputs : List LiveInput) :
    Fed max (obs ++ observations ops cfg s inputs) (run (LiveState.step ops cfg) s inputs) := by
  induction inputs generalizing s obs with
  | nil => simpa [observations] using h
  | cons input inputs ih =>
    rw [observations, ← List.append_assoc, run_cons]
    exact ih (h.step input)

theorem Fed.halted {obs : List (Int × ℚ)} (h : Fed max obs s)
    (hhalted : (DailyLossBreaker.fed (Live.dailyCap max) obs).halted = true) :
    s.world.bot.breaker.any (·.halted) = true := by
  unfold Fed at h
  rw [h]
  exact hhalted

theorem fed_start (hmax : cfg.maxDailyLoss = some max) (engine : ε) (server : Server) :
    Fed max [] (start cfg engine server) := by
  show (Live.start cfg engine).breaker = _
  unfold Live.start
  rw [hmax]
  rfl

theorem step_halted {n : Nat} (hhalted : s.world.bot.breaker.any (·.halted) = true)
    (h : Live.Budgeted max.1 n Live.OpensNone s.world) (input : LiveInput) :
    Live.Budgeted max.1 n Live.OpensNone (step ops cfg s input).world := by
  unfold step
  split
  · exact h
  · cases input with
    | bar bar =>
      dsimp only
      rw [onBar_world]
      exact Live.onCandle_halted ops cfg bar hhalted h
    | refresh balance positions => exact h.congr rfl rfl
    | idle events => exact h.congr rfl rfl

theorem run_halted {n : Nat} {obs : List (Int × ℚ)} {day : Int} (hfed : Fed max obs s)
    (hday : obs.getLast?.map (·.1) = some day)
    (hhalted : (DailyLossBreaker.fed (Live.dailyCap max) obs).halted = true)
    (h : Live.Budgeted max.1 n Live.OpensNone s.world) (inputs : List LiveInput) (next : LiveInput)
    (hsame : ∀ o ∈ observations ops cfg s inputs, o.1 = day) :
    Live.Budgeted max.1 n Live.OpensNone (run (step ops cfg) s (inputs ++ [next])).world := by
  induction inputs generalizing s obs with
  | nil => exact step_halted (hfed.halted hhalted) h next
  | cons input inputs ih =>
    have hany := hfed.halted hhalted
    rw [observations] at hsame
    have hlater : ∀ o ∈ observations ops cfg (step ops cfg s input) inputs, o.1 = day :=
      fun o ho => hsame o (List.mem_append_right _ ho)
    have hstep : Fed max (obs ++ (observation ops cfg s input).toList) (step ops cfg s input) := hfed.step input
    cases hobs : observation ops cfg s input with
    | none =>
      rw [hobs, Option.toList_none, List.append_nil] at hstep
      exact ih hstep hday hhalted (step_halted hany h input) hlater
    | some o =>
      have ho : o.1 = day := hsame o (by simp [hobs])
      have hsameDay : obs.getLast?.map (·.1) = some o.1 := by rw [hday, ho]
      rw [hobs, Option.toList_some] at hstep
      refine ih hstep ?_ (DailyLossBreaker.fed_halted_same hsameDay hhalted) (step_halted hany h input) hlater
      rw [List.getLast?_concat, Option.map_some, ho]

/-- **The daily-loss halt.** Over days that follow one another the breaker is halted exactly while a loss of the day has
reached the day's cap; it stays so for the day, and starts afresh on the next. Once the observations of a run have come
to that, no order that opens a position is sent by any input up to the first with an observation of another day, that
input's signal included. -/
theorem daily_loss_halt (ops : EngineOps ε) (cfg : LiveConfig) :
    (∀ cap obs, Nondecreasing obs →
      ((DailyLossBreaker.fed cap obs).halted = true ↔ LossReached cap obs) ∧
      ∀ o, (obs.getLast?.map (·.1) = some o.1 → (DailyLossBreaker.fed cap obs).halted = true →
          (DailyLossBreaker.fed cap (obs ++ [o])).halted = true) ∧
        (obs.getLast?.map (·.1) ≠ some o.1 →
          DailyLossBreaker.fed cap (obs ++ [o]) = DailyLossBreaker.fed cap [o])) ∧
    ∀ max, cfg.maxDailyLoss = some max → ∀ engine server before after next day,
      Nondecreasing (observations ops cfg (start cfg engine server) before) →
      LossReached (Live.dailyCap max) (observations ops cfg (start cfg engine server) before) →
      (observations ops cfg (start cfg engine server) before).getLast?.map (·.1) = some day →
      (∀ o ∈ observations ops cfg (run (step ops cfg) (start cfg engine server) before) after, o.1 = day) →
      ∀ x ∈ (run (step ops cfg) (start cfg engine server) (before ++ (after ++ [next]))).world.sent.drop
          (run (step ops cfg) (start cfg engine server) before).world.sent.length, ¬ x.request.body.Enters := by
  constructor
  · intro cap obs hobs
    refine ⟨(DailyLossBreaker.fed_follows cap hobs).halted, fun o => ⟨DailyLossBreaker.fed_halted_same, fun hday => ?_⟩⟩
    rw [DailyLossBreaker.fed_concat, DailyLossBreaker.update_new_day (by rwa [DailyLossBreaker.fed_day]),
      DailyLossBreaker.fed_cap]
  · intro max hmax engine server before after next day hobs hreached hday hsame x hx henters
    have hfed : Fed max (observations ops cfg (start cfg engine server) before)
        (run (step ops cfg) (start cfg engine server) before) := (fed_start hmax engine server).run before
    have hquiet : Live.Budgeted max.1 (run (step ops cfg) (start cfg engine server) before).world.sent.length
        Live.OpensNone (run (step ops cfg) (start cfg engine server) before).world :=
      ⟨⟨_, hfed, by rw [DailyLossBreaker.fed_cap]; rfl⟩, le_rfl, fun s hs => by simp at hs⟩
    rw [run_append] at hx
    have hnone := (run_halted hfed hday ((DailyLossBreaker.fed_follows _ hobs).halted.mpr hreached) hquiet after next
      hsame).orders x hx
    exact absurd henters (Live.not_enters_of_opensNone hnone)

/-! ### A day that loses 100 -/

/-- A range, a loss of 100 while a position of an earlier run is closed by the server, and a quiet bar. -/
def haltingDay : List LiveInput :=
  [answered (EngineRun.minuteBar 0 2000 2001 1999 2000) (quoting 2005 accepted), .idle [.closed 1 (-100)],
    answered (EngineRun.minuteBar 1 2000 2001 1999 2000) (quoting 2005 accepted)]

theorem haltingDay_observations : observations (orbOps EngineRun.gapConfig) budgetConfig
    (start budgetConfig (OrbEngine.init EngineRun.gapConfig) heldServer) haltingDay = [(0, 1000), (0, 900)] := by
  decide +kernel

/-- The breakout after the loss opens nothing. -/
theorem daily_loss_halt_breakout :
    ∀ x ∈ (run (step (orbOps EngineRun.gapConfig) budgetConfig)
        (start budgetConfig (OrbEngine.init EngineRun.gapConfig) heldServer) (haltingDay ++ ([] ++
          [answered (EngineRun.minuteBar 2 2002 2006 2001 2005) (quoting 2005 accepted)]))).world.sent.drop
      (run (step (orbOps EngineRun.gapConfig) budgetConfig)
        (start budgetConfig (OrbEngine.init EngineRun.gapConfig) heldServer) haltingDay).world.sent.length,
      ¬ x.request.body.Enters := by
  refine (daily_loss_halt (orbOps EngineRun.gapConfig) budgetConfig).2 _ rfl (OrbEngine.init EngineRun.gapConfig) heldServer
    haltingDay [] (answered (EngineRun.minuteBar 2 2002 2006 2001 2005) (quoting 2005 accepted)) 0 ?_ ?_ ?_ ?_
  · rw [haltingDay_observations]
    simp [Nondecreasing]
  · rw [haltingDay_observations]
    refine ⟨(0, 1000), rfl, (0, 900), by simp [today], ?_⟩
    show (100 : ℚ) ≤ 1000 - 900
    norm_num
  · rw [haltingDay_observations]
    rfl
  · intro o ho
    exact absurd ho (by simp [observations])

end LiveState

end FreqTrading
