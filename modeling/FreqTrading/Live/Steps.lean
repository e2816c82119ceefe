import FreqTrading.Broker.Own
import FreqTrading.Live.Basic

/-!
# What the parts of a bar may do

`on_signal` is made of the steps of broker calls. The guards and the position management also write to the
bot, but not to its engine, its loss guard or the warm-up gate (`LiveStep`). Each part's lemma says which
requests it sends beside closes.
-/

namespace FreqTrading

open Lib

variable {ε : Type}

/-- Nothing differs of a breaker but what an update with some balance changes. -/
def DailyLossBreaker.Fed (br br' : Option DailyLossBreaker) : Prop :=
  br' = br ∨ ∃ b day balance, br = some b ∧ br' = some (b.update day balance)

/-- Only caches and latches differ, and the breaker if it was fed. -/
def Bot.SameCourse (bot bot' : Bot ε) : Prop :=
  bot'.engine = bot.engine ∧ bot'.consec = bot.consec ∧ bot'.warming = bot.warming ∧
    DailyLossBreaker.Fed bot.breaker bot'.breaker

/-- A broker call, or a write to the bot that leaves engine, loss guard and warm-up gate alone. -/
inductive LiveStep (cfg : LiveConfig) (B : OrderBody → Prop) : World (Bot ε) → World (Bot ε) → Prop
  | call {w w' : World (Bot ε)} (hstep : CallStep (Live.mt5 cfg) B w w') : LiveStep cfg B w w'
  | bot (w : World (Bot ε)) (f : Bot ε → Bot ε) (hsame : w.bot.SameCourse (f w.bot)) :
      LiveStep cfg B w { w with bot := f w.bot }

namespace Live

/-- The world in which a signal is handed to `on_signal`. -/
def handed (bar : Bar) (engine : ε) (w : World (Bot ε)) : World (Bot ε) :=
  { w with bot := { w.bot with engine := engine }, server := { w.server with day := date bar.candle.ts } }

/-- The world in which `on_bar` is called for the candle meets `Q`, if it comes to that. -/
def Reaching (ops : EngineOps ε) (cfg : LiveConfig) (bar : Bar) (Q : World (Bot ε) → Prop) (w : World (Bot ε)) : Prop :=
  ∀ v, exec (feed ops cfg bar) w = (.ok true, v) → Q v

variable {ops : EngineOps ε} {cfg : LiveConfig} {bar : Bar} {B : OrderBody → Prop}
  {R : World (Bot ε) → World (Bot ε) → Prop}

@[simp] theorem exec_against {α : Type} (replies : Nat → Reply) (x : Mt5 (Bot ε) α) (w : World (Bot ε)) :
    exec (against replies x) w = exec x { w with env := replies, calls := 0 } := rfl

@[simp] theorem exec_modifyBot (f : Bot ε → Bot ε) (w : World (Bot ε)) :
    exec (modifyBot f) w = (.ok ⟨⟩, { w with bot := f w.bot }) := rfl

theorem ensures_modifyBot {f : Bot ε → Bot ε} {w : World (Bot ε)} {Q : Except Failure PUnit → World (Bot ε) → Prop} :
    Ensures (modifyBot f) w Q ↔ Q (.ok ⟨⟩) { w with bot := f w.bot } := Iff.rfl

theorem ensures_against {α : Type} {replies : Nat → Reply} {x : Mt5 (Bot ε) α} {w : World (Bot ε)}
    {Q : Except Failure α → World (Bot ε) → Prop} :
    Ensures (against replies x) w Q ↔ Ensures x { w with env := replies, calls := 0 } Q := Iff.rfl

theorem guarded_steps {α : Type} {x : Mt5 (Bot ε) α} {w : World (Bot ε)} (h : StepsFrom R x w) :
    StepsFrom R (guarded x) w := by
  refine .tryCatch (h.bind fun _ _ _ => .pure _) fun err w' _ => ?_
  cases err with
  | broker text => exact .pure _
  | other => exact .throw _

theorem guarded_all {α : Type} {x : Mt5 (Bot ε) α} (h : Steps R x) : Steps R (guarded x) :=
  fun w => guarded_steps (h w)

theorem call_steps {α : Type} {x : Mt5 (Bot ε) α} (h : Steps (CallStep (mt5 cfg) B) x) :
    Steps (LiveStep cfg B) x :=
  fun w => (h w).mono fun _ _ hstep => .call hstep

theorem quiet_steps {α : Type} {x : Mt5 (Bot ε) α} (h : Steps (MtStep (mt5 cfg) B BrokerEvent.Quiet) x) :
    Steps (LiveStep cfg B) x :=
  call_steps ((mt5 cfg).quiet_steps h)

theorem modifyBot_steps {f : Bot ε → Bot ε}
    (hsame : ∀ bot : Bot ε, bot.SameCourse (f bot) := by exact fun _ => ⟨rfl, rfl, rfl, Or.inl rfl⟩) :
    Steps (LiveStep cfg B) (modifyBot f) :=
  fun w => .single (.bot w f (hsame _))

@[simp] theorem exec_guarded {α : Type} (x : Mt5 (Bot ε) α) (w : World (Bot ε)) :
    exec (guarded x) w =
      match exec x w with
      | (.ok a, w') => (.ok (some a), w')
      | (.error (.broker _), w') => (.ok none, w')
      | (.error .other, w') => (.error .other, w') := by
  unfold guarded
  rw [exec_tryCatch, exec_bind]
  rcases exec x w with ⟨err | a, w'⟩
  · cases err <;> rfl
  · rfl

theorem guarded_world {α : Type} (x : Mt5 (Bot ε) α) (w : World (Bot ε)) : (exec (guarded x) w).2 = (exec x w).2 := by
  rw [exec_guarded]
  rcases exec x w with ⟨(text | _) | a, v⟩ <;> rfl

theorem ensures_guarded {α : Type} {x : Mt5 (Bot ε) α} {w : World (Bot ε)}
    {Q : Except Failure (Option α) → World (Bot ε) → Prop} :
    Ensures (guarded x) w Q ↔ Ensures x w fun r v =>
      match r with
      | .ok a => Q (.ok (some a)) v
      | .error (.broker _) => Q (.ok none) v
      | .error .other => Q (.error .other) v := by
  unfold Ensures
  rw [exec_guarded]
  rcases exec x w with ⟨err | a, v⟩
  · cases err <;> exact Iff.rfl
  · exact Iff.rfl

/-! ### `on_signal` -/

theorem sized_reads (sig : Signal) : Steps (MtStep (mt5 cfg) B BrokerEvent.Quiet) (sized (ε := ε) cfg sig) := by
  unfold sized
  cases sizingRisk cfg with
  | none => exact .pure _
  | some riskPct =>
    cases sig.stop with
    | none => exact .pure _
    | some stop =>
      refine .bind (mt5 cfg).symbolSpecs_steps fun specs =>
        .bind (mt5 cfg).balance_steps fun bal => .bind (fun _ => .get) fun w => ?_
      cases remainingBudget w.bot with
      | error err => exact .throw _
      | ok remaining =>
        simp only
        split
        · exact .pure _
        · exact .pure _

theorem sized_steps (sig : Signal) : Steps (CallStep (mt5 cfg) B) (sized (ε := ε) cfg sig) :=
  (mt5 cfg).quiet_steps (sized_reads sig)

/-- The scaling of the macro guard and the sizing only set the quantity. -/
def SameLevels (sig sig' : Signal) : Prop := ∃ qty, sig' = { sig with qty := qty }

theorem macroScale_levels (cfg : LiveConfig) (bar : Bar) (sig : Signal) : SameLevels sig (macroScale cfg bar sig) := by
  unfold macroScale
  split
  · split
    · exact ⟨_, rfl⟩
    · exact ⟨sig.qty, rfl⟩
  · exact ⟨sig.qty, rfl⟩

theorem sized_levels (sig : Signal) (w : World (Bot ε)) :
    Ensures (sized cfg sig) w (Post (fun r _ => ∀ sig' ∈ r, SameLevels sig sig') fun _ _ => True) := by
  have hnone : ∀ sig' ∈ (none : Option Signal), SameLevels sig sig' := fun _ h => by cases h
  have hsome : ∀ qty, ∀ sig' ∈ some { sig with qty := qty }, SameLevels sig sig' := by
    intro qty sig' h
    cases h
    exact ⟨qty, rfl⟩
  unfold sized
  cases sizingRisk cfg with
  | none => exact hsome sig.qty
  | some riskPct =>
    cases hstop : sig.stop with
    | none => exact hnone
    | some stop =>
      refine Ensures.bind (Q := fun _ _ => True) (Ensures.any _ w) fun specs w₁ _ =>
        Ensures.bind (Q := fun _ _ => True) (Ensures.any _ w₁) fun bal w₂ _ => ?_
      rw [ensures_bind, ensures_get, post_ok]
      cases remainingBudget w₂.bot with
      | error err => exact trivial
      | ok remaining =>
        simp only
        split
        · exact hnone
        · rw [← hstop]
          exact hsome _

theorem spreadAllows_reads : Steps (MtStep (mt5 cfg) B BrokerEvent.Quiet) (spreadAllows (ε := ε) cfg) := by
  unfold spreadAllows
  cases cfg.maxSpread with
  | none => exact .pure _
  | some gate =>
    refine .bind (guarded_all (mt5 cfg).currentSpread_steps) fun quote => ?_
    cases quote with
    | none => exact .pure _
    | some quote => exact .pure _

theorem spreadAllows_steps : Steps (CallStep (mt5 cfg) B) (spreadAllows (ε := ε) cfg) :=
  (mt5 cfg).quiet_steps spreadAllows_reads

theorem verifyFill_steps (cfg : LiveConfig) (sig : Signal) (res : SendResult) :
    Steps (CallStep (mt5 cfg) B) (verifyFill (ε := ε) cfg sig res) := by
  unfold verifyFill
  split
  · simp only
    split
    · exact .bind (guarded_all ((mt5 cfg).closeAll_steps _)) fun _ => .pure _
    · exact .pure _
  · exact .pure _

theorem submit_steps {sig : Signal} {w : World (Bot ε)}
    (h : StepsFrom (CallStep (mt5 cfg) B) ((mt5 cfg).execute sig) w) :
    StepsFrom (CallStep (mt5 cfg) B) (submit cfg sig) w := by
  refine (guarded_steps h).bind fun res w' _ => ?_
  rcases res with _ | _ | res
  · exact .pure _
  · exact .pure _
  · exact verifyFill_steps cfg sig res w'

theorem exit_steps (cfg : LiveConfig) {sig : Signal} (hkind : sig.kind = .exit) :
    Steps (CallStep (mt5 cfg) B) ((mt5 cfg).execute (β := Bot ε) sig) := by
  unfold Mt5Broker.execute
  rw [hkind]
  simp only
  split
  · exact (mt5 cfg).close_steps sig
  · exact .throw _

theorem execute_steps (cfg : LiveConfig) (sig : Signal) :
    Steps (CallStep (mt5 cfg) fun _ => True) ((mt5 cfg).execute (β := Bot ε) sig) := by
  unfold Mt5Broker.execute
  cases sig.kind with
  | reject => exact .pure _
  | entry =>
    simp only
    split
    · exact fun w => ((mt5 cfg).open_steps sig w).mono fun _ _ hstep =>
        .quiet (hstep.mono (fun _ _ => trivial) fun _ h => h)
    · exact .throw _
  | exit =>
    simp only
    split
    · exact (mt5 cfg).close_steps sig
    · exact .throw _

theorem onSignal_steps (cfg : LiveConfig) (bar : Bar) (sig : Signal) :
    Steps (CallStep (mt5 cfg) fun _ => True) (onSignal (ε := ε) cfg bar sig) := by
  have hsubmit : ∀ sig, Steps (CallStep (mt5 cfg) fun _ => True) (submit (ε := ε) cfg sig) :=
    fun sig w => submit_steps (execute_steps cfg sig w)
  refine .bind (fun _ => .get) fun w => ?_
  split
  · exact .pure _
  · cases sig.kind with
    | entry =>
      refine .bind (fun _ => .get) fun w => ?_
      split
      · exact .pure _
      · refine .bind (sized_steps _) fun sized => ?_
        cases sized with
        | none => exact .pure _
        | some sig' =>
          refine .bind spreadAllows_steps fun allowed => ?_
          split
          · exact hsubmit sig'
          · exact .pure _
    | exit | reject => exact hsubmit sig

theorem submit_reject {sig : Signal} (hkind : sig.kind = .reject) (w : World (Bot ε)) :
    exec (submit cfg sig) w = (.ok ⟨⟩, w) := by
  unfold submit guarded Mt5Broker.execute
  rw [hkind]
  rfl

/-- The rule of an ENTRY, for a property `I` of the final state: `J` holds up to the order, which is sent for a
signal that the sizing leaves in `F`. -/
theorem onEntry_rule {I J : World (Bot ε) → Prop} {F : Signal → Prop} {sig : Signal} {w : World (Bot ε)}
    (hskipped : skips cfg bar w.bot sig = true → I w)
    (hsized : skips cfg bar w.bot sig = false → Ensures (sized cfg (macroScale cfg bar sig)) w fun r v =>
      J v ∧ ∀ sig', r = .ok (some sig') → F sig')
    (hspread : ∀ v, J v → Ensures (spreadAllows cfg) v fun _ u => J u) (hkeep : ∀ v, J v → I v)
    (hsubmit : ∀ sig' v, F sig' → J v → Ensures (submit cfg sig') v fun _ u => I u) :
    Ensures (onEntry cfg bar sig) w fun _ v => I v := by
  unfold onEntry
  rw [ensures_bind, ensures_get, post_ok]
  split
  · next hskips => exact hskipped hskips
  · next hskips =>
    rw [Bool.not_eq_true] at hskips
    rw [ensures_bind]
    refine (hsized hskips).mono fun r v hv => ?_
    obtain ⟨hv, hfit⟩ := hv
    rcases r with err | _ | sig'
    · exact hkeep v hv
    · exact hkeep v hv
    · refine Ensures.bind_keep (hspread v hv) hkeep fun allowed u hu => ?_
      cases allowed with
      | false => exact hkeep u hu
      | true => exact hsubmit sig' u (hfit sig' rfl) hu

theorem onSignal_cases (sig : Signal) {w : World (Bot ε)} {Q : Except Failure PUnit → World (Bot ε) → Prop}
    (hgated : w.bot.warming = true → stale sig.ts cfg.warmStart (sigGrace cfg) = true → Q (.ok ⟨⟩) w)
    (hentry : sig.kind = .entry → (w.bot.warming = true → stale sig.ts cfg.warmStart (sigGrace cfg) = false) →
      Ensures (onEntry cfg bar sig) w Q)
    (hother : sig.kind ≠ .entry → Ensures (submit cfg sig) w Q) : Ensures (onSignal cfg bar sig) w Q := by
  unfold onSignal
  rw [ensures_bind, ensures_get, post_ok]
  split
  · next hgate =>
    rw [Bool.and_eq_true] at hgate
    exact hgated hgate.1 hgate.2
  · next hgate =>
    cases hkind : sig.kind with
    | entry => exact hentry hkind fun hwarm => by simpa [hwarm] using hgate
    | exit | reject => exact hother (by rw [hkind]; decide)

theorem feed_rule {I : World (Bot ε) → Prop} {w : World (Bot ε)} (hkeep : I w)
    (hhanded : ∀ sig engine, ops.onCandle w.bot.engine bar.candle = .ok (sig, engine) → I (handed bar engine w))
    (hsignal : ∀ sig engine, ops.onCandle w.bot.engine bar.candle = .ok (some sig, engine) → I (handed bar engine w) →
      Ensures (onSignal cfg bar sig) { handed bar engine w with env := bar.atSignal, calls := 0 } fun _ v => I v) :
    Ensures (feed ops cfg bar) w fun _ v => I v := by
  unfold feed
  rw [ensures_bind, ensures_get, post_ok]
  rcases hout : ops.onCandle w.bot.engine bar.candle with err | ⟨sig, engine⟩
  · dsimp only
    split
    · exact hkeep
    · exact hkeep
  · dsimp only
    rw [ensures_bind, ensures_modify, post_ok]
    cases sig with
    | none => exact hhanded none engine hout
    | some sig =>
      dsimp only
      refine Ensures.bind_keep ?_ (fun _ hv => hv) fun _ _ hv => hv
      rw [ensures_against]
      exact hsignal sig engine hout (hhanded (some sig) engine hout)

/-! ### `on_bar` -/

theorem updateSpike_steps (bar : Bar) : Steps (LiveStep cfg B) (updateSpike (ε := ε) bar) := by
  refine .bind (fun _ => .get) fun w => ?_
  cases w.bot.spike with
  | none => exact .pure _
  | some spike => exact .bind modifyBot_steps fun _ => .pure _

theorem spikeGuard_steps : Steps (LiveStep cfg Mt5Broker.RemoveBody) (spikeGuard (ε := ε) cfg bar) := by
  refine .bind (updateSpike_steps bar) fun hit => ?_
  split
  · refine .bind (quiet_steps (mt5 cfg).hasPending_steps) fun pending => ?_
    split
    · exact .bind (guarded_all (quiet_steps ((mt5 cfg).cancelPending_steps 120))) fun _ => .pure _
    · exact .pure _
  · exact .pure _

theorem flattenAll_steps (reason : String) :
    Steps (LiveStep cfg Mt5Broker.RemoveBody) (flattenAll (ε := ε) cfg reason) := by
  refine .bind (call_steps ((mt5 cfg).closeAll_steps reason)) fun _ => ?_
  split
  · exact quiet_steps ((mt5 cfg).cancelPending_steps 0)
  · exact .pure _

theorem cachedBalance_steps : Steps (LiveStep cfg B) (cachedBalance (ε := ε)) := by
  refine .bind (fun _ => .get) fun w => ?_
  dsimp only
  split
  · exact .pure _
  · exact .bind (quiet_steps (mt5 cfg).balance_steps) fun _ => .bind modifyBot_steps fun _ => .pure _

theorem cachedPositions_steps : Steps (LiveStep cfg B) (cachedPositions (ε := ε) cfg) := by
  refine .bind (fun _ => .get) fun w => ?_
  dsimp only
  split
  · exact .pure _
  · exact .bind (quiet_steps (mt5 cfg).myPositions_steps) fun _ => .bind modifyBot_steps fun _ => .pure _

theorem cachedBalance_breaker (w : World (Bot ε)) : Ensures cachedBalance w fun _ v => v.bot.breaker = w.bot.breaker := by
  unfold cachedBalance
  rw [ensures_bind, ensures_get, post_ok]
  dsimp only
  split
  · rfl
  · unfold Mt5Broker.balance accountBalance
    rw [ensures_bind, ensures_bind, ensures_readCall, post_ok]
    cases w.reply.readOk with
    | false => rfl
    | true => rfl

theorem lossGuard_steps : Steps (LiveStep cfg Mt5Broker.RemoveBody) (lossGuard (ε := ε) cfg bar) := by
  intro w
  unfold lossGuard
  refine StepsFrom.get.bind fun w' v hget => ?_
  obtain ⟨rfl, rfl⟩ : w = w' ∧ w = v := by simpa using hget
  cases hbr : w.bot.breaker with
  | none => exact .pure _
  | some br =>
    refine (guarded_steps ((cachedBalance_steps w).bind fun bal v hread => ?_)).bind fun _ _ _ => .pure _
    have hkept : v.bot.breaker = some br := by
      have hbreaker := cachedBalance_breaker w
      unfold Ensures at hbreaker
      rw [hread] at hbreaker
      exact hbreaker.trans hbr
    have hfed : StepsFrom (LiveStep cfg Mt5Broker.RemoveBody)
        (modifyBot fun bot => { bot with breaker := some (br.update (date bar.candle.ts) bal) }) v :=
      .single (.bot v (fun bot => { bot with breaker := some (br.update (date bar.candle.ts) bal) })
        ⟨rfl, rfl, rfl, Or.inr ⟨br, _, _, hkept, rfl⟩⟩)
    refine hfed.bind fun _ v' _ => ?_
    split
    · exact flattenAll_steps _ v'
    · exact .pure _

theorem macroGuard_steps : Steps (LiveStep cfg Mt5Broker.RemoveBody) (macroGuard (ε := ε) cfg bar) := by
  unfold macroGuard
  split
  · refine .bind (fun _ => .get) fun w => ?_
    split
    · exact .bind (guarded_all (.bind modifyBot_steps fun _ => flattenAll_steps _)) fun _ => .pure _
    · exact modifyBot_steps
    · exact .pure _
  · exact .pure _

theorem guards_steps (cfg : LiveConfig) (bar : Bar) : Steps (LiveStep cfg Mt5Broker.RemoveBody) (guards (ε := ε) cfg bar) :=
  .bind spikeGuard_steps fun _ => .bind lossGuard_steps fun _ => macroGuard_steps

/-! ### The reconciliation -/

/-- A broker call, or a `force_flat` of the engine. -/
inductive SyncStep (ops : EngineOps ε) (cfg : LiveConfig) : World (Bot ε) → World (Bot ε) → Prop
  | live {w w' : World (Bot ε)} (hstep : LiveStep cfg OrderBody.Amends w w') : SyncStep ops cfg w w'
  | flat (w : World (Bot ε)) (ts : Int) :
      SyncStep ops cfg w { w with bot := { w.bot with engine := (ops.forceFlat w.bot.engine ts).2 } }

theorem sync_live {α : Type} {x : Mt5 (Bot ε) α} (h : Steps (LiveStep cfg OrderBody.Amends) x) : Steps (SyncStep ops cfg) x :=
  fun w => (h w).mono fun _ _ hstep => .live hstep

theorem amending_steps {α : Type} {x : Mt5 (Bot ε) α} (h : Steps (MtStep (mt5 cfg) B BrokerEvent.Quiet) x)
    (hB : ∀ body, B body → body.Amends) : Steps (LiveStep cfg OrderBody.Amends) x :=
  quiet_steps fun w => (h w).mono fun _ _ hstep => hstep.mono hB fun _ hev => hev

theorem forceFlat_steps : Steps (SyncStep ops cfg) (forceFlat ops bar) := fun w => .single (.flat w bar.candle.ts)

theorem act_steps (actions : List SitterAction) : Steps (LiveStep cfg OrderBody.Amends) (act (ε := ε) cfg actions) := by
  induction actions with
  | nil => exact .pure _
  | cons action rest ih =>
    cases action with
    | partialClose ticket volume =>
      exact .bind (call_steps ((mt5 cfg).closeTicket_steps ticket volume)) fun _ => ih
    | updateSl ticket sl => exact .bind (amending_steps ((mt5 cfg).modifySl_steps ticket sl) fun _ => Mt5Broker.amends_of_stop) fun _ => ih

theorem manage_steps : Steps (SyncStep ops cfg) (manage ops cfg bar) := by
  have hbook : Steps (LiveStep cfg OrderBody.Amends) (guarded (ε := ε) do
      let _ ← cachedPositions cfg
      act cfg bar.sitter) := guarded_all (.bind cachedPositions_steps fun _ => act_steps _)
  have hdrop : Steps (SyncStep ops cfg) (do
      if ops.inBreakout (← get).bot.engine then
        if !(← (mt5 cfg).hasPosition) then
          if !(← (mt5 cfg).hasPending) then forceFlat ops bar) := by
    refine .bind (fun _ => .get) fun w => ?_
    split
    · refine .bind (sync_live (quiet_steps (mt5 cfg).hasPosition_steps)) fun held => ?_
      split
      · refine .bind (sync_live (quiet_steps (mt5 cfg).hasPending_steps)) fun pending => ?_
        split
        · exact forceFlat_steps
        · exact .pure _
      · exact .pure _
    · exact .pure _
  unfold manage
  split
  · exact .bind (sync_live (guarded_all (amending_steps ((mt5 cfg).cancelExpired_steps _) fun _ => Mt5Broker.amends_of_remove))) fun _ =>
      .bind (sync_live hbook) fun _ => hdrop
  · exact .bind (sync_live hbook) fun _ => hdrop

theorem reconcile_steps : Steps (SyncStep ops cfg) (reconcile ops cfg bar) := by
  refine .bind (fun _ => .get) fun w => ?_
  split
  · refine .bind (sync_live (quiet_steps (mt5 cfg).hasPosition_steps)) fun held => ?_
    split
    · refine .bind (fun _ => .get) fun w => ?_
      split
      · exact .pure _
      · exact .bind (sync_live (guarded_all (amending_steps ((mt5 cfg).updateStop_steps _) fun _ => Mt5Broker.amends_of_stop))) fun _ => .pure _
    · exact forceFlat_steps
  · exact .pure _

theorem sync_steps : Steps (SyncStep ops cfg) (sync ops cfg bar) := by
  unfold sync
  split
  · exact manage_steps
  · exact reconcile_steps

end Live

/-! ### Invariants of the steps -/

section Invariants

variable {cfg : LiveConfig} {B : OrderBody → Prop} {m : Int} {H : Position → Prop} {w w' : World (Bot ε)}

theorem Live.sink_spec {sink : BrokerEvent → Bot ε → Bot ε} (hsink : (Live.mt5 cfg).onEvent = some sink)
    (ev : BrokerEvent) (bot : Bot ε) : ∃ c, sink ev bot = { bot with consec := c } := by
  simp only [Live.mt5, Mt5Broker.withSink] at hsink
  split at hsink
  · cases hsink
    unfold Live.consecSink
    split
    · cases ev.pnl with
      | none => exact ⟨bot.consec, rfl⟩
      | some pnl => exact ⟨_, rfl⟩
    · exact ⟨bot.consec, rfl⟩
  · cases hsink

theorem MtStep.bot {E : BrokerEvent → Prop} (hstep : MtStep (Live.mt5 cfg) B E w w') :
    ∃ c, w'.bot = { w.bot with consec := c } := by
  cases hstep with
  | notify sink ev hsink hev => exact Live.sink_spec hsink ev w.bot
  | read | send | pause => exact ⟨w.bot.consec, rfl⟩

theorem bot_of_steps {R : World (Bot ε) → World (Bot ε) → Prop} {α : Type} {x : Mt5 (Bot ε) α}
    (h : StepsFrom R x w) (hR : ∀ v v', R v v' → ∃ c, v'.bot = { v.bot with consec := c }) :
    ∃ c, (exec x w).2.bot = { w.bot with consec := c } := by
  refine h.invariant (I := fun v => ∃ c, v.bot = { w.bot with consec := c }) ?_ ⟨w.bot.consec, rfl⟩
  rintro v v' hstep ⟨c, hc⟩
  obtain ⟨c', hc'⟩ := hR v v' hstep
  exact ⟨c', by rw [hc', hc]⟩

/-- **Broker calls change nothing of the bot but the loss guard.** -/
theorem CallStep.bot (hstep : CallStep (Live.mt5 cfg) B w w') : ∃ c, w'.bot = { w.bot with consec := c } := by
  cases hstep with
  | quiet hstep => exact hstep.bot
  | closing p volume reason =>
    exact bot_of_steps ((Live.mt5 cfg).closePosition_steps p volume reason w) fun _ _ hs => hs.bot

theorem LiveStep.course (hstep : LiveStep cfg B w w') :
    w'.bot.engine = w.bot.engine ∧ w'.bot.warming = w.bot.warming := by
  cases hstep with
  | call hcall =>
    obtain ⟨c, hc⟩ := hcall.bot
    rw [hc]
    exact ⟨rfl, rfl⟩
  | bot f hsame => exact ⟨hsame.1, hsame.2.2.1⟩

theorem LiveStep.env (hstep : LiveStep cfg B w w') : w'.env = w.env := by
  cases hstep with
  | call hcall => exact hcall.env
  | bot f hsame => rfl

theorem LiveStep.holds (hstep : LiveStep cfg B w w') (hH : Server.ShrinkClosed H)
    (hB : ∀ body, B body → Server.KeptBy m H body) (h : w.server.Holds m H) : w'.server.Holds m H := by
  cases hstep with
  | call hcall => exact hcall.holds hH hB h
  | bot f hsame => exact h

end Invariants

namespace LiveState

theorem onBar_world (ops : EngineOps ε) (cfg : LiveConfig) (s : LiveState ε) (bar : Bar) :
    (s.onBar ops cfg bar).world = (exec (Live.onCandle ops cfg bar) s.world).2 := by
  unfold onBar
  rcases exec (Live.onCandle ops cfg bar) s.world with ⟨err | _, v⟩ <;> rfl

end LiveState

end FreqTrading
