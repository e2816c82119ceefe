import FreqTrading.Broker.Asked
import FreqTrading.Live.OnePosition

/-!
# Flattening at a halt

The daily-loss breaker flattens on the bar on which it turns halted, and macro risk-off on the bar on which its
latch is set. `flattens_once_per_halt` says what is attempted then, and that later bars of the same halt send
nothing. A position whose close was rejected is therefore not asked for again (`halted_position_left`).
-/

namespace FreqTrading

open Lib

variable {ε : Type}

theorem Live.env_of_exec {cfg : LiveConfig} {B : OrderBody → Prop} {α : Type} {x : Mt5 (Bot ε) α}
    {w w' : World (Bot ε)} {r : Except Failure α} (h : Steps (LiveStep cfg B) x) (hexec : exec x w = (r, w')) :
    w'.env = w.env := by
  have henv := (h w).invariant (I := fun v => v.env = w.env) (fun _ _ hstep heq => hstep.env.trans heq) rfl
  rwa [hexec] at henv

/-- The balance the breaker is fed. -/
def World.sampledBalance (w : World (Bot ε)) : ℚ :=
  match w.bot.cache.balance, w.bot.cache.refreshed with
  | some bal, true => bal
  | _, _ => w.settled.balance

namespace Live

variable (ops : EngineOps ε) (cfg : LiveConfig) (bar : Bar)

/-! ### The places of the two checks in a bar -/

/-- The bar up to the breaker's check; whether it comes to that. -/
def beforeLoss : Mt5 (Bot ε) Bool := do
  if ← feed ops cfg bar then
    modifyBot fun bot => { bot with consec := bot.consec.map (·.onPeriod (date bar.candle.ts)) }
    if (← get).bot.warming && stale bar.candle.ts cfg.warmStart barGrace then
      let _ ← updateSpike bar
      return false
    modifyBot fun bot => { bot with warming := false }
    against bar.atGuards (spikeGuard cfg bar)
    return true
  else return false

/-- The breaker's check and what follows it in the bar. -/
def fromLoss : Mt5 (Bot ε) PUnit := do
  lossGuard cfg bar
  macroGuard cfg bar
  against bar.atSync (sync ops cfg bar)

variable {ops cfg bar} {w v : World (Bot ε)}

theorem exec_fromLoss (h : exec (beforeLoss ops cfg bar) w = (.ok true, v)) :
    exec (onCandle ops cfg bar) w = exec (fromLoss ops cfg bar) v ∧ v.env = bar.atGuards := by
  unfold beforeLoss at h
  obtain ⟨fed, u, hfed, h⟩ := exec_bind_ok.mp h
  cases fed with
  | false => cases h
  | true =>
    simp only [if_true] at h
    rw [exec_bind_of (exec_modifyBot _ _), exec_bind_of (exec_get _)] at h
    split at h
    · obtain ⟨hit, u', hspike, h⟩ := exec_bind_ok.mp h
      cases h
    · next hgate =>
      rw [exec_bind_of (exec_modifyBot _ _)] at h
      obtain ⟨done, u', hspike, h⟩ := exec_bind_ok.mp h
      cases h
      rw [exec_against] at hspike
      refine ⟨?_, ?_⟩
      · unfold onCandle onBar watch guards fromLoss
        rw [exec_bind_of hfed]
        simp only [if_true, bind_assoc]
        rw [exec_bind_of (exec_modifyBot _ _), exec_bind_of (exec_get _), if_neg hgate]
        simp only [bind_assoc, pure_bind, if_true]
        rw [exec_bind_of (exec_modifyBot _ _), exec_bind, exec_against, exec_bind_of hspike]
        simp only [exec_bind]
        rcases exec (lossGuard cfg bar) v with ⟨err | _, v₁⟩
        · rfl
        · rfl
      · exact env_of_exec spikeGuard_steps hspike

/-! ### One flattening -/

variable (cfg bar)

/-- Every own position that was read, and in limit mode every own pending order, was asked for since `u`. -/
def Flattened (reason : String) (u v : World (Bot ε)) : Prop :=
  (∀ p ∈ u.settled.own cfg.broker.magic, Asked u.sent.length (Mt5Broker.CloseBody p p.volume) v) ∧
    (cfg.broker.entryMode = .limit →
      ∀ o ∈ (exec ((mt5 cfg).closeAll reason) u).2.settled.ownOrders cfg.broker.magic,
        Asked u.sent.length (fun body => body = .remove o.ticket) v)

/-- Reads succeed and there is a quote. -/
def Answering (replies : Nat → Reply) : Prop := ∀ k, (replies k).readOk = true ∧ (replies k).tick.isSome = true

variable {cfg bar}

theorem flattenAll_flattens (cfg : LiveConfig) (reason : String) (w : World (Bot ε)) (hreads : Answering w.env) :
    Ensures (flattenAll cfg reason) w (Post (fun _ v => Flattened cfg reason w v) fun _ _ => True) := by
  have hcloses : Ensures ((mt5 cfg).closeAll reason) w (Post (fun _ v =>
      (∀ p ∈ w.settled.own cfg.broker.magic, Asked w.sent.length (Mt5Broker.CloseBody p p.volume) v) ∧
        v = (exec ((mt5 cfg).closeAll reason) w).2) fun _ _ => True) := by
    have hseen : (mt5 cfg).seen w = w.settled.own cfg.broker.magic := if_pos (hreads w.calls).1
    have hall : Ensures ((mt5 cfg).closeAll reason) w (Post (fun _ v =>
        ∀ p ∈ w.settled.own cfg.broker.magic, Asked w.sent.length (Mt5Broker.CloseBody p p.volume) v) fun _ _ => True) := by
      unfold Mt5Broker.closeAll
      rw [ensures_bind, Mt5Broker.ensures_myPositions, post_ok, hseen]
      exact (mt5 cfg).closeEach_asks reason _ none le_rfl fun k => (hreads k).2
    have hself : Ensures ((mt5 cfg).closeAll reason) w fun _ v => v = (exec ((mt5 cfg).closeAll reason) w).2 := rfl
    exact hall.and_post hself
  have hgrows := Mt5Broker.grows_of_steps (mt5 cfg) ((mt5 cfg).closeAll_steps (B := fun _ => False) reason w)
  have henv : Ensures ((mt5 cfg).closeAll reason) w fun _ v => v.env = w.env :=
    ((mt5 cfg).closeAll_steps (B := fun _ => False) reason w).invariant (fun _ _ hstep heq => hstep.env.trans heq) rfl
  unfold flattenAll
  refine ((hcloses.and_post hgrows).and_post henv).bind fun _ v hv => ?_
  obtain ⟨⟨⟨hclosed, hself⟩, hgrow⟩, henv⟩ := hv
  split
  · have hreply : v.reply.readOk = true := by
      unfold World.reply
      rw [henv]
      exact (hreads v.calls).1
    have hcancels := (mt5 cfg).cancelPending_asks (w := v) hgrow.length_le hreply
    have hkeep := Mt5Broker.grows_of_steps (mt5 cfg) ((mt5 cfg).quiet_steps ((mt5 cfg).cancelPending_steps 0) v)
    refine (hcancels.and_post hkeep).weaken (fun _ v' hv' => ⟨fun p hp => (hclosed p hp).mono hv'.2, fun _ => ?_⟩)
      fun _ _ h => h
    rw [← hself]
    exact hv'.1
  · next hmode => exact ⟨hclosed, fun hlimit => absurd hlimit hmode⟩

/-! ### The breaker -/

variable (bar)

/-- The world after the breaker's update. -/
def checked (br : DailyLossBreaker) (w : World (Bot ε)) : World (Bot ε) :=
  let v := (exec cachedBalance w).2
  { v with bot := { v.bot with breaker := some (br.update (date bar.candle.ts) w.sampledBalance) } }

variable {bar}

theorem cachedBalance_spec (w : World (Bot ε)) :
    Ensures cachedBalance w (Post (fun bal v => (w.reply.readOk = true → bal = w.sampledBalance) ∧ v.sent = w.sent)
      fun _ v => w.reply.readOk = false ∧ v.sent = w.sent) := by
  have hread : w.sampledBalance = w.settled.balance → Ensures (Mt5Broker.balance >>= fun bal =>
      modifyBot (fun bot : Bot ε => { bot with cache := { bot.cache with balance := some bal } }) >>= fun _ => pure bal) w
      (Post (fun bal v => (w.reply.readOk = true → bal = w.sampledBalance) ∧ v.sent = w.sent)
        fun _ v => w.reply.readOk = false ∧ v.sent = w.sent) := by
    intro hsampled
    unfold Mt5Broker.balance accountBalance
    rw [ensures_bind, ensures_bind, ensures_readCall, post_ok]
    cases hok : w.reply.readOk with
    | false => exact ⟨rfl, rfl⟩
    | true => exact ⟨fun _ => hsampled.symm, rfl⟩
  unfold cachedBalance
  rw [ensures_bind, ensures_get, post_ok]
  dsimp only
  cases hbal : w.bot.cache.balance with
  | none => exact hread (by unfold World.sampledBalance; rw [hbal])
  | some bal =>
    cases hfresh : w.bot.cache.refreshed with
    | false => exact hread (by unfold World.sampledBalance; rw [hbal, hfresh])
    | true => exact ⟨fun _ => by unfold World.sampledBalance; rw [hbal, hfresh], rfl⟩

theorem cachedBalance_sent (w : World (Bot ε)) : Ensures cachedBalance w fun _ v => v.sent = w.sent := by
  refine (cachedBalance_spec w).mono fun r v hv => ?_
  cases r <;> exact hv.2

theorem exec_cachedBalance (hread : w.reply.readOk = true) :
    exec cachedBalance w = (.ok w.sampledBalance, (exec cachedBalance w).2) := by
  have hspec := cachedBalance_spec w
  unfold Ensures at hspec
  rcases hexec : exec cachedBalance w with ⟨err | bal, v⟩ <;> rw [hexec] at hspec
  · rw [hspec.1] at hread
    cases hread
  · rw [hspec.1 hread]

theorem lossGuard_flattens {br : DailyLossBreaker} (hbr : w.bot.breaker = some br) (hreads : Answering w.env)
    (hwas : br.halted = false) (hhalt : (br.update (date bar.candle.ts) w.sampledBalance).halted = true)
    (hok : (exec (flattenAll cfg "daily_loss_halt") (checked bar br w)).1 = .ok ⟨⟩) :
    Flattened cfg "daily_loss_halt" (checked bar br w) (exec (lossGuard cfg bar) w).2 := by
  have hbal := exec_cachedBalance (hreads w.calls).1
  have hsteps : Steps (LiveStep cfg fun _ => False) (cachedBalance (ε := ε)) := cachedBalance_steps
  have henv : (exec cachedBalance w).2.env = w.env := env_of_exec hsteps hbal
  have hall := flattenAll_flattens cfg "daily_loss_halt" (checked bar br w)
    (show Answering (exec cachedBalance w).2.env by rw [henv]; exact hreads)
  unfold Ensures at hall
  rw [hok] at hall
  have hexec : (exec (lossGuard cfg bar) w).2 = (exec (flattenAll cfg "daily_loss_halt") (checked bar br w)).2 := by
    have hturn : ((br.update (date bar.candle.ts) w.sampledBalance).halted && !br.halted) = true := by
      rw [hhalt, hwas]
      rfl
    unfold lossGuard
    rw [exec_bind_of (exec_get _), hbr]
    simp only
    rw [exec_discard, guarded_world, exec_bind_of hbal, exec_bind_of (exec_modifyBot _ _), if_pos hturn]
    rfl
  rw [hexec]
  exact hall

theorem lossGuard_once {br : DailyLossBreaker} (hbr : w.bot.breaker = some br) (hwas : br.halted = true) :
    (exec (lossGuard cfg bar) w).2.sent = w.sent := by
  unfold lossGuard
  rw [exec_bind_of (exec_get _), hbr]
  simp only
  rw [exec_discard, guarded_world]
  have hrun : Ensures (cachedBalance >>= fun bal =>
      modifyBot (fun bot : Bot ε => { bot with breaker := some (br.update (date bar.candle.ts) bal) }) >>= fun _ =>
      if ((br.update (date bar.candle.ts) bal).halted && !br.halted) = true then flattenAll cfg "daily_loss_halt"
      else pure ⟨⟩) w fun _ v => v.sent = w.sent := by
    refine Ensures.bind_keep (cachedBalance_sent w) (fun _ h => h) fun bal v hv => ?_
    simp only [hwas, Bool.not_true, Bool.and_false, Bool.false_eq_true, if_false]
    exact hv
  exact hrun

/-! ### Macro risk-off -/

/-- The world with the risk-off latch set. -/
def latched (w : World (Bot ε)) : World (Bot ε) := { w with bot := { w.bot with riskOff := true } }

theorem macroGuard_flattens {reason : String} (hmode : cfg.macroMode = .guard) (hnow : bar.riskOffNow = some reason)
    (hreads : Answering w.env) (hwas : w.bot.riskOff = false)
    (hok : (exec (flattenAll cfg ("macro_risk_off:" ++ reason)) (latched w)).1 = .ok ⟨⟩) :
    Flattened cfg ("macro_risk_off:" ++ reason) (latched w) (exec (macroGuard cfg bar) w).2 := by
  have hall := flattenAll_flattens cfg ("macro_risk_off:" ++ reason) (latched w) hreads
  unfold Ensures at hall
  rw [hok] at hall
  have hexec : (exec (macroGuard cfg bar) w).2 =
      (exec (flattenAll cfg ("macro_risk_off:" ++ reason)) (latched w)).2 := by
    unfold macroGuard
    rw [if_pos hmode, exec_bind_of (exec_get _), hnow, hwas]
    simp only
    rw [exec_discard, guarded_world, exec_bind_of (exec_modifyBot _ _)]
    rfl
  rw [hexec]
  exact hall

theorem macroGuard_once (hwas : w.bot.riskOff = true) : (exec (macroGuard cfg bar) w).2.sent = w.sent := by
  unfold macroGuard
  split
  · rw [exec_bind_of (exec_get _), hwas]
    cases bar.riskOffNow <;> rfl
  · rfl

end Live

namespace LiveState

variable (ops : EngineOps ε) (cfg : LiveConfig)

/-- What the breaker's check and the macro check of a bar do, from a world in which they start. -/
structure FlattensOnce (bar : Bar) (v : World (Bot ε)) : Prop where
  loss : ∀ br, v.bot.breaker = some br → br.halted = false →
    (br.update (date bar.candle.ts) v.sampledBalance).halted = true →
    (exec (Live.flattenAll cfg "daily_loss_halt") (Live.checked bar br v)).1 = .ok ⟨⟩ →
    Live.Flattened cfg "daily_loss_halt" (Live.checked bar br v) (exec (Live.lossGuard cfg bar) v).2
  lossOnce : ∀ br, v.bot.breaker = some br → br.halted = true → (exec (Live.lossGuard cfg bar) v).2.sent = v.sent
  macro' : ∀ x reason, exec (Live.lossGuard cfg bar) v = (.ok ⟨⟩, x) → cfg.macroMode = .guard → x.bot.riskOff = false →
    bar.riskOffNow = some reason →
    (exec (Live.flattenAll cfg ("macro_risk_off:" ++ reason)) (Live.latched x)).1 = .ok ⟨⟩ →
    Live.Flattened cfg ("macro_risk_off:" ++ reason) (Live.latched x) (exec (Live.macroGuard cfg bar) x).2
  macroOnce : ∀ x, exec (Live.lossGuard cfg bar) v = (.ok ⟨⟩, x) → x.bot.riskOff = true →
    (exec (Live.macroGuard cfg bar) x).2.sent = x.sent

/-- **One flattening per halt.** On a bar of a run that comes to the guards, and on which reads succeed and
quotes are there: when the breaker turns halted, or the risk-off latch is set, every own position and in limit
mode every own pending order is asked for, if no request of the flattening is rejected for good; while the
breaker stays halted and the latch set, nothing is sent. -/
theorem flattens_once_per_halt (engine : ε) (server : Server) (inputs : List LiveInput) (bar : Bar)
    (hreads : Live.Answering bar.atGuards) {v : World (Bot ε)}
    (hreach : exec (Live.beforeLoss ops cfg bar) (run (step ops cfg) (start cfg engine server) inputs).world =
      (.ok true, v)) :
    exec (Live.onCandle ops cfg bar) (run (step ops cfg) (start cfg engine server) inputs).world =
        exec (Live.fromLoss ops cfg bar) v ∧ FlattensOnce cfg bar v := by
  obtain ⟨hbar, henv⟩ := Live.exec_fromLoss hreach
  have hanswers : Live.Answering v.env := by rw [henv]; exact hreads
  refine ⟨hbar, ?_, ?_, ?_, ?_⟩
  · exact fun br hbr hwas hhalt hok => Live.lossGuard_flattens hbr hanswers hwas hhalt hok
  · exact fun br hbr hwas => Live.lossGuard_once hbr hwas
  · intro x reason hloss hmode hwas hnow hok
    refine Live.macroGuard_flattens hmode hnow ?_ hwas hok
    rw [Live.env_of_exec Live.lossGuard_steps hloss]
    exact hanswers
  · exact fun x _ hwas => Live.macroGuard_once hwas

/-! ### A day that loses 200 -/

/-- A daily cap of 150. -/
def lossConfig : LiveConfig := { LiveConfig.default with maxDailyLoss := some ⟨150, by norm_num⟩ }

/-- A range and an ENTRY; then the balance falls by 200. -/
def losingDay : List LiveInput :=
  [answered (EngineRun.minuteBar 0 2000 2001 1999 2000) (quoting 2005 accepted),
    answered (EngineRun.minuteBar 1 2002 2006 2001 2005) (quoting 2005 accepted), .idle [.adjusted (-200)]]

/-- A bar on which the engine does nothing. -/
def quietBar (m : Int) (send : SendReply) : Bar where
  candle := EngineRun.minuteBar m 2005 2006 2004 2005
  atSignal := fun _ => quoting 2005 send
  atGuards := fun _ => quoting 2005 send
  atSync := fun _ => quoting 2005 send

def onLosingDay (later : List LiveInput) : LiveState OrbEngine :=
  run (step (orbOps EngineRun.gapConfig) lossConfig)
    (start lossConfig (OrbEngine.init EngineRun.gapConfig) { balance := 1000 }) (losingDay ++ later)

/-- The world in which the breaker's check of the next bar starts. -/
def atLossCheck : World (Bot OrbEngine) :=
  (exec (Live.beforeLoss (orbOps EngineRun.gapConfig) lossConfig (quietBar 2 accepted)) (onLosingDay []).world).2

/-- The breaker turns halted, and the position is asked for. -/
theorem halted_position_asked : ∃ br, atLossCheck.bot.breaker = some br ∧
    (Live.checked (quietBar 2 accepted) br atLossCheck).settled.own 20260610 ≠ [] ∧
    Live.Flattened lossConfig "daily_loss_halt" (Live.checked (quietBar 2 accepted) br atLossCheck)
      (exec (Live.lossGuard lossConfig (quietBar 2 accepted)) atLossCheck).2 := by
  refine ⟨atLossCheck.bot.breaker.get (by decide +kernel), (Option.some_get _).symm, by decide +kernel, ?_⟩
  refine (flattens_once_per_halt (orbOps EngineRun.gapConfig) lossConfig (OrbEngine.init EngineRun.gapConfig)
    { balance := 1000 } (losingDay ++ []) (quietBar 2 accepted) (fun _ => ⟨rfl, rfl⟩) (v := atLossCheck)
    (Prod.ext (by decide +kernel) rfl)).2.loss _ (Option.some_get _).symm (by decide +kernel) (by decide +kernel)
    (by decide +kernel)

/-- The breaker is halted after a bar. -/
def Halted (s : LiveState OrbEngine) : Bool := s.world.bot.breaker.any (·.halted)

/-- While the breaker is halted, each own position held over the bar is asked for on it. -/
def AsksWhileHalted (m : Int) (s s' : LiveState OrbEngine) : Prop :=
  s'.Halted = true → ∀ p ∈ s.world.server.own m, p.ticket ∈ (s'.world.server.own m).map (·.ticket) →
    Asked s.world.sent.length (Mt5Broker.CloseBody p p.volume) s'.world

instance (m : Int) (s s' : LiveState OrbEngine) : Decidable (AsksWhileHalted m s s') :=
  inferInstanceAs (Decidable (_ → _))

/-- The close of the halting bar is rejected: the next bar, still halted, asks for nothing. -/
theorem halted_position_left : ¬ AsksWhileHalted 20260610 (onLosingDay [.bar (quietBar 2 rejected)])
    (onLosingDay [.bar (quietBar 2 rejected), .bar (quietBar 3 accepted)]) := by
  decide +kernel

end LiveState

end FreqTrading
