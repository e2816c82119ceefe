import FreqTrading.Lib.Run
import FreqTrading.Riskguard
import FreqTrading.Execguard
import FreqTrading.Sizing
import FreqTrading.Engine.Basic
import FreqTrading.Broker.Mt5
import FreqTrading.Exits.Babysitter

/-!
# The live loop

`cmd_live` of `orb/cli.py` with an MT5 broker: `CandleStream.run` feeds a candle to the engine, hands an
emitted signal to `on_signal` and then calls `on_bar`. The engine is a parameter (the loop drives the ORB,
SVP and SMC engines alike). An input of a bar stands for what other modules decide on it: the true-open and
quarter filters, the macro guard and the position sitter. `BrokerStateCache` is refreshed between bars.

The replies of the terminal to the calls of one part of a bar (`on_signal`, the guards of `on_bar`, its
reconciliation) are numbered from 0. An exception that nothing catches stops the loop. The UTC day is the
day of the bar. What is only printed, and the other sinks of the event hub, are left out.
-/

namespace FreqTrading

open Lib

/-! ### Configuration -/

inductive MacroMode
  | off | shadow | filter | guard
  deriving DecidableEq, Repr

/-- The arguments of `live` after the checks of its start. -/
structure LiveConfig where
  broker : Mt5Broker Unit := {}
  /-- `risk_pct` of the SVP or SMC strategy; `none` for ORB. -/
  structural : Option ℚ := none
  /-- `trigger_tf_min` of the SMC strategy. -/
  smcTrigger : Option Int := none
  riskPct : Option ℚ := none
  maxDailyLoss : Option { x : ℚ // 0 < x } := none
  maxConsecLosses : Int := 0
  spikeCancel : Option { x : ℚ // 1 < x } := none
  killzones : Option SessionGate := none
  maxSpread : Option SpreadGate := none
  macroMode : MacroMode := .off
  maxSlippage : Option ℚ := none
  rrFloor : Option ℚ := none
  /-- `--slippage-policy close`. -/
  slippageClose : Bool := false
  /-- Minutes; 0 is never. -/
  limitTtl : ℚ := 30
  warmupGate : Bool := false
  warmStart : Int := 0
  /-- A trade log or a broadcast is configured. -/
  otherSinks : Bool := false
  /-- `connect` succeeded. -/
  connected : broker.connected = true := by decide
  /-- SVP and SMC trade in market mode. -/
  structural_market : structural.isSome = true → broker.entryMode = .market := by decide

/-- The flags as they are when none is given. -/
def LiveConfig.default : LiveConfig := {}

/-- The adapter with another event sink. -/
def Mt5Broker.withSink {α β : Type} (b : Mt5Broker α) (sink : Option (BrokerEvent → β → β)) : Mt5Broker β where
  symbol := b.symbol
  defaultQty := b.defaultQty
  magic := b.magic
  deviation := b.deviation
  serverTp := b.serverTp
  entryMode := b.entryMode
  addonFrac := b.addonFrac
  onEvent := sink
  retry := b.retry
  connected := b.connected

/-- What the loop calls of an engine. -/
structure EngineOps (ε : Type) where
  onCandle : ε → RawCandle → Except EngineError (Option Signal × ε)
  forceFlat : ε → Int → Option Signal × ε
  inBreakout : ε → Bool
  /-- The stop of the position, if there is one. -/
  stop : ε → Option ℚ

def orbOps (cfg : OrbConfig) : EngineOps OrbEngine where
  onCandle e raw := e.onCandle cfg raw
  forceFlat e ts := e.forceFlat cfg ts
  inBreakout e := e.state = .breakout
  stop e := e.pos.map (·.stop)

/-! ### The bot -/

/-- `BrokerStateCache`. `refreshed` is `_updated_at is not None`: every caller leaves `max_age` at `None`. -/
structure BrokerStateCache where
  balance : Option ℚ := none
  positions : Option (List Position) := none
  refreshed : Bool := false
  deriving DecidableEq, Repr

/-- The state of the loop beside the terminal. -/
structure Bot (ε : Type) where
  engine : ε
  breaker : Option DailyLossBreaker := none
  consec : Option ConsecutiveLossGuard := none
  spike : Option SpikeCancel := none
  /-- The risk-off latch. -/
  riskOff : Bool := false
  /-- The warm-up gate is on. -/
  warming : Bool := false
  cache : BrokerStateCache := {}

/-- What the macro guard decides about an ENTRY. -/
inductive MacroDecision
  | veto
  | allow (qty : Option ℚ)
  deriving DecidableEq, Repr

/-- A candle with the decisions of the other modules on it, and the replies of the terminal. -/
structure Bar where
  candle : RawCandle
  deadZone : Bool := false
  quarterAllows : Bool := true
  macroDecision : MacroDecision := .allow none
  /-- `risk_off_now`: the reason, if it is. -/
  riskOffNow : Option String := none
  sitter : List SitterAction := []
  atSignal : Nat → Reply
  atGuards : Nat → Reply
  atSync : Nat → Reply

namespace Live

variable {ε : Type} (ops : EngineOps ε) (cfg : LiveConfig) (bar : Bar)

/-- `_consec_sink`. -/
def consecSink (ev : BrokerEvent) (bot : Bot ε) : Bot ε :=
  if ev.action = .close ∨ ev.action = .partialClose then
    match ev.pnl with
    | some pnl => { bot with consec := bot.consec.map (·.record pnl) }
    | none => bot
  else bot

/-- The adapter of the loop, with the event hub if anything listens. -/
def mt5 : Mt5Broker (Bot ε) :=
  cfg.broker.withSink (if cfg.otherSinks ∨ cfg.maxConsecLosses ≠ 0 then some consecSink else none)

def start (engine : ε) : Bot ε where
  engine := engine
  breaker := cfg.maxDailyLoss.map fun cap =>
    { cap := { flat := some cap.1, given := Or.inl rfl, flat_pos := by simpa using cap.2, pct_pos := DailyCap.none_pos } }
  consec := if cfg.maxConsecLosses ≠ 0 then some { maxConsecutive := cfg.maxConsecLosses } else none
  spike := cfg.spikeCancel.map fun ratio => { ratio := ratio.1, ratio_gt := ratio.2 }
  warming := cfg.warmupGate

/-! ### Small steps of the loop -/

def modifyBot (f : Bot ε → Bot ε) : Mt5 (Bot ε) PUnit := modify fun w => { w with bot := f w.bot }

/-- Run a part of a bar against its own replies. -/
def against {α : Type} (replies : Nat → Reply) (x : Mt5 (Bot ε) α) : Mt5 (Bot ε) α := do
  modify fun w => { w with env := replies, calls := 0 }
  x

/-- `except OrbError`: the result, or nothing. -/
def guarded {α : Type} (x : Mt5 (Bot ε) α) : Mt5 (Bot ε) (Option α) :=
  tryCatch (do
    let a ← x
    return some a) fun
    | .broker _ => return none
    | .other => throw .other

/-- `state.balance()`. -/
def cachedBalance : Mt5 (Bot ε) ℚ := do
  let cache := (← get).bot.cache
  match cache.balance, cache.refreshed with
  | some bal, true => return bal
  | _, _ => do
    let bal ← Mt5Broker.balance
    modifyBot fun bot => { bot with cache := { bot.cache with balance := some bal } }
    return bal

/-- `state.positions()`. -/
def cachedPositions : Mt5 (Bot ε) (List Position) := do
  let cache := (← get).bot.cache
  match cache.positions, cache.refreshed with
  | some ps, true => return ps
  | _, _ => do
    let ps ← (mt5 cfg).myPositions
    modifyBot fun bot => { bot with cache := { bot.cache with positions := some ps } }
    return ps

/-! ### `on_signal` -/

/-- `_stale`. -/
def stale (ts start grace : Int) : Bool := ts < start - grace

def barGrace : Int := 3 * minuteMicros

def sigGrace : Int := (cfg.smcTrigger.getD 1 + 2) * minuteMicros

/-- An ENTRY is skipped by a guard or a filter. -/
def skips (bot : Bot ε) (sig : Signal) : Bool :=
  bot.breaker.any (·.halted) || bot.consec.any (·.blocked) || bar.deadZone || !bar.quarterAllows ||
    cfg.killzones.any (fun gate => !gate.allows sig.ts) ||
    ((cfg.macroMode = .filter ∨ cfg.macroMode = .guard) && bar.macroDecision = .veto)

/-- The macro guard's quantity, where it differs from the signal's. -/
def macroScale (sig : Signal) : Signal :=
  match bar.macroDecision, sig.qty with
  | .allow (some qty), some own =>
    if (cfg.macroMode = .filter ∨ cfg.macroMode = .guard) ∧ 1 / 1000000000 < |qty - own| then
      { sig with qty := some qty }
    else sig
  | _, _ => sig

/-- The risk of a sized ENTRY, in percent of the balance. -/
def sizingRisk : Option ℚ := cfg.structural.or cfg.riskPct

/-- The remaining daily budget, if a breaker is on. Without a flat cap it would be a `TypeError`. -/
def remainingBudget (bot : Bot ε) : Except Failure (Option ℚ) :=
  match bot.breaker with
  | none => .ok none
  | some br =>
    match br.cap.flat with
    | none => .error .other
    | some cap => .ok (some (max 0 (cap + br.dayPnl)))

/-- The ENTRY with its lot, or nothing if it is skipped. -/
def sized (sig : Signal) : Mt5 (Bot ε) (Option Signal) :=
  match sizingRisk cfg with
  | none => return some sig
  | some riskPct =>
    match sig.stop with
    | none => return none
    | some stop => do
      let specs ← (mt5 cfg).symbolSpecs
      let bal ← Mt5Broker.balance
      match remainingBudget (← get).bot with
      | .error err => throw err
      | .ok remaining =>
        let lot := computeLot bal riskPct sig.price stop specs.valuePerMove specs.volumeMin specs.volumeStep
          specs.volumeMax remaining
        if lot ≤ 0 then return none
        return some { sig with qty := some lot }

/-- The spread gate, on the freshest tick. -/
def spreadAllows : Mt5 (Bot ε) Bool :=
  match cfg.maxSpread with
  | none => return true
  | some gate => do
    match ← guarded (mt5 cfg).currentSpread with
    | none => return false
    | some (bid, ask) => return gate.allows bid ask

/-- The check of a market fill against the signal's levels. -/
def verifyFill (sig : Signal) (res : SendResult) : Mt5 (Bot ε) PUnit := do
  if sig.kind = .entry ∧ cfg.broker.entryMode = .market ∧ res.price ≠ 0 ∧
      (cfg.maxSlippage.isSome ∨ cfg.rrFloor.isSome) then
    let fa := assessFill sig.price res.price sig.stop sig.tp cfg.maxSlippage cfg.rrFloor
    if (fa.breach || fa.degraded) && cfg.slippageClose then
      let _ ← guarded ((mt5 cfg).closeAll "slippage_abort")

/-- The order of a signal, and the check of its fill. `BrokerError` is only reported. -/
def submit (sig : Signal) : Mt5 (Bot ε) PUnit := do
  match ← guarded ((mt5 cfg).execute sig) with
  | some (some res) => verifyFill cfg sig res
  | _ => return

def onEntry (sig : Signal) : Mt5 (Bot ε) PUnit := do
  if skips cfg bar (← get).bot sig then return
  match ← sized cfg (macroScale cfg bar sig) with
  | none => return
  | some sig => do
    if ← spreadAllows cfg then submit cfg sig

def onSignal (sig : Signal) : Mt5 (Bot ε) PUnit := do
  if (← get).bot.warming && stale sig.ts cfg.warmStart (sigGrace cfg) then return
  match sig.kind with
  | .entry => onEntry cfg bar sig
  | _ => submit cfg sig

/-! ### `on_bar` -/

def updateSpike : Mt5 (Bot ε) Bool := do
  match (← get).bot.spike with
  | none => return false
  | some spike => do
    let (hit, spike) := spike.update (bar.candle.high.getD 0) (bar.candle.low.getD 0)
    modifyBot fun bot => { bot with spike := some spike }
    return hit

def spikeGuard : Mt5 (Bot ε) PUnit := do
  if ← updateSpike bar then
    if ← (mt5 cfg).hasPending then
      let _ ← guarded ((mt5 cfg).cancelPending 120)

/-- Close every own position and, in limit mode, cancel every own order. -/
def flattenAll (reason : String) : Mt5 (Bot ε) PUnit := do
  let _ ← (mt5 cfg).closeAll reason
  if cfg.broker.entryMode = .limit then (mt5 cfg).cancelPending 0

/-- The breaker: it flattens when it turns halted. -/
def lossGuard : Mt5 (Bot ε) PUnit := do
  match (← get).bot.breaker with
  | none => return
  | some br => do
    let _ ← guarded do
      let bal ← cachedBalance
      let br' := br.update (date bar.candle.ts) bal
      modifyBot fun bot => { bot with breaker := some br' }
      if br'.halted && !br.halted then flattenAll cfg "daily_loss_halt"

/-- Macro risk-off: it flattens when the latch is set. -/
def macroGuard : Mt5 (Bot ε) PUnit := do
  if cfg.macroMode = .guard then
    match bar.riskOffNow, (← get).bot.riskOff with
    | some reason, false => do
      let _ ← guarded do
        modifyBot fun bot => { bot with riskOff := true }
        flattenAll cfg ("macro_risk_off:" ++ reason)
    | none, true => modifyBot fun bot => { bot with riskOff := false }
    | _, _ => return

def guards : Mt5 (Bot ε) PUnit := do
  spikeGuard cfg bar
  lossGuard cfg bar
  macroGuard cfg bar

/-- `engine.force_flat(c.ts)`. -/
def forceFlat : Mt5 (Bot ε) PUnit :=
  modifyBot fun bot => { bot with engine := (ops.forceFlat bot.engine bar.candle.ts).2 }

/-- `int(x)`. -/
def truncate (x : ℚ) : Int := if 0 ≤ x then ⌊x⌋ else ⌈x⌉

def act : List SitterAction → Mt5 (Bot ε) PUnit
  | [] => return
  | .partialClose ticket volume :: rest => do
    let _ ← (mt5 cfg).closeTicket ticket volume
    act rest
  | .updateSl ticket sl :: rest => do
    let _ ← (mt5 cfg).modifySl ticket sl
    act rest

/-- The position management of limit mode and of the structural strategies. -/
def manage : Mt5 (Bot ε) PUnit := do
  if cfg.broker.entryMode = .limit ∧ cfg.limitTtl ≠ 0 then
    let _ ← guarded ((mt5 cfg).cancelExpired (truncate (cfg.limitTtl * 60)))
  let _ ← guarded do
    let _ ← cachedPositions cfg
    act cfg bar.sitter
  if ops.inBreakout (← get).bot.engine then
    if !(← (mt5 cfg).hasPosition) then
      if !(← (mt5 cfg).hasPending) then forceFlat ops bar

/-- ORB market mode: drop a position the server has closed, else push the engine's stop to the server. -/
def reconcile : Mt5 (Bot ε) PUnit := do
  if ops.inBreakout (← get).bot.engine then
    if ← (mt5 cfg).hasPosition then
      match ops.stop (← get).bot.engine with
      | none => return
      | some stop => do
        let _ ← guarded ((mt5 cfg).updateStop stop)
    else forceFlat ops bar

def sync : Mt5 (Bot ε) PUnit :=
  if cfg.broker.entryMode = .limit ∨ cfg.structural.isSome then manage ops cfg bar else reconcile ops cfg bar

/-- `on_bar` up to the reconciliation; whether it goes on to it. -/
def watch : Mt5 (Bot ε) Bool := do
  modifyBot fun bot => { bot with consec := bot.consec.map (·.onPeriod (date bar.candle.ts)) }
  if (← get).bot.warming && stale bar.candle.ts cfg.warmStart barGrace then
    let _ ← updateSpike bar
    return false
  modifyBot fun bot => { bot with warming := false }
  against bar.atGuards (guards cfg bar)
  return true

def onBar : Mt5 (Bot ε) PUnit := do
  if ← watch cfg bar then against bar.atSync (sync ops cfg bar)

/-! ### The loop -/

/-- The engine's part of a candle, and `on_signal`. A data error skips the bar. -/
def feed : Mt5 (Bot ε) Bool := do
  match ops.onCandle (← get).bot.engine bar.candle with
  | .error err => if err.isData then return false else throw .other
  | .ok (sig, engine) => do
    modify fun w => { w with
      bot := { w.bot with engine := engine }
      server := { w.server with day := date bar.candle.ts } }
    match sig with
    | none => return true
    | some sig => do
      against bar.atSignal (onSignal cfg bar sig)
      return true

/-- One candle of `CandleStream.run`. -/
def onCandle : Mt5 (Bot ε) PUnit := do
  if ← feed ops cfg bar then onBar ops cfg bar

/-- A candle up to the reconciliation; whether it goes on to it. -/
def beforeSync : Mt5 (Bot ε) Bool := do
  if ← feed ops cfg bar then watch cfg bar else return false

theorem exec_onCandle (w : World (Bot ε)) :
    exec (onCandle ops cfg bar) w =
      match exec (beforeSync ops cfg bar) w with
      | (.ok true, w') => exec (sync ops cfg bar) { w' with env := bar.atSync, calls := 0 }
      | (.ok false, w') => (.ok ⟨⟩, w')
      | (.error err, w') => (.error err, w') := by
  simp only [onCandle, onBar, beforeSync, exec_bind]
  rcases exec (feed ops cfg bar) w with ⟨err | fed, w'⟩
  · rfl
  · cases fed with
    | false => rfl
    | true =>
      simp only [if_true, exec_bind]
      rcases exec (watch cfg bar) w' with ⟨err | due, w''⟩
      · rfl
      · cases due <;> rfl

end Live

/-- What happens to the loop from outside: a bar, a refresh of the cache with a snapshot that was read off the
loop at some earlier moment, or time in which only the server acts. -/
inductive LiveInput
  | bar (bar : Bar)
  | refresh (balance : ℚ) (positions : List Position)
  | idle (events : List ServerEvent)

structure LiveState (ε : Type) where
  world : World (Bot ε)
  /-- An exception ended the loop. -/
  stopped : Bool := false

namespace LiveState

variable {ε : Type}

def onBar (ops : EngineOps ε) (cfg : LiveConfig) (s : LiveState ε) (bar : Bar) : LiveState ε :=
  match exec (Live.onCandle ops cfg bar) s.world with
  | (.ok _, w) => { world := w }
  | (.error _, w) => { world := w, stopped := true }

def step (ops : EngineOps ε) (cfg : LiveConfig) (s : LiveState ε) (input : LiveInput) : LiveState ε :=
  if s.stopped then s else
  match input with
  | .bar bar => s.onBar ops cfg bar
  | .refresh balance positions =>
    { s with world := { s.world with bot := { s.world.bot with
        cache := { balance := some balance, positions := some positions, refreshed := true } } } }
  | .idle events => { s with world := { s.world with server := s.world.server.applyEvents events } }

/-- The loop before its first bar. -/
def start (cfg : LiveConfig) (engine : ε) (server : Server) : LiveState ε where
  world := { server := server, env := fun _ => {}, bot := Live.start cfg engine }

end LiveState

end FreqTrading
