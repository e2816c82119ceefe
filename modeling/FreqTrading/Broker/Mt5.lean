import FreqTrading.Lib.FloatText
import FreqTrading.Lib.Repr
import FreqTrading.Broker.Retcodes
import FreqTrading.Broker.Terminal

/-!
# The MetaTrader 5 adapter

`Mt5Broker` of `orb/broker/mt5.py`, method by method, as programs on the terminal. `BrokerError` is the
exception with a text; the one place that raises something else (`_close_position` with no quote) raises
`other`. The `on_event` hook is a function on the bot. Logging, the tally of retcodes and the account number
of an event are left out.
-/

namespace FreqTrading

open Lib

/-- `PRICE_DP` rounding. -/
def roundPrice (x : ℚ) : ℚ := roundPlaces 8 x

/-- `SL_TOLERANCE`. -/
def slTolerance : ℚ := 1 / 1000000

/-- `VOLUME_LADDER`. -/
def volumeLadder : List ℚ := [2 / 100, 1 / 100]

inductive EntryMode
  | market | limit
  deriving DecidableEq, Repr

/-- The dict a successful `_send` returns. -/
structure SendResult where
  retcode : Int
  order : Nat
  deal : Nat
  price : ℚ
  volume : ℚ
  deriving DecidableEq, Repr

inductive TradeAction
  | open' | openPending | modifySl | partialClose | close | cancelPending
  deriving DecidableEq, Repr

/-- What a sink reads of the event given to `on_event`. -/
structure BrokerEvent where
  action : TradeAction
  reason : Option String
  pnl : Option ℚ := none
  deriving DecidableEq, Repr

structure Mt5Broker (β : Type) where
  symbol : String := "XAUUSD.ecn"
  defaultQty : ℚ := 1 / 100
  magic : Int := 20260610
  deviation : Int := 20
  serverTp : Bool := true
  entryMode : EntryMode := .market
  addonFrac : ℚ := 8 / 10
  onEvent : Option (BrokerEvent → β → β) := none
  retry : Option RetryPolicy := none
  connected : Bool := true

/-! ### Texts -/

def Filling.code : Filling → String
  | .fok => "0"
  | .ioc => "1"
  | .ret => "2"

def orderType : Direction → String
  | .long => "0"
  | .short => "1"

def limitType : Direction → String
  | .long => "2"
  | .short => "3"

/-- The items of the request dict, in the order the code writes them. -/
def OrderBody.items (symbol : String) : OrderBody → List (String × String)
  | .entry dir volume price sl tp deviation magic comment =>
    [("action", "1"), ("symbol", pyRepr symbol), ("volume", pyFloat volume), ("type", orderType dir),
     ("price", pyFloat price), ("sl", pyFloat sl), ("tp", pyFloat tp), ("deviation", toString deviation),
     ("magic", toString magic), ("comment", pyRepr comment), ("type_time", "0")]
  | .close dir volume position price deviation magic comment =>
    [("action", "1"), ("symbol", pyRepr symbol), ("volume", pyFloat volume), ("type", orderType dir),
     ("position", toString position), ("price", pyFloat price), ("deviation", toString deviation),
     ("magic", toString magic), ("comment", pyRepr comment), ("type_time", "0")]
  | .pending dir volume price sl tp magic comment =>
    [("action", "5"), ("symbol", pyRepr symbol), ("volume", pyFloat volume), ("type", limitType dir),
     ("price", pyFloat price), ("sl", pyFloat sl), ("tp", pyFloat tp), ("magic", toString magic),
     ("comment", pyRepr comment), ("type_time", "0")]
  | .sltp position sl tp =>
    [("action", "6"), ("symbol", pyRepr symbol), ("position", toString position), ("sl", pyFloat sl),
     ("tp", pyFloat tp)]
  | .remove order => [("action", "8"), ("order", toString order)]

/-- `str` of the request dict. -/
def OrderRequest.text (symbol : String) (r : OrderRequest) : String :=
  let filling := match r.filling with
    | none => []
    | some f => [("type_filling", f.code)]
  let items := (r.body.items symbol ++ filling).map fun (key, value) => "'" ++ key ++ "': " ++ value
  "\x7b" ++ ", ".intercalate items ++ "\x7d"

def rejectedText (symbol : String) (res : OrderResult) (request : OrderRequest) : String :=
  "order rejected retcode=" ++ toString res.retcode ++ " comment=" ++ pyRepr res.comment ++
    " request=" ++ request.text symbol

namespace Mt5Broker

variable {β : Type} (b : Mt5Broker β)

def brokerError {α : Type} (text : String) : Mt5 β α := throw (.broker text)

/-- `_emit`. -/
def emit (ev : BrokerEvent) : Mt5 β PUnit :=
  match b.onEvent with
  | none => pure ⟨⟩
  | some sink => modify fun w => { w with bot := sink ev w.bot }

/-- `pol.sleep_fn`. -/
def sleep (delay : ℚ) : Mt5 β PUnit := modify fun w => { w with slept := w.slept ++ [delay] }

/-! ### Reads -/

def myPositions : Mt5 β (List Position) := do
  return (← positionsGet).filter (·.magic = b.magic)

def hasPosition : Mt5 β Bool := do
  return !(← b.myPositions).isEmpty

def hasPending : Mt5 β Bool := do
  return (← ordersGet).any (·.magic = b.magic)

def balance : Mt5 β ℚ := do
  match ← accountBalance with
  | none => brokerError "account_info returned None"
  | some x => return x

structure Specs where
  valuePerMove : ℚ
  volumeMin : ℚ
  volumeStep : ℚ
  volumeMax : ℚ
  deriving DecidableEq, Repr

/-- `x or default`. -/
def orElse (x default : ℚ) : ℚ := if x = 0 then default else x

def symbolSpecs : Mt5 β Specs := do
  match ← symbolInfo with
  | none => brokerError ("symbol_info(" ++ b.symbol ++ ") returned None")
  | some info =>
    return { valuePerMove := if info.tradeTickSize = 0 then 0 else info.tradeTickValue / info.tradeTickSize
             volumeMin := orElse info.volumeMin (1 / 100)
             volumeStep := orElse info.volumeStep (1 / 100)
             volumeMax := orElse info.volumeMax 100 }

def noTick {α : Type} : Mt5 β α := do
  let err ← lastError
  brokerError ("no tick for " ++ b.symbol ++ ": " ++ err)

/-- `current_spread`: bid, ask. -/
def currentSpread : Mt5 β (ℚ × ℚ) := do
  match ← symbolInfoTick with
  | none => b.noTick
  | some tick => return (tick.bid, tick.ask)

/-- `deal_profit`: the profit of the deal, or of the first deal found, or nothing. -/
def dealProfit (deal : Nat) : Mt5 β (Option ℚ) := do
  if deal = 0 then return none
  let deals ← historyDealsGet
  match deals.find? (·.1 = deal) with
  | some d => return some d.2
  | none => return deals.head?.map (·.2)

def filling : Mt5 β Filling := do
  let flags := match ← symbolInfo with
    | some info => info.fillingMode
    | none => 0
  if flags &&& 2 ≠ 0 then return .ioc
  if flags &&& 1 ≠ 0 then return .fok
  return .ret

/-- The volume step of `_round_volume`. -/
def stepOf : Option SymbolInfo → ℚ
  | some info => orElse info.volumeStep (1 / 100)
  | none => 1 / 100

/-- Snap a lot size to a volume step. -/
def snapVolume (step qty : ℚ) : ℚ := roundPrice (roundEven (qty / step + 1 / 1000000000) * step)

/-- `_round_volume`. -/
def roundVolume (qty : ℚ) : Mt5 β ℚ := do
  let info ← symbolInfo
  return snapVolume (stepOf info) qty

/-! ### Sending -/

/-- `_raise_send_error`. -/
def raiseSendError {α : Type} (res : Option OrderResult) (request : OrderRequest) : Mt5 β α :=
  match res with
  | none => do
    let err ← lastError
    brokerError ("order_send returned None: " ++ err)
  | some r => brokerError (rejectedText b.symbol r request)

def doneResult (r : OrderResult) : SendResult := ⟨r.retcode, r.order, r.deal, r.price, r.volume⟩

/-- `_recovered_entry`: a position that was not there before the first attempt. -/
def recoveredEntry (before : List Nat) : Mt5 β (Option SendResult) := do
  let mine ← b.myPositions
  return (mine.find? (·.ticket ∉ before)).map fun p => ⟨-1, p.ticket, 0, p.priceOpen, p.volume⟩

/-- Switch the filling mode: IOC and FOK are exchanged, anything else becomes RETURN. -/
def rotateFilling (request : OrderRequest) : OrderRequest :=
  { request with
    filling := match request.filling with
      | some .ioc => some .fok
      | some .fok => some .ioc
      | _ => some .ret }

/-- The actions that raise whatever is left of the budget. -/
def givesUp (action : PolicyAction) (rotated : Bool) : Bool :=
  match action with
  | .deferLadder => true
  | .abortAlert => true
  | .abort => true
  | .rotateFilling => rotated
  | _ => false

/-- What the loop of `_send_with_policy` carries from one attempt to the next. -/
structure Retry where
  request : OrderRequest
  rotated : Bool := false
  waits : List ℚ
  deriving DecidableEq, Repr

/-- Wait for the next delay of the policy. -/
def backOff (pol : RetryPolicy) (st : Retry) : Mt5 β Retry := do
  let delay := st.waits.headD pol.maxDelay
  if 0 < delay then sleep delay
  return { st with waits := st.waits.tail }

/-- What a failed attempt that is retried does before the next one. -/
def prepareRetry (pol : RetryPolicy) (refresh : Option (OrderRequest → Mt5 β OrderRequest))
    (action : PolicyAction) (st : Retry) : Mt5 β Retry :=
  match action with
  | .rotateFilling => return { st with request := rotateFilling st.request, rotated := true }
  | .retryFreshPrice =>
    match refresh with
    | none => return st
    | some refresh => do
      let request ← refresh st.request
      return { st with request := request }
  | _ => backOff pol st

/-- The answer reports success. -/
def succeeded (res : Option OrderResult) : Option SendResult :=
  match res with
  | none => none
  | some r =>
    if classify (some r.retcode) = .success ∨ classify (some r.retcode) = .successPartial then
      some (doneResult r)
    else none

/-- How an attempt ends: with a result, or with a failure to act on. -/
inductive Attempt
  | done (out : SendResult)
  | failed (action : PolicyAction) (res : Option OrderResult)
  deriving DecidableEq, Repr

/-- One attempt. `guard` holds the tickets seen before the first one, if the entry guard is on: after an
ambiguous outcome a fill is looked for before anything is sent again. -/
def attempt (guard : Option (List Nat)) (request : OrderRequest) : Mt5 β Attempt := do
  let res ← orderSend request
  match succeeded res with
  | some out => return .done out
  | none =>
    let action := classify (res.map (·.retcode))
    match guard with
    | none => return .failed action res
    | some before =>
      if action = .ambiguous then
        match ← b.recoveredEntry before with
        | some out => return .done out
        | none => return .failed action res
      else return .failed action res

/-- The loop of `_send_with_policy`, on the retries left. -/
def sendLoop (pol : RetryPolicy) (refresh : Option (OrderRequest → Mt5 β OrderRequest))
    (guard : Option (List Nat)) : Nat → Retry → Mt5 β SendResult
  | 0, st => do
    match ← b.attempt guard st.request with
    | .done out => return out
    | .failed _ res => b.raiseSendError res st.request
  | budget + 1, st => do
    match ← b.attempt guard st.request with
    | .done out => return out
    | .failed action res =>
      if givesUp action st.rotated then b.raiseSendError res st.request
      else do
        let st ← prepareRetry pol refresh action st
        sendLoop pol refresh guard budget st

def sendWithPolicy (pol : RetryPolicy) (refresh : Option (OrderRequest → Mt5 β OrderRequest))
    (entryGuard : Bool) (request : OrderRequest) : Mt5 β SendResult := do
  if entryGuard then
    let mine ← b.myPositions
    b.sendLoop pol refresh (some (mine.map (·.ticket))) pol.maxRetries { request := request, waits := delays pol }
  else b.sendLoop pol refresh none pol.maxRetries { request := request, waits := delays pol }

/-- `_send`. -/
def send (request : OrderRequest) (refresh : Option (OrderRequest → Mt5 β OrderRequest)) (entryGuard : Bool) :
    Mt5 β SendResult :=
  match b.retry with
  | some pol => b.sendWithPolicy pol refresh entryGuard request
  | none => do
    let res ← orderSend request
    match res with
    | none => b.raiseSendError res request
    | some r => if r.retcode = retcodeDone then return doneResult r else b.raiseSendError res request

/-! ### Entries -/

/-- The stop or target at a distance from the order price; 0 is none. -/
def anchored (away : Bool) (price : ℚ) (level : Option ℚ) (signalPrice : ℚ) : ℚ :=
  match level with
  | none => 0
  | some x =>
    if x = 0 then 0
    else if away then price - |signalPrice - x| else price + |signalPrice - x|

/-- The stop of an order at `price`, at the distance of the signal's stop. -/
def anchoredSl (sig : Signal) (price : ℚ) : ℚ := anchored (sig.direction = .long) price sig.stop sig.price

/-- The target of an order at `price`, if the server is to have one. -/
def anchoredTp (sig : Signal) (price : ℚ) : ℚ :=
  if b.serverTp then anchored (sig.direction = .short) price sig.tp sig.price else 0

/-- The side of the quote an order of this direction is filled at. -/
def quote (direction : Direction) (tick : Tick) : ℚ :=
  match direction with
  | .short => tick.bid
  | .long => tick.ask

def entryRequest (sig : Signal) (price volume : ℚ) (filling : Filling) : OrderRequest where
  body := .entry sig.direction volume price (roundPrice (anchoredSl sig price)) (roundPrice (b.anchoredTp sig price))
    b.deviation b.magic ("orb:" ++ sig.reason)
  filling := some filling

/-- `_refresh`: re-anchor the request to a fresh quote. -/
def refreshEntry (sig : Signal) (request : OrderRequest) : Mt5 β OrderRequest := do
  match ← symbolInfoTick with
  | none => return request
  | some tick =>
    let px := quote sig.direction tick
    match request.body with
    | .entry dir volume _ sl tp deviation magic comment =>
      let sl := match sig.stop with
        | none => sl
        | some x => if x = 0 then sl else roundPrice (anchoredSl sig px)
      let tp := match sig.tp with
        | none => tp
        | some x => if x = 0 ∨ ¬ b.serverTp then tp else roundPrice (b.anchoredTp sig px)
      return { request with body := .entry dir volume px sl tp deviation magic comment }
    | _ => return request

/-- `sig.qty or self.default_qty`. -/
def wantedQty (sig : Signal) : ℚ :=
  match sig.qty with
  | none => b.defaultQty
  | some q => orElse q b.defaultQty

/-- `"10019" in str(e)`. -/
def namesNoMoney (text : String) : Bool := "10019".toList <:+: text.toList

/-- The loop of `_open` over the volume ladder; `lastErr` is raised when the ladder is exhausted. -/
def openLadder (sig : Signal) (price : ℚ) (lastErr : Failure) : List ℚ → Mt5 β SendResult
  | [] => throw lastErr
  | vol :: rest => do
    let request := b.entryRequest sig price vol (← filling)
    let sent : Except Failure SendResult ← tryCatch
      (do
        let res ← b.send request (some (b.refreshEntry sig)) true
        return .ok res)
      (fun err => return .error err)
    match sent with
    | .ok res => do
      b.emit ⟨.open', some sig.reason, none⟩
      return res
    | .error (.broker text) =>
      if namesNoMoney text then openLadder sig price (.broker text) rest else brokerError text
    | .error .other => throw .other

/-- The volumes `_open` tries. -/
def ladder (want : ℚ) : List ℚ := want :: volumeLadder.filter (· < want)

/-- `_open` in market mode. -/
def openMarket (sig : Signal) : Mt5 β SendResult := do
  match ← symbolInfoTick with
  | none => b.noTick
  | some tick => b.openLadder sig (quote sig.direction tick) .other (ladder (b.wantedQty sig))

/-- The two legs of a limit entry: label and price. -/
def legs (sig : Signal) (d : ℚ) : List (String × ℚ) :=
  match sig.direction with
  | .short => [("entry", sig.price + d), ("addon", sig.price + d + b.addonFrac * d)]
  | .long => [("entry", sig.price - d), ("addon", sig.price - d - b.addonFrac * d)]

/-- The shared stop of the legs, `d` beyond the first. -/
def legsSl (sig : Signal) (d : ℚ) : ℚ :=
  match sig.direction with
  | .short => sig.price + d + d
  | .long => sig.price - d - d

def legRequest (sig : Signal) (d : ℚ) (leg : String × ℚ) : OrderRequest where
  body := .pending sig.direction (b.wantedQty sig) (roundPrice leg.2) (roundPrice (legsSl sig d)) (roundPrice 0)
    b.magic (String.ofList (("orb:" ++ leg.1 ++ ":" ++ sig.reason).toList.take 31))
  filling := some .ret

def placeLegs (sig : Signal) (d : ℚ) : List (String × ℚ) → Option SendResult → Mt5 β (Option SendResult)
  | [], result => return result
  | leg :: rest, _ => do
    let res ← b.send (b.legRequest sig d leg) none false
    b.emit ⟨.openPending, some (leg.1 ++ ":" ++ sig.reason), none⟩
    placeLegs sig d rest (some res)

/-- `_open_limit`. -/
def openLimit (sig : Signal) : Mt5 β (Option SendResult) :=
  match sig.stop with
  | none => brokerError "limit entry requires a stop on the signal"
  | some stop => b.placeLegs sig |sig.price - stop| (b.legs sig |sig.price - stop|) none

/-- `_open`. -/
def open' (sig : Signal) : Mt5 β (Option SendResult) :=
  match b.entryMode with
  | .limit => b.openLimit sig
  | .market => do
    let res ← b.openMarket sig
    return some res

/-! ### Closes and modifications -/

def opposite : Direction → Direction
  | .long => .short
  | .short => .long

def closeRequest (p : Position) (volume price : ℚ) (reason : String) (filling : Filling) : OrderRequest where
  body := .close (opposite p.direction) volume p.ticket price b.deviation b.magic ("orb:" ++ reason)
  filling := some filling

/-- `_close_position`. Without a quote `tick.bid` raises `AttributeError`. -/
def closePosition (p : Position) (volume : ℚ) (reason : String) : Mt5 β SendResult := do
  match ← symbolInfoTick with
  | none => throw .other
  | some tick => do
    let request := b.closeRequest p volume (quote (opposite p.direction) tick) reason (← filling)
    let res ← b.send request none false
    if b.onEvent.isSome then do
      let action := if volume < p.volume - 1 / 1000000000 then TradeAction.partialClose else .close
      let pnl ← dealProfit res.deal
      b.emit ⟨action, some reason, pnl⟩
      return res
    else return res

def closeEach (reason : String) : List Position → Option SendResult → Mt5 β (Option SendResult)
  | [], result => return result
  | p :: rest, _ => do
    let res ← b.closePosition p p.volume reason
    closeEach reason rest (some res)

/-- `close_all`. -/
def closeAll (reason : String) : Mt5 β (Option SendResult) := do
  let mine ← b.myPositions
  b.closeEach reason mine none

/-- `close_ticket`. -/
def closeTicket (ticket : Nat) (volume : ℚ) : Mt5 β (Option SendResult) := do
  let mine ← b.myPositions
  match mine.find? (·.ticket = ticket) with
  | none => return none
  | some p => do
    let vol ← roundVolume (min volume p.volume)
    if vol ≤ 0 then return none
    else do
      let res ← b.closePosition p vol "partial_2r"
      return some res

def sltpRequest (p : Position) (sl : ℚ) : OrderRequest where
  body := .sltp p.ticket (roundPrice sl) p.tp
  filling := none

/-- `modify_sl`. -/
def modifySl (ticket : Nat) (sl : ℚ) : Mt5 β (Option SendResult) := do
  let mine ← b.myPositions
  match mine.find? (·.ticket = ticket) with
  | none => return none
  | some p =>
    if |p.sl - sl| < slTolerance then return none
    else do
      let res ← b.send (sltpRequest p sl) none false
      b.emit ⟨.modifySl, none, none⟩
      return some res

def updateEach (newSl : ℚ) : List Position → Option SendResult → Mt5 β (Option SendResult)
  | [], result => return result
  | p :: rest, result =>
    if |p.sl - newSl| < slTolerance then updateEach newSl rest result
    else do
      let res ← b.send (sltpRequest p newSl) none false
      b.emit ⟨.modifySl, some "trail_sync", none⟩
      updateEach newSl rest (some res)

/-- `update_stop`. -/
def updateStop (newSl : ℚ) : Mt5 β (Option SendResult) := do
  let mine ← b.myPositions
  b.updateEach newSl mine none

def removeRequest (o : PendingOrder) : OrderRequest where
  body := .remove o.ticket
  filling := none

def removeEach (reason : String) : List PendingOrder → Mt5 β Nat
  | [] => return 0
  | o :: rest => do
    let _ ← b.send (removeRequest o) none false
    b.emit ⟨.cancelPending, some reason, none⟩
    let n ← removeEach reason rest
    return n + 1

/-- `cancel_expired`. -/
def cancelExpired (maxAgeSec : Int) : Mt5 β Nat := do
  match ← symbolInfoTick with
  | none => return 0
  | some tick => do
    let orders ← ordersGet
    b.removeEach "expired" (orders.filter fun o => o.magic = b.magic ∧ maxAgeSec ≤ tick.time - o.timeSetup)

/-- `cancel_pending`. An age of 0 spares none, and no quote spares none. -/
def cancelPending (minAgeSec : Int) : Mt5 β PUnit := do
  let now ← if 0 < minAgeSec then do
      let tick ← symbolInfoTick
      pure (tick.map (·.time))
    else pure none
  let orders ← ordersGet
  let _ ← b.removeEach "cancelled" (orders.filter fun o =>
    o.magic = b.magic ∧ ¬ now.any fun t => t - o.timeSetup < minAgeSec)

/-- The volume `_close` closes of a position; `none` if a partial close rounds to nothing. -/
def exitVolume (sig : Signal) (p : Position) : Mt5 β (Option ℚ) :=
  match sig.qty with
  | none => return some p.volume
  | some qty =>
    if sig.reason = "take_profit_partial" ∧ qty ≠ 0 ∧ qty < p.volume then do
      let volume ← roundVolume qty
      return if volume ≤ 0 then none else some volume
    else return some p.volume

/-- The loop of `_close`. -/
def closeMine (sig : Signal) : List Position → Option SendResult → Mt5 β (Option SendResult)
  | [], result => return result
  | p :: rest, _ => do
    match ← exitVolume sig p with
    | none => return none
    | some volume => do
      let res ← b.closePosition p volume sig.reason
      closeMine sig rest (some res)

/-- `_close`. -/
def close (sig : Signal) : Mt5 β (Option SendResult) :=
  match b.entryMode with
  | .limit => return none
  | .market => do
    let mine ← b.myPositions
    b.closeMine sig mine none

def execute (sig : Signal) : Mt5 β (Option SendResult) :=
  match sig.kind with
  | .reject => return none
  | .entry => if b.connected then b.open' sig else brokerError "not connected (call connect() first)"
  | .exit => if b.connected then b.close sig else brokerError "not connected (call connect() first)"

end Mt5Broker

end FreqTrading
