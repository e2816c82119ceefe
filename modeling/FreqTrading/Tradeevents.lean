import FreqTrading.Broker.Mt5
import FreqTrading.Symbols

/-!
# Trade events

`build_event` and `to_payload` of `orb/tradeevents.py`, and the nullability matrix of the schema
(`docs/copytrade_schema.md`). Every action is one of the vocabulary, so the warning about unknown ones is left
out, and of `extra` the two fields are kept that are given somewhere. `Traded.conforms_iff` says when the event
of a deal obeys the schema; an event with a deal number under an action that makes no deal never does.
-/

namespace FreqTrading

open Lib Symbols

namespace TradeEvents

/-! ### The event -/

/-- `SCHEMA_VERSION`. -/
def schemaVersion : Int := 1

/-- `PRICE_DP`. -/
def priceDp : Nat := 8

/-- What a key of a payload holds. -/
inductive Datum
  | null
  | int (n : Int)
  | float (x : ℚ)
  | text (s : Text)
  | object (members : List (String × Datum))

structure TradeEvent where
  eventId : String
  seq : Nat
  ts : String
  node : String
  account : Option Int
  strategy : String
  magic : Option Int
  symbol : String
  baseSymbol : Text
  action : TradeAction
  ticket : Option Nat := none
  order : Option Nat := none
  deal : Option Nat := none
  direction : Option Direction := none
  volume : Option ℚ := none
  priceRequested : Option ℚ := none
  priceFilled : Option ℚ := none
  slippage : Option ℚ := none
  sl : Option ℚ := none
  tp : Option ℚ := none
  reason : Option String := none
  rrPlanned : Option ℚ := none
  rrAchieved : Option ℚ := none
  riskInflationR : Option ℚ := none
  pnl : Option ℚ := none
  retcode : Option Int := none

/-- `_ORDER_TYPE_MAX`. -/
def orderTypeMax : Int := 7

/-- `_direction_of`. -/
def directionOf : Option Int → Option Direction
  | none => none
  | some t =>
    if 0 ≤ t ∧ t ≤ orderTypeMax then
      if t % 2 = 0 then some .long else some .short
    else none

/-- What `build_event` looks up in a request dict. -/
structure RequestItems where
  price : Option ℚ := none
  position : Option Nat := none
  volume : Option ℚ := none
  orderType : Option Int := none
  sl : Option ℚ := none
  tp : Option ℚ := none
  deriving DecidableEq, Repr

/-- `ORDER_TYPE_BUY` and `ORDER_TYPE_SELL`. -/
def marketType : Direction → Int
  | .long => 0
  | .short => 1

/-- `ORDER_TYPE_BUY_LIMIT` and `ORDER_TYPE_SELL_LIMIT`. -/
def pendingType : Direction → Int
  | .long => 2
  | .short => 3

def requestItems : OrderBody → RequestItems
  | .entry dir volume price sl tp _ _ _ =>
    { price := some price, volume := some volume, orderType := some (marketType dir), sl := some sl, tp := some tp }
  | .close dir volume position price _ _ _ =>
    { price := some price, position := some position, volume := some volume, orderType := some (marketType dir) }
  | .pending dir volume price sl tp _ _ =>
    { price := some price, volume := some volume, orderType := some (pendingType dir), sl := some sl, tp := some tp }
  | .sltp position sl tp => { position := some position, sl := some sl, tp := some tp }
  | .remove _ => {}

/-- What the process adds to an event: `uuid4`, the counter, the clock, the host, the login and the label. -/
structure Stamp where
  eventId : String
  seq : Nat
  ts : String
  node : String
  account : Option Int
  strategy : String

/-- The `extra` fields that are given somewhere. -/
structure Extra where
  ticket : Option Nat := none
  pnl : Option ℚ := none
  deriving DecidableEq, Repr

/-- `slippage` before `extra`. -/
def slippageOf (requested filled : Option ℚ) : Option ℚ :=
  match requested, filled with
  | some requested, some filled => some (roundPlaces priceDp (filled - requested))
  | _, _ => none

/-- `build_event`. -/
def buildEvent (cs : Casing) (stamp : Stamp) (action : TradeAction) (symbol : String) (magic : Option Int)
    (request : Option OrderRequest) (result : Option SendResult) (reason : Option String) (extra : Extra) :
    TradeEvent :=
  let req : RequestItems := (request.map fun r => requestItems r.body).getD {}
  let order := result.map (·.order)
  { eventId := stamp.eventId
    seq := stamp.seq
    ts := stamp.ts
    node := stamp.node
    account := stamp.account
    strategy := stamp.strategy
    magic := magic
    symbol := symbol
    baseSymbol := cs.baseSymbolOf symbol.toList
    action := action
    ticket := extra.ticket.or (req.position.or order)
    order := order
    deal := result.map (·.deal)
    direction := directionOf req.orderType
    volume := (result.map (·.volume)).or req.volume
    priceRequested := req.price
    priceFilled := result.map (·.price)
    slippage := slippageOf req.price (result.map (·.price))
    sl := req.sl
    tp := req.tp
    reason := reason
    pnl := extra.pnl
    retcode := result.map (·.retcode) }

/-! ### The payload -/

def actionText : TradeAction → String
  | .open' => "open"
  | .openPending => "open_pending"
  | .modifySl => "modify_sl"
  | .partialClose => "partial_close"
  | .close => "close"
  | .cancelPending => "cancel_pending"

def directionText : Direction → String
  | .long => "long"
  | .short => "short"

/-- A value or `None`. -/
def orNull {α : Type} (f : α → Datum) (x : Option α) : Datum := (x.map f).getD .null

def string (s : String) : Datum := .text s.toList

/-- `to_payload`. -/
def toPayload (ev : TradeEvent) : List (String × Datum) :=
  [("schema_version", .int schemaVersion),
   ("event_id", string ev.eventId),
   ("seq", .int ev.seq),
   ("ts", string ev.ts),
   ("source", .object
     [("node", string ev.node), ("account", orNull .int ev.account), ("strategy", string ev.strategy),
      ("magic", orNull .int ev.magic)]),
   ("symbol", string ev.symbol),
   ("base_symbol", .text ev.baseSymbol),
   ("action", string (actionText ev.action)),
   ("ticket", orNull (fun n : Nat => .int n) ev.ticket),
   ("order", orNull (fun n : Nat => .int n) ev.order),
   ("deal", orNull (fun n : Nat => .int n) ev.deal),
   ("direction", orNull (fun d => string (directionText d)) ev.direction),
   ("volume", orNull .float ev.volume),
   ("price_requested", orNull .float ev.priceRequested),
   ("price_filled", orNull .float ev.priceFilled),
   ("slippage", orNull .float ev.slippage),
   ("sl", orNull .float ev.sl),
   ("tp", orNull .float ev.tp),
   ("reason", orNull string ev.reason),
   ("rr_planned", orNull .float ev.rrPlanned),
   ("rr_achieved", orNull .float ev.rrAchieved),
   ("risk_inflation_r", orNull .float ev.riskInflationR),
   ("pnl", orNull .float ev.pnl),
   ("retcode", orNull .int ev.retcode)]

/-! ### The schema -/

/-- `R`, `O` and `-` of the matrix. -/
inductive Mark
  | required | optional | absent
  deriving DecidableEq, Repr

def Mark.Allows : Mark → Datum → Prop
  | .required, d => d ≠ .null
  | .optional, _ => True
  | .absent, d => d = .null

/-- A row of the matrix, its columns in the order of the actions. -/
def marks (open' openPending modifySl partialClose close cancelPending : Mark) : TradeAction → Mark
  | .open' => open'
  | .openPending => openPending
  | .modifySl => modifySl
  | .partialClose => partialClose
  | .close => close
  | .cancelPending => cancelPending

/-- The per-action matrix of the schema. -/
def matrix : List (String × (TradeAction → Mark)) :=
  [("ticket", marks .required .required .required .required .required .required),
   ("order", marks .required .required .optional .optional .optional .required),
   ("deal", marks .optional .absent .absent .optional .optional .absent),
   ("direction", marks .required .required .optional .required .required .optional),
   ("volume", marks .required .required .optional .required .required .optional),
   ("price_requested", marks .required .required .absent .optional .optional .absent),
   ("price_filled", marks .required .absent .absent .optional .optional .absent),
   ("slippage", marks .required .absent .absent .optional .optional .absent),
   ("sl", marks .required .required .required .optional .optional .absent),
   ("tp", marks .required .required .optional .optional .optional .absent),
   ("reason", marks .optional .optional .optional .optional .optional .optional),
   ("rr_planned", marks .optional .optional .absent .absent .absent .absent),
   ("rr_achieved", marks .optional .absent .absent .absent .absent .absent),
   ("risk_inflation_r", marks .optional .absent .absent .absent .absent .absent),
   ("pnl", marks .absent .absent .absent .optional .optional .absent),
   ("retcode", marks .required .required .required .required .required .required)]

/-- A payload obeys the matrix, and its slippage is the distance of the two prices. -/
structure Conforms (action : TradeAction) (payload : List (String × Datum)) : Prop where
  marks : ∀ row ∈ matrix, ∃ d, payload.lookup row.1 = some d ∧ (row.2 action).Allows d
  slippage : ∀ s, payload.lookup "slippage" = some (.float s) →
    ∃ filled requested, payload.lookup "price_filled" = some (.float filled) ∧
      payload.lookup "price_requested" = some (.float requested) ∧ s = |filled - requested|

/-! ### Reading a payload -/

variable {α : Type} {ev : TradeEvent}

/-- A mark and whether the field has a value. -/
def Mark.Fits : Mark → Bool → Prop
  | .required, given => given = true
  | .optional, _ => True
  | .absent, given => given = false

theorem allows_orNull {f : α → Datum} (hf : ∀ a, f a ≠ .null) (m : Mark) (x : Option α) :
    m.Allows (orNull f x) ↔ m.Fits x.isSome := by
  cases m with
  | optional => exact Iff.rfl
  | required | absent =>
    cases x with
    | none => simp [Mark.Allows, Mark.Fits, orNull]
    | some a => simp [Mark.Allows, Mark.Fits, orNull, hf]

theorem marks_toPayload (ev : TradeEvent) :
    (∀ row ∈ matrix, ∃ d, (toPayload ev).lookup row.1 = some d ∧ (row.2 ev.action).Allows d) ↔
      ∀ row ∈ matrix.map (fun row => row.2 ev.action) |>.zip
        [ev.ticket.isSome, ev.order.isSome, ev.deal.isSome, ev.direction.isSome, ev.volume.isSome,
         ev.priceRequested.isSome, ev.priceFilled.isSome, ev.slippage.isSome, ev.sl.isSome, ev.tp.isSome,
         ev.reason.isSome, ev.rrPlanned.isSome, ev.rrAchieved.isSome, ev.riskInflationR.isSome, ev.pnl.isSome,
         ev.retcode.isSome], row.1.Fits row.2 := by
  have hint : ∀ n : Int, Datum.int n ≠ .null := fun n h => by cases h
  have hfloat : ∀ x : ℚ, Datum.float x ≠ .null := fun x h => by cases h
  have hstring : ∀ s : String, string s ≠ .null := fun s h => by cases h
  simp only [matrix, List.forall_mem_cons, toPayload, List.lookup_cons, List.lookup_nil, List.map, List.zip, List.zipWith]
  simp [allows_orNull, hint, hfloat, hstring]

/-- An event of a deal has these. -/
structure Traded (ev : TradeEvent) : Prop where
  action : ev.action = .open' ∨ ev.action = .partialClose ∨ ev.action = .close
  ids : ev.ticket.isSome = true ∧ ev.order.isSome = true ∧ ev.retcode.isSome = true
  traded : ev.direction.isSome = true ∧ ev.volume.isSome = true
  prices : ev.priceRequested.isSome = true ∧ ev.priceFilled.isSome = true
  slippage : ev.slippage = slippageOf ev.priceRequested ev.priceFilled
  entry : ev.action = .open' → ev.sl.isSome = true ∧ ev.tp.isSome = true ∧ ev.pnl = none
  planned : ev.rrPlanned = none ∧ ev.rrAchieved = none ∧ ev.riskInflationR = none

theorem orNull_float {x : Option ℚ} {a : ℚ} : some (orNull .float x) = some (.float a) ↔ x = some a := by
  cases x <;> simp [orNull]

theorem slippage_toPayload (ev : TradeEvent) :
    (∀ s, (toPayload ev).lookup "slippage" = some (.float s) →
      ∃ filled requested, (toPayload ev).lookup "price_filled" = some (.float filled) ∧
        (toPayload ev).lookup "price_requested" = some (.float requested) ∧ s = |filled - requested|) ↔
      ∀ s, ev.slippage = some s →
        ∃ filled requested, ev.priceFilled = some filled ∧ ev.priceRequested = some requested ∧
          s = |filled - requested| := by
  have hslip : (toPayload ev).lookup "slippage" = some (orNull .float ev.slippage) := rfl
  have hfill : (toPayload ev).lookup "price_filled" = some (orNull .float ev.priceFilled) := rfl
  have hreq : (toPayload ev).lookup "price_requested" = some (orNull .float ev.priceRequested) := rfl
  simp only [hslip, hfill, hreq, orNull_float]

theorem Traded.conforms_iff (h : Traded ev) {requested filled : ℚ} (hreq : ev.priceRequested = some requested)
    (hfill : ev.priceFilled = some filled) :
    Conforms ev.action (toPayload ev) ↔ roundPlaces priceDp (filled - requested) = |filled - requested| := by
  have hslip : ev.slippage = some (roundPlaces priceDp (filled - requested)) := by
    rw [h.slippage, hreq, hfill]
    rfl
  constructor
  · intro hconf
    obtain ⟨f, q, hf, hq, heq⟩ := (slippage_toPayload ev).mp hconf.slippage _ hslip
    obtain rfl : filled = f := Option.some.inj (hfill.symm.trans hf)
    obtain rfl : requested = q := Option.some.inj (hreq.symm.trans hq)
    exact heq
  · intro heq
    refine ⟨(marks_toPayload ev).mpr ?_, (slippage_toPayload ev).mpr fun s hs => ⟨filled, requested, hfill, hreq, ?_⟩⟩
    · obtain ⟨hticket, horder, hretcode⟩ := h.ids
      obtain ⟨hdir, hvol⟩ := h.traded
      obtain ⟨hr1, hr2, hr3⟩ := h.planned
      rcases h.action with hact | hact | hact
      · obtain ⟨hsl, htp, hpnl⟩ := h.entry hact
        simp [hact, matrix, marks, Mark.Fits, hticket, horder, hretcode, hdir, hvol, hreq, hfill, hslip, hsl, htp, hpnl]
      · simp [hact, matrix, marks, Mark.Fits, hticket, hretcode, hdir, hvol, hr1, hr2, hr3]
      · simp [hact, matrix, marks, Mark.Fits, hticket, hretcode, hdir, hvol, hr1, hr2, hr3]
    · obtain rfl : roundPlaces priceDp (filled - requested) = s := Option.some.inj (hslip.symm.trans hs)
      exact heq

theorem not_conforms_of_deal (hdeal : ev.deal.isSome = true)
    (hact : ev.action = .openPending ∨ ev.action = .modifySl ∨ ev.action = .cancelPending) :
    ¬ Conforms ev.action (toPayload ev) := by
  intro hconf
  have hmarks := (marks_toPayload ev).mp hconf.marks
  rcases hact with hact | hact | hact <;> simp [hact, matrix, marks, Mark.Fits, hdeal] at hmarks

end TradeEvents

end FreqTrading
