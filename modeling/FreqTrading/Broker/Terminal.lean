import FreqTrading.Lib.Program
import FreqTrading.Models

/-!
# The terminal and the trade server

What `Mt5Broker` talks to. The server holds the open positions and pending orders of the broker's symbol
(on a hedging account, one position a ticket), the account balance and the closing deals. The environment
answers every call of the terminal with a `Reply`: what the server did on its own since the last call (a
stop or target was hit, a limit was filled, the balance moved), whether a read succeeds, the quote, and what
becomes of an order request. All of it is arbitrary; the requests the code can send are an inductive type.
-/

namespace FreqTrading

/-! ### Requests and answers -/

inductive Filling
  | ioc | fok | ret
  deriving DecidableEq, Repr

/-- The request dict, by its `action`. A deal with a `position` closes, one without opens. -/
inductive OrderBody
  | entry (direction : Direction) (volume price sl tp : ℚ) (deviation magic : Int) (comment : String)
  | close (direction : Direction) (volume : ℚ) (position : Nat) (price : ℚ) (deviation magic : Int)
      (comment : String)
  | pending (direction : Direction) (volume price sl tp : ℚ) (magic : Int) (comment : String)
  | sltp (position : Nat) (sl tp : ℚ)
  | remove (order : Nat)
  deriving DecidableEq, Repr

/-- A request with its `type_filling`, if it has one. -/
structure OrderRequest where
  body : OrderBody
  filling : Option Filling
  deriving DecidableEq, Repr

/-- The answer of `order_send`. -/
structure OrderResult where
  retcode : Int := 10009
  comment : String := ""
  order : Nat := 0
  deal : Nat := 0
  price : ℚ := 0
  volume : ℚ := 0
  deriving DecidableEq, Repr

/-! ### The server -/

structure Position where
  ticket : Nat
  magic : Int
  direction : Direction
  volume : ℚ
  priceOpen : ℚ
  sl : ℚ := 0
  tp : ℚ := 0
  deriving DecidableEq, Repr

structure PendingOrder where
  ticket : Nat
  magic : Int
  direction : Direction
  volume : ℚ
  price : ℚ
  sl : ℚ := 0
  tp : ℚ := 0
  timeSetup : Int
  deriving DecidableEq, Repr

/-- A deal that closed a position or a part of it. -/
structure ClosingDeal where
  position : Nat
  /-- Of the closing order, or of the position if the server closed it. -/
  magic : Int
  profit : ℚ
  /-- Nothing of the position was left. -/
  full : Bool
  /-- The server closed it (stop or target), not an order. -/
  byServer : Bool
  day : Int
  deriving DecidableEq, Repr

structure Server where
  positions : List Position := []
  orders : List PendingOrder := []
  nextTicket : Nat := 1
  balance : ℚ := 0
  deals : List ClosingDeal := []
  /-- The current UTC day and time. -/
  day : Int := 0
  now : Int := 0
  deriving DecidableEq, Repr

/-- What the server does by itself. -/
inductive ServerEvent
  | closed (position : Nat) (profit : ℚ)
  | filled (order : Nat) (price : ℚ)
  | adjusted (delta : ℚ)
  deriving DecidableEq, Repr

namespace Server

def position? (s : Server) (ticket : Nat) : Option Position := s.positions.find? (·.ticket = ticket)

/-- The positions with this magic number. -/
def own (magic : Int) (s : Server) : List Position := s.positions.filter (·.magic = magic)

def ownOrders (magic : Int) (s : Server) : List PendingOrder := s.orders.filter (·.magic = magic)

/-- A closing deal of `volume` lots of a position, by an order with this magic number or by the server. -/
def closeVolume (s : Server) (p : Position) (volume profit : ℚ) (order : Option Int) : Server :=
  { s with
    positions :=
      if volume < p.volume then
        s.positions.map fun q => if q.ticket = p.ticket then { q with volume := q.volume - volume } else q
      else s.positions.filter (·.ticket ≠ p.ticket)
    balance := s.balance + profit
    deals := s.deals ++ [⟨p.ticket, order.getD p.magic, profit, !(volume < p.volume), order.isNone, s.day⟩] }

def applyEvent (s : Server) : ServerEvent → Server
  | .closed ticket profit =>
    match s.position? ticket with
    | none => s
    | some p => s.closeVolume p p.volume profit none
  | .filled ticket price =>
    match s.orders.find? (·.ticket = ticket) with
    | none => s
    | some o =>
      { s with
        orders := s.orders.filter (·.ticket ≠ ticket)
        positions := s.positions ++ [⟨o.ticket, o.magic, o.direction, o.volume, price, o.sl, o.tp⟩] }
  | .adjusted delta => { s with balance := s.balance + delta }

def applyEvents (s : Server) (events : List ServerEvent) : Server := events.foldl applyEvent s

/-- The volume that is executed: all of it, or the part that could be. -/
def executedVolume (volume : ℚ) (partly : Option ℚ) : ℚ :=
  match partly with
  | some part => if 0 < part ∧ part < volume then part else volume
  | none => volume

/-- Execute a request at a price, with a profit for a closing deal; `none` if its target does not exist or
its volume is not one the position has. -/
def perform (s : Server) (partly : Option ℚ) (price profit : ℚ) : OrderBody → Option Server
  | .entry direction volume _ sl tp _ magic _ =>
    some { s with
      positions := s.positions ++
        [⟨s.nextTicket, magic, direction, executedVolume volume partly, price, sl, tp⟩]
      nextTicket := s.nextTicket + 1 }
  | .close _ volume ticket _ _ magic _ =>
    match s.position? ticket with
    | none => none
    | some p =>
      if 0 < volume ∧ volume ≤ p.volume then
        some (s.closeVolume p (executedVolume volume partly) profit (some magic))
      else none
  | .pending direction volume price sl tp magic _ =>
    some { s with
      orders := s.orders ++ [⟨s.nextTicket, magic, direction, volume, price, sl, tp, s.now⟩]
      nextTicket := s.nextTicket + 1 }
  | .sltp ticket sl tp =>
    match s.position? ticket with
    | none => none
    | some _ =>
      some { s with positions := s.positions.map fun q => if q.ticket = ticket then { q with sl := sl, tp := tp } else q }
  | .remove ticket =>
    match s.orders.find? (·.ticket = ticket) with
    | none => none
    | some _ => some { s with orders := s.orders.filter (·.ticket ≠ ticket) }

/-! ### What events and requests keep -/

/-- Every ticket in use was handed out before. -/
structure Issued (s : Server) : Prop where
  positions : ∀ p ∈ s.positions, p.ticket < s.nextTicket
  orders : ∀ o ∈ s.orders, o.ticket < s.nextTicket

theorem issued_of_nil {s : Server} (hpos : s.positions = []) (hord : s.orders = []) : s.Issued :=
  ⟨by simp [hpos], by simp [hord]⟩

theorem position?_spec {s : Server} {ticket : Nat} {p : Position} (h : s.position? ticket = some p) :
    p ∈ s.positions ∧ p.ticket = ticket :=
  ⟨List.mem_of_find?_eq_some h, by simpa using List.find?_some h⟩

theorem mem_closeVolume {s : Server} {p q : Position} {volume profit : ℚ} {order : Option Int}
    (h : q ∈ (s.closeVolume p volume profit order).positions) :
    ∃ q₀ ∈ s.positions, q = { q₀ with volume := q.volume } := by
  unfold closeVolume at h
  simp only at h
  split at h
  · obtain ⟨q₀, hq₀, rfl⟩ := List.mem_map.mp h
    refine ⟨q₀, hq₀, ?_⟩
    split <;> rfl
  · exact ⟨q, (List.mem_filter.mp h).1, rfl⟩

theorem mem_applyEvent {s : Server} {ev : ServerEvent} {q : Position} (h : q ∈ (s.applyEvent ev).positions) :
    (∃ q₀ ∈ s.positions, q = { q₀ with volume := q.volume }) ∨
      ∃ o ∈ s.orders, q.ticket = o.ticket ∧ q.magic = o.magic := by
  cases ev with
  | closed ticket profit =>
    simp only [applyEvent] at h
    split at h
    · exact Or.inl ⟨q, h, rfl⟩
    · exact Or.inl (mem_closeVolume h)
  | filled ticket price =>
    simp only [applyEvent] at h
    split at h
    · exact Or.inl ⟨q, h, rfl⟩
    · next o ho =>
      rcases List.mem_append.mp h with hq | hq
      · exact Or.inl ⟨q, hq, rfl⟩
      · simp only [List.mem_singleton] at hq
        exact Or.inr ⟨o, List.mem_of_find?_eq_some ho, by rw [hq], by rw [hq]⟩
  | adjusted delta => exact Or.inl ⟨q, h, rfl⟩

theorem applyEvent_orders {s : Server} {ev : ServerEvent} {o : PendingOrder}
    (h : o ∈ (s.applyEvent ev).orders) : o ∈ s.orders := by
  cases ev with
  | closed ticket profit =>
    simp only [applyEvent] at h
    split at h <;> exact h
  | filled ticket price =>
    simp only [applyEvent] at h
    split at h
    · exact h
    · exact (List.mem_filter.mp h).1
  | adjusted delta => exact h

@[simp] theorem applyEvent_nextTicket (s : Server) (ev : ServerEvent) :
    (s.applyEvent ev).nextTicket = s.nextTicket := by
  cases ev <;> simp only [applyEvent] <;> split <;> rfl

theorem Issued.applyEvent {s : Server} (h : s.Issued) (ev : ServerEvent) : (s.applyEvent ev).Issued := by
  refine ⟨fun p hp => ?_, fun o ho => ?_⟩
  · rw [applyEvent_nextTicket]
    rcases mem_applyEvent hp with ⟨q, hq, heq⟩ | ⟨o, ho, heq, _⟩
    · rw [heq]
      exact h.positions q hq
    · rw [heq]
      exact h.orders o ho
  · rw [applyEvent_nextTicket]
    exact h.orders o (applyEvent_orders ho)

@[simp] theorem applyEvents_nextTicket (s : Server) (events : List ServerEvent) :
    (s.applyEvents events).nextTicket = s.nextTicket := by
  induction events generalizing s with
  | nil => rfl
  | cons ev events ih => exact (ih (s.applyEvent ev)).trans (applyEvent_nextTicket s ev)

theorem Issued.applyEvents {s : Server} (h : s.Issued) (events : List ServerEvent) :
    (s.applyEvents events).Issued := by
  induction events generalizing s with
  | nil => exact h
  | cons ev events ih => exact ih (h.applyEvent ev)

theorem mem_applyEvents_of_not_closed {s : Server} {events : List ServerEvent} {p : Position}
    (hp : p ∈ s.positions) (h : ∀ profit, .closed p.ticket profit ∉ events) :
    p ∈ (s.applyEvents events).positions := by
  induction events generalizing s with
  | nil => exact hp
  | cons ev events ih =>
    refine ih ?_ fun profit hmem => h profit (List.mem_cons_of_mem _ hmem)
    cases ev with
    | closed ticket profit =>
      simp only [applyEvent]
      split
      · exact hp
      · next q hq =>
        have hne : p.ticket ≠ q.ticket := by
          intro heq
          apply h profit
          rw [heq, (position?_spec hq).2]
          exact List.mem_cons_self
        simp only [closeVolume, lt_irrefl, if_false]
        exact List.mem_filter.mpr ⟨hp, by simpa using hne⟩
    | filled ticket price =>
      simp only [applyEvent]
      split
      · exact hp
      · exact List.mem_append_left _ hp
    | adjusted delta => exact hp

/-- A request can be executed: an entry or a limit always, a change of something that is there. -/
def CanPerform (s : Server) : OrderBody → Prop
  | .close _ volume ticket _ _ _ _ => ∃ p, s.position? ticket = some p ∧ 0 < volume ∧ volume ≤ p.volume
  | .sltp ticket _ _ => (s.position? ticket).isSome = true
  | .remove ticket => (s.orders.find? (·.ticket = ticket)).isSome = true
  | _ => True

theorem perform_isSome (s : Server) (partly : Option ℚ) (price profit : ℚ) (body : OrderBody) :
    (s.perform partly price profit body).isSome = true ↔ s.CanPerform body := by
  cases body with
  | entry | pending => simp [perform, CanPerform]
  | close direction volume ticket =>
    cases h : s.position? ticket with
    | none => simp [perform, CanPerform, h]
    | some p =>
      simp only [perform, CanPerform, h, Option.some.injEq]
      split <;> simp_all
  | sltp ticket => cases h : s.position? ticket <;> simp [perform, CanPerform, h]
  | remove ticket => cases h : s.orders.find? (·.ticket = ticket) <;> simp [perform, CanPerform, h]

theorem position?_applyEvent {s : Server} {ticket : Nat} (hord : ∀ o ∈ s.orders, o.ticket ≠ ticket)
    (ev : ServerEvent) :
    (s.applyEvent ev).position? ticket = s.position? ticket ∨ (s.applyEvent ev).position? ticket = none := by
  cases ev with
  | closed t profit =>
    simp only [applyEvent]
    cases hp : s.position? t with
    | none => exact Or.inl rfl
    | some p =>
      simp only [closeVolume, lt_irrefl, if_false, position?, List.find?_filter]
      by_cases heq : ticket = p.ticket
      · refine Or.inr (List.find?_eq_none.mpr fun q _ => ?_)
        simp [heq]
      · refine Or.inl (congrArg (List.find? · s.positions) (funext fun q => ?_))
        by_cases hq : q.ticket = ticket
        · simp [hq, heq]
        · simp [hq]
  | filled t price =>
    simp only [applyEvent]
    cases ho : s.orders.find? (·.ticket = t) with
    | none => exact Or.inl rfl
    | some o =>
      have hne : o.ticket ≠ ticket := hord o (List.mem_of_find?_eq_some ho)
      refine Or.inl ?_
      simp [position?, List.find?_append, hne]
  | adjusted delta => exact Or.inl rfl

theorem orders_applyEvents {s : Server} {events : List ServerEvent} {o : PendingOrder}
    (h : o ∈ (s.applyEvents events).orders) : o ∈ s.orders := by
  induction events generalizing s with
  | nil => exact h
  | cons ev events ih => exact applyEvent_orders (ih h)

theorem position?_applyEvents {s : Server} {ticket : Nat} (hord : ∀ o ∈ s.orders, o.ticket ≠ ticket)
    (events : List ServerEvent) :
    (s.applyEvents events).position? ticket = s.position? ticket ∨
      (s.applyEvents events).position? ticket = none := by
  induction events generalizing s with
  | nil => exact Or.inl rfl
  | cons ev events ih =>
    have hord' : ∀ o ∈ (s.applyEvent ev).orders, o.ticket ≠ ticket := fun o ho => hord o (applyEvent_orders ho)
    rcases ih hord' with heq | hnone
    · rcases position?_applyEvent hord ev with heq' | hnone'
      · exact Or.inl (heq.trans heq')
      · exact Or.inr (heq.trans hnone')
    · exact Or.inr hnone

/-- The position the request refers to, if any, has not the ticket of a pending order. -/
def TargetIsPosition (s : Server) : OrderBody → Prop
  | .close _ _ ticket _ _ _ _ => ∀ o ∈ s.orders, o.ticket ≠ ticket
  | .sltp ticket _ _ => ∀ o ∈ s.orders, o.ticket ≠ ticket
  | _ => True

theorem TargetIsPosition.of_orders {s s' : Server} {body : OrderBody} (h : s.TargetIsPosition body)
    (hsub : ∀ o ∈ s'.orders, o ∈ s.orders) : s'.TargetIsPosition body := by
  cases body with
  | close | sltp => exact fun o ho => h o (hsub o ho)
  | entry | pending | remove => trivial

/-- What cannot be executed does not become executable by what the server does on its own. -/
theorem not_canPerform_applyEvents {s : Server} {body : OrderBody} (htarget : s.TargetIsPosition body)
    (h : ¬ s.CanPerform body) (events : List ServerEvent) : ¬ (s.applyEvents events).CanPerform body := by
  cases body with
  | entry | pending => exact absurd trivial h
  | close direction volume ticket =>
    simp only [CanPerform]
    rcases position?_applyEvents htarget events with heq | hnone
    · rw [heq]
      exact h
    · rw [hnone]
      rintro ⟨p, hp, _⟩
      cases hp
  | sltp ticket =>
    simp only [CanPerform]
    rcases position?_applyEvents htarget events with heq | hnone
    · rw [heq]
      exact h
    · rw [hnone]
      exact fun h => by cases h
  | remove ticket =>
    simp only [CanPerform, List.find?_isSome] at *
    rintro ⟨o, ho, heq⟩
    exact h ⟨o, orders_applyEvents ho, heq⟩

end Server

/-! ### The environment -/

structure Tick where
  bid : ℚ
  ask : ℚ
  time : Int
  deriving DecidableEq, Repr

/-- `symbol_info`. A field the terminal does not know is 0. -/
structure SymbolInfo where
  tradeTickValue : ℚ := 1
  tradeTickSize : ℚ := 1
  volumeMin : ℚ := 1 / 100
  volumeStep : ℚ := 1 / 100
  volumeMax : ℚ := 100
  fillingMode : Nat := 2
  deriving DecidableEq, Repr

/-- What the server does with an order request, and what the terminal answers (`none`: `None`). -/
structure SendReply where
  executes : Bool
  answer : Option OrderResult
  price : ℚ := 0
  profit : ℚ := 0
  partly : Option ℚ := none
  deriving DecidableEq, Repr

/-- The answer to a call of the terminal. -/
structure Reply where
  /-- What the server did since the last call. -/
  events : List ServerEvent := []
  /-- A read of positions, orders or the account succeeds. -/
  readOk : Bool := true
  tick : Option Tick := none
  info : Option SymbolInfo := some {}
  /-- `history_deals_get`: tickets and profits; empty if it fails. -/
  deals : List (Nat × ℚ) := []
  lastError : String := "(1, 'Success')"
  send : SendReply := { executes := false, answer := none }
  deriving DecidableEq, Repr

/-- An `order_send` call: the server it reached, the request, and what became of it. -/
structure Sent where
  before : Server
  request : OrderRequest
  executed : Bool
  answer : Option OrderResult
  deriving DecidableEq, Repr

/-- The bot `β` and the terminal it is connected to. -/
structure World (β : Type) where
  server : Server
  env : Nat → Reply
  calls : Nat := 0
  sent : List Sent := []
  slept : List ℚ := []
  bot : β

/-- An exception of a broker method: a `BrokerError` with its text, or one that is not an `OrbError`. -/
inductive Failure
  | broker (text : String)
  | other
  deriving DecidableEq, Repr

abbrev Mt5 (β : Type) := Lib.Program Failure (World β)

namespace World

variable {β : Type}

/-- The reply to the next call. -/
def reply (w : World β) : Reply := w.env w.calls

/-- The server when the next call reaches it. -/
def settled (w : World β) : Server := w.server.applyEvents w.reply.events

/-- After a call that only reads. -/
def afterRead (w : World β) : World β := { w with server := w.settled, calls := w.calls + 1 }

/-- A request whose target is gone is answered with `POSITION_CLOSED`. -/
def impossible : OrderResult := { retcode := 10036 }

/-- What becomes of a request: the server after it, whether it was executed, and the answer. -/
def outcome (w : World β) (request : OrderRequest) : Server × Bool × Option OrderResult :=
  if w.reply.send.executes then
    match w.settled.perform w.reply.send.partly w.reply.send.price w.reply.send.profit request.body with
    | some server => (server, true, w.reply.send.answer)
    | none => (w.settled, false, some impossible)
  else (w.settled, false, w.reply.send.answer)

def afterSend (w : World β) (request : OrderRequest) : World β :=
  { w with
    server := (w.outcome request).1
    calls := w.calls + 1
    sent := w.sent ++ [⟨w.settled, request, (w.outcome request).2.1, (w.outcome request).2.2⟩] }

end World

/-! ### Calls -/

variable {β : Type}

/-- A call that reads something off the reply and the server. -/
def readCall {α : Type} (f : Reply → Server → α) : Mt5 β α := do
  let w ← get
  set w.afterRead
  return f w.reply w.settled

/-- `order_send`. -/
def orderSend (request : OrderRequest) : Mt5 β (Option OrderResult) := do
  let w ← get
  set (w.afterSend request)
  return (w.outcome request).2.2

def symbolInfoTick : Mt5 β (Option Tick) := readCall fun r _ => r.tick

def symbolInfo : Mt5 β (Option SymbolInfo) := readCall fun r _ => r.info

/-- `positions_get(symbol=...) or ()`. -/
def positionsGet : Mt5 β (List Position) := readCall fun r s => if r.readOk then s.positions else []

/-- `orders_get(symbol=...) or ()`. -/
def ordersGet : Mt5 β (List PendingOrder) := readCall fun r s => if r.readOk then s.orders else []

/-- The balance of `account_info`. -/
def accountBalance : Mt5 β (Option ℚ) := readCall fun r s => if r.readOk then some s.balance else none

def historyDealsGet : Mt5 β (List (Nat × ℚ)) := readCall fun r _ => r.deals

def lastError : Mt5 β String := readCall fun r _ => r.lastError

end FreqTrading
