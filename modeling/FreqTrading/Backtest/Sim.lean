import FreqTrading.Lib.Rounding
import FreqTrading.Exits.Babysitter

/-!
# The simulated broker

`Sim` of `scripts/sim_realistic.py`: resting limit orders and open positions on one candle stream, with intrabar
fills and stops. A position is addressed by its ticket, where the code passes the object. The exit manager is a
function of the open positions; its state goes through `onBar`. The tags of an order are left out, and prices
are exact.
-/

namespace FreqTrading

open Lib

/-! ### Orders, positions and trades -/

namespace Sim

structure Pending where
  ticket : Nat
  side : Direction
  px : ℚ
  sl : ℚ
  volume : ℚ
  placedTs : Int
  label : String
  deriving DecidableEq, Repr

/-- An entry of `fills`: reason, price, volume and profit of a close. -/
structure Fill where
  reason : String
  px : ℚ
  volume : ℚ
  pnl : ℚ
  deriving DecidableEq, Repr

structure Position where
  ticket : Nat
  type : Direction
  volume : ℚ
  priceOpen : ℚ
  sl : ℚ
  openTs : Int
  placedTs : Int
  fills : List Fill := []
  pnl : ℚ := 0
  deriving DecidableEq, Repr

/-- An entry of `closed`. -/
structure Trade where
  ticket : Nat
  dir : Direction
  entry : ℚ
  openTs : Int
  signalTs : Int
  closeTs : Int
  pnl : ℚ
  fills : List Fill
  deriving DecidableEq, Repr

/-- A position as an exit manager reads it. -/
def Position.seen (p : Position) : FreqTrading.Position where
  ticket := p.ticket
  magic := 0
  direction := p.type
  volume := p.volume
  priceOpen := p.priceOpen
  sl := p.sl

end Sim

structure Sim where
  qty : ℚ
  halfSpread : ℚ
  comm : ℚ
  valuePerMove : ℚ
  pendings : List Sim.Pending := []
  positions : List Sim.Position := []
  closed : List Sim.Trade := []
  ticket : Nat := 0
  equity : ℚ := 0
  curve : List (Int × ℚ) := []
  deriving DecidableEq, Repr

namespace Sim

/-- `__init__`. -/
def create (qty spread comm valuePerMove : ℚ) : Sim where
  qty := qty
  halfSpread := spread / 2
  comm := comm
  valuePerMove := valuePerMove

def addonFrac : ℚ := 8 / 10

def limitTtlMicros : Int := 30 * 60 * 1000000

def spikeMinAgeMicros : Int := 120 * 1000000

/-! ### Placing orders -/

/-- The level of the first limit order: a risk unit `d` behind the signal's price. -/
def entryLevel (direction : Direction) (price d : ℚ) : ℚ :=
  match direction with
  | .long => price - d
  | .short => price + d

/-- The orders of a limit set: the entry, and an add-on nearer to the stop they share. -/
def limitOrders (s : Sim) (direction : Direction) (price d : ℚ) (ts : Int) : List Pending :=
  let l1 := entryLevel direction price d
  let sl := entryLevel direction l1 d
  let l2 := entryLevel direction l1 (addonFrac * d)
  [⟨s.ticket + 1, direction, l1, sl, s.qty, ts, "entry"⟩, ⟨s.ticket + 2, direction, l2, sl, s.qty, ts, "addon"⟩]

/-- `place_limit_set`, for a signal with this stop. -/
def placeLimitSet (s : Sim) (sig : Signal) (stop : ℚ) (ts : Int) : Sim :=
  let d := |sig.price - stop|
  if d ≤ 0 then s
  else { s with ticket := s.ticket + 2, pendings := s.pendings ++ s.limitOrders sig.direction sig.price d ts }

/-- The fill of a market entry: half the spread worse than the price. -/
def marketFill (s : Sim) (direction : Direction) (price : ℚ) : ℚ :=
  match direction with
  | .long => price + s.halfSpread
  | .short => price - s.halfSpread

/-- `place_market`, for a signal with this stop. -/
def placeMarket (s : Sim) (sig : Signal) (stop : ℚ) (ts : Int) (lot : ℚ) : Sim :=
  { s with
    ticket := s.ticket + 1
    positions := s.positions ++
      [{ ticket := s.ticket + 1, type := sig.direction, volume := lot, priceOpen := s.marketFill sig.direction sig.price
         sl := stop, openTs := ts, placedTs := ts }] }

/-! ### Closing -/

/-- The profit of closing a volume at a price, with its share of the commission. -/
def profit (s : Sim) (p : Position) (px vol : ℚ) : ℚ :=
  let sign : ℚ := match p.type with
    | .long => 1
    | .short => -1
  sign * (px - p.priceOpen) * vol * s.valuePerMove - s.comm * vol

/-- A position after a close of part of it. -/
def Position.reduced (p : Position) (fill : Fill) : Position :=
  { p with pnl := p.pnl + fill.pnl, volume := roundPlaces 8 (p.volume - fill.volume), fills := p.fills ++ [fill] }

def Position.trade (p : Position) (closeTs : Int) : Trade where
  ticket := p.ticket
  dir := p.type
  entry := p.priceOpen
  openTs := p.openTs
  signalTs := p.placedTs
  closeTs := closeTs
  pnl := p.pnl
  fills := p.fills

def find (s : Sim) (ticket : Nat) : Option Position := s.positions.find? (·.ticket = ticket)

/-- The position of a ticket, changed in place. -/
def update (s : Sim) (ticket : Nat) (f : Position → Position) : Sim :=
  { s with positions := s.positions.map fun p => if p.ticket = ticket then f p else p }

/-- `_close`, of the position with this ticket. -/
def close (s : Sim) (ticket : Nat) (px vol : ℚ) (reason : String) (ts : Int) : Sim :=
  match s.find ticket with
  | none => s
  | some pos =>
    let fill : Fill := ⟨reason, px, vol, s.profit pos px vol⟩
    let s := { s with equity := s.equity + fill.pnl }
    if (pos.reduced fill).volume ≤ 1 / 1000000000 then
      { s with
        closed := s.closed ++ [(pos.reduced fill).trade ts]
        positions := s.positions.eraseP (·.ticket = ticket) }
    else s.update ticket (·.reduced fill)

/-! ### One bar -/

variable (c : Candle)

/-- TTL and spike-cancel: the order is still resting on this bar. -/
def Pending.rests (spike : Bool) (p : Pending) : Bool :=
  !(limitTtlMicros ≤ c.ts - p.placedTs) && !(spike && spikeMinAgeMicros ≤ c.ts - p.placedTs)

/-- The bar touches the level. -/
def Pending.touched (p : Pending) : Bool :=
  match p.side with
  | .long => c.low ≤ p.px
  | .short => p.px ≤ c.high

/-- The position that a filled order becomes. -/
def filled (s : Sim) (p : Pending) : Position where
  ticket := p.ticket
  type := p.side
  volume := p.volume
  priceOpen := s.marketFill p.side p.px
  sl := p.sl
  openTs := c.ts
  placedTs := p.placedTs

def expire (s : Sim) (spike : Bool) : Sim := { s with pendings := s.pendings.filter (·.rests c spike) }

def fillLimits (s : Sim) : Sim :=
  { s with
    positions := s.positions ++ (s.pendings.filter (·.touched c)).map (s.filled c)
    pendings := s.pendings.filter fun p => !p.touched c }

/-- The bar reaches the stop. -/
def Position.stopHit (p : Position) : Bool :=
  match p.type with
  | .long => c.low ≤ p.sl
  | .short => p.sl ≤ c.high

/-- The stops, over a snapshot of the positions. -/
def stopOut : Sim → List Position → Sim
  | s, [] => s
  | s, pos :: rest => stopOut (if pos.stopHit c then s.close pos.ticket pos.sl pos.volume "sl" c.ts else s) rest

/-- The price of a close at the bar's close. -/
def exitPx (s : Sim) (p : Position) : ℚ :=
  match p.type with
  | .long => c.close - s.halfSpread
  | .short => c.close + s.halfSpread

/-- An action of the exit manager; a stop is only moved if it tightens. -/
def act (s : Sim) : SitterAction → Sim
  | .partialClose ticket volume =>
    match s.find ticket with
    | none => s
    | some pos => s.close ticket (s.exitPx c pos) (min volume pos.volume) "partial_2r" c.ts
  | .updateSl ticket sl =>
    match s.find ticket with
    | none => s
    | some pos => if pos.seen.tightens sl then s.update ticket fun p => { p with sl := sl } else s

/-- Flatten a snapshot of the positions. -/
def flatten : Sim → List Position → Sim
  | s, [] => s
  | s, pos :: rest => flatten (s.close pos.ticket (s.exitPx c pos) pos.volume "daily_halt" c.ts) rest

/-- The daily-loss halt: flatten, and pull the orders. -/
def halt (s : Sim) : Sim := { s.flatten c s.positions with pendings := [] }

/-- The bar up to the exit manager. -/
def replay (s : Sim) (spike : Bool) : Sim :=
  let s := (s.expire c spike).fillLimits c
  s.stopOut c s.positions

/-- `on_bar`, with the exit manager's answer to the open positions. -/
def onBar {σ : Type} (s : Sim) (sitter : List FreqTrading.Position → List SitterAction × σ) (spike halted : Bool) : Sim × σ :=
  let s := s.replay c spike
  let (acts, st) := sitter (s.positions.map (·.seen))
  let s := acts.foldl (act c) s
  let s := if halted then s.halt c else s
  ({ s with curve := s.curve ++ [(c.ts, s.equity)] }, st)

/-! ### What a close leaves alone -/

section Frame

variable {s : Sim} {c}

theorem find_mem {ticket : Nat} {p : Position} (h : s.find ticket = some p) : p ∈ s.positions ∧ p.ticket = ticket :=
  ⟨List.mem_of_find?_eq_some h, by simpa using List.find?_some h⟩

/-- When an order was placed and filled, of every position there is or was. -/
def stamps (s : Sim) : List (Int × Int) :=
  s.positions.map (fun p => (p.placedTs, p.openTs)) ++ s.closed.map fun t => (t.signalTs, t.openTs)

theorem mem_stamps {k : Int × Int} : k ∈ s.stamps ↔
    (∃ p ∈ s.positions, (p.placedTs, p.openTs) = k) ∨ ∃ t ∈ s.closed, (t.signalTs, t.openTs) = k := by
  simp only [stamps, List.mem_append, List.mem_map]

/-- Same orders and the same fills. -/
structure SameFills (s s' : Sim) : Prop where
  stamps : ∀ k, k ∈ s'.stamps ↔ k ∈ s.stamps
  pendings : s'.pendings = s.pendings

theorem SameFills.refl (s : Sim) : SameFills s s := ⟨fun _ => Iff.rfl, rfl⟩

theorem SameFills.trans {s s' s'' : Sim} (h : SameFills s s') (h' : SameFills s' s'') : SameFills s s'' :=
  ⟨fun k => (h'.stamps k).trans (h.stamps k), h'.pendings.trans h.pendings⟩

theorem update_sameFills (s : Sim) (ticket : Nat) {f : Position → Position}
    (hf : ∀ p, (f p).placedTs = p.placedTs ∧ (f p).openTs = p.openTs) : SameFills s (s.update ticket f) := by
  refine ⟨fun k => ?_, rfl⟩
  have hmap : (s.update ticket f).positions.map (fun p => (p.placedTs, p.openTs)) =
      s.positions.map fun p => (p.placedTs, p.openTs) := by
    simp only [update, List.map_map]
    refine List.map_congr_left fun p _ => ?_
    simp only [Function.comp]
    split
    · rw [(hf p).1, (hf p).2]
    · rfl
  unfold stamps
  rw [hmap]
  rfl

theorem mem_eraseP_or {ticket : Nat} {p q : Position} {ps : List Position} (hp : ps.find? (·.ticket = ticket) = some p) :
    q ∈ ps ↔ q = p ∨ q ∈ ps.eraseP (·.ticket = ticket) := by
  induction ps with
  | nil => cases hp
  | cons x xs ih =>
    by_cases hx : x.ticket = ticket
    · obtain rfl : x = p := by simpa [List.find?_cons, hx] using hp
      simp [hx]
    · have hrest : xs.find? (·.ticket = ticket) = some p := by simpa [List.find?_cons, hx] using hp
      simp only [List.eraseP_cons, hx, decide_false, cond_false, List.mem_cons, ih hrest]
      tauto

theorem close_sameFills (s : Sim) (ticket : Nat) (px vol : ℚ) (reason : String) (ts : Int) :
    SameFills s (s.close ticket px vol reason ts) := by
  unfold close
  split
  · exact .refl s
  · next pos hpos =>
    dsimp only
    split
    · refine ⟨fun k => ?_, rfl⟩
      have hmem := fun q => mem_eraseP_or (q := q) hpos
      simp only [mem_stamps, List.mem_append, List.mem_singleton]
      constructor
      · rintro (⟨p, hp, hk⟩ | ⟨t, ht | rfl, hk⟩)
        · exact Or.inl ⟨p, (hmem p).mpr (Or.inr hp), hk⟩
        · exact Or.inr ⟨t, ht, hk⟩
        · exact Or.inl ⟨pos, (find_mem hpos).1, hk⟩
      · rintro (⟨p, hp, hk⟩ | ⟨t, ht, hk⟩)
        · rcases (hmem p).mp hp with rfl | hrest
          · exact Or.inr ⟨_, Or.inr rfl, hk⟩
          · exact Or.inl ⟨p, hrest, hk⟩
        · exact Or.inr ⟨t, Or.inl ht, hk⟩
    · have hbooked : SameFills s { s with equity := s.equity + s.profit pos px vol } := ⟨fun _ => Iff.rfl, rfl⟩
      exact hbooked.trans (update_sameFills (f := (·.reduced _)) _ ticket fun p => ⟨rfl, rfl⟩)

theorem stopOut_sameFills (c : Candle) (ps : List Position) (s : Sim) : SameFills s (s.stopOut c ps) := by
  induction ps generalizing s with
  | nil => exact .refl s
  | cons pos rest ih =>
    refine SameFills.trans ?_ (ih _)
    split
    · exact close_sameFills ..
    · exact .refl s

theorem flatten_sameFills (c : Candle) (ps : List Position) (s : Sim) : SameFills s (s.flatten c ps) := by
  induction ps generalizing s with
  | nil => exact .refl s
  | cons pos rest ih => exact (close_sameFills ..).trans (ih _)

theorem act_sameFills (c : Candle) (s : Sim) (action : SitterAction) : SameFills s (s.act c action) := by
  unfold act
  cases action with
  | partialClose ticket volume =>
    dsimp only
    split
    · exact .refl s
    · exact close_sameFills ..
  | updateSl ticket sl =>
    dsimp only
    split
    · exact .refl s
    · split
      · exact update_sameFills s ticket fun p => ⟨rfl, rfl⟩
      · exact .refl s

theorem acts_sameFills (c : Candle) (acts : List SitterAction) (s : Sim) : SameFills s (acts.foldl (act c) s) := by
  induction acts generalizing s with
  | nil => exact .refl s
  | cons action rest ih => exact (act_sameFills c s action).trans (ih _)

theorem halt_stamps (c : Candle) (s : Sim) (k : Int × Int) : k ∈ (s.halt c).stamps ↔ k ∈ s.stamps :=
  (flatten_sameFills c s.positions s).stamps k

theorem replay_stamps (s : Sim) (spike : Bool) (k : Int × Int) : k ∈ (s.replay c spike).stamps ↔
    k ∈ s.stamps ∨ ∃ p ∈ s.pendings, p.rests c spike = true ∧ p.touched c = true ∧ k = (p.placedTs, c.ts) := by
  unfold replay
  refine ((stopOut_sameFills c _ _).stamps k).trans ?_
  simp only [mem_stamps, fillLimits, expire, List.mem_append, List.mem_map, List.mem_filter]
  constructor
  · rintro (⟨p, hp | ⟨order, ⟨⟨horder, hrests⟩, htouched⟩, rfl⟩, hk⟩ | hclosed)
    · exact Or.inl (Or.inl ⟨p, hp, hk⟩)
    · exact Or.inr ⟨order, horder, hrests, htouched, hk.symm⟩
    · exact Or.inl (Or.inr hclosed)
  · rintro ((⟨p, hp, hk⟩ | hclosed) | ⟨order, horder, hrests, htouched, hk⟩)
    · exact Or.inl ⟨p, Or.inl hp, hk⟩
    · exact Or.inr hclosed
    · exact Or.inl ⟨_, Or.inr ⟨order, ⟨⟨horder, hrests⟩, htouched⟩, rfl⟩, hk.symm⟩

/-- **What a bar fills**: the orders that still rest and are touched, at the time of the bar. -/
theorem onBar_stamps {σ : Type} (s : Sim) (sitter : List FreqTrading.Position → List SitterAction × σ)
    (spike halted : Bool) (k : Int × Int) : k ∈ (s.onBar c sitter spike halted).1.stamps ↔
      k ∈ s.stamps ∨ ∃ p ∈ s.pendings, p.rests c spike = true ∧ p.touched c = true ∧ k = (p.placedTs, c.ts) := by
  unfold onBar
  dsimp only
  rw [← replay_stamps]
  have hacts := acts_sameFills c (sitter ((s.replay c spike).positions.map (·.seen))).1 (s.replay c spike)
  split
  · exact (halt_stamps c _ k).trans (hacts.stamps k)
  · exact hacts.stamps k

theorem onBar_pendings {σ : Type} (s : Sim) (sitter : List FreqTrading.Position → List SitterAction × σ)
    (spike halted : Bool) : (s.onBar c sitter spike halted).1.pendings ⊆ s.pendings := by
  have hreplay : (s.replay c spike).pendings ⊆ s.pendings := by
    unfold replay
    dsimp only
    rw [(stopOut_sameFills c _ _).pendings]
    exact fun p hp => (List.mem_filter.mp (List.mem_filter.mp hp).1).1
  unfold onBar
  dsimp only
  split
  · exact List.nil_subset _
  · show (List.foldl (act c) (s.replay c spike) _).pendings ⊆ _
    rw [(acts_sameFills c _ _).pendings]
    exact hreplay

/-! ### Tickets -/

/-- Positions only go, and trades only come. -/
structure Trims (s s' : Sim) : Prop where
  tickets : (s'.positions.map (·.ticket)).Sublist (s.positions.map (·.ticket))
  pendings : s'.pendings = s.pendings
  closed : s.closed <+: s'.closed
  /-- A new trade is of a position there was. -/
  trades : ∀ t ∈ s'.closed, t ∈ s.closed ∨ ∃ q ∈ s.positions, q.ticket = t.ticket
  ticket : s'.ticket = s.ticket
  halfSpread : s'.halfSpread = s.halfSpread

theorem Trims.refl (s : Sim) : Trims s s := ⟨List.Sublist.refl _, rfl, List.prefix_rfl, fun _ => Or.inl, rfl, rfl⟩

theorem Trims.trans {s s' s'' : Sim} (h : Trims s s') (h' : Trims s' s'') : Trims s s'' := by
  refine ⟨h'.tickets.trans h.tickets, h'.pendings.trans h.pendings, h.closed.trans h'.closed, fun t ht => ?_,
    h'.ticket.trans h.ticket, h'.halfSpread.trans h.halfSpread⟩
  rcases h'.trades t ht with hold | ⟨q, hq, heq⟩
  · exact h.trades t hold
  · obtain ⟨r, hr, hticket⟩ := List.mem_map.mp (h.tickets.subset (List.mem_map_of_mem hq))
    exact Or.inr ⟨r, hr, hticket.trans heq⟩

theorem update_trims (s : Sim) (ticket : Nat) {f : Position → Position} (hf : ∀ p, (f p).ticket = p.ticket) :
    Trims s (s.update ticket f) := by
  have hmap : (s.update ticket f).positions.map (·.ticket) = s.positions.map (·.ticket) := by
    simp only [update, List.map_map]
    refine List.map_congr_left fun p _ => ?_
    simp only [Function.comp]
    split
    · exact hf p
    · rfl
  exact ⟨by rw [hmap], rfl, List.prefix_rfl, fun _ => Or.inl, rfl, rfl⟩

theorem close_trims (s : Sim) (ticket : Nat) (px vol : ℚ) (reason : String) (ts : Int) :
    Trims s (s.close ticket px vol reason ts) := by
  unfold close
  split
  · exact .refl s
  · next pos hpos =>
    dsimp only
    split
    · refine ⟨(List.eraseP_sublist ..).map _, rfl, List.prefix_append .., fun t ht => ?_, rfl, rfl⟩
      rcases List.mem_append.mp ht with hold | hnew
      · exact Or.inl hold
      · obtain rfl := List.mem_singleton.mp hnew
        exact Or.inr ⟨pos, (find_mem hpos).1, rfl⟩
    · have hbooked : Trims s { s with equity := s.equity + s.profit pos px vol } :=
        ⟨List.Sublist.refl _, rfl, List.prefix_rfl, fun _ => Or.inl, rfl, rfl⟩
      exact hbooked.trans (update_trims (f := (·.reduced _)) _ ticket fun p => rfl)

theorem stopOut_trims (c : Candle) (ps : List Position) (s : Sim) : Trims s (s.stopOut c ps) := by
  induction ps generalizing s with
  | nil => exact .refl s
  | cons pos rest ih =>
    refine Trims.trans ?_ (ih _)
    split
    · exact close_trims ..
    · exact .refl s

theorem flatten_trims (c : Candle) (ps : List Position) (s : Sim) : Trims s (s.flatten c ps) := by
  induction ps generalizing s with
  | nil => exact .refl s
  | cons pos rest ih => exact (close_trims ..).trans (ih _)

theorem act_trims (c : Candle) (s : Sim) (action : SitterAction) : Trims s (s.act c action) := by
  unfold act
  cases action with
  | partialClose ticket volume =>
    dsimp only
    split
    · exact .refl s
    · exact close_trims ..
  | updateSl ticket sl =>
    dsimp only
    split
    · exact .refl s
    · split
      · exact update_trims s ticket fun p => rfl
      · exact .refl s

theorem acts_trims (c : Candle) (acts : List SitterAction) (s : Sim) : Trims s (acts.foldl (act c) s) := by
  induction acts generalizing s with
  | nil => exact .refl s
  | cons action rest ih => exact (act_trims c s action).trans (ih _)

/-! ### The stops of a bar -/

/-- No two positions have the same ticket, and all of them were issued. -/
structure Ticketed (s : Sim) : Prop where
  nodup : (s.positions.map (·.ticket)).Nodup
  issued : ∀ p ∈ s.positions, p.ticket ≤ s.ticket

theorem Ticketed.trims {s s' : Sim} (h : s.Ticketed) (ht : Trims s s') : s'.Ticketed := by
  refine ⟨h.nodup.sublist ht.tickets, fun p hp => ?_⟩
  obtain ⟨q, hq, heq⟩ := List.mem_map.mp (ht.tickets.subset (List.mem_map_of_mem hp))
  rw [← heq, ht.ticket]
  exact h.issued q hq

theorem Trims.absent {s s' : Sim} (h : Trims s s') {ticket : Nat} (habsent : ∀ q ∈ s.positions, q.ticket ≠ ticket) :
    ∀ q ∈ s'.positions, q.ticket ≠ ticket := by
  intro q hq heq
  obtain ⟨r, hr, hticket⟩ := List.mem_map.mp (h.tickets.subset (List.mem_map_of_mem hq))
  exact habsent r hr (hticket.trans heq)

theorem find_of_mem {ps : List Position} (hnodup : (ps.map (·.ticket)).Nodup) {p : Position} (hp : p ∈ ps) :
    ps.find? (·.ticket = p.ticket) = some p := by
  induction ps with
  | nil => cases hp
  | cons x xs ih =>
    rw [List.map_cons, List.nodup_cons] at hnodup
    rcases List.mem_cons.mp hp with rfl | hrest
    · simp
    · have hne : x.ticket ≠ p.ticket := fun heq => hnodup.1 (heq ▸ List.mem_map_of_mem hrest)
      simpa [List.find?_cons, hne] using ih hnodup.2 hrest

theorem absent_eraseP {ps : List Position} (hnodup : (ps.map (·.ticket)).Nodup) {p : Position} (hp : p ∈ ps) :
    ∀ q ∈ ps.eraseP (·.ticket = p.ticket), q.ticket ≠ p.ticket := by
  induction ps with
  | nil => cases hp
  | cons x xs ih =>
    rw [List.map_cons, List.nodup_cons] at hnodup
    intro q hq
    by_cases hx : x.ticket = p.ticket
    · simp only [List.eraseP_cons, hx, decide_true, cond_true] at hq
      intro heq
      exact hnodup.1 (hx ▸ heq ▸ List.mem_map_of_mem hq)
    · have hrest : p ∈ xs := (List.mem_cons.mp hp).resolve_left fun heq => hx (heq ▸ rfl)
      simp only [List.eraseP_cons, hx, decide_false, cond_false, List.mem_cons] at hq
      rcases hq with rfl | hq
      · exact hx
      · exact ih hnodup.2 hrest q hq

theorem close_whole (h : s.Ticketed) {p : Position} (hp : p ∈ s.positions) (ts : Int) :
    s.close p.ticket p.sl p.volume "sl" ts = { s with
      equity := s.equity + s.profit p p.sl p.volume
      closed := s.closed ++ [(p.reduced ⟨"sl", p.sl, p.volume, s.profit p p.sl p.volume⟩).trade ts]
      positions := s.positions.eraseP (·.ticket = p.ticket) } := by
  have hfind : s.find p.ticket = some p := find_of_mem h.nodup hp
  unfold close
  rw [hfind]
  dsimp only
  refine if_pos ?_
  have hzero : roundPlaces 8 (0 : ℚ) = 0 := by simp [roundPlaces, roundEven]
  simp [Position.reduced, hzero]

/-- The position is closed, at the stop, at the time of the bar. -/
def StoppedAt (c : Candle) (p : Position) (s : Sim) : Prop :=
  (∀ q ∈ s.positions, q.ticket ≠ p.ticket) ∧
    ∃ t ∈ s.closed, t.ticket = p.ticket ∧ t.closeTs = c.ts ∧ ∃ pnl, t.fills.getLast? = some ⟨"sl", p.sl, p.volume, pnl⟩

theorem StoppedAt.trims {p : Position} {s s' : Sim} (h : StoppedAt c p s) (ht : Trims s s') : StoppedAt c p s' := by
  obtain ⟨habsent, t, hmem, hrest⟩ := h
  exact ⟨ht.absent habsent, t, ht.closed.subset hmem, hrest⟩

theorem close_stoppedAt (h : s.Ticketed) {p : Position} (hp : p ∈ s.positions) :
    StoppedAt c p (s.close p.ticket p.sl p.volume "sl" c.ts) := by
  rw [close_whole h hp]
  refine ⟨absent_eraseP h.nodup hp, _, List.mem_append_right _ (List.mem_singleton.mpr rfl), rfl, rfl,
    s.profit p p.sl p.volume, ?_⟩
  simp [Position.trade, Position.reduced]

/-- **Every position of the snapshot whose stop is reached is closed at it.** By induction on the snapshot. -/
theorem stopOut_stops (c : Candle) (ps : List Position) (s : Sim) (h : s.Ticketed) (hnodup : (ps.map (·.ticket)).Nodup)
    (hps : ∀ p ∈ ps, p ∈ s.positions) : ∀ p ∈ ps, p.stopHit c = true → StoppedAt c p (s.stopOut c ps) := by
  induction ps generalizing s with
  | nil => exact fun p hp => by cases hp
  | cons pos rest ih =>
    rw [List.map_cons, List.nodup_cons] at hnodup
    have hpos : pos ∈ s.positions := hps pos (List.mem_cons_self ..)
    intro p hp hhit
    rcases List.mem_cons.mp hp with rfl | hrest
    · rw [stopOut, if_pos hhit]
      exact (close_stoppedAt h hpos).trims (stopOut_trims c rest _)
    · rw [stopOut]
      refine ih _ ?_ hnodup.2 ?_ p hrest hhit
      · split
        · exact h.trims (close_trims ..)
        · exact h
      · intro q hq
        split
        · rw [close_whole h hpos]
          refine (List.mem_eraseP_of_neg ?_).mpr (hps q (List.mem_cons_of_mem _ hq))
          have hne : q.ticket ≠ pos.ticket := fun heq => hnodup.1 (heq ▸ List.mem_map_of_mem hq)
          simpa using hne
        · exact hps q (List.mem_cons_of_mem _ hq)

theorem onBar_stops {σ : Type} (h : s.Ticketed) (hnone : s.pendings = [])
    (sitter : List FreqTrading.Position → List SitterAction × σ) (spike halted : Bool) :
    Trims s (s.onBar c sitter spike halted).1 ∧
      ∀ p ∈ s.positions, p.stopHit c = true → StoppedAt c p (s.onBar c sitter spike halted).1 := by
  have hfilled : (s.expire c spike).fillLimits c = s := by
    cases s
    obtain rfl := hnone
    simp [expire, fillLimits]
  have hreplay : s.replay c spike = s.stopOut c s.positions := by
    unfold replay
    rw [hfilled]
  have hstopped := stopOut_stops c s.positions s h h.nodup fun _ hp => hp
  have htrims := stopOut_trims c s.positions s
  rw [← hreplay] at hstopped htrims
  have hacts := acts_trims c (sitter ((s.replay c spike).positions.map (·.seen))).1 (s.replay c spike)
  have hend : Trims (s.replay c spike) (s.onBar c sitter spike halted).1 := by
    unfold onBar
    dsimp only
    generalize List.foldl (act c) (s.replay c spike) _ = acted at hacts ⊢
    split
    · have hflat := flatten_trims c acted.positions acted
      refine hacts.trans ⟨hflat.tickets, ?_, hflat.closed, hflat.trades, hflat.ticket, hflat.halfSpread⟩
      rw [hacts.pendings, htrims.pendings, hnone]
      rfl
    · exact ⟨hacts.tickets, hacts.pendings, hacts.closed, hacts.trades, hacts.ticket, hacts.halfSpread⟩
  exact ⟨htrims.trans hend, fun p hp hhit => (hstopped p hp hhit).trims hend⟩

theorem placeMarket_ticketed (h : s.Ticketed) (sig : Signal) (stop : ℚ) (ts : Int) (lot : ℚ) :
    (s.placeMarket sig stop ts lot).Ticketed := by
  refine ⟨?_, fun p hp => ?_⟩
  · simp only [placeMarket, List.map_append, List.map_cons, List.map_nil]
    refine List.nodup_append.mpr ⟨h.nodup, List.nodup_singleton _, fun ticket hold ticket' hnew => ?_⟩
    obtain ⟨q, hq, rfl⟩ := List.mem_map.mp hold
    have hle := h.issued q hq
    rw [List.mem_singleton.mp hnew]
    omega
  · rcases List.mem_append.mp hp with hold | hnew
    · exact (h.issued p hold).trans (Nat.le_succ _)
    · rw [List.mem_singleton.mp hnew]
      exact le_refl (s.ticket + 1)

theorem placeMarket_stoppedAt {p : Position} (h : StoppedAt c p s) (hissued : p.ticket ≤ s.ticket) (sig : Signal)
    (stop : ℚ) (ts : Int) (lot : ℚ) : StoppedAt c p (s.placeMarket sig stop ts lot) := by
  refine ⟨fun q hq => ?_, h.2⟩
  rcases List.mem_append.mp hq with hold | hnew
  · exact h.1 q hold
  · rw [List.mem_singleton.mp hnew]
    exact (Nat.lt_succ_of_le hissued).ne'

end Frame

end Sim

end FreqTrading
