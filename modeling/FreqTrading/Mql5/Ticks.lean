import FreqTrading.Lib.Recount
import FreqTrading.Mql5.Entry

/-!
# The EA over its ticks

`OnInit` and `OnTick` of `mql5/SmcXau_EA.mq5` with what they call, at a terminal where positions are opened and closed
between the ticks. The EA keeps its counter of the day, its halt and its last bars in memory, and counts the day's entries
again when it starts, in the clock of the server, so that it may miss some; what this costs of the daily cap is
`entries_capped`.
-/

namespace FreqTrading

open Lib

namespace Ea

/-! ### The terminal -/

/-- A position: its magic and its symbol, when and how it was opened, and how it is now. -/
structure Position where
  magic : Int
  symbol : Text
  openedAt : DateTime
  pos : Opened
  live : Stops.Live
  deriving DecidableEq

/-- A deal that opened a position. -/
structure EntryDeal where
  magic : Int
  symbol : Text
  time : DateTime
  deriving DecidableEq

def Position.deal (p : Position) : EntryDeal := ⟨p.magic, p.symbol, p.openedAt⟩

/-- A chart with the EA: its inputs, its symbol, and the clock of the server, which the terminal's history goes by. -/
structure Chart where
  magic : Int := 20260621
  symbol : Text
  inp : Inputs := {}
  rungs : PartialInputs := {}
  stops : StopInputs := {}
  spec : SymbolSpec := {}
  serverTime : DateTime → Int

variable (chart : Chart)

/-- `POSITION_MAGIC` and `POSITION_SYMBOL` are those of the EA. -/
def Chart.owns (p : Position) : Bool := p.magic = chart.magic && p.symbol = chart.symbol

/-- A position of another program, or of the trader. -/
abbrev Chart.Foreign := { p : Position // chart.owns p = false }

/-- The globals of the EA. -/
structure Globals where
  lastTrigBar : Int := 0
  lastM1Bar : Int := 0
  curDay : Int := -1
  tradesToday : Nat := 0
  dayStartBal : ℚ := 0
  dayHalted : Bool := false
  deriving DecidableEq

/-- The EA at its terminal. -/
structure World where
  ea : Globals := {}
  positions : List Position := []
  ended : List Position := []
  deals : List EntryDeal := []

/-- What becomes of `trade.Buy` or `trade.Sell`. -/
inductive Fill
  | refused
  | accepted
  | executed (price : ℚ)

/-- What the EA reads during a tick, and how the terminal answers what it asks for. -/
structure Tick where
  now : DateTime
  balance : ℚ
  equity : ℚ
  m1Bar : Int
  trigBar : Int
  /-- The balance when `ComputeLot` reads it. -/
  entryBalance : ℚ
  market : Market
  minute : Nat → MinuteBar
  closes : Nat → Bool := fun _ => true
  fill : Fill

inductive Event
  | tick (t : Tick)
  /-- `OnInit`; `reloaded` if the globals are new, `selected` if `HistorySelect` works. -/
  | init (now : DateTime) (balance : ℚ) (reloaded selected : Bool)
  /-- A position is closed at the terminal, by its stop or by others. -/
  | close (k : Nat)
  | others (opened : List chart.Foreign)

/-! ### The EA -/

/-- `DayOfYearUTC`. -/
def dayOfYearUtc (t : DateTime) : Int := restOf t.day + yearOf t.day * 1000

namespace World

variable (w : World)

/-- `HasOpenPosition`. -/
def hasOpenPosition : Bool := w.positions.any chart.owns

/-- The entries that `HistorySelect` finds between the start of the UTC day and now, as if these were server times. -/
def countTradesToday (now : DateTime) (selected : Bool) : Nat :=
  if selected then
    w.deals.countP fun d =>
      d.magic = chart.magic && dayStart now ≤ chart.serverTime d.time && chart.serverTime d.time ≤ now.us
  else 0

/-- `OnInit`. -/
def onInit (now : DateTime) (balance : ℚ) (reloaded selected : Bool) : World :=
  let kept : Globals := if reloaded then {} else w.ea
  { w with
    ea := { kept with
      curDay := dayOfYearUtc now
      dayStartBal := balance
      dayHalted := false
      tradesToday := w.countTradesToday chart now selected } }

/-- `CloseAllOwn`. -/
def closeAllOwn (closes : Nat → Bool) : World :=
  let answered := w.positions.mapIdx fun k p => (p, chart.owns p && closes k)
  { w with
    positions := (answered.filter fun a => !a.2).map Prod.fst
    ended := w.ended ++ (answered.filter fun a => a.2).map Prod.fst }

/-- `RolloverDay`, the new day. -/
def newDay (t : Tick) : World :=
  if dayOfYearUtc t.now ≠ w.ea.curDay then
    { w with
      ea := { w.ea with
        curDay := dayOfYearUtc t.now
        tradesToday := 0
        dayStartBal := t.balance
        dayHalted := false } }
  else w

/-- The loss of the day is at its limit. -/
def LossLimit (equity : ℚ) : Prop :=
  0 < chart.inp.dailyLossPct ∧ 0 < w.ea.dayStartBal ∧
    w.ea.dayStartBal * chart.inp.dailyLossPct / 100 ≤ w.ea.dayStartBal - equity

instance (equity : ℚ) : Decidable (w.LossLimit chart equity) := inferInstanceAs (Decidable (_ ∧ _))

/-- `RolloverDay`, the circuit breaker. -/
def checkLoss (t : Tick) : World :=
  if w.ea.dayHalted = false ∧ w.LossLimit chart t.equity then
    ({ w with ea := { w.ea with dayHalted := true } } : World).closeAllOwn chart t.closes
  else w

/-- `RolloverDay`. -/
def rolloverDay (t : Tick) : World := (w.newDay t).checkLoss chart t

/-- `ManageOpenPositions` on one of the positions. -/
def manage (bar : MinuteBar) (p : Position) : Position :=
  let manageOpenPosition := Stops.manageOpenPosition chart.rungs chart.stops chart.spec.toSymbolVolumes
    chart.spec.toSymbolPrices
  if chart.owns p then { p with live := manageOpenPosition p.pos p.live bar } else p

/-- `ManageOpenPositions`. -/
def manageOpenPositions (t : Tick) : World :=
  let managed := w.positions.mapIdx fun k p => manage chart (t.minute k) p
  { w with
    positions := managed.filter fun p => p.live.isOpen
    ended := w.ended ++ managed.filter fun p => !p.live.isOpen }

/-- The exits, on every new M1 bar. -/
def exits (t : Tick) : World :=
  if t.m1Bar ≠ w.ea.lastM1Bar then
    ({ w with ea := { w.ea with lastM1Bar := t.m1Bar } } : World).manageOpenPositions chart t
  else w

/-- The position of an order that was executed. -/
def opened (t : Tick) (o : Order) (price : ℚ) : Position :=
  let pos : Opened := { direction := o.direction, entry := price, origSl := o.stop, vol0 := o.lot }
  { magic := chart.magic, symbol := chart.symbol, openedAt := t.now, pos, live := Stops.opening pos }

/-- What follows from the order; `g_trades_today` counts the ones that were accepted. -/
def order (t : Tick) (o : Order) : World :=
  let counted : Globals := { w.ea with tradesToday := w.ea.tradesToday + 1 }
  match t.fill with
  | .refused => w
  | .accepted => { w with ea := counted }
  | .executed price =>
    { w with
      ea := counted
      positions := w.positions ++ [opened chart t o price]
      deals := w.deals ++ [(opened chart t o price).deal] }

/-- The entry, on every new bar of `g_trig_tf`. -/
def entry (t : Tick) : World :=
  if t.trigBar = w.ea.lastTrigBar then w
  else
    let w : World := { w with ea := { w.ea with lastTrigBar := t.trigBar } }
    if w.ea.dayHalted then w
    else if w.hasOpenPosition chart then w
    else if chart.inp.maxTradesPerDay ≤ w.ea.tradesToday then w
    else
      match tryEnter chart.inp chart.spec t.market t.now t.entryBalance with
      | none => w
      | some o => w.order chart t o

/-- `OnTick`. -/
def onTick (t : Tick) : World := ((w.rolloverDay chart t).exits chart t).entry chart t

def step : Event chart → World
  | .tick t => w.onTick chart t
  | .init now balance reloaded selected => w.onInit chart now balance reloaded selected
  | .close k => { w with positions := w.positions.eraseIdx k, ended := w.ended ++ w.positions[k]?.toList }
  | .others opened =>
    { w with
      positions := w.positions ++ opened.map Subtype.val
      deals := w.deals ++ opened.map fun p => p.val.deal }

end World

/-! ### What a step leaves as it is -/

variable {chart}

/-- The day, its counter and the entries are as before. -/
structure SameCount (w w' : World) : Prop where
  curDay : w'.ea.curDay = w.ea.curDay
  tradesToday : w'.ea.tradesToday = w.ea.tradesToday
  deals : w'.deals = w.deals

theorem SameCount.refl (w : World) : SameCount w w := ⟨rfl, rfl, rfl⟩

theorem SameCount.trans {w w' w'' : World} (h : SameCount w w') (h' : SameCount w' w'') : SameCount w w'' :=
  ⟨h'.curDay.trans h.curDay, h'.tradesToday.trans h.tradesToday, h'.deals.trans h.deals⟩

namespace World

variable {w : World} {t : Tick}

theorem checkLoss_count : SameCount w (w.checkLoss chart t) := by
  unfold checkLoss
  split <;> exact ⟨rfl, rfl, rfl⟩

theorem exits_count : SameCount w (w.exits chart t) := by
  unfold exits
  split <;> exact ⟨rfl, rfl, rfl⟩

/-- What an entry can do to the counter and the deals. -/
inductive EntryCount (chart : Chart) (t : Tick) (w w' : World) : Prop
  | kept (hsame : SameCount w w')
  | counted (hleft : (w.ea.tradesToday : Int) < chart.inp.maxTradesPerDay) (hday : w'.ea.curDay = w.ea.curDay)
      (hcount : w'.ea.tradesToday = w.ea.tradesToday + 1)
      (hdeals : w'.deals = w.deals ∨ w'.deals = w.deals ++ [⟨chart.magic, chart.symbol, t.now⟩])

theorem entry_count : EntryCount chart t w (w.entry chart t) := by
  unfold entry
  dsimp only
  split_ifs with hbar hhalted hopen hcap
  · exact .kept (.refl w)
  · exact .kept ⟨rfl, rfl, rfl⟩
  · exact .kept ⟨rfl, rfl, rfl⟩
  · exact .kept ⟨rfl, rfl, rfl⟩
  · split
    · exact .kept ⟨rfl, rfl, rfl⟩
    · next o _ =>
      unfold order
      cases t.fill with
      | refused => exact .kept ⟨rfl, rfl, rfl⟩
      | accepted => exact .counted (not_le.mp hcap) rfl rfl (Or.inl rfl)
      | executed price => exact .counted (not_le.mp hcap) rfl rfl (Or.inr rfl)

end World

/-! ### The entries of a day -/

/-- A number for each day of each year. -/
def dayCode (d : Nat) : Int := restOf d + yearOf d * 1000

theorem dayCode_injective {d d' : Nat} (hd : d < maxOrdinal) (hd' : d' < maxOrdinal) (h : dayCode d = dayCode d') :
    d = d' := by
  have hyear : ∀ y, daysBeforeMonth y 13 ≤ 366 := by
    intro y
    rw [daysBeforeMonth_end]
    split <;> omega
  have hrest := (restOf_lt hd).trans_le (hyear _)
  have hrest' := (restOf_lt hd').trans_le (hyear _)
  unfold dayCode at h
  obtain ⟨-, -, hlow, -⟩ := yearOf_spec hd
  obtain ⟨-, -, hlow', -⟩ := yearOf_spec hd'
  have hy : yearOf d = yearOf d' := by omega
  unfold restOf at h hrest hrest'
  rw [hy] at h hlow
  omega

theorem dayCode_nonneg (d : Nat) : 0 ≤ dayCode d := by
  unfold dayCode
  omega

/-- The day that `g_cur_day` stands for; none before the first tick. -/
def DayIs (curDay : Int) : Option Nat → Prop
  | none => curDay = -1
  | some d => d < maxOrdinal ∧ curDay = dayCode d

theorem DayIs.unique {curDay : Int} {current current' : Option Nat} (h : DayIs curDay current)
    (h' : DayIs curDay current') : current = current' := by
  cases current with
  | none =>
    cases current' with
    | none => rfl
    | some d' =>
      have hcode := h'.2
      rw [show curDay = -1 from h] at hcode
      exact absurd (dayCode_nonneg d') (by omega)
  | some d =>
    cases current' with
    | none =>
      have hcode := h.2
      rw [show curDay = -1 from h'] at hcode
      exact absurd (dayCode_nonneg d) (by omega)
    | some d' => rw [dayCode_injective h.1 h'.1 (h.2.symm.trans h'.2)]

theorem dayIs_now (t : DateTime) : DayIs (dayOfYearUtc t) (some t.day) := ⟨t.day_lt, rfl⟩

theorem day_mono {t u : DateTime} (h : t.us ≤ u.us) : t.day ≤ u.day := by
  unfold DateTime.day
  have := Int.ediv_le_ediv (show 0 < microsPerDay by decide) h
  omega

variable (chart) in
/-- A deal of the EA on this chart. -/
def Chart.entered (d : EntryDeal) : Bool := d.magic = chart.magic && d.symbol = chart.symbol

variable (chart) in
/-- The days of the EA's entries. -/
def World.entryDays (w : World) : List Nat := (w.deals.filter chart.entered).map fun d => d.time.day

variable (chart) in
/-- A count of the day's entries that does not find all of them. -/
def World.Misses (w : World) (now : DateTime) (selected : Bool) : Prop :=
  w.countTradesToday chart now selected < (w.entryDays chart).count now.day

instance (w : World) (now : DateTime) (selected : Bool) : Decidable (w.Misses chart now selected) :=
  inferInstanceAs (Decidable (_ < _))

variable (chart) in
/-- A step, with the days of the counts that missed some. -/
def audited (s : World × List Nat) (e : Event chart) : World × List Nat :=
  (s.1.step chart e,
    match e with
    | .init now _ _ selected => if s.1.Misses chart now selected then s.2 ++ [now.day] else s.2
    | _ => s.2)

/-- When the EA runs. -/
def Event.time? : Event chart → Option DateTime
  | .tick t => some t.now
  | .init now _ _ _ => some now
  | .close _ | .others _ => none

variable (chart) in
/-- The counter of the EA against the entries it made. -/
structure Counts (s : World × List Nat) (current : Option Nat) : Prop where
  day : DayIs s.1.ea.curDay current
  quota : Recounted chart.inp.maxTradesPerDay.toNat (s.1.entryDays chart) s.2 current s.1.ea.tradesToday

/-- The event is not before the day of the EA. -/
def NotBefore (s : World × List Nat) (e : Event chart) : Prop :=
  ∀ u ∈ e.time?, ∀ current, DayIs s.1.ea.curDay (some current) → current ≤ u.day

theorem World.entered_others (w : World) (opened : List chart.Foreign) :
    (w.step chart (.others opened)).deals.filter chart.entered = w.deals.filter chart.entered := by
  have hforeign : (opened.map fun p => p.val.deal).filter chart.entered = [] := by
    rw [List.filter_eq_nil_iff]
    intro d hd
    obtain ⟨p, -, rfl⟩ := List.mem_map.mp hd
    exact ne_true_of_eq_false p.property
  show (w.deals ++ opened.map fun p => p.val.deal).filter chart.entered = _
  rw [List.filter_append, hforeign, List.append_nil]

theorem Counts.newDay {s : World × List Nat} {current : Option Nat} (h : Counts chart s current) {t : Tick}
    (hnot : ∀ d, DayIs s.1.ea.curDay (some d) → d ≤ t.now.day) :
    Counts chart (s.1.newDay t, s.2) (some t.now.day) := by
  unfold World.newDay
  split
  · next hnew =>
    refine ⟨dayIs_now t.now, h.quota.advance fun d hd => ?_⟩
    obtain rfl := hd
    refine lt_of_le_of_ne (hnot d h.day) fun heq => hnew ?_
    exact (heq ▸ h.day.2).symm
  · next hsame =>
    have hday : DayIs s.1.ea.curDay (some t.now.day) := (not_not.mp hsame) ▸ dayIs_now t.now
    exact h.day.unique hday ▸ h

theorem Counts.congr {s : World × List Nat} {current : Option Nat} (h : Counts chart s current) {w' : World}
    (hsame : SameCount s.1 w') : Counts chart (w', s.2) current := by
  refine ⟨hsame.curDay ▸ h.day, ?_⟩
  have hquota := h.quota
  unfold World.entryDays at hquota ⊢
  rw [show (w', s.2).1.deals = s.1.deals from hsame.deals]
  exact hsame.tradesToday ▸ hquota

theorem Counts.entry {s : World × List Nat} {t : Tick} (h : Counts chart s (some t.now.day)) :
    Counts chart (s.1.entry chart t, s.2) (some t.now.day) := by
  cases @World.entry_count chart s.1 t with
  | kept hsame => exact h.congr hsame
  | counted hleft hday hcount hdeals =>
    refine ⟨hday ▸ h.day, ?_⟩
    have hcap : s.1.ea.tradesToday < chart.inp.maxTradesPerDay.toNat := by omega
    show Recounted _ _ _ _ (s.1.entry chart t).ea.tradesToday
    rw [hcount]
    unfold World.entryDays
    rcases hdeals with hsame | hmore
    · rw [hsame]
      exact h.quota.raise (Nat.le_succ _)
    · have hown : chart.entered ⟨chart.magic, chart.symbol, t.now⟩ = true := by simp [Chart.entered]
      rw [hmore, List.filter_append, List.filter_cons_of_pos hown, List.filter_nil, List.map_append, List.map_singleton]
      exact h.quota.spend hcap

theorem Counts.tick {s : World × List Nat} {current : Option Nat} (h : Counts chart s current) {t : Tick}
    (hnot : ∀ d, DayIs s.1.ea.curDay (some d) → d ≤ t.now.day) :
    Counts chart (s.1.onTick chart t, s.2) (some t.now.day) :=
  (((h.newDay hnot).congr World.checkLoss_count).congr World.exits_count).entry

theorem Counts.init {s : World × List Nat} {current : Option Nat} (h : Counts chart s current) {now : DateTime}
    (hnot : ∀ d, DayIs s.1.ea.curDay (some d) → d ≤ now.day) (balance : ℚ) (reloaded selected : Bool) :
    Counts chart (audited chart s (.init now balance reloaded selected)) (some now.day) := by
  -- the count comes after the change of the day
  obtain ⟨used, hused⟩ : ∃ used, Recounted chart.inp.maxTradesPerDay.toNat (s.1.entryDays chart) s.2 (some now.day) used := by
    by_cases hsame : current = some now.day
    · exact ⟨_, hsame ▸ h.quota⟩
    · refine ⟨0, h.quota.advance fun d hd => ?_⟩
      subst hd
      exact lt_of_le_of_ne (hnot d h.day) fun heq => hsame (heq ▸ rfl)
  refine ⟨dayIs_now now, ?_⟩
  show Recounted _ (s.1.entryDays chart) (if _ then _ else _) _ (s.1.countTradesToday chart now selected)
  split
  · exact hused.miss _
  · next hfound => exact hused.recount (not_lt.mp hfound)

theorem audited_counts {s : World × List Nat} {current : Option Nat} (h : Counts chart s current) {e : Event chart}
    (hnot : NotBefore s e) : ∃ next, Counts chart (audited chart s e) next := by
  cases e with
  | tick t => exact ⟨_, h.tick fun d hd => hnot t.now rfl d hd⟩
  | init now balance reloaded selected => exact ⟨_, h.init (fun d hd => hnot now rfl d hd) balance reloaded selected⟩
  | close k => exact ⟨_, h.congr ⟨rfl, rfl, rfl⟩⟩
  | others opened =>
    refine ⟨current, h.day, ?_⟩
    show Recounted _ ((s.1.step chart (.others opened)).entryDays chart) _ _ _
    rw [World.entryDays, World.entered_others]
    exact h.quota

theorem audited_day (s : World × List Nat) {e : Event chart} {t : DateTime} (ht : t ∈ e.time?) :
    (audited chart s e).1.ea.curDay = dayOfYearUtc t := by
  cases e with
  | tick tick =>
    obtain rfl : tick.now = t := Option.some.inj ht
    have hnew : (s.1.newDay tick).ea.curDay = dayOfYearUtc tick.now := by
      unfold World.newDay
      split
      · rfl
      · next hsame => exact (not_not.mp hsame).symm
    have hexits : ((s.1.rolloverDay chart tick).exits chart tick).ea.curDay = dayOfYearUtc tick.now :=
      (World.checkLoss_count.trans World.exits_count).curDay.trans hnew
    cases @World.entry_count chart ((s.1.rolloverDay chart tick).exits chart tick) tick with
    | kept hsame => exact hsame.curDay.trans hexits
    | counted _ hday => exact hday.trans hexits
  | init now => exact Option.some.inj ht ▸ rfl
  | close k => cases ht
  | others opened => cases ht

theorem notBefore_of_ordered {events : List (Event chart)}
    (hordered : (events.filterMap Event.time?).Pairwise fun t u => t.us ≤ u.us) :
    StepsMeet (audited chart) NotBefore ({}, []) events := by
  refine stepsMeet_of_pairwise (R := fun e e' => ∀ t ∈ e.time?, ∀ u ∈ e'.time?, t.us ≤ u.us) ?_ ?_
    (List.pairwise_filterMap.mp hordered)
  · intro s e e' hnot hle u hu d hd
    cases htime : e.time? with
    | none =>
      have hkept : (audited chart s e).1.ea = s.1.ea := by
        cases e with
        | tick | init => cases htime
        | close | others => rfl
      exact hnot u hu d (hkept ▸ hd)
    | some t =>
      rw [audited_day s htime] at hd
      have hnow := Option.some.inj (hd.unique (dayIs_now t))
      exact hnow ▸ day_mono (hle t htime u hu)
  · intro e _ u _ d hd
    have : (-1 : Int) = dayCode d := hd.2
    exact absurd (dayCode_nonneg d) (by omega)

/-- **The cap of a day.** However often the EA starts again, and whatever else is traded at the terminal, a UTC day has no
more of its entries than the cap for itself, and once more for each of its starts that did not find all of them. -/
theorem entries_capped (chart : Chart) (events : List (Event chart))
    (hordered : (events.filterMap Event.time?).Pairwise fun t u => t.us ≤ u.us) :
    let s := run (audited chart) ({}, []) events
    ∀ day, (s.1.entryDays chart).count day ≤ chart.inp.maxTradesPerDay.toNat * (1 + s.2.count day) := by
  intro s day
  have hinit : ∃ current, Counts chart ({}, []) current := ⟨none, rfl, recounted_start _⟩
  obtain ⟨current, h⟩ := run_invariant (I := fun s => ∃ current, Counts chart s current)
    (fun s e ⟨_, h⟩ hnot => audited_counts h hnot) hinit (notBefore_of_ordered hordered)
  exact h.quota.capped day

/-- On a server that is ahead of UTC, what a count misses was traded less than the offset ago. -/
theorem misses_recent {w : World} {now : DateTime} {offset : Int} (hserver : ∀ t, chart.serverTime t = t.us + offset)
    (hahead : 0 ≤ offset) (h : w.Misses chart now true) :
    ∃ d ∈ w.deals, chart.entered d = true ∧ d.time.day = now.day ∧ now.us < d.time.us + offset := by
  by_contra hnone
  push Not at hnone
  refine absurd h (not_lt.mpr ?_)
  unfold World.entryDays World.countTradesToday
  rw [if_pos rfl, List.count_eq_countP, List.countP_map, List.countP_filter]
  refine List.countP_mono_left fun d hd hday => ?_
  obtain ⟨hsame, hown⟩ : d.time.day = now.day ∧ chart.entered d = true := by simpa using hday
  have hlate := hnone d hd hown hsame
  have hstart : dayStart now ≤ d.time.us := by
    have hlow := d.time.inRange.1
    have hlow' := now.inRange.1
    unfold DateTime.day at hsame
    unfold dayStart
    unfold microsPerDay epochDays at *
    omega
  have hmagic : d.magic = chart.magic := by
    unfold Chart.entered at hown
    simp only [Bool.and_eq_true, decide_eq_true_eq] at hown
    exact hown.1
  simp only [hserver, hmagic, decide_true, Bool.true_and, Bool.and_eq_true, decide_eq_true_eq]
  constructor <;> omega

/-! ### A start within the offset of the server -/

/-- H4 breaks out, and the day's last bar closes below the middle of its range. -/
def rising : Market where
  closed
    | .h4 => breakout
    | .d1 => []
    | .trigger => rangeDay.closed .trigger

theorem one_bar_atr : (1 : Int) ≤ 1 := le_rfl

def scalper (rungs : PartialInputs) (stops : StopInputs) : Chart where
  symbol := "XAUUSD".toList
  rungs := rungs
  stops := stops
  inp := { swingLookback := 1, atrPeriod := 1, minConfluences := 2, atr_pos := one_bar_atr }
  serverTime t := t.us + 10800000000

def quietMinute : MinuteBar :=
  { close := 2002, candidateClose := 2002, candidateLow := 2001, candidateHigh := 2003, ask := 2002 + 3 / 10, bid := 2002 }

/-- A tick at midday that may enter, on a bar of its own. -/
def risingTick (bar : Int) : Tick where
  now := midday
  balance := 10000
  equity := 10000
  m1Bar := bar
  trigBar := bar
  entryBalance := 10000
  market := rising
  minute _ := quietMinute
  fill := .executed (2002 + 3 / 10)

/-- Two entries, a start, and a third entry. -/
def restarted (chart : Chart) : List (Event chart) :=
  [.init midday 10000 true true, .tick (risingTick 1), .close 0, .tick (risingTick 2), .close 0,
    .init midday 10000 true true, .tick (risingTick 3)]

theorem entries_capped_restarted :
    ∃ rungs stops,
      let chart := scalper rungs stops
      let s := run (audited chart) ({}, []) (restarted chart)
      (s.1.entryDays chart).count midday.day = 3 ∧ s.2 = [midday.day] ∧
        (s.1.entryDays chart).count midday.day ≤ chart.inp.maxTradesPerDay.toNat * (1 + s.2.count midday.day) := by
  refine ⟨{}, {}, ?_⟩
  intro chart s
  exact ⟨by decide +kernel, by decide +kernel, entries_capped chart (restarted chart) (by decide) midday.day⟩

end Ea

end FreqTrading
