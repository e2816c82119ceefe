import FreqTrading.Mql5.Ticks

/-!
# The positions of the EA

What the EA has at the terminal, over any run of ticks, starts, closes and trades of others: one position at a time, opened
by an order that was called for, with a stop that is moved twice at most and never loosened (`positions_guarded`). Its
circuit breaker closes the position and lets nothing be opened for the rest of the day (`halt_stands`), unless the EA starts
again.
-/

namespace FreqTrading

open Lib

namespace Ea

variable {chart : Chart}

/-! ### Lists of positions -/

theorem map_mapIdx_eq {α β γ : Type} {f : Nat → α → β} {g : β → γ} {h : α → γ} (hf : ∀ k a, g (f k a) = h a) (xs : List α) :
    (xs.mapIdx f).map g = xs.map h := by
  induction xs generalizing f with
  | nil => rfl
  | cons x xs ih => rw [List.mapIdx_cons, List.map_cons, List.map_cons, hf, ih fun k a => hf (k + 1) a]

variable (chart) in
/-- The number of positions of the EA. -/
def World.ownCount (w : World) : Nat := w.positions.countP chart.owns

/-- Some positions are closed, and no others are there. -/
structure Shrinks (w w' : World) : Prop where
  positions : w'.positions.Sublist w.positions
  ended : ∀ p ∈ w'.ended, p ∈ w.ended ∨ p ∈ w.positions

theorem Shrinks.ownCount_le {w w' : World} (h : Shrinks w w') : w'.ownCount chart ≤ w.ownCount chart :=
  h.positions.countP_le

theorem World.closeAllOwn_shrinks (chart : Chart) (w : World) (closes : Nat → Bool) : Shrinks w (w.closeAllOwn chart closes) := by
  have hall : (w.positions.mapIdx fun k p => (p, chart.owns p && closes k)).map Prod.fst = w.positions := by
    have hmap := map_mapIdx_eq (f := fun k p => (p, chart.owns p && closes k)) (g := Prod.fst) (h := id)
      (fun _ _ => rfl) w.positions
    rwa [List.map_id] at hmap
  have hsub : ∀ q, (((w.positions.mapIdx fun k p => (p, chart.owns p && closes k)).filter q).map Prod.fst).Sublist
      w.positions := fun q => by
    conv_rhs => rw [← hall]
    exact List.filter_sublist.map Prod.fst
  refine ⟨hsub _, fun p hp => ?_⟩
  rcases List.mem_append.mp hp with hold | hnew
  · exact Or.inl hold
  · exact Or.inr ((hsub _).subset hnew)

theorem World.close_shrinks (w : World) (k : Nat) : Shrinks w (w.step chart (.close k)) := by
  refine ⟨List.eraseIdx_sublist _ _, fun p hp => ?_⟩
  rcases List.mem_append.mp hp with hold | hnew
  · exact Or.inl hold
  · exact Or.inr (List.mem_of_getElem? (Option.mem_toList.mp hnew))

theorem World.rolloverDay_shrinks (w : World) (t : Tick) : Shrinks w (w.rolloverDay chart t) := by
  have hday : (w.newDay t).positions = w.positions ∧ (w.newDay t).ended = w.ended := by
    unfold newDay
    split <;> exact ⟨rfl, rfl⟩
  unfold rolloverDay checkLoss
  split
  · have := World.closeAllOwn_shrinks chart { w.newDay t with ea := { (w.newDay t).ea with dayHalted := true } } t.closes
    exact ⟨hday.1 ▸ this.positions, fun p hp => hday.1 ▸ hday.2 ▸ this.ended p hp⟩
  · exact ⟨hday.1 ▸ List.Sublist.refl _, fun p hp => Or.inl (hday.2 ▸ hp)⟩

/-! ### What is kept of a position -/

/-- A tick of real prices, at a terminal that finds the deals where the lock needs them. -/
structure Tick.Quoted (chart : Chart) (t : Tick) : Prop where
  priced : t.market.Priced chart.inp
  minute : ∀ k, Ea.Quoted chart.spec.toSymbolPrices (t.minute k)
  history : chart.stops.stage2MinLockR ≤ 1 ∨ ∀ k, (t.minute k).history = true
  fill : ∀ price, t.fill = .executed price → 0 < price ∧ HasPlaces chart.spec.digits price

/-- The order behind a position, of a tick of the run. -/
structure Called (events : List (Event chart)) (p : Position) (t : Tick) (o : Order) : Prop where
  mem : .tick t ∈ events
  openedAt : p.openedAt = t.now
  sound : o.Sound chart.inp chart.spec t.market t.now t.entryBalance
  direction : p.pos.direction = o.direction
  stop : p.pos.origSl = o.stop
  lot : p.pos.vol0 = o.lot

/-- A position of the EA, as it was opened and as its stop was moved. -/
structure Kept (events : List (Event chart)) (p : Position) : Prop where
  called : ∃ t o, Called events p t o
  stopped : 0 < p.pos.origSl
  quoted : EntryQuoted chart.spec.toSymbolPrices p.pos
  disciplined : Stops.Disciplined chart.stops chart.spec.toSymbolPrices p.pos p.live

/-- The positions of the EA. -/
structure Guarded (events : List (Event chart)) (w : World) : Prop where
  one : w.ownCount chart ≤ 1
  open' : ∀ p ∈ w.positions, chart.owns p = true → Kept events p
  ended : ∀ p ∈ w.ended, chart.owns p = true → Kept events p

variable {events : List (Event chart)} {w w' : World} {t : Tick}

theorem Guarded.shrink (h : Guarded events w) (hshrinks : Shrinks w w') : Guarded events w' := by
  refine ⟨hshrinks.ownCount_le.trans h.one, fun p hp => h.open' p (hshrinks.positions.subset hp), fun p hp => ?_⟩
  rcases hshrinks.ended p hp with hold | hclosed
  · exact h.ended p hold
  · exact h.open' p hclosed

theorem owns_manage (bar : MinuteBar) (p : Position) : chart.owns (World.manage chart bar p) = chart.owns p := by
  unfold World.manage
  dsimp only
  split <;> rfl

theorem managed_count (w : World) (t : Tick) :
    (w.positions.mapIdx fun k p => World.manage chart (t.minute k) p).countP chart.owns = w.ownCount chart := by
  have hmap := map_mapIdx_eq (f := fun k p => World.manage chart (t.minute k) p) (g := chart.owns)
    (fun k p => owns_manage (t.minute k) p) w.positions
  have hcount := congrArg (List.countP id) hmap
  rwa [List.countP_map, List.countP_map] at hcount

theorem World.exits_count_le (w : World) (t : Tick) : (w.exits chart t).ownCount chart ≤ w.ownCount chart := by
  unfold exits
  split
  · exact (List.filter_sublist.countP_le).trans (managed_count { w with ea := _ } t).le
  · exact le_rfl

theorem Kept.manage {p : Position} (h : Kept events p) (ht : t.Quoted chart) (k : Nat) :
    Kept events (World.manage chart (t.minute k) p) := by
  unfold World.manage
  dsimp only
  split
  · obtain ⟨tick, o, hcalled⟩ := h.called
    exact ⟨⟨tick, o, ⟨hcalled.mem, hcalled.openedAt, hcalled.sound, hcalled.direction, hcalled.stop, hcalled.lot⟩⟩,
      h.stopped, h.quoted, Stops.manageOpenPosition_disciplined h.disciplined h.stopped h.quoted (ht.minute k)
        (ht.history.imp_right fun hall => hall k)⟩
  · exact h

theorem Guarded.exits (h : Guarded events w) (ht : t.Quoted chart) : Guarded events (w.exits chart t) := by
  have hone := (w.exits_count_le t).trans h.one
  by_cases hnew : t.m1Bar ≠ w.ea.lastM1Bar
  · unfold World.exits at hone ⊢
    rw [if_pos hnew] at hone ⊢
    have hmanaged : ∀ p ∈ w.positions.mapIdx fun k p => World.manage chart (t.minute k) p, chart.owns p = true →
        Kept events p := by
      intro p hp hown
      obtain ⟨k, hk, rfl⟩ := List.mem_mapIdx.mp hp
      exact (h.open' _ (List.getElem_mem hk) (owns_manage _ _ ▸ hown)).manage ht k
    refine ⟨hone, fun p hp => hmanaged p (List.mem_of_mem_filter hp), fun p hp hown => ?_⟩
    rcases List.mem_append.mp hp with hold | hclosed
    · exact h.ended p hold hown
    · exact hmanaged p (List.mem_of_mem_filter hclosed) hown
  · unfold World.exits
    rwa [if_neg hnew]

theorem Guarded.entry (h : Guarded events w) (ht : t.Quoted chart) (hmem : .tick t ∈ events) :
    Guarded events (w.entry chart t) := by
  unfold World.entry
  dsimp only
  split_ifs with hbar hhalted hopen hcap
  · exact h
  · exact ⟨h.one, h.open', h.ended⟩
  · exact ⟨h.one, h.open', h.ended⟩
  · exact ⟨h.one, h.open', h.ended⟩
  · split
    · exact ⟨h.one, h.open', h.ended⟩
    · next o ho =>
      unfold World.order
      split
      · exact ⟨h.one, h.open', h.ended⟩
      · exact ⟨h.one, h.open', h.ended⟩
      · next price hfill =>
        have hsound := tryEnter_sound ho
        have hstop := hsound.stop_pos ht.priced
        obtain ⟨hprice, hgrid⟩ := ht.fill price hfill
        have hnone : w.ownCount chart = 0 := by
          rw [World.ownCount, List.countP_eq_zero]
          intro p hp hown
          exact hopen (List.any_eq_true.mpr ⟨p, hp, hown⟩)
        refine ⟨?_, fun p hp hown => ?_, h.ended⟩
        · show (w.positions ++ [_]).countP chart.owns ≤ 1
          rw [List.countP_append, show w.positions.countP chart.owns = 0 from hnone, Nat.zero_add]
          exact List.countP_le_length
        · rcases List.mem_append.mp hp with hold | hnew
          · exact h.open' p hold hown
          · rw [List.mem_singleton.mp hnew]
            exact ⟨⟨t, o, ⟨hmem, rfl, hsound, rfl, rfl, rfl⟩⟩, hstop, ⟨hprice, hgrid⟩, Stops.opening_disciplined hstop⟩

theorem World.ownCount_others (w : World) (opened : List chart.Foreign) :
    (w.step chart (.others opened)).ownCount chart = w.ownCount chart := by
  have hforeign : (opened.map Subtype.val).countP chart.owns = 0 := by
    rw [List.countP_eq_zero]
    intro p hp
    obtain ⟨q, -, rfl⟩ := List.mem_map.mp hp
    exact ne_true_of_eq_false q.property
  show (w.positions ++ opened.map Subtype.val).countP chart.owns = _
  rw [List.countP_append, hforeign]
  rfl

theorem Guarded.others (h : Guarded events w) (opened : List chart.Foreign) :
    Guarded events (w.step chart (.others opened)) := by
  refine ⟨(w.ownCount_others opened).le.trans h.one, fun p hp hown => ?_, h.ended⟩
  rcases List.mem_append.mp hp with hold | hforeign
  · exact h.open' p hold hown
  · obtain ⟨q, -, rfl⟩ := List.mem_map.mp hforeign
    rw [q.property] at hown
    cases hown

/-- The ticks of a run are of real prices. -/
def Event.Quoted : Event chart → Prop
  | .tick t => t.Quoted chart
  | _ => True

theorem Guarded.step {e : Event chart} (h : Guarded events w) (hquoted : e.Quoted) (hmem : e ∈ events) :
    Guarded events (w.step chart e) := by
  cases e with
  | tick t => exact ((h.shrink (w.rolloverDay_shrinks t)).exits hquoted).entry hquoted hmem
  | init now balance reloaded selected => exact ⟨h.one, h.open', h.ended⟩
  | close k => exact h.shrink (w.close_shrinks k)
  | others opened => exact h.others opened

/-- **The EA's positions over its ticks.** It never has two at once, and each was opened by an order that the confluences
called for at a tick of the run, with that order's stop and lot, and had its stop moved twice at most, each time tighter
and never behind the entry; whatever the terminal refuses, whoever closes positions, and however often the EA starts. -/
theorem positions_guarded (chart : Chart) (events : List (Event chart)) (hquoted : ∀ e ∈ events, e.Quoted) :
    let w := run (World.step chart) {} events
    w.ownCount chart ≤ 1 ∧ ∀ p ∈ w.positions ++ w.ended, chart.owns p = true →
      (∃ t o, Called events p t o) ∧ 0 < p.pos.origSl ∧ p.live.placed.length ≤ 2 ∧
        (p.pos.origSl :: p.live.placed).IsChain (Tighter p.pos) ∧ ∀ sl ∈ p.live.placed, 0 ≤ ahead p.pos sl := by
  intro w
  have hinit : Guarded events ({} : World) :=
    ⟨Nat.zero_le _, fun p hp => absurd hp List.not_mem_nil, fun p hp => absurd hp List.not_mem_nil⟩
  have h : Guarded events w :=
    run_invariant (C := fun _ e => e.Quoted ∧ e ∈ events) (fun _ _ h he => h.step he.1 he.2) hinit
      (stepsMeet_of_forall fun e he => ⟨hquoted e he, he⟩)
  refine ⟨h.one, fun p hp hown => ?_⟩
  have hkept : Kept events p := by
    rcases List.mem_append.mp hp with hopen | hended
    · exact h.open' p hopen hown
    · exact h.ended p hended hown
  exact ⟨hkept.called, hkept.stopped, hkept.disciplined.two_moves.1, hkept.disciplined.tightens, hkept.disciplined.ahead⟩

theorem risingTick_quoted {rungs : PartialInputs} {stops : StopInputs} (hlock : stops.stage2MinLockR ≤ 1) (bar : Int) :
    (risingTick bar).Quoted (scalper rungs stops) := by
  have hbars : ∀ c ∈ breakout ++ rangeDay.closed .trigger, (1 : ℚ) / 2 < c.low := by
    simp only [breakout, rangeDay, List.cons_append, List.nil_append, List.forall_mem_cons, List.not_mem_nil,
      false_imp_iff, implies_true, and_true]
    decide +kernel
  have hminute : Ea.Quoted (scalper rungs stops).spec.toSymbolPrices quietMinute :=
    ⟨by decide +kernel, by decide +kernel, 200200, show (2002 : ℚ) * 10 ^ 2 = (200200 : ℤ) by decide +kernel⟩
  refine ⟨fun tf c hc => ?_, fun _ => hminute, Or.inl hlock, fun price hprice => ?_⟩
  · cases tf with
    | trigger => exact hbars c (List.mem_append_right _ hc)
    | h4 => exact hbars c (List.mem_append_left _ hc)
    | d1 => exact absurd hc List.not_mem_nil
  · rw [← Fill.executed.inj hprice]
    exact ⟨by norm_num, 200230, show (2002 + 3 / 10 : ℚ) * 10 ^ 2 = (200230 : ℤ) by decide +kernel⟩

theorem positions_guarded_restarted :
    ∃ rungs stops,
      let chart := scalper rungs stops
      let w := run (World.step chart) {} (restarted chart)
      w.ownCount chart = 1 ∧ w.ended.length = 2 ∧ ∀ p ∈ w.positions ++ w.ended, chart.owns p = true →
        (∃ t o, Called (restarted chart) p t o) ∧ p.live.placed.length ≤ 2 := by
  refine ⟨{}, {}, ?_⟩
  intro chart w
  have hlock : chart.stops.stage2MinLockR ≤ 1 := by decide +kernel
  have hquoted : ∀ e ∈ restarted chart, e.Quoted := by
    simp only [restarted, List.forall_mem_cons, List.not_mem_nil, false_imp_iff, implies_true, and_true]
    exact ⟨trivial, risingTick_quoted hlock 1, trivial, risingTick_quoted hlock 2, trivial, trivial,
      risingTick_quoted hlock 3⟩
  have h := positions_guarded chart (restarted chart) hquoted
  exact ⟨by decide +kernel, by decide +kernel, fun p hp hown => ⟨(h.2 p hp hown).1, (h.2 p hp hown).2.2.1⟩⟩

/-! ### The halt of the day -/

/-- An event of the day but a start of the EA. -/
def Event.OfDay (day : Nat) : Event chart → Prop
  | .tick t => t.now.day = day
  | .init _ _ _ _ => False
  | .close _ | .others _ => True

variable (chart) in
/-- The day is halted, and the EA has no position. -/
structure Halted (day : Nat) (entered : List EntryDeal) (w : World) : Prop where
  halted : w.ea.dayHalted = true
  day : w.ea.curDay = dayCode day
  flat : w.ownCount chart = 0
  entered : w.deals.filter chart.entered = entered

variable {day : Nat} {entered : List EntryDeal}

theorem Halted.rolloverDay (h : Halted chart day entered w) (ht : t.now.day = day) : w.rolloverDay chart t = w := by
  have hday : w.newDay t = w := if_neg (not_not.mpr (by rw [h.day, ← ht]; rfl))
  unfold World.rolloverDay World.checkLoss
  rw [hday, if_neg fun hno => by simp [h.halted] at hno]

theorem Halted.onTick (h : Halted chart day entered w) (ht : t.now.day = day) :
    Halted chart day entered (w.onTick chart t) := by
  have hexits : Halted chart day entered (w.exits chart t) := by
    have hsame := @World.exits_count chart w t
    refine ⟨?_, hsame.curDay.trans h.day, Nat.le_zero.mp (h.flat ▸ w.exits_count_le t), hsame.deals ▸ h.entered⟩
    unfold World.exits
    split <;> exact h.halted
  unfold World.onTick
  rw [h.rolloverDay ht]
  unfold World.entry
  dsimp only
  split_ifs with hbar hhalted
  · exact hexits
  · exact ⟨hexits.halted, hexits.day, hexits.flat, hexits.entered⟩
  all_goals exact absurd hexits.halted hhalted

theorem Halted.step {e : Event chart} (h : Halted chart day entered w) (he : e.OfDay day) :
    Halted chart day entered (w.step chart e) := by
  cases e with
  | tick t => exact h.onTick he
  | init => exact he.elim
  | close k => exact ⟨h.halted, h.day, Nat.le_zero.mp (h.flat ▸ (w.close_shrinks k).ownCount_le), h.entered⟩
  | others opened =>
    exact ⟨h.halted, h.day, (w.ownCount_others opened).trans h.flat, (w.entered_others opened).trans h.entered⟩

variable (chart) in
/-- The breaker trips on a tick: not halted yet on its day, and the loss is at the limit. -/
def World.Trips (w : World) (t : Tick) : Prop :=
  (w.newDay t).ea.dayHalted = false ∧ (w.newDay t).LossLimit chart t.equity

theorem World.closeAllOwn_flat (w : World) {closes : Nat → Bool} (hcloses : ∀ k, closes k = true) :
    (w.closeAllOwn chart closes).ownCount chart = 0 := by
  rw [ownCount, List.countP_eq_zero]
  intro p hp hown
  obtain ⟨a, ha, rfl⟩ := List.mem_map.mp hp
  obtain ⟨hmem, hkept⟩ := List.mem_filter.mp ha
  obtain ⟨k, hk, rfl⟩ := List.mem_mapIdx.mp hmem
  simp only [hcloses, Bool.and_true] at hkept hown
  rw [hown] at hkept
  cases hkept

theorem World.Trips.halted (h : w.Trips chart t) (hcloses : ∀ k, t.closes k = true) :
    Halted chart t.now.day (w.deals.filter chart.entered) (w.rolloverDay chart t) := by
  have hday : (w.newDay t).ea.curDay = dayCode t.now.day ∧ (w.newDay t).deals = w.deals := by
    unfold newDay
    split
    · exact ⟨rfl, rfl⟩
    · next hsame => exact ⟨(not_not.mp hsame).symm, rfl⟩
  obtain ⟨hactive, hloss⟩ := h
  unfold rolloverDay checkLoss
  rw [if_pos ⟨hactive, hloss⟩]
  exact ⟨rfl, hday.1, closeAllOwn_flat _ hcloses, congrArg (List.filter chart.entered) hday.2⟩

/-- **The halt of the day stands.** When a loss trips the breaker and the terminal closes what it is asked to, the EA has no
position and enters no trade for the rest of the UTC day, if it does not start again. -/
theorem halt_stands (chart : Chart) (w : World) (t : Tick) (htrips : w.Trips chart t) (hcloses : ∀ k, t.closes k = true)
    (after : List (Event chart)) (hday : ∀ e ∈ after, e.OfDay t.now.day) :
    let w' := run (World.step chart) w (.tick t :: after)
    w'.ownCount chart = 0 ∧ w'.deals.filter chart.entered = w.deals.filter chart.entered := by
  intro w'
  have hhalted := htrips.halted hcloses
  have htick : Halted chart t.now.day (w.deals.filter chart.entered) (w.onTick chart t) := by
    have hsame : w.onTick chart t = (w.rolloverDay chart t).onTick chart t := by
      conv_rhs => rw [World.onTick, hhalted.rolloverDay rfl]
      rfl
    rw [hsame]
    exact hhalted.onTick rfl
  have h : Halted chart t.now.day (w.deals.filter chart.entered) (run (World.step chart) (w.onTick chart t) after) :=
    run_invariant (fun _ _ h he => h.step he) htick (stepsMeet_of_forall hday)
  exact ⟨h.flat, h.entered⟩

/-- A tick after a fifth of the balance is lost. -/
def crash : Tick := { risingTick 2 with equity := 8000 }

theorem halt_stands_crash :
    ∃ rungs stops,
      let chart := scalper rungs stops
      let w := run (World.step chart) {} [.init midday 10000 true true, .tick (risingTick 1)]
      let w' := run (World.step chart) w [.tick crash, .tick (risingTick 3)]
      w.ownCount chart = 1 ∧ w'.ownCount chart = 0 ∧ w'.deals.filter chart.entered = w.deals.filter chart.entered := by
  refine ⟨{}, {}, ?_⟩
  intro chart w w'
  have htrips : w.Trips chart crash := ⟨by decide +kernel, by decide +kernel, by decide +kernel, by decide +kernel⟩
  have h := halt_stands chart w crash htrips (fun _ => rfl) [.tick (risingTick 3)]
    (by simp [Event.OfDay, crash, risingTick])
  exact ⟨by decide +kernel, h⟩

end Ea

end FreqTrading
