import Mathlib.Data.List.Perm.Basic
import Mathlib.Tactic.Ring
import FreqTrading.Lib.Run
import FreqTrading.Analytics

/-!
# The books of the simulated broker

A run of `Sim` is a list of calls: a limit set, a market entry, or a bar with whatever the exit manager answers.
`Watched` runs the steps that a call is made of one by one and notes what the code forgets, the volume a position
was opened with and the orders that were dropped. The books balance after every step (`balanced`). The drivers have
their engine validate a candle before the simulator sees it.
-/

namespace FreqTrading

open Lib

namespace Sim

/-! ### Calls and their steps -/

/-- A call of the simulator; on a bar, with the answer of the exit manager to the open positions. -/
inductive Call
  | limitSet (sig : Signal) (stop : ℚ) (ts : Int)
  | market (sig : Signal) (stop : ℚ) (ts : Int) (lot : ℚ)
  | bar (c : Candle) (acts : List FreqTrading.Position → List SitterAction) (spike halted : Bool)

def call (s : Sim) : Call → Sim
  | .limitSet sig stop ts => s.placeLimitSet sig stop ts
  | .market sig stop ts lot => s.placeMarket sig stop ts lot
  | .bar c acts spike halted => (s.onBar c (fun ps => (acts ps, ())) spike halted).1

/-- A step of a call: placing orders, a loop over the orders, one turn of a loop over the positions. -/
inductive Step
  | limitSet (sig : Signal) (stop : ℚ) (ts : Int)
  | market (sig : Signal) (stop : ℚ) (ts : Int) (lot : ℚ)
  | expire (c : Candle) (spike : Bool)
  | fillLimits (c : Candle)
  | stop (c : Candle) (p : Position)
  | act (c : Candle) (action : SitterAction)
  | flatten (c : Candle) (p : Position)
  | pull
  | mark (c : Candle)

def step (s : Sim) : Step → Sim
  | .limitSet sig stop ts => s.placeLimitSet sig stop ts
  | .market sig stop ts lot => s.placeMarket sig stop ts lot
  | .expire c spike => s.expire c spike
  | .fillLimits c => s.fillLimits c
  | .stop c p => if p.stopHit c then s.close p.ticket p.sl p.volume "sl" c.ts else s
  | .act c action => s.act c action
  | .flatten c p => s.close p.ticket (s.exitPx c p) p.volume "daily_halt" c.ts
  | .pull => { s with pendings := [] }
  | .mark c => { s with curve := s.curve ++ [(c.ts, s.equity)] }

/-- The steps of a bar. -/
def barSteps (s : Sim) (c : Candle) (acts : List FreqTrading.Position → List SitterAction) (spike halted : Bool) :
    List Step :=
  let filled := (s.expire c spike).fillLimits c
  let stopped := s.replay c spike
  let answer := acts (stopped.positions.map (·.seen))
  let acted := answer.foldl (act c) stopped
  [.expire c spike, .fillLimits c] ++ filled.positions.map (.stop c) ++ answer.map (.act c) ++
    (if halted then acted.positions.map (.flatten c) ++ [.pull] else []) ++ [.mark c]

def stepsOf (s : Sim) : Call → List Step
  | .limitSet sig stop ts => [.limitSet sig stop ts]
  | .market sig stop ts lot => [.market sig stop ts lot]
  | .bar c acts spike halted => s.barSteps c acts spike halted

/-- The steps of a run. -/
def steps : Sim → List Call → List Step
  | _, [] => []
  | s, call :: calls => s.stepsOf call ++ steps (s.call call) calls

theorem stopOut_eq_run (c : Candle) (ps : List Position) (s : Sim) : s.stopOut c ps = run step s (ps.map (.stop c)) := by
  induction ps generalizing s with
  | nil => rfl
  | cons p ps ih =>
    rw [stopOut, ih]
    rfl

theorem flatten_eq_run (c : Candle) (ps : List Position) (s : Sim) :
    s.flatten c ps = run step s (ps.map (.flatten c)) := by
  induction ps generalizing s with
  | nil => rfl
  | cons p ps ih =>
    rw [flatten, ih]
    rfl

theorem acts_eq_run (c : Candle) (acts : List SitterAction) (s : Sim) :
    acts.foldl (act c) s = run step s (acts.map (.act c)) := by
  unfold run
  rw [List.foldl_map]
  rfl

theorem acted_eq_run (c : Candle) (s : Sim) (spike : Bool) (answer : List SitterAction) :
    answer.foldl (act c) (s.replay c spike) = run step s ([.expire c spike, .fillLimits c] ++
      ((s.expire c spike).fillLimits c).positions.map (.stop c) ++ answer.map (.act c)) := by
  rw [run_append, run_append, ← stopOut_eq_run, ← acts_eq_run]
  rfl

theorem run_stepsOf (s : Sim) (call : Call) : run step s (s.stepsOf call) = s.call call := by
  cases call with
  | limitSet sig stop ts => rfl
  | market sig stop ts lot => rfl
  | bar c acts spike halted =>
    simp only [stepsOf, barSteps]
    rw [run_append, run_append, ← acted_eq_run]
    cases halted with
    | false => rfl
    | true =>
      simp only [if_true]
      rw [run_append, ← flatten_eq_run]
      rfl

theorem run_steps (calls : List Call) (s : Sim) : run step s (s.steps calls) = run call s calls := by
  induction calls generalizing s with
  | nil => rfl
  | cons c calls ih => rw [steps, run_append, run_stepsOf, ih, run_cons]

/-! ### The books -/

structure Watched where
  sim : Sim
  /-- The tickets of the positions there are or were, with the volume each was opened with. -/
  opened : List (Nat × ℚ) := []
  /-- The tickets of the orders that went without a fill. -/
  dropped : List Nat := []

namespace Watched

def openedBy (s : Sim) : Step → List (Nat × ℚ)
  | .market _ _ _ lot => [(s.ticket + 1, lot)]
  | .fillLimits c => (s.pendings.filter (·.touched c)).map fun p => (p.ticket, p.volume)
  | _ => []

def droppedBy (s : Sim) : Step → List Nat
  | .expire c spike => (s.pendings.filter fun p => !p.rests c spike).map (·.ticket)
  | .pull => s.pendings.map (·.ticket)
  | _ => []

def step (w : Watched) (st : Step) : Watched where
  sim := w.sim.step st
  opened := w.opened ++ openedBy w.sim st
  dropped := w.dropped ++ droppedBy w.sim st

theorem run_sim (w : Watched) (sts : List Step) : (run step w sts).sim = run Sim.step w.sim sts := by
  induction sts generalizing w with
  | nil => rfl
  | cons st sts ih => exact ih (w.step st)

/-- The books balance. -/
structure Balanced (w : Watched) : Prop where
  equity : w.sim.equity = (w.sim.closed.map (·.pnl)).sum + (w.sim.positions.map (·.pnl)).sum
  tradeVolume : ∀ t ∈ w.sim.closed, (t.ticket, (t.fills.map (·.volume)).sum) ∈ w.opened
  tradePnl : ∀ t ∈ w.sim.closed, (t.fills.map (·.pnl)).sum = t.pnl
  /-- Every ticket is pending, open, closed or dropped, and one of these only. -/
  tickets : List.Perm (w.sim.pendings.map (·.ticket) ++ w.sim.positions.map (·.ticket) ++ w.sim.closed.map (·.ticket) ++
    w.dropped) (List.range' 1 w.sim.ticket)
  /-- Every position has one volume it was opened with. -/
  opened : List.Perm (w.opened.map Prod.fst) (w.sim.positions.map (·.ticket) ++ w.sim.closed.map (·.ticket))

/-- The books balance, and those of the open positions do so far. -/
structure Accounted (w : Watched) : Prop extends Balanced w where
  openVolume : ∀ p ∈ w.sim.positions, (p.ticket, p.volume + (p.fills.map (·.volume)).sum) ∈ w.opened
  openPnl : ∀ p ∈ w.sim.positions, (p.fills.map (·.pnl)).sum = p.pnl
  openPlaces : ∀ p ∈ w.sim.positions, HasPlaces 8 p.volume
  orderPlaces : ∀ p ∈ w.sim.pendings, HasPlaces 8 p.volume
  qtyPlaces : HasPlaces 8 w.sim.qty

theorem Balanced.ticketed {w : Watched} (h : w.Balanced) : w.sim.Ticketed := by
  have hnodup := h.tickets.nodup_iff.mpr (List.nodup_range' ..)
  refine ⟨?_, fun p hp => ?_⟩
  · exact ((hnodup.of_append_left).of_append_left).of_append_right
  · have hmem : p.ticket ∈ List.range' 1 w.sim.ticket := by
      refine h.tickets.mem_iff.mp ?_
      simp only [List.mem_append, List.mem_map]
      exact Or.inl (Or.inl (Or.inr ⟨p, hp, rfl⟩))
    rw [List.mem_range'_1] at hmem
    omega

/-! ### A close -/

theorem split_of_find {ps : List Position} (hnodup : (ps.map (·.ticket)).Nodup) {ticket : Nat} {p : Position}
    (hfind : ps.find? (·.ticket = ticket) = some p) : p.ticket = ticket ∧ ∃ before after, ps = before ++ p :: after ∧
      ps.eraseP (·.ticket = ticket) = before ++ after ∧
      ∀ f : Position → Position, (ps.map fun q => if q.ticket = ticket then f q else q) = before ++ f p :: after := by
  obtain ⟨hticket, before, after, hps, hbefore⟩ := List.find?_eq_some_iff_append.mp hfind
  have hticket : p.ticket = ticket := by simpa using hticket
  have hbefore : ∀ q ∈ before, q.ticket ≠ ticket := fun q hq => by simpa using hbefore q hq
  have hafter : ∀ q ∈ after, q.ticket ≠ ticket := by
    intro q hq heq
    rw [hps, List.map_append, List.map_cons, List.nodup_append] at hnodup
    exact (List.nodup_cons.mp hnodup.2.1).1 (List.mem_map.mpr ⟨q, hq, heq.trans hticket.symm⟩)
  have hsame : ∀ (f : Position → Position) (qs : List Position), (∀ q ∈ qs, q.ticket ≠ ticket) →
      (qs.map fun q => if q.ticket = ticket then f q else q) = qs := fun f qs hqs =>
    (List.map_congr_left fun q hq => if_neg (hqs q hq)).trans (List.map_id' qs)
  refine ⟨hticket, before, after, hps, ?_, fun f => ?_⟩
  · rw [hps, List.eraseP_append_right _ (fun q hq => by simpa using hbefore q hq)]
    simp [hticket]
  · rw [hps, List.map_append, List.map_cons, hsame f before hbefore, hsame f after hafter, if_pos hticket]

theorem reduced_volume {p : Position} (fill : Fill) (hplaces : HasPlaces 8 p.volume) (hfill : HasPlaces 8 fill.volume)
    (hle : fill.volume ≤ p.volume) : (p.reduced fill).volume = p.volume - fill.volume ∧
      ((p.reduced fill).volume ≤ 1 / 1000000000 → p.volume = fill.volume) := by
  have hrest := hplaces.sub hfill
  have hsame : (p.reduced fill).volume = p.volume - fill.volume := by
    obtain ⟨k, hk⟩ := hrest
    exact roundPlaces_of_int hk
  refine ⟨hsame, fun hsmall => ?_⟩
  rw [hsame] at hsmall
  have hzero := hrest.eq_zero (sub_nonneg.mpr hle) (by linarith)
  linarith

variable {w : Watched} {pos : Position} {before after : List Position} {fill : Fill}

theorem mem_of_others (hps : w.sim.positions = before ++ pos :: after) {q : Position} (hq : q ∈ before ++ after) :
    q ∈ w.sim.positions := by
  rw [hps]
  exact ((List.sublist_cons_self pos after).append_left before).subset hq

theorem lastClose_accounted (h : w.Accounted) (hps : w.sim.positions = before ++ pos :: after)
    (hall : pos.volume = fill.volume) (ts : Int) : Accounted { w with sim := { w.sim with
      equity := w.sim.equity + fill.pnl
      closed := w.sim.closed ++ [(pos.reduced fill).trade ts]
      positions := before ++ after } } := by
  have hmem : pos ∈ w.sim.positions := hps ▸ List.mem_append_right _ List.mem_cons_self
  have hequity := h.equity
  have htickets := h.tickets
  have hopened := h.opened
  rw [hps] at hequity htickets hopened
  refine ⟨⟨?_, fun t ht => ?_, fun t ht => ?_, ?_, ?_⟩, fun q hq => h.openVolume q (mem_of_others hps hq),
    fun q hq => h.openPnl q (mem_of_others hps hq), fun q hq => h.openPlaces q (mem_of_others hps hq), h.orderPlaces,
    h.qtyPlaces⟩
  · simp only [Position.trade, Position.reduced, List.map_append, List.map_cons, List.map_nil, List.sum_append,
      List.sum_cons, List.sum_nil] at hequity ⊢
    rw [hequity]
    ring
  · rcases List.mem_append.mp ht with hold | hnew
    · exact h.tradeVolume t hold
    · rw [List.mem_singleton.mp hnew]
      have hopen := h.openVolume pos hmem
      rw [hall, add_comm] at hopen
      simpa [Position.trade, Position.reduced] using hopen
  · rcases List.mem_append.mp ht with hold | hnew
    · exact h.tradePnl t hold
    · rw [List.mem_singleton.mp hnew]
      simp [Position.trade, Position.reduced, h.openPnl pos hmem]
  · refine List.Perm.trans ?_ htickets
    rw [List.perm_iff_count]
    intro x
    simp only [Position.trade, Position.reduced, List.map_append, List.map_cons, List.map_nil, List.count_append,
      List.count_cons, List.count_nil]
    omega
  · refine hopened.trans ?_
    rw [List.perm_iff_count]
    intro x
    simp only [Position.trade, Position.reduced, List.map_append, List.map_cons, List.map_nil, List.count_append,
      List.count_cons, List.count_nil]
    omega

theorem partClose_accounted (h : w.Accounted) (hps : w.sim.positions = before ++ pos :: after)
    (hplaces : HasPlaces 8 fill.volume) (hvolume : (pos.reduced fill).volume = pos.volume - fill.volume) :
    Accounted { w with sim := { w.sim with
      equity := w.sim.equity + fill.pnl
      positions := before ++ pos.reduced fill :: after } } := by
  have hmem : pos ∈ w.sim.positions := hps ▸ List.mem_append_right _ List.mem_cons_self
  have hequity := h.equity
  have htickets := h.tickets
  have hopened := h.opened
  rw [hps] at hequity htickets hopened
  have hcases : ∀ q ∈ before ++ pos.reduced fill :: after, q ∈ w.sim.positions ∨ q = pos.reduced fill := by
    intro q hq
    rcases List.mem_append.mp hq with hq | hq
    · exact Or.inl (mem_of_others hps (List.mem_append_left _ hq))
    · rcases List.mem_cons.mp hq with rfl | hq
      · exact Or.inr rfl
      · exact Or.inl (mem_of_others hps (List.mem_append_right _ hq))
  refine ⟨⟨?_, h.tradeVolume, h.tradePnl, ?_, ?_⟩, fun q hq => ?_, fun q hq => ?_, fun q hq => ?_, h.orderPlaces,
    h.qtyPlaces⟩
  · simp only [Position.reduced, List.map_append, List.map_cons, List.sum_append, List.sum_cons] at hequity ⊢
    rw [hequity]
    ring
  · simpa [Position.reduced] using htickets
  · simpa [Position.reduced] using hopened
  · rcases hcases q hq with hq | rfl
    · exact h.openVolume q hq
    · rw [hvolume]
      have hopen := h.openVolume pos hmem
      simpa [Position.reduced, sub_add_eq_add_sub, add_sub_assoc, add_assoc] using hopen
  · rcases hcases q hq with hq | rfl
    · exact h.openPnl q hq
    · simp [Position.reduced, h.openPnl pos hmem]
  · rcases hcases q hq with hq | rfl
    · exact h.openPlaces q hq
    · rw [hvolume]
      exact (h.openPlaces pos hmem).sub hplaces

theorem close_accounted (h : w.Accounted) {ticket : Nat} {px vol : ℚ} {reason : String} {ts : Int}
    (hvol : ∀ p, w.sim.find ticket = some p → HasPlaces 8 vol ∧ vol ≤ p.volume) :
    Accounted { w with sim := w.sim.close ticket px vol reason ts } := by
  unfold Sim.close
  cases hfind : w.sim.find ticket with
  | none => exact h
  | some pos =>
    obtain ⟨hplaces, hle⟩ := hvol pos hfind
    obtain ⟨rfl, before, after, hps, herase, hupdate⟩ := split_of_find h.ticketed.nodup hfind
    have hmem : pos ∈ w.sim.positions := hps ▸ List.mem_append_right _ List.mem_cons_self
    obtain ⟨hvolume, hwhole⟩ := reduced_volume ⟨reason, px, vol, w.sim.profit pos px vol⟩ (h.openPlaces pos hmem) hplaces
      hle
    dsimp only
    split
    · next hsmall =>
      rw [herase]
      exact lastClose_accounted h hps (hwhole hsmall) ts
    · unfold update
      dsimp only
      rw [hupdate]
      exact partClose_accounted h hps hplaces hvolume

/-! ### The other steps -/

theorem limitSet_accounted (h : w.Accounted) (sig : Signal) (stop : ℚ) (ts : Int) :
    (w.step (.limitSet sig stop ts)).Accounted := by
  have hsame : w.step (.limitSet sig stop ts) = { w with sim := w.sim.placeLimitSet sig stop ts } := by
    simp [step, openedBy, droppedBy, Sim.step]
  rw [hsame]
  unfold placeLimitSet
  dsimp only
  split
  · exact h
  · refine ⟨⟨h.equity, h.tradeVolume, h.tradePnl, ?_, h.opened⟩, h.openVolume, h.openPnl, h.openPlaces, fun p hp => ?_,
      h.qtyPlaces⟩
    · have htickets := List.perm_iff_count.mp h.tickets
      rw [List.perm_iff_count]
      intro x
      have hx := htickets x
      simp only [limitOrders, List.range'_1_concat, List.map_append, List.map_cons, List.map_nil, List.count_append,
        List.count_cons, List.count_nil] at hx ⊢
      have hsecond : 1 + (w.sim.ticket + 1) = w.sim.ticket + 2 := by omega
      rw [← hx, Nat.add_comm 1 w.sim.ticket, hsecond]
      omega
    · rcases List.mem_append.mp hp with hold | hnew
      · exact h.orderPlaces p hold
      · have hqty : p.volume = w.sim.qty := by
          simp only [limitOrders, List.mem_cons, List.not_mem_nil, or_false] at hnew
          rcases hnew with rfl | rfl <;> rfl
        rw [hqty]
        exact h.qtyPlaces

theorem market_accounted (h : w.Accounted) (sig : Signal) (stop : ℚ) (ts : Int) {lot : ℚ} (hlot : HasPlaces 8 lot) :
    (w.step (.market sig stop ts lot)).Accounted := by
  have hopened : (w.step (.market sig stop ts lot)).opened = w.opened ++ [(w.sim.ticket + 1, lot)] := rfl
  refine ⟨⟨?_, fun t ht => ?_, h.tradePnl, ?_, ?_⟩, fun p hp => ?_, fun p hp => ?_, fun p hp => ?_, h.orderPlaces,
    h.qtyPlaces⟩
  · simpa [step, Sim.step, placeMarket] using h.equity
  · exact List.mem_append_left _ (h.tradeVolume t ht)
  · have htickets := List.perm_iff_count.mp h.tickets
    rw [List.perm_iff_count]
    intro x
    have hx := htickets x
    simp only [step, Sim.step, placeMarket, droppedBy, List.range'_1_concat, List.append_nil, List.map_append,
      List.map_cons, List.map_nil, List.count_append, List.count_cons, List.count_nil] at hx ⊢
    rw [← hx, Nat.add_comm 1 w.sim.ticket]
    omega
  · have hperm := List.perm_iff_count.mp h.opened
    rw [List.perm_iff_count]
    intro x
    have hx := hperm x
    simp only [step, Sim.step, placeMarket, openedBy, List.map_append, List.map_cons, List.map_nil, List.count_append,
      List.count_cons, List.count_nil] at hx ⊢
    omega
  · rcases List.mem_append.mp hp with hold | hnew
    · exact List.mem_append_left _ (h.openVolume p hold)
    · rw [List.mem_singleton.mp hnew, hopened]
      simp
  · rcases List.mem_append.mp hp with hold | hnew
    · exact h.openPnl p hold
    · rw [List.mem_singleton.mp hnew]
      rfl
  · rcases List.mem_append.mp hp with hold | hnew
    · exact h.openPlaces p hold
    · rw [List.mem_singleton.mp hnew]
      exact hlot

theorem count_tickets (ps : List Pending) (test : Pending → Bool) (x : Nat) :
    ((ps.filter test).map (·.ticket)).count x + ((ps.filter fun p => !test p).map (·.ticket)).count x =
      (ps.map (·.ticket)).count x := by
  rw [← List.count_append, ← List.map_append]
  exact ((List.filter_append_perm test ps).map _).count_eq x

theorem expire_accounted (h : w.Accounted) (c : Candle) (spike : Bool) : (w.step (.expire c spike)).Accounted := by
  have hopened : (w.step (.expire c spike)).opened = w.opened := List.append_nil _
  refine ⟨⟨h.equity, hopened ▸ h.tradeVolume, h.tradePnl, ?_, hopened ▸ h.opened⟩, hopened ▸ h.openVolume, h.openPnl,
    h.openPlaces, fun p hp => h.orderPlaces p (List.mem_filter.mp hp).1, h.qtyPlaces⟩
  refine List.Perm.trans ?_ h.tickets
  rw [List.perm_iff_count]
  intro x
  have hsplit := count_tickets w.sim.pendings (·.rests c spike) x
  simp only [step, Sim.step, expire, droppedBy, List.count_append]
  omega

theorem fillLimits_accounted (h : w.Accounted) (c : Candle) : (w.step (.fillLimits c)).Accounted := by
  have hfilled : ∀ p ∈ (w.step (.fillLimits c)).sim.positions, p ∈ w.sim.positions ∨
      ∃ o ∈ w.sim.pendings, o.touched c = true ∧ p = w.sim.filled c o := by
    intro p hp
    rcases List.mem_append.mp hp with hold | hnew
    · exact Or.inl hold
    · obtain ⟨o, ho, rfl⟩ := List.mem_map.mp hnew
      obtain ⟨ho, htouched⟩ := List.mem_filter.mp ho
      exact Or.inr ⟨o, ho, htouched, rfl⟩
  refine ⟨⟨?_, fun t ht => List.mem_append_left _ (h.tradeVolume t ht), h.tradePnl, ?_, ?_⟩, fun p hp => ?_,
    fun p hp => ?_, fun p hp => ?_, fun p hp => h.orderPlaces p (List.mem_filter.mp hp).1, h.qtyPlaces⟩
  · have hzero : ((w.sim.pendings.filter (·.touched c)).map fun o => (w.sim.filled c o).pnl).sum = 0 := by
      refine List.sum_eq_zero fun x hx => ?_
      obtain ⟨o, -, rfl⟩ := List.mem_map.mp hx
      rfl
    have hequity := h.equity
    simp only [step, Sim.step, fillLimits, List.map_append, List.sum_append, List.map_map, Function.comp_def, hzero,
      add_zero]
    exact hequity
  · refine List.Perm.trans ?_ h.tickets
    rw [List.perm_iff_count]
    intro x
    have hsplit := count_tickets w.sim.pendings (·.touched c) x
    simp only [step, Sim.step, fillLimits, filled, droppedBy, List.map_append, List.map_map, Function.comp_def,
      List.append_nil, List.count_append]
    omega
  · have hperm := List.perm_iff_count.mp h.opened
    rw [List.perm_iff_count]
    intro x
    have hx := hperm x
    simp only [step, Sim.step, fillLimits, filled, openedBy, List.map_append, List.map_map, Function.comp_def,
      List.count_append] at hx ⊢
    omega
  · rcases hfilled p hp with hold | ⟨o, ho, htouched, rfl⟩
    · exact List.mem_append_left _ (h.openVolume p hold)
    · refine List.mem_append_right _ (List.mem_map.mpr ⟨o, List.mem_filter.mpr ⟨ho, htouched⟩, ?_⟩)
      simp [filled]
  · rcases hfilled p hp with hold | ⟨o, -, -, rfl⟩
    · exact h.openPnl p hold
    · rfl
  · rcases hfilled p hp with hold | ⟨o, ho, -, rfl⟩
    · exact h.openPlaces p hold
    · exact h.orderPlaces o ho

theorem pull_accounted (h : w.Accounted) : (w.step .pull).Accounted := by
  have hopened : (w.step .pull).opened = w.opened := List.append_nil _
  refine ⟨⟨h.equity, hopened ▸ h.tradeVolume, h.tradePnl, ?_, hopened ▸ h.opened⟩, hopened ▸ h.openVolume, h.openPnl,
    h.openPlaces, fun p hp => (by cases hp), h.qtyPlaces⟩
  refine List.Perm.trans ?_ h.tickets
  rw [List.perm_iff_count]
  intro x
  simp only [step, Sim.step, droppedBy, List.map_nil, List.count_append, List.count_nil]
  omega

theorem moveSl_accounted (h : w.Accounted) (ticket : Nat) (sl : ℚ) :
    Accounted { w with sim := w.sim.update ticket fun p => { p with sl := sl } } := by
  have hmap : ∀ {β : Type} (g : Position → β), (∀ p : Position, g { p with sl := sl } = g p) →
      (w.sim.update ticket fun p => { p with sl := sl }).positions.map g = w.sim.positions.map g := by
    intro β g hg
    simp only [update, List.map_map]
    refine List.map_congr_left fun p _ => ?_
    simp only [Function.comp]
    split
    · exact hg p
    · rfl
  have hmoved : ∀ p ∈ (w.sim.update ticket fun p => { p with sl := sl }).positions,
      ∃ q ∈ w.sim.positions, p.ticket = q.ticket ∧ p.volume = q.volume ∧ p.fills = q.fills ∧ p.pnl = q.pnl := by
    intro p hp
    obtain ⟨q, hq, rfl⟩ := List.mem_map.mp hp
    refine ⟨q, hq, ?_⟩
    split <;> exact ⟨rfl, rfl, rfl, rfl⟩
  refine ⟨⟨?_, h.tradeVolume, h.tradePnl, ?_, ?_⟩, fun p hp => ?_, fun p hp => ?_, fun p hp => ?_, h.orderPlaces,
    h.qtyPlaces⟩
  · dsimp only
    rw [hmap (·.pnl) fun _ => rfl]
    exact h.equity
  · dsimp only
    rw [hmap (·.ticket) fun _ => rfl]
    exact h.tickets
  · dsimp only
    rw [hmap (·.ticket) fun _ => rfl]
    exact h.opened
  · obtain ⟨q, hq, hticket, hvolume, hfills, -⟩ := hmoved p hp
    rw [hticket, hvolume, hfills]
    exact h.openVolume q hq
  · obtain ⟨q, hq, -, -, hfills, hpnl⟩ := hmoved p hp
    rw [hfills, hpnl]
    exact h.openPnl q hq
  · obtain ⟨q, hq, -, hvolume, -⟩ := hmoved p hp
    rw [hvolume]
    exact h.openPlaces q hq

/-! ### Runs -/

/-- The step is one that a run takes in this state: a loop is at a position there is, a volume has its places. -/
def Applies (w : Watched) : Step → Prop
  | .market _ _ _ lot => HasPlaces 8 lot
  | .stop _ p => p ∈ w.sim.positions
  | .flatten _ p => p ∈ w.sim.positions
  | .act _ (.partialClose _ volume) => HasPlaces 8 volume
  | _ => True

theorem min_places {x y : ℚ} (hx : HasPlaces 8 x) (hy : HasPlaces 8 y) : HasPlaces 8 (min x y) := by
  rcases min_choice x y with hmin | hmin
  · rwa [hmin]
  · rwa [hmin]

theorem wholeClose_accounted (h : w.Accounted) {p : Position} (hp : p ∈ w.sim.positions) (px : ℚ) (reason : String)
    (ts : Int) : Accounted { w with sim := w.sim.close p.ticket px p.volume reason ts } := by
  refine close_accounted h fun q hq => ?_
  obtain rfl : p = q := Option.some.inj ((find_of_mem h.ticketed.nodup hp).symm.trans hq)
  exact ⟨h.openPlaces p hp, le_rfl⟩

theorem act_accounted (h : w.Accounted) (c : Candle) (action : SitterAction) (happlies : w.Applies (.act c action)) :
    Accounted { w with sim := w.sim.act c action } := by
  cases action with
  | partialClose ticket volume =>
    cases hfind : w.sim.find ticket with
    | none =>
      simp only [Sim.act, hfind]
      exact h
    | some pos =>
      simp only [Sim.act, hfind]
      refine close_accounted h fun q hq => ?_
      obtain rfl : pos = q := Option.some.inj (hfind.symm.trans hq)
      exact ⟨min_places happlies (h.openPlaces pos (find_mem hfind).1), min_le_right volume pos.volume⟩
  | updateSl ticket sl =>
    cases hfind : w.sim.find ticket with
    | none =>
      simp only [Sim.act, hfind]
      exact h
    | some pos =>
      simp only [Sim.act, hfind]
      by_cases htightens : pos.seen.tightens sl = true
      · rw [if_pos htightens]
        exact moveSl_accounted h ticket sl
      · rw [if_neg htightens]
        exact h

theorem step_of_quiet {st : Step} (hopened : openedBy w.sim st = []) (hdropped : droppedBy w.sim st = []) :
    w.step st = { w with sim := w.sim.step st } := by
  unfold step
  rw [hopened, hdropped, List.append_nil, List.append_nil]

theorem step_accounted (w : Watched) (st : Step) (h : w.Accounted) (happlies : w.Applies st) : (w.step st).Accounted := by
  cases st with
  | limitSet sig stop ts => exact limitSet_accounted h sig stop ts
  | market sig stop ts lot => exact market_accounted h sig stop ts happlies
  | expire c spike => exact expire_accounted h c spike
  | fillLimits c => exact fillLimits_accounted h c
  | stop c p =>
    rw [step_of_quiet rfl rfl]
    by_cases hhit : p.stopHit c = true
    · simp only [Sim.step, hhit, if_true]
      exact wholeClose_accounted h happlies p.sl "sl" c.ts
    · simp only [Sim.step, hhit]
      exact h
  | act c action =>
    rw [step_of_quiet rfl rfl]
    exact act_accounted h c action happlies
  | flatten c p =>
    rw [step_of_quiet rfl rfl]
    exact wholeClose_accounted h happlies (w.sim.exitPx c p) "daily_halt" c.ts
  | pull => exact pull_accounted h
  | mark c =>
    rw [step_of_quiet rfl rfl]
    exact ⟨⟨h.equity, h.tradeVolume, h.tradePnl, h.tickets, h.opened⟩, h.openVolume, h.openPnl, h.openPlaces,
      h.orderPlaces, h.qtyPlaces⟩

theorem mem_close {s : Sim} {ticket : Nat} {px vol : ℚ} {reason : String} {ts : Int} {q : Position} (hq : q ∈ s.positions)
    (hne : q.ticket ≠ ticket) : q ∈ (s.close ticket px vol reason ts).positions := by
  unfold Sim.close
  split
  · exact hq
  · dsimp only
    split
    · exact (List.mem_eraseP_of_neg (by simpa using hne)).mpr hq
    · exact List.mem_map.mpr ⟨q, hq, if_neg hne⟩

theorem snapshot_applies (mk : Position → Step) (happlies : ∀ (w : Watched) (p : Position), p ∈ w.sim.positions →
    w.Applies (mk p)) (hothers : ∀ (s : Sim) (p q : Position), q ∈ s.positions → q.ticket ≠ p.ticket →
      q ∈ (s.step (mk p)).positions) (ps : List Position) (w : Watched) (hnodup : (ps.map (·.ticket)).Nodup)
    (hps : ∀ p ∈ ps, p ∈ w.sim.positions) : StepsMeet step Applies w (ps.map mk) := by
  induction ps generalizing w with
  | nil => trivial
  | cons p ps ih =>
    obtain ⟨hfirst, hrest⟩ := List.nodup_cons.mp hnodup
    refine ⟨happlies w p (hps p List.mem_cons_self), ih _ hrest fun q hq => ?_⟩
    refine hothers w.sim p q (hps q (List.mem_cons_of_mem _ hq)) fun heq => hfirst ?_
    exact List.mem_map.mpr ⟨q, hq, heq⟩

theorem stops_apply (h : w.Accounted) (c : Candle) : StepsMeet step Applies w (w.sim.positions.map (.stop c)) := by
  refine snapshot_applies (.stop c) (fun _ _ hp => hp) (fun s p q hq hne => ?_) _ w h.ticketed.nodup fun _ hp => hp
  by_cases hhit : p.stopHit c = true
  · simp only [Sim.step, hhit, if_true]
    exact mem_close hq hne
  · simp only [Sim.step, hhit]
    exact hq

theorem flattens_apply (h : w.Accounted) (c : Candle) :
    StepsMeet step Applies w (w.sim.positions.map (.flatten c)) :=
  snapshot_applies (.flatten c) (fun _ _ hp => hp) (fun _ _ _ hq hne => mem_close hq hne) _ w h.ticketed.nodup fun _ hp => hp

end Watched

/-- The volumes of a call have at most eight places. -/
def Call.InPlaces : Call → Prop
  | .limitSet .. => True
  | .market _ _ _ lot => HasPlaces 8 lot
  | .bar _ acts _ _ => ∀ ps, ∀ ticket volume, .partialClose ticket volume ∈ acts ps → HasPlaces 8 volume

namespace Watched

variable {w : Watched}

theorem acts_apply (w : Watched) (c : Candle) {answer : List SitterAction}
    (hplaces : ∀ ticket volume, .partialClose ticket volume ∈ answer → HasPlaces 8 volume) :
    StepsMeet step Applies w (answer.map (.act c)) := by
  induction answer generalizing w with
  | nil => trivial
  | cons action rest ih =>
    refine ⟨?_, ih _ fun ticket volume hmem => hplaces ticket volume (List.mem_cons_of_mem _ hmem)⟩
    cases action with
    | partialClose ticket volume => exact hplaces ticket volume List.mem_cons_self
    | updateSl ticket sl => trivial

theorem stepsOf_apply (h : w.Accounted) {call : Call} (hcall : call.InPlaces) :
    StepsMeet step Applies w (w.sim.stepsOf call) := by
  cases call with
  | limitSet sig stop ts => exact ⟨trivial, trivial⟩
  | market sig stop ts lot => exact ⟨hcall, trivial⟩
  | bar c acts spike halted =>
    have hfirst : StepsMeet step Applies w [.expire c spike, .fillLimits c] := ⟨trivial, trivial, trivial⟩
    have hstops := hfirst.append (stops_apply (run_invariant step_accounted h hfirst) c)
    have hacts := hstops.append (acts_apply _ c (hcall ((w.sim.replay c spike).positions.map (·.seen))))
    refine (hacts.append ?_).append ⟨trivial, trivial⟩
    cases halted with
    | false => trivial
    | true =>
      have hflattens := flattens_apply (run_invariant step_accounted h hacts) c
      have hsnapshot := (acted_eq_run c w.sim spike (acts ((w.sim.replay c spike).positions.map (·.seen)))).trans
        (run_sim w _).symm
      refine StepsMeet.append ?_ ⟨trivial, trivial⟩
      rw [hsnapshot]
      exact hflattens

theorem steps_apply (calls : List Call) (w : Watched) (h : w.Accounted) (hcalls : ∀ call ∈ calls, call.InPlaces) :
    StepsMeet step Applies w (w.sim.steps calls) := by
  induction calls generalizing w with
  | nil => trivial
  | cons call calls ih =>
    have hfirst := stepsOf_apply h (hcalls call List.mem_cons_self)
    have hnext := ih _ (run_invariant step_accounted h hfirst) fun call hcall => hcalls call (List.mem_cons_of_mem _ hcall)
    rw [run_sim, run_stepsOf] at hnext
    exact hfirst.append hnext

/-- **The books balance after every step of every run.** -/
theorem balanced {qty : ℚ} (spread comm valuePerMove : ℚ) {calls : List Call} (hqty : HasPlaces 8 qty)
    (hcalls : ∀ call ∈ calls, call.InPlaces) :
    run Sim.step (create qty spread comm valuePerMove) ((create qty spread comm valuePerMove).steps calls) =
        run call (create qty spread comm valuePerMove) calls ∧
      ∀ sts, sts <+: (create qty spread comm valuePerMove).steps calls →
        Balanced (run step { sim := create qty spread comm valuePerMove } sts) := by
  refine ⟨run_steps calls _, ?_⟩
  rintro sts ⟨rest, hsteps⟩
  have hstart : Accounted { sim := create qty spread comm valuePerMove } :=
    ⟨⟨by simp [create], fun t ht => (by cases ht), fun t ht => (by cases ht), List.Perm.refl _, List.Perm.refl _⟩,
      fun p hp => (by cases hp), fun p hp => (by cases hp), fun p hp => (by cases hp), fun p hp => (by cases hp), hqty⟩
  have hmeets := steps_apply calls _ hstart hcalls
  rw [← hsteps] at hmeets
  exact (run_invariant step_accounted hstart hmeets.of_append.1).toBalanced

/-- A market entry at 100 with the stop at 99. -/
def bought : Signal where
  ts := 0
  kind := .entry
  direction := .long
  price := 100
  stateFrom := .rangeDefined
  stateTo := .breakout
  reason := "breakout"
  stop := some 99

def risingBar : Candle := ⟨60000000, 102, 103, 101, 102, 1, zero_le_one, by norm_num, by norm_num, by norm_num⟩

/-- An entry, a bar with a partial close, and one on which the day is halted. -/
def boughtCalls : List Call := [.market bought 99 0 (5 / 100),
  .bar risingBar (fun _ => [.partialClose 1 (2 / 100)]) false false, .bar risingBar (fun _ => []) false true]

theorem balanced_bought :
    run Sim.step (create (5 / 100) (1 / 4) 7 100) ((create (5 / 100) (1 / 4) 7 100).steps boughtCalls) =
        run call (create (5 / 100) (1 / 4) 7 100) boughtCalls ∧
      ∀ sts, sts <+: (create (5 / 100) (1 / 4) 7 100).steps boughtCalls →
        Balanced (run step { sim := create (5 / 100) (1 / 4) 7 100 } sts) := by
  refine balanced (1 / 4) 7 100 ⟨5000000, by norm_num⟩ fun call hcall => ?_
  simp only [boughtCalls, List.mem_cons, List.not_mem_nil, or_false] at hcall
  rcases hcall with rfl | rfl | rfl
  · exact ⟨5000000, by norm_num⟩
  · intro ps ticket volume hmem
    obtain ⟨-, rfl⟩ := SitterAction.partialClose.inj (List.mem_singleton.mp hmem)
    exact ⟨2000000, by norm_num⟩
  · intro ps ticket volume hmem
    cases hmem

theorem Balanced.fromSim_volume (h : w.Balanced) {r : Analytics.TradeRecord} (hr : r ∈ Analytics.fromSim w.sim.closed) :
    ∃ t ∈ w.sim.closed, r = Analytics.record t ∧ (t.ticket, r.volume) ∈ w.opened := by
  obtain ⟨t, ht, rfl⟩ := List.mem_map.mp hr
  have hvolume : (Analytics.record t).volume = (t.fills.map (·.volume)).sum := by
    rw [List.sum_eq_foldl, List.foldl_map]
    rfl
  exact ⟨t, ht, rfl, by rw [hvolume]; exact h.tradeVolume t ht⟩

end Watched

end Sim

end FreqTrading
