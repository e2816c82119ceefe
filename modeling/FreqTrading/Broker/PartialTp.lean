import FreqTrading.Engine.Runs
import FreqTrading.Broker.Rules

/-!
# The partial take profit at the broker

The engine's `take_profit_partial` EXIT carries the fraction of the configured `qty`, whatever volume was
filled. `_close` snaps that quantity to the volume step and closes everything when there is none or when it
is not below the volume held. The fraction of the fill is closed exactly when the two quantities snap to the
same volume (`partial_tp_iff`).
-/

namespace FreqTrading

open Lib

variable {β : Type}

/-! ### The volume grid -/

/-- A volume step: a positive whole number of units of the eighth decimal, to which volumes are rounded. -/
def IsStep (step : ℚ) : Prop := ∃ m : ℕ, 0 < m ∧ step = m / 10 ^ 8

theorem IsStep.pos {step : ℚ} (h : IsStep step) : 0 < step := by
  obtain ⟨m, hm, rfl⟩ := h
  positivity

theorem snapVolume_eq {step : ℚ} (h : IsStep step) (qty : ℚ) :
    Mt5Broker.snapVolume step qty = roundEven (qty / step + 1 / 1000000000) * step := by
  obtain ⟨m, _, rfl⟩ := h
  unfold Mt5Broker.snapVolume roundPrice roundPlaces
  set k := roundEven (qty / (m / 10 ^ 8) + 1 / 1000000000)
  have hgrid : (k : ℚ) * (m / 10 ^ 8) * 10 ^ 8 = ((k * m : ℤ) : ℚ) := by
    push_cast
    ring
  rw [hgrid, roundEven_intCast]
  push_cast
  ring

theorem roundEven_le_of_lt {x : ℚ} {n : ℤ} (h : x < n + 1 / 2) : roundEven x ≤ n := by
  have herr := (abs_le.mp (roundEven_error x)).2
  have hlt : (roundEven x : ℚ) < n + 1 := by linarith
  exact Int.lt_add_one_iff.mp (by exact_mod_cast hlt)

theorem snapVolume_le {step qty : ℚ} (h : IsStep step) {n : ℤ} (hqty : qty < n * step) :
    Mt5Broker.snapVolume step qty ≤ n * step := by
  rw [snapVolume_eq h]
  have hdiv : qty / step < n := by rwa [div_lt_iff₀ h.pos]
  have hk : roundEven (qty / step + 1 / 1000000000) ≤ n := roundEven_le_of_lt (by linarith)
  exact mul_le_mul_of_nonneg_right (by exact_mod_cast hk) h.pos.le

theorem snapVolume_between {step qty : ℚ} (h : IsStep step) {n : ℤ} (hlow : step ≤ qty)
    (hhigh : step ≤ n * step - qty) :
    0 < Mt5Broker.snapVolume step qty ∧ Mt5Broker.snapVolume step qty < n * step := by
  rw [snapVolume_eq h]
  have hpos := h.pos
  have hone : 1 ≤ qty / step := by rwa [le_div_iff₀ hpos, one_mul]
  have hdiv : qty / step ≤ n - 1 := by
    rw [div_le_iff₀ hpos]
    linarith
  have hk : roundEven (qty / step + 1 / 1000000000) ≤ n - 1 :=
    roundEven_le_of_lt (by push_cast; linarith)
  have hk' : 1 ≤ roundEven (qty / step + 1 / 1000000000) := by
    have hmono := roundEven_mono (show ((1 : ℤ) : ℚ) ≤ qty / step + 1 / 1000000000 by push_cast; linarith)
    rwa [roundEven_intCast] at hmono
  constructor
  · have : (0 : ℚ) < roundEven (qty / step + 1 / 1000000000) := by exact_mod_cast hk'
    positivity
  · exact mul_lt_mul_of_pos_right (by exact_mod_cast Int.lt_of_le_sub_one hk) hpos

/-! ### A server that does what it is asked -/

/-- Nothing happens on its own, reads succeed, the volume step is `step`, and requests are executed in full. -/
structure Obliging (step : ℚ) (env : Nat → Reply) : Prop where
  events : ∀ n, (env n).events = []
  reads : ∀ n, (env n).readOk = true
  tick : ∀ n, (env n).tick.isSome = true
  step : ∀ n, Mt5Broker.stepOf (env n).info = step
  executes : ∀ n, (env n).send.executes = true
  whole : ∀ n, (env n).send.partly = none
  answer : ∀ n, ∃ res, (env n).send.answer = some res ∧ res.retcode = 10009

theorem Obliging.settled {step : ℚ} {w : World β} (h : Obliging step w.env) : w.settled = w.server := by
  unfold World.settled World.reply
  rw [h.events]
  rfl

theorem Obliging.afterRead {step : ℚ} {w : World β} (h : Obliging step w.env) : w.afterRead.server = w.server :=
  h.settled

namespace Mt5Broker

variable (b : Mt5Broker β) {step : ℚ}

theorem send_obliging {w : World β} (h : Obliging step w.env) {r : OrderRequest} {s : Server}
    (hs : w.server.perform none w.reply.send.price w.reply.send.profit r.body = some s) :
    Ensures (b.send r none false) w (Post (fun _ w' => w'.server = s ∧ w'.env = w.env) fun _ _ => False) := by
  have hexec : w.reply.send.executes = true := h.executes w.calls
  have hwhole : w.reply.send.partly = none := h.whole w.calls
  have hout : w.outcome r = (s, true, w.reply.send.answer) := by
    unfold World.outcome
    rw [if_pos hexec, h.settled, hwhole, hs]
  obtain ⟨res, hres, hdone⟩ := h.answer w.calls
  have hans : (w.outcome r).2.2 = some res := by
    rw [hout]
    exact hres
  have hserver : (w.afterSend r).server = s := by rw [afterSend_server, hout]
  unfold send
  cases hret : b.retry with
  | none =>
    simp only
    rw [ensures_bind, ensures_orderSend, post_ok, hans]
    simp only [hdone, retcodeDone, if_true, ensures_pure]
    exact ⟨hserver, rfl⟩
  | some pol =>
    have hsucc : succeeded (w.outcome r).2.2 = some (doneResult res) := by
      rw [hans]
      show (if classify (some res.retcode) = _ ∨ _ then _ else _) = _
      rw [hdone]
      rfl
    have hattempt : Ensures (b.attempt none r) w
        (Post (fun a w' => a = .done (doneResult res) ∧ w' = w.afterSend r) fun _ _ => False) := by
      unfold attempt
      rw [ensures_bind, ensures_orderSend, post_ok, hsucc]
      exact ⟨rfl, rfl⟩
    unfold sendWithPolicy
    simp only [Bool.false_eq_true, if_false]
    cases pol.maxRetries with
    | zero | succ =>
      unfold sendLoop
      refine hattempt.bind_total fun a w' ha => ?_
      obtain ⟨rfl, rfl⟩ := ha
      exact ⟨hserver, rfl⟩

theorem closePosition_obliging {w : World β} (h : Obliging step w.env) {p : Position} {volume : ℚ}
    (hp : w.server.position? p.ticket = some p) (hvolume : 0 < volume ∧ volume ≤ p.volume) (reason : String) :
    Ensures (b.closePosition p volume reason) w
      (Post (fun _ w' => w'.env = w.env ∧ ∃ profit, w'.server = w.server.closeVolume p volume profit (some b.magic))
        fun _ _ => False) := by
  obtain ⟨tick, htick⟩ := Option.isSome_iff_exists.mp (h.tick w.calls)
  have hread : Obliging step w.afterRead.env := h
  unfold closePosition
  rw [ensures_bind, ensures_symbolInfoTick, post_ok]
  simp only [show w.reply.tick = some tick from htick]
  refine (filling_reads _).bind_total fun f w' hw' => ?_
  subst hw'
  have hserver : w.afterRead.afterRead.server = w.server := hread.afterRead.trans h.afterRead
  have hperform : w.afterRead.afterRead.server.perform none w.afterRead.afterRead.reply.send.price
      w.afterRead.afterRead.reply.send.profit
      (b.closeRequest p volume (quote (opposite p.direction) tick) reason f).body =
      some (w.server.closeVolume p volume w.afterRead.afterRead.reply.send.profit (some b.magic)) := by
    rw [hserver]
    simp only [closeRequest, Server.perform, hp, Server.executedVolume, if_pos hvolume]
  refine (b.send_obliging (w := w.afterRead.afterRead) h hperform).bind_total fun res w' hres => ?_
  obtain ⟨hs, henv⟩ := hres
  have hdone : w'.env = w.env ∧ ∃ profit, w'.server = w.server.closeVolume p volume profit (some b.magic) := ⟨henv, _, hs⟩
  by_cases hsink : b.onEvent.isSome = true
  · rw [if_pos hsink]
    refine (dealProfit_reads res.deal w').bind_total fun pnl w'' hw'' => ?_
    have hsame : w''.env = w.env ∧ w''.server = w'.server := by
      rcases hw'' with rfl | rfl
      · exact ⟨henv, rfl⟩
      · have hobl : Obliging step w'.env := henv ▸ h
        exact ⟨henv, hobl.settled⟩
    obtain ⟨henv', hs'⟩ := hsame
    rw [ensures_bind]
    exact b.emit_rule fun _ => ⟨henv', _, hs'.trans hs⟩
  · rw [if_neg hsink]
    exact hdone

/-! ### The partial exit -/

/-- The volume an EXIT closes of a position of volume `held`; `none` if it snaps to nothing. -/
def closedVolume (step held : ℚ) (sig : Signal) : Option ℚ :=
  match sig.qty with
  | none => some held
  | some qty =>
    if sig.reason = "take_profit_partial" ∧ qty ≠ 0 ∧ qty < held then
      if snapVolume step qty ≤ 0 then none else some (snapVolume step qty)
    else some held

theorem exitVolume_obliging {w : World β} (h : Obliging step w.env) (sig : Signal) (p : Position) :
    Ensures (exitVolume sig p) w (Post (fun v w' => v = closedVolume step p.volume sig ∧ w'.env = w.env ∧
      w'.server = w.server) fun _ _ => False) := by
  unfold exitVolume closedVolume
  cases sig.qty with
  | none => exact ⟨rfl, rfl, rfl⟩
  | some qty =>
    simp only
    split
    · refine (roundVolume_reads qty w).bind_total fun v w' hv => ?_
      obtain ⟨rfl, rfl⟩ := hv
      rw [show stepOf w.reply.info = step from h.step w.calls]
      exact ⟨rfl, rfl, h.settled⟩
    · exact ⟨rfl, rfl, rfl⟩

theorem own_closeVolume {s : Server} {magic : Int} {p : Position} (hown : s.own magic = [p]) (volume profit : ℚ)
    (order : Option Int) :
    (s.closeVolume p volume profit order).own magic =
      if volume < p.volume then [{ p with volume := p.volume - volume }] else [] := by
  unfold Server.own at *
  unfold Server.closeVolume
  by_cases hlt : volume < p.volume
  · simp only [if_pos hlt]
    have hmagic : (fun q : Position => decide (q.magic = magic)) ∘
        (fun q : Position => if q.ticket = p.ticket then { q with volume := q.volume - volume } else q) =
        fun q => decide (q.magic = magic) := by
      funext q
      simp only [Function.comp]
      split <;> rfl
    rw [List.filter_map, hmagic, hown]
    simp
  · simp only [if_neg hlt]
    refine List.filter_eq_nil_iff.mpr fun q hq => ?_
    obtain ⟨hmem, hne⟩ := List.mem_filter.mp hq
    intro hmagic
    have hqp : q ∈ [p] := by
      rw [← hown]
      exact List.mem_filter.mpr ⟨hmem, hmagic⟩
    simp only [List.mem_singleton] at hqp
    simp [hqp] at hne

/-- **What `_close` does with an EXIT** when one own position is held and the server does what it is asked. -/
theorem execute_exit_obliging {w : World β} (h : Obliging step w.env) (hmode : b.entryMode = .market)
    (hconn : b.connected = true) {p : Position} (hown : w.server.own b.magic = [p])
    (hp : w.server.position? p.ticket = some p) {sig : Signal} (hkind : sig.kind = .exit)
    (hvolume : ∀ v ∈ closedVolume step p.volume sig, 0 < v ∧ v ≤ p.volume) :
    (exec (b.execute sig) w).2.server.own b.magic =
      match closedVolume step p.volume sig with
      | none => [p]
      | some v => if v < p.volume then [{ p with volume := p.volume - v }] else [] := by
  have hseen : b.seen w = [p] := by
    unfold seen
    rw [show w.reply.readOk = true from h.reads w.calls, if_pos rfl, h.settled, hown]
  have hread : w.afterRead.server = w.server := h.afterRead
  show Ensures (b.execute sig) w fun _ w' => w'.server.own b.magic = _
  unfold execute
  simp only [hkind, hconn, if_true, close, hmode]
  rw [ensures_bind, ensures_myPositions, post_ok, hseen]
  unfold closeMine
  refine (exitVolume_obliging (w := w.afterRead) h sig p).bind_total fun v w' hv => ?_
  obtain ⟨rfl, henv, hserver⟩ := hv
  rw [hread] at hserver
  cases hclosed : closedVolume step p.volume sig with
  | none =>
    show w'.server.own b.magic = [p]
    rw [hserver, hown]
  | some v =>
    have hpos := hvolume v hclosed
    have hobl : Obliging step w'.env := henv ▸ h
    refine (b.closePosition_obliging hobl (hserver.symm ▸ hp) hpos sig.reason).bind_total fun res w'' hw'' => ?_
    obtain ⟨-, profit, hs⟩ := hw''
    show w''.server.own b.magic = _
    rw [hs, hserver, own_closeVolume hown]

theorem closedVolume_partialTp (step : ℚ) (cfg : OrbConfig) (e : OrbEngine) (pos : PositionState) (c : Candle)
    (price held : ℚ) :
    closedVolume step held (e.partialTp cfg pos c price).1 =
      if 0 < cfg.qty ∧ cfg.qty * cfg.tpCloseFrac < held then
        if snapVolume step (cfg.qty * cfg.tpCloseFrac) ≤ 0 then none
        else some (snapVolume step (cfg.qty * cfg.tpCloseFrac))
      else some held := by
  have hfrac : 0 < cfg.tpCloseFrac := by
    have hcheck : (!(decide (0 < cfg.tpCloseFrac) && decide (cfg.tpCloseFrac ≤ 1)),
        "tp_close_frac must be in (0, 1]") ∈ cfg.checks := by simp [OrbConfigFields.checks]
    have hpass := cfg.check_passes hcheck
    simp only [Bool.not_eq_false', Bool.and_eq_true, decide_eq_true_eq] at hpass
    exact hpass.1
  have hqty : (e.partialTp cfg pos c price).1.qty =
      if 0 < cfg.qty then some (cfg.qty * cfg.tpCloseFrac) else none := by
    simp only [OrbEngine.partialTp, OrbEngine.partialQty, OrbEngine.defaultQty]
    split <;> rfl
  unfold closedVolume
  rw [hqty]
  by_cases hq : 0 < cfg.qty
  · have hne : cfg.qty * cfg.tpCloseFrac ≠ 0 := (mul_pos hq hfrac).ne'
    have hreason : (e.partialTp cfg pos c price).1.reason = "take_profit_partial" := rfl
    simp only [hq, if_true, true_and, hreason, ne_eq, hne, not_false_eq_true]
  · simp [hq]

/-- A fill `p` of any volume is held, alone; its volume is on the step grid and large enough for both parts,
and the server does what it is asked. -/
structure PartialFill (cfg : OrbConfig) (w : World β) (step volMin : ℚ) (p : Position) : Prop where
  market : b.entryMode = .market
  connected : b.connected = true
  obliging : Obliging step w.env
  isStep : IsStep step
  own : w.server.own b.magic = [p]
  listed : w.server.position? p.ticket = some p
  grid : ∃ n : ℤ, p.volume = n * step
  min : step ≤ volMin
  part : volMin ≤ cfg.tpCloseFrac * p.volume
  rest : volMin ≤ (1 - cfg.tpCloseFrac) * p.volume

/-- Handling the signal closes the fraction of the fill, snapped to the step, and leaves the rest. -/
def LeavesRest (cfg : OrbConfig) (sig : Signal) (w : World β) (step : ℚ) (p : Position) : Prop :=
  (exec (b.execute sig) w).2.server.own b.magic =
    [{ p with volume := p.volume - snapVolume step (cfg.tpCloseFrac * p.volume) }]

/-- What `_close` leaves when it closes `closed` of `held`: it is the rest after the right part only if
`closed` is that part. -/
theorem rest_iff {p : Position} {part closed : ℚ} (hpart : part < p.volume) :
    (if closed < p.volume then [{ p with volume := p.volume - closed }] else []) =
      [{ p with volume := p.volume - part }] ↔ closed = part := by
  by_cases hlt : closed < p.volume
  · rw [if_pos hlt]
    constructor
    · intro heq
      have hvol := congrArg Position.volume (List.singleton_inj.mp heq)
      simp only at hvol
      linarith
    · rintro rfl
      rfl
  · rw [if_neg hlt]
    refine iff_of_false (fun heq => by cases heq) fun heq => ?_
    exact hlt (heq ▸ hpart)

/-- **When the partial take profit closes the fraction of the fill.** The engine's partial EXIT leaves the
rest of the fill exactly when a `qty` is configured, its fraction is below the volume filled, and it snaps to
the same volume as the fraction of the fill. -/
theorem partial_tp_iff {cfg : OrbConfig} {w : World β} {volMin : ℚ} {p : Position}
    (h : b.PartialFill cfg w step volMin p) (e : OrbEngine) (pos : PositionState) (c : Candle) (price : ℚ) :
    b.LeavesRest cfg (e.partialTp cfg pos c price).1 w step p ↔
      0 < cfg.qty ∧ cfg.qty * cfg.tpCloseFrac < p.volume ∧
        snapVolume step (cfg.qty * cfg.tpCloseFrac) = snapVolume step (cfg.tpCloseFrac * p.volume) := by
  obtain ⟨n, hgrid⟩ := h.grid
  have hrest : volMin ≤ n * step - cfg.tpCloseFrac * p.volume := by
    have := h.rest
    rw [← hgrid]
    linarith
  obtain ⟨hpartPos, hpartLt⟩ := snapVolume_between h.isStep (h.min.trans h.part) (h.min.trans hrest)
  rw [← hgrid] at hpartLt
  have hclosed := closedVolume_partialTp step cfg e pos c price p.volume
  have hrun := b.execute_exit_obliging h.obliging h.market h.connected h.own h.listed
    (show (e.partialTp cfg pos c price).1.kind = .exit from rfl) (by
      intro v hv
      rw [hclosed] at hv
      split_ifs at hv with hcase hzero
      · cases hv
      · cases hv
        exact ⟨not_le.mp hzero, hgrid ▸ snapVolume_le h.isStep (hgrid ▸ hcase.2)⟩
      · cases hv
        exact ⟨hpartPos.trans hpartLt, le_rfl⟩)
  unfold LeavesRest
  rw [hrun, hclosed]
  by_cases hcase : 0 < cfg.qty ∧ cfg.qty * cfg.tpCloseFrac < p.volume
  · rw [if_pos hcase]
    by_cases hzero : snapVolume step (cfg.qty * cfg.tpCloseFrac) ≤ 0
    · -- the configured fraction snaps to nothing: nothing is closed
      rw [if_pos hzero]
      refine iff_of_false (fun heq => ?_) fun hcond => ?_
      · have hvol := congrArg Position.volume (List.singleton_inj.mp heq)
        simp only at hvol
        linarith
      · rw [hcond.2.2] at hzero
        linarith
    · rw [if_neg hzero]
      exact (rest_iff hpartLt).trans ⟨fun heq => ⟨hcase.1, hcase.2, heq⟩, fun hcond => hcond.2.2⟩
  · -- no quantity, or one that is not below the fill: everything is closed
    rw [if_neg hcase]
    refine (rest_iff hpartLt).trans (iff_of_false (fun heq => ?_) fun hcond => hcase ⟨hcond.1, hcond.2.1⟩)
    exact hpartLt.ne heq.symm

/-! ### A fill that was scaled -/

/-- Seventy percent are to be taken at twice the risk; `qty` is the configured lot size. -/
def partialConfig (qty : ℚ) (h : ({ qty := qty, tpRrr := some 2, tpCloseFrac := 7 / 10 } :
    OrbConfigFields).postInit = .ok ()) : OrbConfig :=
  ⟨{ qty := qty, tpRrr := some 2, tpCloseFrac := 7 / 10 }, h⟩

def scaledFill : Position where
  ticket := 1
  magic := 20260610
  direction := .long
  volume := 1 / 10
  priceOpen := 100
  sl := 98

/-- A tenth of a lot is held, and every request is executed. -/
def scaledWorld : World Unit where
  server := { positions := [scaledFill], nextTicket := 2 }
  env := fun _ => { tick := some ⟨104, 105, 0⟩, send := { executes := true, answer := some {} } }
  bot := ()

theorem scaledWorld_fill {cfg : OrbConfig} (hfrac : cfg.tpCloseFrac = 7 / 10) :
    ({} : Mt5Broker Unit).PartialFill cfg scaledWorld (1 / 100) (1 / 100) scaledFill where
  market := rfl
  connected := rfl
  obliging := ⟨fun _ => rfl, fun _ => rfl, fun _ => rfl, fun _ => by norm_num [scaledWorld, Mt5Broker.stepOf, orElse], fun _ => rfl,
    fun _ => rfl, fun _ => ⟨{}, rfl, rfl⟩⟩
  isStep := ⟨1000000, by norm_num, by norm_num⟩
  own := by decide +kernel
  listed := by decide +kernel
  grid := ⟨10, by norm_num [scaledFill]⟩
  min := le_rfl
  part := by rw [hfrac]; norm_num [scaledFill]
  rest := by rw [hfrac]; norm_num [scaledFill]

def takeProfitBar : Candle := ⟨0, 104, 105, 103, 104, 1, by norm_num, by norm_num, by norm_num, by norm_num⟩

def heldTrade : PositionState where
  direction := .long
  entryTs := 0
  entryPrice := 100
  stop := 98
  atrAtEntry := 1
  tp := some 104

/-- The configured lot size was filled: seven hundredths are closed. -/
theorem partial_tp_unscaled_fill :
    ({} : Mt5Broker Unit).LeavesRest (partialConfig (1 / 10) (by decide +kernel))
      ((OrbEngine.init (partialConfig (1 / 10) (by decide +kernel))).partialTp
        (partialConfig (1 / 10) (by decide +kernel)) heldTrade takeProfitBar 104).1 scaledWorld (1 / 100) scaledFill :=
  (partial_tp_iff {} (scaledWorld_fill rfl) _ heldTrade takeProfitBar 104).mpr
    ⟨by decide +kernel, by decide +kernel, by decide +kernel⟩

/-- With a configured lot size of a hundredth, of a fill scaled to a tenth a hundredth is closed. -/
theorem partial_tp_scaled_fill :
    ¬ ∀ (b : Mt5Broker Unit) (cfg : OrbConfig) (w : World Unit) (step volMin : ℚ) (p : Position) (e : OrbEngine)
      (pos : PositionState) (c : Candle) (price : ℚ), b.PartialFill cfg w step volMin p →
      b.LeavesRest cfg (e.partialTp cfg pos c price).1 w step p := by
  intro h
  have hleaves := h {} (partialConfig (1 / 100) (by decide +kernel)) scaledWorld (1 / 100) (1 / 100) scaledFill
    (OrbEngine.init (partialConfig (1 / 100) (by decide +kernel))) heldTrade takeProfitBar 104
    (scaledWorld_fill rfl)
  unfold LeavesRest at hleaves
  exact absurd hleaves (by decide +kernel)

end Mt5Broker

end FreqTrading
