import FreqTrading.Live.OnePosition

/-!
# The daily budget of a sized entry

An ENTRY is sized with what the breaker thinks is left of the daily cap. The breaker is fed at most once a bar, after
the signal of the bar, and with the cached balance: a loss after that, or one that the cache does not show yet, is not
in its figure (`loss_after_feeding`). `entries_within_budget` is about every run in which the breaker's figure for the
day is no better than the broker's when an order arrives, or the percentage of the balance fits the budget by itself.
-/

namespace FreqTrading

open Lib

/-! ### What a sizing reads -/

/-- `symbol_specs`, of what the terminal knows of the symbol. -/
def SymbolInfo.specs (info : SymbolInfo) : Mt5Broker.Specs where
  valuePerMove := if info.tradeTickSize = 0 then 0 else info.tradeTickValue / info.tradeTickSize
  volumeMin := Mt5Broker.orElse info.volumeMin (1 / 100)
  volumeStep := Mt5Broker.orElse info.volumeStep (1 / 100)
  volumeMax := Mt5Broker.orElse info.volumeMax 100

/-- The levels of the signal, and what the terminal and the breaker say when it is sized. -/
structure Sizing where
  price : ℚ
  stop : ℚ
  specs : Mt5Broker.Specs
  balance : ℚ
  breaker : DailyLossBreaker

namespace Sizing

variable (z : Sizing) {cap pct lot lot' : ℚ}

/-- The money that one lot loses at the stop. -/
def unit : ℚ := |z.price - z.stop| * z.specs.valuePerMove

/-- What rounding to the volume step may add to the risk. -/
def slack : ℚ := lotTolerance z.specs.volumeStep * z.unit

/-- The lot that `on_signal` injects. -/
def chosen (pct : ℚ) (remaining : Option ℚ) : ℚ :=
  computeLot z.balance pct z.price z.stop z.specs.valuePerMove z.specs.volumeMin z.specs.volumeStep z.specs.volumeMax
    remaining

/-- Up to rounding, the lot risks no more than the percentage of the balance, nor than the breaker leaves of the cap. -/
structure Affords (cap pct lot : ℚ) : Prop where
  unit_pos : 0 < z.unit
  balance : lot * z.unit ≤ z.balance * (pct / 100) + z.slack
  budget : lot * z.unit ≤ cap + z.breaker.dayPnl + z.slack

variable {z}

theorem affords_chosen (hpos : 0 < z.chosen pct (some (max 0 (cap + z.breaker.dayPnl)))) :
    z.Affords cap pct (z.chosen pct (some (max 0 (cap + z.breaker.dayPnl)))) := by
  obtain ⟨hunit, hbalance, hbudget⟩ := computeLot_affordable hpos
  refine ⟨hunit, hbalance, ?_⟩
  rcases le_total 0 (cap + z.breaker.dayPnl) with hleft | hspent
  · rw [max_eq_right hleft] at hbudget ⊢
    exact hbudget _ rfl
  · -- with nothing left the lot is 0
    rw [max_eq_left hspent] at hpos
    unfold chosen computeLot at hpos
    simp at hpos

theorem Affords.mono (h : z.Affords cap pct lot) (hle : lot' ≤ lot) : z.Affords cap pct lot' := by
  have hrisk : lot' * z.unit ≤ lot * z.unit := mul_le_mul_of_nonneg_right hle h.unit_pos.le
  exact ⟨h.unit_pos, hrisk.trans h.balance, hrisk.trans h.budget⟩

end Sizing

/-! ### Orders of a bar -/

namespace Live

variable {ε : Type} {ops : EngineOps ε} {cfg : LiveConfig} {bar : Bar} {cap pct : ℚ} {n : Nat} {P : Sent → Prop}
  {w w' : World (Bot ε)}

/-- The breaker is on, and the orders since the log had `n` entries meet `P`. -/
structure Budgeted (cap : ℚ) (n : Nat) (P : Sent → Prop) (w : World (Bot ε)) : Prop where
  breaker : ∃ br, w.bot.breaker = some br ∧ br.cap.flat = some cap
  grows : n ≤ w.sent.length
  orders : ∀ s ∈ w.sent.drop n, P s

/-- A property of the orders that open a position. -/
def OnEntries (P : Sent → Prop) : Prop := ∀ s : Sent, s.request.body.opened = none → P s

theorem opened_close {p : Position} {volume : ℚ} {body : OrderBody} (h : Mt5Broker.CloseBody p volume body) :
    body.opened = none := by
  cases body with
  | close | sltp | remove => rfl
  | entry | pending => exact h.elim

theorem opened_amend {body : OrderBody} (h : body.Amends) : body.opened = none := by
  cases body with
  | close | sltp | remove => rfl
  | entry | pending => exact h.elim

theorem Budgeted.congr (h : Budgeted cap n P w) (hsent : w'.sent = w.sent) (hbreaker : w'.bot.breaker = w.bot.breaker) :
    Budgeted cap n P w' := by
  refine ⟨?_, ?_, ?_⟩
  · rw [hbreaker]
    exact h.breaker
  · rw [hsent]
    exact h.grows
  · rw [hsent]
    exact h.orders

theorem Budgeted.send (h : Budgeted cap n P w) {r : OrderRequest}
    (hP : ∀ executed answer, P ⟨w.settled, r, executed, answer⟩) : Budgeted cap n P (w.afterSend r) := by
  refine ⟨h.breaker, ?_, fun s hs => ?_⟩
  · rw [afterSend_sent, List.length_append]
    exact h.grows.trans (Nat.le_add_right _ _)
  · rw [afterSend_sent, List.drop_append_of_le_length h.grows] at hs
    rcases List.mem_append.mp hs with hold | hnew
    · exact h.orders s hold
    · rw [List.mem_singleton.mp hnew]
      exact hP _ _

theorem mtStep_budgeted {B : OrderBody → Prop} {E : BrokerEvent → Prop} (hstep : MtStep (mt5 cfg) B E w w')
    (hP : ∀ s : Sent, B s.request.body → P s) (h : Budgeted cap n P w) : Budgeted cap n P w' := by
  cases hstep with
  | read => exact h.congr rfl rfl
  | send r hbody => exact h.send fun executed answer => hP _ hbody
  | pause delay => exact h.congr rfl rfl
  | notify sink ev hsink hev =>
    obtain ⟨c, hc⟩ := sink_spec hsink ev w.bot
    exact h.congr rfl (by rw [hc])

theorem callStep_budgeted {B : OrderBody → Prop} (hstep : CallStep (mt5 cfg) B w w') (hentries : OnEntries P)
    (hP : ∀ s : Sent, B s.request.body → P s) (h : Budgeted cap n P w) : Budgeted cap n P w' := by
  cases hstep with
  | quiet hstep => exact mtStep_budgeted hstep hP h
  | closing p volume reason =>
    exact ((mt5 cfg).closePosition_steps p volume reason w).invariant
      (fun _ _ hs hI => mtStep_budgeted hs (fun s hbody => hentries s (opened_close hbody)) hI) h

theorem liveStep_budgeted {B : OrderBody → Prop} (hstep : LiveStep cfg B w w') (hentries : OnEntries P)
    (hP : ∀ s : Sent, B s.request.body → P s) (h : Budgeted cap n P w) : Budgeted cap n P w' := by
  cases hstep with
  | call hcall => exact callStep_budgeted hcall hentries hP h
  | bot f hsame =>
    obtain ⟨br, hbr, hcap⟩ := h.breaker
    rcases hsame.2.2.2 with hkept | ⟨br', day, balance, hbr', hfed⟩
    · exact h.congr rfl hkept
    · obtain rfl : br = br' := Option.some.inj (hbr.symm.trans hbr')
      exact ⟨⟨_, hfed, by rw [DailyLossBreaker.update_cap]; exact hcap⟩, h.grows, h.orders⟩

/-- **Closes and amendments open nothing**, in every part of a bar made of them. -/
theorem live_budgeted {B : OrderBody → Prop} {α : Type} {x : Mt5 (Bot ε) α} (hsteps : StepsFrom (LiveStep cfg B) x w)
    (hbody : ∀ body, B body → body.Amends) (hentries : OnEntries P) (h : Budgeted cap n P w) :
    Ensures x w fun _ v => Budgeted cap n P v :=
  hsteps.invariant (fun _ _ hstep hI => liveStep_budgeted hstep hentries
    (fun s hB => hentries s (opened_amend (hbody _ hB))) hI) h

theorem closes_budgeted {α : Type} {x : Mt5 (Bot ε) α} (hsteps : Steps (CallStep (mt5 cfg) fun _ => False) x)
    (hentries : OnEntries P) (h : Budgeted cap n P w) : Ensures x w fun _ v => Budgeted cap n P v :=
  live_budgeted (call_steps hsteps w) (fun _ hfalse => hfalse.elim) hentries h

/-! ### An ENTRY -/

/-- The world in which `on_signal` starts on the signal of the bar. -/
def atSignal (bar : Bar) (engine : ε) (w : World (Bot ε)) : World (Bot ε) :=
  { handed bar engine w with env := bar.atSignal, calls := 0 }

/-- What the sizing of this ENTRY reads, from the world in which `on_signal` starts. -/
def sizingOf (sig : Signal) (w : World (Bot ε)) : Option Sizing :=
  match sig.stop, w.reply.info, w.bot.breaker with
  | some stop, some info, some breaker =>
    some { price := sig.price, stop, specs := info.specs, balance := w.afterRead.settled.balance, breaker }
  | _, _, _ => none

theorem symbolSpecs_reads (b : Mt5Broker (Bot ε)) (w : World (Bot ε)) : Ensures b.symbolSpecs w
    (Post (fun specs v => v = w.afterRead ∧ ∃ info, w.reply.info = some info ∧ specs = info.specs) fun _ _ => True) := by
  unfold Mt5Broker.symbolSpecs symbolInfo
  rw [ensures_bind, ensures_readCall, post_ok]
  cases w.reply.info with
  | none => exact trivial
  | some info => exact ⟨rfl, info, rfl, rfl⟩

theorem balance_reads (w : World (Bot ε)) : Ensures Mt5Broker.balance w
    (Post (fun balance v => v = w.afterRead ∧ balance = w.settled.balance) fun _ _ => True) := by
  unfold Mt5Broker.balance accountBalance
  rw [ensures_bind, ensures_readCall, post_ok]
  cases w.reply.readOk with
  | false => exact trivial
  | true => exact ⟨rfl, rfl⟩

/-- **A sized ENTRY affords its lot.** -/
theorem sized_affords (sig : Signal) (hpct : sizingRisk cfg = some pct)
    (hbreaker : ∃ br, w.bot.breaker = some br ∧ br.cap.flat = some cap) :
    Ensures (sized cfg sig) w (Post (fun r _ => ∀ sig' ∈ r, ∃ z ∈ sizingOf sig w, ∃ lot,
      sig'.qty = some lot ∧ lot ≠ 0 ∧ z.Affords cap pct lot) fun _ _ => True) := by
  obtain ⟨br, hbr, hcap⟩ := hbreaker
  unfold sized
  rw [hpct]
  dsimp only
  cases hstop : sig.stop with
  | none => exact fun _ hnone => by cases hnone
  | some stop =>
    refine (symbolSpecs_reads _ w).bind fun specs v ⟨hv, info, hinfo, hspecs⟩ => ?_
    subst hv hspecs
    refine (balance_reads w.afterRead).bind fun balance v ⟨hv, hbalance⟩ => ?_
    subst hv hbalance
    have hbudget : remainingBudget w.afterRead.afterRead.bot = .ok (some (max 0 (cap + br.dayPnl))) := by
      unfold remainingBudget
      rw [show w.afterRead.afterRead.bot.breaker = some br from hbr]
      simp only [hcap]
    rw [ensures_bind, ensures_get, post_ok, hbudget]
    dsimp only
    have hz : sizingOf sig w = some ⟨sig.price, stop, info.specs, w.afterRead.settled.balance, br⟩ := by
      unfold sizingOf
      rw [hstop, hinfo, hbr]
    split
    · exact fun _ hnone => by cases hnone
    · next hpos =>
      intro sig' hsig'
      cases hsig'
      exact ⟨_, hz, _, rfl, (not_le.mp hpos).ne', Sizing.affords_chosen (not_le.mp hpos)⟩

/-- The opened volume is one that the sizing affords. -/
def Afforded (cap pct : ℚ) (sizing : Option Sizing) (s : Sent) : Prop :=
  ∀ volume ∈ s.request.body.opened, ∃ z ∈ sizing, z.Affords cap pct volume

theorem afforded_onEntries (sizing : Option Sizing) : OnEntries (Afforded cap pct sizing) := by
  intro s hnone volume hvolume
  rw [hnone] at hvolume
  cases hvolume

theorem submit_budgeted {sig : Signal} {sizing : Option Sizing} {z : Sizing} {lot : ℚ} (hz : z ∈ sizing)
    (hqty : sig.qty = some lot) (hlot : lot ≠ 0) (hafford : z.Affords cap pct lot)
    (h : Budgeted cap n (Afforded cap pct sizing) w) :
    Ensures (submit cfg sig) w fun _ v => Budgeted cap n (Afforded cap pct sizing) v := by
  have hentries : OnEntries (Afforded cap pct sizing) := afforded_onEntries sizing
  have hwanted : (mt5 cfg (ε := ε)).wantedQty sig = lot := by
    unfold Mt5Broker.wantedQty
    rw [hqty]
    exact if_neg hlot
  have hopens : ∀ s : Sent, (mt5 cfg (ε := ε)).OpenBody sig s.request.body → Afforded cap pct sizing s := by
    intro s hbody volume hvolume
    exact ⟨z, hz, hafford.mono (hwanted ▸ hbody.2 volume hvolume)⟩
  have hexecute : Ensures ((mt5 cfg).execute sig) w fun _ v => Budgeted cap n (Afforded cap pct sizing) v := by
    cases hkind : sig.kind with
    | exit => exact closes_budgeted (exit_steps cfg hkind) hentries h
    | reject =>
      unfold Mt5Broker.execute
      rw [hkind]
      exact h
    | entry =>
      unfold Mt5Broker.execute
      rw [hkind]
      simp only
      split
      · exact ((mt5 cfg).open_steps sig w).invariant (fun _ _ hstep hI => mtStep_budgeted hstep hopens hI) h
      · exact h
  have hguarded : Ensures (guarded ((mt5 cfg).execute sig)) w fun _ v => Budgeted cap n (Afforded cap pct sizing) v := by
    unfold Ensures
    rw [guarded_world]
    exact hexecute
  refine Ensures.bind_keep hguarded (fun _ hv => hv) fun res v hv => ?_
  rcases res with _ | _ | res
  · exact hv
  · exact hv
  · exact closes_budgeted (verifyFill_steps cfg sig res) hentries hv

theorem onEntry_budgeted {sig : Signal} (hpct : sizingRisk cfg = some pct)
    (h : Budgeted cap n (Afforded cap pct (sizingOf sig w)) w) :
    Ensures (onEntry cfg bar sig) w fun _ v => Budgeted cap n (Afforded cap pct (sizingOf sig w)) v := by
  have hreads : ∀ {α : Type} {x : Mt5 (Bot ε) α} {v : World (Bot ε)}, Budgeted cap n (Afforded cap pct (sizingOf sig w)) v →
      StepsFrom (MtStep (mt5 cfg) (fun _ => False) BrokerEvent.Quiet) x v →
      Ensures x v fun _ u => Budgeted cap n (Afforded cap pct (sizingOf sig w)) u := fun hv hsteps =>
    hsteps.invariant (fun _ _ hstep hI => mtStep_budgeted hstep (fun _ hfalse => hfalse.elim) hI) hv
  -- the macro guard's quantity does not matter: the sizing sets it
  have hscaled : sizingOf (macroScale cfg bar sig) w = sizingOf sig w := by
    obtain ⟨qty, hqty⟩ := macroScale_levels cfg bar sig
    rw [hqty]
    rfl
  refine onEntry_rule (fun _ => h) (fun _ => ?_) (fun v hv => hreads hv (spreadAllows_reads v)) (fun _ hv => hv) ?_
    (F := fun sized => ∃ z ∈ sizingOf sig w, ∃ lot, sized.qty = some lot ∧ lot ≠ 0 ∧ z.Affords cap pct lot)
  · refine ((sized_affords (macroScale cfg bar sig) hpct h.breaker).and (hreads h (sized_reads _ w))).mono ?_
    rintro r v ⟨hafford, hv⟩
    refine ⟨hv, fun sized hr => ?_⟩
    subst hr
    rw [hscaled] at hafford
    exact hafford sized rfl
  · rintro sized v ⟨z, hz, lot, hqty, hlot, hafford⟩ hv
    exact submit_budgeted hz hqty hlot hafford hv

/-! ### A bar -/

/-- The sizing of the bar's ENTRY, from the state before the bar. -/
def barSizing (ops : EngineOps ε) (bar : Bar) (w : World (Bot ε)) : Option Sizing :=
  match ops.onCandle w.bot.engine bar.candle with
  | .ok (some sig, engine) => if sig.kind = .entry then sizingOf sig (atSignal bar engine w) else none
  | _ => none

theorem onSignal_budgeted {sig : Signal} {engine : ε} (hpct : sizingRisk cfg = some pct)
    (hout : ops.onCandle w.bot.engine bar.candle = .ok (some sig, engine))
    (h : Budgeted cap n (Afforded cap pct (barSizing ops bar w)) (atSignal bar engine w)) :
    Ensures (onSignal cfg bar sig) (atSignal bar engine w)
      fun _ v => Budgeted cap n (Afforded cap pct (barSizing ops bar w)) v := by
  have hentries : OnEntries (Afforded cap pct (barSizing ops bar w)) := afforded_onEntries _
  refine onSignal_cases sig (fun _ _ => h) (fun hkind _ => ?_) fun hkind => ?_
  · have hsizing : barSizing ops bar w = sizingOf sig (atSignal bar engine w) := by
      unfold barSizing
      rw [hout]
      exact if_pos hkind
    rw [hsizing] at h ⊢
    exact onEntry_budgeted hpct h
  · cases hexit : sig.kind with
    | entry => exact absurd hexit hkind
    | exit => exact closes_budgeted (fun v => submit_steps (exit_steps cfg hexit v)) hentries h
    | reject =>
      unfold Ensures
      rw [submit_reject hexit]
      exact h

theorem feed_budgeted (hpct : sizingRisk cfg = some pct) (h : Budgeted cap n (Afforded cap pct (barSizing ops bar w)) w) :
    Ensures (feed ops cfg bar) w fun _ v => Budgeted cap n (Afforded cap pct (barSizing ops bar w)) v := by
  refine feed_rule h (fun sig engine _ => h.congr rfl rfl) fun sig engine hout hhanded => ?_
  exact onSignal_budgeted hpct hout (hhanded.congr rfl rfl)

theorem watch_budgeted (hentries : OnEntries P) (h : Budgeted cap n P w) :
    Ensures (watch cfg bar) w fun _ v => Budgeted cap n P v := by
  unfold watch
  rw [ensures_bind, ensures_modifyBot, post_ok, ensures_bind, ensures_get, post_ok]
  split
  · have hspike : Steps (LiveStep cfg fun _ => False) (updateSpike (ε := ε) bar) := updateSpike_steps bar
    exact Ensures.bind_keep (live_budgeted (hspike _) (fun _ hfalse => hfalse.elim) hentries (h.congr rfl rfl))
      (fun _ hv => hv) fun _ _ hv => hv
  · rw [ensures_bind, ensures_modifyBot, post_ok]
    refine Ensures.bind_keep ?_ (fun _ hv => hv) fun _ _ hv => hv
    rw [ensures_against]
    exact live_budgeted (guards_steps cfg bar _) (fun _ => Mt5Broker.amends_of_remove) hentries (h.congr rfl rfl)

theorem sync_budgeted (hentries : OnEntries P) (h : Budgeted cap n P w) :
    Ensures (sync ops cfg bar) w fun _ v => Budgeted cap n P v := by
  refine (sync_steps w).invariant ?_ h
  intro v v' hstep hv
  cases hstep with
  | live hlive => exact liveStep_budgeted hlive hentries (fun s hB => hentries s (opened_amend hB)) hv
  | flat ts => exact hv.congr rfl rfl

/-- **A bar opens with volumes that its sizing affords**, and nothing else. -/
theorem onCandle_budgeted (hpct : sizingRisk cfg = some pct)
    (hbreaker : ∃ br, w.bot.breaker = some br ∧ br.cap.flat = some cap) :
    Budgeted cap w.sent.length (Afforded cap pct (barSizing ops bar w)) (exec (onCandle ops cfg bar) w).2 := by
  have hentries : OnEntries (Afforded cap pct (barSizing ops bar w)) := afforded_onEntries _
  have hstart : Budgeted cap w.sent.length (Afforded cap pct (barSizing ops bar w)) w :=
    ⟨hbreaker, le_rfl, fun s hs => by simp at hs⟩
  have hrun : Ensures (onCandle ops cfg bar) w
      fun _ v => Budgeted cap w.sent.length (Afforded cap pct (barSizing ops bar w)) v := by
    unfold onCandle
    refine Ensures.bind_keep (feed_budgeted hpct hstart) (fun _ hv => hv) fun fed v hv => ?_
    split
    · unfold onBar
      refine Ensures.bind_keep (watch_budgeted hentries hv) (fun _ hu => hu) fun due u hu => ?_
      split
      · rw [ensures_against]
        exact sync_budgeted hentries (hu.congr rfl rfl)
      · exact hu
    · exact hv
  exact hrun

end Live

/-! ### Runs -/

namespace LiveState

variable {ε : Type} (ops : EngineOps ε) (cfg : LiveConfig) (cap pct : ℚ)

/-- The loop, and beside it the balance at the broker when the current UTC day began. -/
def dayStep (x : LiveState ε × ℚ) (input : LiveInput) : LiveState ε × ℚ :=
  (step ops cfg x.1 input,
    if (step ops cfg x.1 input).world.server.day = x.1.world.server.day then x.2 else x.1.world.server.balance)

/-- The loop before its first bar. -/
def dayStart (engine : ε) (server : Server) : LiveState ε × ℚ := (start cfg engine server, server.balance)

/-- The executed orders of a step that open a position. -/
def opening (x : LiveState ε × ℚ) (input : LiveInput) : List Sent :=
  ((step ops cfg x.1 input).world.sent.drop x.1.world.sent.length).filter fun s =>
    s.executed ∧ s.request.body.opened.isSome

/-- The sizing of the step's ENTRY. -/
def sizing (x : LiveState ε × ℚ) : LiveInput → Option Sizing
  | .bar bar => Live.barSizing ops bar x.1.world
  | _ => none

/-- What is left of the cap at the broker when an order arrives: the cap, less what the day has lost so far. -/
def remaining (x : LiveState ε × ℚ) (input : LiveInput) (s : Sent) : ℚ :=
  cap - ((dayStep ops cfg x input).2 - s.before.balance)

/-- Every order of the step risks at most what is left of the cap, up to the rounding of the volume step. -/
def WithinBudget (x : LiveState ε × ℚ) (input : LiveInput) : Prop :=
  ∀ s ∈ opening ops cfg x input, ∀ volume ∈ s.request.body.opened,
    ∃ z ∈ sizing ops x input, volume * z.unit ≤ remaining ops cfg cap x input s + z.slack

/-- At every order of the step the breaker's figure for the day is no better than the broker's, or the percentage of
the balance fits in what is left. -/
def Covered (x : LiveState ε × ℚ) (input : LiveInput) : Prop :=
  ∀ s ∈ opening ops cfg x input, ∀ z ∈ sizing ops x input,
    z.breaker.dayPnl ≤ s.before.balance - (dayStep ops cfg x input).2 ∨
      z.balance * (pct / 100) ≤ remaining ops cfg cap x input s

variable {ops cfg cap pct}

/-- The breaker is on. -/
def BreakerOn (cap : ℚ) (x : LiveState ε × ℚ) : Prop :=
  ∃ br, x.1.world.bot.breaker = some br ∧ br.cap.flat = some cap

theorem step_budgeted (ops : EngineOps ε) (hpct : Live.sizingRisk cfg = some pct) {x : LiveState ε × ℚ} (h : BreakerOn cap x)
    (input : LiveInput) : Live.Budgeted cap x.1.world.sent.length (Live.Afforded cap pct (sizing ops x input))
      (step ops cfg x.1 input).world := by
  have hsame : Live.Budgeted cap x.1.world.sent.length (Live.Afforded cap pct (sizing ops x input)) x.1.world :=
    ⟨h, le_rfl, fun s hs => by simp at hs⟩
  unfold step
  split
  · exact hsame
  · cases input with
    | bar bar =>
      dsimp only
      rw [onBar_world]
      exact Live.onCandle_budgeted hpct h
    | refresh balance positions => exact hsame.congr rfl rfl
    | idle events => exact hsame.congr rfl rfl

/-- **Entry risk respects the remaining budget.** The breaker and the sizing are on. If at every order of the run the
breaker's figure for the day covers what the broker has realised, or the percentage fits, then at every executed order
of a sized ENTRY the loss of its lots at the stop is at most the cap less the loss realised on that UTC day, up to the
rounding of the volume step. -/
theorem entries_within_budget (hcap : cfg.maxDailyLoss.map (·.1) = some cap) (hpct : Live.sizingRisk cfg = some pct)
    (engine : ε) (server : Server) (inputs : List LiveInput)
    (hcovered : StepsMeet (dayStep ops cfg) (Covered ops cfg cap pct) (dayStart cfg engine server) inputs) :
    StepsMeet (dayStep ops cfg) (WithinBudget ops cfg cap) (dayStart cfg engine server) inputs := by
  have hstart : BreakerOn cap (dayStart cfg engine server) := by
    obtain ⟨max, hmax, rfl⟩ := Option.map_eq_some_iff.mp hcap
    refine ⟨{ cap := {
      flat := some max.1, given := Or.inl rfl, flat_pos := by simpa using max.2, pct_pos := by simp } }, ?_, rfl⟩
    show (Live.start cfg engine).breaker = _
    unfold Live.start
    rw [hmax]
    rfl
  have hkeeps : ∀ x input, BreakerOn cap x → BreakerOn cap (dayStep ops cfg x input) :=
    fun x input hx => (step_budgeted ops hpct hx input).breaker
  refine hcovered.of_invariant (fun x input hx _ => hkeeps x input hx) ?_ hstart
  intro x input hx hcover s hs volume hvolume
  obtain ⟨z, hz, hafford⟩ := (step_budgeted ops hpct hx input).orders s (List.mem_filter.mp hs).1 volume hvolume
  refine ⟨z, hz, ?_⟩
  rcases hcover s hs z hz with hfigure | hfits
  · have hbudget := hafford.budget
    unfold remaining
    linarith
  · exact hafford.balance.trans (by linarith)

/-! ### A loss of 90 of 100 -/

instance (x : LiveState ε × ℚ) (input : LiveInput) : Decidable (WithinBudget ops cfg cap x input) :=
  inferInstanceAs (Decidable (∀ s ∈ opening ops cfg x input, ∀ volume ∈ s.request.body.opened,
    ∃ z ∈ sizing ops x input, volume * z.unit ≤ remaining ops cfg cap x input s + z.slack))

instance (x : LiveState ε × ℚ) (input : LiveInput) : Decidable (Covered ops cfg cap pct x input) :=
  inferInstanceAs (Decidable (∀ s ∈ opening ops cfg x input, ∀ z ∈ sizing ops x input, _ ∨ _))

/-- Half the balance may be risked on an entry, and 100 may be lost on a day. -/
def budgetConfig : LiveConfig := { LiveConfig.default with riskPct := some 50, maxDailyLoss := some ⟨100, by norm_num⟩ }

/-- A position of an earlier run is open. -/
def heldServer : Server :=
  { balance := 1000, nextTicket := 2, positions := [⟨1, 20260610, .long, 1 / 10, 2900, 2000, 0⟩] }

/-- A range, what happens before the next bar, and an ENTRY. -/
def budgetDay (between : List LiveInput) : List LiveInput :=
  [answered (EngineRun.minuteBar 0 2000 2001 1999 2000) (quoting 2005 accepted)] ++ between ++
    [answered (EngineRun.minuteBar 1 2002 2006 2001 2005) (quoting 2005 accepted)]

/-- Nothing happens: the ENTRY risks 100, up to the volume step. -/
theorem entries_within_budget_quiet :
    StepsMeet (dayStep (orbOps EngineRun.gapConfig) budgetConfig) (WithinBudget (orbOps EngineRun.gapConfig) budgetConfig 100)
      (dayStart budgetConfig (OrbEngine.init EngineRun.gapConfig) heldServer) (budgetDay []) :=
  entries_within_budget rfl (show Live.sizingRisk budgetConfig = some 50 from rfl) (OrbEngine.init EngineRun.gapConfig)
    heldServer (budgetDay []) (by decide +kernel)

/-- The server closes the held position at a loss of 90: 10 are left of the cap, and the ENTRY risks 100. -/
theorem loss_after_feeding :
    ¬ StepsMeet (dayStep (orbOps EngineRun.gapConfig) budgetConfig)
      (WithinBudget (orbOps EngineRun.gapConfig) budgetConfig 100)
      (dayStart budgetConfig (OrbEngine.init EngineRun.gapConfig) heldServer) (budgetDay [.idle [.closed 1 (-90)]]) := by
  decide +kernel

end LiveState

end FreqTrading
