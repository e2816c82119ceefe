import FreqTrading.Engine.Runs
import FreqTrading.Broker.Outcomes
import FreqTrading.Live.Steps

/-!
# Engine and broker agree

The ORB loop in market mode. `Agrees R P` is the invariant of its runs: every own position at the broker is
one the engine holds, and stands in the relation `R` to it; every request sent so far is in `P`; and while
the warm-up gate is on, nothing is held. A bar keeps it (`onCandle_agrees`) if a full EXIT of the engine
closes what is held and the reconciliation does not miss a position, and if entries open and pushed stops
keep positions in `R` and requests in `P`. That last part is what two instances of `R` and `P` prove.
-/

namespace FreqTrading

open Lib

/-! ### Positions and requests -/

section Kept

variable {β : Type}

/-- Own positions in `H`, and requests in `P`. -/
structure Kept (m : Int) (H : Position → Prop) (P : Sent → Prop) (w : World β) : Prop where
  holds : w.server.Holds m H
  logged : ∀ s ∈ w.sent, P s

variable {m : Int} {H H' : Position → Prop} {P : Sent → Prop} {w w' : World β}

theorem Kept.mono (h : Kept m H P w) (hH : ∀ p, H p → H' p) : Kept m H' P w :=
  ⟨h.holds.mono fun p _ _ => hH p, h.logged⟩

theorem Kept.congr {α : Type} {v : World α} (h : Kept m H P w) (hserver : v.server = w.server)
    (hsent : v.sent = w.sent) : Kept m H P v :=
  ⟨by rw [hserver]; exact h.holds, by rw [hsent]; exact h.logged⟩

theorem logged_afterSend (h : ∀ s ∈ w.sent, P s) {r : OrderRequest}
    (hP : P ⟨w.settled, r, (w.outcome r).2.1, (w.outcome r).2.2⟩) : ∀ s ∈ (w.afterSend r).sent, P s := by
  intro s hs
  rw [afterSend_sent] at hs
  rcases List.mem_append.mp hs with hs | hs
  · exact h s hs
  · simp only [List.mem_singleton] at hs
    exact hs ▸ hP

theorem Kept.send (h : Kept m H P w) {r : OrderRequest} (hbody : Server.KeptBy m H r.body)
    (hP : ∀ s : Sent, s.request = r → s.before.Holds m H → P s) : Kept m H P (w.afterSend r) :=
  ⟨h.holds.outcome hbody, logged_afterSend h.logged (hP _ rfl h.holds.settled)⟩

theorem MtStep.kept {b : Mt5Broker β} {B : OrderBody → Prop} {E : BrokerEvent → Prop} (hstep : MtStep b B E w w')
    (hB : ∀ body, B body → Server.KeptBy m H body)
    (hP : ∀ s : Sent, B s.request.body → s.before.Holds m H → P s) (h : Kept m H P w) : Kept m H P w' := by
  cases hstep with
  | read => exact ⟨h.holds.settled, h.logged⟩
  | send r hbody => exact h.send (hB _ hbody) fun s hs => hP s (by rw [hs]; exact hbody)
  | pause | notify => exact ⟨h.holds, h.logged⟩

/-- A request that closes a position or cancels an order. -/
def OrderBody.Reduces : OrderBody → Prop
  | .close .. => True
  | .remove .. => True
  | _ => False

theorem reduces_of_close {body : OrderBody} {p : Position} {volume : ℚ} (h : Mt5Broker.CloseBody p volume body) :
    body.Reduces := by
  cases body with
  | close => trivial
  | entry | pending | sltp | remove => exact h.elim

theorem reduces_of_remove {body : OrderBody} (h : Mt5Broker.RemoveBody body) : body.Reduces := by
  cases body with
  | remove => trivial
  | entry | pending | sltp | close => exact h.elim

theorem CallStep.kept {b : Mt5Broker β} {B : OrderBody → Prop} (hstep : CallStep b B w w')
    (hH : Server.ShrinkClosed H) (hB : ∀ body, B body → Server.KeptBy m H body)
    (hP : ∀ s : Sent, (B s.request.body ∧ s.before.Holds m H) ∨ s.request.body.Reduces → P s)
    (h : Kept m H P w) : Kept m H P w' := by
  cases hstep with
  | quiet hstep => exact hstep.kept hB (fun s hs hbefore => hP s (Or.inl ⟨hs, hbefore⟩)) h
  | closing p volume reason =>
    exact (b.closePosition_steps p volume reason w).invariant (fun _ _ hs hI =>
      hs.kept (fun _ => Server.keptBy_close hH) (fun s hs _ => hP s (Or.inr (reduces_of_close hs))) hI) h

end Kept

theorem LiveStep.kept {ε : Type} {cfg : LiveConfig} {m : Int} {H : Position → Prop} {P : Sent → Prop}
    {w w' : World (Bot ε)} (hstep : LiveStep cfg Mt5Broker.RemoveBody w w') (hH : Server.ShrinkClosed H)
    (hP : ∀ s : Sent, s.request.body.Reduces → P s) (h : Kept m H P w) : Kept m H P w' := by
  cases hstep with
  | call hcall =>
    refine hcall.kept hH (fun _ => Server.keptBy_remove) (fun s hs => hP s ?_) h
    rcases hs with hs | hs
    · exact reduces_of_remove hs.1
    · exact hs
  | bot f hsame => exact ⟨h.holds, h.logged⟩

/-! ### The invariant -/

/-- The ORB strategy with market orders. -/
structure LiveConfig.OrbMarket (live : LiveConfig) : Prop where
  orb : live.structural = none
  trigger : live.smcTrigger = none
  market : live.broker.entryMode = .market

/-- The engine holds a position that is in `R` to the broker's. -/
def Tracked (R : PositionState → Position → Prop) (pos : Option PositionState) (p : Position) : Prop :=
  ∃ q, pos = some q ∧ R q p

/-- `R` survives a smaller volume and a tighter stop of the engine; `P` says nothing on closes and
cancellations. -/
structure Carried (R : PositionState → Position → Prop) (P : Sent → Prop) : Prop where
  shrink : ∀ pos, Server.ShrinkClosed (R pos)
  held : ∀ (pos pos' : PositionState) (p : Position), pos'.direction = pos.direction →
    pos.direction.AsTight pos.stop pos'.stop → R pos p → R pos' p
  reduces : ∀ s : Sent, s.request.body.Reduces → P s

section Carried

variable {live : LiveConfig} {R : PositionState → Position → Prop} {P : Sent → Prop} {w : World (Bot OrbEngine)}

theorem tracked_none {p : Position} : ¬ Tracked R none p := fun ⟨_, h, _⟩ => by cases h

theorem Carried.shrinkTracked (hR : Carried R P) (pos : Option PositionState) :
    Server.ShrinkClosed (Tracked R pos) := by
  rintro q₀ q hticket hdir hsl hvol ⟨pos', hpos, hrel⟩
  exact ⟨pos', hpos, hR.shrink pos' q₀ q hticket hdir hsl hvol hrel⟩

theorem shrink_false : Server.ShrinkClosed fun _ => False := fun _ _ _ _ _ _ h => h

theorem Carried.trackedHeld (hR : Carried R P) {pos pos' : PositionState} (hdir : pos'.direction = pos.direction)
    (hstop : pos.direction.AsTight pos.stop pos'.stop) {p : Position} (h : Tracked R (some pos) p) :
    Tracked R (some pos') p := by
  obtain ⟨q, hq, hrel⟩ := h
  cases hq
  exact ⟨pos', rfl, hR.held pos pos' p hdir hstop hrel⟩

theorem Carried.quietStep (hR : Carried R P) {pos pos' : Option PositionState} (hpos : PositionStep pos none pos')
    {p : Position} (h : Tracked R pos p) : Tracked R pos' p := by
  cases hpos with
  | flat => exact h
  | held q q' hdir htp hstop => exact hR.trackedHeld hdir hstop h

theorem Carried.closes (hR : Carried R P) {m : Int} {H : Position → Prop} (hH : Server.ShrinkClosed H)
    {α : Type} {x : Mt5 (Bot OrbEngine) α} (h : StepsFrom (CallStep (Live.mt5 live) fun _ => False) x w)
    (hkept : Kept m H P w) : Kept m H P (exec x w).2 :=
  h.invariant (fun _ _ hstep hI => hstep.kept hH (fun _ hb => hb.elim)
    (fun s hs => hR.reduces s (hs.resolve_left fun hfalse => hfalse.1)) hI) hkept

end Carried

namespace Live

/-- Entries open positions in `R`, if `C` holds of the replies; pushing the engine's stop keeps `R`. -/
structure Discipline (live : LiveConfig) (R : PositionState → Position → Prop) (P : Sent → Prop)
    (C : PositionState → (Nat → Reply) → Prop) : Prop extends Carried R P where
  opens : ∀ (sig : Signal) (pos : PositionState) (w : World (Bot OrbEngine)), sig.kind = .entry →
    sig.direction = pos.direction → sig.price = pos.entryPrice → sig.stop = some pos.stop → C pos w.env →
    Kept live.broker.magic (fun _ => False) P w →
    Kept live.broker.magic (Tracked R (some pos)) P (exec ((mt5 live).execute sig) w).2
  pushes : ∀ (pos : PositionState) (w : World (Bot OrbEngine)),
    Kept live.broker.magic (Tracked R (some pos)) P w →
    Kept live.broker.magic (Tracked R (some pos)) P (exec ((mt5 live).updateStop pos.stop) w).2

/-- The invariant of the loop. Nothing is held while the warm-up gate is on, as far as `gate` says. -/
structure Agrees (cfg : OrbConfig) (live : LiveConfig) (R : PositionState → Position → Prop) (P : Sent → Prop)
    (gate : Prop) (w : World (Bot OrbEngine)) : Prop where
  sound : w.bot.engine.Sound cfg
  kept : Kept live.broker.magic (Tracked R w.bot.engine.pos) P w
  cold : w.bot.warming = true → gate → w.server.Holds live.broker.magic fun _ => False

/-- The world in which `on_signal` starts. -/
def fed (bar : Bar) (engine : OrbEngine) (w : World (Bot OrbEngine)) : World (Bot OrbEngine) :=
  { w with
    bot := { w.bot with engine := engine }
    server := { w.server with day := date bar.candle.ts }
    env := bar.atSignal
    calls := 0 }

/-- The world in which the reconciliation starts. -/
def synced (bar : Bar) (w : World (Bot OrbEngine)) : World (Bot OrbEngine) :=
  { w with env := bar.atSync, calls := 0 }

/-- A `BrokerError`. -/
def brokerRaised {α : Type} : Except Failure α → Bool
  | .error (.broker _) => true
  | _ => false

/-- A full EXIT closes what is held: nothing is, or the positions are read and no close is rejected for good
(the branch that reports `ORDER_FAIL` is not taken). -/
def ExitCloses (live : LiveConfig) (sig : Signal) (w : World (Bot OrbEngine)) : Prop :=
  w.settled.own live.broker.magic = [] ∨
    w.reply.readOk = true ∧ brokerRaised (exec ((mt5 live).execute sig) w).1 = false

instance (live : LiveConfig) (sig : Signal) (w : World (Bot OrbEngine)) : Decidable (ExitCloses live sig w) :=
  inferInstanceAs (Decidable (_ ∨ _))

/-- What is asked of a signal and the engine after it, if there is one. -/
def Emits (Q : Signal → OrbEngine → Prop) : Except EngineError (Option Signal × OrbEngine) → Prop
  | .ok (some sig, e) => Q sig e
  | _ => True

theorem Emits.mono {Q Q' : Signal → OrbEngine → Prop} {r : Except EngineError (Option Signal × OrbEngine)}
    (h : Emits Q r) (hQ : ∀ sig e, Q sig e → Q' sig e) : Emits Q' r := by
  rcases r with err | ⟨_ | sig, e⟩
  · trivial
  · trivial
  · exact hQ sig e h

theorem emits_of_forall {Q : Signal → OrbEngine → Prop} (h : ∀ sig e, Q sig e)
    (r : Except EngineError (Option Signal × OrbEngine)) : Emits Q r := by
  rcases r with err | ⟨_ | sig, e⟩
  · trivial
  · trivial
  · exact h sig e

instance (Q : Signal → OrbEngine → Prop) [∀ sig e, Decidable (Q sig e)] :
    (r : Except EngineError (Option Signal × OrbEngine)) → Decidable (Emits Q r)
  | .ok (some sig, e) => inferInstanceAs (Decidable (Q sig e))
  | .ok (none, _) => inferInstanceAs (Decidable True)
  | .error _ => inferInstanceAs (Decidable True)

/-- What is asked of the world in which a part of the bar starts, if it comes to that. -/
def GoesOn (Q : World (Bot OrbEngine) → Prop) : Except Failure Bool × World (Bot OrbEngine) → Prop
  | (.ok true, v) => Q v
  | _ => True

instance (Q : World (Bot OrbEngine) → Prop) [∀ v, Decidable (Q v)] :
    (r : Except Failure Bool × World (Bot OrbEngine)) → Decidable (GoesOn Q r)
  | (.ok true, v) => inferInstanceAs (Decidable (Q v))
  | (.ok false, _) => inferInstanceAs (Decidable True)
  | (.error _, _) => inferInstanceAs (Decidable True)

/-- The engine does not go flat over a position that is held: a full EXIT closes what is held, and the
reconciliation does not miss an own position by a failed read. -/
def Follows (cfg : OrbConfig) (live : LiveConfig) (bar : Bar) (w : World (Bot OrbEngine)) : Prop :=
  Emits (fun sig e => sig.kind = .exit → sig.reason ≠ "take_profit_partial" → ExitCloses live sig (fed bar e w))
      (w.bot.engine.onCandle cfg bar.candle) ∧
    GoesOn (fun v => (synced bar v).settled.own live.broker.magic ≠ [] → (synced bar v).reply.readOk = true)
      (exec (beforeSync (orbOps cfg) live bar) w)

instance (cfg : OrbConfig) (live : LiveConfig) (bar : Bar) (w : World (Bot OrbEngine)) :
    Decidable (Follows cfg live bar w) :=
  inferInstanceAs (Decidable (_ ∧ _))

/-- What a bar has to meet: the engine follows the broker, success answers to an EXIT are true, and the replies
to an ENTRY are in `C`. -/
structure BarMeets (cfg : OrbConfig) (live : LiveConfig) (C : PositionState → (Nat → Reply) → Prop) (bar : Bar)
    (w : World (Bot OrbEngine)) : Prop where
  follows : Follows cfg live bar w
  exit : Emits (fun sig _ => sig.kind = .exit → ∀ k, (bar.atSignal k).send.Truthful)
    (w.bot.engine.onCandle cfg bar.candle)
  entry : Emits (fun sig e => sig.kind = .entry → ∀ pos ∈ e.pos, C pos bar.atSignal)
    (w.bot.engine.onCandle cfg bar.candle)

section Agreement

variable {cfg : OrbConfig} {live : LiveConfig} {R : PositionState → Position → Prop} {P : Sent → Prop}
  {C : PositionState → (Nat → Reply) → Prop} {bar : Bar} {gate : Prop} {w w' : World (Bot OrbEngine)}

/-! ### `on_signal` -/

theorem execute_entry (hlive : live.OrbMarket) {sig : Signal} (hkind : sig.kind = .entry) :
    (mt5 live).execute (β := Bot OrbEngine) sig =
      (mt5 live).openMarket sig >>= fun res => Pure.pure (some res) := by
  have hconn : (mt5 live (ε := OrbEngine)).connected = true := live.connected
  have hmode : (mt5 live (ε := OrbEngine)).entryMode = .market := hlive.market
  unfold Mt5Broker.execute Mt5Broker.open'
  simp only [hkind, hconn, if_true, hmode]

theorem execute_exit (hlive : live.OrbMarket) {sig : Signal} (hkind : sig.kind = .exit) :
    (mt5 live).execute (β := Bot OrbEngine) sig =
      (mt5 live).myPositions >>= fun mine => (mt5 live).closeMine sig mine none := by
  have hconn : (mt5 live (ε := OrbEngine)).connected = true := live.connected
  have hmode : (mt5 live (ε := OrbEngine)).entryMode = .market := hlive.market
  unfold Mt5Broker.execute Mt5Broker.close
  simp only [hkind, hconn, if_true, hmode]

theorem execute_exit_gone (hR : Carried R P) (hlive : live.OrbMarket) {sig : Signal} (hkind : sig.kind = .exit)
    (hreason : sig.reason ≠ "take_profit_partial") {pos : PositionState}
    (hkept : Kept live.broker.magic (Tracked R (some pos)) P w) (htrue : ∀ k, (w.env k).send.Truthful)
    (hexit : ExitCloses live sig w) :
    Ensures ((mt5 live).execute sig) w fun r v =>
      r = .error .other ∨ v.server.Holds live.broker.magic fun _ => False := by
  have hexec := execute_exit hlive hkind
  rcases hexit with hnone | ⟨hread, hnotBroker⟩
  · have hstart : Kept live.broker.magic (fun _ => False) P w.afterRead :=
      ⟨Server.holds_false.mpr ⟨hkept.holds.settled.wf, hkept.holds.settled.noOrders, hnone⟩, hkept.logged⟩
    have hrun : Ensures ((mt5 live).execute sig) w
        fun _ v => Kept live.broker.magic (fun _ => False) P v := by
      rw [hexec, ensures_bind, Mt5Broker.ensures_myPositions, post_ok]
      exact hR.closes shrink_false ((mt5 live).closeMine_steps sig _ none _) hstart
    exact hrun.mono fun _ _ hv => Or.inr hv.holds
  · have hseen : (mt5 live).seen w = w.settled.own live.broker.magic := if_pos hread
    have hrun : Ensures ((mt5 live).execute sig) w
        (Post (fun _ v => v.server.Holds live.broker.magic fun _ => False) fun _ _ => True) := by
      rw [hexec, ensures_bind, Mt5Broker.ensures_myPositions, post_ok, hseen]
      refine (mt5 live).closeMine_closes hreason _ none ?_ htrue ?_
      · exact hkept.holds.settled.wf.nodup.sublist (List.filter_sublist.map _)
      · refine hkept.holds.settled.mono fun q hq hm _ => ⟨q, ?_, rfl, le_rfl⟩
        exact Server.mem_own.mpr ⟨hq, hm⟩
    unfold Ensures at hrun ⊢
    cases hres : (exec ((mt5 live).execute sig) w).1 with
    | ok a =>
      rw [hres] at hrun
      exact Or.inr hrun
    | error err =>
      cases err with
      | broker text =>
        rw [hres] at hnotBroker
        cases hnotBroker
      | other => exact Or.inl rfl

theorem submit_exit (hR : Carried R P) (hlive : live.OrbMarket) {sig : Signal} (hkind : sig.kind = .exit)
    (hreason : sig.reason ≠ "take_profit_partial") {pos : PositionState}
    (hkept : Kept live.broker.magic (Tracked R (some pos)) P w) (htrue : ∀ k, (w.env k).send.Truthful)
    (hexit : ExitCloses live sig w) :
    Ensures (submit live sig) w
      (Post (fun _ v => Kept live.broker.magic (fun _ => False) P v) fun _ v => ∀ s ∈ v.sent, P s) := by
  have hsteps : Ensures ((mt5 live).execute sig) w
      fun _ v => Kept live.broker.magic (Tracked R (some pos)) P v :=
    hR.closes (hR.shrinkTracked (some pos)) (exit_steps live hkind w) hkept
  have hgone := execute_exit_gone hR hlive hkind hreason hkept htrue hexit
  unfold submit
  rw [ensures_bind, ensures_guarded]
  refine (hsteps.and hgone).mono fun r v hv => ?_
  have hheld : r ≠ .error .other → Kept live.broker.magic (fun _ => False) P v := fun hne =>
    ⟨hv.2.resolve_left hne, hv.1.logged⟩
  rcases r with (text | _) | (_ | res)
  · exact hheld (by simp)
  · exact hv.1.logged
  · exact hheld (by simp)
  · have hfill : Ensures (verifyFill live sig res) v fun _ v' => Kept live.broker.magic (fun _ => False) P v' :=
      hR.closes shrink_false (verifyFill_steps live sig res v) (hheld (by simp))
    have hpost : Ensures (verifyFill live sig res) v
        (Post (fun _ v' => Kept live.broker.magic (fun _ => False) P v') fun _ v' => ∀ s ∈ v'.sent, P s) :=
      hfill.post (fun _ h => h) fun _ h => h.logged
    exact hpost

theorem submit_entry_kept (hD : Discipline live R P C) {sig : Signal} {pos : PositionState}
    (hkind : sig.kind = .entry) (hdir : sig.direction = pos.direction) (hprice : sig.price = pos.entryPrice)
    (hstop : sig.stop = some pos.stop) (hC : C pos w.env) (hkept : Kept live.broker.magic (fun _ => False) P w) :
    Ensures (submit live sig) w fun _ v => Kept live.broker.magic (Tracked R (some pos)) P v := by
  have hR := hD.toCarried
  have hopen := hD.opens sig pos w hkind hdir hprice hstop hC hkept
  unfold submit
  refine Ensures.bind_keep (I := fun v => Kept live.broker.magic (Tracked R (some pos)) P v) ?_
    (fun _ h => h) fun res v hv => ?_
  · rw [ensures_guarded]
    refine Ensures.mono (Q := fun _ v => Kept live.broker.magic (Tracked R (some pos)) P v) hopen fun r v hv => ?_
    rcases r with (text | _) | res <;> exact hv
  · rcases res with _ | _ | res
    · exact hv
    · exact hv
    · exact hR.closes (hR.shrinkTracked _) (verifyFill_steps live sig res v) hv

theorem onEntry_kept (hD : Discipline live R P C) {sig : Signal} {pos : PositionState} (hkind : sig.kind = .entry)
    (hdir : sig.direction = pos.direction) (hprice : sig.price = pos.entryPrice) (hstop : sig.stop = some pos.stop)
    (hC : C pos w.env) (hkept : Kept live.broker.magic (fun _ => False) P w) :
    Ensures (onEntry live bar sig) w fun _ v => Kept live.broker.magic (Tracked R (some pos)) P v := by
  have hR := hD.toCarried
  have hdone : ∀ v : World (Bot OrbEngine), Kept live.broker.magic (fun _ => False) P v ∧ C pos v.env →
      Kept live.broker.magic (Tracked R (some pos)) P v := fun v hv => hv.1.mono fun _ h => h.elim
  -- up to the order itself, calls only read
  have hreads : ∀ {α : Type} {x : Mt5 (Bot OrbEngine) α} {v : World (Bot OrbEngine)},
      Steps (CallStep (mt5 live) fun _ => False) x →
      Kept live.broker.magic (fun _ => False) P v ∧ C pos v.env →
      Ensures x v fun _ v' => Kept live.broker.magic (fun _ => False) P v' ∧ C pos v'.env := by
    intro α x v hsteps hv
    refine ⟨hR.closes shrink_false (hsteps v) hv.1, ?_⟩
    have henv := (hsteps v).invariant (I := fun v' => v'.env = v.env)
      (fun _ _ hstep heq => hstep.env.trans heq) rfl
    rw [henv]
    exact hv.2
  obtain ⟨q, hq⟩ := macroScale_levels live bar sig
  refine onEntry_rule (fun _ => hdone w ⟨hkept, hC⟩) (fun _ => ?_) (fun v hv => hreads spreadAllows_steps hv) hdone ?_
    (F := fun sig' => ∃ q, sig' = { sig with qty := q })
  · rw [hq]
    refine ((sized_levels _ w).and (hreads (sized_steps _) ⟨hkept, hC⟩)).mono fun r v hv => ⟨hv.2, fun sig' hr => ?_⟩
    subst hr
    exact hv.1 sig' rfl
  · rintro sig' v ⟨q', rfl⟩ hv
    exact submit_entry_kept hD hkind hdir hprice hstop hv.2 hv.1

theorem onSignal_bot (sig : Signal) (w : World (Bot OrbEngine)) :
    ∃ c, (exec (onSignal live bar sig) w).2.bot = { w.bot with consec := c } :=
  bot_of_steps (onSignal_steps live bar sig w) fun _ _ hstep => hstep.bot

/-- `on_signal` on the signal of a position step. -/
theorem onSignal_kept (w : World (Bot OrbEngine)) (bar : Bar) (hD : Discipline live R P C) (hlive : live.OrbMarket) {sig : Signal}
    {pos pos' : Option PositionState} (hpos : PositionStep pos (some sig) pos')
    (hkept : Kept live.broker.magic (Tracked R pos) P w)
    (hcold : w.bot.warming = true → w.server.Holds live.broker.magic fun _ => False)
    (hentry : sig.kind = .entry → ∀ q ∈ pos', C q w.env)
    (htrue : sig.kind = .exit → ∀ k, (w.env k).send.Truthful)
    (hexit : sig.kind = .exit → sig.reason ≠ "take_profit_partial" → ExitCloses live sig w) :
    Ensures (onSignal live bar sig) w
      (Post (fun _ v => Kept live.broker.magic (Tracked R pos') P v) fun _ v => ∀ s ∈ v.sent, P s) := by
  have hR := hD.toCarried
  have hnothing : ∀ {v : World (Bot OrbEngine)}, Kept live.broker.magic (fun _ => False) P v →
      Kept live.broker.magic (Tracked R pos') P v := fun h => h.mono fun _ hfalse => hfalse.elim
  refine onSignal_cases sig (fun hwarm _ => hnothing ⟨hcold hwarm, hkept.logged⟩) (fun hkind _ => ?_) fun hkind => ?_
  · cases hpos with
    | flat _ hsig => rw [hsig sig rfl] at hkind; cases hkind
    | partly _ _ _ hexitKind => rw [hexitKind] at hkind; cases hkind
    | left _ _ hexitKind => rw [hexitKind] at hkind; cases hkind
    | entered _ q _ hdir hprice hstop =>
      exact (onEntry_kept hD hkind hdir hprice hstop (hentry hkind q rfl)
        (hkept.mono fun _ h => (tracked_none h).elim)).post (fun _ h => h) fun _ h => h.logged
  · cases hpos with
    | entered _ _ hentryKind => exact absurd hentryKind hkind
    | flat _ hsig =>
      unfold Ensures
      rw [submit_reject (hsig sig rfl)]
      exact hkept
    | partly _ q q' hexitKind hreason hsdir hdir hstop =>
      have hcloses : Ensures (submit live sig) w fun _ v => Kept live.broker.magic (Tracked R (some q)) P v :=
        hR.closes (hR.shrinkTracked _) (submit_steps (exit_steps live hexitKind w)) hkept
      refine hcloses.post (fun v h => h.mono fun p hp => hR.trackedHeld hdir ?_ hp) fun v h => h.logged
      rw [hstop]
      unfold Direction.AsTight
      cases q.direction <;> exact le_rfl
    | left _ q hexitKind hreason =>
      exact (submit_exit hR hlive hexitKind hreason hkept (htrue hexitKind) (hexit hexitKind hreason)).weaken
        (fun _ v h => hnothing h) fun _ _ h => h

theorem submit_cold (hR : Carried R P) {sig : Signal} (hkind : sig.kind ≠ .entry)
    (hkept : Kept live.broker.magic (fun _ => False) P w) :
    Ensures (submit live sig) w fun _ v => Kept live.broker.magic (fun _ => False) P v := by
  cases hsig : sig.kind with
  | entry => exact absurd hsig hkind
  | exit => exact hR.closes shrink_false (submit_steps (exit_steps live hsig w)) hkept
  | reject =>
    unfold Ensures
    rw [submit_reject hsig]
    exact hkept

theorem onSignal_cold (hR : Carried R P) (hlive : live.OrbMarket) {sig : Signal}
    (hts : sig.kind = .entry → sig.ts = bar.candle.ts) (hwarm : w.bot.warming = true)
    (hstale : stale bar.candle.ts live.warmStart barGrace = true)
    (hkept : Kept live.broker.magic (fun _ => False) P w) :
    Ensures (onSignal live bar sig) w fun _ v => Kept live.broker.magic (fun _ => False) P v := by
  refine onSignal_cases sig (fun _ _ => hkept) (fun hkind hfresh => ?_) fun hkind => submit_cold hR hkind hkept
  have hgrace : sigGrace live = barGrace := by
    unfold sigGrace barGrace
    rw [hlive.trigger]
    rfl
  have hnot := hfresh hwarm
  rw [hts hkind, hgrace, hstale] at hnot
  cases hnot

theorem holds_day {w : World (Bot OrbEngine)} {magic : Int} {H : Position → Prop} (h : w.server.Holds magic H) (day : Int) :
    Server.Holds magic H { w.server with day := day } := h.congr rfl rfl rfl

theorem onSignal_agrees (hD : Discipline live R P C) (hlive : live.OrbMarket) (h : Agrees cfg live R P True w)
    (hbar : BarMeets cfg live C bar w) {sig : Signal} {e : OrbEngine}
    (hon : w.bot.engine.onCandle cfg bar.candle = .ok (some sig, e)) {G : Prop}
    (hgate : G → stale bar.candle.ts live.warmStart barGrace = true) :
    Ensures (onSignal live bar sig) (fed bar e w)
      (Post (fun _ v => Agrees cfg live R P G v) fun _ v => ∀ s ∈ v.sent, P s) := by
  have hR := hD.toCarried
  obtain ⟨c, hc, hstep⟩ := OrbEngine.onCandle_cases h.sound.core.ne_exit hon
  have hexit := hbar.follows.1
  have htrue := hbar.exit
  have hentry := hbar.entry
  rw [hon] at hexit htrue hentry
  have hposition : PositionStep w.bot.engine.pos (some sig) e.pos :=
    (hstep.position h.sound).resolve_left fun hlate => by cases hlate.1
  have hkept := onSignal_kept (fed bar e w) bar hD hlive hposition
    ⟨holds_day h.kept.holds _, h.kept.logged⟩ (fun hwarm => holds_day (h.cold hwarm trivial) _) hentry htrue hexit
  have hcold : Ensures (onSignal live bar sig) (fed bar e w) fun _ v => w.bot.warming = true →
      stale bar.candle.ts live.warmStart barGrace = true → v.server.Holds live.broker.magic fun _ => False := by
    by_cases hwarm : w.bot.warming = true ∧ stale bar.candle.ts live.warmStart barGrace = true
    · have hts : sig.kind = .entry → sig.ts = bar.candle.ts := fun hkind =>
        (hstep.entry_inside h.sound hkind).1.trans (validate_spec hc).1
      exact (onSignal_cold (w := fed bar e w) hR hlive hts hwarm.1 hwarm.2
        ⟨holds_day (h.cold hwarm.1 trivial) _, h.kept.logged⟩).mono fun _ _ hv _ _ => hv.holds
    · unfold Ensures
      exact fun hon hstale => absurd ⟨hon, hstale⟩ hwarm
  have hbot : Ensures (onSignal live bar sig) (fed bar e w) fun _ v =>
      ∃ guard, v.bot = { (fed bar e w).bot with consec := guard } := onSignal_bot sig _
  refine ((hkept.and hcold).and hbot).mono fun r v hv => ?_
  obtain ⟨⟨hkept, hcold⟩, guard, hbot⟩ := hv
  cases r with
  | error err => exact hkept
  | ok a =>
    refine ⟨?_, ?_, fun hwarm hG => hcold ?_ (hgate hG)⟩
    · rw [hbot]
      exact hstep.sound h.sound
    · rw [hbot]
      exact hkept
    · rwa [hbot] at hwarm

theorem feed_agrees (hD : Discipline live R P C) (hlive : live.OrbMarket) (h : Agrees cfg live R P True w)
    (hbar : BarMeets cfg live C bar w) :
    Ensures (feed (orbOps cfg) live bar) w
      (Post (fun fedBar v => Agrees cfg live R P
          (fedBar = true → stale bar.candle.ts live.warmStart barGrace = true) v) fun _ v => ∀ s ∈ v.sent, P s) := by
  have hops : (orbOps cfg).onCandle w.bot.engine bar.candle = w.bot.engine.onCandle cfg bar.candle := rfl
  unfold feed
  rw [ensures_bind, ensures_get, post_ok, hops]
  cases hon : w.bot.engine.onCandle cfg bar.candle with
  | error err =>
    simp only
    split
    · exact ⟨h.sound, h.kept, fun hwarm _ => h.cold hwarm trivial⟩
    · exact h.kept.logged
  | ok out =>
    obtain ⟨sig, e⟩ := out
    simp only
    rw [ensures_bind, ensures_modify, post_ok]
    cases sig with
    | none =>
      obtain ⟨c, hc, hstep⟩ := OrbEngine.onCandle_cases h.sound.core.ne_exit hon
      refine ⟨hstep.sound h.sound, ⟨holds_day (h.kept.holds.mono fun p _ _ hp => ?_) _, h.kept.logged⟩,
        fun hwarm _ => holds_day (h.cold hwarm trivial) _⟩
      rcases hstep.position h.sound with ⟨-, rfl⟩ | hposition
      · exact hp
      · exact hD.toCarried.quietStep hposition hp
    | some sig =>
      have hall := onSignal_agrees hD hlive h hbar hon
        (G := true = true → stale bar.candle.ts live.warmStart barGrace = true) fun hgate => hgate rfl
      exact hall.bind fun _ v hv => hv

/-! ### `on_bar` -/

theorem agrees_step (hR : Carried R P) (hstep : LiveStep live Mt5Broker.RemoveBody w w')
    (h : Agrees cfg live R P gate w) : Agrees cfg live R P gate w' := by
  obtain ⟨hengine, hwarming⟩ := hstep.course
  refine ⟨?_, ?_, fun hwarm hgate => ?_⟩
  · rw [hengine]
    exact h.sound
  · rw [hengine]
    exact hstep.kept (hR.shrinkTracked _) hR.reduces h.kept
  · rw [hwarming] at hwarm
    exact hstep.holds shrink_false (fun _ => Server.keptBy_remove) (h.cold hwarm hgate)

/-- The guards keep the invariant, whatever fails in them. -/
theorem agrees_steps (hR : Carried R P) {α : Type} {x : Mt5 (Bot OrbEngine) α}
    (hsteps : StepsFrom (LiveStep live Mt5Broker.RemoveBody) x w) (h : Agrees cfg live R P gate w) :
    Ensures x w fun _ v => Agrees cfg live R P gate v ∧ v.bot.warming = w.bot.warming :=
  hsteps.invariant (I := fun v => Agrees cfg live R P gate v ∧ v.bot.warming = w.bot.warming)
    (fun _ _ hstep hI => ⟨agrees_step hR hstep hI.1, hstep.course.2.trans hI.2⟩) ⟨h, rfl⟩

theorem watch_agrees (hR : Carried R P)
    (h : Agrees cfg live R P (stale bar.candle.ts live.warmStart barGrace = true) w) :
    Ensures (watch live bar) w
      (Post (fun due v => Agrees cfg live R P True v ∧ (due = true → v.bot.warming = false))
        fun _ v => ∀ s ∈ v.sent, P s) := by
  unfold watch
  rw [ensures_bind, ensures_modifyBot, post_ok, ensures_bind, ensures_get, post_ok]
  split
  · next hgate =>
    rw [Bool.and_eq_true] at hgate
    have hdated : Agrees cfg live R P True { w with bot := { w.bot with
        consec := w.bot.consec.map (·.onPeriod (date bar.candle.ts)) } } :=
      ⟨h.sound, ⟨h.kept.holds, h.kept.logged⟩, fun hwarm _ => h.cold hwarm hgate.2⟩
    have hspike := agrees_steps hR (updateSpike_steps bar _) hdated
    have hpost := hspike.post (Q := fun _ v => Agrees cfg live R P True v) (E := fun _ v => ∀ s ∈ v.sent, P s)
      (fun _ hv => hv.1) fun _ hv => hv.1.kept.logged
    exact hpost.bind fun _ v hv => ⟨hv, fun hfalse => by cases hfalse⟩
  · rw [ensures_bind, ensures_modifyBot, post_ok, ensures_bind, ensures_against]
    have hopened : Agrees cfg live R P True { w with
        bot := { w.bot with consec := w.bot.consec.map (·.onPeriod (date bar.candle.ts)), warming := false }
        env := bar.atGuards
        calls := 0 } :=
      ⟨h.sound, ⟨h.kept.holds, h.kept.logged⟩, fun hwarm _ => by cases hwarm⟩
    have hguards := agrees_steps hR (guards_steps live bar _) hopened
    have hpost := hguards.post (Q := fun _ v => Agrees cfg live R P True v ∧ v.bot.warming = false)
      (E := fun _ v => ∀ s ∈ v.sent, P s) (fun _ hv => hv) fun _ hv => hv.1.kept.logged
    exact hpost.weaken (fun _ v hv => ⟨hv.1, fun _ => hv.2⟩) fun _ _ h => h

theorem reconcile_agrees (hD : Discipline live R P C) (h : Agrees cfg live R P True w)
    (hwarm : w.bot.warming = false) (hsync : w.settled.own live.broker.magic ≠ [] → w.reply.readOk = true) :
    Ensures (reconcile (orbOps cfg) live bar) w
      (Post (fun _ v => Agrees cfg live R P True v) fun _ v => ∀ s ∈ v.sent, P s) := by
  have hR := hD.toCarried
  unfold reconcile
  rw [ensures_bind, ensures_get, post_ok]
  split
  · next hbreak =>
    have hstate : w.bot.engine.state = .breakout := by simpa [orbOps] using hbreak
    obtain ⟨pos, hpos⟩ := h.sound.core.pos_some hstate
    unfold Mt5Broker.hasPosition
    rw [ensures_bind, ensures_bind, Mt5Broker.ensures_myPositions, post_ok, ensures_pure, post_ok]
    have hread : Kept live.broker.magic (Tracked R w.bot.engine.pos) P w.afterRead :=
      ⟨h.kept.holds.settled, h.kept.logged⟩
    split
    · rw [ensures_bind, ensures_get, post_ok]
      have hstop : (orbOps cfg).stop w.afterRead.bot.engine = some pos.stop := by
        show (w.bot.engine.pos.map (·.stop)) = some pos.stop
        rw [hpos]
        rfl
      rw [hstop]
      simp only
      have hpush : Ensures ((mt5 live).updateStop pos.stop) w.afterRead fun _ v =>
          Kept live.broker.magic (Tracked R (some pos)) P v ∧ ∃ c, v.bot = { w.bot with consec := c } :=
        ⟨hD.pushes pos w.afterRead (hpos ▸ hread),
          bot_of_steps ((mt5 live).quiet_steps ((mt5 live).updateStop_steps pos.stop) _) fun _ _ hs => hs.bot⟩
      have hagrees : Ensures ((mt5 live).updateStop pos.stop) w.afterRead fun _ v => Agrees cfg live R P True v := by
        refine hpush.mono fun r v hv => ?_
        obtain ⟨hkept, guard, hbot⟩ := hv
        refine ⟨?_, ?_, fun hon => ?_⟩
        · rw [hbot]
          exact h.sound
        · rw [hbot, show ({ w.bot with consec := guard } : Bot OrbEngine).engine.pos = some pos from hpos]
          exact hkept
        · rw [hbot, show ({ w.bot with consec := guard } : Bot OrbEngine).warming = false from hwarm] at hon
          cases hon
      have hguarded : Ensures (guarded ((mt5 live).updateStop pos.stop)) w.afterRead fun _ v =>
          Agrees cfg live R P True v := by
        rw [ensures_guarded]
        refine hagrees.mono fun r v hv => ?_
        rcases r with (text | _) | res <;> exact hv
      have hpost := hguarded.post (Q := fun _ v => Agrees cfg live R P True v) (E := fun _ v => ∀ s ∈ v.sent, P s)
        (fun _ hv => hv) fun _ hv => hv.kept.logged
      exact hpost.bind fun _ v hv => hv
    · next hnone =>
      -- the read did not fail, so there is nothing
      have hown : w.settled.own live.broker.magic = [] := by
        by_contra hne
        have hseen : (mt5 live (ε := OrbEngine)).seen w = w.settled.own live.broker.magic := if_pos (hsync hne)
        rw [hseen] at hnone
        simp only [Bool.not_eq_true, Bool.not_eq_false', List.isEmpty_iff] at hnone
        exact hne hnone
      have hnothing : w.afterRead.server.Holds live.broker.magic fun _ => False :=
        Server.holds_false.mpr ⟨hread.holds.wf, hread.holds.noOrders, hown⟩
      exact ⟨OrbEngine.forceFlat_sound h.sound _, ⟨hnothing.mono fun _ _ _ h => h.elim, h.kept.logged⟩,
        fun _ _ => hnothing⟩
  · exact h

theorem beforeSync_agrees (hD : Discipline live R P C) (hlive : live.OrbMarket) (h : Agrees cfg live R P True w)
    (hbar : BarMeets cfg live C bar w) :
    Ensures (beforeSync (orbOps cfg) live bar) w
      (Post (fun due v => Agrees cfg live R P True v ∧ (due = true → v.bot.warming = false))
        fun _ v => ∀ s ∈ v.sent, P s) := by
  refine (feed_agrees hD hlive h hbar).bind fun due v hv => ?_
  cases due with
  | false => exact ⟨⟨hv.sound, hv.kept, fun hwarm _ => hv.cold hwarm fun hfalse => by cases hfalse⟩, fun hfalse => by cases hfalse⟩
  | true => exact watch_agrees hD.toCarried ⟨hv.sound, hv.kept, fun hwarm hstale => hv.cold hwarm fun _ => hstale⟩

/-- **One candle keeps engine and broker in agreement.** -/
theorem onCandle_agrees (hD : Discipline live R P C) (hlive : live.OrbMarket) (h : Agrees cfg live R P True w)
    (hbar : BarMeets cfg live C bar w) :
    Ensures (onCandle (orbOps cfg) live bar) w
      (Post (fun _ v => Agrees cfg live R P True v) fun _ v => ∀ s ∈ v.sent, P s) := by
  have hbefore := beforeSync_agrees hD hlive h hbar
  have hsync := hbar.follows.2
  unfold Ensures at *
  rw [exec_onCandle]
  rcases hrun : exec (beforeSync (orbOps cfg) live bar) w with ⟨err | due, v⟩
  · rw [hrun] at hbefore
    exact hbefore
  · rw [hrun] at hbefore hsync
    cases due with
    | false => exact hbefore.1
    | true =>
      have hmode : ¬ (live.broker.entryMode = .limit ∨ live.structural.isSome = true) := by
        rw [hlive.market, hlive.orb]
        decide
      simp only [sync, if_neg hmode]
      exact reconcile_agrees (w := synced bar v) hD ⟨hbefore.1.sound,
        ⟨hbefore.1.kept.holds, hbefore.1.kept.logged⟩, hbefore.1.cold⟩ (hbefore.2 rfl) hsync

end Agreement

end Live

/-! ### Runs -/

namespace LiveState

variable {cfg : OrbConfig} {live : LiveConfig} {R : PositionState → Position → Prop} {P : Sent → Prop}
  {C : PositionState → (Nat → Reply) → Prop}

/-- Every request so far was in `P`, and the parties agree unless the loop has stopped. -/
structure Agreeing (cfg : OrbConfig) (live : LiveConfig) (R : PositionState → Position → Prop) (P : Sent → Prop)
    (s : LiveState OrbEngine) : Prop where
  logged : ∀ sent ∈ s.world.sent, P sent
  agrees : s.stopped = false → Live.Agrees cfg live R P True s.world

/-- The engine follows the broker on every bar while the loop runs. -/
def Follows (cfg : OrbConfig) (live : LiveConfig) (s : LiveState OrbEngine) : LiveInput → Prop
  | .bar bar => s.stopped = false → Live.Follows cfg live bar s.world
  | _ => True

instance (cfg : OrbConfig) (live : LiveConfig) (s : LiveState OrbEngine) :
    (input : LiveInput) → Decidable (s.Follows cfg live input)
  | .bar _ => inferInstanceAs (Decidable (_ → _))
  | .refresh .. => inferInstanceAs (Decidable True)
  | .idle _ => inferInstanceAs (Decidable True)

/-- What an input has to meet while the loop runs. -/
def Meets (cfg : OrbConfig) (live : LiveConfig) (C : PositionState → (Nat → Reply) → Prop) (s : LiveState OrbEngine) :
    LiveInput → Prop
  | .bar bar => s.stopped = false → Live.BarMeets cfg live C bar s.world
  | _ => True

theorem step_agreeing (hD : Live.Discipline live R P C) (hlive : live.OrbMarket) {s : LiveState OrbEngine}
    {input : LiveInput} (h : s.Agreeing cfg live R P) (hmeet : s.Meets cfg live C input) :
    (s.step (orbOps cfg) live input).Agreeing cfg live R P := by
  unfold step
  split
  · exact h
  · next hrun =>
    have hrun : s.stopped = false := by simpa using hrun
    have hagrees := h.agrees hrun
    cases input with
    | bar bar =>
      have hcandle := Live.onCandle_agrees hD hlive hagrees (hmeet hrun)
      unfold Ensures at hcandle
      simp only [onBar]
      rcases hrun : exec (Live.onCandle (orbOps cfg) live bar) s.world with ⟨err | a, v⟩ <;>
        rw [hrun] at hcandle
      · exact ⟨hcandle, fun hfalse => by cases hfalse⟩
      · exact ⟨hcandle.kept.logged, fun _ => hcandle⟩
    | refresh balance positions =>
      exact ⟨h.logged, fun _ => ⟨hagrees.sound, ⟨hagrees.kept.holds, hagrees.kept.logged⟩, hagrees.cold⟩⟩
    | idle events =>
      exact ⟨h.logged, fun _ => ⟨hagrees.sound, ⟨hagrees.kept.holds.applyEvents events, hagrees.kept.logged⟩,
        fun hwarm hgate => (hagrees.cold hwarm hgate).applyEvents events⟩⟩

theorem start_agreeing {server : Server} (hserver : server.Holds live.broker.magic fun _ => False) :
    (start live (OrbEngine.init cfg) server).Agreeing cfg live R P where
  logged := fun _ hs => by cases hs
  agrees := fun _ => ⟨OrbEngine.sound_init, ⟨hserver.mono fun _ _ _ h => h.elim, fun _ hs => by cases hs⟩,
    fun _ _ => hserver⟩

/-- **Engine and broker agree along a run.** The loop starts with nothing held, and every bar meets
`BarMeets`. -/
theorem run_agreeing (hD : Live.Discipline live R P C) (hlive : live.OrbMarket) {server : Server}
    (hserver : server.Holds live.broker.magic fun _ => False) {inputs : List LiveInput}
    (hmeet : StepsMeet (step (orbOps cfg) live) (Meets cfg live C) (start live (OrbEngine.init cfg) server) inputs) :
    (run (step (orbOps cfg) live) (start live (OrbEngine.init cfg) server) inputs).Agreeing cfg live R P :=
  run_invariant (fun _ _ h hm => step_agreeing hD hlive h hm) (start_agreeing hserver) hmeet

end LiveState

end FreqTrading
