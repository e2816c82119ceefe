import FreqTrading.Broker.Ledger
import FreqTrading.Broker.Outcomes
import FreqTrading.Live.OnePosition

/-!
# The consecutive-loss guard

The guard counts the losing closes that the broker adapter reports, and resets the count when `on_bar` sees another
UTC day. A trade that the server closes is not reported, so its loss is not counted (`loss_by_server`).
`no_entry_after_losses` is about every run in which each own closing deal is one the count can follow (`Plain`), each
losing close is reported as one, and nothing was lost on a day before the count of that day starts.
-/

namespace FreqTrading

open Lib

/-! ### The ledger of a server -/

/-- The closing deals, the last one first. -/
def Server.ledger (s : Server) : List ClosingDeal := s.deals.reverse

namespace Server

variable {s s' : Server}

theorem ledger_closeVolume (s : Server) (p : Position) (volume profit : ℚ) (order : Option Int) :
    (s.closeVolume p volume profit order).day = s.day ∧ ∃ full, (s.closeVolume p volume profit order).ledger =
      ⟨p.ticket, order.getD p.magic, profit, full, order.isNone, s.day⟩ :: s.ledger :=
  ⟨rfl, !(volume < p.volume), List.reverse_concat ..⟩

theorem ledger_applyEvent (s : Server) (ev : ServerEvent) : (s.applyEvent ev).day = s.day ∧
    ((s.applyEvent ev).ledger = s.ledger ∨
      ∃ d, d.byServer = true ∧ d.day = s.day ∧ (s.applyEvent ev).ledger = d :: s.ledger) := by
  cases ev with
  | closed ticket profit =>
    simp only [applyEvent]
    split
    · exact ⟨rfl, Or.inl rfl⟩
    · next p hp =>
      obtain ⟨hday, full, hledger⟩ := ledger_closeVolume s p p.volume profit none
      exact ⟨hday, Or.inr ⟨_, rfl, rfl, hledger⟩⟩
  | filled ticket price =>
    simp only [applyEvent]
    split
    · exact ⟨rfl, Or.inl rfl⟩
    · exact ⟨rfl, Or.inl rfl⟩
  | adjusted delta => exact ⟨rfl, Or.inl rfl⟩

theorem ledger_perform_close {partly : Option ℚ} {price profit : ℚ} {dir : Direction} {volume px : ℚ} {ticket : Nat}
    {dev magic : Int} {comment : String}
    (h : s.perform partly price profit (.close dir volume ticket px dev magic comment) = some s') :
    s'.day = s.day ∧ ∃ position full, s'.ledger = ⟨position, magic, profit, full, false, s.day⟩ :: s.ledger := by
  simp only [perform] at h
  cases hpos : s.position? ticket with
  | none =>
    rw [hpos] at h
    cases h
  | some p =>
    rw [hpos] at h
    simp only at h
    split at h
    · cases h
      obtain ⟨hday, full, hledger⟩ := ledger_closeVolume s p (executedVolume volume partly) profit (some magic)
      exact ⟨hday, p.ticket, full, hledger⟩
    · cases h

theorem ledger_perform {partly : Option ℚ} {price profit : ℚ} {body : OrderBody} (hbody : body.Enters ∨ body.Amends)
    (h : s.perform partly price profit body = some s') : s'.day = s.day ∧ s'.ledger = s.ledger := by
  cases body with
  | close => exact (hbody.elim id id).elim
  | entry | pending =>
    cases h
    exact ⟨rfl, rfl⟩
  | sltp ticket =>
    simp only [perform] at h
    split at h
    · cases h
    · cases h
      exact ⟨rfl, rfl⟩
  | remove ticket =>
    simp only [perform] at h
    split at h
    · cases h
    · cases h
      exact ⟨rfl, rfl⟩

end Server

/-! ### A count beside the ledger -/

/-- The count is up to date if the deals so far are ones it can follow. -/
def Tallies (n : Nat) (m : Int) (streak : Nat) (s : Server) : Prop :=
  Ledger.Audible n m s.ledger → Ledger.Counts n m s.day s.ledger streak

section Tallies

variable {n : Nat} {m : Int} {streak streak' : Nat} {s s' : Server}

theorem Tallies.congr (h : Tallies n m streak s) (hday : s'.day = s.day) (hledger : s'.ledger = s.ledger) :
    Tallies n m streak s' := by
  unfold Tallies
  rw [hday, hledger]
  exact h

theorem Tallies.mono (h : Tallies n m streak s) (hle : streak ≤ streak') : Tallies n m streak' s :=
  fun hplain => (h hplain).mono hle

theorem Tallies.deal (hn : 0 < n) (h : Tallies n m streak s) {d : ClosingDeal} (hday : d.day = s.day)
    (hday' : s'.day = s.day) (hledger : s'.ledger = d :: s.ledger) (hown : d.byServer = false → d.magic = m)
    (hloss : d.byServer = false → d.profit < 0 → streak + 1 ≤ streak')
    (hkeep : d.byServer = true ∨ d.profit ≤ 0 → streak ≤ streak') : Tallies n m streak' s' := by
  unfold Tallies
  rw [hday', hledger, ← hday]
  rintro ⟨hbefore, hplain⟩
  exact Ledger.Counts.deal hn (hday ▸ h hbefore) hplain hown hloss hkeep

theorem Tallies.applyEvents (hn : 0 < n) (h : Tallies n m streak s) (events : List ServerEvent) :
    Tallies n m streak (s.applyEvents events) := by
  induction events generalizing s with
  | nil => exact h
  | cons ev rest ih =>
    refine ih ?_
    obtain ⟨hday, hsame | ⟨d, hby, hdday, hledger⟩⟩ := Server.ledger_applyEvent s ev
    · exact h.congr hday hsame
    · exact h.deal hn hdday hday hledger (fun hown => by simp [hby] at hown) (fun hown => by simp [hby] at hown)
        fun _ => le_rfl

theorem tallies_none (hn : 0 < n) (h : ∀ d ∈ s.deals, ¬ Ledger.Closes m s.day d) (streak : Nat) : Tallies n m streak s :=
  fun _ => Ledger.counts_none hn (fun d hd => h d (List.mem_reverse.mp hd)) streak

end Tallies

/-! ### What the guard is told -/

/-- The profit that `deal_profit` finds in this reply. -/
def Mt5Broker.told (deal : Nat) (history : Reply) : Option ℚ :=
  if deal = 0 then none
  else
    match history.deals.find? (·.1 = deal) with
    | some d => some d.2
    | none => history.deals.head?.map (·.2)

/-- How the guard hears of a request: an executed one that loses is answered as a success and the history tells of
a loss; of one that is not executed, or does not gain, the history tells no gain. -/
structure Reports {β : Type} (b : Mt5Broker β) (r history : Reply) : Prop where
  loss : r.send.executes = true → r.send.profit < 0 →
    ∃ out, b.taken r.send.answer = some out ∧ ∃ pnl, Mt5Broker.told out.deal history = some pnl ∧ pnl < 0
  noGain : (r.send.executes = true → r.send.profit ≤ 0) → ∀ out, b.taken r.send.answer = some out →
    ∀ pnl ∈ Mt5Broker.told out.deal history, pnl ≤ 0

/-- The count after the news of a close, if the profit is known. -/
def ConsecutiveLossGuard.hear (g : ConsecutiveLossGuard) : Option ℚ → ConsecutiveLossGuard
  | some pnl => g.record pnl
  | none => g

section Told

variable {β : Type} {b : Mt5Broker β} {w : World β}

theorem dealProfit_told (deal : Nat) (w : World β) :
    Ensures (Mt5Broker.dealProfit deal) w
      (Post (fun pnl v => pnl = Mt5Broker.told deal w.reply ∧ (v = w ∨ v = w.afterRead)) fun _ _ => False) := by
  unfold Mt5Broker.dealProfit Mt5Broker.told historyDealsGet
  split
  · exact ⟨rfl, Or.inl rfl⟩
  · rw [ensures_bind, ensures_readCall, post_ok]
    cases w.reply.deals.find? (·.1 = deal) <;> exact ⟨rfl, Or.inr rfl⟩

theorem hear_streak {g : ConsecutiveLossGuard} {news : Option ℚ} (h : ∀ pnl ∈ news, pnl ≤ 0) :
    g.streak ≤ (g.hear news).streak := by
  cases news with
  | none => exact le_rfl
  | some pnl => exact ConsecutiveLossGuard.streak_le_record (h pnl rfl)

/-- **The close of a position, as far as the answer.** The count that will have heard of it is up to date. -/
theorem tallies_closing {n : Nat} (hn : 0 < n) {g : ConsecutiveLossGuard} {p : Position} {volume px : ℚ}
    {reason : String} {f : Filling} {r : OrderRequest} (hr : r.body = (b.closeRequest p volume px reason f).body)
    (hreports : Reports b w.reply (w.env (w.calls + 1))) (h : Tallies n b.magic g.streak w.settled) :
    (∀ out, b.taken (w.outcome r).2.2 = some out →
      Tallies n b.magic (g.hear (Mt5Broker.told out.deal (w.env (w.calls + 1)))).streak (w.outcome r).1) ∧
      (b.taken (w.outcome r).2.2 = none → Tallies n b.magic g.streak (w.outcome r).1) := by
  have hclose : (b.closeRequest p volume px reason f).body =
      .close (Mt5Broker.opposite p.direction) volume p.ticket px b.deviation b.magic ("orb:" ++ reason) := rfl
  cases hex : (w.outcome r).2.1 with
  | true =>
    obtain ⟨hexecutes, hanswer, hperf⟩ := outcome_executed hex
    rw [hr, hclose] at hperf
    obtain ⟨hday, position, full, hledger⟩ := Server.ledger_perform_close hperf
    rw [hanswer]
    refine ⟨fun out hout => ?_, fun hnone => ?_⟩
    · refine h.deal hn rfl hday hledger (fun _ => rfl) (fun _ hlost => ?_) fun hkept => ?_
      · obtain ⟨out', hout', pnl, htold, hneg⟩ := hreports.loss hexecutes hlost
        obtain rfl : out' = out := Option.some.inj (hout'.symm.trans hout)
        rw [htold]
        exact (ConsecutiveLossGuard.record_loss hneg).ge
      · exact hear_streak (hreports.noGain (fun _ => hkept.resolve_left (by simp)) out hout)
    · refine h.deal hn rfl hday hledger (fun _ => rfl) (fun _ hlost => ?_) fun _ => le_rfl
      obtain ⟨out', hout', -⟩ := hreports.loss hexecutes hlost
      rw [hnone] at hout'
      cases hout'
  | false =>
    rw [outcome_not_executed hex]
    refine ⟨fun out hout => ?_, fun _ => h⟩
    have hanswer : w.reply.send.executes = false ∧ (w.outcome r).2.2 = w.reply.send.answer := by
      unfold World.outcome at hex hout ⊢
      split at hex
      · next hexecutes =>
        -- the position is gone: the answer is no success
        rw [if_pos hexecutes] at hout
        split at hex
        · cases hex
        · next hgone =>
          rw [hgone] at hout
          have hfail : Mt5Broker.succeeded (some World.impossible) = none := by decide
          rw [Mt5Broker.succeeded_of_taken hout] at hfail
          cases hfail
      · next hexecutes =>
        rw [if_neg hexecutes]
        exact ⟨by simpa using hexecutes, rfl⟩
    rw [hanswer.2] at hout
    exact h.mono (hear_streak (hreports.noGain (fun hexecutes => by simp [hanswer.1] at hexecutes) out hout))

end Told

/-! ### The guard of the loop -/

/-- An executed order that opens a position was not sent after `n` losses in a row. -/
def Sent.BeforeLosses (n : Nat) (m : Int) (s : Sent) : Prop :=
  s.executed = true → s.request.body.Enters → ¬ Ledger.Lost n m s.before.day s.before.ledger

namespace Live

variable {ε : Type} {ops : EngineOps ε} {cfg : LiveConfig} {bar : Bar} {w w' : World (Bot ε)}

/-- The losses after which the guard blocks. -/
def lossLimit (cfg : LiveConfig) : Nat := cfg.maxConsecLosses.toNat

/-- The count is up to date, and so far no entry came after the losses. -/
structure Watched (cfg : LiveConfig) (w : World (Bot ε)) : Prop where
  guard : ∃ g, w.bot.consec = some g ∧ g.maxConsecutive = cfg.maxConsecLosses ∧
    Tallies (lossLimit cfg) cfg.broker.magic g.streak w.server
  logged : Ledger.Audible (lossLimit cfg) cfg.broker.magic w.server.ledger →
    ∀ s ∈ w.sent, s.BeforeLosses (lossLimit cfg) cfg.broker.magic

theorem lossLimit_pos (hmax : 0 < cfg.maxConsecLosses) : 0 < lossLimit cfg := by
  unfold lossLimit
  omega

theorem not_lost_of_open {g : ConsecutiveLossGuard} {m : Int} {s : Server} (hmax : 0 < cfg.maxConsecLosses)
    (hlimit : g.maxConsecutive = cfg.maxConsecLosses) (hopen : g.blocked = false)
    (htallies : Tallies (lossLimit cfg) m g.streak s) (hplain : Ledger.Audible (lossLimit cfg) m s.ledger) :
    ¬ Ledger.Lost (lossLimit cfg) m s.day s.ledger := by
  intro hlost
  have hcount := (htallies hplain).lost hlost
  unfold ConsecutiveLossGuard.blocked at hopen
  rw [hlimit] at hopen
  unfold lossLimit at hcount
  simp only [Bool.and_eq_false_iff, decide_eq_false_iff_not] at hopen
  omega

theorem audible_events {n : Nat} {m : Int} {s : Server} (events : List ServerEvent)
    (h : Ledger.Audible n m (s.applyEvents events).ledger) : Ledger.Audible n m s.ledger := by
  induction events generalizing s with
  | nil => exact h
  | cons ev rest ih =>
    have hlater := ih (s := s.applyEvent ev) h
    obtain ⟨-, hsame | ⟨d, -, -, hledger⟩⟩ := Server.ledger_applyEvent s ev
    · rwa [hsame] at hlater
    · rw [hledger] at hlater
      exact hlater.1

/-! ### Steps without a close -/

theorem Watched.congr (h : Watched cfg w) (hserver : w'.server = w.server) (hsent : w'.sent = w.sent)
    (hconsec : w'.bot.consec = w.bot.consec) : Watched cfg w' := by
  refine ⟨?_, ?_⟩
  · rw [hserver, hconsec]
    exact h.guard
  · rw [hserver, hsent]
    exact h.logged

theorem Watched.read (hmax : 0 < cfg.maxConsecLosses) (h : Watched cfg w) : Watched cfg w.afterRead := by
  obtain ⟨g, hg, hlimit, htallies⟩ := h.guard
  exact ⟨⟨g, hg, hlimit, htallies.applyEvents (lossLimit_pos hmax) _⟩, fun hplain => h.logged (audible_events _ hplain)⟩

theorem outcome_books {r : OrderRequest} (hbody : r.body.Enters ∨ r.body.Amends) :
    (w.outcome r).1.day = w.settled.day ∧ (w.outcome r).1.ledger = w.settled.ledger := by
  cases hex : (w.outcome r).2.1 with
  | true => exact Server.ledger_perform hbody (outcome_executed hex).2.2
  | false =>
    rw [outcome_not_executed hex]
    exact ⟨rfl, rfl⟩

theorem Watched.send (hmax : 0 < cfg.maxConsecLosses) (h : Watched cfg w) {r : OrderRequest}
    (hbody : r.body.Enters ∨ r.body.Amends) (hopen : r.body.Enters → w.bot.consec.any (·.blocked) = false) :
    Watched cfg (w.afterSend r) := by
  obtain ⟨g, hg, hlimit, htallies⟩ := h.guard
  have hsettled : Tallies (lossLimit cfg) cfg.broker.magic g.streak w.settled :=
    htallies.applyEvents (lossLimit_pos hmax) _
  obtain ⟨hday, hledger⟩ := outcome_books (w := w) hbody
  refine ⟨⟨g, hg, hlimit, hsettled.congr hday hledger⟩, fun hplain => ?_⟩
  rw [afterSend_server, hledger] at hplain
  intro s hs
  rw [afterSend_sent] at hs
  rcases List.mem_append.mp hs with hold | hnew
  · exact h.logged (audible_events _ hplain) s hold
  · rw [List.mem_singleton.mp hnew]
    intro _ henters
    have hfree := hopen henters
    rw [hg] at hfree
    exact not_lost_of_open hmax hlimit hfree hsettled hplain

theorem sink_quiet {sink : BrokerEvent → Bot ε → Bot ε} (hsink : (mt5 cfg).onEvent = some sink) {ev : BrokerEvent}
    (hquiet : ev.Quiet) (bot : Bot ε) : sink ev bot = bot := by
  simp only [mt5, Mt5Broker.withSink] at hsink
  split at hsink
  · cases hsink
    unfold consecSink
    rw [show ev.pnl = none from hquiet]
    split <;> rfl
  · cases hsink

theorem mtStep_watched {B : OrderBody → Prop} (hmax : 0 < cfg.maxConsecLosses)
    (hstep : MtStep (mt5 cfg) B BrokerEvent.Quiet w w') (hbody : ∀ body, B body → body.Enters ∨ body.Amends)
    (hopen : (∃ body, B body ∧ body.Enters) → w.bot.consec.any (·.blocked) = false) (h : Watched cfg w) :
    Watched cfg w' ∧ w'.bot = w.bot := by
  cases hstep with
  | read => exact ⟨h.read hmax, rfl⟩
  | send r hr => exact ⟨h.send hmax (hbody _ hr) fun henters => hopen ⟨r.body, hr, henters⟩, rfl⟩
  | pause delay => exact ⟨h.congr rfl rfl rfl, rfl⟩
  | notify sink ev hsink hev =>
    have hsame := sink_quiet hsink hev w.bot
    exact ⟨h.congr rfl rfl (by rw [hsame]), hsame⟩

/-! ### A close -/

/-- A guard that listens: the losing closes of these replies are reported as such. -/
def Reporting (cfg : LiveConfig) (replies : Nat → Reply) : Prop :=
  ∀ k, Reports cfg.broker (replies k) (replies (k + 1))

theorem Reporting.call {w v : World (Bot ε)} (h : Reporting cfg w.env) (henv : v.env = w.env) :
    Reports (mt5 cfg (ε := ε)) v.reply (v.env (v.calls + 1)) := by
  have hcall := h v.calls
  rw [← henv] at hcall
  exact ⟨hcall.loss, hcall.noGain⟩

/-- The world between a successful answer and the news of it: the guard will have been right once it has heard. -/
structure Owing (cfg : LiveConfig) (w : World (Bot ε)) (news : Option ℚ) (v : World (Bot ε)) : Prop where
  bot : v.bot = w.bot
  tallies : ∀ g, w.bot.consec = some g → Tallies (lossLimit cfg) cfg.broker.magic (g.hear news).streak v.server
  logged : Ledger.Audible (lossLimit cfg) cfg.broker.magic v.server.ledger →
    ∀ s ∈ v.sent, s.BeforeLosses (lossLimit cfg) cfg.broker.magic

theorem closing_logged {p : Position} {volume px : ℚ} {reason : String} {f : Filling} {r : OrderRequest}
    (hr : r.body = ((mt5 cfg).closeRequest (β := Bot ε) p volume px reason f).body) (h : Watched cfg w) :
    Ledger.Audible (lossLimit cfg) cfg.broker.magic (w.afterSend r).server.ledger →
      ∀ s ∈ (w.afterSend r).sent, s.BeforeLosses (lossLimit cfg) cfg.broker.magic := by
  intro hplain s hs
  have hsettled : Ledger.Audible (lossLimit cfg) cfg.broker.magic w.settled.ledger := by
    rw [afterSend_server] at hplain
    cases hex : (w.outcome r).2.1 with
    | true =>
      have hperf := (outcome_executed hex).2.2
      rw [hr] at hperf
      obtain ⟨-, position, full, hledger⟩ := Server.ledger_perform_close hperf
      rw [hledger] at hplain
      exact hplain.1
    | false =>
      rw [outcome_not_executed hex] at hplain
      exact hplain
  rw [afterSend_sent] at hs
  rcases List.mem_append.mp hs with hold | hnew
  · exact h.logged (audible_events _ hsettled) s hold
  · rw [List.mem_singleton.mp hnew]
    intro _ henters
    rw [show (OrderRequest.body _) = _ from hr] at henters
    exact henters.elim

theorem closing_answers (hmax : 0 < cfg.maxConsecLosses) (hreports : Reporting cfg w.env) (p : Position)
    (volume px : ℚ) (reason : String) (f : Filling) :
    (mt5 cfg).Answers (fun v : World (Bot ε) => v.env = w.env ∧ v.bot = w.bot ∧ Watched cfg v)
      (fun out v => Owing cfg w (Mt5Broker.told out.deal v.reply) v) fun r => r.body = ((mt5 cfg).closeRequest (β := Bot ε) p volume px reason f).body where
  read := fun v ⟨henv, hbot, hv⟩ => ⟨henv, hbot, hv.read hmax⟩
  pause := fun v delay ⟨henv, hbot, hv⟩ => ⟨henv, hbot, hv.congr rfl rfl rfl⟩
  success := fun v r out ⟨henv, hbot, hv⟩ hr hout => by
    obtain ⟨g, hg, -, htallies⟩ := hv.guard
    have hcall := hreports.call henv
    refine ⟨hbot, fun g' hg' => ?_, closing_logged hr hv⟩
    obtain rfl : g = g' := Option.some.inj (hg.symm.trans ((congrArg Bot.consec hbot).trans hg'))
    exact (tallies_closing (lossLimit_pos hmax) hr hcall (htallies.applyEvents (lossLimit_pos hmax) _)).1 out hout
  failure := fun v r ⟨henv, hbot, hv⟩ hr hnone => by
    obtain ⟨g, hg, hlimit, htallies⟩ := hv.guard
    have hcall := hreports.call henv
    exact ⟨henv, hbot, ⟨g, hg, hlimit,
      (tallies_closing (lossLimit_pos hmax) hr hcall (htallies.applyEvents (lossLimit_pos hmax) _)).2 hnone⟩,
      closing_logged hr hv⟩

theorem sink_consec (hmax : 0 < cfg.maxConsecLosses) : (mt5 cfg (ε := ε)).onEvent = some consecSink := by
  simp only [mt5, Mt5Broker.withSink]
  rw [if_pos (Or.inr hmax.ne')]

theorem consecSink_hears {g : ConsecutiveLossGuard} {bot : Bot ε} (hg : bot.consec = some g) {ev : BrokerEvent}
    (hclose : ev.action = .close ∨ ev.action = .partialClose) :
    (consecSink ev bot).consec = some (g.hear ev.pnl) := by
  unfold consecSink
  rw [if_pos hclose]
  cases ev.pnl with
  | none => exact hg
  | some pnl =>
    show Option.map _ bot.consec = _
    rw [hg]
    rfl

theorem hear_max (g : ConsecutiveLossGuard) (news : Option ℚ) : (g.hear news).maxConsecutive = g.maxConsecutive := by
  cases news with
  | none => rfl
  | some pnl => exact (g.record_frame pnl).2

theorem Owing.read (hmax : 0 < cfg.maxConsecLosses) {news : Option ℚ} {v : World (Bot ε)} (h : Owing cfg w news v) :
    Owing cfg w news v.afterRead where
  bot := h.bot
  tallies := fun g hg => (h.tallies g hg).applyEvents (lossLimit_pos hmax) _
  logged := fun hplain => h.logged (audible_events _ hplain)

theorem Owing.heard {news : Option ℚ} {v : World (Bot ε)} (h : Owing cfg w news v) (hw : Watched cfg w)
    {ev : BrokerEvent} (hclose : ev.action = .close ∨ ev.action = .partialClose) (hnews : ev.pnl = news) :
    Watched cfg { v with bot := consecSink ev v.bot } := by
  obtain ⟨g, hg, hlimit, -⟩ := hw.guard
  refine ⟨⟨g.hear news, ?_, (hear_max g news).trans hlimit, h.tallies g hg⟩, h.logged⟩
  rw [consecSink_hears ((congrArg Bot.consec h.bot).trans hg) hclose, hnews]

/-- **A `_close_position` reports what it closes.** -/
theorem closePosition_watched (hmax : 0 < cfg.maxConsecLosses) (hreports : Reporting cfg w.env) (h : Watched cfg w)
    (p : Position) (volume : ℚ) (reason : String) :
    Ensures ((mt5 cfg).closePosition p volume reason) w fun _ v => Watched cfg v := by
  unfold Mt5Broker.closePosition
  rw [ensures_bind, ensures_symbolInfoTick, post_ok]
  cases w.reply.tick with
  | none => exact h.read hmax
  | some tick =>
    refine (Mt5Broker.filling_reads w.afterRead).bind_total fun f w₂ hw₂ => ?_
    subst hw₂
    have hsend := (mt5 cfg).send_rule (closing_answers hmax hreports p volume
      (Mt5Broker.quote (Mt5Broker.opposite p.direction) tick) reason f) none false (fun hf => by cases hf)
      (fun r hr => hr) (fun f hf => by cases hf)
      (r := (mt5 cfg).closeRequest p volume (Mt5Broker.quote (Mt5Broker.opposite p.direction) tick) reason f)
      (w := w.afterRead.afterRead) ⟨rfl, rfl, (h.read hmax).read hmax⟩ rfl
    have hevent : (mt5 cfg (ε := ε)).onEvent.isSome = true := by rw [sink_consec hmax]; rfl
    rw [ensures_bind]
    refine hsend.mono fun result v hv => ?_
    cases result with
    | error err => exact hv.2.2
    | ok out =>
      rw [post_ok, if_pos hevent]
      refine (dealProfit_told out.deal v).bind_total fun pnl u ⟨hpnl, hu⟩ => ?_
      have howing : Owing cfg w pnl u := by
        rw [hpnl]
        rcases hu with rfl | rfl
        · exact hv
        · exact hv.read hmax
      unfold Mt5Broker.emit
      rw [sink_consec hmax]
      refine howing.heard h ?_ rfl
      split
      · exact Or.inr rfl
      · exact Or.inl rfl

/-! ### The parts of a bar -/

/-- The guard does not block. -/
def Open (bot : Bot ε) : Prop := bot.consec.any (·.blocked) = false

theorem quiet_watched {B : OrderBody → Prop} {α : Type} {x : Mt5 (Bot ε) α} (hmax : 0 < cfg.maxConsecLosses)
    (hsteps : StepsFrom (MtStep (mt5 cfg) B BrokerEvent.Quiet) x w) (hbody : ∀ body, B body → body.Enters ∨ body.Amends)
    (hopen : (∃ body, B body ∧ body.Enters) → Open w.bot) (h : Watched cfg w) :
    Ensures x w fun _ v => (v.env = w.env ∧ Watched cfg v) ∧ v.bot = w.bot := by
  refine hsteps.invariant (I := fun v => (v.env = w.env ∧ Watched cfg v) ∧ v.bot = w.bot) ?_ ⟨⟨rfl, h⟩, rfl⟩
  rintro v v' hstep ⟨⟨henv, hv⟩, hbot⟩
  obtain ⟨hv', hbot'⟩ := mtStep_watched hmax hstep hbody (fun henters => by rw [hbot]; exact hopen henters) hv
  exact ⟨⟨hstep.env.trans henv, hv'⟩, hbot'.trans hbot⟩

theorem callStep_watched {B : OrderBody → Prop} (hmax : 0 < cfg.maxConsecLosses) (hreports : Reporting cfg w.env)
    (hstep : CallStep (mt5 cfg) B w w') (hbody : ∀ body, B body → body.Amends) (h : Watched cfg w) : Watched cfg w' := by
  cases hstep with
  | quiet hstep =>
    refine (mtStep_watched hmax hstep (fun body hB => Or.inr (hbody body hB)) ?_ h).1
    rintro ⟨body, hB, henters⟩
    have hamends := hbody body hB
    cases body with
    | entry | pending => exact hamends.elim
    | close | sltp | remove => exact henters.elim
  | closing p volume reason => exact closePosition_watched hmax hreports h p volume reason

theorem liveStep_watched {B : OrderBody → Prop} (hmax : 0 < cfg.maxConsecLosses) (hreports : Reporting cfg w.env)
    (hstep : LiveStep cfg B w w') (hbody : ∀ body, B body → body.Amends) (h : Watched cfg w) : Watched cfg w' := by
  cases hstep with
  | call hcall => exact callStep_watched hmax hreports hcall hbody h
  | bot f hsame => exact h.congr rfl rfl hsame.2.1

/-- **Closes and amendments are heard**, in every part of a bar made of them. -/
theorem live_watched {B : OrderBody → Prop} {α : Type} {x : Mt5 (Bot ε) α} (hmax : 0 < cfg.maxConsecLosses)
    (hreports : Reporting cfg w.env) (hsteps : StepsFrom (LiveStep cfg B) x w) (hbody : ∀ body, B body → body.Amends)
    (h : Watched cfg w) : Ensures x w fun _ v => v.env = w.env ∧ Watched cfg v := by
  refine hsteps.invariant (I := fun v => v.env = w.env ∧ Watched cfg v) ?_ ⟨rfl, h⟩
  rintro v v' hstep ⟨henv, hv⟩
  exact ⟨hstep.env.trans henv, liveStep_watched hmax (henv ▸ hreports) hstep hbody hv⟩

theorem closes_watched {α : Type} {x : Mt5 (Bot ε) α} (hmax : 0 < cfg.maxConsecLosses) (hreports : Reporting cfg w.env)
    (hsteps : Steps (CallStep (mt5 cfg) fun _ => False) x) (h : Watched cfg w) :
    Ensures x w fun _ v => v.env = w.env ∧ Watched cfg v :=
  live_watched hmax hreports (call_steps hsteps w) (fun _ hfalse => hfalse.elim) h

theorem execute_watched (hmax : 0 < cfg.maxConsecLosses) (hreports : Reporting cfg w.env) {sig : Signal}
    (hopen : sig.kind = .entry → Open w.bot) (h : Watched cfg w) :
    Ensures ((mt5 cfg).execute sig) w fun _ v => v.env = w.env ∧ Watched cfg v := by
  cases hkind : sig.kind with
  | exit => exact closes_watched hmax hreports (exit_steps cfg hkind) h
  | reject =>
    unfold Mt5Broker.execute
    rw [hkind]
    exact ⟨rfl, h⟩
  | entry =>
    unfold Mt5Broker.execute
    rw [hkind]
    simp only
    split
    · exact (quiet_watched hmax ((mt5 cfg).open_steps sig w) (fun _ hbody => Or.inl hbody.1) (fun _ => hopen hkind) h).mono
        fun _ _ hv => hv.1
    · exact ⟨rfl, h⟩

theorem submit_watched (hmax : 0 < cfg.maxConsecLosses) (hreports : Reporting cfg w.env) {sig : Signal}
    (hopen : sig.kind = .entry → Open w.bot) (h : Watched cfg w) :
    Ensures (submit cfg sig) w fun _ v => v.env = w.env ∧ Watched cfg v := by
  have hguarded : Ensures (guarded ((mt5 cfg).execute sig)) w fun _ v => v.env = w.env ∧ Watched cfg v := by
    unfold Ensures
    rw [guarded_world]
    exact execute_watched hmax hreports hopen h
  refine Ensures.bind_keep hguarded (fun _ hv => hv) fun res v ⟨henv, hv⟩ => ?_
  rcases res with _ | _ | res
  · exact ⟨henv, hv⟩
  · exact ⟨henv, hv⟩
  · exact (closes_watched hmax (henv ▸ hreports) (verifyFill_steps cfg sig res) hv).mono
      fun _ _ ⟨henv', hv'⟩ => ⟨henv'.trans henv, hv'⟩

theorem onEntry_watched (hmax : 0 < cfg.maxConsecLosses) (hreports : Reporting cfg w.env) {sig : Signal}
    (h : Watched cfg w) : Ensures (onEntry cfg bar sig) w fun _ v => v.env = w.env ∧ Watched cfg v := by
  have hreads : ∀ {α : Type} {x : Mt5 (Bot ε) α} {v : World (Bot ε)}, v.env = w.env → Open v.bot → Watched cfg v →
      StepsFrom (MtStep (mt5 cfg) (fun _ => False) BrokerEvent.Quiet) x v →
      Ensures x v fun _ u => u.env = w.env ∧ Watched cfg u ∧ Open u.bot := by
    intro α x v henv hopen hv hsteps
    refine (quiet_watched hmax hsteps (fun _ hfalse => hfalse.elim) (fun ⟨_, hfalse, _⟩ => hfalse.elim) hv).mono ?_
    rintro r u ⟨⟨henv', hu⟩, hbot⟩
    exact ⟨henv'.trans henv, hu, by rw [hbot]; exact hopen⟩
  refine onEntry_rule (J := fun v => v.env = w.env ∧ Watched cfg v ∧ Open v.bot) (F := fun _ => True)
    (fun _ => ⟨rfl, h⟩) (fun hskips => ?_) (fun v hv => hreads hv.1 hv.2.2 hv.2.1 (spreadAllows_reads v))
    (fun _ hv => ⟨hv.1, hv.2.1⟩) fun sized v _ hv => ?_
  · have hopen : Open w.bot := by
      unfold skips at hskips
      unfold Open
      simp only [Bool.or_eq_false_iff] at hskips
      exact hskips.1.1.1.1.2
    exact (hreads rfl hopen h (sized_reads _ w)).mono fun _ _ hv => ⟨hv, fun _ _ => trivial⟩
  · exact (submit_watched hmax (hv.1 ▸ hreports) (fun _ => hv.2.2) hv.2.1).mono
      fun _ _ ⟨henv, hu⟩ => ⟨henv.trans hv.1, hu⟩

theorem onSignal_watched (hmax : 0 < cfg.maxConsecLosses) (hreports : Reporting cfg w.env) (sig : Signal)
    (h : Watched cfg w) : Ensures (onSignal cfg bar sig) w fun _ v => v.env = w.env ∧ Watched cfg v := by
  refine onSignal_cases sig (fun _ _ => ⟨rfl, h⟩) (fun _ _ => onEntry_watched hmax hreports h) fun hkind => ?_
  exact submit_watched hmax hreports (fun hentry => absurd hentry hkind) h

theorem sync_watched (hmax : 0 < cfg.maxConsecLosses) (hreports : Reporting cfg w.env) (h : Watched cfg w) :
    Ensures (sync ops cfg bar) w fun _ v => Watched cfg v := by
  have hrun : Ensures (sync ops cfg bar) w fun _ v => v.env = w.env ∧ Watched cfg v := by
    refine (sync_steps w).invariant (I := fun v => v.env = w.env ∧ Watched cfg v) ?_ ⟨rfl, h⟩
    rintro v v' hstep ⟨henv, hv⟩
    cases hstep with
    | live hlive => exact ⟨hlive.env.trans henv, liveStep_watched hmax (henv ▸ hreports) hlive (fun _ hB => hB) hv⟩
    | flat ts => exact ⟨henv, hv.congr rfl rfl rfl⟩
  exact hrun.mono fun _ _ hv => hv.2

/-- What a bar has to meet, from the state before it. -/
structure Counted (ops : EngineOps ε) (cfg : LiveConfig) (bar : Bar) (w : World (Bot ε)) : Prop where
  signal : Reporting cfg bar.atSignal
  guards : Reporting cfg bar.atGuards
  sync : Reporting cfg bar.atSync
  /-- Another day than that of the last bar has no own trade yet. -/
  fresh : date bar.candle.ts ≠ w.server.day → ∀ d ∈ w.server.deals, ¬ Ledger.Closes cfg.broker.magic (date bar.candle.ts) d
  /-- If the count starts again, nothing that counts was lost on the day. -/
  reset : Reaching ops cfg bar (fun v => v.bot.consec.any (·.period ≠ some (date bar.candle.ts)) →
    Ledger.Counts (lossLimit cfg) cfg.broker.magic v.server.day v.server.ledger 0) w

theorem feed_watched (hmax : 0 < cfg.maxConsecLosses) (hcounted : Counted ops cfg bar w) (h : Watched cfg w) :
    Ensures (feed ops cfg bar) w fun _ v => Watched cfg v := by
  refine feed_rule h (fun _ engine _ => ?_) fun sig engine _ hhanded => ?_
  · obtain ⟨g, hg, hlimit, htallies⟩ := h.guard
    refine ⟨⟨g, hg, hlimit, ?_⟩, h.logged⟩
    by_cases hday : date bar.candle.ts = w.server.day
    · exact htallies.congr hday rfl
    · exact tallies_none (lossLimit_pos hmax) (hcounted.fresh hday) g.streak
  · have hstart : Watched cfg { handed bar engine w with env := bar.atSignal, calls := 0 } := hhanded.congr rfl rfl rfl
    exact (onSignal_watched hmax hcounted.signal sig hstart).mono fun _ _ hv => hv.2

theorem period_watched (day : Int) (h : Watched cfg w)
    (hreset : w.bot.consec.any (·.period ≠ some day) →
      Ledger.Counts (lossLimit cfg) cfg.broker.magic w.server.day w.server.ledger 0) :
    Watched cfg { w with bot := { w.bot with consec := w.bot.consec.map (·.onPeriod day) } } := by
  obtain ⟨g, hg, hlimit, htallies⟩ := h.guard
  refine ⟨⟨g.onPeriod day, ?_, (g.onPeriod_max day).trans hlimit, ?_⟩, h.logged⟩
  · show Option.map _ w.bot.consec = _
    rw [hg]
    rfl
  · unfold ConsecutiveLossGuard.onPeriod
    split
    · exact htallies
    · next hother =>
      rw [hg] at hreset
      exact fun _ => hreset (by simpa using hother)

theorem updateSpike_watched (h : Watched cfg w) : Ensures (updateSpike bar) w fun _ v => Watched cfg v := by
  unfold updateSpike
  rw [ensures_bind, ensures_get, post_ok]
  cases w.bot.spike with
  | none => exact h
  | some spike => exact h.congr rfl rfl rfl

theorem watch_watched (hmax : 0 < cfg.maxConsecLosses) (hreports : Reporting cfg bar.atGuards) (h : Watched cfg w)
    (hreset : w.bot.consec.any (·.period ≠ some (date bar.candle.ts)) →
      Ledger.Counts (lossLimit cfg) cfg.broker.magic w.server.day w.server.ledger 0) :
    Ensures (watch cfg bar) w fun _ v => Watched cfg v := by
  have hperiod := period_watched (date bar.candle.ts) h hreset
  unfold watch
  rw [ensures_bind, ensures_modifyBot, post_ok, ensures_bind, ensures_get, post_ok]
  split
  · exact Ensures.bind_keep (updateSpike_watched hperiod) (fun _ hv => hv) fun _ _ hv => hv
  · rw [ensures_bind, ensures_modifyBot, post_ok]
    refine Ensures.bind_keep ?_ (fun _ hv => hv) fun _ _ hv => hv
    rw [ensures_against]
    exact (live_watched (w := { w with
      bot := { w.bot with consec := w.bot.consec.map (·.onPeriod (date bar.candle.ts)), warming := false }
      env := bar.atGuards
      calls := 0 }) hmax hreports (guards_steps cfg bar _) (fun _ => Mt5Broker.amends_of_remove) (hperiod.congr rfl rfl rfl)).mono
      fun _ _ hv => hv.2

/-- **A bar keeps the guard right**, whether it returns or raises. -/
theorem onCandle_watched (hmax : 0 < cfg.maxConsecLosses) (hcounted : Counted ops cfg bar w) (h : Watched cfg w) :
    Watched cfg (exec (onCandle ops cfg bar) w).2 := by
  have hfeed := feed_watched hmax hcounted h
  have hbar : ∀ v, exec (feed ops cfg bar) w = (.ok true, v) → Watched cfg v →
      Ensures (onBar ops cfg bar) v fun _ u => Watched cfg u := by
    intro v hreach hv
    unfold onBar
    refine Ensures.bind_keep (watch_watched hmax hcounted.guards hv (hcounted.reset v hreach)) (fun _ hu => hu) ?_
    intro due u hu
    split
    · rw [ensures_against]
      exact sync_watched (w := { u with env := bar.atSync, calls := 0 }) hmax hcounted.sync (hu.congr rfl rfl rfl)
    · exact hu
  unfold Ensures at hfeed
  unfold onCandle
  rw [exec_bind]
  rcases hexec : exec (feed ops cfg bar) w with ⟨err | fed, v⟩
  · rw [hexec] at hfeed
    exact hfeed
  · rw [hexec] at hfeed
    cases fed with
    | false => exact hfeed
    | true => exact hbar v hexec hfeed

end Live

/-! ### Runs -/

namespace LiveState

variable {ε : Type} (ops : EngineOps ε) (cfg : LiveConfig)

/-- A bar is one that the count can follow. -/
def Counted (s : LiveState ε) : LiveInput → Prop
  | .bar bar => Live.Counted ops cfg bar s.world
  | _ => True

variable {ops cfg}

theorem step_watched (hmax : 0 < cfg.maxConsecLosses) {s : LiveState ε} {input : LiveInput}
    (h : Live.Watched cfg s.world) (hcounted : Counted ops cfg s input) : Live.Watched cfg (step ops cfg s input).world := by
  unfold step
  split
  · exact h
  · cases input with
    | bar bar =>
      dsimp only
      rw [onBar_world]
      exact Live.onCandle_watched hmax hcounted h
    | refresh balance positions => exact h.congr rfl rfl rfl
    | idle events =>
      obtain ⟨g, hg, hlimit, htallies⟩ := h.guard
      exact ⟨⟨g, hg, hlimit, htallies.applyEvents (Live.lossLimit_pos hmax) events⟩,
        fun hplain => h.logged (Live.audible_events events hplain)⟩

variable (ops cfg)

/-- **No entry after the losses.** The loop starts on a day on which no own trade was closed. If on every bar the
losing closes are reported and the count starts in time, and every own closing deal is plain, then no order that opens
a position is executed once the last own trades closed on the day, as many as the limit, have all lost. -/
theorem no_entry_after_losses (hmax : 0 < cfg.maxConsecLosses) (engine : ε) (server : Server)
    (hserver : ∀ d ∈ server.deals, ¬ Ledger.Closes cfg.broker.magic server.day d) (inputs : List LiveInput)
    (hcounted : StepsMeet (step ops cfg) (Counted ops cfg) (start cfg engine server) inputs)
    (hplain : Ledger.Audible (Live.lossLimit cfg) cfg.broker.magic
      (run (step ops cfg) (start cfg engine server) inputs).world.server.ledger) :
    ∀ s ∈ (run (step ops cfg) (start cfg engine server) inputs).world.sent,
      s.BeforeLosses (Live.lossLimit cfg) cfg.broker.magic := by
  have hstart : Live.Watched cfg (start cfg engine server).world := by
    refine ⟨⟨{ maxConsecutive := cfg.maxConsecLosses }, ?_, rfl, tallies_none (Live.lossLimit_pos hmax) hserver 0⟩,
      fun _ s hs => by cases hs⟩
    show (Live.start cfg engine).consec = _
    unfold Live.start
    rw [if_pos hmax.ne']
  exact (run_invariant (I := fun s => Live.Watched cfg s.world) (fun s input hs hc => step_watched hmax hs hc) hstart
    hcounted).logged hplain

/-! ### A day with a loss -/

/-- Another range after each trade. -/
def reentryConfig : OrbConfig :=
  ⟨{ rangeMinutes := 1, useRoc := false, atrPeriod := 1, oneTradePerSession := false, rearmAfterExit := true },
    by decide +kernel⟩

/-- One loss is enough. -/
def oneLossConfig : LiveConfig := { LiveConfig.default with maxConsecLosses := 1 }

/-- The request is executed; the deal brings this profit, and the history tells of it. -/
def dealt (profit : ℚ) : Reply :=
  { tick := some ⟨2004, 2005, 0⟩, send := { executes := true, answer := some { deal := 7 }, price := 2005, profit }
    deals := [(7, profit)] }

/-- A range, an ENTRY, what ends its trade, and another range with its breakout. -/
def reentryDay (ending : List LiveInput) : List LiveInput :=
  [answered (EngineRun.minuteBar 0 2000 2001 1999 2000) (dealt 0),
    answered (EngineRun.minuteBar 1 2002 2006 2001 2005) (dealt 0)] ++ ending ++
  [answered (EngineRun.minuteBar 3 2000 2001 1999 2000) (dealt 0),
    answered (EngineRun.minuteBar 4 2002 2006 2001 2005) (dealt 0)]

def onReentryDay (ending : List LiveInput) : LiveState OrbEngine :=
  run (step (orbOps reentryConfig) oneLossConfig) (start oneLossConfig (OrbEngine.init reentryConfig) {}) (reentryDay ending)

/-- The bot's EXIT loses 100. -/
def lossByExit : List LiveInput := [answered (EngineRun.minuteBar 2 2002 2002 1999 2000) (dealt (-100))]

/-- The server closes the position at a loss of 100; the EXIT of the next bar finds nothing. -/
def lossByServer : List LiveInput :=
  [.idle [.closed 1 (-100)], answered (EngineRun.minuteBar 2 2002 2002 1999 2000) (dealt 0)]

theorem dealt_reports (profit : ℚ) : Live.Reporting oneLossConfig fun _ => dealt profit := by
  have htaken : oneLossConfig.broker.taken (dealt profit).send.answer = some ⟨10009, 0, 7, 0, 0⟩ := rfl
  have htold : Mt5Broker.told 7 (dealt profit) = some profit := rfl
  refine fun k => ⟨fun _ hlost => ⟨_, htaken, profit, htold, hlost⟩, fun hkept out hout pnl hpnl => ?_⟩
  obtain rfl := Option.some.inj (htaken.symm.trans hout)
  obtain rfl := Option.some.inj (htold.symm.trans hpnl)
  exact hkept rfl

/-- Another bar of the day; its count starts with an empty ledger, or has started. -/
def Started (s : LiveState OrbEngine) : LiveInput → Prop
  | .bar bar =>
    date bar.candle.ts = s.world.server.day ∧
      ((exec (Live.feed (orbOps reentryConfig) oneLossConfig bar) s.world).2.server.deals = [] ∨
        (exec (Live.feed (orbOps reentryConfig) oneLossConfig bar) s.world).2.bot.consec.any
          (·.period ≠ some (date bar.candle.ts)) = false)
  | _ => True

instance (s : LiveState OrbEngine) : (input : LiveInput) → Decidable (s.Started input)
  | .bar _ => inferInstanceAs (Decidable (_ ∧ _))
  | .refresh .. | .idle .. => inferInstanceAs (Decidable True)

theorem counted_of_started {s : LiveState OrbEngine} {candle : RawCandle} {profit : ℚ}
    (h : s.Started (answered candle (dealt profit))) :
    Counted (orbOps reentryConfig) oneLossConfig s (answered candle (dealt profit)) := by
  obtain ⟨hday, hstarted⟩ := h
  refine ⟨dealt_reports profit, dealt_reports profit, dealt_reports profit, fun hother => absurd hday hother, ?_⟩
  intro v hreach hother
  rw [hreach] at hstarted
  rcases hstarted with hnone | hsame
  · refine Ledger.counts_none (by decide) (fun d hd => ?_) 0
    rw [Server.ledger, hnone] at hd
    cases hd
  · rw [hsame] at hother
    cases hother

/-- The bot's own losing EXIT: the second breakout opens nothing. -/
theorem no_entry_after_exit : (onReentryDay lossByExit).world.sent.length = 2 ∧
    ∀ s ∈ (onReentryDay lossByExit).world.sent, s.BeforeLosses 1 20260610 := by
  have hledger : (onReentryDay lossByExit).world.server.ledger = [⟨1, 20260610, -100, true, false, 0⟩] := by decide +kernel
  have hstarted : StepsMeet (step (orbOps reentryConfig) oneLossConfig) Started
      (start oneLossConfig (OrbEngine.init reentryConfig) {}) (reentryDay lossByExit) := by decide +kernel
  refine ⟨by decide +kernel, no_entry_after_losses (orbOps reentryConfig) oneLossConfig (by decide)
    (OrbEngine.init reentryConfig) {} (fun d hd => by cases hd) (reentryDay lossByExit) ?_ ?_⟩
  · obtain ⟨hrange, hentry, hexit, hrange', hentry', -⟩ := hstarted
    exact ⟨counted_of_started hrange, counted_of_started hentry, counted_of_started hexit, counted_of_started hrange',
      counted_of_started hentry', trivial⟩
  · show Ledger.Audible 1 20260610 (onReentryDay lossByExit).world.server.ledger
    rw [hledger]
    refine ⟨trivial, fun _ => ⟨fun hby => ?_, fun _ hpart => ?_, fun _ _ _ => ?_, fun _ _ => ?_⟩⟩
    · cases hby
    · cases hpart
    · norm_num
    · norm_num

/-- The server's close at a loss: the second breakout is executed. -/
theorem loss_by_server : ¬ ∀ s ∈ (onReentryDay lossByServer).world.sent, s.BeforeLosses 1 20260610 := by
  have hafter : ∃ s ∈ (onReentryDay lossByServer).world.sent, s.executed = true ∧ s.request.body.Enters ∧
      1 ≤ Ledger.losses 20260610 s.before.day s.before.ledger := by decide +kernel
  obtain ⟨s, hs, hexecuted, henters, hlosses⟩ := hafter
  exact fun h => h s hs hexecuted henters ⟨_, List.suffix_rfl, hlosses⟩

end LiveState

end FreqTrading
