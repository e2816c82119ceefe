import FreqTrading.Broker.Steps

/-!
# What was asked of the server

The log of requests only grows, so a request that was sent stays on record whatever comes after it.
`Asked n B w` says that since the log had `n` entries, a request with its body in `B` was sent. A `_send` always
sends its request, and a loop over positions or orders that returns has sent one for each.
-/

namespace FreqTrading

open Lib

variable {β α : Type} {w w' : World β}

theorem MtStep.grows {b : Mt5Broker β} {B : OrderBody → Prop} {E : BrokerEvent → Prop} (hstep : MtStep b B E w w') :
    w.sent <+: w'.sent := by
  cases hstep with
  | send r hbody => exact List.prefix_append _ _
  | read | pause | notify => exact List.prefix_rfl

theorem CallStep.grows {b : Mt5Broker β} {B : OrderBody → Prop} (hstep : CallStep b B w w') : w.sent <+: w'.sent := by
  cases hstep with
  | quiet hstep => exact hstep.grows
  | closing p volume reason =>
    exact (b.closePosition_steps p volume reason w).invariant (I := fun v => w.sent <+: v.sent)
      (fun _ _ hs hI => hI.trans hs.grows) List.prefix_rfl

/-- Since the log had `n` entries, a request in `B` was sent. -/
def Asked (n : Nat) (B : OrderBody → Prop) (w : World β) : Prop := ∃ s ∈ w.sent.drop n, B s.request.body

instance (n : Nat) (B : OrderBody → Prop) [DecidablePred B] (w : World β) : Decidable (Asked n B w) :=
  inferInstanceAs (Decidable (∃ s ∈ w.sent.drop n, B s.request.body))

variable {n : Nat} {B : OrderBody → Prop}

theorem Asked.mono (h : Asked n B w) (hgrow : w.sent <+: w'.sent) : Asked n B w' := by
  obtain ⟨s, hs, hB⟩ := h
  obtain ⟨later, hlater⟩ := hgrow
  refine ⟨s, ?_, hB⟩
  rw [← hlater, List.drop_append]
  exact List.mem_append_left _ hs

theorem asked_afterSend (hn : n ≤ w.sent.length) {r : OrderRequest} (hr : B r.body) : Asked n B (w.afterSend r) := by
  refine ⟨⟨w.settled, r, (w.outcome r).2.1, (w.outcome r).2.2⟩, ?_, hr⟩
  rw [afterSend_sent, List.drop_append_of_le_length hn]
  exact List.mem_append_right _ (List.mem_singleton.mpr rfl)

namespace Mt5Broker

variable (b : Mt5Broker β)

theorem grows_of_steps {x : Mt5 β α} {C : OrderBody → Prop} (h : StepsFrom (CallStep b C) x w) :
    Ensures x w fun _ v => w.sent <+: v.sent := by
  have hgrows := h.invariant (I := fun v => w.sent <+: v.sent) (fun _ _ hs hI => hI.trans hs.grows) List.prefix_rfl
  exact hgrows

theorem asked_of_steps {x : Mt5 β α} {C : OrderBody → Prop} (h : StepsFrom (MtStep b C fun _ => True) x w)
    (hasked : Asked n B w) : Ensures x w fun _ v => Asked n B v :=
  h.invariant (fun _ _ hs hI => hI.mono hs.grows) hasked

theorem send_asks {r : OrderRequest} (hn : n ≤ w.sent.length) (hr : B r.body) :
    Ensures (b.send r none false) w fun _ v => Asked n B v := by
  have hsent : Asked n B (w.afterSend r) := asked_afterSend hn hr
  have hattempt : Ensures (b.attempt none r) w fun _ v => Asked n B v := by
    unfold attempt
    rw [ensures_bind, ensures_orderSend, post_ok]
    cases succeeded (w.outcome r).2.2 <;> exact hsent
  have hraise : ∀ res v, Asked n B v → Ensures (b.raiseSendError (α := SendResult) res r) v fun _ v' => Asked n B v' :=
    fun res v hv => b.asked_of_steps (b.raiseSendError_steps (B := fun _ => True) res r v) hv
  unfold send
  cases b.retry with
  | none =>
    rw [ensures_bind, ensures_orderSend, post_ok]
    cases (w.outcome r).2.2 with
    | none => exact hraise none _ hsent
    | some res =>
      simp only
      split
      · exact hsent
      · exact hraise _ _ hsent
  | some pol =>
    unfold sendWithPolicy
    simp only [Bool.false_eq_true, if_false]
    cases pol.maxRetries with
    | zero =>
      unfold sendLoop
      refine Ensures.bind_keep hattempt (fun _ h => h) fun a v hv => ?_
      cases a with
      | done out => exact hv
      | failed action res => exact hraise res v hv
    | succ budget =>
      unfold sendLoop
      refine Ensures.bind_keep hattempt (fun _ h => h) fun a v hv => ?_
      cases a with
      | done out => exact hv
      | failed action res =>
        simp only
        split
        · exact hraise res v hv
        · have hrefresh : b.RefreshesIn (fun _ => True) (fun _ => True) v.env none := fun f hf => by cases hf
          have hprepare := (b.prepareRetry_steps pol action
            { request := r, waits := delays pol } hrefresh trivial).1
          refine Ensures.bind_keep (b.asked_of_steps hprepare hv) (fun _ h => h) fun st v' hv' => ?_
          have hrefresh' : b.RefreshesIn (fun _ => True) (fun _ => True) v'.env none := fun f hf => by cases hf
          exact b.asked_of_steps (b.sendLoop_steps none budget st hrefresh' trivial) hv'

theorem closePosition_asks (p : Position) (volume : ℚ) (reason : String) (hn : n ≤ w.sent.length)
    (htick : w.reply.tick.isSome = true) :
    Ensures (b.closePosition p volume reason) w fun _ v => Asked n (CloseBody p volume) v := by
  unfold closePosition
  rw [ensures_bind, ensures_symbolInfoTick, post_ok]
  obtain ⟨tick, heq⟩ := Option.isSome_iff_exists.mp htick
  rw [heq]
  refine (filling_reads w.afterRead).bind_total fun f w₂ hw₂ => ?_
  subst hw₂
  refine Ensures.bind_keep (b.send_asks (B := CloseBody p volume) hn ⟨rfl, rfl⟩) (fun _ h => h) fun res v hv => ?_
  split
  · refine Ensures.bind_keep (b.asked_of_steps (b.dealProfit_steps (B := fun _ => True) res.deal v) hv) (fun _ h => h)
      fun pnl v' hv' => ?_
    rw [ensures_bind]
    exact b.emit_rule fun _ => hv'
  · exact hv

theorem closeEach_asks (reason : String) (ps : List Position) (result : Option SendResult) (hn : n ≤ w.sent.length)
    (htick : ∀ k, (w.env k).tick.isSome = true) :
    Ensures (b.closeEach reason ps result) w
      (Post (fun _ v => ∀ p ∈ ps, Asked n (CloseBody p p.volume) v) fun _ _ => True) := by
  induction ps generalizing result w with
  | nil => exact fun p hp => by cases hp
  | cons p rest ih =>
    unfold closeEach
    have hsteps := b.closePosition_steps p p.volume reason w
    have hgrows := b.grows_of_steps (b.closing_steps (B := fun _ => False) p p.volume reason w)
    have henv : Ensures (b.closePosition p p.volume reason) w fun _ v => v.env = w.env := StepsFrom.env b hsteps
    have hasked := b.closePosition_asks p p.volume reason hn (htick w.calls)
    have hfirst : Ensures (b.closePosition p p.volume reason) w
        (Post (fun _ v => Asked n (CloseBody p p.volume) v ∧ w.sent <+: v.sent ∧ v.env = w.env) fun _ _ => True) :=
      (hasked.and (hgrows.and henv)).post (fun _ h => h) fun _ _ => trivial
    refine hfirst.bind fun res v hv => ?_
    have hrest := ih (w := v) (some res) (hn.trans hv.2.1.length_le) (by rw [hv.2.2]; exact htick)
    have hkeep := b.grows_of_steps (b.closeEach_steps (B := fun _ => False) reason rest (some res) v)
    refine (hrest.and hkeep).mono fun r u hu => ?_
    cases r with
    | error err => exact trivial
    | ok out =>
      intro q hq
      rcases List.mem_cons.mp hq with rfl | hq
      · exact hv.1.mono hu.2
      · exact hu.1 q hq

theorem removeEach_asks (reason : String) (orders : List PendingOrder) (hn : n ≤ w.sent.length) :
    Ensures (b.removeEach reason orders) w
      (Post (fun _ v => ∀ o ∈ orders, Asked n (fun body => body = .remove o.ticket) v) fun _ _ => True) := by
  induction orders generalizing w with
  | nil => exact fun o ho => by cases ho
  | cons o rest ih =>
    unfold removeEach
    have hasked := b.send_asks (w := w) (r := removeRequest o) (B := fun body => body = .remove o.ticket) hn rfl
    have hgrows := b.grows_of_steps (b.quiet_steps
      (b.send_plain_steps (r := removeRequest o) (B := fun _ => True) trivial) w)
    have hfirst : Ensures (b.send (removeRequest o) none false) w
        (Post (fun _ v => Asked n (fun body => body = .remove o.ticket) v ∧ w.sent <+: v.sent) fun _ _ => True) :=
      (hasked.and hgrows).post (fun _ h => h) fun _ _ => trivial
    refine hfirst.bind fun res v hv => ?_
    have hrest : ∀ u : World β, u.sent = v.sent → Ensures (b.removeEach reason rest >>= fun n => pure (n + 1)) u
        (Post (fun _ v' => ∀ q ∈ o :: rest, Asked n (fun body => body = .remove q.ticket) v') fun _ _ => True) := by
      intro u hu
      have hall := ih (w := u) (by rw [hu]; exact hn.trans hv.2.length_le)
      have hkeep := b.grows_of_steps (b.quiet_steps (b.removeEach_steps reason rest) u)
      have hboth : Ensures (b.removeEach reason rest) u
          (Post (fun _ v' => ∀ q ∈ o :: rest, Asked n (fun body => body = .remove q.ticket) v') fun _ _ => True) := by
        refine (hall.and hkeep).mono fun r v' hv' => ?_
        cases r with
        | error err => exact trivial
        | ok out =>
          intro q hq
          rcases List.mem_cons.mp hq with rfl | hq
          · exact hv.1.mono (hu ▸ hv'.2)
          · exact hv'.1 q hq
      exact hboth.bind fun _ _ h => h
    rw [ensures_bind]
    exact b.emit_rule fun _ => hrest _ rfl

theorem cancelPending_asks (hn : n ≤ w.sent.length) (hread : w.reply.readOk = true) :
    Ensures (b.cancelPending 0) w
      (Post (fun _ v => ∀ o ∈ w.settled.ownOrders b.magic, Asked n (fun body => body = .remove o.ticket) v)
        fun _ _ => True) := by
  have horders : w.settled.ownOrders b.magic = w.settled.orders.filter fun o =>
      o.magic = b.magic ∧ ¬ (none : Option Int).any fun t => t - o.timeSetup < 0 := by
    unfold Server.ownOrders
    exact List.filter_congr fun o _ => by simp
  unfold cancelPending ordersGet
  simp only [lt_irrefl, if_false]
  rw [ensures_bind, ensures_pure, post_ok, ensures_bind, ensures_readCall, post_ok, hread, if_pos rfl]
  rw [horders]
  exact (b.removeEach_asks (w := w.afterRead) "cancelled" _ hn).bind fun _ _ h => h

end Mt5Broker

end FreqTrading
