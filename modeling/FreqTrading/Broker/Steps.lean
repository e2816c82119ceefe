import FreqTrading.Broker.Rules

/-!
# What a broker method may do

A method reads, sends requests, pauses and gives events to the sink. `MtStep b B E` is one such step, with
the bodies of requests in `B` and the events in `E`; a method's lemma `…_steps` says which bodies it sends,
so a property kept by reads and by those requests is kept by the method. Only `closePosition` gives the sink
an event with a profit. `CallStep` therefore takes a whole `closePosition` as one step, between steps whose
events carry none, for properties that hold again only when the sink has heard of the close.
-/

namespace FreqTrading

open Lib

variable {β α : Type}

/-- One step of a method: a read, a request with its body in `B`, a pause, or an event in `E`. -/
inductive MtStep (b : Mt5Broker β) (B : OrderBody → Prop) (E : BrokerEvent → Prop) : World β → World β → Prop
  | read (w : World β) : MtStep b B E w w.afterRead
  | send (w : World β) (r : OrderRequest) (hbody : B r.body) : MtStep b B E w (w.afterSend r)
  | pause (w : World β) (delay : ℚ) : MtStep b B E w { w with slept := w.slept ++ [delay] }
  | notify (w : World β) (sink : BrokerEvent → β → β) (ev : BrokerEvent) (hsink : b.onEvent = some sink)
      (hev : E ev) : MtStep b B E w { w with bot := sink ev w.bot }

/-- An event without a profit. -/
def BrokerEvent.Quiet (ev : BrokerEvent) : Prop := ev.pnl = none

/-- A step without news of a profit, or a whole `_close_position`. -/
inductive CallStep (b : Mt5Broker β) (B : OrderBody → Prop) : World β → World β → Prop
  | quiet {w w' : World β} (hstep : MtStep b B BrokerEvent.Quiet w w') : CallStep b B w w'
  | closing (w : World β) (p : Position) (volume : ℚ) (reason : String) :
      CallStep b B w (exec (b.closePosition p volume reason) w).2

theorem MtStep.mono {b : Mt5Broker β} {B B' : OrderBody → Prop} {E E' : BrokerEvent → Prop} {w w' : World β}
    (h : MtStep b B E w w') (hB : ∀ body, B body → B' body) (hE : ∀ ev, E ev → E' ev) : MtStep b B' E' w w' := by
  cases h with
  | read => exact .read w
  | send r hbody => exact .send w r (hB _ hbody)
  | pause delay => exact .pause w delay
  | notify sink ev hsink hev => exact .notify w sink ev hsink (hE _ hev)

theorem MtStep.env {b : Mt5Broker β} {B : OrderBody → Prop} {E : BrokerEvent → Prop} {w w' : World β}
    (h : MtStep b B E w w') : w'.env = w.env := by
  cases h <;> rfl

/-! ### Calls -/

section Calls

variable (b : Mt5Broker β) {B : OrderBody → Prop} {E : BrokerEvent → Prop}

theorem readCall_steps (f : Reply → Server → α) : Steps (MtStep b B E) (readCall f) :=
  fun w => .single (.read w)

theorem orderSend_steps (r : OrderRequest) (hbody : B r.body) : Steps (MtStep b B E) (orderSend r) :=
  fun w => .single (.send w r hbody)

end Calls

namespace Mt5Broker

variable (b : Mt5Broker β) {B : OrderBody → Prop} {E : BrokerEvent → Prop}

theorem sleep_steps (delay : ℚ) : Steps (MtStep b B E) (sleep delay) := fun w => .single (.pause w delay)

theorem emit_steps (ev : BrokerEvent) (hev : E ev) : Steps (MtStep b B E) (b.emit ev) := by
  intro w
  unfold emit
  cases hsink : b.onEvent with
  | none => exact .pure _
  | some sink => exact .single (.notify w sink ev hsink hev)

theorem myPositions_steps : Steps (MtStep b B E) b.myPositions :=
  .bind (readCall_steps b _) fun _ => .pure _

theorem hasPosition_steps : Steps (MtStep b B E) b.hasPosition :=
  .bind b.myPositions_steps fun _ => .pure _

theorem hasPending_steps : Steps (MtStep b B E) b.hasPending :=
  .bind (readCall_steps b _) fun _ => .pure _

theorem balance_steps : Steps (MtStep b B E) (balance (β := β)) := by
  refine .bind (readCall_steps b _) fun answer => ?_
  cases answer with
  | none => exact .throw _
  | some x => exact .pure _

theorem symbolSpecs_steps : Steps (MtStep b B E) b.symbolSpecs := by
  refine .bind (readCall_steps b _) fun info => ?_
  cases info with
  | none => exact .throw _
  | some info => exact .pure _

theorem noTick_steps : Steps (MtStep b B E) (b.noTick (α := α)) :=
  .bind (readCall_steps b _) fun _ => .throw _

theorem currentSpread_steps : Steps (MtStep b B E) b.currentSpread := by
  refine .bind (readCall_steps b _) fun tick => ?_
  cases tick with
  | none => exact b.noTick_steps
  | some tick => exact .pure _

theorem dealProfit_steps (deal : Nat) : Steps (MtStep b B E) (dealProfit deal) := by
  intro w
  unfold dealProfit
  split
  · exact .pure _
  · refine (readCall_steps b _ w).bind fun deals w' _ => ?_
    cases deals.find? (·.1 = deal) <;> exact .pure _

theorem filling_steps : Steps (MtStep b B E) (filling (β := β)) := by
  refine .bind (readCall_steps b _) fun info => ?_
  cases info with
  | none => exact .pure _
  | some info =>
    simp only
    split
    · exact .pure _
    · split <;> exact .pure _

theorem roundVolume_steps (qty : ℚ) : Steps (MtStep b B E) (roundVolume (β := β) qty) :=
  .bind (readCall_steps b _) fun _ => .pure _

/-! ### Sending -/

theorem raiseSendError_steps (res : Option OrderResult) (r : OrderRequest) :
    Steps (MtStep b B E) (b.raiseSendError (α := α) res r) := by
  cases res with
  | none => exact .bind (readCall_steps b _) fun _ => .throw _
  | some _ => exact .throw _

theorem attempt_steps (guard : Option (List Nat)) (r : OrderRequest) (hbody : B r.body) :
    Steps (MtStep b B E) (b.attempt guard r) := by
  refine .bind (orderSend_steps b r hbody) fun res => ?_
  cases succeeded res with
  | some out => exact .pure _
  | none =>
    cases guard with
    | none => exact .pure _
    | some before =>
      simp only
      split
      · refine .bind (.bind b.myPositions_steps fun _ => .pure _) fun found => ?_
        cases found <;> exact .pure _
      · exact .pure _

variable {refresh : Option (OrderRequest → Mt5 β OrderRequest)} {pol : RetryPolicy}

/-- Refreshing a request keeps its body in `B`, in a world with these replies. -/
def RefreshesIn (B : OrderBody → Prop) (E : BrokerEvent → Prop) (env : Nat → Reply)
    (refresh : Option (OrderRequest → Mt5 β OrderRequest)) : Prop :=
  ∀ f ∈ refresh, ∀ (r : OrderRequest) (w : World β), w.env = env → B r.body →
    StepsFrom (MtStep b B E) (f r) w ∧ ∀ r' w', exec (f r) w = (.ok r', w') → B r'.body

theorem StepsFrom.env {x : Mt5 β α} {w : World β} (h : StepsFrom (MtStep b B E) x w) :
    (exec x w).2.env = w.env :=
  h.invariant (fun _ _ hstep heq => hstep.env.trans heq) rfl

theorem env_of_exec {x : Mt5 β α} {w w' : World β} {r : Except Failure α} (h : StepsFrom (MtStep b B E) x w)
    (hexec : exec x w = (r, w')) : w'.env = w.env := by
  have henv := StepsFrom.env b h
  rwa [hexec] at henv

theorem backOff_steps (st : Retry) : Steps (MtStep b B E) (backOff (β := β) pol st) := by
  unfold backOff
  simp only
  split
  · exact .bind (b.sleep_steps _) fun _ => .pure _
  · exact .pure _

theorem prepareRetry_steps (pol : RetryPolicy) (action : PolicyAction) (st : Retry) {w : World β}
    (hrefresh : b.RefreshesIn B E w.env refresh) (hst : B st.request.body) :
    StepsFrom (MtStep b B E) (prepareRetry pol refresh action st) w ∧
      ∀ st' w', exec (prepareRetry pol refresh action st) w = (.ok st', w') → B st'.request.body := by
  have hback : StepsFrom (MtStep b B E) (backOff pol st) w ∧
      ∀ st' w', exec (backOff (β := β) pol st) w = (.ok st', w') → B st'.request.body := by
    refine ⟨b.backOff_steps st w, fun st' w' hexec => ?_⟩
    have hpost : Ensures (backOff pol st) w (Post (fun st' _ => st'.request = st.request ∧ True) fun _ _ => False) :=
      backOff_rule (I := fun _ => True) (fun _ _ _ => trivial) st trivial
    unfold Ensures at hpost
    rw [hexec] at hpost
    exact hpost.1 ▸ hst
  unfold prepareRetry
  cases action with
  | rotateFilling =>
    refine ⟨.pure _, fun st' w' hexec => ?_⟩
    cases hexec
    exact hst
  | retryFreshPrice =>
    cases hf : refresh with
    | none =>
      refine ⟨.pure _, fun st' w' hexec => ?_⟩
      cases hexec
      exact hst
    | some f =>
      obtain ⟨hsteps, hbody⟩ := hrefresh f hf st.request w rfl hst
      refine ⟨hsteps.bind fun _ _ _ => .pure _, fun st' w' hexec => ?_⟩
      simp only [exec_bind] at hexec
      rcases hrun : exec (f st.request) w with ⟨r, w₁⟩
      rw [hrun] at hexec
      cases r with
      | ok r' =>
        cases hexec
        exact hbody r' _ hrun
      | error err => cases hexec
  | success | successPartial | retryBackoff | ambiguous | deferLadder | abort | abortAlert => exact hback

theorem sendLoop_steps (guard : Option (List Nat)) (budget : Nat) (st : Retry) {w : World β}
    (hrefresh : b.RefreshesIn B E w.env refresh) (hst : B st.request.body) :
    StepsFrom (MtStep b B E) (b.sendLoop pol refresh guard budget st) w := by
  induction budget generalizing st w with
  | zero =>
    unfold sendLoop
    refine (b.attempt_steps guard st.request hst w).bind fun a w' _ => ?_
    cases a with
    | done out => exact .pure _
    | failed action res => exact b.raiseSendError_steps res st.request w'
  | succ budget ih =>
    unfold sendLoop
    have hattempt := b.attempt_steps (E := E) guard st.request hst w
    refine hattempt.bind fun a w' hexec => ?_
    cases a with
    | done out => exact .pure _
    | failed action res =>
      simp only
      split
      · exact b.raiseSendError_steps res st.request w'
      · have henv := b.env_of_exec hattempt hexec
        obtain ⟨hsteps, hbody⟩ := b.prepareRetry_steps pol action st (henv ▸ hrefresh) hst
        refine hsteps.bind fun st' w'' hexec' => ih st' ?_ (hbody st' w'' hexec')
        rw [b.env_of_exec hsteps hexec', henv]
        exact hrefresh

theorem send_steps {r : OrderRequest} (entryGuard : Bool) {w : World β}
    (hrefresh : b.RefreshesIn B E w.env refresh) (hbody : B r.body) :
    StepsFrom (MtStep b B E) (b.send r refresh entryGuard) w := by
  unfold send
  cases b.retry with
  | none =>
    refine (orderSend_steps b r hbody w).bind fun res w' _ => ?_
    cases res with
    | none => exact b.raiseSendError_steps none r w'
    | some res =>
      simp only
      split
      · exact .pure _
      · exact b.raiseSendError_steps _ r w'
  | some pol =>
    unfold sendWithPolicy
    simp only
    split
    · have hmine := b.myPositions_steps (B := B) (E := E) w
      refine hmine.bind fun mine w' hexec => b.sendLoop_steps _ _ _ ?_ hbody
      rw [b.env_of_exec hmine hexec]
      exact hrefresh
    · exact b.sendLoop_steps _ _ _ hrefresh hbody

theorem send_plain_steps {r : OrderRequest} (hbody : B r.body) : Steps (MtStep b B E) (b.send r none false) :=
  fun _ => b.send_steps false (fun _ hf => by cases hf) hbody

/-! ### Entries -/

/-- A market order of `sig`, at a price in `P` and with the stop at the signal's distance from it, for at most
the wanted quantity. -/
def EntryBody (sig : Signal) (P : ℚ → Prop) : OrderBody → Prop
  | .entry dir volume price sl _ _ magic _ =>
    dir = sig.direction ∧ volume ≤ b.wantedQty sig ∧ P price ∧ sl = roundPrice (anchoredSl sig price) ∧
      magic = b.magic
  | _ => False

/-- The side of every quote in these replies at which `sig` is filled is in `P`. -/
def QuotesIn (sig : Signal) (P : ℚ → Prop) (env : Nat → Reply) : Prop :=
  ∀ k, ∀ tick ∈ (env k).tick, P (quote sig.direction tick)

theorem anchoredSl_unset {sig : Signal} (h : sig.stop = none ∨ sig.stop = some 0) (price price' : ℚ) :
    anchoredSl sig price = anchoredSl sig price' := by
  unfold anchoredSl anchored
  rcases h with h | h <;> simp [h]

theorem reanchored_entryBody (sig : Signal) {P : ℚ → Prop} {px : ℚ} (hprice : P px) {body : OrderBody}
    (hbody : b.EntryBody sig P body) : b.EntryBody sig P (b.reanchored sig px body) := by
  cases body with
  | entry dir volume price sl tp deviation magic comment =>
    obtain ⟨hdir, hvol, -, hsl, hmagic⟩ := hbody
    refine ⟨hdir, hvol, hprice, ?_, hmagic⟩
    cases hstop : sig.stop with
    | none => exact hsl.trans (congrArg roundPrice (anchoredSl_unset (Or.inl hstop) _ _))
    | some x =>
      simp only
      split
      · next hx =>
        exact hsl.trans (congrArg roundPrice (anchoredSl_unset (Or.inr (hx ▸ hstop)) _ _))
      · rfl
  | close | pending | sltp | remove => exact hbody.elim

theorem refreshed_entryBody (sig : Signal) {P : ℚ → Prop} {w : World β} (hquotes : QuotesIn sig P w.env)
    {r : OrderRequest} (hbody : b.EntryBody sig P r.body) : b.EntryBody sig P (b.refreshed sig w.reply r).body := by
  unfold refreshed
  cases htick : w.reply.tick with
  | none => exact hbody
  | some tick => exact b.reanchored_entryBody sig (hquotes w.calls tick htick) hbody

theorem refreshEntry_refreshes (sig : Signal) {P : ℚ → Prop} {env : Nat → Reply} (hquotes : QuotesIn sig P env) :
    b.RefreshesIn (b.EntryBody sig P) E env (some (b.refreshEntry sig)) := by
  intro f hf r w henv hbody
  obtain rfl : b.refreshEntry sig = f := by simpa using hf
  constructor
  · unfold refreshEntry
    refine (readCall_steps b _ w).bind fun tick w' _ => ?_
    cases tick with
    | none => exact .pure _
    | some tick => cases r.body <;> exact .pure _
  · intro r' w' hexec
    rw [b.exec_refreshEntry] at hexec
    cases hexec
    exact b.refreshed_entryBody sig (henv ▸ hquotes) hbody

theorem openLadder_steps (sig : Signal) {P : ℚ → Prop} {price : ℚ} (hprice : P price) (lastErr : Failure)
    (volumes : List ℚ) (hvol : ∀ v ∈ volumes, v ≤ b.wantedQty sig) {w : World β}
    (hquotes : QuotesIn sig P w.env) :
    StepsFrom (MtStep b (b.EntryBody sig P) BrokerEvent.Quiet) (b.openLadder sig price lastErr volumes) w := by
  induction volumes generalizing lastErr w with
  | nil => exact .throw _
  | cons vol rest ih =>
    unfold openLadder
    have hfill := b.filling_steps (B := b.EntryBody sig P) (E := BrokerEvent.Quiet) w
    refine hfill.bind fun f w₁ h₁ => ?_
    have henv₁ := b.env_of_exec hfill h₁
    have hbody : b.EntryBody sig P (b.entryRequest sig price vol f).body :=
      ⟨rfl, hvol vol List.mem_cons_self, hprice, rfl, rfl⟩
    have hsend := b.send_steps (E := BrokerEvent.Quiet) true (w := w₁)
      (b.refreshEntry_refreshes sig (henv₁ ▸ hquotes)) hbody
    have htry : StepsFrom (MtStep b (b.EntryBody sig P) BrokerEvent.Quiet)
        (tryCatch (do
          let res ← b.send (b.entryRequest sig price vol f) (some (b.refreshEntry sig)) true
          return .ok res) (fun err => return .error err) : Mt5 β (Except Failure SendResult)) w₁ :=
      .tryCatch (hsend.bind fun _ _ _ => .pure _) fun _ _ _ => .pure _
    refine htry.bind fun sent w₂ h₂ => ?_
    have henv₂ := (b.env_of_exec htry h₂).trans henv₁
    cases sent with
    | ok res =>
      exact (b.emit_steps (E := BrokerEvent.Quiet) ⟨.open', some sig.reason, none⟩ rfl w₂).bind fun _ _ _ => .pure _
    | error err =>
      cases err with
      | other => exact .throw _
      | broker text =>
        simp only
        split
        · exact ih (.broker text) (fun v hv => hvol v (List.mem_cons_of_mem _ hv)) (henv₂ ▸ hquotes)
        · exact .throw _

theorem mem_ladder_le {want v : ℚ} (h : v ∈ ladder want) : v ≤ want := by
  rcases List.mem_cons.mp h with rfl | h
  · exact le_rfl
  · exact le_of_lt (by simpa using (List.mem_filter.mp h).2)

theorem openMarket_steps (sig : Signal) {P : ℚ → Prop} {w : World β} (hquotes : QuotesIn sig P w.env) :
    StepsFrom (MtStep b (b.EntryBody sig P) BrokerEvent.Quiet) (b.openMarket sig) w := by
  unfold openMarket
  refine (readCall_steps b _ w).bind fun tick w' hexec => ?_
  obtain ⟨htick, rfl⟩ : w.reply.tick = tick ∧ w.afterRead = w' := by simpa using hexec
  cases tick with
  | none => exact b.noTick_steps _
  | some tick =>
    exact b.openLadder_steps sig (hquotes w.calls tick htick) _ _ (fun v => mem_ladder_le) hquotes

/-- A limit order of `sig` for the wanted quantity. -/
def LegBody (sig : Signal) : OrderBody → Prop
  | .pending dir volume _ _ _ magic _ => dir = sig.direction ∧ volume = b.wantedQty sig ∧ magic = b.magic
  | _ => False

theorem placeLegs_steps (sig : Signal) (d : ℚ) (legs : List (String × ℚ)) (result : Option SendResult) :
    Steps (MtStep b (b.LegBody sig) BrokerEvent.Quiet) (b.placeLegs sig d legs result) := by
  induction legs generalizing result with
  | nil => exact .pure _
  | cons leg rest ih =>
    unfold placeLegs
    exact .bind (b.send_plain_steps ⟨rfl, rfl, rfl⟩) fun res => .bind (b.emit_steps _ rfl) fun _ => ih (some res)

theorem openLimit_steps (sig : Signal) :
    Steps (MtStep b (b.LegBody sig) BrokerEvent.Quiet) (b.openLimit sig) := by
  unfold openLimit
  cases sig.stop with
  | none => exact .throw _
  | some stop => exact b.placeLegs_steps _ _ _ _

end Mt5Broker

/-- An order that opens a position, now or when its price is reached. -/
def OrderBody.Enters : OrderBody → Prop
  | .entry .. | .pending .. => True
  | _ => False

/-- The volume it opens with. -/
def OrderBody.opened : OrderBody → Option ℚ
  | .entry _ volume .. | .pending _ volume .. => some volume
  | _ => none

instance : DecidablePred OrderBody.Enters
  | .entry .. | .pending .. => isTrue trivial
  | .close .. | .sltp .. | .remove .. => isFalse id

namespace Mt5Broker

variable (b : Mt5Broker β) {B : OrderBody → Prop} {E : BrokerEvent → Prop}

/-- An order that opens a position with at most the wanted quantity. -/
def OpenBody (sig : Signal) (body : OrderBody) : Prop :=
  body.Enters ∧ ∀ volume ∈ body.opened, volume ≤ b.wantedQty sig

theorem openBody_of_entry {sig : Signal} {P : ℚ → Prop} {body : OrderBody} (h : b.EntryBody sig P body) :
    b.OpenBody sig body := by
  cases body with
  | entry =>
    refine ⟨trivial, fun volume hvolume => ?_⟩
    cases hvolume
    exact h.2.1
  | close | pending | sltp | remove => exact h.elim

theorem openBody_of_leg {sig : Signal} {body : OrderBody} (h : b.LegBody sig body) : b.OpenBody sig body := by
  cases body with
  | pending =>
    refine ⟨trivial, fun volume hvolume => ?_⟩
    cases hvolume
    exact h.2.1.le
  | close | entry | sltp | remove => exact h.elim

theorem open_steps (sig : Signal) : Steps (MtStep b (b.OpenBody sig) BrokerEvent.Quiet) (b.open' sig) := by
  unfold open'
  split
  · exact fun w => (b.openLimit_steps sig w).mono fun _ _ hstep => hstep.mono (fun _ => b.openBody_of_leg) fun _ h => h
  · refine .bind (fun w => ?_) fun res => .pure _
    have hquotes : QuotesIn sig (fun _ => True) w.env := fun _ _ _ => trivial
    exact (b.openMarket_steps sig hquotes).mono fun _ _ hstep => hstep.mono (fun _ => b.openBody_of_entry) fun _ h => h

/-! ### Modifications and cancellations -/


/-- A new stop `sl` for a position. -/
def StopBody (sl : ℚ) : OrderBody → Prop
  | .sltp _ newSl _ => newSl = roundPrice sl
  | _ => False

def RemoveBody : OrderBody → Prop
  | .remove _ => True
  | _ => False

end Mt5Broker

/-- A new stop, or a cancellation. -/
def OrderBody.Amends : OrderBody → Prop
  | .sltp .. | .remove .. => True
  | _ => False

namespace Mt5Broker

variable (b : Mt5Broker β) {B : OrderBody → Prop} {E : BrokerEvent → Prop}

theorem amends_of_stop {sl : ℚ} {body : OrderBody} (h : StopBody sl body) : body.Amends := by
  cases body with
  | sltp => trivial
  | close | pending | entry | remove => exact h.elim

theorem amends_of_remove {body : OrderBody} (h : RemoveBody body) : body.Amends := by
  cases body with
  | remove => trivial
  | close | pending | entry | sltp => exact h.elim

theorem modifySl_steps (ticket : Nat) (sl : ℚ) :
    Steps (MtStep b (StopBody sl) BrokerEvent.Quiet) (b.modifySl ticket sl) := by
  refine .bind b.myPositions_steps fun mine => ?_
  cases mine.find? (·.ticket = ticket) with
  | none => exact .pure _
  | some p =>
    simp only
    split
    · exact .pure _
    · exact .bind (b.send_plain_steps rfl) fun _ => .bind (b.emit_steps _ rfl) fun _ => .pure _

theorem updateEach_steps (sl : ℚ) (ps : List Position) (result : Option SendResult) :
    Steps (MtStep b (StopBody sl) BrokerEvent.Quiet) (b.updateEach sl ps result) := by
  induction ps generalizing result with
  | nil => exact .pure _
  | cons p rest ih =>
    unfold updateEach
    split
    · exact ih result
    · exact .bind (b.send_plain_steps rfl) fun res => .bind (b.emit_steps _ rfl) fun _ => ih (some res)

theorem updateStop_steps (sl : ℚ) : Steps (MtStep b (StopBody sl) BrokerEvent.Quiet) (b.updateStop sl) :=
  .bind b.myPositions_steps fun _ => b.updateEach_steps sl _ _

theorem removeEach_steps (reason : String) (orders : List PendingOrder) :
    Steps (MtStep b RemoveBody BrokerEvent.Quiet) (b.removeEach reason orders) := by
  induction orders with
  | nil => exact .pure _
  | cons o rest ih =>
    unfold removeEach
    exact .bind (b.send_plain_steps trivial) fun _ =>
      .bind (b.emit_steps _ rfl) fun _ => .bind ih fun _ => .pure _

theorem cancelExpired_steps (maxAgeSec : Int) :
    Steps (MtStep b RemoveBody BrokerEvent.Quiet) (b.cancelExpired maxAgeSec) := by
  refine .bind (readCall_steps b _) fun tick => ?_
  cases tick with
  | none => exact .pure _
  | some tick => exact .bind (readCall_steps b _) fun _ => b.removeEach_steps _ _

theorem cancelPending_steps (minAgeSec : Int) :
    Steps (MtStep b RemoveBody BrokerEvent.Quiet) (b.cancelPending minAgeSec) := by
  unfold cancelPending
  split
  · exact .bind (readCall_steps b _) fun _ => .bind (.pure _) fun _ =>
      .bind (readCall_steps b _) fun _ => .bind (b.removeEach_steps _ _) fun _ => .pure _
  · exact .bind (.pure _) fun _ =>
      .bind (readCall_steps b _) fun _ => .bind (b.removeEach_steps _ _) fun _ => .pure _

/-! ### Closes -/

/-- A deal that closes `volume` of the position. -/
def CloseBody (p : Position) (volume : ℚ) : OrderBody → Prop
  | .close _ v ticket _ _ _ _ => v = volume ∧ ticket = p.ticket
  | _ => False

instance (p : Position) (volume : ℚ) : DecidablePred (CloseBody p volume)
  | .close .. => inferInstanceAs (Decidable (_ ∧ _))
  | .entry .. => isFalse id
  | .pending .. => isFalse id
  | .sltp .. => isFalse id
  | .remove .. => isFalse id

theorem closePosition_steps (p : Position) (volume : ℚ) (reason : String) :
    Steps (MtStep b (CloseBody p volume) fun _ => True) (b.closePosition p volume reason) := by
  unfold closePosition
  refine .bind (readCall_steps b _) fun tick => ?_
  cases tick with
  | none => exact .throw _
  | some tick =>
    refine .bind b.filling_steps fun f => .bind (b.send_plain_steps ⟨rfl, rfl⟩) fun res => ?_
    split
    · exact .bind (b.dealProfit_steps _) fun _ => .bind (b.emit_steps _ trivial) fun _ => .pure _
    · exact .pure _

theorem quiet_steps {x : Mt5 β α} (h : Steps (MtStep b B BrokerEvent.Quiet) x) : Steps (CallStep b B) x :=
  fun w => (h w).mono fun _ _ hstep => .quiet hstep

theorem closing_steps (p : Position) (volume : ℚ) (reason : String) :
    Steps (CallStep b B) (b.closePosition p volume reason) :=
  fun w => .single (.closing w p volume reason)

theorem closeEach_steps (reason : String) (ps : List Position) (result : Option SendResult) :
    Steps (CallStep b B) (b.closeEach reason ps result) := by
  induction ps generalizing result with
  | nil => exact .pure _
  | cons p rest ih => exact .bind (b.closing_steps _ _ _) fun res => ih (some res)

theorem closeAll_steps (reason : String) : Steps (CallStep b B) (b.closeAll reason) :=
  .bind (b.quiet_steps b.myPositions_steps) fun _ => b.closeEach_steps _ _ _

theorem closeTicket_steps (ticket : Nat) (volume : ℚ) : Steps (CallStep b B) (b.closeTicket ticket volume) := by
  refine .bind (b.quiet_steps b.myPositions_steps) fun mine => ?_
  cases mine.find? (·.ticket = ticket) with
  | none => exact .pure _
  | some p =>
    refine .bind (b.quiet_steps (b.roundVolume_steps _)) fun vol => ?_
    split
    · exact .pure _
    · exact .bind (b.closing_steps _ _ _) fun _ => .pure _

theorem exitVolume_steps (sig : Signal) (p : Position) :
    Steps (MtStep b B E) (exitVolume (β := β) sig p) := by
  unfold exitVolume
  cases sig.qty with
  | none => exact .pure _
  | some qty =>
    simp only
    split
    · exact .bind (b.roundVolume_steps _) fun _ => .pure _
    · exact .pure _

theorem closeMine_steps (sig : Signal) (ps : List Position) (result : Option SendResult) :
    Steps (CallStep b B) (b.closeMine sig ps result) := by
  induction ps generalizing result with
  | nil => exact .pure _
  | cons p rest ih =>
    unfold closeMine
    refine .bind (b.quiet_steps (b.exitVolume_steps sig p)) fun volume => ?_
    cases volume with
    | none => exact .pure _
    | some volume => exact .bind (b.closing_steps _ _ _) fun res => ih (some res)

theorem close_steps (sig : Signal) : Steps (CallStep b B) (b.close sig) := by
  unfold close
  cases b.entryMode with
  | limit => exact .pure _
  | market => exact .bind (b.quiet_steps b.myPositions_steps) fun _ => b.closeMine_steps sig _ _

end Mt5Broker

theorem CallStep.env {b : Mt5Broker β} {B : OrderBody → Prop} {w w' : World β} (hstep : CallStep b B w w') :
    w'.env = w.env := by
  cases hstep with
  | quiet hstep => exact hstep.env
  | closing p volume reason => exact Mt5Broker.StepsFrom.env b (b.closePosition_steps p volume reason w)

end FreqTrading
