import FreqTrading.Broker.Mt5

/-!
# Rules for broker programs

The postcondition rules of the terminal's calls, of the adapter's small reads, and of the retry loop.
-/

namespace FreqTrading

open Lib

variable {β α : Type}

/-! ### Calls -/

section Calls

variable {w : World β}

@[simp] theorem ensures_readCall {f : Reply → Server → α} {Q : Except Failure α → World β → Prop} :
    Ensures (readCall f) w Q ↔ Q (.ok (f w.reply w.settled)) w.afterRead := Iff.rfl

@[simp] theorem ensures_symbolInfoTick {Q : Except Failure (Option Tick) → World β → Prop} :
    Ensures symbolInfoTick w Q ↔ Q (.ok w.reply.tick) w.afterRead := Iff.rfl

@[simp] theorem ensures_orderSend {request : OrderRequest}
    {Q : Except Failure (Option OrderResult) → World β → Prop} :
    Ensures (orderSend request) w Q ↔ Q (.ok (w.outcome request).2.2) (w.afterSend request) := Iff.rfl

@[simp] theorem ensures_brokerError {text : String} {Q : Except Failure α → World β → Prop} :
    Ensures (Mt5Broker.brokerError text) w Q ↔ Q (.error (.broker text)) w := Iff.rfl

@[simp] theorem exec_readCall (f : Reply → Server → α) :
    exec (readCall f) w = (.ok (f w.reply w.settled), w.afterRead) := rfl

@[simp] theorem afterRead_env : w.afterRead.env = w.env := rfl
@[simp] theorem afterRead_calls : w.afterRead.calls = w.calls + 1 := rfl
@[simp] theorem afterRead_sent : w.afterRead.sent = w.sent := rfl
@[simp] theorem afterRead_server : w.afterRead.server = w.settled := rfl
@[simp] theorem afterSend_env (r : OrderRequest) : (w.afterSend r).env = w.env := rfl
@[simp] theorem afterSend_calls (r : OrderRequest) : (w.afterSend r).calls = w.calls + 1 := rfl
@[simp] theorem afterSend_server (r : OrderRequest) : (w.afterSend r).server = (w.outcome r).1 := rfl

@[simp] theorem afterSend_sent (r : OrderRequest) :
    (w.afterSend r).sent = w.sent ++ [⟨w.settled, r, (w.outcome r).2.1, (w.outcome r).2.2⟩] := rfl

theorem outcome_not_executed {r : OrderRequest} (h : (w.outcome r).2.1 = false) : (w.outcome r).1 = w.settled := by
  unfold World.outcome at *
  split
  · next hex =>
    rw [if_pos hex] at h
    split at h
    · cases h
    · simp only
  · rfl

theorem outcome_executed {r : OrderRequest} (h : (w.outcome r).2.1 = true) :
    w.reply.send.executes = true ∧ (w.outcome r).2.2 = w.reply.send.answer ∧
      w.settled.perform w.reply.send.partly w.reply.send.price w.reply.send.profit r.body =
        some (w.outcome r).1 := by
  unfold World.outcome at *
  by_cases hex : w.reply.send.executes = true
  · simp only [if_pos hex] at *
    split at h
    · next server hserver => simp only [hserver, hex, and_self]
    · cases h
  · rw [if_neg hex] at h
    cases h

end Calls

namespace Mt5Broker

variable (b : Mt5Broker β)

/-- What `my_positions` sees: the positions with the broker's magic number, or nothing if the read fails. -/
def seen (w : World β) : List Position := if w.reply.readOk then w.settled.own b.magic else []

@[simp] theorem ensures_myPositions {w : World β} {Q : Except Failure (List Position) → World β → Prop} :
    Ensures b.myPositions w Q ↔ Q (.ok (b.seen w)) w.afterRead := by
  unfold seen
  cases h : w.reply.readOk <;>
    (unfold myPositions positionsGet; simp only [ensures_bind, ensures_readCall, post_ok, ensures_pure, h]; rfl)

theorem emit_rule {ev : BrokerEvent} {w : World β} {Q : Except Failure PUnit → World β → Prop}
    (h : ∀ f : β → β, Q (.ok ⟨⟩) { w with bot := f w.bot }) : Ensures (b.emit ev) w Q := by
  unfold emit
  cases b.onEvent with
  | none => exact h id
  | some sink => exact h (sink ev)

theorem filling_reads (w : World β) : Ensures filling w (Post (fun _ w' => w' = w.afterRead) fun _ _ => False) := by
  unfold filling symbolInfo
  rw [ensures_bind, ensures_readCall, post_ok]
  cases w.reply.info with
  | none => rfl
  | some info =>
    simp only
    split
    · rfl
    · split <;> rfl

theorem dealProfit_reads (deal : Nat) (w : World β) :
    Ensures (dealProfit deal) w (Post (fun _ w' => w' = w ∨ w' = w.afterRead) fun _ _ => False) := by
  unfold dealProfit historyDealsGet
  split
  · exact Or.inl rfl
  · rw [ensures_bind, ensures_readCall, post_ok]
    cases w.reply.deals.find? (·.1 = deal) <;> exact Or.inr rfl

theorem roundVolume_reads (qty : ℚ) (w : World β) :
    Ensures (roundVolume qty) w (Post (fun v w' => v = snapVolume (stepOf w.reply.info) qty ∧ w' = w.afterRead)
      fun _ _ => False) := by
  unfold roundVolume symbolInfo
  rw [ensures_bind, ensures_readCall, post_ok]
  exact ⟨rfl, rfl⟩

/-! ### `_refresh` -/

/-- The body of a request, re-anchored to the price `px`. -/
def reanchored (sig : Signal) (px : ℚ) : OrderBody → OrderBody
  | .entry dir volume _ sl tp deviation magic comment =>
    let sl := match sig.stop with
      | none => sl
      | some x => if x = 0 then sl else roundPrice (anchoredSl sig px)
    let tp := match sig.tp with
      | none => tp
      | some x => if x = 0 ∨ ¬ b.serverTp then tp else roundPrice (b.anchoredTp sig px)
    .entry dir volume px sl tp deviation magic comment
  | body => body

/-- The request that `_refresh` makes of `request` with this reply to its read. -/
def refreshed (sig : Signal) (reply : Reply) (request : OrderRequest) : OrderRequest :=
  match reply.tick with
  | none => request
  | some tick => { request with body := b.reanchored sig (quote sig.direction tick) request.body }

theorem exec_refreshEntry (sig : Signal) (r : OrderRequest) (w : World β) :
    exec (b.refreshEntry sig r) w = (.ok (b.refreshed sig w.reply r), w.afterRead) := by
  unfold refreshEntry refreshed reanchored symbolInfoTick
  rw [exec_bind_of (exec_readCall _)]
  cases w.reply.tick with
  | none => rfl
  | some tick =>
    obtain ⟨body, filling⟩ := r
    cases body <;> rfl

@[simp] theorem ensures_refreshEntry {sig : Signal} {r : OrderRequest} {w : World β}
    {Q : Except Failure OrderRequest → World β → Prop} :
    Ensures (b.refreshEntry sig r) w Q ↔ Q (.ok (b.refreshed sig w.reply r)) w.afterRead := by
  unfold Ensures
  rw [exec_refreshEntry]

@[simp] theorem refreshed_filling (sig : Signal) (reply : Reply) (r : OrderRequest) :
    (b.refreshed sig reply r).filling = r.filling := by
  unfold refreshed
  split <;> rfl

theorem succeeded_done {r : OrderResult} (h : r.retcode = retcodeDone) : succeeded (some r) = some (doneResult r) := by
  have hsuccess : classify (some retcodeDone) = .success := by decide
  simp only [succeeded, h, hsuccess, true_or, if_true]

/-! ### The retry loop -/

section Loop

variable {I : World β → Prop} {Done : SendResult → World β → Prop} {Allowed : OrderRequest → Prop}
  {guard : Option (List Nat)}
  {refresh : Option (OrderRequest → Mt5 β OrderRequest)} {pol : RetryPolicy}

theorem raiseSendError_rule {res : Option OrderResult} {r : OrderRequest} {w : World β}
    (hread : ∀ w, I w → I w.afterRead) (hI : I w) :
    Ensures (b.raiseSendError (α := α) res r) w (Post (fun _ _ => False) fun _ w' => I w') := by
  cases res with
  | none => exact hread w hI
  | some _ => exact hI

theorem backOff_rule (hsleep : ∀ w d, I w → I { w with slept := w.slept ++ [d] }) (st : Retry) {w : World β}
    (hI : I w) : Ensures (backOff pol st) w (Post (fun st' w' => st'.request = st.request ∧ I w') fun _ _ => False) := by
  unfold backOff
  simp only
  split
  · exact ⟨rfl, hsleep w _ hI⟩
  · exact ⟨rfl, hI⟩

theorem prepareRetry_rule (hsleep : ∀ w d, I w → I { w with slept := w.slept ++ [d] })
    (hrotate : ∀ r, Allowed r → Allowed (rotateFilling r))
    (hrefresh : ∀ f ∈ refresh, ∀ w r, I w → Allowed r →
      Ensures (f r) w (Post (fun r' w' => Allowed r' ∧ I w') fun _ w' => I w'))
    (action : PolicyAction) (st : Retry) {w : World β} (hI : I w) (hst : Allowed st.request) :
    Ensures (prepareRetry pol refresh action st) w
      (Post (fun st' w' => Allowed st'.request ∧ I w') fun _ w' => I w') := by
  unfold prepareRetry
  cases action with
  | rotateFilling => exact ⟨hrotate _ hst, hI⟩
  | retryFreshPrice =>
    cases hf : refresh with
    | none => exact ⟨hst, hI⟩
    | some f => exact (hrefresh f hf w _ hI hst).bind fun r' w' h => h
  | success | successPartial | retryBackoff | ambiguous | deferLadder | abort | abortAlert =>
    exact (backOff_rule hsleep st hI).weaken (fun st' w' h => ⟨h.1 ▸ hst, h.2⟩) fun _ _ h => h.elim

/-- The rule of the retry loop. `I` holds while no attempt has succeeded and `Done` once one has. -/
theorem sendLoop_rule
    (hattempt : ∀ w r, I w → Allowed r → Ensures (b.attempt guard r) w
      (Post (fun a w' => match a with
        | .done out => Done out w'
        | .failed _ _ => I w') fun _ w' => I w'))
    (hread : ∀ w, I w → I w.afterRead) (hsleep : ∀ w d, I w → I { w with slept := w.slept ++ [d] })
    (hrotate : ∀ r, Allowed r → Allowed (rotateFilling r))
    (hrefresh : ∀ f ∈ refresh, ∀ w r, I w → Allowed r →
      Ensures (f r) w (Post (fun r' w' => Allowed r' ∧ I w') fun _ w' => I w'))
    (budget : Nat) (st : Retry) {w : World β} (hI : I w) (hst : Allowed st.request) :
    Ensures (b.sendLoop pol refresh guard budget st) w (Post Done fun _ w' => I w') := by
  have hraise : ∀ (res : Option OrderResult) (r : OrderRequest) (w : World β), I w →
      Ensures (b.raiseSendError (α := SendResult) res r) w (Post Done fun _ w' => I w') :=
    fun res r w hI => (b.raiseSendError_rule hread hI).weaken (fun _ _ h => h.elim) fun _ _ h => h
  induction budget generalizing st w with
  | zero =>
    unfold sendLoop
    refine (hattempt w _ hI hst).bind fun a w' ha => ?_
    cases a with
    | done out => exact ha
    | failed action res => exact hraise res _ w' ha
  | succ budget ih =>
    unfold sendLoop
    refine (hattempt w _ hI hst).bind fun a w' ha => ?_
    cases a with
    | done out => exact ha
    | failed action res =>
      simp only
      split
      · exact hraise res _ w' ha
      · exact (prepareRetry_rule hsleep hrotate hrefresh action st ha hst).bind fun st' w'' h => ih st' h.2 h.1

end Loop

end Mt5Broker

end FreqTrading
