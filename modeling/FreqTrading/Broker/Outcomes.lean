import FreqTrading.Broker.Own

/-!
# What a request that returns has done

`_send` returns when an answer is taken for a success, and raises otherwise. `Answers` says what
the two kinds of answers leave behind, for one request; `send_rule` and `openMarket_rule` say it of a whole
`_send` and of an entry with its volume ladder, and `closeMine_closes` that a full close which returns has
closed every position, if the server does not claim a success that is none.
-/

namespace FreqTrading

open Lib

/-- A success answer is given only to a request executed in full. -/
def SendReply.Truthful (r : SendReply) : Prop :=
  (Mt5Broker.succeeded r.answer).isSome = true → r.executes = true ∧ r.partly = none

instance (r : SendReply) : Decidable r.Truthful := inferInstanceAs (Decidable (_ → _))

namespace Mt5Broker

variable {β : Type} (b : Mt5Broker β)

/-! ### `_send` -/

/-- What `_send` takes for a success: without a retry policy `DONE` only. -/
def taken (res : Option OrderResult) : Option SendResult :=
  match b.retry, res with
  | some _, res => succeeded res
  | none, some r => if r.retcode = retcodeDone then some (doneResult r) else none
  | none, none => none

/-- One request: `Done` after a success, and `I` after a failure. Reads and pauses keep `I`. -/
structure Answers (I : World β → Prop) (Done : SendResult → World β → Prop) (Allowed : OrderRequest → Prop) : Prop where
  read : ∀ w, I w → I w.afterRead
  pause : ∀ w delay, I w → I { w with slept := w.slept ++ [delay] }
  success : ∀ w r out, I w → Allowed r → b.taken (w.outcome r).2.2 = some out → Done out (w.afterSend r)
  failure : ∀ w r, I w → Allowed r → b.taken (w.outcome r).2.2 = none → I (w.afterSend r)

variable {b} in
theorem succeeded_of_taken {res : Option OrderResult} {out : SendResult} (h : b.taken res = some out) :
    succeeded res = some out := by
  unfold taken at h
  split at h
  · exact h
  · next r hretry =>
    split at h
    · next hdone =>
      cases h
      exact succeeded_done hdone
    · cases h
  · cases h

variable {b} in
theorem taken_of_done {res : Option OrderResult} (h : res.map (·.retcode) = some retcodeDone) :
    b.taken res ≠ none := by
  cases res with
  | none => cases h
  | some r =>
    have hdone : r.retcode = retcodeDone := by simpa using h
    unfold taken
    split
    · rw [succeeded_done hdone]
      exact fun h => by cases h
    · next r' hretry heq =>
      cases heq
      rw [if_pos hdone]
      exact fun h => by cases h
    · next heq => cases heq

section Send

variable {I : World β → Prop} {Done : SendResult → World β → Prop} {Allowed : OrderRequest → Prop} {w : World β}

theorem attempt_rule (h : b.Answers I Done Allowed) {pol : RetryPolicy} (hretry : b.retry = some pol)
    (guard : Option (List Nat)) (hfound : guard.isSome = true → ∀ out w, I w → Done out w) {r : OrderRequest}
    (hI : I w) (hr : Allowed r) :
    Ensures (b.attempt guard r) w
      (Post (fun a w' => match a with
        | .done out => Done out w'
        | .failed _ _ => I w') fun _ w' => I w') := by
  have htaken : b.taken (w.outcome r).2.2 = succeeded (w.outcome r).2.2 := by
    unfold taken
    rw [hretry]
  unfold attempt
  rw [ensures_bind, ensures_orderSend, post_ok]
  cases hout : succeeded (w.outcome r).2.2 with
  | some out => exact h.success w r out hI hr (htaken.trans hout)
  | none =>
    have hfailed : I (w.afterSend r) := h.failure w r hI hr (htaken.trans hout)
    cases guard with
    | none => exact hfailed
    | some before =>
      simp only
      split
      · have hread := h.read _ hfailed
        unfold recoveredEntry
        rw [ensures_bind, ensures_bind, ensures_myPositions, post_ok, ensures_pure, post_ok]
        cases (b.seen (w.afterSend r)).find? (·.ticket ∉ before) with
        | some p => exact hfound rfl _ _ hread
        | none => exact hread
      · exact hfailed

/-- **`_send` took an answer for a success, or raised.** -/
theorem send_rule (h : b.Answers I Done Allowed) (refresh : Option (OrderRequest → Mt5 β OrderRequest))
    (entryGuard : Bool) (hfound : entryGuard = true → ∀ out w, I w → Done out w)
    (hrotate : ∀ r, Allowed r → Allowed (rotateFilling r))
    (hrefresh : ∀ f ∈ refresh, ∀ w r, I w → Allowed r →
      Ensures (f r) w (Post (fun r' w' => Allowed r' ∧ I w') fun _ w' => I w'))
    {r : OrderRequest} (hI : I w) (hr : Allowed r) :
    Ensures (b.send r refresh entryGuard) w (Post Done fun _ w' => I w') := by
  unfold send
  cases hretry : b.retry with
  | some pol =>
    have hloop : ∀ (guard : Option (List Nat)) {v : World β}, (guard.isSome = true → entryGuard = true) → I v →
        Ensures (b.sendLoop pol refresh guard pol.maxRetries { request := r, waits := delays pol }) v
          (Post Done fun _ w' => I w') := by
      intro guard v hguard hv
      exact b.sendLoop_rule
        (fun w r hI hr => b.attempt_rule h hretry guard (fun hsome => hfound (hguard hsome)) hI hr)
        h.read h.pause hrotate hrefresh _ _ hv hr
    unfold sendWithPolicy
    cases entryGuard with
    | false => exact hloop none (fun hsome => by cases hsome) hI
    | true =>
      simp only [if_true]
      rw [ensures_bind, ensures_myPositions, post_ok]
      exact hloop _ (fun _ => rfl) (h.read w hI)
  | none =>
    have htaken : ∀ res, b.taken res = match res with
        | some r => if r.retcode = retcodeDone then some (doneResult r) else none
        | none => none := by
      intro res
      unfold taken
      rw [hretry]
      cases res <;> rfl
    rw [ensures_bind, ensures_orderSend, post_ok]
    have hraise : ∀ res, b.taken (w.outcome r).2.2 = none →
        Ensures (b.raiseSendError (α := SendResult) res r) (w.afterSend r) (Post Done fun _ w' => I w') :=
      fun res hnone =>
      (b.raiseSendError_rule h.read (h.failure w r hI hr hnone)).weaken (fun _ _ h => h.elim) fun _ _ h => h
    cases hans : (w.outcome r).2.2 with
    | none => exact hraise none (by rw [htaken, hans])
    | some res =>
      simp only
      split
      · next hdone => exact h.success w r _ hI hr (by rw [htaken, hans]; exact if_pos hdone)
      · next hne => exact hraise _ (by rw [htaken, hans]; exact if_neg hne)

/-! ### `_open` -/

theorem openLadder_rule (sig : Signal) {P : ℚ → Prop} (h : b.Answers I Done fun r => b.EntryBody sig P r.body)
    (hfound : ∀ out w, I w → Done out w)
    (hbot : ∀ out (w : World β) (f : β → β), Done out w → Done out { w with bot := f w.bot })
    (hquotes : ∀ w, I w → QuotesIn sig P w.env) {price : ℚ} (hprice : P price) (lastErr : Failure)
    (volumes : List ℚ) (hvol : ∀ v ∈ volumes, v ≤ b.wantedQty sig) (hI : I w) :
    Ensures (b.openLadder sig price lastErr volumes) w (Post Done fun _ w' => I w') := by
  induction volumes generalizing lastErr w with
  | nil => exact hI
  | cons vol rest ih =>
    unfold openLadder
    refine (filling_reads w).bind_total fun f w₁ hw₁ => ?_
    subst hw₁
    have hrefresh : ∀ f ∈ some (b.refreshEntry sig), ∀ w r, I w → b.EntryBody sig P r.body →
        Ensures (f r) w (Post (fun r' w' => b.EntryBody sig P r'.body ∧ I w') fun _ w' => I w') := by
      intro f hf w r hI hr
      obtain rfl : b.refreshEntry sig = f := by simpa using hf
      rw [ensures_refreshEntry, post_ok]
      exact ⟨b.refreshed_entryBody sig (hquotes w hI) hr, h.read w hI⟩
    have hsend := b.send_rule h (some (b.refreshEntry sig)) true (fun _ => hfound) (fun r hr => hr) hrefresh
      (r := b.entryRequest sig price vol f) (h.read w hI)
      ⟨rfl, hvol vol List.mem_cons_self, hprice, rfl, rfl⟩
    have htry : Ensures (tryCatch (do
        let res ← b.send (b.entryRequest sig price vol f) (some (b.refreshEntry sig)) true
        return .ok res) (fun err => return .error err) : Mt5 β (Except Failure SendResult)) w.afterRead
        (Post (fun sent v => Post Done (fun _ => I) sent v) fun _ _ => False) := by
      rw [ensures_tryCatch, ensures_bind]
      exact hsend.weaken (fun _ _ hv => hv) fun _ _ hv => hv
    refine htry.bind_total fun sent v hv => ?_
    cases sent with
    | ok res =>
      rw [ensures_bind]
      exact b.emit_rule fun f => hbot res v f hv
    | error err =>
      cases err with
      | other => exact hv
      | broker text =>
        simp only
        split
        · exact ih (.broker text) (fun v hv => hvol v (List.mem_cons_of_mem _ hv)) hv
        · exact hv

theorem openMarket_rule (sig : Signal) {P : ℚ → Prop} (h : b.Answers I Done fun r => b.EntryBody sig P r.body)
    (hfound : ∀ out w, I w → Done out w)
    (hbot : ∀ out (w : World β) (f : β → β), Done out w → Done out { w with bot := f w.bot })
    (hquotes : ∀ w, I w → QuotesIn sig P w.env) (hI : I w) :
    Ensures (b.openMarket sig) w (Post Done fun _ w' => I w') := by
  unfold openMarket
  rw [ensures_bind, ensures_symbolInfoTick, post_ok]
  cases htick : w.reply.tick with
  | none =>
    unfold noTick lastError
    rw [ensures_bind, ensures_readCall, post_ok]
    exact h.read _ (h.read w hI)
  | some tick =>
    exact b.openLadder_rule sig h hfound hbot hquotes (hquotes w hI w.calls tick htick) _ _
      (fun v => mem_ladder_le) (h.read w hI)

end Send

/-! ### A full exit -/

/-- What is left of `held`: own positions with a ticket of `held`, and no larger. -/
def Within (held : List Position) (q : Position) : Prop := ∃ p ∈ held, q.ticket = p.ticket ∧ q.volume ≤ p.volume

theorem within_shrink (held : List Position) : Server.ShrinkClosed (Within held) := by
  rintro q₀ q hticket - - hvol ⟨p, hp, heq, hle⟩
  exact ⟨p, hp, hticket.trans heq, hvol.trans hle⟩

theorem perform_close_within {m : Int} {p : Position} {rest : List Position} {s s' : Server}
    (hnodup : ((p :: rest).map (·.ticket)).Nodup) (h : s.Holds m (Within (p :: rest)))
    {dir : Direction} {px profit price : ℚ} {dev magic : Int} {comment : String}
    (hperf : s.perform none px profit (.close dir p.volume p.ticket price dev magic comment) = some s') :
    s'.Holds m (Within rest) := by
  have hbody : Mt5Broker.CloseBody p p.volume (.close dir p.volume p.ticket price dev magic comment) := ⟨rfl, rfl⟩
  have hkept := Server.keptBy_close (within_shrink (p :: rest)) hbody s s' h none px profit hperf
  refine hkept.mono fun q hq hm hwithin => ?_
  obtain ⟨p', hp', hticket, hvol⟩ := hwithin
  rcases List.mem_cons.mp hp' with rfl | hp'
  · -- the closed position itself is gone
    exfalso
    simp only [Server.perform] at hperf
    cases hpos : s.position? p'.ticket with
    | none => rw [hpos] at hperf; cases hperf
    | some held =>
      rw [hpos] at hperf
      simp only [Server.executedVolume] at hperf
      split at hperf
      · next hcan =>
        cases hperf
        obtain ⟨hheld, hheldTicket⟩ := Server.position?_spec hpos
        obtain ⟨q₀, hq₀, -, heq⟩ := Server.mem_closeVolume_le hcan.1.le hq
        have hq₀Ticket : q₀.ticket = held.ticket := by
          rw [hheldTicket, ← hticket, heq]
        obtain rfl : q₀ = held := List.inj_on_of_nodup_map h.wf.nodup hq₀ hheld hq₀Ticket
        have hq₀m : q₀.magic = m := by rw [heq] at hm; exact hm
        obtain ⟨p'', hp'', hticket'', hvol''⟩ := h.all q₀ hq₀ hq₀m
        obtain rfl : p'' = p' := List.inj_on_of_nodup_map hnodup hp'' List.mem_cons_self
          (hticket''.symm.trans hheldTicket)
        have hfull : ¬ p''.volume < q₀.volume := not_lt.mpr hvol''
        simp only [Server.closeVolume, if_neg hfull] at hq
        have hne := (List.mem_filter.mp hq).2
        simp only [decide_eq_true_eq, ne_eq] at hne
        exact hne (hticket.trans hheldTicket.symm)
      · cases hperf
  · exact ⟨p', hp', hticket, hvol⟩

theorem outcome_truthful {w : World β} {r : OrderRequest} (htrue : w.reply.send.Truthful)
    (hsucc : (succeeded (w.outcome r).2.2).isSome = true) :
    w.settled.perform none w.reply.send.price w.reply.send.profit r.body = some (w.outcome r).1 := by
  cases hex : (w.outcome r).2.1 with
  | true =>
    obtain ⟨-, hans, hperf⟩ := outcome_executed hex
    rw [hans] at hsucc
    rwa [(htrue hsucc).2] at hperf
  | false =>
    exfalso
    unfold World.outcome at hex hsucc
    split at hex
    · next hexec =>
      rw [if_pos hexec] at hsucc
      split at hex
      · cases hex
      · next hnone =>
        have hfail : succeeded (some World.impossible) = none := by decide
        simp only [hnone, hfail, Option.isSome_none, Bool.false_eq_true] at hsucc
    · next hexec =>
      rw [if_neg hexec] at hsucc
      exact hexec (htrue hsucc).1

theorem close_answers {p : Position} {rest : List Position} {env : Nat → Reply}
    (hnodup : ((p :: rest).map (·.ticket)).Nodup) (htrue : ∀ k, (env k).send.Truthful) (px : ℚ) (reason : String)
    (f : Filling) :
    b.Answers (fun v : World β => v.env = env ∧ v.server.Holds b.magic (Within (p :: rest)))
      (fun _ v => v.env = env ∧ v.server.Holds b.magic (Within rest))
      fun r => r.body = (b.closeRequest p p.volume px reason f).body where
  read := fun v hI => ⟨hI.1, hI.2.settled⟩
  pause := fun v delay hI => hI
  success := fun v r out hI hr htaken => by
    have hreply : v.reply.send.Truthful := by
      unfold World.reply
      rw [hI.1]
      exact htrue v.calls
    have hperf := outcome_truthful hreply (by rw [succeeded_of_taken htaken]; rfl)
    rw [hr] at hperf
    exact ⟨hI.1, perform_close_within hnodup hI.2.settled hperf⟩
  failure := fun v r hI hr _ => by
    have hbody : Mt5Broker.CloseBody p p.volume r.body := by
      rw [hr]
      exact ⟨rfl, rfl⟩
    exact ⟨hI.1, hI.2.outcome (Server.keptBy_close (within_shrink _) hbody)⟩

theorem closePosition_closes {p : Position} {rest : List Position} {reason : String} {w : World β}
    (hnodup : ((p :: rest).map (·.ticket)).Nodup) (htrue : ∀ k, (w.env k).send.Truthful)
    (h : w.server.Holds b.magic (Within (p :: rest))) :
    Ensures (b.closePosition p p.volume reason) w
      (Post (fun _ w' => w'.env = w.env ∧ w'.server.Holds b.magic (Within rest)) fun _ _ => True) := by
  unfold closePosition
  rw [ensures_bind, ensures_symbolInfoTick, post_ok]
  cases w.reply.tick with
  | none => exact trivial
  | some tick =>
    refine (filling_reads w.afterRead).bind_total fun f w₂ hw₂ => ?_
    subst hw₂
    have hanswers := b.close_answers hnodup htrue (quote (opposite p.direction) tick) reason f
    have hsend := b.send_rule (w := w.afterRead.afterRead) hanswers none false
      (fun hfalse => by cases hfalse) (fun r hr => hr) (fun f hf => by cases hf) ⟨rfl, h.settled.settled⟩ rfl
    refine (hsend.weaken (fun _ _ h => h) fun _ _ _ => trivial).bind fun res w₃ hw₃ => ?_
    split
    · refine (dealProfit_reads res.deal w₃).bind_total fun pnl w₄ hread => ?_
      have hw₄ : w₄.env = w.env ∧ w₄.server.Holds b.magic (Within rest) := by
        rcases hread with rfl | rfl
        · exact hw₃
        · exact ⟨hw₃.1, hw₃.2.settled⟩
      rw [ensures_bind]
      exact b.emit_rule fun _ => hw₄
    · exact hw₃

/-- A full EXIT that returns has closed every position it was given. -/
theorem closeMine_closes {sig : Signal} (hreason : sig.reason ≠ "take_profit_partial") (ps : List Position)
    (result : Option SendResult) {w : World β} (hnodup : (ps.map (·.ticket)).Nodup)
    (htrue : ∀ k, (w.env k).send.Truthful) (h : w.server.Holds b.magic (Within ps)) :
    Ensures (b.closeMine sig ps result) w
      (Post (fun _ w' => w'.server.Holds b.magic fun _ => False) fun _ _ => True) := by
  induction ps generalizing result w with
  | nil => exact h.mono fun q _ _ ⟨p, hp, _⟩ => by cases hp
  | cons p rest ih =>
    unfold closeMine
    have hvolume : exitVolume (β := β) sig p = pure (some p.volume) := by
      unfold exitVolume
      cases sig.qty with
      | none => rfl
      | some qty =>
        simp only
        rw [if_neg (fun hpart => hreason hpart.1)]
    rw [hvolume]
    show Ensures (b.closePosition p p.volume sig.reason >>= fun res => b.closeMine sig rest (some res)) w _
    refine (b.closePosition_closes hnodup htrue h).bind fun res w' hw' => ih (some res) ?_ ?_ hw'.2
    · exact (List.nodup_cons.mp hnodup).2
    · rw [hw'.1]
      exact htrue

end Mt5Broker

end FreqTrading
