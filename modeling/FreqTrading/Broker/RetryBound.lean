import FreqTrading.Broker.VolumeLadder

/-!
# How often an order is sent

The loop of `_send_with_policy` is a `while True` with an attempt counter. `sendLoop` recurses on the retries
that are left instead; `loopEnds_iff` shows that the two do the same, so that the loop comes to its end within
`max_retries + 1` turns whatever is answered. `retry_bound` bounds what one call sends, rotates and waits for,
and what one `_open` sends.
-/

namespace FreqTrading

open Lib

variable {β : Type}

namespace Mt5Broker

variable (b : Mt5Broker β)

/-! ### The `while` loop -/

section While

variable (pol : RetryPolicy) (refresh : Option (OrderRequest → Mt5 β OrderRequest)) (guard : Option (List Nat))

/-- One turn of the loop, after `attempt` others: a result, or the state of the next turn. -/
def turn (attempt : Nat) (st : Retry) : Mt5 β (SendResult ⊕ Retry) := do
  match ← b.attempt guard st.request with
  | .done out => return .inl out
  | .failed action res =>
    if givesUp action st.rotated then b.raiseSendError res st.request
    else if pol.maxRetries ≤ attempt then b.raiseSendError res st.request
    else do
      let st ← prepareRetry pol refresh action st
      return .inr st

/-- The loop ends after this many turns. -/
inductive LoopEnds : Nat → Retry → World β → Nat → Except Failure SendResult × World β → Prop
  | done {attempt : Nat} {st : Retry} {w w' : World β} {out : SendResult}
      (hturn : exec (b.turn pol refresh guard attempt st) w = (.ok (.inl out), w')) :
      LoopEnds attempt st w 1 (.ok out, w')
  | raised {attempt : Nat} {st : Retry} {w w' : World β} {err : Failure}
      (hturn : exec (b.turn pol refresh guard attempt st) w = (.error err, w')) :
      LoopEnds attempt st w 1 (.error err, w')
  | again {attempt turns : Nat} {st st' : Retry} {w w' : World β} {r : Except Failure SendResult × World β}
      (hturn : exec (b.turn pol refresh guard attempt st) w = (.ok (.inr st'), w'))
      (hrest : LoopEnds (attempt + 1) st' w' turns r) : LoopEnds attempt st w (turns + 1) r

theorem sendLoop_turn {attempt budget : Nat} (hbudget : attempt + budget = pol.maxRetries) (st : Retry) (w : World β) :
    exec (b.sendLoop pol refresh guard budget st) w =
      match exec (b.turn pol refresh guard attempt st) w with
      | (.ok (.inl out), w') => (.ok out, w')
      | (.ok (.inr st'), w') => exec (b.sendLoop pol refresh guard (budget - 1) st') w'
      | (.error err, w') => (.error err, w') := by
  have hraise : ∀ (res : Option OrderResult) (v : World β),
      exec (b.raiseSendError (α := SendResult) res st.request) v =
        match exec (b.raiseSendError (α := SendResult ⊕ Retry) res st.request) v with
        | (.ok (.inl out), w') => (.ok out, w')
        | (.ok (.inr st'), w') => exec (b.sendLoop pol refresh guard (budget - 1) st') w'
        | (.error err, w') => (.error err, w') := by
    intro res v
    cases res <;> rfl
  cases budget with
  | zero =>
    rw [sendLoop, turn]
    rw [exec_bind, exec_bind]
    rcases exec (b.attempt guard st.request) w with ⟨err | a, v⟩
    · rfl
    · cases a with
      | done out => rfl
      | failed action res =>
        simp only
        rw [if_pos (show pol.maxRetries ≤ attempt by omega), ite_self]
        exact hraise res v
  | succ budget =>
    rw [sendLoop, turn]
    rw [exec_bind, exec_bind]
    rcases exec (b.attempt guard st.request) w with ⟨err | a, v⟩
    · rfl
    · cases a with
      | done out => rfl
      | failed action res =>
        simp only
        rw [if_neg (show ¬ pol.maxRetries ≤ attempt by omega)]
        split
        · exact hraise res v
        · rw [exec_bind, exec_bind]
          rcases exec (prepareRetry pol refresh action st) v with ⟨err | st', v'⟩ <;> rfl

theorem attempt_lt_of_again {attempt : Nat} {st st' : Retry} {w w' : World β}
    (h : exec (b.turn pol refresh guard attempt st) w = (.ok (.inr st'), w')) : attempt < pol.maxRetries := by
  by_contra hle
  rw [turn, exec_bind] at h
  rcases hexec : exec (b.attempt guard st.request) w with ⟨err | a, v⟩ <;> rw [hexec] at h
  · cases h
  · cases a with
    | done out => cases h
    | failed action res =>
      simp only at h
      rw [if_pos (show pol.maxRetries ≤ attempt by omega), ite_self] at h
      cases res <;> cases h

theorem exists_loopEnds {attempt budget : Nat} (hbudget : attempt + budget = pol.maxRetries) (st : Retry)
    (w : World β) :
    ∃ turns, b.LoopEnds pol refresh guard attempt st w turns (exec (b.sendLoop pol refresh guard budget st) w) := by
  induction budget generalizing attempt st w with
  | zero =>
    rw [b.sendLoop_turn pol refresh guard hbudget]
    rcases hturn : exec (b.turn pol refresh guard attempt st) w with ⟨err | (out | st'), w'⟩
    · exact ⟨1, .raised hturn⟩
    · exact ⟨1, .done hturn⟩
    · have hlt := b.attempt_lt_of_again pol refresh guard hturn
      omega
  | succ budget ih =>
    rw [b.sendLoop_turn pol refresh guard hbudget]
    rcases hturn : exec (b.turn pol refresh guard attempt st) w with ⟨err | (out | st'), w'⟩
    · exact ⟨1, .raised hturn⟩
    · exact ⟨1, .done hturn⟩
    · have hnext : attempt + 1 + budget = pol.maxRetries := by omega
      obtain ⟨turns, hends⟩ := ih hnext st' w'
      exact ⟨turns + 1, .again hturn hends⟩

/-- It has taken a turn for each retry at most, and the first one, and ends as `sendLoop` does. -/
theorem LoopEnds.sendLoop {attempt turns : Nat} {st : Retry} {w : World β} {r : Except Failure SendResult × World β}
    (h : b.LoopEnds pol refresh guard attempt st w turns r) {budget : Nat}
    (hbudget : attempt + budget = pol.maxRetries) :
    turns ≤ budget + 1 ∧ exec (b.sendLoop pol refresh guard budget st) w = r := by
  induction h generalizing budget with
  | done hturn =>
    rw [b.sendLoop_turn pol refresh guard hbudget, hturn]
    exact ⟨by omega, rfl⟩
  | raised hturn =>
    rw [b.sendLoop_turn pol refresh guard hbudget, hturn]
    exact ⟨by omega, rfl⟩
  | @again attempt _ _ _ _ _ _ hturn _ ih =>
    have hlt := b.attempt_lt_of_again pol refresh guard hturn
    have hnext : attempt + 1 + (budget - 1) = pol.maxRetries := by omega
    obtain ⟨hturns, hend⟩ := ih hnext
    rw [b.sendLoop_turn pol refresh guard hbudget, hturn]
    exact ⟨by omega, hend⟩

/-- **The `while` loop and `sendLoop` are the same.** -/
theorem loopEnds_iff {attempt budget : Nat} (hbudget : attempt + budget = pol.maxRetries) {st : Retry} {w : World β}
    {r : Except Failure SendResult × World β} :
    (∃ turns, b.LoopEnds pol refresh guard attempt st w turns r) ↔
      exec (b.sendLoop pol refresh guard budget st) w = r := by
  constructor
  · rintro ⟨turns, h⟩
    exact (LoopEnds.sendLoop b pol refresh guard h hbudget).2
  · rintro rfl
    exact b.exists_loopEnds pol refresh guard hbudget st w

end While

/-! ### The bounds -/

/-- What one `_send_with_policy` may do. It pauses once for each answer that asks for a back-off and is followed by
another attempt, the `k`-th time for the `k`-th delay; one that is not positive is not slept. -/
structure Bounded (pol : RetryPolicy) (r : OrderRequest) (w w' : World β) (res : Except Failure SendResult) : Prop where
  sends : (sentSince w w').length ≤ pol.maxRetries + 1
  rotation : RotatedOnce r.filling (rotateFilling r).filling (sentSince w w')
  retries : backOffs (sentSince w w') ≤ pol.maxRetries
  backoff : w'.slept = w.slept ++ ((List.range (backOffs (sentSince w w'))).map fun i =>
    min (pol.baseDelay * pol.mult ^ i) pol.maxDelay).filter (0 < ·)
  ends : (∃ out, res = .ok out) ∨ ∃ text, res = .error (.broker text)

theorem ends_of_settled {res : Except Failure SendResult} {w : World β} (h : b.Settled res w) :
    (∃ out, res = .ok out) ∨ ∃ text, res = .error (.broker text) := by
  obtain ⟨s, -, hend⟩ := h
  cases res with
  | ok out => exact Or.inl ⟨out, rfl⟩
  | error err => exact Or.inr ⟨_, congrArg _ hend⟩

theorem take_delays (pol : RetryPolicy) {k : Nat} (hk : k ≤ pol.maxRetries) :
    (delays pol).take k = (List.range k).map fun i => min (pol.baseDelay * pol.mult ^ i) pol.maxDelay := by
  rw [delays_eq, ← List.map_take, List.take_range, Nat.min_eq_left hk]

theorem refreshReads_any (sig : Option Signal) : RefreshReads (fun _ => True) (sig.map b.refreshEntry) := by
  intro f hf r w _
  obtain ⟨sig, -, rfl⟩ := Option.map_eq_some_iff.mp hf
  rw [ensures_refreshEntry, post_ok]
  exact ⟨⟨trivial, b.refreshed_filling sig _ r⟩, (SameLog.refl w).afterRead⟩

theorem sendWithPolicy_bounded (pol : RetryPolicy) (sig : Option Signal) (entryGuard : Bool) (r : OrderRequest)
    (w : World β) :
    Bounded pol r w (exec (b.sendWithPolicy pol (sig.map b.refreshEntry) entryGuard r) w).2
      (exec (b.sendWithPolicy pol (sig.map b.refreshEntry) entryGuard r) w).1 := by
  obtain ⟨htrace, hsettled⟩ := b.sendWithPolicy_trace (w := w) pol (fun _ h => h) (b.refreshReads_any sig) entryGuard
    (r := r) trivial
  obtain ⟨l, s, hlog, hlen, -, hrotation⟩ := htrace.log
  have hbackOffs : backOffs (l ++ [s]) ≤ pol.maxRetries := by
    unfold backOffs
    rw [List.dropLast_concat]
    exact List.countP_le_length.trans hlen
  have hslept := htrace.waited
  unfold Waited at hslept
  rw [sentSince_of_append hlog] at hslept
  refine ⟨?_, ?_, ?_, ?_, b.ends_of_settled hsettled⟩
  · rw [sentSince_of_append hlog, List.length_append, List.length_singleton]
    omega
  · rw [sentSince_of_append hlog]
    exact hrotation
  · rw [sentSince_of_append hlog]
    exact hbackOffs
  · rw [sentSince_of_append hlog, hslept, take_delays pol hbackOffs]

/-- The requests of one `_open`: for a market entry a rung for each volume it tries, from larger to smaller ones. -/
structure OpenBounded (sig : Signal) (w w' : World β) (res : Except Failure (Option SendResult)) : Prop where
  sends : (sentSince w w').length ≤ 3 * (b.retries + 1)
  rungs : b.entryMode = .market → ∃ steps : List (ℚ × List Sent), sentSince w w' = steps.flatMap (·.2) ∧
    (steps.map (·.1)).Pairwise (· > ·) ∧
    ∀ step ∈ steps, step.2 ≠ [] ∧ step.2.length ≤ b.retries + 1 ∧ ∀ x ∈ step.2, x.request.body.opened = some step.1
  ends : (∃ out, res = .ok out) ∨ ∃ text, res = .error (.broker text)

theorem length_steps_le {sig : Signal} {steps : List (ℚ × List Sent)} {want : ℚ}
    (hpre : steps.map (·.1) <+: ladder want) (hrungs : ∀ step ∈ steps, b.Rung sig step.1 step.2) :
    (steps.flatMap (·.2)).length ≤ 3 * (b.retries + 1) := by
  have hsteps : steps.length ≤ 3 := by
    have hle := hpre.length_le
    have hfilter := List.length_filter_le (fun v => decide (v < want)) volumeLadder
    rw [List.length_map, ladder, List.length_cons] at hle
    exact hle.trans (Nat.succ_le_succ hfilter)
  have hsum : (steps.flatMap (·.2)).length ≤ steps.length * (b.retries + 1) := by
    rw [List.length_flatMap]
    refine (List.sum_le_card_nsmul _ (b.retries + 1) fun n hn => ?_).trans (by simp)
    obtain ⟨step, hstep, rfl⟩ := List.mem_map.mp hn
    exact (hrungs step hstep).length
  exact hsum.trans (Nat.mul_le_mul_right _ hsteps)

theorem open_bounded (sig : Signal) (w : World β) :
    b.OpenBounded sig w (exec (b.open' sig) w).2 (exec (b.open' sig) w).1 := by
  rw [exec_open]
  cases hmode : b.entryMode with
  | market =>
    obtain ⟨steps, hlog, hpre, hrungs, hend⟩ := b.openMarket_trace sig w
    refine ⟨?_, fun _ => ⟨steps, sentSince_of_append hlog, ?_, fun step hstep => ?_⟩, ?_⟩
    · rw [sentSince_of_append hlog]
      exact b.length_steps_le hpre hrungs
    · exact (ladder_decreasing _).sublist hpre.sublist
    · refine ⟨(hrungs step hstep).nonempty, (hrungs step hstep).length, fun x hx => ?_⟩
      obtain ⟨price, f, hr⟩ := (hrungs step hstep).entries x hx
      rw [hr]
      rfl
    · have hends : (∃ out, (exec (b.openMarket sig) w).1 = .ok out) ∨
          ∃ text, (exec (b.openMarket sig) w).1 = .error (.broker text) := by
        rcases hend with ⟨-, htext⟩ | ⟨-, hsettled⟩
        · exact Or.inr htext
        · exact b.ends_of_settled hsettled
      rcases hends with ⟨out, hout⟩ | ⟨text, htext⟩
      · exact Or.inl ⟨some out, by simp only [hout, Except.map]⟩
      · exact Or.inr ⟨text, by simp only [htext, Except.map]⟩
  | limit =>
    obtain ⟨l, hlog, -, hlen, hend⟩ := b.openLimit_trace sig w
    refine ⟨?_, fun h => ?_, ?_⟩
    · rw [sentSince_of_append hlog]
      omega
    · rw [hmode] at h
      cases h
    · rcases hend with ⟨-, htext⟩ | ⟨-, out, hout, hsettled⟩
      · exact Or.inr htext
      · rcases b.ends_of_settled hsettled with ⟨res, rfl⟩ | ⟨text, rfl⟩
        · exact Or.inl ⟨some res, hout⟩
        · exact Or.inr ⟨text, hout⟩

/-- **The bounds of the retry loop and of an entry**, whatever is answered. -/
theorem retry_bound (sig : Signal) (w : World β) :
    (∀ pol refreshed entryGuard r, Bounded pol r w
      (exec (b.sendWithPolicy pol (Option.map b.refreshEntry refreshed) entryGuard r) w).2
      (exec (b.sendWithPolicy pol (Option.map b.refreshEntry refreshed) entryGuard r) w).1) ∧
    b.OpenBounded sig w (exec (b.open' sig) w).2 (exec (b.open' sig) w).1 :=
  ⟨fun pol refreshed entryGuard r => b.sendWithPolicy_bounded pol refreshed entryGuard r w, b.open_bounded sig w⟩

end Mt5Broker

end FreqTrading
