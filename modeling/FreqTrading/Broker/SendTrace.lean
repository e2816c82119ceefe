import FreqTrading.Broker.Rules

/-!
# What one `_send` leaves in the log

A `_send` sends one request or more, all of them versions of the request it was given, waits between them
for delays of the policy, and either returns or raises the `BrokerError` of the last answer
(`send_trace`). The refresh given to it only reads.
-/

namespace FreqTrading

open Lib

variable {β α : Type}

/-- As far as the environment and the logs go, nothing but reads lies between these worlds. -/
structure SameLog (w w' : World β) : Prop where
  env : w'.env = w.env
  sent : w'.sent = w.sent
  slept : w'.slept = w.slept

theorem SameLog.refl (w : World β) : SameLog w w := ⟨rfl, rfl, rfl⟩

theorem SameLog.afterRead {w w' : World β} (h : SameLog w w') : SameLog w w'.afterRead := ⟨h.env, h.sent, h.slept⟩

theorem SameLog.last {w w' : World β} {r : OrderRequest} (h : SameLog (w.afterSend r) w') :
    w'.sent.getLast? = some ⟨w.settled, r, (w.outcome r).2.1, (w.outcome r).2.2⟩ := by
  rw [h.sent, afterSend_sent, List.getLast?_concat]

/-- What was sent between two worlds. -/
def sentSince (w w' : World β) : List Sent := w'.sent.drop w.sent.length

theorem sentSince_of_append {w w' : World β} {l : List Sent} (h : w'.sent = w.sent ++ l) : sentSince w w' = l := by
  unfold sentSince
  rw [h, List.drop_left]

namespace Mt5Broker

variable (b : Mt5Broker β)

/-- The retries of the policy, if there is one. -/
def retries : Nat :=
  match b.retry with
  | none => 0
  | some pol => pol.maxRetries

/-- The text of the exception for a refused request; `last_error` was the last call if there is no answer. -/
def failureText (w : World β) (s : Sent) : String :=
  match s.answer with
  | none => "order_send returned None: " ++ (w.env (w.calls - 1)).lastError
  | some res => rejectedText b.symbol res s.request

/-- How a `_send` with this last request ends: with a success, with the fill found after an ambiguous answer,
or with the `BrokerError` of the answer. -/
def EndsAfter (w : World β) (s : Sent) : Except Failure SendResult → Prop
  | .ok out => succeeded s.answer = some out ∨ classify (s.answer.map (·.retcode)) = .ambiguous ∧ out.retcode = -1
  | .error err => err = .broker (b.failureText w s)

/-- The result is that of the last request that was sent. -/
def Settled (res : Except Failure SendResult) (w : World β) : Prop := ∃ s ∈ w.sent.getLast?, b.EndsAfter w s res

/-- The log from `w` to `w'`: at least one request and at most `n` more, all of them allowed. -/
structure Sending (Allowed : OrderRequest → Prop) (n : Nat) (w w' : World β) : Prop where
  env : w'.env = w.env
  log : ∃ l s, w'.sent = w.sent ++ (l ++ [s]) ∧ l.length ≤ n ∧ ∀ x ∈ l ++ [s], Allowed x.request

/-- The fillings of these requests: the first one, and from some point on the one it is exchanged for. -/
def RotatedOnce (first other : Option Filling) (sent : List Sent) : Prop :=
  ∃ i j, sent.map (·.request.filling) = List.replicate i first ++ List.replicate j other

/-- The answer asks for a back-off before the next attempt. -/
def asksBackOff (s : Sent) : Bool :=
  classify (s.answer.map (·.retcode)) = .retryBackoff || classify (s.answer.map (·.retcode)) = .ambiguous

/-- The attempts after which the loop backed off: the last one ended it. -/
def backOffs (sent : List Sent) : Nat := sent.dropLast.countP asksBackOff

/-- The pauses: one of these delays for each back-off, from the first one on, less those that are not positive. -/
def Waited (waits : List ℚ) (w w' : World β) : Prop :=
  w'.slept = w.slept ++ (waits.take (backOffs (sentSince w w'))).filter (0 < ·)

/-- The filling a rotation would leave, now that one may have been made. -/
def Retry.spare (st : Retry) : Option Filling :=
  if st.rotated then st.request.filling else (rotateFilling st.request).filling

/-- What the retry loop has done from `w` to `w'`. -/
structure LoopTrace (Allowed : OrderRequest → Prop) (budget : Nat) (st : Retry) (w w' : World β) : Prop where
  env : w'.env = w.env
  log : ∃ l s, w'.sent = w.sent ++ (l ++ [s]) ∧ l.length ≤ budget ∧ (∀ x ∈ l ++ [s], Allowed x.request) ∧
    RotatedOnce st.request.filling st.spare (l ++ [s])
  waited : Waited st.waits w w'

theorem LoopTrace.sending {Allowed : OrderRequest → Prop} {budget : Nat} {st : Retry} {w w' : World β}
    (h : LoopTrace Allowed budget st w w') : Sending Allowed budget w w' := by
  obtain ⟨l, s, hsent, hlen, hall, -⟩ := h.log
  exact ⟨h.env, l, s, hsent, hlen, hall⟩

/-! ### One turn of the loop -/

section Turn

variable {Allowed : OrderRequest → Prop} {refresh : Option (OrderRequest → Mt5 β OrderRequest)}
  {pol : RetryPolicy} {guard : Option (List Nat)} {w w' : World β}

/-- Refreshing an allowed request makes one read, and keeps its filling. -/
def RefreshReads (Allowed : OrderRequest → Prop) (refresh : Option (OrderRequest → Mt5 β OrderRequest)) : Prop :=
  ∀ f ∈ refresh, ∀ (r : OrderRequest) (w : World β), Allowed r →
    Ensures (f r) w (Post (fun r' w' => (Allowed r' ∧ r'.filling = r.filling) ∧ SameLog w w') fun _ _ => False)

theorem refreshReads_none : RefreshReads (β := β) Allowed none := fun _ h => by cases h

/-- What an attempt with this answer ends with. -/
def AttemptEnds (answer : Option OrderResult) : Attempt → Prop
  | .done out => succeeded answer = some out ∨ classify (answer.map (·.retcode)) = .ambiguous ∧ out.retcode = -1
  | .failed action res => res = answer ∧ succeeded answer = none ∧ action = classify (answer.map (·.retcode))

theorem attempt_trace (guard : Option (List Nat)) (r : OrderRequest) (w : World β) :
    Ensures (b.attempt guard r) w
      (Post (fun a w' => SameLog (w.afterSend r) w' ∧ AttemptEnds (w.outcome r).2.2 a) fun _ _ => False) := by
  unfold attempt
  rw [ensures_bind, ensures_orderSend, post_ok]
  cases hsucc : succeeded (w.outcome r).2.2 with
  | some out => exact ⟨.refl _, Or.inl hsucc⟩
  | none =>
    cases guard with
    | none => exact ⟨.refl _, rfl, hsucc, rfl⟩
    | some before =>
      simp only
      split
      · next hamb =>
        unfold recoveredEntry
        rw [ensures_bind, ensures_bind, ensures_myPositions, post_ok, ensures_pure, post_ok]
        have hread : SameLog (w.afterSend r) (w.afterSend r).afterRead := (SameLog.refl _).afterRead
        cases (b.seen (w.afterSend r)).find? (·.ticket ∉ before) with
        | some p => exact ⟨hread, Or.inr ⟨hamb, rfl⟩⟩
        | none => exact ⟨hread, rfl, hsucc, rfl⟩
      · exact ⟨.refl _, rfl, hsucc, rfl⟩

theorem raiseSendError_trace {s : Sent} (hs : w.sent.getLast? = some s) :
    Ensures (b.raiseSendError s.answer s.request) w fun res w' => SameLog w w' ∧ b.Settled res w' := by
  unfold raiseSendError
  cases hanswer : s.answer with
  | none =>
    refine ⟨(SameLog.refl w).afterRead, s, hs, ?_⟩
    show Failure.broker _ = Failure.broker (b.failureText _ s)
    unfold failureText
    rw [hanswer]
    rfl
  | some res =>
    refine ⟨.refl w, s, hs, ?_⟩
    show Failure.broker _ = Failure.broker (b.failureText _ s)
    unfold failureText
    rw [hanswer]

/-- What the preparation of the next attempt leaves. -/
structure Prepared (pol : RetryPolicy) (Allowed : OrderRequest → Prop) (action : PolicyAction) (st st' : Retry) (w w' : World β) :
    Prop where
  env : w'.env = w.env
  sent : w'.sent = w.sent
  allowed : Allowed st'.request
  filling : (st'.request.filling = st.request.filling ∧ st'.rotated = st.rotated) ∨
    (action = .rotateFilling ∧ st'.request.filling = (rotateFilling st.request).filling ∧ st'.rotated = true)
  waited : ((action = .rotateFilling ∨ action = .retryFreshPrice) ∧ st'.waits = st.waits ∧ w'.slept = w.slept) ∨
    ((action ≠ .rotateFilling ∧ action ≠ .retryFreshPrice) ∧ st'.waits = st.waits.tail ∧
      w'.slept = w.slept ++ [st.waits.headD pol.maxDelay].filter (0 < ·))

theorem backOff_trace (st : Retry) (hst : Allowed st.request) {action : PolicyAction}
    (hwaits : action ≠ .rotateFilling ∧ action ≠ .retryFreshPrice) :
    Ensures (backOff (β := β) pol st) w
      (Post (fun st' w' => Prepared pol Allowed action st st' w w') fun _ _ => False) := by
  unfold backOff
  simp only
  split
  · next hpos =>
    refine ⟨rfl, rfl, hst, Or.inl ⟨rfl, rfl⟩, Or.inr ⟨hwaits, rfl, ?_⟩⟩
    rw [List.filter_cons_of_pos (by simpa using hpos)]
    rfl
  · next hpos =>
    refine ⟨rfl, rfl, hst, Or.inl ⟨rfl, rfl⟩, Or.inr ⟨hwaits, rfl, ?_⟩⟩
    rw [List.filter_cons_of_neg (by simpa using hpos), List.filter_nil, List.append_nil]
    rfl

theorem prepareRetry_trace (hrotate : ∀ r, Allowed r → Allowed (rotateFilling r))
    (hrefresh : RefreshReads Allowed refresh) (action : PolicyAction) (st : Retry) (hst : Allowed st.request) :
    Ensures (prepareRetry pol refresh action st) w
      (Post (fun st' w' => Prepared pol Allowed action st st' w w') fun _ _ => False) := by
  unfold prepareRetry
  cases action with
  | rotateFilling => exact ⟨rfl, rfl, hrotate _ hst, Or.inr ⟨rfl, rfl, rfl⟩, Or.inl ⟨Or.inl rfl, rfl, rfl⟩⟩
  | retryFreshPrice =>
    cases hf : refresh with
    | none => exact ⟨rfl, rfl, hst, Or.inl ⟨rfl, rfl⟩, Or.inl ⟨Or.inr rfl, rfl, rfl⟩⟩
    | some f =>
      refine (hrefresh f hf st.request w hst).bind_total fun r' w' h => ?_
      exact ⟨h.2.env, h.2.sent, h.1.1, Or.inl ⟨h.1.2, rfl⟩, Or.inl ⟨Or.inr rfl, rfl, h.2.slept⟩⟩
  | success | successPartial | retryBackoff | ambiguous | deferLadder | abort | abortAlert =>
    exact backOff_trace st hst ⟨by decide, by decide⟩

theorem LoopTrace.single {budget : Nat} {st : Retry} (hst : Allowed st.request)
    (h : SameLog (w.afterSend st.request) w') : LoopTrace Allowed budget st w w' where
  env := h.env
  log := by
    refine ⟨[], _, h.sent.trans (afterSend_sent _), Nat.zero_le _, ?_, 1, 0, rfl⟩
    intro x hx
    obtain rfl : x = _ := by simpa using hx
    exact hst
  waited := by
    unfold Waited
    rw [sentSince_of_append (h.sent.trans (afterSend_sent _)), show backOffs [_] = 0 from rfl, List.take_zero,
      List.filter_nil, List.append_nil]
    exact h.slept

theorem asksBackOff_iff {s : Sent} {rotated : Bool} (hsucc : succeeded s.answer = none)
    (hgive : givesUp (classify (s.answer.map (·.retcode))) rotated = false) :
    asksBackOff s = true ↔ classify (s.answer.map (·.retcode)) ≠ .rotateFilling ∧
      classify (s.answer.map (·.retcode)) ≠ .retryFreshPrice := by
  have hfailed : classify (s.answer.map (·.retcode)) ≠ .success ∧
      classify (s.answer.map (·.retcode)) ≠ .successPartial := by
    cases hanswer : s.answer with
    | none => exact ⟨by decide, by decide⟩
    | some res =>
      rw [hanswer] at hsucc
      unfold succeeded at hsucc
      simp only [ite_eq_right_iff, reduceCtorEq, imp_false, not_or] at hsucc
      exact hsucc
  unfold asksBackOff
  generalize classify (s.answer.map (·.retcode)) = action at *
  cases action <;> simp_all [givesUp]

theorem LoopTrace.again {budget : Nat} {st st' : Retry} {action : PolicyAction} {w₁ w₂ : World β}
    (hst : Allowed st.request) (hwaits : budget < st.waits.length) (hgive : givesUp action st.rotated = false)
    (hsucc : succeeded (w.outcome st.request).2.2 = none)
    (haction : action = classify ((w.outcome st.request).2.2.map (·.retcode)))
    (hsend : SameLog (w.afterSend st.request) w₁) (hprep : Prepared pol Allowed action st st' w₁ w₂)
    (h : LoopTrace Allowed budget st' w₂ w') : LoopTrace Allowed (budget + 1) st w w' where
  env := h.env.trans (hprep.env.trans hsend.env)
  log := by
    obtain ⟨l, s, hsent, hlen, hall, i, j, hfill⟩ := h.log
    rw [hprep.sent, hsend.sent, afterSend_sent, List.append_assoc] at hsent
    refine ⟨_ :: l, s, hsent, by simpa using hlen, ?_, ?_⟩
    · intro x hx
      rcases List.mem_cons.mp hx with rfl | hx
      · exact hst
      · exact hall x hx
    · rcases hprep.filling with ⟨hsame, hrot⟩ | ⟨rfl, hother, hrot⟩
      · refine ⟨i + 1, j, ?_⟩
        have hspare : st'.spare = st.spare := by
          unfold Retry.spare
          rw [hrot]
          simp only [rotateFilling, hsame]
        rw [hspare, hsame] at hfill
        rw [List.replicate_succ, List.cons_append, List.cons_append, ← hfill]
        rfl
      · -- a rotation: there was none before
        have hfirst : st.rotated = false := hgive
        refine ⟨1, i + j, ?_⟩
        have hspare : st'.spare = st.spare := by
          unfold Retry.spare
          rw [hrot, hfirst]
          exact hother
        have hfilling : st'.request.filling = st.spare := by
          unfold Retry.spare
          rw [hfirst]
          exact hother
        rw [hspare, hfilling, ← List.replicate_add] at hfill
        rw [← hfill]
        rfl
  waited := by
    obtain ⟨l, s, hsent, -⟩ := h.log
    have hslept := h.waited
    unfold Waited at hslept ⊢
    rw [sentSince_of_append hsent] at hslept
    have hall : sentSince w w' =
        ⟨w.settled, st.request, (w.outcome st.request).2.1, (w.outcome st.request).2.2⟩ :: (l ++ [s]) := by
      refine sentSince_of_append ?_
      rw [hsent, hprep.sent, hsend.sent, afterSend_sent, List.append_assoc]
      rfl
    have hrest : (l ++ [s] : List Sent) ≠ [] := by simp
    rw [hall, backOffs, List.dropLast_cons_of_ne_nil hrest, List.countP_cons]
    have hasks := asksBackOff_iff (s := ⟨w.settled, st.request, (w.outcome st.request).2.1, (w.outcome st.request).2.2⟩)
      hsucc (haction ▸ hgive)
    rw [← haction] at hasks
    rcases hprep.waited with ⟨hkind, hwaits', hsame⟩ | ⟨hkind, hwaits', hmore⟩
    · have hno := fun h => (hasks.mp h).elim fun hrotate hfresh => hkind.elim hrotate hfresh
      rw [if_neg hno, hslept, hsame, hsend.slept, hwaits']
      rfl
    · rw [if_pos (hasks.mpr hkind), hslept, hmore, hsend.slept, hwaits']
      cases hcons : st.waits with
      | nil =>
        rw [hcons] at hwaits
        simp at hwaits
      | cons d rest =>
        have hfilter : ∀ k, (d :: rest.take k).filter (0 < ·) = [d].filter (0 < ·) ++ (rest.take k).filter (0 < ·) := by
          intro k
          rw [← List.filter_append, List.singleton_append]
        rw [List.take_succ_cons, hfilter, ← List.append_assoc]
        rfl

/-- **The retry loop.** -/
theorem sendLoop_trace (hrotate : ∀ r, Allowed r → Allowed (rotateFilling r))
    (hrefresh : RefreshReads Allowed refresh) (budget : Nat) (st : Retry) (hst : Allowed st.request)
    (hwaits : budget ≤ st.waits.length) :
    Ensures (b.sendLoop pol refresh guard budget st) w fun res w' =>
      LoopTrace Allowed budget st w w' ∧ b.Settled res w' := by
  -- an attempt that succeeds, and one whose answer is raised
  have hdone : ∀ {budget : Nat} {st : Retry} {w v : World β} {out : SendResult}, Allowed st.request →
      SameLog (w.afterSend st.request) v → AttemptEnds (w.outcome st.request).2.2 (.done out) →
      LoopTrace Allowed budget st w v ∧ b.Settled (.ok out) v :=
    fun hst hv hends => ⟨.single hst hv, _, hv.last, hends⟩
  have hraise : ∀ {budget : Nat} {st : Retry} {w v : World β}, Allowed st.request →
      SameLog (w.afterSend st.request) v →
      Ensures (b.raiseSendError (w.outcome st.request).2.2 st.request) v fun res w' =>
        LoopTrace Allowed budget st w w' ∧ b.Settled res w' := by
    intro budget st w v hst hv
    refine (b.raiseSendError_trace hv.last).mono fun res w' h => ⟨.single hst ?_, h.2⟩
    exact ⟨h.1.env.trans hv.env, h.1.sent.trans hv.sent, h.1.slept.trans hv.slept⟩
  induction budget generalizing st w with
  | zero =>
    unfold sendLoop
    refine (b.attempt_trace guard st.request w).bind_total fun a w₁ ha => ?_
    cases a with
    | done out => exact hdone hst ha.1 ha.2
    | failed action res =>
      obtain ⟨rfl, -⟩ := ha.2
      exact hraise hst ha.1
  | succ budget ih =>
    unfold sendLoop
    refine (b.attempt_trace guard st.request w).bind_total fun a w₁ ha => ?_
    cases a with
    | done out => exact hdone hst ha.1 ha.2
    | failed action res =>
      obtain ⟨rfl, hsucc, haction⟩ := ha.2
      simp only
      split
      · exact hraise hst ha.1
      · next hgive =>
        refine (prepareRetry_trace hrotate hrefresh action st hst).bind_total fun st' w₂ hprep => ?_
        have hwaits' : budget ≤ st'.waits.length := by
          rcases hprep.waited with ⟨-, heq, -⟩ | ⟨-, heq, -⟩
          · rw [heq]
            omega
          · rw [heq, List.length_tail]
            omega
        refine (ih st' hprep.allowed hwaits').mono fun r w' h => ⟨?_, h.2⟩
        exact h.1.again hst hwaits (by simpa using hgive) hsucc haction ha.1 hprep

end Turn

/-! ### `_send` -/

theorem length_delays (pol : RetryPolicy) : (delays pol).length = pol.maxRetries := by
  rw [delays_eq, List.length_map, List.length_range]

section Send

variable {Allowed : OrderRequest → Prop} {refresh : Option (OrderRequest → Mt5 β OrderRequest)} {w : World β}

theorem sendWithPolicy_trace (pol : RetryPolicy) (hrotate : ∀ r, Allowed r → Allowed (rotateFilling r))
    (hrefresh : RefreshReads Allowed refresh) (entryGuard : Bool) {r : OrderRequest} (hr : Allowed r) :
    Ensures (b.sendWithPolicy pol refresh entryGuard r) w fun res w' =>
      LoopTrace Allowed pol.maxRetries { request := r, waits := delays pol } w w' ∧ b.Settled res w' := by
  have hwaits : pol.maxRetries ≤ (delays pol).length := (length_delays pol).ge
  unfold sendWithPolicy
  cases entryGuard with
  | false => exact b.sendLoop_trace hrotate hrefresh pol.maxRetries { request := r, waits := delays pol } hr hwaits
  | true =>
    simp only [if_true]
    rw [ensures_bind, ensures_myPositions, post_ok]
    refine (b.sendLoop_trace hrotate hrefresh pol.maxRetries { request := r, waits := delays pol } hr
      hwaits).mono fun res w' h => ⟨?_, h.2⟩
    exact ⟨h.1.env, h.1.log, h.1.waited⟩

/-- **One `_send`.** -/
theorem send_trace (hrotate : ∀ r, Allowed r → Allowed (rotateFilling r)) (hrefresh : RefreshReads Allowed refresh)
    (entryGuard : Bool) {r : OrderRequest} (hr : Allowed r) :
    Ensures (b.send r refresh entryGuard) w fun res w' =>
      Sending Allowed b.retries w w' ∧ b.Settled res w' := by
  unfold send retries
  cases b.retry with
  | some pol =>
    exact (b.sendWithPolicy_trace pol hrotate hrefresh entryGuard hr).mono fun res w' h => ⟨h.1.sending, h.2⟩
  | none =>
    have hlog : ∀ {v : World β}, SameLog (w.afterSend r) v → Sending Allowed 0 w v := by
      intro v hv
      refine ⟨hv.env, [], _, hv.sent.trans (afterSend_sent _), le_rfl, fun x hx => ?_⟩
      obtain rfl : x = _ := by simpa using hx
      exact hr
    have hraise : Ensures (b.raiseSendError (w.outcome r).2.2 r) (w.afterSend r) fun res w' =>
        Sending Allowed 0 w w' ∧ b.Settled res w' :=
      (b.raiseSendError_trace (SameLog.refl _).last).mono fun res w' h => ⟨hlog h.1, h.2⟩
    simp only
    rw [ensures_bind, ensures_orderSend, post_ok]
    cases hans : (w.outcome r).2.2 with
    | none =>
      rw [hans] at hraise
      exact hraise
    | some res =>
      rw [hans] at hraise
      simp only
      split
      · next hdone =>
        refine ⟨hlog (.refl _), _, (SameLog.refl _).last, Or.inl ?_⟩
        rw [hans]
        exact succeeded_done hdone
      · exact hraise

end Send

end Mt5Broker

end FreqTrading
