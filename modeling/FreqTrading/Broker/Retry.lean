import FreqTrading.Broker.Rules

/-!
# Resending after an ambiguous outcome

The server may execute a request and the client still see no answer, a timeout or a lost connection. With
the entry guard on, such an attempt is followed by a look for its fill, so that one call executes at most
one entry (`entry_fills_once`). Pending legs and closes go through the same loop without the guard; there
the exact condition is proved (`unguarded_once_iff`).
-/

namespace FreqTrading

open Lib

variable {β : Type}

/-! ### The server model -/

/-- The answer leaves open whether the request was executed. -/
def IsAmbiguous (answer : Option OrderResult) : Prop :=
  classify (answer.map (·.retcode)) = .ambiguous

instance (answer : Option OrderResult) : Decidable (IsAmbiguous answer) :=
  inferInstanceAs (Decidable (_ = _))

/-- A request that is executed is answered with a success or ambiguously; any other answer means that it
was not executed. -/
def ExecutionReported (env : Nat → Reply) : Prop :=
  ∀ n, (env n).send.executes = true →
    (Mt5Broker.succeeded (env n).send.answer).isSome = true ∨ IsAmbiguous (env n).send.answer

/-- The requests executed between two worlds. -/
def executedSince (w w' : World β) : List Sent := (w'.sent.drop w.sent.length).filter (·.executed)

theorem executedSince_of_append {w w' : World β} {l : List Sent} (h : w'.sent = w.sent ++ l) :
    executedSince w w' = l.filter (·.executed) := by
  unfold executedSince
  rw [h, List.drop_left]

namespace Mt5Broker

variable (b : Mt5Broker β)

/-! ### Entries -/

/-- No request since `start` was executed. -/
structure Unfilled (start : World β) (w : World β) : Prop where
  env : w.env = start.env
  ticket : w.server.nextTicket = start.server.nextTicket
  sent : ∃ l, w.sent = start.sent ++ l ∧ ∀ s ∈ l, s.executed = false

/-- At most one request since `start` was executed. -/
def FilledOnce (start : World β) (w : World β) : Prop :=
  ∃ l, w.sent = start.sent ++ l ∧ (l.filter (·.executed)).length ≤ 1

theorem Unfilled.filledOnce {start w : World β} (h : Unfilled start w) : FilledOnce start w := by
  obtain ⟨l, hl, hno⟩ := h.sent
  refine ⟨l, hl, ?_⟩
  have hnil : l.filter (·.executed) = [] := List.filter_eq_nil_iff.mpr (by simpa using hno)
  simp [hnil]

theorem Unfilled.afterRead {start w : World β} (h : Unfilled start w) : Unfilled start w.afterRead :=
  ⟨h.env, (Server.applyEvents_nextTicket _ _).trans h.ticket, h.sent⟩

theorem Unfilled.afterSend {start w : World β} (h : Unfilled start w) {r : OrderRequest}
    (hno : (w.outcome r).2.1 = false) : Unfilled start (w.afterSend r) := by
  obtain ⟨l, hl, hall⟩ := h.sent
  refine ⟨h.env, ?_, l ++ [_], by rw [afterSend_sent, hl, List.append_assoc], ?_⟩
  · rw [afterSend_server, outcome_not_executed hno]
    exact (Server.applyEvents_nextTicket _ _).trans h.ticket
  · intro s hs
    rcases List.mem_append.mp hs with hold | hnew
    · exact hall s hold
    · simp only [List.mem_singleton] at hnew
      rw [hnew]
      exact hno

theorem Unfilled.afterFill {start w : World β} (h : Unfilled start w) (r : OrderRequest) :
    FilledOnce start (w.afterSend r) := by
  obtain ⟨l, hl, hall⟩ := h.sent
  refine ⟨l ++ [_], by rw [afterSend_sent, hl, List.append_assoc], ?_⟩
  have hnil : l.filter (·.executed) = [] := List.filter_eq_nil_iff.mpr (by simpa using hall)
  rw [List.filter_append, hnil]
  exact List.length_filter_le _ _

/-- An entry that carries the magic number the broker looks for. -/
def OwnEntry (r : OrderRequest) : Prop :=
  ∃ direction volume price sl tp deviation comment,
    r.body = .entry direction volume price sl tp deviation b.magic comment

theorem entry_executed {w : World β} {r : OrderRequest} (hr : b.OwnEntry r)
    (hex : (w.outcome r).2.1 = true) :
    ∃ p ∈ (w.outcome r).1.positions, p.ticket = w.server.nextTicket ∧ p.magic = b.magic := by
  obtain ⟨direction, volume, price, sl, tp, deviation, comment, hbody⟩ := hr
  obtain ⟨-, -, hperform⟩ := outcome_executed hex
  rw [hbody] at hperform
  simp only [Server.perform, Option.some.injEq] at hperform
  rw [← hperform]
  refine ⟨_, List.mem_append_right _ (List.mem_singleton.mpr rfl), ?_, rfl⟩
  exact Server.applyEvents_nextTicket _ _

/-- **The guard finds the fill.** If the position is still there and the read succeeds, it is recovered. -/
theorem recoveredEntry_finds {w : World β} {before : List Nat} {p : Position} (hread : w.reply.readOk = true)
    (hp : p ∈ w.settled.positions) (hmagic : p.magic = b.magic) (hnew : p.ticket ∉ before) :
    Ensures (b.recoveredEntry before) w (Post (fun out w' => out.isSome = true ∧ w' = w.afterRead) fun _ _ => False) := by
  unfold recoveredEntry
  rw [ensures_bind, ensures_myPositions, post_ok, ensures_pure]
  refine ⟨?_, rfl⟩
  have hmem : p ∈ b.seen w := by
    unfold seen
    rw [if_pos hread]
    exact List.mem_filter.mpr ⟨hp, by simpa using hmagic⟩
  rw [Option.isSome_map, List.find?_isSome]
  exact ⟨p, hmem, by simpa using hnew⟩

theorem recoveredEntry_reads (before : List Nat) (w : World β) :
    Ensures (b.recoveredEntry before) w (Post (fun _ w' => w' = w.afterRead) fun _ _ => False) := by
  unfold recoveredEntry
  rw [ensures_bind, ensures_myPositions, post_ok, ensures_pure]
  rfl

theorem succeeded_none {answer : Option OrderResult} (h : succeeded answer = none) :
    (succeeded answer).isSome = false := by
  rw [h]
  rfl

/-- What the environment has to be like for the guard: executions are reported as assumed, reads succeed,
and what is opened during the call is still open at the next read. -/
structure FillsShow (start : World β) : Prop where
  reported : ExecutionReported start.env
  reads : ∀ n, (start.env n).readOk = true
  stays : ∀ n ticket profit, .closed ticket profit ∈ (start.env n).events → ticket < start.server.nextTicket

theorem guarded_attempt {start w : World β} {before : List Nat} {r : OrderRequest} (hshow : FillsShow start)
    (hbefore : ∀ t ∈ before, t < start.server.nextTicket) (hw : Unfilled start w) (hr : b.OwnEntry r) :
    Ensures (b.attempt (some before) r) w (Post (fun a w' => match a with
      | .done _ => FilledOnce start w'
      | .failed _ _ => Unfilled start w') fun _ w' => Unfilled start w') := by
  unfold attempt
  rw [ensures_bind, ensures_orderSend, post_ok]
  by_cases hex : (w.outcome r).2.1 = true
  · -- executed: the answer is a success, or the guard finds the new position
    have honce : FilledOnce start (w.afterSend r) := hw.afterFill r
    cases hsucc : succeeded (w.outcome r).2.2 with
    | some out => exact honce
    | none =>
      obtain ⟨hexec, hanswer, -⟩ := outcome_executed hex
      have hamb : IsAmbiguous (w.outcome r).2.2 := by
        rw [hanswer] at hsucc ⊢
        have hreport := hshow.reported w.calls
        rw [← hw.env] at hreport
        rcases hreport hexec with hs | ha
        · have hnone := succeeded_none hsucc
          rw [show (succeeded w.reply.send.answer).isSome = true from hs] at hnone
          cases hnone
        · exact ha
      simp only [show classify ((w.outcome r).2.2.map (·.retcode)) = .ambiguous from hamb, if_true]
      obtain ⟨p, hp, hticket, hmagic⟩ := b.entry_executed hr hex
      rw [hw.ticket] at hticket
      have hstill : p ∈ (w.afterSend r).settled.positions := by
        refine Server.mem_applyEvents_of_not_closed hp fun profit hmem => ?_
        have hlt := hshow.stays (w.calls + 1) p.ticket profit (by rw [← hw.env]; exact hmem)
        omega
      have hnew : p.ticket ∉ before := fun hmem => by
        have := hbefore _ hmem
        omega
      have hread : (w.afterSend r).reply.readOk = true := by
        have := hshow.reads (w.calls + 1)
        rwa [← hw.env] at this
      refine (b.recoveredEntry_finds hread hstill hmagic hnew).bind_total fun out w' hout => ?_
      obtain ⟨hsome, rfl⟩ := hout
      obtain ⟨res, hres⟩ := Option.isSome_iff_exists.mp hsome
      rw [hres]
      exact honce
  · -- not executed: nothing changes but the reads that follow
    have hstill : Unfilled start (w.afterSend r) := hw.afterSend (by simpa using hex)
    cases hsucc : succeeded (w.outcome r).2.2 with
    | some out => exact hstill.filledOnce
    | none =>
      simp only
      split
      · refine (b.recoveredEntry_reads before _).bind_total fun out w' hread => ?_
        have hun : Unfilled start w' := hread ▸ hstill.afterRead
        cases out with
        | none => exact hun
        | some res => exact hun.filledOnce
      · exact hstill

theorem refreshEntry_own {sig : Signal} {r : OrderRequest} (hr : b.OwnEntry r) (w : World β) :
    Ensures (b.refreshEntry sig r) w (Post (fun r' w' => b.OwnEntry r' ∧ w' = w.afterRead) fun _ _ => False) := by
  rw [ensures_refreshEntry, post_ok]
  refine ⟨?_, rfl⟩
  unfold refreshed
  cases w.reply.tick with
  | none => exact hr
  | some tick =>
    obtain ⟨direction, volume, price, sl, tp, deviation, comment, hbody⟩ := hr
    rw [hbody]
    exact ⟨_, _, _, _, _, _, _, rfl⟩

theorem FilledOnce.executedSince {start w : World β} (h : FilledOnce start w) :
    (executedSince start w).length ≤ 1 := by
  obtain ⟨l, hl, hlen⟩ := h
  rw [executedSince_of_append hl]
  exact hlen

/-- **No double market entry.** One guarded call of `_send_with_policy` for an entry executes at most one
request, whatever the answers, quotes and number of retries. -/
theorem entry_fills_once (pol : RetryPolicy) (sig : Signal) (price volume : ℚ) (f : Filling) (w : World β)
    (hshow : FillsShow w) (hissued : w.server.Issued) :
    (executedSince w (exec (b.sendWithPolicy pol (some (b.refreshEntry sig)) true
      (b.entryRequest sig price volume f)) w).2).length ≤ 1 := by
  have hstart : Unfilled w w.afterRead :=
    Unfilled.afterRead ⟨rfl, rfl, [], (List.append_nil _).symm, by simp⟩
  -- the tickets of the snapshot were handed out before the call
  have hbefore : ∀ t ∈ (b.seen w).map (·.ticket), t < w.server.nextTicket := by
    intro t ht
    obtain ⟨p, hp, rfl⟩ := List.mem_map.mp ht
    unfold seen at hp
    have hread : w.reply.readOk = true := hshow.reads w.calls
    rw [if_pos hread] at hp
    have hlt := (hissued.applyEvents w.reply.events).positions p (List.mem_filter.mp hp).1
    rwa [Server.applyEvents_nextTicket] at hlt
  have hloop : Ensures (b.sendWithPolicy pol (some (b.refreshEntry sig)) true (b.entryRequest sig price volume f)) w
      (Post (fun _ w' => FilledOnce w w') fun _ w' => Unfilled w w') := by
    unfold sendWithPolicy
    simp only [if_true]
    rw [ensures_bind, ensures_myPositions, post_ok]
    refine b.sendLoop_rule (fun w' r hw' hr => b.guarded_attempt hshow hbefore hw' hr)
      (fun w' h => h.afterRead) (fun w' d h => ⟨h.env, h.ticket, h.sent⟩) (fun r hr => hr) ?_ _ _ hstart
      ⟨_, _, _, _, _, _, _, rfl⟩
    intro g hg w' r hw' hr
    cases hg
    refine (b.refreshEntry_own hr w').weaken (fun r' w'' h => ⟨h.1, ?_⟩) fun _ _ h => h.elim
    rw [h.2]
    exact hw'.afterRead
  apply FilledOnce.executedSince
  show Ensures _ w fun _ w' => FilledOnce w w'
  refine hloop.mono fun res w' h => ?_
  cases res with
  | ok _ => exact h
  | error _ => exact Unfilled.filledOnce h

/-- The server executes every request, and the client never gets an answer. -/
def deafWorld : World Unit where
  server := {}
  env := fun _ => { tick := some ⟨100, 101, 0⟩, send := { executes := true, answer := none, price := 101 } }
  bot := ()

def longSignal : Signal where
  ts := 0
  kind := .entry
  direction := .long
  price := 100
  stateFrom := .rangeDefined
  stateTo := .breakout
  reason := "breakout_long"
  stop := some 98

/-- The first attempt is executed without an answer; the guard finds it and nothing is sent again. -/
theorem entry_fills_once_deaf :
    (executedSince deafWorld (exec (({} : Mt5Broker Unit).sendWithPolicy {}
      (some (({} : Mt5Broker Unit).refreshEntry longSignal)) true
      (({} : Mt5Broker Unit).entryRequest longSignal 101 1 .ioc)) deafWorld).2).length ≤ 1 :=
  entry_fills_once {} {} longSignal 101 1 .ioc deafWorld
    ⟨fun _ _ => Or.inr rfl, fun _ => rfl, fun _ _ _ h => by cases h⟩
    (Server.issued_of_nil rfl rfl)

/-! ### Requests without the guard -/

/-- The world after `k` attempts to send the request. -/
def afterAttempts (r : OrderRequest) : Nat → World β → World β
  | 0, w => w
  | k + 1, w => afterAttempts r k (w.afterSend r)

/-- The server executes attempt `k`, counted from 0. -/
def executedAt (r : OrderRequest) (w : World β) (k : Nat) : Bool := ((afterAttempts r k w).outcome r).2.1

/-- The environment answers as the world's does, up to and including the first attempt that is executed. -/
def SameUntilExecuted (r : OrderRequest) (w : World β) (env : Nat → Reply) : Prop :=
  ∀ n, (∀ k < n, executedAt r w k = false) → env (w.calls + n) = w.env (w.calls + n)

/-- The request is executed at most once, whatever the server does after the first execution. -/
def AtMostOnce (r : OrderRequest) (w : World β) : Prop :=
  ∀ env, ExecutionReported env → SameUntilExecuted r w env →
    (executedSince w (exec (b.send r none false) { w with env := env }).2).length ≤ 1

/-- The first attempt that is executed is answered ambiguously, with a retry left, and leaves something to
execute again. -/
def Exposed (r : OrderRequest) : Nat → Bool → World β → Prop
  | 0, _, _ => False
  | budget + 1, rotated, w =>
    if (w.outcome r).2.1 then IsAmbiguous (w.outcome r).2.2 ∧ (w.outcome r).1.CanPerform r.body
    else succeeded (w.outcome r).2.2 = none ∧
      givesUp (classify ((w.outcome r).2.2.map (·.retcode))) rotated = false ∧
      Exposed r budget (rotated || classify ((w.outcome r).2.2.map (·.retcode)) = .rotateFilling) (w.afterSend r)

theorem outcome_congr {w v : World β} {r r' : OrderRequest} (hserver : v.server = w.server)
    (hreply : v.reply = w.reply) (hbody : r'.body = r.body) : v.outcome r' = w.outcome r := by
  unfold World.outcome World.settled
  rw [hserver, hreply, hbody]

/-- What was sent since `v` satisfies `P`. -/
def SentSince (v : World β) (P : List Sent → Prop) (v' : World β) : Prop := ∃ l, v'.sent = v.sent ++ l ∧ P l

/-- The record of an attempt. -/
def record (v : World β) (r : OrderRequest) : Sent := ⟨v.settled, r, (v.outcome r).2.1, (v.outcome r).2.2⟩

theorem sentSince_record {v v' : World β} {r : OrderRequest} {P : List Sent → Prop}
    (h : SentSince (v.afterSend r) (fun l => P (record v r :: l)) v') : SentSince v P v' := by
  obtain ⟨l, hl, hP⟩ := h
  refine ⟨record v r :: l, ?_, hP⟩
  rw [hl, afterSend_sent, List.append_assoc]
  rfl

theorem prepareRetry_unguarded (pol : RetryPolicy) (action : PolicyAction) (st : Retry) (v : World β) :
    Ensures (prepareRetry pol none action st) v (Post (fun st' v' => st'.request.body = st.request.body ∧
      st'.rotated = (st.rotated || action = .rotateFilling) ∧ ∃ d, v' = { v with slept := d }) fun _ _ => False) := by
  have hwait : Ensures (backOff pol st) v (Post (fun st' v' => st'.request.body = st.request.body ∧
      st'.rotated = st.rotated ∧ ∃ d, v' = { v with slept := d }) fun _ _ => False) := by
    unfold backOff
    simp only
    split
    · exact ⟨rfl, rfl, _, rfl⟩
    · exact ⟨rfl, rfl, v.slept, rfl⟩
  unfold prepareRetry
  cases action with
  | rotateFilling => exact ⟨rfl, by simp, v.slept, rfl⟩
  | retryFreshPrice => exact ⟨rfl, by simp, v.slept, rfl⟩
  | success | successPartial | retryBackoff | ambiguous | deferLadder | abort | abortAlert =>
    simpa using hwait

/-- One round of the loop without guard and refresh: the attempt is recorded, and either the loop is over
or it goes on with the same request body. -/
theorem sendLoop_unguarded {pol : RetryPolicy} {budget : Nat} {st : Retry} {v : World β} {P : List Sent → Prop}
    (hstop : budget = 0 ∨ (succeeded (v.outcome st.request).2.2).isSome = true ∨
      givesUp (classify ((v.outcome st.request).2.2.map (·.retcode))) st.rotated = true → P [record v st.request])
    (hretry : ∀ n st' d, budget = n + 1 → succeeded (v.outcome st.request).2.2 = none →
      givesUp (classify ((v.outcome st.request).2.2.map (·.retcode))) st.rotated = false →
      st'.request.body = st.request.body →
      st'.rotated = (st.rotated || classify ((v.outcome st.request).2.2.map (·.retcode)) = .rotateFilling) →
      Ensures (b.sendLoop pol none none n st') { v.afterSend st.request with slept := d }
        fun _ => SentSince (v.afterSend st.request) fun l => P (record v st.request :: l)) :
    Ensures (b.sendLoop pol none none budget st) v fun _ => SentSince v P := by
  have hraise : ∀ res : Option OrderResult, P [record v st.request] →
      Ensures (b.raiseSendError (α := SendResult) res st.request) (v.afterSend st.request) fun _ => SentSince v P := by
    intro res hP
    refine (b.raiseSendError_rule (I := fun w => w.sent = (v.afterSend st.request).sent) (fun w hw => hw)
      rfl).mono fun r v' h => ?_
    cases r with
    | ok _ => exact h.elim
    | error _ => exact ⟨[record v st.request], h, hP⟩
  have hround : ∀ {k : Attempt → Mt5 β SendResult}, (∀ out, k (.done out) = pure out) →
      ((succeeded (v.outcome st.request).2.2) = none →
        Ensures (k (.failed (classify ((v.outcome st.request).2.2.map (·.retcode))) (v.outcome st.request).2.2))
          (v.afterSend st.request) fun _ => SentSince v P) →
      Ensures (b.attempt none st.request >>= k) v fun _ => SentSince v P := by
    intro k hdone hfailed
    unfold attempt
    rw [ensures_bind, ensures_bind, ensures_orderSend, post_ok]
    cases hsucc : succeeded (v.outcome st.request).2.2 with
    | some out =>
      simp only [ensures_pure, post_ok, hdone]
      exact ⟨[record v st.request], rfl, hstop (Or.inr (Or.inl (by rw [hsucc]; rfl)))⟩
    | none => exact hfailed hsucc
  cases budget with
  | zero =>
    unfold sendLoop
    exact hround (fun out => rfl) fun _ => hraise _ (hstop (Or.inl rfl))
  | succ n =>
    unfold sendLoop
    refine hround (fun out => rfl) fun hnone => ?_
    simp only
    split
    · next hgive => exact hraise _ (hstop (Or.inr (Or.inr hgive)))
    · next hgive =>
      refine (prepareRetry_unguarded pol _ st _).bind_total fun st' v' hst => ?_
      obtain ⟨hbody, hrot, d, rfl⟩ := hst
      exact (hretry n st' d rfl hnone (by simpa using hgive) hbody hrot).mono fun _ _ => sentSince_record

theorem outcome_of_not_canPerform {v : World β} {r : OrderRequest} (h : ¬ v.settled.CanPerform r.body) :
    (v.outcome r).2.1 = false := by
  by_contra hex
  obtain ⟨-, -, hperform⟩ := outcome_executed (by simpa using hex)
  exact h ((Server.perform_isSome _ _ _ _ _).mp (by rw [hperform]; rfl))

theorem targetIsPosition_outcome {v : World β} {r : OrderRequest} (h : v.server.TargetIsPosition r.body) :
    (v.outcome r).1.TargetIsPosition r.body := by
  have hsettled : v.settled.TargetIsPosition r.body := h.of_orders fun o ho => Server.orders_applyEvents ho
  by_cases hex : (v.outcome r).2.1 = true
  · obtain ⟨-, -, hperform⟩ := outcome_executed hex
    cases hbody : r.body with
    | entry | pending | remove => trivial
    | close direction volume ticket =>
      rw [hbody] at hperform hsettled
      refine hsettled.of_orders fun o ho => ?_
      simp only [Server.perform] at hperform
      split at hperform
      · cases hperform
      · split at hperform
        · rw [← Option.some.inj hperform] at ho
          exact ho
        · cases hperform
    | sltp ticket =>
      rw [hbody] at hperform hsettled
      refine hsettled.of_orders fun o ho => ?_
      simp only [Server.perform] at hperform
      split at hperform
      · cases hperform
      · rw [← Option.some.inj hperform] at ho
        exact ho
  · rw [outcome_not_executed (by simpa using hex)]
    exact hsettled

theorem sendLoop_hopeless (pol : RetryPolicy) (budget : Nat) (st : Retry) (v : World β)
    (htarget : v.server.TargetIsPosition st.request.body) (hno : ¬ v.server.CanPerform st.request.body) :
    Ensures (b.sendLoop pol none none budget st) v fun _ => SentSince v fun l => ∀ s ∈ l, s.executed = false := by
  induction budget generalizing st v with
  | zero =>
    have hrec : (v.outcome st.request).2.1 = false :=
      outcome_of_not_canPerform (Server.not_canPerform_applyEvents htarget hno _)
    refine b.sendLoop_unguarded (fun _ => by simpa [record] using hrec) fun n _ _ h => by cases h
  | succ budget ih =>
    have hrec : (v.outcome st.request).2.1 = false :=
      outcome_of_not_canPerform (Server.not_canPerform_applyEvents htarget hno _)
    refine b.sendLoop_unguarded (fun _ => by simpa [record] using hrec) fun n st' d hn _ _ hbody _ => ?_
    obtain rfl : budget = n := by omega
    refine (ih st' { v.afterSend st.request with slept := d } ?_ ?_).mono fun _ v' h => ?_
    · rw [hbody]
      exact targetIsPosition_outcome htarget
    · rw [hbody]
      show ¬ (v.outcome st.request).1.CanPerform st.request.body
      rw [outcome_not_executed hrec]
      exact Server.not_canPerform_applyEvents htarget hno _
    · obtain ⟨l, hl, hall⟩ := h
      refine ⟨l, hl, fun s hs => ?_⟩
      rcases List.mem_cons.mp hs with rfl | hs
      · exact hrec
      · exact hall s hs

theorem sameUntilExecuted_next {r : OrderRequest} {w : World β} {env : Nat → Reply}
    (h : SameUntilExecuted r w env) (hno : (w.outcome r).2.1 = false) :
    SameUntilExecuted r (w.afterSend r) env := by
  intro n hn
  have hcalls : (w.afterSend r).calls + n = w.calls + (n + 1) := by
    rw [afterSend_calls]
    omega
  rw [hcalls]
  refine h (n + 1) fun k hk => ?_
  cases k with
  | zero => exact hno
  | succ k => exact hn k (by omega)

/-- A world that differs from `w` in what it will do later only, before the next attempt. -/
structure Agrees (r : OrderRequest) (w v : World β) : Prop where
  server : v.server = w.server
  calls : v.calls = w.calls
  same : SameUntilExecuted r w v.env

theorem Agrees.outcome {r r' : OrderRequest} {w v : World β} (h : Agrees r w v) (hbody : r'.body = r.body) :
    v.outcome r' = w.outcome r := by
  refine outcome_congr h.server ?_ hbody
  have hreply := h.same 0 (by simp)
  unfold World.reply
  rw [h.calls]
  exact hreply

theorem Agrees.next {r r' : OrderRequest} {w v : World β} (h : Agrees r w v) (hbody : r'.body = r.body)
    (hno : (w.outcome r).2.1 = false) (d : List ℚ) :
    Agrees r (w.afterSend r) { v.afterSend r' with slept := d } where
  server := by
    show (v.outcome r').1 = (w.outcome r).1
    rw [h.outcome hbody]
  calls := by
    show v.calls + 1 = w.calls + 1
    rw [h.calls]
  same := sameUntilExecuted_next h.same hno

theorem executed_count (v : World β) (r : OrderRequest) (l : List Sent) :
    ((record v r :: l).filter (·.executed)).length =
      (if (v.outcome r).2.1 = true then 1 else 0) + (l.filter (·.executed)).length := by
  rw [List.filter_cons]
  show (if (v.outcome r).2.1 = true then record v r :: l.filter (·.executed) else l.filter (·.executed)).length = _
  split
  · rw [List.length_cons, Nat.add_comm]
  · rw [Nat.zero_add]

theorem ambiguous_of_executed {v : World β} {r : OrderRequest} (hreport : ExecutionReported v.env)
    (hex : (v.outcome r).2.1 = true) (hfail : succeeded (v.outcome r).2.2 = none) : IsAmbiguous (v.outcome r).2.2 := by
  obtain ⟨hexec, hanswer, -⟩ := outcome_executed hex
  rw [hanswer] at hfail ⊢
  rcases hreport v.calls hexec with hs | ha
  · have hnone := succeeded_none hfail
    rw [show (succeeded v.reply.send.answer).isSome = true from hs] at hnone
    cases hnone
  · exact ha

theorem retried_of_ambiguous {answer : Option OrderResult} (h : IsAmbiguous answer) :
    succeeded answer = none ∧ ∀ rotated, givesUp (classify (answer.map (·.retcode))) rotated = false := by
  unfold IsAmbiguous at h
  constructor
  · unfold succeeded
    cases answer with
    | none => rfl
    | some res =>
      rw [Option.map_some] at h
      simp [h]
  · intro rotated
    rw [h]
    rfl

theorem sendLoop_once (pol : RetryPolicy) {r : OrderRequest} (budget : Nat) (st : Retry) {w v : World β}
    (hagree : Agrees r w v) (hbody : st.request.body = r.body) (hreport : ExecutionReported v.env)
    (htarget : w.server.TargetIsPosition r.body) (hexposed : ¬ Exposed r budget st.rotated w) :
    Ensures (b.sendLoop pol none none budget st) v fun _ =>
      SentSince v fun l => (l.filter (·.executed)).length ≤ 1 := by
  induction budget generalizing st w v with
  | zero =>
    exact b.sendLoop_unguarded (fun _ => List.length_filter_le _ _) fun n _ _ h => by cases h
  | succ budget ih =>
    have hout := hagree.outcome hbody
    refine b.sendLoop_unguarded (fun _ => List.length_filter_le _ _) fun n st' d hn hfail hgive hbody' hrot => ?_
    obtain rfl : budget = n := by omega
    rw [hout] at hfail hgive hrot
    unfold Exposed at hexposed
    by_cases hex : (w.outcome r).2.1 = true
    · -- executed and retried: the answer was ambiguous, and nothing is left to execute
      rw [if_pos hex] at hexposed
      have hamb : IsAmbiguous (w.outcome r).2.2 := by
        rw [← hout] at hex hfail ⊢
        exact ambiguous_of_executed hreport hex hfail
      have hno : ¬ (w.outcome r).1.CanPerform r.body := fun hcan => hexposed ⟨hamb, hcan⟩
      refine (b.sendLoop_hopeless pol budget st' { v.afterSend st.request with slept := d } ?_ ?_).mono
        fun _ v' h => ?_
      · show (v.outcome st.request).1.TargetIsPosition st'.request.body
        rw [hout, hbody', hbody]
        exact targetIsPosition_outcome htarget
      · show ¬ (v.outcome st.request).1.CanPerform st'.request.body
        rw [hout, hbody', hbody]
        exact hno
      · obtain ⟨l, hl, hall⟩ := h
        refine ⟨l, hl, ?_⟩
        have hnil : l.filter (·.executed) = [] := List.filter_eq_nil_iff.mpr (by simpa using hall)
        show ((record v st.request :: l).filter (·.executed)).length ≤ 1
        rw [executed_count, hnil, List.length_nil, if_pos (by rw [hout]; exact hex)]
    · have hex' : (w.outcome r).2.1 = false := by simpa using hex
      rw [if_neg hex] at hexposed
      refine (ih st' (hagree.next hbody hex' d) (hbody'.trans hbody) hreport ?_ ?_).mono fun _ v' h => ?_
      · exact targetIsPosition_outcome htarget
      · rw [hrot]
        exact fun hexp => hexposed ⟨hfail, hgive, hexp⟩
      · obtain ⟨l, hl, hlen⟩ := h
        refine ⟨l, hl, ?_⟩
        show ((record v st.request :: l).filter (·.executed)).length ≤ 1
        rw [executed_count, if_neg (by rw [hout]; exact hex), Nat.zero_add]
        exact hlen

/-- A server that executes what it is asked to, and says so. -/
def again : Reply := { send := { executes := true, answer := some {} } }

theorem sendLoop_again (pol : RetryPolicy) (budget : Nat) (st : Retry) {v : World β} (hreply : v.reply = again)
    (hcan : v.server.CanPerform st.request.body) :
    Ensures (b.sendLoop pol none none budget st) v fun _ =>
      SentSince v fun l => 1 ≤ (l.filter (·.executed)).length := by
  have hout : (v.outcome st.request).2 = (true, some {}) := by
    obtain ⟨s', hs'⟩ := Option.isSome_iff_exists.mp
      ((Server.perform_isSome _ none 0 0 _).mpr hcan)
    have hsettled : v.settled = v.server := by
      unfold World.settled
      rw [hreply]
      rfl
    unfold World.outcome
    rw [hsettled, hreply]
    simp [again, hs']
  refine b.sendLoop_unguarded (fun _ => ?_) fun n _ _ _ hnone => ?_
  · rw [List.filter_cons, if_pos (by show (v.outcome st.request).2.1 = true; rw [hout])]
    simp
  · rw [hout] at hnone
    exact absurd hnone (by decide)

/-- The environment of the world up to the first execution of the request, and `again` after it. -/
def thenAgain (r : OrderRequest) (w : World β) (n : Nat) : Reply :=
  if (List.range (n - w.calls)).any (executedAt r w) then again else w.env n

theorem sendLoop_twice (pol : RetryPolicy) {r : OrderRequest} (budget : Nat) (st : Retry) {w v : World β}
    (hagree : Agrees r w v) (hbody : st.request.body = r.body)
    (hagain : ∀ n, (∃ k < n, executedAt r w k = true) → v.env (w.calls + n) = again)
    (hexposed : Exposed r budget st.rotated w) :
    Ensures (b.sendLoop pol none none budget st) v fun _ =>
      SentSince v fun l => 2 ≤ (l.filter (·.executed)).length := by
  induction budget generalizing st w v with
  | zero => exact hexposed.elim
  | succ budget ih =>
    have hout := hagree.outcome hbody
    unfold Exposed at hexposed
    by_cases hex : (w.outcome r).2.1 = true
    · rw [if_pos hex] at hexposed
      obtain ⟨hamb, hcan⟩ := hexposed
      obtain ⟨hfail, hgive⟩ := retried_of_ambiguous hamb
      refine b.sendLoop_unguarded (fun hstop => ?_) fun n st' d hn _ _ hbody' _ => ?_
      · rw [hout, hfail, hgive] at hstop
        simp at hstop
      · -- the resend is executed too
        obtain rfl : budget = n := by omega
        have hreply : ({ v.afterSend st.request with slept := d } : World β).reply = again := by
          have := hagain 1 ⟨0, by omega, hex⟩
          rw [← hagree.calls] at this
          exact this
        have hnext : ({ v.afterSend st.request with slept := d } : World β).server.CanPerform st'.request.body := by
          rw [hbody', hbody]
          show (v.outcome st.request).1.CanPerform r.body
          rw [hout]
          exact hcan
        refine (b.sendLoop_again pol budget st' hreply hnext).mono fun _ v' h => ?_
        obtain ⟨l, hl, hlen⟩ := h
        refine ⟨l, hl, ?_⟩
        show 2 ≤ ((record v st.request :: l).filter (·.executed)).length
        rw [executed_count, if_pos (by rw [hout]; exact hex)]
        omega
    · have hex' : (w.outcome r).2.1 = false := by simpa using hex
      rw [if_neg hex] at hexposed
      obtain ⟨hfail, hgive, hexp⟩ := hexposed
      refine b.sendLoop_unguarded (fun hstop => ?_) fun n st' d hn _ _ hbody' hrot => ?_
      · rw [hout, hfail, hgive] at hstop
        simp at hstop
      · obtain rfl : budget = n := by omega
        rw [hout] at hrot
        have hagain' : ∀ n, (∃ k < n, executedAt r (w.afterSend r) k = true) →
            ({ v.afterSend st.request with slept := d } : World β).env ((w.afterSend r).calls + n) = again := by
          rintro n ⟨k, hk, hexec⟩
          have hlater := hagain (n + 1) ⟨k + 1, by omega, hexec⟩
          rwa [show w.calls + (n + 1) = (w.afterSend r).calls + n by rw [afterSend_calls]; omega] at hlater
        refine (ih st' (hagree.next hbody hex' d) (hbody'.trans hbody) hagain' (hrot ▸ hexp)).mono
          fun _ v' h => ?_
        obtain ⟨l, hl, hlen⟩ := h
        refine ⟨l, hl, ?_⟩
        show 2 ≤ ((record v st.request :: l).filter (·.executed)).length
        rw [executed_count, if_neg (by rw [hout]; exact hex), Nat.zero_add]
        exact hlen

theorem thenAgain_same (r : OrderRequest) (w : World β) : SameUntilExecuted r w (thenAgain r w) := by
  intro n hn
  unfold thenAgain
  rw [if_neg]
  simp only [List.any_eq_true, List.mem_range, not_exists, not_and, Nat.add_sub_cancel_left]
  intro k hk
  simp [hn k hk]

theorem thenAgain_after {r : OrderRequest} {w : World β} {n : Nat} (h : ∃ k < n, executedAt r w k = true) :
    thenAgain r w (w.calls + n) = again := by
  obtain ⟨k, hk, hexec⟩ := h
  unfold thenAgain
  rw [if_pos]
  simp only [List.any_eq_true, List.mem_range, Nat.add_sub_cancel_left]
  exact ⟨k, hk, hexec⟩

theorem thenAgain_reported {r : OrderRequest} {w : World β} (h : ExecutionReported w.env) :
    ExecutionReported (thenAgain r w) := by
  intro n hn
  unfold thenAgain at hn ⊢
  split
  · exact Or.inl rfl
  · next hno =>
    rw [if_neg hno] at hn
    exact h n hn

/-- **Exactly when a request without the guard is executed once.** -/
theorem atMostOnce_iff {pol : RetryPolicy} {r : OrderRequest} {w : World β} (hret : b.retry = some pol)
    (hreport : ExecutionReported w.env) (htarget : w.server.TargetIsPosition r.body) :
    b.AtMostOnce r w ↔ ¬ Exposed r pol.maxRetries false w := by
  have hsend : b.send r none false = b.sendLoop pol none none pol.maxRetries { request := r, waits := delays pol } := by
    unfold send sendWithPolicy
    rw [hret]
    rfl
  unfold AtMostOnce
  rw [hsend]
  constructor
  · intro honce hexposed
    have hle := honce (thenAgain r w) (thenAgain_reported hreport) (thenAgain_same r w)
    obtain ⟨l, hl, htwo⟩ := b.sendLoop_twice (w := w) (v := { w with env := thenAgain r w }) pol pol.maxRetries
      { request := r, waits := delays pol } ⟨rfl, rfl, thenAgain_same r w⟩ rfl (fun n => thenAgain_after) hexposed
    rw [executedSince_of_append (w := w) hl] at hle
    omega
  · intro hexposed env henv hsame
    obtain ⟨l, hl, hone⟩ := b.sendLoop_once (w := w) (v := { w with env := env }) pol pol.maxRetries
      { request := r, waits := delays pol } ⟨rfl, rfl, hsame⟩ rfl henv htarget hexposed
    rw [executedSince_of_append (w := w) hl]
    exact hone

/-- **Resending a leg or a close.** Under a retry policy a leg of a limit entry, and a request of
`_close_position`, is executed at most once, whatever the server does with the later attempts, exactly when
the first attempt that is executed is not answered ambiguously with a retry left (for a close: while the
rest of the position still has the requested volume). -/
theorem resend_once_iff (pol : RetryPolicy) (hret : b.retry = some pol) (w : World β)
    (hreport : ExecutionReported w.env) :
    (∀ sig d leg, b.AtMostOnce (b.legRequest sig d leg) w ↔
      ¬ Exposed (b.legRequest sig d leg) pol.maxRetries false w) ∧
    (∀ p volume price reason f, (∀ o ∈ w.server.orders, o.ticket ≠ p.ticket) →
      (b.AtMostOnce (b.closeRequest p volume price reason f) w ↔
        ¬ Exposed (b.closeRequest p volume price reason f) pol.maxRetries false w)) :=
  ⟨fun _ _ _ => b.atMostOnce_iff hret hreport trivial,
    fun _ _ _ _ _ hticket => b.atMostOnce_iff hret hreport hticket⟩

/-- A server that first asks for another price, and from then on executes what it is asked to and says so. -/
def requotedWorld : World Unit where
  server := {}
  env n := if n = 0 then { send := { executes := false, answer := some { retcode := 10004 } } } else again
  bot := ()

/-- Two retries are left when the leg is executed; that the server says so ends the loop. -/
theorem resend_once_requoted :
    let b : Mt5Broker Unit := { retry := some {} }
    let leg := b.legRequest longSignal 2 ("entry", 98)
    (exec (b.send leg none false) requotedWorld).2.sent.map (·.executed) = [false, true] ∧
      b.AtMostOnce leg requotedWorld := by
  intro b leg
  have hreport : ExecutionReported requotedWorld.env := by
    intro n hn
    cases n with
    | zero => cases hn
    | succ n => exact Or.inl rfl
  refine ⟨by decide +kernel, (((b.resend_once_iff {} rfl requotedWorld hreport).1 longSignal 2 ("entry", 98)).mpr ?_)⟩
  intro hexposed
  rw [Exposed, if_neg (by decide +kernel)] at hexposed
  obtain ⟨-, -, hlater⟩ := hexposed
  rw [Exposed, if_pos (by decide +kernel)] at hlater
  exact absurd hlater.1 (by decide +kernel)

/-- A server that executes everything and answers nothing: the leg is placed four times. -/
theorem leg_placed_again :
    ¬ ∀ (b : Mt5Broker Unit) (pol : RetryPolicy) (w : World Unit) (sig : Signal) (d : ℚ) (leg : String × ℚ),
      b.retry = some pol → ExecutionReported w.env →
      (executedSince w (exec (b.send (b.legRequest sig d leg) none false) w).2).length ≤ 1 := by
  intro h
  have hle := h { retry := some {} } {} deafWorld longSignal 2 ("entry", 98) rfl fun _ _ => Or.inr rfl
  exact absurd hle (by decide +kernel)

end Mt5Broker

end FreqTrading
