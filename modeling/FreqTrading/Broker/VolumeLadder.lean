import FreqTrading.Broker.SendTrace
import FreqTrading.Broker.Steps

/-!
# The log of an entry

A market entry leaves a rung of requests for each volume of the ladder it tries, from the wanted one down, and
ends with the last of them (`openLadder_trace`). Every request is an entry of the signal, whatever was
refreshed or rotated on the way. A limit entry leaves the requests of its legs (`placeLegs_trace`).
-/

namespace FreqTrading

open Lib

variable {β : Type}

namespace Mt5Broker

variable (b : Mt5Broker β)

/-! ### One step of the ladder -/

/-- The part of `_open` under `try`, with the request it sends. -/
def tryVolume (sig : Signal) (price vol : ℚ) : Mt5 β SendResult := do
  let f ← filling
  b.send (b.entryRequest sig price vol f) (some (b.refreshEntry sig)) true

/-- An entry of the signal for this volume, at some price. -/
def IsEntry (sig : Signal) (vol : ℚ) (r : OrderRequest) : Prop := ∃ price f, r = b.entryRequest sig price vol f

theorem rotateFilling_entry (sig : Signal) (vol : ℚ) (r : OrderRequest) (h : b.IsEntry sig vol r) :
    b.IsEntry sig vol (rotateFilling r) := by
  obtain ⟨price, f, rfl⟩ := h
  cases f with
  | ioc => exact ⟨price, .fok, rfl⟩
  | fok => exact ⟨price, .ioc, rfl⟩
  | ret => exact ⟨price, .ret, rfl⟩

theorem refreshed_sl (sig : Signal) (price px : ℚ) :
    (match sig.stop with
      | none => roundPrice (anchoredSl sig price)
      | some x => if x = 0 then roundPrice (anchoredSl sig price) else roundPrice (anchoredSl sig px)) =
      roundPrice (anchoredSl sig px) := by
  unfold anchoredSl anchored
  cases sig.stop with
  | none => rfl
  | some x =>
    by_cases hx : x = 0
    · simp only [if_pos hx]
    · simp only [if_neg hx]

theorem refreshed_tp (sig : Signal) (price px : ℚ) :
    (match sig.tp with
      | none => roundPrice (b.anchoredTp sig price)
      | some x =>
        if x = 0 ∨ ¬ b.serverTp then roundPrice (b.anchoredTp sig price) else roundPrice (b.anchoredTp sig px)) =
      roundPrice (b.anchoredTp sig px) := by
  unfold anchoredTp anchored
  cases b.serverTp with
  | false => cases sig.tp <;> simp
  | true =>
    cases sig.tp with
    | none => rfl
    | some x =>
      by_cases hx : x = 0
      · simp only [hx, true_or, if_true]
      · simp [hx]

theorem refreshed_entry (sig : Signal) (price vol : ℚ) (f : Filling) (reply : Reply) :
    ∃ price', b.refreshed sig reply (b.entryRequest sig price vol f) = b.entryRequest sig price' vol f := by
  unfold refreshed
  cases reply.tick with
  | none => exact ⟨price, rfl⟩
  | some tick =>
    refine ⟨quote sig.direction tick, ?_⟩
    exact congrArg₂ (fun sl tp => (⟨.entry sig.direction vol (quote sig.direction tick) sl tp b.deviation b.magic
      ("orb:" ++ sig.reason), some f⟩ : OrderRequest)) (refreshed_sl sig price _) (b.refreshed_tp sig price _)

theorem refreshEntry_entry (sig : Signal) (vol : ℚ) :
    RefreshReads (b.IsEntry sig vol) (some (b.refreshEntry sig)) := by
  intro refresh hrefresh r w hr
  obtain rfl : b.refreshEntry sig = refresh := by simpa using hrefresh
  obtain ⟨price, f, rfl⟩ := hr
  obtain ⟨price', heq⟩ := b.refreshed_entry sig price vol f w.reply
  rw [ensures_refreshEntry, post_ok, heq]
  exact ⟨⟨⟨price', f, rfl⟩, rfl⟩, (SameLog.refl w).afterRead⟩

/-- **One step of the ladder**: entries of the signal for this volume, and an end with the last of them. -/
theorem tryVolume_trace (sig : Signal) (price vol : ℚ) (w : World β) :
    Ensures (b.tryVolume sig price vol) w fun res w' =>
      Sending (b.IsEntry sig vol) b.retries w w' ∧ b.Settled res w' := by
  unfold tryVolume
  refine (filling_reads w).bind_total fun f v hv => ?_
  subst hv
  refine (b.send_trace (b.rotateFilling_entry sig vol) (b.refreshEntry_entry sig vol) true
    ⟨price, f, rfl⟩).mono fun res w' h => ⟨?_, h.2⟩
  exact ⟨h.1.env, h.1.log⟩

theorem emit_sameLog (ev : BrokerEvent) (w : World β) :
    ∃ v, exec (b.emit ev) w = (.ok ⟨⟩, v) ∧ SameLog w v := by
  unfold emit
  cases b.onEvent with
  | none => exact ⟨w, rfl, .refl w⟩
  | some sink => exact ⟨_, rfl, rfl, rfl, rfl⟩

/-- The world after the event of an entry. -/
def opened (sig : Signal) (w : World β) : World β := (exec (b.emit ⟨.open', some sig.reason, none⟩) w).2

theorem opened_sameLog (sig : Signal) (w : World β) : SameLog w (b.opened sig w) := by
  obtain ⟨v, hv, hsame⟩ := b.emit_sameLog ⟨.open', some sig.reason, none⟩ w
  unfold opened
  rw [hv]
  exact hsame

theorem exec_openLadder_cons (sig : Signal) (price : ℚ) (lastErr : Failure) (vol : ℚ) (rest : List ℚ) (w : World β) :
    exec (b.openLadder sig price lastErr (vol :: rest)) w =
      match exec (b.tryVolume sig price vol) w with
      | (.ok res, v) => (.ok res, b.opened sig v)
      | (.error (.broker text), v) =>
        if namesNoMoney text then exec (b.openLadder sig price (.broker text) rest) v else (.error (.broker text), v)
      | (.error .other, v) => (.error .other, v) := by
  obtain ⟨f, v, hf, -⟩ := (filling_reads w).returns
  rw [openLadder, tryVolume, exec_bind_of hf, exec_bind_of hf, exec_bind, exec_tryCatch, exec_bind]
  rcases exec (b.send (b.entryRequest sig price vol f) (some (b.refreshEntry sig)) true) v with ⟨err | res, v⟩
  · cases err with
    | other => rfl
    | broker text =>
      simp only [exec_pure]
      split <;> rfl
  · obtain ⟨v', hv', -⟩ := b.emit_sameLog ⟨.open', some sig.reason, none⟩ v
    simp only [exec_pure, opened]
    rw [exec_bind_of hv', hv']
    rfl

/-! ### The log of an entry -/

theorem ladder_decreasing (want : ℚ) : (ladder want).Pairwise (· > ·) := by
  refine List.pairwise_cons.mpr ⟨fun v hv => ?_, ?_⟩
  · simpa using (List.mem_filter.mp hv).2
  · refine List.Pairwise.filter _ ?_
    unfold volumeLadder
    norm_num

/-- The requests of one volume of the ladder. -/
structure Rung (sig : Signal) (vol : ℚ) (sent : List Sent) : Prop where
  nonempty : sent ≠ []
  length : sent.length ≤ b.retries + 1
  entries : ∀ x ∈ sent, b.IsEntry sig vol x.request

theorem rung_of_sending {sig : Signal} {vol : ℚ} {w v : World β} (h : Sending (b.IsEntry sig vol) b.retries w v) :
    ∃ l, v.sent = w.sent ++ l ∧ b.Rung sig vol l := by
  obtain ⟨l, s, hlog, hlen, hall⟩ := h.log
  exact ⟨l ++ [s], hlog, by simp, by simpa using hlen, hall⟩

theorem Settled.opened {sig : Signal} {res : SendResult} {w : World β} (h : b.Settled (.ok res) w) :
    b.Settled (.ok res) (b.opened sig w) := by
  obtain ⟨s, hs, hend⟩ := h
  exact ⟨s, by rwa [(b.opened_sameLog sig w).sent], hend⟩

theorem Settled.error {err : Failure} {w : World β} (h : b.Settled (.error err) w) :
    ∃ s, w.sent.getLast? = some s ∧ err = .broker (b.failureText w s) := h

/-- **The log of the ladder**: the requests of some of its volumes, from the first on, and an end with the last
request. -/
theorem openLadder_trace (sig : Signal) (price : ℚ) (lastErr : Failure) (volumes : List ℚ) (hne : volumes ≠ [])
    (w : World β) :
    Ensures (b.openLadder sig price lastErr volumes) w fun res w' =>
      (∃ steps : List (ℚ × List Sent), steps ≠ [] ∧ w'.sent = w.sent ++ steps.flatMap (·.2) ∧
        steps.map (·.1) <+: volumes ∧ ∀ step ∈ steps, b.Rung sig step.1 step.2) ∧ b.Settled res w' := by
  induction volumes generalizing lastErr w with
  | nil => exact absurd rfl hne
  | cons vol rest ih =>
    have htry := b.tryVolume_trace sig price vol w
    unfold Ensures
    rw [exec_openLadder_cons]
    rcases hexec : exec (b.tryVolume sig price vol) w with ⟨err | res, v⟩
    · obtain ⟨hsending, hsettled⟩ := htry.of_exec hexec
      obtain ⟨l, hlog, hrung⟩ := b.rung_of_sending hsending
      obtain ⟨s, hs, rfl⟩ := Settled.error b hsettled
      have hlast : ∃ steps : List (ℚ × List Sent), steps ≠ [] ∧ v.sent = w.sent ++ steps.flatMap (·.2) ∧
          steps.map (·.1) <+: vol :: rest ∧ ∀ step ∈ steps, b.Rung sig step.1 step.2 :=
        ⟨[(vol, l)], by simp, by simpa using hlog, by simp, by simpa using hrung⟩
      by_cases hnames : namesNoMoney (b.failureText v s) = true
      · simp only [if_pos hnames]
        cases rest with
        | nil => exact ⟨hlast, hsettled⟩
        | cons next rest =>
          obtain ⟨⟨steps, -, hsent, hpre, hrungs⟩, hend⟩ := ih (.broker (b.failureText v s)) (by simp) v
          refine ⟨⟨(vol, l) :: steps, by simp, ?_, by simpa using hpre, ?_⟩, hend⟩
          · rw [hsent, hlog, List.flatMap_cons, List.append_assoc]
          · intro step hstep
            rcases List.mem_cons.mp hstep with rfl | hstep
            · exact hrung
            · exact hrungs step hstep
      · simp only [if_neg hnames]
        exact ⟨hlast, hsettled⟩
    · obtain ⟨hsending, hsettled⟩ := htry.of_exec hexec
      obtain ⟨l, hlog, hrung⟩ := b.rung_of_sending hsending
      refine ⟨⟨[(vol, l)], by simp, ?_, by simp, by simpa using hrung⟩, Settled.opened b hsettled⟩
      simpa [(b.opened_sameLog sig v).sent] using hlog

theorem head_of_steps {sig : Signal} {steps : List (ℚ × List Sent)} {vol : ℚ} {rest : List ℚ} (hne : steps ≠ [])
    (hpre : steps.map (·.1) <+: vol :: rest) (hrungs : ∀ step ∈ steps, b.Rung sig step.1 step.2) :
    steps.flatMap (·.2) ≠ [] ∧ ∀ y ∈ (steps.flatMap (·.2)).head?, b.IsEntry sig vol y.request := by
  cases steps with
  | nil => exact absurd rfl hne
  | cons step steps =>
    obtain ⟨rfl, -⟩ : step.1 = vol ∧ steps.map (·.1) <+: rest := by simpa using hpre
    have hrung := hrungs step List.mem_cons_self
    rw [List.flatMap_cons]
    refine ⟨by simp [hrung.nonempty], fun y hy => ?_⟩
    rw [List.head?_append_of_ne_nil _ hrung.nonempty] at hy
    exact hrung.entries y (List.mem_of_head? hy)

/-! ### `_open` -/

theorem settled_since {w v : World β} {l : List Sent} {res : Except Failure SendResult} (hlog : v.sent = w.sent ++ l)
    (hne : l ≠ []) (h : b.Settled res v) : ∃ s ∈ (sentSince w v).getLast?, b.EndsAfter v s res := by
  obtain ⟨s, hs, hend⟩ := h
  rw [hlog, List.getLast?_append_of_ne_nil _ hne] at hs
  rw [sentSince_of_append hlog]
  exact ⟨s, hs, hend⟩

/-- The log of the legs of a limit entry: orders for one volume. -/
theorem placeLegs_trace (sig : Signal) (d : ℚ) (legs : List (String × ℚ)) (result : Option SendResult)
    (w : World β) :
    Ensures (b.placeLegs sig d legs result) w fun res w' =>
      ∃ l, w'.sent = w.sent ++ l ∧ (∀ x ∈ l, x.request.body.opened = some (b.wantedQty sig)) ∧
        l.length ≤ legs.length * (b.retries + 1) ∧
        (legs ≠ [] → l ≠ [] ∧ ∃ out, res = out.map some ∧ b.Settled out w') := by
  induction legs generalizing result w with
  | nil => exact ⟨[], (List.append_nil _).symm, by simp, by simp, fun h => absurd rfl h⟩
  | cons leg rest ih =>
    have hsend : Ensures (b.send (b.legRequest sig d leg) none false) w fun res w' =>
        Sending (fun r => r.body.opened = some (b.wantedQty sig)) b.retries w w' ∧ b.Settled res w' :=
      b.send_trace (fun _ h => h) refreshReads_none false rfl
    unfold Ensures placeLegs
    rw [exec_bind]
    rcases hexec : exec (b.send (b.legRequest sig d leg) none false) w with ⟨err | out, v⟩
    · obtain ⟨⟨-, l, s, hlog, hlen, hall⟩, hsettled⟩ := hsend.of_exec hexec
      refine ⟨l ++ [s], hlog, hall, ?_, fun _ => ⟨by simp, .error err, rfl, hsettled⟩⟩
      rw [List.length_append, List.length_cons, List.length_cons, Nat.succ_mul]
      simp only [List.length_nil]
      omega
    · obtain ⟨⟨-, l, s, hlog, hlen, hall⟩, hsettled⟩ := hsend.of_exec hexec
      obtain ⟨v', hv', hsame⟩ := b.emit_sameLog ⟨.openPending, some (leg.1 ++ ":" ++ sig.reason), none⟩ v
      simp only
      rw [exec_bind_of hv']
      obtain ⟨l', hlog', hall', hlen', hend'⟩ := ih (some out) v'
      refine ⟨l ++ [s] ++ l', ?_, ?_, ?_, fun _ => ⟨by simp, ?_⟩⟩
      · rw [hlog', hsame.sent, hlog, List.append_assoc]
      · intro x hx
        rcases List.mem_append.mp hx with hx | hx
        · exact hall x hx
        · exact hall' x hx
      · rw [List.length_append, List.length_append, List.length_cons, List.length_cons, Nat.succ_mul]
        simp only [List.length_nil]
        omega
      · cases rest with
        | nil =>
          obtain ⟨t, ht, hend⟩ := hsettled
          exact ⟨.ok out, rfl, t, by rwa [← hsame.sent] at ht, hend⟩
        | cons next rest => exact (hend' (by simp)).2

theorem openLimit_trace (sig : Signal) (w : World β) :
    ∃ l, (exec (b.openLimit sig) w).2.sent = w.sent ++ l ∧
      (∀ x ∈ l, x.request.body.opened = some (b.wantedQty sig)) ∧ l.length ≤ 2 * (b.retries + 1) ∧
      ((l = [] ∧ ∃ text, (exec (b.openLimit sig) w).1 = .error (.broker text)) ∨
        (l ≠ [] ∧ ∃ out, (exec (b.openLimit sig) w).1 = out.map some ∧ b.Settled out (exec (b.openLimit sig) w).2)) := by
  unfold openLimit
  cases sig.stop with
  | none => exact ⟨[], (List.append_nil _).symm, by simp, Nat.zero_le _, Or.inl ⟨rfl, _, rfl⟩⟩
  | some stop =>
    have hlegs : (b.legs sig |sig.price - stop|).length = 2 := by
      unfold legs
      cases sig.direction <;> rfl
    obtain ⟨l, hlog, hall, hlen, hend⟩ :=
      b.placeLegs_trace sig |sig.price - stop| (b.legs sig |sig.price - stop|) none w
    rw [hlegs] at hlen
    exact ⟨l, hlog, hall, hlen, Or.inr (hend (List.ne_nil_of_length_pos (by omega)))⟩

theorem openMarket_trace (sig : Signal) (w : World β) :
    ∃ steps : List (ℚ × List Sent), (exec (b.openMarket sig) w).2.sent = w.sent ++ steps.flatMap (·.2) ∧
      steps.map (·.1) <+: ladder (b.wantedQty sig) ∧ (∀ step ∈ steps, b.Rung sig step.1 step.2) ∧
      ((steps = [] ∧ ∃ text, (exec (b.openMarket sig) w).1 = .error (.broker text)) ∨
        (steps ≠ [] ∧ b.Settled (exec (b.openMarket sig) w).1 (exec (b.openMarket sig) w).2)) := by
  unfold openMarket symbolInfoTick
  rw [exec_bind_of (exec_readCall _)]
  cases w.reply.tick with
  | none => exact ⟨[], (List.append_nil _).symm, by simp, by simp, Or.inl ⟨rfl, _, rfl⟩⟩
  | some tick =>
    obtain ⟨⟨steps, hne, hlog, hpre, hrungs⟩, hsettled⟩ := b.openLadder_trace sig (quote sig.direction tick) .other
      (ladder (b.wantedQty sig)) (by simp [ladder]) w.afterRead
    exact ⟨steps, hlog, hpre, hrungs, Or.inr ⟨hne, hsettled⟩⟩

theorem exec_open (sig : Signal) (w : World β) :
    exec (b.open' sig) w = match b.entryMode with
      | .limit => exec (b.openLimit sig) w
      | .market => ((exec (b.openMarket sig) w).1.map some, (exec (b.openMarket sig) w).2) := by
  unfold open'
  cases b.entryMode with
  | limit => rfl
  | market =>
    rw [exec_bind]
    rcases exec (b.openMarket sig) w with ⟨err | res, v⟩ <;> rfl

theorem open_market_world (hmode : b.entryMode = .market) (sig : Signal) (w : World β) :
    (exec (b.open' sig) w).2 = (exec (b.openMarket sig) w).2 := by
  rw [exec_open, hmode]

end Mt5Broker

end FreqTrading
