import FreqTrading.Broker.Retry
import FreqTrading.Broker.VolumeLadder
import FreqTrading.Tradeevents

/-!
# The events of the broker

What `_emit` is given: an action, the request dict as it was sent last and the result that was returned for
it. `Emits` has one constructor for each place that emits, and `emits_steps` says that a sink hears of nothing
else. `event_conforms_iff` says which of the events obey the schema.
-/

namespace FreqTrading

open Lib Symbols TradeEvents

/-! ### What is emitted -/

/-- What `_emit` is given. -/
structure Emission where
  action : TradeAction
  request : OrderRequest
  result : SendResult
  reason : Option String
  extra : Extra
  deriving DecidableEq, Repr

/-- What a sink of the broker reads of it. -/
def Emission.brokerEvent (e : Emission) : BrokerEvent := ⟨e.action, e.reason, e.extra.pnl⟩

namespace Mt5Broker

variable {β α : Type} (b : Mt5Broker β)

/-- The last request in the log. -/
def LastSent (request : OrderRequest) (w : World β) : Prop := w.sent.getLast?.map (·.request) = some request

/-- Sending returned `result`, and the request dict was `request` when it was sent last. -/
def Delivered (sending : Mt5 β SendResult) (request : OrderRequest) (result : SendResult) : Prop :=
  ∃ w w', exec sending w = (.ok result, w') ∧ LastSent request w'

/-- The action of a close of this volume. -/
def closeAction (p : Position) (volume : ℚ) : TradeAction :=
  if volume < p.volume - 1 / 1000000000 then .partialClose else .close

theorem closeAction_closes (p : Position) (volume : ℚ) :
    closeAction p volume = .partialClose ∨ closeAction p volume = .close := by
  unfold closeAction
  split
  · exact Or.inl rfl
  · exact Or.inr rfl

/-- The calls of `_emit`. -/
inductive Emits : Emission → Prop
  /-- `_open` -/
  | opened {sig : Signal} {price vol : ℚ} {request : OrderRequest} {result : SendResult}
      (h : Delivered (b.tryVolume sig price vol) request result) :
      Emits ⟨.open', request, result, some sig.reason, {}⟩
  /-- `_open_limit` -/
  | placed {sig : Signal} {d : ℚ} {leg : String × ℚ} {request : OrderRequest} {result : SendResult}
      (h : Delivered (b.send (b.legRequest sig d leg) none false) request result) :
      Emits ⟨.openPending, request, result, some (leg.1 ++ ":" ++ sig.reason), {}⟩
  /-- `update_stop` -/
  | trailed {p : Position} {sl : ℚ} {request : OrderRequest} {result : SendResult}
      (h : Delivered (b.send (sltpRequest p sl) none false) request result) :
      Emits ⟨.modifySl, request, result, some "trail_sync", {}⟩
  /-- `modify_sl` -/
  | modified {p : Position} {sl : ℚ} {request : OrderRequest} {result : SendResult}
      (h : Delivered (b.send (sltpRequest p sl) none false) request result) :
      Emits ⟨.modifySl, request, result, none, {}⟩
  /-- `_close_position` -/
  | closed {p : Position} {volume price : ℚ} {reason : String} {f : Filling} {request : OrderRequest}
      {result : SendResult} (pnl : Option ℚ)
      (h : Delivered (b.send (b.closeRequest p volume price reason f) none false) request result) :
      Emits ⟨closeAction p volume, request, result, some reason, { pnl := pnl }⟩
  /-- `cancel_expired` and `cancel_pending` -/
  | removed {o : PendingOrder} (reason : String) {request : OrderRequest} {result : SendResult}
      (h : Delivered (b.send (removeRequest o) none false) request result) :
      Emits ⟨.cancelPending, request, result, some reason, { ticket := some o.ticket }⟩

/-- The event of an emission. -/
def event (cs : Casing) (stamp : Stamp) (e : Emission) : TradeEvents.TradeEvent :=
  buildEvent cs stamp e.action b.symbol (some b.magic) (some e.request) (some e.result) e.reason e.extra

/-! ### Requests as they were sent -/

variable {b}

theorem delivered_body {r request : OrderRequest} {result : SendResult}
    (h : Delivered (b.send r none false) request result) : request.body = r.body := by
  obtain ⟨w, w', hexec, hlast⟩ := h
  have htrace : Ensures (b.send r none false) w fun res w' =>
      Sending (fun x => x.body = r.body) b.retries w w' ∧ b.Settled res w' :=
    b.send_trace (fun _ h => h) refreshReads_none false rfl
  obtain ⟨⟨-, l, s, hlog, -, hall⟩, -⟩ := htrace.of_exec hexec
  rw [LastSent, hlog, ← List.append_assoc, List.getLast?_concat] at hlast
  obtain rfl : s.request = request := by simpa using hlast
  exact hall s (by simp)

theorem delivered_entry {sig : Signal} {price vol : ℚ} {request : OrderRequest} {result : SendResult}
    (h : Delivered (b.tryVolume sig price vol) request result) : b.IsEntry sig vol request := by
  obtain ⟨w, w', hexec, hlast⟩ := h
  obtain ⟨⟨-, l, s, hlog, -, hall⟩, -⟩ := (b.tryVolume_trace sig price vol w).of_exec hexec
  rw [LastSent, hlog, ← List.append_assoc, List.getLast?_concat] at hlast
  obtain rfl : s.request = request := by simpa using hlast
  exact hall s (by simp)

/-! ### What conforms -/

/-- The actions that trade at once. -/
def deals : List TradeAction := [.open', .partialClose, .close]

/-- The fill is at the requested price or above it, by a distance of at most eight decimals. -/
def FilledAbove (e : Emission) : Prop :=
  ∀ requested ∈ (TradeEvents.requestItems e.request.body).price, ∃ n : Nat, e.result.price = requested + n / 10 ^ priceDp

theorem rounded_eq_abs_iff {x : ℚ} : roundPlaces priceDp x = |x| ↔ ∃ n : Nat, x = n / 10 ^ priceDp := by
  have hpos : (0 : ℚ) < 10 ^ priceDp := by positivity
  constructor
  · intro h
    have hnonneg : 0 ≤ x := by
      by_contra hneg
      have hround : roundEven (x * 10 ^ priceDp) ≤ 0 := by
        have hmono := roundEven_mono (mul_nonpos_of_nonpos_of_nonneg (not_le.mp hneg).le hpos.le)
        have hzero : roundEven (0 : ℚ) = 0 := by simpa using roundEven_intCast (α := ℚ) 0
        rwa [hzero] at hmono
      have hle : roundPlaces priceDp x ≤ 0 := by
        unfold roundPlaces
        exact div_nonpos_of_nonpos_of_nonneg (by exact_mod_cast hround) hpos.le
      rw [h] at hle
      exact hneg (abs_nonpos_iff.mp hle).ge
    rw [abs_of_nonneg hnonneg] at h
    have hk : 0 ≤ roundEven (x * 10 ^ priceDp) := by
      have hdiv : (0 : ℚ) ≤ roundEven (x * 10 ^ priceDp) / 10 ^ priceDp := by
        unfold roundPlaces at h
        rwa [h]
      have hmul := mul_nonneg hdiv hpos.le
      rw [div_mul_cancel₀ _ hpos.ne'] at hmul
      exact_mod_cast hmul
    refine ⟨(roundEven (x * 10 ^ priceDp)).toNat, ?_⟩
    have hcast : (((roundEven (x * 10 ^ priceDp)).toNat : Nat) : ℚ) = roundEven (x * 10 ^ priceDp) := by
      exact_mod_cast Int.toNat_of_nonneg hk
    rw [hcast]
    exact h.symm
  · rintro ⟨n, rfl⟩
    have hnonneg : (0 : ℚ) ≤ n / 10 ^ priceDp := by positivity
    rw [abs_of_nonneg hnonneg]
    exact roundPlaces_of_int (k := n) (by rw [div_mul_cancel₀ _ hpos.ne']; norm_num)

theorem conforms_of_deal (cs : Casing) (stamp : Stamp) {e : Emission} {requested : ℚ} (hact : e.action ∈ deals)
    (hprice : (TradeEvents.requestItems e.request.body).price = some requested)
    (htraded : Traded (b.event cs stamp e)) :
    Conforms e.action (toPayload (b.event cs stamp e)) ↔ e.action ∈ deals ∧ FilledAbove e := by
  have hfilled : (b.event cs stamp e).priceFilled = some e.result.price := rfl
  have hconf := htraded.conforms_iff hprice hfilled
  rw [show (b.event cs stamp e).action = e.action from rfl] at hconf
  rw [hconf, rounded_eq_abs_iff]
  constructor
  · rintro ⟨n, hn⟩
    refine ⟨hact, fun q hq => ⟨n, ?_⟩⟩
    obtain rfl : requested = q := Option.some.inj (hprice.symm.trans hq)
    rw [← hn]
    ring
  · rintro ⟨-, habove⟩
    obtain ⟨n, hn⟩ := habove requested hprice
    exact ⟨n, by rw [hn]; ring⟩

theorem not_conforms_of_other (cs : Casing) (stamp : Stamp) {e : Emission}
    (hact : e.action = .openPending ∨ e.action = .modifySl ∨ e.action = .cancelPending) :
    ¬ Conforms e.action (toPayload (b.event cs stamp e)) := by
  intro hconf
  have hdeal : (b.event cs stamp e).deal.isSome = true := rfl
  exact not_conforms_of_deal hdeal hact hconf

/-- **The events that conform to the schema**: those of deals filled at the requested price or above it. -/
theorem event_conforms_iff (cs : Casing) (stamp : Stamp) {e : Emission} (h : b.Emits e) :
    Conforms e.action (toPayload (b.event cs stamp e)) ↔ e.action ∈ deals ∧ FilledAbove e := by
  have hother : e.action = .openPending ∨ e.action = .modifySl ∨ e.action = .cancelPending →
      (Conforms e.action (toPayload (b.event cs stamp e)) ↔ e.action ∈ deals ∧ FilledAbove e) := by
    intro hact
    refine iff_of_false (not_conforms_of_other cs stamp hact) fun hdeals => ?_
    rcases hact with hact | hact | hact <;> simp [deals, hact] at hdeals
  cases h with
  | placed => exact hother (Or.inl rfl)
  | trailed | modified => exact hother (Or.inr (Or.inl rfl))
  | removed => exact hother (Or.inr (Or.inr rfl))
  | @opened sig price vol request result hsent =>
    obtain ⟨price, f, rfl⟩ := delivered_entry hsent
    refine conforms_of_deal cs stamp (by simp [deals]) rfl
      ⟨Or.inl rfl, ⟨rfl, rfl, rfl⟩, ⟨?_, rfl⟩, ⟨rfl, rfl⟩, rfl, fun _ => ⟨rfl, rfl, rfl⟩, rfl, rfl, rfl⟩
    show (directionOf (some (marketType sig.direction))).isSome = true
    cases sig.direction <;> rfl
  | @closed p volume price reason f request result pnl hsent =>
    obtain ⟨body, filling⟩ := request
    obtain rfl : body = (b.closeRequest p volume price reason f).body := delivered_body hsent
    have hact := closeAction_closes p volume
    refine conforms_of_deal cs stamp ?_ rfl
      ⟨Or.inr hact, ⟨rfl, rfl, rfl⟩, ⟨?_, rfl⟩, ⟨rfl, rfl⟩, rfl, fun hopen => ?_, rfl, rfl, rfl⟩
    · rcases hact with hact | hact <;> simp [deals, hact]
    · show (directionOf (some (marketType (opposite p.direction)))).isSome = true
      cases p.direction <;> rfl
    · rcases hact with hact | hact <;> cases hact.symm.trans hopen

/-! ### A sink hears of nothing else -/

/-- A step of a method as its sink sees it: nothing, or an event just after its request was sent. -/
inductive EmitStep (b : Mt5Broker β) : World β → World β → Prop
  | silent {w w' : World β} (h : w'.bot = w.bot) : EmitStep b w w'
  | emitted (w : World β) (e : Emission) (sink : BrokerEvent → β → β) (hsink : b.onEvent = some sink)
      (he : b.Emits e) (hlast : LastSent e.request w) :
      EmitStep b w { w with bot := sink e.brokerEvent w.bot }

theorem bot_of_mtStep {B : OrderBody → Prop} {w w' : World β} (h : MtStep b B (fun _ => False) w w') :
    w'.bot = w.bot := by
  cases h with
  | read => rfl
  | send => rfl
  | pause => rfl
  | notify sink ev hsink hev => exact hev.elim

theorem silent_steps {B : OrderBody → Prop} {x : Mt5 β α} {w : World β}
    (h : StepsFrom (MtStep b B fun _ => False) x w) : StepsFrom (EmitStep b) x w :=
  h.mono fun _ _ hstep => .silent (bot_of_mtStep hstep)

theorem send_silent (r : OrderRequest) (w : World β) : StepsFrom (EmitStep b) (b.send r none false) w :=
  silent_steps (b.send_plain_steps (B := fun _ => True) trivial w)

theorem send_emits {r : OrderRequest} {f : SendResult → Mt5 β α} {w : World β}
    (hf : ∀ request result w', Delivered (b.send r none false) request result → LastSent request w' →
      StepsFrom (EmitStep b) (f result) w') : StepsFrom (EmitStep b) (b.send r none false >>= f) w := by
  refine (send_silent r w).bind fun result w' hexec => ?_
  have htrace : Ensures (b.send r none false) w fun res w' =>
      Sending (fun _ => True) b.retries w w' ∧ b.Settled res w' :=
    b.send_trace (fun _ h => h) refreshReads_none false trivial
  obtain ⟨-, s, hs, -⟩ := htrace.of_exec hexec
  have hlast : LastSent s.request w' := by
    unfold LastSent
    rw [Option.mem_def.mp hs]
    rfl
  exact hf s.request result w' ⟨w, w', hexec, hlast⟩ hlast

theorem emit_emits {e : Emission} (he : b.Emits e) {w : World β} (hlast : LastSent e.request w) :
    StepsFrom (EmitStep b) (b.emit e.brokerEvent) w := by
  unfold emit
  cases hsink : b.onEvent with
  | none => exact .pure _
  | some sink => exact .single (.emitted w e sink hsink he hlast)

theorem openLadder_emits (sig : Signal) (price : ℚ) (lastErr : Failure) (volumes : List ℚ)
    (hvol : ∀ v ∈ volumes, v ≤ b.wantedQty sig) (w : World β) :
    StepsFrom (EmitStep b) (b.openLadder sig price lastErr volumes) w := by
  induction volumes generalizing lastErr w with
  | nil => exact .throw _
  | cons vol rest ih =>
    have htry : StepsFrom (EmitStep b) (b.tryVolume sig price vol) w := by
      refine silent_steps (B := b.EntryBody sig fun _ => True) ((b.filling_steps w).bind fun f v _ => ?_)
      exact b.send_steps true (b.refreshEntry_refreshes sig fun _ _ _ => trivial)
        ⟨rfl, hvol vol List.mem_cons_self, trivial, rfl, rfl⟩
    have hrest := fun v hv => hvol v (List.mem_cons_of_mem _ hv)
    unfold StepsFrom at *
    rw [exec_openLadder_cons]
    rcases hexec : exec (b.tryVolume sig price vol) w with ⟨err | result, v⟩ <;> rw [hexec] at htry
    · cases err with
      | other => exact htry
      | broker text =>
        simp only
        split
        · exact htry.trans (ih (.broker text) hrest v)
        · exact htry
    · obtain ⟨-, s, hs, -⟩ := (b.tryVolume_trace sig price vol w).of_exec hexec
      have hlast : LastSent s.request v := by
        unfold LastSent
        rw [Option.mem_def.mp hs]
        rfl
      exact htry.trans (emit_emits (.opened ⟨w, v, hexec, hlast⟩) hlast)

theorem placeLegs_emits (sig : Signal) (d : ℚ) (legs : List (String × ℚ)) (result : Option SendResult) (w : World β) :
    StepsFrom (EmitStep b) (b.placeLegs sig d legs result) w := by
  induction legs generalizing result w with
  | nil => exact .pure _
  | cons leg rest ih =>
    unfold placeLegs
    refine send_emits fun request out w' hsent hlast => ?_
    exact (emit_emits (.placed hsent) hlast).bind fun _ v _ => ih (some out) v

theorem open_emits (sig : Signal) (w : World β) : StepsFrom (EmitStep b) (b.open' sig) w := by
  unfold open'
  split
  · unfold openLimit
    split
    · exact .throw _
    · exact placeLegs_emits sig _ _ _ w
  · refine StepsFrom.bind ?_ fun _ _ _ => .pure _
    unfold openMarket
    refine (silent_steps (readCall_steps (B := fun _ => True) b _ w)).bind fun tick v _ => ?_
    cases tick with
    | none => exact silent_steps (b.noTick_steps (B := fun _ => True) v)
    | some tick => exact openLadder_emits sig _ _ _ (fun _ => mem_ladder_le) v

theorem closePosition_emits (p : Position) (volume : ℚ) (reason : String) (w : World β) :
    StepsFrom (EmitStep b) (b.closePosition p volume reason) w := by
  unfold closePosition
  refine (silent_steps (readCall_steps (B := fun _ => True) b _ w)).bind fun tick v _ => ?_
  cases tick with
  | none => exact .throw _
  | some tick =>
    refine (silent_steps (b.filling_steps (B := fun _ => True) v)).bind fun f v' _ => ?_
    refine send_emits fun request out w' hsent hlast => ?_
    split
    · have hreads := (dealProfit_reads out.deal w')
      refine (silent_steps (b.dealProfit_steps (B := fun _ => True) _ w')).bind fun pnl u hpnl => ?_
      have hlast' : LastSent request u := by
        rcases hreads.of_exec hpnl with rfl | rfl <;> exact hlast
      exact (emit_emits (.closed pnl hsent) hlast').bind fun _ _ _ => .pure _
    · exact .pure _

theorem modifySl_emits (ticket : Nat) (sl : ℚ) (w : World β) : StepsFrom (EmitStep b) (b.modifySl ticket sl) w := by
  unfold modifySl
  refine (silent_steps (b.myPositions_steps (B := fun _ => True) w)).bind fun mine v _ => ?_
  cases mine.find? (·.ticket = ticket) with
  | none => exact .pure _
  | some p =>
    simp only
    split
    · exact .pure _
    · refine send_emits fun request out w' hsent hlast => ?_
      exact (emit_emits (.modified hsent) hlast).bind fun _ _ _ => .pure _

theorem updateEach_emits (sl : ℚ) (ps : List Position) (result : Option SendResult) (w : World β) :
    StepsFrom (EmitStep b) (b.updateEach sl ps result) w := by
  induction ps generalizing result w with
  | nil => exact .pure _
  | cons p rest ih =>
    unfold updateEach
    split
    · exact ih result w
    · refine send_emits fun request out w' hsent hlast => ?_
      exact (emit_emits (.trailed hsent) hlast).bind fun _ v _ => ih (some out) v

theorem removeEach_emits (reason : String) (orders : List PendingOrder) (w : World β) :
    StepsFrom (EmitStep b) (b.removeEach reason orders) w := by
  induction orders generalizing w with
  | nil => exact .pure _
  | cons o rest ih =>
    unfold removeEach
    refine send_emits fun request out w' hsent hlast => ?_
    exact (emit_emits (.removed reason hsent) hlast).bind fun _ v _ => (ih v).bind fun _ _ _ => .pure _

theorem closeEach_emits (reason : String) (ps : List Position) (result : Option SendResult) (w : World β) :
    StepsFrom (EmitStep b) (b.closeEach reason ps result) w := by
  induction ps generalizing result w with
  | nil => exact .pure _
  | cons p rest ih => exact (closePosition_emits p p.volume reason w).bind fun res v _ => ih (some res) v

theorem closeMine_emits (sig : Signal) (ps : List Position) (result : Option SendResult) (w : World β) :
    StepsFrom (EmitStep b) (b.closeMine sig ps result) w := by
  induction ps generalizing result w with
  | nil => exact .pure _
  | cons p rest ih =>
    unfold closeMine
    refine (silent_steps (b.exitVolume_steps (B := fun _ => True) sig p w)).bind fun volume v _ => ?_
    cases volume with
    | none => exact .pure _
    | some volume => exact (closePosition_emits p volume sig.reason v).bind fun res u _ => ih (some res) u

theorem closeTicket_emits (ticket : Nat) (volume : ℚ) (w : World β) :
    StepsFrom (EmitStep b) (b.closeTicket ticket volume) w := by
  unfold closeTicket
  refine (silent_steps (b.myPositions_steps (B := fun _ => True) w)).bind fun mine v _ => ?_
  cases mine.find? (·.ticket = ticket) with
  | none => exact .pure _
  | some p =>
    refine (silent_steps (b.roundVolume_steps (B := fun _ => True) _ v)).bind fun vol u _ => ?_
    split
    · exact .pure _
    · exact (closePosition_emits p vol _ u).bind fun _ _ _ => .pure _

theorem close_emits (sig : Signal) (w : World β) : StepsFrom (EmitStep b) (b.close sig) w := by
  unfold close
  cases b.entryMode with
  | limit => exact .pure _
  | market =>
    exact (silent_steps (b.myPositions_steps (B := fun _ => True) w)).bind fun mine v _ => closeMine_emits sig mine none v

variable (b)

/-- The calls of the broker that may send something. -/
inductive Call
  | execute (sig : Signal)
  | updateStop (sl : ℚ)
  | modifySl (ticket : Nat) (sl : ℚ)
  | closeAll (reason : String)
  | closeTicket (ticket : Nat) (volume : ℚ)
  | cancelExpired (maxAgeSec : Int)
  | cancelPending (minAgeSec : Int)

def perform : Call → Mt5 β PUnit
  | .execute sig => do let _ ← b.execute sig
  | .updateStop sl => do let _ ← b.updateStop sl
  | .modifySl ticket sl => do let _ ← b.modifySl ticket sl
  | .closeAll reason => do let _ ← b.closeAll reason
  | .closeTicket ticket volume => do let _ ← b.closeTicket ticket volume
  | .cancelExpired maxAgeSec => do let _ ← b.cancelExpired maxAgeSec
  | .cancelPending minAgeSec => b.cancelPending minAgeSec

/-- **Every event is an emission**, given to the sink just after its request was sent. -/
theorem emits_steps (call : Call) : Steps (EmitStep b) (b.perform call) := by
  intro w
  have hread : ∀ {γ : Type} (f : Reply → Server → γ) (v : World β), StepsFrom (EmitStep b) (readCall f) v :=
    fun f v => silent_steps (readCall_steps (B := fun _ => True) b f v)
  have hmine := fun v => silent_steps (b.myPositions_steps (B := fun _ => True) v)
  cases call with
  | execute sig =>
    refine StepsFrom.bind ?_ fun _ _ _ => .pure _
    unfold execute
    cases sig.kind with
    | reject => exact .pure _
    | entry =>
      simp only
      split
      · exact open_emits sig w
      · exact .throw _
    | exit =>
      simp only
      split
      · exact close_emits sig w
      · exact .throw _
  | updateStop sl =>
    refine StepsFrom.bind ((hmine w).bind fun mine v _ => ?_) fun _ _ _ => .pure _
    exact updateEach_emits sl mine none v
  | modifySl ticket sl => exact (modifySl_emits ticket sl w).bind fun _ _ _ => .pure _
  | closeAll reason =>
    refine StepsFrom.bind ((hmine w).bind fun mine v _ => ?_) fun _ _ _ => .pure _
    exact closeEach_emits reason mine none v
  | closeTicket ticket volume => exact (closeTicket_emits ticket volume w).bind fun _ _ _ => .pure _
  | cancelExpired maxAgeSec =>
    refine StepsFrom.bind ?_ fun _ _ _ => .pure _
    unfold cancelExpired
    refine (hread _ w).bind fun tick v _ => ?_
    cases tick with
    | none => exact .pure _
    | some tick => exact (hread _ v).bind fun orders u _ => removeEach_emits "expired" _ u
  | cancelPending minAgeSec =>
    show StepsFrom (EmitStep b) (b.cancelPending minAgeSec) w
    unfold cancelPending
    split
    · refine (hread _ w).bind fun tick v _ => StepsFrom.bind (.pure _) fun now u _ => ?_
      exact (hread _ u).bind fun orders u' _ => (removeEach_emits "cancelled" _ u').bind fun _ _ _ => .pure _
    · refine StepsFrom.bind (.pure _) fun now u _ => ?_
      exact (hread _ u).bind fun orders u' _ => (removeEach_emits "cancelled" _ u').bind fun _ _ _ => .pure _

end Mt5Broker

/-! ### A limit order at rest -/

/-- A server that executes everything, with this answer. -/
def acceptingWorld (answer : OrderResult) : World Unit where
  server := {}
  env := fun _ => { send := { executes := true, answer := some answer } }
  bot := ()

def someStamp : Stamp := ⟨"0", 1, "2026-07-03T13:14:15+00:00", "node", none, "orb"⟩

/-- The first leg of a limit entry, accepted with no deal (its number is 0). -/
theorem event_conforms_resting :
    ¬ ∀ (b : Mt5Broker Unit) (cs : Casing) (stamp : Stamp) (e : Emission), b.Emits e →
      Conforms e.action (toPayload (b.event cs stamp e)) := by
  intro hall
  have hsent : Mt5Broker.Delivered
      (({} : Mt5Broker Unit).send (({} : Mt5Broker Unit).legRequest Mt5Broker.longSignal 2 ("entry", 98)) none false)
      (({} : Mt5Broker Unit).legRequest Mt5Broker.longSignal 2 ("entry", 98)) ⟨10009, 5, 0, 0, 1 / 100⟩ :=
    ⟨acceptingWorld { order := 5, volume := 1 / 100 }, _, rfl, rfl⟩
  exact Mt5Broker.not_conforms_of_other .asciiOnly someStamp (Or.inl rfl) (hall {} .asciiOnly someStamp _ (.placed hsent))

/-- A market entry at 101, filled at 101.02. -/
theorem event_conforms_above :
    Conforms .open' (toPayload (({} : Mt5Broker Unit).event .asciiOnly someStamp
      ⟨.open', ({} : Mt5Broker Unit).entryRequest Mt5Broker.longSignal 101 1 .ioc, ⟨10009, 5, 6, 10102 / 100, 1⟩,
        some "breakout_long", {}⟩)) := by
  have hsent : Mt5Broker.Delivered (({} : Mt5Broker Unit).tryVolume Mt5Broker.longSignal 101 1)
      (({} : Mt5Broker Unit).entryRequest Mt5Broker.longSignal 101 1 .ioc) ⟨10009, 5, 6, 10102 / 100, 1⟩ :=
    ⟨acceptingWorld { order := 5, deal := 6, price := 10102 / 100, volume := 1 }, _, rfl, rfl⟩
  refine (Mt5Broker.event_conforms_iff .asciiOnly someStamp (.opened hsent)).mpr ⟨by decide, ?_⟩
  intro requested hrequested
  obtain rfl : (101 : ℚ) = requested := Option.some.inj hrequested
  exact ⟨2000000, by norm_num [priceDp]⟩

end FreqTrading
