import FreqTrading.Live.OnePosition

/-!
# Pushing the engine's stop to the server

The stop of a position has two anchors. The engine holds its stop at a distance from the signal's price, and
only tightens it; the order carries a stop at that distance from the price it was sent at. If no quote of the
entry puts the server's stop ahead of the engine's, the engine's stop stays the tighter of the two, and what the
reconciliation pushes never loosens the server's (`stop_never_loosens`). An order sent at a worse price than the
signal's is enough to break it, on the bar of the entry itself (`stop_loosened_at_entry`).
-/

namespace FreqTrading

open Lib

/-! ### The two stops -/

/-- `sl` is not ahead of `stop` by as much as `update_stop` reacts to. -/
def Direction.Covers (d : Direction) (stop sl : ℚ) : Prop :=
  match d with
  | .long => sl < stop + slTolerance
  | .short => stop - slTolerance < sl

instance (stop sl : ℚ) : (d : Direction) → Decidable (d.Covers stop sl)
  | .long => inferInstanceAs (Decidable (sl < stop + slTolerance))
  | .short => inferInstanceAs (Decidable (stop - slTolerance < sl))

/-- A server stop is not ahead of the engine's. -/
def PositionState.Covers (pos : PositionState) (sl : ℚ) : Prop :=
  pos.direction.Covers pos.stop sl

instance (pos : PositionState) (sl : ℚ) : Decidable (pos.Covers sl) :=
  inferInstanceAs (Decidable (pos.direction.Covers pos.stop sl))

/-- The server's position is the engine's, with a stop that is not ahead. -/
def Covered (pos : PositionState) (p : Position) : Prop := p.direction = pos.direction ∧ pos.Covers p.sl

/-- The stop an order of this position carries, if it is sent at `price`. -/
def PositionState.orderSl (pos : PositionState) (price : ℚ) : ℚ :=
  roundPrice (Mt5Broker.anchored (pos.direction = .long) price (some pos.stop) pos.entryPrice)

/-- No quote gives the order a stop ahead of the engine's. -/
def Anchored (pos : PositionState) (env : Nat → Reply) : Prop :=
  ∀ k, ∀ tick ∈ (env k).tick, pos.Covers (pos.orderSl (Mt5Broker.quote pos.direction tick))

/-- A new stop is at least as tight as the one held. -/
def OrderBody.Tightens (held : List Position) : OrderBody → Prop
  | .sltp ticket sl _ => ∀ q ∈ held, q.ticket = ticket → q.direction.AsTight q.sl sl
  | _ => True

instance (held : List Position) : (body : OrderBody) → Decidable (body.Tightens held)
  | .sltp ticket sl _ => inferInstanceAs (Decidable (∀ q ∈ held, q.ticket = ticket → q.direction.AsTight q.sl sl))
  | .entry .. => isTrue trivial
  | .close .. => isTrue trivial
  | .pending .. => isTrue trivial
  | .remove .. => isTrue trivial

/-- A new stop is at least as tight as the one the server holds for that own position. -/
def Sent.Tightens (m : Int) (s : Sent) : Prop := s.request.body.Tightens (s.before.own m)

instance (m : Int) (s : Sent) : Decidable (s.Tightens m) :=
  inferInstanceAs (Decidable (s.request.body.Tightens (s.before.own m)))

variable {pos pos' : PositionState} {sl sl' : ℚ}

theorem roundPrice_error (x : ℚ) : |roundPrice x - x| < slTolerance := by
  have h := roundPlaces_error 8 x
  have hsmall : (1 : ℚ) / 2 / 10 ^ 8 < slTolerance := by norm_num [slTolerance]
  exact lt_of_le_of_lt h hsmall

theorem covers_round (pos : PositionState) : pos.Covers (roundPrice pos.stop) := by
  have h := abs_lt.mp (roundPrice_error pos.stop)
  unfold PositionState.Covers Direction.Covers
  cases pos.direction
  · simp only
    linarith
  · simp only
    linarith

theorem PositionState.Covers.tighter (h : pos.Covers sl) (hdir : pos'.direction = pos.direction)
    (hstop : pos.direction.AsTight pos.stop pos'.stop) : pos'.Covers sl := by
  unfold PositionState.Covers Direction.Covers Direction.AsTight at *
  rw [hdir]
  cases hd : pos.direction <;> rw [hd] at h hstop <;> simp only at * <;> linarith

theorem PositionState.Covers.asTight (h : pos.Covers sl) (hreact : ¬ |sl - pos.stop| < slTolerance) :
    pos.direction.AsTight sl (roundPrice pos.stop) := by
  have hround := abs_lt.mp (roundPrice_error pos.stop)
  have hfar : slTolerance ≤ |sl - pos.stop| := not_lt.mp hreact
  unfold PositionState.Covers Direction.Covers at h
  unfold Direction.AsTight
  cases hd : pos.direction <;> rw [hd] at h <;> simp only at *
  · rcases le_abs.mp hfar with hup | hdown <;> linarith
  · rcases le_abs.mp hfar with hup | hdown <;> linarith

theorem asTight_refl (d : Direction) (x : ℚ) : d.AsTight x x := by
  cases d <;> exact le_rfl

theorem tightens_of_not_stop {m : Int} {s : Sent} (h : ∀ ticket sl tp, s.request.body ≠ .sltp ticket sl tp) :
    s.Tightens m := by
  unfold Sent.Tightens OrderBody.Tightens
  cases hbody : s.request.body with
  | sltp ticket sl tp => exact absurd hbody (h ticket sl tp)
  | entry | close | pending | remove => trivial

/-! ### `update_stop` -/

section Push

variable {β : Type} (b : Mt5Broker β) {m : Int} {w : World β}

theorem push_keeps (pos : PositionState) {p : Position} {rest : List Position} (hnew : p.ticket ∉ rest.map (·.ticket))
    (hreact : ¬ |p.sl - pos.stop| < slTolerance)
    (h : Kept m (fun q => Covered pos q ∧ (q.ticket = p.ticket → q.sl = p.sl ∨ q.sl = roundPrice pos.stop) ∧
      ∀ p' ∈ rest, p'.ticket = q.ticket → q.sl = p'.sl) (Sent.Tightens m) w) :
    Ensures (b.send (Mt5Broker.sltpRequest p pos.stop) none false) w fun _ v =>
      Kept m (fun q => Covered pos q ∧ (q.ticket = p.ticket → q.sl = p.sl ∨ q.sl = roundPrice pos.stop) ∧
        ∀ p' ∈ rest, p'.ticket = q.ticket → q.sl = p'.sl) (Sent.Tightens m) v := by
  have hsteps : StepsFrom (MtStep b (fun body => body = .sltp p.ticket (roundPrice pos.stop) p.tp) fun _ => True)
      (b.send (Mt5Broker.sltpRequest p pos.stop) none false) w :=
    b.send_plain_steps (B := fun body => body = .sltp p.ticket (roundPrice pos.stop) p.tp) rfl w
  refine hsteps.invariant (fun _ _ hstep hI => hstep.kept ?_ ?_ hI) h
  · rintro body rfl
    refine Server.keptBy_sltp fun q hq hticket => ⟨⟨hq.1.1, covers_round pos⟩, fun _ => Or.inr rfl, ?_⟩
    intro p' hp' heq
    exact absurd (heq.trans hticket ▸ List.mem_map_of_mem hp') hnew
  · intro s hbody hbefore
    unfold Sent.Tightens
    rw [hbody]
    intro q hq hticket
    obtain ⟨hmem, hm⟩ := Server.mem_own.mp hq
    obtain ⟨⟨hdir, hcovers⟩, hsl, -⟩ := hbefore.all q hmem hm
    rw [hdir]
    rcases hsl hticket with heq | heq
    · exact hcovers.asTight (by rw [heq]; exact hreact)
    · rw [heq]
      exact asTight_refl _ _

theorem updateEach_tightens (pos : PositionState) (ps : List Position) (hnodup : (ps.map (·.ticket)).Nodup)
    (result : Option SendResult)
    (h : Kept m (fun q => Covered pos q ∧ ∀ p ∈ ps, p.ticket = q.ticket → q.sl = p.sl) (Sent.Tightens m) w) :
    Ensures (b.updateEach pos.stop ps result) w fun _ v => Kept m (Covered pos) (Sent.Tightens m) v := by
  induction ps generalizing result w with
  | nil => exact h.mono fun _ hq => hq.1
  | cons p rest ih =>
    have hrest := List.nodup_cons.mp hnodup
    unfold Mt5Broker.updateEach
    split
    · exact ih hrest.2 result (h.mono fun q hq => ⟨hq.1, fun p' hp' => hq.2 p' (List.mem_cons_of_mem _ hp')⟩)
    · next hreact =>
      have hstart : Kept m (fun q => Covered pos q ∧ (q.ticket = p.ticket → q.sl = p.sl ∨ q.sl = roundPrice pos.stop) ∧
          ∀ p' ∈ rest, p'.ticket = q.ticket → q.sl = p'.sl) (Sent.Tightens m) w :=
        h.mono fun q hq => ⟨hq.1, fun hticket => Or.inl (hq.2 p List.mem_cons_self hticket.symm),
          fun p' hp' => hq.2 p' (List.mem_cons_of_mem _ hp')⟩
      refine Ensures.bind_keep (push_keeps b pos hrest.1 hreact hstart) (fun v hv => hv.mono fun _ hq => hq.1)
        fun res v hv => ?_
      have hnext : Kept m (fun q => Covered pos q ∧ ∀ p' ∈ rest, p'.ticket = q.ticket → q.sl = p'.sl) (Sent.Tightens m) v :=
        hv.mono fun q hq => ⟨hq.1, hq.2.2⟩
      rw [ensures_bind]
      exact b.emit_rule fun _ => ih hrest.2 (some res) (hnext.congr rfl rfl)

theorem updateStop_tightens (pos : PositionState) (h : Kept b.magic (Covered pos) (Sent.Tightens b.magic) w) :
    Ensures (b.updateStop pos.stop) w fun _ v => Kept b.magic (Covered pos) (Sent.Tightens b.magic) v := by
  have hread : Kept b.magic (Covered pos) (Sent.Tightens b.magic) w.afterRead := ⟨h.holds.settled, h.logged⟩
  unfold Mt5Broker.updateStop
  rw [ensures_bind, Mt5Broker.ensures_myPositions, post_ok]
  unfold Mt5Broker.seen
  split
  · refine updateEach_tightens b pos _ (hread.holds.wf.nodup.sublist (List.filter_sublist.map _)) none
      ⟨⟨hread.holds.wf, hread.holds.noOrders, fun q hq hm => ⟨hread.holds.all q hq hm, fun p hp heq => ?_⟩⟩,
        hread.logged⟩
    obtain rfl : p = q := List.inj_on_of_nodup_map hread.holds.wf.nodup (Server.mem_own.mp hp).1 hq heq
    rfl
  · exact hread

end Push

/-! ### The loop -/

namespace Live

variable {live : LiveConfig}

theorem tracked_covered {pos : PositionState} {p : Position} : Tracked Covered (some pos) p ↔ Covered pos p := by
  constructor
  · rintro ⟨q, hq, h⟩
    cases hq
    exact h
  · exact fun h => ⟨pos, rfl, h⟩

theorem entry_covered {sig : Signal} {pos : PositionState} (hdir : sig.direction = pos.direction)
    (hprice : sig.price = pos.entryPrice) (hstop : sig.stop = some pos.stop) {body : OrderBody}
    (hbody : (mt5 live (ε := OrbEngine)).EntryBody sig (fun px => pos.Covers (pos.orderSl px)) body) :
    Server.KeptBy live.broker.magic (Covered pos) body := by
  cases body with
  | entry dir volume px sl tp dev magic comment =>
    obtain ⟨rfl, -, hcovers, rfl, -⟩ := hbody
    refine Server.keptBy_entry fun p hpdir hpsl => ⟨hpdir.trans hdir, ?_⟩
    have hsl : roundPrice (Mt5Broker.anchoredSl sig px) = pos.orderSl px := by
      unfold Mt5Broker.anchoredSl PositionState.orderSl
      rw [hdir, hprice, hstop]
    rw [hpsl, hsl]
    exact hcovers
  | close | pending | sltp | remove => exact hbody.elim

/-- The stops stay in order: at the entry by the quotes, and then because the engine only tightens its own. -/
theorem covered_discipline (hlive : live.OrbMarket) :
    Discipline live Covered (Sent.Tightens live.broker.magic) Anchored where
  shrink := fun pos q₀ q _ hdir hsl _ h => ⟨hdir.trans h.1, hsl ▸ h.2⟩
  held := fun pos pos' p hdir hstop h => ⟨h.1.trans hdir.symm, h.2.tighter hdir hstop⟩
  reduces := fun s hs => tightens_of_not_stop fun ticket sl tp heq => by rw [heq] at hs; exact hs
  opens := fun sig pos w hkind hdir hprice hstop hquotes hkept => by
    have hin : Mt5Broker.QuotesIn sig (fun px => pos.Covers (pos.orderSl px)) w.env := fun k tick htick => by
      rw [hdir]
      exact hquotes k tick htick
    have hopen : Ensures ((mt5 live).openMarket sig) w fun _ v =>
        Kept live.broker.magic (Covered pos) (Sent.Tightens live.broker.magic) v :=
      ((mt5 live).openMarket_steps sig hin).invariant (fun _ _ hstep hI => hstep.kept
        (fun _ hbody => entry_covered hdir hprice hstop hbody)
        (fun s hbody _ => tightens_of_not_stop fun ticket sl tp heq => by rw [heq] at hbody; exact hbody) hI)
        (hkept.mono fun _ hfalse => hfalse.elim)
    have hrun : Ensures ((mt5 live).execute sig) w fun _ v =>
        Kept live.broker.magic (Covered pos) (Sent.Tightens live.broker.magic) v := by
      rw [execute_entry hlive hkind]
      exact Ensures.bind_keep hopen (fun _ h => h) fun _ _ h => h
    have htracked : Ensures ((mt5 live).execute sig) w fun _ v =>
        Kept live.broker.magic (Tracked Covered (some pos)) (Sent.Tightens live.broker.magic) v :=
      hrun.mono fun _ _ hv => hv.mono fun _ => tracked_covered.mpr
    exact htracked
  pushes := fun pos w hkept => by
    have hpush := updateStop_tightens (mt5 live) pos (hkept.mono fun _ => tracked_covered.mp)
    have htracked : Ensures ((mt5 live).updateStop pos.stop) w fun _ v =>
        Kept live.broker.magic (Tracked Covered (some pos)) (Sent.Tightens live.broker.magic) v :=
      hpush.mono fun _ _ hv => hv.mono fun _ => tracked_covered.mpr
    exact htracked

end Live

namespace LiveState

/-- **The server's stop never loosens.** The loop starts with nothing of its own at the broker. If the engine
follows the broker on every bar, a success answer to an EXIT is true, and no quote of an ENTRY puts the order's
stop ahead of the engine's, every stop that is sent is at least as tight as the one the server holds. -/
theorem stop_never_loosens (cfg : OrbConfig) (live : LiveConfig) (hlive : live.OrbMarket) (server : Server)
    (hserver : server.Holds live.broker.magic fun _ => False) (inputs : List LiveInput)
    (hmeet : StepsMeet (step (orbOps cfg) live) (Meets cfg live Anchored) (start live (OrbEngine.init cfg) server) inputs) :
    ∀ s ∈ (run (step (orbOps cfg) live) (start live (OrbEngine.init cfg) server) inputs).world.sent,
      s.Tightens live.broker.magic :=
  (run_agreeing (Live.covered_discipline hlive) hlive hserver hmeet).logged

/-! ### An entry and a trailed stop -/

/-- A range, an ENTRY at 2005 that finds this ask, and a bar that trails the stop. -/
def trailedTrade (ask : ℚ) : List LiveInput :=
  [answered (EngineRun.minuteBar 0 2000 2001 1999 2000) (quoting ask accepted),
    answered (EngineRun.minuteBar 1 2002 2006 2001 2005) (quoting ask accepted),
    answered (EngineRun.minuteBar 2 2005 2016 2004 2015) (quoting ask accepted)]

def afterTrailedTrade (ask : ℚ) : LiveState OrbEngine :=
  run (step (orbOps EngineRun.gapConfig) .default) (start .default (OrbEngine.init EngineRun.gapConfig) {}) (trailedTrade ask)

/-- `BarMeets` on a bar whose calls all meet one reply. -/
def MeetsOnce (s : LiveState OrbEngine) : LiveInput → Prop
  | .bar bar => Live.Follows EngineRun.gapConfig .default bar s.world ∧
      Live.Emits (fun sig e => (sig.kind = .exit → (bar.atSignal 0).send.Truthful) ∧ (sig.kind = .entry → ∀ pos ∈ e.pos,
        ∀ tick ∈ (bar.atSignal 0).tick, pos.Covers (pos.orderSl (Mt5Broker.quote pos.direction tick))))
        (s.world.bot.engine.onCandle EngineRun.gapConfig bar.candle)
  | _ => True

instance (s : LiveState OrbEngine) : (input : LiveInput) → Decidable (MeetsOnce s input)
  | .bar _ => inferInstanceAs (Decidable (_ ∧ _))
  | .refresh .. => isTrue trivial
  | .idle _ => isTrue trivial

theorem trailedTrade_meets {ask : ℚ} (honce : StepsMeet (step (orbOps EngineRun.gapConfig) .default) MeetsOnce
    (start .default (OrbEngine.init EngineRun.gapConfig) {}) (trailedTrade ask)) :
    StepsMeet (step (orbOps EngineRun.gapConfig) .default) (Meets EngineRun.gapConfig .default Anchored)
      (start .default (OrbEngine.init EngineRun.gapConfig) {}) (trailedTrade ask) := by
  have hconst : StepsMeet (step (orbOps EngineRun.gapConfig) .default)
      (fun _ input => ∀ bar, input = .bar bar → ∀ k, bar.atSignal k = bar.atSignal 0)
      (start .default (OrbEngine.init EngineRun.gapConfig) {}) (trailedTrade ask) := by
    refine stepsMeet_of_forall fun input hinput bar hbar k => ?_
    simp only [trailedTrade, answered, hbar, List.mem_cons, LiveInput.bar.injEq, List.not_mem_nil, or_false] at hinput
    rcases hinput with rfl | rfl | rfl <;> rfl
  refine (honce.and hconst).mono ?_
  rintro s (bar | _ | _) ⟨honce, hconst⟩
  · exact fun _ => ⟨honce.1, honce.2.mono fun sig e h hkind k => hconst bar rfl k ▸ h.1 hkind,
      honce.2.mono fun sig e h hkind pos hpos k => hconst bar rfl k ▸ h.2 hkind pos hpos⟩
  · trivial
  · trivial

/-- The order is sent at the signal's price, and the trailed stop is pushed. -/
theorem stop_never_loosens_trailed : (afterTrailedTrade 2005).world.sent.length = 2 ∧
    ∀ s ∈ (afterTrailedTrade 2005).world.sent, s.Tightens 20260610 :=
  ⟨by decide +kernel, stop_never_loosens EngineRun.gapConfig .default ⟨rfl, rfl, rfl⟩ {}
    (Server.holds_false.mpr ⟨⟨Server.issued_of_nil rfl rfl, by decide, by decide⟩, by decide, by decide⟩) _
    (trailedTrade_meets (by decide +kernel))⟩

/-- The order is sent at 2006 with its stop at 1997, and the bar's reconciliation moves that to 1996. -/
theorem stop_loosened_at_entry : ¬ ∀ s ∈ (afterTrailedTrade 2006).world.sent, s.Tightens 20260610 := by
  decide +kernel

end LiveState

end FreqTrading
