import FreqTrading.Engine.Invariant

/-!
# Runs of the engine

Calls of `on_candle`, `force_flat` and `reset` in any order. A data error leaves the engine as it was; any
other exception ends the run (no caller catches it). `EngineRun` keeps what was emitted, in all and since
the last reset. Seen through the position, one call is a `PositionStep`, and a position step is a step of
the trade-cycle machine; the reachable states follow by induction over the calls.
-/

namespace FreqTrading

open Lib

variable {cfg : OrbConfig}

/-! ### Position steps -/

/-- What one call does to the position, and the signal it emits with that. -/
inductive PositionStep : Option PositionState → Option Signal → Option PositionState → Prop
  | flat (sig : Option Signal) (hsig : ∀ s ∈ sig, s.kind = .reject) : PositionStep none sig none
  | held (pos pos' : PositionState) (hdir : pos'.direction = pos.direction) (htp : pos'.tp = pos.tp)
      (hstop : pos.direction.AsTight pos.stop pos'.stop) : PositionStep (some pos) none (some pos')
  | entered (s : Signal) (pos : PositionState) (hkind : s.kind = .entry) (hdir : s.direction = pos.direction)
      (hprice : s.price = pos.entryPrice) (hstop : s.stop = some pos.stop) : PositionStep none (some s) (some pos)
  | partly (s : Signal) (pos pos' : PositionState) (hkind : s.kind = .exit)
      (hreason : s.reason = "take_profit_partial") (hsdir : s.direction = pos.direction)
      (hdir : pos'.direction = pos.direction) (hstop : pos'.stop = pos.stop) (htp : pos.tp.isSome = true)
      (htp' : pos'.tp = none) : PositionStep (some pos) (some s) (some pos')
  | left (s : Signal) (pos : PositionState) (hkind : s.kind = .exit)
      (hreason : s.reason ≠ "take_profit_partial") (hsdir : s.direction = pos.direction) :
      PositionStep (some pos) (some s) none

theorem ExitReason.text_ne_partial (r : ExitReason) : r.text ≠ "take_profit_partial" := by
  cases r <;> decide

namespace OrbEngine

variable {e e' : OrbEngine} {c : Candle} {info : SessionInfo} {sig : Option Signal}

theorem ratchetStop_asTight (pos : PositionState) (close dist : ℚ) :
    pos.direction.AsTight pos.stop (ratchetStop pos close dist) := by
  unfold ratchetStop Direction.AsTight
  cases pos.direction
  · exact le_max_left _ _
  · exact min_le_left _ _

theorem exit_position {pos pos' : PositionState} (hdir : pos'.direction = pos.direction) (e : OrbEngine)
    (ts : Int) (reason : ExitReason) (toState : State) (price : ℚ) :
    PositionStep (some pos) (some (e.exitSignal cfg ts pos' reason.text toState price)) none :=
  .left _ pos rfl reason.text_ne_partial hdir

theorem HandlerStep.position (h : HandlerStep cfg e c info sig e') (hcore : Core e) :
    PositionStep e.pos sig e'.pos := by
  have hflat : ∀ {st : State}, e.state = st → st ≠ .breakout → e.pos = none :=
    fun hst hne => hcore.pos_none (hst ▸ hne)
  cases h with
  | waiting hstate =>
    rw [hflat hstate (by decide)]
    exact .flat none (by simp)
  | opened hstate =>
    rw [(maybeLock_frame cfg _).2.1, show (e.rangeOpened c).pos = e.pos from rfl, hflat hstate (by decide)]
    exact .flat none (by simp)
  | building built hstate hbuild hbuilt =>
    rw [(maybeLock_frame cfg _).2.1, (buildRange_spec hcore.range hbuilt).2.2.1, hflat hstate (by decide)]
    exact .flat none (by simp)
  | armed sig hstate hbuild hsig =>
    rw [settleRange_pos, hflat hstate (by decide)]
    exact .flat sig hsig
  | broke direction atr m hstate =>
    rw [hflat hstate (by decide)]
    exact .entered _ _ rfl rfl rfl rfl
  | left pos reason price hstate hpos =>
    rw [hpos, (flatten_frame cfg _ _).2.1]
    exact exit_position (heldBar_direction pos c) _ _ _ _ _
  | partly pos price hstate hpos htp hfrac =>
    rw [hpos]
    exact .partly _ pos _ rfl rfl (heldBar_direction pos c) (heldBar_direction pos c) (heldBar_stop pos c) htp rfl
  | trailed pos atr hstate hpos =>
    rw [hpos]
    refine .held pos _ (heldBar_direction pos c) (heldBar_tp pos c) ?_
    have htight := ratchetStop_asTight (heldBar pos c) c.close (stopDist cfg atr)
    rwa [heldBar_direction, heldBar_stop] at htight

theorem afterGap_pos : (e.afterGap cfg info).pos = e.pos := by
  unfold afterGap
  split <;> rfl

theorem IntakeStep.position_done (h : IntakeStep cfg e c info (.done sig e')) (hcore : Core e) :
    PositionStep e.pos sig e'.pos := by
  cases h with
  | carried pos _ _ hpos | closed pos _ _ _ hpos =>
    rw [hpos]
    exact exit_position rfl _ _ _ _ _
  | tornDown _ _ hstate =>
    rw [hcore.pos_none hstate, show ({ e.clearRange with state := .idle, lastTs := some c.ts } :
      OrbEngine).pos = e.pos from rfl, hcore.pos_none hstate]
    exact .flat none (by simp)
  | quiet _ _ hidle =>
    rw [show ({ e with lastTs := some c.ts } : OrbEngine).pos = e.pos from rfl,
      hcore.pos_none (by rw [hidle]; decide)]
    exact .flat none (by simp)
  | gapExit pos _ _ _ _ hpos =>
    rw [hpos, show ({ ({ e with pos := none } : OrbEngine).afterGap cfg (SessionClock.place cfg c.ts) with
      lastTs := some c.ts } : OrbEngine).pos = none from afterGap_pos]
    exact exit_position rfl _ _ _ _ _

theorem IntakeStep.position_go (h : IntakeStep cfg e c info (.go e')) (hcore : Core e) : e'.pos = e.pos := by
  cases h with
  | fresh hid hstate => exact (hcore.pos_none hstate).symm
  | gapReset => exact afterGap_pos
  | plain => rfl

theorem feedIndicators_pos : (e.feedIndicators cfg c info).pos = e.pos := by
  unfold feedIndicators; split <;> rfl

/-- **One bar is one position step**, except that a late bar changes nothing. -/
theorem BarStep.position (h : BarStep cfg e c sig e') (hsound : Sound cfg e) :
    (sig = none ∧ e' = e) ∨ PositionStep e.pos sig e'.pos := by
  cases h with
  | late => exact Or.inl ⟨rfl, rfl⟩
  | done sig e' _ hintake => exact Or.inr (hintake.position_done hsound.core)
  | handled entered sig e' hlate hintake hhandler =>
    have hstep := hhandler.position (hsound.entered hlate hintake).core
    rw [feedIndicators_pos, hintake.position_go hsound.core] at hstep
    exact Or.inr hstep

theorem forceFlat_position (cfg : OrbConfig) (e : OrbEngine) (ts : Int) :
    (e.pos = none ∧ e.forceFlat cfg ts = (none, e)) ∨
      PositionStep e.pos (e.forceFlat cfg ts).1 (e.forceFlat cfg ts).2.pos := by
  unfold forceFlat
  cases hpos : e.pos with
  | none => exact Or.inl ⟨rfl, rfl⟩
  | some pos =>
    refine Or.inr ?_
    show PositionStep _ _ (e.flatten cfg (e.postExitState cfg)).pos
    rw [(flatten_frame cfg _ _).2.1]
    exact exit_position rfl _ _ _ _ _

theorem forceFlat_kind {ts : Int} {s : Signal} (h : (e.forceFlat cfg ts).1 = some s) : s.kind = .exit := by
  unfold forceFlat at h
  split at h
  · cases h
  · cases h; rfl

theorem BarStep.entry_inside {s : Signal} (h : BarStep cfg e c (some s) e') (hsound : Sound cfg e)
    (hkind : s.kind = .entry) : s.ts = c.ts ∧ (SessionClock.place cfg c.ts).zone.Inside := by
  cases h with
  | done sig e' _ hintake => cases hintake <;> cases hkind
  | handled entered sig e' hlate hintake hhandler =>
    have hentered := hsound.entered hlate hintake
    cases hhandler with
    | broke direction atr m hstate => exact ⟨rfl, hentered.inside (by rw [hstate]; decide)⟩
    | armed _ _ _ hsig =>
      rw [hsig s rfl] at hkind
      cases hkind
    | left | partly => cases hkind

end OrbEngine

/-! ### Signals as trade events -/

/-- The trade event of a signal; a REJECT is none. -/
def Signal.tradeEvent (s : Signal) : Option (TradeEvent Direction) :=
  match s.kind with
  | .entry => some (.enter s.direction)
  | .exit => if s.reason = "take_profit_partial" then some (.takePart s.direction) else some (.leave s.direction)
  | .reject => none

/-- The book says what the engine holds. -/
def Book.Describes : Book Direction → Option PositionState → Prop
  | .flat, none => True
  | .holds d partTaken, some pos => pos.direction = d ∧ (partTaken = true → pos.tp = none)
  | _, _ => False

/-- **A position step is a step of the trade cycle.** -/
theorem PositionStep.book {b : Book Direction} {pos pos' : Option PositionState} {sig : Option Signal}
    (h : PositionStep pos sig pos') (hb : b.Describes pos) :
    ∃ b', b.after (sig.toList.filterMap Signal.tradeEvent) = some b' ∧ b'.Describes pos' := by
  cases h with
  | flat sig hsig =>
    refine ⟨b, ?_, hb⟩
    cases sig with
    | none => rfl
    | some s => simp [Signal.tradeEvent, hsig s rfl, Book.after]
  | held pos pos' hdir htp hstop =>
    refine ⟨b, rfl, ?_⟩
    cases b with
    | flat => exact hb
    | holds d partTaken => exact ⟨hdir.trans hb.1, fun hpart => htp.trans (hb.2 hpart)⟩
  | entered s pos hkind hdir =>
    cases b with
    | flat => exact ⟨.holds s.direction false, by simp [Signal.tradeEvent, hkind, Book.next], hdir.symm, by simp⟩
    | holds => exact hb.elim
  | partly s pos pos' hkind hreason hsdir hdir hstop htp htp' =>
    cases b with
    | flat => exact hb.elim
    | holds d partTaken =>
      obtain ⟨rfl, hpart⟩ := hb
      -- a part already taken would have left no take profit
      have hfirst : partTaken = false := by
        cases partTaken with
        | false => rfl
        | true => rw [hpart rfl] at htp; cases htp
      subst hfirst
      exact ⟨.holds pos.direction true, by simp [Signal.tradeEvent, hkind, hreason, hsdir, Book.next],
        hdir, fun _ => htp'⟩
  | left s pos hkind hreason hsdir =>
    cases b with
    | flat => exact hb.elim
    | holds d partTaken =>
      obtain ⟨rfl, -⟩ := hb
      refine ⟨.flat, ?_, trivial⟩
      cases partTaken <;> simp [Signal.tradeEvent, hkind, hreason, hsdir, Book.next]

/-! ### Runs -/

inductive EngineOp
  | candle (raw : RawCandle)
  | forceFlat (ts : Int)
  | reset
  deriving DecidableEq, Repr

/-- With the ROC filter on, a candle does not close at zero. -/
def EngineOp.CloseNonzero (cfg : OrbConfig) : EngineOp → Prop
  | .candle raw => cfg.useRoc = true → raw.close ≠ some 0
  | _ => True

theorem EngineOp.CloseNonzero.accepted {raw : RawCandle} (h : (EngineOp.candle raw).CloseNonzero cfg)
    {c : Candle} (hc : validate raw = .ok c) (huse : cfg.useRoc = true) : c.close ≠ 0 := by
  intro hzero
  apply h huse
  rw [(validate_spec hc).2, hzero]

structure EngineRun where
  engine : OrbEngine
  emitted : List Signal := []
  sinceReset : List Signal := []
  /-- The exception that ended the run. -/
  raised : Option EngineError := none
  deriving DecidableEq, Repr

namespace EngineRun

def start (cfg : OrbConfig) : EngineRun := { engine := OrbEngine.init cfg }

def emit (r : EngineRun) (sig : Option Signal) (e : OrbEngine) : EngineRun :=
  { r with engine := e, emitted := r.emitted ++ sig.toList, sinceReset := r.sinceReset ++ sig.toList }

def step (cfg : OrbConfig) (r : EngineRun) (op : EngineOp) : EngineRun :=
  if r.raised.isSome then r else
  match op with
  | .candle raw =>
    match r.engine.onCandle cfg raw with
    | .ok (sig, e) => r.emit sig e
    | .error err => if err.isEarly then r else { r with raised := some err }
  | .forceFlat ts => r.emit (r.engine.forceFlat cfg ts).1 (r.engine.forceFlat cfg ts).2
  | .reset => { r with engine := r.engine.reset cfg, sinceReset := [] }

/-- The invariant of runs. -/
structure InOrder (cfg : OrbConfig) (r : EngineRun) : Prop where
  sound : r.engine.Sound cfg
  rocFed : r.engine.RocFed cfg
  quiet : r.raised = none
  book : ∃ b, Book.flat.after (r.sinceReset.filterMap Signal.tradeEvent) = some b ∧ b.Describes r.engine.pos
  entries : ∀ s ∈ r.emitted, s.kind = .entry → (SessionClock.place cfg s.ts).zone.Inside

theorem InOrder.book_emit {r : EngineRun} (h : InOrder cfg r) {sig : Option Signal} {e' : OrbEngine}
    (hpos : PositionStep r.engine.pos sig e'.pos) :
    ∃ b, Book.flat.after ((r.emit sig e').sinceReset.filterMap Signal.tradeEvent) = some b ∧
      b.Describes e'.pos := by
  obtain ⟨b, hb, hdesc⟩ := h.book
  obtain ⟨b', hb', hdesc'⟩ := hpos.book hdesc
  refine ⟨b', ?_, hdesc'⟩
  show Book.flat.after ((r.sinceReset ++ sig.toList).filterMap Signal.tradeEvent) = some b'
  rw [List.filterMap_append, Book.after_append, hb]
  exact hb'

theorem emit_same (r : EngineRun) : r.emit none r.engine = r := by
  simp [emit]

theorem step_inOrder {r : EngineRun} {op : EngineOp} (h : InOrder cfg r) (hclose : op.CloseNonzero cfg) :
    InOrder cfg (step cfg r op) := by
  unfold step
  rw [if_neg (by simp [h.quiet])]
  cases op with
  | candle raw =>
    show InOrder cfg (match r.engine.onCandle cfg raw with
      | .ok (sig, e) => r.emit sig e
      | .error err => if err.isEarly then r else { r with raised := some err })
    cases hbar : r.engine.onCandle cfg raw with
    | error err =>
      simp only [OrbEngine.onCandle_error h.sound h.rocFed (fun _ => hclose.accepted) hbar, if_true]
      exact h
    | ok out =>
      obtain ⟨sig, e'⟩ := out
      obtain ⟨c, hc, hstep⟩ := OrbEngine.onCandle_cases h.sound.core.ne_exit hbar
      refine ⟨hstep.sound h.sound, hstep.rocFed h.sound h.rocFed (hclose.accepted hc), h.quiet, ?_, ?_⟩
      · rcases hstep.position h.sound with ⟨rfl, rfl⟩ | hpos
        · simpa [emit] using h.book
        · exact h.book_emit hpos
      · intro s hs hkind
        rcases List.mem_append.mp hs with hold | hnew
        · exact h.entries s hold hkind
        · cases sig with
          | none => cases hnew
          | some s' =>
            obtain rfl : s = s' := by simpa using hnew
            obtain ⟨hts, hin⟩ := hstep.entry_inside h.sound hkind
            rw [hts]
            exact hin
  | forceFlat ts =>
    show InOrder cfg (r.emit (r.engine.forceFlat cfg ts).1 (r.engine.forceFlat cfg ts).2)
    refine ⟨OrbEngine.forceFlat_sound h.sound ts, OrbEngine.forceFlat_rocFed h.rocFed ts, h.quiet, ?_, ?_⟩
    · rcases OrbEngine.forceFlat_position cfg r.engine ts with ⟨_, hsame⟩ | hpos
      · rw [hsame]
        simpa [emit] using h.book
      · exact h.book_emit hpos
    · intro s hs hkind
      rcases List.mem_append.mp hs with hold | hnew
      · exact h.entries s hold hkind
      · rw [OrbEngine.forceFlat_kind (by simpa using hnew)] at hkind
        cases hkind
  | reset =>
    exact ⟨OrbEngine.sound_init, OrbEngine.rocFed_init, h.quiet, ⟨.flat, rfl, trivial⟩, h.entries⟩

theorem start_inOrder : InOrder cfg (start cfg) where
  sound := OrbEngine.sound_init
  rocFed := OrbEngine.rocFed_init
  quiet := rfl
  book := ⟨.flat, rfl, trivial⟩
  entries := by simp [start]

theorem run_inOrder {ops : List EngineOp} (hclose : ∀ op ∈ ops, op.CloseNonzero cfg) :
    InOrder cfg (run (step cfg) (start cfg) ops) :=
  run_invariant (fun _ _ => step_inOrder) start_inOrder (stepsMeet_of_forall hclose)

/-- **Reachable states of the engine.** After any calls of `on_candle`, `force_flat` and `reset`: a position
is held exactly in BREAKOUT; there the range is set, in order and locked, and the ATR is ready; an unset
bound in RANGE_DEFINED is being rebuilt, unlocked; no comparison with `None`, no assertion and no division failed,
nor anything else past the checks at the head of `on_candle`; every ENTRY is on a bar of its session window; and the
signals since the last reset are trade cycles, the last one perhaps open. -/
theorem engine_reachable (cfg : OrbConfig) (ops : List EngineOp)
    (hclose : ∀ op ∈ ops, op.CloseNonzero cfg) :
    let r := run (step cfg) (start cfg) ops
    (r.engine.state = .breakout ↔ r.engine.pos.isSome = true) ∧
    (r.engine.state = .breakout →
      (∃ hi lo, r.engine.rangeHi = some hi ∧ r.engine.rangeLo = some lo ∧ lo ≤ hi) ∧
        r.engine.rangeLocked = true ∧ r.engine.atr.ready = true) ∧
    (r.engine.state = .rangeDefined → (r.engine.rangeHi = none ∨ r.engine.rangeLo = none) →
      r.engine.rebuild = true ∧ r.engine.rangeLocked = false) ∧
    r.raised = none ∧
    (∀ s ∈ r.emitted, s.kind = .entry →
      SessionClock.openOf cfg (SessionClock.place cfg s.ts).sessionId ≤ s.ts ∧
        s.ts < SessionClock.endOf cfg (SessionClock.place cfg s.ts).sessionId) ∧
    ∃ cycles : List (TradeCycle Direction),
      r.sinceReset.filterMap Signal.tradeEvent <+: cycles.flatMap TradeCycle.events := by
  intro r
  have h : InOrder cfg r := run_inOrder hclose
  have hcore := h.sound.core
  refine ⟨hcore.pos_iff.symm, fun hstate => ?_, fun hstate hunset => ?_, h.quiet, fun s hs hkind => ?_, ?_⟩
  · obtain ⟨hhi, hlock, hatr⟩ := hcore.breakout hstate
    exact ⟨hcore.range.of_isSome hhi, hlock, hatr⟩
  · refine hcore.defined hstate ?_
    rcases hcore.range with ⟨hnone, _⟩ | ⟨hi, lo, hhi, hlo, _⟩
    · exact hnone
    · rcases hunset with hunset | hunset
      · exact hunset
      · rw [hlo] at hunset; cases hunset
  · exact SessionClock.place_inside cfg (h.entries s hs hkind)
  · obtain ⟨b, hb, -⟩ := h.book
    exact Book.after_prefix hb

/-- The bar of minute `m` after midnight. -/
def minuteBar (m : Int) (o h l c : ℚ) : RawCandle := ⟨m * minuteMicros, true, some o, some h, some l, some c, some 1⟩

/-- One-bar range and indicators, and half of the position closed at the take profit. -/
def halfConfig : OrbConfig :=
  ⟨{ rangeMinutes := 1, rocPeriod := 1, atrPeriod := 1, tpRrr := some 1, tpCloseFrac := 1 / 2 }, by decide +kernel⟩

/-- A range, a breakout, the take profit, a close back in the range, and calls with no position. -/
def halfTrade : List EngineOp :=
  [.candle (minuteBar 0 2000 2001 1999 2000), .candle (minuteBar 1 2002 2006 2001 2005),
    .candle (minuteBar 2 2005 2016 2004 2015), .candle (minuteBar 3 2015 2015 1999 2000), .forceFlat (4 * minuteMicros)]

theorem engine_reachable_traded :
    let r := run (step halfConfig) (start halfConfig) halfTrade
    r.emitted.map (fun s => (s.kind, s.reason)) =
        [(.entry, "breakout_long"), (.exit, "take_profit_partial"), (.exit, "range_reentry")] ∧
      r.raised = none ∧
      ∃ cycles : List (TradeCycle Direction),
        r.sinceReset.filterMap Signal.tradeEvent <+: cycles.flatMap TradeCycle.events := by
  have hclose : ∀ op ∈ halfTrade, op.CloseNonzero halfConfig := by
    intro op hop
    simp only [halfTrade, List.mem_cons, List.not_mem_nil, or_false] at hop
    rcases hop with rfl | rfl | rfl | rfl | rfl
    · exact fun _ => by decide +kernel
    · exact fun _ => by decide +kernel
    · exact fun _ => by decide +kernel
    · exact fun _ => by decide +kernel
    · trivial
  obtain ⟨-, -, -, hquiet, -, hcycles⟩ := engine_reachable halfConfig halfTrade hclose
  exact ⟨by decide +kernel, hquiet, hcycles⟩

end EngineRun

end FreqTrading
