import FreqTrading.Lib.Run
import FreqTrading.Engine.TradeCycle
import FreqTrading.Svp.Protection
import FreqTrading.Smc.Contract

/-!
# The trade cycle of the profile engine and of the structure engine

`SvpEngine` and `SmcEngine` never move a stop and never take a part of a position. What they emit is therefore the trade
cycle over pairs of a direction and a stop: the book of the signals emitted so far is, after every call, the position
that the engine holds (`SvpRun.profile_signals_book`, `SmcTape.structure_signals_book`). An EXIT thus has the direction
and the stop of its ENTRY.
-/

namespace FreqTrading

open Lib

/-- What a signal says of a trade; a REJECT says nothing. -/
def Signal.levelEvent (s : Signal) : Option (TradeEvent (Direction × Option ℚ)) :=
  match s.kind with
  | .entry => some (.enter (s.direction, s.stop))
  | .exit => some (.leave (s.direction, s.stop))
  | .reject => none

/-- The book of a position. -/
def bookOf : Option PositionState → Book (Direction × Option ℚ)
  | none => .flat
  | some pos => .holds (pos.direction, some pos.stop) false

/-! ### One call -/

/-- What a call does to the position, and the signal it emits with that. -/
inductive CycleTurn : Option PositionState → Option Signal → Option PositionState → Prop
  | rests (pos pos' : Option PositionState) (h : bookOf pos' = bookOf pos) : CycleTurn pos none pos'
  | enters (s : Signal) (pos : PositionState) (hkind : s.kind = .entry) (hdir : s.direction = pos.direction)
      (hstop : s.stop = some pos.stop) : CycleTurn none (some s) (some pos)
  | leaves (s : Signal) (pos : PositionState) (hkind : s.kind = .exit) (hdir : s.direction = pos.direction)
      (hstop : s.stop = some pos.stop) : CycleTurn (some pos) (some s) none

theorem CycleTurn.refl (pos : Option PositionState) : CycleTurn pos none pos := .rests pos pos rfl

theorem CycleTurn.book {pos pos' : Option PositionState} {sig : Option Signal} (h : CycleTurn pos sig pos') :
    (bookOf pos).after (sig.toList.filterMap Signal.levelEvent) = some (bookOf pos') := by
  cases h with
  | rests pos pos' hsame =>
    rw [hsame]
    rfl
  | enters s pos hkind hdir hstop => simp [Signal.levelEvent, hkind, hdir, hstop, bookOf, Book.next]
  | leaves s pos hkind hdir hstop => simp [Signal.levelEvent, hkind, hdir, hstop, bookOf, Book.next]

theorem bookOf_counted (pos : Option PositionState) :
    bookOf (pos.map fun pos => { pos with barsHeld := pos.barsHeld + 1 }) = bookOf pos := by
  cases pos <;> rfl

theorem CycleTurn.counted {pos pos' : Option PositionState} {sig : Option Signal} (h : CycleTurn pos sig pos') :
    CycleTurn pos sig (pos'.map fun pos => { pos with barsHeld := pos.barsHeld + 1 }) := by
  cases h with
  | rests pos pos' hsame => exact .rests _ _ ((bookOf_counted pos').trans hsame)
  | enters s pos hkind hdir hstop => exact .enters s _ hkind hdir hstop
  | leaves s pos hkind hdir hstop => exact .leaves s pos hkind hdir hstop

/-! ### Runs of an engine -/

section runs

variable {ρ ι : Type} {step : ρ → ι → ρ} {I : ρ → Prop} (signals : ρ → List Signal) (held : ρ → Option PositionState)

theorem run_book (hkeeps : ∀ r i, I r → I (step r i))
    (hturn : ∀ r i, I r → ∃ sig : Option Signal, signals (step r i) = signals r ++ sig.toList ∧
      CycleTurn (held r) sig (held (step r i)))
    {r : ρ} (hinit : I r) (hsignals : signals r = []) (hheld : held r = none) (is : List ι) :
    Book.flat.after ((signals (run step r is)).filterMap Signal.levelEvent) = some (bookOf (held (run step r is))) := by
  have hstep : ∀ r i, (I r ∧ Book.flat.after ((signals r).filterMap Signal.levelEvent) = some (bookOf (held r))) →
      I (step r i) ∧ Book.flat.after ((signals (step r i)).filterMap Signal.levelEvent) = some (bookOf (held (step r i))) := by
    intro r i h
    obtain ⟨sig, hemits, hsig⟩ := hturn r i h.1
    refine ⟨hkeeps r i h.1, ?_⟩
    rw [hemits, List.filterMap_append, Book.after_append, h.2]
    exact hsig.book
  have hstart : I r ∧ Book.flat.after ((signals r).filterMap Signal.levelEvent) = some (bookOf (held r)) := by
    rw [hsignals, hheld]
    exact ⟨hinit, rfl⟩
  exact (run_always hstep hstart is).2

end runs

/-! ### The profile engine -/

namespace SvpEngine

variable {cfg : SvpConfig} {e e' : SvpEngine} {c : Candle} {info : SessionInfo} {sig : Option Signal}

theorem BarStep.turn (h : Ordered cfg e) (hstep : BarStep cfg e c info sig e') : CycleTurn e.pos sig e'.pos := by
  obtain ⟨-, hfed, -⟩ := fed_frame e c info
  cases hstep with
  | carried pos hid hpos =>
    rw [hpos]
    exact .leaves _ pos rfl rfl rfl
  | fresh hid hstate =>
    obtain ⟨-, hrolled, -⟩ := fed_frame (e.rollSession cfg info.sessionId) c info
    rw [h.flat hstate, (onIdle_frame _ info).1, hrolled]
    exact .refl none
  | closed pos hid hpos =>
    rw [hpos]
    exact .leaves _ pos rfl rfl rfl
  | ended => exact .refl e.pos
  | waiting =>
    rw [(onIdle_frame _ info).1, hfed]
    exact .refl e.pos
  | quiet =>
    rw [hfed]
    exact .refl e.pos
  | entered lv setup hid hin hstate =>
    have hflat : e.pos = none := h.flat (by rw [hstate]; exact fun h => by cases h)
    rw [hflat]
    exact .enters _ _ rfl rfl rfl
  | held =>
    have hkept := (CycleTurn.refl e.pos).counted
    rw [← hfed] at hkept
    exact hfed ▸ hkept

theorem forceFlat_turn (e : SvpEngine) (ts : Int) : CycleTurn e.pos (e.forceFlat ts).1 (e.forceFlat ts).2.pos := by
  cases hpos : e.pos with
  | none =>
    have hsame : e.forceFlat ts = (none, e) := by
      unfold forceFlat
      rw [hpos]
    rw [hsame, hpos]
    exact .refl none
  | some pos =>
    unfold forceFlat
    rw [hpos]
    exact .leaves _ pos rfl rfl rfl

theorem Ordered.forceFlat (h : Ordered cfg e) (ts : Int) : Ordered cfg (e.forceFlat ts).2 := by
  unfold SvpEngine.forceFlat
  split
  · exact h
  · exact h.idle rfl (fun h => by cases h) rfl rfl

end SvpEngine

namespace SvpRun

variable {cfg : SvpConfig}

theorem step_turn (r : SvpRun) (op : SvpOp) (h : SvpEngine.Ordered cfg r.engine) :
    SvpEngine.Ordered cfg (step cfg r op).engine ∧ ∃ sig : Option Signal,
      (step cfg r op).emitted = r.emitted ++ sig.toList ∧ CycleTurn r.engine.pos sig (step cfg r op).engine.pos := by
  cases op with
  | candle raw =>
    unfold step
    dsimp only
    split
    · next sig e' hbar =>
      obtain ⟨c, -, ⟨-, rfl, rfl⟩ | ⟨-, hstep⟩⟩ := SvpEngine.onCandle_cases hbar
      · exact ⟨h, none, rfl, .refl _⟩
      · exact ⟨h.bar hstep, sig, rfl, hstep.turn h⟩
    · exact ⟨h, none, by simp, .refl _⟩
  | forceFlat ts => exact ⟨h.forceFlat ts, (r.engine.forceFlat ts).1, rfl, r.engine.forceFlat_turn ts⟩

/-- **The signals of the profile engine are trade cycles**: after any candles and any closes by the server, the book of what
was emitted is the position that the engine holds, with its direction and its stop. -/
theorem profile_signals_book (cfg : SvpConfig) (ops : List SvpOp) :
    let r := run (step cfg) (start cfg) ops
    Book.flat.after (r.emitted.filterMap Signal.levelEvent) = some (bookOf r.engine.pos) ∧
      (r.engine.pos.isSome = true ↔ r.engine.state = .breakout) := by
  intro r
  constructor
  · exact run_book SvpRun.emitted (fun r => r.engine.pos) (fun r op h => (step_turn r op h).1)
      (fun r op h => (step_turn r op h).2) (SvpEngine.ordered_init cfg) rfl rfl ops
  · have hordered : SvpEngine.Ordered cfg r.engine :=
      run_always (fun r op h => (step_turn r op h).1) (SvpEngine.ordered_init cfg) ops
    exact hordered.held

end SvpRun

/-! ### The structure engine -/

namespace SmcEngine

variable {cfg : SmcConfig} {e e' : SmcEngine} {c m15c : Candle} {bias : Direction}

theorem enter_turn (hflat : e.position = none) (fired : List String) (poi : Poi) (swept : Option ℚ) :
    CycleTurn none (e.enter cfg m15c bias fired poi swept).1 (e.enter cfg m15c bias fired poi swept).2.position := by
  unfold enter
  dsimp only
  split
  · rw [hflat]
    exact .refl none
  · exact .enters _ _ rfl rfl rfl

theorem confluence_turn (cfg : SmcConfig) (m15c : Candle) (event : Option StructureEvent) (bias : Direction)
    (hflat : e.position = none) :
    CycleTurn none (e.confluence cfg m15c event bias).1 (e.confluence cfg m15c event bias).2.position := by
  unfold confluence
  dsimp only
  split
  · rw [hflat]
    exact .refl none
  · split
    · rw [hflat]
      exact .refl none
    · next poi resolved hpoi =>
      obtain ⟨-, hbook, -⟩ := resolvePoi_present hpoi
      have hresolved : resolved.position = none := hbook.position.trans hflat
      split
      · rw [hresolved]
        exact .refl none
      · exact enter_turn hresolved _ _ _

theorem onDecision_turn (cfg : SmcConfig) (e : SmcEngine) (m15c : Candle) (event : Option StructureEvent) :
    CycleTurn e.position (e.onDecision cfg m15c event).1 (e.onDecision cfg m15c event).2.position := by
  unfold onDecision
  split
  · exact .refl _
  · next hheld =>
    have hflat : e.position = none := by simpa using hheld
    split
    · exact .refl _
    · dsimp only
      split
      · exact .refl _
      · rw [hflat]
        exact confluence_turn cfg m15c event _ rfl

theorem accept_turn (cfg : SmcConfig) (e : SmcEngine) (c : Candle) :
    CycleTurn e.position (e.accept cfg c).1 (e.accept cfg c).2.position := by
  have hbook := (feed_fed cfg e c).book (feedM15_sameBook (e.feed cfg c) c)
  unfold accept decide
  dsimp only
  split
  · next e₁ hm15 =>
    rw [hm15] at hbook
    rw [← hbook.position]
    exact (CycleTurn.refl e₁.position).counted
  · next m15c event e₁ hm15 =>
    rw [hm15] at hbook
    rw [← hbook.position]
    exact (onDecision_turn cfg e₁ m15c event).counted

end SmcEngine

/-- The engine, and the signals it emitted. -/
structure SmcTape where
  engine : SmcEngine
  emitted : List Signal := []

namespace SmcTape

variable {cfg : SmcConfig}

def emit (r : SmcTape) (sig : Option Signal) (e : SmcEngine) : SmcTape := ⟨e, r.emitted ++ sig.toList⟩

/-- A call that raises leaves the engine as it was. -/
def step (cfg : SmcConfig) (r : SmcTape) : SmcInput → SmcTape
  | .candle raw =>
    match r.engine.onCandle cfg raw with
    | .ok (sig, e) => r.emit sig e
    | .error _ => r
  | .forceFlat ts => r.emit (r.engine.forceFlat ts).1 (r.engine.forceFlat ts).2

theorem forceFlat_turn (e : SmcEngine) (ts : Int) : CycleTurn e.position (e.forceFlat ts).1 (e.forceFlat ts).2.position := by
  cases hpos : e.position with
  | none =>
    have hsame : e.forceFlat ts = (none, e) := by
      unfold SmcEngine.forceFlat
      rw [hpos]
    rw [hsame, hpos]
    exact .refl none
  | some pos =>
    unfold SmcEngine.forceFlat
    rw [hpos]
    exact .leaves _ pos rfl rfl rfl

theorem step_turn (r : SmcTape) (input : SmcInput) : ∃ sig : Option Signal,
    (step cfg r input).emitted = r.emitted ++ sig.toList ∧
      CycleTurn r.engine.position sig (step cfg r input).engine.position := by
  cases input with
  | candle raw =>
    unfold step
    dsimp only
    split
    · next sig e' hbar =>
      obtain ⟨c, -, ⟨-, rfl, rfl⟩ | ⟨-, haccept⟩⟩ := SmcEngine.onCandle_cases hbar
      · exact ⟨none, rfl, .refl _⟩
      · have hturn := SmcEngine.accept_turn cfg r.engine c
        rw [← haccept] at hturn
        exact ⟨sig, rfl, hturn⟩
    · exact ⟨none, by simp, .refl _⟩
  | forceFlat ts => exact ⟨(r.engine.forceFlat ts).1, rfl, forceFlat_turn r.engine ts⟩

theorem created_flat {e : SmcEngine} (h : SmcEngine.create cfg = .ok e) : e.position = none := by
  unfold SmcEngine.create at h
  obtain ⟨m15, -, h⟩ := bind_ok.mp h
  obtain ⟨h4, -, h⟩ := bind_ok.mp h
  obtain ⟨d1, -, h⟩ := bind_ok.mp h
  cases h
  rfl

/-- **The signals of the structure engine are trade cycles**, after any candles and any closes by the server. -/
theorem structure_signals_book (cfg : SmcConfig) {e : SmcEngine} (h : SmcEngine.create cfg = .ok e) (inputs : List SmcInput) :
    let r := run (step cfg) { engine := e } inputs
    Book.flat.after (r.emitted.filterMap Signal.levelEvent) = some (bookOf r.engine.position) := by
  intro r
  exact run_book (I := fun _ => True) SmcTape.emitted (fun r => r.engine.position) (fun _ _ _ => trivial) (fun r input _ => step_turn r input)
    trivial rfl (created_flat h) inputs

theorem structure_signals_book_twoEntries : ∃ e, SmcEngine.create SmcRun.minuteConfig = .ok e ∧
    let r := run (step SmcRun.minuteConfig) { engine := e } SmcRun.twoEntries
    r.emitted.map Signal.kind = [.entry, .exit, .entry] ∧
      Book.flat.after (r.emitted.filterMap Signal.levelEvent) = some (bookOf r.engine.position) :=
  ⟨_, rfl, by decide +kernel, structure_signals_book SmcRun.minuteConfig rfl _⟩

end SmcTape

end FreqTrading
