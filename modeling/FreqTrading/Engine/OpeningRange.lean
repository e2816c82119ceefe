import FreqTrading.Engine.OneTrade
import Mathlib.Order.Bounds.Basic

/-!
# The opening range

The opening range of a session is meant to be the envelope of its first bars. Two bars of the range window are
not counted in it. A bar that finds a position of another session closes that position and is over; and an
engine that is idle again after a trade of its own session opens a new range on the next bar of the window,
without those before. `UncountedAt` names both. Over runs of candles without them, and without a gap reset, a
range that locks is the envelope of all window bars of its session, and a session with a window bar has one.

A run is followed with the bars accepted so far (`Tape`); `Counted` says what they have to do with the state.
-/

namespace FreqTrading

open Lib

/-! ### Envelopes -/

/-- The bounds are the highest high and the lowest low of the bars. -/
structure Envelope (bars : List Candle) (hi lo : ℚ) : Prop where
  high : IsGreatest {x | ∃ c ∈ bars, c.high = x} hi
  low : IsLeast {x | ∃ c ∈ bars, c.low = x} lo

theorem envelope_singleton (c : Candle) : Envelope [c] c.high c.low := by
  refine ⟨⟨⟨c, by simp, rfl⟩, ?_⟩, ⟨c, by simp, rfl⟩, ?_⟩
  · rintro x ⟨b, hb, rfl⟩
    rw [List.mem_singleton.mp hb]
  · rintro x ⟨b, hb, rfl⟩
    rw [List.mem_singleton.mp hb]

/-- One more bar widens the envelope by its own bounds. -/
theorem Envelope.append {bars : List Candle} {hi lo : ℚ} (h : Envelope bars hi lo) (c : Candle) :
    Envelope (bars ++ [c]) (max hi c.high) (min lo c.low) := by
  have hset : ∀ f : Candle → ℚ, {x | ∃ b ∈ bars ++ [c], f b = x} = insert (f c) {x | ∃ b ∈ bars, f b = x} := by
    intro f
    ext x
    simp only [List.mem_append, List.mem_singleton, Set.mem_ofPred_eq, Set.mem_insert_iff]
    constructor
    · rintro ⟨b, hb | rfl, rfl⟩
      · exact Or.inr ⟨b, hb, rfl⟩
      · exact Or.inl rfl
    · rintro (rfl | ⟨b, hb, rfl⟩)
      · exact ⟨c, Or.inr rfl, rfl⟩
      · exact ⟨b, Or.inl hb, rfl⟩
  refine ⟨?_, ?_⟩
  · rw [hset Candle.high, max_comm]
    exact h.high.insert _
  · rw [hset Candle.low, min_comm]
    exact h.low.insert _

/-- The bars of the range window of a session. -/
def windowBars (cfg : OrbConfig) (id : Int) (bars : List Candle) : List Candle :=
  bars.filter fun c => SessionClock.place cfg c.ts = ⟨.inRangeWindow, id⟩

variable {cfg : OrbConfig} {bars : List Candle} {id : Int}

theorem windowBars_in {c : Candle} (h : (SessionClock.place cfg c.ts).zone = .inRangeWindow) :
    windowBars cfg (SessionClock.place cfg c.ts).sessionId (bars ++ [c]) =
      windowBars cfg (SessionClock.place cfg c.ts).sessionId bars ++ [c] := by
  have hc : SessionClock.place cfg c.ts = ⟨.inRangeWindow, (SessionClock.place cfg c.ts).sessionId⟩ := by
    rw [← h]
  unfold windowBars
  rw [List.filter_append, List.filter_cons_of_pos (by simpa using hc), List.filter_nil]

theorem windowBars_out {c : Candle} (h : (SessionClock.place cfg c.ts).zone ≠ .inRangeWindow) :
    windowBars cfg id (bars ++ [c]) = windowBars cfg id bars := by
  have hc : SessionClock.place cfg c.ts ≠ ⟨.inRangeWindow, id⟩ := fun heq => h (by rw [heq])
  unfold windowBars
  rw [List.filter_append, List.filter_cons_of_neg (by simpa using hc), List.filter_nil, List.append_nil]

namespace OrbEngine

variable {e e' : OrbEngine} {c : Candle} {info : SessionInfo} {sig : Option Signal}

/-! ### What the bars have to do with the state -/

/-- A bar of the range window that is not counted in the opening range: the engine holds a position of
another session, or has gone idle after a trade of this one. -/
def UncountedAt (cfg : OrbConfig) (e : OrbEngine) (ts : Int) : Prop :=
  (SessionClock.place cfg ts).zone = .inRangeWindow ∧
    ((e.sessionId ≠ some (SessionClock.place cfg ts).sessionId ∧ e.state = .breakout) ∨
      (e.sessionId = some (SessionClock.place cfg ts).sessionId ∧ e.state = .idle ∧
        e.tradedThisSession = true))

instance (cfg : OrbConfig) (e : OrbEngine) (ts : Int) : Decidable (e.UncountedAt cfg ts) :=
  inferInstanceAs (Decidable (_ ∧ (_ ∨ _)))

/-- A gap inside the session, up to this moment, that resets the engine. -/
def GapAt (cfg : OrbConfig) (e : OrbEngine) (ts : Int) : Prop :=
  e.sessionId = some (SessionClock.place cfg ts).sessionId ∧
    (SessionClock.place cfg ts).zone ≠ .after ∧ e.GapResets cfg ts

instance (cfg : OrbConfig) (e : OrbEngine) (ts : Int) : Decidable (e.GapAt cfg ts) :=
  inferInstanceAs (Decidable (_ ∧ _ ∧ _))

/-- The bar of this moment is not late, no gap resets the engine before it, and it is counted. -/
structure Admits (cfg : OrbConfig) (e : OrbEngine) (ts : Int) : Prop where
  late : e.isLate ts = false
  gap : ¬ e.GapAt cfg ts
  count : ¬ e.UncountedAt cfg ts

/-- The range of the engine is the envelope of the bars. -/
def HasEnvelope (e : OrbEngine) (bars : List Candle) : Prop :=
  ∃ hi lo, e.rangeHi = some hi ∧ e.rangeLo = some lo ∧ Envelope bars hi lo

/-- The opening range is being built. -/
def Opens (e : OrbEngine) : Prop := e.state = .rangeDefined ∧ e.rangeLocked = false ∧ e.rebuild = false

/-- The last bar was past the end of the session. -/
def Over (cfg : OrbConfig) (e : OrbEngine) (id : Int) : Prop :=
  ∃ last, e.lastTs = some last ∧ SessionClock.endOf cfg id ≤ last

/-- The bars of the range window of session `id` that the engine has counted. -/
structure Counted (cfg : OrbConfig) (id : Int) (bars : List Candle) (e : OrbEngine) : Prop where
  traded : e.state = .breakout → e.tradedThisSession = true
  untouched : e.state = .idle → e.tradedThisSession = false → windowBars cfg id bars = [] ∨ e.Over cfg id
  opening : e.Opens → e.HasEnvelope (windowBars cfg id bars)

/-- The invariant of runs without gap resets and uncounted bars. -/
structure Followed (cfg : OrbConfig) (bars : List Candle) (e : OrbEngine) : Prop where
  sound : e.Sound cfg
  stamped : e.sessionId = e.lastTs.map fun ts => (SessionClock.place cfg ts).sessionId
  past : ∀ b ∈ bars, ∃ last, e.lastTs = some last ∧ b.ts ≤ last
  counted : ∀ id, e.sessionId = some id → Counted cfg id bars e

theorem followed_init : Followed cfg [] (init cfg) where
  sound := sound_init
  stamped := rfl
  past := by simp
  counted := fun id h => by cases h

theorem HasEnvelope.congr (h : e.HasEnvelope bars) (hhi : e'.rangeHi = e.rangeHi) (hlo : e'.rangeLo = e.rangeLo) :
    e'.HasEnvelope bars := by
  obtain ⟨hi, lo, hhi', hlo', henv⟩ := h
  exact ⟨hi, lo, hhi.trans hhi', hlo.trans hlo', henv⟩

theorem counted_of_idle (hstate : e.state = .idle) (h : windowBars cfg id bars = [] ∨ e.Over cfg id) :
    Counted cfg id bars e where
  traded := by simp [hstate]
  untouched := fun _ _ => h
  opening := fun hopens => by
    rw [hopens.1] at hstate
    cases hstate

theorem counted_of_spent (hstate : e.state = .idle) (htraded : e.tradedThisSession = true) :
    Counted cfg id bars e where
  traded := fun _ => htraded
  untouched := fun _ hfalse => by
    rw [htraded] at hfalse
    cases hfalse
  opening := fun hopens => by
    rw [hopens.1] at hstate
    cases hstate

theorem Followed.window_nil (h : Followed cfg bars e) (hlate : e.isLate c.ts = false)
    (hid : some (SessionClock.place cfg c.ts).sessionId ≠ e.sessionId) :
    windowBars cfg (SessionClock.place cfg c.ts).sessionId bars = [] := by
  unfold windowBars
  refine List.filter_eq_nil_iff.mpr fun b hb heq => ?_
  obtain ⟨last, hlast, hle⟩ := h.past b hb
  have hlt : last < c.ts := by simpa [isLate, hlast] using hlate
  have heq : SessionClock.place cfg b.ts = ⟨.inRangeWindow, (SessionClock.place cfg c.ts).sessionId⟩ := by
    simpa using heq
  have hsame : (SessionClock.place cfg b.ts).sessionId = (SessionClock.place cfg c.ts).sessionId := by
    rw [heq]
  have hlow := SessionClock.sessionId_mono cfg hle
  have hhigh := SessionClock.sessionId_mono cfg hlt.le
  apply hid
  rw [h.stamped, hlast, Option.map_some, Option.some.injEq]
  omega

theorem Over.not_window (h : e.Over cfg (SessionClock.place cfg c.ts).sessionId) (hlate : e.isLate c.ts = false) :
    (SessionClock.place cfg c.ts).zone ≠ .inRangeWindow := by
  intro hzone
  obtain ⟨last, hlast, hend⟩ := h
  have hlt : last < c.ts := by simpa [isLate, hlast] using hlate
  have := (SessionClock.place_inside cfg (Or.inl hzone)).2
  omega

theorem over_of_after (h : (SessionClock.place cfg c.ts).zone = .after) (hlast : e.lastTs = some c.ts) :
    e.Over cfg (SessionClock.place cfg c.ts).sessionId := by
  refine ⟨c.ts, hlast, ?_⟩
  rcases SessionClock.place_spec cfg c.ts with ⟨hz, -⟩ | ⟨-, hend⟩ | ⟨hin, -⟩
  · rw [h] at hz
    cases hz
  · exact hend
  · rw [h] at hin
    exact absurd hin (by decide)

/-! ### Steps -/

theorem IntakeStep.counted_go (h : IntakeStep cfg e c (SessionClock.place cfg c.ts) (.go e'))
    (hfollow : Followed cfg bars e) (hadm : Admits cfg e c.ts) :
    Counted cfg (SessionClock.place cfg c.ts).sessionId bars e' := by
  cases h with
  | fresh hid => exact counted_of_idle rfl (Or.inl (hfollow.window_nil hadm.late hid))
  | gapReset hid hzone hreset => exact absurd ⟨hid.symm, hzone, hreset⟩ hadm.gap
  | plain hid hzone hreset =>
    obtain ⟨htraded, huntouched, hopening⟩ := hfollow.counted _ hid.symm
    refine ⟨htraded, fun hidle hfalse => ?_, hopening⟩
    rcases huntouched hidle hfalse with hnil | ⟨last, hlast, hend⟩
    · exact Or.inl hnil
    · have hlt : last < c.ts := by simpa [isLate, hlast] using hadm.late
      exact Or.inr ⟨c.ts, rfl, by omega⟩

theorem IntakeStep.counted_done (h : IntakeStep cfg e c (SessionClock.place cfg c.ts) (.done sig e'))
    (hfollow : Followed cfg bars e) (hadm : Admits cfg e c.ts) :
    Counted cfg (SessionClock.place cfg c.ts).sessionId (bars ++ [c]) e' := by
  cases h with
  | carried pos hid hstate hpos =>
    have hzone : (SessionClock.place cfg c.ts).zone ≠ .inRangeWindow := fun hzone =>
      hadm.count ⟨hzone, Or.inl ⟨Ne.symm hid, hstate⟩⟩
    refine counted_of_idle rfl (Or.inl ?_)
    rw [windowBars_out hzone]
    exact hfollow.window_nil hadm.late hid
  | closed pos hid hzone hstate hpos =>
    exact counted_of_spent rfl ((hfollow.counted _ hid.symm).traded hstate)
  | tornDown hid hzone => exact counted_of_idle rfl (Or.inr (over_of_after hzone rfl))
  | quiet hid hzone hidle => exact counted_of_idle hidle (Or.inr (over_of_after hzone rfl))
  | gapExit pos hid hzone hreset => exact absurd ⟨hid.symm, hzone, hreset⟩ hadm.gap

theorem feedIndicators_counted (h : Counted cfg id bars e) : Counted cfg id bars (e.feedIndicators cfg c info) := by
  unfold feedIndicators
  split
  · exact ⟨h.traded, h.untouched, h.opening⟩
  · exact h

theorem feedIndicators_rangeHi : (e.feedIndicators cfg c info).rangeHi = e.rangeHi := by
  unfold feedIndicators
  split <;> rfl

theorem maybeLock_hasEnvelope (h : e.HasEnvelope bars) : (e.maybeLock cfg).HasEnvelope bars := by
  unfold maybeLock lockRange
  split <;> exact h

theorem buildRange_hasEnvelope (h : e.HasEnvelope bars) (hbuilt : e.buildRange c = .ok e') :
    e'.HasEnvelope (bars ++ [c]) := by
  obtain ⟨hi, lo, hhi, hlo, henv⟩ := h
  unfold buildRange at hbuilt
  simp only [hhi, hlo, number] at hbuilt
  cases hbuilt
  exact ⟨max hi c.high, min lo c.low, rfl, rfl, henv.append c⟩

/-- **What a handler leaves of an opening range.** Opened by the bar, or being built before it, the range is the
envelope of the window bars up to this one. -/
theorem HandlerStep.hasEnvelope (h : HandlerStep cfg e c (SessionClock.place cfg c.ts) sig e')
    (hcounted : Counted cfg (SessionClock.place cfg c.ts).sessionId bars e)
    (hfirst : e.state = .idle → (SessionClock.place cfg c.ts).zone = .inRangeWindow →
      windowBars cfg (SessionClock.place cfg c.ts).sessionId bars = [])
    (hopen : (e.state = .idle ∧ e'.state ≠ .idle) ∨ e.Opens) :
    e'.HasEnvelope (windowBars cfg (SessionClock.place cfg c.ts).sessionId (bars ++ [c])) := by
  have hbefore : e.state = .rangeDefined →
      e.HasEnvelope (windowBars cfg (SessionClock.place cfg c.ts).sessionId bars) ∧ e.Opens := by
    intro hstate
    rcases hopen with ⟨hidle, -⟩ | hopens
    · rw [hidle] at hstate
      cases hstate
    · exact ⟨hcounted.opening hopens, hopens⟩
  -- an unlocked opening range that is not built further has left its window
  have hout : e.state = .rangeDefined → ¬ e.Building (SessionClock.place cfg c.ts) →
      (SessionClock.place cfg c.ts).zone ≠ .inRangeWindow := by
    intro hstate hbuild hzone
    exact hbuild ⟨Or.inl hzone, (hbefore hstate).2.2.1⟩
  have hnot : e.state ≠ .breakout := by
    intro hstate
    rcases hopen with ⟨hidle, -⟩ | hopens
    · rw [hidle] at hstate
      cases hstate
    · rw [hopens.1] at hstate
      cases hstate
  cases h with
  | waiting hstate =>
    rcases hopen with ⟨-, hne⟩ | hopens
    · exact absurd hstate hne
    · rw [hopens.1] at hstate
      cases hstate
  | opened hstate hzone =>
    rw [windowBars_in hzone, hfirst hstate hzone]
    exact maybeLock_hasEnvelope ⟨c.high, c.low, rfl, rfl, envelope_singleton c⟩
  | building built hstate hbuild hbuilt =>
    obtain ⟨henv, -, -, hrebuild⟩ := hbefore hstate
    have hzone : (SessionClock.place cfg c.ts).zone = .inRangeWindow := by
      refine hbuild.1.resolve_right ?_
      simp [hrebuild]
    rw [windowBars_in hzone]
    exact maybeLock_hasEnvelope (buildRange_hasEnvelope henv hbuilt)
  | armed sig hstate hbuild =>
    rw [windowBars_out (hout hstate hbuild)]
    exact (hbefore hstate).1.congr settleRange_rangeHi settleRange_rangeLo
  | broke direction atr m hstate hbuild =>
    rw [windowBars_out (hout hstate hbuild)]
    exact (hbefore hstate).1.congr settleRange_rangeHi settleRange_rangeLo
  | left _ _ _ hstate | partly _ _ hstate | trailed _ _ hstate => exact absurd hstate hnot

theorem HandlerStep.opens_before (h : HandlerStep cfg e c info sig e') (hcore : Core e) (hin : e.state ≠ .idle → info.zone.Inside)
    (hopens : e'.Opens) : (e.state = .idle ∧ e'.state ≠ .idle) ∨ e.Opens := by
  obtain ⟨hstate', hlocked', hrebuild'⟩ := hopens
  cases h with
  | waiting hstate => rw [hstate] at hstate'; cases hstate'
  | opened hstate => exact Or.inl ⟨hstate, by rw [hstate']; decide⟩
  | building built hstate hbuild hbuilt =>
    refine Or.inr ⟨hstate, hbuild.2, ?_⟩
    obtain ⟨hi, lo, bars, rfl⟩ := buildRange_frame hbuilt
    unfold maybeLock at hlocked' hrebuild'
    split at hlocked'
    · cases hlocked'
    · next hbars =>
      rw [if_neg hbars] at hrebuild'
      exact hrebuild'
  | armed sig hstate hbuild =>
    rw [settleRange_locked (hin (by rw [hstate]; decide)) hbuild] at hlocked'
    cases hlocked'
  | broke => cases hstate'
  | left pos reason price hstate =>
    -- a range kept after an exit is locked, one discarded is rebuilt
    have hlock := (hcore.breakout hstate).2.1
    unfold flatten at hlocked' hrebuild'
    split at hlocked'
    · next hrearm =>
      rw [if_pos hrearm] at hrebuild'
      cases hrebuild'
    · rw [show ({ e.holding (heldBar pos c) with pos := none, state := e.postExitState cfg } :
        OrbEngine).rangeLocked = e.rangeLocked from rfl, hlock] at hlocked'
      cases hlocked'
  | partly _ _ hstate =>
    rw [show ((e.holding (heldBar _ c)).partialTp cfg (heldBar _ c) c _).2.state = e.state from rfl, hstate] at hstate'
    cases hstate'
  | trailed _ _ hstate =>
    rw [show (e.holding _).state = e.state from rfl, hstate] at hstate'
    cases hstate'

theorem HandlerStep.breakout_before (h : HandlerStep cfg e c info sig e') (hrange : e.RangeOrdered)
    (hstate' : e'.state = .breakout) :
    (e.state = .breakout ∧ e'.tradedThisSession = e.tradedThisSession) ∨ e'.tradedThisSession = true := by
  cases h with
  | waiting hstate => exact Or.inl ⟨hstate', rfl⟩
  | opened => rw [(maybeLock_frame cfg _).1] at hstate'; cases hstate'
  | building built hstate _ hbuilt =>
    rw [(maybeLock_frame cfg _).1, (buildRange_spec hrange hbuilt).2.1, hstate] at hstate'
    cases hstate'
  | armed _ hstate => rw [settleRange_state, hstate] at hstate'; cases hstate'
  | broke => exact Or.inr rfl
  | left _ _ _ hstate => exact Or.inl ⟨hstate, (flatten_frame cfg _ _).2.2.2.2.2⟩
  | partly _ _ hstate | trailed _ _ hstate => exact Or.inl ⟨hstate, rfl⟩

theorem HandlerStep.idle_before (h : HandlerStep cfg e c info sig e') (hrange : e.RangeOrdered)
    (hstate' : e'.state = .idle) : (e' = e ∧ info.zone ≠ .inRangeWindow) ∨
      (e.state = .breakout ∧ e'.tradedThisSession = e.tradedThisSession) := by
  cases h with
  | waiting _ hzone => exact Or.inl ⟨rfl, hzone⟩
  | opened => rw [(maybeLock_frame cfg _).1] at hstate'; cases hstate'
  | building built hstate _ hbuilt =>
    rw [(maybeLock_frame cfg _).1, (buildRange_spec hrange hbuilt).2.1, hstate] at hstate'
    cases hstate'
  | armed _ hstate => rw [settleRange_state, hstate] at hstate'; cases hstate'
  | broke => cases hstate'
  | left _ _ _ hstate => exact Or.inr ⟨hstate, (flatten_frame cfg _ _).2.2.2.2.2⟩
  | partly _ _ hstate | trailed _ _ hstate => exact Or.inr ⟨hstate, rfl⟩

theorem HandlerStep.counted (h : HandlerStep cfg e c (SessionClock.place cfg c.ts) sig e')
    (hentered : Entered c (SessionClock.place cfg c.ts) e)
    (hcounted : Counted cfg (SessionClock.place cfg c.ts).sessionId bars e)
    (hfirst : e.state = .idle → (SessionClock.place cfg c.ts).zone = .inRangeWindow →
      windowBars cfg (SessionClock.place cfg c.ts).sessionId bars = []) :
    Counted cfg (SessionClock.place cfg c.ts).sessionId (bars ++ [c]) e' := by
  refine ⟨fun hstate' => ?_, fun hidle hfalse => ?_, fun hopens => ?_⟩
  · rcases h.breakout_before hentered.core.range hstate' with ⟨hstate, hkeep⟩ | htrue
    · exact hkeep.trans (hcounted.traded hstate)
    · exact htrue
  · rcases h.idle_before hentered.core.range hidle with ⟨rfl, hzone⟩ | ⟨hstate, hkeep⟩
    · rw [windowBars_out hzone]
      exact hcounted.untouched hidle hfalse
    · rw [hkeep, hcounted.traded hstate] at hfalse
      cases hfalse
  · exact h.hasEnvelope hcounted hfirst (h.opens_before hentered.core hentered.inside hopens)

/-- **What the handlers find.** The bars before are counted, and an engine that is idle in the window has none. -/
theorem IntakeStep.found (h : IntakeStep cfg e c (SessionClock.place cfg c.ts) (.go e'))
    (hfollow : Followed cfg bars e) (hadm : Admits cfg e c.ts) :
    Counted cfg (SessionClock.place cfg c.ts).sessionId bars
        (e'.feedIndicators cfg c (SessionClock.place cfg c.ts)) ∧
      ((e'.feedIndicators cfg c (SessionClock.place cfg c.ts)).state = .idle →
        (SessionClock.place cfg c.ts).zone = .inRangeWindow →
        windowBars cfg (SessionClock.place cfg c.ts).sessionId bars = []) := by
  refine ⟨feedIndicators_counted (h.counted_go hfollow hadm), fun hidle hzone => ?_⟩
  rw [feedIndicators_state] at hidle
  cases h with
  | fresh hid => exact hfollow.window_nil hadm.late hid
  | gapReset hid hafter hreset => exact absurd ⟨hid.symm, hafter, hreset⟩ hadm.gap
  | plain hid =>
    have hfalse : e.tradedThisSession = false := by
      by_contra htraded
      exact hadm.count ⟨hzone, Or.inr ⟨hid.symm, hidle, by simpa using htraded⟩⟩
    rcases (hfollow.counted _ hid.symm).untouched hidle hfalse with hnil | hover
    · exact hnil
    · exact absurd hzone (hover.not_window hadm.late)

/-- **Every bar is counted.** -/
theorem BarStep.followed (h : BarStep cfg e c sig e') (hfollow : Followed cfg bars e)
    (hadm : Admits cfg e c.ts) : Followed cfg (bars ++ [c]) e' := by
  obtain ⟨hlast, hid⟩ := h.stamped hfollow.sound hadm.late
  refine ⟨h.sound hfollow.sound, by rw [hid, hlast]; rfl, fun b hb => ?_, fun id hsession => ?_⟩
  · refine ⟨c.ts, hlast, ?_⟩
    rcases List.mem_append.mp hb with hold | hnew
    · obtain ⟨last, hlast', hle⟩ := hfollow.past b hold
      have hlt : last < c.ts := by simpa [isLate, hlast'] using hadm.late
      omega
    · rw [List.mem_singleton.mp hnew]
  · obtain rfl : (SessionClock.place cfg c.ts).sessionId = id := Option.some.inj (hid.symm.trans hsession)
    cases h with
    | late hlate' => rw [hadm.late] at hlate'; cases hlate'
    | done sig e' _ hintake => exact hintake.counted_done hfollow hadm
    | handled entered sig e' _ hintake hhandler =>
      obtain ⟨hcounted, hfirst⟩ := hintake.found hfollow hadm
      exact hhandler.counted (hfollow.sound.entered hadm.late hintake) hcounted hfirst

/-- The bar locks the opening range of its session: one that it opens, or that was being built. -/
def LocksOpening (cfg : OrbConfig) (e : OrbEngine) (c : Candle) (e' : OrbEngine) : Prop :=
  (e.sessionId ≠ some (SessionClock.place cfg c.ts).sessionId ∨ e.state = .idle ∨ e.Opens) ∧
    e'.state ≠ .idle ∧ e'.rangeLocked = true

instance (e : OrbEngine) : Decidable e.Opens := inferInstanceAs (Decidable (_ ∧ _ ∧ _))

instance (cfg : OrbConfig) (e : OrbEngine) (c : Candle) (e' : OrbEngine) : Decidable (LocksOpening cfg e c e') :=
  inferInstanceAs (Decidable ((_ ∨ _ ∨ _) ∧ _ ∧ _))

theorem IntakeStep.locks_go (h : IntakeStep cfg e c (SessionClock.place cfg c.ts) (.go e'))
    (hadm : Admits cfg e c.ts)
    (hopen : e.sessionId ≠ some (SessionClock.place cfg c.ts).sessionId ∨ e.state = .idle ∨ e.Opens) :
    e'.state = .idle ∨ e'.Opens := by
  cases h with
  | fresh => exact Or.inl rfl
  | gapReset hid hafter hreset => exact absurd ⟨hid.symm, hafter, hreset⟩ hadm.gap
  | plain hid => exact hopen.resolve_left fun hne => hne hid.symm

/-- **A range that locks is the envelope.** -/
theorem BarStep.hasEnvelope (h : BarStep cfg e c sig e') (hfollow : Followed cfg bars e)
    (hadm : Admits cfg e c.ts) (hlock : LocksOpening cfg e c e') :
    e'.HasEnvelope (windowBars cfg (SessionClock.place cfg c.ts).sessionId (bars ++ [c])) := by
  obtain ⟨hopen, hstate', -⟩ := hlock
  cases h with
  | late hlate' => rw [hadm.late] at hlate'; cases hlate'
  | done sig e' _ hintake =>
    cases hintake with
    | carried | closed | tornDown => exact absurd rfl hstate'
    | quiet _ _ hidle => exact absurd hidle hstate'
    | gapExit pos hid hafter hreset => exact absurd ⟨hid.symm, hafter, hreset⟩ hadm.gap
  | handled entered sig e' _ hintake hhandler =>
    obtain ⟨hcounted, hfirst⟩ := hintake.found hfollow hadm
    refine hhandler.hasEnvelope hcounted hfirst ?_
    rcases hintake.locks_go hadm hopen with hidle | hopens
    · exact Or.inl ⟨feedIndicators_state.trans hidle, hstate'⟩
    · refine Or.inr ?_
      unfold feedIndicators
      split <;> exact hopens

theorem HandlerStep.ranged (h : HandlerStep cfg e c info sig e') (hentered : Entered c info e)
    (hzone : info.zone = .inRangeWindow) :
    (e.state = .breakout ∧ e.rangeHi.isSome = true) ∨ e'.rangeHi.isSome = true := by
  have hset : ∀ {f : OrbEngine}, f.rangeHi.isSome = true → (f.maybeLock cfg).rangeHi.isSome = true := by
    intro f hf
    unfold maybeLock lockRange
    split <;> exact hf
  cases h with
  | waiting _ hne => exact absurd hzone hne
  | opened => exact Or.inr (hset rfl)
  | building built hstate _ hbuilt =>
    obtain ⟨⟨hi, lo, hhi, -⟩, -⟩ := buildRange_spec hentered.core.range hbuilt
    exact Or.inr (hset (by rw [hhi]; rfl))
  | armed sig hstate hbuild =>
    refine Or.inr ?_
    rw [settleRange_rangeHi]
    cases hhi : e.rangeHi with
    | some hi => rfl
    | none => exact absurd ⟨Or.inl hzone, (hentered.core.defined hstate hhi).2⟩ hbuild
  | broke direction atr m _ _ _ _ hrange =>
    refine Or.inr ?_
    show (e.settleRange info).rangeHi.isSome = true
    rwa [settleRange_rangeHi]
  | left _ _ _ hstate | partly _ _ hstate | trailed _ _ hstate =>
    exact Or.inl ⟨hstate, (hentered.core.breakout hstate).1⟩

/-- The engine has a range of the session. -/
def Ranged (e : OrbEngine) (id : Int) : Prop :=
  e.sessionId = some id ∧ ∃ hi lo, e.rangeHi = some hi ∧ e.rangeLo = some lo

theorem ranged_of_isSome (hrange : e.RangeOrdered) (hid : e.sessionId = some id) (h : e.rangeHi.isSome = true) :
    e.Ranged id := by
  obtain ⟨hi, lo, hhi, hlo, -⟩ := hrange.of_isSome h
  exact ⟨hid, hi, lo, hhi, hlo⟩

/-- **A bar of the window finds a range of its session, or leaves one.** -/
theorem BarStep.ranged (h : BarStep cfg e c sig e') (hsound : Sound cfg e) (hadm : Admits cfg e c.ts)
    (hzone : (SessionClock.place cfg c.ts).zone = .inRangeWindow) :
    e.Ranged (SessionClock.place cfg c.ts).sessionId ∨ e'.Ranged (SessionClock.place cfg c.ts).sessionId := by
  have hsound' := h.sound hsound
  obtain ⟨-, hid⟩ := h.stamped hsound hadm.late
  have hne : (SessionClock.place cfg c.ts).zone ≠ .after := by
    rw [hzone]
    decide
  cases h with
  | late hlate' => rw [hadm.late] at hlate'; cases hlate'
  | done sig e' _ hintake =>
    cases hintake with
    | carried pos hid' hstate => exact absurd ⟨hzone, Or.inl ⟨Ne.symm hid', hstate⟩⟩ hadm.count
    | closed _ _ hafter | tornDown _ hafter | quiet _ hafter => exact absurd hafter hne
    | gapExit pos hid' hafter hreset => exact absurd ⟨hid'.symm, hafter, hreset⟩ hadm.gap
  | handled entered sig e' _ hintake hhandler =>
    rcases hhandler.ranged (hsound.entered hadm.late hintake) hzone with ⟨hstate, hhi⟩ | hhi
    · refine Or.inl ?_
      rw [feedIndicators_state] at hstate
      rw [feedIndicators_rangeHi] at hhi
      cases hintake with
      | fresh => cases hstate
      | gapReset hid' hafter hreset => exact absurd ⟨hid'.symm, hafter, hreset⟩ hadm.gap
      | plain hid' => exact ranged_of_isSome hsound.core.range hid'.symm hhi
    · exact Or.inr (ranged_of_isSome hsound'.core.range hid hhi)

end OrbEngine

/-! ### Runs of candles -/

/-- A run with the bars accepted so far. -/
structure Tape where
  state : EngineRun
  bars : List Candle := []

namespace Tape

def start (cfg : OrbConfig) : Tape := { state := EngineRun.start cfg }

/-- The bar that `on_candle` takes in: validated, not late, and the call returns. -/
def accepts (cfg : OrbConfig) (t : Tape) (raw : RawCandle) : Option Candle :=
  match t.state.raised, t.state.engine.onCandle cfg raw, validate raw with
  | none, .ok _, .ok c => if t.state.engine.isLate c.ts then none else some c
  | _, _, _ => none

def feed (cfg : OrbConfig) (t : Tape) (raw : RawCandle) : Tape :=
  { state := EngineRun.step cfg t.state (.candle raw), bars := t.bars ++ (t.accepts cfg raw).toList }

/-- The candle resets the engine for a gap inside the session. -/
def GapReset (cfg : OrbConfig) (t : Tape) (raw : RawCandle) : Prop :=
  (validate raw).isOk = true ∧ t.state.engine.isLate raw.ts = false ∧ t.state.engine.GapAt cfg raw.ts

instance (cfg : OrbConfig) (t : Tape) (raw : RawCandle) : Decidable (GapReset cfg t raw) :=
  inferInstanceAs (Decidable (_ ∧ _ ∧ _))

/-- The candle is of a range window and is not counted in the opening range. -/
def Uncounted (cfg : OrbConfig) (t : Tape) (raw : RawCandle) : Prop :=
  (validate raw).isOk = true ∧ t.state.engine.isLate raw.ts = false ∧ t.state.engine.UncountedAt cfg raw.ts

instance (cfg : OrbConfig) (t : Tape) (raw : RawCandle) : Decidable (Uncounted cfg t raw) :=
  inferInstanceAs (Decidable (_ ∧ _ ∧ _))

variable {t : Tape} {raw : RawCandle} {c : Candle}

theorem feed_engine (cfg : OrbConfig) (raw : RawCandle) (hraised : t.state.raised = none) :
    (t.feed cfg raw).state.engine =
      match t.state.engine.onCandle cfg raw with
      | .ok out => out.2
      | .error _ => t.state.engine := by
  unfold feed EngineRun.step
  simp only [hraised, Option.isSome_none, Bool.false_eq_true, if_false]
  cases t.state.engine.onCandle cfg raw with
  | ok out => rfl
  | error err =>
    simp only
    split <;> rfl

theorem feed_cases (cfg : OrbConfig) (t : Tape) (raw : RawCandle) :
    (t.accepts cfg raw = none ∧ (t.feed cfg raw).state.engine = t.state.engine) ∨
    ∃ c sig, t.accepts cfg raw = some c ∧ validate raw = .ok c ∧ t.state.engine.isLate c.ts = false ∧
      t.state.engine.onCandle cfg raw = .ok (sig, (t.feed cfg raw).state.engine) := by
  cases hraised : t.state.raised with
  | some err =>
    refine Or.inl ⟨by simp [accepts, hraised], ?_⟩
    unfold feed EngineRun.step
    simp [hraised]
  | none =>
    rw [feed_engine cfg raw hraised]
    unfold accepts
    rw [hraised]
    cases hbar : t.state.engine.onCandle cfg raw with
    | error err => exact Or.inl ⟨rfl, rfl⟩
    | ok out =>
      obtain ⟨sig, e'⟩ := out
      obtain ⟨c, hc, hcase⟩ := OrbEngine.onCandle_intake hbar
      rw [hc]
      rcases hcase with ⟨hlate, -, rfl⟩ | ⟨hlate, -⟩
      · exact Or.inl ⟨if_pos hlate, rfl⟩
      · exact Or.inr ⟨c, sig, if_neg (by simp [hlate]), rfl, hlate, rfl⟩

theorem accepts_ts (h : t.accepts cfg raw = some c) : c.ts = raw.ts := by
  rcases feed_cases cfg t raw with ⟨hnone, -⟩ | ⟨c', sig, hsome, hc, -⟩
  · rw [hnone] at h
    cases h
  · obtain rfl : c' = c := Option.some.inj (hsome.symm.trans h)
    exact (validate_spec hc).1

theorem accepted_step (hsound : t.state.engine.Sound cfg) (h : t.accepts cfg raw = some c) (hgap : ¬ GapReset cfg t raw)
    (hcount : ¬ Uncounted cfg t raw) :
    t.state.engine.Admits cfg c.ts ∧ ∃ sig, OrbEngine.BarStep cfg t.state.engine c sig (t.feed cfg raw).state.engine := by
  rcases feed_cases cfg t raw with ⟨hnone, -⟩ | ⟨c', sig, hsome, hc, hlate, hbar⟩
  · rw [hnone] at h
    cases h
  · obtain rfl : c' = c := Option.some.inj (hsome.symm.trans h)
    have hts := (validate_spec hc).1
    have hok : (validate raw).isOk = true := by
      rw [hc]
      rfl
    refine ⟨⟨hlate, fun hg => hgap ?_, fun hu => hcount ?_⟩, sig, ?_⟩
    · rw [hts] at hlate hg
      exact ⟨hok, hlate, hg⟩
    · rw [hts] at hlate hu
      exact ⟨hok, hlate, hu⟩
    · obtain ⟨c'', hc'', hstep⟩ := OrbEngine.onCandle_cases hsound.core.ne_exit hbar
      rw [hc] at hc''
      cases hc''
      exact hstep

theorem feed_followed (h : OrbEngine.Followed cfg t.bars t.state.engine) (hgap : ¬ GapReset cfg t raw)
    (hcount : ¬ Uncounted cfg t raw) :
    OrbEngine.Followed cfg (t.feed cfg raw).bars (t.feed cfg raw).state.engine := by
  show OrbEngine.Followed cfg (t.bars ++ (t.accepts cfg raw).toList) _
  cases hacc : t.accepts cfg raw with
  | none =>
    rcases feed_cases cfg t raw with ⟨-, hsame⟩ | ⟨c, -, hsome, -⟩
    · simpa [hsame] using h
    · rw [hacc] at hsome
      cases hsome
  | some c =>
    obtain ⟨hadm, sig, hstep⟩ := accepted_step h.sound hacc hgap hcount
    exact hstep.followed h hadm

theorem run_followed {raws : List RawCandle}
    (h : StepsMeet (feed cfg) (fun t raw => ¬ GapReset cfg t raw ∧ ¬ Uncounted cfg t raw) (start cfg) raws) :
    OrbEngine.Followed cfg (run (feed cfg) (start cfg) raws).bars (run (feed cfg) (start cfg) raws).state.engine :=
  run_invariant (I := fun t : Tape => OrbEngine.Followed cfg t.bars t.state.engine)
    (fun _ _ hfollow hmeet => feed_followed hfollow hmeet.1 hmeet.2) OrbEngine.followed_init h

end Tape

/-- Every opening range that locks in the run is the envelope of the accepted window bars of its session so far,
and every session with an accepted window bar gets a range. -/
def FullEnvelope (cfg : OrbConfig) (raws : List RawCandle) : Prop :=
  (∀ before raw after c, raws = before ++ raw :: after →
    let t := run (Tape.feed cfg) (Tape.start cfg) before
    t.accepts cfg raw = some c → OrbEngine.LocksOpening cfg t.state.engine c (t.feed cfg raw).state.engine →
    ∃ hi lo, (t.feed cfg raw).state.engine.rangeHi = some hi ∧ (t.feed cfg raw).state.engine.rangeLo = some lo ∧
      Envelope (windowBars cfg (SessionClock.place cfg c.ts).sessionId (t.feed cfg raw).bars) hi lo) ∧
  ∀ c ∈ (run (Tape.feed cfg) (Tape.start cfg) raws).bars, (SessionClock.place cfg c.ts).zone = .inRangeWindow →
    ∃ before, before <+: raws ∧
      (run (Tape.feed cfg) (Tape.start cfg) before).state.engine.Ranged (SessionClock.place cfg c.ts).sessionId

/-- **The opening range is the full envelope.** In every run of candles without gap resets in which no window bar
goes uncounted: an opening range that locks spans all window bars of its session so far, and a session with a
window bar gets a range. -/
theorem opening_range_envelope (cfg : OrbConfig) (raws : List RawCandle)
    (hgap : StepsMeet (Tape.feed cfg) (fun t raw => ¬ Tape.GapReset cfg t raw) (Tape.start cfg) raws)
    (hcount : StepsMeet (Tape.feed cfg) (fun t raw => ¬ Tape.Uncounted cfg t raw) (Tape.start cfg) raws) :
    FullEnvelope cfg raws := by
  have hmeet := hgap.and hcount
  refine ⟨?_, fun c hc hzone => ?_⟩
  · intro before raw after c hraws t hacc hlock
    subst hraws
    obtain ⟨hbefore, hnow, -⟩ := hmeet.of_append
    have hfollow := Tape.run_followed hbefore
    obtain ⟨hadm, sig, hstep⟩ := Tape.accepted_step hfollow.sound hacc hnow.1 hnow.2
    have henv := hstep.hasEnvelope hfollow hadm hlock
    rwa [show t.bars ++ [c] = (t.feed cfg raw).bars by simp [Tape.feed, hacc]] at henv
  · rcases mem_log_run (fun t raw => ⟨(Tape.accepts cfg t raw).toList, rfl⟩) hc with hstart | hadded
    · cases hstart
    obtain ⟨before, raw, after, new, rfl, hnew, hmem⟩ := hadded
    obtain ⟨hbefore, hnow, -⟩ := hmeet.of_append
    have hfollow := Tape.run_followed hbefore
    have hacc : (run (Tape.feed cfg) (Tape.start cfg) before).accepts cfg raw = some c := by
      obtain rfl : ((run (Tape.feed cfg) (Tape.start cfg) before).accepts cfg raw).toList = new :=
        List.append_cancel_left hnew
      simpa using hmem
    obtain ⟨hadm, sig, hstep⟩ := Tape.accepted_step hfollow.sound hacc hnow.1 hnow.2
    rcases hstep.ranged hfollow.sound hadm hzone with hold | hnew'
    · exact ⟨before, List.prefix_append _ _, hold⟩
    · refine ⟨before ++ [raw], ⟨after, by simp⟩, ?_⟩
      rw [run_append, run_cons, run_nil]
      exact hnew'

/-- A session of two-bar ranges with no momentum filter. -/
def twoBarConfig : OrbConfig :=
  ⟨{ rangeMinutes := 2, useRoc := false, atrPeriod := 1 }, by decide +kernel⟩

open EngineRun (minuteBar)

/-- The opening range of one day and a bar after it, and the opening range of the next day. -/
def quietDays : List RawCandle :=
  [minuteBar 0 2000 2001 1999 2000, minuteBar 1 2000 2003 1999 2000, minuteBar 2 2000 2001 1999 2000,
    minuteBar 1440 2000 2001 1998 2000, minuteBar 1441 2000 2001 1999 2000]

theorem opening_range_envelope_days : FullEnvelope twoBarConfig quietDays :=
  opening_range_envelope twoBarConfig quietDays (by decide +kernel) (by decide +kernel)

theorem not_fullEnvelope {before : List RawCandle} {raw : RawCandle} (hi x : ℚ)
    (hacc : ((run (Tape.feed cfg) (Tape.start cfg) before).accepts cfg raw).isSome = true)
    (hlock : ∀ c : Candle, c.ts = raw.ts → OrbEngine.LocksOpening cfg
      (run (Tape.feed cfg) (Tape.start cfg) before).state.engine c
      ((run (Tape.feed cfg) (Tape.start cfg) before).feed cfg raw).state.engine)
    (hhi : ((run (Tape.feed cfg) (Tape.start cfg) before).feed cfg raw).state.engine.rangeHi = some hi)
    (hbar : ∃ b ∈ windowBars cfg (SessionClock.place cfg raw.ts).sessionId
      ((run (Tape.feed cfg) (Tape.start cfg) before).feed cfg raw).bars, b.high = x)
    (hlt : hi < x) : ¬ FullEnvelope cfg (before ++ [raw]) := by
  rintro ⟨hlocks, -⟩
  obtain ⟨c, hc⟩ := Option.isSome_iff_exists.mp hacc
  have hts := Tape.accepts_ts hc
  obtain ⟨hi', lo, hhi', -, henv⟩ := hlocks before raw [] c rfl hc (hlock c hts)
  obtain rfl : hi = hi' := Option.some.inj (hhi.symm.trans hhi')
  rw [hts] at henv
  exact absurd (henv.high.2 hbar) (not_le.mpr hlt)

/-- A long of the first day is still open when the second one begins; the first bar of that day, up to 2100,
closes it. -/
def carriedDays : List RawCandle :=
  [minuteBar 0 2000 2001 1999 2000, minuteBar 1 2000 2001 1999 2000, minuteBar 2 2002 2006 2001 2005,
    minuteBar 1440 2050 2100 2049 2050, minuteBar 1441 2050 2051 2049 2050]

/-- The bar of second `s` after midnight. -/
def secondBar (s : Int) (o h l c : ℚ) : RawCandle := ⟨s * 1000000, true, some o, some h, some l, some c, some 1⟩

/-- A range, a trade up to 2006 and its exit, and the first bar of a second range, all in the first two minutes. -/
def reopenedDay : List RawCandle :=
  [secondBar 0 2000 2001 1999 2000, secondBar 20 2000 2001 1999 2000, secondBar 40 2002 2006 2001 2005,
    secondBar 60 2002 2002 1999 2000, secondBar 80 2000 2001 1999 2000]

/-- The range of the second day locks at 2051, and the one reopened in its window at 2001. -/
theorem opening_range_partial :
    (StepsMeet (Tape.feed twoBarConfig) (fun t raw => ¬ Tape.GapReset twoBarConfig t raw) (Tape.start twoBarConfig)
        (carriedDays ++ [minuteBar 1442 2050 2051 2049 2050]) ∧
      ¬ FullEnvelope twoBarConfig (carriedDays ++ [minuteBar 1442 2050 2051 2049 2050])) ∧
    (StepsMeet (Tape.feed twoBarConfig) (fun t raw => ¬ Tape.GapReset twoBarConfig t raw) (Tape.start twoBarConfig)
        (reopenedDay ++ [secondBar 100 2000 2001 1999 2000]) ∧
      ¬ FullEnvelope twoBarConfig (reopenedDay ++ [secondBar 100 2000 2001 1999 2000])) := by
  refine ⟨⟨by decide +kernel, ?_⟩, ⟨by decide +kernel, ?_⟩⟩
  · refine not_fullEnvelope 2051 2100 (by decide +kernel) (fun c hts => ?_) (by decide +kernel)
      (by decide +kernel) (by decide)
    unfold OrbEngine.LocksOpening
    rw [hts]
    decide +kernel
  · refine not_fullEnvelope 2001 2006 (by decide +kernel) (fun c hts => ?_) (by decide +kernel)
      (by decide +kernel) (by decide)
    unfold OrbEngine.LocksOpening
    rw [hts]
    decide +kernel

end FreqTrading
