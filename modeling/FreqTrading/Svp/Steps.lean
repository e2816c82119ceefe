import FreqTrading.Engine.Steps
import FreqTrading.Svp.Strategy

/-!
# What a bar does to the SVP engine

`BarStep` lists everything `on_candle` can do with an accepted bar, as `OrbEngine.BarStep` does for the ORB
engine; `onCandle_cases` is that it lists it all.
-/

namespace FreqTrading.SvpEngine

open Lib

variable {cfg : SvpConfig} {e e' : SvpEngine} {c : Candle} {info : SessionInfo} {sig : Option Signal}

/-- The bar is fed into the profile and the indicators. -/
def fed (e : SvpEngine) (c : Candle) (info : SessionInfo) : SvpEngine := { e with lastTs := some c.ts }.feed c info

/-- The setup is one that the configuration looks for. -/
def Detects (cfg : SvpConfig) (c : Candle) (lv : ProfileLevels) (prevClose avg : Option ℚ) (setup : Setup) : Prop :=
  edgeRotation cfg c lv = some setup ∨ lvnBreak cfg c lv prevClose = some setup ∨ absorptionProxy cfg c lv avg = some setup

/-- What `on_candle` did with an accepted bar that is not late. -/
inductive BarStep (cfg : SvpConfig) (e : SvpEngine) (c : Candle) (info : SessionInfo) : Option Signal → SvpEngine → Prop
  | carried (pos : PositionState) (hid : some info.sessionId ≠ e.sessionId) (hpos : e.pos = some pos) :
      BarStep cfg e c info (some (exitSignal c.ts pos c.close .idle "session_end"))
        { e.rollSession cfg info.sessionId with lastTs := some c.ts }
  | fresh (hid : some info.sessionId ≠ e.sessionId) (hstate : e.state ≠ .breakout) :
      BarStep cfg e c info none (((e.rollSession cfg info.sessionId).fed c info).onIdle info)
  | closed (pos : PositionState) (hid : some info.sessionId = e.sessionId) (hpos : e.pos = some pos) :
      BarStep cfg e c info (some (exitSignal c.ts pos c.close .idle "session_end"))
        { e with pos := none, state := .idle, lastTs := some c.ts }
  | ended (hid : some info.sessionId = e.sessionId) (hstate : e.state ≠ .breakout) :
      BarStep cfg e c info none { e with state := .idle, lastTs := some c.ts }
  | waiting (hid : some info.sessionId = e.sessionId) (hstate : e.state = .idle) :
      BarStep cfg e c info none ((e.fed c info).onIdle info)
  | quiet (hid : some info.sessionId = e.sessionId) (hstate : e.state = .rangeDefined ∨ e.state = .exit) :
      BarStep cfg e c info none (e.fed c info)
  | entered (lv : ProfileLevels) (setup : Setup) (hid : some info.sessionId = e.sessionId) (hin : info.zone.Inside)
      (hstate : e.state = .rangeDefined) (htraded : e.traded < cfg.maxTradesPerSession)
      (hsetup : Detects cfg c lv e.prevClose e.vsma.value setup) :
      BarStep cfg e c info (some ((e.fed c info).entrySignal cfg c lv setup))
        { e.fed c info with
          pos := some ((e.fed c info).openedPosition cfg c setup), traded := e.traded + 1, state := .breakout }
  | held (hid : some info.sessionId = e.sessionId) (hstate : e.state = .breakout) :
      BarStep cfg e c info none (e.fed c info).onInPosition

theorem feed_frame (e : SvpEngine) (c : Candle) (info : SessionInfo) :
    (e.feed c info).state = e.state ∧ (e.feed c info).pos = e.pos ∧ (e.feed c info).traded = e.traded ∧
      (e.feed c info).sessionId = e.sessionId ∧ (e.feed c info).lastTs = e.lastTs := by
  unfold feed
  split <;> exact ⟨rfl, rfl, rfl, rfl, rfl⟩

theorem detectSetup_cases {lv : ProfileLevels} {prevClose avg : Option ℚ} {s : Signal}
    (h : e.detectSetup cfg c lv prevClose avg = some (s, e')) :
    ∃ setup, Detects cfg c lv prevClose avg setup ∧ s = e.entrySignal cfg c lv setup ∧
      e' = { e with pos := some (e.openedPosition cfg c setup), traded := e.traded + 1, state := .breakout } := by
  unfold detectSetup at h
  obtain ⟨found, hmem, h⟩ := List.exists_of_findSome?_eq_some h
  obtain ⟨setup, hsetup, henter⟩ := Option.bind_eq_some_iff.mp h
  have hdetects : Detects cfg c lv prevClose avg setup := by
    simp only [List.mem_cons, List.not_mem_nil, or_false] at hmem
    rcases hmem with rfl | rfl | rfl <;> split at hsetup
    · exact Or.inl hsetup
    · cases hsetup
    · exact Or.inr (Or.inl hsetup)
    · cases hsetup
    · exact Or.inr (Or.inr hsetup)
    · cases hsetup
  unfold enter at henter
  split at henter
  · cases henter
    exact ⟨setup, hdetects, rfl, rfl⟩
  · cases henter

theorem process_idle (cfg : SvpConfig) (h : e.state = .idle) (c : Candle) (info : SessionInfo) :
    e.process cfg c info = (none, (e.feed c info).onIdle info) := by
  have hfed : (e.feed c info).state = .idle := (feed_frame e c info).1.trans h
  unfold process
  simp only [hfed]

theorem process_cases (hid : some info.sessionId = e.sessionId)
    (h : { e with lastTs := some c.ts }.process cfg c info = (sig, e')) : BarStep cfg e c info sig e' := by
  obtain ⟨hstate, -, htraded, -⟩ := feed_frame { e with lastTs := some c.ts } c info
  have hfed : { e with lastTs := some c.ts }.feed c info = e.fed c info := rfl
  unfold process at h
  dsimp only at h
  rw [hfed] at h hstate htraded
  rw [hstate] at h
  cases hs : e.state with
  | idle =>
    simp only [hs, Prod.mk.injEq] at h
    obtain ⟨rfl, rfl⟩ := h
    exact .waiting hid hs
  | rangeDefined =>
    simp only [hs] at h
    have hquiet : BarStep cfg e c info none (e.fed c info) := .quiet hid (Or.inl hs)
    unfold onArmed at h
    split at h
    · cases h
      exact hquiet
    · next hleft =>
      rw [htraded] at hleft
      split at h
      · cases h
        exact hquiet
      · next lv hlv =>
        have hin : info.zone.Inside := by
          by_contra hout
          unfold preLevels at hlv
          rw [if_neg hout] at hlv
          cases hlv
        split at h
        · cases h
          exact hquiet
        · next hfound =>
          cases h
          obtain ⟨setup, hdetects, rfl, rfl⟩ := detectSetup_cases hfound
          rw [htraded]
          exact .entered lv setup hid hin hs (not_le.mp hleft) hdetects
  | breakout =>
    simp only [hs, Prod.mk.injEq] at h
    obtain ⟨rfl, rfl⟩ := h
    exact .held hid hs
  | exit =>
    simp only [hs, Prod.mk.injEq] at h
    obtain ⟨rfl, rfl⟩ := h
    exact .quiet hid (Or.inr hs)

theorem forceExit_cases {s : Signal} (h : e.forceExit c = .ok (s, e')) :
    ∃ pos, e.pos = some pos ∧ s = exitSignal c.ts pos c.close .idle "session_end" ∧
      e' = { e with pos := none, state := .idle } := by
  unfold forceExit at h
  split at h
  · cases h
  · next pos hpos =>
    cases h
    exact ⟨pos, hpos, rfl, rfl⟩

/-- **Every bar is one of the listed steps**, or late. -/
theorem onCandle_cases {raw : RawCandle} (h : e.onCandle cfg raw = .ok (sig, e')) :
    ∃ c, validate raw = .ok c ∧ ((e.isLate c.ts = true ∧ sig = none ∧ e' = e) ∨
      (e.isLate c.ts = false ∧ BarStep cfg e c (SessionClock.place cfg.clock c.ts) sig e')) := by
  unfold onCandle at h
  obtain ⟨c, hc, h⟩ := bind_ok.mp h
  refine ⟨c, mapError_ok.mp hc, ?_⟩
  by_cases hlate : e.isLate c.ts = true
  · rw [if_pos hlate] at h
    split at h
    · cases h
    · cases h
      exact Or.inl ⟨hlate, rfl, rfl⟩
  rw [if_neg hlate] at h
  refine Or.inr ⟨by simpa using hlate, ?_⟩
  obtain ⟨info, hinfo, h⟩ := bind_ok.mp h
  obtain rfl := (classified_ok_iff.mp hinfo).2
  dsimp only at h
  split at h
  · next hid =>
    obtain ⟨⟨first, rolled⟩, hsession, h⟩ := bind_ok.mp h
    unfold newSession at hsession
    split at hsession
    · obtain ⟨⟨s, flat⟩, hexit, hsession⟩ := bind_ok.mp hsession
      obtain ⟨pos, hpos, rfl, rfl⟩ := forceExit_cases hexit
      cases hsession
      cases h
      exact .carried pos hid hpos
    · next hstate =>
      cases hsession
      -- the rolled engine is idle
      rw [process_idle cfg rfl] at h
      cases h
      exact .fresh hid hstate
  · next hid =>
    have hid : some (SessionClock.place cfg.clock c.ts).sessionId = e.sessionId := not_not.mp hid
    split at h
    · unfold afterSession at h
      split at h
      · obtain ⟨⟨s, flat⟩, hexit, h⟩ := bind_ok.mp h
        obtain ⟨pos, hpos, rfl, rfl⟩ := forceExit_cases hexit
        cases h
        exact .closed pos hid hpos
      · next hstate =>
        cases h
        exact .ended hid hstate
    · exact process_cases hid (Except.ok.inj h)

end FreqTrading.SvpEngine
