import FreqTrading.Lib.Run
import FreqTrading.Lib.Program
import FreqTrading.Smc.Strategy

/-!
# What an SMC run guarantees

A run of the engine is a list of candles and of calls of `force_flat`; it keeps every emitted signal with the
engine before and after the candle. What justifies one ENTRY is read off the candle it was emitted on
(`accept_justified`); the cap on a day's entries and the meaning of `BREAKOUT` are invariants of the run.
-/

namespace FreqTrading

open Lib SmcEngine

/-! ### Runs -/

inductive SmcInput
  | candle (raw : RawCandle)
  | forceFlat (ts : Int)

/-- A signal of `on_candle`, and the engine before and after. -/
structure SmcDecision where
  before : SmcEngine
  candle : RawCandle
  signal : Signal
  after : SmcEngine

structure SmcRun where
  engine : SmcEngine
  log : List SmcDecision := []

/-- A candle that `on_candle` rejects leaves the engine as it was. -/
def SmcRun.step (cfg : SmcConfig) (r : SmcRun) : SmcInput → SmcRun
  | .candle raw =>
    match r.engine.onCandle cfg raw with
    | .error _ => r
    | .ok (none, e) => { r with engine := e }
    | .ok (some sig, e) => { engine := e, log := r.log ++ [⟨r.engine, raw, sig, e⟩] }
  | .forceFlat ts => { r with engine := (r.engine.forceFlat ts).2 }

/-- The ENTRYs emitted while a candle of this day was processed. -/
def SmcRun.entriesOn (r : SmcRun) (day : Int) : List SmcDecision :=
  r.log.filter fun d => d.signal.kind = .entry && date d.candle.ts = day

/-! ### What justifies an ENTRY -/

/-- The point of interest is there: a POC at the close, or an unmitigated block that the bar trades into. -/
def Poi.Present (cfg : SmcConfig) (e : SmcEngine) (m15c : Candle) (bias : Direction) : Poi → Prop
  | .dayPoc price => e.dayProfile.poc = some price ∧ |m15c.close - price| ≤ cfg.pocTol
  | .priorPoc price => e.prior.map (·.poc) = some price ∧ |m15c.close - price| ≤ cfg.pocTol
  | .d1Block ob => ∃ was ∈ e.obD1.active.get bias,
    OrderBlockTracker.offers m15c.low m15c.high was = true ∧ ob = { was with mitigated := true }
  | .h4Block ob => ∃ was ∈ e.obH4.active.get bias,
    OrderBlockTracker.offers m15c.low m15c.high was = true ∧ ob = { was with mitigated := true }

/-- The stop is on the losing side, at an allowed distance. -/
def StopAllowed (cfg : SmcConfig) (direction : Direction) (price stop : ℚ) : Prop :=
  (match direction with
    | .long => stop < price
    | .short => price < stop) ∧ cfg.stopBuffer ≤ |price - stop| ∧ |price - stop| ≤ cfg.stopMaxDist

structure SmcDecision.Justified (cfg : SmcConfig) (d : SmcDecision) : Prop where
  flat : d.before.position = none
  h4Trend : d.after.structH4.trend = some d.signal.direction
  d1Trend : d.after.structD1.trend = none ∨ d.after.structD1.trend = some d.signal.direction
  /-- Decided by the engine `e` on the completed bar `m15c`. -/
  confluence : ∃ c e m15c event fired poi, validate d.candle = .ok c ∧
    (d.before.feed cfg c).feedM15 c = (some (m15c, event), e) ∧ poi.Present cfg e m15c d.signal.direction ∧
    fired = e.fired cfg m15c event d.signal.direction ++ ["poi"] ∧ cfg.minConfluences ≤ fired.length ∧
    d.signal.reason = entryReason cfg d.signal.direction fired poi
  stop : ∃ stop, d.signal.stop = some stop ∧ StopAllowed cfg d.signal.direction d.signal.price stop

/-! ### The parts of a candle -/

namespace SmcEngine

variable {cfg : SmcConfig} {e : SmcEngine} {c m15c : Candle} {event : Option StructureEvent} {bias : Direction}

/-- Position, state and counters are as they were. -/
structure SameBook (e e' : SmcEngine) : Prop where
  position : e'.position = e.position
  state : e'.state = e.state
  tradedToday : e'.tradedToday = e.tradedToday
  curDate : e'.curDate = e.curDate
  lastTs : e'.lastTs = e.lastTs

theorem SameBook.trans {e e' e'' : SmcEngine} (h : SameBook e e') (h' : SameBook e' e'') : SameBook e e'' :=
  ⟨h'.position.trans h.position, h'.state.trans h.state, h'.tradedToday.trans h.tradedToday,
    h'.curDate.trans h.curDate, h'.lastTs.trans h.lastTs⟩

theorem feedD1_sameBook (e : SmcEngine) (c : Candle) : SameBook e (e.feedD1 c) := by
  unfold feedD1
  split
  split <;> exact ⟨rfl, rfl, rfl, rfl, rfl⟩

theorem feedH4_sameBook (e : SmcEngine) (c : Candle) : SameBook e (e.feedH4 c) := by
  unfold feedH4
  split
  split <;> exact ⟨rfl, rfl, rfl, rfl, rfl⟩

theorem feedM15_sameBook (e : SmcEngine) (c : Candle) : SameBook e (e.feedM15 c).2 := by
  unfold feedM15
  split
  split <;> exact ⟨rfl, rfl, rfl, rfl, rfl⟩

/-- A candle feeds the engine: the entries are counted anew on another day. -/
structure Fed (c : Candle) (e e' : SmcEngine) : Prop where
  position : e'.position = e.position
  state : e'.state = e.state
  curDate : e'.curDate = some (date c.ts)
  tradedToday : e'.tradedToday = if some (date c.ts) = e.curDate then e.tradedToday else 0
  lastTs : e'.lastTs = some c.ts

theorem rollDay_fed (cfg : SmcConfig) {e : SmcEngine} (h : e.lastTs = some c.ts) : Fed c e (e.rollDay cfg c) := by
  unfold rollDay
  split
  · next hsame => exact ⟨rfl, rfl, hsame.symm, (if_pos hsame).symm, h⟩
  · next hother => exact ⟨rfl, rfl, rfl, (if_neg hother).symm, h⟩

theorem Fed.book {e' e'' : SmcEngine} (h : Fed c e e') (hbook : SameBook e' e'') : Fed c e e'' :=
  ⟨hbook.position.trans h.position, hbook.state.trans h.state, hbook.curDate.trans h.curDate,
    hbook.tradedToday.trans h.tradedToday, hbook.lastTs.trans h.lastTs⟩

theorem feed_fed (cfg : SmcConfig) (e : SmcEngine) (c : Candle) : Fed c e (e.feed cfg c) := by
  have hroll : Fed c e (({ e with lastTs := some c.ts } : SmcEngine).rollDay cfg c) := by
    obtain ⟨hposition, hstate, hdate, htraded, hlast⟩ :=
      rollDay_fed (c := c) (e := { e with lastTs := some c.ts }) cfg rfl
    exact ⟨hposition, hstate, hdate, htraded, hlast⟩
  have hprofile : SameBook (({ e with lastTs := some c.ts } : SmcEngine).rollDay cfg c)
      ((({ e with lastTs := some c.ts } : SmcEngine).rollDay cfg c).feedProfile c) := ⟨rfl, rfl, rfl, rfl, rfl⟩
  exact hroll.book (hprofile.trans ((feedD1_sameBook _ c).trans (feedH4_sameBook _ c)))

/-! ### One decision -/

theorem pocPoi_present {poi : Poi} (h : e.pocPoi cfg m15c = some poi) : poi.Present cfg e m15c bias := by
  unfold pocPoi at h
  rcases Option.or_eq_some_iff.mp h with hday | ⟨-, hprior⟩
  · simp only [Option.map_eq_some_iff, Option.filter_eq_some_iff, decide_eq_true_eq] at hday
    obtain ⟨poc, ⟨hpoc, hnear⟩, rfl⟩ := hday
    exact ⟨hpoc, hnear⟩
  · simp only [Option.map_eq_some_iff, Option.filter_eq_some_iff, decide_eq_true_eq] at hprior
    obtain ⟨prior, ⟨hprior, hnear⟩, rfl⟩ := hprior
    exact ⟨by rw [hprior]; rfl, hnear⟩

theorem resolvePoi_present {poi : Poi} {resolved : SmcEngine} (h : e.resolvePoi cfg m15c bias = some (poi, resolved)) :
    poi.Present cfg e m15c bias ∧ SameBook e resolved ∧ resolved.structH4 = e.structH4 ∧ resolved.structD1 = e.structD1 := by
  unfold resolvePoi at h
  split at h
  · next hpoc =>
    cases h
    exact ⟨pocPoi_present hpoc, ⟨rfl, rfl, rfl, rfl, rfl⟩, rfl, rfl⟩
  · split at h
    · next hd1 =>
      cases h
      exact ⟨OrderBlockTracker.poiAt_found hd1, ⟨rfl, rfl, rfl, rfl, rfl⟩, rfl, rfl⟩
    · split at h
      · next hh4 =>
        cases h
        exact ⟨OrderBlockTracker.poiAt_found hh4, ⟨rfl, rfl, rfl, rfl, rfl⟩, rfl, rfl⟩
      · cases h

theorem structuralStop_beyond (cfg : SmcConfig) (m15c : Candle) (direction : Direction) (ob : Option OrderBlock)
    (swept : Option ℚ) :
    match direction with
    | .long => structuralStop cfg m15c direction ob swept ≤ m15c.close - cfg.stopBuffer
    | .short => m15c.close + cfg.stopBuffer ≤ structuralStop cfg m15c direction ob swept := by
  cases direction with
  | long =>
    have hlow := m15c.low_le_close
    have hfloor : structuralStop cfg m15c .long ob swept ≤ m15c.low - cfg.stopBuffer := by
      unfold structuralStop
      refine sub_le_sub_right ?_ _
      cases ob <;> cases swept <;> simp
    dsimp only
    linarith
  | short =>
    have hhigh := m15c.close_le_high
    have hceil : m15c.high + cfg.stopBuffer ≤ structuralStop cfg m15c .short ob swept := by
      unfold structuralStop
      refine add_le_add_left ?_ _
      cases ob <;> cases swept <;> simp
    dsimp only
    linarith

theorem stopAllowed (cfg : SmcConfig) (m15c : Candle) (direction : Direction) (ob : Option OrderBlock)
    (swept : Option ℚ) (h : |m15c.close - structuralStop cfg m15c direction ob swept| ≤ cfg.stopMaxDist) :
    StopAllowed cfg direction m15c.close (structuralStop cfg m15c direction ob swept) := by
  have hbuffer := cfg.stopBuffer_pos
  have hbeyond := structuralStop_beyond cfg m15c direction ob swept
  cases direction with
  | long =>
    dsimp only at hbeyond
    refine ⟨?_, ?_, h⟩
    · dsimp only
      linarith
    · rw [abs_of_nonneg (by linarith)]
      linarith
  | short =>
    dsimp only at hbeyond
    refine ⟨?_, ?_, h⟩
    · dsimp only
      linarith
    · rw [abs_of_nonpos (by linarith)]
      linarith

/-- What an ENTRY of a decision bar rests on, and what it does to the engine. -/
structure Entered (cfg : SmcConfig) (e : SmcEngine) (m15c : Candle) (event : Option StructureEvent) (sig : Signal)
    (e' : SmcEngine) : Prop where
  flat : e.position = none
  underCap : (e.tradedToday : Int) < cfg.maxTradesPerDay
  bias : e.htfBias = some sig.direction
  confluence : ∃ poi, poi.Present cfg e m15c sig.direction ∧
    cfg.minConfluences ≤ (e.fired cfg m15c event sig.direction ++ ["poi"]).length ∧
    sig.reason = entryReason cfg sig.direction (e.fired cfg m15c event sig.direction ++ ["poi"]) poi
  stop : ∃ stop, sig.stop = some stop ∧ StopAllowed cfg sig.direction sig.price stop
  state : e'.state = .breakout
  position : e'.position.isSome = true
  tradedToday : e'.tradedToday = e.tradedToday + 1
  curDate : e'.curDate = e.curDate
  lastTs : e'.lastTs = e.lastTs
  structH4 : e'.structH4 = e.structH4
  structD1 : e'.structD1 = e.structD1

/-- No ENTRY: the counters stay, and a flat engine is not in `BREAKOUT`. -/
structure Passed (e e' : SmcEngine) : Prop where
  position : e'.position = e.position
  state : if e.position = none then e'.state ≠ .breakout else e'.state = e.state
  tradedToday : e'.tradedToday = e.tradedToday
  curDate : e'.curDate = e.curDate
  lastTs : e'.lastTs = e.lastTs

theorem confluence_cases (hstate : e.state = .rangeDefined) (hflat : e.position = none)
    (hcap : (e.tradedToday : Int) < cfg.maxTradesPerDay) (hbias : e.htfBias = some bias) :
    ((e.confluence cfg m15c event bias).1 = none ∧ Passed e (e.confluence cfg m15c event bias).2) ∨
      ∃ sig, (e.confluence cfg m15c event bias).1 = some sig ∧
        Entered cfg e m15c event sig (e.confluence cfg m15c event bias).2 := by
  have hstay : ∀ {e' : SmcEngine}, SameBook e e' → Passed e e' := by
    intro e' hbook
    refine ⟨hbook.position, ?_, hbook.tradedToday, hbook.curDate, hbook.lastTs⟩
    rw [if_pos hflat, hbook.state, hstate]
    exact fun h => by cases h
  unfold confluence
  dsimp only
  split
  · exact Or.inl ⟨rfl, hstay ⟨rfl, rfl, rfl, rfl, rfl⟩⟩
  · split
    · exact Or.inl ⟨rfl, hstay ⟨rfl, rfl, rfl, rfl, rfl⟩⟩
    · next poi resolved hpoi =>
      obtain ⟨hpresent, hbook, hh4, hd1⟩ := resolvePoi_present hpoi
      split
      · exact Or.inl ⟨rfl, hstay hbook⟩
      · next hcount =>
        unfold enter
        dsimp only
        split
        · exact Or.inl ⟨rfl, hstay hbook⟩
        · next hdist =>
          rw [not_or, not_lt] at hdist
          refine Or.inr ⟨_, rfl, hflat, hcap, hbias, ⟨poi, hpresent, not_lt.mp hcount, rfl⟩,
            ⟨_, rfl, stopAllowed cfg m15c bias _ _ hdist.2⟩, rfl, rfl, ?_, hbook.curDate,
            hbook.lastTs, hh4, hd1⟩
          rw [← hbook.tradedToday]
          rfl

theorem onDecision_cases (cfg : SmcConfig) (e : SmcEngine) (m15c : Candle) (event : Option StructureEvent) :
    ((e.onDecision cfg m15c event).1 = none ∧ Passed e (e.onDecision cfg m15c event).2) ∨
      ∃ sig, (e.onDecision cfg m15c event).1 = some sig ∧
        Entered cfg e m15c event sig (e.onDecision cfg m15c event).2 := by
  unfold onDecision
  by_cases hflat : e.position = none
  · rw [if_neg (by simp [hflat])]
    cases hbias : e.htfBias with
    | none => exact Or.inl ⟨rfl, rfl, by simp [hflat], rfl, rfl, rfl⟩
    | some bias =>
      dsimp only
      split
      · exact Or.inl ⟨rfl, rfl, by simp [hflat], rfl, rfl, rfl⟩
      · next hcap =>
        have harmed : ({ e with state := .rangeDefined } : SmcEngine).htfBias = some bias := hbias
        rcases confluence_cases (e := { e with state := .rangeDefined }) rfl hflat (not_le.mp hcap) harmed with
          ⟨hnone, hpassed⟩ | ⟨sig, hsig, hentered⟩
        · refine Or.inl ⟨hnone, hpassed.position, ?_, hpassed.tradedToday, hpassed.curDate, hpassed.lastTs⟩
          have hstate := hpassed.state
          rwa [if_pos hflat] at hstate ⊢
        · exact Or.inr ⟨sig, hsig, ⟨hentered.flat, hentered.underCap, hentered.bias, hentered.confluence, hentered.stop,
            hentered.state, hentered.position, hentered.tradedToday, hentered.curDate, hentered.lastTs, hentered.structH4,
            hentered.structD1⟩⟩
  · have hsome : e.position.isSome = true := Option.isSome_iff_ne_none.mpr hflat
    rw [if_pos hsome]
    exact Or.inl ⟨rfl, rfl, by rw [if_neg hflat], rfl, rfl, rfl⟩

theorem htfBias_trends (h : e.htfBias = some bias) :
    e.structH4.trend = some bias ∧ (e.structD1.trend = none ∨ e.structD1.trend = some bias) := by
  unfold htfBias at h
  split at h
  · cases h
  · next base hbase =>
    split at h
    · next hd1 =>
      cases h
      exact ⟨hbase, Or.inl hd1⟩
    · next d1 hd1 =>
      split_ifs at h with heq
      cases h
      exact ⟨hbase, Or.inr (by rw [hd1, heq])⟩

/-! ### One candle -/

/-- `BREAKOUT` means a position. -/
def Consistent (e : SmcEngine) : Prop := e.state = .breakout ↔ e.position.isSome = true

/-- Entries counted on the day of the candle before it is decided on. -/
def tradedBefore (e : SmcEngine) (c : Candle) : Nat := if some (date c.ts) = e.curDate then e.tradedToday else 0

theorem Consistent.passed {e e' : SmcEngine} (h : Consistent e) (hp : Passed e e') : Consistent e' := by
  have hstate := hp.state
  unfold Consistent at *
  rw [hp.position]
  by_cases hflat : e.position = none
  · rw [if_pos hflat] at hstate
    simp [hflat, hstate]
  · rw [if_neg hflat] at hstate
    rw [hstate]
    exact h

theorem Consistent.same {e e' : SmcEngine} (h : Consistent e) (hposition : e'.position.isSome = e.position.isSome)
    (hstate : e'.state = e.state) : Consistent e' := by
  unfold Consistent at *
  rw [hposition, hstate]
  exact h

theorem accept_none (h : (e.accept cfg c).1 = none) :
    (Consistent e → Consistent (e.accept cfg c).2) ∧ (e.accept cfg c).2.curDate = some (date c.ts) ∧
      (e.accept cfg c).2.tradedToday = e.tradedBefore c ∧ (e.accept cfg c).2.lastTs = some c.ts := by
  have hfed := feed_fed cfg e c
  have hbook := feedM15_sameBook (e.feed cfg c) c
  have hfed' := hfed.book hbook
  have hstart : Consistent e → Consistent ((e.feed cfg c).feedM15 c).2 := fun hc =>
    hc.same (by rw [hfed'.position]) hfed'.state
  unfold accept decide at *
  dsimp only at *
  split at h
  · next e₁ hm15 =>
    rw [hm15] at hfed' hstart
    dsimp only
    exact ⟨fun hc => (hstart hc).same (by simp [countBar]) rfl, hfed'.curDate, hfed'.tradedToday, hfed'.lastTs⟩
  · next m15c event e₁ hm15 =>
    rw [hm15] at hfed' hstart
    dsimp only
    rcases onDecision_cases cfg e₁ m15c event with ⟨-, hpassed⟩ | ⟨sig, hsig, -⟩
    · refine ⟨fun hc => ((hstart hc).passed hpassed).same (by simp [countBar]) rfl, ?_, ?_, ?_⟩
      · exact hpassed.curDate.trans hfed'.curDate
      · exact hpassed.tradedToday.trans hfed'.tradedToday
      · exact hpassed.lastTs.trans hfed'.lastTs
    · dsimp only at h
      rw [hsig] at h
      cases h

/-- **What an ENTRY rests on.** -/
theorem accept_justified {raw : RawCandle} {sig : Signal} (hraw : validate raw = .ok c)
    (h : (e.accept cfg c).1 = some sig) :
    SmcDecision.Justified cfg ⟨e, raw, sig, (e.accept cfg c).2⟩ ∧ Consistent (e.accept cfg c).2 ∧
      (e.accept cfg c).2.curDate = some (date c.ts) ∧ (e.accept cfg c).2.tradedToday = e.tradedBefore c + 1 ∧
      (e.tradedBefore c : Int) < cfg.maxTradesPerDay ∧ (e.accept cfg c).2.lastTs = some c.ts := by
  have hfed' := (feed_fed cfg e c).book (feedM15_sameBook (e.feed cfg c) c)
  unfold accept decide at *
  dsimp only at *
  split at h
  · cases h
  · next m15c event e₁ hm15 =>
    rw [hm15] at hfed'
    dsimp only
    rcases onDecision_cases cfg e₁ m15c event with ⟨hnone, -⟩ | ⟨sig', hsig, hentered⟩
    · dsimp only at h
      rw [hnone] at h
      cases h
    · obtain rfl : sig' = sig := by
        dsimp only at h
        exact Option.some.inj (hsig.symm.trans h)
      have htrends := htfBias_trends hentered.bias
      have htraded : e₁.tradedToday = e.tradedBefore c := hfed'.tradedToday
      obtain ⟨poi, hpoi, hcount, hreason⟩ := hentered.confluence
      refine ⟨⟨?_, ?_, ?_, ⟨c, e₁, m15c, event, _, poi, hraw, hm15, hpoi, rfl, hcount, hreason⟩, hentered.stop⟩, ?_,
        ?_, ?_, ?_, ?_⟩
      · rw [← hfed'.position]
        exact hentered.flat
      · show ((e₁.onDecision cfg m15c event).2.structH4.trend = _)
        rw [hentered.structH4]
        exact htrends.1
      · show ((e₁.onDecision cfg m15c event).2.structD1.trend = _ ∨ (e₁.onDecision cfg m15c event).2.structD1.trend = _)
        rw [hentered.structD1]
        exact htrends.2
      · have hboth : Consistent (e₁.onDecision cfg m15c event).2 := by
          unfold Consistent
          rw [hentered.state, hentered.position]
          simp
        exact hboth.same (by simp [countBar]) rfl
      · exact hentered.curDate.trans hfed'.curDate
      · show (e₁.onDecision cfg m15c event).2.tradedToday = _
        rw [hentered.tradedToday, htraded]
      · rw [← htraded]
        exact hentered.underCap
      · exact hentered.lastTs.trans hfed'.lastTs

/-- A candle goes on in time, or `on_candle` leaves the engine alone. -/
theorem onCandle_cases {raw : RawCandle} {sig : Option Signal} {e' : SmcEngine} (h : e.onCandle cfg raw = .ok (sig, e')) :
    ∃ c, validate raw = .ok c ∧
      ((e.isLate c.ts = true ∧ sig = none ∧ e' = e) ∨
        (e.isLate c.ts = false ∧ (sig, e') = e.accept cfg c)) := by
  unfold onCandle at h
  obtain ⟨c, hc, h⟩ := bind_ok.mp h
  refine ⟨c, mapError_ok.mp hc, ?_⟩
  by_cases hlate : e.isLate c.ts = true
  · rw [if_pos hlate] at h
    split at h
    · cases h
    · cases h
      exact Or.inl ⟨hlate, rfl, rfl⟩
  · rw [if_neg hlate] at h
    cases h
    exact Or.inr ⟨by simpa using hlate, rfl⟩

end SmcEngine

/-! ### Runs -/

/-- What holds after every input: entries are counted by the day of the last candle. -/
structure SmcRun.Sound (cfg : SmcConfig) (r : SmcRun) : Prop where
  consistent : r.engine.Consistent
  clock : r.engine.curDate = r.engine.lastTs.map date
  justified : ∀ d ∈ r.log, d.signal.kind = .entry → d.Justified cfg
  past : ∀ d ∈ r.log, ∃ day, r.engine.curDate = some day ∧ date d.candle.ts ≤ day
  counted : ∀ day, r.engine.curDate = some day → (r.entriesOn day).length ≤ r.engine.tradedToday
  capped : ∀ day, ((r.entriesOn day).length : Int) ≤ cfg.maxTradesPerDay

namespace SmcRun

variable {cfg : SmcConfig} {r : SmcRun}

theorem Sound.day_le (h : r.Sound cfg) {c : Candle} (hlate : r.engine.isLate c.ts = false) {day : Int}
    (hday : r.engine.curDate = some day) : day ≤ date c.ts := by
  have hclock := h.clock
  rw [hday] at hclock
  cases hlast : r.engine.lastTs with
  | none => simp [hlast] at hclock
  | some last =>
    rw [hlast, Option.map_some, Option.some.injEq] at hclock
    have hafter : last < c.ts := by simpa [isLate, hlast] using hlate
    rw [hclock]
    exact Int.ediv_le_ediv (by decide) hafter.le

theorem Sound.counted_before (h : r.Sound cfg) {c : Candle} (hlate : r.engine.isLate c.ts = false) :
    (r.entriesOn (date c.ts)).length ≤ r.engine.tradedBefore c := by
  unfold tradedBefore
  split
  · next hsame => exact h.counted _ hsame.symm
  · next hother =>
    -- every entry so far is of an earlier day
    have hnone : r.entriesOn (date c.ts) = [] := by
      refine List.filter_eq_nil_iff.mpr fun d hd => ?_
      obtain ⟨day, hday, hle⟩ := h.past d hd
      have hafter := h.day_le hlate hday
      have hne : date c.ts ≠ day := fun heq => hother (by rw [hday, heq])
      simp only [Bool.and_eq_true, decide_eq_true_eq, not_and]
      intro _
      omega
    rw [hnone]
    exact Nat.zero_le _

theorem Sound.past_before (h : r.Sound cfg) {c : Candle} (hlate : r.engine.isLate c.ts = false) :
    ∀ d ∈ r.log, date d.candle.ts ≤ date c.ts := by
  intro d hd
  obtain ⟨day, hday, hle⟩ := h.past d hd
  exact hle.trans (h.day_le hlate hday)

theorem Sound.quiet (h : r.Sound cfg) {c : Candle} (hlate : r.engine.isLate c.ts = false)
    (hnone : (r.engine.accept cfg c).1 = none) : Sound cfg { r with engine := (r.engine.accept cfg c).2 } := by
  obtain ⟨hconsistent, hdate, htraded, hlast⟩ := accept_none hnone
  refine ⟨hconsistent h.consistent, by rw [hdate, hlast]; rfl, h.justified, fun d hd => ?_, fun day hday => ?_, h.capped⟩
  · exact ⟨_, hdate, h.past_before hlate d hd⟩
  · rw [hdate, Option.some.injEq] at hday
    subst hday
    show _ ≤ (r.engine.accept cfg c).2.tradedToday
    rw [htraded]
    exact h.counted_before hlate

theorem Sound.entered (h : r.Sound cfg) {raw : RawCandle} {c : Candle} {sig : Signal} (hraw : validate raw = .ok c)
    (hlate : r.engine.isLate c.ts = false) (hsig : (r.engine.accept cfg c).1 = some sig) :
    Sound cfg { engine := (r.engine.accept cfg c).2, log := r.log ++ [⟨r.engine, raw, sig, (r.engine.accept cfg c).2⟩] } := by
  obtain ⟨hjustified, hconsistent, hdate, htraded, hcap, hlast⟩ := accept_justified hraw hsig
  have hts : raw.ts = c.ts := (validate_spec hraw).1.symm
  have hold := h.counted_before hlate
  have hmore : ∀ day, (entriesOn ⟨(r.engine.accept cfg c).2, r.log ++ [⟨r.engine, raw, sig, (r.engine.accept cfg c).2⟩]⟩ day).length ≤
      (r.entriesOn day).length + if day = date c.ts then 1 else 0 := by
    intro day
    simp only [entriesOn, List.filter_append, List.length_append]
    refine Nat.add_le_add_left ?_ _
    split
    · exact (List.length_filter_le _ _).trans (by simp)
    · next hday =>
      have hno : date raw.ts ≠ day := by
        rw [hts]
        exact fun heq => hday heq.symm
      simp [hno]
  refine ⟨hconsistent, by rw [hdate, hlast]; rfl, fun d hd hentry => ?_, fun d hd => ?_, fun day hday => ?_, fun day => ?_⟩
  · rcases List.mem_append.mp hd with hd | hd
    · exact h.justified d hd hentry
    · obtain rfl := List.mem_singleton.mp hd
      exact hjustified
  · refine ⟨_, hdate, ?_⟩
    rcases List.mem_append.mp hd with hd | hd
    · exact h.past_before hlate d hd
    · obtain rfl := List.mem_singleton.mp hd
      rw [hts]
  · rw [hdate, Option.some.injEq] at hday
    subst hday
    have hle := hmore (date c.ts)
    rw [if_pos rfl] at hle
    show _ ≤ (r.engine.accept cfg c).2.tradedToday
    rw [htraded]
    omega
  · have hle := hmore day
    by_cases hday : day = date c.ts
    · subst hday
      rw [if_pos rfl] at hle
      omega
    · rw [if_neg hday] at hle
      have := h.capped day
      omega

theorem step_sound (cfg : SmcConfig) (r : SmcRun) (input : SmcInput) (h : r.Sound cfg) : (r.step cfg input).Sound cfg := by
  cases input with
  | candle raw =>
    simp only [step]
    cases hout : r.engine.onCandle cfg raw with
    | error err => exact h
    | ok out =>
      obtain ⟨sig, e⟩ := out
      obtain ⟨c, hraw, ⟨-, rfl, rfl⟩ | ⟨hlate, haccept⟩⟩ := onCandle_cases hout
      · exact h
      · obtain ⟨hsig, rfl⟩ := Prod.mk.injEq .. |>.mp haccept
        cases sig with
        | none => exact h.quiet hlate hsig.symm
        | some sig => exact h.entered hraw hlate hsig.symm
  | forceFlat ts =>
    simp only [step]
    unfold forceFlat
    split
    · exact h
    · refine ⟨by simp [Consistent], h.clock, h.justified, h.past, h.counted, h.capped⟩

theorem created_sound {e : SmcEngine} (h : create cfg = .ok e) : (SmcRun.mk e []).Sound cfg := by
  have hfresh : e.state = .idle ∧ e.position = none ∧ e.lastTs = none ∧ e.curDate = none := by
    unfold create at h
    obtain ⟨m15, -, h⟩ := bind_ok.mp h
    obtain ⟨h4, -, h⟩ := bind_ok.mp h
    obtain ⟨d1, -, h⟩ := bind_ok.mp h
    cases h
    exact ⟨rfl, rfl, rfl, rfl⟩
  obtain ⟨hstate, hposition, hlast, hdate⟩ := hfresh
  have htrades : (decide (cfg.maxTradesPerDay < 1), "max_trades_per_day must be >= 1").1 = false :=
    cfg.check_passes (by simp [SmcConfigFields.checks, SmcConfigFields.counts])
  refine ⟨?_, ?_, ?_, ?_, ?_, ?_⟩
  · simp [Consistent, hstate, hposition]
  · simp [hlast, hdate]
  · simp
  · simp
  · simp [hdate]
  · simp only [entriesOn, List.filter_nil, List.length_nil]
    simp at htrades
    omega

/-- **The run contract.** Over every list of candles and `force_flat` calls. -/
theorem run_contract (cfg : SmcConfig) {e : SmcEngine} (h : create cfg = .ok e) (inputs : List SmcInput) :
    let r := run (SmcRun.step cfg) ⟨e, []⟩ inputs
    (∀ d ∈ r.log, d.signal.kind = .entry → d.Justified cfg) ∧
      (∀ day, ((r.entriesOn day).length : Int) ≤ cfg.maxTradesPerDay) ∧
      (r.engine.state = .breakout ↔ r.engine.position.isSome = true) := by
  intro r
  have hsound : r.Sound cfg :=
    run_always (fun r input hr => step_sound cfg r input hr) (created_sound h) inputs
  exact ⟨hsound.justified, hsound.capped, hsound.consistent⟩

/-- One-minute decision bars, two-minute bars for the bias, and one confluence. -/
def minuteConfig : SmcConfig :=
  ⟨{ triggerTfMin := 1, htfMin := 2, swingLookback := 1, ticksPerRow := 1000, minProfileBars := 1, minConfluences := 1
     pocTol := 1000, stopMaxDist := 50 }, by decide +kernel⟩

/-- A candle of this minute, one dollar around a price. -/
def around (minute : Nat) (price : ℚ) : RawCandle :=
  ⟨minute * minuteMicros, true, some price, some (price + 1), some (price - 1), some price, some 1⟩

/-- Two swings up: the last minute closes at 2020, above the swing at 2010. -/
def climb : List RawCandle :=
  [around 0 2000, around 1 2000, around 2 2010, around 3 2010, around 4 2000, around 5 2000, around 6 2020, around 7 2020]

/-- The climb, the candle that enters, a close by the server, and a second entry. -/
def twoEntries : List SmcInput :=
  (climb ++ [around 8 2015]).map .candle ++
    [.forceFlat (9 * minuteMicros), .candle (around 9 2015), .candle (around 10 2015)]

theorem run_contract_twoEntries : ∃ e, create minuteConfig = .ok e ∧
    let r := run (SmcRun.step minuteConfig) ⟨e, []⟩ twoEntries
    (r.entriesOn 0).map (fun d => (d.signal.kind, d.signal.price, d.signal.stop)) =
        [(.entry, 2020, some (4037 / 2)), (.entry, 2015, some (4027 / 2))] ∧
      (∀ d ∈ r.log, d.signal.kind = .entry → d.Justified minuteConfig) ∧
      (∀ day, ((r.entriesOn day).length : Int) ≤ minuteConfig.maxTradesPerDay) ∧
      (r.engine.state = .breakout ↔ r.engine.position.isSome = true) :=
  ⟨_, rfl, by decide +kernel, run_contract minuteConfig rfl _⟩

end SmcRun

end FreqTrading
