import FreqTrading.Engine.OneTrade
import FreqTrading.Smc.Contract

/-!
# What an order block is consumed by

`poi_at` marks a block while the point of interest is resolved, and only then `_enter` looks at the stop. So a
block is consumed without a trade exactly when the stop behind it is too wide (`Wastes`): every other gate has
been passed by then. `blocksForTrades_iff` is that for one call, `consumed_by_trades_iff` for whole runs.
-/

namespace FreqTrading

open Lib

namespace OrderBlockTracker

/-- The unmitigated blocks of each direction. -/
def unmitigated (t : OrderBlockTracker) : BySide (List OrderBlock) := t.active.map fun _ reg => reg.filter (!·.mitigated)

theorem consume_fewer {meets : OrderBlock → Bool} (hfresh : ∀ ob, meets ob = true → ob.mitigated = false)
    {reg reg' : List OrderBlock} {ob : OrderBlock} (h : consume meets reg = some (ob, reg')) :
    (reg'.filter (!·.mitigated)).length + 1 = (reg.filter (!·.mitigated)).length := by
  induction reg generalizing reg' with
  | nil => cases h
  | cons first rest ih =>
    rw [consume] at h
    by_cases hmeets : meets first = true
    · rw [if_pos hmeets] at h
      cases h
      simp [hfresh first hmeets]
    · rw [if_neg hmeets] at h
      obtain ⟨⟨found, others⟩, hrest, hpair⟩ := Option.map_eq_some_iff.mp h
      cases hpair
      have hfewer := ih hrest
      by_cases hfirst : first.mitigated = true
      · simpa [hfirst] using hfewer
      · simpa [hfirst] using hfewer

theorem poiAt_unmitigated {t t' : OrderBlockTracker} {lo hi : ℚ} {direction : Direction} {ob : OrderBlock}
    (h : t.poiAt lo hi direction = some (ob, t')) : t'.unmitigated ≠ t.unmitigated := by
  intro hsame
  unfold poiAt at h
  obtain ⟨⟨found, reg⟩, hconsume, hpair⟩ := Option.map_eq_some_iff.mp h
  cases hpair
  have hfewer := consume_fewer (fun ob hoffers => by
    simp only [offers, Bool.and_eq_true, Bool.not_eq_true'] at hoffers
    exact hoffers.1.1) hconsume
  have hside := congrArg (fun side => (side.get direction).length) hsame
  simp only [unmitigated, BySide.get_map, BySide.get_set, if_true, List.filter_reverse, List.length_reverse] at hside hfewer
  omega

end OrderBlockTracker

namespace SmcEngine

variable {cfg : SmcConfig} {e e' : SmcEngine} {c m15c : Candle} {event : Option StructureEvent} {bias : Direction}

/-! ### The block of a decision -/

/-- The block that `_resolve_poi` consumes when the close is at no POC. -/
def offered (e : SmcEngine) (m15c : Candle) (bias : Direction) : Option OrderBlock :=
  ((e.obD1.poiAt m15c.low m15c.high bias).map (·.1)).or ((e.obH4.poiAt m15c.low m15c.high bias).map (·.1))

/-- The stop behind the block is too wide. -/
def TooWide (cfg : SmcConfig) (e : SmcEngine) (m15c : Candle) (bias : Direction) (ob : OrderBlock) : Prop :=
  cfg.stopMaxDist < |m15c.close - structuralStop cfg m15c bias (some ob) (e.checkSweep m15c bias)|

instance (ob : OrderBlock) : Decidable (TooWide cfg e m15c bias ob) := inferInstanceAs (Decidable (_ < _))

/-- A flat engine under its cap has a bias and enough confluences, the close is at no POC, and the block on offer
would put the stop too far away. -/
def Wastes (cfg : SmcConfig) (e : SmcEngine) (m15c : Candle) (event : Option StructureEvent) : Prop :=
  e.position = none ∧ e.tradedToday < cfg.maxTradesPerDay ∧ ∃ bias, e.htfBias = some bias ∧
    cfg.minConfluences ≤ ((e.fired cfg m15c event bias).length : Int) + 1 ∧ e.pocPoi cfg m15c = none ∧
      ∃ ob, e.offered m15c bias = some ob ∧ TooWide cfg e m15c bias ob

/-- The trackers are as they were. -/
def SameBlocks (e e' : SmcEngine) : Prop := e'.obD1 = e.obD1 ∧ e'.obH4 = e.obH4

/-- A block that was on offer is not any more. -/
def Consumes (e e' : SmcEngine) : Prop :=
  e'.obD1.unmitigated ≠ e.obD1.unmitigated ∨ e'.obH4.unmitigated ≠ e.obH4.unmitigated

theorem resolvePoi_offered (hpoc : e.pocPoi cfg m15c = none) {ob : OrderBlock} (hob : e.offered m15c bias = some ob) :
    ∃ poi resolved, e.resolvePoi cfg m15c bias = some (poi, resolved) ∧ poi.block = some ob ∧ Consumes e resolved := by
  unfold offered at hob
  unfold resolvePoi
  rw [hpoc]
  cases hd1 : e.obD1.poiAt m15c.low m15c.high bias with
  | some found =>
    obtain ⟨found, obD1⟩ := found
    simp only [hd1, Option.map_some, Option.some_or, Option.some.injEq] at hob
    subst hob
    exact ⟨.d1Block found, _, rfl, rfl, Or.inl (OrderBlockTracker.poiAt_unmitigated hd1)⟩
  | none =>
    simp only [hd1, Option.map_none, Option.none_or] at hob
    obtain ⟨⟨found, obH4⟩, hh4, rfl⟩ := Option.map_eq_some_iff.mp hob
    simp only [hh4]
    exact ⟨.h4Block found, _, rfl, rfl, Or.inr (OrderBlockTracker.poiAt_unmitigated hh4)⟩

theorem resolvePoi_none (hpoc : e.pocPoi cfg m15c = none) (hob : e.offered m15c bias = none) :
    e.resolvePoi cfg m15c bias = none := by
  unfold offered at hob
  obtain ⟨hd1, hh4⟩ := Option.or_eq_none_iff.mp hob
  rw [Option.map_eq_none_iff] at hd1 hh4
  unfold resolvePoi
  rw [hpoc, hd1, hh4]

theorem enter_cases (cfg : SmcConfig) (e : SmcEngine) (m15c : Candle) (direction : Direction) (fired : List String) (poi : Poi)
    (swept : Option ℚ) :
    (cfg.stopMaxDist < |m15c.close - structuralStop cfg m15c direction poi.block swept| ∧
        e.enter cfg m15c direction fired poi swept = (none, e)) ∨
      (¬ cfg.stopMaxDist < |m15c.close - structuralStop cfg m15c direction poi.block swept| ∧
        ∃ sig, (e.enter cfg m15c direction fired poi swept).1 = some sig ∧ sig.kind = .entry) := by
  unfold enter
  dsimp only
  by_cases hwide : cfg.stopMaxDist < |m15c.close - structuralStop cfg m15c direction poi.block swept|
  · rw [if_pos (Or.inr hwide)]
    exact Or.inl ⟨hwide, rfl⟩
  · have hallowed := stopAllowed cfg m15c direction poi.block swept (not_lt.mp hwide)
    have hpos := lt_of_lt_of_le cfg.stopBuffer_pos hallowed.2.1
    rw [if_neg (not_or.mpr ⟨not_le.mpr hpos, hwide⟩)]
    exact Or.inr ⟨hwide, _, rfl, rfl⟩

/-- What a decision does to the blocks. -/
inductive BlockStep (cfg : SmcConfig) (e : SmcEngine) (m15c : Candle) (event : Option StructureEvent) :
    Option Signal → SmcEngine → Prop
  | entry (sig : Signal) (e' : SmcEngine) (hkind : sig.kind = .entry) (hno : ¬ Wastes cfg e m15c event) :
      BlockStep cfg e m15c event (some sig) e'
  | untouched (e' : SmcEngine) (hsame : SameBlocks e e') (hno : ¬ Wastes cfg e m15c event) :
      BlockStep cfg e m15c event none e'
  | wasted (e' : SmcEngine) (hconsumes : Consumes e e') (hwastes : Wastes cfg e m15c event) :
      BlockStep cfg e m15c event none e'

/-- Once the gates before the confluences are passed, the block is wasted for the rest of the condition. -/
theorem wastes_iff (hflat : e.position = none) (hcap : e.tradedToday < cfg.maxTradesPerDay) (hbias : e.htfBias = some bias) :
    Wastes cfg e m15c event ↔ cfg.minConfluences ≤ ((e.fired cfg m15c event bias).length : Int) + 1 ∧
      e.pocPoi cfg m15c = none ∧ ∃ ob, e.offered m15c bias = some ob ∧ TooWide cfg e m15c bias ob := by
  constructor
  · rintro ⟨-, -, other, hother, hrest⟩
    cases hbias.symm.trans hother
    exact hrest
  · exact fun hrest => ⟨hflat, hcap, bias, hbias, hrest⟩

theorem confluence_blocks (hflat : e.position = none) (hcap : e.tradedToday < cfg.maxTradesPerDay)
    (hbias : e.htfBias = some bias) :
    BlockStep cfg e m15c event (e.confluence cfg m15c event bias).1 (e.confluence cfg m15c event bias).2 := by
  have hwastes : Wastes cfg e m15c event ↔ _ := wastes_iff hflat hcap hbias
  unfold confluence
  dsimp only
  by_cases hfew : ((e.fired cfg m15c event bias).length : Int) + 1 < cfg.minConfluences
  · rw [if_pos hfew]
    exact .untouched _ ⟨rfl, rfl⟩ fun h => absurd hfew (not_lt.mpr (hwastes.mp h).1)
  rw [if_neg hfew]
  -- the second gate counts the point of interest, so the first one implies it
  have hgate : ¬ (((e.fired cfg m15c event bias ++ ["poi"]).length : Nat) : Int) < cfg.minConfluences := by
    rw [List.length_append, List.length_singleton]
    push_cast
    exact hfew
  cases hpoc : e.pocPoi cfg m15c with
  | some poi =>
    have hresolve : e.resolvePoi cfg m15c bias = some (poi, e) := by
      unfold resolvePoi
      rw [hpoc]
    have hno : ¬ Wastes cfg e m15c event := by
      intro h
      cases hpoc.symm.trans (hwastes.mp h).2.1
    rw [hresolve]
    simp only [if_neg hgate]
    rcases enter_cases cfg e m15c bias (e.fired cfg m15c event bias ++ ["poi"]) poi (e.checkSweep m15c bias) with
      ⟨-, hnone⟩ | ⟨-, sig, hsig, hkind⟩
    · rw [hnone]
      exact .untouched _ ⟨rfl, rfl⟩ hno
    · rw [hsig]
      exact .entry sig _ hkind hno
  | none =>
    cases hob : e.offered m15c bias with
    | none =>
      rw [resolvePoi_none hpoc hob]
      refine .untouched _ ⟨rfl, rfl⟩ fun h => ?_
      obtain ⟨-, -, ob, hsome, -⟩ := hwastes.mp h
      cases hob.symm.trans hsome
    | some ob =>
      obtain ⟨poi, resolved, hresolve, hblock, hconsumes⟩ := resolvePoi_offered hpoc hob
      rw [hresolve]
      simp only [if_neg hgate]
      have hiff : Wastes cfg e m15c event ↔
          cfg.stopMaxDist < |m15c.close - structuralStop cfg m15c bias poi.block (e.checkSweep m15c bias)| := by
        rw [hblock, hwastes]
        constructor
        · rintro ⟨-, -, found, hfound, hwide⟩
          cases hob.symm.trans hfound
          exact hwide
        · exact fun hwide => ⟨not_lt.mp hfew, hpoc, ob, hob, hwide⟩
      rcases enter_cases cfg resolved m15c bias (e.fired cfg m15c event bias ++ ["poi"]) poi (e.checkSweep m15c bias) with
        ⟨hwide, hnone⟩ | ⟨hwide, sig, hsig, hkind⟩
      · rw [hnone]
        exact .wasted _ hconsumes (hiff.mpr hwide)
      · rw [hsig]
        exact .entry sig _ hkind (hiff.not.mpr hwide)

theorem onDecision_blocks (cfg : SmcConfig) (e : SmcEngine) (m15c : Candle) (event : Option StructureEvent) :
    BlockStep cfg e m15c event (e.onDecision cfg m15c event).1 (e.onDecision cfg m15c event).2 := by
  unfold onDecision
  by_cases hflat : e.position = none
  · rw [if_neg (by simp [hflat])]
    cases hbias : e.htfBias with
    | none =>
      refine .untouched _ ⟨rfl, rfl⟩ ?_
      rintro ⟨-, -, bias, hsome, -⟩
      rw [hbias] at hsome
      cases hsome
    | some bias =>
      dsimp only
      by_cases hcap : cfg.maxTradesPerDay ≤ e.tradedToday
      · rw [if_pos hcap]
        exact .untouched _ ⟨rfl, rfl⟩ fun hwastes => absurd hcap (not_le.mpr hwastes.2.1)
      · rw [if_neg hcap]
        -- arming the engine changes nothing that a decision looks at
        rcases hstep : confluence cfg { e with state := .rangeDefined } m15c event bias with ⟨sig, e'⟩
        have hblocks : BlockStep cfg { e with state := .rangeDefined } m15c event
            (confluence cfg { e with state := .rangeDefined } m15c event bias).1
            (confluence cfg { e with state := .rangeDefined } m15c event bias).2 :=
          confluence_blocks hflat (not_le.mp hcap) hbias
        rw [hstep] at hblocks
        cases hblocks with
        | entry sig e' hkind hno => exact .entry sig _ hkind hno
        | untouched e' hsame hno => exact .untouched _ hsame hno
        | wasted e' hconsumes hwastes => exact .wasted _ hconsumes hwastes
  · rw [if_pos (Option.isSome_iff_ne_none.mpr hflat)]
    exact .untouched _ ⟨rfl, rfl⟩ fun hwastes => hflat hwastes.1

/-! ### One call -/

/-- The engine as the tracker updates of the candle leave it. -/
def fedBy (cfg : SmcConfig) (e : SmcEngine) (raw : RawCandle) : SmcEngine :=
  match validate raw with
  | .error _ => e
  | .ok c => if e.isLate c.ts then e else e.feed cfg c

/-- The candle completes a decision bar that wastes a block. -/
def WastesAt (cfg : SmcConfig) (e : SmcEngine) (raw : RawCandle) : Prop :=
  ∃ c, validate raw = .ok c ∧ e.isLate c.ts = false ∧
    ∃ m15c event e₁, (e.feed cfg c).feedM15 c = (some (m15c, event), e₁) ∧ e₁.Wastes cfg m15c event

/-- A call that changes a tracker beyond its updates returns an ENTRY, and without one the unmitigated blocks are
what the updates left. -/
def BlocksForTrades (cfg : SmcConfig) (e : SmcEngine) (raw : RawCandle) : Prop :=
  ∀ sig e', e.onCandle cfg raw = .ok (sig, e') →
    (¬ SameBlocks (e.fedBy cfg raw) e' → ∃ s, sig = some s ∧ s.kind = .entry) ∧
      ((∀ s, sig = some s → s.kind ≠ .entry) → ¬ Consumes (e.fedBy cfg raw) e')

theorem feedM15_blocks (e : SmcEngine) (c : Candle) : SameBlocks e (e.feedM15 c).2 := by
  unfold feedM15
  split
  split <;> exact ⟨rfl, rfl⟩

theorem SameBlocks.trans {e'' : SmcEngine} (h : SameBlocks e e') (h' : SameBlocks e' e'') : SameBlocks e e'' :=
  ⟨h'.1.trans h.1, h'.2.trans h.2⟩

theorem SameBlocks.not_consumes (h : SameBlocks e e') : ¬ Consumes e e' := by
  rintro (hd1 | hh4)
  · exact hd1 (by rw [h.1])
  · exact hh4 (by rw [h.2])

theorem accept_blocks (cfg : SmcConfig) (e : SmcEngine) (c : Candle) :
    let wastes := ∃ m15c event e₁, (e.feed cfg c).feedM15 c = (some (m15c, event), e₁) ∧ e₁.Wastes cfg m15c event
    ((∃ s, (e.accept cfg c).1 = some s ∧ s.kind = .entry) ∧ ¬ wastes) ∨
      ((e.accept cfg c).1 = none ∧ SameBlocks (e.feed cfg c) (e.accept cfg c).2 ∧ ¬ wastes) ∨
      ((e.accept cfg c).1 = none ∧ Consumes (e.feed cfg c) (e.accept cfg c).2 ∧ wastes) := by
  intro wastes
  have hfed := feedM15_blocks (e.feed cfg c) c
  unfold accept decide
  dsimp only
  cases hdone : (e.feed cfg c).feedM15 c with
  | mk done e₁ =>
    rw [hdone] at hfed
    cases done with
    | none =>
      refine Or.inr (Or.inl ⟨rfl, hfed, ?_⟩)
      rintro ⟨m15c, event, e₂, hsome, -⟩
      rw [hdone] at hsome
      cases hsome
    | some bar =>
      obtain ⟨m15c, event⟩ := bar
      have hiff : wastes ↔ e₁.Wastes cfg m15c event := by
        constructor
        · rintro ⟨m15c', event', e₂, hsome, hwastes⟩
          rw [hdone] at hsome
          cases hsome
          exact hwastes
        · exact fun hwastes => ⟨m15c, event, e₁, hdone, hwastes⟩
      have hblocks := onDecision_blocks cfg e₁ m15c event
      dsimp only
      rcases hout : e₁.onDecision cfg m15c event with ⟨sig, e₂⟩
      rw [hout] at hblocks
      cases hblocks with
      | entry sig e' hkind hno => exact Or.inl ⟨⟨sig, rfl, hkind⟩, hiff.not.mpr hno⟩
      | untouched e' hsame hno => exact Or.inr (Or.inl ⟨rfl, hfed.trans hsame, hiff.not.mpr hno⟩)
      | wasted e' hconsumes hwastes =>
        refine Or.inr (Or.inr ⟨rfl, ?_, hiff.mpr hwastes⟩)
        unfold Consumes at *
        rw [← hfed.1, ← hfed.2]
        exact hconsumes

/-- **One call.** Blocks are consumed by trades alone if and only if the call does not waste one. -/
theorem blocksForTrades_iff (cfg : SmcConfig) (e : SmcEngine) (raw : RawCandle) :
    BlocksForTrades cfg e raw ↔ ¬ WastesAt cfg e raw := by
  constructor
  · rintro h ⟨c, hc, hlate, hwastes⟩
    have hout : e.onCandle cfg raw = .ok ((e.accept cfg c).1, (e.accept cfg c).2) := by
      unfold onCandle
      simp only [hc, Except.mapError, ok_bind, hlate, Bool.false_eq_true, if_false]
      rfl
    have hfed : e.fedBy cfg raw = e.feed cfg c := by
      unfold fedBy
      simp only [hc, hlate, Bool.false_eq_true, if_false]
    obtain ⟨-, hkeep⟩ := h _ _ hout
    rw [hfed] at hkeep
    rcases accept_blocks cfg e c with ⟨-, hno⟩ | ⟨-, -, hno⟩ | ⟨hnone, hconsumes, -⟩
    · exact hno hwastes
    · exact hno hwastes
    · exact hkeep (fun s hs => by rw [hnone] at hs; cases hs) hconsumes
  · intro hno sig e' hout
    obtain ⟨c, hc, ⟨hlate, rfl, rfl⟩ | ⟨hlate, haccept⟩⟩ := onCandle_cases hout
    · have hfed : e'.fedBy cfg raw = e' := by
        unfold fedBy
        simp only [hc, hlate, if_true]
      rw [hfed]
      exact ⟨fun hdiff => absurd ⟨rfl, rfl⟩ hdiff, fun _ => SameBlocks.not_consumes ⟨rfl, rfl⟩⟩
    · have hfed : e.fedBy cfg raw = e.feed cfg c := by
        unfold fedBy
        simp only [hc, hlate, Bool.false_eq_true, if_false]
      obtain ⟨rfl, rfl⟩ := Prod.mk.injEq .. |>.mp haccept
      rw [hfed]
      rcases accept_blocks cfg e c with ⟨⟨s, hsig, hkind⟩, -⟩ | ⟨hnone, hsame, -⟩ | ⟨-, -, hwastes⟩
      · exact ⟨fun _ => ⟨s, hsig, hkind⟩, fun hquiet => absurd hkind (hquiet s hsig)⟩
      · exact ⟨fun hdiff => absurd hsame hdiff, fun _ => hsame.not_consumes⟩
      · exact absurd ⟨c, hc, hlate, hwastes⟩ hno

end SmcEngine

/-! ### Runs -/

namespace SmcRun

open SmcEngine

/-- The condition, of the candles of a run. -/
def OnCandles (P : SmcEngine → RawCandle → Prop) (r : SmcRun) : SmcInput → Prop
  | .candle raw => P r.engine raw
  | .forceFlat _ => True

/-- **Order blocks are consumed by trades alone**, in a run whose decisions waste none, and in no other. -/
theorem consumed_by_trades_iff (cfg : SmcConfig) (e : SmcEngine) (inputs : List SmcInput) :
    StepsMeet (step cfg) (OnCandles (BlocksForTrades cfg)) ⟨e, []⟩ inputs ↔
      StepsMeet (step cfg) (OnCandles fun e raw => ¬ WastesAt cfg e raw) ⟨e, []⟩ inputs := by
  have hiff : ∀ (r : SmcRun) (input : SmcInput), OnCandles (BlocksForTrades cfg) r input ↔
      OnCandles (fun e raw => ¬ WastesAt cfg e raw) r input := by
    intro r input
    cases input with
    | candle raw => exact blocksForTrades_iff cfg r.engine raw
    | forceFlat ts => exact Iff.rfl
  exact ⟨fun h => h.mono fun r input => (hiff r input).mp, fun h => h.mono fun r input => (hiff r input).mpr⟩

/-- Bars of one, two and 1440 minutes, no profile within reach, and stops of at most 1. -/
def tightConfig : SmcConfig :=
  ⟨{ triggerTfMin := 1, htfMin := 2, swingLookback := 1, atrPeriod := 1, dispAtrMult := 1 / 10, pocTol := 0,
     minProfileBars := 1000, minConfluences := 1, stopMaxDist := 1 }, by decide +kernel⟩

/-- A swing high at 13, a red bar down to 4, a displacement through the swing, and a bar back into the block. -/
def blockDay : List RawCandle :=
  [EngineRun.minuteBar 0 10 11 9 10, EngineRun.minuteBar 1 10 10 10 10, EngineRun.minuteBar 2 10 13 (19 / 2) 11,
    EngineRun.minuteBar 3 11 11 11 11, EngineRun.minuteBar 4 12 12 4 10, EngineRun.minuteBar 5 10 10 10 10,
    EngineRun.minuteBar 6 10 16 10 16, EngineRun.minuteBar 7 16 16 16 16, EngineRun.minuteBar 8 12 12 11 (23 / 2)]

/-- The candle that completes the bar in the block. -/
def afterBlock : RawCandle := EngineRun.minuteBar 9 11 11 11 11

/-- The block of the red bar is consumed, and the stop behind it is 8 away. -/
theorem block_wasted :
    ¬ ∀ (cfg : SmcConfig) (e : SmcEngine) (inputs : List SmcInput), create cfg = .ok e →
      StepsMeet (step cfg) (OnCandles (BlocksForTrades cfg)) ⟨e, []⟩ inputs := by
  intro h
  have hrun : (create tightConfig).toOption.map (fun e =>
      let r := run (step tightConfig) ⟨e, []⟩ (blockDay.map .candle)
      ((r.engine.onCandle tightConfig afterBlock).toOption.map fun out => (out.1.isNone, out.2.obH4.unmitigated.long.length),
        (r.engine.fedBy tightConfig afterBlock).obH4.unmitigated.long.length)) = some (some (true, 0), 1) := by
    decide +kernel
  cases hcreate : create tightConfig with
  | error text =>
    rw [hcreate] at hrun
    cases hrun
  | ok e =>
    rw [hcreate] at hrun
    obtain ⟨hcall, hfed⟩ := Prod.mk.inj (Option.some.inj hrun)
    have hmeet := h tightConfig e (blockDay.map .candle ++ [.candle afterBlock]) hcreate
    have hlast := hmeet.of_append.2.1
    cases hout : (run (step tightConfig) ⟨e, []⟩ (blockDay.map .candle)).engine.onCandle tightConfig afterBlock with
    | error err =>
      rw [hout] at hcall
      cases hcall
    | ok out =>
      rw [hout] at hcall
      obtain ⟨sig, e'⟩ := out
      obtain ⟨hnone, hgone⟩ := Prod.mk.inj (Option.some.inj hcall)
      refine (hlast sig e' hout).2 (fun s hs => ?_) (Or.inr fun hsame => ?_)
      · rw [hs] at hnone
        cases hnone
      · rw [← hsame, hgone] at hfed
        cases hfed

end SmcRun

end FreqTrading
