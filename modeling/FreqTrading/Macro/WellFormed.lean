import FreqTrading.Macro.Build

/-!
# The built state is well formed

Whatever the sources say, a state that `build_state` returns is one that `MacroState.from_dict` takes, with the same
numbers; its scores are in `[-1, 1]`, its confidence is in `[0, 1]`, and the label of an asset goes with its score. The
one way not to get a state is that a window or the horizon leaves the years of `datetime`.
-/

namespace FreqTrading

namespace Macro

open Lib Macroguard

variable {halving : ℚ → ℚ} {args : Args} {events : List RawEvent} {now : DateTime} {s : State}

/-! ### Layer by layer -/

/-- Scores, risk score and confidence are in range, and the labels go with the scores. -/
structure Scaled (s : State) : Prop where
  assets : ∀ m ∈ s.assets, m.2.Scaled
  riskLower : -1 ≤ s.global.riskScore
  riskUpper : s.global.riskScore ≤ 1
  confLower : 0 ≤ s.global.confidence
  confUpper : s.global.confidence ≤ 1

theorem scoredState_keys : (scoredState halving args events now).assets.map Prod.fst = args.symbols.eraseDups := by
  show (List.map _ _).map Prod.fst = _
  rw [List.map_map]
  exact List.map_id _

theorem scoredState_scaled : Scaled (scoredState halving args events now) := by
  refine ⟨?_, ?_, ?_, ?_, ?_⟩
  · intro m hm
    obtain ⟨sym, -, rfl⟩ := List.mem_map.mp hm
    exact ⟨(round3_clamp_mem _).1, (round3_clamp_mem _).2, rfl⟩
  · exact (round3_clamp_mem _).1
  · exact (round3_clamp_mem _).2
  · exact (round3_mem (by exact_mod_cast round3_int 0) (by exact_mod_cast round3_int 1)
      ⟨le_max_left _ _, max_le (by norm_num) (min_le_left _ _)⟩).1
  · exact (round3_mem (by exact_mod_cast round3_int 0) (by exact_mod_cast round3_int 1)
      ⟨le_max_left _ _, max_le (by norm_num) (min_le_left _ _)⟩).2

theorem round3_half : round3 (1 / 2) = 1 / 2 := by decide +kernel

theorem sentConfidence_le (n : Nat) : sentConfidence n ≤ 1 / 2 := by
  have h := round3_mono (min_le_left sentConfCap (n / sentConfFull * sentConfCap))
  rw [show sentConfCap = 1 / 2 from rfl, round3_half] at h
  exact h

theorem mergeSentiment_keys (agg : Option (List (Text × Sentiment))) :
    (mergeSentiment s agg).assets.map Prod.fst = s.assets.map Prod.fst := by
  cases agg with
  | none => rfl
  | some agg => exact tiltAssets_keys s.assets (sentimentMove agg)

theorem mergeSentiment_scaled (h : Scaled s) (agg : Option (List (Text × Sentiment))) :
    Scaled (mergeSentiment s agg) := by
  cases agg with
  | none => exact h
  | some agg =>
    simp only [mergeSentiment]
    split
    · exact ⟨tiltAssets_scaled h.assets (sentimentMove agg), h.riskLower, h.riskUpper, h.confLower.trans (le_max_left _ _),
        max_le h.confUpper ((sentConfidence_le _).trans (by norm_num))⟩
    · exact ⟨tiltAssets_scaled h.assets (sentimentMove agg), h.riskLower, h.riskUpper, h.confLower, h.confUpper⟩

theorem mergeThematic_keys (theme : Option ThemeResult) :
    (mergeThematic s theme).assets.map Prod.fst = s.assets.map Prod.fst := by
  cases theme with
  | none => rfl
  | some theme =>
    simp only [mergeThematic]
    by_cases hzero : theme.score = 0
    · rw [if_pos hzero]
    · rw [if_neg hzero]
      exact tiltAssets_keys s.assets (themeMove theme)

theorem mergeThematic_scaled (h : Scaled s) {theme : Option ThemeResult}
    (htheme : ∀ r, theme = some r → r.confidence ≤ 1) : Scaled (mergeThematic s theme) := by
  cases theme with
  | none => exact h
  | some theme =>
    simp only [mergeThematic]
    by_cases hzero : theme.score = 0
    · rw [if_pos hzero]
      exact h
    · rw [if_neg hzero]
      exact ⟨tiltAssets_scaled h.assets (themeMove theme), h.riskLower, h.riskUpper, h.confLower.trans (le_max_left _ _),
        max_le h.confUpper (htheme _ rfl)⟩

theorem assessSemis_confidence (momentum : List (Text × Option ℚ)) :
    0 ≤ (assessSemis momentum).confidence ∧ (assessSemis momentum).confidence ≤ 6 / 10 := by
  have hcap : round3 (6 / 10) = 6 / 10 := by decide +kernel
  simp only [assessSemis]
  split
  · norm_num
  · exact round3_mem (by exact_mod_cast round3_int 0) hcap
      ⟨le_min (by norm_num [themeConfCap]) (abs_nonneg _), min_le_left _ _⟩

theorem assess_le (toneNow toneBase volZ : ℚ) (vix : Option ℚ) :
    (assess toneNow toneBase volZ vix).score ≤ 1 ∧ (assess toneNow toneBase volZ vix).confidence ≤ 1 := by
  constructor
  · have h := round3_mono (min_le_left (1 : ℚ)
      ((if toneDropMin ≤ toneBase - toneNow && volZMin ≤ volZ then
          6 / 10 * min 1 ((toneBase - toneNow) / (2 * toneDropMin)) else 0) +
        (if vix.any fun v => vixThreshold ≤ v then
          2 / 10 + 2 / 10 * min 1 ((vix.getD 0 - vixThreshold) / 15) else 0)))
    rw [show round3 1 = 1 by exact_mod_cast round3_int 1] at h
    exact h
  · simp only [assess]
    split
    · norm_num
    · split <;> norm_num

/-- What `merge_geo` does to a state. -/
structure GeoMerged (geo : Option GeoResult) (s s' : State) : Prop where
  generatedAt : s'.generatedAt = s.generatedAt
  ttlSec : s'.ttlSec = s.ttlSec
  global : (s'.global = s.global ∧ s'.assets = s.assets ∧ ∀ g, geo = some g → g.riskOff = false) ∨
    ∃ g, geo = some g ∧ g.riskOff = true ∧ s'.assets = tiltAssets s.assets (geoMove g) ∧
      s'.global.riskScore = round3 (min s.global.riskScore (-g.score)) ∧
      s'.global.confidence = max s.global.confidence g.confidence ∧
      s'.global.blackout.active = (g.warSpike || s.global.blackout.active)

theorem mergeGeo_spec {geo : Option GeoResult} {s' : State} (h : mergeGeo s geo now = .ok s') : GeoMerged geo s s' := by
  cases geo with
  | none =>
    cases h
    exact ⟨rfl, rfl, Or.inl ⟨rfl, rfl, fun g hg => nomatch hg⟩⟩
  | some g =>
    by_cases hrisk : g.riskOff = true
    · simp only [mergeGeo, hrisk, not_true, if_false] at h
      by_cases hspike : g.warSpike = true
      · rw [if_pos hspike] at h
        obtain ⟨until', -, h⟩ := bind_ok.mp h
        cases h
        exact ⟨rfl, rfl, Or.inr ⟨g, rfl, hrisk, rfl, rfl, rfl, by rw [hspike]; rfl⟩⟩
      · rw [if_neg hspike] at h
        cases h
        refine ⟨rfl, rfl, Or.inr ⟨g, rfl, hrisk, rfl, rfl, rfl, ?_⟩⟩
        rw [Bool.not_eq_true] at hspike
        rw [hspike]
        rfl
    · simp only [mergeGeo, hrisk] at h
      cases h
      refine ⟨rfl, rfl, Or.inl ⟨rfl, rfl, ?_⟩⟩
      rintro _ ⟨⟩
      exact Bool.not_eq_true _ ▸ hrisk

theorem GeoMerged.keys {geo : Option GeoResult} {s' : State} (h : GeoMerged geo s s') :
    s'.assets.map Prod.fst = s.assets.map Prod.fst := by
  rcases h.global with ⟨-, hassets, -⟩ | ⟨g, -, -, hassets, -⟩
  · rw [hassets]
  · rw [hassets]
    exact tiltAssets_keys s.assets (geoMove g)

theorem GeoMerged.scaled {geo : Option GeoResult} {s' : State} (h : GeoMerged geo s s') (hs : Scaled s)
    (hgeo : ∀ g, geo = some g → g.score ≤ 1 ∧ g.confidence ≤ 1) : Scaled s' := by
  rcases h.global with ⟨hglobal, hassets, -⟩ | ⟨g, hg, -, hassets, hrisk, hconf, -⟩
  · refine ⟨?_, ?_, ?_, ?_, ?_⟩
    · rw [hassets]
      exact hs.assets
    all_goals rw [hglobal]
    · exact hs.riskLower
    · exact hs.riskUpper
    · exact hs.confLower
    · exact hs.confUpper
  · obtain ⟨hscore, hconfidence⟩ := hgeo g hg
    have hround := round3_mem (x := min s.global.riskScore (-g.score)) (by exact_mod_cast round3_int (-1))
      (by exact_mod_cast round3_int 1)
      ⟨le_min hs.riskLower (by linarith), (min_le_left _ _).trans hs.riskUpper⟩
    refine ⟨?_, ?_, ?_, ?_, ?_⟩
    · rw [hassets]
      exact tiltAssets_scaled hs.assets (geoMove g)
    · rw [hrisk]
      exact hround.1
    · rw [hrisk]
      exact hround.2
    · rw [hconf]
      exact hs.confLower.trans (le_max_left _ _)
    · rw [hconf]
      exact max_le hs.confUpper hconfidence

/-! ### When there is a state -/

/-- No window of a high-impact event, and not the horizon, leaves the years of `datetime`. -/
structure Fits (args : Args) (events : List RawEvent) (now : DateTime) : Prop where
  horizon : InRange (now.us + horizonH * 60 * microsPerMinute)
  windows : ∀ ev ∈ events, ev.impact = .high →
    InRange (ev.ts.us - args.preMin * microsPerMinute) ∧ InRange (ev.ts.us + args.postMin * microsPerMinute)

theorem add_ok_iff (t : DateTime) (us : Int) : (∃ u, t.add us = .ok u) ↔ InRange (t.us + us) := by
  unfold DateTime.add
  by_cases h : InRange (t.us + us)
  · rw [dif_pos h]
    exact iff_of_true ⟨_, rfl⟩ h
  · rw [dif_neg h]
    exact iff_of_false (fun ⟨u, hu⟩ => nomatch hu) h

theorem add_us {t u : DateTime} {us : Int} (h : t.add us = .ok u) : u.us = t.us + us := by
  unfold DateTime.add at h
  by_cases hin : InRange (t.us + us)
  · rw [dif_pos hin] at h
    cases h
    rfl
  · rw [dif_neg hin] at h
    cases h

theorem addHit_ok_iff (preMin postMin : Int) (impacts : List Impact) (found : List (DateTime × Text)) (ev : RawEvent) :
    (∃ found', addHit now preMin postMin impacts found ev = .ok found') ↔
      (ev.impact ∈ impacts →
        InRange (ev.ts.us - preMin * microsPerMinute) ∧ InRange (ev.ts.us + postMin * microsPerMinute)) := by
  unfold addHit
  by_cases himpact : ev.impact ∈ impacts
  · rw [if_neg (not_not.mpr himpact), sub_eq_add_neg, ← add_ok_iff, ← add_ok_iff]
    constructor
    · rintro ⟨found', h⟩ -
      obtain ⟨start, hstart, h⟩ := bind_ok.mp h
      obtain ⟨stop, hstop, -⟩ := bind_ok.mp h
      exact ⟨⟨start, hstart⟩, stop, hstop⟩
    · intro h
      obtain ⟨⟨start, hstart⟩, stop, hstop⟩ := h himpact
      exact ⟨_, bind_ok.mpr ⟨start, hstart, bind_ok.mpr ⟨stop, hstop, rfl⟩⟩⟩
  · rw [if_pos himpact]
    exact iff_of_true ⟨found, rfl⟩ fun hmem => absurd hmem himpact

theorem activeBlackout_ok_iff (preMin postMin : Int) (impacts : List Impact) :
    (∃ bo, activeBlackout events now preMin postMin impacts = .ok bo) ↔
      ∀ ev ∈ events, ev.impact ∈ impacts →
        InRange (ev.ts.us - preMin * microsPerMinute) ∧ InRange (ev.ts.us + postMin * microsPerMinute) := by
  rw [← foldlM_ok_iff (addHit_ok_iff preMin postMin impacts) events []]
  unfold activeBlackout
  constructor
  · rintro ⟨bo, h⟩
    obtain ⟨found, hfound, -⟩ := bind_ok.mp h
    exact ⟨found, hfound⟩
  · rintro ⟨found, hfound⟩
    rw [hfound, ok_bind]
    cases found with
    | nil => exact ⟨_, rfl⟩
    | cons hit rest => exact ⟨_, rfl⟩

theorem upcomingEvents_ok_iff (preMin postMin : Int) :
    (∃ rows, upcomingEvents events now preMin postMin = .ok rows) ↔
      InRange (now.us + horizonH * 60 * microsPerMinute) := by
  rw [← add_ok_iff]
  unfold upcomingEvents
  constructor
  · rintro ⟨rows, h⟩
    obtain ⟨horizon, hhorizon, -⟩ := bind_ok.mp h
    exact ⟨horizon, hhorizon⟩
  · rintro ⟨horizon, hhorizon⟩
    exact ⟨_, bind_ok.mpr ⟨horizon, hhorizon, rfl⟩⟩

theorem mergeGeo_ok (s : State) (geo : Option GeoResult) (h : InRange (now.us + horizonH * 60 * microsPerMinute)) :
    ∃ s', mergeGeo s geo now = .ok s' := by
  have hnow := now.inRange
  have hcooldown : InRange (now.us + cooldown) := by
    unfold InRange horizonH microsPerMinute at *
    unfold cooldown
    omega
  obtain ⟨until', huntil⟩ := (add_ok_iff now cooldown).mpr hcooldown
  cases geo with
  | none => exact ⟨s, rfl⟩
  | some geo =>
    simp only [mergeGeo, huntil, ok_bind]
    split
    · exact ⟨s, rfl⟩
    · split <;> exact ⟨_, rfl⟩

theorem finish_ok_iff (s : State) (geo : Option GeoResult) :
    (∃ s', finish args events now geo s = .ok s') ↔ Fits args events now := by
  unfold finish
  constructor
  · rintro ⟨s', h⟩
    obtain ⟨bo, hbo, h⟩ := bind_ok.mp h
    obtain ⟨rows, hrows, -⟩ := bind_ok.mp h
    refine ⟨(upcomingEvents_ok_iff _ _).mp ⟨rows, hrows⟩, fun ev hev himpact => ?_⟩
    exact (activeBlackout_ok_iff _ _ _).mp ⟨bo, hbo⟩ ev hev (by simp [defaultImpacts, himpact])
  · intro h
    obtain ⟨rows, hrows⟩ : ∃ rows, upcomingEvents events now args.preMin args.postMin = .ok rows :=
      (upcomingEvents_ok_iff _ _).mpr h.horizon
    obtain ⟨bo, hbo⟩ : ∃ bo, activeBlackout events now args.preMin args.postMin defaultImpacts = .ok bo :=
      (activeBlackout_ok_iff _ _ _).mpr fun ev hev himpact =>
        h.windows ev hev (by simpa [defaultImpacts] using himpact)
    rw [hbo, ok_bind, hrows, ok_bind]
    exact mergeGeo_ok _ geo h.horizon

/-! ### What the guard parses -/

/-- An asset as `from_dict` reads it. -/
def viewOf (a : AssetState) : AssetView where
  bias := .str a.bias.text
  score := .fin a.score
  horizon := .str "intraday".toList
  drivers := a.drivers.map .str

/-- The state as `from_dict` reads it, with the time that its stamp says. -/
def parsed (s : State) (generatedAt : DateTime) : MacroState where
  schemaVersion := schemaVersion
  generatedAt := generatedAt
  ttlSec := s.ttlSec
  riskRegime := .str s.global.riskRegime.text
  riskScore := .fin s.global.riskScore
  confidence := .fin s.global.confidence
  blackout :=
    { active := s.global.blackout.active
      until' := orNull s.global.blackout.until'
      reason := orNull s.global.blackout.reason }
  assets := s.assets.foldl (fun assets m => put assets (keyOf (upper m.1)) (viewOf m.2)) []

theorem addAsset_toPy (assets : List (Key × AssetView)) (sym : Text) (a : AssetState) :
    addAsset assets (keyOf sym, a.toPy) = .ok (put assets (keyOf (upper sym)) (viewOf a)) := by
  have hdrivers : ((Py.list (a.drivers.map .str)).or (.list [])).tuple = .ok (a.drivers.map .str) := by
    cases a.drivers <;> rfl
  have hbias : a.toPy.get "bias".toList (.str "neutral".toList) = .ok (.str a.bias.text) := rfl
  have hscore : a.toPy.get "score".toList (.float (.fin 0)) = .ok (.float (.fin a.score)) := rfl
  have hhorizon : a.toPy.get "horizon".toList (.str "intraday".toList) = .ok (.str "intraday".toList) := rfl
  have hget : a.toPy.get "drivers".toList (.list []) = .ok (.list (a.drivers.map .str)) := rfl
  unfold addAsset
  simp only [hbias, hscore, hhorizon, hget, ok_bind, hdrivers, upperKey_keyOf]
  rfl

theorem addAssets_toPy (rows : List (Text × AssetState)) (assets : List (Key × AssetView)) :
    (rows.map fun m => (keyOf m.1, m.2.toPy)).foldlM addAsset assets =
      .ok (rows.foldl (fun assets m => put assets (keyOf (upper m.1)) (viewOf m.2)) assets) := by
  induction rows generalizing assets with
  | nil => rfl
  | cons m rows ih =>
    rw [List.map_cons, List.foldlM_cons, addAsset_toPy, ok_bind, ih, List.foldl_cons]

theorem fromDict_toPy {t : DateTime} (h : parseTs s.generatedAt = .ok t) : fromDict s.toPy = .ok (parsed s t) := by
  have hglobal : s.toPy.get "global".toList (.dict []) = .ok s.global.toPy := rfl
  have hblackout : s.global.toPy.get "blackout".toList (.dict []) = .ok s.global.blackout.toPy := rfl
  have hassets : s.toPy.get "assets".toList (.dict []) = .ok (.dict (s.assets.map fun m => (keyOf m.1, m.2.toPy))) :=
    congrArg (fun ms => Except.ok (Py.dict ms)) (List.map_map ..)
  have hitems : ((Py.dict (s.assets.map fun m => (keyOf m.1, m.2.toPy))).or (.dict [])).items =
      .ok (s.assets.map fun m => (keyOf m.1, m.2.toPy)) := by
    cases s.assets <;> rfl
  have hschema : s.toPy.get "schema_version".toList (.int 0) = .ok (.int schemaVersion) := rfl
  have hstamp : parseGeneratedAt s.toPy = .ok t := h
  have httl : s.toPy.get "ttl_sec".toList (.int 0) = .ok (.int s.ttlSec) := rfl
  have hregime : s.global.toPy.get "risk_regime".toList (.str "neutral".toList) =
      .ok (.str s.global.riskRegime.text) := rfl
  have hrisk : s.global.toPy.get "risk_score".toList (.float (.fin 0)) = .ok (.float (.fin s.global.riskScore)) := rfl
  have hconf : s.global.toPy.get "confidence".toList (.float (.fin 0)) = .ok (.float (.fin s.global.confidence)) := rfl
  have hor : s.global.blackout.toPy.or (.dict []) = s.global.blackout.toPy := rfl
  have hactive : s.global.blackout.toPy.get "active".toList (.bool false) = .ok (.bool s.global.blackout.active) := rfl
  have huntil : s.global.blackout.toPy.get "until".toList .null = .ok (orNull s.global.blackout.until') := rfl
  have hreason : s.global.blackout.toPy.get "reason".toList .null = .ok (orNull s.global.blackout.reason) := rfl
  unfold fromDict
  simp only [hglobal, hblackout, hassets, hitems, addAssets_toPy, hschema, hstamp, httl, hregime, hrisk, hconf, hor,
    hactive, huntil, hreason, ok_bind, Py.toInt, Py.toFloat]
  rfl

theorem replaceZ_append (cs ds : Text) : replaceZ (cs ++ ds) = replaceZ cs ++ replaceZ ds := List.flatMap_append

theorem replaceZ_of_notMem {cs : Text} (h : 'Z' ∉ cs) : replaceZ cs = cs := by
  induction cs with
  | nil => rfl
  | cons c cs ih =>
    rw [List.mem_cons, not_or] at h
    show (if c = 'Z' then _ else [c]) ++ replaceZ cs = _
    rw [if_neg (Ne.symm h.1), ih h.2]
    rfl

theorem padded_notMem (width n : Nat) {c : Char} (hc : c.isDigit = false) : c ∉ padded width n := by
  intro hmem
  rw [padded_digits width n c hmem] at hc
  cases hc

theorem parseTs_isoText (t : DateTime) : ∃ u, parseTs (t.isoText ['Z']) = .ok u ∧ u.us = t.floorSecond := by
  have hreplace : replaceZ (t.isoText ['Z']) = t.isoText "+00:00".toList := by
    have hdate : 'Z' ∉ t.dateText ++ 'T' :: t.clockText := by
      simp [DateTime.dateText, DateTime.clockText, padded_notMem _ _ (show 'Z'.isDigit = false by decide)]
    have hsplit (zone : Text) : t.isoText zone = (t.dateText ++ 'T' :: t.clockText) ++ zone := by
      simp [DateTime.isoText_eq]
    rw [hsplit, hsplit, replaceZ_append, replaceZ_of_notMem hdate]
    rfl
  have hrange : InRange (t.floorSecond - 0) := by
    have h := t.inRange
    unfold InRange microsPerDay epochDays maxOrdinal at *
    unfold DateTime.floorSecond microsPerSecond
    omega
  refine ⟨⟨t.floorSecond - 0, hrange⟩, ?_, sub_zero _⟩
  unfold parseTs
  rw [hreplace, fromisoformat_isoText]
  exact dif_pos hrange

/-! ### The pipeline -/

theorem finish_spec {geo : Option GeoResult} {s' : State} (h : finish args events now geo s = .ok s') :
    ∃ bo rows, activeBlackout events now args.preMin args.postMin defaultImpacts = .ok bo ∧
      GeoMerged geo
        { s with global := { s.global with blackout := bo.getD s.global.blackout }, events := rows } s' := by
  unfold finish at h
  obtain ⟨bo, hbo, h⟩ := bind_ok.mp h
  obtain ⟨rows, -, h⟩ := bind_ok.mp h
  exact ⟨bo, rows, hbo, mergeGeo_spec h⟩

theorem mergeSentiment_stamp (agg : Option (List (Text × Sentiment))) :
    (mergeSentiment s agg).generatedAt = s.generatedAt := by
  cases agg <;> rfl

theorem mergeThematic_stamp (theme : Option ThemeResult) : (mergeThematic s theme).generatedAt = s.generatedAt := by
  cases theme with
  | none => rfl
  | some theme =>
    simp only [mergeThematic]
    split <;> rfl

theorem buildState_parsed {geo : Option GeoResult} {agg : Option (List (Text × Sentiment))} {theme : Option ThemeResult}
    (h : buildState halving args events now geo agg theme = .ok s) :
    ∃ t, fromDict s.toPy = .ok (parsed s t) ∧ t.us = now.floorSecond := by
  obtain ⟨bo, rows, -, hmerged⟩ := finish_spec h
  have hstamp : s.generatedAt = now.isoText ['Z'] := by
    rw [hmerged.generatedAt]
    simp only [mergeThematic_stamp, mergeSentiment_stamp]
    rfl
  obtain ⟨t, ht, hus⟩ := parseTs_isoText now
  exact ⟨t, fromDict_toPy (by rw [hstamp, ht]), hus⟩

theorem foldl_put (rows : List (Text × AssetState)) (assets : List (Key × AssetView))
    (hupper : ∀ m ∈ rows, upper m.1 = m.1) (hnodup : (assets.map Prod.fst ++ rows.map fun m => keyOf m.1).Nodup) :
    rows.foldl (fun assets m => put assets (keyOf (upper m.1)) (viewOf m.2)) assets =
      assets ++ rows.map fun m => (keyOf m.1, viewOf m.2) := by
  induction rows generalizing assets with
  | nil => simp
  | cons m rows ih =>
    have hfresh : ¬assets.any (·.1 = keyOf m.1) := by
      intro hany
      obtain ⟨x, hx, heq⟩ := List.any_eq_true.mp hany
      rw [List.map_cons, List.nodup_append] at hnodup
      exact hnodup.2.2 x.1 (List.mem_map_of_mem hx) (keyOf m.1) List.mem_cons_self (of_decide_eq_true heq)
    rw [List.foldl_cons, hupper m List.mem_cons_self, put, if_neg hfresh,
      ih _ (fun m' hm' => hupper m' (List.mem_cons_of_mem _ hm')) (by simpa using hnodup)]
    simp

/-- The numbers of a state as the guard has them. -/
structure Unchanged (now : DateTime) (s : State) (ms : MacroState) : Prop where
  assets : ms.assets = s.assets.map fun m => (keyOf m.1, viewOf m.2)
  confidence : ms.confidence = .fin s.global.confidence
  riskScore : ms.riskScore = .fin s.global.riskScore
  active : ms.blackout.active = s.global.blackout.active
  until' : ms.blackout.until' = orNull s.global.blackout.until'
  reason : ms.blackout.reason = orNull s.global.blackout.reason
  generatedAt : ms.generatedAt.us = now.floorSecond

/-- The readings that geopolitics are assessed on. -/
structure Readings where
  toneNow : ℚ
  toneBase : ℚ
  volZ : ℚ
  vix : Option ℚ := none

def Readings.assess (r : Readings) : GeoResult := Macro.assess r.toneNow r.toneBase r.volZ r.vix

/-- **The output of the pipeline is well formed**, and there is one whenever no date leaves the years of `datetime`. -/
theorem buildState_wellFormed (halving : ℚ → ℚ) (args : Args) (events : List RawEvent) (now : DateTime)
    (readings : Option Readings) (news : Option (List Headline × DateTime))
    (momentum : Option (List (Text × Option ℚ))) :
    let args := { args with symbols := defaultSymbols }
    let built := buildState halving args events now (readings.map Readings.assess)
      (news.map fun (headlines, t) => aggregate halving headlines t defaultSymbols) (momentum.map assessSemis)
    ((∃ s, built = .ok s) ↔ Fits args events now) ∧
      ∀ s, built = .ok s → Scaled s ∧ ∃ ms, fromDict s.toPy = .ok ms ∧ Unchanged now s ms := by
  intro args built
  refine ⟨finish_ok_iff _ _, fun s hs => ?_⟩
  obtain ⟨bo, rows, -, hmerged⟩ := finish_spec hs
  have htheme : ∀ r, momentum.map assessSemis = some r → r.confidence ≤ 1 := by
    intro r hr
    obtain ⟨m, -, rfl⟩ := Option.map_eq_some_iff.mp hr
    exact (assessSemis_confidence m).2.trans (by norm_num)
  have hscored : Scaled (scoredState halving args events now) := scoredState_scaled
  have hscaled := mergeThematic_scaled (mergeSentiment_scaled hscored
    (news.map fun (headlines, t) => aggregate halving headlines t defaultSymbols)) htheme
  have hgeo : ∀ g, readings.map Readings.assess = some g → g.score ≤ 1 ∧ g.confidence ≤ 1 := by
    intro g hg
    obtain ⟨r, -, rfl⟩ := Option.map_eq_some_iff.mp hg
    exact assess_le _ _ _ _
  have hkeys : s.assets.map Prod.fst = defaultSymbols := by
    rw [hmerged.keys]
    simp only [mergeThematic_keys, mergeSentiment_keys, scoredState_keys]
    show defaultSymbols.eraseDups = defaultSymbols
    decide
  refine ⟨hmerged.scaled ⟨hscaled.assets, hscaled.riskLower, hscaled.riskUpper, hscaled.confLower,
    hscaled.confUpper⟩ hgeo, ?_⟩
  obtain ⟨t, hparsed, ht⟩ := buildState_parsed hs
  refine ⟨_, hparsed, ?_, rfl, rfl, rfl, rfl, rfl, ht⟩
  have hupper : ∀ m ∈ s.assets, upper m.1 = m.1 := by
    intro m hm
    have hmem : m.1 ∈ defaultSymbols := hkeys ▸ List.mem_map_of_mem hm
    have hall : ∀ sym ∈ defaultSymbols, upper sym = sym := by decide
    exact hall _ hmem
  have hnodup : (([] : List (Key × AssetView)).map Prod.fst ++ s.assets.map fun m => keyOf m.1).Nodup := by
    rw [show (fun m : Text × AssetState => keyOf m.1) = keyOf ∘ Prod.fst from rfl, ← List.map_map, hkeys]
    decide
  exact foldl_put s.assets [] hupper hnodup

/-- The first moment of the last day that `datetime` has. -/
def lastDay : DateTime := ⟨(maxOrdinal - epochDays - 1) * microsPerDay, by decide⟩

/-- **A time without a state.** On the last day of the year 9999 the horizon is out of range: `build_state` raises. -/
theorem lastDay_raises :
    buildState (fun _ => 1) {} [] lastDay none none none = .error .overflowError ∧
      ¬∃ s, buildState (fun _ => 1) {} [] lastDay none none none = .ok s := by
  have hraises : buildState (fun _ => 1) {} [] lastDay none none none = .error .overflowError := rfl
  refine ⟨hraises, ?_⟩
  rintro ⟨s, hs⟩
  rw [hraises] at hs
  cases hs

end Macro

end FreqTrading
