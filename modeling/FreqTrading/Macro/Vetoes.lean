import FreqTrading.Macro.WellFormed

/-!
# Which source can veto an entry

Two laws about the entry decision on a built state, over what the sources make of the state (`Shows`). Headlines alone
never veto: a merge of sentiment leaves the confidence at the cap at most. And the theme, which tilts the indices only,
reaches the metals nevertheless, since the confidence is one for all assets: `themeSilent_iff` says exactly when it does
not.
-/

namespace FreqTrading

namespace Macro

open Lib Macroguard

variable {halving : ℚ → ℚ} {args : Args} {events : List RawEvent} {now t : DateTime} {geo : Option GeoResult} {s : State}
  {confMin : ℚ}

/-! ### What the sources make of a state -/

/-- The geopolitical result that tilts, if there is one. -/
def tilting (geo : Option GeoResult) : Option GeoResult := geo.filter GeoResult.riskOff

/-- A state built at `now` is stale at `t`. -/
def Expired (args : Args) (now t : DateTime) : Prop :=
  args.ttlSec ≤ 0 ∨ (args.ttlSec : ℚ) < ((t.us - now.floorSecond : Int) : ℚ) / microsPerSecond

/-- `now` is in the window of an event. -/
def InWindow (args : Args) (now : DateTime) (ev : RawEvent) : Prop :=
  ev.ts.us - args.preMin * microsPerMinute ≤ now.us ∧ now.us ≤ ev.ts.us + args.postMin * microsPerMinute

/-- An event or a war spike puts a blackout on. -/
def Blocked (args : Args) (events : List RawEvent) (now : DateTime) (geo : Option GeoResult) : Prop :=
  (∃ ev ∈ events, ev.impact ∈ defaultImpacts ∧ InWindow args now ev) ∨ ∃ g, tilting geo = some g ∧ g.warSpike = true

/-- A state, or geopolitics, has the confidence. -/
def Reached (geo : Option GeoResult) (s : State) (confMin : ℚ) : Prop :=
  confMin ≤ s.global.confidence ∨ ∃ g, tilting geo = some g ∧ confMin ≤ g.confidence

/-- The assets after `merge_geo`, as the guard has them. -/
def views (geo : Option GeoResult) (s : State) : List (Key × AssetView) :=
  let assets := (tilting geo).elim s.assets fun g => tiltAssets s.assets (geoMove g)
  assets.foldl (fun assets m => put assets (keyOf (upper m.1)) (viewOf m.2)) []

theorem addHit_hits {preMin postMin : Int} {impacts : List Impact} {found found' : List (DateTime × Text)} {ev : RawEvent}
    (h : addHit now preMin postMin impacts found ev = .ok found') :
    found' ≠ [] ↔ found ≠ [] ∨ ev.impact ∈ impacts ∧
      ev.ts.us - preMin * microsPerMinute ≤ now.us ∧ now.us ≤ ev.ts.us + postMin * microsPerMinute := by
  unfold addHit at h
  by_cases himpact : ev.impact ∈ impacts
  · rw [if_neg (not_not.mpr himpact)] at h
    obtain ⟨start, hstart, h⟩ := bind_ok.mp h
    obtain ⟨stop, hstop, h⟩ := bind_ok.mp h
    have hstart := add_us hstart
    have hstop := add_us hstop
    cases h
    by_cases hin : start.us ≤ now.us ∧ now.us ≤ stop.us
    · rw [if_pos hin]
      exact iff_of_true (by simp) (Or.inr ⟨himpact, by omega, by omega⟩)
    · rw [if_neg hin]
      constructor
      · exact Or.inl
      · rintro (hfound | ⟨-, hlo, hhi⟩)
        · exact hfound
        · exact absurd ⟨by omega, by omega⟩ hin
  · rw [if_pos himpact] at h
    cases h
    exact ⟨Or.inl, fun h => h.resolve_right fun hin => himpact hin.1⟩

theorem activeBlackout_active {bo : Option BlackoutState}
    (h : activeBlackout events now args.preMin args.postMin defaultImpacts = .ok bo) (b : BlackoutState) :
    (bo.getD b).active = true ↔
      (∃ ev ∈ events, ev.impact ∈ defaultImpacts ∧ InWindow args now ev) ∨ b.active = true := by
  unfold activeBlackout at h
  obtain ⟨found, hfound, h⟩ := bind_ok.mp h
  have hhits : found ≠ [] ↔ _ := (foldlM_found_iff (fun _ _ _ h => addHit_hits h) hfound).trans
    (or_iff_right (not_not.mpr rfl))
  cases found with
  | nil =>
    cases h
    exact (or_iff_right (mt hhits.mpr (not_not.mpr rfl))).symm
  | cons hit rest =>
    cases h
    exact iff_of_true rfl (Or.inl (hhits.mp (List.cons_ne_nil _ _)))

theorem tilting_eq_none (h : ∀ g, geo = some g → g.riskOff = false) : tilting geo = none := by
  unfold tilting
  cases geo with
  | none => rfl
  | some g => simp [Option.filter, h g rfl]

theorem tilting_eq_some {g : GeoResult} (h : g.riskOff = true) : tilting (some g) = some g := by
  unfold tilting
  simp [Option.filter, h]

/-- What a state says, by its sources: `s` is the state after the thematic layer. -/
structure Shows (args : Args) (events : List RawEvent) (now : DateTime) (geo : Option GeoResult) (s : State)
    (ms : MacroState) : Prop where
  stale : ∀ t, ms.isStale t = true ↔ Expired args now t
  blackout : ms.blackout.active = true ↔ Blocked args events now geo
  confidence : ∀ c, (PyFloat.fin c).le ms.confidence = true ↔ Reached geo s c
  assets : ms.assets = views geo s

theorem GeoMerged.reached {s' : State} (h : GeoMerged geo s s') (c : ℚ) :
    c ≤ s'.global.confidence ↔ Reached geo s c := by
  rcases h.global with ⟨hglobal, -, hoff⟩ | ⟨g, rfl, hrisk, -, -, hconf, -⟩
  · rw [hglobal, Reached, tilting_eq_none hoff]
    simp
  · rw [hconf, Reached, tilting_eq_some hrisk, le_max_iff]
    simp

theorem GeoMerged.views {s' : State} (h : GeoMerged geo s s') :
    s'.assets.foldl (fun assets m => put assets (keyOf (upper m.1)) (viewOf m.2)) [] = Macro.views geo s := by
  unfold Macro.views
  rcases h.global with ⟨-, hassets, hoff⟩ | ⟨g, rfl, hrisk, hassets, -⟩
  · rw [hassets, tilting_eq_none hoff]
    rfl
  · rw [hassets, tilting_eq_some hrisk]
    rfl

theorem GeoMerged.active {s' : State} (h : GeoMerged geo s s') :
    s'.global.blackout.active = true ↔
      s.global.blackout.active = true ∨ ∃ g, tilting geo = some g ∧ g.warSpike = true := by
  rcases h.global with ⟨hglobal, -, hoff⟩ | ⟨g, rfl, hrisk, -, -, -, hactive⟩
  · rw [hglobal, tilting_eq_none hoff]
    simp
  · rw [hactive, tilting_eq_some hrisk, Bool.or_eq_true, or_comm]
    simp

theorem isStale_iff {ms : MacroState} (hus : ms.generatedAt.us = now.floorSecond) (httl : ms.ttlSec = args.ttlSec) :
    ms.isStale t = true ↔ Expired args now t := by
  unfold MacroState.isStale MacroState.ageSec DateTime.secondsSince Expired
  rw [Bool.or_eq_true, decide_eq_true_iff, decide_eq_true_iff, hus, httl]

/-- A layer before the blackout leaves the rest of the state alone. -/
structure Rest (s s' : State) : Prop where
  ttlSec : s'.ttlSec = s.ttlSec
  blackout : s'.global.blackout = s.global.blackout

theorem mergeSentiment_rest (s : State) (agg : Option (List (Text × Sentiment))) : Rest s (mergeSentiment s agg) := by
  cases agg with
  | none => exact ⟨rfl, rfl⟩
  | some agg =>
    simp only [mergeSentiment]
    split <;> exact ⟨rfl, rfl⟩

theorem mergeThematic_rest (s : State) (theme : Option ThemeResult) : Rest s (mergeThematic s theme) := by
  cases theme with
  | none => exact ⟨rfl, rfl⟩
  | some theme =>
    simp only [mergeThematic]
    split <;> exact ⟨rfl, rfl⟩

/-- The state before the thematic layer. -/
def untilTheme (halving : ℚ → ℚ) (args : Args) (events : List RawEvent) (now : DateTime)
    (agg : Option (List (Text × Sentiment))) : State :=
  mergeSentiment (scoredState halving args events now) agg

theorem builtState_shows {agg : Option (List (Text × Sentiment))} {theme : Option ThemeResult} {ms : MacroState}
    (h : builtState halving args events now geo agg theme = .ok ms) :
    Shows args events now geo (mergeThematic (untilTheme halving args events now agg) theme) ms := by
  obtain ⟨s', hs', hparsed⟩ := bind_ok.mp h
  obtain ⟨t', hparsed', hus⟩ := buildState_parsed hs'
  rw [hparsed'] at hparsed
  cases hparsed
  obtain ⟨bo, rows, hbo, hmerged⟩ := finish_spec hs'
  have hsentiment := mergeSentiment_rest (scoredState halving args events now) agg
  have htheme := mergeThematic_rest (mergeSentiment (scoredState halving args events now) agg) theme
  have httl : s'.ttlSec = args.ttlSec := by
    rw [hmerged.ttlSec]
    exact htheme.ttlSec.trans hsentiment.ttlSec
  refine ⟨fun t => isStale_iff hus httl, ?_, fun c => ?_, hmerged.views⟩
  · refine hmerged.active.trans (or_congr_left ?_)
    rw [activeBlackout_active hbo, htheme.blackout, hsentiment.blackout]
    exact or_iff_left (fun h => nomatch h)
  · exact decide_eq_true_iff.trans (hmerged.reached c)

theorem exists_builtState (halving : ℚ → ℚ) (geo : Option GeoResult) (hfits : Fits args events now)
    (agg : Option (List (Text × Sentiment))) (theme : Option ThemeResult) :
    ∃ ms, builtState halving args events now geo agg theme = .ok ms := by
  obtain ⟨s', hs'⟩ := (finish_ok_iff (mergeThematic (untilTheme halving args events now agg) theme) geo).mpr hfits
  obtain ⟨t', hparsed, -⟩ := buildState_parsed hs'
  exact ⟨_, bind_ok.mpr ⟨s', hs', hparsed⟩⟩

theorem fits_of_builtState {agg : Option (List (Text × Sentiment))} {theme : Option ThemeResult} {ms : MacroState}
    (h : builtState halving args events now geo agg theme = .ok ms) : Fits args events now := by
  obtain ⟨s', hs', -⟩ := bind_ok.mp h
  exact (finish_ok_iff _ _).mp ⟨s', hs'⟩

/-! ### What the theme adds -/

/-- The theme is merged with at least this confidence. -/
def Raised (theme : Option ThemeResult) (confMin : ℚ) : Prop :=
  ∃ r, theme = some r ∧ r.score ≠ 0 ∧ confMin ≤ r.confidence

theorem reached_mergeThematic (s : State) (theme : Option ThemeResult) (c : ℚ) :
    Reached geo (mergeThematic s theme) c ↔ Reached geo s c ∨ Raised theme c := by
  have hconf : c ≤ (mergeThematic s theme).global.confidence ↔ c ≤ s.global.confidence ∨ Raised theme c := by
    unfold Raised
    cases theme with
    | none => simp [mergeThematic]
    | some r =>
      simp only [mergeThematic]
      by_cases hzero : r.score = 0
      · rw [if_pos hzero]
        simp [hzero]
      · rw [if_neg hzero]
        simp [hzero]
  unfold Reached
  rw [hconf, or_right_comm]

/-- The assets that a theme is not about. -/
def metals : List Text := ["XAUUSD".toList, "XAGUSD".toList]

theorem themeMove_metal (theme : ThemeResult) {sym metal : Text} (hmetal : metal ∈ metals) (h : upper sym = metal) :
    themeMove theme sym = none := by
  have hus100 : upper "US100".toList ∉ metals := by decide
  have hus500 : upper "US500".toList ∉ metals := by decide
  have hne100 : sym ≠ "US100".toList := by
    rintro rfl
    exact hus100 (h ▸ hmetal)
  have hne500 : sym ≠ "US500".toList := by
    rintro rfl
    exact hus500 (h ▸ hmetal)
  rw [themeMove, themeWeight, if_neg hne100, if_neg hne500]
  rfl

/-- Two rows of assets that the guard cannot tell apart under a key. -/
def Agree (key : Text) (m m' : Text × AssetState) : Prop := m.1 = m'.1 ∧ (upper m.1 = key → m.2 = m'.2)

theorem lookup_foldl_put {key : Text} {rows rows' : List (Text × AssetState)} (h : List.Forall₂ (Agree key) rows rows')
    {assets assets' : List (Key × AssetView)} (hassets : assets.lookup (keyOf key) = assets'.lookup (keyOf key)) :
    (rows.foldl (fun assets m => put assets (keyOf (upper m.1)) (viewOf m.2)) assets).lookup (keyOf key) =
      (rows'.foldl (fun assets m => put assets (keyOf (upper m.1)) (viewOf m.2)) assets').lookup (keyOf key) := by
  induction h generalizing assets assets' with
  | nil => exact hassets
  | cons hm _ ih =>
    rename_i m m' _ _ _
    refine ih ?_
    rw [lookup_put, lookup_put, ← hm.1]
    by_cases hkey : keyOf key = keyOf (upper m.1)
    · rw [if_pos hkey, if_pos hkey, hm.2 (keyOf_injective hkey).symm]
    · rw [if_neg hkey, if_neg hkey, hassets]

theorem tiltAssets_agree {key : Text} {rows rows' : List (Text × AssetState)} (h : List.Forall₂ (Agree key) rows rows')
    (move : Text → Option (ℚ × List Text)) :
    List.Forall₂ (Agree key) (tiltAssets rows move) (tiltAssets rows' move) := by
  unfold tiltAssets
  rw [List.forall₂_map_left_iff, List.forall₂_map_right_iff]
  refine h.imp fun m m' hm => ?_
  rw [← hm.1]
  cases move m.1 with
  | none => exact hm
  | some d => exact ⟨hm.1 ▸ rfl, fun hkey => by simp only [hm.2 hkey]⟩

theorem mergeThematic_agree {metal : Text} (hmetal : metal ∈ metals) (s : State) (theme : Option ThemeResult) :
    List.Forall₂ (Agree metal) (mergeThematic s theme).assets s.assets := by
  have hrefl (rows : List (Text × AssetState)) : List.Forall₂ (Agree metal) rows rows :=
    List.forall₂_same.mpr fun m _ => ⟨rfl, fun _ => rfl⟩
  cases theme with
  | none => exact hrefl s.assets
  | some theme =>
    simp only [mergeThematic]
    by_cases hzero : theme.score = 0
    · rw [if_pos hzero]
      exact hrefl s.assets
    · rw [if_neg hzero]
      show List.Forall₂ _ (tiltAssets s.assets (themeMove theme)) s.assets
      unfold tiltAssets
      rw [List.forall₂_map_left_iff, List.forall₂_same]
      intro m _
      cases hmove : themeMove theme m.1 with
      | none => exact ⟨rfl, fun _ => rfl⟩
      | some d =>
        refine ⟨rfl, fun hkey => ?_⟩
        rw [themeMove_metal theme hmetal hkey] at hmove
        cases hmove

/-- **The theme moves no metal:** the guard has the same view of it. -/
theorem lookup_mergeThematic {metal : Text} (hmetal : metal ∈ metals) (s : State) (theme : Option ThemeResult) :
    (views geo (mergeThematic s theme)).lookup (keyOf metal) = (views geo s).lookup (keyOf metal) := by
  have hagree := mergeThematic_agree hmetal s theme
  unfold views
  cases tilting geo with
  | none => exact lookup_foldl_put hagree rfl
  | some g => exact lookup_foldl_put (tiltAssets_agree hagree _) rfl

/-! ### What the guard decides -/

theorem vetoes_iff {ms : MacroState} (hfresh : ms.isStale t = false) (hblackout : ms.blackout.active = false)
    (key : Text) (direction : Direction) (qty : Option ℚ) (w : WhenStale) :
    (decideEntry (some ms) key direction qty t confMin w).action = .veto ↔
      ∃ view, ms.assets.lookup (keyOf key) = some view ∧ conflicts ms view direction confMin = true := by
  unfold decideEntry
  simp only [hfresh, hblackout, Bool.false_eq_true, if_false]
  cases ms.assets.lookup (keyOf key) with
  | none => simp
  | some view => by_cases hconflict : conflicts ms view direction confMin = true <;> simp [hconflict]

theorem eq_allow_iff (a : Action) : a = .allow ↔ a ≠ .veto := by
  cases a <;> decide

theorem exists_opposes (score : PyFloat) : ∃ direction, opposes score direction = true := by
  by_cases hpos : (PyFloat.fin 0).lt score = true
  · exact ⟨.short, hpos⟩
  · exact ⟨.long, by simp [opposes, hpos]⟩

/-! ### Headlines -/

theorem mergeSentiment_confidence (agg : Option (List (Text × Sentiment))) {bound : ℚ}
    (hs : s.global.confidence < bound) (hcap : 1 / 2 < bound) : (mergeSentiment s agg).global.confidence < bound := by
  cases agg with
  | none => exact hs
  | some agg =>
    simp only [mergeSentiment]
    split
    · exact max_lt hs ((sentConfidence_le _).trans_lt hcap)
    · exact hs

/-- **Headlines alone never veto:** with every other source below a threshold above the cap, and no blackout, an entry
is allowed on a fresh state. -/
theorem sentiment_never_vetoes {halving : ℚ → ℚ} {args : Args} {events : List RawEvent} {now : DateTime}
    {geo : Option GeoResult} {news : Option (List Headline × DateTime)} {theme : Option ThemeResult} {ms : MacroState}
    {t : DateTime} {confMin : ℚ}
    (hbuilt : builtState halving args events now geo
      (news.map fun (headlines, at') => aggregate halving headlines at' args.symbols) theme = .ok ms)
    (hfresh : ms.isStale t = false) (hblackout : ms.blackout.active = false) (hmin : 1 / 2 < confMin)
    (hcalendar : (score halving events now args.symbols).confidence < confMin)
    (hgeo : ∀ g, geo = some g → g.confidence < confMin) (htheme : ∀ r, theme = some r → r.confidence < confMin)
    (key : Text) (direction : Direction) (qty : Option ℚ) (w : WhenStale) :
    (decideEntry (some ms) key direction qty t confMin w).action = .allow := by
  rw [eq_allow_iff]
  intro hveto
  obtain ⟨view, -, hconflict⟩ := (vetoes_iff hfresh hblackout key direction qty w).mp hveto
  have hconf : (PyFloat.fin confMin).le ms.confidence = true := by
    unfold conflicts at hconflict
    rw [Bool.and_eq_true, Bool.and_eq_true] at hconflict
    exact hconflict.1.2
  rcases (reached_mergeThematic _ _ _).mp (((builtState_shows hbuilt).confidence confMin).mp hconf) with
    (hbefore | ⟨g, hg, hreached⟩) | ⟨r, hr, -, hreached⟩
  · exact absurd hbefore (not_le.mpr (mergeSentiment_confidence _ hcalendar hmin))
  · exact absurd hreached (not_le.mpr (hgeo g (Option.filter_eq_some_iff.mp hg).1))
  · exact absurd hreached (not_le.mpr (htheme r hr))

/-- A Monday at noon, and the news of the hour. -/
def monday : DateTime := ⟨20458 * microsPerDay + 43200000000, by decide⟩

def plunge : List Headline := [⟨monday, "Gold plunges".toList⟩]

theorem plunge_allows_long :
    ∃ ms, builtState (fun _ => 1) {} [] monday none (some (aggregate (fun _ => 1) plunge monday defaultSymbols))
        (some (assessSemis [("NVDA".toList, some (3 / 10))])) = .ok ms ∧
      (decideEntry (some ms) "XAUUSD".toList .long none monday (6 / 10) .allow).action = .allow := by
  have hfits : Fits {} [] monday := ⟨by decide, by simp⟩
  obtain ⟨ms, hms⟩ := exists_builtState (fun _ => 1) none hfits
    (some (aggregate (fun _ => 1) plunge monday defaultSymbols)) (some (assessSemis [("NVDA".toList, some (3 / 10))]))
  have hshows := builtState_shows hms
  have hbuilt : builtState (fun _ => 1) {} [] monday none
      ((some (plunge, monday)).map fun (headlines, at') => aggregate (fun _ => 1) headlines at' defaultSymbols)
      (some (assessSemis [("NVDA".toList, some (3 / 10))])) = .ok ms := hms
  refine ⟨ms, hms, sentiment_never_vetoes hbuilt ?_ ?_ (by norm_num) (by decide +kernel) (fun g hg => nomatch hg) ?_
    _ _ _ _⟩
  · rw [Bool.eq_false_iff, ne_eq, hshows.stale]
    unfold Expired
    decide +kernel
  · rw [Bool.eq_false_iff, ne_eq, hshows.blackout]
    simp [Blocked, tilting]
  · rintro r ⟨⟩
    decide +kernel

/-! ### The metals -/

/-- The guard decides the same about the metals, whatever the theme: absent, or assessed on any momentum. -/
def ThemeSilent (halving : ℚ → ℚ) (args : Args) (events : List RawEvent) (now : DateTime) (geo : Option GeoResult)
    (agg : Option (List (Text × Sentiment))) (t : DateTime) (confMin : ℚ) (w : WhenStale) : Prop :=
  ∀ (momentum momentum' : Option (List (Text × Option ℚ))) (ms ms' : MacroState),
    builtState halving args events now geo agg (momentum.map assessSemis) = .ok ms →
    builtState halving args events now geo agg (momentum'.map assessSemis) = .ok ms' →
    ∀ metal ∈ metals, ∀ direction qty,
      (decideEntry (some ms) metal direction qty t confMin w).action =
        (decideEntry (some ms') metal direction qty t confMin w).action

/-- No metal has a score that counts. -/
def Quiet (geo : Option GeoResult) (s : State) : Prop :=
  ∀ metal ∈ metals, ∀ view, (views geo s).lookup (keyOf metal) = some view →
    (PyFloat.fin eps).lt view.score.abs = false

/-- What settles the entries in the metals whatever the theme: `s` is the state before the thematic layer. -/
inductive Settled (args : Args) (events : List RawEvent) (now : DateTime) (geo : Option GeoResult) (s : State)
    (t : DateTime) (confMin : ℚ) : Prop
  | expired (h : Expired args now t)
  | blocked (h : Blocked args events now geo)
  | reached (h : Reached geo s confMin)
  | outOfReach (h : themeConfCap < confMin)
  | quiet (h : Quiet geo s)

theorem not_raised {momentum : Option (List (Text × Option ℚ))} (h : themeConfCap < confMin) :
    ¬Raised (momentum.map assessSemis) confMin := by
  rintro ⟨r, hr, -, hconf⟩
  obtain ⟨m, -, rfl⟩ := Option.map_eq_some_iff.mp hr
  exact absurd (hconf.trans (assessSemis_confidence m).2) (not_le.mpr h)

/-- A full momentum of one symbol has the confidence of the cap. -/
def surge : List (Text × Option ℚ) := [("NVDA".toList, some 1)]

theorem raised_surge (h : confMin ≤ themeConfCap) : Raised (some (assessSemis surge)) confMin := by
  have hassessed : (assessSemis surge).score ≠ 0 ∧ (assessSemis surge).confidence = themeConfCap := by decide +kernel
  exact ⟨_, rfl, hassessed.1, h.trans_eq hassessed.2.symm⟩

/-- Two states decide the same if they differ in their confidence only, and something else settles the entry. -/
theorem action_congr {ms ms' : MacroState} {key : Text} (hstale : ms.isStale t = ms'.isStale t)
    (hblackout : ms.blackout.active = ms'.blackout.active)
    (hlookup : ms.assets.lookup (keyOf key) = ms'.assets.lookup (keyOf key))
    (direction : Direction) (qty : Option ℚ) (w : WhenStale)
    (hsettled : ms.isStale t = true ∨ ms.blackout.active = true ∨ ∀ view, ms.assets.lookup (keyOf key) = some view →
      conflicts ms view direction confMin = conflicts ms' view direction confMin) :
    (decideEntry (some ms) key direction qty t confMin w).action =
      (decideEntry (some ms') key direction qty t confMin w).action := by
  unfold decideEntry
  simp only [← hstale, ← hblackout, ← hlookup]
  by_cases hfresh : ms.isStale t = true
  · rw [if_pos hfresh, if_pos hfresh]
  rw [if_neg hfresh, if_neg hfresh]
  by_cases hopen : ms.blackout.active = true
  · rw [if_pos hopen, if_pos hopen]
  rw [if_neg hopen, if_neg hopen]
  have hconflicts := (hsettled.resolve_left hfresh).resolve_left hopen
  cases hview : ms.assets.lookup (keyOf key) with
  | none => rfl
  | some view =>
    simp only [hconflicts view hview]
    by_cases hconflict : conflicts ms' view direction confMin = true
    · rw [if_pos hconflict, if_pos hconflict]
    · rw [if_neg hconflict, if_neg hconflict]

theorem builtState_confidence {agg : Option (List (Text × Sentiment))} {theme : Option ThemeResult} {ms : MacroState}
    (h : builtState halving args events now geo agg theme = .ok ms) (c : ℚ) :
    (PyFloat.fin c).le ms.confidence = true ↔
      Reached geo (untilTheme halving args events now agg) c ∨ Raised theme c :=
  ((builtState_shows h).confidence c).trans (reached_mergeThematic _ _ _)

theorem builtState_lookup {agg : Option (List (Text × Sentiment))} {theme : Option ThemeResult} {ms : MacroState}
    (h : builtState halving args events now geo agg theme = .ok ms) {metal : Text} (hmetal : metal ∈ metals) :
    ms.assets.lookup (keyOf metal) = (views geo (untilTheme halving args events now agg)).lookup (keyOf metal) := by
  rw [(builtState_shows h).assets]
  exact lookup_mergeThematic hmetal _ theme

theorem Settled.silent {agg : Option (List (Text × Sentiment))} {w : WhenStale}
    (h : Settled args events now geo (untilTheme halving args events now agg) t confMin) :
    ThemeSilent halving args events now geo agg t confMin w := by
  intro momentum momentum' ms ms' hms hms' metal hmetal direction qty
  have hshows := builtState_shows hms
  have hshows' := builtState_shows hms'
  have hlookup := builtState_lookup hms hmetal
  have hconf : (PyFloat.fin confMin).le ms.confidence = (PyFloat.fin confMin).le ms'.confidence → ∀ view,
      ms.assets.lookup (keyOf metal) = some view →
        conflicts ms view direction confMin = conflicts ms' view direction confMin := by
    intro heq view _
    rw [conflicts, conflicts, heq]
  refine action_congr (Bool.eq_iff_iff.mpr ((hshows.stale t).trans (hshows'.stale t).symm))
    (Bool.eq_iff_iff.mpr (hshows.blackout.trans hshows'.blackout.symm))
    (hlookup.trans (builtState_lookup hms' hmetal).symm) direction qty w ?_
  cases h with
  | expired h => exact Or.inl ((hshows.stale t).mpr h)
  | blocked h => exact Or.inr (Or.inl (hshows.blackout.mpr h))
  | reached h =>
    refine Or.inr (Or.inr (hconf ?_))
    rw [(builtState_confidence hms confMin).mpr (Or.inl h), (builtState_confidence hms' confMin).mpr (Or.inl h)]
  | outOfReach h =>
    refine Or.inr (Or.inr (hconf (Bool.eq_iff_iff.mpr ?_)))
    rw [builtState_confidence hms, builtState_confidence hms', or_iff_left (not_raised h), or_iff_left (not_raised h)]
  | quiet h =>
    refine Or.inr (Or.inr fun view hview => ?_)
    rw [conflicts, conflicts, h metal hmetal view (hlookup.symm.trans hview)]
    rfl

/-- Where nothing else settles it, an entry against the score of a metal is vetoed exactly if the theme has the
confidence. -/
theorem veto_iff_raised {agg : Option (List (Text × Sentiment))} {theme : Option ThemeResult} {ms : MacroState}
    (h : builtState halving args events now geo agg theme = .ok ms)
    (hopen : ¬Settled args events now geo (untilTheme halving args events now agg) t confMin)
    {metal : Text} (hmetal : metal ∈ metals) {view : AssetView}
    (hview : (views geo (untilTheme halving args events now agg)).lookup (keyOf metal) = some view)
    (hloud : (PyFloat.fin eps).lt view.score.abs = true) {direction : Direction}
    (hopposes : opposes view.score direction = true) (qty : Option ℚ) (w : WhenStale) :
    (decideEntry (some ms) metal direction qty t confMin w).action = .veto ↔ Raised theme confMin := by
  have hshows := builtState_shows h
  have hfresh : ms.isStale t = false := Bool.eq_false_iff.mpr (mt (hshows.stale t).mp (mt Settled.expired hopen))
  have hblackout : ms.blackout.active = false :=
    Bool.eq_false_iff.mpr (mt hshows.blackout.mp (mt Settled.blocked hopen))
  have hconflicts : conflicts ms view direction confMin = true ↔ Raised theme confMin := by
    unfold conflicts
    rw [hloud, hopposes, Bool.true_and, Bool.and_true, builtState_confidence h,
      or_iff_right (mt Settled.reached hopen)]
  rw [vetoes_iff hfresh hblackout, builtState_lookup h hmetal, hview]
  simpa using hconflicts

/-- **When the theme is silent on the metals:** exactly when there is no state at all, or something else settles the
entries in them. -/
theorem themeSilent_iff (halving : ℚ → ℚ) (args : Args) (events : List RawEvent) (now : DateTime)
    (geo : Option GeoResult) (agg : Option (List (Text × Sentiment))) (t : DateTime) (confMin : ℚ) (w : WhenStale) :
    ThemeSilent halving args events now geo agg t confMin w ↔
      (Fits args events now → Settled args events now geo (untilTheme halving args events now agg) t confMin) := by
  constructor
  · intro hsilent hfits
    by_contra hopen
    have hcap := mt Settled.outOfReach hopen
    have hquiet := mt Settled.quiet hopen
    unfold Quiet at hquiet
    push Not at hquiet
    obtain ⟨metal, hmetal, view, hview, hloud⟩ := hquiet
    have hscore : (PyFloat.fin eps).lt view.score.abs = true := by simpa using hloud
    obtain ⟨direction, hopposes⟩ := exists_opposes view.score
    obtain ⟨ms, hms⟩ := exists_builtState halving geo hfits agg none
    obtain ⟨ms', hms'⟩ := exists_builtState halving geo hfits agg (some (assessSemis surge))
    have hsame := hsilent none (some surge) ms ms' hms hms' metal hmetal direction none
    have hveto : (decideEntry (some ms') metal direction none t confMin w).action = .veto :=
      (veto_iff_raised hms' hopen hmetal hview hscore hopposes none w).mpr (raised_surge (not_lt.mp hcap))
    rw [← hsame, veto_iff_raised hms hopen hmetal hview hscore hopposes] at hveto
    obtain ⟨r, hr, -⟩ := hveto
    cases hr
  · intro hsettled momentum momentum' ms ms' hms
    exact (hsettled (fits_of_builtState hms)).silent momentum momentum' ms ms' hms

/-- What the guard says about a long entry in gold on that Monday, under a theme. -/
def goldEntry (theme : Option ThemeResult) : Except PyError Action := do
  let ms ← builtState (fun _ => 1) {} [] monday none (some (aggregate (fun _ => 1) plunge monday defaultSymbols)) theme
  return (decideEntry (some ms) "XAUUSD".toList .long none monday (6 / 10) .allow).action

/-- **A theme that stops gold.** One bad headline leaves the entry alone; with the momentum of the chip makers it is
vetoed. -/
theorem surge_vetoes_gold :
    goldEntry none = .ok .allow ∧ goldEntry (some (assessSemis surge)) = .ok .veto ∧
      ¬ThemeSilent (fun _ => 1) {} [] monday none (some (aggregate (fun _ => 1) plunge monday defaultSymbols)) monday
        (6 / 10) .allow := by
  have hallow : goldEntry none = .ok .allow := by decide +kernel
  have hveto : goldEntry (some (assessSemis surge)) = .ok .veto := by decide +kernel
  refine ⟨hallow, hveto, fun hsilent => ?_⟩
  obtain ⟨ms, hms, hallow⟩ := bind_ok.mp hallow
  obtain ⟨ms', hms', hveto⟩ := bind_ok.mp hveto
  have hsame := hsilent none (some surge) ms ms' hms hms' "XAUUSD".toList (by decide) .long none
  cases hallow.symm.trans ((congrArg Except.ok hsame).trans hveto)

end Macro

end FreqTrading
