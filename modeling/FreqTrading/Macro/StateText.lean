import FreqTrading.Lib.JsonDump
import FreqTrading.Macroguard.Guard
import FreqTrading.Macro.Vetoes

/-!
# The state file

What `write_state` writes, `MacroGuard.read` parses to the state that was built (`file_parsed`), whatever texts the
calendar and the headlines brought in. Every number of a state is rounded to three places on the way (`Short`), so that
its text is exact.
-/

namespace FreqTrading

namespace Macro

open Lib Macroguard

/-- The bytes that `write_state` writes. -/
def fileOf (s : State) : List UInt8 := Json.encode (Json.dump (Json.decimalFloat 3) 0 s.toPy)

/-! ### Three places -/

/-- The numbers of a state have no more than three places. -/
structure Short (s : State) : Prop where
  assets : ∀ m ∈ s.assets, HasPlaces 3 m.2.score
  riskScore : HasPlaces 3 s.global.riskScore
  confidence : HasPlaces 3 s.global.confidence

variable {halving : ℚ → ℚ} {args : Args} {events : List RawEvent} {now : DateTime} {s : State}

theorem round3_places (x : ℚ) : HasPlaces 3 (round3 x) := by
  refine ⟨roundEven (x * 10 ^ 3), ?_⟩
  unfold round3 roundPlaces
  exact div_mul_cancel₀ _ (by norm_num)

theorem max_places {x y : ℚ} (hx : HasPlaces 3 x) (hy : HasPlaces 3 y) : HasPlaces 3 (max x y) := by
  rcases max_choice x y with h | h
  · rwa [h]
  · rwa [h]

theorem tiltAssets_places {assets : List (Text × AssetState)} (h : ∀ m ∈ assets, HasPlaces 3 m.2.score)
    (move : Text → Option (ℚ × List Text)) : ∀ m ∈ tiltAssets assets move, HasPlaces 3 m.2.score := by
  intro m hm
  obtain ⟨m', hm', rfl⟩ := List.mem_map.mp hm
  cases move m'.1 with
  | none => exact h m' hm'
  | some d => exact round3_places _

theorem scoredState_short : Short (scoredState halving args events now) := by
  refine ⟨?_, round3_places _, round3_places _⟩
  intro m hm
  obtain ⟨sym, -, rfl⟩ := List.mem_map.mp hm
  exact round3_places _

theorem mergeSentiment_short (h : Short s) (agg : Option (List (Text × Sentiment))) : Short (mergeSentiment s agg) := by
  cases agg with
  | none => exact h
  | some agg =>
    simp only [mergeSentiment]
    refine ⟨tiltAssets_places h.assets _, ?_, ?_⟩
    · split
      · exact h.riskScore
      · exact h.riskScore
    · split
      · exact max_places h.confidence (round3_places _)
      · exact h.confidence

theorem mergeThematic_short (h : Short s) {theme : Option ThemeResult}
    (htheme : ∀ r, theme = some r → HasPlaces 3 r.confidence) : Short (mergeThematic s theme) := by
  cases theme with
  | none => exact h
  | some theme =>
    simp only [mergeThematic]
    split
    · exact h
    · exact ⟨tiltAssets_places h.assets _, h.riskScore, max_places h.confidence (htheme _ rfl)⟩

theorem GeoMerged.short {geo : Option GeoResult} {s' : State} (h : GeoMerged geo s s') (hs : Short s)
    (hgeo : ∀ g, geo = some g → HasPlaces 3 g.confidence) : Short s' := by
  rcases h.global with ⟨hglobal, hassets, -⟩ | ⟨g, hg, -, hassets, hrisk, hconf, -⟩
  · refine ⟨?_, ?_, ?_⟩
    · rw [hassets]
      exact hs.assets
    · rw [hglobal]
      exact hs.riskScore
    · rw [hglobal]
      exact hs.confidence
  · refine ⟨?_, ?_, ?_⟩
    · rw [hassets]
      exact tiltAssets_places hs.assets _
    · rw [hrisk]
      exact round3_places _
    · rw [hconf]
      exact max_places hs.confidence (hgeo g hg)

theorem assessSemis_places (momentum : List (Text × Option ℚ)) : HasPlaces 3 (assessSemis momentum).confidence := by
  simp only [assessSemis]
  split
  · exact ⟨0, by norm_num⟩
  · exact round3_places _

theorem assess_places (toneNow toneBase volZ : ℚ) (vix : Option ℚ) :
    HasPlaces 3 (assess toneNow toneBase volZ vix).confidence := by
  simp only [assess]
  split
  · exact ⟨900, by norm_num⟩
  · split
    · exact ⟨600, by norm_num⟩
    · exact ⟨0, by norm_num⟩

/-! ### The providers -/

/-- What the default providers answer is what `assess` and `assess_semis` make of some readings. -/
structure Assessed (geo : Option GeoResult) (theme : Option ThemeResult) : Prop where
  geo : ∀ g, geo = some g → ∃ r : Readings, g = r.assess
  theme : ∀ t, theme = some t → ∃ momentum, t = assessSemis momentum

/-- The numbers of the command line are ones that `int` reads. -/
structure Args.Writable (args : Args) : Prop where
  ttlSec : args.ttlSec.natAbs < 10 ^ maxStrDigits
  preMin : args.preMin.natAbs < 10 ^ maxStrDigits
  postMin : args.postMin.natAbs < 10 ^ maxStrDigits

section built

variable {geo : Option GeoResult} {agg : Option (List (Text × Sentiment))} {theme : Option ThemeResult}

theorem buildState_short (h : buildState halving args events now geo agg theme = .ok s) (hassessed : Assessed geo theme) :
    Short s ∧ Scaled s := by
  obtain ⟨bo, rows, -, hmerged⟩ := finish_spec h
  have hscored : Scaled (scoredState halving args events now) := scoredState_scaled
  have htheme : ∀ t, theme = some t → HasPlaces 3 t.confidence ∧ t.confidence ≤ 1 := by
    intro t ht
    obtain ⟨momentum, rfl⟩ := hassessed.theme t ht
    exact ⟨assessSemis_places momentum, (assessSemis_confidence momentum).2.trans (by norm_num)⟩
  have hgeo : ∀ g, geo = some g → HasPlaces 3 g.confidence ∧ g.score ≤ 1 ∧ g.confidence ≤ 1 := by
    intro g hg
    obtain ⟨r, rfl⟩ := hassessed.geo g hg
    exact ⟨assess_places _ _ _ _, assess_le _ _ _ _⟩
  have hrounded : Short (scoredState halving args events now) := scoredState_short
  have hshort := mergeThematic_short (mergeSentiment_short hrounded agg) fun t ht => (htheme t ht).1
  have hscaled := mergeThematic_scaled (mergeSentiment_scaled hscored agg) fun t ht => (htheme t ht).2
  exact ⟨hmerged.short ⟨hshort.assets, hshort.riskScore, hshort.confidence⟩ fun g hg => (hgeo g hg).1,
    hmerged.scaled ⟨hscaled.assets, hscaled.riskLower, hscaled.riskUpper, hscaled.confLower, hscaled.confUpper⟩
      fun g hg => (hgeo g hg).2⟩

theorem mergeGeo_events {s' : State} (h : mergeGeo s geo now = .ok s') : s'.events = s.events := by
  cases geo with
  | none =>
    cases h
    rfl
  | some g =>
    simp only [mergeGeo] at h
    split at h
    · cases h
      rfl
    · split at h
      · obtain ⟨until', -, h⟩ := bind_ok.mp h
        cases h
        rfl
      · cases h
        rfl

theorem buildState_rows (h : buildState halving args events now geo agg theme = .ok s) :
    s.ttlSec = args.ttlSec ∧ ∀ e ∈ s.events, e.preMin = args.preMin ∧ e.postMin = args.postMin := by
  have httl : s.ttlSec = args.ttlSec := by
    obtain ⟨bo, rows, -, hmerged⟩ := finish_spec h
    rw [hmerged.ttlSec]
    exact (mergeThematic_rest _ theme).ttlSec.trans (mergeSentiment_rest _ agg).ttlSec
  obtain ⟨bo, -, h⟩ := bind_ok.mp h
  obtain ⟨rows, hrows, h⟩ := bind_ok.mp h
  refine ⟨httl, fun e he => ?_⟩
  rw [mergeGeo_events h] at he
  obtain ⟨horizon, -, hrows⟩ := bind_ok.mp hrows
  cases hrows
  obtain ⟨ev, -, rfl⟩ := List.mem_map.mp he
  exact ⟨rfl, rfl⟩

theorem buildState_keys (h : buildState halving args events now geo agg theme = .ok s) :
    s.assets.map Prod.fst = args.symbols.eraseDups := by
  obtain ⟨bo, rows, -, hmerged⟩ := finish_spec h
  rw [hmerged.keys]
  simp only [mergeThematic_keys, mergeSentiment_keys, scoredState_keys]

end built

/-! ### Writing and reading -/

theorem nodup_eraseDups (keys : List Text) : keys.eraseDups.Nodup := by
  induction hn : keys.length using Nat.strongRecOn generalizing keys with
  | _ n ih =>
    cases keys with
    | nil => exact List.nodup_nil
    | cons key keys =>
      rw [List.eraseDups_cons, List.nodup_cons]
      refine ⟨fun hmem => ?_, ih _ ?_ _ rfl⟩
      · have hfilter := List.of_mem_filter (List.mem_eraseDups.mp hmem)
        simp at hfilter
      · rw [← hn]
        exact Nat.lt_succ_of_le (List.length_filter_le _ _)

theorem reads_scaled {q : ℚ} (hplaces : HasPlaces 3 q) (hlower : -1 ≤ q) (hupper : q ≤ 1) :
    Json.Reads (Json.decimalFloat 3 (.fin q)) (.float (.fin q)) := by
  have hone : (1 : ℚ) < floatLimit := by decide +kernel
  exact Json.decimalFloat_reads hplaces ((abs_le.mpr ⟨hlower, hupper⟩).trans_lt hone)

theorem orNull_printable (depth : Nat) (text : Option Text) :
    Json.Printable (Json.decimalFloat 3) depth (orNull text) := by
  cases text with
  | none => exact .null _
  | some text => exact .str _ _

theorem AssetState.printable {a : AssetState} (h : a.Scaled) (hplaces : HasPlaces 3 a.score) :
    Json.Printable (Json.decimalFloat 3) 2 a.toPy := by
  refine .obj ?_ (by simp only [List.map_cons, List.map_nil]; decide)
  simp only [List.forall_mem_cons, List.not_mem_nil, false_imp_iff, implies_true, and_true]
  refine ⟨.str _ _, .float _ (reads_scaled hplaces h.lower h.upper), .str _ _, .list ?_⟩
  rintro x hx
  obtain ⟨driver, -, rfl⟩ := List.mem_map.mp hx
  exact .str _ _

theorem BlackoutState.printable (b : BlackoutState) : Json.Printable (Json.decimalFloat 3) 1 b.toPy := by
  refine .obj ?_ (by simp only [List.map_cons, List.map_nil]; decide)
  simp only [List.forall_mem_cons, List.not_mem_nil, false_imp_iff, implies_true, and_true]
  exact ⟨.bool _ _, orNull_printable _ _, orNull_printable _ _⟩

theorem Upcoming.printable {e : Upcoming} (hpre : e.preMin.natAbs < 10 ^ maxStrDigits)
    (hpost : e.postMin.natAbs < 10 ^ maxStrDigits) : Json.Printable (Json.decimalFloat 3) 1 e.toPy := by
  refine .obj ?_ (by simp only [List.map_cons, List.map_nil]; decide)
  simp only [List.forall_mem_cons, List.not_mem_nil, false_imp_iff, implies_true, and_true]
  exact ⟨.str _ _, .str _ _, .str _ _, .str _ _, .str _ _, .int _ hpre, .int _ hpost⟩

theorem buildState_printable {geo : Option GeoResult} {agg : Option (List (Text × Sentiment))}
    {theme : Option ThemeResult} (h : buildState halving args events now geo agg theme = .ok s)
    (hassessed : Assessed geo theme) (hargs : args.Writable) : Json.Printable (Json.decimalFloat 3) 4 s.toPy := by
  obtain ⟨hshort, hscaled⟩ := buildState_short h hassessed
  obtain ⟨httl, hrows⟩ := buildState_rows h
  have hglobal : Json.Printable (Json.decimalFloat 3) 3 s.global.toPy := by
    refine .obj ?_ (by simp only [List.map_cons, List.map_nil]; decide)
    simp only [List.forall_mem_cons, List.not_mem_nil, false_imp_iff, implies_true, and_true]
    exact ⟨.str _ _, .float _ (reads_scaled hshort.riskScore hscaled.riskLower hscaled.riskUpper),
      .float _ (reads_scaled hshort.confidence (by linarith [hscaled.confLower]) hscaled.confUpper),
      s.global.blackout.printable.mono (by decide)⟩
  refine .obj ?_ (by simp only [List.map_cons, List.map_nil]; decide)
  simp only [List.forall_mem_cons, List.not_mem_nil, false_imp_iff, implies_true, and_true]
  refine ⟨.int _ ?_, .str _ _, .int _ (httl ▸ hargs.ttlSec), hglobal, .list ?_, .obj ?_ ?_⟩
  · exact Nat.one_lt_pow (by decide) (by decide)
  · intro x hx
    obtain ⟨e, he, rfl⟩ := List.mem_map.mp hx
    obtain ⟨hpre, hpost⟩ := hrows e he
    exact (Upcoming.printable (hpre ▸ hargs.preMin) (hpost ▸ hargs.postMin)).mono (by decide)
  · intro m hm
    obtain ⟨⟨sym, a⟩, ha, rfl⟩ := List.mem_map.mp hm
    exact (AssetState.printable (hscaled.assets _ ha) (hshort.assets _ ha)).mono (by decide)
  · rw [List.map_map]
    show (s.assets.map Prod.fst).Nodup
    rw [buildState_keys h]
    exact nodup_eraseDups _

/-- **What the daemon writes is what the guard parses.** -/
theorem file_parsed {limit : Nat} (hlimit : 4 ≤ limit) {geo : Option GeoResult}
    {agg : Option (List (Text × Sentiment))} {theme : Option ThemeResult}
    (h : buildState halving args events now geo agg theme = .ok s) (hassessed : Assessed geo theme)
    (hargs : args.Writable) :
    parseContent limit (.bytes (fileOf s)) = builtState halving args events now geo agg theme := by
  show Json.load limit (fileOf s) >>= fromDict = _
  unfold fileOf builtState
  rw [Json.load_dump ((buildState_printable h hassessed hargs).mono hlimit), h]
  rfl

theorem file_parsed_monday :
    ∃ s, buildState (fun _ => 1) {} [] monday (some (assess (-3) 0 2 (some 30)))
        (some (aggregate (fun _ => 1) plunge monday defaultSymbols)) (some (assessSemis surge)) = .ok s ∧
      parseContent 1000 (.bytes (fileOf s)) = builtState (fun _ => 1) {} [] monday (some (assess (-3) 0 2 (some 30)))
        (some (aggregate (fun _ => 1) plunge monday defaultSymbols)) (some (assessSemis surge)) := by
  have hfits : Fits {} [] monday := ⟨by decide, by simp⟩
  obtain ⟨s, hs⟩ := (finish_ok_iff (mergeThematic (untilTheme (fun _ => 1) {} [] monday
    (some (aggregate (fun _ => 1) plunge monday defaultSymbols))) (some (assessSemis surge)))
    (some (assess (-3) 0 2 (some 30)))).mpr hfits
  have hassessed : Assessed (some (assess (-3) 0 2 (some 30))) (some (assessSemis surge)) := by
    refine ⟨?_, ?_⟩
    · rintro _ ⟨⟩
      exact ⟨⟨-3, 0, 2, some 30⟩, rfl⟩
    · rintro _ ⟨⟩
      exact ⟨surge, rfl⟩
  exact ⟨s, hs, file_parsed (by decide) hs hassessed ⟨by decide +kernel, by decide +kernel, by decide +kernel⟩⟩

end Macro

end FreqTrading
