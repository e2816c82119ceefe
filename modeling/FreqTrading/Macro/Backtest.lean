import FreqTrading.Lib.Traverse
import FreqTrading.Macro.StateText

/-!
# The macro backtest

`macro/backtest.py`: the filter over a list of trades that were made without it. For each trade the state is built as it
would have been at that moment, and the live decision is made on it. The calendar that is replayed knows how its events came
out; no decision before an event depends on that (`no_lookahead`), and each is the one that the guard of a bot would have
made on the file of that moment (`gate_is_live`).
-/

namespace FreqTrading

namespace Macro

open Lib Macroguard

/-- A trade of the baseline (`Trade`). -/
structure PastTrade where
  ts : DateTime
  symbol : Text
  direction : Text
  pnl : ℚ

/-- `build_kw`, the arguments of `build_state` beside the calendar and the time. -/
structure BuildKw where
  args : Args := {}
  geo : Option GeoResult := none
  agg : Option (List (Text × Sentiment)) := none
  theme : Option ThemeResult := none

/-- `Direction[t.direction.upper()]`. -/
def directionOf (text : Text) : Except PyError Direction :=
  if upper text = "LONG".toList then .ok .long
  else if upper text = "SHORT".toList then .ok .short
  else .error .keyError

variable (halving : ℚ → ℚ) (kw : BuildKw) (confMin : ℚ) (w : WhenStale) (events : List RawEvent)

/-- The decision on a trade, in the loop of `apply_macro`. -/
def decideTrade (t : PastTrade) : Except PyError (PastTrade × Decision) := do
  let state ← builtState halving kw.args events t.ts kw.geo kw.agg kw.theme
  let direction ← directionOf t.direction
  return (t, decideEntry (some state) (bareKey t.symbol) direction none t.ts confMin w)

/-- `apply_macro`: the trades that are kept, and the decisions. -/
def applyMacro (trades : List PastTrade) : Except PyError (List PastTrade × List (PastTrade × Decision)) := do
  let decisions ← trades.mapM (decideTrade halving kw confMin w events)
  return ((decisions.filter fun d => d.2.action ≠ .veto).map Prod.fst, decisions)

/-! ### The statistics -/

/-- What `stats` returns. -/
structure GateStats where
  n : Nat
  net : ℚ
  pf : Option ℚ
  winrate : ℚ
  deriving DecidableEq, Repr

/-- `stats`. -/
def stats (trades : List PastTrade) : GateStats :=
  let wins := (trades.map (·.pnl)).filter fun x => 0 < x
  let losses := (trades.map (·.pnl)).filter fun x => x < 0
  let grossL := -losses.sum
  { n := trades.length
    net := roundPlaces 2 (trades.map (·.pnl)).sum
    pf := if 0 < grossL then some (roundPlaces 3 (wins.sum / grossL)) else none
    winrate := if trades.length = 0 then 0 else roundPlaces 3 ((wins.length : ℚ) / trades.length) }

/-- Before and after the filter. -/
structure Comparison where
  baseline : GateStats
  filtered : GateStats
  dropped : Int
  deriving DecidableEq, Repr

def comparison (trades kept : List PastTrade) : Comparison :=
  ⟨stats trades, stats kept, (trades.length : Int) - kept.length⟩

/-- The trades under a bare symbol. -/
def ofSymbol (sym : Text) (trades : List PastTrade) : List PastTrade := trades.filter fun t => bareKey t.symbol = sym

/-- `compare`, overall and by symbol; `before` is the order of texts that `sorted` goes by. -/
def compare (before : Text → Text → Bool) (trades : List PastTrade) (symbols : List Text) :
    Except PyError (Comparison × List (Text × Comparison)) := do
  let (kept, _) ← applyMacro halving kw confMin w events trades
  let syms := if symbols = [] then ((trades.map fun t => bareKey t.symbol).dedup).mergeSort before else symbols
  return (comparison trades kept, syms.map fun sym => (sym, comparison (ofSymbol sym trades) (ofSymbol sym kept)))

/-! ### What is not known yet -/

/-- An event as it is known at a time: the figures of one that is still to come are left out. -/
def knownAt (now : DateTime) (ev : RawEvent) : RawEvent :=
  if ev.ts.us ≤ now.us then ev else { ev with forecast := none, actual := none }

variable {halving kw confMin w events} {now : DateTime} {args : Args}

/-- What is known of an event says when it is, and what it is. -/
structure SameSchedule (ev ev' : RawEvent) : Prop where
  ts : ev'.ts = ev.ts
  title : ev'.title = ev.title
  currency : ev'.currency = ev.currency
  impact : ev'.impact = ev.impact
  kind : ev'.kind = ev.kind

theorem knownAt_schedule (now : DateTime) (ev : RawEvent) : SameSchedule ev (knownAt now ev) := by
  unfold knownAt
  split <;> exact ⟨rfl, rfl, rfl, rfl, rfl⟩

theorem knownAt_released {ev : RawEvent} (h : ev.ts.us ≤ now.us) : knownAt now ev = ev := if_pos h

theorem ageH_neg {ts : DateTime} (h : ¬ts.us ≤ now.us) : ageH now ts < 0 := by
  have hlt : (now.us - ts.us : Int) < 0 := by omega
  unfold ageH DateTime.secondsSince
  refine div_neg_of_neg_of_pos (div_neg_of_neg_of_pos (by exact_mod_cast hlt) ?_) (by norm_num)
  exact_mod_cast (show (0 : Int) < microsPerSecond by decide)

theorem add_knownAt (t : Tally) (ev : RawEvent) : Tally.add halving now t (knownAt now ev) = Tally.add halving now t ev := by
  by_cases h : ev.ts.us ≤ now.us
  · rw [knownAt_released h]
  · have hage := ageH_neg h
    unfold Tally.add
    dsimp only
    rw [(knownAt_schedule now ev).ts, if_pos (Or.inr (Or.inl hage)), if_pos (Or.inr (Or.inl hage))]

theorem score_knownAt (events : List RawEvent) (symbols : List Text) :
    score halving (events.map (knownAt now)) now symbols = score halving events now symbols := by
  unfold score
  simp only [List.foldl_map, add_knownAt]

theorem reason_knownAt (ev : RawEvent) : (knownAt now ev).reason = ev.reason := by
  unfold RawEvent.reason
  rw [(knownAt_schedule now ev).kind, (knownAt_schedule now ev).title]

theorem addHit_knownAt (pre post : Int) (impacts : List Impact) (found : List (DateTime × Text)) (ev : RawEvent) :
    addHit now pre post impacts found (knownAt now ev) = addHit now pre post impacts found ev := by
  unfold addHit
  rw [(knownAt_schedule now ev).impact, (knownAt_schedule now ev).ts, reason_knownAt]

theorem activeBlackout_knownAt (events : List RawEvent) (pre post : Int) (impacts : List Impact) :
    activeBlackout (events.map (knownAt now)) now pre post impacts = activeBlackout events now pre post impacts := by
  unfold activeBlackout
  simp only [List.foldlM_map, addHit_knownAt]

theorem upcomingEvents_knownAt (events : List RawEvent) (pre post : Int) :
    upcomingEvents (events.map (knownAt now)) now pre post = upcomingEvents events now pre post := by
  unfold upcomingEvents
  have hschedule := fun ev => knownAt_schedule now ev
  simp only [List.filter_map, List.map_map, Function.comp_def, (hschedule _).ts, (hschedule _).impact, (hschedule _).kind,
    (hschedule _).currency]

theorem buildState_knownAt (events : List RawEvent) (geo : Option GeoResult) (agg : Option (List (Text × Sentiment)))
    (theme : Option ThemeResult) :
    buildState halving args (events.map (knownAt now)) now geo agg theme = buildState halving args events now geo agg theme := by
  unfold buildState finish scoredState
  rw [score_knownAt, activeBlackout_knownAt, upcomingEvents_knownAt]

theorem decideTrade_knownAt (t : PastTrade) :
    decideTrade halving kw confMin w (events.map (knownAt t.ts)) t = decideTrade halving kw confMin w events t := by
  unfold decideTrade builtState
  rw [buildState_knownAt]

/-- **The backtest does not look ahead.** Two calendars that differ only in the figures of events which, for each trade, are
still to come give the same decisions. -/
theorem no_lookahead (halving : ℚ → ℚ) (kw : BuildKw) (confMin : ℚ) (w : WhenStale) (events events' : List RawEvent)
    (trades : List PastTrade) (h : ∀ t ∈ trades, events.map (knownAt t.ts) = events'.map (knownAt t.ts)) :
    applyMacro halving kw confMin w events trades = applyMacro halving kw confMin w events' trades := by
  have hdecisions : trades.mapM (decideTrade halving kw confMin w events) =
      trades.mapM (decideTrade halving kw confMin w events') := by
    refine mapM_congr_mem fun t ht => ?_
    rw [← decideTrade_knownAt, h t ht, decideTrade_knownAt]
  unfold applyMacro
  rw [hdecisions]

/-- A release that comes out hot, and a trade six hours before it. -/
def hotCpi : RawEvent where
  ts := monday
  title := "CPI m/m".toList
  currency := "USD".toList
  impact := .high
  kind := .cpi
  forecast := some "0.2%".toList
  actual := some "0.6%".toList

def dawnTrade : PastTrade where
  ts := ⟨monday.us - 360 * microsPerMinute, by decide⟩
  symbol := "XAUUSD.ecn".toList
  direction := "long".toList
  pnl := 3

theorem no_lookahead_dawn :
    applyMacro (fun _ => 1) {} (6 / 10) .allow [hotCpi] [dawnTrade] =
      applyMacro (fun _ => 1) {} (6 / 10) .allow [{ hotCpi with actual := some "0.1%".toList }] [dawnTrade] := by
  refine no_lookahead _ _ _ _ _ _ _ fun t ht => ?_
  rw [List.mem_singleton.mp ht, List.map_singleton, List.map_singleton, knownAt, knownAt, if_neg (by decide), if_neg (by decide)]

/-! ### The live decision -/

/-- The guard of a bot that trades the symbol. -/
structure GuardOf (confMin : ℚ) (w : WhenStale) (symbol : Text) (g : MacroGuard) : Prop where
  assetKey : g.assetKey = bareKey symbol
  confMin : g.confMin = confMin
  whenStale : g.whenStale = w

/-- The file that the daemon would have written at the moment of the trade, and what a guard answers that finds it new. -/
structure LiveDecision (halving : ℚ → ℚ) (kw : BuildKw) (confMin : ℚ) (w : WhenStale) (events : List RawEvent) (limit : Nat)
    (t : PastTrade) (d : Decision) (s : State) (direction : Direction) : Prop where
  built : buildState halving kw.args events t.ts kw.geo kw.agg kw.theme = .ok s
  side : directionOf t.direction = .ok direction
  answered : ∀ g : MacroGuard, GuardOf confMin w t.symbol g → ∀ mtime, g.cachedMtime ≠ some mtime →
    g.answer limit ⟨.present mtime (.bytes (fileOf s)), t.ts, .evaluateEntry direction none⟩ = .ok (.decision d)

theorem decideTrade_fst {t : PastTrade} {d : PastTrade × Decision} (h : decideTrade halving kw confMin w events t = .ok d) :
    d.1 = t := by
  obtain ⟨ms, -, h⟩ := bind_ok.mp h
  obtain ⟨direction, -, h⟩ := bind_ok.mp h
  cases h
  rfl

theorem applyMacro_order {trades kept : List PastTrade} {decisions : List (PastTrade × Decision)}
    (h : applyMacro halving kw confMin w events trades = .ok (kept, decisions)) :
    decisions.map Prod.fst = trades ∧ kept = (decisions.filter fun d => d.2.action ≠ .veto).map Prod.fst := by
  obtain ⟨ds, hds, h⟩ := bind_ok.mp h
  cases h
  refine ⟨?_, rfl⟩
  have hall := (mapM_ok_iff.mp hds).imp fun _ _ => decideTrade_fst
  clear hds h
  induction hall with
  | nil => rfl
  | cons hfirst _ ih => rw [List.map_cons, hfirst, ih]

theorem decideTrade_live {limit : Nat} (hlimit : 4 ≤ limit) (hassessed : Assessed kw.geo kw.theme)
    (hargs : kw.args.Writable) {t : PastTrade} {d : PastTrade × Decision}
    (h : decideTrade halving kw confMin w events t = .ok d) :
    ∃ s direction, LiveDecision halving kw confMin w events limit d.1 d.2 s direction := by
  obtain ⟨ms, hms, h⟩ := bind_ok.mp h
  obtain ⟨direction, hdirection, h⟩ := bind_ok.mp h
  cases h
  obtain ⟨s, hs, hview⟩ := bind_ok.mp hms
  refine ⟨s, direction, hs, hdirection, fun g hguard mtime hnew => ?_⟩
  have hparsed : parseContent limit (.bytes (fileOf s)) = .ok ms := by
    show Json.load limit (fileOf s) >>= fromDict = _
    unfold fileOf
    rw [Json.load_dump ((buildState_printable hs hassessed hargs).mono hlimit)]
    exact hview
  have hread : (g.read limit (.present mtime (.bytes (fileOf s)))).1 = .ok (some ms) := by
    unfold MacroGuard.read
    dsimp only
    rw [if_neg fun hcached => hnew hcached.1, hparsed]
  unfold MacroGuard.answer MacroGuard.decide
  rw [hread, ← hguard.assetKey, ← hguard.confMin, ← hguard.whenStale]
  rfl

/-- **The gate tests the live filter.** The trades are decided in their order, the kept ones are those that are not vetoed,
and each decision is the answer of a bot's guard on the file that the daemon would have written at the moment of the trade. -/
theorem gate_is_live (halving : ℚ → ℚ) (kw : BuildKw) (confMin : ℚ) (w : WhenStale) (events : List RawEvent) {limit : Nat}
    (hlimit : 4 ≤ limit) (hassessed : Assessed kw.geo kw.theme) (hargs : kw.args.Writable) (trades : List PastTrade)
    {kept : List PastTrade} {decisions : List (PastTrade × Decision)}
    (h : applyMacro halving kw confMin w events trades = .ok (kept, decisions)) :
    decisions.map Prod.fst = trades ∧ kept = (decisions.filter fun d => d.2.action ≠ .veto).map Prod.fst ∧
      ∀ d ∈ decisions, ∃ s direction, LiveDecision halving kw confMin w events limit d.1 d.2 s direction := by
  refine ⟨(applyMacro_order h).1, (applyMacro_order h).2, fun d hd => ?_⟩
  obtain ⟨ds, hds, h⟩ := bind_ok.mp h
  cases h
  have hall := mapM_ok_iff.mp hds
  clear hds h
  induction hall with
  | nil => exact absurd hd List.not_mem_nil
  | cons hfirst _ ih =>
    rcases List.mem_cons.mp hd with rfl | hrest
    · exact decideTrade_live hlimit hassessed hargs hfirst
    · exact ih hrest

theorem gate_is_live_dawn :
    ∃ kept decisions, applyMacro (fun _ => 1) {} (6 / 10) .allow [hotCpi] [dawnTrade] = .ok (kept, decisions) ∧
      decisions.map Prod.fst = [dawnTrade] ∧ ∀ d ∈ decisions, ∃ s direction,
        LiveDecision (fun _ => 1) {} (6 / 10) .allow [hotCpi] 1000 d.1 d.2 s direction := by
  have hok : (applyMacro (fun _ => 1) {} (6 / 10) .allow [hotCpi] [dawnTrade]).toOption.isSome = true := by decide +kernel
  cases h : applyMacro (fun _ => 1) {} (6 / 10) .allow [hotCpi] [dawnTrade] with
  | error e =>
    rw [h] at hok
    cases hok
  | ok result =>
    obtain ⟨kept, decisions⟩ := result
    have hlimit : 4 ≤ 1000 := by decide
    have hassessed : Assessed none none := ⟨fun _ hg => (nomatch hg), fun _ ht => (nomatch ht)⟩
    have hargs : Args.Writable {} := ⟨by decide +kernel, by decide +kernel, by decide +kernel⟩
    obtain ⟨horder, -, hlive⟩ := gate_is_live (fun _ => 1) {} (6 / 10) .allow [hotCpi] hlimit hassessed hargs [dawnTrade] h
    exact ⟨kept, decisions, rfl, horder, hlive⟩

/-! ### The parts by symbol -/

theorem sum_map_eq_count (ks : List Text) (key : Text) : (ks.map fun k => if key = k then 1 else 0).sum = ks.count key := by
  induction ks with
  | nil => rfl
  | cons k ks ih =>
    rw [List.map_cons, List.sum_cons, ih, List.count_cons, Nat.add_comm]
    by_cases h : key = k
    · rw [if_pos h, if_pos (by simpa using h.symm)]
    · rw [if_neg h, if_neg (by simpa using Ne.symm h)]

theorem sum_ofSymbol {ks : List Text} (hnodup : ks.Nodup) {trades : List PastTrade}
    (hmem : ∀ t ∈ trades, bareKey t.symbol ∈ ks) : (ks.map fun k => (ofSymbol k trades).length).sum = trades.length := by
  induction trades with
  | nil => simp [ofSymbol]
  | cons t trades ih =>
    have hsplit : ∀ k, (ofSymbol k (t :: trades)).length =
        (if bareKey t.symbol = k then 1 else 0) + (ofSymbol k trades).length := by
      intro k
      unfold ofSymbol
      by_cases h : bareKey t.symbol = k
      · rw [List.filter_cons_of_pos (by simpa using h), if_pos h, List.length_cons, Nat.add_comm]
      · rw [List.filter_cons_of_neg (by simpa using h), if_neg h, Nat.zero_add]
    simp only [hsplit]
    rw [List.sum_map_add, sum_map_eq_count, List.count_eq_one_of_mem hnodup (hmem t List.mem_cons_self),
      ih fun u hu => hmem u (List.mem_cons_of_mem t hu), List.length_cons, Nat.add_comm]

theorem kept_subset {trades kept : List PastTrade} {decisions : List (PastTrade × Decision)}
    (h : applyMacro halving kw confMin w events trades = .ok (kept, decisions)) : kept ⊆ trades := by
  obtain ⟨horder, rfl⟩ := applyMacro_order h
  rw [← horder]
  exact List.map_subset _ (List.filter_subset_self _)

theorem compare_splits {before : Text → Text → Bool} {trades : List PastTrade} {total : Comparison}
    {parts : List (Text × Comparison)} (h : compare halving kw confMin w events before trades [] = .ok (total, parts)) :
    (parts.map fun p => p.2.baseline.n).sum = total.baseline.n ∧ (parts.map fun p => p.2.filtered.n).sum = total.filtered.n := by
  obtain ⟨⟨kept, decisions⟩, hkept, h⟩ := bind_ok.mp h
  cases h
  rw [if_pos rfl, List.map_map, List.map_map]
  set syms := ((trades.map fun t => bareKey t.symbol).dedup).mergeSort before with hsyms
  have hnodup : syms.Nodup := (List.mergeSort_perm _ _).nodup_iff.mpr (List.nodup_dedup _)
  have hmem : ∀ t ∈ trades, bareKey t.symbol ∈ syms := fun t ht =>
    (List.mergeSort_perm _ _).mem_iff.mpr (List.mem_dedup.mpr (List.mem_map_of_mem ht))
  exact ⟨sum_ofSymbol hnodup hmem, sum_ofSymbol hnodup fun t ht => hmem t (kept_subset hkept ht)⟩

end Macro

end FreqTrading
