import FreqTrading.Macro.Sidecar

/-!
# What the bots do about the state file

Two laws about the calls of the bots over a run of the sidecar, whatever fails in between. A blackout that the daemon sees
in its calendar, or a war spike, stops every bot while its state is fresh, and nothing else closes a position
(`Sidecar.blackout_enforced`). And a sidecar that has died leaves the bots to `default_when_stale`
(`Sidecar.dead_sidecar`).
-/

namespace FreqTrading

namespace Macro

open Lib Macroguard

variable {halving : ℚ → ℚ} {cfg : DaemonConfig}

/-! ### The decisions on a state in place -/

/-- At `now` a state in place says that there is a blackout. -/
def Blocks (cfg : DaemonConfig) (p : Publication) (now : DateTime) : Prop :=
  Blocked cfg.args p.draft.sources.events p.draft.turn.now p.draft.sources.geo ∧ ¬Expired cfg.args p.draft.turn.now now

/-- A call that stops the bot: a vetoed entry, or positions to be closed. -/
def Reply.Stops (r : Reply) : Prop :=
  (∃ d, r.result = .ok (.decision d) ∧ d.action = .veto) ∨ ∃ reason, r.result = .ok (.riskOff (some reason))

theorem isStale_view {p : Publication} (h : p.draft.Sound halving cfg) (now : DateTime) :
    p.draft.view.isStale now = true ↔ Expired cfg.args p.draft.turn.now now :=
  (builtState_shows h.view).stale now

theorem blackout_view {p : Publication} (h : p.draft.Sound halving cfg) : p.draft.view.blackout.active = true ↔
    Blocked cfg.args p.draft.sources.events p.draft.turn.now p.draft.sources.geo :=
  (builtState_shows h.view).blackout

theorem decideRiskOff_iff {p : Publication} (h : p.draft.Sound halving cfg) (now : DateTime) :
    decideRiskOff (some p.draft.view) now ≠ none ↔ Blocks cfg p now := by
  unfold decideRiskOff Blocks
  rw [← isStale_view h now, ← blackout_view h]
  by_cases hstale : p.draft.view.isStale now = true
  · simp [hstale]
  · by_cases hactive : p.draft.view.blackout.active = true
    · simp [hstale, hactive]
    · simp [hstale, hactive]

theorem decideEntry_blocks {p : Publication} (h : p.draft.Sound halving cfg) {now : DateTime} (hblocks : Blocks cfg p now)
    (key : Text) (direction : Direction) (qty : Option ℚ) (confMin : ℚ) (w : WhenStale) :
    (decideEntry (some p.draft.view) key direction qty now confMin w).action = .veto := by
  have hfresh : ¬p.draft.view.isStale now = true := mt (isStale_view h now).mp hblocks.2
  unfold decideEntry
  simp only [if_neg hfresh, if_pos ((blackout_view h).mpr hblocks.1)]

theorem decideEntry_unknown {state : Option MacroState} {now : DateTime} (h : ∀ ms ∈ state, ms.isStale now = true)
    (key : Text) (direction : Direction) (qty : Option ℚ) (confMin : ℚ) (w : WhenStale) :
    let d := decideEntry state key direction qty now confMin w
    (d.action = .veto ↔ w = .block) ∧ d.qty = qty := by
  have hdecision : ∀ reason, ((staleDecision qty w reason).action = .veto ↔ w = .block) ∧
      (staleDecision qty w reason).qty = qty := by
    intro reason
    unfold staleDecision
    refine ⟨?_, rfl⟩
    cases w <;> simp
  cases state with
  | none => exact hdecision _
  | some ms =>
    unfold decideEntry
    simp only [if_pos (h ms rfl)]
    exact hdecision _

theorem decideRiskOff_unknown {state : Option MacroState} {now : DateTime} (h : ∀ ms ∈ state, ms.isStale now = true) :
    decideRiskOff state now = none := by
  cases state with
  | none => rfl
  | some ms =>
    unfold decideRiskOff
    simp only [if_pos (h ms rfl)]

theorem decide_entry (g : MacroGuard) (state : Option MacroState) {c : Call} {direction : Direction} {qty : Option ℚ}
    (hquery : c.query = .evaluateEntry direction qty) :
    g.decide state c = .decision (decideEntry state g.assetKey direction qty c.now g.confMin g.whenStale) := by
  unfold MacroGuard.decide
  rw [hquery]

theorem decide_riskOff (g : MacroGuard) (state : Option MacroState) {c : Call} (hquery : c.query = .riskOffNow) :
    g.decide state c = .riskOff (decideRiskOff state c.now) := by
  unfold MacroGuard.decide
  rw [hquery]

/-! ### The laws -/

namespace Sidecar

variable {β : Type} [DecidableEq β] {limit : Nat} {halving : ℚ → ℚ} {cfg : DaemonConfig}

/-- **From the calendar to the bots.** A call during which every state in place says that there is a blackout stops the bot;
and `risk_off_now` closes positions only if a state that was in place during the call says so. -/
theorem blackout_enforced (hlimit : 4 ≤ limit) (hargs : cfg.args.Writable) (bots : β → BotConfig)
    (events : List (Event β)) (hallowed : StepsMeet (step limit halving cfg) Allowed (start bots) events) :
    let s := run (step limit halving cfg) (start bots) events
    ∀ b, ∀ r ∈ (s.bots b).replies,
      ((∀ k, r.began ≤ k → k ≤ r.ended → ∃ p, placedAfter s.published k = some p ∧ Blocks cfg p r.call.now) → r.Stops) ∧
        (r.call.query = .riskOffNow → r.Stops → ∃ k p, r.began ≤ k ∧ k ≤ r.ended ∧
          placedAfter s.published k = some p ∧ Blocks cfg p r.call.now) := by
  intro s b r hr
  have h := run_coherent hlimit hargs bots hallowed
  obtain ⟨k, hlow, hhigh, hresult⟩ := ((h.bots b).right r hr).state
  constructor
  · intro hall
    obtain ⟨p, hp, hblocks⟩ := hall k hlow hhigh
    have hsound := h.files.sound_placedAfter hp
    rw [stateAfter, hp, Option.map_some] at hresult
    cases hquery : r.call.query with
    | evaluateEntry direction qty =>
      rw [decide_entry _ _ hquery] at hresult
      exact Or.inl ⟨_, hresult, decideEntry_blocks hsound hblocks _ _ _ _ _⟩
    | riskOffNow =>
      rw [decide_riskOff _ _ hquery] at hresult
      obtain ⟨reason, hreason⟩ := Option.ne_none_iff_exists'.mp ((decideRiskOff_iff hsound r.call.now).mpr hblocks)
      exact Or.inr ⟨reason, by rw [hresult, hreason]⟩
  · intro hquery hstops
    rw [decide_riskOff _ _ hquery] at hresult
    have hclose : decideRiskOff (stateAfter s.published k) r.call.now ≠ none := by
      rcases hstops with ⟨d, hd, -⟩ | ⟨reason, hreason⟩
      · rw [hresult] at hd
        cases hd
      · rw [hresult] at hreason
        rw [Answer.riskOff.inj (Except.ok.inj hreason)]
        exact Option.some_ne_none reason
    cases hplaced : placedAfter s.published k with
    | none =>
      rw [stateAfter, hplaced] at hclose
      exact absurd rfl hclose
    | some p =>
      rw [stateAfter, hplaced] at hclose
      exact ⟨k, p, hlow, hhigh, hplaced, (decideRiskOff_iff (h.files.sound_placedAfter hplaced) _).mp hclose⟩

/-- The last of the overlapping calls stops the bot. -/
theorem blackout_enforced_overlapping :
    let s := run (step 1000 (fun _ => 1) {}) (start gold) overlapping
    ∃ r ∈ (s.bots ()).replies, r.began = 1 ∧ r.ended = 1 ∧ r.Stops := by
  intro s
  have h := blackout_enforced (by decide) defaultArgs_writable gold overlapping overlapping_allowed
  have hfiles := (run_coherent (by decide) defaultArgs_writable gold overlapping_allowed).files
  have hreplies : (1, 1, monday) ∈ (s.bots ()).replies.map fun r => (r.began, r.ended, r.call.now) := by
    decide +kernel
  obtain ⟨r, hr, heq⟩ := List.mem_map.mp hreplies
  obtain ⟨hbegan, hended, hnow⟩ : r.began = 1 ∧ r.ended = 1 ∧ r.call.now = monday := by simpa using heq
  have hcloses : (placedAfter s.published 1).any (fun p => (decideRiskOff (some p.draft.view) monday).isSome) = true := by
    decide +kernel
  obtain ⟨p, hp, hsome⟩ := Option.any_eq_true _ _ |>.mp hcloses
  have hblocks : Blocks {} p monday :=
    (decideRiskOff_iff (hfiles.sound_placedAfter hp) monday).mp (Option.isSome_iff_ne_none.mp hsome)
  refine ⟨r, hr, hbegan, hended, (h () r hr).1 fun k hlow hhigh => ?_⟩
  obtain rfl : k = 1 := by omega
  rw [hnow]
  exact ⟨p, hp, hblocks⟩

/-- **A dead sidecar changes nothing:** where every state in place is past its time to live, or there is none, an entry is
decided as `default_when_stale` says, with its quantity as it was, and no positions are closed. -/
theorem dead_sidecar (hlimit : 4 ≤ limit) (hargs : cfg.args.Writable) (bots : β → BotConfig)
    (events : List (Event β)) (hallowed : StepsMeet (step limit halving cfg) Allowed (start bots) events) :
    let s := run (step limit halving cfg) (start bots) events
    ∀ b, ∀ r ∈ (s.bots b).replies,
      (∀ k, r.began ≤ k → k ≤ r.ended → ∀ p, placedAfter s.published k = some p →
        Expired cfg.args p.draft.turn.now r.call.now) →
      (∀ direction qty, r.call.query = .evaluateEntry direction qty → ∃ d, r.result = .ok (.decision d) ∧
        (d.action = .veto ↔ (bots b).whenStale = .block) ∧ d.qty = qty) ∧
        (r.call.query = .riskOffNow → r.result = .ok (.riskOff none)) := by
  intro s b r hr hexpired
  have h := run_coherent hlimit hargs bots hallowed
  obtain ⟨k, hlow, hhigh, hresult⟩ := ((h.bots b).right r hr).state
  have hunknown : ∀ ms ∈ stateAfter s.published k, ms.isStale r.call.now = true := by
    intro ms hms
    obtain ⟨p, hp, rfl⟩ := Option.map_eq_some_iff.mp hms
    exact (isStale_view (h.files.sound_placedAfter hp) _).mpr (hexpired k hlow hhigh p hp)
  constructor
  · intro direction qty hquery
    rw [decide_entry _ _ hquery] at hresult
    exact ⟨_, hresult, decideEntry_unknown hunknown _ _ _ _ _⟩
  · intro hquery
    rw [hresult, decide_riskOff _ _ hquery, decideRiskOff_unknown hunknown]

def oneOClock : DateTime := ⟨monday.us + 60 * microsPerMinute, by decide⟩

/-- A call an hour after the daemon was killed. -/
def deserted : List (Event Unit) :=
  [.turn noon (some 1), .write 10000 2, .replace, .kill, .stat (), .answer () (.evaluateEntry .long none) oneOClock]

theorem dead_sidecar_deserted :
    let s := run (step 1000 (fun _ => 1) {}) (start gold) deserted
    ∃ r ∈ (s.bots ()).replies, r.began = 1 ∧ ∃ d, r.result = .ok (.decision d) ∧ d.action = .allow := by
  intro s
  have hempty : (run (step 1000 (fun _ => 1) {}) (start gold) (deserted.take 2)).published = [] :=
    List.isEmpty_iff.mp (by decide +kernel)
  have hallowed : StepsMeet (step 1000 (fun _ => 1) {}) Allowed (start gold) deserted := by
    refine ⟨⟨fun g hg => (nomatch hg), fun r hr => (nomatch hr)⟩, trivial, fun file _ p hp => ?_, trivial, trivial,
      trivial, trivial⟩
    exact absurd (hempty ▸ hp) List.not_mem_nil
  have hreplies : (1, 1, oneOClock, Query.evaluateEntry .long none) ∈
      (s.bots ()).replies.map fun r => (r.began, r.ended, r.call.now, r.call.query) := by
    decide +kernel
  obtain ⟨r, hr, heq⟩ := List.mem_map.mp hreplies
  obtain ⟨hbegan, hended, hnow, hquery⟩ : r.began = 1 ∧ r.ended = 1 ∧ r.call.now = oneOClock ∧
      r.call.query = .evaluateEntry .long none := by
    simpa using heq
  have hstale : (placedAfter s.published 1).all (fun p => p.draft.view.isStale oneOClock) = true := by decide +kernel
  have hfiles := (run_coherent (by decide) defaultArgs_writable gold hallowed).files
  obtain ⟨hentry, -⟩ := dead_sidecar (by decide) defaultArgs_writable gold deserted hallowed () r hr fun k hlow hhigh p hp => by
    obtain rfl : k = 1 := by omega
    rw [hnow]
    exact (isStale_view (hfiles.sound_placedAfter hp) oneOClock).mp (Option.all_eq_true _ _ |>.mp hstale p hp)
  obtain ⟨d, hd, haction, -⟩ := hentry .long none hquery
  refine ⟨r, hr, hbegan, d, hd, (eq_allow_iff _).mpr (mt haction.mp ?_)⟩
  decide

end Sidecar

end Macro

end FreqTrading
