import FreqTrading.Macro.Daemon
import FreqTrading.Macro.Vetoes

/-!
# How long a war spike lasts

`merge_geo` lets a blackout end `cooldown_min` after the state is written, not after the verdict: the verdict that
the daemon keeps is merged again at every write. `expires_iff` says which runs of the daemon show no blackout for a
war spike without a verdict of the last `cooldown_min` minutes.
-/

namespace FreqTrading

namespace Macro

open Lib

/-! ### Blackouts for a war spike -/

/-- The reason of `merge_geo`. -/
def warSpikeReason : Text := "war_spike".toList

/-- The verdict puts a blackout on. -/
def Spike (g : GeoResult) : Prop := g.riskOff = true ∧ g.warSpike = true

instance : DecidablePred Spike := fun g => inferInstanceAs (Decidable (g.riskOff = true ∧ g.warSpike = true))

def ShowsSpike (s : State) : Prop :=
  s.global.blackout.active = true ∧ s.global.blackout.reason = some warSpikeReason

instance : DecidablePred ShowsSpike := fun s =>
  inferInstanceAs (Decidable (s.global.blackout.active = true ∧ s.global.blackout.reason = some warSpikeReason))

/-- The blackout of the calendar happens to have the same reason (a title can be anything). -/
def CalendarSpike (args : Args) (events : List RawEvent) (now : DateTime) : Prop :=
  ∃ b, activeBlackout events now args.preMin args.postMin defaultImpacts = .ok (some b) ∧ b.reason = some warSpikeReason

variable {halving : ℚ → ℚ} {args : Args} {events : List RawEvent} {now : DateTime} {geo : Option GeoResult} {s s' : State}

theorem mergeGeo_spike {g : GeoResult} (hspike : Spike g) (h : mergeGeo s (some g) now = .ok s') : ShowsSpike s' := by
  obtain ⟨hrisk, hwar⟩ := hspike
  simp only [mergeGeo, hrisk, not_true, if_false, hwar, if_true] at h
  obtain ⟨until', -, h⟩ := bind_ok.mp h
  cases h
  exact ⟨rfl, rfl⟩

theorem mergeGeo_noSpike (hspike : ∀ g ∈ geo, ¬ Spike g) (h : mergeGeo s geo now = .ok s') :
    s'.global.blackout = s.global.blackout := by
  cases geo with
  | none =>
    cases h
    rfl
  | some g =>
    have hnot := hspike g rfl
    by_cases hrisk : g.riskOff = true
    · have hwar : ¬ g.warSpike = true := fun hwar => hnot ⟨hrisk, hwar⟩
      simp only [mergeGeo, hrisk, not_true, if_false, if_neg hwar] at h
      cases h
      rfl
    · simp only [mergeGeo, hrisk] at h
      cases h
      rfl

theorem activeBlackout_isActive {preMin postMin : Int} {impacts : List Impact} {b : BlackoutState}
    (h : activeBlackout events now preMin postMin impacts = .ok (some b)) : b.active = true := by
  unfold activeBlackout at h
  obtain ⟨found, -, h⟩ := bind_ok.mp h
  cases found with
  | nil => cases h
  | cons hit rest =>
    cases h
    rfl

theorem finish_showsSpike (hinactive : s.global.blackout.active = false) (h : finish args events now geo s = .ok s') :
    ShowsSpike s' ↔ (∃ g ∈ geo, Spike g) ∨ CalendarSpike args events now := by
  unfold finish at h
  obtain ⟨bo, hbo, h⟩ := bind_ok.mp h
  obtain ⟨rows, -, h⟩ := bind_ok.mp h
  by_cases hspike : ∃ g ∈ geo, Spike g
  · refine iff_of_true ?_ (Or.inl hspike)
    obtain ⟨g, hg, hspike⟩ := hspike
    rw [Option.mem_def.mp hg] at h
    exact mergeGeo_spike hspike h
  · rw [or_iff_right hspike]
    have hkept := mergeGeo_noSpike (fun g hg hg' => hspike ⟨g, hg, hg'⟩) h
    unfold ShowsSpike CalendarSpike
    rw [hkept, hbo]
    cases bo with
    | none => simp [hinactive]
    | some b => simp [activeBlackout_isActive hbo]

theorem buildState_showsSpike {agg : Option (List (Text × Sentiment))} {theme : Option ThemeResult}
    (h : buildState halving args events now geo agg theme = .ok s) :
    ShowsSpike s ↔ (∃ g ∈ geo, Spike g) ∨ CalendarSpike args events now := by
  refine finish_showsSpike ?_ h
  rw [(mergeThematic_rest _ theme).blackout, (mergeSentiment_rest _ agg).blackout]
  rfl

/-! ### The verdicts of a run -/

/-- Some verdict with a war spike lies in the cooldown before `now`. -/
def RecentSpike (verdicts : List Verdict) (now : DateTime) : Prop :=
  ∃ v ∈ verdicts, v.2.warSpike = true ∧ now.us - cooldown ≤ v.1.us ∧ v.1.us ≤ now.us

instance (verdicts : List Verdict) (now : DateTime) : Decidable (RecentSpike verdicts now) :=
  inferInstanceAs (Decidable (∃ v ∈ verdicts, _))

/-- A written state with a blackout for a war spike has a recent one. -/
def Written.Justified (w : Written) : Prop := ShowsSpike w.state → RecentSpike w.verdicts w.now

instance (w : Written) : Decidable w.Justified := inferInstanceAs (Decidable (_ → _))

namespace Daemon

variable {cfg : DaemonConfig} {d : Daemon} {t : Turn}

/-- A state is written in this turn. -/
def WritesState (cfg : DaemonConfig) (d : Daemon) (t : Turn) : Prop :=
  d.crashed = false ∧ t.writes = true ∧ Fits cfg.args (d.refreshed cfg t).events t.now

/-- Every state written so far is justified. -/
def Justified (d : Daemon) : Prop := ∀ w ∈ d.written, w.Justified

instance (d : Daemon) : Decidable d.Justified := inferInstanceAs (Decidable (∀ w ∈ d.written, _))

/-- The kept verdict, if it is a war spike, is not older than the cooldown when a state is written; and without one, the
calendar does not use its reason unless there was a spike in that time. -/
def SpikeInTime (cfg : DaemonConfig) (d : Daemon) (t : Turn) : Prop :=
  WritesState cfg d t →
    (∀ v ∈ (d.refreshed cfg t).verdicts.getLast?, Spike v.2 → t.now.us ≤ v.1.us + cooldown) ∧
    (CalendarSpike cfg.args (d.refreshed cfg t).events t.now →
      (∀ v ∈ (d.refreshed cfg t).verdicts.getLast?, ¬ Spike v.2) → RecentSpike (d.refreshed cfg t).verdicts t.now)

/-- The verdicts are in order, and the last one is kept. -/
structure VerdictState (d : Daemon) : Prop where
  kept : d.geo = d.verdicts.getLast?.map Prod.snd
  ordered : d.verdicts.Pairwise fun v v' => v.1.us ≤ v'.1.us

/-- The verdicts so far are not from later than the turn. -/
def Until (d : Daemon) (t : Turn) : Prop := ∀ v ∈ d.verdicts, v.1.us ≤ t.now.us

theorem refreshed_verdicts (cfg : DaemonConfig) (d : Daemon) (t : Turn) :
    (d.refreshed cfg t).geo = d.geo ∧ (d.refreshed cfg t).verdicts = d.verdicts ∨
      ∃ g, (d.refreshed cfg t).geo = some g ∧ (d.refreshed cfg t).verdicts = d.verdicts ++ [(t.now, g)] := by
  unfold refreshed
  split
  · unfold refresh
    cases t.geo with
    | none => exact Or.inl ⟨by simp, by simp⟩
    | some g => exact Or.inr ⟨g, rfl, rfl⟩
  · exact Or.inl ⟨rfl, rfl⟩

theorem refreshed_verdictState (cfg : DaemonConfig) (h : VerdictState d) (huntil : d.Until t) :
    VerdictState (d.refreshed cfg t) ∧ (d.refreshed cfg t).Until t := by
  rcases refreshed_verdicts cfg d t with ⟨hgeo, hverdicts⟩ | ⟨g, hgeo, hverdicts⟩
  · refine ⟨⟨?_, ?_⟩, ?_⟩
    · rw [hgeo, hverdicts, h.kept]
    · rw [hverdicts]
      exact h.ordered
    · unfold Until
      rw [hverdicts]
      exact huntil
  · refine ⟨⟨?_, ?_⟩, ?_⟩
    · rw [hgeo, hverdicts, List.getLast?_concat]
      rfl
    · rw [hverdicts, List.pairwise_append]
      refine ⟨h.ordered, List.pairwise_singleton _ _, fun v hv v' hv' => ?_⟩
      rw [List.mem_singleton.mp hv']
      exact huntil v hv
    · intro v hv
      rw [hverdicts] at hv
      rcases List.mem_append.mp hv with hv | hv
      · exact huntil v hv
      · rw [List.mem_singleton.mp hv]

theorem iterate_verdictState (t : Turn) (h : VerdictState d) (huntil : d.Until t) :
    VerdictState (d.iterate halving cfg t) := by
  by_cases hcrashed : d.crashed = true
  · rwa [iterate_crashed halving cfg t hcrashed]
  · have hsame := iterate_sameSources halving cfg t (Bool.not_eq_true _ ▸ hcrashed)
    have hnext := (refreshed_verdictState cfg h huntil).1
    exact ⟨by rw [hsame.geo, hsame.verdicts]; exact hnext.kept, by rw [hsame.verdicts]; exact hnext.ordered⟩

theorem recentSpike_iff (h : VerdictState d) (huntil : d.Until t) {v : Verdict} (hlast : d.verdicts.getLast? = some v)
    (hspike : Spike v.2) : RecentSpike d.verdicts t.now ↔ t.now.us ≤ v.1.us + cooldown := by
  have hmem := List.mem_of_getLast? hlast
  constructor
  · rintro ⟨v', hv', -, hrecent, -⟩
    obtain ⟨older, heq⟩ := List.getLast?_eq_some_iff.mp hlast
    have hle : v'.1.us ≤ v.1.us := by
      rw [heq] at hv'
      rcases List.mem_append.mp hv' with hold | hold
      · have hordered := h.ordered
        rw [heq, List.pairwise_append] at hordered
        exact hordered.2.2 v' hold v List.mem_cons_self
      · rw [List.mem_singleton.mp hold]
    omega
  · intro hin
    exact ⟨v, hmem, hspike.2, by omega, huntil v hmem⟩

/-- A state built from these sources is justified exactly if its spike is in time. -/
theorem built_justified (h : VerdictState d) (huntil : d.Until t) {state : State}
    (hbuild : buildState halving cfg.args d.events t.now d.geo d.newsSent d.theme = .ok state) :
    Written.Justified ⟨t.now, state, d.verdicts⟩ ↔
      (∀ v ∈ d.verdicts.getLast?, Spike v.2 → t.now.us ≤ v.1.us + cooldown) ∧
        (CalendarSpike cfg.args d.events t.now → (∀ v ∈ d.verdicts.getLast?, ¬ Spike v.2) →
          RecentSpike d.verdicts t.now) := by
  unfold Written.Justified
  simp only [buildState_showsSpike hbuild, h.kept]
  cases hlast : d.verdicts.getLast? with
  | none => simp
  | some v =>
    by_cases hspike : Spike v.2
    · have hrecent := recentSpike_iff h huntil hlast hspike
      simp [hspike, hrecent]
    · simp [hspike]

theorem iterate_written (halving : ℚ → ℚ) (cfg : DaemonConfig) (d : Daemon) (t : Turn) :
    (d.iterate halving cfg t).written = d.written ∧ ¬ WritesState cfg d t ∨
      ∃ state, buildState halving cfg.args (d.refreshed cfg t).events t.now (d.refreshed cfg t).geo
          (d.refreshed cfg t).newsSent (d.refreshed cfg t).theme = .ok state ∧ WritesState cfg d t ∧
        (d.iterate halving cfg t).written = d.written ++ [⟨t.now, state, (d.refreshed cfg t).verdicts⟩] := by
  have hrefreshed : (d.refreshed cfg t).written = d.written := by
    unfold refreshed
    split <;> rfl
  unfold iterate
  by_cases hcrashed : d.crashed = true
  · rw [if_pos hcrashed]
    exact Or.inl ⟨rfl, fun hwrites => Bool.noConfusion (hcrashed.symm.trans hwrites.1)⟩
  rw [if_neg hcrashed]
  unfold runOnce
  split
  · next err hbuild =>
    refine Or.inl ⟨hrefreshed, fun hwrites => ?_⟩
    obtain ⟨state, hstate⟩ := (finish_ok_iff _ (d.refreshed cfg t).geo).mpr hwrites.2.2
    rw [buildState, hstate] at hbuild
    cases hbuild
  · next state hbuild =>
    have hfits := (finish_ok_iff _ _).mp ⟨state, hbuild⟩
    by_cases hok : t.writes = true
    · rw [if_pos hok, hrefreshed]
      exact Or.inr ⟨state, hbuild, ⟨Bool.not_eq_true _ ▸ hcrashed, hok, hfits⟩, rfl⟩
    · rw [if_neg hok]
      exact Or.inl ⟨hrefreshed, fun hwrites => hok hwrites.2.1⟩

theorem iterate_justified (h : VerdictState d) (huntil : d.Until t) :
    (d.iterate halving cfg t).Justified ↔ d.Justified ∧ SpikeInTime cfg d t := by
  obtain ⟨hnext, huntil'⟩ := refreshed_verdictState cfg h huntil
  unfold Justified SpikeInTime
  rcases iterate_written halving cfg d t with ⟨hsame, hnot⟩ | ⟨state, hbuild, hwrites, hwritten⟩
  · rw [hsame]
    exact (and_iff_left fun hwrites => absurd hwrites hnot).symm
  · rw [hwritten]
    simp only [List.forall_mem_append, List.forall_mem_singleton, built_justified hnext huntil' hbuild, hwrites,
      forall_const]

/-- **Every blackout for a war spike has a recent one exactly if the kept verdict is replaced in time.** -/
theorem expires_iff (halving : ℚ → ℚ) (cfg : DaemonConfig) {turns : List Turn}
    (hclock : turns.Pairwise fun t u => t.now.us ≤ u.now.us) :
    (run (iterate halving cfg) {} turns).Justified ↔ StepsMeet (iterate halving cfg) (SpikeInTime cfg) {} turns := by
  have hstart : VerdictState {} := ⟨rfl, List.Pairwise.nil⟩
  have huntil : StepsMeet (iterate halving cfg) Until {} turns := by
    refine stepsMeet_of_pairwise (fun d t u hu htu v hv => ?_) (fun t _ v hv => by cases hv) hclock
    by_cases hcrashed : d.crashed = true
    · rw [iterate_crashed halving cfg t hcrashed] at hv
      exact hu v hv
    · rw [(iterate_sameSources halving cfg t (Bool.not_eq_true _ ▸ hcrashed)).verdicts] at hv
      rcases refreshed_verdicts cfg d t with ⟨-, hverdicts⟩ | ⟨g, -, hverdicts⟩
      · rw [hverdicts] at hv
        exact hu v hv
      · rw [hverdicts] at hv
        rcases List.mem_append.mp hv with hv | hv
        · exact hu v hv
        · rw [List.mem_singleton.mp hv]
          exact htu
  rw [run_iff_within (I := VerdictState) (D := Until) (C := SpikeInTime cfg)
    (G := Justified) (fun d t h hu => iterate_verdictState t h hu)
    (fun d t h hu => iterate_justified h hu) hstart huntil]
  exact and_iff_right fun w hw => by cases hw

/-! ### A provider that stops answering -/

/-- Two hours and a minute after the epoch. -/
def laterMorning : DateTime := ⟨7260000000, by decide⟩

def spikeVerdict : GeoResult := ⟨true, true, 8 / 10, [], 9 / 10⟩

theorem not_calendarSpike (h : events.length = 0) : ¬ CalendarSpike args events now := by
  rw [List.eq_nil_of_length_eq_zero h]
  rintro ⟨b, hb, -⟩
  cases hb

/-- A war spike, and a turn an hour later that writes it again. -/
theorem expires_inTime :
    (run (iterate (fun _ => 1) {}) {} [⟨0, epoch, some [], some spikeVerdict, none, none, true⟩,
      ⟨60, ⟨3600000000, by decide⟩, none, none, none, none, true⟩]).Justified :=
  (expires_iff (fun _ => 1) {} (by decide)).mpr
    ⟨fun _ => ⟨by decide +kernel, fun h => absurd h (not_calendarSpike (by decide +kernel))⟩,
      fun _ => ⟨by decide +kernel, fun h => absurd h (not_calendarSpike (by decide +kernel))⟩, trivial⟩

/-- A war spike, and a refresh for which the provider has no answer. -/
def silenced : List Turn :=
  [⟨0, epoch, some [], some spikeVerdict, none, none, true⟩, ⟨7260, laterMorning, some [], none, none, none, true⟩]

theorem expires_silenced :
    ¬ ∀ (halving : ℚ → ℚ) (cfg : DaemonConfig) (turns : List Turn),
      (turns.Pairwise fun t u => t.now.us ≤ u.now.us) → (run (iterate halving cfg) {} turns).Justified := by
  intro h
  have hjustified := h (fun _ => 1) {} silenced (by decide)
  have hnot : ¬ (run (iterate (fun _ => 1) {}) {} silenced).Justified := by decide +kernel
  exact hnot hjustified

end Daemon

end Macro

end FreqTrading
