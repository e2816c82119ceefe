import FreqTrading.Engine.StopDiscipline

/-!
# The levels of an ENTRY

An ENTRY comes from one place: an armed engine, its range locked, and a close beyond it. The stop lies at the
clamped ATR distance behind that close and the take profit at its multiple ahead. The clamp is stated as the
nearest point of the window of the two settings. That the distance is positive is a fact about the whole
run: the range bars and the bar that breaks out have all been fed to the one ATR, which is zero only at a
single price.
-/

namespace FreqTrading

open Lib

/-! ### The nearest point of a window -/

/-- `d` is the point of the window `[lo, hi]` nearest to `x`, of which there is only one (`Clamped.unique`); a side that
is `none` is open. -/
structure Clamped (lo hi : Option ℚ) (x d : ℚ) : Prop where
  above : ∀ l ∈ lo, l ≤ d
  below : ∀ h ∈ hi, d ≤ h
  nearest : ∀ y, (∀ l ∈ lo, l ≤ y) → (∀ h ∈ hi, y ≤ h) → |x - d| ≤ |x - y|

variable {lo hi : Option ℚ} {x d d' : ℚ}

theorem clamped_free (x : ℚ) : Clamped none none x x :=
  ⟨by simp, by simp, fun y _ _ => by simp⟩

theorem clamped_cap (x u : ℚ) : Clamped none (some u) x (min x u) := by
  refine ⟨by simp, by simp, fun y _ hy => ?_⟩
  have hy := hy u rfl
  rcases le_total x u with hle | hle
  · simp [min_eq_left hle]
  · rw [min_eq_right hle, abs_of_nonneg (by linarith), abs_of_nonneg (by linarith)]
    linarith

theorem Clamped.floor (h : Clamped none hi x d) {l : ℚ} (hl : ∀ u ∈ hi, l ≤ u) :
    Clamped (some l) hi x (max d l) := by
  refine ⟨by simp, fun u hu => max_le (h.below u hu) (hl u hu), fun y hly hyu => ?_⟩
  have hly := hly l rfl
  rcases le_total l d with hle | hle
  · rw [max_eq_left hle]
    exact h.nearest y (by simp) hyu
  rw [max_eq_right hle]
  by_cases hx : x ≤ l
  · rw [abs_of_nonpos (by linarith), abs_of_nonpos (by linarith)]
    linarith
  · -- the floor is in the window of `d`, and not nearer to `x` than `d`
    have hnear := h.nearest l (by simp) hl
    rw [abs_of_nonneg (by linarith), abs_of_nonneg (by linarith)] at hnear
    obtain rfl : d = l := by linarith
    exact h.nearest y (by simp) hyu

/-- The midpoint of two nearest points is nearer, unless they are one. -/
theorem Clamped.unique (h : Clamped lo hi x d) (h' : Clamped lo hi x d') : d = d' := by
  have hmid := h.nearest ((d + d') / 2) (fun l hl => by linarith [h.above l hl, h'.above l hl])
    (fun u hu => by linarith [h.below u hu, h'.below u hu])
  have hone := h.nearest d' h'.above h'.below
  have htwo := h'.nearest d h.above h.below
  have heq : |x - d| = |x - d'| := le_antisymm hone htwo
  rcases abs_eq_abs.mp heq with hsame | hopp
  · linarith
  · -- the two lie on either side of `x`, and their midpoint is `x`
    have hzero : x - (d + d') / 2 = 0 := by linarith
    rw [hzero, abs_zero] at hmid
    have := abs_eq_zero.mp (le_antisymm hmid (abs_nonneg _))
    linarith

namespace OrbEngine

variable {cfg : OrbConfig} {e e' : OrbEngine} {c : Candle} {info : SessionInfo} {sig : Option Signal} {s : Signal}

theorem stopMin_le_max {l u : ℚ} (hl : cfg.stopMinDist = some l) (hu : cfg.stopMaxDist = some u) : l ≤ u := by
  have hcheck : (cfg.stopMinDist.any fun lo => cfg.stopMaxDist.any (· < lo),
      "stop_min_dist must be <= stop_max_dist").1 = false :=
    cfg.check_passes (by simp [OrbConfigFields.checks])
  simpa [hl, hu] using hcheck

theorem stopDist_clamped (cfg : OrbConfig) (atr : ℚ) :
    Clamped cfg.stopMinDist cfg.stopMaxDist (cfg.atrMult * atr) (stopDist cfg atr) := by
  unfold stopDist
  cases hmax : cfg.stopMaxDist with
  | none =>
    cases hmin : cfg.stopMinDist with
    | none => exact clamped_free _
    | some l => exact (clamped_free _).floor (by simp)
  | some u =>
    cases hmin : cfg.stopMinDist with
    | none => exact clamped_cap _ u
    | some l => exact (clamped_cap _ u).floor fun v hv => stopMin_le_max hmin (hmax.trans hv)

/-! ### The bar of an ENTRY -/

/-- The levels of an ENTRY off the range `[lo, hi]` at the stop distance `dist`. -/
structure EntryLevels (cfg : OrbConfig) (s : Signal) (hi lo atr dist : ℚ) : Prop where
  range : s.rangeHigh = some hi ∧ s.rangeLow = some lo
  measured : s.atr = some atr
  clamped : Clamped cfg.stopMinDist cfg.stopMaxDist (cfg.atrMult * atr) dist
  positive : 0 < dist
  long : s.direction = .long →
    hi < s.price ∧ s.stop = some (s.price - dist) ∧ s.tp = cfg.tpRrr.map fun rrr => s.price + rrr * dist
  short : s.direction = .short →
    s.price < lo ∧ s.stop = some (s.price + dist) ∧ s.tp = cfg.tpRrr.map fun rrr => s.price - rrr * dist

/-- The engine holds the locked range and the ATR of the ENTRY it has just emitted. -/
def Emitted (cfg : OrbConfig) (e : OrbEngine) (s : Signal) : Prop :=
  e.rangeLocked = true ∧ ∃ hi lo atr dist, e.rangeHi = some hi ∧ e.rangeLo = some lo ∧ e.atr.value = some atr ∧
    EntryLevels cfg s hi lo atr dist

theorem entrySignal_levels (hkeep : KeepsDistance cfg) {d : Direction} {hi lo atr : ℚ} (hhi : e.rangeHi = some hi)
    (hlo : e.rangeLo = some lo) (hdir : e.breakoutDirection c = .ok (some d)) (hatr : 2 ≤ cfg.atrPeriod → 0 < atr)
    (m : Momentum) : EntryLevels cfg (e.entrySignal cfg c d atr m) hi lo atr (stopDist cfg atr) := by
  have hpos := stopDist_pos hkeep hatr
  have hbeyond := (breakoutDirection_beyond hdir).2
  refine ⟨⟨hhi, hlo⟩, rfl, stopDist_clamped cfg atr, hpos, fun hlong => ?_, fun hshort => ?_⟩
  · obtain rfl : d = .long := hlong
    obtain ⟨-, hi', hhi', hlt⟩ | ⟨hd, -⟩ := hbeyond
    · obtain rfl := Option.some.inj (hhi.symm.trans hhi')
      refine ⟨hlt, rfl, ?_⟩
      show initialTp cfg .long c.close (c.close - stopDist cfg atr) = _
      rw [initialTp, sub_sub_cancel_left, abs_neg, abs_of_pos hpos]
      rfl
    · cases hd
  · obtain rfl : d = .short := hshort
    obtain ⟨hd, -⟩ | ⟨-, lo', hlo', hlt⟩ := hbeyond
    · cases hd
    · obtain rfl := Option.some.inj (hlo.symm.trans hlo')
      refine ⟨hlt, rfl, ?_⟩
      show initialTp cfg .short c.close (c.close + stopDist cfg atr) = _
      rw [initialTp, add_sub_cancel_left, abs_of_pos hpos]
      rfl

theorem HandlerStep.entry_defined (h : HandlerStep cfg e c info (some s) e') (hkind : s.kind = .entry) :
    e.state = .rangeDefined := by
  cases h with
  | armed _ hstate | broke _ _ _ hstate => exact hstate
  | left | partly => cases hkind

theorem dispatch_entry (hcore : Core e) (h : e.dispatch cfg c info = .ok (some s, e')) (hkind : s.kind = .entry) :
    e.state = .rangeDefined ∧ ∃ d atr m, ¬ e.Building info ∧ e.breakoutDirection c = .ok (some d) ∧
      e.atr.value = some atr ∧ s = (e.settleRange info).entrySignal cfg c d atr m ∧
      e' = (e.settleRange info).openPosition cfg c d atr := by
  have hstate := (dispatch_cases hcore.ne_exit h).entry_defined hkind
  refine ⟨hstate, ?_⟩
  unfold dispatch at h
  simp only [hstate] at h
  rcases onRangeDefined_entry (hcore.pos_none (by rw [hstate]; decide)) h with ⟨-, hno⟩ | hentry
  · exact absurd hkind (hno s rfl)
  · obtain ⟨d, atr, m, hbuild, hdir, hatr, hsig, he⟩ := hentry
    exact ⟨d, atr, m, hbuild, hdir, hatr, Option.some.inj hsig, he⟩

/-- **The bar of an ENTRY.** -/
theorem onCandle_entry (hkeep : KeepsDistance cfg) (hsound : Sound cfg e) (hfed : 2 ≤ cfg.atrPeriod → Fed cfg e)
    {raw : RawCandle} (h : e.onCandle cfg raw = .ok (some s, e')) (hkind : s.kind = .entry) : Emitted cfg e' s := by
  obtain ⟨c, -, ⟨-, hnone, -⟩ | ⟨hlate, hdone | ⟨entered, hgo, hdispatch⟩⟩⟩ := onCandle_intake h
  · cases hnone
  · cases hdone <;> cases hkind
  have hentered := hsound.entered hlate hgo
  obtain ⟨hstate, d, atr, m, hbuild, hdir, hatr, rfl, rfl⟩ := dispatch_entry hentered.core hdispatch hkind
  have hin := hentered.inside (by rw [hstate]; decide)
  obtain ⟨hi, lo, hhi, hlo, -⟩ := hentered.core.range.of_isSome (breakoutDirection_beyond hdir).1
  have hmoved : 2 ≤ cfg.atrPeriod → 0 < atr := by
    intro hperiod
    have := moved_of_breakout ((hgo.fed_go (hfed hperiod) hperiod).feed hperiod hin) hdir
    rwa [level_eq hatr] at this
  refine ⟨settleRange_locked hin hbuild, hi, lo, atr, stopDist cfg atr, settleRange_rangeHi.trans hhi,
    settleRange_rangeLo.trans hlo, (congrArg WilderATR.value settleRange_atr).trans hatr, ?_⟩
  exact entrySignal_levels hkeep (settleRange_rangeHi.trans hhi) (settleRange_rangeLo.trans hlo)
    (settleRange_breakoutDirection.trans hdir) hmoved m

end OrbEngine

namespace EngineRun

variable {cfg : OrbConfig}

/-! ### Over runs -/

theorem step_fed {r : EngineRun} (op : EngineOp)
    (h : r.engine.Sound cfg ∧ (2 ≤ cfg.atrPeriod → r.engine.Fed cfg)) :
    (step cfg r op).engine.Sound cfg ∧ (2 ≤ cfg.atrPeriod → (step cfg r op).engine.Fed cfg) := by
  obtain ⟨hsound, hfed⟩ := h
  rcases step_cases cfg r op with ⟨heng, -⟩ | ⟨raw, sig, e', -, hbar, hstep⟩ | ⟨ts, -, hstep⟩ | ⟨-, heng, -⟩
  · rw [heng]
    exact ⟨hsound, hfed⟩
  · rw [hstep]
    obtain ⟨c, -, hcase⟩ := OrbEngine.onCandle_cases hsound.core.ne_exit hbar
    exact ⟨hcase.sound hsound, fun hperiod => OrbEngine.onCandle_fed hperiod hsound (hfed hperiod) hbar⟩
  · rw [hstep]
    exact ⟨OrbEngine.forceFlat_sound hsound ts, fun hperiod => OrbEngine.forceFlat_fed (hfed hperiod) ts⟩
  · rw [heng]
    exact ⟨OrbEngine.sound_init, OrbEngine.fed_init⟩

theorem run_fed (cfg : OrbConfig) (ops : List EngineOp) :
    (run (step cfg) (start cfg) ops).engine.Sound cfg ∧
      (2 ≤ cfg.atrPeriod → (run (step cfg) (start cfg) ops).engine.Fed cfg) :=
  run_always (I := fun r : EngineRun => r.engine.Sound cfg ∧ (2 ≤ cfg.atrPeriod → r.engine.Fed cfg))
    (fun _ op h => step_fed op h) ⟨OrbEngine.sound_init, OrbEngine.fed_init⟩ ops

theorem step_emits (cfg : OrbConfig) (r : EngineRun) (op : EngineOp) :
    (step cfg r op).emitted = r.emitted ∨ ∃ s, (step cfg r op).emitted = r.emitted ++ [s] := by
  rcases step_cases cfg r op with ⟨-, hemit⟩ | ⟨raw, sig, e', -, -, hstep⟩ | ⟨ts, -, hstep⟩ | ⟨-, -, hemit⟩
  · exact Or.inl hemit
  · rw [hstep]
    cases sig with
    | none => exact Or.inl (List.append_nil _)
    | some s => exact Or.inr ⟨s, rfl⟩
  · rw [hstep]
    cases hsig : (r.engine.forceFlat cfg ts).1 with
    | none => exact Or.inl (List.append_nil _)
    | some s => exact Or.inr ⟨s, rfl⟩
  · exact Or.inl hemit

theorem emitted_by (ops : List EngineOp) {s : Signal} (h : s ∈ (run (step cfg) (start cfg) ops).emitted) :
    ∃ before op after, ops = before ++ op :: after ∧
      (step cfg (run (step cfg) (start cfg) before) op).emitted =
        (run (step cfg) (start cfg) before).emitted ++ [s] := by
  have hlog : ∀ r op, ∃ new, (step cfg r op).emitted = r.emitted ++ new := by
    intro r op
    rcases step_emits cfg r op with hsame | ⟨s', hnew⟩
    · exact ⟨[], by simp [hsame]⟩
    · exact ⟨[s'], hnew⟩
  rcases mem_log_run hlog h with hstart | ⟨before, op, after, new, hops, hnew, hs⟩
  · cases hstart
  refine ⟨before, op, after, hops, ?_⟩
  rcases step_emits cfg (run (step cfg) (start cfg) before) op with hsame | ⟨s', hone⟩
  · obtain rfl : new = [] := List.self_eq_append_right.mp (hsame.symm.trans hnew)
    cases hs
  · rw [hone] at hnew
    obtain rfl : [s'] = new := List.append_cancel_left hnew
    obtain rfl : s = s' := by simpa using hs
    exact hone

theorem step_entry (hkeep : OrbEngine.KeepsDistance cfg) {r : EngineRun} {op : EngineOp}
    (h : r.engine.Sound cfg ∧ (2 ≤ cfg.atrPeriod → r.engine.Fed cfg)) {s : Signal}
    (hemit : (step cfg r op).emitted = r.emitted ++ [s]) (hkind : s.kind = .entry) :
    OrbEngine.Emitted cfg (step cfg r op).engine s := by
  have hnot : r.emitted ≠ r.emitted ++ [s] := by simp
  rcases step_cases cfg r op with ⟨-, hsame⟩ | ⟨raw, sig, e', -, hbar, hstep⟩ | ⟨ts, -, hstep⟩ | ⟨-, -, hsame⟩
  · exact absurd (hsame.symm.trans hemit) hnot
  · rw [hstep] at hemit ⊢
    have hsig : sig.toList = [s] := List.append_cancel_left hemit
    obtain rfl : sig = some s := by
      cases sig with
      | none => cases hsig
      | some s' => simpa using hsig
    exact OrbEngine.onCandle_entry hkeep h.1 h.2 hbar hkind
  · rw [hstep] at hemit
    have hsig : (r.engine.forceFlat cfg ts).1.toList = [s] := List.append_cancel_left hemit
    have hflat : (r.engine.forceFlat cfg ts).1 = some s := by simpa using hsig
    have hexit := OrbEngine.forceFlat_kind hflat
    rw [hkind] at hexit
    cases hexit
  · exact absurd (hsame.symm.trans hemit) hnot

/-- **The levels of an ENTRY.** With an ATR of period two or more or a minimum stop distance, every ENTRY of
every run was emitted by a call that left the engine with a locked range; the price is strictly beyond it, the
stop lies behind the price at the clamped ATR distance, which is positive, and the take profit, if one is set,
lies ahead at its multiple. -/
theorem entry_levels (cfg : OrbConfig) (hkeep : 2 ≤ cfg.atrPeriod ∨ cfg.stopMinDist.isSome = true)
    (ops : List EngineOp) : ∀ s ∈ (run (step cfg) (start cfg) ops).emitted, s.kind = .entry →
      ∃ before op after, ops = before ++ op :: after ∧
        let r := run (step cfg) (start cfg) before
        (step cfg r op).emitted = r.emitted ++ [s] ∧
        (step cfg r op).engine.rangeLocked = true ∧
        ∃ hi lo atr dist, (step cfg r op).engine.rangeHi = some hi ∧ (step cfg r op).engine.rangeLo = some lo ∧
          (step cfg r op).engine.atr.value = some atr ∧ OrbEngine.EntryLevels cfg s hi lo atr dist := by
  intro s hs hkind
  obtain ⟨before, op, after, hops, hemit⟩ := emitted_by ops hs
  exact ⟨before, op, after, hops, hemit, step_entry hkeep (run_fed cfg before) hemit hkind⟩

/-- The theorem on a breakout to 2005 over a range up to 2001. -/
theorem entry_levels_long : ∃ s ∈ longOpened.emitted, s.kind = .entry ∧ ∃ before op after,
    [.candle (minuteBar 0 2000 2001 1999 2000), .candle (minuteBar 1 2002 2006 2001 2005)] = before ++ op :: after ∧
      let r := run (step partialConfig) (start partialConfig) before
      (step partialConfig r op).emitted = r.emitted ++ [s] ∧
      (step partialConfig r op).engine.rangeLocked = true ∧
      ∃ hi lo atr dist, (step partialConfig r op).engine.rangeHi = some hi ∧
        (step partialConfig r op).engine.rangeLo = some lo ∧
        (step partialConfig r op).engine.atr.value = some atr ∧
        OrbEngine.EntryLevels partialConfig s hi lo atr dist := by
  obtain ⟨s, hs, hkind⟩ : ∃ s ∈ longOpened.emitted, s.kind = .entry := by decide +kernel
  exact ⟨s, hs, hkind, entry_levels partialConfig (Or.inl (by decide)) _ s hs hkind⟩

end EngineRun

end FreqTrading
