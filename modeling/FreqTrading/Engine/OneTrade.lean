import FreqTrading.Engine.Runs

/-!
# One trade per session

With `one_trade_per_session` an engine that has left its trade goes idle, and nothing reads the flag
`_traded_this_session`: what keeps it from trading again is only that no later bar of the session arms it.
Two bars do. After a data gap inside the session the engine rebuilds a range, whether it has traded or not,
and an idle bar of the opening window opens one. `Rearms` names them; over runs without them every session
id has at most one ENTRY, and a gap gives a session with two.
-/

namespace FreqTrading

open Lib

variable {cfg : OrbConfig}

namespace OrbEngine

variable {e e' : OrbEngine} {c : Candle} {info : SessionInfo} {sig : Option Signal}

/-- The engine has traded in the session of this moment, and a bar at it arms the engine again. -/
def RearmsAt (cfg : OrbConfig) (e : OrbEngine) (ts : Int) : Prop :=
  e.tradedThisSession = true ∧ e.sessionId = some (SessionClock.place cfg ts).sessionId ∧
    ((e.GapResets cfg ts ∧ (SessionClock.place cfg ts).zone.Inside) ∨
      (e.state = .idle ∧ (SessionClock.place cfg ts).zone = .inRangeWindow))

instance (cfg : OrbConfig) (e : OrbEngine) (ts : Int) : Decidable (e.RearmsAt cfg ts) :=
  inferInstanceAs (Decidable (_ ∧ _ ∧ (_ ∨ _)))

/-- An engine that has traded is not armed. -/
def Spent (e : OrbEngine) : Prop := e.tradedThisSession = true → e.state ≠ .rangeDefined

theorem afterGap_traded : (e.afterGap cfg info).tradedThisSession = e.tradedThisSession := by
  unfold afterGap
  split <;> rfl

theorem afterGap_spent (cfg : OrbConfig) (h : e.tradedThisSession = true → ¬ info.zone.Inside) : Spent (e.afterGap cfg info) := by
  intro htraded
  rw [afterGap_traded] at htraded
  unfold afterGap
  rw [if_neg (h htraded)]
  exact fun h => by cases h

theorem IntakeStep.traded_go (h : IntakeStep cfg e c info (.go e')) :
    (some info.sessionId ≠ e.sessionId ∧ e'.tradedThisSession = false ∧ e'.state = .idle) ∨
      (some info.sessionId = e.sessionId ∧ e'.tradedThisSession = e.tradedThisSession) := by
  cases h with
  | fresh hid => exact Or.inl ⟨hid, rfl, rfl⟩
  | gapReset hid => exact Or.inr ⟨hid, afterGap_traded⟩
  | plain hid => exact Or.inr ⟨hid, rfl⟩

theorem IntakeStep.traded_done (h : IntakeStep cfg e c info (.done sig e')) :
    (some info.sessionId ≠ e.sessionId ∧ e'.tradedThisSession = false) ∨
      (some info.sessionId = e.sessionId ∧ e'.tradedThisSession = e.tradedThisSession) := by
  cases h with
  | carried _ hid => exact Or.inl ⟨hid, rfl⟩
  | closed _ hid | tornDown hid | quiet hid => exact Or.inr ⟨hid, rfl⟩
  | gapExit _ hid => exact Or.inr ⟨hid, afterGap_traded⟩

theorem IntakeStep.spent_go (h : IntakeStep cfg e c (SessionClock.place cfg c.ts) (.go e')) (hs : Spent e)
    (hno : ¬ e.RearmsAt cfg c.ts) : Spent e' := by
  cases h with
  | fresh => exact fun _ h => by cases h
  | gapReset hid _ hgap =>
    exact afterGap_spent cfg fun htraded hin => hno ⟨htraded, hid.symm, Or.inl ⟨hgap, hin⟩⟩
  | plain => exact hs

theorem IntakeStep.spent_done (h : IntakeStep cfg e c (SessionClock.place cfg c.ts) (.done sig e'))
    (hs : Spent e) (hno : ¬ e.RearmsAt cfg c.ts) : Spent e' := by
  cases h with
  | carried | closed | tornDown => exact fun _ h => by cases h
  | quiet => exact hs
  | gapExit pos hid _ hgap =>
    exact afterGap_spent cfg (e := { e with pos := none })
      fun htraded hin => hno ⟨htraded, hid.symm, Or.inl ⟨hgap, hin⟩⟩

theorem IntakeStep.idle_go (h : IntakeStep cfg e c info (.go e')) (hsame : some info.sessionId = e.sessionId)
    (hidle : e'.state = .idle) : e.state = .idle ∨ ¬ (SessionClock.place cfg c.ts).zone.Inside := by
  cases h with
  | fresh hid => exact absurd hsame hid
  | gapReset =>
    refine Or.inr fun hin => ?_
    unfold afterGap at hidle
    rw [if_pos hin] at hidle
    cases hidle
  | plain => exact Or.inl hidle

/-- Of the handler steps only the breakout sets the flag, and with one trade per session none but the
first bar of the opening window arms an idle engine. -/
theorem HandlerStep.spent (h : HandlerStep cfg e c info sig e') (hone : cfg.oneTradePerSession = true)
    (hrange : e.RangeOrdered) (hs : Spent e)
    (hno : ¬ (e.tradedThisSession = true ∧ e.state = .idle ∧ info.zone = .inRangeWindow)) : Spent e' := by
  cases h with
  | waiting => exact hs
  | opened hstate hzone =>
    intro htraded
    rw [(maybeLock_frame cfg _).2.2.2.2.2] at htraded
    exact absurd ⟨htraded, hstate, hzone⟩ hno
  | building built hstate hbuild hbuilt =>
    intro htraded
    rw [(maybeLock_frame cfg _).2.2.2.2.2, (buildRange_spec hrange hbuilt).2.2.2.2.2.2] at htraded
    exact absurd hstate (hs htraded)
  | armed sig hstate =>
    intro htraded
    have hsame : (e.settleRange info).tradedThisSession = e.tradedThisSession := by
      unfold settleRange lockRange; split <;> rfl
    exact absurd hstate (hs (hsame ▸ htraded))
  | broke => exact fun _ h => by cases h
  | left pos reason price =>
    intro _
    rw [(flatten_frame cfg _ _).1]
    rcases postExitState_cases cfg e with hidle | ⟨_, hmany⟩
    · rw [hidle]; exact fun h => by cases h
    · rw [hone] at hmany; cases hmany
  | partly _ _ hstate => exact fun _ h => by cases hstate.symm.trans h
  | trailed _ _ hstate => exact fun _ h => by cases hstate.symm.trans h

theorem HandlerStep.traded (h : HandlerStep cfg e c info sig e') (hrange : e.RangeOrdered) :
    ((∀ s ∈ sig, s.kind ≠ .entry) ∧ e'.tradedThisSession = e.tradedThisSession) ∨
      (e.state = .rangeDefined ∧ (∃ s, sig = some s ∧ s.ts = c.ts ∧ s.kind = .entry) ∧
        e'.tradedThisSession = true) := by
  cases h with
  | waiting => exact Or.inl ⟨by simp, rfl⟩
  | opened => exact Or.inl ⟨by simp, (maybeLock_frame cfg _).2.2.2.2.2⟩
  | building built _ _ hbuilt =>
    exact Or.inl ⟨by simp, (maybeLock_frame cfg _).2.2.2.2.2.trans (buildRange_spec hrange hbuilt).2.2.2.2.2.2⟩
  | armed sig _ _ hsig =>
    refine Or.inl ⟨fun s hs => by rw [hsig s hs]; decide, ?_⟩
    unfold settleRange lockRange
    split <;> rfl
  | broke direction atr m hstate => exact Or.inr ⟨hstate, ⟨_, rfl, rfl, rfl⟩, rfl⟩
  | left pos reason price =>
    refine Or.inl ⟨fun s hs => ?_, (flatten_frame cfg _ _).2.2.2.2.2⟩
    cases hs
    exact fun h => by cases h
  | partly =>
    refine Or.inl ⟨fun s hs => ?_, rfl⟩
    cases hs
    exact fun h => by cases h
  | trailed => exact Or.inl ⟨by simp, rfl⟩

theorem feedIndicators_frame (cfg : OrbConfig) (e : OrbEngine) (c : Candle) (info : SessionInfo) :
    (e.feedIndicators cfg c info).tradedThisSession = e.tradedThisSession ∧
      (e.feedIndicators cfg c info).state = e.state := by
  unfold feedIndicators
  split <;> exact ⟨rfl, rfl⟩

/-- **What a bar does to the traded flag.** Without a re-arming bar it stays spent; a bar with no ENTRY
keeps the flag in the session and clears it in another one; a bar with an ENTRY is of the current session,
which had not traded. -/
theorem BarStep.once (h : BarStep cfg e c sig e') (hsound : Sound cfg e) (hs : Spent e)
    (hone : cfg.oneTradePerSession = true) (hlate : e.isLate c.ts = false) (hno : ¬ e.RearmsAt cfg c.ts) :
    Spent e' ∧
    (((∀ s ∈ sig, s.kind ≠ .entry) ∧
        ((some (SessionClock.place cfg c.ts).sessionId ≠ e.sessionId ∧ e'.tradedThisSession = false) ∨
          (some (SessionClock.place cfg c.ts).sessionId = e.sessionId ∧
            e'.tradedThisSession = e.tradedThisSession))) ∨
      (some (SessionClock.place cfg c.ts).sessionId = e.sessionId ∧ e.tradedThisSession = false ∧
        e'.tradedThisSession = true ∧ ∃ s, sig = some s ∧ s.ts = c.ts ∧ s.kind = .entry)) := by
  cases h with
  | late hlate' => rw [hlate] at hlate'; cases hlate'
  | done sig e' _ hintake =>
    refine ⟨hintake.spent_done hs hno, Or.inl ⟨?_, hintake.traded_done⟩⟩
    intro s hsig
    cases hintake <;> cases hsig <;> exact fun h => by cases h
  | handled entered sig e' _ hintake hhandler =>
    have hentered := hsound.entered hlate hintake
    obtain ⟨hfedTraded, hfedState⟩ := feedIndicators_frame cfg entered c (SessionClock.place cfg c.ts)
    have hspent : Spent (entered.feedIndicators cfg c (SessionClock.place cfg c.ts)) := by
      intro htraded
      rw [hfedState]
      exact hintake.spent_go hs hno (hfedTraded ▸ htraded)
    have harm : ¬ ((entered.feedIndicators cfg c (SessionClock.place cfg c.ts)).tradedThisSession = true ∧
        (entered.feedIndicators cfg c (SessionClock.place cfg c.ts)).state = .idle ∧
        (SessionClock.place cfg c.ts).zone = .inRangeWindow) := by
      rintro ⟨htraded, hidle, hzone⟩
      rw [hfedTraded] at htraded
      rw [hfedState] at hidle
      rcases hintake.traded_go with ⟨_, hclear, _⟩ | ⟨hsame, hkeep⟩
      · rw [hclear] at htraded; cases htraded
      · rcases hintake.idle_go hsame hidle with hidle' | hout
        · exact hno ⟨hkeep ▸ htraded, hsame.symm, Or.inr ⟨hidle', hzone⟩⟩
        · exact hout (Or.inl hzone)
    refine ⟨hhandler.spent hone hentered.core.range hspent harm, ?_⟩
    rcases hhandler.traded hentered.core.range with ⟨hsig, hkeep⟩ | ⟨hstate, hsig, hset⟩
    · rw [hfedTraded] at hkeep
      refine Or.inl ⟨hsig, ?_⟩
      rcases hintake.traded_go with ⟨hid, hclear, _⟩ | ⟨hsame, hkeep'⟩
      · exact Or.inl ⟨hid, hkeep.trans hclear⟩
      · exact Or.inr ⟨hsame, hkeep.trans hkeep'⟩
    · -- the engine was armed, so the bar is of its session and it had not traded
      rw [hfedState] at hstate
      rcases hintake.traded_go with ⟨_, _, hidle⟩ | ⟨hsame, hkeep⟩
      · rw [hidle] at hstate; cases hstate
      · refine Or.inr ⟨hsame, ?_, hset, hsig⟩
        rw [← hkeep]
        by_contra htraded
        exact hintake.spent_go hs hno (by simpa using htraded) hstate

end OrbEngine

namespace EngineRun

/-- The session of each ENTRY emitted. -/
def entrySessions (cfg : OrbConfig) (r : EngineRun) : List Int :=
  (r.emitted.filter (·.kind = .entry)).map fun s => (SessionClock.place cfg s.ts).sessionId

/-- The call is an accepted bar that arms the engine again in a session it has traded in. -/
def Rearms (cfg : OrbConfig) (r : EngineRun) : EngineOp → Prop
  | .candle raw => (validate raw).isOk = true ∧ r.engine.isLate raw.ts = false ∧ r.engine.RearmsAt cfg raw.ts
  | _ => False

instance (cfg : OrbConfig) (r : EngineRun) : (op : EngineOp) → Decidable (Rearms cfg r op)
  | .candle _ => inferInstanceAs (Decidable (_ ∧ _ ∧ _))
  | .forceFlat _ => inferInstanceAs (Decidable False)
  | .reset => inferInstanceAs (Decidable False)

/-- The invariant of runs in which no bar arms the engine again. -/
structure Once (cfg : OrbConfig) (r : EngineRun) : Prop where
  sound : r.engine.Sound cfg
  spent : r.engine.Spent
  stamped : r.engine.sessionId = r.engine.lastTs.map fun ts => (SessionClock.place cfg ts).sessionId
  past : ∀ id ∈ r.entrySessions cfg, ∃ cur, r.engine.sessionId = some cur ∧ id ≤ cur
  fresh : r.engine.tradedThisSession = false → ∀ id ∈ r.entrySessions cfg, r.engine.sessionId ≠ some id
  nodup : (r.entrySessions cfg).Nodup

theorem once_start : Once cfg (start cfg) where
  sound := OrbEngine.sound_init
  spent := fun h => by cases h
  stamped := rfl
  past := by simp [entrySessions, start]
  fresh := by simp [entrySessions, start]
  nodup := by simp [entrySessions, start]

theorem entrySessions_emit (cfg : OrbConfig) (r : EngineRun) (sig : Option Signal) (e : OrbEngine)
    (h : ∀ s ∈ sig, s.kind ≠ .entry) : (r.emit sig e).entrySessions cfg = r.entrySessions cfg := by
  unfold entrySessions emit
  cases sig with
  | none => simp
  | some s => simp [List.filter_append, h s rfl]

theorem entrySessions_emit_entry (cfg : OrbConfig) (r : EngineRun) (s : Signal) (e : OrbEngine)
    (h : s.kind = .entry) :
    (r.emit (some s) e).entrySessions cfg =
      r.entrySessions cfg ++ [(SessionClock.place cfg s.ts).sessionId] := by
  simp [entrySessions, emit, List.filter_append, h]

theorem Once.session_lt {r : EngineRun} (h : Once cfg r) {ts : Int} (hlate : r.engine.isLate ts = false)
    (hne : some (SessionClock.place cfg ts).sessionId ≠ r.engine.sessionId) :
    ∀ id ∈ r.entrySessions cfg, id < (SessionClock.place cfg ts).sessionId := by
  intro id hid
  obtain ⟨cur, hcur, hle⟩ := h.past id hid
  have hstamp := h.stamped
  rw [hcur] at hstamp hne
  obtain ⟨last, hlast, hsession⟩ := Option.map_eq_some_iff.mp hstamp.symm
  have hlt : last < ts := by simpa [OrbEngine.isLate, hlast] using hlate
  have hmono := SessionClock.sessionId_mono cfg hlt.le
  rw [hsession] at hmono
  have hne' : (SessionClock.place cfg ts).sessionId ≠ cur := fun heq => hne (by rw [heq])
  omega

theorem once_candle {r : EngineRun} (h : Once cfg r) (hone : cfg.oneTradePerSession = true) {raw : RawCandle}
    {sig : Option Signal} {e' : OrbEngine} (hno : ¬ Rearms cfg r (.candle raw))
    (hbar : r.engine.onCandle cfg raw = .ok (sig, e')) : Once cfg (r.emit sig e') := by
  obtain ⟨c, hc, hstep⟩ := OrbEngine.onCandle_cases h.sound.core.ne_exit hbar
  have hts := (validate_spec hc).1
  by_cases hlate : r.engine.isLate c.ts = true
  · cases hstep with
    | late => rw [emit_same]; exact h
    | done _ _ hlate' => rw [hlate] at hlate'; cases hlate'
    | handled _ _ _ hlate' => rw [hlate] at hlate'; cases hlate'
  replace hlate : r.engine.isLate c.ts = false := by simpa using hlate
  have hno' : ¬ r.engine.RearmsAt cfg c.ts := by
    intro hre
    rw [hts] at hre hlate
    exact hno ⟨by rw [hc]; rfl, hlate, hre⟩
  obtain ⟨hspent, htraded⟩ := hstep.once h.sound h.spent hone hlate hno'
  obtain ⟨hlast, hid⟩ := hstep.stamped h.sound hlate
  have hstamped : e'.sessionId = e'.lastTs.map fun ts => (SessionClock.place cfg ts).sessionId := by
    rw [hid, hlast]; rfl
  rcases htraded with ⟨hsig, hflag⟩ | ⟨hsame, hfalse, htrue, s, rfl, hsts, hkind⟩
  · have hlist := entrySessions_emit cfg r sig e' hsig
    rcases hflag with ⟨hne, hclear⟩ | ⟨hsame, hkeep⟩
    · have hlt := h.session_lt hlate hne
      refine ⟨hstep.sound h.sound, hspent, hstamped, ?_, fun _ => ?_, hlist ▸ h.nodup⟩
      · rw [hlist]
        exact fun id hmem => ⟨_, hid, (hlt id hmem).le⟩
      · rw [hlist]
        intro id hmem heq
        have := hlt id hmem
        rw [show (r.emit sig e').engine.sessionId = _ from hid, Option.some.injEq] at heq
        omega
    · have hidsame : e'.sessionId = r.engine.sessionId := hid.trans hsame
      refine ⟨hstep.sound h.sound, hspent, hstamped, ?_, fun hfalse => ?_, hlist ▸ h.nodup⟩
      · rw [hlist]
        exact fun id hmem => hidsame ▸ h.past id hmem
      · rw [hlist]
        exact fun id hmem => hidsame ▸ h.fresh (hkeep ▸ hfalse) id hmem
  · have hlist := entrySessions_emit_entry cfg r s e' hkind
    rw [hsts] at hlist
    have hnew : (SessionClock.place cfg c.ts).sessionId ∉ r.entrySessions cfg :=
      fun hmem => h.fresh hfalse _ hmem hsame.symm
    refine ⟨hstep.sound h.sound, hspent, hstamped, ?_, fun hfalse' => ?_, ?_⟩
    · rw [hlist]
      intro id hmem
      refine ⟨_, hid, ?_⟩
      rcases List.mem_append.mp hmem with hold | hlast'
      · obtain ⟨cur, hcur, hle⟩ := h.past id hold
        rw [hcur, Option.some.injEq] at hsame
        omega
      · simp only [List.mem_singleton] at hlast'
        exact hlast'.le
    · rw [show (r.emit (some s) e').engine.tradedThisSession = _ from htrue] at hfalse'
      cases hfalse'
    · rw [hlist]
      exact List.Nodup.append h.nodup (List.nodup_singleton _) (by simpa using hnew)

theorem once_forceFlat {r : EngineRun} (h : Once cfg r) (hone : cfg.oneTradePerSession = true) (ts : Int) :
    Once cfg (r.emit (r.engine.forceFlat cfg ts).1 (r.engine.forceFlat cfg ts).2) := by
  cases hpos : r.engine.pos with
  | none =>
    have hsame : r.engine.forceFlat cfg ts = (none, r.engine) := by
      unfold OrbEngine.forceFlat
      rw [hpos]
    rw [hsame, emit_same]
    exact h
  | some pos =>
    have hlist := entrySessions_emit cfg r (r.engine.forceFlat cfg ts).1 (r.engine.forceFlat cfg ts).2
      (fun s hs => by rw [OrbEngine.forceFlat_kind hs]; exact fun h => by cases h)
    have hflat : (r.engine.forceFlat cfg ts).2 = r.engine.flatten cfg (r.engine.postExitState cfg) := by
      unfold OrbEngine.forceFlat; rw [hpos]
    obtain ⟨hstate, -, -, hid, hlast, htraded⟩ :=
      OrbEngine.flatten_frame cfg r.engine (r.engine.postExitState cfg)
    rw [← hflat] at hstate hid hlast htraded
    refine ⟨OrbEngine.forceFlat_sound h.sound ts, fun _ => ?_, ?_, ?_, fun hfalse => ?_, hlist ▸ h.nodup⟩
    · show (r.engine.forceFlat cfg ts).2.state ≠ _
      rw [hstate]
      rcases OrbEngine.postExitState_cases cfg r.engine with hidle | ⟨_, hmany⟩
      · rw [hidle]; decide
      · rw [hone] at hmany; cases hmany
    · exact (hid.trans h.stamped).trans (by rw [← hlast]; rfl)
    · rw [hlist]
      show ∀ id ∈ _, ∃ cur, (r.engine.forceFlat cfg ts).2.sessionId = some cur ∧ id ≤ cur
      rw [hid]
      exact h.past
    · rw [hlist]
      show ∀ id ∈ _, (r.engine.forceFlat cfg ts).2.sessionId ≠ some id
      rw [hid]
      exact h.fresh (htraded ▸ hfalse)

theorem once_step {r : EngineRun} {op : EngineOp} (hone : cfg.oneTradePerSession = true) (h : Once cfg r)
    (hop : op ≠ .reset ∧ ¬ Rearms cfg r op) : Once cfg (step cfg r op) := by
  unfold step
  by_cases hraised : r.raised.isSome = true
  · rw [if_pos hraised]
    exact h
  rw [if_neg hraised]
  cases op with
  | candle raw =>
    dsimp only
    cases hbar : r.engine.onCandle cfg raw with
    | error err =>
      simp only
      split
      · exact h
      · exact ⟨h.sound, h.spent, h.stamped, h.past, h.fresh, h.nodup⟩
    | ok out => exact once_candle h hone hop.2 hbar
  | forceFlat ts => exact once_forceFlat h hone ts
  | reset => exact absurd rfl hop.1

/-- **One trade per session.** In a run of `on_candle` and `force_flat` in which no bar arms the engine again
after it has traded, every session id has at most one ENTRY. -/
theorem one_trade_per_session (cfg : OrbConfig) (ops : List EngineOp) (hone : cfg.oneTradePerSession = true)
    (hops : ∀ op ∈ ops, op ≠ .reset) (hno : StepsMeet (step cfg) (fun r op => ¬ Rearms cfg r op) (start cfg) ops) :
    ∀ id, ((run (step cfg) (start cfg) ops).entrySessions cfg).count id ≤ 1 := by
  have hmeet : StepsMeet (step cfg) (fun r op => op ≠ .reset ∧ ¬ Rearms cfg r op) (start cfg) ops :=
    (stepsMeet_of_forall hops).and hno
  have honce : Once cfg (run (step cfg) (start cfg) ops) :=
    run_invariant (fun _ _ h hop => once_step hone h hop) once_start hmeet
  exact List.nodup_iff_count_le_one.mp honce.nodup

/-- A session of one-bar ranges with no momentum filter. -/
def gapConfig : OrbConfig :=
  ⟨{ rangeMinutes := 1, useRoc := false, atrPeriod := 1 }, by decide +kernel⟩

/-- A range, a breakout and the close back in the range. -/
def firstTrade : List EngineOp :=
  [.candle (minuteBar 0 2000 2001 1999 2000), .candle (minuteBar 1 2002 2006 2001 2005),
    .candle (minuteBar 2 2002 2002 1999 2000)]

theorem one_trade_per_session_first :
    ((run (step gapConfig) (start gapConfig) firstTrade).entrySessions gapConfig).count 0 ≤ 1 :=
  one_trade_per_session gapConfig firstTrade (by decide) (by decide) (by decide +kernel) 0

/-- Ten minutes without a bar after the trade, and a second breakout: the session has two ENTRIES. -/
theorem two_trades_in_session :
    ¬ ∀ (cfg : OrbConfig) (ops : List EngineOp), cfg.oneTradePerSession = true → (∀ op ∈ ops, op ≠ .reset) →
      ∀ id, ((run (step cfg) (start cfg) ops).entrySessions cfg).count id ≤ 1 := by
  intro h
  have htwo := h gapConfig
    (firstTrade ++ [.candle (minuteBar 12 2000 2001 1999 2000), .candle (minuteBar 13 2002 2006 2001 2005)])
    (by decide) (by decide) 0
  exact absurd htwo (by decide +kernel)

end EngineRun

end FreqTrading
