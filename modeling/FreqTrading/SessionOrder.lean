import Mathlib.Data.List.Destutter
import FreqTrading.Session

/-!
# Sessions in order

Where a session is no longer than a day, `classify` cuts the time line into sessions and what lies between them. Along
increasing time stamps the session and the zone within it never go back (`SessionInfo.Upto`), whether sessions cross
midnight or touch each other; so the engine, which starts afresh when the id changes, enters no session twice.
-/

namespace FreqTrading

/-- The zones in the order in which a session goes through them. -/
def Zone.rank : Zone → Nat
  | .before => 0
  | .inRangeWindow => 1
  | .inSession => 2
  | .after => 3

/-- An earlier session, or the same one in no later zone. -/
def SessionInfo.Upto (x y : SessionInfo) : Prop :=
  x.sessionId < y.sessionId ∨ x.sessionId = y.sessionId ∧ x.zone.rank ≤ y.zone.rank

namespace SessionClock

variable {cfg : OrbConfig} {ts ts' day day' : Int}

/-- The first moment after the range window of the session of day `day`. -/
def rangeEndOf (cfg : OrbConfig) (day : Int) : Int := openOf cfg day + cfg.rangeMinutes * minuteMicros

theorem rangeEndOf_lt (cfg : OrbConfig) (day : Int) : rangeEndOf cfg day < endOf cfg day := by
  have hlt := cfg.range_lt_len
  unfold rangeEndOf endOf minuteMicros
  omega

theorem openOf_lt (cfg : OrbConfig) (day : Int) : openOf cfg day < rangeEndOf cfg day := by
  have hpos := cfg.range_pos
  unfold rangeEndOf minuteMicros
  omega

theorem placeWithin_early (h : ts < rangeEndOf cfg day) :
    placeWithin cfg ts (openOf cfg day) = ⟨.inRangeWindow, day⟩ := by
  unfold placeWithin
  rw [date_openOf]
  exact if_pos h

theorem placeWithin_late (h : rangeEndOf cfg day ≤ ts) : placeWithin cfg ts (openOf cfg day) = ⟨.inSession, day⟩ := by
  unfold placeWithin
  rw [date_openOf]
  exact if_neg (not_lt.mpr h)

theorem session_unique (hlen : cfg.sessionLenMin ≤ 1440) (hopen : openOf cfg day ≤ ts) (hend : ts < endOf cfg day)
    (hopen' : openOf cfg day' ≤ ts) (hend' : ts < endOf cfg day') : day = day' := by
  unfold endOf openOf dayMicros minuteMicros at *
  omega

theorem date_of_session (hlen : cfg.sessionLenMin ≤ 1440) (hopen : openOf cfg day ≤ ts) (hend : ts < endOf cfg day) :
    date ts = day ∨ date ts = day + 1 ∧ ts < openOf cfg (date ts) := by
  have hnonneg := cfg.sessionOpenUtc.nonneg
  have hday := cfg.sessionOpenUtc.lt_day
  have hdate := date_le ts
  generalize date ts = d at hdate ⊢
  unfold endOf openOf dayMicros minuteMicros at *
  omega

theorem place_of_session (hlen : cfg.sessionLenMin ≤ 1440) (hopen : openOf cfg day ≤ ts) (hend : ts < endOf cfg day) :
    place cfg ts = placeWithin cfg ts (openOf cfg day) := by
  unfold place
  rcases date_of_session hlen hopen hend with hsame | ⟨hnext, hbefore⟩
  · rw [hsame, if_neg (by omega), if_neg (by omega)]
  · have hyesterday : date ts - 1 = day := by omega
    rw [if_pos hbefore, hyesterday, if_pos ⟨hopen, hend⟩]

theorem inside_iff (hlen : cfg.sessionLenMin ≤ 1440) :
    (place cfg ts).zone.Inside ∧ (place cfg ts).sessionId = day ↔ openOf cfg day ≤ ts ∧ ts < endOf cfg day := by
  constructor
  · rintro ⟨hin, rfl⟩
    exact place_inside cfg hin
  · rintro ⟨hopen, hend⟩
    rw [place_of_session hlen hopen hend]
    rcases lt_or_ge ts (rangeEndOf cfg day) with hearly | hlate
    · rw [placeWithin_early hearly]
      exact ⟨Or.inl rfl, rfl⟩
    · rw [placeWithin_late hlate]
      exact ⟨Or.inr rfl, rfl⟩

theorem range_iff (hlen : cfg.sessionLenMin ≤ 1440) :
    (place cfg ts).zone = .inRangeWindow ∧ (place cfg ts).sessionId = day ↔
      openOf cfg day ≤ ts ∧ ts < rangeEndOf cfg day := by
  have hrange := rangeEndOf_lt cfg day
  constructor
  · rintro ⟨hzone, hid⟩
    obtain ⟨hopen, hend⟩ := (inside_iff hlen).mp ⟨Or.inl hzone, hid⟩
    refine ⟨hopen, ?_⟩
    by_contra hlate
    rw [place_of_session hlen hopen hend, placeWithin_late (not_lt.mp hlate)] at hzone
    cases hzone
  · rintro ⟨hopen, hearly⟩
    rw [place_of_session hlen hopen (hearly.trans hrange), placeWithin_early hearly]
    exact ⟨rfl, rfl⟩

/-! ### Order -/

/-- How far a session is at a time stamp. -/
def phaseOf (cfg : OrbConfig) (day ts : Int) : Nat :=
  if ts < openOf cfg day then 0 else if ts < rangeEndOf cfg day then 1 else if ts < endOf cfg day then 2 else 3

theorem rank_eq (hlen : cfg.sessionLenMin ≤ 1440) (ts : Int) :
    (place cfg ts).zone.rank = phaseOf cfg (place cfg ts).sessionId ts := by
  have hrange := rangeEndOf_lt cfg (place cfg ts).sessionId
  have hopen := openOf_lt cfg (place cfg ts).sessionId
  unfold phaseOf
  rcases place_spec cfg ts with ⟨hzone, hbefore⟩ | ⟨hzone, hafter⟩ | ⟨hin, hlow, hhigh⟩
  · rw [hzone, if_pos hbefore]
    rfl
  · rw [hzone, if_neg (by omega), if_neg (by omega), if_neg (by omega)]
    rfl
  · rw [if_neg (by omega)]
    by_cases hearly : ts < rangeEndOf cfg (place cfg ts).sessionId
    · rw [if_pos hearly, ((range_iff hlen).mpr ⟨hlow, hearly⟩).1]
      rfl
    · rw [if_neg hearly, if_pos hhigh]
      rcases hin with hzone | hzone
      · exact absurd ((range_iff hlen).mp ⟨hzone, rfl⟩).2 hearly
      · rw [hzone]
        rfl

theorem phaseOf_mono (day : Int) (h : ts ≤ ts') : phaseOf cfg day ts ≤ phaseOf cfg day ts' := by
  unfold phaseOf
  split_ifs <;> omega

/-- Time goes from session to session, and through the zones of each. -/
theorem place_upto (hlen : cfg.sessionLenMin ≤ 1440) (h : ts ≤ ts') : (place cfg ts).Upto (place cfg ts') := by
  rcases (sessionId_mono cfg h).lt_or_eq with hlt | hsame
  · exact Or.inl hlt
  · refine Or.inr ⟨hsame, ?_⟩
    rw [rank_eq hlen, rank_eq hlen, hsame]
    exact phaseOf_mono _ h

/-- The sessions that the engine enters over bars so placed: it starts afresh whenever the id changes. -/
def entered (infos : List SessionInfo) : List Int := (infos.map SessionInfo.sessionId).destutter (· ≠ ·)

theorem entered_ascending {infos : List SessionInfo} (h : infos.Pairwise SessionInfo.Upto) :
    (entered infos).Pairwise (· < ·) := by
  have hsorted : (entered infos).Pairwise (· ≤ ·) := by
    refine List.Pairwise.sublist (List.destutter_sublist _ _) ?_
    rw [List.pairwise_map]
    exact h.imp fun hupto => hupto.elim le_of_lt fun hsame => hsame.1.le
  have hchain : (entered infos).IsChain (· ≠ ·) := List.isChain_destutter _ _
  rw [← List.isChain_iff_pairwise, List.isChain_iff_getElem] at hsorted ⊢
  rw [List.isChain_iff_getElem] at hchain
  exact fun i hi => lt_of_le_of_ne (hsorted i hi) (hchain i hi)

/-! ### The clock of the code -/

/-- `classify` of a `datetime` returns exactly if the end of its day's session is a `datetime`, and so is the open of the
day before where the day's session has not opened yet. -/
theorem classify_returns_iff (h : Lib.InRange ts) :
    (∃ info, classify cfg ts = .ok info) ↔
      Lib.InRange (endOf cfg (date ts)) ∧ (ts < openOf cfg (date ts) → Lib.InRange (openOf cfg (date ts - 1))) := by
  have hopen := openOf_inRange cfg h
  constructor
  · rintro ⟨info, hinfo⟩
    have hfits := (classify_ok_iff cfg).mp hinfo |>.1
    unfold Overflows at hfits
    tauto
  · rintro ⟨hend, hprev⟩
    refine ⟨_, (classify_ok_iff cfg).mpr ⟨?_, rfl⟩⟩
    unfold Overflows
    tauto

theorem placed_of_classified {stamps : List Int} {infos : List SessionInfo}
    (h : List.Forall₂ (fun ts info => classify cfg ts = .ok info) stamps infos) : infos = stamps.map (place cfg) := by
  induction h with
  | nil => rfl
  | cons hfirst _ ih => rw [List.map_cons, ← ih, ((classify_ok_iff cfg).mp hfirst).2]

/-- **The session clock is a partition in order.** For sessions no longer than a day: `classify` returns unless a session
around the time stamp begins or ends outside the years 1 to 9999; a time stamp it places is in session with id `day`
exactly in the window of that day, in the range window exactly in its first minutes, and in no other session; along
increasing time stamps no session and no zone of a session comes back. -/
theorem session_clock_ordered (cfg : OrbConfig) (hlen : cfg.sessionLenMin ≤ 1440) :
    (∀ ts, Lib.InRange ts → ((∃ info, classify cfg ts = .ok info) ↔
      Lib.InRange (endOf cfg (date ts)) ∧ (ts < openOf cfg (date ts) → Lib.InRange (openOf cfg (date ts - 1))))) ∧
      (∀ ts info, classify cfg ts = .ok info → ∀ day, info.zone.Inside ∧ info.sessionId = day ↔
        openOf cfg day ≤ ts ∧ ts < endOf cfg day) ∧
      (∀ ts day day', openOf cfg day ≤ ts ∧ ts < endOf cfg day → openOf cfg day' ≤ ts ∧ ts < endOf cfg day' → day = day') ∧
      (∀ ts info, classify cfg ts = .ok info → ∀ day, info.zone = .inRangeWindow ∧ info.sessionId = day ↔
        openOf cfg day ≤ ts ∧ ts < rangeEndOf cfg day) ∧
      (∀ ts ts' info info', ts ≤ ts' → classify cfg ts = .ok info → classify cfg ts' = .ok info' → info.Upto info') ∧
      ∀ (stamps : List Int) (infos : List SessionInfo), stamps.Pairwise (· < ·) →
        List.Forall₂ (fun ts info => classify cfg ts = .ok info) stamps infos → (entered infos).Nodup := by
  refine ⟨fun _ hts => classify_returns_iff hts, fun ts info hinfo day => ?_,
    fun _ _ _ h h' => session_unique hlen h.1 h.2 h'.1 h'.2, fun ts info hinfo day => ?_,
    fun ts ts' info info' hle hinfo hinfo' => ?_, fun stamps infos hsorted hinfos => ?_⟩
  · rw [((classify_ok_iff cfg).mp hinfo).2]
    exact inside_iff hlen
  · rw [((classify_ok_iff cfg).mp hinfo).2]
    exact range_iff hlen
  · rw [((classify_ok_iff cfg).mp hinfo).2, ((classify_ok_iff cfg).mp hinfo').2]
    exact place_upto hlen hle
  · rw [placed_of_classified hinfos]
    refine (entered_ascending ?_).imp ne_of_lt
    rw [List.pairwise_map]
    exact hsorted.imp fun hlt => place_upto hlen hlt.le

/-- The theorem on the default session, at 01:30 and 09:00 UTC of the first day. -/
theorem session_clock_ordered_default :
    ∃ info info', classify OrbConfig.default (90 * minuteMicros) = .ok info ∧
      classify OrbConfig.default (540 * minuteMicros) = .ok info' ∧ info.Upto info' := by
  obtain ⟨hreturns, -, -, -, horder, -⟩ := session_clock_ordered OrbConfig.default (by decide)
  obtain ⟨info, hinfo⟩ := (hreturns (90 * minuteMicros) (by decide)).mpr ⟨by decide, by decide⟩
  obtain ⟨info', hinfo'⟩ := (hreturns (540 * minuteMicros) (by decide)).mpr ⟨by decide, by decide⟩
  exact ⟨info, info', hinfo, hinfo', horder _ _ _ _ (by decide) hinfo hinfo'⟩

/-- A session that crosses midnight, of eight hours from 20:00 UTC. -/
def eveningConfig : OrbConfig :=
  ⟨{ sessionOpenUtc := ⟨1200 * minuteMicros, by decide, by decide⟩ }, by decide +kernel⟩

/-- 21:00 UTC on the last day of the year 9999. -/
def lastEvening : Int := (Lib.maxOrdinal - Lib.epochDays - 1) * dayMicros + 1260 * minuteMicros

/-- At 21:00 of the last day, in the session that opened at 20:00, `classify` returns nothing. -/
theorem classify_overflows :
    ¬ ∀ cfg : OrbConfig, cfg.sessionLenMin ≤ 1440 → ∀ ts, Lib.InRange ts → ∀ day,
      (∃ info, classify cfg ts = .ok info ∧ info.zone.Inside ∧ info.sessionId = day) ↔
        openOf cfg day ≤ ts ∧ ts < endOf cfg day := by
  intro h
  obtain ⟨info, hinfo, -⟩ := (h eveningConfig (by decide) lastEvening (by decide) (date lastEvening)).mpr (by decide)
  have hraises : classify eveningConfig lastEvening = .error .overflowError := by
    rw [classify_eq, if_pos (by decide)]
  cases hraises.symm.trans hinfo

end SessionClock

end FreqTrading
