import FreqTrading.Models
import FreqTrading.Lib.Calendar
import FreqTrading.Lib.Program

/-!
# Session windows

`SessionClock` of `orb/session.py`. A session of day `d` spans `[open, open + len)` from the open of that
day; `classify` gives the zone of a time stamp and the day of the session that owns it, or an `OverflowError` where
the end of a session lies after the year 9999 or the open of the day before in the year 0. `place` is the same on a
time line without ends (`classify_eq`). A session id is the day number of the session's open, which the source writes
as an ISO date.
-/

namespace FreqTrading

open Lib

inductive Zone
  | before | inRangeWindow | inSession | after
  deriving DecidableEq, Repr

/-- The zone is inside the session window. -/
def Zone.Inside (z : Zone) : Prop := z = .inRangeWindow ∨ z = .inSession

instance (z : Zone) : Decidable z.Inside := inferInstanceAs (Decidable (_ ∨ _))

structure SessionInfo where
  zone : Zone
  sessionId : Int
  deriving DecidableEq, Repr

theorem OrbConfig.range_lt_len (cfg : OrbConfig) : cfg.rangeMinutes < cfg.sessionLenMin := by
  have hcheck : (decide (cfg.sessionLenMin ≤ cfg.rangeMinutes), "session_len_min must exceed range_minutes") ∈ cfg.checks := by
    simp [OrbConfigFields.checks]
  simpa using cfg.check_passes hcheck

theorem OrbConfig.range_pos (cfg : OrbConfig) : 1 ≤ cfg.rangeMinutes := by
  have hcheck : (decide (cfg.rangeMinutes < 1), "range_minutes must be >= 1") ∈ cfg.checks := by
    simp [OrbConfigFields.checks]
  simpa using cfg.check_passes hcheck

namespace SessionClock

variable (cfg : OrbConfig)

/-- The open of the session of day `day`. -/
def openOf (day : Int) : Int := day * dayMicros + cfg.sessionOpenUtc.micros

/-- The first moment after the session of day `day`. -/
def endOf (day : Int) : Int := openOf cfg day + cfg.sessionLenMin * minuteMicros

def zoneWithin (ts openDt : Int) : Except PyError SessionInfo := do
  let rangeEnd ← addMicros openDt (cfg.rangeMinutes * minuteMicros)
  if ts < rangeEnd then return ⟨.inRangeWindow, date openDt⟩
  return ⟨.inSession, date openDt⟩

def classify (ts : Int) : Except PyError SessionInfo := do
  -- `datetime.combine`, which raises nothing for the date of a `datetime`
  let todayOpen ← addMicros (date ts * dayMicros) cfg.sessionOpenUtc.micros
  let endDt ← addMicros todayOpen (cfg.sessionLenMin * minuteMicros)
  if ts < todayOpen then
    -- could still belong to yesterday's session if it crosses midnight
    let prevOpen ← addMicros todayOpen (-dayMicros)
    let prevEnd ← addMicros prevOpen (cfg.sessionLenMin * minuteMicros)
    if prevOpen ≤ ts ∧ ts < prevEnd then return ← zoneWithin cfg ts prevOpen
    return ⟨.before, date todayOpen⟩
  if endDt ≤ ts then return ⟨.after, date todayOpen⟩
  zoneWithin cfg ts todayOpen

/-! ### On a time line without ends -/

def placeWithin (ts openDt : Int) : SessionInfo :=
  if ts < openDt + cfg.rangeMinutes * minuteMicros then ⟨.inRangeWindow, date openDt⟩
  else ⟨.inSession, date openDt⟩

def place (ts : Int) : SessionInfo :=
  if ts < openOf cfg (date ts) then
    if openOf cfg (date ts - 1) ≤ ts ∧ ts < endOf cfg (date ts - 1) then placeWithin cfg ts (openOf cfg (date ts - 1))
    else ⟨.before, date ts⟩
  else if endOf cfg (date ts) ≤ ts then ⟨.after, date ts⟩
  else placeWithin cfg ts (openOf cfg (date ts))

/-- The end of the day's session is after the year 9999, or the open before it in the year 0. -/
def Overflows (ts : Int) : Prop :=
  ¬ InRange (openOf cfg (date ts)) ∨ ¬ InRange (endOf cfg (date ts)) ∨
    ts < openOf cfg (date ts) ∧ ¬ InRange (openOf cfg (date ts - 1))

instance (ts : Int) : Decidable (Overflows cfg ts) := inferInstanceAs (Decidable (_ ∨ _))

theorem date_openOf (day : Int) : date (openOf cfg day) = day := by
  have h0 := cfg.sessionOpenUtc.nonneg
  have h1 := cfg.sessionOpenUtc.lt_day
  unfold date openOf dayMicros at *
  omega

theorem openOf_le_end (day : Int) : openOf cfg day ≤ endOf cfg day := by
  have hrange := cfg.range_pos
  have hlen := cfg.range_lt_len
  unfold endOf minuteMicros
  omega

theorem zoneWithin_eq {ts day : Int} (hopen : InRange (openOf cfg day)) (hend : InRange (endOf cfg day)) :
    zoneWithin cfg ts (openOf cfg day) = .ok (placeWithin cfg ts (openOf cfg day)) := by
  have hrange : InRange (openOf cfg day + cfg.rangeMinutes * minuteMicros) := by
    have hpos := cfg.range_pos
    have hlt := cfg.range_lt_len
    refine hopen.between hend ?_ ?_ <;> unfold endOf minuteMicros at * <;> omega
  unfold zoneWithin addMicros placeWithin
  rw [if_pos hrange, ok_bind]
  split_ifs <;> rfl

/-- **What `classify` does.** It raises where a time is out of range, and else places the time stamp. -/
theorem classify_eq (ts : Int) :
    classify cfg ts = if Overflows cfg ts then .error .overflowError else .ok (place cfg ts) := by
  have hprev : openOf cfg (date ts) + -dayMicros = openOf cfg (date ts - 1) := by
    unfold openOf dayMicros
    omega
  have htoday : addMicros (date ts * dayMicros) cfg.sessionOpenUtc.micros =
      if InRange (openOf cfg (date ts)) then .ok (openOf cfg (date ts)) else .error .overflowError := rfl
  have hlen : ∀ day, openOf cfg day + cfg.sessionLenMin * minuteMicros = endOf cfg day := fun _ => rfl
  unfold classify place
  rw [htoday]
  by_cases hopen : InRange (openOf cfg (date ts))
  · rw [if_pos hopen, ok_bind]
    by_cases hend : InRange (endOf cfg (date ts))
    · rw [addMicros_ok (hlen _) hend, ok_bind, date_openOf]
      by_cases hbefore : ts < openOf cfg (date ts)
      · rw [if_pos hbefore, if_pos hbefore]
        by_cases hprevOpen : InRange (openOf cfg (date ts - 1))
        · -- yesterday's session ends before today's
          have hprevEnd : InRange (endOf cfg (date ts - 1)) := by
            refine hprevOpen.between hend (openOf_le_end cfg _) ?_
            unfold endOf openOf dayMicros
            omega
          have hfits : ¬ Overflows cfg ts := by unfold Overflows; tauto
          rw [addMicros_ok hprev hprevOpen, ok_bind, addMicros_ok (hlen _) hprevEnd, ok_bind, if_neg hfits]
          by_cases hcross : openOf cfg (date ts - 1) ≤ ts ∧ ts < endOf cfg (date ts - 1)
          · rw [if_pos hcross, if_pos hcross, zoneWithin_eq cfg hprevOpen hprevEnd]
          · rw [if_neg hcross, if_neg hcross]
            rfl
        · have hover : Overflows cfg ts := Or.inr (Or.inr ⟨hbefore, hprevOpen⟩)
          rw [addMicros_error hprev hprevOpen, if_pos hover]
          rfl
      · have hfits : ¬ Overflows cfg ts := by unfold Overflows; tauto
        rw [if_neg hbefore, if_neg hbefore, if_neg hfits]
        by_cases hafter : endOf cfg (date ts) ≤ ts
        · rw [if_pos hafter, if_pos hafter]
          rfl
        · rw [if_neg hafter, if_neg hafter]
          exact zoneWithin_eq cfg hopen hend
    · have hover : Overflows cfg ts := Or.inr (Or.inl hend)
      rw [addMicros_error (hlen _) hend, if_pos hover]
      rfl
  · have hover : Overflows cfg ts := Or.inl hopen
    rw [if_neg hopen, if_pos hover]
    rfl

theorem classify_ok_iff {ts : Int} {info : SessionInfo} :
    classify cfg ts = .ok info ↔ ¬ Overflows cfg ts ∧ info = place cfg ts := by
  rw [classify_eq]
  by_cases hover : Overflows cfg ts
  · rw [if_pos hover]
    exact ⟨fun h => (by cases h), fun h => absurd hover h.1⟩
  · rw [if_neg hover]
    exact ⟨fun h => ⟨hover, (Except.ok.inj h).symm⟩, fun h => congrArg Except.ok h.2.symm⟩

theorem openOf_inRange {ts : Int} (h : InRange ts) : InRange (openOf cfg (date ts)) := by
  have hnonneg := cfg.sessionOpenUtc.nonneg
  have hday := cfg.sessionOpenUtc.lt_day
  unfold openOf date dayMicros at *
  unfold InRange microsPerDay epochDays maxOrdinal at *
  omega

theorem date_le (ts : Int) : date ts * dayMicros ≤ ts ∧ ts < (date ts + 1) * dayMicros := by
  unfold date dayMicros
  omega

theorem place_spec (ts : Int) :
    ((place cfg ts).zone = .before ∧ ts < openOf cfg (place cfg ts).sessionId) ∨
    ((place cfg ts).zone = .after ∧ endOf cfg (place cfg ts).sessionId ≤ ts) ∨
    ((place cfg ts).zone.Inside ∧ openOf cfg (place cfg ts).sessionId ≤ ts ∧
      ts < endOf cfg (place cfg ts).sessionId) := by
  have hwithin : ∀ day, openOf cfg day ≤ ts → ts < endOf cfg day →
      (placeWithin cfg ts (openOf cfg day)).zone.Inside ∧
        (placeWithin cfg ts (openOf cfg day)).sessionId = day := by
    intro day _ _
    unfold placeWithin
    split
    · exact ⟨Or.inl rfl, date_openOf cfg day⟩
    · exact ⟨Or.inr rfl, date_openOf cfg day⟩
  unfold place
  split_ifs with hbefore hcross hafter
  · obtain ⟨hin, hid⟩ := hwithin _ hcross.1 hcross.2
    rw [hid]
    exact Or.inr (Or.inr ⟨hin, hcross.1, hcross.2⟩)
  · exact Or.inl ⟨rfl, hbefore⟩
  · exact Or.inr (Or.inl ⟨rfl, hafter⟩)
  · obtain ⟨hin, hid⟩ := hwithin (date ts) (not_lt.mp hbefore) (not_le.mp hafter)
    rw [hid]
    exact Or.inr (Or.inr ⟨hin, not_lt.mp hbefore, not_le.mp hafter⟩)

theorem place_inside {ts : Int} (h : (place cfg ts).zone.Inside) :
    openOf cfg (place cfg ts).sessionId ≤ ts ∧ ts < endOf cfg (place cfg ts).sessionId := by
  rcases place_spec cfg ts with ⟨hz, _⟩ | ⟨hz, _⟩ | ⟨_, hb⟩
  · rw [hz] at h; exact absurd h (by decide)
  · rw [hz] at h; exact absurd h (by decide)
  · exact hb

theorem zone_ne_before {ts : Int} (h : openOf cfg (place cfg ts).sessionId ≤ ts) :
    (place cfg ts).zone ≠ .before := by
  intro hz
  rcases place_spec cfg ts with ⟨_, hb⟩ | ⟨hz', _⟩ | ⟨hin, _⟩
  · omega
  · rw [hz] at hz'; cases hz'
  · rw [hz] at hin; exact absurd hin (by decide)

theorem sessionId_mono {ts ts' : Int} (h : ts ≤ ts') :
    (place cfg ts).sessionId ≤ (place cfg ts').sessionId := by
  have hid : ∀ t, (place cfg t).sessionId =
      if t < openOf cfg (date t) ∧ openOf cfg (date t - 1) ≤ t ∧ t < endOf cfg (date t - 1) then
        date t - 1 else date t := by
    intro t
    unfold place placeWithin
    split_ifs <;>
      first
      | exact date_openOf cfg _
      | rfl
      | tauto
  rw [hid, hid]
  have hd : date ts ≤ date ts' := Int.ediv_le_ediv (by decide) h
  by_cases heq : date ts = date ts'
  · rw [heq]
    split_ifs with h1 h2 h3
    · exact le_rfl
    · omega
    · -- the earlier moment owns today, the later one yesterday: impossible on one day
      exfalso
      obtain ⟨a, b, c⟩ := h3
      refine h1 ⟨lt_of_le_of_lt h a, ?_, lt_of_le_of_lt h c⟩
      have h0 := (date_le ts).1
      have hlt := cfg.sessionOpenUtc.lt_day
      rw [heq] at h0
      unfold openOf dayMicros at *
      omega
    · exact le_rfl
  · split_ifs <;> omega

end SessionClock

end FreqTrading
