import Mathlib.Data.List.Find
import FreqTrading.Lib.Latch
import FreqTrading.Trueopen

/-!
# Quarters

`QuarterTracker` of `orb/quarters.py`: the trading day and its 6h sessions, each with four quarters, and the open of the
second quarter of each. Both opens are those of the first candle at or after the boundary, whatever gaps there are
(`q2_opens`). Where the day or the session is past its first quarter, `TrueOpenTracker` holds the same prices for the day
and for its London, New York and PM sessions (`true_opens_agree`).
-/

namespace FreqTrading

open Lib Trueopen

namespace Quarters

inductive Quarter
  | q1 | q2 | q3 | q4
  deriving DecidableEq, Repr

def hourMicros : Int := 60 * minuteMicros

/-- `hour` of a wall clock time. -/
def hour (ny : Int) : Int := ny % dayMicros / hourMicros

/-- `minute` of a wall clock time. -/
def minute (ny : Int) : Int := ny % hourMicros / minuteMicros

/-- `day_quarter`. -/
def dayQuarter (ny : Int) : Quarter :=
  if 18 ≤ hour ny then .q1 else if hour ny < 6 then .q2 else if hour ny < 12 then .q3 else .q4

/-- `m90_quarter`. -/
def m90Quarter (ny : Int) : Quarter :=
  let minutes := hour ny % 6 * 60 + minute ny
  match minutes / 90 with
  | 0 => .q1
  | 1 => .q2
  | 2 => .q3
  | _ => .q4

/-- `_day_cycle_id`: the date on which the day that starts at 18:00 ends. -/
def dayCycleId (ny : Int) : Int := if 18 ≤ hour ny then date (ny + dayMicros) else date ny

/-- `_m90_cycle_id`: the date, and the hour that the session starts at. -/
def m90CycleId (ny : Int) : Int × Int := (date ny, hour ny / 6 * 6)

/-- `TrueOpenState`. -/
structure TrueOpenState where
  dayQ2Open : Option ℚ := none
  m90Q2Open : Option ℚ := none
  deriving DecidableEq, Repr

structure QuarterTracker where
  state : TrueOpenState := {}
  dayId : Option Int := none
  m90Id : Option (Int × Int) := none
  deriving DecidableEq, Repr

/-- `update`, the cycle of the day. -/
def updateDay (toNy : Int → Int) (t : QuarterTracker) (c : Reading) : QuarterTracker :=
  let dayId := dayCycleId (toNy c.ts)
  let t : QuarterTracker :=
    if t.dayId ≠ some dayId then { t with dayId := some dayId, state := { t.state with dayQ2Open := none } } else t
  if t.state.dayQ2Open = none ∧ dayQuarter (toNy c.ts) ∈ [Quarter.q2, .q3, .q4] then
    { t with state := { t.state with dayQ2Open := some c.open' } }
  else t

/-- `update`, the 90-minute cycle. -/
def updateM90 (toNy : Int → Int) (t : QuarterTracker) (c : Reading) : QuarterTracker :=
  let m90Id := m90CycleId (toNy c.ts)
  let t : QuarterTracker :=
    if t.m90Id ≠ some m90Id then { t with m90Id := some m90Id, state := { t.state with m90Q2Open := none } } else t
  if t.state.m90Q2Open = none ∧ m90Quarter (toNy c.ts) ∈ [Quarter.q2, .q3, .q4] then
    { t with state := { t.state with m90Q2Open := some c.open' } }
  else t

/-- `update`. -/
def update (toNy : Int → Int) (t : QuarterTracker) (c : Reading) : QuarterTracker := updateM90 toNy (updateDay toNy t c) c

/-! ### The cycles as latches -/

section latches

variable (toNy : Int → Int)

def dayFeed : Latch Int ℚ → Reading → Latch Int ℚ :=
  Latch.feed (fun c => dayCycleId (toNy c.ts)) (fun c => dayQuarter (toNy c.ts) ≠ .q1) (·.open')

def m90Feed : Latch (Int × Int) ℚ → Reading → Latch (Int × Int) ℚ :=
  Latch.feed (fun c => m90CycleId (toNy c.ts)) (fun c => m90Quarter (toNy c.ts) ≠ .q1) (·.open')

def QuarterTracker.day (t : QuarterTracker) : Latch Int ℚ := ⟨t.dayId, t.state.dayQ2Open⟩

def QuarterTracker.m90 (t : QuarterTracker) : Latch (Int × Int) ℚ := ⟨t.m90Id, t.state.m90Q2Open⟩

theorem later_quarter (q : Quarter) : q ∈ [Quarter.q2, .q3, .q4] ↔ q ≠ .q1 := by cases q <;> decide

theorem updateDay_day (t : QuarterTracker) (c : Reading) : (updateDay toNy t c).day = dayFeed toNy t.day c := by
  unfold updateDay dayFeed Latch.feed QuarterTracker.day
  simp only [later_quarter]
  by_cases hid : t.dayId = some (dayCycleId (toNy c.ts)) <;> cases hopen : t.state.dayQ2Open <;>
    by_cases hq : dayQuarter (toNy c.ts) = .q1 <;> simp [hid, hopen, hq]

theorem updateM90_m90 (t : QuarterTracker) (c : Reading) : (updateM90 toNy t c).m90 = m90Feed toNy t.m90 c := by
  unfold updateM90 m90Feed Latch.feed QuarterTracker.m90
  simp only [later_quarter]
  by_cases hid : t.m90Id = some (m90CycleId (toNy c.ts)) <;> cases hopen : t.state.m90Q2Open <;>
    by_cases hq : m90Quarter (toNy c.ts) = .q1 <;> simp [hid, hopen, hq]

theorem updateDay_m90 (t : QuarterTracker) (c : Reading) : (updateDay toNy t c).m90 = t.m90 := by
  unfold updateDay
  dsimp only
  split_ifs <;> rfl

theorem updateM90_day (t : QuarterTracker) (c : Reading) : (updateM90 toNy t c).day = t.day := by
  unfold updateM90
  dsimp only
  split_ifs <;> rfl

theorem update_day (t : QuarterTracker) (c : Reading) : (update toNy t c).day = dayFeed toNy t.day c := by
  rw [update, updateM90_day, updateDay_day]

theorem update_m90 (t : QuarterTracker) (c : Reading) : (update toNy t c).m90 = m90Feed toNy t.m90 c := by
  rw [update, updateM90_m90, updateDay_m90]

theorem run_update (cs : List Reading) (t : QuarterTracker) :
    (run (update toNy) t cs).day = run (dayFeed toNy) t.day cs ∧
      (run (update toNy) t cs).m90 = run (m90Feed toNy) t.m90 cs := by
  induction cs generalizing t with
  | nil => exact ⟨rfl, rfl⟩
  | cons c cs ih =>
    rw [run_cons, run_cons, run_cons, ← update_day, ← update_m90]
    exact ih (update toNy t c)

end latches

/-! ### Boundaries -/

/-- The 6h session that a wall clock time is in. -/
def session (ny : Int) : Int := ny / (6 * hourMicros)

/-- When the second quarter of the day of a time begins. -/
def dayBoundary (ny : Int) : Int := dayCycleId ny * dayMicros

/-- When the second quarter of the session of a time begins. -/
def m90Boundary (ny : Int) : Int := session ny * (6 * hourMicros) + 90 * minuteMicros

section boundaries

variable {a b : Int}

theorem dayCycleId_eq (ny : Int) : dayCycleId ny = (session ny + 1) / 4 := by
  unfold dayCycleId session hour date hourMicros dayMicros minuteMicros
  split <;> omega

theorem dayCycleId_mono (h : session a ≤ session b) : dayCycleId a ≤ dayCycleId b := by
  rw [dayCycleId_eq, dayCycleId_eq]
  omega

theorem m90CycleId_eq_iff : m90CycleId a = m90CycleId b ↔ session a = session b := by
  unfold m90CycleId session hour date hourMicros dayMicros minuteMicros
  rw [Prod.mk.injEq]
  omega

theorem dayQuarter_first (ny : Int) : dayQuarter ny = .q1 ↔ 18 ≤ hour ny := by
  unfold dayQuarter
  split_ifs with h <;> simp [h]

theorem m90Quarter_first (ny : Int) : m90Quarter ny = .q1 ↔ ny < m90Boundary ny := by
  have hminutes : m90Quarter ny = .q1 ↔ (hour ny % 6 * 60 + minute ny) / 90 = 0 := by
    unfold m90Quarter
    dsimp only
    split
    · next h => simp [h]
    · next h => simp [h]
    · next h => simp [h]
    · next h _ _ => exact iff_of_false (fun h' => (nomatch h')) h
  rw [hminutes]
  unfold m90Boundary session hour minute hourMicros dayMicros minuteMicros
  omega

theorem dayBoundary_le_iff (h : session a ≤ session b) :
    dayBoundary b ≤ a ↔ dayCycleId a = dayCycleId b ∧ dayQuarter a ≠ .q1 := by
  rw [Ne, dayQuarter_first, dayBoundary, dayCycleId_eq, dayCycleId_eq]
  unfold session hour hourMicros dayMicros minuteMicros at *
  omega

theorem m90Boundary_le_iff (h : session a ≤ session b) :
    m90Boundary b ≤ a ↔ m90CycleId a = m90CycleId b ∧ m90Quarter a ≠ .q1 := by
  rw [Ne, m90Quarter_first, m90CycleId_eq_iff]
  unfold m90Boundary session hourMicros minuteMicros at *
  omega

end boundaries

/-! ### The opens of the second quarters -/

section opens

variable {toNy : Int → Int} {cs : List Reading} {a b : Int}

/-- From one candle to the next, over whatever gap, the clock ticks or turns. -/
def Runs (toNy : Int → Int) (a b : Int) : Prop := a ≤ b ∧ ∀ u, a < u → u ≤ b → Ticks toNy u ∨ Turns toNy u

/-- A turn is from one time of a session to another, since it is at two in the morning and of an hour. -/
theorem session_le_next {u : Int} (h : Ticks toNy u ∨ Turns toNy u) : session (toNy (u - 1)) ≤ session (toNy u) := by
  rcases h with htick | ⟨day, hbefore, hafter⟩
  · rw [show toNy u = toNy (u - 1) + 1 from htick]
    exact Int.ediv_le_ediv (by decide) (by omega)
  · unfold session hourMicros clock dayMicros minuteMicros at *
    omega

theorem session_le (h : Runs toNy a b) : session (toNy a) ≤ session (toNy b) := by
  obtain ⟨hab, hclock⟩ := h
  obtain ⟨n, rfl⟩ := Int.le.dest hab
  clear hab
  induction n with
  | zero => simp
  | succ n ih =>
    have hstep := session_le_next (hclock (a + (n + 1 : Nat)) (by omega) le_rfl)
    rw [show a + ((n + 1 : Nat) : Int) - 1 = a + n by omega] at hstep
    exact (ih fun u hau hub => hclock u hau (by omega)).trans hstep

theorem sessions_ordered (hclock : cs.IsChain fun c c' => Runs toNy c.ts c'.ts) :
    cs.Pairwise fun c c' => session (toNy c.ts) ≤ session (toNy c'.ts) := by
  have hchain : cs.IsChain fun c c' => session (toNy c.ts) ≤ session (toNy c'.ts) := hclock.imp fun _ _ => session_le
  have : IsTrans Reading fun c c' => session (toNy c.ts) ≤ session (toNy c'.ts) := ⟨fun _ _ _ => le_trans⟩
  exact List.isChain_iff_pairwise.mp hchain

theorem q2_opens_of_sessions {c : Reading}
    (hordered : (cs ++ [c]).Pairwise fun c c' => session (toNy c.ts) ≤ session (toNy c'.ts)) :
    (run (update toNy) {} (cs ++ [c])).state =
      { dayQ2Open := ((cs ++ [c]).find? fun r => dayBoundary (toNy c.ts) ≤ toNy r.ts).map (·.open')
        m90Q2Open := ((cs ++ [c]).find? fun r => m90Boundary (toNy c.ts) ≤ toNy r.ts).map (·.open') } := by
  have hlast : ∀ r ∈ cs ++ [c], session (toNy r.ts) ≤ session (toNy c.ts) := by
    intro r hr
    rcases List.mem_append.mp hr with hold | hend
    · exact (List.pairwise_append.mp hordered).2.2 r hold c (List.mem_singleton.mpr rfl)
    · rw [List.mem_singleton.mp hend]
  obtain ⟨hday, hm90⟩ := run_update toNy (cs ++ [c]) {}
  have hdayValue : (run (dayFeed toNy) {} (cs ++ [c])).value = ((cs ++ [c]).find? fun r =>
      dayCycleId (toNy r.ts) = dayCycleId (toNy c.ts) && dayQuarter (toNy r.ts) ≠ .q1).map (·.open') :=
    Latch.latch_value (fun _ _ => Iff.rfl) (hordered.imp dayCycleId_mono)
  have hm90Value : (run (m90Feed toNy) {} (cs ++ [c])).value = ((cs ++ [c]).find? fun r =>
      m90CycleId (toNy r.ts) = m90CycleId (toNy c.ts) && m90Quarter (toNy r.ts) ≠ .q1).map (·.open') :=
    Latch.latch_value (fun _ _ => m90CycleId_eq_iff) hordered
  have hdayOpen : (run (update toNy) {} (cs ++ [c])).state.dayQ2Open =
      ((cs ++ [c]).find? fun r => dayBoundary (toNy c.ts) ≤ toNy r.ts).map (·.open') := by
    refine (congrArg Latch.value hday).trans (hdayValue.trans ?_)
    refine congrArg (Option.map _) (List.find?_congr fun r hr => ?_)
    simp [dayBoundary_le_iff (hlast r hr)]
  have hm90Open : (run (update toNy) {} (cs ++ [c])).state.m90Q2Open =
      ((cs ++ [c]).find? fun r => m90Boundary (toNy c.ts) ≤ toNy r.ts).map (·.open') := by
    refine (congrArg Latch.value hm90).trans (hm90Value.trans ?_)
    refine congrArg (Option.map _) (List.find?_congr fun r hr => ?_)
    simp [m90Boundary_le_iff (hlast r hr)]
  rw [← hdayOpen, ← hm90Open]

/-- The clock of New York in the first months of 2026: on Sunday 2026-03-08 it goes from two to three. -/
def springClock (u : Int) : Int := if u < 1772953200000000 then u - 300 * minuteMicros else u - 240 * minuteMicros

theorem runs_springClock (h : a ≤ b) : Runs springClock a b := by
  refine ⟨h, fun u _ _ => ?_⟩
  unfold Ticks Turns springClock clock dayMicros minuteMicros
  by_cases hturn : u = 1772953200000000
  · subst hturn
    exact Or.inr ⟨20520, by decide, Or.inl (by decide)⟩
  · left
    split_ifs <;> omega

/-- Friday 2026-03-06 at 16:59, Sunday at 18:00 and Monday at 0:05; the clock turns in the first gap. -/
def overSpring : List Reading := [⟨1772834340000000, 4000⟩, ⟨1773007200000000, 4010⟩, ⟨1773029100000000, 4020⟩]

/-- Monday at 1:30. -/
def london : Reading := ⟨1773034200000000, 4030⟩

end opens

/-! ### The two trackers -/

section agree

variable {toNy : Int → Int} {l : Level}

theorem run_prevNy (cs : List Reading) (c : Reading) :
    (run (Trueopen.update toNy) {} (cs ++ [c])).prevNy = some (toNy c.ts) := by
  rw [run_append]
  rfl

/-- A level is the open of the first candle at or after its most recent slot time of the day, if a candle came before
that time and the clock has not gone back. -/
theorem level_first {cs : List Reading} {c : Reading} {slot : Int}
    (hforward : (cs ++ [c]).Pairwise fun r r' => toNy r.ts ≤ toNy r'.ts) (hday : l.onDay (toNy c.ts) = true)
    (hslot : slot ∈ l.slots) (hpast : date (toNy c.ts) * dayMicros + slot ≤ toNy c.ts)
    (hrecent : ∀ slot' ∈ l.slots, date (toNy c.ts) * dayMicros + slot' ≤ toNy c.ts → slot' ≤ slot)
    (hbefore : ∃ r ∈ cs, toNy r.ts < date (toNy c.ts) * dayMicros + slot) :
    l.get (run (Trueopen.update toNy) {} (cs ++ [c])).levels =
      ((cs ++ [c]).find? fun r => date (toNy c.ts) * dayMicros + slot ≤ toNy r.ts).map (·.open') := by
  induction cs using List.reverseRecOn generalizing c with
  | nil =>
    obtain ⟨r, hr, -⟩ := hbefore
    exact absurd hr List.not_mem_nil
  | append_singleton cs b ih =>
    obtain ⟨hearlier, -, hlast⟩ := List.pairwise_append.mp hforward
    have hbc : toNy b.ts ≤ toNy c.ts := hlast b (by simp) c (by simp)
    have hlevel : l.get (run (Trueopen.update toNy) {} (cs ++ [b] ++ [c])).levels =
        if l.isCrossed (toNy b.ts) (toNy c.ts) then some c.open'
        else l.get (run (Trueopen.update toNy) {} (cs ++ [b])).levels := by
      rw [run_append]
      show l.get (Trueopen.update toNy _ c).levels = _
      rw [Level.get_update, run_prevNy]
      rfl
    rw [hlevel, List.find?_append, List.find?_singleton, if_pos (decide_eq_true hpast)]
    by_cases hreached : date (toNy c.ts) * dayMicros + slot ≤ toNy b.ts
    · -- the candle before is past the slot time already
      have hrange := l.slots_range slot hslot
      have hsame : date (toNy b.ts) = date (toNy c.ts) := by
        unfold date dayMicros at *
        omega
      have hkept : l.isCrossed (toNy b.ts) (toNy c.ts) = false := by
        unfold Level.isCrossed crossed
        rw [Bool.and_eq_false_iff]
        right
        rw [List.any_eq_false]
        intro slot' hslot' hcrossed
        obtain ⟨hlow, hhigh⟩ : toNy b.ts < date (toNy c.ts) * dayMicros + slot' ∧
            date (toNy c.ts) * dayMicros + slot' ≤ toNy c.ts := by simpa using hcrossed
        have := hrecent slot' hslot' hhigh
        omega
      have hbefore' : ∃ r ∈ cs, toNy r.ts < date (toNy b.ts) * dayMicros + slot := by
        obtain ⟨r, hr, hlow⟩ := hbefore
        rcases List.mem_append.mp hr with hold | hend
        · exact ⟨r, hold, by rwa [hsame]⟩
        · rw [List.mem_singleton.mp hend] at hlow
          omega
      have hb := ih hearlier (by rwa [l.onDay_congr hsame]) (by rwa [hsame]) (fun slot' hslot' hle => by
        rw [hsame] at hle
        exact hrecent slot' hslot' (hle.trans hbc)) hbefore'
      rw [hsame] at hb
      have hsome : ((cs ++ [b]).find? fun r => date (toNy c.ts) * dayMicros + slot ≤ toNy r.ts).isSome := by
        rw [List.find?_isSome]
        exact ⟨b, by simp, by simpa using hreached⟩
      rw [hkept, if_neg Bool.false_ne_true, hb, Option.or_of_isSome hsome]
    · -- it is the first candle after the slot time
      have hcrossed : l.isCrossed (toNy b.ts) (toNy c.ts) = true := by
        unfold Level.isCrossed crossed
        rw [hday, Bool.true_and, List.any_eq_true]
        exact ⟨slot, hslot, by simpa using ⟨not_le.mp hreached, hpast⟩⟩
      have hnone : ((cs ++ [b]).find? fun r => date (toNy c.ts) * dayMicros + slot ≤ toNy r.ts) = none := by
        rw [List.find?_eq_none]
        intro r hr
        have hrb : toNy r.ts ≤ toNy b.ts := by
          rcases List.mem_append.mp hr with hold | hend
          · exact (List.pairwise_append.mp hearlier).2.2 r hold b (by simp)
          · rw [List.mem_singleton.mp hend]
        simp only [decide_eq_true_eq]
        omega
      rw [hcrossed, if_pos rfl, hnone, Option.none_or, Option.map_some]

theorem dayBoundary_midnight {ny : Int} (h : dayQuarter ny ≠ .q1) : dayBoundary ny = date ny * dayMicros + clock 0 0 := by
  rw [Ne, dayQuarter_first] at h
  rw [dayBoundary, dayCycleId, if_neg h]
  unfold clock
  omega

theorem dayBoundary_le {ny : Int} (h : dayQuarter ny ≠ .q1) : dayBoundary ny ≤ ny :=
  (dayBoundary_le_iff le_rfl).mpr ⟨rfl, h⟩

theorem m90Boundary_le {ny : Int} (h : m90Quarter ny ≠ .q1) : m90Boundary ny ≤ ny :=
  (m90Boundary_le_iff le_rfl).mpr ⟨rfl, h⟩

theorem m90Boundary_slot {ny : Int} (hquarter : m90Quarter ny ≠ .q1) (hhour : hour ny < 18) :
    m90Boundary ny - date ny * dayMicros ∈ Level.session.slots ∧
      ∀ slot ∈ Level.session.slots, date ny * dayMicros + slot ≤ ny → slot ≤ m90Boundary ny - date ny * dayMicros := by
  have hpast := m90Boundary_le hquarter
  have hslots : Level.session.slots = [clock 1 30, clock 7 30, clock 13 30] := rfl
  simp only [hslots, List.mem_cons, List.not_mem_nil, or_false, forall_eq_or_imp, forall_eq]
  unfold m90Boundary session hour date clock hourMicros dayMicros minuteMicros at *
  omega

/-- Sunday 2026-06-07 at 18:30 and Monday at 1:40, over a gap; New York is four hours behind. -/
def overLondon : List Reading := [⟨1780871400000000, 4010⟩, ⟨1780897200000000, 4020⟩]

/-- Monday at 8:00. -/
def morning : Reading := ⟨1780920000000000, 4030⟩

end agree

end Quarters

end FreqTrading
