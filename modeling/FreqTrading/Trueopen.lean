import Mathlib.Data.Int.LeastGreatest
import Mathlib.Data.List.Chain
import FreqTrading.Lib.Run
import FreqTrading.Models

/-!
# True opens

`TrueOpenTracker` of `orb/trueopen.py`: the open prices at fixed New York times. `toNy` is the wall clock of New York, in
microseconds like the UTC time stamps; the time zone database is not part of the repository, and all that is used of it is
`Regular`. Aware datetimes of one zone are compared and subtracted by their wall clocks, as here.

A slot time is looked for on the date of the candle only. Over a gap that is enough for the day open (`survives_tdo`); the
other levels are kept right exactly as far as `Survives` goes.
-/

namespace FreqTrading

open Lib

namespace Trueopen

/-- `time(hour, minute)`. -/
def clock (hour minute : Int) : Int := (hour * 60 + minute) * minuteMicros

/-- `_SESSION_SLOTS`, with `_SESSION_NAMES`. -/
def sessionSlots : List (Int × String) := [(clock 1 30, "london"), (clock 7 30, "new_york"), (clock 13 30, "pm")]

/-- `_CYCLE_SLOTS`. -/
def cycleSlots : List Int := [clock 3 23, clock 9 23, clock 15 23]

structure TrueOpens where
  tdo : Option ℚ := none
  sessionOpen : Option ℚ := none
  sessionName : Option String := none
  weekOpen : Option ℚ := none
  cycleOpen : Option ℚ := none
  deriving DecidableEq, Repr

/-- What `update` reads of a candle. -/
structure Reading where
  ts : Int
  open' : ℚ
  deriving DecidableEq, Repr

structure TrueOpenTracker where
  levels : TrueOpens := {}
  prevNy : Option Int := none
  deriving DecidableEq, Repr

/-- `weekday()`: the epoch began on a Thursday, and Monday is 0. -/
def weekday (ny : Int) : Int := (date ny + 3) % 7

/-- `_crossed`: the slot time on the date of `cur` falls in `(prev, cur]`. -/
def crossed (prev cur slot : Int) : Bool :=
  let target := date cur * dayMicros + slot
  prev < target && target ≤ cur

/-- The session slots crossed, each with its name: the last one wins. -/
def openSessions (prev ny : Int) (x : ℚ) (levels : TrueOpens) : TrueOpens :=
  sessionSlots.foldl (fun levels slot =>
    if crossed prev ny slot.1 then { levels with sessionOpen := some x, sessionName := some slot.2 } else levels) levels

/-- The cycle slots crossed. -/
def openCycles (prev ny : Int) (x : ℚ) (levels : TrueOpens) : TrueOpens :=
  cycleSlots.foldl (fun levels slot => if crossed prev ny slot then { levels with cycleOpen := some x } else levels) levels

def update (toNy : Int → Int) (t : TrueOpenTracker) (c : Reading) : TrueOpenTracker :=
  let ny := toNy c.ts
  let prev := t.prevNy.getD (ny - minuteMicros)
  let levels := if crossed prev ny (clock 0 0) then { t.levels with tdo := some c.open' } else t.levels
  let levels := openCycles prev ny c.open' (openSessions prev ny c.open' levels)
  let levels := if weekday ny = 0 ∧ crossed prev ny (clock 18 0) then { levels with weekOpen := some c.open' } else levels
  { levels := levels, prevNy := some ny }

/-! ### The levels -/

inductive Level
  | tdo | session | cycle | week
  deriving DecidableEq, Repr

namespace Level

/-- The slot times of a level. -/
def slots : Level → List Int
  | .tdo => [clock 0 0]
  | .session => sessionSlots.map (·.1)
  | .cycle => cycleSlots
  | .week => [clock 18 0]

/-- The level has its slots on the day of a wall clock time. -/
def onDay : Level → Int → Bool
  | .week, ny => weekday ny = 0
  | _, _ => true

def get : Level → TrueOpens → Option ℚ
  | .tdo, levels => levels.tdo
  | .session, levels => levels.sessionOpen
  | .cycle, levels => levels.cycleOpen
  | .week, levels => levels.weekOpen

/-- A slot of the level is crossed. -/
def isCrossed (l : Level) (prev cur : Int) : Bool := l.onDay cur && l.slots.any (crossed prev cur)

section folds

variable {σ α β : Type} {p : α → Bool} {set : σ → α → σ} {f : σ → β}

theorem foldl_sets {v : β} (hset : ∀ s a, f (set s a) = v) (as : List α) (s : σ) :
    f (as.foldl (fun s a => if p a then set s a else s) s) = if as.any p then v else f s := by
  induction as generalizing s with
  | nil => rfl
  | cons a as ih =>
    rw [List.foldl_cons, ih, List.any_cons]
    by_cases ha : p a = true
    · rw [if_pos ha, ha, Bool.true_or, if_pos rfl, hset, ite_self]
    · rw [if_neg ha, eq_false_of_ne_true ha, Bool.false_or]

theorem foldl_leaves (hset : ∀ s a, f (set s a) = f s) (as : List α) (s : σ) :
    f (as.foldl (fun s a => if p a then set s a else s) s) = f s := by
  induction as generalizing s with
  | nil => rfl
  | cons a as ih =>
    rw [List.foldl_cons, ih]
    by_cases ha : p a = true
    · rw [if_pos ha, hset]
    · rw [if_neg ha]

end folds

variable {prev ny : Int} {x : ℚ}

theorem openSessions_session (levels : TrueOpens) : (openSessions prev ny x levels).sessionOpen =
    if (sessionSlots.map (·.1)).any (crossed prev ny) then some x else levels.sessionOpen := by
  rw [openSessions, List.any_map]
  apply foldl_sets (f := TrueOpens.sessionOpen)
  intro levels slot
  rfl

theorem openCycles_cycle (levels : TrueOpens) : (openCycles prev ny x levels).cycleOpen =
    if cycleSlots.any (crossed prev ny) then some x else levels.cycleOpen := by
  rw [openCycles]
  apply foldl_sets (f := TrueOpens.cycleOpen)
  intro levels slot
  rfl

theorem openSessions_other {f : TrueOpens → Option ℚ}
    (hf : ∀ (levels : TrueOpens) y name, f { levels with sessionOpen := y, sessionName := name } = f levels)
    (levels : TrueOpens) : f (openSessions prev ny x levels) = f levels := by
  rw [openSessions]
  apply foldl_leaves
  intro levels slot
  exact hf levels (some x) (some slot.2)

theorem openCycles_other {f : TrueOpens → Option ℚ}
    (hf : ∀ (levels : TrueOpens) y, f { levels with cycleOpen := y } = f levels) (levels : TrueOpens) :
    f (openCycles prev ny x levels) = f levels := by
  rw [openCycles]
  apply foldl_leaves
  intro levels slot
  exact hf levels (some x)

theorem get_update (toNy : Int → Int) (t : TrueOpenTracker) (c : Reading) (l : Level) :
    l.get (update toNy t c).levels =
      if l.isCrossed (t.prevNy.getD (toNy c.ts - minuteMicros)) (toNy c.ts) then some c.open' else l.get t.levels := by
  unfold update isCrossed
  dsimp only
  generalize t.prevNy.getD (toNy c.ts - minuteMicros) = prev
  generalize toNy c.ts = ny
  cases l with
  | tdo =>
    have hkept (levels : TrueOpens) : (openCycles prev ny c.open' (openSessions prev ny c.open' levels)).tdo = levels.tdo :=
      (openCycles_other (f := TrueOpens.tdo) (fun _ _ => rfl) _).trans (openSessions_other (fun _ _ _ => rfl) levels)
    simp only [get, onDay, slots, apply_ite TrueOpens.tdo, ite_self, hkept, List.any_cons, List.any_nil, Bool.or_false,
      Bool.true_and]
  | session =>
    have hkept (levels : TrueOpens) : (openCycles prev ny c.open' levels).sessionOpen = levels.sessionOpen :=
      openCycles_other (f := TrueOpens.sessionOpen) (fun _ _ => rfl) levels
    simp only [get, onDay, slots, apply_ite TrueOpens.sessionOpen, ite_self, hkept, openSessions_session, Bool.true_and]
  | cycle =>
    have hkept (levels : TrueOpens) : (openSessions prev ny c.open' levels).cycleOpen = levels.cycleOpen :=
      openSessions_other (f := TrueOpens.cycleOpen) (fun _ _ _ => rfl) levels
    simp only [get, onDay, slots, apply_ite TrueOpens.cycleOpen, ite_self, openCycles_cycle, hkept, Bool.true_and]
  | week =>
    have hkept (levels : TrueOpens) :
        (openCycles prev ny c.open' (openSessions prev ny c.open' levels)).weekOpen = levels.weekOpen :=
      (openCycles_other (f := TrueOpens.weekOpen) (fun _ _ => rfl) _).trans (openSessions_other (fun _ _ _ => rfl) levels)
    simp only [get, onDay, slots, apply_ite TrueOpens.weekOpen, ite_self, hkept, List.any_cons, List.any_nil,
      Bool.or_false, Bool.and_eq_true, decide_eq_true_eq]

end Level

/-! ### Occurrences -/

/-- The clock in New York reads a slot time of the level. -/
def Level.Occurs (l : Level) (toNy : Int → Int) (t : Int) : Prop :=
  l.onDay (toNy t) = true ∧ ∃ slot ∈ l.slots, toNy t = date (toNy t) * dayMicros + slot

/-- The clock ticks. -/
def Ticks (toNy : Int → Int) (u : Int) : Prop := toNy u = toNy (u - 1) + 1

/-- The clock turns: at two in the morning it is set by an hour. -/
def Turns (toNy : Int → Int) (u : Int) : Prop :=
  ∃ day, toNy (u - 1) + 1 = day * dayMicros + clock 2 0 ∧
    (toNy u = day * dayMicros + clock 3 0 ∨ toNy u = day * dayMicros + clock 1 0)

/-- From one candle to the next: the clock ticks all the time, or turns in between, but not in a gap. -/
def Regular (toNy : Int → Int) (a b : Int) : Prop :=
  a < b ∧ ∀ u, a < u → u ≤ b → Ticks toNy u ∨ Turns toNy u ∧ b ≤ a + minuteMicros

section regular

variable {toNy : Int → Int} {a b : Int} {l : Level}

theorem Level.slots_range (l : Level) : ∀ slot ∈ l.slots, 0 ≤ slot ∧ slot < dayMicros := by
  cases l <;> decide

theorem Level.slots_clear (l : Level) :
    ∀ slot ∈ l.slots, slot < clock 1 0 ∨ clock 1 1 ≤ slot ∧ slot < clock 1 59 ∨ clock 3 1 ≤ slot := by
  cases l <;> decide

theorem Level.onDay_congr (l : Level) {ny ny' : Int} (h : date ny = date ny') : l.onDay ny = l.onDay ny' := by
  cases l with
  | week =>
    unfold onDay weekday
    dsimp only
    rw [h]
  | tdo => rfl
  | session => rfl
  | cycle => rfl

theorem ticks_from (h : ∀ u, a < u → u ≤ b → Ticks toNy u) {t : Int} (hat : a ≤ t) (htb : t ≤ b) :
    toNy t = toNy a + (t - a) := by
  have hcount : ∀ n : Nat, a + n ≤ b → toNy (a + n) = toNy a + n := by
    intro n
    induction n with
    | zero => simp
    | succ n ih =>
      intro hn
      have hstep := h (a + (n + 1 : Nat)) (by omega) hn
      unfold Ticks at hstep
      rw [hstep, show a + ((n + 1 : Nat) : Int) - 1 = a + n by omega, ih (by omega)]
      omega
  have ht := hcount (t - a).toNat (by omega)
  rwa [show a + ((t - a).toNat : Int) = t by omega, show (((t - a).toNat : Nat) : Int) = t - a by omega] at ht

theorem date_of_slot {day slot : Int} (h : 0 ≤ slot ∧ slot < dayMicros) : date (day * dayMicros + slot) = day := by
  unfold date dayMicros at *
  omega

theorem isCrossed_of_ticks (hab : a < b) (hlocal : ∀ t, a ≤ t → t ≤ b → toNy t = toNy a + (t - a)) :
    l.isCrossed (toNy a) (toNy b) = true ↔
      ∃ t, a < t ∧ t ≤ b ∧ l.Occurs toNy t ∧ date (toNy t) = date (toNy b) := by
  have hend := hlocal b hab.le le_rfl
  unfold Level.isCrossed crossed Level.Occurs
  simp only [Bool.and_eq_true, List.any_eq_true, decide_eq_true_eq]
  constructor
  · rintro ⟨hday, slot, hslot, hlow, hhigh⟩
    have hrange := l.slots_range slot hslot
    generalize hdate : date (toNy b) = day at hlow hhigh
    have hat := hlocal (a + (day * dayMicros + slot - toNy a)) (by omega) (by omega)
    have hread : toNy (a + (day * dayMicros + slot - toNy a)) = day * dayMicros + slot := by omega
    have hsame : date (toNy (a + (day * dayMicros + slot - toNy a))) = day := by rw [hread, date_of_slot hrange]
    refine ⟨a + (day * dayMicros + slot - toNy a), by omega, by omega, ⟨?_, slot, hslot, ?_⟩, hsame⟩
    · rw [l.onDay_congr (hsame.trans hdate.symm)]
      exact hday
    · rw [hsame, hread]
  · rintro ⟨t, hat, htb, ⟨hday, slot, hslot, hread⟩, hsame⟩
    have ht := hlocal t hat.le htb
    rw [hsame] at hread
    rw [l.onDay_congr hsame] at hday
    exact ⟨hday, slot, hslot, by omega, by omega⟩

/-- Around the turn of a clock, in a step of at most a minute: before it the clock reads just before two, and from it on
just after three or one. -/
theorem turn_reads {u day : Int} (hstep : b ≤ a + minuteMicros) (hau : a < u) (hub : u ≤ b)
    (h : ∀ u, a < u → u ≤ b → Ticks toNy u ∨ Turns toNy u) (hbefore : toNy (u - 1) + 1 = day * dayMicros + clock 2 0)
    (hafter : toNy u = day * dayMicros + clock 3 0 ∨ toNy u = day * dayMicros + clock 1 0) :
    (∀ n : Nat, a ≤ u - 1 - n → toNy (u - 1 - n) = toNy (u - 1) - n) ∧ ∀ n : Nat, u + n ≤ b → toNy (u + n) = toNy u + n := by
  unfold clock dayMicros minuteMicros at *
  constructor
  · intro n
    induction n with
    | zero => simp
    | succ n ih =>
      intro hn
      have hprev := ih (by push_cast at hn; omega)
      have hsame : u - 1 - ((n + 1 : Nat) : Int) = u - 1 - n - 1 := by omega
      rw [hsame] at hn ⊢
      rcases h (u - 1 - n) (by omega) (by omega) with htick | ⟨day', -, hturn⟩
      · unfold Ticks at htick
        push_cast
        omega
      · -- it would read three or one, and reads just before two
        unfold clock dayMicros minuteMicros at hturn
        exfalso
        omega
  · intro n
    induction n with
    | zero => simp
    | succ n ih =>
      intro hn
      have hprev := ih (by push_cast at hn; omega)
      have hsame : u + ((n + 1 : Nat) : Int) - 1 = u + n := by omega
      rcases h (u + (n + 1 : Nat)) (by omega) hn with htick | ⟨day', hturn, -⟩
      · unfold Ticks at htick
        rw [htick, hsame, hprev]
        omega
      · unfold clock dayMicros minuteMicros at hturn
        rw [hsame] at hturn
        exfalso
        omega

/-- Where the clock turns, no slot occurs, and none is crossed. -/
theorem not_crossed_of_turn {u : Int} (hstep : b ≤ a + minuteMicros) (hau : a < u) (hub : u ≤ b)
    (h : ∀ u, a < u → u ≤ b → Ticks toNy u ∨ Turns toNy u) (hturn : Turns toNy u) :
    l.isCrossed (toNy a) (toNy b) = false ∧ ∀ t, a < t → t ≤ b → ¬ l.Occurs toNy t := by
  obtain ⟨day, hbefore, hafter⟩ := hturn
  obtain ⟨hearlier, hlater⟩ := turn_reads hstep hau hub h hbefore hafter
  have hstart := hearlier (u - 1 - a).toNat (by omega)
  have hend := hlater (b - u).toNat (by omega)
  rw [show u - 1 - ((u - 1 - a).toNat : Int) = a by omega] at hstart
  rw [show u + ((b - u).toNat : Int) = b by omega] at hend
  constructor
  · have hdate : date (toNy b) = day := by
      unfold date clock dayMicros minuteMicros at *
      omega
    have hnone : l.slots.any (crossed (toNy a) (toNy b)) = false := by
      rw [List.any_eq_false]
      intro slot hslot hcrossed
      have hclear := l.slots_clear slot hslot
      unfold crossed at hcrossed
      rw [hdate] at hcrossed
      simp only [Bool.and_eq_true, decide_eq_true_eq] at hcrossed
      unfold clock dayMicros minuteMicros at *
      omega
    unfold Level.isCrossed
    rw [hnone, Bool.and_false]
  · rintro t hat htb ⟨-, slot, hslot, hread⟩
    have hclear := l.slots_clear slot hslot
    have hrange := l.slots_range slot hslot
    rcases lt_or_ge t u with hlt | hge
    · have ht := hearlier (u - 1 - t).toNat (by omega)
      rw [show u - 1 - ((u - 1 - t).toNat : Int) = t by omega] at ht
      generalize date (toNy t) = day' at hread
      unfold clock dayMicros minuteMicros at *
      omega
    · have ht := hlater (t - u).toNat (by omega)
      rw [show u + ((t - u).toNat : Int) = t by omega] at ht
      generalize date (toNy t) = day' at hread
      unfold clock dayMicros minuteMicros at *
      omega

theorem Regular.cases (h : Regular toNy a b) (l : Level) : (∀ t, a ≤ t → t ≤ b → toNy t = toNy a + (t - a)) ∨
    l.isCrossed (toNy a) (toNy b) = false ∧ ∀ t, a < t → t ≤ b → ¬ l.Occurs toNy t := by
  obtain ⟨hab, hclock⟩ := h
  by_cases hticks : ∀ u, a < u → u ≤ b → Ticks toNy u
  · exact Or.inl fun t => ticks_from hticks
  · push Not at hticks
    obtain ⟨u, hau, hub, hnot⟩ := hticks
    obtain ⟨hturn, hstep⟩ := (hclock u hau hub).resolve_left hnot
    exact Or.inr (not_crossed_of_turn hstep hau hub (fun v hav hvb => (hclock v hav hvb).imp_right And.left) hturn)

theorem isCrossed_iff (h : Regular toNy a b) : l.isCrossed (toNy a) (toNy b) = true ↔
    ∃ t, a < t ∧ t ≤ b ∧ l.Occurs toNy t ∧ date (toNy t) = date (toNy b) := by
  rcases h.cases l with hlocal | ⟨hcrossed, hnone⟩
  · exact isCrossed_of_ticks h.1 hlocal
  · rw [hcrossed]
    refine iff_of_false (by decide) ?_
    rintro ⟨t, hat, htb, hocc, -⟩
    exact hnone t hat htb hocc

end regular

/-! ### Gaps -/

/-- A tracker, with the candles it has been fed. -/
structure OpenWatch where
  tracker : TrueOpenTracker := {}
  seen : List Reading := []
  deriving DecidableEq, Repr

def openStep (toNy : Int → Int) (w : OpenWatch) (c : Reading) : OpenWatch :=
  { tracker := update toNy w.tracker c, seen := w.seen ++ [c] }

/-- The level is the open of the first candle at or after its most recent slot time that lies after the first candle. -/
def Correct (toNy : Int → Int) (l : Level) (w : OpenWatch) : Prop :=
  ∀ first ∈ w.seen.head?, ∀ last ∈ w.seen.getLast?, ∀ t, l.Occurs toNy t → first.ts < t → t ≤ last.ts →
    (∀ t', l.Occurs toNy t' → t' ≤ last.ts → t' ≤ t) →
    l.get w.tracker.levels = (w.seen.find? fun c => t ≤ c.ts).map (·.open')

/-- If a slot time of the level has been since the last candle, then one has been on the date of this candle, or the
level happens to be the open of this candle already. -/
def Survives (toNy : Int → Int) (l : Level) (w : OpenWatch) (c : Reading) : Prop :=
  ∀ last ∈ w.seen.getLast?, (∃ t, last.ts < t ∧ t ≤ c.ts ∧ l.Occurs toNy t) →
    (∃ t, last.ts < t ∧ t ≤ c.ts ∧ l.Occurs toNy t ∧ date (toNy t) = date (toNy c.ts)) ∨
    l.get w.tracker.levels = some c.open'

/-- The clock is regular from the last candle to the next one. -/
def Follows (toNy : Int → Int) (w : OpenWatch) (c : Reading) : Prop :=
  ∀ last ∈ w.seen.getLast?, Regular toNy last.ts c.ts

/-- The candles ascend, and the tracker has read the clock at the last one. -/
def Tracked (toNy : Int → Int) (w : OpenWatch) : Prop :=
  w.seen.Pairwise (fun c c' => c.ts < c'.ts) ∧ w.tracker.prevNy = w.seen.getLast?.map fun c => toNy c.ts

section gaps

variable {toNy : Int → Int} {l : Level} {w : OpenWatch} {c : Reading}

theorem Tracked.le_last (h : Tracked toNy w) {last : Reading} (hlast : last ∈ w.seen.getLast?) :
    ∀ c ∈ w.seen, c.ts ≤ last.ts := by
  obtain ⟨before, hsplit⟩ := List.getLast?_eq_some_iff.mp hlast
  have hpair := h.1
  rw [hsplit, List.pairwise_append] at hpair
  rw [hsplit]
  intro c hc
  rcases List.mem_append.mp hc with hbefore | hend
  · exact (hpair.2.2 c hbefore last (List.mem_singleton.mpr rfl)).le
  · rw [List.mem_singleton.mp hend]

theorem tracked_openStep (h : Tracked toNy w) (hc : Follows toNy w c) : Tracked toNy (openStep toNy w c) := by
  constructor
  · refine List.pairwise_append.mpr ⟨h.1, List.pairwise_singleton _ _, ?_⟩
    intro c' hc' c'' hc''
    rw [List.mem_singleton.mp hc'']
    obtain ⟨last, hlast⟩ : ∃ last, w.seen.getLast? = some last :=
      ⟨_, List.getLast?_eq_getLast_of_ne_nil (List.ne_nil_of_mem hc')⟩
    exact lt_of_le_of_lt (h.le_last hlast c' hc') (hc last hlast).1
  · show some (toNy c.ts) = _
    rw [openStep, List.getLast?_append_of_ne_nil _ (List.cons_ne_nil c []), List.getLast?_singleton, Option.map_some]

theorem follows_of_chain {cs : List Reading}
    (h : List.IsChain (fun c c' => Regular toNy c.ts c'.ts) (w.seen ++ cs)) :
    StepsMeet (openStep toNy) (Follows toNy) w cs := by
  induction cs generalizing w with
  | nil => trivial
  | cons c cs ih =>
    constructor
    · intro last hlast
      exact (List.isChain_append.mp h).2.2 last hlast c rfl
    · apply ih
      show List.IsChain _ ((w.seen ++ [c]) ++ cs)
      rwa [List.append_assoc, List.singleton_append]

theorem exists_most_recent {b : Int} (h : ∃ t, l.Occurs toNy t ∧ t ≤ b) :
    ∃ t, l.Occurs toNy t ∧ t ≤ b ∧ ∀ t', l.Occurs toNy t' → t' ≤ b → t' ≤ t := by
  obtain ⟨t, ⟨hocc, htb⟩, hgreatest⟩ :=
    Int.exists_greatest_of_bdd (P := fun t => l.Occurs toNy t ∧ t ≤ b) ⟨b, fun t ht => ht.2⟩ h
  exact ⟨t, hocc, htb, fun t' hocc' ht' => hgreatest t' ⟨hocc', ht'⟩⟩

theorem head_openStep (hseen : w.seen ≠ []) : (openStep toNy w c).seen.head? = w.seen.head? :=
  List.head?_append_of_ne_nil _ hseen

theorem last_openStep (toNy : Int → Int) (w : OpenWatch) (c : Reading) :
    (openStep toNy w c).seen.getLast? = some c := by
  rw [openStep, List.getLast?_append_of_ne_nil _ (List.cons_ne_nil c []), List.getLast?_singleton]

theorem get_openStep (h : Tracked toNy w) {last : Reading} (hlast : w.seen.getLast? = some last) :
    l.get (openStep toNy w c).tracker.levels =
      if l.isCrossed (toNy last.ts) (toNy c.ts) then some c.open' else l.get w.tracker.levels := by
  rw [openStep, Level.get_update, h.2, hlast]
  rfl

theorem correct_first (hseen : w.seen = []) : Correct toNy l (openStep toNy w c) := by
  intro first hfirst last hlast t hocc hlow hhigh
  rw [openStep, hseen] at hfirst hlast
  obtain rfl : c = first := Option.some.inj hfirst
  obtain rfl : c = last := Option.some.inj hlast
  omega

theorem correct_quiet (h : Tracked toNy w) (hc : Follows toNy w c) {last : Reading}
    (hlast : w.seen.getLast? = some last) (hnone : ¬ ∃ t, last.ts < t ∧ t ≤ c.ts ∧ l.Occurs toNy t)
    (hcorrect : Correct toNy l w) : Correct toNy l (openStep toNy w c) := by
  have hgap := hc last hlast
  have hne : w.seen ≠ [] := List.ne_nil_of_mem (List.mem_of_getLast? hlast)
  intro first hfirst last' hlast' t hocc hlow hhigh hmax
  rw [head_openStep hne] at hfirst
  rw [last_openStep] at hlast'
  obtain rfl : c = last' := Option.some.inj hlast'
  have hbefore : t ≤ last.ts := by
    by_contra hafter
    exact hnone ⟨t, by omega, hhigh, hocc⟩
  have hkept : l.get (openStep toNy w c).tracker.levels = l.get w.tracker.levels := by
    rw [get_openStep h hlast, if_neg]
    intro hcrossed
    obtain ⟨t', hlow', hhigh', hocc', -⟩ := (isCrossed_iff hgap).mp hcrossed
    exact hnone ⟨t', hlow', hhigh', hocc'⟩
  have hfind : (openStep toNy w c).seen.find? (fun c => t ≤ c.ts) = w.seen.find? fun c => t ≤ c.ts := by
    have hsome : (w.seen.find? fun c => t ≤ c.ts).isSome := by
      rw [List.find?_isSome]
      exact ⟨last, List.mem_of_getLast? hlast, by simpa using hbefore⟩
    rw [openStep, List.find?_append, Option.or_of_isSome hsome]
  rw [hkept, hfind]
  refine hcorrect first hfirst last hlast t hocc hlow hbefore ?_
  intro t' hocc' hle
  exact hmax t' hocc' (hle.trans hgap.1.le)

theorem correct_after_slot (h : Tracked toNy w) {last : Reading} (hlast : w.seen.getLast? = some last)
    (hsome : ∃ t, last.ts < t ∧ t ≤ c.ts ∧ l.Occurs toNy t) :
    Correct toNy l (openStep toNy w c) ↔ l.get (openStep toNy w c).tracker.levels = some c.open' := by
  have hne : w.seen ≠ [] := List.ne_nil_of_mem (List.mem_of_getLast? hlast)
  obtain ⟨t₀, hlow₀, hhigh₀, hocc₀⟩ := hsome
  -- the candle is the first one after each slot time of the gap
  have hfind : ∀ t, last.ts < t → t ≤ c.ts →
      ((openStep toNy w c).seen.find? fun c => t ≤ c.ts).map (·.open') = some c.open' := by
    intro t hlow hhigh
    have hnone : w.seen.find? (fun c => t ≤ c.ts) = none := by
      rw [List.find?_eq_none]
      intro c' hc'
      have hle := h.le_last hlast c' hc'
      simp only [decide_eq_true_eq]
      omega
    rw [openStep, List.find?_append, hnone, Option.none_or, List.find?_singleton, if_pos (by simpa using hhigh)]
    rfl
  constructor
  · intro hcorrect
    obtain ⟨t, hocc, hhigh, hmax⟩ := exists_most_recent ⟨t₀, hocc₀, hhigh₀⟩
    have hlow : last.ts < t := lt_of_lt_of_le hlow₀ (hmax t₀ hocc₀ hhigh₀)
    obtain ⟨first, hfirst⟩ : ∃ first, w.seen.head? = some first := ⟨_, List.head?_eq_some_head hne⟩
    have hstart := h.le_last hlast first (List.mem_of_head? hfirst)
    rw [← hfind t hlow hhigh]
    exact hcorrect first (by rw [head_openStep hne]; exact hfirst) c (last_openStep toNy w c) t hocc (by omega) hhigh hmax
  · intro hlevel first hfirst last' hlast' t hocc hlow hhigh hmax
    rw [last_openStep] at hlast'
    obtain rfl : c = last' := Option.some.inj hlast'
    have hrecent := hmax t₀ hocc₀ hhigh₀
    rw [hlevel, hfind t (by omega) hhigh]

/-- One candle: a level that is correct stays correct exactly if it survives. -/
theorem correct_openStep (h : Tracked toNy w) (hc : Follows toNy w c) (hcorrect : Correct toNy l w) :
    Correct toNy l (openStep toNy w c) ↔ Survives toNy l w c := by
  cases hseen : w.seen.getLast? with
  | none =>
    refine iff_of_true (correct_first (List.getLast?_eq_none_iff.mp hseen)) ?_
    intro last hlast
    rw [hseen] at hlast
    cases hlast
  | some last =>
    have hsurvives : Survives toNy l w c ↔ ((∃ t, last.ts < t ∧ t ≤ c.ts ∧ l.Occurs toNy t) →
        l.isCrossed (toNy last.ts) (toNy c.ts) = true ∨ l.get w.tracker.levels = some c.open') := by
      rw [isCrossed_iff (hc last hseen)]
      constructor
      · intro hall
        exact hall last hseen
      · intro hone last' hlast'
        obtain rfl : last = last' := Option.some.inj (hseen.symm.trans hlast')
        exact hone
    rw [hsurvives]
    by_cases hsome : ∃ t, last.ts < t ∧ t ≤ c.ts ∧ l.Occurs toNy t
    · rw [correct_after_slot h hseen hsome, get_openStep h hseen]
      by_cases hcrossed : l.isCrossed (toNy last.ts) (toNy c.ts) = true
      · rw [if_pos hcrossed]
        exact iff_of_true rfl fun _ => Or.inl hcrossed
      · rw [if_neg hcrossed]
        constructor
        · intro hlevel _
          exact Or.inr hlevel
        · intro hlevel
          exact (hlevel hsome).resolve_left hcrossed
    · refine iff_of_true (correct_quiet h hc hseen hsome hcorrect) ?_
      intro hgap
      exact absurd hgap hsome

/-- The day open survives every gap: where a midnight has been, the last one was on the date of the candle. -/
theorem survives_tdo (hc : Follows toNy w c) : Survives toNy .tdo w c := by
  rintro last hlast ⟨t, hlow, hhigh, hocc⟩
  have hgap := hc last hlast
  rcases hgap.cases .tdo with hlocal | ⟨-, hnone⟩
  · left
    obtain ⟨-, slot, hslot, hread⟩ := hocc
    obtain rfl : slot = clock 0 0 := List.mem_singleton.mp hslot
    have ht := hlocal t hlow.le hhigh
    have hend := hlocal c.ts hgap.1.le le_rfl
    -- the midnight of the date of this candle
    have hdate : date (toNy c.ts) * dayMicros ≤ toNy c.ts ∧ date (toNy t) ≤ date (toNy c.ts) := by
      unfold date dayMicros
      omega
    have hmidnight := hlocal (c.ts - (toNy c.ts - date (toNy c.ts) * dayMicros))
      (by unfold clock dayMicros minuteMicros at *; omega) (by omega)
    have hzero : toNy (c.ts - (toNy c.ts - date (toNy c.ts) * dayMicros)) = date (toNy c.ts) * dayMicros + clock 0 0 := by
      unfold clock minuteMicros
      omega
    have hsame : date (toNy (c.ts - (toNy c.ts - date (toNy c.ts) * dayMicros))) = date (toNy c.ts) := by
      rw [hzero, date_of_slot (by decide)]
    refine ⟨_, ?_, by omega, ⟨rfl, clock 0 0, hslot, ?_⟩, hsame⟩
    · unfold clock dayMicros minuteMicros at *
      omega
    · rw [hsame, hzero]
  · exact absurd hocc (hnone t hlow hhigh)

end gaps

/-- New York in summer. -/
def summerClock (u : Int) : Int := u - 240 * minuteMicros

theorem regular_summerClock {a b : Int} (h : a < b) : Regular summerClock a b := by
  refine ⟨h, fun u _ _ => Or.inl ?_⟩
  unfold Ticks summerClock
  omega

/-- The last candle of Friday 2026-06-05, and the first one of Sunday. -/
def overWeekend : List Reading := [⟨1780693140000000, 4010⟩, ⟨1780869600000000, 4020⟩]

/-- Monday 2026-06-08 at noon, and the next candle half an hour after midnight. -/
def overMidnight : List Reading := [⟨1780934400000000, 4010⟩, ⟨1780979400000000, 4020⟩]

end Trueopen

end FreqTrading
