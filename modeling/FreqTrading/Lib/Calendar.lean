import FreqTrading.Lib.Python
import Mathlib.Data.Nat.Find

/-!
# UTC times and their ISO texts

A `DateTime` is an aware `datetime` in UTC: microseconds from the epoch, between the years 1 and 9999. A sum outside
these is an `OverflowError`. `isoText` is `strftime` with `%Y-%m-%dT%H:%M:%SZ`, and `fromisoformat` reads the ISO
8601 formats that the method of that name documents. What `isoText` writes is read back, to the second
(`fromisoformat_isoText`).
-/

namespace FreqTrading.Lib

/-! ### The Gregorian calendar -/

def isLeap (y : Nat) : Bool := y % 4 = 0 && (y % 100 ≠ 0 || y % 400 = 0)

/-- The days of a month; there is no month 0. -/
def daysInMonth (y : Nat) : Nat → Nat
  | 0 => 0
  | 2 => if isLeap y then 29 else 28
  | 4 | 6 | 9 | 11 => 30
  | _ => 31

/-- The days of the year before a month. -/
def daysBeforeMonth (y : Nat) : Nat → Nat
  | 0 => 0
  | m + 1 => daysBeforeMonth y m + daysInMonth y m

/-- The days before a year, from the year 1 on. -/
def daysBeforeYear (y : Nat) : Nat := (y - 1) * 365 + (y - 1) / 4 - (y - 1) / 100 + (y - 1) / 400

/-- The days of the years 1 to 9999. -/
def maxOrdinal : Nat := 3652059

/-- The year of a day, counted from the first day of the year 1. -/
def yearOf (n : Nat) : Nat := Nat.findGreatest (fun y => daysBeforeYear y ≤ n) (n / 365 + 1)

/-- The days of the year before a day. -/
def restOf (n : Nat) : Nat := n - daysBeforeYear (yearOf n)

def monthOf (n : Nat) : Nat := Nat.findGreatest (fun m => daysBeforeMonth (yearOf n) m ≤ restOf n) 12

/-- The day of the month. -/
def dayOf (n : Nat) : Nat := restOf n - daysBeforeMonth (yearOf n) (monthOf n) + 1

/-- The number of a day, from its year, month and day of the month. -/
def ordinal? (y m d : Nat) : Option Nat :=
  if 1 ≤ y ∧ y ≤ 9999 ∧ 1 ≤ m ∧ m ≤ 12 ∧ 1 ≤ d ∧ d ≤ daysInMonth y m then
    some (daysBeforeYear y + daysBeforeMonth y m + (d - 1))
  else none

/-- The number of a day of an ISO week. -/
def isoOrdinal? (y week day : Nat) : Option Nat :=
  let first := daysBeforeYear y
  -- Monday is day 0 of a week, and the first day of the year 1 was one
  let weekday := first % 7
  let weeks := if weekday = 3 ∨ (weekday = 2 ∧ isLeap y) then 53 else 52
  let monday := if 3 < weekday then first - weekday + 7 else first - weekday
  let n := monday + (week - 1) * 7 + (day - 1)
  if 1 ≤ y ∧ y ≤ 9999 ∧ 1 ≤ week ∧ week ≤ weeks ∧ 1 ≤ day ∧ day ≤ 7 ∧ n < maxOrdinal then some n else none

theorem daysBeforeMonth_end (y : Nat) : daysBeforeMonth y 13 = if isLeap y then 366 else 365 := by
  show 31 + (if isLeap y then 29 else 28) + 31 + 30 + 31 + 30 + 31 + 31 + 30 + 31 + 30 + 31 = _
  split <;> rfl

theorem daysBeforeYear_succ {y : Nat} (hy : 1 ≤ y) :
    daysBeforeYear (y + 1) = daysBeforeYear y + daysBeforeMonth y 13 := by
  obtain ⟨k, rfl⟩ : ∃ k, y = k + 1 := ⟨y - 1, by omega⟩
  have h100 : k / 100 ≤ k / 4 := Nat.div_le_div_left (by omega) (by omega)
  rw [daysBeforeMonth_end]
  unfold daysBeforeYear isLeap
  simp only [Nat.add_sub_cancel, Nat.succ_div, Nat.dvd_iff_mod_eq_zero, Bool.and_eq_true, Bool.or_eq_true,
    decide_eq_true_eq]
  by_cases h4 : (k + 1) % 4 = 0
  · rw [if_pos h4]
    by_cases hcentury : (k + 1) % 100 = 0
    · rw [if_pos hcentury]
      by_cases h400 : (k + 1) % 400 = 0
      · rw [if_pos h400, if_pos ⟨h4, Or.inr h400⟩]
        omega
      · rw [if_neg h400, if_neg fun h => h.2.elim (fun hne => hne hcentury) h400]
        omega
    · rw [if_neg hcentury, if_neg (show (k + 1) % 400 ≠ 0 by omega), if_pos ⟨h4, Or.inl hcentury⟩]
      omega
  · rw [if_neg h4, if_neg (show (k + 1) % 100 ≠ 0 by omega), if_neg (show (k + 1) % 400 ≠ 0 by omega),
      if_neg fun h => h4 h.1]
    omega

theorem yearOf_spec {n : Nat} (hn : n < maxOrdinal) :
    1 ≤ yearOf n ∧ yearOf n ≤ 9999 ∧ daysBeforeYear (yearOf n) ≤ n ∧ n < daysBeforeYear (yearOf n + 1) := by
  have hone : daysBeforeYear 1 ≤ n := Nat.zero_le n
  have hle : 1 ≤ yearOf n := Nat.le_findGreatest (by omega) hone
  have hbefore : daysBeforeYear (yearOf n) ≤ n :=
    Nat.findGreatest_spec (P := fun y => daysBeforeYear y ≤ n) (show 1 ≤ n / 365 + 1 by omega) hone
  refine ⟨hle, ?_, hbefore, ?_⟩
  · unfold daysBeforeYear at hbefore
    unfold maxOrdinal at hn
    omega
  · by_contra hnot
    rcases Nat.lt_or_ge (n / 365 + 1) (yearOf n + 1) with hlt | hge
    · unfold daysBeforeYear at hnot
      omega
    · exact Nat.findGreatest_is_greatest (P := fun y => daysBeforeYear y ≤ n) (Nat.lt_succ_self _) hge
        (Nat.le_of_not_lt hnot)

theorem restOf_lt {n : Nat} (hn : n < maxOrdinal) : restOf n < daysBeforeMonth (yearOf n) 13 := by
  obtain ⟨hy, -, hbefore, hafter⟩ := yearOf_spec hn
  rw [daysBeforeYear_succ hy] at hafter
  unfold restOf
  omega

theorem monthOf_spec {n : Nat} (hn : n < maxOrdinal) :
    1 ≤ monthOf n ∧ monthOf n ≤ 12 ∧ daysBeforeMonth (yearOf n) (monthOf n) ≤ restOf n ∧
      restOf n < daysBeforeMonth (yearOf n) (monthOf n + 1) := by
  have hone : daysBeforeMonth (yearOf n) 1 ≤ restOf n := Nat.zero_le _
  have hle : monthOf n ≤ 12 := Nat.findGreatest_le 12
  refine ⟨Nat.le_findGreatest (by omega) hone, hle, Nat.findGreatest_spec
    (P := fun m => daysBeforeMonth (yearOf n) m ≤ restOf n) (show 1 ≤ 12 by omega) hone, ?_⟩
  by_contra hnot
  rcases Nat.lt_or_eq_of_le hle with hlt | heq
  · exact Nat.findGreatest_is_greatest (P := fun m => daysBeforeMonth (yearOf n) m ≤ restOf n)
      (Nat.lt_succ_self _) hlt (Nat.le_of_not_lt hnot)
  · rw [heq] at hnot
    exact hnot (restOf_lt hn)

theorem dayOf_le {n : Nat} (hn : n < maxOrdinal) : dayOf n ≤ daysInMonth (yearOf n) (monthOf n) := by
  obtain ⟨-, -, hmonth, hnext⟩ := monthOf_spec hn
  rw [daysBeforeMonth] at hnext
  unfold dayOf
  omega

theorem ordinal_fields {n : Nat} (hn : n < maxOrdinal) : ordinal? (yearOf n) (monthOf n) (dayOf n) = some n := by
  obtain ⟨hy, hy', hbefore, -⟩ := yearOf_spec hn
  obtain ⟨hm, hm', hmonth, -⟩ := monthOf_spec hn
  have hday := dayOf_le hn
  unfold ordinal?
  rw [if_pos ⟨hy, hy', hm, hm', Nat.le_add_left _ _, hday⟩]
  congr 1
  unfold dayOf restOf at *
  omega

/-! ### Times -/

def microsPerSecond : Int := 1000000

def microsPerDay : Int := 86400000000

/-- The days from the first one of the year 1 to the epoch. -/
def epochDays : Int := 719162

/-- The microseconds from the epoch to a time between the years 1 and 9999. -/
def InRange (us : Int) : Prop := -epochDays * microsPerDay ≤ us ∧ us < (maxOrdinal - epochDays) * microsPerDay

instance (us : Int) : Decidable (InRange us) := inferInstanceAs (Decidable (_ ∧ _))

structure DateTime where
  us : Int
  inRange : InRange us
  deriving DecidableEq

/-- `t + timedelta(microseconds=us)`. -/
def DateTime.add (t : DateTime) (us : Int) : Except PyError DateTime :=
  if h : InRange (t.us + us) then .ok ⟨t.us + us, h⟩ else .error .overflowError

/-- The same sum, of a time that is only counted. -/
def addMicros (t us : Int) : Except PyError Int := if InRange (t + us) then .ok (t + us) else .error .overflowError

theorem addMicros_ok {t us sum : Int} (hsum : t + us = sum) (h : InRange sum) : addMicros t us = .ok sum := by
  unfold addMicros
  rw [hsum, if_pos h]

theorem addMicros_error {t us sum : Int} (hsum : t + us = sum) (h : ¬ InRange sum) :
    addMicros t us = .error .overflowError := by
  unfold addMicros
  rw [hsum, if_neg h]

theorem InRange.between {a b us : Int} (ha : InRange a) (hb : InRange b) (hle : a ≤ us) (hle' : us ≤ b) : InRange us :=
  ⟨ha.1.trans hle, hle'.trans_lt hb.2⟩

/-- `(t - u).total_seconds()`. -/
def DateTime.secondsSince (t u : DateTime) : ℚ := ((t.us - u.us : Int) : ℚ) / microsPerSecond

/-- The day of a time, from the first one of the year 1. -/
def DateTime.day (t : DateTime) : Nat := (t.us / microsPerDay + epochDays).toNat

/-- The second of the day. -/
def DateTime.second (t : DateTime) : Nat := (t.us % microsPerDay / microsPerSecond).toNat

/-- `t.strftime("%Y-%m-%dT%H:%M:%SZ")`, with `zone` in the place of the `Z`. -/
def DateTime.isoText (t : DateTime) (zone : Text) : Text :=
  padded 4 (yearOf t.day) ++ '-' :: (padded 2 (monthOf t.day) ++ '-' :: (padded 2 (dayOf t.day) ++ 'T' ::
    (padded 2 (t.second / 3600) ++ ':' :: (padded 2 (t.second / 60 % 60) ++ ':' ::
      (padded 2 (t.second % 60) ++ zone)))))

theorem DateTime.day_lt (t : DateTime) : t.day < maxOrdinal := by
  have h := t.inRange
  unfold InRange microsPerDay epochDays maxOrdinal at h
  unfold DateTime.day microsPerDay epochDays maxOrdinal
  omega

/-! ### Reading a time -/

/-- The number in the first `n` characters, all digits, and the rest. -/
def digits? (n : Nat) (cs : Text) : Option (Nat × Text) :=
  if (cs.take n).length = n ∧ (cs.take n).all Char.isDigit then some (natOf (cs.take n), cs.drop n) else none

/-- The separator, where the format has one. -/
def separator? (used : Bool) (sep : Char) (cs : Text) : Option Text :=
  if used then if cs.head? = some sep then some cs.tail else none else some cs

/-- A calendar date or a week date. -/
def isoDate? (cs : Text) : Option Nat := do
  let (y, cs) ← digits? 4 cs
  let dashed := cs.head? = some '-'
  let cs := if dashed then cs.tail else cs
  if cs.head? = some 'W' then
    let (week, cs) ← digits? 2 cs.tail
    if cs = [] then isoOrdinal? y week 1
    else
      let cs ← separator? dashed '-' cs
      let (day, cs) ← digits? 1 cs
      if cs = [] then isoOrdinal? y week day else none
  else
    let (m, cs) ← digits? 2 cs
    let cs ← separator? dashed '-' cs
    let (d, cs) ← digits? 2 cs
    if cs = [] then ordinal? y m d else none

/-- The clock of a time or of an offset. -/
structure Clock where
  hour : Nat
  minute : Nat := 0
  second : Nat := 0
  micros : Nat := 0
  deriving DecidableEq, Repr

def Clock.us (c : Clock) : Int := ((c.hour * 60 + c.minute) * 60 + c.second) * microsPerSecond + c.micros

/-- Hours, minutes, seconds and their decimals, from the minutes on optional. -/
def clock? (cs : Text) : Option Clock := do
  let (hour, cs) ← digits? 2 cs
  if cs = [] then return { hour }
  let colons := cs.head? = some ':'
  let (minute, cs) ← digits? 2 (← separator? colons ':' cs)
  if cs = [] then return { hour, minute }
  let (second, cs) ← digits? 2 (← separator? colons ':' cs)
  if cs = [] then return { hour, minute, second }
  let places := cs.tail
  if (cs.head? = some '.' ∨ cs.head? = some ',') ∧ places ≠ [] ∧ places.all Char.isDigit then
    return { hour, minute, second, micros := natOf (places.take 6) * 10 ^ (6 - places.length) }
  else none

/-- The offset from UTC, in microseconds. -/
def offset? (cs : Text) : Option Int :=
  match cs with
  | ['Z'] => some 0
  | sign :: cs =>
    (clock? cs).bind fun c =>
      if c.us < microsPerDay then some (if sign = '-' then -c.us else c.us) else none
  | [] => none

/-- A time of day in microseconds, and its offset from UTC if it has one. -/
def isoTime? (cs : Text) : Option (Int × Option Int) :=
  let isZone (c : Char) := c = '+' || c = '-' || c = 'Z'
  (clock? (cs.takeWhile fun c => !isZone c)).bind fun c =>
    if c.hour < 24 ∧ c.minute < 60 ∧ c.second < 60 then
      match cs.dropWhile fun c => !isZone c with
      | [] => some (c.us, none)
      | zone => (offset? zone).map fun offset => (c.us, some offset)
    else none

/-- Where the date ends and the separator stands. -/
def separatorAt (cs : Text) : Nat :=
  let digitAt (i : Nat) : Bool := cs[i]?.any Char.isDigit
  if cs.length = 7 then 7
  else if cs[4]? = some '-' then
    if cs[5]? = some 'W' then
      if cs[8]? = some '-' ∧ ¬digitAt 10 then 10 else 8
    else 10
  else if cs[4]? = some 'W' then
    -- the digits of the time come in pairs, so their number says whether the week has a day
    let run := 7 + ((cs.drop 7).takeWhile Char.isDigit).length
    if run < 9 then run else if run % 2 = 0 then 7 else 8
  else 8

/-- `datetime.fromisoformat`: microseconds from the epoch in local time, and the offset of an aware time; `none` is a
`ValueError`. -/
def fromisoformat (cs : Text) : Option (Int × Option Int) :=
  if cs.length < 7 then none
  else
    (isoDate? (cs.take (separatorAt cs))).bind fun n =>
      let midnight := ((n : Int) - epochDays) * microsPerDay
      match cs.drop (separatorAt cs) with
      | [] => some (midnight, none)
      | _ :: time => (isoTime? time).map fun (us, offset) => (midnight + us, offset)

/-! ### Reading back what was written -/

theorem digits?_padded (width : Nat) {n : Nat} (h : n < 10 ^ width) (rest : Text) :
    digits? width (padded width n ++ rest) = some (n, rest) := by
  have htake : (padded width n ++ rest).take width = padded width n := List.take_left' (padded_length width n)
  have hdrop : (padded width n ++ rest).drop width = rest := List.drop_left' (padded_length width n)
  unfold digits?
  rw [htake, hdrop, if_pos ⟨padded_length width n, List.all_eq_true.mpr (padded_digits width n)⟩, natOf_padded width n h]

theorem padded_head (width n : Nat) (rest : Text) :
    ∃ c cs, padded (width + 1) n ++ rest = c :: cs ∧ c.isDigit = true := by
  have hlength := padded_length (width + 1) n
  cases hpadded : padded (width + 1) n with
  | nil => simp [hpadded] at hlength
  | cons c cs => exact ⟨c, cs ++ rest, rfl, padded_digits (width + 1) n c (by simp [hpadded])⟩

theorem isDigit_ne {c d : Char} (h : c.isDigit = true) (hd : d.isDigit = false) : c ≠ d := by
  rintro rfl
  rw [h] at hd
  cases hd

/-- The date of a time. -/
def DateTime.dateText (t : DateTime) : Text :=
  padded 4 (yearOf t.day) ++ '-' :: (padded 2 (monthOf t.day) ++ '-' :: padded 2 (dayOf t.day))

/-- The time of day, to the second. -/
def DateTime.clockText (t : DateTime) : Text :=
  padded 2 (t.second / 3600) ++ ':' :: (padded 2 (t.second / 60 % 60) ++ ':' :: padded 2 (t.second % 60))

theorem DateTime.isoText_eq (t : DateTime) (zone : Text) :
    t.isoText zone = t.dateText ++ 'T' :: (t.clockText ++ zone) := by
  simp [isoText, dateText, clockText]

theorem DateTime.dateText_length (t : DateTime) : t.dateText.length = 10 := by
  simp [dateText]

theorem DateTime.second_lt (t : DateTime) : t.second < 86400 := by
  unfold second microsPerDay microsPerSecond
  omega

theorem isoDate?_dateText (t : DateTime) : isoDate? t.dateText = some t.day := by
  obtain ⟨-, hy, -⟩ := yearOf_spec t.day_lt
  obtain ⟨-, hm, -⟩ := monthOf_spec t.day_lt
  have hd : dayOf t.day < 100 := by
    refine (dayOf_le t.day_lt).trans_lt ?_
    unfold daysInMonth
    split
    · omega
    · split <;> omega
    all_goals omega
  obtain ⟨c, cs, hhead, hdigit⟩ := padded_head 1 (monthOf t.day) ('-' :: padded 2 (dayOf t.day))
  have hweek : (c :: cs).head? ≠ some 'W' := by
    intro h
    exact isDigit_ne hdigit (by decide) (Option.some.inj h)
  unfold isoDate? DateTime.dateText
  rw [digits?_padded 4 (by omega)]
  simp only [Option.bind_eq_bind, Option.bind_some, List.head?_cons, decide_true, if_true, List.tail_cons]
  rw [hhead, if_neg hweek, ← hhead, digits?_padded 2 (by omega)]
  simp only [Option.bind_some, separator?, if_true, List.head?_cons, List.tail_cons]
  have hday : digits? 2 (padded 2 (dayOf t.day)) = some (dayOf t.day, []) := by
    simpa using digits?_padded 2 (by omega) []
  rw [hday]
  exact ordinal_fields t.day_lt

theorem clock?_clockText (t : DateTime) :
    clock? t.clockText = some ⟨t.second / 3600, t.second / 60 % 60, t.second % 60, 0⟩ := by
  have hsecond := t.second_lt
  have hlast : digits? 2 (padded 2 (t.second % 60)) = some (t.second % 60, []) := by
    simpa using digits?_padded 2 (n := t.second % 60) (by omega) []
  unfold clock? DateTime.clockText
  rw [digits?_padded 2 (by omega)]
  simp only [Option.bind_eq_bind, Option.bind_some, separator?, List.head?_cons, List.tail_cons, decide_true, if_true]
  rw [if_neg (by simp), digits?_padded 2 (by omega)]
  simp only [Option.bind_some, List.head?_cons, List.tail_cons, if_true]
  rw [if_neg (by simp), hlast]
  rfl

theorem clockText_zone (t : DateTime) : ∀ c ∈ t.clockText, (!(c = '+' || c = '-' || c = 'Z')) = true := by
  intro c hc
  have hdigit (h : c.isDigit = true) : (!(c = '+' || c = '-' || c = 'Z')) = true := by
    simp [isDigit_ne h (show '+'.isDigit = false by decide), isDigit_ne h (show '-'.isDigit = false by decide),
      isDigit_ne h (show 'Z'.isDigit = false by decide)]
  simp only [DateTime.clockText, List.mem_append, List.mem_cons] at hc
  rcases hc with hc | rfl | hc | rfl | hc
  · exact hdigit (padded_digits _ _ c hc)
  · decide
  · exact hdigit (padded_digits _ _ c hc)
  · decide
  · exact hdigit (padded_digits _ _ c hc)

/-- The whole second of a time. -/
def DateTime.floorSecond (t : DateTime) : Int := t.us / microsPerSecond * microsPerSecond

theorem separatorAt_dateText (t : DateTime) (rest : Text) : separatorAt (t.dateText ++ 'T' :: rest) = 10 := by
  obtain ⟨c, cs, hhead, hdigit⟩ := padded_head 1 (monthOf t.day) ('-' :: padded 2 (dayOf t.day) ++ 'T' :: rest)
  have hsplit : t.dateText ++ 'T' :: rest = padded 4 (yearOf t.day) ++ '-' :: c :: cs := by
    rw [← hhead]
    simp [DateTime.dateText]
  have hlength : (t.dateText ++ 'T' :: rest).length ≠ 7 := by
    rw [List.length_append, t.dateText_length, List.length_cons]
    omega
  have hdash : (padded 4 (yearOf t.day) ++ '-' :: c :: cs)[4]? = some '-' := by
    rw [List.getElem?_append_right (by simp)]
    simp
  have hweek : (padded 4 (yearOf t.day) ++ '-' :: c :: cs)[5]? = some c := by
    rw [List.getElem?_append_right (by simp)]
    simp
  unfold separatorAt
  rw [if_neg hlength, hsplit, if_pos hdash, hweek, if_neg]
  intro h
  exact isDigit_ne hdigit (by decide) (Option.some.inj h)

theorem isoTime?_clockText (t : DateTime) :
    isoTime? (t.clockText ++ "+00:00".toList) = some (t.second * microsPerSecond, some 0) := by
  have hsecond := t.second_lt
  unfold isoTime?
  simp only
  rw [List.takeWhile_append_of_pos (clockText_zone t), List.dropWhile_append_of_pos (clockText_zone t)]
  have hzone : ("+00:00".toList.takeWhile fun c => !(c = '+' || c = '-' || c = 'Z')) = [] := by decide
  have hrest : ("+00:00".toList.dropWhile fun c => !(c = '+' || c = '-' || c = 'Z')) = "+00:00".toList := by decide
  rw [hzone, hrest, List.append_nil, clock?_clockText]
  have hoffset : offset? "+00:00".toList = some 0 := by decide
  have hus : (⟨t.second / 3600, t.second / 60 % 60, t.second % 60, 0⟩ : Clock).us = t.second * microsPerSecond := by
    unfold Clock.us microsPerSecond
    push_cast
    omega
  simp only [Option.bind_some]
  rw [if_pos ⟨by omega, by omega, by omega⟩]
  show (offset? "+00:00".toList).map _ = _
  rw [hoffset, hus]
  rfl

theorem DateTime.floorSecond_eq (t : DateTime) :
    ((t.day : Int) - epochDays) * microsPerDay + t.second * microsPerSecond = t.floorSecond := by
  have h := t.inRange
  unfold InRange microsPerDay epochDays maxOrdinal at h
  unfold DateTime.day DateTime.second DateTime.floorSecond microsPerDay microsPerSecond epochDays
  omega

/-- **What `strftime` writes, `fromisoformat` reads back,** to the second. -/
theorem fromisoformat_isoText (t : DateTime) :
    fromisoformat (t.isoText "+00:00".toList) = some (t.floorSecond, some 0) := by
  have hlength : ¬(t.dateText ++ 'T' :: (t.clockText ++ "+00:00".toList)).length < 7 := by
    rw [List.length_append, t.dateText_length, List.length_cons]
    omega
  unfold fromisoformat
  rw [t.isoText_eq, if_neg hlength, separatorAt_dateText, List.take_left' t.dateText_length, isoDate?_dateText,
    List.drop_append, t.dateText_length, List.drop_eq_nil_of_le (by rw [t.dateText_length])]
  simp only [Option.bind_some, List.nil_append, Nat.sub_self, List.drop_zero]
  show (isoTime? (t.clockText ++ "+00:00".toList)).map _ = _
  rw [isoTime?_clockText]
  show some (((t.day : Int) - epochDays) * microsPerDay + t.second * microsPerSecond, some 0) = _
  rw [t.floorSecond_eq]

end FreqTrading.Lib
