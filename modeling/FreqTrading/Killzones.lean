import Mathlib.Data.List.ReduceOption
import Mathlib.Data.Set.List
import FreqTrading.Lib.Fields
import FreqTrading.Lib.Repr
import FreqTrading.Lib.Traverse
import FreqTrading.Execguard
import FreqTrading.Svp.Strategy

/-!
# Killzones in texts

`parse_killzones` of `orb/execguard.py`, which reads the windows of the live gate, and `_parse_killzones` of
`scripts/sim_realistic.py`, which reads those of the backtest. The live parser accepts exactly the windows of two
different minutes of a day (`killzones_format`). Whatever it accepts the backtest reads as the same windows, refuses
exactly if one of them wraps past midnight, and else filters by as the live gate does (`killzone_readers_agree`).
-/

namespace FreqTrading

open Lib

namespace Killzones

/-! ### The live parser -/

/-- A text that the group `([01]?\d|2[0-3])` matches; `\d` is a decimal digit of any script, as for `int`. -/
def isHour : Text → Bool
  | [d] => isDecimal d
  | [c, d] => ((c = '0' || c = '1') && isDecimal d) || (c = '2' && d.isDigit && d.toNat ≤ '3'.toNat)
  | _ => false

/-- A text that the group `([0-5]\d)` matches. -/
def isMinute : Text → Bool
  | [c, d] => c.isDigit && c.toNat ≤ '5'.toNat && isDecimal d
  | _ => false

/-- The groups of `_WINDOW_RE`. -/
structure Groups where
  h1 : Text
  m1 : Text
  h2 : Text
  m2 : Text
  deriving DecidableEq, Repr

def Groups.accepted (g : Groups) : Bool := isHour g.h1 && isMinute g.m1 && isHour g.h2 && isMinute g.m2

/-- `_WINDOW_RE.match`. -/
def matchWindow (token : Text) : Option Groups :=
  match token.splitOn '-' with
  | [first, second] =>
    match first.splitOn ':', second.splitOn ':' with
    | [h1, m1], [h2, m2] => if Groups.accepted ⟨h1, m1, h2, m2⟩ then some ⟨h1, m1, h2, m2⟩ else none
    | _, _ => none
  | _ => none

/-- The `ValueError`s of `parse_killzones`. -/
inductive KillzoneError
  | badWindow (token : Text)
  | zeroLength (token : Text)
  deriving DecidableEq, Repr

def KillzoneError.text : KillzoneError → String
  | .badWindow token => "bad killzone window " ++ pyRepr (String.ofList token) ++ " (want HH:MM-HH:MM)"
  | .zeroLength token => "zero-length killzone window " ++ pyRepr (String.ofList token)

def Groups.start (g : Groups) : Int := decimalOf g.h1 * 60 + decimalOf g.m1

def Groups.stop (g : Groups) : Int := decimalOf g.h2 * 60 + decimalOf g.m2

/-- A token of the loop of `parse_killzones`; a blank one is skipped. -/
def readToken (token : Text) : Except KillzoneError (Option (Int × Int)) :=
  let token := strip token
  if token = [] then .ok none
  else
    match matchWindow token with
    | none => .error (.badWindow token)
    | some g => if g.start = g.stop then .error (.zeroLength token) else .ok (some (g.start, g.stop))

/-- `parse_killzones`. -/
def parseKillzones (spec : Text) : Except KillzoneError (List (Int × Int)) := do
  let windows ← (spec.splitOn ',').mapM readToken
  return windows.reduceOption

/-! ### The parser of the backtest -/

/-- `mins`. -/
def mins (t : Text) : Except PyError Int :=
  match (strip t).splitOn ':' with
  | [h, m] =>
    match intOf? h, intOf? m with
    | some h, some m => .ok (h * 60 + m)
    | _, _ => .error .valueError
  | _ => .error .valueError

/-- A part of the loop of `_parse_killzones`. -/
def readPart (part : Text) : Except PyError (Option (Int × Int)) :=
  let part := strip part
  if part = [] then .ok none
  else
    match part.splitOn '-' with
    | [lo, hi] => do return some (← mins lo, ← mins hi)
    | _ => .error .valueError

/-- `_parse_killzones`. -/
def Backtest.parseKillzones (spec : Text) : Except PyError (List (Int × Int)) := do
  let windows ← (spec.splitOn ',').mapM readPart
  return windows.reduceOption

/-! ### What a match says -/

theorem digitOf_of_isDigit {c : Char} (h : c.isDigit = true) : digitOf c = c.toNat - 48 := by
  rw [digitOf, asciiDigit_of_isDigit h]

theorem isHour_spec {t : Text} (h : isHour t = true) : IsDigits t ∧ t.length ≤ 2 ∧ decimalOf t < 24 := by
  unfold isHour at h
  split at h
  · next d =>
    have hdigit := digitOf_lt h
    refine ⟨⟨List.cons_ne_nil _ _, by simpa using h⟩, by simp, ?_⟩
    rw [decimalOf_single]
    omega
  · next c d =>
    have hfields : isDecimal c = true ∧ isDecimal d = true ∧ (digitOf c ≤ 1 ∨ digitOf c = 2 ∧ digitOf d ≤ 3) := by
      rcases Bool.or_eq_true_iff.mp h with hlow | hhigh
      · obtain ⟨hc, hd⟩ := Bool.and_eq_true_iff.mp hlow
        rcases Bool.or_eq_true_iff.mp hc with hc | hc <;> rw [of_decide_eq_true hc] <;>
          exact ⟨by decide, hd, Or.inl (by decide)⟩
      · obtain ⟨hcd, hd3⟩ := Bool.and_eq_true_iff.mp hhigh
        obtain ⟨hc, hd⟩ := Bool.and_eq_true_iff.mp hcd
        have hd3 : d.toNat ≤ 51 := of_decide_eq_true hd3
        rw [of_decide_eq_true hc]
        refine ⟨by decide, isDecimal_of_isDigit hd, Or.inr ⟨by decide, ?_⟩⟩
        rw [digitOf_of_isDigit hd]
        omega
    obtain ⟨hc, hd, hbound⟩ := hfields
    have hdigit := digitOf_lt hd
    refine ⟨⟨List.cons_ne_nil _ _, by simpa using ⟨hc, hd⟩⟩, by simp, ?_⟩
    rw [decimalOf_pair]
    omega
  · cases h

theorem isMinute_spec {t : Text} (h : isMinute t = true) : IsDigits t ∧ t.length ≤ 2 ∧ decimalOf t < 60 := by
  unfold isMinute at h
  split at h
  · next c d =>
    obtain ⟨hcd, hd⟩ := Bool.and_eq_true_iff.mp h
    obtain ⟨hc, hc5⟩ := Bool.and_eq_true_iff.mp hcd
    have hc5 : c.toNat ≤ 53 := of_decide_eq_true hc5
    have hdigit := digitOf_lt hd
    refine ⟨⟨List.cons_ne_nil _ _, by simpa using ⟨isDecimal_of_isDigit hc, hd⟩⟩, by simp, ?_⟩
    rw [decimalOf_pair, digitOf_of_isDigit hc]
    omega
  · cases h

/-- The fields of an accepted match are digits, and numbers of a time of the day. -/
structure Groups.IsClock (g : Groups) : Prop where
  h1 : IsDigits g.h1 ∧ g.h1.length ≤ 2 ∧ decimalOf g.h1 < 24
  m1 : IsDigits g.m1 ∧ g.m1.length ≤ 2 ∧ decimalOf g.m1 < 60
  h2 : IsDigits g.h2 ∧ g.h2.length ≤ 2 ∧ decimalOf g.h2 < 24
  m2 : IsDigits g.m2 ∧ g.m2.length ≤ 2 ∧ decimalOf g.m2 < 60

theorem Groups.isClock {g : Groups} (h : g.accepted = true) : g.IsClock := by
  unfold Groups.accepted at h
  simp only [Bool.and_eq_true] at h
  obtain ⟨⟨⟨hh1, hm1⟩, hh2⟩, hm2⟩ := h
  exact ⟨isHour_spec hh1, isMinute_spec hm1, isHour_spec hh2, isMinute_spec hm2⟩

def Groups.text (g : Groups) : Text := g.h1 ++ ':' :: g.m1 ++ '-' :: (g.h2 ++ ':' :: g.m2)

theorem Groups.IsClock.splitOn_text {g : Groups} (h : g.IsClock) :
    g.text.splitOn '-' = [g.h1 ++ ':' :: g.m1, g.h2 ++ ':' :: g.m2] := by
  have hh1 := h.h1.1.notMem (a := '-') (by decide)
  have hm1 := h.m1.1.notMem (a := '-') (by decide)
  have hh2 := h.h2.1.notMem (a := '-') (by decide)
  have hm2 := h.m2.1.notMem (a := '-') (by decide)
  exact splitOn_pair_iff.mpr ⟨rfl, by simp [hh1, hm1], by simp [hh2, hm2]⟩

theorem matchWindow_iff {token : Text} {g : Groups} : matchWindow token = some g ↔ token = g.text ∧ g.accepted = true := by
  constructor
  · intro h
    unfold matchWindow at h
    split at h
    · next first second hdash =>
      split at h
      · next h1 m1 h2 m2 hfirst hsecond =>
        split at h
        · next haccepted =>
          cases h
          obtain ⟨rfl, -⟩ := splitOn_pair_iff.mp hfirst
          obtain ⟨rfl, -⟩ := splitOn_pair_iff.mp hsecond
          exact ⟨(splitOn_pair_iff.mp hdash).1, haccepted⟩
        · cases h
      · cases h
    · cases h
  · rintro ⟨rfl, haccepted⟩
    obtain ⟨⟨hh1, -⟩, ⟨hm1, -⟩, ⟨hh2, -⟩, ⟨hm2, -⟩⟩ := Groups.isClock haccepted
    unfold matchWindow
    rw [(Groups.isClock haccepted).splitOn_text]
    dsimp only
    rw [splitOn_pair_iff.mpr ⟨rfl, hh1.notMem (by decide), hm1.notMem (by decide)⟩,
      splitOn_pair_iff.mpr ⟨rfl, hh2.notMem (by decide), hm2.notMem (by decide)⟩]
    exact if_pos haccepted

theorem Groups.IsClock.strip_text {g : Groups} (h : g.IsClock) : strip g.text = g.text := by
  have hmiddle := strip_digits h.h1.1 h.m2.1 (':' :: g.m1 ++ '-' :: (g.h2 ++ [':']))
  simpa [Groups.text] using hmiddle

theorem Groups.IsClock.notMem_text {g : Groups} (h : g.IsClock) {a : Char} (ha : isDecimal a = false) (hcolon : a ≠ ':')
    (hdash : a ≠ '-') : a ∉ g.text := by
  have h1 := h.h1.1.notMem ha
  have h2 := h.m1.1.notMem ha
  have h3 := h.h2.1.notMem ha
  have h4 := h.m2.1.notMem ha
  simp [Groups.text, h1, h2, h3, h4, hcolon, hdash]

/-! ### What a token is read as -/

theorem readToken_ok_iff {token : Text} {r : Option (Int × Int)} :
    readToken token = .ok r ↔ (strip token = [] ∧ r = none) ∨
      ∃ g : Groups, strip token = g.text ∧ g.accepted = true ∧ g.start ≠ g.stop ∧ r = some (g.start, g.stop) := by
  have hblank (g : Groups) : g.text ≠ [] := by simp [Groups.text]
  unfold readToken
  dsimp only
  by_cases hskip : strip token = []
  · rw [if_pos hskip]
    constructor
    · intro h
      exact Or.inl ⟨hskip, (Except.ok.inj h).symm⟩
    · rintro (⟨-, rfl⟩ | ⟨g, htext, -⟩)
      · rfl
      · exact absurd (htext.symm.trans hskip) (hblank g)
  · rw [if_neg hskip]
    cases hmatch : matchWindow (strip token) with
    | none =>
      constructor
      · intro h
        cases h
      · rintro (⟨hempty, -⟩ | ⟨g, htext, haccepted, -⟩)
        · exact absurd hempty hskip
        · rw [matchWindow_iff.mpr ⟨htext, haccepted⟩] at hmatch
          cases hmatch
    | some g =>
      obtain ⟨htext, haccepted⟩ := matchWindow_iff.mp hmatch
      dsimp only
      constructor
      · intro h
        split at h
        · cases h
        · next hne => exact Or.inr ⟨g, htext, haccepted, hne, (Except.ok.inj h).symm⟩
      · rintro (⟨hempty, -⟩ | ⟨g', htext', haccepted', hne, rfl⟩)
        · exact absurd hempty hskip
        · obtain rfl : g = g' := Option.some.inj (hmatch.symm.trans (matchWindow_iff.mpr ⟨htext', haccepted'⟩))
          rw [if_neg hne]

example : (parseKillzones "7:00-10:00, 9:00-9:00".toList).mapError (·.text) =
    .error "zero-length killzone window '9:00-9:00'" := by decide +kernel

/-! ### Windows and their texts -/

/-- A window between two minutes of the day; one that stops before it starts wraps past midnight. -/
structure Window where
  start : Int
  stop : Int
  start_day : 0 ≤ start ∧ start < 1440
  stop_day : 0 ≤ stop ∧ stop < 1440
  start_ne : start ≠ stop

def Window.pair (w : Window) : Int × Int := (w.start, w.stop)

/-- The window an accepted match is read as. -/
def Groups.window (g : Groups) (h : g.accepted = true) (hne : g.start ≠ g.stop) : Window where
  start := g.start
  stop := g.stop
  start_day := by
    have hclock := Groups.isClock h
    have hhour := hclock.h1.2.2
    have hminute := hclock.m1.2.2
    unfold Groups.start
    omega
  stop_day := by
    have hclock := Groups.isClock h
    have hhour := hclock.h2.2.2
    have hminute := hclock.m2.2.2
    unfold Groups.stop
    omega
  start_ne := hne

/-- The window written with two digits for each number. -/
def Window.groups (w : Window) : Groups where
  h1 := padded 2 (w.start.toNat / 60)
  m1 := padded 2 (w.start.toNat % 60)
  h2 := padded 2 (w.stop.toNat / 60)
  m2 := padded 2 (w.stop.toNat % 60)

/-- The windows with commas between them. -/
def specText (ws : List Window) : Text := [','].intercalate (ws.map fun w => w.groups.text)

theorem decimalOf_padded {n : Nat} (h : n < 10 ^ 2) : decimalOf (padded 2 n) = n := by
  have hascii : (padded 2 n).map asciiDigit = padded 2 n := by
    refine (List.map_congr_left fun c hc => ?_).trans (List.map_id _)
    exact asciiDigit_of_isDigit (padded_digits 2 n c hc)
  rw [decimalOf, hascii, natOf_padded 2 n h]

theorem isHour_padded {n : Nat} (h : n < 24) : isHour (padded 2 n) = true := by
  have hall : ∀ k < 24, isHour (padded 2 k) = true := by decide
  exact hall n h

theorem isMinute_padded {n : Nat} (h : n < 60) : isMinute (padded 2 n) = true := by
  have hall : ∀ k < 60, isMinute (padded 2 k) = true := by decide
  exact hall n h

theorem Window.groups_accepted (w : Window) : w.groups.accepted = true := by
  have hstart := w.start_day
  have hstop := w.stop_day
  unfold Groups.accepted Window.groups
  rw [isHour_padded (by omega), isMinute_padded (by omega), isHour_padded (by omega), isMinute_padded (by omega)]
  rfl

theorem Window.groups_start (w : Window) : w.groups.start = w.start := by
  have hstart := w.start_day
  unfold Groups.start Window.groups
  rw [decimalOf_padded (by omega), decimalOf_padded (by omega)]
  omega

theorem Window.groups_stop (w : Window) : w.groups.stop = w.stop := by
  have hstop := w.stop_day
  unfold Groups.stop Window.groups
  rw [decimalOf_padded (by omega), decimalOf_padded (by omega)]
  omega

theorem readToken_window (w : Window) : readToken w.groups.text = .ok (some w.pair) := by
  have haccepted := w.groups_accepted
  refine readToken_ok_iff.mpr (Or.inr ⟨w.groups, (Groups.isClock haccepted).strip_text, haccepted, ?_, ?_⟩)
  · rw [w.groups_start, w.groups_stop]
    exact w.start_ne
  · rw [w.groups_start, w.groups_stop]
    rfl

theorem parsed_windows {spec : Text} {ws : List (Int × Int)} (h : parseKillzones spec = .ok ws) :
    ∃ vs : List Window, ws = vs.map Window.pair := by
  obtain ⟨rs, hrs, h⟩ := bind_ok.mp h
  cases h
  have hrange : rs.reduceOption ∈ Set.range (List.map Window.pair) := by
    rw [Set.range_list_map]
    intro kz hkz
    obtain ⟨token, -, htoken⟩ := exists_of_mem_mapM hrs (List.reduceOption_mem_iff.mp hkz)
    rcases readToken_ok_iff.mp htoken with ⟨-, hnone⟩ | ⟨g, -, haccepted, hne, hsome⟩
    · cases hnone
    · exact ⟨g.window haccepted hne, (Option.some.inj hsome).symm⟩
  obtain ⟨vs, hvs⟩ := hrange
  exact ⟨vs, hvs.symm⟩

theorem parse_specText (vs : List Window) : parseKillzones (specText vs) = .ok (vs.map Window.pair) := by
  by_cases hnil : vs = []
  · subst hnil
    rfl
  · have hsplit : (specText vs).splitOn ',' = vs.map fun w => w.groups.text := by
      refine List.splitOn_intercalate ',' (fun token htoken => ?_) (by simpa using hnil)
      obtain ⟨w, -, rfl⟩ := List.mem_map.mp htoken
      exact (Groups.isClock w.groups_accepted).notMem_text (by decide) (by decide) (by decide)
    unfold parseKillzones
    rw [hsplit, mapM_map_ok readToken_window vs, ok_bind]
    simp [List.reduceOption]

/-- **The format of the live gate's windows.** What the parser accepts are windows of the day that are not empty, and it
reads any list of them back from its text. -/
theorem killzones_format :
    (∀ spec ws, parseKillzones spec = .ok ws → ∃ vs : List Window, ws = vs.map Window.pair) ∧
      ∀ vs : List Window, parseKillzones (specText vs) = .ok (vs.map Window.pair) :=
  ⟨fun _ _ h => parsed_windows h, parse_specText⟩

/-! ### The backtest's reading of what the live parser accepts -/

theorem mins_digits {h m : Text} (hh : IsDigits h ∧ h.length ≤ 2) (hm : IsDigits m ∧ m.length ≤ 2) :
    mins (h ++ ':' :: m) = .ok (decimalOf h * 60 + decimalOf m) := by
  have hlimit : 2 ≤ maxStrDigits := by decide
  have hstrip : strip (h ++ ':' :: m) = h ++ ':' :: m := by
    simpa using strip_digits hh.1 hm.1 [':']
  have hsplit : (h ++ ':' :: m).splitOn ':' = [h, m] :=
    splitOn_pair_iff.mpr ⟨rfl, hh.1.notMem (by decide), hm.1.notMem (by decide)⟩
  unfold mins
  rw [hstrip, hsplit]
  dsimp only
  rw [intOf?_digits hh.1 (by omega), intOf?_digits hm.1 (by omega)]

theorem readPart_of_readToken {token : Text} {r : Option (Int × Int)} (h : readToken token = .ok r) :
    readPart token = .ok r := by
  unfold readPart
  dsimp only
  rcases readToken_ok_iff.mp h with ⟨hskip, rfl⟩ | ⟨g, htext, haccepted, -, rfl⟩
  · rw [if_pos hskip]
  · obtain ⟨hh1, hm1, hh2, hm2⟩ := Groups.isClock haccepted
    rw [htext, if_neg (by simp [Groups.text]), (Groups.isClock haccepted).splitOn_text]
    dsimp only
    rw [mins_digits ⟨hh1.1, hh1.2.1⟩ ⟨hm1.1, hm1.2.1⟩, mins_digits ⟨hh2.1, hh2.2.1⟩ ⟨hm2.1, hm2.2.1⟩]
    rfl

theorem backtest_of_parse {spec : Text} {ws : List (Int × Int)} (h : parseKillzones spec = .ok ws) :
    Backtest.parseKillzones spec = .ok ws := by
  obtain ⟨rs, hrs, h⟩ := bind_ok.mp h
  unfold Backtest.parseKillzones
  rw [mapM_ok_of_ok hrs fun _ _ => readPart_of_readToken]
  cases h
  rfl

/-! ### The windows in a configuration -/

theorem Window.bad_iff (w : Window) : badKillzone w.pair = true ↔ w.stop < w.start := by
  have hstart := w.start_day
  have hstop := w.stop_day
  have hne := w.start_ne
  unfold badKillzone Window.pair
  simp
  omega

theorem postInit_killzones {f : SvpConfigFields} (h : ({ f with killzones := [] } : SvpConfigFields).postInit = .ok ())
    (ws : List (Int × Int)) :
    ({ f with killzones := ws } : SvpConfigFields).postInit =
      (ws.find? badKillzone).elim (.ok ()) fun kz => .error (killzoneText kz) := by
  obtain ⟨before, after, hchecks⟩ : ∃ before after, ∀ ws, ({ f with killzones := ws } : SvpConfigFields).checks =
      before ++ ws.map (fun kz => (badKillzone kz, killzoneText kz)) ++ after :=
    ⟨({ f with killzones := [] } : SvpConfigFields).checks.take 20,
      ({ f with killzones := [] } : SvpConfigFields).checks.drop 20, fun _ => rfl⟩
  have hpass : (before ++ after).find? (·.1) = none := by
    unfold SvpConfigFields.postInit at h
    rw [hchecks, List.map_nil, List.append_nil] at h
    cases hfind : (before ++ after).find? (·.1) with
    | none => rfl
    | some check => rw [hfind] at h; cases h
  rw [List.find?_append, Option.or_eq_none_iff] at hpass
  have hkillzone : (fun check : Bool × String => check.1) ∘ (fun kz => (badKillzone kz, killzoneText kz)) = badKillzone := rfl
  unfold SvpConfigFields.postInit
  rw [hchecks, List.find?_append, List.find?_append, hpass.1, hpass.2, Option.none_or, Option.or_none, List.find?_map,
    hkillzone]
  cases ws.find? badKillzone <;> rfl

theorem mod_eq (ts : Int) : (ts - date ts * dayMicros) / minuteMicros = minuteOfDay ts := by
  unfold date dayMicros minuteOfDay minuteMicros
  omega

theorem allows_plain {ws : List (Int × Int)} (h : ∀ kz ∈ ws, kz.1 < kz.2) (ts : Int) :
    SessionGate.allows ⟨ws⟩ ts = (ws = [] || ws.any fun kz => kz.1 ≤ minuteOfDay ts && minuteOfDay ts < kz.2) := by
  have hempty : ws.isEmpty = decide (ws = []) := by rw [Bool.eq_iff_iff, decide_eq_true_iff, List.isEmpty_iff]
  unfold SessionGate.allows
  dsimp only
  rw [hempty]
  refine congrArg (decide (ws = []) || ·) ?_
  rw [Bool.eq_iff_iff, List.any_eq_true, List.any_eq_true]
  refine exists_congr fun kz => and_congr_right fun hkz => ?_
  obtain ⟨start, stop⟩ := kz
  have hstart : start < stop := h _ hkz
  dsimp only
  rw [if_pos hstart]

theorem inBlackout_killzones {cfg bare : SvpConfig}
    (hbare : bare.toSvpConfigFields = { cfg.toSvpConfigFields with killzones := [] }) (c : Candle) :
    SvpEngine.inBlackout cfg c = (SvpEngine.inBlackout bare c || !SessionGate.allows ⟨cfg.killzones⟩ c.ts) := by
  have hplain : ∀ kz ∈ cfg.killzones, kz.1 < kz.2 := by
    intro kz hkz
    have hcheck : (badKillzone kz, killzoneText kz) ∈ cfg.checks := by
      unfold SvpConfigFields.checks
      exact List.mem_append_left _ (List.mem_append_right _ (List.mem_map_of_mem hkz))
    have hpass := cfg.check_passes hcheck
    unfold badKillzone at hpass
    simp at hpass
    omega
  obtain ⟨fields, haccepted⟩ := bare
  dsimp only at hbare
  subst hbare
  rw [allows_plain hplain]
  unfold SvpEngine.inBlackout
  dsimp only
  rw [mod_eq]
  by_cases hnone : cfg.killzones = []
  · simp [hnone]
  · simp [hnone]

/-- **The backtest reads the live gate's windows.** A text that the live parser accepts is read by the backtest as the same
windows. Its configuration refuses them for the first that wraps past midnight, and otherwise they veto the bars that the
live gate does not allow. -/
theorem killzone_readers_agree {spec : Text} {ws : List (Int × Int)} (h : parseKillzones spec = .ok ws) :
    Backtest.parseKillzones spec = .ok ws ∧
      (∀ f : SvpConfigFields, ({ f with killzones := [] } : SvpConfigFields).postInit = .ok () →
        ({ f with killzones := ws } : SvpConfigFields).postInit =
          (ws.find? fun kz => kz.2 < kz.1).elim (.ok ()) fun kz => .error (killzoneText kz)) ∧
      ∀ cfg bare : SvpConfig, cfg.killzones = ws →
        bare.toSvpConfigFields = { cfg.toSvpConfigFields with killzones := [] } →
        ∀ c, SvpEngine.inBlackout cfg c = (SvpEngine.inBlackout bare c || !SessionGate.allows ⟨ws⟩ c.ts) := by
  refine ⟨backtest_of_parse h, fun f hf => ?_, ?_⟩
  · obtain ⟨vs, rfl⟩ := parsed_windows h
    have hbad : (badKillzone ∘ Window.pair) = fun w => decide (w.stop < w.start) := by
      funext w
      rw [Bool.eq_iff_iff, decide_eq_true_iff]
      exact w.bad_iff
    rw [postInit_killzones hf, List.find?_map, List.find?_map, hbad]
    rfl
  · rintro cfg bare rfl hbare c
    exact inBlackout_killzones hbare c

/-- A morning, and a night. -/
def twoWindows : Text := "07:00-10:00, 22:00-02:00".toList

theorem killzone_readers_agree_twoWindows :
    Backtest.parseKillzones twoWindows = .ok [(420, 600), (1320, 120)] ∧
      ({ killzones := [(420, 600), (1320, 120)] } : SvpConfigFields).postInit = .error (killzoneText (1320, 120)) := by
  have hparse : parseKillzones twoWindows = .ok [(420, 600), (1320, 120)] := rfl
  exact ⟨(killzone_readers_agree hparse).1, (killzone_readers_agree hparse).2.1 {} SvpConfig.default.accepted⟩

end Killzones

end FreqTrading
