import Mathlib.Data.List.Chain
import FreqTrading.Lib.Rounding
import FreqTrading.Mql5.Partials

/-!
# The stop moves of the EA

`ManageOpenPositions` of `mql5/SmcXau_EA.mq5` on a position of the EA, partial closes and stop moves. What the EA has done
so far it reads from the live stop, and the risk distance from the stop of the opening order, or from the live stop if the
terminal does not find the order. At most two moves come of it, each tighter than the stop before and none behind the
entry (`stops_two_stage`), whatever the terminal refuses and however often it starts again.
-/

namespace FreqTrading

open Lib

namespace Ea

/-- The inputs of the stop, with the checks of the `SmcConfig` they mirror. -/
structure StopInputs where
  stage1AtR : ℚ := 1
  stage2AtR : ℚ := 2
  stage2MinLockR : ℚ := 1
  stage2Buffer : ℚ := 1 / 2
  commPerLot : ℚ := 0
  stage1_pos : 0 < stage1AtR := by decide +kernel
  stages_ascending : stage1AtR < stage2AtR := by decide +kernel
  lock_pos : 0 < stage2MinLockR := by decide +kernel
  comm_nonneg : 0 ≤ commPerLot := by decide +kernel

/-- `_Digits`, `SYMBOL_TRADE_TICK_VALUE` and `SYMBOL_TRADE_TICK_SIZE`. -/
structure SymbolPrices where
  digits : ℕ := 2
  tickValue : ℚ := 1
  tickSize : ℚ := 1 / 100
  deriving DecidableEq, Repr

/-- `_Point`. -/
def SymbolPrices.point (sym : SymbolPrices) : ℚ := 1 / 10 ^ sym.digits

/-- `NormalizeDouble`: a half goes away from zero. -/
def normalizeDouble (x : ℚ) (digits : ℕ) : ℚ :=
  (if 0 ≤ x then ⌊x * 10 ^ digits + 1 / 2⌋ else ⌈x * 10 ^ digits - 1 / 2⌉ : ℤ) / 10 ^ digits

def valuePerPrice (sym : SymbolPrices) : ℚ := if 0 < sym.tickSize then sym.tickValue / sym.tickSize else 0

def isStrictlyTighter (sym : SymbolPrices) (dir : Direction) (cur proposed : ℚ) : Bool :=
  if proposed ≤ 0 then false
  else if cur ≤ 0 then true
  else match dir with
    | .long => cur + sym.point / 2 < proposed
    | .short => proposed < cur - sym.point / 2

/-- A new M1 bar: the close of the bar just closed, the bar before it, the quotes, whether the deals and the order of the
position are found, and whether the terminal executes what it is asked for. -/
structure MinuteBar where
  close : ℚ
  candidateClose : ℚ
  candidateLow : ℚ
  candidateHigh : ℚ
  ask : ℚ
  bid : ℚ
  history : Bool := true
  closes : Bool := true
  modifies : Bool := true
  deriving DecidableEq, Repr

variable (cfg : StopInputs) (sym : SymbolPrices) (pos : Opened)

/-- `lock2`. -/
def lock2 : ℚ :=
  match pos.direction with
  | .long => pos.entry + cfg.stage2MinLockR * pos.unit
  | .short => pos.entry - cfg.stage2MinLockR * pos.unit

def Stage2Done (sl : ℚ) : Prop :=
  match pos.direction with
  | .long => lock2 cfg pos - sym.point / 2 ≤ sl
  | .short => 0 < sl ∧ sl ≤ lock2 cfg pos + sym.point / 2

def Stage1Done (sl : ℚ) : Prop :=
  match pos.direction with
  | .long => pos.entry - sym.point / 2 ≤ sl
  | .short => 0 < sl ∧ sl ≤ pos.entry + sym.point / 2

instance (sl : ℚ) : Decidable (Stage2Done cfg sym pos sl) := by unfold Stage2Done; split <;> infer_instance

instance (sl : ℚ) : Decidable (Stage1Done sym pos sl) := by unfold Stage1Done; split <;> infer_instance

/-- The stop of stage 2, off the extreme of the candidate. -/
def stage2Stop (bar : MinuteBar) : ℚ :=
  match pos.direction with
  | .long => max (bar.candidateLow - cfg.stage2Buffer) (lock2 cfg pos)
  | .short => min (bar.candidateHigh + cfg.stage2Buffer) (lock2 cfg pos)

/-- The stop of stage 1: the entry and the costs. -/
def stage1Stop (bar : MinuteBar) : ℚ :=
  let vpp := valuePerPrice sym
  let buf := bar.ask - bar.bid + if 0 < vpp then cfg.commPerLot / vpp else 0
  match pos.direction with
  | .long => pos.entry + buf
  | .short => pos.entry - buf

/-- `new_sl`; 0 is none. -/
def newSl (sl : ℚ) (bar : MinuteBar) : ℚ :=
  if Stage2Done cfg sym pos sl then 0
  else
    let r := pos.profit bar.candidateClose
    if cfg.stage2AtR ≤ r then stage2Stop cfg pos bar
    else if ¬Stage1Done sym pos sl ∧ cfg.stage1AtR ≤ r then stage1Stop cfg sym pos bar
    else 0

/-- The stop is on the side of the close where it does not fire. -/
def ValidStop (bar : MinuteBar) (sl : ℚ) : Prop :=
  match pos.direction with
  | .long => sl < bar.close
  | .short => bar.close < sl

instance (bar : MinuteBar) (sl : ℚ) : Decidable (ValidStop pos bar sl) := by unfold ValidStop; split <;> infer_instance

/-- The stop that `PositionModify` is called with. -/
def modification (sl : ℚ) (bar : MinuteBar) : Option ℚ :=
  let new := newSl cfg sym pos sl bar
  if 0 < new ∧ isStrictlyTighter sym pos.direction sl new = true ∧ ValidStop pos bar new then
    some (normalizeDouble new sym.digits)
  else none

end Ea

/-! ### A position over its bars -/

namespace Stops

open Ea

/-- The position at the terminal, and the stops it was given. -/
structure Live where
  volNow : ℚ
  sl : ℚ
  isOpen : Bool := true
  placed : List ℚ := []
  deriving DecidableEq, Repr

variable (rungs : PartialInputs) (cfg : StopInputs) (volumes : SymbolVolumes) (sym : SymbolPrices) (pos : Opened)

/-- `OriginalStopFromHistory` and `OriginalVolumeFromHistory`: without the history the live values. -/
def seen (s : Live) (history : Bool) : Opened :=
  if history then { pos with origSl := if 0 < pos.origSl then pos.origSl else s.sl }
  else { pos with origSl := s.sl, vol0 := s.volNow }

/-- The partial closes. -/
def closePart (seen : Opened) (s : Live) (bar : MinuteBar) : Live :=
  match request rungs volumes seen s.volNow (branch rungs seen s.volNow bar.close) with
  | none => s
  | some v =>
    if bar.closes then
      match branch rungs seen s.volNow bar.close with
      | .final => { s with isOpen := false }
      | _ => { s with volNow := s.volNow - v }
    else s

/-- The stop. -/
def moveStop (seen : Opened) (s : Live) (bar : MinuteBar) : Live :=
  match modification cfg sym seen s.sl bar with
  | none => s
  | some sl => if bar.modifies then { s with sl := sl, placed := s.placed ++ [sl] } else s

/-- `ManageOpenPositions` on a new M1 bar. -/
def manageOpenPosition (s : Live) (bar : MinuteBar) : Live :=
  let seen := seen pos s bar.history
  if s.isOpen = false ∨ seen.unit ≤ 0 then s
  else if branch rungs seen s.volNow bar.close = .final then closePart rungs volumes seen s bar
  else moveStop cfg sym seen (closePart rungs volumes seen s bar) bar

/-- The position when it is opened. -/
def opening : Live := { volNow := pos.vol0, sl := pos.origSl }

end Stops

/-! ### The price grid -/

namespace Ea

variable {cfg : StopInputs} {sym : SymbolPrices} {pos : Opened} {sl new x k : ℚ} {bar : MinuteBar}

theorem SymbolPrices.point_pos (sym : SymbolPrices) : 0 < sym.point := by
  unfold SymbolPrices.point
  positivity

theorem normalizeDouble_error (sym : SymbolPrices) (x : ℚ) : |normalizeDouble x sym.digits - x| ≤ sym.point / 2 := by
  unfold normalizeDouble SymbolPrices.point
  have hpow : (0 : ℚ) < 10 ^ sym.digits := by positivity
  have hunits : |((if 0 ≤ x then ⌊x * 10 ^ sym.digits + 1 / 2⌋ else ⌈x * 10 ^ sym.digits - 1 / 2⌉ : ℤ) : ℚ) -
      x * 10 ^ sym.digits| ≤ 1 / 2 := by
    rw [abs_le]
    split
    · have hlo := Int.floor_le (x * 10 ^ sym.digits + 1 / 2)
      have hhi := Int.lt_floor_add_one (x * 10 ^ sym.digits + 1 / 2)
      constructor <;> linarith
    · have hlo := Int.le_ceil (x * 10 ^ sym.digits - 1 / 2)
      have hhi := Int.ceil_lt_add_one (x * 10 ^ sym.digits - 1 / 2)
      constructor <;> linarith
  generalize ((if 0 ≤ x then ⌊x * 10 ^ sym.digits + 1 / 2⌋ else ⌈x * 10 ^ sym.digits - 1 / 2⌉ : ℤ) : ℚ) = units at hunits
  have hscale : units / 10 ^ sym.digits - x = (units - x * 10 ^ sym.digits) / 10 ^ sym.digits := by
    field_simp
  rw [hscale, abs_div, abs_of_pos hpow, show (1 : ℚ) / 10 ^ sym.digits / 2 = 1 / 2 / 10 ^ sym.digits by ring]
  exact div_le_div_of_nonneg_right hunits hpow.le

theorem le_normalizeDouble (hgrid : HasPlaces sym.digits k) (h : k ≤ x) : k ≤ normalizeDouble x sym.digits := by
  obtain ⟨n, hn⟩ := hgrid
  have hpow : (0 : ℚ) < 10 ^ sym.digits := by positivity
  have hmul : (n : ℚ) ≤ x * 10 ^ sym.digits := hn ▸ mul_le_mul_of_nonneg_right h hpow.le
  unfold normalizeDouble
  rw [le_div_iff₀ hpow, hn, Int.cast_le]
  split
  · exact Int.le_floor.mpr (by linarith)
  · exact Int.le_of_sub_one_lt (Int.lt_ceil.mpr (by push_cast; linarith))

theorem normalizeDouble_le (hgrid : HasPlaces sym.digits k) (h : x ≤ k) : normalizeDouble x sym.digits ≤ k := by
  obtain ⟨n, hn⟩ := hgrid
  have hpow : (0 : ℚ) < 10 ^ sym.digits := by positivity
  have hmul : x * 10 ^ sym.digits ≤ (n : ℚ) := hn ▸ mul_le_mul_of_nonneg_right h hpow.le
  unfold normalizeDouble
  rw [div_le_iff₀ hpow, hn, Int.cast_le]
  split
  · exact Int.lt_add_one_iff.mp (Int.floor_lt.mpr (by push_cast; linarith))
  · exact Int.ceil_le.mpr (by linarith)

/-! ### Stops by how far they are ahead of the entry -/

/-- How far a price is ahead of the entry, towards the profit. -/
def ahead (pos : Opened) (x : ℚ) : ℚ :=
  match pos.direction with
  | .long => x - pos.entry
  | .short => pos.entry - x

/-- A stop that leaves less to lose than this one. -/
def Tighter (pos : Opened) (cur sl : ℚ) : Prop := ahead pos cur < ahead pos sl

instance (cur sl : ℚ) : Decidable (Tighter pos cur sl) := inferInstanceAs (Decidable (_ < _))

theorem stage2Done_iff (hsl : 0 < sl) :
    Stage2Done cfg sym pos sl ↔ cfg.stage2MinLockR * pos.unit - sym.point / 2 ≤ ahead pos sl := by
  unfold Stage2Done lock2 ahead
  cases pos.direction with
  | long => constructor <;> intro h <;> linarith
  | short => exact ⟨fun h => by linarith [h.2], fun h => ⟨hsl, by linarith⟩⟩

theorem stage1Done_iff (hsl : 0 < sl) : Stage1Done sym pos sl ↔ -(sym.point / 2) ≤ ahead pos sl := by
  unfold Stage1Done ahead
  cases pos.direction with
  | long => constructor <;> intro h <;> linarith
  | short => exact ⟨fun h => by linarith [h.2], fun h => ⟨hsl, by linarith⟩⟩

theorem stage2Stop_ahead (cfg : StopInputs) (pos : Opened) (bar : MinuteBar) : cfg.stage2MinLockR * pos.unit ≤ ahead pos (stage2Stop cfg pos bar) := by
  unfold stage2Stop lock2 ahead
  cases pos.direction with
  | long =>
    have := le_max_right (bar.candidateLow - cfg.stage2Buffer) (pos.entry + cfg.stage2MinLockR * pos.unit)
    linarith
  | short =>
    have := min_le_right (bar.candidateHigh + cfg.stage2Buffer) (pos.entry - cfg.stage2MinLockR * pos.unit)
    linarith

theorem stage1Stop_ahead (hquotes : bar.bid ≤ bar.ask) : 0 ≤ ahead pos (stage1Stop cfg sym pos bar) := by
  have hcosts : 0 ≤ bar.ask - bar.bid + if 0 < valuePerPrice sym then cfg.commPerLot / valuePerPrice sym else 0 := by
    have hcomm : 0 ≤ if 0 < valuePerPrice sym then cfg.commPerLot / valuePerPrice sym else 0 := by
      split
      · next hvpp => exact div_nonneg cfg.comm_nonneg hvpp.le
      · exact le_rfl
    linarith
  unfold stage1Stop ahead
  dsimp only
  cases pos.direction <;> dsimp only <;> linarith

theorem unit_nonneg (pos : Opened) : 0 ≤ pos.unit := by
  unfold Opened.unit
  split
  · exact abs_nonneg _
  · exact le_rfl

/-- A bar of prices of the symbol. -/
structure Quoted (sym : SymbolPrices) (bar : MinuteBar) : Prop where
  quotes : bar.bid ≤ bar.ask
  close_pos : 0 < bar.close
  close_grid : HasPlaces sym.digits bar.close

/-- The entry is a price of the symbol. -/
structure EntryQuoted (sym : SymbolPrices) (pos : Opened) : Prop where
  positive : 0 < pos.entry
  grid : HasPlaces sym.digits pos.entry

/-- What a request to move the stop says. -/
structure Moves (cfg : StopInputs) (sym : SymbolPrices) (pos : Opened) (sl new : ℚ) : Prop where
  positive : 0 < new
  tighter : Tighter pos sl new
  ahead : 0 ≤ ahead pos new
  undone : ¬Stage2Done cfg sym pos sl
  /-- Stage 2, or stage 1 for the first time. -/
  stage : cfg.stage2MinLockR * pos.unit - sym.point / 2 ≤ Ea.ahead pos new ∨ ¬Stage1Done sym pos sl

theorem ahead_normalized (sym : SymbolPrices) (pos : Opened) (x : ℚ) :
    ahead pos x - sym.point / 2 ≤ ahead pos (normalizeDouble x sym.digits) := by
  have herror := abs_le.mp (normalizeDouble_error sym x)
  unfold ahead
  cases pos.direction <;> dsimp only <;> linarith [herror.1, herror.2]

theorem ahead_normalized_nonneg (hentry : EntryQuoted sym pos) (h : 0 ≤ ahead pos x) :
    0 ≤ ahead pos (normalizeDouble x sym.digits) := by
  unfold ahead at *
  cases hdir : pos.direction with
  | long =>
    rw [hdir] at h
    have := le_normalizeDouble hentry.grid (show pos.entry ≤ x by linarith)
    dsimp only
    linarith
  | short =>
    rw [hdir] at h
    have := normalizeDouble_le hentry.grid (show x ≤ pos.entry by linarith)
    dsimp only
    linarith

theorem modification_moves (hentry : EntryQuoted sym pos) (hbar : Quoted sym bar) (hsl : 0 < sl)
    (h : modification cfg sym pos sl bar = some new) : Moves cfg sym pos sl new := by
  unfold modification at h
  dsimp only at h
  split at h
  · next hasked =>
    obtain ⟨hpos, htight, hvalid⟩ := hasked
    cases h
    have hstage : ¬Stage2Done cfg sym pos sl ∧
        (newSl cfg sym pos sl bar = stage2Stop cfg pos bar ∨
          ¬Stage1Done sym pos sl ∧ newSl cfg sym pos sl bar = stage1Stop cfg sym pos bar) := by
      unfold newSl at hpos ⊢
      dsimp only at hpos ⊢
      split_ifs at hpos ⊢ with hdone hsecond hfirst
      · exact absurd hpos (lt_irrefl _)
      · exact ⟨hdone, Or.inl rfl⟩
      · exact ⟨hdone, Or.inr ⟨hfirst.1, rfl⟩⟩
      · exact absurd hpos (lt_irrefl _)
    generalize newSl cfg sym pos sl bar = x at *
    have hahead : 0 ≤ ahead pos x := by
      rcases hstage.2 with rfl | ⟨-, rfl⟩
      · exact (mul_nonneg cfg.lock_pos.le (unit_nonneg pos)).trans (stage2Stop_ahead cfg pos bar)
      · exact stage1Stop_ahead hbar.quotes
    have hnormal := ahead_normalized sym pos x
    refine ⟨?_, ?_, ahead_normalized_nonneg hentry hahead, hstage.1, ?_⟩
    · unfold ahead at hahead
      unfold ValidStop at hvalid
      cases hdir : pos.direction with
      | long =>
        rw [hdir] at hahead
        exact hentry.positive.trans_le (le_normalizeDouble hentry.grid (by linarith))
      | short =>
        rw [hdir] at hvalid
        exact hbar.close_pos.trans_le (le_normalizeDouble hbar.close_grid hvalid.le)
    · unfold isStrictlyTighter at htight
      rw [if_neg (not_le.mpr hpos), if_neg (not_le.mpr hsl)] at htight
      refine lt_of_lt_of_le ?_ hnormal
      unfold ahead
      cases hdir : pos.direction <;> rw [hdir] at htight <;> simp only [decide_eq_true_eq] at htight ⊢ <;> linarith
    · rcases hstage.2 with rfl | ⟨hundone, -⟩
      · have := stage2Stop_ahead cfg pos bar
        exact Or.inl (by linarith)
      · exact Or.inr hundone
  · cases h

end Ea

/-! ### Two moves at most -/

namespace Stops

open Ea

variable {rungs : PartialInputs} {cfg : StopInputs} {volumes : SymbolVolumes} {sym : SymbolPrices} {pos : Opened}
  {s : Live} {bar : MinuteBar} {sl : ℚ}

/-- The stop is at its lock, as the risk distance of the opening order has it. -/
def Locked (cfg : StopInputs) (sym : SymbolPrices) (pos : Opened) (sl : ℚ) : Prop :=
  cfg.stage2MinLockR * pos.unit - sym.point / 2 ≤ ahead pos sl

/-- How far the stop has come: not moved, moved once and not behind the entry, or at its lock. -/
inductive Phase (cfg : StopInputs) (sym : SymbolPrices) (pos : Opened) (s : Live) : Prop
  | initial (hplaced : s.placed = []) (hsl : s.sl = pos.origSl)
  | breakeven (hplaced : s.placed = [s.sl]) (hahead : 0 ≤ ahead pos s.sl)
  | locked (before : List ℚ) (hplaced : s.placed = before ++ [s.sl]) (hone : before.length ≤ 1)
      (hahead : 0 ≤ ahead pos s.sl) (hlock : Locked cfg sym pos s.sl)

/-- The stops the position was given, and how far it has come. -/
structure Disciplined (cfg : StopInputs) (sym : SymbolPrices) (pos : Opened) (s : Live) : Prop where
  positive : 0 < s.sl
  phase : Phase cfg sym pos s
  tightens : (pos.origSl :: s.placed).IsChain (Tighter pos)
  ahead : ∀ sl ∈ s.placed, 0 ≤ ahead pos sl

theorem Disciplined.last (h : Disciplined cfg sym pos s) : (pos.origSl :: s.placed).getLast? = some s.sl := by
  cases h.phase with
  | initial hplaced hsl => rw [hplaced, hsl]; rfl
  | breakeven hplaced => rw [hplaced]; rfl
  | locked before hplaced => rw [hplaced, ← List.cons_append, List.getLast?_concat]

theorem ahead_seen (s : Live) (history : Bool) (x : ℚ) : Ea.ahead (seen pos s history) x = Ea.ahead pos x := by
  unfold seen
  split <;> rfl

/-- With the history, or before the first move, the risk distance is that of the opening order; else it is how far the
stop is ahead of the entry. -/
theorem unit_seen {s₀ : Live} (hs : s₀.sl = s.sl) (horig : 0 < pos.origSl) (h : Disciplined cfg sym pos s) (history : Bool) :
    (seen pos s₀ history).unit = pos.unit ∨
      history = false ∧ (seen pos s₀ history).unit = Ea.ahead pos s.sl ∧ 0 ≤ Ea.ahead pos s.sl := by
  have hlive (hahead : 0 ≤ Ea.ahead pos s.sl) : (seen pos s₀ false).unit = Ea.ahead pos s.sl := by
    show (if 0 < s₀.sl then |pos.entry - s₀.sl| else 0) = _
    rw [hs, if_pos h.positive]
    unfold Ea.ahead at *
    cases hdir : pos.direction with
    | long =>
      rw [hdir] at hahead
      rw [abs_sub_comm, abs_of_nonneg hahead]
    | short =>
      rw [hdir] at hahead
      rw [abs_of_nonneg hahead]
  cases history with
  | true =>
    left
    unfold seen Opened.unit
    simp only [if_true, if_pos horig]
  | false =>
    cases h.phase with
    | initial hplaced hsl =>
      left
      unfold seen Opened.unit
      simp only [Bool.false_eq_true, if_false, hs, hsl]
    | breakeven _ hahead => exact Or.inr ⟨rfl, hlive hahead, hahead⟩
    | locked _ _ _ hahead => exact Or.inr ⟨rfl, hlive hahead, hahead⟩

/-- A stop that was moved, seen without the history, looks as if it were at its lock. -/
theorem done_of_live {seen : Opened} (hsl : 0 < s.sl) (hlow : cfg.stage2MinLockR ≤ 1)
    (hahead : Ea.ahead seen s.sl = Ea.ahead pos s.sl) (hnonneg : 0 ≤ Ea.ahead pos s.sl)
    (hunit : seen.unit = Ea.ahead pos s.sl) : Stage2Done cfg sym seen s.sl := by
  rw [stage2Done_iff hsl, hahead, hunit]
  have hmul : cfg.stage2MinLockR * Ea.ahead pos s.sl ≤ 1 * Ea.ahead pos s.sl := mul_le_mul_of_nonneg_right hlow hnonneg
  have hpoint := sym.point_pos
  linarith

theorem closePart_stop (seen : Opened) (s : Live) (bar : MinuteBar) :
    (closePart rungs volumes seen s bar).sl = s.sl ∧ (closePart rungs volumes seen s bar).placed = s.placed := by
  unfold closePart
  split
  · exact ⟨rfl, rfl⟩
  · split
    · split <;> exact ⟨rfl, rfl⟩
    · exact ⟨rfl, rfl⟩

theorem Disciplined.congr {s' : Live} (h : Disciplined cfg sym pos s) (hsl : s'.sl = s.sl) (hplaced : s'.placed = s.placed) :
    Disciplined cfg sym pos s' := by
  refine ⟨hsl ▸ h.positive, ?_, hplaced ▸ h.tightens, hplaced ▸ h.ahead⟩
  cases h.phase with
  | initial hnone hinit => exact .initial (hplaced.trans hnone) (hsl.trans hinit)
  | breakeven hone hahead => exact .breakeven (by rw [hplaced, hsl, hone]) (hsl ▸ hahead)
  | locked before hbefore hone hahead hlock => exact .locked before (by rw [hplaced, hsl, hbefore]) hone (hsl ▸ hahead) (hsl ▸ hlock)

/-- One more stop. -/
theorem Disciplined.place (h : Disciplined cfg sym pos s) (hpos : 0 < sl) (htight : Tighter pos s.sl sl)
    (hahead : 0 ≤ Ea.ahead pos sl)
    (hphase : Phase cfg sym pos { s with sl := sl, placed := s.placed ++ [sl] }) :
    Disciplined cfg sym pos { s with sl := sl, placed := s.placed ++ [sl] } := by
  refine ⟨hpos, hphase, ?_, fun x hx => ?_⟩
  · show (pos.origSl :: (s.placed ++ [sl])).IsChain (Tighter pos)
    rw [← List.cons_append, List.isChain_append]
    refine ⟨h.tightens, List.isChain_singleton _, fun x hx y hy => ?_⟩
    rw [h.last] at hx
    cases hx
    cases hy
    exact htight
  · rcases List.mem_append.mp hx with hold | hnew
    · exact h.ahead x hold
    · rw [List.mem_singleton.mp hnew]
      exact hahead

theorem Disciplined.moveStop {s₀ : Live} (h : Disciplined cfg sym pos s) (hs : s₀.sl = s.sl) (horig : 0 < pos.origSl) (hentry : EntryQuoted sym pos)
    (hbar : Quoted sym bar) (hlow : cfg.stage2MinLockR ≤ 1 ∨ bar.history = true) :
    Disciplined cfg sym pos (moveStop cfg sym (seen pos s₀ bar.history) s bar) := by
  unfold Stops.moveStop
  split
  · exact h
  · next sl hasked =>
    split
    · have hentry' : EntryQuoted sym (seen pos s₀ bar.history) := by
        unfold seen
        split <;> exact ⟨hentry.positive, hentry.grid⟩
      have hmoves := modification_moves hentry' hbar h.positive hasked
      have htight : Tighter pos s.sl sl := by
        have := hmoves.tighter
        unfold Tighter at this ⊢
        rwa [ahead_seen, ahead_seen] at this
      have hahead : 0 ≤ Ea.ahead pos sl := by
        have := hmoves.ahead
        rwa [ahead_seen] at this
      -- the risk distance is that of the opening order, or the stop was moved and seems to be at its lock
      have hunit : (seen pos s₀ bar.history).unit = pos.unit := by
        rcases unit_seen hs horig h bar.history with hsame | ⟨hnone, hlive, hnonneg⟩
        · exact hsame
        · rcases hlow with hle | hhistory
          · exact absurd (done_of_live h.positive hle (ahead_seen s₀ bar.history s.sl) hnonneg hlive) hmoves.undone
          · rw [hnone] at hhistory
            cases hhistory
      have hundone := hmoves.undone
      rw [stage2Done_iff h.positive, ahead_seen, hunit] at hundone
      have hstage := hmoves.stage
      rw [ahead_seen, hunit, stage1Done_iff h.positive, ahead_seen] at hstage
      refine h.place hmoves.positive htight hahead ?_
      cases h.phase with
      | initial hplaced hsl =>
        rcases hstage with hlock | -
        · exact .locked [] (by simp [hplaced]) (by simp) hahead hlock
        · exact .breakeven (by simp [hplaced]) hahead
      | breakeven hplaced hfirst =>
        have hpoint := sym.point_pos
        rcases hstage with hlock | hnot
        · exact .locked s.placed rfl (by simp [hplaced]) hahead hlock
        · exact absurd (by linarith) hnot
      | locked before hplaced hone hfirst hlock => exact absurd hlock hundone
    · exact h

theorem manageOpenPosition_disciplined (h : Disciplined cfg sym pos s) (horig : 0 < pos.origSl)
    (hentry : EntryQuoted sym pos) (hbar : Quoted sym bar) (hlow : cfg.stage2MinLockR ≤ 1 ∨ bar.history = true) :
    Disciplined cfg sym pos (manageOpenPosition rungs cfg volumes sym pos s bar) := by
  unfold manageOpenPosition
  dsimp only
  obtain ⟨hsl, hplaced⟩ := @closePart_stop rungs volumes (seen pos s bar.history) s bar
  have hclosed : Disciplined cfg sym pos (closePart rungs volumes (seen pos s bar.history) s bar) := h.congr hsl hplaced
  split
  · exact h
  · split
    · exact hclosed
    · exact hclosed.moveStop hsl.symm horig hentry hbar hlow

theorem opening_disciplined (horig : 0 < pos.origSl) : Disciplined cfg sym pos (opening pos) :=
  ⟨horig, .initial rfl rfl, List.isChain_singleton _, by simp [opening]⟩

theorem Disciplined.two_moves (h : Disciplined cfg sym pos s) :
    s.placed.length ≤ 2 ∧ (s.placed.length = 2 → Locked cfg sym pos s.sl) := by
  cases h.phase with
  | initial hplaced => simp [hplaced]
  | breakeven hplaced => simp [hplaced]
  | locked before hplaced hone hahead hlock =>
    refine ⟨?_, fun _ => hlock⟩
    rw [hplaced, List.length_append, List.length_singleton]
    omega

/-- **The EA moves the stop of a position twice at most, each time tighter and never behind the entry**, for any bars and
quotes, whatever the terminal refuses, and although it remembers nothing. A terminal that does not always find the opening
order needs a lock of at most 1 R. -/
theorem stops_two_stage (rungs : PartialInputs) (cfg : StopInputs) (volumes : SymbolVolumes) (sym : SymbolPrices)
    (pos : Opened) (horig : 0 < pos.origSl) (hentry : EntryQuoted sym pos) (bars : List MinuteBar)
    (hbars : ∀ bar ∈ bars, Quoted sym bar) (hlow : cfg.stage2MinLockR ≤ 1 ∨ ∀ bar ∈ bars, bar.history = true) :
    let s := run (manageOpenPosition rungs cfg volumes sym pos) (opening pos) bars
    s.placed.length ≤ 2 ∧ (pos.origSl :: s.placed).IsChain (Tighter pos) ∧ (∀ sl ∈ s.placed, 0 ≤ Ea.ahead pos sl) ∧
      (s.placed.length = 2 → Locked cfg sym pos s.sl) := by
  intro s
  have hall : ∀ bar ∈ bars, Quoted sym bar ∧ (cfg.stage2MinLockR ≤ 1 ∨ bar.history = true) := fun bar hbar =>
    ⟨hbars bar hbar, hlow.imp_right fun h => h bar hbar⟩
  have h : Disciplined cfg sym pos s :=
    run_invariant (fun _ _ h hbar => manageOpenPosition_disciplined h horig hentry hbar.1 hbar.2) (opening_disciplined horig)
      (stepsMeet_of_forall hall)
  exact ⟨h.two_moves.1, h.tightens, h.ahead, h.two_moves.2⟩

def bought : Opened := { direction := .long, entry := 2000, origSl := 1990, vol0 := 1 }

/-- The first move is refused once, the lock follows, and a better candidate without the history changes nothing. -/
def climbing : List MinuteBar :=
  let bar (close low : ℚ) (history modifies : Bool) : MinuteBar :=
    { close, candidateClose := close, candidateLow := low, candidateHigh := close, ask := close + 3 / 10, bid := close,
      history, modifies }
  [bar 2011 2008 true false, bar 2012 2009 true true, bar 2021 2019 true true, bar 2030 2028 false true]

theorem stops_two_stage_climbing :
    ∃ (rungs : PartialInputs) (cfg : StopInputs) (volumes : SymbolVolumes) (sym : SymbolPrices),
      let s := run (manageOpenPosition rungs cfg volumes sym bought) (opening bought) climbing
      s.placed = [20003 / 10, 4037 / 2] ∧ (bought.origSl :: s.placed).IsChain (Tighter bought) ∧
        (∀ sl ∈ s.placed, 0 ≤ Ea.ahead bought sl) ∧ Locked cfg sym bought s.sl := by
  have hbars : ∀ bar ∈ climbing, Quoted {} bar := by
    simp only [climbing, List.forall_mem_cons, List.not_mem_nil, false_imp_iff, implies_true, and_true]
    refine ⟨⟨?_, ?_, ⟨201100, ?_⟩⟩, ⟨?_, ?_, ⟨201200, ?_⟩⟩, ⟨?_, ?_, ⟨202100, ?_⟩⟩, ⟨?_, ?_, ⟨203000, ?_⟩⟩⟩ <;> norm_num
  have h := stops_two_stage {} {} {} {} bought (by decide +kernel) ⟨by decide +kernel, ⟨200000, by decide +kernel⟩⟩
    climbing hbars (Or.inl (by decide +kernel))
  have hplaced : (run (manageOpenPosition {} {} {} {} bought) (opening bought) climbing).placed =
      [20003 / 10, 4037 / 2] := by
    decide +kernel
  exact ⟨{}, {}, {}, {}, hplaced, h.2.1, h.2.2.1, h.2.2.2 (by rw [hplaced]; rfl)⟩

end Stops

end FreqTrading
