import FreqTrading.Backtest.Sweep

/-!
# Runs of the sweep backtest

What is behind a trade: a bar that swept a level, a fill at its close or at the level on a later bar, and an exit on a bar
after that (`trades_signalled`). A position is sized for the loss at its stop, and no trade loses more than that and its
costs (`trades_within_budget`). A halt is the loss of the day, and lasts for the day (`halt_is_final`).

Every exit closes a part of the position at a price that is at worst its stop; `Held` carries what that may have cost from
the opening of a position to its last close.
-/

namespace FreqTrading

open Lib

namespace SweepSim

/-! ### What an exit may do -/

/-- What closing a position may cost for each lot. -/
def Pos.unit (half comm vpm : ℚ) (q : Pos) : ℚ := (q.risk0 + half) * vpm + comm

/-- What rounding the rest of a position to 8 places may add to it. -/
def dust : ℚ := 1 / 2 / 10 ^ 8

/-- A position as it was opened. -/
structure Pos.Fresh (rr : ℚ) (q : Pos) : Prop where
  risk : 0 < q.risk0
  risk_eq : q.risk0 = q.side.sign * (q.entry - q.sl)
  target : q.side.sign * (q.tp - q.entry) = rr * q.risk0
  vol : 0 < q.vol
  whole : q.partialed = false
  pnl : q.pnl = 0

theorem Pos.Fresh.abs_risk {rr : ℚ} {q : Pos} (h : q.Fresh rr) : |q.entry - q.sl| = q.risk0 := by
  have hpos := h.risk
  have hrisk := h.risk_eq
  cases hside : q.side with
  | long =>
    rw [hside, Direction.sign, one_mul] at hrisk
    rw [hrisk] at hpos ⊢
    exact abs_of_pos hpos
  | short =>
    rw [hside, Direction.sign, neg_one_mul] at hrisk
    rw [hrisk] at hpos ⊢
    exact abs_of_neg (by linarith)

/-- The position `q` opened as `q₀`; under `honest`, what it has lost is paid for by the volume closed. -/
structure Held (honest : Prop) (half comm vpm : ℚ) (q₀ q : Pos) : Prop where
  same : q = { q₀ with vol := q.vol, pnl := q.pnl, partialed := q.partialed }
  fresh : q.partialed = false → q = q₀
  vol : 0 ≤ q.vol
  bound : honest → -q.pnl ≤ q₀.unit half comm vpm * (q₀.vol + dust - q.vol)

/-- The trade `t` is the position `q₀`, closed at the time `ts`. -/
structure Ended (honest : Prop) (half comm vpm : ℚ) (q₀ : Pos) (ts : Int) (t : Trade) : Prop where
  same : t = { q₀.trade ts with pnl := t.pnl }
  bound : honest → -t.pnl ≤ q₀.unit half comm vpm * (q₀.vol + dust)

/-- The position is still held, or its trade is closed. -/
inductive Outcome (s : SweepSim) (Q : Pos → Prop) (T : Trade → Prop) (s' : SweepSim) : Prop
  | held (q : Pos) (hpos : s'.pos = some q) (hclosed : s'.closed = s.closed) (hq : Q q)
  | ended (t : Trade) (hpos : s'.pos = none) (hclosed : s'.closed = s.closed ++ [t]) (ht : T t)

/-- The costs are those of the run. -/
structure Costs (half comm vpm : ℚ) (s : SweepSim) : Prop where
  half : s.half = half
  comm : s.comm = comm
  vpm : s.vpm = vpm

section exits

variable {honest : Prop} {half comm vpm rr : ℚ} {s : SweepSim} {q₀ q : Pos} {c : FileCandle}

theorem Costs.close (h : Costs half comm vpm s) (q : Pos) (px vol : ℚ) (ts : Int) :
    Costs half comm vpm (s.close q px vol ts) := by
  unfold SweepSim.close
  dsimp only
  split <;> exact ⟨h.half, h.comm, h.vpm⟩

theorem Costs.takeTarget (h : Costs half comm vpm s) (c : FileCandle) : Costs half comm vpm (s.takeTarget c) := by
  unfold SweepSim.takeTarget
  split
  · exact h
  · split
    · exact h.close ..
    · exact h

theorem Costs.takePartial (h : Costs half comm vpm s) (q : Pos) (c : FileCandle) :
    Costs half comm vpm (s.takePartial q c) :=
  have hclose := h.close q (s.exitPrice q.side q.twoR) (roundPlaces 8 (q.vol * (7 / 10))) c.ts
  ⟨hclose.half, hclose.comm, hclose.vpm⟩

theorem Costs.manageExits (h : Costs half comm vpm s) (c : FileCandle) : Costs half comm vpm (s.manageExits c) := by
  unfold SweepSim.manageExits
  split
  · exact h
  · split
    · exact h.close ..
    · split
      · exact (h.takePartial _ c).takeTarget c
      · exact h.takeTarget c

theorem Costs.flatten (h : Costs half comm vpm s) (c : FileCandle) : Costs half comm vpm (s.flatten c) := by
  unfold SweepSim.flatten
  split
  · exact h
  · exact h.close ..

/-- The price is at worst the stop, less the half of the spread. -/
def PriceOk (half : ℚ) (q : Pos) (px : ℚ) : Prop := -(q.risk0 + half) ≤ q.side.sign * (px - q.entry)

theorem sign_exitPrice (s : SweepSim) (side : Direction) (px entry : ℚ) :
    side.sign * (s.exitPrice side px - entry) = side.sign * (px - entry) - s.half := by
  cases side <;> simp only [Direction.sign, exitPrice] <;> ring

theorem priceOk_exit (h : Costs half comm vpm s) {px : ℚ} (hpx : -q.risk0 ≤ q.side.sign * (px - q.entry)) :
    PriceOk half q (s.exitPrice q.side px) := by
  unfold PriceOk
  rw [sign_exitPrice, h.half]
  linarith

theorem pnlOf_ge (h : Costs half comm vpm s) (hvpm : 0 ≤ vpm) {px vol : ℚ} (hvol : 0 ≤ vol) (hpx : PriceOk half q px) :
    -(q.unit half comm vpm * vol) ≤ s.pnlOf q px vol := by
  unfold pnlOf Pos.unit
  rw [h.comm, h.vpm]
  have hmul : -(q.risk0 + half) * (vol * vpm) ≤ q.side.sign * (px - q.entry) * (vol * vpm) :=
    mul_le_mul_of_nonneg_right hpx (mul_nonneg hvol hvpm)
  linarith

theorem close_all (s : SweepSim) (q : Pos) (px : ℚ) (ts : Int) :
    (s.close q px q.vol ts).pos = none ∧
      (s.close q px q.vol ts).closed = s.closed ++ [{ q.trade ts with pnl := q.pnl + s.pnlOf q px q.vol }] := by
  have hvol : (q.after (s.pnlOf q px q.vol) q.vol).vol ≤ 1 / 1000000000 := by
    simp [Pos.after, roundPlaces, roundEven]
  unfold close
  dsimp only
  rw [if_pos hvol]
  exact ⟨rfl, rfl⟩

theorem roundPlaces_nonneg {n : ℕ} {x : ℚ} (h : 0 ≤ x) : 0 ≤ roundPlaces n x := by
  have hround : roundEven (0 : ℚ) ≤ roundEven (x * 10 ^ n) := roundEven_mono (by positivity)
  have hzero : roundEven (0 : ℚ) = 0 := by simpa using roundEven_intCast (0 : ℤ)
  rw [hzero] at hround
  exact div_nonneg (by exact_mod_cast hround) (by positivity)

theorem roundPlaces_le_dust (x : ℚ) : roundPlaces 8 x ≤ x + dust := by
  have := (abs_le.mp (roundPlaces_error 8 x)).2
  unfold dust
  linarith

theorem dust_pos : 0 < dust := by norm_num [dust]

theorem Held.unit (h : Held honest half comm vpm q₀ q) : q.unit half comm vpm = q₀.unit half comm vpm := by
  rw [h.same]
  rfl

theorem Held.risk (h : Held honest half comm vpm q₀ q) (hfresh : q₀.Fresh rr) :
    q.risk0 = q.side.sign * (q.entry - q.sl) := by
  rw [h.same]
  exact hfresh.risk_eq

theorem Held.stop (h : Held honest half comm vpm q₀ q) (c : FileCandle) : SweepSim.stopHit q c = SweepSim.stopHit q₀ c := by
  rw [h.same]
  rfl

theorem Outcome.mono {Q Q' : Pos → Prop} {T : Trade → Prop} {s' : SweepSim} (h : Outcome s Q T s')
    (hQ : ∀ q, Q q → Q' q) : Outcome s Q' T s' := by
  cases h with
  | held q hpos hclosed hq => exact .held q hpos hclosed (hQ q hq)
  | ended t hpos hclosed ht => exact .ended t hpos hclosed ht

theorem Outcome.trans {Q Q' : Pos → Prop} {T : Trade → Prop} {s' s'' : SweepSim} (h : Outcome s Q T s')
    (hheld : ∀ q, s'.pos = some q → Q q → Outcome s' Q' T s'') (hended : s'.pos = none → s'' = s') : Outcome s Q' T s'' := by
  cases h with
  | held q hpos hclosed hq =>
    cases hheld q hpos hq with
    | held q' hpos' hclosed' hq' => exact .held q' hpos' (hclosed'.trans hclosed) hq'
    | ended t hpos' hclosed' ht => exact .ended t hpos' (by rw [hclosed', hclosed]) ht
  | ended t hpos hclosed ht =>
    rw [hended hpos]
    exact .ended t hpos hclosed ht

/-- The bar is one: it closes inside its range. -/
def IsBar (c : FileCandle) : Prop := c.low ≤ c.close ∧ c.close ≤ c.high

variable (hfresh : q₀.Fresh rr) (hunit : honest → 0 ≤ q₀.unit half comm vpm) (hvpm : honest → 0 ≤ vpm)
include hvpm

theorem Held.close_all (h : Held honest half comm vpm q₀ q) (hcosts : Costs half comm vpm s) {px : ℚ}
    (hpx : honest → PriceOk half q px) (ts : Int) :
    Outcome s (fun _ => False) (Ended honest half comm vpm q₀ ts) (s.close q px q.vol ts) := by
  obtain ⟨hpos, hclosed⟩ := SweepSim.close_all s q px ts
  refine .ended _ hpos hclosed ⟨?_, fun hhonest => ?_⟩
  · rw [h.same]
    rfl
  · have hchunk := pnlOf_ge hcosts (hvpm hhonest) h.vol (hpx hhonest)
    rw [h.unit] at hchunk
    have hbound := h.bound hhonest
    show -(q.pnl + s.pnlOf q px q.vol) ≤ _
    linarith

include hfresh

theorem Held.takeTarget (h : Held honest half comm vpm q₀ q) (hcosts : Costs half comm vpm s) (hrr : honest → 0 ≤ rr)
    (hpos : s.pos = some q) (c : FileCandle) :
    Outcome s (Held honest half comm vpm q₀) (Ended honest half comm vpm q₀ c.ts) (s.takeTarget c) := by
  unfold SweepSim.takeTarget
  rw [hpos]
  dsimp only
  split
  · refine (h.close_all hvpm hcosts (fun hhonest => priceOk_exit hcosts ?_) c.ts).mono fun _ hnone => hnone.elim
    have htarget : q.side.sign * (q.tp - q.entry) = rr * q.risk0 := by
      rw [h.same]
      exact hfresh.target
    have hrisk : 0 < q.risk0 := by
      rw [h.same]
      exact hfresh.risk
    rw [htarget]
    linarith [mul_nonneg (hrr hhonest) hrisk.le]
  · exact .held q hpos rfl h

theorem Held.flatten (h : Held honest half comm vpm q₀ q) (hcosts : Costs half comm vpm s) (hpos : s.pos = some q)
    (hbar : honest → IsBar c) (hstop : SweepSim.stopHit q₀ c = false) :
    Outcome s (fun _ => False) (Ended honest half comm vpm q₀ c.ts) (s.flatten c) := by
  unfold SweepSim.flatten
  rw [hpos]
  dsimp only
  have hpx (hhonest : honest) : PriceOk half q (s.exitPrice q.side c.close) := by
    refine priceOk_exit hcosts ?_
    have hrisk := h.risk hfresh
    rw [← h.stop, SweepSim.stopHit] at hstop
    obtain ⟨hlow, hhigh⟩ := hbar hhonest
    cases hside : q.side with
    | long =>
      simp only [hside, decide_eq_false_iff_not, not_le] at hstop
      simp only [hside, Direction.sign, one_mul] at hrisk ⊢
      linarith
    | short =>
      simp only [hside, decide_eq_false_iff_not, not_le] at hstop
      simp only [hside, Direction.sign] at hrisk ⊢
      linarith
  exact h.close_all hvpm hcosts hpx c.ts

include hunit

theorem Held.takePartial (h : Held honest half comm vpm q₀ q) (hcosts : Costs half comm vpm s) (hwhole : q.partialed = false)
    (c : FileCandle) :
    Outcome s (Held honest half comm vpm q₀) (Ended honest half comm vpm q₀ c.ts) (s.takePartial q c) := by
  obtain rfl := h.fresh hwhole
  have hsign : q.side.sign * (q.twoR - q.entry) = 2 * q.risk0 := by
    unfold Pos.twoR
    cases q.side <;> simp only [Direction.sign] <;> ring
  have hpx : PriceOk half q (s.exitPrice q.side q.twoR) := priceOk_exit hcosts (by rw [hsign]; linarith [hfresh.risk])
  have hpart : 0 ≤ roundPlaces 8 (q.vol * (7 / 10)) := roundPlaces_nonneg (by linarith [hfresh.vol])
  generalize hv : roundPlaces 8 (q.vol * (7 / 10)) = v at hpart
  have hchunk (hhonest : honest) := pnlOf_ge (q := q) hcosts (hvpm hhonest) hpart hpx
  unfold SweepSim.takePartial SweepSim.close
  rw [hv]
  dsimp only
  split
  · refine .ended _ rfl rfl ⟨rfl, fun hhonest => ?_⟩
    have hle : v ≤ q.vol + dust := by
      have := roundPlaces_le_dust (q.vol * (7 / 10))
      linarith [hfresh.vol]
    have hmul := mul_le_mul_of_nonneg_left hle (hunit hhonest)
    have := hchunk hhonest
    show -(q.pnl + _) ≤ _
    linarith [hfresh.pnl]
  · next hrest =>
    refine .held _ rfl rfl ⟨rfl, fun hfalse => (by cases hfalse), ?_, fun hhonest => ?_⟩
    · exact le_trans (by norm_num) (not_le.mp hrest).le
    · have hle : v ≤ q.vol + dust - roundPlaces 8 (q.vol - v) := by
        have := roundPlaces_le_dust (q.vol - v)
        linarith
      have hmul := mul_le_mul_of_nonneg_left hle (hunit hhonest)
      have := hchunk hhonest
      show -(q.pnl + _) ≤ q.unit half comm vpm * (q.vol + dust - roundPlaces 8 (q.vol - v))
      linarith [hfresh.pnl]

theorem Held.manageExits (h : Held honest half comm vpm q₀ q) (hcosts : Costs half comm vpm s) (hrr : honest → 0 ≤ rr)
    (hpos : s.pos = some q) (c : FileCandle) :
    Outcome s (fun q => Held honest half comm vpm q₀ q ∧ SweepSim.stopHit q₀ c = false)
      (Ended honest half comm vpm q₀ c.ts) (s.manageExits c) := by
  unfold SweepSim.manageExits
  rw [hpos]
  dsimp only
  rw [h.stop]
  split
  · have hstop (_ : honest) : PriceOk half q (s.exitPrice q.side q.sl) := by
      refine priceOk_exit hcosts ?_
      rw [h.risk hfresh]
      linarith
    exact (h.close_all hvpm hcosts hstop c.ts).mono fun _ hnone => hnone.elim
  · next hclear =>
    have hmiss : SweepSim.stopHit q₀ c = false := by simpa using hclear
    have htarget {s' : SweepSim} {q' : Pos} (hcosts' : Costs half comm vpm s') (hpos' : s'.pos = some q')
        (h' : Held honest half comm vpm q₀ q') :
        Outcome s' (fun q => Held honest half comm vpm q₀ q ∧ SweepSim.stopHit q₀ c = false)
          (Ended honest half comm vpm q₀ c.ts) (s'.takeTarget c) :=
      (h'.takeTarget hfresh hvpm hcosts' hrr hpos' c).mono fun _ hheld => ⟨hheld, hmiss⟩
    split
    · next hpartial =>
      have hwhole : q.partialed = false := by
        simp only [Bool.and_eq_true, Bool.not_eq_true'] at hpartial
        exact hpartial.1.2
      refine (h.takePartial hfresh hunit hvpm hcosts hwhole c).trans (fun q' hpos' h' => ?_) fun hnone => ?_
      · exact htarget (hcosts.takePartial q c) hpos' h'
      · unfold SweepSim.takeTarget
        rw [hnone]
    · exact htarget hcosts hpos h

end exits

end SweepSim

namespace SweepParams

open SweepSim

/-! ### Signals and openings -/

variable (p : SweepParams)

/-- The state after these candles. -/
def after (cs : List FileCandle) : SweepRun := run p.step p.start cs

def balanceAfter (cs : List FileCandle) : ℚ := p.startBalance + (p.after cs).sim.equity

/-- The breaker at the candle `c`. -/
def breakerAt (cs : List FileCandle) (c : FileCandle) : DailyLossBreaker :=
  (p.after cs).breaker.update (date c.ts) (p.balanceAfter cs)

/-- The bar takes a level of the higher timeframe and closes back across it. -/
inductive Swept (erl : HtfErl) (topen : Trueopen.TrueOpenTracker) (c : FileCandle) : Pend → Prop
  | low (level : ℚ) (hlevel : erl.prevLo = some level) (htakes : c.low < level) (hreclaims : level < c.close)
      (hbias : p.useBias = true → topen.bias c.close = some "bullish") :
      Swept erl topen c {
        side := .long, px := level, sl := c.low - p.stopBuf, placedTs := c.ts, reason := "sweep_low_reclaim" }
  | high (level : ℚ) (hlevel : erl.prevHi = some level) (htakes : level < c.high) (hreclaims : c.close < level)
      (hbias : p.useBias = true → topen.bias c.close = some "bearish") :
      Swept erl topen c {
        side := .short, px := level, sl := c.high + p.stopBuf, placedTs := c.ts, reason := "sweep_high_reclaim" }

/-- After the candles `cs`, the bar `c` gives this order. -/
def Signalled (cs : List FileCandle) (c : FileCandle) (order : Pend) : Prop :=
  p.Swept (p.after (cs ++ [c])).erl (p.after (cs ++ [c])).topen c order

/-- The position is opened on the last of these candles: at the close of the bar of its signal, or at the level on a later
bar that reaches it. -/
inductive Opened : List FileCandle → Pos → Prop
  | market {cs : List FileCandle} {c : FileCandle} {order : Pend} {q : Pos} (hmode : p.entryMode = .market)
      (hsignal : p.Signalled cs c order) (hhalt : (p.breakerAt cs c).halted = false)
      (hopen : p.opened (p.breakerAt cs c) (p.balanceAfter cs) order c.close c.ts = some q) : Opened (cs ++ [c]) q
  | limit {cs mid : List FileCandle} {c d : FileCandle} {order : Pend} {q : Pos} (hmode : p.entryMode = .limit)
      (hsignal : p.Signalled cs c order) (hhalt : (p.breakerAt (cs ++ c :: mid) d).halted = false)
      (hlater : order.placedTs < d.ts) (hyoung : age order d < p.ttlSec) (htouched : touched order d = true)
      (hopen : p.opened (p.breakerAt (cs ++ c :: mid) d) (p.balanceAfter (cs ++ c :: mid)) order order.px d.ts = some q) :
      Opened (cs ++ c :: mid ++ [d]) q

variable {p}

theorem signal_swept {erl : HtfErl} {topen : Trueopen.TrueOpenTracker} {c : FileCandle} {order : Pend}
    (h : p.signal erl topen c = some order) : p.Swept erl topen c order := by
  unfold signal at h
  rcases Option.or_eq_some_iff.mp h with hlong | ⟨-, hshort⟩
  · unfold longSignal at hlong
    split at hlong
    · cases hlong
    · next level hlevel =>
      split at hlong
      · next hsignal =>
        cases hlong
        refine .low level hlevel hsignal.1 hsignal.2.1 fun hbias => ?_
        simpa [hbias] using hsignal.2.2
      · cases hlong
  · unfold shortSignal at hshort
    split at hshort
    · cases hshort
    · next level hlevel =>
      split at hshort
      · next hsignal =>
        cases hshort
        refine .high level hlevel hsignal.1 hsignal.2.1 fun hbias => ?_
        simpa [hbias] using hsignal.2.2
      · cases hshort

/-- What `opened` says of the position: the order it comes from, and its size. -/
structure Sized (p : SweepParams) (breaker : DailyLossBreaker) (bal : ℚ) (order : Pend) (px : ℚ) (ts : Int) (q : Pos) : Prop where
  side : q.side = order.side
  entry : q.entry = p.fillPrice order.side px
  sl : q.sl = order.sl
  openTs : q.openTs = ts
  reason : q.reason = order.reason
  fresh : q.Fresh p.rr
  vol : q.vol = computeLot bal p.riskPct q.entry q.sl p.valuePerMove p.volMin p.volStep p.volMax (some (remaining breaker))

theorem opened_sized {breaker : DailyLossBreaker} {bal : ℚ} {order : Pend} {px : ℚ} {ts : Int} {q : Pos}
    (h : p.opened breaker bal order px ts = some q) : p.Sized breaker bal order px ts q := by
  unfold opened at h
  dsimp only at h
  split at h
  · next hrisk =>
    split at h
    · next hlot =>
      cases h
      refine ⟨rfl, rfl, rfl, rfl, rfl, ⟨hrisk, ?_, ?_, hlot, rfl, rfl⟩, rfl⟩
      · unfold riskOf
        cases order.side <;> simp only [Direction.sign] <;> ring
      · unfold targetOf
        cases order.side <;> simp only [Direction.sign] <;> ring
    · cases h
  · cases h

theorem Opened.sized {cs : List FileCandle} {q : Pos} (h : p.Opened cs q) :
    ∃ before c order px, cs = before ++ [c] ∧
      p.Sized (p.breakerAt before c) (p.balanceAfter before) order px c.ts q := by
  cases h with
  | @market before c order _ _ _ _ hopen => exact ⟨before, c, order, _, rfl, opened_sized hopen⟩
  | @limit before mid c d order _ _ _ _ _ _ _ hopen => exact ⟨before ++ c :: mid, d, order, _, rfl, opened_sized hopen⟩

theorem Opened.fresh {cs : List FileCandle} {q : Pos} (h : p.Opened cs q) : q.Fresh p.rr := by
  obtain ⟨before, c, order, px, -, hsized⟩ := h.sized
  exact hsized.fresh

/-! ### One iteration -/

theorem after_concat (cs : List FileCandle) (c : FileCandle) : p.after (cs ++ [c]) = p.step (p.after cs) c :=
  run_append ..

@[simp] theorem step_erl (s : SweepRun) (c : FileCandle) : (p.step s c).erl = s.erl.see c.ts c.high c.low := by
  unfold step
  dsimp only
  split <;> rfl

@[simp] theorem step_topen (s : SweepRun) (c : FileCandle) :
    (p.step s c).topen = Trueopen.update p.toNy s.topen ⟨c.ts, c.open'⟩ := by
  unfold step
  dsimp only
  split <;> rfl

@[simp] theorem step_breaker (s : SweepRun) (c : FileCandle) :
    (p.step s c).breaker = s.breaker.update (date c.ts) (p.startBalance + s.sim.equity) := by
  unfold step
  dsimp only
  split <;> rfl

/-- The order rests since one of these bars. -/
def Resting (p : SweepParams) (cs : List FileCandle) (order : Pend) : Prop :=
  p.entryMode = .limit ∧ ∃ before c since, cs = before ++ c :: since ∧ p.Signalled before c order

/-- What an iteration does to the position and the orders after its exits. -/
inductive Turn (p : SweepParams) (cs : List FileCandle) (c : FileCandle) (sim : SweepSim) (pend : Option Pend) (sim' : SweepSim) :
    Option Pend → Prop
  | halts (hhalt : (p.breakerAt cs c).halted = true) (hsim : sim' = sim.flatten c) : Turn p cs c sim pend sim' none
  | keeps (hhalt : (p.breakerAt cs c).halted = false) (hsim : sim' = sim) : Turn p cs c sim pend sim' pend
  | drops (hhalt : (p.breakerAt cs c).halted = false) (hsim : sim' = sim) : Turn p cs c sim pend sim' none
  | rests (hhalt : (p.breakerAt cs c).halted = false) (hsim : sim' = sim) (hmode : p.entryMode = .limit)
      (hflat : sim.pos = none) (order : Pend) (hsignal : p.Signalled cs c order) : Turn p cs c sim pend sim' (some order)
  | opens (hhalt : (p.breakerAt cs c).halted = false) (hflat : sim.pos = none) (q : Pos)
      (hsim : sim' = { sim with pos := some q }) (hopened : p.Opened (cs ++ [c]) q) : Turn p cs c sim pend sim' none

theorem setPos_none {sim : SweepSim} (h : sim.pos = none) : { sim with pos := none } = sim := by
  cases sim
  simp_all

theorem fillLimit_turn {cs : List FileCandle} {c : FileCandle} {order : Pend} (hrest : p.Resting cs order)
    (hhalt : (p.breakerAt cs c).halted = false) (sim : SweepSim) :
    p.Turn cs c sim (some order) (p.fillLimit (p.breakerAt cs c) (p.balanceAfter cs) sim order c).1
      (p.fillLimit (p.breakerAt cs c) (p.balanceAfter cs) sim order c).2 := by
  unfold fillLimit
  split
  · exact .drops hhalt rfl
  · next hyoung =>
    split
    · next hready =>
      split
      · next htouched =>
        cases hopen : p.opened (p.breakerAt cs c) (p.balanceAfter cs) order order.px c.ts with
        | none => exact .drops hhalt (setPos_none hready.2)
        | some q =>
          obtain ⟨hmode, before, d, since, rfl, hsignal⟩ := hrest
          refine .opens hhalt hready.2 q rfl (.limit hmode hsignal hhalt ?_ (not_le.mp hyoung) htouched hopen)
          have hage : (0 : ℚ) < (c.ts - order.placedTs : Int) := by
            have := hready.1
            unfold age at this
            linarith
          have hage' : 0 < c.ts - order.placedTs := by exact_mod_cast hage
          omega
      · exact .keeps hhalt rfl
    · exact .keeps hhalt rfl

theorem place_turn {cs : List FileCandle} {c : FileCandle} {order : Pend} (hsignal : p.Signalled cs c order)
    (hhalt : (p.breakerAt cs c).halted = false) {sim : SweepSim} (hflat : sim.pos = none) (pend : Option Pend) :
    p.Turn cs c sim pend (p.place (p.breakerAt cs c) (p.balanceAfter cs) sim order c).1
      (p.place (p.breakerAt cs c) (p.balanceAfter cs) sim order c).2 := by
  unfold place
  split
  · next hmode =>
    cases hopen : p.opened (p.breakerAt cs c) (p.balanceAfter cs) order c.close c.ts with
    | none => exact .drops hhalt (setPos_none hflat)
    | some q => exact .opens hhalt hflat q rfl (.market hmode hsignal hhalt hopen)
  · next hmode => exact .rests hhalt rfl hmode hflat order hsignal

/-- **One iteration**, after the exits of its bar. -/
theorem step_turn {cs : List FileCandle} (hpend : ∀ order ∈ (p.after cs).pend, p.Resting cs order) (c : FileCandle) :
    p.Turn cs c ((p.after cs).sim.manageExits c) (p.after cs).pend (p.after (cs ++ [c])).sim
      (p.after (cs ++ [c])).pend := by
  have hsignal (order : Pend) (h : p.signal ((p.after cs).erl.see c.ts c.high c.low)
      (Trueopen.update p.toNy (p.after cs).topen ⟨c.ts, c.open'⟩) c = some order) : p.Signalled cs c order := by
    unfold Signalled
    rw [after_concat, step_erl, step_topen]
    exact signal_swept h
  rw [after_concat]
  generalize hs : p.after cs = s at *
  have hbreaker : s.breaker.update (date c.ts) (p.startBalance + s.sim.equity) = p.breakerAt cs c := by
    rw [breakerAt, balanceAfter, hs]
  have hbal : p.startBalance + s.sim.equity = p.balanceAfter cs := by rw [balanceAfter, hs]
  unfold step
  dsimp only
  rw [hbreaker, hbal]
  generalize p.signal (s.erl.see c.ts c.high c.low) _ c = found at *
  split
  · next hhalt => exact .halts hhalt rfl
  · next hhalt =>
    have hhalt' : (p.breakerAt cs c).halted = false := by simpa using hhalt
    cases hrest : s.pend with
    | none =>
      simp only
      cases hpos : (s.sim.manageExits c).pos with
      | some q => exact .keeps hhalt' rfl
      | none =>
        cases found with
        | none => exact .keeps hhalt' rfl
        | some order => exact place_turn (hsignal order rfl) hhalt' hpos _
    | some order =>
      simp only
      have hturn := fillLimit_turn (hpend order hrest) hhalt' (s.sim.manageExits c)
      generalize p.fillLimit (p.breakerAt cs c) (p.balanceAfter cs) (s.sim.manageExits c) order c = filled at *
      obtain ⟨sim, pend⟩ := filled
      dsimp only at *
      cases hturn with
      | halts hhalt'' => rw [hhalt'] at hhalt''; cases hhalt''
      | keeps _ hsim =>
        cases hpos : sim.pos <;> exact .keeps hhalt' hsim
      | drops _ hsim =>
        subst hsim
        cases hpos : (s.sim.manageExits c).pos with
        | some q => exact .drops hhalt' rfl
        | none =>
          cases found with
          | none => exact .drops hhalt' rfl
          | some order' => exact place_turn (hsignal order' rfl) hhalt' hpos _
      | rests _ hsim hmode hflat order' hsignal' =>
        cases hpos : sim.pos <;> exact .rests hhalt' hsim hmode hflat order' hsignal'
      | opens _ hflat q hsim hopened =>
        subst hsim
        exact .opens hhalt' hflat q rfl hopened

/-! ### What is behind a trade -/

/-- The costs are no gain, and the target is not behind the entry. -/
structure Fair (p : SweepParams) : Prop where
  spread : 0 ≤ p.spread
  comm : 0 ≤ p.comm
  value : 0 ≤ p.valuePerMove
  rr : 0 ≤ p.rr

/-- After the candles the position is `q`, of which a part may be closed. -/
def Holds (p : SweepParams) (cs : List FileCandle) (q : Pos) : Prop :=
  ∃ r, (p.after cs).sim.pos = some r ∧ r = { q with vol := r.vol, pnl := r.pnl, partialed := r.partialed }

/-- The position is opened on the last of the candles `before`, held through `during`, and closed as `t` on `exit`. -/
structure Traded (p : SweepParams) (before during : List FileCandle) (exit : FileCandle) (q : Pos) (t : Trade) :
    Prop where
  opened : p.Opened before q
  held : ∀ mid, mid <+: during → p.Holds (before ++ mid) q
  closed : (p.after (before ++ during ++ [exit])).sim.closed = (p.after (before ++ during)).sim.closed ++ [t]
  same : t = { q.trade exit.ts with pnl := t.pnl }

/-- What is behind the position and the trades after the candles `cs`. -/
structure Books (p : SweepParams) (honest : Prop) (cs : List FileCandle) (sim : SweepSim) : Prop where
  costs : Costs (p.spread / 2) p.comm p.valuePerMove sim
  held : ∀ q ∈ sim.pos, ∃ before since q₀, cs = before ++ since ∧ p.Opened before q₀ ∧
    (∀ mid, mid <+: since → mid ≠ since → p.Holds (before ++ mid) q₀) ∧
    Held honest (p.spread / 2) p.comm p.valuePerMove q₀ q
  ended : ∀ t ∈ sim.closed, ∃ before during c after q₀, cs = before ++ during ++ c :: after ∧
    p.Traded before during c q₀ t ∧ Ended honest (p.spread / 2) p.comm p.valuePerMove q₀ c.ts t

variable {honest : Prop} {cs : List FileCandle} {sim sim' : SweepSim} {c : FileCandle}

theorem Fair.unit (h : p.Fair) {q : Pos} (hfresh : q.Fresh p.rr) : 0 ≤ q.unit (p.spread / 2) p.comm p.valuePerMove := by
  have hrisk := hfresh.risk
  have hspread := h.spread
  exact add_nonneg (mul_nonneg (by linarith) h.value) h.comm

theorem Books.ended_append (h : p.Books honest cs sim) (c : FileCandle) : ∀ t ∈ sim.closed,
    ∃ before during d after q₀, cs ++ [c] = before ++ during ++ d :: after ∧
      p.Traded before during d q₀ t ∧ Ended honest (p.spread / 2) p.comm p.valuePerMove q₀ d.ts t := by
  intro t ht
  obtain ⟨before, during, d, after, q₀, rfl, htraded, hended⟩ := h.ended t ht
  exact ⟨before, during, d, after ++ [c], q₀, by simp, htraded, hended⟩

theorem Books.exits (h : p.Books honest cs (p.after cs).sim) (hcosts : Costs (p.spread / 2) p.comm p.valuePerMove sim')
    (hflat : (p.after cs).sim.pos = none → sim' = (p.after cs).sim)
    (hexit : ∀ q q₀, (p.after cs).sim.pos = some q → q₀.Fresh p.rr →
      Held honest (p.spread / 2) p.comm p.valuePerMove q₀ q →
        Outcome (p.after cs).sim (Held honest (p.spread / 2) p.comm p.valuePerMove q₀)
          (Ended honest (p.spread / 2) p.comm p.valuePerMove q₀ c.ts) sim')
    (hlog : (p.after (cs ++ [c])).sim.closed = sim'.closed) : p.Books honest (cs ++ [c]) sim' := by
  have hquiet := h.ended_append c
  cases hpos : (p.after cs).sim.pos with
  | none =>
    refine ⟨hcosts, fun q hq => ?_, ?_⟩
    · rw [hflat hpos, hpos] at hq
      cases hq
    · rw [hflat hpos]
      exact hquiet
  | some q =>
    obtain ⟨before, since, q₀, rfl, hopened, hpast, hheld⟩ := h.held q hpos
    have hthrough : ∀ mid, mid <+: since → p.Holds (before ++ mid) q₀ := by
      intro mid hmid
      by_cases hlast : mid = since
      · subst hlast
        exact ⟨q, hpos, hheld.same⟩
      · exact hpast mid hmid hlast
    cases hexit q q₀ hpos hopened.fresh hheld with
    | held q' hpos' hclosed hheld' =>
      refine ⟨hcosts, fun r hr => ?_, fun t ht => ?_⟩
      · cases hpos'.symm.trans hr
        refine ⟨before, since ++ [c], q₀, by simp, hopened, fun mid hmid hne => hthrough mid ?_, hheld'⟩
        exact (List.prefix_concat_iff.mp hmid).resolve_left hne
      · rw [hclosed] at ht
        exact hquiet t ht
    | ended t hpos' hclosed hended =>
      refine ⟨hcosts, fun r hr => ?_, fun t' ht' => ?_⟩
      · cases hpos'.symm.trans hr
      · rw [hclosed] at ht'
        rcases List.mem_append.mp ht' with hold | hnew
        · exact hquiet t' hold
        · obtain rfl := List.mem_singleton.mp hnew
          exact ⟨before, since, c, [], q₀, rfl, ⟨hopened, hthrough, hlog.trans hclosed, hended.same⟩, hended⟩

theorem Books.opens (h : p.Books honest cs sim) (hfair : honest → p.Fair) {q : Pos} (hopened : p.Opened cs q) :
    p.Books honest cs { sim with pos := some q } := by
  refine ⟨⟨h.costs.half, h.costs.comm, h.costs.vpm⟩, fun r hr => ?_, h.ended⟩
  cases hr
  refine ⟨cs, [], q, by simp, hopened, fun mid hmid hne => (hne (List.prefix_nil.mp hmid)).elim, rfl, fun _ => rfl,
    hopened.fresh.vol.le, fun hhonest => ?_⟩
  rw [hopened.fresh.pnl, add_sub_cancel_left, neg_zero]
  exact mul_nonneg ((hfair hhonest).unit hopened.fresh) dust_pos.le

/-- The books, and the order that rests. -/
structure Ledger (p : SweepParams) (honest : Prop) (cs : List FileCandle) : Prop where
  books : p.Books honest cs (p.after cs).sim
  pending : ∀ order ∈ (p.after cs).pend, p.Resting cs order
  one : (p.after cs).sim.pos = none ∨ (p.after cs).pend = none

theorem Resting.append {order : Pend} (h : p.Resting cs order) (c : FileCandle) : p.Resting (cs ++ [c]) order := by
  obtain ⟨hmode, before, d, since, rfl, hsignal⟩ := h
  exact ⟨hmode, before, d, since ++ [c], by simp, hsignal⟩

theorem manageExits_flat (hpos : sim.pos = none) (c : FileCandle) : sim.manageExits c = sim := by
  unfold manageExits
  rw [hpos]

theorem flatten_flat (hpos : sim.pos = none) (c : FileCandle) : sim.flatten c = sim := by
  unfold flatten
  rw [hpos]

theorem Ledger.step (h : p.Ledger honest cs) (hfair : honest → p.Fair) (hbar : honest → IsBar c) :
    p.Ledger honest (cs ++ [c]) := by
  have hturn := step_turn h.pending c
  have hcosts := h.books.costs.manageExits c
  have hmanaged (q q₀ : Pos) (hpos : (p.after cs).sim.pos = some q) (hfresh : q₀.Fresh p.rr)
      (hheld : Held honest (p.spread / 2) p.comm p.valuePerMove q₀ q) :=
    hheld.manageExits hfresh (fun hhonest => (hfair hhonest).unit hfresh) (fun hhonest => (hfair hhonest).value)
      h.books.costs (fun hhonest => (hfair hhonest).rr) hpos c
  have hexits : (p.after (cs ++ [c])).sim.closed = ((p.after cs).sim.manageExits c).closed →
      p.Books honest (cs ++ [c]) ((p.after cs).sim.manageExits c) :=
    h.books.exits hcosts (fun hflat => manageExits_flat hflat c) fun q q₀ hpos hfresh hheld =>
      (hmanaged q q₀ hpos hfresh hheld).mono fun _ hq => hq.1
  -- an order rests only while no position is held, and then the exits do nothing
  have hone : ((p.after cs).sim.manageExits c).pos = none ∨ (p.after cs).pend = none := by
    refine h.one.imp_left fun hflat => ?_
    rw [manageExits_flat hflat, hflat]
  have hflattened : (p.after (cs ++ [c])).sim.closed = (((p.after cs).sim.manageExits c).flatten c).closed →
      p.Books honest (cs ++ [c]) (((p.after cs).sim.manageExits c).flatten c) := by
    refine h.books.exits (hcosts.flatten c) (fun hflat => ?_) fun q q₀ hpos hfresh hheld => ?_
    · rw [manageExits_flat hflat, flatten_flat hflat]
    · refine (hmanaged q q₀ hpos hfresh hheld).trans (fun q' hpos' hq' => ?_) fun hflat => flatten_flat hflat c
      exact (hq'.1.flatten hfresh (fun hhonest => (hfair hhonest).value) hcosts hpos' hbar hq'.2).mono fun _ hnone => hnone.elim
  obtain ⟨hbooks, hpending, hboth⟩ : p.Books honest (cs ++ [c]) (p.after (cs ++ [c])).sim ∧
      (∀ order ∈ (p.after (cs ++ [c])).pend, p.Resting (cs ++ [c]) order) ∧
      ((p.after (cs ++ [c])).sim.pos = none ∨ (p.after (cs ++ [c])).pend = none) := by
    revert hturn
    generalize hafter : (p.after (cs ++ [c])).sim = sim' at hexits hflattened
    generalize (p.after (cs ++ [c])).pend = pend'
    intro hturn
    cases hturn with
    | halts hhalt hsim =>
      subst hsim
      exact ⟨hflattened rfl, by simp, Or.inr rfl⟩
    | keeps hhalt hsim =>
      subst hsim
      exact ⟨hexits rfl, fun order horder => (h.pending order horder).append c, hone⟩
    | drops hhalt hsim =>
      subst hsim
      exact ⟨hexits rfl, by simp, Or.inr rfl⟩
    | rests hhalt hsim hmode hflat order hsignal =>
      subst hsim
      refine ⟨hexits rfl, fun order' horder' => ?_, Or.inl hflat⟩
      cases horder'
      exact ⟨hmode, cs, c, [], rfl, hsignal⟩
    | opens hhalt hflat q hsim hopened =>
      subst hsim
      exact ⟨(hexits rfl).opens hfair hopened, by simp, Or.inr rfl⟩
  exact ⟨hbooks, hpending, hboth⟩

theorem ledger_nil (honest : Prop) : p.Ledger honest [] :=
  ⟨⟨⟨rfl, rfl, rfl⟩, by simp [after, start, create], by simp [after, start, create]⟩, by simp [after, start], Or.inl rfl⟩

theorem ledger (honest : Prop) (hfair : honest → p.Fair) (cs : List FileCandle) (hbars : honest → ∀ c ∈ cs, IsBar c) :
    p.Ledger honest cs := by
  induction cs using List.reverseRecOn with
  | nil => exact ledger_nil honest
  | append_singleton cs c ih =>
    refine (ih fun hhonest d hd => hbars hhonest d (List.mem_append_left _ hd)).step hfair fun hhonest => ?_
    exact hbars hhonest c (by simp)

/-- **Every trade of the backtest comes from a bar that swept a level**: it was opened at the close of that bar, or at
the level on a later one, and held up to a bar after that, on which it was closed. -/
theorem trades_signalled (p : SweepParams) (cs : List FileCandle) :
    ∀ t ∈ runSweep p cs, ∃ before during exit after q, cs = before ++ during ++ exit :: after ∧
      p.Traded before during exit q t := by
  intro t ht
  obtain ⟨before, during, exit, after, q, hcs, htraded, -⟩ :=
    (ledger (p := p) False (fun h => h.elim) cs fun h => h.elim).books.ended t ht
  exact ⟨before, during, exit, after, q, hcs, htraded⟩

/-- One-minute levels, entries at the close, and a day that may lose a tenth of a percent. -/
def minuteSweep : SweepParams where
  htfMin := 1
  htf_pos := by decide
  rr := 2
  entryMode := .market
  useBias := false
  spread := 1
  comm := 7
  riskPct := 1
  startBalance := 1000
  maxDailyLossPct := 1 / 10
  pct_pos := by norm_num
  stopBuf := 1 / 2
  ttlSec := 1800
  valuePerMove := 100
  volMin := 1 / 10000
  volStep := 1 / 10000
  volMax := 50
  usePartial := false
  toNy u := u - 240 * minuteMicros

def sweepBar (minute : Int) (low high close : ℚ) : FileCandle :=
  { ts := minute * minuteMicros, open' := close, high, low, close, volume := 1 }

/-- The second bar takes the low of the first and closes back above it; the third reaches the stop. -/
def stoppedOut : List FileCandle := [sweepBar 0 2000 2010 2005, sweepBar 1 1999 2006 2002, sweepBar 2 1990 2003 1995]

theorem trades_signalled_stoppedOut :
    ∃ t ∈ runSweep minuteSweep stoppedOut, ∃ before during exit after q,
      stoppedOut = before ++ during ++ exit :: after ∧ minuteSweep.Traded before during exit q t := by
  have htrades : (runSweep minuteSweep stoppedOut).length = 1 := by decide +kernel
  obtain ⟨t, ht⟩ := List.exists_mem_of_length_pos (by omega : 0 < (runSweep minuteSweep stoppedOut).length)
  exact ⟨t, ht, trades_signalled minuteSweep stoppedOut t ht⟩

/-- The risk a position is opened with: the lot pays at the stop no more than the share of the balance, and no more than
the day may still lose, up to the step of the volume. -/
def WithinBudget (p : SweepParams) (breaker : DailyLossBreaker) (bal : ℚ) (q : Pos) : Prop :=
  q.vol * (q.risk0 * p.valuePerMove) ≤
    min (bal * (p.riskPct / 100)) (remaining breaker) + lotTolerance p.volStep * (q.risk0 * p.valuePerMove)

theorem Sized.withinBudget {breaker : DailyLossBreaker} {bal : ℚ} {order : Pend} {px : ℚ} {ts : Int} {q : Pos}
    (h : p.Sized breaker bal order px ts q) : p.WithinBudget breaker bal q := by
  have hpos := h.fresh.vol
  rw [h.vol] at hpos
  obtain ⟨-, hrisk, hcap⟩ := computeLot_affordable hpos
  rw [← h.vol] at hrisk hcap
  rw [h.fresh.abs_risk] at hrisk hcap
  have hday := hcap _ rfl
  unfold WithinBudget
  rcases min_choice (bal * (p.riskPct / 100)) (remaining breaker) with hmin | hmin <;> rw [hmin] <;> assumption

/-- **No trade loses more than the risk it was sized for, and its costs.** The stop is checked first on every bar, and a
position that is flattened has not reached its own. -/
theorem trades_within_budget (p : SweepParams) (hfair : p.Fair) (cs : List FileCandle) (hbars : ∀ c ∈ cs, IsBar c) :
    ∀ t ∈ runSweep p cs, ∃ before c during exit after q, cs = before ++ [c] ++ during ++ exit :: after ∧
      p.Traded (before ++ [c]) during exit q t ∧
      p.WithinBudget (p.breakerAt before c) (p.balanceAfter before) q ∧
      -t.pnl ≤ ((q.risk0 + p.spread / 2) * p.valuePerMove + p.comm) * (q.vol + dust) := by
  intro t ht
  obtain ⟨before, during, exit, after, q, rfl, htraded, hended⟩ :=
    (ledger (p := p) True (fun _ => hfair) cs fun _ => hbars).books.ended t ht
  obtain ⟨first, c, order, px, rfl, hsized⟩ := htraded.opened.sized
  exact ⟨first, c, during, exit, after, q, rfl, htraded, hsized.withinBudget, hended.bound trivial⟩

theorem minuteSweep_fair : minuteSweep.Fair := by constructor <;> norm_num [minuteSweep]

theorem stoppedOut_bars : ∀ c ∈ stoppedOut, IsBar c := by
  simp only [stoppedOut, sweepBar, IsBar, List.forall_mem_cons]
  norm_num

theorem trades_within_budget_stoppedOut :
    (runSweep minuteSweep stoppedOut).map (·.dir) = [.long] ∧
    ∀ t ∈ runSweep minuteSweep stoppedOut, ∃ before c during exit after q,
      stoppedOut = before ++ [c] ++ during ++ exit :: after ∧ minuteSweep.Traded (before ++ [c]) during exit q t ∧
      minuteSweep.WithinBudget (minuteSweep.breakerAt before c) (minuteSweep.balanceAfter before) q ∧
      -t.pnl ≤ ((q.risk0 + minuteSweep.spread / 2) * minuteSweep.valuePerMove + minuteSweep.comm) * (q.vol + dust) :=
  ⟨by decide +kernel, trades_within_budget minuteSweep minuteSweep_fair stoppedOut stoppedOut_bars⟩

/-! ### The halt of a day -/

/-- What the breaker is told at each candle of a run from this state: its day, and the balance before it. -/
def observationsFrom (p : SweepParams) : SweepRun → List FileCandle → List (Int × ℚ)
  | _, [] => []
  | s, c :: cs => (date c.ts, p.startBalance + s.sim.equity) :: observationsFrom p (p.step s c) cs

def observations (p : SweepParams) (cs : List FileCandle) : List (Int × ℚ) := p.observationsFrom p.start cs

theorem observations_concat (cs : List FileCandle) (c : FileCandle) :
    p.observations (cs ++ [c]) = p.observations cs ++ [(date c.ts, p.balanceAfter cs)] := by
  unfold observations balanceAfter after
  generalize p.start = s
  induction cs generalizing s with
  | nil => rfl
  | cons d cs ih => exact congrArg _ (ih _)

theorem observations_days (cs : List FileCandle) : (p.observations cs).map (·.1) = cs.map fun c => date c.ts := by
  unfold observations
  generalize p.start = s
  induction cs generalizing s with
  | nil => rfl
  | cons c cs ih => exact congrArg _ (ih _)

theorem after_breaker (cs : List FileCandle) : (p.after cs).breaker = DailyLossBreaker.fed p.cap (p.observations cs) := by
  induction cs using List.reverseRecOn with
  | nil => rfl
  | append_singleton cs c ih =>
    rw [after_concat, step_breaker, observations_concat, DailyLossBreaker.fed_concat, ih]
    rfl

theorem flatten_pos (sim : SweepSim) (c : FileCandle) : (sim.flatten c).pos = none := by
  unfold flatten
  split
  · next h => exact h
  · exact (close_all ..).1

theorem step_halted {s : SweepRun} (h : (p.step s c).breaker.halted = true) :
    (p.step s c).sim = (s.sim.manageExits c).flatten c ∧ (p.step s c).pend = none := by
  rw [step_breaker] at h
  unfold step
  dsimp only
  rw [if_pos h]
  exact ⟨rfl, rfl⟩

theorem halted_flat (h : (p.after cs).breaker.halted = true) : (p.after cs).sim.pos = none ∧ (p.after cs).pend = none := by
  rcases List.eq_nil_or_concat cs with rfl | ⟨cs, c, rfl⟩
  · cases h
  · rw [List.concat_eq_append, after_concat] at *
    obtain ⟨hsim, hpend⟩ := step_halted h
    rw [hsim]
    exact ⟨flatten_pos .., hpend⟩

theorem halted_stays (h : (p.after cs).breaker.halted = true) (more : List FileCandle)
    (hday : ∀ c ∈ more, cs.getLast?.map (fun d => date d.ts) = some (date c.ts)) :
    (p.after (cs ++ more)).breaker.halted = true ∧ (p.after (cs ++ more)).sim = (p.after cs).sim := by
  induction more using List.reverseRecOn with
  | nil => exact ⟨by rwa [List.append_nil], by rw [List.append_nil]⟩
  | append_singleton more c ih =>
    obtain ⟨hhalted, hsim⟩ := ih fun d hd => hday d (List.mem_append_left _ hd)
    have hlast : (p.observations (cs ++ more)).getLast?.map (·.1) = some (date c.ts) := by
      rw [← List.getLast?_map, observations_days, List.getLast?_map]
      rcases List.eq_nil_or_concat more with rfl | ⟨init, d, rfl⟩
      · rw [List.append_nil]
        exact hday c (by simp)
      · rw [List.concat_eq_append, ← List.append_assoc, List.getLast?_concat, Option.map_some, ← hday d (by simp),
          hday c (by simp)]
    have hstill : (p.after (cs ++ more ++ [c])).breaker.halted = true := by
      rw [after_breaker] at hhalted ⊢
      rw [observations_concat]
      exact DailyLossBreaker.fed_halted_same hlast hhalted
    rw [← List.append_assoc]
    refine ⟨hstill, ?_⟩
    rw [after_concat] at hstill ⊢
    have hflat := (halted_flat hhalted).1
    rw [(step_halted hstill).1, manageExits_flat hflat, flatten_flat hflat, hsim]

/-- **The day is halted exactly when its loss has reached the cap, and that is the end of its trading**: nothing is held,
nothing rests, and no trade is added for the rest of the day. -/
theorem halt_is_final (p : SweepParams) (cs : List FileCandle) (hdays : cs.Pairwise fun c d => date c.ts ≤ date d.ts) :
    ((p.after cs).breaker.halted = true ↔ LossReached p.cap (p.observations cs)) ∧
      (LossReached p.cap (p.observations cs) → ∀ more : List FileCandle,
        (∀ c ∈ more, cs.getLast?.map (fun d => date d.ts) = some (date c.ts)) →
          (p.after (cs ++ more)).sim.pos = none ∧ (p.after (cs ++ more)).pend = none ∧
            runSweep p (cs ++ more) = runSweep p cs) := by
  have hordered : Nondecreasing (p.observations cs) := by
    have hmap : ((p.observations cs).map (·.1)).Pairwise (· ≤ ·) := by
      rw [observations_days]
      exact List.pairwise_map.mpr hdays
    exact List.pairwise_map.mp hmap
  have hhalted : (p.after cs).breaker.halted = true ↔ LossReached p.cap (p.observations cs) := by
    rw [after_breaker]
    exact (DailyLossBreaker.fed_follows p.cap hordered).halted
  refine ⟨hhalted, fun hloss more hday => ?_⟩
  obtain ⟨hstill, hsim⟩ := halted_stays (hhalted.mpr hloss) more hday
  obtain ⟨hflat, hpend⟩ := halted_flat hstill
  exact ⟨hflat, hpend, congrArg SweepSim.closed hsim⟩

/-- The loss of the first trade is that of the day, seen at the fourth bar; a sweep on the fifth is not traded. -/
theorem halt_is_final_stoppedOut :
    let cs := stoppedOut ++ [sweepBar 3 1994 1998 1996]
    runSweep minuteSweep (cs ++ [sweepBar 4 1990 1999 1997]) = runSweep minuteSweep cs := by
  intro cs
  obtain ⟨hhalted, hfinal⟩ := halt_is_final minuteSweep cs (by decide)
  exact (hfinal (hhalted.mp (by decide +kernel)) [sweepBar 4 1990 1999 1997] (by decide)).2.2

end SweepParams

end FreqTrading
