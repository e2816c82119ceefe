import FreqTrading.Lib.Rounding
import FreqTrading.Lib.Run
import FreqTrading.Models

/-!
# The MT5 feed

`stream_candles` of `orb/feeds/mt5feed.py`. The terminal holds a history of bars that only grows; a poll fetches the
last few, the last of which is still forming, and yields those that are newer than the last one yielded. How many
bars open between two polls, whether a poll gets any rates, what the clock says and whether a reconnection succeeds
are inputs. The pauses between polls are in the inputs as well: any number of bars may open in one.
-/

namespace FreqTrading

namespace Mt5Feed

open Lib

/-- A row of `copy_rates_from_pos`. The time is the open time of the bar, in seconds of broker time. -/
structure Rate where
  time : Int
  open' : ℚ
  high : ℚ
  low : ℚ
  close : ℚ
  tickVolume : ℚ
  deriving DecidableEq, Repr

/-- The bars of the terminal, in the order in which they open. -/
structure History where
  rate : Nat → Rate
  ascending : ∀ i j, i < j → (rate i).time < (rate j).time

/-- The arguments of `stream_candles` that decide what is fetched and when it gives up. -/
structure Config where
  /-- `tz_offset_sec`; `none` is `"auto"`. -/
  tzOffset : Option Int := none
  warmupBars : Nat := 0
  maxReconnectAttempts : Option Nat := none
  /-- `stale_reconnect_sec` is not zero. -/
  staleArmed : Bool := false
  deriving DecidableEq, Repr

/-- What a poll meets. -/
structure Poll where
  /-- The bars that opened since the last poll. -/
  arrived : Nat
  /-- `copy_rates_from_pos` answers. -/
  answered : Bool := true
  /-- `now_fn()` where the offset is measured. -/
  now : ℚ := 0
  /-- The time that the replay of the warm-up took. -/
  elapsed : ℚ := 0
  /-- The clock says that the newest bar is stale while the market should be open. -/
  stale : Bool := false
  /-- A reconnection, if one is tried, succeeds. -/
  reconnects : Bool := true
  deriving DecidableEq, Repr

structure Feed where
  /-- The bars opened so far, the forming one included. -/
  visible : Nat := 0
  offset : Option Int
  lastEmitted : Option Int := none
  failStreak : Nat := 0
  pendingWarmup : Nat
  warmupCatchupDone : Bool := false
  reconnectFails : Nat := 0
  /-- `Mt5FeedError` was raised: the generator is at its end. -/
  raised : Bool := false
  yielded : List RawCandle := []
  /-- The bars opened at the first poll with rates, and at the last one. -/
  first : Option Nat := none
  seen : Nat := 0
  deriving DecidableEq

/-- `BAR_SECONDS`. -/
def barSeconds : ℚ := 60

/-- `RECONNECT_AFTER`. -/
def reconnectAfter : Nat := 3

variable (hist : History) (cfg : Config)

/-- The state before the first poll. -/
def start : Feed := { offset := cfg.tzOffset, pendingWarmup := cfg.warmupBars }

/-- `copy_rates_from_pos` from position 0: the last `count` bars, oldest first. -/
def copyRates (visible count : Nat) : List Rate := ((List.range visible).drop (visible - count)).map hist.rate

/-- The candle of a closed bar, in UTC. -/
def candleOf (offset : Int) (r : Rate) : RawCandle where
  ts := (r.time - offset) * 1000000
  tzAware := true
  open' := some r.open'
  high := some r.high
  low := some r.low
  close := some r.close
  volume := some r.tickVolume

/-- The number of bars of the next fetch. -/
def Feed.count (f : Feed) : Nat := if f.pendingWarmup ≠ 0 then f.pendingWarmup + 3 else 3

/-- A failed reconnection counts, and at the limit the feed raises. -/
def Feed.reconnect (f : Feed) (ok : Bool) : Feed :=
  if ok then { f with reconnectFails := 0 }
  else
    let fails := f.reconnectFails + 1
    { f with reconnectFails := fails, raised := cfg.maxReconnectAttempts.any (· ≤ fails) }

/-- A poll without rates. -/
def Feed.noRates (f : Feed) (p : Poll) : Feed :=
  let f := { f with failStreak := f.failStreak + 1 }
  if reconnectAfter ≤ f.failStreak then
    { f.reconnect cfg p.reconnects with failStreak := if p.reconnects then 0 else f.failStreak }
  else f

/-- The offset, measured on the forming bar if it is unknown; a stale bar gives none. -/
def Feed.lockOffset (f : Feed) (forming : Int) (now : ℚ) : Option Int :=
  match f.offset with
  | some offset => some offset
  | none =>
    if 15 * 3600 < |(forming : ℚ) - now| then none else some (roundEven (((forming : ℚ) - now) / 3600) * 3600)

/-- Yield a closed bar unless one as new was yielded. -/
def Feed.emit (offset : Int) (f : Feed) (r : Rate) : Feed :=
  if f.lastEmitted.any fun last => decide (r.time ≤ last) then f
  else { f with lastEmitted := some r.time, yielded := f.yielded ++ [candleOf offset r] }

/-- The replay of the warm-up is over; if it was slow the next fetch is larger once. -/
def Feed.warmed (f : Feed) (p : Poll) : Feed :=
  if f.pendingWarmup = 0 then f
  else
    let catchUp := !f.warmupCatchupDone && decide (barSeconds ≤ p.elapsed)
    { f with
      pendingWarmup := if catchUp then ⌊p.elapsed / barSeconds⌋.toNat + 1 else 0
      warmupCatchupDone := true }

/-- The staleness watchdog. -/
def Feed.watchdog (f : Feed) (p : Poll) : Feed :=
  if cfg.staleArmed ∧ f.lastEmitted.isSome ∧ p.stale then f.reconnect cfg p.reconnects else f

/-- The poll gets rates. -/
def Feed.succeeds (f : Feed) (p : Poll) : Prop :=
  p.answered = true ∧ 2 ≤ (copyRates hist (f.visible + p.arrived) f.count).length

instance (f : Feed) (p : Poll) : Decidable (f.succeeds hist p) := inferInstanceAs (Decidable (_ ∧ _))

/-- One turn of the loop. -/
def Feed.poll (f : Feed) (p : Poll) : Feed :=
  if f.raised then f
  else
    let visible := f.visible + p.arrived
    let rates := copyRates hist visible f.count
    if f.succeeds hist p then
      let g := { f with visible := visible, failStreak := 0, first := f.first.or (some visible), seen := visible }
      match f.lockOffset (hist.rate (visible - 1)).time p.now with
      | none => g
      | some offset =>
        (((rates.dropLast.foldl (Feed.emit offset) { g with offset := some offset }).warmed p).watchdog cfg p)
    else { f with visible := visible }.noRates cfg p

/-- After a poll with rates: every bar that closed since the first such poll was yielded. -/
def Feed.Complete (f : Feed) : Prop :=
  ∀ first, f.first = some first → ∀ i, first ≤ i + 1 → i + 1 < f.seen →
    ∃ offset, f.offset = some offset ∧ candleOf offset (hist.rate i) ∈ f.yielded

/-- The bars that closed since the last poll with rates fit into the fetch; while the market is taken for closed,
none has closed. -/
def Feed.Covered (f : Feed) (p : Poll) : Prop :=
  f.raised = false → f.succeeds hist p → f.first.isSome = true →
    if f.lockOffset (hist.rate (f.visible + p.arrived - 1)).time p.now = none then
      f.visible + p.arrived = f.seen
    else f.visible + p.arrived - f.seen ≤ f.count - 1

instance (f : Feed) (p : Poll) : Decidable (f.Covered hist p) :=
  inferInstanceAs (Decidable (_ = _ → _ → _ = _ → ite _ _ _))

/-! ### What a fetch yields -/

variable {hist : History} {cfg : Config} {f : Feed} {p : Poll}

/-- The bar is newer than the last one yielded. -/
def Feed.Newer (hist : History) (f : Feed) (j : Nat) : Prop :=
  ∀ last, f.lastEmitted = some last → last < (hist.rate j).time

theorem emit_newer {offset : Int} {j : Nat} (h : f.Newer hist j) :
    f.emit offset (hist.rate j) =
      { f with lastEmitted := some (hist.rate j).time, yielded := f.yielded ++ [candleOf offset (hist.rate j)] } := by
  unfold Feed.emit
  rw [if_neg]
  intro hany
  obtain ⟨last, hlast, hle⟩ := (Option.any_eq_true _ _).mp hany
  exact absurd (of_decide_eq_true hle) (not_le.mpr (h last hlast))

theorem emit_old {offset : Int} {j : Nat} (h : ¬f.Newer hist j) : f.emit offset (hist.rate j) = f := by
  unfold Feed.emit
  rw [if_pos]
  unfold Feed.Newer at h
  push Not at h
  obtain ⟨last, hlast, hle⟩ := h
  exact (Option.any_eq_true _ _).mpr ⟨last, hlast, decide_eq_true hle⟩

theorem copyRates_dropLast (visible count : Nat) :
    (copyRates hist visible count).dropLast =
      (List.range' (visible - count) (visible - 1 - (visible - count))).map hist.rate := by
  unfold copyRates
  rw [← List.map_dropLast, List.range_eq_range', List.drop_range', Nat.mul_one, Nat.zero_add]
  congr 1
  cases hk : visible - (visible - count) with
  | zero => rw [show visible - 1 - (visible - count) = 0 by omega]; rfl
  | succ k => rw [List.range'_1_concat, List.dropLast_concat, show visible - 1 - (visible - count) = k by omega]

theorem copyRates_length (visible count : Nat) :
    (copyRates hist visible count).length = visible - (visible - count) := by
  simp [copyRates]

/-- The bars from `b` on are newer than the last one yielded, those before are not. -/
def Feed.From (hist : History) (f : Feed) (b : Nat) : Prop := ∀ j, f.Newer hist j ↔ b ≤ j

theorem from_none (h : f.lastEmitted = none) : f.From hist 0 := by
  intro j
  simp [Feed.Newer, h]

theorem from_some {m : Nat} (h : f.lastEmitted = some (hist.rate m).time) : f.From hist (m + 1) := by
  intro j
  constructor
  · intro hnew
    by_contra hle
    rcases Nat.lt_or_eq_of_le (show j ≤ m by omega) with hlt | rfl
    · exact absurd (hnew _ h) (not_lt.mpr (hist.ascending j m hlt).le)
    · exact absurd (hnew _ h) (lt_irrefl _)
  · intro hle last hlast
    rw [h] at hlast
    cases hlast
    exact hist.ascending m j hle

theorem emit_all (offset : Int) {a : Nat} (hnew : ∀ j, a ≤ j → f.Newer hist j) (k : Nat) :
    ((List.range' a (k + 1)).map hist.rate).foldl (Feed.emit offset) f =
      { f with
        lastEmitted := some (hist.rate (a + k)).time
        yielded := f.yielded ++ (List.range' a (k + 1)).map fun j => candleOf offset (hist.rate j) } := by
  induction k with
  | zero => exact emit_newer (hnew a le_rfl)
  | succ k ih =>
    rw [List.range'_1_concat, List.map_append, List.foldl_append, ih, List.map_append, ← List.append_assoc]
    have hnext : ({ f with
        lastEmitted := some (hist.rate (a + k)).time
        yielded := f.yielded ++ (List.range' a (k + 1)).map fun j => candleOf offset (hist.rate j) } : Feed).Newer hist
          (a + (k + 1)) := by
      rintro last ⟨⟩
      exact hist.ascending _ _ (by omega)
    exact emit_newer hnext

theorem emit_none (offset : Int) {a k : Nat} (hold : ∀ j, a ≤ j → j < a + k → ¬f.Newer hist j) :
    ((List.range' a k).map hist.rate).foldl (Feed.emit offset) f = f := by
  induction k with
  | zero => rfl
  | succ k ih =>
    rw [List.range'_1_concat, List.map_append, List.foldl_append, ih fun j hle hlt => hold j hle (by omega)]
    exact emit_old (hold _ (by omega) (by omega))

/-- **What a fetch yields:** of the bars from `a` up to `n`, those from `b` on. -/
theorem emit_fetch (offset : Int) {a b n : Nat} (hfrom : f.From hist b) (ha : a < n) (hb : b ≤ n) :
    ((List.range' a (n - a)).map hist.rate).foldl (Feed.emit offset) f =
      { f with
        lastEmitted := if b = n then f.lastEmitted else some (hist.rate (n - 1)).time
        yielded := f.yielded ++
          (List.range' (max a b) (n - max a b)).map fun j => candleOf offset (hist.rate j) } := by
  have hsplit : List.range' a (n - a) = List.range' a (max a b - a) ++ List.range' (max a b) (n - max a b) := by
    have happend : List.range' a (max a b - a) ++ List.range' (a + (max a b - a)) (n - max a b) =
        List.range' a (max a b - a + (n - max a b)) := List.range'_append_1
    rw [show a + (max a b - a) = max a b by omega, show max a b - a + (n - max a b) = n - a by omega] at happend
    exact happend.symm
  have hold (j : Nat) (hle : a ≤ j) (hlt : j < a + (max a b - a)) : ¬f.Newer hist j := by
    rw [hfrom j]
    omega
  rw [hsplit, List.map_append, List.foldl_append, emit_none offset hold]
  by_cases hbn : b = n
  · rw [if_pos hbn, show n - max a b = 0 by omega]
    simp
  · obtain ⟨k, hk⟩ : ∃ k, n - max a b = k + 1 := ⟨n - max a b - 1, by omega⟩
    have hnew (j : Nat) (hle : max a b ≤ j) : f.Newer hist j := (hfrom j).mpr (by omega)
    rw [if_neg hbn, hk, emit_all offset hnew k, show max a b + k = n - 1 by omega]

/-! ### Polls -/

/-- Where the feed stands: nothing yielded yet, or everything yielded is from before the forming bar of the last
poll with rates, the newest included. -/
structure Kept (hist : History) (f : Feed) : Prop where
  seen_le : f.seen ≤ f.visible
  first_le : ∀ first, f.first = some first → 2 ≤ first ∧ first ≤ f.seen
  emitted : (f.lastEmitted = none ∧ f.yielded = []) ∨
    (2 ≤ f.seen ∧ f.lastEmitted = some (hist.rate (f.seen - 2)).time ∧ f.first.isSome = true ∧
      ∃ offset, f.offset = some offset ∧ ∀ y ∈ f.yielded, ∃ j, j + 1 < f.seen ∧ y = candleOf offset (hist.rate j))

theorem start_kept : Kept hist (start cfg) := by
  refine ⟨le_rfl, ?_, Or.inl ⟨rfl, rfl⟩⟩
  intro first h
  cases h

/-- The feeds agree in all that the bars decide. -/
structure SameYield (f g : Feed) : Prop where
  visible : g.visible = f.visible
  offset : g.offset = f.offset
  lastEmitted : g.lastEmitted = f.lastEmitted
  yielded : g.yielded = f.yielded
  first : g.first = f.first
  seen : g.seen = f.seen

theorem SameYield.trans {g h : Feed} (hfg : SameYield f g) (hgh : SameYield g h) : SameYield f h :=
  ⟨hgh.visible.trans hfg.visible, hgh.offset.trans hfg.offset, hgh.lastEmitted.trans hfg.lastEmitted,
    hgh.yielded.trans hfg.yielded, hgh.first.trans hfg.first, hgh.seen.trans hfg.seen⟩

theorem reconnect_same (cfg : Config) (f : Feed) (ok : Bool) : SameYield f (f.reconnect cfg ok) := by
  unfold Feed.reconnect
  split <;> exact ⟨rfl, rfl, rfl, rfl, rfl, rfl⟩

theorem watchdog_same : SameYield f (f.watchdog cfg p) := by
  unfold Feed.watchdog
  split
  · exact reconnect_same cfg f _
  · exact ⟨rfl, rfl, rfl, rfl, rfl, rfl⟩

theorem warmed_same : SameYield f (f.warmed p) := by
  unfold Feed.warmed
  split <;> exact ⟨rfl, rfl, rfl, rfl, rfl, rfl⟩

theorem noRates_same : SameYield f (f.noRates cfg p) := by
  obtain ⟨h1, h2, h3, h4, h5, h6⟩ :=
    reconnect_same cfg { f with failStreak := f.failStreak + 1 } p.reconnects
  simp only [Feed.noRates]
  split
  · exact ⟨h1, h2, h3, h4, h5, h6⟩
  · exact ⟨rfl, rfl, rfl, rfl, rfl, rfl⟩

/-- What a poll does, as far as bars are concerned. -/
inductive Polled (hist : History) (f : Feed) (p : Poll) (g : Feed) : Prop
  | done (hraised : f.raised = true) (hsame : g = f)
  | failed (hraised : f.raised = false) (hfails : ¬f.succeeds hist p)
      (hsame : SameYield { f with visible := f.visible + p.arrived } g)
  | deferred (hraised : f.raised = false) (hsucceeds : f.succeeds hist p)
      (hlock : f.lockOffset (hist.rate (f.visible + p.arrived - 1)).time p.now = none)
      (hsame : SameYield { f with
        visible := f.visible + p.arrived
        first := f.first.or (some (f.visible + p.arrived))
        seen := f.visible + p.arrived } g)
  | processed {offset : Int} (hraised : f.raised = false) (hsucceeds : f.succeeds hist p)
      (hlock : f.lockOffset (hist.rate (f.visible + p.arrived - 1)).time p.now = some offset)
      (hsame : SameYield ((copyRates hist (f.visible + p.arrived) f.count).dropLast.foldl (Feed.emit offset) { f with
        visible := f.visible + p.arrived
        failStreak := 0
        first := f.first.or (some (f.visible + p.arrived))
        seen := f.visible + p.arrived
        offset := some offset }) g)

theorem poll_cases (f : Feed) (p : Poll) : Polled hist f p (f.poll hist cfg p) := by
  by_cases hraised : f.raised = true
  · exact .done hraised (by rw [Feed.poll, if_pos hraised])
  · rw [Bool.not_eq_true] at hraised
    by_cases hsucceeds : f.succeeds hist p
    · cases hlock : f.lockOffset (hist.rate (f.visible + p.arrived - 1)).time p.now with
      | none =>
        refine .deferred hraised hsucceeds hlock ?_
        rw [Feed.poll, if_neg (by simp [hraised])]
        simp only [if_pos hsucceeds, hlock]
        exact ⟨rfl, rfl, rfl, rfl, rfl, rfl⟩
      | some offset =>
        refine .processed hraised hsucceeds hlock ?_
        rw [Feed.poll, if_neg (by simp [hraised])]
        simp only [if_pos hsucceeds, hlock]
        exact SameYield.trans warmed_same watchdog_same
    · refine .failed hraised hsucceeds ?_
      rw [Feed.poll, if_neg (by simp [hraised])]
      simp only [if_neg hsucceeds]
      exact noRates_same

/-- The bar with which a fetch goes on. -/
def Feed.base (f : Feed) : Nat := if f.lastEmitted = none then 0 else f.seen - 1

theorem lockOffset_known {offset offset' : Int} {forming : Int} {now : ℚ} (hknown : f.offset = some offset)
    (h : f.lockOffset forming now = some offset') : offset' = offset := by
  rw [Feed.lockOffset, hknown] at h
  exact (Option.some.inj h).symm

theorem Kept.fetch (h : Kept hist f) {g : Feed} {offset : Int} (hsucceeds : f.succeeds hist p)
    (hsame : SameYield ((copyRates hist (f.visible + p.arrived) f.count).dropLast.foldl (Feed.emit offset) { f with
        visible := f.visible + p.arrived
        failStreak := 0
        first := f.first.or (some (f.visible + p.arrived))
        seen := f.visible + p.arrived
        offset := some offset }) g) :
    let v := f.visible + p.arrived
    let from' := max (v - f.count) f.base
    2 ≤ v ∧ v - f.count + 2 ≤ v ∧ f.base ≤ v - 1 ∧ g.visible = v ∧ g.offset = some offset ∧
      g.lastEmitted = some (hist.rate (v - 2)).time ∧
      g.yielded = f.yielded ++ (List.range' from' (v - 1 - from')).map (fun j => candleOf offset (hist.rate j)) ∧
      g.first = f.first.or (some v) ∧ g.seen = v := by
  intro v from'
  have hlen := hsucceeds.2
  rw [copyRates_length] at hlen
  have hv : 2 ≤ v := by omega
  have hseen := h.seen_le
  have hbase : f.base ≤ v - 1 := by
    unfold Feed.base
    split <;> omega
  have hfrom : ({ f with
        visible := v
        failStreak := 0
        first := f.first.or (some v)
        seen := v
        offset := some offset } : Feed).From hist f.base := by
    unfold Feed.base
    rcases h.emitted with ⟨hnone, -⟩ | ⟨htwo, hsome, -⟩
    · rw [if_pos hnone]
      exact from_none hnone
    · rw [if_neg (by simp [hsome]), show f.seen - 1 = f.seen - 2 + 1 by omega]
      exact from_some hsome
  have hrun := emit_fetch offset hfrom (show v - f.count < v - 1 by omega) hbase
  rw [← copyRates_dropLast] at hrun
  rw [hrun] at hsame
  refine ⟨hv, by omega, hbase, hsame.visible, hsame.offset, ?_, hsame.yielded, hsame.first, hsame.seen⟩
  rw [hsame.lastEmitted]
  simp only
  split
  · next hall =>
    rcases h.emitted with ⟨hnone, -⟩ | ⟨htwo, hsome, -⟩
    · rw [Feed.base, if_pos hnone] at hall
      omega
    · rw [Feed.base, if_neg (by simp [hsome])] at hall
      rw [hsome, show f.seen - 2 = v - 2 by omega]
  · rw [show v - 1 - 1 = v - 2 by omega]

theorem first_or (h : Kept hist f) {v first : Nat} (htwo : 2 ≤ v) (hv : f.visible ≤ v)
    (hfirst : f.first.or (some v) = some first) : 2 ≤ first ∧ first ≤ v := by
  cases hf : f.first with
  | none =>
    rw [hf] at hfirst
    cases hfirst
    exact ⟨htwo, le_rfl⟩
  | some first' =>
    rw [hf] at hfirst
    cases hfirst
    exact ⟨(h.first_le _ hf).1, (h.first_le _ hf).2.trans (h.seen_le.trans hv)⟩

theorem two_le_of_succeeds (h : f.succeeds hist p) : 2 ≤ f.visible + p.arrived := by
  have hlen := h.2
  rw [copyRates_length] at hlen
  omega

theorem Kept.poll (h : Kept hist f) (p : Poll) : Kept hist (f.poll hist cfg p) := by
  have hseen := h.seen_le
  have hpolled : Polled hist f p (f.poll hist cfg p) := poll_cases f p
  rcases hpolled with
    ⟨-, hsame⟩ | ⟨-, -, hsame⟩ | ⟨-, hsucceeds, hlock, hsame⟩ | ⟨-, hsucceeds, hlock, hsame⟩
  · rwa [hsame]
  · refine ⟨?_, ?_, ?_⟩
    · rw [hsame.seen, hsame.visible]
      exact hseen.trans (Nat.le_add_right _ _)
    · rw [hsame.first, hsame.seen]
      exact h.first_le
    · rw [hsame.lastEmitted, hsame.yielded, hsame.seen, hsame.first, hsame.offset]
      exact h.emitted
  · -- the offset is unknown, so nothing was yielded
    refine ⟨?_, ?_, ?_⟩
    · rw [hsame.seen, hsame.visible]
    · rw [hsame.first, hsame.seen]
      exact fun first => first_or h (two_le_of_succeeds hsucceeds) (Nat.le_add_right _ _)
    · rw [hsame.lastEmitted, hsame.yielded]
      rcases h.emitted with hnone | ⟨-, -, -, offset, hoffset, -⟩
      · exact Or.inl hnone
      · rw [Feed.lockOffset, hoffset] at hlock
        cases hlock
  · obtain ⟨hv, hwindow, hbase, hvisible, hoffset, hlast, hyield, hfirst, hseen'⟩ := h.fetch hsucceeds hsame
    refine ⟨?_, ?_, Or.inr ⟨?_, ?_, ?_, _, hoffset, ?_⟩⟩
    · rw [hseen', hvisible]
    · rw [hfirst, hseen']
      exact fun first => first_or h (two_le_of_succeeds hsucceeds) (Nat.le_add_right _ _)
    · rwa [hseen']
    · rwa [hseen']
    · rw [hfirst]
      cases f.first <;> rfl
    · intro y hy
      rw [hyield] at hy
      rw [hseen']
      rcases List.mem_append.mp hy with hy | hy
      · rcases h.emitted with ⟨-, hnil⟩ | ⟨htwo, -, -, offset', hoffset', hall⟩
        · rw [hnil] at hy
          cases hy
        · obtain ⟨j, hj, rfl⟩ := hall y hy
          rw [lockOffset_known hoffset' hlock]
          exact ⟨j, by omega, rfl⟩
      · obtain ⟨j, hj, rfl⟩ := List.mem_map.mp hy
        rw [List.mem_range'_1] at hj
        exact ⟨j, by omega, rfl⟩

theorem candleOf_injective {offset : Int} {i j : Nat} (h : candleOf offset (hist.rate i) = candleOf offset (hist.rate j)) :
    i = j := by
  have hts : ((hist.rate i).time - offset) * 1000000 = ((hist.rate j).time - offset) * 1000000 :=
    congrArg RawCandle.ts h
  have htime : (hist.rate i).time = (hist.rate j).time := by omega
  rcases Nat.lt_trichotomy i j with hlt | heq | hgt
  · exact absurd htime (hist.ascending i j hlt).ne
  · exact heq
  · exact absurd htime (hist.ascending j i hgt).ne'

theorem first_known {v first i : Nat} (hfirst : f.first.or (some v) = some first) (hlow : first ≤ i + 1)
    (hhigh : i + 1 < v) : f.first = some first := by
  cases hf : f.first with
  | none =>
    rw [hf] at hfirst
    cases hfirst
    omega
  | some first' =>
    rw [hf] at hfirst
    exact hfirst

/-- A poll that is covered leaves no bar out. -/
theorem Kept.complete (h : Kept hist f) (hcomplete : f.Complete hist) (hcovered : f.Covered hist p) :
    (f.poll hist cfg p).Complete hist := by
  have hseen := h.seen_le
  have hpolled : Polled hist f p (f.poll hist cfg p) := poll_cases f p
  rcases hpolled with
    ⟨-, hsame⟩ | ⟨-, -, hsame⟩ | ⟨hraised, hsucceeds, hlock, hsame⟩ | ⟨hraised, hsucceeds, hlock, hsame⟩
  · rwa [hsame]
  · intro first hfirst i hlow hhigh
    rw [hsame.first] at hfirst
    rw [hsame.seen] at hhigh
    rw [hsame.offset, hsame.yielded]
    exact hcomplete first hfirst i hlow hhigh
  · intro first hfirst i hlow hhigh
    rw [hsame.first] at hfirst
    rw [hsame.seen] at hhigh
    rw [hsame.offset, hsame.yielded]
    have hf := first_known hfirst hlow hhigh
    have hstill := hcovered hraised hsucceeds (by rw [hf]; rfl)
    rw [if_pos hlock] at hstill
    exact hcomplete first hf i hlow (hhigh.trans_eq hstill)
  · obtain ⟨hv, hwindow, hbase, -, hoffset, -, hyield, hfirst', hseen'⟩ := h.fetch hsucceeds hsame
    intro first hfirst i hlow hhigh
    rw [hfirst'] at hfirst
    rw [hseen'] at hhigh
    have hf := first_known hfirst hlow hhigh
    have hfit := hcovered hraised hsucceeds (by rw [hf]; rfl)
    rw [if_neg (by simp [hlock])] at hfit
    refine ⟨_, hoffset, ?_⟩
    rw [hyield, List.mem_append]
    by_cases hold : i + 1 < f.seen
    · obtain ⟨offset', hoffset', hmem⟩ := hcomplete first hf i hlow hold
      rw [lockOffset_known hoffset' hlock]
      exact Or.inl hmem
    · have hbase' : f.base ≤ f.seen - 1 := by
        unfold Feed.base
        split <;> omega
      refine Or.inr (List.mem_map.mpr ⟨i, ?_, rfl⟩)
      rw [List.mem_range'_1]
      omega

/-- A poll that is not covered loses a bar. -/
theorem Kept.lost (h : Kept hist f) (hlost : ¬f.Covered hist p) : ¬(f.poll hist cfg p).Complete hist := by
  have hseen := h.seen_le
  unfold Feed.Covered at hlost
  push Not at hlost
  obtain ⟨hraised, hsucceeds, hsome, hbad⟩ := hlost
  obtain ⟨first, hf⟩ := Option.isSome_iff_exists.mp hsome
  have hfirst := h.first_le first hf
  intro hcomplete
  have hpolled : Polled hist f p (f.poll hist cfg p) := poll_cases f p
  rcases hpolled with
    ⟨hdone, -⟩ | ⟨-, hfails, -⟩ | ⟨-, -, hlock, hsame⟩ | ⟨-, -, hlock, hsame⟩
  · rw [hraised] at hdone
    cases hdone
  · exact hfails hsucceeds
  · -- a bar has closed, and the poll yields nothing
    rw [if_pos hlock] at hbad
    obtain ⟨offset, hoffset, -⟩ := hcomplete first (by rw [hsame.first, hf]; rfl) (f.seen - 1) (by omega)
      (by rw [hsame.seen]; simp only; omega)
    rw [hsame.offset] at hoffset
    rw [Feed.lockOffset, show f.offset = some offset from hoffset] at hlock
    cases hlock
  · -- the first bar after the last poll with rates is older than the fetch
    obtain ⟨hv, hwindow, hbase, -, hoffset, -, hyield, hfirst', hseen'⟩ := h.fetch hsucceeds hsame
    rw [if_neg (by simp [hlock])] at hbad
    obtain ⟨offset, hoffset', hmem⟩ := hcomplete first (by rw [hfirst', hf]; rfl) (f.seen - 1) (by omega)
      (by rw [hseen']; omega)
    rw [hoffset] at hoffset'
    cases hoffset'
    rw [hyield] at hmem
    rcases List.mem_append.mp hmem with hmem | hmem
    · rcases h.emitted with ⟨-, hnil⟩ | ⟨htwo, -, -, offset', hoffset', hall⟩
      · rw [hnil] at hmem
        cases hmem
      · obtain ⟨j, hj, heq⟩ := hall _ hmem
        rw [lockOffset_known hoffset' hlock] at heq
        have := candleOf_injective heq
        omega
    · obtain ⟨j, hj, heq⟩ := List.mem_map.mp hmem
      have := candleOf_injective heq
      rw [List.mem_range'_1] at hj
      omega

/-- **The feed loses no bar** in exactly the runs whose polls are all covered. -/
theorem complete_iff_covered (hist : History) (cfg : Config) (polls : List Poll) :
    (∀ n, (run (Feed.poll hist cfg) (start cfg) (polls.take n)).Complete hist) ↔
      StepsMeet (Feed.poll hist cfg) (Feed.Covered hist) (start cfg) polls := by
  refine run_prefixes_iff (I := Kept hist) (D := fun _ _ => True) (fun f p h _ => h.poll p) ?_ start_kept ?_
    (stepsMeet_of_forall fun _ _ => trivial)
  · intro f p h _ hcomplete
    constructor
    · intro hnext
      by_contra hlost
      exact h.lost hlost hnext
    · exact h.complete hcomplete
  · intro first hfirst
    cases hfirst

/-- A bar a minute. -/
def minutely : History where
  rate i := ⟨60 * i, 2000, 2001, 1999, 2000, 1⟩
  ascending i j h := by
    have : (i : Int) < j := Int.ofNat_lt.mpr h
    simp only
    omega

/-- **Bars that the feed never yields.** Two polls get no rates while four bars open, and the next one fetches three:
of the bars that closed meanwhile, the first two are lost. -/
theorem bars_lost :
    ¬(run (Feed.poll minutely { tzOffset := some 0 }) (start { tzOffset := some 0 })
        [⟨5, true, 300, 0, false, true⟩, ⟨2, false, 420, 0, false, true⟩, ⟨2, false, 540, 0, false, true⟩,
          ⟨0, true, 541, 0, false, true⟩]).Complete minutely := by
  intro h
  obtain ⟨offset, hoffset, hmem⟩ := h 5 (by decide +kernel) 4 (by decide) (by decide +kernel)
  cases hoffset
  revert hmem
  decide +kernel

end Mt5Feed

end FreqTrading
