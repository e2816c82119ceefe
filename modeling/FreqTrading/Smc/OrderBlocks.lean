import FreqTrading.Smc.Structure

/-!
# Order blocks

`OrderBlockTracker` of `orb/smc/orderblocks.py`. The registries of the two directions are `BySide`; a block is
marked by replacing it in its registry.
-/

namespace FreqTrading

structure OrderBlock where
  ts : Int
  /-- The move the block supports. -/
  direction : Direction
  top : ℚ
  bottom : ℚ
  mitigated : Bool := false
  /-- The tracker's bar counter when the block was found. -/
  bornBar : Int := 0
  deriving DecidableEq, Repr

/-- A dictionary with a value for each direction. -/
structure BySide (α : Type) where
  long : α
  short : α
  deriving DecidableEq, Repr

namespace BySide

variable {α : Type}

def get (s : BySide α) : Direction → α
  | .long => s.long
  | .short => s.short

def set (s : BySide α) (direction : Direction) (x : α) : BySide α :=
  match direction with
  | .long => { s with long := x }
  | .short => { s with short := x }

def map (s : BySide α) (f : Direction → α → α) : BySide α := ⟨f .long s.long, f .short s.short⟩

@[simp] theorem get_map (s : BySide α) (f : Direction → α → α) (direction : Direction) :
    (s.map f).get direction = f direction (s.get direction) := by
  cases direction <;> rfl

@[simp] theorem get_set (s : BySide α) (direction direction' : Direction) (x : α) :
    (s.set direction x).get direction' = if direction = direction' then x else s.get direction' := by
  cases direction <;> cases direction' <;> rfl

end BySide

structure OrderBlockTracker where
  dispBodyFrac : ℚ := 1 / 2
  dispAtrMult : ℚ := 12 / 10
  confirmBars : Int := 10
  maxBlocks : Int := 20
  expiryBars : Int := 180
  atr : WilderATR := { period := 14 }
  /-- The last bars, oldest first. -/
  recent : List Candle := []
  bar : Int := 0
  /-- Candidates without a structure break yet. -/
  pending : BySide (List OrderBlock) := ⟨[], []⟩
  active : BySide (List OrderBlock) := ⟨[], []⟩
  deriving DecidableEq

namespace OrderBlockTracker

/-- `_RECENT_BARS`. -/
def recentBars : Nat := 10

/-- `_MAX_PENDING`. -/
def maxPending : Nat := 5

/-- `__init__`, with the check of the ATR it builds. -/
def create (dispBodyFrac dispAtrMult : ℚ) (confirmBars maxBlocks expiryBars atrPeriod : Int) :
    Except String OrderBlockTracker :=
  if ¬ (0 < dispBodyFrac ∧ dispBodyFrac ≤ 1) then .error "disp_body_frac must be in (0, 1]"
  else if dispAtrMult ≤ 0 then .error "disp_atr_mult must be > 0"
  else if confirmBars < 0 then .error "confirm_bars must be >= 0"
  else if maxBlocks < 1 then .error "max_blocks must be >= 1"
  else if expiryBars < 1 then .error "expiry_bars must be >= 1"
  else if atrPeriod < 1 then .error "ATR period must be >= 1"
  else .ok { dispBodyFrac, dispAtrMult, confirmBars, maxBlocks, expiryBars, atr := { period := atrPeriod } }

/-! ### `update` -/

/-- The close is beyond the far edge. -/
def invalidated (ob : OrderBlock) (direction : Direction) (c : Candle) : Bool :=
  match direction with
  | .long => c.close < ob.bottom
  | .short => ob.top < c.close

/-- The bar trades into the zone. -/
def touches (ob : OrderBlock) (c : Candle) : Bool := c.low ≤ ob.top && ob.bottom ≤ c.high

/-- What a bar leaves of an active block. -/
def survive (t : OrderBlockTracker) (c : Candle) (direction : Direction) (ob : OrderBlock) : Option OrderBlock :=
  if t.expiryBars ≤ t.bar - ob.bornBar then none
  else if invalidated ob direction c then none
  else some { ob with mitigated := ob.mitigated || touches ob c }

/-- Expire, invalidate and mitigate the blocks active before this bar. -/
def sweepActive (t : OrderBlockTracker) (c : Candle) : OrderBlockTracker :=
  { t with active := t.active.map fun direction reg => reg.filterMap (t.survive c direction) }

/-- The direction of a displacement bar, measured against the volatility before it. -/
def displacement (t : OrderBlockTracker) (c : Candle) : Option Direction :=
  let rng := c.high - c.low
  match t.atr.value with
  | none => none
  | some atr =>
    if 0 < rng ∧ c.close ≠ c.open' ∧ t.dispBodyFrac ≤ |c.close - c.open'| / rng ∧ t.dispAtrMult * atr ≤ rng then
      some (if c.open' < c.close then .long else .short)
    else none

/-- The bar has the colour against the direction. -/
def opposite (direction : Direction) (c : Candle) : Bool :=
  match direction with
  | .long => c.close < c.open'
  | .short => c.open' < c.close

/-- The last opposite bar before a displacement is a candidate. -/
def addCandidate (t : OrderBlockTracker) (c : Candle) : OrderBlockTracker :=
  match t.displacement c with
  | none => t
  | some direction =>
    match t.recent.reverse.find? (opposite direction) with
    | none => t
    | some prev =>
      let ob := { ts := prev.ts, direction := direction, top := prev.high, bottom := prev.low, bornBar := t.bar }
      { t with pending := t.pending.set direction (pushBounded maxPending (t.pending.get direction) ob) }

/-- The candidate is still inside the confirmation window. -/
def inWindow (t : OrderBlockTracker) (ob : OrderBlock) : Bool := t.bar - ob.bornBar ≤ t.confirmBars

/-- A structure break makes the candidates of its direction active. -/
def promote (t : OrderBlockTracker) (event : Option StructureEvent) : OrderBlockTracker :=
  match event with
  | none => t
  | some event =>
    let confirmed := (t.pending.get event.direction).filter t.inWindow
    let reg := confirmed.foldl (pushBounded t.maxBlocks.toNat) (t.active.get event.direction)
    { t with active := t.active.set event.direction reg, pending := t.pending.set event.direction [] }

/-- Drop the oldest candidates that are past the window. -/
def dropUnconfirmed (t : OrderBlockTracker) : OrderBlockTracker :=
  { t with pending := t.pending.map fun _ pend => pend.dropWhile fun ob => !t.inWindow ob }

def update (t : OrderBlockTracker) (c : Candle) (event : Option StructureEvent) : OrderBlockTracker :=
  let t := (((({ t with bar := t.bar + 1 }).sweepActive c).addCandidate c).promote event).dropUnconfirmed
  { t with atr := t.atr.update c.high c.low c.close, recent := pushBounded recentBars t.recent c }

/-! ### What a bar leaves of each direction -/

/-- The candidate of a direction that a bar brings. -/
def candidate (t : OrderBlockTracker) (c : Candle) (direction : Direction) : Option OrderBlock :=
  if t.displacement c = some direction then
    (t.recent.reverse.find? (opposite direction)).map fun prev =>
      { ts := prev.ts, direction := direction, top := prev.high, bottom := prev.low, bornBar := t.bar }
  else none

theorem addCandidate_eq (t : OrderBlockTracker) (c : Candle) :
    t.addCandidate c = { t with pending := t.pending.map fun direction pend =>
      (t.candidate c direction).elim pend (pushBounded maxPending pend) } := by
  unfold addCandidate candidate
  cases hd : t.displacement c with
  | none => simp [BySide.map]
  | some direction =>
    cases hprev : t.recent.reverse.find? (opposite direction) with
    | none => cases direction <;> simp [BySide.map, hprev]
    | some prev => cases direction <;> simp [BySide.map, BySide.set, BySide.get, hprev]

theorem promote_eq (t : OrderBlockTracker) (event : Option StructureEvent) :
    t.promote event =
      { t with
        active := t.active.map fun direction reg =>
          if event.map (·.direction) = some direction then
            ((t.pending.get direction).filter t.inWindow).foldl (pushBounded t.maxBlocks.toNat) reg
          else reg
        pending := t.pending.map fun direction pend =>
          if event.map (·.direction) = some direction then [] else pend } := by
  unfold promote
  cases event with
  | none => simp [BySide.map]
  | some event => cases hd : event.direction <;> simp [BySide.map, BySide.set, BySide.get, hd]

/-- The clock of the tracker while it takes in a bar. -/
def tick (t : OrderBlockTracker) : OrderBlockTracker := { t with bar := t.bar + 1 }

/-- The candidates of a direction before a bar confirms any. -/
def candidates (t : OrderBlockTracker) (c : Candle) (direction : Direction) : List OrderBlock :=
  (t.tick.candidate c direction).elim (t.pending.get direction) (pushBounded maxPending (t.pending.get direction))

theorem update_pending (t : OrderBlockTracker) (c : Candle) (event : Option StructureEvent) (direction : Direction) :
    (t.update c event).pending.get direction =
      (if event.map (·.direction) = some direction then [] else t.candidates c direction).dropWhile
        fun ob => !t.tick.inWindow ob := by
  simp only [update, dropUnconfirmed, promote_eq, addCandidate_eq, sweepActive, BySide.get_map, inWindow]
  rfl

theorem update_active (t : OrderBlockTracker) (c : Candle) (event : Option StructureEvent) (direction : Direction) :
    (t.update c event).active.get direction =
      let reg := (t.active.get direction).filterMap (t.tick.survive c direction)
      if event.map (·.direction) = some direction then
        ((t.candidates c direction).filter t.tick.inWindow).foldl (pushBounded t.maxBlocks.toNat) reg
      else reg := by
  simp only [update, dropUnconfirmed, promote_eq, addCandidate_eq, sweepActive, BySide.get_map]
  rfl

theorem mem_candidates {t : OrderBlockTracker} {c : Candle} {direction : Direction} {ob : OrderBlock}
    (h : ob ∈ t.candidates c direction) : ob ∈ t.pending.get direction ∨ t.tick.candidate c direction = some ob := by
  unfold candidates at h
  cases hnew : t.tick.candidate c direction with
  | none => exact Or.inl (by simpa [hnew] using h)
  | some new =>
    rw [hnew] at h
    rcases mem_pushBounded h with hold | rfl
    · exact Or.inl hold
    · exact Or.inr rfl

theorem mem_update_pending {t : OrderBlockTracker} {c : Candle} {event : Option StructureEvent} {direction : Direction}
    {ob : OrderBlock} (h : ob ∈ (t.update c event).pending.get direction) :
    ob ∈ t.candidates c direction ∧ event.map (·.direction) ≠ some direction := by
  rw [update_pending] at h
  have hmem := (List.dropWhile_sublist _).mem h
  split at hmem
  · cases hmem
  · next hevent => exact ⟨hmem, hevent⟩

theorem mem_update_active {t : OrderBlockTracker} {c : Candle} {event : Option StructureEvent} {direction : Direction}
    {ob : OrderBlock} (h : ob ∈ (t.update c event).active.get direction) :
    (∃ was ∈ t.active.get direction, t.tick.survive c direction was = some ob) ∨
      (event.map (·.direction) = some direction ∧ ob ∈ t.candidates c direction ∧ t.tick.inWindow ob = true) := by
  rw [update_active] at h
  dsimp only at h
  split at h
  · next hevent =>
    rcases List.mem_append.mp ((foldl_pushBounded_sublist _ _ _).mem h) with hold | hnew
    · exact Or.inl (List.mem_filterMap.mp hold)
    · exact Or.inr ⟨hevent, List.mem_filter.mp hnew⟩
  · exact Or.inl (List.mem_filterMap.mp h)

theorem update_rest (t : OrderBlockTracker) (c : Candle) (event : Option StructureEvent) :
    t.update c event =
      { t with
        bar := t.bar + 1
        atr := t.atr.update c.high c.low c.close
        recent := pushBounded recentBars t.recent c
        pending := (t.update c event).pending
        active := (t.update c event).active } := by
  simp only [update, dropUnconfirmed, promote_eq, addCandidate_eq, sweepActive]

/-! ### `poi_at` -/

/-- An unmitigated block that overlaps `[lo, hi]`. -/
def offers (lo hi : ℚ) (ob : OrderBlock) : Bool := !ob.mitigated && ob.bottom ≤ hi && lo ≤ ob.top

/-- Mark the first block that meets the condition. -/
def consume (meets : OrderBlock → Bool) : List OrderBlock → Option (OrderBlock × List OrderBlock)
  | [] => none
  | ob :: rest =>
    if meets ob then some ({ ob with mitigated := true }, { ob with mitigated := true } :: rest)
    else (consume meets rest).map fun (found, rest) => (found, ob :: rest)

/-- The most recent active block on offer, which is marked mitigated. -/
def poiAt (t : OrderBlockTracker) (lo hi : ℚ) (direction : Direction) : Option (OrderBlock × OrderBlockTracker) :=
  (consume (offers lo hi) (t.active.get direction).reverse).map fun (ob, reg) =>
    (ob, { t with active := t.active.set direction reg.reverse })

theorem consume_found {meets : OrderBlock → Bool} {reg reg' : List OrderBlock} {ob : OrderBlock}
    (h : consume meets reg = some (ob, reg')) : ∃ was ∈ reg, meets was = true ∧ ob = { was with mitigated := true } := by
  induction reg generalizing reg' with
  | nil => cases h
  | cons first rest ih =>
    simp only [consume] at h
    split at h
    · next hmeets =>
      cases h
      exact ⟨first, by simp, hmeets, rfl⟩
    · cases hrest : consume meets rest with
      | none => simp [hrest] at h
      | some found =>
        obtain ⟨found, others⟩ := found
        simp only [hrest, Option.map_some, Option.some.injEq, Prod.mk.injEq] at h
        obtain ⟨rfl, -⟩ := h
        obtain ⟨was, hwas, hmeets, hob⟩ := ih hrest
        exact ⟨was, List.mem_cons_of_mem _ hwas, hmeets, hob⟩

theorem consume_find (meets : OrderBlock → Bool) (reg : List OrderBlock) :
    (consume meets reg).map (·.1) = (reg.find? meets).map fun ob => { ob with mitigated := true } := by
  induction reg with
  | nil => rfl
  | cons ob rest ih =>
    by_cases hmeets : meets ob = true
    · simp [consume, hmeets]
    · rw [consume, if_neg hmeets, List.find?_cons_of_neg hmeets, ← ih, Option.map_map]
      rfl

theorem consume_mem {meets : OrderBlock → Bool} {reg reg' : List OrderBlock} {ob : OrderBlock}
    (h : consume meets reg = some (ob, reg')) : ob ∈ reg' := by
  induction reg generalizing reg' with
  | nil => cases h
  | cons first rest ih =>
    rw [consume] at h
    split at h
    · cases h
      exact List.mem_cons_self
    · obtain ⟨⟨found, others⟩, hrest, hpair⟩ := Option.map_eq_some_iff.mp h
      cases hpair
      exact List.mem_cons_of_mem _ (ih hrest)

theorem mem_consume {meets : OrderBlock → Bool} {reg reg' : List OrderBlock} {found ob : OrderBlock}
    (h : consume meets reg = some (found, reg')) (hob : ob ∈ reg') :
    ob ∈ reg ∨ ∃ was ∈ reg, ob = { was with mitigated := true } := by
  induction reg generalizing reg' with
  | nil => cases h
  | cons first rest ih =>
    rw [consume] at h
    split at h
    · cases h
      rcases List.mem_cons.mp hob with rfl | hrest
      · exact Or.inr ⟨first, by simp, rfl⟩
      · exact Or.inl (List.mem_cons_of_mem _ hrest)
    · obtain ⟨⟨found, others⟩, hrest, hpair⟩ := Option.map_eq_some_iff.mp h
      cases hpair
      rcases List.mem_cons.mp hob with rfl | hob
      · exact Or.inl List.mem_cons_self
      · rcases ih hrest hob with hold | ⟨was, hwas, hmarked⟩
        · exact Or.inl (List.mem_cons_of_mem _ hold)
        · exact Or.inr ⟨was, List.mem_cons_of_mem _ hwas, hmarked⟩

theorem consume_map {β : Type} {f : OrderBlock → β} (hf : ∀ ob : OrderBlock, f { ob with mitigated := true } = f ob)
    {meets : OrderBlock → Bool} {reg reg' : List OrderBlock} {found : OrderBlock}
    (h : consume meets reg = some (found, reg')) : reg'.map f = reg.map f := by
  induction reg generalizing reg' with
  | nil => cases h
  | cons first rest ih =>
    rw [consume] at h
    split at h
    · cases h
      rw [List.map_cons, List.map_cons, hf]
    · obtain ⟨⟨found, others⟩, hrest, hpair⟩ := Option.map_eq_some_iff.mp h
      cases hpair
      rw [List.map_cons, List.map_cons, ih hrest]

theorem poiAt_found {t t' : OrderBlockTracker} {lo hi : ℚ} {direction : Direction} {ob : OrderBlock}
    (h : t.poiAt lo hi direction = some (ob, t')) :
    ∃ was ∈ t.active.get direction, offers lo hi was = true ∧ ob = { was with mitigated := true } := by
  unfold poiAt at h
  cases hc : consume (offers lo hi) (t.active.get direction).reverse with
  | none => simp [hc] at h
  | some found =>
    obtain ⟨found, reg⟩ := found
    simp only [hc, Option.map_some, Option.some.injEq, Prod.mk.injEq] at h
    obtain ⟨rfl, -⟩ := h
    obtain ⟨was, hwas, hmeets, hob⟩ := consume_found hc
    exact ⟨was, List.mem_reverse.mp hwas, hmeets, hob⟩

/-- What `poi_at` leaves: the same blocks, one of them marked. -/
theorem poiAt_active {t t' : OrderBlockTracker} {lo hi : ℚ} {direction : Direction} {ob : OrderBlock}
    (h : t.poiAt lo hi direction = some (ob, t')) :
    t' = { t with active := t'.active } ∧ ob ∈ t'.active.get direction ∧
      (∀ side, (t'.active.get side).map (·.ts) = (t.active.get side).map (·.ts)) ∧
      ∀ side, ∀ b ∈ t'.active.get side, b ∈ t.active.get side ∨
        ∃ was ∈ t.active.get side, b = { was with mitigated := true } := by
  unfold poiAt at h
  obtain ⟨⟨found, reg⟩, hconsume, hpair⟩ := Option.map_eq_some_iff.mp h
  cases hpair
  refine ⟨rfl, ?_, fun side => ?_, fun side b hb => ?_⟩
  · simpa using consume_mem hconsume
  · rw [BySide.get_set]
    split
    · next hside =>
      subst hside
      rw [List.map_reverse, consume_map (fun _ => rfl) hconsume, List.map_reverse, List.reverse_reverse]
    · rfl
  · rw [BySide.get_set] at hb
    split at hb
    · next hside =>
      subst hside
      rcases mem_consume hconsume (List.mem_reverse.mp hb) with hold | ⟨was, hwas, hmarked⟩
      · exact Or.inl (List.mem_reverse.mp hold)
      · exact Or.inr ⟨was, List.mem_reverse.mp hwas, hmarked⟩
    · exact Or.inl hb

end OrderBlockTracker

end FreqTrading
