import FreqTrading.Mql5.Confluence

/-!
# The entry of the EA

`ComputeLot` and `TryEnter` of `mql5/SmcXau_EA.mq5`. An order goes with the trend of H4, has its stop behind everything
that was taken for its invalidation, no farther than the cap, and a lot that loses there no more than the share of the
balance, up to the tolerance of the snap (`tryEnter_sound`).
-/

namespace FreqTrading

open Lib

namespace Ea

/-- The symbol, with `SYMBOL_VOLUME_MAX`. -/
structure SymbolSpec extends SymbolPrices, SymbolVolumes where
  volMax : ℚ := 100
  deriving DecidableEq, Repr

/-- `ComputeLot`. -/
def computeLot (inp : Inputs) (sym : SymbolSpec) (balance stopDist : ℚ) : ℚ :=
  let riskMoney := balance * inp.riskPct / 100
  if sym.tickSize ≤ 0 ∨ sym.tickValue ≤ 0 ∨ stopDist ≤ 0 then 0
  else
    let lot := snapVol sym.toSymbolVolumes (riskMoney / (stopDist * (sym.tickValue / sym.tickSize)))
    if lot < sym.minVol then 0 else if sym.volMax < lot then sym.volMax else lot

/-- What `trade.Buy` or `trade.Sell` is called with, and the reason for it. -/
structure Order where
  direction : Direction
  lot : ℚ
  stop : ℚ
  total : Int
  poi : Poi
  deriving DecidableEq, Repr

variable (inp : Inputs) (sym : SymbolSpec) (m : Market) (now : DateTime)

/-- The confluences but the point of interest. -/
def nonPoi (bias : Direction) : Int :=
  let m15 := structureOf inp m .trigger
  let atr := atrOnTf inp.atrPeriod.toNat (m.closed .trigger)
  ([(checkSweep m bias m15).isSome, checkDisplacement inp m atr, checkCisd m bias, checkAlignment inp bias m15,
    checkPremiumDiscount inp sym.toSymbolPrices m bias now].count true : Nat)

/-- The structural stop, behind the bar of the decision, the block and the level swept. -/
def structuralStop (bias : Direction) (poi : Poi) : ℚ :=
  let sweep := checkSweep m bias (structureOf inp m .trigger)
  match bias with
  | .long =>
    let floor := read (·.low) m.decision
    let floor := poi.block.elim floor fun (_, bottom) => min floor bottom
    sweep.elim floor (min floor) - inp.stopBuffer
  | .short =>
    let ceil := read (·.high) m.decision
    let ceil := poi.block.elim ceil fun (top, _) => max ceil top
    sweep.elim ceil (max ceil) + inp.stopBuffer

/-- `TryEnter`; that the confluences reach the gate is checked before and after the point of interest. -/
def tryEnter (balance : ℚ) : Option Order :=
  match (structureOf inp m .h4).trend with
  | none => none
  | some bias =>
    let d1 := (structureOf inp m .d1).trend
    if d1 ≠ none ∧ d1 ≠ some bias then none
    else if atrOnTf inp.atrPeriod.toNat (m.closed .trigger) ≤ 0 then none
    else if nonPoi inp sym m now bias + 1 < inp.minConfluences then none
    else
      match resolvePoi inp sym.toSymbolPrices m bias now with
      | none => none
      | some poi =>
        let stop := structuralStop inp m bias poi
        let stopDist := |read (·.close) m.decision - stop|
        if stopDist ≤ 0 ∨ inp.stopMaxDist < stopDist then none
        else
          let lot := computeLot inp sym balance stopDist
          if lot ≤ 0 then none
          else some { direction := bias, lot, stop, total := nonPoi inp sym m now bias + 1, poi }

/-! ### The lot -/

theorem snapVol_le (volumes : SymbolVolumes) (v : ℚ) :
    snapVol volumes v ≤ v + (if volumes.volumeStep ≤ 0 then 1 / 100 else volumes.volumeStep) / 1000000000 := by
  unfold snapVol
  dsimp only
  have hpos : 0 < if volumes.volumeStep ≤ 0 then (1 : ℚ) / 100 else volumes.volumeStep := by
    split
    · norm_num
    · next h => exact not_le.mp h
  generalize (if volumes.volumeStep ≤ 0 then (1 : ℚ) / 100 else volumes.volumeStep) = step at hpos
  calc (⌊v / step + 1 / 1000000000⌋ : ℚ) * step ≤ (v / step + 1 / 1000000000) * step :=
        mul_le_mul_of_nonneg_right (Int.floor_le _) hpos.le
    _ = v + step / 1000000000 := by field_simp

/-- The money that a lot loses over a distance. -/
def SymbolSpec.loss (sym : SymbolSpec) (lot dist : ℚ) : ℚ := lot * (dist * (sym.tickValue / sym.tickSize))

/-- The volume by which the snap may exceed what the risk pays for. -/
def SymbolSpec.snapTolerance (sym : SymbolSpec) : ℚ :=
  (if sym.volumeStep ≤ 0 then 1 / 100 else sym.volumeStep) / 1000000000

variable {inp sym}

theorem computeLot_bounds {balance dist : ℚ} (hpos : 0 < computeLot inp sym balance dist) :
    computeLot inp sym balance dist ≤ sym.volMax ∧
      sym.loss (computeLot inp sym balance dist) dist ≤
        balance * inp.riskPct / 100 + sym.loss sym.snapTolerance dist := by
  unfold computeLot at hpos ⊢
  dsimp only at hpos ⊢
  split at hpos
  · exact absurd hpos (lt_irrefl _)
  · next hguard =>
    obtain ⟨hsize, hvalue, hdist⟩ : 0 < sym.tickSize ∧ 0 < sym.tickValue ∧ 0 < dist := by
      simpa only [not_or, not_le] using hguard
    have hunit : 0 < dist * (sym.tickValue / sym.tickSize) := mul_pos hdist (div_pos hvalue hsize)
    have hsnap := snapVol_le sym.toSymbolVolumes (balance * inp.riskPct / 100 / (dist * (sym.tickValue / sym.tickSize)))
    rw [if_neg hguard]
    generalize snapVol sym.toSymbolVolumes _ = lot at hpos hsnap ⊢
    -- a lot below the snapped one loses no more than it
    have hloss : ∀ v ≤ lot, sym.loss v dist ≤ balance * inp.riskPct / 100 + sym.loss sym.snapTolerance dist := by
      intro v hv
      calc sym.loss v dist ≤ (balance * inp.riskPct / 100 / (dist * (sym.tickValue / sym.tickSize)) +
            sym.snapTolerance) * (dist * (sym.tickValue / sym.tickSize)) :=
            mul_le_mul_of_nonneg_right (hv.trans hsnap) hunit.le
        _ = _ := by rw [add_mul, div_mul_cancel₀ _ hunit.ne']; rfl
    split at hpos
    · exact absurd hpos (lt_irrefl _)
    · next hmin =>
      rw [if_neg hmin]
      split
      · next hmax => exact ⟨le_rfl, hloss _ hmax.le⟩
      · next hmax => exact ⟨not_lt.mp hmax, hloss _ le_rfl⟩

/-! ### The stop -/

/-- A stop behind a level, with the buffer between. -/
def Behind (bias : Direction) (buffer level stop : ℚ) : Prop :=
  match bias with
  | .long => stop + buffer ≤ level
  | .short => level + buffer ≤ stop

/-- The extreme of the bar of the decision that the stop is behind. -/
def Market.invalidation (m : Market) (bias : Direction) : ℚ :=
  match bias with
  | .long => read (·.low) m.decision
  | .short => read (·.high) m.decision

/-- The edge of a block that the stop is behind. -/
def farEdge (bias : Direction) (block : ℚ × ℚ) : ℚ :=
  match bias with
  | .long => block.2
  | .short => block.1

variable {m now}

theorem structuralStop_behind (bias : Direction) (poi : Poi) :
    Behind bias inp.stopBuffer (m.invalidation bias) (structuralStop inp m bias poi) ∧
      (∀ block ∈ poi.block, Behind bias inp.stopBuffer (farEdge bias block) (structuralStop inp m bias poi)) ∧
      ∀ level ∈ checkSweep m bias (structureOf inp m .trigger),
        Behind bias inp.stopBuffer level (structuralStop inp m bias poi) := by
  unfold structuralStop
  dsimp only
  generalize checkSweep m bias (structureOf inp m .trigger) = sweep
  generalize poi.block = block
  cases bias with
  | long =>
    cases block with
    | none => cases sweep <;> simp [Behind, Market.invalidation]
    | some block => cases sweep <;> simp [Behind, Market.invalidation, farEdge]
  | short =>
    cases block with
    | none => cases sweep <;> simp [Behind, Market.invalidation]
    | some block => cases sweep <;> simp [Behind, Market.invalidation, farEdge]

/-! ### Levels are prices of bars -/

/-- Some bar of the series has this low. -/
def IsLow (r : Rates) (x : ℚ) : Prop := ∃ k < r.close.length, r.lo k = x

theorem scanBar_lastLow {r : Rates} {lb i : Nat} {s : Scan} (hi : i < r.close.length)
    (h : ∀ sp ∈ s.res.lastLow, IsLow r sp.price) : ∀ sp ∈ (scanBar r lb s i).res.lastLow, IsLow r sp.price := by
  have hlow : ∀ sp ∈ (if r.isLow lb (i - lb) then (s.refs.confirm r lb i).low else s.res.lastLow), IsLow r sp.price := by
    split
    · next hswing =>
      intro sp hsp
      simp only [Refs.confirm, hswing, if_true, Option.mem_def, Option.some.injEq] at hsp
      rw [← hsp]
      exact ⟨i - lb, by omega, rfl⟩
    · exact h
  unfold scanBar
  dsimp only
  split <;> exact hlow

theorem scanStructure_lastLow (lb : Nat) (r : Rates) : ∀ sp ∈ (scanStructure lb r).lastLow, IsLow r sp.price := by
  unfold scanStructure
  dsimp only
  split
  · exact fun sp hsp => nomatch hsp
  · have hfold : ∀ (is : List Nat) (s : Scan), (∀ i ∈ is, i < r.close.length) →
        (∀ sp ∈ s.res.lastLow, IsLow r sp.price) →
        ∀ sp ∈ (is.foldl (scanBar r lb) s).res.lastLow, IsLow r sp.price := by
      intro is
      induction is with
      | nil => exact fun s _ h => h
      | cons i is ih =>
        intro s hbound h
        exact ih _ (fun j hj => hbound j (List.mem_cons_of_mem i hj)) (scanBar_lastLow (hbound i List.mem_cons_self) h)
    refine hfold _ _ (fun i hi => ?_) fun sp hsp => nomatch hsp
    have := List.mem_range'_1.mp hi
    omega

theorem walkBar_bottoms {p : ObInputs} {r : Rates} {i : Nat} {w : Walk} (hi : i < r.close.length)
    (h : ∀ b ∈ w.blocks, IsLow r b.bottom) : ∀ b ∈ (walkBar p r w i).blocks, IsLow r b.bottom := by
  have hpromote : ∀ b : Block, (b.promote p i ((w.updateAtr p r i).eventDir p r i)).bottom = b.bottom := by
    intro b
    unfold Block.promote
    split <;> rfl
  have hsweep : ∀ b : Block, (b.sweep p r i).bottom = b.bottom := by
    intro b
    unfold Block.sweep
    split_ifs <;> rfl
  have hatr : (w.updateAtr p r i).blocks = w.blocks := by
    unfold Walk.updateAtr
    dsimp only
    split <;> rfl
  have hfirst : ∀ b ∈ (w.updateAtr p r i).blocks, IsLow r b.bottom := hatr ▸ h
  have hadd : ∀ w' : Walk, (∀ b ∈ w'.blocks, IsLow r b.bottom) → ∀ b ∈ (w'.addBlock p r i).blocks, IsLow r b.bottom := by
    intro w' hw' b hb
    unfold Walk.addBlock at hb
    split at hb
    · exact hw' b hb
    · split at hb
      · exact hw' b hb
      · next k hk =>
        rcases List.mem_append.mp hb with hold | hnew
        · exact hw' b hold
        · rw [List.mem_singleton.mp hnew]
          have := List.mem_range.mp (List.mem_reverse.mp (List.mem_of_mem_take (List.mem_of_find?_eq_some hk)))
          exact ⟨k, by omega, rfl⟩
  intro b hb
  unfold walkBar at hb
  dsimp only at hb
  obtain ⟨b₁, hb₁, rfl⟩ := List.mem_map.mp hb
  obtain ⟨b₂, hb₂, rfl⟩ := List.mem_map.mp hb₁
  rw [hsweep, hpromote]
  refine hadd _ ?_ b₂ hb₂
  exact hfirst

theorem findOrderBlock_bottom {p : ObInputs} {r : Rates} {bias : Direction} {dL dH : ℚ} {block : ℚ × ℚ}
    (h : findOrderBlock p r bias dL dH = some block) : IsLow r block.2 := by
  unfold findOrderBlock at h
  dsimp only at h
  split at h
  · cases h
  · have hfold : ∀ (is : List Nat) (w : Walk), (∀ i ∈ is, i < r.close.length) → (∀ b ∈ w.blocks, IsLow r b.bottom) →
        ∀ b ∈ (is.foldl (walkBar p r) w).blocks, IsLow r b.bottom := by
      intro is
      induction is with
      | nil => exact fun w _ h => h
      | cons i is ih =>
        intro w hbound h
        exact ih _ (fun j hj => hbound j (List.mem_cons_of_mem i hj)) (walkBar_bottoms (hbound i List.mem_cons_self) h)
    unfold Walk.best at h
    obtain ⟨b, hb, rfl⟩ := Option.map_eq_some_iff.mp h
    refine hfold _ _ (fun i hi => ?_) (fun b hb => absurd hb List.not_mem_nil) b (List.mem_reverse.mp (List.mem_of_find?_eq_some hb))
    have := List.mem_range'_1.mp hi
    omega

theorem isLow_copied {n : Nat} {bars : List Candle} {x : ℚ} (h : IsLow (Rates.copy (copied n bars)) x) :
    ∃ c ∈ bars, c.low = x := by
  obtain ⟨k, hk, rfl⟩ := h
  have hk' : k < (copied n bars).length := by simpa [Rates.copy] using hk
  exact ⟨(copied n bars)[k], List.mem_of_mem_drop (List.getElem_mem hk'), (Rates.lo_copy hk').symm⟩

theorem shift_mem {bars : List Candle} {k : Nat} {c : Candle} (h : shift bars k = some c) : c ∈ bars :=
  List.mem_reverse.mp (List.mem_of_getElem? h)

/-- All prices are above the buffer. -/
def Market.Priced (m : Market) (inp : Inputs) : Prop := ∀ tf, ∀ c ∈ m.closed tf, inp.stopBuffer < c.low

theorem Market.Priced.level (h : m.Priced inp) {level : ℚ} (hdecision : m.decision ≠ none)
    (hsweep : checkSweep m .long (structureOf inp m .trigger) = some level) : inp.stopBuffer < level := by
  unfold checkSweep at hsweep
  dsimp only at hsweep
  split at hsweep
  · next sp hsp =>
    obtain ⟨c, hc, hlow⟩ := isLow_copied (scanStructure_lastLow _ _ sp (Option.filter_eq_some_iff.mp hsp).1)
    rw [← Option.some.inj hsweep, ← hlow]
    exact h .trigger c hc
  · split at hsweep
    · next hswept =>
      rw [← Option.some.inj hsweep]
      cases hbar : shift (m.closed .h4) 1 with
      | none =>
        -- without a bar the level is 0, and no low is below it
        obtain ⟨d, hd⟩ := Option.ne_none_iff_exists'.mp hdecision
        have hlow := h .trigger d (shift_mem hd)
        have hbuffer := inp.buffer_nonneg
        rw [hbar, hd] at hswept
        have : d.low < 0 := hswept.1
        linarith
      | some c => exact h .h4 c (shift_mem hbar)
    · cases hsweep

theorem decision_of_atr {period : Nat} (h : 0 < atrOnTf period (m.closed .trigger)) : ∃ c, m.decision = some c := by
  unfold Market.decision shift
  cases hbars : m.closed .trigger with
  | nil =>
    rw [hbars] at h
    exact absurd h (by simp [atrOnTf, copied, Rates.copy])
  | cons c cs => exact ⟨_, List.getElem?_eq_getElem (by simp)⟩

theorem resolvePoi_block {sym : SymbolPrices} {bias : Direction} {poi : Poi} (h : resolvePoi inp sym m bias now = some poi)
    {block : ℚ × ℚ} (hblock : poi.block = some block) : ∃ tf, blockOf inp m bias tf = some block := by
  unfold resolvePoi at h
  dsimp only at h
  rcases Option.or_eq_some_iff.mp h with hpoc | ⟨-, hob⟩
  · rcases Option.or_eq_some_iff.mp hpoc with hday | ⟨-, hprior⟩
    · obtain ⟨level, -, rfl⟩ := Option.map_eq_some_iff.mp hday
      cases hblock
    · obtain ⟨level, -, rfl⟩ := Option.map_eq_some_iff.mp hprior
      cases hblock
  · rcases Option.or_eq_some_iff.mp hob with hd1 | ⟨-, hh4⟩
    · obtain ⟨⟨top, bottom⟩, hfound, rfl⟩ := Option.map_eq_some_iff.mp hd1
      cases hblock
      exact ⟨.d1, hfound⟩
    · obtain ⟨⟨top, bottom⟩, hfound, rfl⟩ := Option.map_eq_some_iff.mp hh4
      cases hblock
      exact ⟨.h4, hfound⟩

theorem Market.Priced.stop_pos (h : m.Priced inp) {sym : SymbolPrices} {bias : Direction} {poi : Poi}
    (hdecision : ∃ c, m.decision = some c) (hpoi : resolvePoi inp sym m bias now = some poi) :
    0 < structuralStop inp m bias poi := by
  obtain ⟨c, hc⟩ := hdecision
  have hlow : inp.stopBuffer < c.low := h .trigger c (shift_mem hc)
  have hbuffer := inp.buffer_nonneg
  cases bias with
  | short =>
    have hbehind : c.high + inp.stopBuffer ≤ structuralStop inp m .short poi := by
      have := (@structuralStop_behind inp m .short poi).1
      simpa [Behind, Market.invalidation, hc, read] using this
    linarith [c.low_le_high]
  | long =>
    have hfloor : inp.stopBuffer < poi.block.elim c.low fun (_, bottom) => min c.low bottom := by
      cases hblock : poi.block with
      | none => exact hlow
      | some block =>
        obtain ⟨tf, hfound⟩ := resolvePoi_block hpoi hblock
        obtain ⟨d, hd, hbottom⟩ := isLow_copied (findOrderBlock_bottom hfound)
        exact lt_min hlow (hbottom ▸ h tf d hd)
    unfold structuralStop
    simp only [hc, read, Option.map_some, Option.getD_some]
    rw [sub_pos]
    cases hsweep : checkSweep m .long (structureOf inp m .trigger) with
    | none => exact hfloor
    | some level => exact lt_min hfloor (h.level (by simp [hc]) hsweep)

/-! ### The order -/

/-- An order that was called for. -/
structure Order.Sound (inp : Inputs) (sym : SymbolSpec) (m : Market) (now : DateTime) (balance : ℚ) (o : Order) : Prop where
  trend : (structureOf inp m .h4).trend = some o.direction
  unopposed : (structureOf inp m .d1).trend = none ∨ (structureOf inp m .d1).trend = some o.direction
  poi : resolvePoi inp sym.toSymbolPrices m o.direction now = some o.poi
  /-- The confluences at the tick, with the point of interest. -/
  total : o.total = nonPoi inp sym m now o.direction + 1
  gate : inp.minConfluences ≤ o.total
  behind_bar : Behind o.direction inp.stopBuffer (m.invalidation o.direction) o.stop
  behind_block : ∀ block ∈ o.poi.block, Behind o.direction inp.stopBuffer (farEdge o.direction block) o.stop
  behind_sweep : ∀ level ∈ checkSweep m o.direction (structureOf inp m .trigger),
    Behind o.direction inp.stopBuffer level o.stop
  stop_pos : m.Priced inp → 0 < o.stop
  near : |read (·.close) m.decision - o.stop| ≤ inp.stopMaxDist
  apart : 0 < |read (·.close) m.decision - o.stop|
  lot_pos : 0 < o.lot
  lot_max : o.lot ≤ sym.volMax
  risk : sym.loss o.lot |read (·.close) m.decision - o.stop| ≤
    balance * inp.riskPct / 100 + sym.loss sym.snapTolerance |read (·.close) m.decision - o.stop|

theorem tryEnter_sound {balance : ℚ} {o : Order} (h : tryEnter inp sym m now balance = some o) :
    o.Sound inp sym m now balance := by
  unfold tryEnter at h
  split at h
  · cases h
  · next bias htrend =>
    dsimp only at h
    split_ifs at h with hd1 hatr hgate
    split at h
    · cases h
    · next poi hpoi =>
      split_ifs at h with hdist hlot
      obtain rfl := Option.some.inj h
      obtain ⟨hapart, hnear⟩ := not_or.mp hdist
      obtain ⟨hmax, hrisk⟩ := computeLot_bounds (not_le.mp hlot)
      obtain ⟨hbar, hblock, hsweep⟩ := @structuralStop_behind inp m bias poi
      exact {
        trend := htrend
        unopposed := by
          by_cases hnone : (structureOf inp m .d1).trend = none
          · exact Or.inl hnone
          · exact Or.inr (not_not.mp fun hne => hd1 ⟨hnone, hne⟩)
        poi := hpoi
        total := rfl
        gate := not_lt.mp hgate
        behind_bar := hbar
        behind_block := hblock
        behind_sweep := hsweep
        stop_pos := fun hpriced => hpriced.stop_pos (decision_of_atr (not_le.mp hatr)) hpoi
        near := not_lt.mp hnear
        apart := not_le.mp hapart
        lot_pos := not_le.mp hlot
        lot_max := hmax
        risk := hrisk }

end Ea

end FreqTrading
