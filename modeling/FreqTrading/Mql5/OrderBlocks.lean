import Mathlib.Data.List.Find
import Mathlib.Data.List.Forall2
import FreqTrading.Lib.Run
import FreqTrading.Smc.OrderBlocks
import FreqTrading.Mql5.Structure

/-!
# The order blocks of the EA

`FindOrderBlock` of `mql5/SmcXau_EA.mq5`, which recomputes the blocks of a timeframe from its closed bars, beside
the `OrderBlockTracker` it is to agree with. They differ in what they measure a displacement against, in the clock
of the expiry, in the caps of the tracker, and in what a block that was closed through can become.
-/

namespace FreqTrading

namespace Ea

/-- The inputs of the EA that `FindOrderBlock` reads. -/
structure ObInputs where
  swingLookback : Nat := 2
  dispBodyFrac : ℚ := 1 / 2
  dispAtrMult : ℚ := 12 / 10
  obConfirmBars : Int := 10
  obExpiryBars : Int := 180
  atrPeriod : Int := 14
  deriving DecidableEq, Repr

/-- `OrderBlock`. -/
structure Block where
  dir : Direction
  top : ℚ
  bottom : ℚ
  mitigated : Bool := false
  active : Bool := false
  /-- The bar of the displacement, then the bar of the activation. -/
  bornBar : Int
  deriving DecidableEq, Repr

/-- The variables of the loop of `FindOrderBlock`. -/
structure Walk where
  atr : ℚ := 0
  trSum : ℚ := 0
  prevClose : ℚ
  refs : Refs := {}
  blocks : List Block := []
  deriving DecidableEq, Repr

section loop

variable (p : ObInputs) (r : Rates) (i : Nat)

/-- The Wilder ATR with bar `i` in it. -/
def Walk.updateAtr (w : Walk) : Walk :=
  let tr := max (r.hi i - r.lo i) (max |r.hi i - w.prevClose| |r.lo i - w.prevClose|)
  if (i : Int) ≤ p.atrPeriod then
    { w with
      trSum := w.trSum + tr
      atr := if (i : Int) = p.atrPeriod then (w.trSum + tr) / p.atrPeriod else w.atr
      prevClose := r.cl i }
  else { w with atr := (w.atr * (p.atrPeriod - 1) + tr) / p.atrPeriod, prevClose := r.cl i }

/-- The references at bar `i`, once it has enough bars before it. -/
def Walk.seen (w : Walk) : Refs :=
  if 2 * p.swingLookback ≤ i then w.refs.confirm r p.swingLookback i else w.refs

/-- `event_dir`. -/
def Walk.eventDir (w : Walk) : Option Direction := (w.seen p r i).breakDir r i

/-- The direction of a displacement at bar `i`. -/
def Walk.displacement (w : Walk) : Option Direction :=
  let rng := r.hi i - r.lo i
  if 0 < w.atr ∧ 0 < rng ∧ p.dispBodyFrac ≤ |r.cl i - r.op i| / rng ∧ p.dispAtrMult * w.atr ≤ rng then
    some (if r.op i ≤ r.cl i then .long else .short)
  else none

def opposite (direction : Direction) (b : Nat) : Bool :=
  match direction with
  | .long => r.cl b < r.op b
  | .short => r.op b < r.cl b

/-- The last opposite bar among the ten before a displacement is a candidate. -/
def Walk.addBlock (w : Walk) : Walk :=
  match w.displacement p r i with
  | none => w
  | some dir =>
    match ((List.range i).reverse.take 10).find? (opposite r dir) with
    | none => w
    | some b => { w with blocks := w.blocks ++ [{ dir := dir, top := r.hi b, bottom := r.lo b, bornBar := i }] }

/-- An event makes the candidates of its direction active, and starts their clock again. -/
def Block.promote (event : Option Direction) (b : Block) : Block :=
  if b.active = false ∧ event = some b.dir ∧ (i : Int) - b.bornBar ≤ p.obConfirmBars then
    { b with active := true, bornBar := i }
  else b

/-- The close is beyond the far edge. -/
def Block.closedThrough (close : ℚ) (b : Block) : Bool :=
  match b.dir with
  | .long => close < b.bottom
  | .short => b.top < close

/-- What bar `i` does to a block that was active before it. -/
def Block.sweep (b : Block) : Block :=
  if b.active = false ∨ b.mitigated = true then b
  else if (i : Int) ≤ b.bornBar then b
  else if b.closedThrough (r.cl i) then { b with active := false }
  else if p.obExpiryBars < (i : Int) - b.bornBar then { b with active := false }
  else if b.bottom ≤ r.hi i ∧ r.lo i ≤ b.top then { b with mitigated := true }
  else b

/-- The body of the loop at bar `i`. -/
def walkBar (w : Walk) (i : Nat) : Walk :=
  let w := w.updateAtr p r i
  let event := w.eventDir p r i
  let w := { w with refs := (w.seen p r i).consume event }
  let w := w.addBlock p r i
  { w with blocks := (w.blocks.map (Block.promote p i event)).map (Block.sweep p r i) }

/-- The block is active, unmitigated, of the direction, and overlaps `[dL, dH]`. -/
def Block.offers (bias : Direction) (dL dH : ℚ) (b : Block) : Bool :=
  b.active && !b.mitigated && b.dir == bias && decide (b.bottom ≤ dH) && decide (dL ≤ b.top)

/-- The most recent block on offer after a walk. -/
def Walk.best (w : Walk) (bias : Direction) (dL dH : ℚ) : Option (ℚ × ℚ) :=
  (w.blocks.reverse.find? (Block.offers bias dL dH)).map fun b => (b.top, b.bottom)

/-- `FindOrderBlock`, over the bars copied: the top and the bottom of the block. -/
def findOrderBlock (bias : Direction) (dL dH : ℚ) : Option (ℚ × ℚ) :=
  let cnt := r.close.length
  if cnt < 2 * p.swingLookback + 2 then none
  else ((List.range' 1 (cnt - 1)).foldl (walkBar p r) { prevClose := r.cl 0 }).best bias dL dH

end loop

end Ea

/-! ### The trackers of a timeframe -/

/-- The order block tracker of a timeframe, with the structure tracker whose events it is fed. -/
structure Zones where
  struct : StructureTracker
  ob : OrderBlockTracker

namespace Zones

/-- New trackers with the parameters of the EA. -/
def start (p : Ea.ObInputs) (maxSwings maxBlocks : Int) : Zones where
  struct := { lookback := p.swingLookback, maxSwings := maxSwings }
  ob :=
    { dispBodyFrac := p.dispBodyFrac
      dispAtrMult := p.dispAtrMult
      confirmBars := p.obConfirmBars
      maxBlocks := maxBlocks
      expiryBars := p.obExpiryBars
      atr := { period := p.atrPeriod } }

def step (z : Zones) (c : Candle) : Zones :=
  let out := z.struct.update c
  { struct := out.2, ob := z.ob.update c out.1 }

/-- The zone that `poi_at` answers with. -/
def poiAt (z : Zones) (lo hi : ℚ) (direction : Direction) : Option (ℚ × ℚ) :=
  (z.ob.poiAt lo hi direction).map fun (ob, _) => (ob.top, ob.bottom)

end Zones

/-! ### The walk, by direction -/

namespace Ea

def side (dir : Direction) (blocks : List Block) : List Block := blocks.filter fun b => b.dir = dir

section sides

variable {p : ObInputs} {r : Rates} {i : Nat}

@[simp] theorem Walk.updateAtr_refs (w : Walk) : (w.updateAtr p r i).refs = w.refs := by
  unfold updateAtr
  split <;> rfl

@[simp] theorem Walk.updateAtr_blocks (w : Walk) : (w.updateAtr p r i).blocks = w.blocks := by
  unfold updateAtr
  split <;> rfl

/-- The candidate of a direction that bar `i` brings. -/
def Walk.candidate (p : ObInputs) (r : Rates) (i : Nat) (w : Walk) (dir : Direction) : Option Block :=
  if w.displacement p r i = some dir then
    (((List.range i).reverse.take 10).find? (opposite r dir)).map fun b =>
      { dir := dir, top := r.hi b, bottom := r.lo b, bornBar := i }
  else none

theorem Walk.addBlock_side (w : Walk) (dir : Direction) :
    side dir (w.addBlock p r i).blocks = side dir w.blocks ++ (w.candidate p r i dir).toList := by
  unfold addBlock candidate side
  cases hd : w.displacement p r i with
  | none => simp
  | some dir' =>
    by_cases hdir : dir' = dir
    · subst hdir
      cases hb : ((List.range i).reverse.take 10).find? (opposite r dir') with
      | none => simp [hb]
      | some b => simp [hb]
    · cases hb : ((List.range i).reverse.take 10).find? (opposite r dir') with
      | none => simp only [hb, hdir, if_false, Option.some.injEq, Option.toList_none, List.append_nil]
      | some b => simp [hb, hdir]

theorem Block.promote_dir (event : Option Direction) (b : Block) : (b.promote p i event).dir = b.dir := by
  unfold promote
  split <;> rfl

theorem Block.sweep_dir (b : Block) : (b.sweep p r i).dir = b.dir := by
  unfold sweep
  split_ifs <;> rfl

theorem walkBar_side (w : Walk) (dir : Direction) :
    side dir (walkBar p r w i).blocks =
      ((side dir w.blocks ++ ((w.updateAtr p r i).candidate p r i dir).toList).map
        (Block.promote p i (w.eventDir p r i))).map (Block.sweep p r i) := by
  have hevent : (w.updateAtr p r i).eventDir p r i = w.eventDir p r i := by simp [Walk.eventDir, Walk.seen]
  have hkeep (f : Block → Block) (hf : ∀ b, (f b).dir = b.dir) (bs : List Block) :
      side dir (bs.map f) = (side dir bs).map f := by
    simp only [side, List.filter_map, Function.comp_def, hf]
  simp only [walkBar, hkeep _ Block.sweep_dir, hkeep _ (Block.promote_dir _), Walk.addBlock_side, hevent]
  simp [Walk.candidate, Walk.displacement]

theorem walkBar_refs (w : Walk) :
    (walkBar p r w i).refs = (w.seen p r i).consume (w.eventDir p r i) := by
  have hrefs (w : Walk) : (w.addBlock p r i).refs = w.refs := by
    unfold Walk.addBlock
    split
    · rfl
    · split <;> rfl
  simp [walkBar, hrefs, Walk.eventDir, Walk.seen]

end sides

end Ea

/-! ### One direction of the walk and of the tracker -/

section lists

variable {α β : Type} {R : α → β → Prop}

theorem forall₂_filter {xs : List α} {ys : List β} {p : α → Bool} {q : β → Bool} (h : List.Forall₂ R xs ys)
    (hpq : ∀ x ∈ xs, ∀ y ∈ ys, R x y → p x = q y) : List.Forall₂ R (xs.filter p) (ys.filter q) := by
  induction h with
  | nil => exact .nil
  | @cons x y xs ys hxy _ ih =>
    have hrest := ih fun x hx y hy => hpq x (List.mem_cons_of_mem _ hx) y (List.mem_cons_of_mem _ hy)
    have hhead := hpq x List.mem_cons_self y List.mem_cons_self hxy
    by_cases hx : p x = true
    · rw [List.filter_cons_of_pos hx, List.filter_cons_of_pos (hhead ▸ hx)]
      exact .cons hxy hrest
    · rw [List.filter_cons_of_neg hx, List.filter_cons_of_neg (hhead ▸ hx)]
      exact hrest

theorem forall₂_imp_mem {S : α → β → Prop} {xs : List α} {ys : List β} (h : List.Forall₂ R xs ys)
    (hRS : ∀ x, ∀ y ∈ ys, R x y → S x y) : List.Forall₂ S xs ys := by
  induction h with
  | nil => exact .nil
  | @cons x y xs ys hxy _ ih =>
    exact .cons (hRS x y List.mem_cons_self hxy) (ih fun x y hy => hRS x y (List.mem_cons_of_mem _ hy))

theorem filter_dropWhile {xs : List α} {p q : α → Bool} (h : ∀ x, q x = true → p x = false) :
    (xs.dropWhile q).filter p = xs.filter p := by
  induction xs with
  | nil => rfl
  | cons x xs ih =>
    by_cases hx : q x = true
    · rw [List.dropWhile_cons_of_pos hx, ih, List.filter_cons_of_neg (by simp [h x hx])]
    · rw [List.dropWhile_cons_of_neg hx]

theorem filter_drop {xs : List α} {k : Nat} {p : α → Bool} (h : ∀ x ∈ xs.take k, p x = false) :
    (xs.drop k).filter p = xs.filter p := by
  have hnone : (xs.take k).filter p = [] := by
    rw [List.filter_eq_nil_iff]
    intro x hx
    simp [h x hx]
  conv_rhs => rw [← List.take_append_drop k xs, List.filter_append, hnone, List.nil_append]

theorem foldl_pushBounded {m : Nat} (ys xs : List α) (hys : ys ≠ []) :
    ys.foldl (pushBounded m) xs = (xs ++ ys).drop (xs.length + ys.length - m) := by
  induction ys generalizing xs with
  | nil => exact absurd rfl hys
  | cons y ys ih =>
    rw [List.foldl_cons]
    by_cases hrest : ys = []
    · subst hrest
      rfl
    · have hlen : (pushBounded m xs y).length = xs.length + 1 - (xs.length + 1 - m) := by simp [pushBounded]
      have hjoin : pushBounded m xs y ++ ys = (xs ++ y :: ys).drop (xs.length + 1 - m) := by
        rw [pushBounded, ← List.drop_append_of_le_length (by simp), List.append_assoc, List.singleton_append]
      rw [ih _ hrest, hlen, hjoin, List.drop_drop, List.length_cons]
      congr 1
      omega

theorem filter_foldl_pushBounded {m : Nat} {xs ys : List α} {p : α → Bool}
    (h : ∀ x ∈ (xs ++ ys).take (xs.length + ys.length - m), p x = false) :
    (ys.foldl (pushBounded m) xs).filter p = xs.filter p ++ ys.filter p := by
  by_cases hys : ys = []
  · simp [hys]
  · rw [foldl_pushBounded ys xs hys, filter_drop h, List.filter_append]

end lists

/-- The candidate is inside the confirmation window at bar `n`. -/
def Ea.Block.waiting (p : Ea.ObInputs) (n : Nat) (b : Ea.Block) : Bool := (n : Int) - b.bornBar ≤ p.obConfirmBars

/-- Active, and not mitigated. -/
def Ea.Block.live (b : Ea.Block) : Bool := b.active && !b.mitigated

def OrderBlock.waiting (p : Ea.ObInputs) (n : Nat) (ob : OrderBlock) : Bool :=
  (n : Int) + 1 - ob.bornBar ≤ p.obConfirmBars

def OrderBlock.live (ob : OrderBlock) : Bool := !ob.mitigated

/-- A candidate of the tracker, and the block of the walk for it. The bar counter of the tracker starts at 1. -/
def SameCandidate (ob : OrderBlock) (b : Ea.Block) : Prop :=
  ob.top = b.top ∧ ob.bottom = b.bottom ∧ ob.bornBar = b.bornBar + 1 ∧ ob.mitigated = false

def SameZone (ob : OrderBlock) (b : Ea.Block) : Prop :=
  ob.top = b.top ∧ ob.bottom = b.bottom ∧ ob.bornBar ≤ b.bornBar + 1

theorem SameCandidate.waiting {ob : OrderBlock} {b : Ea.Block} (h : SameCandidate ob b) (p : Ea.ObInputs) (n : Nat) :
    ob.waiting p n = b.waiting p n := by
  rw [OrderBlock.waiting, Ea.Block.waiting, h.2.2.1]
  congr 2
  omega

/-- The blocks of a direction before bar `n`: those up to its last event, and the candidates since. -/
structure Split (p : Ea.ObInputs) (n : Nat) (old fresh : List Ea.Block) (pend act : List OrderBlock) : Prop where
  idle : ∀ b ∈ fresh, b.active = false ∧ b.mitigated = false
  cands : List.Forall₂ SameCandidate (pend.filter (OrderBlock.waiting p n)) (fresh.filter (Ea.Block.waiting p n))
  live : List.Forall₂ SameZone (act.filter OrderBlock.live) (old.filter Ea.Block.live)
  older : ∀ b ∈ old, ∀ ob ∈ pend, b.bornBar + 1 < ob.bornBar
  oldPast : ∀ b ∈ old, b.bornBar < n
  freshPast : ∀ b ∈ fresh, b.bornBar ≤ n

namespace Split

variable {p : Ea.ObInputs} {n : Nat} {old fresh : List Ea.Block} {pend act : List OrderBlock}

theorem push (h : Split p n old fresh pend act) {ob : OrderBlock} {b : Ea.Block} (hsame : SameCandidate ob b)
    (hborn : b.bornBar = n) (hidle : b.active = false ∧ b.mitigated = false)
    (hcap : ∀ ob ∈ pend.take (pend.length + 1 - OrderBlockTracker.maxPending), ob.waiting p n = false) :
    Split p n old (fresh ++ [b]) (pushBounded OrderBlockTracker.maxPending pend ob) act := by
  have hbob : ob.bornBar = n + 1 := by rw [hsame.2.2.1, hborn]
  refine ⟨?_, ?_, h.live, ?_, h.oldPast, ?_⟩
  · intro b' hb'
    rcases List.mem_append.mp hb' with hb' | hb'
    · exact h.idle b' hb'
    · rwa [List.mem_singleton.mp hb']
  · have htake : (pend ++ [ob]).take (pend.length + 1 - OrderBlockTracker.maxPending) =
        pend.take (pend.length + 1 - OrderBlockTracker.maxPending) := by
      rw [List.take_append_of_le_length]
      unfold OrderBlockTracker.maxPending
      omega
    rw [pushBounded, filter_drop (by rwa [htake]), List.filter_append, List.filter_append]
    refine List.rel_append h.cands ?_
    exact forall₂_filter (.cons hsame .nil) fun _ _ _ _ hpair => hpair.waiting p n
  · intro b' hb' ob' hob'
    rcases mem_pushBounded hob' with hob' | rfl
    · exact h.older b' hb' ob' hob'
    · have := h.oldPast b' hb'
      omega
  · intro b' hb'
    rcases List.mem_append.mp hb' with hb' | hb'
    · exact h.freshPast b' hb'
    · rw [List.mem_singleton.mp hb', hborn]

section bar

variable {c : Candle} {r : Ea.Rates} {t : OrderBlockTracker} {direction : Direction}

/-- A bar that neither closes through the zone nor trades into it. -/
def spares (direction : Direction) (c : Candle) (ob : OrderBlock) : Bool :=
  !OrderBlockTracker.invalidated ob direction c && !OrderBlockTracker.touches ob c

/-- What stays on offer of the tracker's blocks, when none of them expires unnoticed. -/
theorem survive_live (hexpiry : ∀ ob ∈ act, ob.mitigated = false → t.expiryBars ≤ t.bar - ob.bornBar →
      spares direction c ob = false) :
    (act.filterMap (t.survive c direction)).filter OrderBlock.live =
      (act.filter OrderBlock.live).filter (spares direction c) := by
  have hone (ob : OrderBlock) (hob : ob ∈ act) : (t.survive c direction ob).filter OrderBlock.live =
      Option.guard (fun ob => spares direction c ob && ob.live) ob := by
    have h := hexpiry ob hob
    unfold OrderBlockTracker.survive
    cases hm : ob.mitigated with
    | true =>
      have hlive : ob.live = false := by simp [OrderBlock.live, hm]
      split_ifs <;> simp [OrderBlock.live, Option.guard, hm]
    | false =>
      have hlive : ob.live = true := by simp [OrderBlock.live, hm]
      split_ifs with hold hinv
      · simp [Option.guard, h hm hold]
      · simp [Option.guard, spares, hinv]
      · cases htouch : OrderBlockTracker.touches ob c with
        | true => simp [OrderBlock.live, Option.guard, spares, htouch]
        | false =>
          have hsame : ({ ob with mitigated := false } : OrderBlock) = ob := by rw [← hm]
          simp [OrderBlock.live, Option.guard, spares, htouch, hinv, hm, hsame]
  rw [List.filter_filter, List.filter_filterMap, ← List.filterMap_eq_filter]
  exact List.filterMap_congr hone

theorem sweep_bornBar (p : Ea.ObInputs) (r : Ea.Rates) (n : Nat) (b : Ea.Block) :
    (b.sweep p r n).bornBar = b.bornBar := by
  unfold Ea.Block.sweep
  split_ifs <;> rfl

/-- Bar `n` leaves the block on offer. -/
def keeps (p : Ea.ObInputs) (r : Ea.Rates) (n : Nat) (b : Ea.Block) : Bool :=
  !b.closedThrough (r.cl n) && !decide (p.obExpiryBars < (n : Int) - b.bornBar) &&
    !(decide (b.bottom ≤ r.hi n) && decide (r.lo n ≤ b.top))

theorem sweep_live (hpast : ∀ b ∈ old, b.bornBar < n) :
    (old.map (Ea.Block.sweep p r n)).filter Ea.Block.live =
      (old.filter Ea.Block.live).filter (keeps p r n) := by
  have hone (b : Ea.Block) (hb : b ∈ old) : Option.guard Ea.Block.live (b.sweep p r n) =
      Option.guard (fun b => keeps p r n b && b.live) b := by
    have hborn := hpast b hb
    unfold Ea.Block.sweep
    rw [if_neg (c := (n : Int) ≤ b.bornBar) (by omega)]
    split_ifs with hidle hclosed hold htouch
    · have hlive : b.live = false := by
        rcases hidle with h | h <;> simp [Ea.Block.live, h]
      simp [Option.guard, hlive]
    · simp [Option.guard, Ea.Block.live, keeps, hclosed]
    · simp [Option.guard, Ea.Block.live, keeps, hold]
    · simp [Option.guard, Ea.Block.live, keeps, htouch]
    · have hmiss : (decide (b.bottom ≤ r.hi n) && decide (r.lo n ≤ b.top)) = false := by
        rw [← Bool.decide_and]
        exact decide_eq_false htouch
      have hkeep : keeps p r n b = true := by
        simp only [keeps, hmiss]
        simp [hclosed, hold]
      simp [Option.guard, hkeep]
  rw [List.filter_filter, ← List.filterMap_eq_filter, ← List.filterMap_eq_filter, List.filterMap_map]
  exact List.filterMap_congr hone

/-- A sweep leaves the same zones on offer, when no block of the tracker expires unnoticed. -/
theorem sweep (h : Split p n old fresh pend act) (hdir : ∀ b ∈ old, b.dir = direction)
    (hclose : r.cl n = c.close) (hhigh : r.hi n = c.high) (hlow : r.lo n = c.low)
    (hage : t.expiryBars = p.obExpiryBars) (hbar : t.bar = n + 1)
    (hexpiry : ∀ ob ∈ act, ob.mitigated = false → t.expiryBars ≤ t.bar - ob.bornBar →
      spares direction c ob = false) :
    List.Forall₂ SameZone ((act.filterMap (t.survive c direction)).filter OrderBlock.live)
      ((old.map (Ea.Block.sweep p r n)).filter Ea.Block.live) := by
  rw [survive_live hexpiry, sweep_live h.oldPast]
  refine forall₂_filter h.live fun ob hob b hb hsame => ?_
  obtain ⟨htop, hbottom, hborn⟩ := hsame
  obtain ⟨hact, hlive⟩ := List.mem_filter.mp hob
  have hclosed : b.closedThrough (r.cl n) = OrderBlockTracker.invalidated ob direction c := by
    have := hdir b (List.mem_of_mem_filter hb)
    cases direction <;> simp only [Ea.Block.closedThrough, OrderBlockTracker.invalidated, this, hclose, hbottom, htop]
  have htouch : (decide (b.bottom ≤ r.hi n) && decide (r.lo n ≤ b.top)) = OrderBlockTracker.touches ob c := by
    rw [OrderBlockTracker.touches, hhigh, hlow, ← hbottom, ← htop, Bool.and_comm]
  by_cases hold : p.obExpiryBars < (n : Int) - b.bornBar
  · -- the clock of the tracker started earlier, so the block has expired there too
    have hnone := hexpiry ob hact (by simpa [OrderBlock.live] using hlive) (by omega)
    rw [hnone, keeps, decide_eq_true hold]
    simp
  · rw [spares, keeps, hclosed, htouch, decide_eq_false hold]
    simp

theorem promote (h : Split p n old fresh pend act) (hdir : ∀ b ∈ fresh, b.dir = direction) :
    List.Forall₂ SameZone ((pend.filter (OrderBlock.waiting p n)).filter OrderBlock.live)
      ((fresh.map (Ea.Block.promote p n (some direction))).filter Ea.Block.live) := by
  have hone (b : Ea.Block) (hb : b ∈ fresh) : Option.guard Ea.Block.live (b.promote p n (some direction)) =
      (Option.guard (Ea.Block.waiting p n) b).map fun b => { b with active := true, bornBar := n } := by
    obtain ⟨hactive, hmit⟩ := h.idle b hb
    by_cases hwait : (n : Int) - b.bornBar ≤ p.obConfirmBars
    · simp [Ea.Block.promote, Ea.Block.waiting, Ea.Block.live, Option.guard, hactive, hmit, hwait, hdir b hb]
    · simp [Ea.Block.promote, Ea.Block.waiting, Ea.Block.live, Option.guard, hactive, hwait]
  have hlist : (fresh.map (Ea.Block.promote p n (some direction))).filter Ea.Block.live =
      (fresh.filter (Ea.Block.waiting p n)).map fun b => { b with active := true, bornBar := n } := by
    rw [← List.filterMap_eq_filter, ← List.filterMap_eq_filter, List.filterMap_map, List.map_filterMap]
    exact List.filterMap_congr hone
  have hall := forall₂_filter (q := fun _ => true) h.cands (p := OrderBlock.live)
    fun ob _ b _ hsame => by simp [OrderBlock.live, hsame.2.2.2]
  rw [List.filter_true] at hall
  rw [hlist, List.forall₂_map_right_iff]
  refine forall₂_imp_mem hall fun ob b hb hsame => ?_
  have hpast := h.freshPast b (List.mem_of_mem_filter hb)
  exact ⟨hsame.1, hsame.2.1, by have := hsame.2.2.1; simp only; omega⟩

theorem drop (h : Split p n old fresh pend act) :
    List.Forall₂ SameCandidate ((pend.dropWhile fun ob => !ob.waiting p n).filter (OrderBlock.waiting p (n + 1)))
      (fresh.filter (Ea.Block.waiting p (n + 1))) := by
  have hob (ob : OrderBlock) (hlate : ob.waiting p (n + 1) = true) : ob.waiting p n = true := by
    simp only [OrderBlock.waiting, decide_eq_true_eq] at hlate ⊢
    omega
  have hb (b : Ea.Block) (hlate : b.waiting p (n + 1) = true) : b.waiting p n = true := by
    simp only [Ea.Block.waiting, decide_eq_true_eq] at hlate ⊢
    omega
  have hpend : pend.filter (OrderBlock.waiting p (n + 1)) =
      (pend.filter (OrderBlock.waiting p n)).filter (OrderBlock.waiting p (n + 1)) := by
    rw [List.filter_filter]
    refine List.filter_congr fun ob _ => ?_
    cases hlate : ob.waiting p (n + 1) with
    | false => rfl
    | true => simp [hob ob hlate]
  have hfresh : fresh.filter (Ea.Block.waiting p (n + 1)) =
      (fresh.filter (Ea.Block.waiting p n)).filter (Ea.Block.waiting p (n + 1)) := by
    rw [List.filter_filter]
    refine List.filter_congr fun b _ => ?_
    cases hlate : b.waiting p (n + 1) with
    | false => rfl
    | true => simp [hb b hlate]
  rw [filter_dropWhile, hpend, hfresh]
  · exact forall₂_filter h.cands fun _ _ _ _ hsame => hsame.waiting p (n + 1)
  · intro ob hout
    by_contra hlate
    have := hob ob (by simpa using hlate)
    simp [this] at hout

theorem sweep_idle (h : Split p n old fresh pend act) (event : Option Direction) :
    (fresh.map (Ea.Block.promote p n event)).map (Ea.Block.sweep p r n) =
      fresh.map (Ea.Block.promote p n event) := by
  rw [List.map_map]
  refine List.map_congr_left fun b hb => ?_
  obtain ⟨hactive, hmit⟩ := h.idle b hb
  simp only [Function.comp_apply, Ea.Block.promote]
  split
  · simp [Ea.Block.sweep, hmit]
  · simp [Ea.Block.sweep, hactive]

theorem promote_old {event : Option Direction} (hdir : ∀ b ∈ old, b.dir = direction)
    (hrevive : event = some direction → ∀ b ∈ old, b.active = false → b.waiting p n = false) :
    old.map (Ea.Block.promote p n event) = old := by
  refine (List.map_congr_left fun b hb => ?_).trans (List.map_id old)
  unfold Ea.Block.promote
  rw [if_neg]
  · rfl
  · rintro ⟨hactive, hevent, hwait⟩
    rw [hdir b hb] at hevent
    have hlate := hrevive hevent b hb hactive
    exact absurd hwait (of_decide_eq_false hlate)

theorem promote_other {event : Option Direction}
    (hdir : ∀ b ∈ fresh, b.dir = direction) (hevent : event ≠ some direction) :
    fresh.map (Ea.Block.promote p n event) = fresh := by
  refine (List.map_congr_left fun b hb => ?_).trans (List.map_id fresh)
  unfold Ea.Block.promote
  rw [if_neg]
  · rfl
  · rintro ⟨-, heq, -⟩
    rw [hdir b hb] at heq
    exact hevent heq

/-- **One bar of one direction.** `pend` already holds the candidate of the bar. -/
theorem next (h : Split p n old fresh pend act) {event : Option Direction} {maxBlocks : Nat}
    (hdir : ∀ b ∈ old ++ fresh, b.dir = direction)
    (hclose : r.cl n = c.close) (hhigh : r.hi n = c.high) (hlow : r.lo n = c.low)
    (hage : t.expiryBars = p.obExpiryBars) (hbar : t.bar = n + 1)
    (hexpiry : ∀ ob ∈ act, ob.mitigated = false → t.expiryBars ≤ t.bar - ob.bornBar →
      spares direction c ob = false)
    (hrevive : event = some direction → ∀ b ∈ old, b.active = false → b.waiting p n = false)
    (hroom : event = some direction →
      let reg := act.filterMap (t.survive c direction)
      let confirmed := pend.filter (OrderBlock.waiting p n)
      ∀ ob ∈ (reg ++ confirmed).take (reg.length + confirmed.length - maxBlocks), ob.mitigated = true) :
    ∃ old' fresh',
      ((old ++ fresh).map (Ea.Block.promote p n event)).map (Ea.Block.sweep p r n) = old' ++ fresh' ∧
        Split p (n + 1) old' fresh'
          ((if event = some direction then [] else pend).dropWhile fun ob => !ob.waiting p n)
          (if event = some direction then
            (pend.filter (OrderBlock.waiting p n)).foldl (pushBounded maxBlocks) (act.filterMap (t.survive c direction))
          else act.filterMap (t.survive c direction)) := by
  have hold (b : Ea.Block) (hb : b ∈ old) : b.dir = direction := hdir b (List.mem_append_left _ hb)
  have hfresh (b : Ea.Block) (hb : b ∈ fresh) : b.dir = direction := hdir b (List.mem_append_right _ hb)
  have hsweep := h.sweep hold hclose hhigh hlow hage hbar hexpiry
  have hborn (b : Ea.Block) (hb : b ∈ old.map (Ea.Block.sweep p r n)) : ∃ b' ∈ old, b.bornBar = b'.bornBar := by
    obtain ⟨b', hb', rfl⟩ := List.mem_map.mp hb
    exact ⟨b', hb', sweep_bornBar p r n b'⟩
  have hlist : ((old ++ fresh).map (Ea.Block.promote p n event)).map (Ea.Block.sweep p r n) =
      old.map (Ea.Block.sweep p r n) ++ fresh.map (Ea.Block.promote p n event) := by
    rw [List.map_append, List.map_append, promote_old hold hrevive, h.sweep_idle]
  by_cases hevent : event = some direction
  · refine ⟨_, [], by rw [hlist, List.append_nil], ?_⟩
    rw [if_pos hevent, if_pos hevent, hevent]
    refine ⟨by simp, by simp, ?_, by simp, ?_, by simp⟩
    · rw [filter_foldl_pushBounded fun ob hob => by simp [OrderBlock.live, hroom hevent ob hob], List.filter_append]
      exact List.rel_append hsweep (h.promote hfresh)
    · intro b hb
      rcases List.mem_append.mp hb with hb | hb
      · obtain ⟨b', hb', hsame⟩ := hborn b hb
        have := h.oldPast b' hb'
        omega
      · obtain ⟨b', hb', rfl⟩ := List.mem_map.mp hb
        have := h.freshPast b' hb'
        unfold Ea.Block.promote
        split
        · simp
        · omega
  · refine ⟨old.map (Ea.Block.sweep p r n), fresh, by rw [hlist, promote_other hfresh hevent], ?_⟩
    rw [if_neg hevent, if_neg hevent]
    refine ⟨h.idle, h.drop, hsweep, ?_, ?_, ?_⟩
    · intro b hb ob hob
      obtain ⟨b', hb', hsame⟩ := hborn b hb
      have := h.older b' hb' ob (List.dropWhile_subset _ hob)
      omega
    · intro b hb
      obtain ⟨b', hb', hsame⟩ := hborn b hb
      have := h.oldPast b' hb'
      omega
    · intro b hb
      have := h.freshPast b hb
      omega

end bar

end Split

/-! ### The last opposite bar -/

theorem find?_of_map {α β : Type} {xs : List α} {ks : List β} {f : β → Option α} {q : α → Bool} {q' : β → Bool}
    (h : xs.map some = ks.map f) (hq : ∀ k ∈ ks, ∀ x, f k = some x → q' k = q x) :
    xs.find? q = (ks.find? q').bind f := by
  induction ks generalizing xs with
  | nil =>
    rw [List.map_nil, List.map_eq_nil_iff] at h
    rw [h]
    rfl
  | cons k ks ih =>
    cases xs with
    | nil => simp at h
    | cons x xs =>
      rw [List.map_cons, List.map_cons, List.cons.injEq] at h
      have hk := hq k List.mem_cons_self x h.1.symm
      have hrest := ih h.2 fun k hk => hq k (List.mem_cons_of_mem _ hk)
      by_cases hx : q x = true
      · rw [List.find?_cons_of_pos hx, List.find?_cons_of_pos (hk.trans hx), Option.bind_some, h.1]
      · rw [List.find?_cons_of_neg hx, List.find?_cons_of_neg (by rwa [hk]), hrest]

theorem recent_map {bars : List Candle} {n : Nat} (hn : n ≤ bars.length) :
    ((bars.take n).drop (n - 10)).reverse.map some = ((List.range n).reverse.take 10).map (bars[·]?) := by
  apply List.ext_getElem
  · simp
    omega
  · intro i h1 h2
    simp only [List.length_map, List.length_take, List.length_reverse, List.length_range] at h2
    have hlt : n - 1 - i < bars.length := by omega
    simp only [List.getElem_map, List.getElem_reverse, List.getElem_drop, List.getElem_take, List.getElem_range,
      List.length_drop, List.length_take, List.length_range]
    rw [List.getElem?_eq_getElem hlt]
    congr 2
    omega

theorem candidate_same {p : Ea.ObInputs} {bars : List Candle} {n : Nat} {w : Ea.Walk} {t : OrderBlockTracker}
    {c : Candle} {direction : Direction} (hn : n < bars.length) (hrecent : t.recent = (bars.take n).drop (n - 10))
    (hbar : t.bar = n + 1) (hsame : w.displacement p (Ea.Rates.copy bars) n = t.displacement c) :
    (t.candidate c direction = none ∧ w.candidate p (Ea.Rates.copy bars) n direction = none) ∨
      ∃ ob b, t.candidate c direction = some ob ∧ w.candidate p (Ea.Rates.copy bars) n direction = some b ∧
        SameCandidate ob b ∧ b.bornBar = n ∧ (b.active = false ∧ b.mitigated = false) ∧ b.dir = direction := by
  have hfind : t.recent.reverse.find? (OrderBlockTracker.opposite direction) =
      (((List.range n).reverse.take 10).find? (Ea.opposite (Ea.Rates.copy bars) direction)).bind (bars[·]?) := by
    rw [hrecent]
    refine find?_of_map (recent_map hn.le) fun k _ x hk => ?_
    obtain ⟨hlt, rfl⟩ := List.getElem?_eq_some_iff.mp hk
    cases direction <;>
      simp [Ea.opposite, OrderBlockTracker.opposite, Ea.Rates.cl_copy hlt, Ea.Rates.op_copy hlt]
  unfold OrderBlockTracker.candidate Ea.Walk.candidate
  rw [hsame, hfind]
  by_cases hd : t.displacement c = some direction
  · rw [if_pos hd, if_pos hd]
    cases hk : ((List.range n).reverse.take 10).find? (Ea.opposite (Ea.Rates.copy bars) direction) with
    | none => exact Or.inl ⟨rfl, rfl⟩
    | some k =>
      have hlt : k < bars.length := by
        have := List.mem_range.mp (List.mem_reverse.mp (List.mem_of_mem_take (List.mem_of_find?_eq_some hk)))
        omega
      right
      rw [Option.bind_some, List.getElem?_eq_getElem hlt]
      refine ⟨_, _, rfl, rfl, ⟨?_, ?_, ?_, rfl⟩, rfl, ⟨rfl, rfl⟩, rfl⟩
      · exact (Ea.Rates.hi_copy hlt).symm
      · exact (Ea.Rates.lo_copy hlt).symm
      · exact hbar
  · rw [if_neg hd, if_neg hd]
    exact Or.inl ⟨rfl, rfl⟩

/-! ### Queries -/

theorem forall₂_find? {α β : Type} {R : α → β → Prop} {xs : List α} {ys : List β} {p : α → Bool} {q : β → Bool}
    (h : List.Forall₂ R xs ys) (hpq : ∀ x y, R x y → p x = q y) : Option.Rel R (xs.find? p) (ys.find? q) := by
  induction h with
  | nil => exact .none
  | @cons x y xs ys hxy _ ih =>
    by_cases hx : p x = true
    · rw [List.find?_cons_of_pos hx, List.find?_cons_of_pos (hpq x y hxy ▸ hx)]
      exact .some hxy
    · rw [List.find?_cons_of_neg hx, List.find?_cons_of_neg (hpq x y hxy ▸ hx)]
      exact ih

theorem Split.query {p : Ea.ObInputs} {n : Nat} {old fresh : List Ea.Block} {w : Ea.Walk} {z : Zones}
    {direction : Direction} (hside : Ea.side direction w.blocks = old ++ fresh)
    (h : Split p n old fresh (z.ob.pending.get direction) (z.ob.active.get direction)) (lo hi : ℚ) :
    w.best direction lo hi = z.poiAt lo hi direction := by
  have hwalk : w.blocks.reverse.find? (Ea.Block.offers direction lo hi) =
      (old.filter Ea.Block.live).reverse.find? fun b => decide (b.bottom ≤ hi) && decide (lo ≤ b.top) := by
    have hfresh : fresh.reverse.find? (Ea.Block.offers direction lo hi) = none := by
      rw [List.find?_eq_none]
      intro b hb
      simp [Ea.Block.offers, (h.idle b (List.mem_reverse.mp hb)).1]
    have hdir (b : Ea.Block) : b.offers direction lo hi =
        decide (decide (b.dir = direction) = true ∧ b.offers direction lo hi = true) := by
      by_cases hd : b.dir = direction <;> simp [Ea.Block.offers, hd]
    have hlive (b : Ea.Block) (hb : b ∈ old.reverse) : b.offers direction lo hi =
        decide (b.live = true ∧ (decide (b.bottom ≤ hi) && decide (lo ≤ b.top)) = true) := by
      have hmem : b ∈ Ea.side direction w.blocks := by
        rw [hside]
        exact List.mem_append_left _ (List.mem_reverse.mp hb)
      have hd : b.dir = direction := by simpa [Ea.side] using (List.mem_filter.mp hmem).2
      simp [Ea.Block.offers, Ea.Block.live, hd, and_assoc, Bool.and_assoc]
    calc w.blocks.reverse.find? (Ea.Block.offers direction lo hi)
        = (Ea.side direction w.blocks).reverse.find? (Ea.Block.offers direction lo hi) := by
          rw [Ea.side, ← List.filter_reverse, List.find?_filter]
          congr 1
          exact funext hdir
      _ = old.reverse.find? (Ea.Block.offers direction lo hi) := by
          rw [hside, List.reverse_append, List.find?_append, hfresh, Option.none_or]
      _ = (old.filter Ea.Block.live).reverse.find? fun b => decide (b.bottom ≤ hi) && decide (lo ≤ b.top) := by
          rw [← List.filter_reverse, List.find?_filter]
          exact List.find?_congr hlive
  have htracker : (z.ob.active.get direction).reverse.find? (OrderBlockTracker.offers lo hi) =
      ((z.ob.active.get direction).filter OrderBlock.live).reverse.find?
        fun ob => decide (ob.bottom ≤ hi) && decide (lo ≤ ob.top) := by
    rw [← List.filter_reverse, List.find?_filter]
    refine List.find?_congr fun ob _ => ?_
    simp [OrderBlockTracker.offers, OrderBlock.live, Bool.and_assoc]
  have hpoi : z.poiAt lo hi direction =
      ((z.ob.active.get direction).reverse.find? (OrderBlockTracker.offers lo hi)).map fun ob => (ob.top, ob.bottom) := by
    have hfind := congrArg (Option.map fun ob : OrderBlock => (ob.top, ob.bottom))
      (OrderBlockTracker.consume_find (OrderBlockTracker.offers lo hi) (z.ob.active.get direction).reverse)
    rw [Option.map_map, Option.map_map] at hfind
    rw [Zones.poiAt, OrderBlockTracker.poiAt, Option.map_map]
    exact hfind
  have hsame := forall₂_find? (List.forall₂_reverse_iff.mpr h.live)
    (p := fun ob => decide (ob.bottom ≤ hi) && decide (lo ≤ ob.top))
    (q := fun b => decide (b.bottom ≤ hi) && decide (lo ≤ b.top))
    fun ob b hpair => by rw [hpair.1, hpair.2.1]
  rw [Ea.Walk.best, hwalk, hpoi, htracker]
  generalize ((z.ob.active.get direction).filter OrderBlock.live).reverse.find? _ = x at hsame ⊢
  generalize (old.filter Ea.Block.live).reverse.find? _ = y at hsame ⊢
  cases hsame with
  | none => rfl
  | some hpair => rw [Option.map_some, Option.map_some, hpair.1, hpair.2.1]

/-! ### The two fed side by side -/

/-- The trackers and the walk, fed the same bars. -/
structure Parity where
  n : Nat := 0
  zones : Zones
  walk : Ea.Walk

namespace Parity

variable (p : Ea.ObInputs) (r : Ea.Rates) (maxSwings maxBlocks : Int)

def start : Parity where
  zones := Zones.start p maxSwings maxBlocks
  walk := { prevClose := r.cl 0 }

/-- The loop of the EA begins at bar 1. -/
def step (s : Parity) (c : Candle) : Parity where
  n := s.n + 1
  zones := s.zones.step c
  walk := if s.n = 0 then s.walk else Ea.walkBar p r s.walk s.n

variable (s : Parity) (c : Candle) (direction : Direction)

/-- The bar breaks the structure in the direction. -/
def breaks : Prop := (s.zones.struct.update c).1.map (·.direction) = some direction

instance : Decidable (breaks s c direction) := inferInstanceAs (Decidable (_ = _))

/-- A candidate that the cap of five drops is past its window. -/
def PendingSpared : Prop :=
  s.zones.ob.displacement c = some direction →
    ∀ ob ∈ (s.zones.ob.pending.get direction).take
      ((s.zones.ob.pending.get direction).length + 1 - OrderBlockTracker.maxPending), s.zones.ob.tick.inWindow ob = false

/-- The blocks that the bar leaves, and those that it confirms. -/
def registry : List OrderBlock := (s.zones.ob.active.get direction).filterMap (s.zones.ob.tick.survive c direction)

def confirmed : List OrderBlock := (s.zones.ob.candidates c direction).filter s.zones.ob.tick.inWindow

/-- A block that the cap of the registry drops is mitigated. -/
def ActiveSpared : Prop :=
  breaks s c direction →
    ∀ ob ∈ (registry s c direction ++ confirmed s c direction).take
      ((registry s c direction).length + (confirmed s c direction).length - s.zones.ob.maxBlocks.toNat),
      ob.mitigated = true

/-- A bar at which an unmitigated block expires closes through it or trades into it. -/
def NoneExpires : Prop :=
  ∀ ob ∈ s.zones.ob.active.get direction, ob.mitigated = false →
    s.zones.ob.expiryBars ≤ s.zones.ob.tick.bar - ob.bornBar → Split.spares direction c ob = false

/-- Every block that an event makes active is a candidate of the tracker: none was active before. -/
def NoneRevived : Prop :=
  breaks s c direction →
    ∀ b ∈ Ea.side direction s.walk.blocks, b.active = false → b.waiting p s.n = true →
      ∃ ob ∈ s.zones.ob.pending.get direction, ob.bornBar = b.bornBar + 1

/-- Measured with and without the bar itself, the volatility gives the same verdict. -/
def SameMeasure : Prop :=
  0 < s.n → (s.walk.updateAtr p r s.n).displacement p r s.n = s.zones.ob.displacement c

/-- The bar reaches none of the differences. -/
def Agrees : Prop :=
  SameMeasure p r s c ∧ ∀ direction,
    PendingSpared s c direction ∧ ActiveSpared s c direction ∧ NoneExpires s c direction ∧ NoneRevived p s c direction

/-! ### What holds of both before bar `n` -/

structure Rel (p : Ea.ObInputs) (bars : List Candle) (n : Nat) (s : Parity) : Prop where
  fed : s.n = n
  follows : Follows p.swingLookback bars n s.zones.struct s.walk.refs
  apart : s.walk.refs.Apart (Ea.Rates.copy bars) p.swingLookback n n
  early : n ≤ 2 * p.swingLookback → s.walk.refs = {}
  bar : s.zones.ob.bar = n
  recent : s.zones.ob.recent = (bars.take n).drop (n - 10)
  confirmBars : s.zones.ob.confirmBars = p.obConfirmBars
  expiryBars : s.zones.ob.expiryBars = p.obExpiryBars
  quiet : n ≤ 2 * p.swingLookback + 1 → ∀ direction, s.zones.ob.active.get direction = []
  sides : ∀ direction, ∃ old fresh, Ea.side direction s.walk.blocks = old ++ fresh ∧
    Split p n old fresh (s.zones.ob.pending.get direction) (s.zones.ob.active.get direction)
  walked : s.walk = (List.range' 1 (n - 1)).foldl (Ea.walkBar p (Ea.Rates.copy bars))
    { prevClose := (Ea.Rates.copy bars).cl 0 }

variable {p : Ea.ObInputs} {bars : List Candle} {n : Nat} {s : Parity}

/-- The first bar with a full window breaks nothing: its own window holds it. -/
theorem breakDir_first {lb : Nat} (hlb : 1 ≤ lb) (hn : n < bars.length) (hfull : 2 * lb ≤ n) :
    (({} : Ea.Refs).confirm (Ea.Rates.copy bars) lb n).breakDir (Ea.Rates.copy bars) n = none := by
  have hclose := Ea.Rates.cl_copy hn
  have hup (hhigh : (Ea.Rates.copy bars).isHigh lb (n - lb) = true) :
      (Ea.Rates.copy bars).cl n ≤ (Ea.Rates.copy bars).hi (n - lb) := by
    have hlt := (Ea.Rates.isHigh_iff (by omega)).mp hhigh n (by omega) (by omega) (by omega)
    rw [Ea.Rates.hi_copy hn] at hlt
    exact hclose ▸ bars[n].close_le_high.trans hlt.le
  have hdn (hlow : (Ea.Rates.copy bars).isLow lb (n - lb) = true) :
      (Ea.Rates.copy bars).lo (n - lb) ≤ (Ea.Rates.copy bars).cl n := by
    have hlt := (Ea.Rates.isLow_iff (by omega)).mp hlow n (by omega) (by omega) (by omega)
    rw [Ea.Rates.lo_copy hn] at hlt
    exact hclose ▸ hlt.le.trans bars[n].low_le_close
  have hnoUp : ((({} : Ea.Refs).confirm (Ea.Rates.copy bars) lb n).high.any
      fun sp => sp.price < (Ea.Rates.copy bars).cl n) = false := by
    simp only [Ea.Refs.confirm]
    split
    · next hhigh => simp [hup hhigh]
    · rfl
  have hnoDn : ((({} : Ea.Refs).confirm (Ea.Rates.copy bars) lb n).low.any
      fun sp => (Ea.Rates.copy bars).cl n < sp.price) = false := by
    simp only [Ea.Refs.confirm]
    split
    · next hlow => simp [hdn hlow]
    · rfl
  simp only [Ea.Refs.breakDir, hnoUp, hnoDn]
  rfl

theorem Rel.event (h : Rel p bars n s) (hlb : 1 ≤ p.swingLookback) (hn : n < bars.length) :
    let event := s.walk.eventDir p (Ea.Rates.copy bars) n
    let refs := (s.walk.seen p (Ea.Rates.copy bars) n).consume event
    (s.zones.struct.update bars[n]).1.map (·.direction) = event ∧
      Follows p.swingLookback bars (n + 1) (s.zones.struct.update bars[n]).2 refs ∧
      refs.Apart (Ea.Rates.copy bars) p.swingLookback (n + 1) (n + 1) ∧
      (n + 1 ≤ 2 * p.swingLookback → refs = {}) ∧ (n ≤ 2 * p.swingLookback → event = none) := by
  unfold Ea.Walk.eventDir Ea.Walk.seen
  by_cases hfull : 2 * p.swingLookback ≤ n
  · rw [if_pos hfull]
    obtain ⟨level, hupdate⟩ := h.follows.full h.apart hlb hn hfull
    refine ⟨?_, ?_, (h.apart.confirm hlb hn hfull).consume hn, by omega, ?_⟩
    · rw [hupdate, Option.map_map]
      exact Option.map_id'
    · rw [hupdate]
      exact ⟨h.follows.lookback, rfl, rfl, rfl⟩
    · intro hfirst
      rw [h.early hfirst]
      exact breakDir_first hlb hn hfull
  · rw [if_neg hfull, h.early (by omega)]
    have hfollows := h.follows
    rw [h.early (by omega)] at hfollows
    obtain ⟨hevent, hnext, -⟩ := hfollows.early hn (by omega) rfl rfl
    rw [hevent]
    exact ⟨rfl, hnext, Ea.Refs.apart_none _ _ _ _, fun _ => rfl, fun _ => rfl⟩

theorem Rel.push (h : Rel p bars n s) (hpos : 0 < n) (hn : n < bars.length) (direction : Direction)
    (hmeasure : SameMeasure p (Ea.Rates.copy bars) s bars[n]) (hcap : PendingSpared s bars[n] direction) :
    ∃ old fresh,
      Ea.side direction s.walk.blocks ++
          ((s.walk.updateAtr p (Ea.Rates.copy bars) n).candidate p (Ea.Rates.copy bars) n direction).toList =
        old ++ fresh ∧ (∀ b ∈ old ++ fresh, b.dir = direction) ∧ (∀ b ∈ old, b ∈ Ea.side direction s.walk.blocks) ∧
        (∀ b ∈ old, ∀ ob ∈ s.zones.ob.pending.get direction, b.bornBar + 1 < ob.bornBar) ∧
        Split p n old fresh (s.zones.ob.candidates bars[n] direction) (s.zones.ob.active.get direction) := by
  obtain ⟨old, fresh, hside, hsplit⟩ := h.sides direction
  have hdir (b : Ea.Block) (hb : b ∈ old ++ fresh) : b.dir = direction := by
    rw [← hside] at hb
    simpa [Ea.side] using (List.mem_filter.mp hb).2
  have hold (b : Ea.Block) (hb : b ∈ old) : b ∈ Ea.side direction s.walk.blocks := by
    rw [hside]
    exact List.mem_append_left _ hb
  have hsame : (s.walk.updateAtr p (Ea.Rates.copy bars) n).displacement p (Ea.Rates.copy bars) n =
      s.zones.ob.tick.displacement bars[n] := by
    have := hmeasure (h.fed ▸ hpos)
    rwa [h.fed] at this
  have hbar : s.zones.ob.tick.bar = n + 1 := by rw [OrderBlockTracker.tick, h.bar]
  unfold OrderBlockTracker.candidates
  rcases candidate_same (t := s.zones.ob.tick) hn h.recent hbar hsame with
    ⟨hnone, hnone'⟩ | ⟨ob, b, hob, hb, hpair, hborn, hidle, hbdir⟩
  · refine ⟨old, fresh, ?_, hdir, hold, hsplit.older, ?_⟩
    · rw [hnone', hside, Option.toList_none, List.append_nil]
    · rwa [hnone]
  · refine ⟨old, fresh ++ [b], ?_, ?_, hold, hsplit.older, ?_⟩
    · rw [hb, hside, Option.toList_some, List.append_assoc]
    · intro b' hb'
      rw [← List.append_assoc] at hb'
      rcases List.mem_append.mp hb' with hb' | hb'
      · exact hdir b' hb'
      · rwa [List.mem_singleton.mp hb']
    · rw [hob]
      refine hsplit.push hpair hborn hidle fun ob' hob' => ?_
      have hdisp : s.zones.ob.tick.displacement bars[n] = some direction := by
        by_contra hno
        rw [OrderBlockTracker.candidate, if_neg hno] at hob
        cases hob
      have := hcap hdisp ob' hob'
      rwa [OrderBlockTracker.inWindow, hbar, OrderBlockTracker.tick, h.confirmBars] at this

theorem Rel.inWindow (h : Rel p bars n s) : s.zones.ob.tick.inWindow = OrderBlock.waiting p n := by
  funext ob
  rw [OrderBlockTracker.inWindow, OrderBlockTracker.tick, h.bar, h.confirmBars, OrderBlock.waiting]

theorem Rel.old_out (h : Rel p bars n s) {c : Candle} {direction : Direction} {old : List Ea.Block}
    (holder : ∀ b ∈ old, ∀ ob ∈ s.zones.ob.pending.get direction, b.bornBar + 1 < ob.bornBar)
    (hold : ∀ b ∈ old, b ∈ Ea.side direction s.walk.blocks) (hrevived : NoneRevived p s c direction)
    (hbreaks : breaks s c direction) (b : Ea.Block) (hb : b ∈ old) (hactive : b.active = false) :
    b.waiting p n = false := by
  rw [← Bool.not_eq_true]
  intro hwait
  obtain ⟨ob, hob, hborn⟩ := hrevived hbreaks b (hold b hb) hactive (h.fed ▸ hwait)
  have := holder b hb ob hob
  omega

/-- **One bar of both**, which reaches none of the differences. -/
theorem Rel.next (h : Rel p bars n s) (hlb : 1 ≤ p.swingLookback) (hpos : 0 < n) (hn : n < bars.length)
    (hagrees : Agrees p (Ea.Rates.copy bars) s bars[n]) :
    Rel p bars (n + 1) (s.step p (Ea.Rates.copy bars) bars[n]) := by
  obtain ⟨hevent, hfollows, hapart, hearly, hquiet⟩ := h.event hlb hn
  obtain ⟨hmeasure, hdirs⟩ := hagrees
  have hstep : s.step p (Ea.Rates.copy bars) bars[n] =
      { n := n + 1, zones := s.zones.step bars[n], walk := Ea.walkBar p (Ea.Rates.copy bars) s.walk n } := by
    rw [step, h.fed, if_neg (by omega)]
  have hrest := s.zones.ob.update_rest bars[n] (s.zones.struct.update bars[n]).1
  rw [hstep]
  refine ⟨rfl, ?_, ?_, ?_, ?_, ?_, ?_, ?_, ?_, ?_, ?_⟩
  · rwa [Ea.walkBar_refs]
  · rwa [Ea.walkBar_refs]
  · rwa [Ea.walkBar_refs]
  · simp only [Zones.step]
    rw [hrest, h.bar]
    rfl
  · simp only [Zones.step]
    rw [hrest, h.recent]
    exact pushBounded_slice hn
  · simp only [Zones.step]
    rw [hrest, h.confirmBars]
  · simp only [Zones.step]
    rw [hrest, h.expiryBars]
  · intro hshort direction
    simp only [Zones.step]
    rw [OrderBlockTracker.update_active, hevent, hquiet (by omega), if_neg (by simp), h.quiet (by omega)]
    rfl
  · intro direction
    obtain ⟨hpending, hactive, hexpires, hrevived⟩ := hdirs direction
    obtain ⟨old, fresh, hside, hdir, hold, holder, hsplit⟩ := h.push hpos hn direction hmeasure hpending
    have hclose := Ea.Rates.cl_copy hn
    have hhigh := Ea.Rates.hi_copy hn
    have hlow := Ea.Rates.lo_copy hn
    have hbar : s.zones.ob.tick.bar = n + 1 := by rw [OrderBlockTracker.tick, h.bar]
    have hbreaks (hd : s.walk.eventDir p (Ea.Rates.copy bars) n = some direction) : breaks s bars[n] direction :=
      hevent.trans hd
    have hroom (hd : s.walk.eventDir p (Ea.Rates.copy bars) n = some direction) := hactive (hbreaks hd)
    unfold registry confirmed at hroom
    rw [h.inWindow] at hroom
    have hnext := hsplit.next (t := s.zones.ob.tick) hdir hclose hhigh hlow h.expiryBars hbar hexpires
      (fun hd => h.old_out holder hold hrevived (hbreaks hd)) hroom
    rw [Ea.walkBar_side, hside]
    simp only [Zones.step]
    rw [OrderBlockTracker.update_pending, OrderBlockTracker.update_active, hevent, h.inWindow]
    exact hnext
  · rw [h.walked, show n + 1 - 1 = n - 1 + 1 by omega, List.range'_1_concat, List.foldl_append, List.foldl_cons,
      List.foldl_nil, show 1 + (n - 1) = n by omega]

theorem rel_first {maxSwings maxBlocks : Int} (hlb : 1 ≤ p.swingLookback) (hn : 0 < bars.length) :
    Rel p bars 1 ((start p (Ea.Rates.copy bars) maxSwings maxBlocks).step p (Ea.Rates.copy bars) bars[0]) := by
  let z := Zones.start p maxSwings maxBlocks
  have hstart : Follows p.swingLookback bars 0 z.struct {} := ⟨rfl, by simp [z, Zones.start], rfl, rfl⟩
  obtain ⟨hevent, hfollows, -⟩ := hstart.early hn (by omega) rfl rfl
  have hrest := z.ob.update_rest bars[0] (z.struct.update bars[0]).1
  have hpending (direction : Direction) : (z.step bars[0]).ob.pending.get direction = [] := by
    have hnone : z.ob.candidates bars[0] direction = [] := by cases direction <;> rfl
    simp only [Zones.step]
    rw [OrderBlockTracker.update_pending, hnone]
    split <;> rfl
  have hactive (direction : Direction) : (z.step bars[0]).ob.active.get direction = [] := by
    simp only [Zones.step]
    rw [OrderBlockTracker.update_active, hevent, if_neg (by simp)]
    cases direction <;> rfl
  refine ⟨rfl, hfollows, Ea.Refs.apart_none _ _ _ _, fun _ => rfl, ?_, ?_, ?_, ?_, fun _ => hactive, ?_, rfl⟩
  · exact congrArg OrderBlockTracker.bar hrest
  · refine (congrArg OrderBlockTracker.recent hrest).trans ?_
    exact pushBounded_slice (n := 0) (m := 10) hn
  · exact congrArg OrderBlockTracker.confirmBars hrest
  · exact congrArg OrderBlockTracker.expiryBars hrest
  · intro direction
    refine ⟨[], [], rfl, ?_⟩
    have hp := hpending direction
    have ha := hactive direction
    exact ⟨by simp, hp ▸ by simp, ha ▸ by simp, by simp, by simp, by simp⟩

theorem rel_run {maxSwings maxBlocks : Int} (hlb : 1 ≤ p.swingLookback)
    (hmeet : Lib.StepsMeet (step p (Ea.Rates.copy bars)) (Agrees p (Ea.Rates.copy bars))
      (start p (Ea.Rates.copy bars) maxSwings maxBlocks) bars) (m : Nat) (hm : m + 1 ≤ bars.length) :
    Rel p bars (m + 1) (Lib.run (step p (Ea.Rates.copy bars)) (start p (Ea.Rates.copy bars) maxSwings maxBlocks)
      (bars.take (m + 1))) := by
  have hnext (n : Nat) (hn : n < bars.length) (s : Parity) :
      Lib.run (step p (Ea.Rates.copy bars)) s (bars.take (n + 1)) =
        (Lib.run (step p (Ea.Rates.copy bars)) s (bars.take n)).step p (Ea.Rates.copy bars) bars[n] := by
    rw [List.take_succ_eq_append_getElem hn, Lib.run_append]
    rfl
  induction m with
  | zero =>
    rw [hnext 0 (by omega)]
    exact rel_first hlb (by omega)
  | succ m ih =>
    rw [hnext _ (by omega)]
    exact (ih (by omega)).next hlb (by omega) (by omega) (hmeet.get _ _)

theorem run_zones (p : Ea.ObInputs) (r : Ea.Rates) (s : Parity) (cs : List Candle) :
    (Lib.run (step p r) s cs).zones = cs.foldl Zones.step s.zones := by
  induction cs generalizing s with
  | nil => rfl
  | cons c cs ih => exact ih _

end Parity

/-- **The EA and the tracker offer the same zone** after every series whose bars reach none of the differences. -/
theorem findOrderBlock_eq_poiAt {p : Ea.ObInputs} {maxSwings maxBlocks : Int} {bars : List Candle}
    (hlb : 1 ≤ p.swingLookback)
    (hmeet : Lib.StepsMeet (Parity.step p (Ea.Rates.copy bars)) (Parity.Agrees p (Ea.Rates.copy bars))
      (Parity.start p (Ea.Rates.copy bars) maxSwings maxBlocks) bars) (bias : Direction) (dL dH : ℚ) :
    Ea.findOrderBlock p (Ea.Rates.copy bars) bias dL dH =
      (bars.foldl Zones.step (Zones.start p maxSwings maxBlocks)).poiAt dL dH bias := by
  have hcnt : (Ea.Rates.copy bars).close.length = bars.length := by simp [Ea.Rates.copy]
  have hzones := Parity.run_zones p (Ea.Rates.copy bars) (Parity.start p (Ea.Rates.copy bars) maxSwings maxBlocks) bars
  unfold Ea.findOrderBlock
  rw [hcnt]
  by_cases hempty : bars.length = 0
  · rw [List.length_eq_zero_iff] at hempty
    subst hempty
    rw [if_pos (by simp)]
    cases bias <;> rfl
  · have hrel := Parity.rel_run hlb hmeet (bars.length - 1) (by omega)
    rw [show bars.length - 1 + 1 = bars.length by omega, List.take_length] at hrel
    rw [← show _ = bars.foldl Zones.step (Zones.start p maxSwings maxBlocks) from hzones]
    by_cases hshort : bars.length < 2 * p.swingLookback + 2
    · rw [if_pos hshort, Zones.poiAt, OrderBlockTracker.poiAt, hrel.quiet (by omega)]
      rfl
    · obtain ⟨old, fresh, hside, hsplit⟩ := hrel.sides bias
      rw [if_neg hshort, ← hrel.walked]
      exact hsplit.query hside dL dH

namespace Parity

instance (s : Parity) (c : Candle) (direction : Direction) : Decidable (PendingSpared s c direction) :=
  inferInstanceAs (Decidable (_ = _ → ∀ ob ∈ _, _ = _))

instance (s : Parity) (c : Candle) (direction : Direction) : Decidable (ActiveSpared s c direction) :=
  inferInstanceAs (Decidable (breaks s c direction → ∀ ob ∈ _, _ = _))

instance (s : Parity) (c : Candle) (direction : Direction) : Decidable (NoneExpires s c direction) :=
  inferInstanceAs (Decidable (∀ ob ∈ _, _ = _ → _ ≤ _ → _ = _))

instance (p : Ea.ObInputs) (s : Parity) (c : Candle) (direction : Direction) : Decidable (NoneRevived p s c direction) :=
  inferInstanceAs (Decidable (breaks s c direction → ∀ b ∈ _, _ = _ → _ = _ → ∃ ob ∈ _, _ = _))

instance (p : Ea.ObInputs) (r : Ea.Rates) (s : Parity) (c : Candle) : Decidable (SameMeasure p r s c) :=
  inferInstanceAs (Decidable (_ < _ → _ = _))

/-- What holds of both directions holds of each. -/
instance {P : Direction → Prop} [DecidablePred P] : Decidable (∀ direction, P direction) :=
  decidable_of_iff (P .long ∧ P .short) ⟨fun h direction => Direction.casesOn direction h.1 h.2, fun h => ⟨h _, h _⟩⟩

instance (p : Ea.ObInputs) (r : Ea.Rates) (s : Parity) (c : Candle) : Decidable (Agrees p r s c) :=
  inferInstanceAs (Decidable (_ ∧ ∀ _, _ ∧ _ ∧ _ ∧ _))

end Parity

/-- A displacement that closes above the swing high before it, five times as large as the bars before. -/
def impulse : List Candle :=
  [barOf 0 10 11 9 10, barOf 1 10 12 10 10, barOf 2 (21 / 2) 11 9 (19 / 2), barOf 3 (19 / 2) 20 9 20]

theorem findOrderBlock_impulse :
    let p : Ea.ObInputs := { swingLookback := 1, atrPeriod := 2 }
    Ea.findOrderBlock p (Ea.Rates.copy impulse) .long 10 12 =
        (impulse.foldl Zones.step (Zones.start p 50 20)).poiAt 10 12 .long ∧
      Ea.findOrderBlock p (Ea.Rates.copy impulse) .long 10 12 = some (11, 9) :=
  ⟨findOrderBlock_eq_poiAt (by decide) (by decide +kernel) .long 10 12, by decide +kernel⟩

/-- Four-hour bars with a range of 1 and a swing high among them, then a displacement of 1.21 to a new high. -/
def marginal : List Candle :=
  (List.range 17).map fun k =>
    let ts := 240 * minuteMicros * k
    if k = 10 then barOf ts (1005 / 10) (1011 / 10) (1001 / 10) (1005 / 10)
    else if k = 15 then barOf ts (1006 / 10) 101 100 (1004 / 10)
    else if k = 16 then barOf ts (1001 / 10) (10121 / 100) 100 (1012 / 10)
    else barOf ts (1005 / 10) 101 100 (1005 / 10)

/-- **The displacement that the EA does not see.** The ATR of the tracker is that of the bars before, which is 1; the
EA takes the bar itself into its ATR, and 1.21 is less than 1.2 times that. -/
theorem findOrderBlock_misses :
    Ea.findOrderBlock {} (Ea.Rates.copy marginal) .long 100 101 = none ∧
      (marginal.foldl Zones.step (Zones.start {} 50 20)).poiAt 100 101 .long = some (101, 100) := by
  decide +kernel

end FreqTrading
