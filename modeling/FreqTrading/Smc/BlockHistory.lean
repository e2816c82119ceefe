import Mathlib.Data.List.Nodup
import FreqTrading.Lib.Run
import FreqTrading.Smc.OrderBlocks

/-!
# The history of an order block

A run of one tracker is a list of bars, each with its structure event, and of calls of `poi_at` between them; it
remembers the bars and the blocks returned. `History` says of every block where it comes from: born on a
displacement, confirmed inside the window, spared since. `Distinct` says that a zone, the bar a block was cut from
with its direction, stands in the registries once. Only the second needs a condition on the run: two
displacements can cut a block from one bar.
-/

namespace FreqTrading

open Lib OrderBlockTracker

/-! ### Runs -/

inductive BlockOp
  | update (c : Candle) (event : Option StructureEvent)
  | poiAt (lo hi : ℚ) (direction : Direction)

/-- A bar, and the tracker it was fed to. -/
structure FedBar where
  before : OrderBlockTracker
  candle : Candle
  event : Option StructureEvent

namespace FedBar

/-- The tracker's number of the bar. -/
def number (b : FedBar) : Int := b.before.bar + 1

/-- The zones that the bar brings as candidates. -/
def zones (b : FedBar) : List (Int × Direction) :=
  [.long, .short].filterMap fun direction => (b.before.tick.candidate b.candle direction).map fun ob => (ob.ts, direction)

end FedBar

structure BlockRun where
  tracker : OrderBlockTracker
  bars : List FedBar := []
  /-- What `poi_at` has returned. -/
  returned : List OrderBlock := []

/-- The bar a block was cut from, and the direction it supports. -/
def OrderBlock.zone (ob : OrderBlock) : Int × Direction := (ob.ts, ob.direction)

namespace BlockRun

def step (r : BlockRun) : BlockOp → BlockRun
  | .update c event => { r with tracker := r.tracker.update c event, bars := r.bars ++ [⟨r.tracker, c, event⟩] }
  | .poiAt lo hi direction =>
    match r.tracker.poiAt lo hi direction with
    | none => r
    | some (ob, t) => { r with tracker := t, returned := r.returned ++ [ob] }

def zones (r : BlockRun) : List (Int × Direction) := r.bars.flatMap FedBar.zones

variable {r : BlockRun} {c : Candle} {event : Option StructureEvent} {direction : Direction} {ob : OrderBlock}

/-! ### Where a block comes from -/

/-- The block was cut on this bar, a displacement in its direction. -/
structure Born (b : FedBar) (direction : Direction) (ob : OrderBlock) : Prop where
  displaced : b.before.displacement b.candle = some direction
  cut : b.before.tick.candidate b.candle direction = some { ob with mitigated := false }
  number : b.number = ob.bornBar

theorem Born.same {b : FedBar} {ob' : OrderBlock} (h : Born b direction ob)
    (hsame : { ob' with mitigated := false } = ({ ob with mitigated := false } : OrderBlock)) : Born b direction ob' := by
  refine ⟨h.displaced, ?_, ?_⟩
  · rw [hsame]
    exact h.cut
  · have hborn := congrArg (fun b : OrderBlock => b.bornBar) hsame
    exact h.number.trans hborn.symm

theorem candidate_spec {t : OrderBlockTracker} (h : t.tick.candidate c direction = some ob) :
    t.displacement c = some direction ∧ ob.mitigated = false ∧ ob.bornBar = t.bar + 1 ∧ ob.direction = direction := by
  unfold candidate at h
  split at h
  · next hdisp =>
    obtain ⟨prev, -, rfl⟩ := Option.map_eq_some_iff.mp h
    exact ⟨hdisp, rfl, rfl, rfl⟩
  · cases h

theorem born_of_candidate (h : r.tracker.tick.candidate c direction = some ob) :
    Born ⟨r.tracker, c, event⟩ direction ob := by
  obtain ⟨hdisp, hfresh, hborn, -⟩ := candidate_spec h
  refine ⟨hdisp, ?_, hborn.symm⟩
  rw [← hfresh]
  exact h

/-- No bar after this one has closed beyond the block, nor traded into it while it was on offer. -/
def SparedSince (r : BlockRun) (from' : Int) (direction : Direction) (ob : OrderBlock) : Prop :=
  ∀ b ∈ r.bars, from' < b.number →
    invalidated ob direction b.candle = false ∧ (ob.mitigated = false → touches ob b.candle = false)

/-- No bar since the block was cut has brought a break in its direction. -/
def Unbroken (r : BlockRun) (direction : Direction) (ob : OrderBlock) : Prop :=
  ∀ b ∈ r.bars, ob.bornBar ≤ b.number → b.event.map (·.direction) ≠ some direction

/-- The bar confirmed the block, inside the window: the first break in its direction since it was cut. -/
structure Confirmed (r : BlockRun) (b : FedBar) (direction : Direction) (ob : OrderBlock) : Prop where
  broke : b.event.map (·.direction) = some direction
  after : ob.bornBar ≤ b.number
  first : ∀ b' ∈ r.bars, ob.bornBar ≤ b'.number → b'.event.map (·.direction) = some direction → b.number ≤ b'.number
  inWindow : b.number - ob.bornBar ≤ r.tracker.confirmBars
  spared : SparedSince r b.number direction ob

/-- Where the blocks of a run come from. -/
structure History (r : BlockRun) : Prop where
  numbers : ∀ b ∈ r.bars, b.number ≤ r.tracker.bar
  pending : ∀ direction, ∀ ob ∈ r.tracker.pending.get direction, ob.mitigated = false ∧ ∃ b ∈ r.bars, Born b direction ob
  waiting : ∀ direction, ∀ ob ∈ r.tracker.pending.get direction, Unbroken r direction ob
  born : ∀ direction, ∀ ob ∈ r.tracker.active.get direction, ∃ b ∈ r.bars, Born b direction ob
  young : ∀ direction, ∀ ob ∈ r.tracker.active.get direction, r.tracker.bar - ob.bornBar < r.tracker.expiryBars
  confirmed : ∀ direction, ∀ ob ∈ r.tracker.active.get direction, ∃ b ∈ r.bars, Confirmed r b direction ob
  bounded : ∀ direction, (r.tracker.active.get direction).length ≤ r.tracker.maxBlocks.toNat

theorem survive_spec {t : OrderBlockTracker} {was : OrderBlock} (h : t.survive c direction was = some ob) :
    t.bar - was.bornBar < t.expiryBars ∧ invalidated was direction c = false ∧
      ob = { was with mitigated := was.mitigated || touches was c } := by
  unfold survive at h
  split at h
  · cases h
  · next hyoung =>
    split at h
    · cases h
    · next hfar =>
      cases h
      exact ⟨not_le.mp hyoung, by simpa using hfar, rfl⟩

theorem History.candidates (h : History r) (hob : ob ∈ r.tracker.candidates c direction) :
    ob.mitigated = false ∧ ∃ b ∈ r.bars ++ [⟨r.tracker, c, event⟩], Born b direction ob := by
  rcases mem_candidates hob with hold | hnew
  · obtain ⟨hfresh, b, hb, hborn⟩ := h.pending direction ob hold
    exact ⟨hfresh, b, List.mem_append_left _ hb, hborn⟩
  · exact ⟨(candidate_spec hnew).2.1, _, List.mem_append_right _ (List.mem_singleton_self _), born_of_candidate hnew⟩

theorem History.unbroken (h : History r) (hob : ob ∈ r.tracker.candidates c direction) {b : FedBar} (hb : b ∈ r.bars)
    (hborn : ob.bornBar ≤ b.number) : b.event.map (·.direction) ≠ some direction := by
  rcases mem_candidates hob with hold | hnew
  · exact h.waiting direction ob hold b hb hborn
  · -- the candidate of this bar is younger than every bar before it
    have hnumber := h.numbers b hb
    have hcut := (candidate_spec hnew).2.2.1
    omega

theorem History.survivor (h : History r) {was : OrderBlock} (hwas : was ∈ r.tracker.active.get direction)
    (hsurvive : r.tracker.tick.survive c direction was = some ob) :
    ∃ b ∈ r.bars ++ [⟨r.tracker, c, event⟩], Confirmed (r.step (.update c event)) b direction ob := by
  obtain ⟨-, hnear, rfl⟩ := survive_spec hsurvive
  obtain ⟨b, hb, hbroke, hafter, hfirst, hwindow, hspared⟩ := h.confirmed direction was hwas
  refine ⟨b, List.mem_append_left _ hb, hbroke, hafter, fun b' hb' hborn hevent => ?_, ?_, ?_⟩
  · rcases List.mem_append.mp hb' with hold | hnew
    · exact hfirst b' hold hborn hevent
    · obtain rfl := List.mem_singleton.mp hnew
      have := h.numbers b hb
      show b.number ≤ r.tracker.bar + 1
      omega
  · show b.number - was.bornBar ≤ (r.tracker.update c event).confirmBars
    rw [update_rest]
    exact hwindow
  · intro later hlater hlt
    rcases List.mem_append.mp hlater with hold | hnew
    · obtain ⟨hfar, htouch⟩ := hspared later hold hlt
      refine ⟨hfar, fun hmit => htouch ?_⟩
      simp only [Bool.or_eq_false_iff] at hmit
      exact hmit.1
    · obtain rfl := List.mem_singleton.mp hnew
      refine ⟨hnear, fun hmit => ?_⟩
      simp only [Bool.or_eq_false_iff] at hmit
      exact hmit.2

theorem History.number_le (h : History r) {b : FedBar} (hb : b ∈ r.bars ++ [⟨r.tracker, c, event⟩]) :
    b.number ≤ r.tracker.bar + 1 := by
  rcases List.mem_append.mp hb with hold | hnew
  · have := h.numbers b hold
    omega
  · obtain rfl := List.mem_singleton.mp hnew
    exact le_rfl

theorem History.confirmed_now (h : History r) (hevent : event.map (·.direction) = some direction)
    (hcandidate : ob ∈ r.tracker.candidates c direction) (hin : r.tracker.tick.inWindow ob = true) :
    Confirmed (r.step (.update c event)) ⟨r.tracker, c, event⟩ direction ob := by
  have hborn : ∃ b ∈ r.bars ++ [⟨r.tracker, c, event⟩], Born b direction ob := (h.candidates hcandidate).2
  obtain ⟨birth, hbirth, hborn⟩ := hborn
  have hafter : ob.bornBar ≤ r.tracker.bar + 1 := by
    rw [← hborn.number]
    exact h.number_le hbirth
  refine ⟨hevent, hafter, fun b hb hborn' hevent' => ?_, ?_, fun later hlater hlt => ?_⟩
  · rcases List.mem_append.mp hb with hold | hnew
    · exact absurd hevent' (h.unbroken hcandidate hold hborn')
    · obtain rfl := List.mem_singleton.mp hnew
      exact le_rfl
  · show r.tracker.bar + 1 - ob.bornBar ≤ (r.tracker.update c event).confirmBars
    rw [update_rest]
    unfold inWindow tick at hin
    simpa using hin
  · exact absurd (h.number_le hlater) (not_le.mpr hlt)

/-- **What a bar does to the history.** -/
theorem History.update (h : History r) (hconfirm : r.tracker.confirmBars < r.tracker.expiryBars) (c : Candle)
    (event : Option StructureEvent) : History (r.step (.update c event)) := by
  have hrest := update_rest r.tracker c event
  refine ⟨fun b hb => ?_, fun direction ob hob => ?_, fun direction ob hob b hb hborn => ?_, fun direction ob hob => ?_,
    fun direction ob hob => ?_, fun direction ob hob => ?_, fun direction => ?_⟩
  · show b.number ≤ (r.tracker.update c event).bar
    rw [hrest]
    exact h.number_le hb
  · exact h.candidates (mem_update_pending hob).1
  · obtain ⟨hcandidate, hevent⟩ := mem_update_pending hob
    rcases List.mem_append.mp hb with hold | hnew
    · exact h.unbroken hcandidate hold hborn
    · obtain rfl := List.mem_singleton.mp hnew
      exact hevent
  · rcases mem_update_active hob with ⟨was, hwas, hsurvive⟩ | ⟨-, hcandidate, -⟩
    · obtain ⟨-, -, rfl⟩ := survive_spec hsurvive
      obtain ⟨b, hb, hborn⟩ := h.born direction was hwas
      exact ⟨b, List.mem_append_left _ hb, hborn.same rfl⟩
    · exact (h.candidates hcandidate).2
  · have hbar : (r.tracker.update c event).bar = r.tracker.bar + 1 := by rw [hrest]
    have hexpiry : (r.tracker.update c event).expiryBars = r.tracker.expiryBars := by rw [hrest]
    show (r.tracker.update c event).bar - ob.bornBar < (r.tracker.update c event).expiryBars
    rw [hbar, hexpiry]
    rcases mem_update_active hob with ⟨was, hwas, hsurvive⟩ | ⟨-, -, hin⟩
    · obtain ⟨hyoung, -, rfl⟩ := survive_spec hsurvive
      exact hyoung
    · unfold inWindow tick at hin
      simp only [decide_eq_true_eq] at hin
      omega
  · rcases mem_update_active hob with ⟨was, hwas, hsurvive⟩ | ⟨hevent, hcandidate, hin⟩
    · exact h.survivor hwas hsurvive
    · exact ⟨_, List.mem_append_right _ (List.mem_singleton_self _), h.confirmed_now hevent hcandidate hin⟩
  · have hmax : (r.tracker.update c event).maxBlocks = r.tracker.maxBlocks := by rw [hrest]
    show ((r.tracker.update c event).active.get direction).length ≤ (r.tracker.update c event).maxBlocks.toNat
    rw [hmax, update_active]
    have hreg : ((r.tracker.active.get direction).filterMap (r.tracker.tick.survive c direction)).length ≤
        r.tracker.maxBlocks.toNat := (List.length_filterMap_le _ _).trans (h.bounded direction)
    dsimp only
    split
    · exact length_foldl_pushBounded hreg _
    · exact hreg

/-- **What a call of `poi_at` does to the history**: a marked block has the history it had. -/
theorem History.poiAt (h : History r) (lo hi : ℚ) (direction : Direction) : History (r.step (.poiAt lo hi direction)) := by
  rw [step]
  cases hpoi : r.tracker.poiAt lo hi direction with
  | none => exact h
  | some found =>
    obtain ⟨ob, t⟩ := found
    obtain ⟨hrest, -, hts, hmem⟩ := poiAt_active hpoi
    have hbar : t.bar = r.tracker.bar := by rw [hrest]
    have hpending : t.pending = r.tracker.pending := by rw [hrest]
    have hwindow : t.confirmBars = r.tracker.confirmBars := by rw [hrest]
    have hexpiry : t.expiryBars = r.tracker.expiryBars := by rw [hrest]
    have hmax : t.maxBlocks = r.tracker.maxBlocks := by rw [hrest]
    refine ⟨?_, ?_, ?_, fun side b hb => ?_, fun side b hb => ?_, fun side b hb => ?_, fun side => ?_⟩
    · show ∀ b ∈ r.bars, b.number ≤ t.bar
      rw [hbar]
      exact h.numbers
    · show ∀ direction, ∀ ob ∈ t.pending.get direction, _
      rw [hpending]
      exact h.pending
    · show ∀ direction, ∀ ob ∈ t.pending.get direction, _
      rw [hpending]
      exact h.waiting
    · rcases hmem side b hb with hold | ⟨was, hwas, rfl⟩
      · exact h.born side b hold
      · obtain ⟨bar, hbar, hborn⟩ := h.born side was hwas
        exact ⟨bar, hbar, hborn.same rfl⟩
    · show t.bar - b.bornBar < t.expiryBars
      rw [hbar, hexpiry]
      rcases hmem side b hb with hold | ⟨was, hwas, rfl⟩
      · exact h.young side b hold
      · exact h.young side was hwas
    · rcases hmem side b hb with hold | ⟨was, hwas, rfl⟩
      · obtain ⟨bar, hbar, hbroke, hafter, hfirst, hin, hspared⟩ := h.confirmed side b hold
        exact ⟨bar, hbar, hbroke, hafter, hfirst, by rw [← hwindow] at hin; exact hin, hspared⟩
      · obtain ⟨bar, hbar, hbroke, hafter, hfirst, hin, hspared⟩ := h.confirmed side was hwas
        refine ⟨bar, hbar, hbroke, hafter, hfirst, by rw [← hwindow] at hin; exact hin, fun later hlater hlt => ?_⟩
        exact ⟨(hspared later hlater hlt).1, fun hmit => by cases hmit⟩
    · show (t.active.get side).length ≤ t.maxBlocks.toNat
      have hlen := congrArg List.length (hts side)
      rw [List.length_map, List.length_map] at hlen
      rw [hlen, hmax]
      exact h.bounded side

theorem step_settings (r : BlockRun) (op : BlockOp) :
    (r.step op).tracker.confirmBars = r.tracker.confirmBars ∧ (r.step op).tracker.expiryBars = r.tracker.expiryBars ∧
      (r.step op).tracker.maxBlocks = r.tracker.maxBlocks := by
  cases op with
  | update c event =>
    have hrest := update_rest r.tracker c event
    exact ⟨by rw [step, hrest], by rw [step, hrest], by rw [step, hrest]⟩
  | poiAt lo hi direction =>
    rw [step]
    cases hpoi : r.tracker.poiAt lo hi direction with
    | none => exact ⟨rfl, rfl, rfl⟩
    | some found =>
      obtain ⟨ob, t⟩ := found
      have hrest := (poiAt_active hpoi).1
      dsimp only
      exact ⟨by rw [hrest], by rw [hrest], by rw [hrest]⟩

theorem created_empty {dispBodyFrac dispAtrMult : ℚ} {confirmBars maxBlocks expiryBars atrPeriod : Int} {t : OrderBlockTracker}
    (h : create dispBodyFrac dispAtrMult confirmBars maxBlocks expiryBars atrPeriod = .ok t) :
    t.active = ⟨[], []⟩ ∧ t.pending = ⟨[], []⟩ ∧ t.confirmBars = confirmBars ∧ t.expiryBars = expiryBars ∧
      t.maxBlocks = maxBlocks ∧ 1 ≤ maxBlocks := by
  unfold create at h
  split_ifs at h with _ _ _ hmax _ _
  cases h
  exact ⟨rfl, rfl, rfl, rfl, rfl, not_lt.mp hmax⟩

theorem History.start {t : OrderBlockTracker} (hactive : t.active = ⟨[], []⟩) (hpending : t.pending = ⟨[], []⟩) :
    History { tracker := t } := by
  have hnone : ∀ {α : Type} (direction : Direction), (⟨[], []⟩ : BySide (List α)).get direction = [] :=
    fun direction => by cases direction <;> rfl
  refine ⟨by simp, ?_, ?_, ?_, ?_, ?_, ?_⟩ <;> simp [hactive, hpending, hnone]

/-! ### Freshness -/

/-- The block is fresh: cut on a displacement bar, confirmed by the first break in its direction since then, inside
the window, spared by every bar after that, and not expired. -/
structure Fresh (r : BlockRun) (direction : Direction) (ob : OrderBlock) : Prop where
  born : ∃ birth ∈ r.bars, Born birth direction ob
  confirmed : ∃ b ∈ r.bars, b.event.map (·.direction) = some direction ∧ ob.bornBar ≤ b.number ∧
    (∀ b' ∈ r.bars, ob.bornBar ≤ b'.number → b'.event.map (·.direction) = some direction → b.number ≤ b'.number) ∧
    b.number - ob.bornBar ≤ r.tracker.confirmBars ∧
    ∀ later ∈ r.bars, b.number < later.number →
      touches ob later.candle = false ∧ invalidated ob direction later.candle = false
  young : r.tracker.bar - ob.bornBar < r.tracker.expiryBars

theorem History.fresh (h : History r) {lo hi : ℚ} {t : OrderBlockTracker}
    (hpoi : r.tracker.poiAt lo hi direction = some (ob, t)) : Fresh r direction ob := by
  obtain ⟨was, hwas, hoffers, rfl⟩ := poiAt_found hpoi
  have hfresh : was.mitigated = false := by
    simp only [offers, Bool.and_eq_true, Bool.not_eq_true'] at hoffers
    exact hoffers.1.1
  obtain ⟨birth, hbirth, hborn⟩ := h.born direction was hwas
  obtain ⟨b, hb, hbroke, hafter, hfirst, hin, hspared⟩ := h.confirmed direction was hwas
  refine ⟨⟨birth, hbirth, hborn.same rfl⟩, ⟨b, hb, hbroke, hafter, hfirst, hin, fun later hlater hlt => ?_⟩,
    h.young direction was hwas⟩
  obtain ⟨hfar, htouch⟩ := hspared later hlater hlt
  exact ⟨htouch hfresh, hfar⟩

/-- **Order blocks on offer are fresh.** For a tracker whose confirmation window is shorter than the life of a block,
after any bars, events and calls of `poi_at`. -/
theorem blocks_fresh {dispBodyFrac dispAtrMult : ℚ} {confirmBars maxBlocks expiryBars atrPeriod : Int} {t : OrderBlockTracker}
    (hcreate : create dispBodyFrac dispAtrMult confirmBars maxBlocks expiryBars atrPeriod = .ok t)
    (hconfirm : confirmBars < expiryBars) (ops : List BlockOp) :
    let r := run step { tracker := t } ops
    (∀ lo hi direction ob t', r.tracker.poiAt lo hi direction = some (ob, t') → Fresh r direction ob) ∧
    (∀ direction, ((r.tracker.active.get direction).length : Int) ≤ maxBlocks) ∧
    r.tracker.confirmBars = confirmBars ∧ r.tracker.expiryBars = expiryBars := by
  intro r
  obtain ⟨hactive, hpending, hconfirmBars, hexpiryBars, hmaxBlocks, hpos⟩ := created_empty hcreate
  have hrun : History r ∧ r.tracker.confirmBars = confirmBars ∧ r.tracker.expiryBars = expiryBars ∧
      r.tracker.maxBlocks = maxBlocks := by
    refine run_always (I := fun r : BlockRun => History r ∧ r.tracker.confirmBars = confirmBars ∧
      r.tracker.expiryBars = expiryBars ∧ r.tracker.maxBlocks = maxBlocks) (fun s op hs => ?_)
      ⟨History.start hactive hpending, hconfirmBars, hexpiryBars, hmaxBlocks⟩ ops
    obtain ⟨hhistory, hwindow, hexpiry, hmax⟩ := hs
    obtain ⟨hwindow', hexpiry', hmax'⟩ := step_settings s op
    refine ⟨?_, hwindow'.trans hwindow, hexpiry'.trans hexpiry, hmax'.trans hmax⟩
    cases op with
    | update c event => exact hhistory.update (by rw [hwindow, hexpiry]; exact hconfirm) c event
    | poiAt lo hi direction => exact hhistory.poiAt lo hi direction
  obtain ⟨hhistory, hwindow, hexpiry, hmax⟩ := hrun
  refine ⟨fun lo hi direction ob t' hpoi => hhistory.fresh hpoi, fun direction => ?_, hwindow, hexpiry⟩
  have hlen := hhistory.bounded direction
  rw [hmax] at hlen
  omega

/-- A red bar, and a displacement that breaks upwards. -/
def impulseOps : List BlockOp :=
  [.update (barOf 0 12 12 4 10) none, .update (barOf 1 10 16 10 16) (some ⟨1, .bos, .long, 13⟩)]

theorem blocks_fresh_impulse :
    ∃ t ob t', create (1 / 2) (1 / 10) 10 20 180 1 = .ok t ∧
      (run step { tracker := t } impulseOps).tracker.poiAt 11 12 .long = some (ob, t') ∧
      Fresh (run step { tracker := t } impulseOps) .long ob := by
  have hfound : (create (1 / 2) (1 / 10) 10 20 180 1).toOption.bind (fun t =>
      ((run step { tracker := t } impulseOps).tracker.poiAt 11 12 .long).map (·.1.ts)) = some 0 := by decide +kernel
  cases hcreate : create (1 / 2) (1 / 10) 10 20 180 1 with
  | error text =>
    rw [hcreate] at hfound
    cases hfound
  | ok t =>
    rw [hcreate] at hfound
    obtain ⟨⟨ob, t'⟩, hpoi, -⟩ := Option.map_eq_some_iff.mp hfound
    exact ⟨t, ob, t', rfl, hpoi, (blocks_fresh hcreate (by decide) impulseOps).1 11 12 .long ob t' hpoi⟩

/-! ### Zones -/

/-- The bar cuts no block from a bar that has been cut in the same direction before. -/
def NewZone (r : BlockRun) : BlockOp → Prop
  | .update c event => ∀ z ∈ FedBar.zones ⟨r.tracker, c, event⟩, z ∉ r.zones
  | .poiAt .. => True

instance (r : BlockRun) : (op : BlockOp) → Decidable (NewZone r op)
  | .update c event => inferInstanceAs (Decidable (∀ z ∈ FedBar.zones ⟨r.tracker, c, event⟩, z ∉ r.zones))
  | .poiAt .. => inferInstanceAs (Decidable True)

/-- The blocks of a direction, active or waiting. -/
def blocks (t : OrderBlockTracker) (direction : Direction) : List OrderBlock :=
  t.active.get direction ++ t.pending.get direction

/-- The zone is over: it is not waiting, and what is left of it is marked. -/
structure Gone (z : Int × Direction) (r : BlockRun) : Prop where
  seen : z ∈ r.zones
  pending : ∀ ob ∈ r.tracker.pending.get z.2, ob.ts ≠ z.1
  active : ∀ ob ∈ r.tracker.active.get z.2, ob.ts = z.1 → ob.mitigated = true

/-- Every zone stands in the registries at most once. -/
structure Distinct (r : BlockRun) : Prop where
  side : ∀ direction, ∀ ob ∈ blocks r.tracker direction, ob.direction = direction ∧ (ob.ts, direction) ∈ r.zones
  nodup : ∀ direction, ((blocks r.tracker direction).map (·.ts)).Nodup

theorem zones_update (r : BlockRun) (c : Candle) (event : Option StructureEvent) :
    (r.step (.update c event)).zones = r.zones ++ FedBar.zones ⟨r.tracker, c, event⟩ := by
  simp [zones, step]

theorem mem_zones_candidate (h : r.tracker.tick.candidate c direction = some ob) :
    (ob.ts, direction) ∈ FedBar.zones ⟨r.tracker, c, event⟩ := by
  unfold FedBar.zones
  refine List.mem_filterMap.mpr ⟨direction, by cases direction <;> simp, ?_⟩
  rw [h]
  rfl

theorem map_filterMap_sublist {α β : Type} {f : α → Option α} {g : α → β} (hf : ∀ x y, f x = some y → g y = g x)
    (xs : List α) : ((xs.filterMap f).map g).Sublist (xs.map g) := by
  induction xs with
  | nil => exact List.Sublist.refl _
  | cons x xs ih =>
    cases hx : f x with
    | none =>
      rw [List.filterMap_cons_none hx]
      exact ih.cons (g x)
    | some y =>
      rw [List.filterMap_cons_some hx, List.map_cons, List.map_cons, hf x y hx]
      exact ih.cons_cons (g x)

theorem candidates_sublist (t : OrderBlockTracker) (c : Candle) (direction : Direction) :
    (t.candidates c direction).Sublist (t.pending.get direction ++ (t.tick.candidate c direction).toList) := by
  unfold OrderBlockTracker.candidates
  cases t.tick.candidate c direction with
  | none => simp
  | some ob => exact pushBounded_sublist _ _ _

theorem blocks_update (t : OrderBlockTracker) (c : Candle) (event : Option StructureEvent) (direction : Direction) :
    ((blocks (t.update c event) direction).map (·.ts)).Sublist
      ((blocks t direction).map (·.ts) ++ ((t.tick.candidate c direction).toList).map (·.ts)) := by
  have hreg : (((t.active.get direction).filterMap (t.tick.survive c direction)).map (·.ts)).Sublist
      ((t.active.get direction).map (·.ts)) :=
    map_filterMap_sublist (fun was ob hsurvive => by
      obtain ⟨-, -, rfl⟩ := survive_spec hsurvive
      rfl) _
  have hall : ∀ {reg pend : List OrderBlock},
      reg.Sublist ((t.active.get direction).filterMap (t.tick.survive c direction) ++ pend) →
      pend.Sublist (t.candidates c direction) → (reg.map (·.ts)).Sublist
        ((blocks t direction).map (·.ts) ++ ((t.tick.candidate c direction).toList).map (·.ts)) := by
    intro reg pend hsub hpend
    have hcands := (hpend.trans (candidates_sublist t c direction)).map (·.ts)
    have hts := hsub.map (·.ts)
    rw [List.map_append] at hts
    have hsplit : (blocks t direction).map (·.ts) ++ ((t.tick.candidate c direction).toList).map (·.ts) =
        (t.active.get direction).map (·.ts) ++
          (t.pending.get direction ++ (t.tick.candidate c direction).toList).map (·.ts) := by
      simp [blocks]
    rw [hsplit]
    exact hts.trans (hreg.append hcands)
  unfold blocks
  rw [update_active, update_pending]
  dsimp only
  split
  · rw [List.dropWhile_nil, List.append_nil]
    exact hall (foldl_pushBounded_sublist _ _ _) List.filter_sublist
  · exact hall (List.Sublist.refl _) (List.dropWhile_sublist _)

theorem Distinct.candidate (h : Distinct r) (hob : ob ∈ r.tracker.candidates c direction) :
    ob.direction = direction ∧ (ob.ts, direction) ∈ (r.step (.update c event)).zones := by
  rw [zones_update]
  rcases mem_candidates hob with hold | hnew
  · obtain ⟨hdir, hseen⟩ := h.side direction ob (List.mem_append_right _ hold)
    exact ⟨hdir, List.mem_append_left _ hseen⟩
  · exact ⟨(candidate_spec hnew).2.2.2, List.mem_append_right _ (mem_zones_candidate hnew)⟩

theorem Distinct.update (h : Distinct r) (hnew : NewZone r (.update c event)) : Distinct (r.step (.update c event)) := by
  refine ⟨fun direction ob hob => ?_, fun direction => ?_⟩
  · rcases List.mem_append.mp hob with hactive | hpending
    · rcases mem_update_active hactive with ⟨was, hwas, hsurvive⟩ | ⟨-, hcandidate, -⟩
      · obtain ⟨-, -, rfl⟩ := survive_spec hsurvive
        obtain ⟨hdir, hseen⟩ := h.side direction was (List.mem_append_left _ hwas)
        rw [zones_update]
        exact ⟨hdir, List.mem_append_left _ hseen⟩
      · exact h.candidate hcandidate
    · exact h.candidate (mem_update_pending hpending).1
  · refine (blocks_update r.tracker c event direction).nodup
      (List.nodup_append.mpr ⟨h.nodup direction, ?_, fun ts hold ts' hfresh heq => ?_⟩)
    · cases r.tracker.tick.candidate c direction <;> simp
    · obtain ⟨ob, hob, rfl⟩ := List.mem_map.mp hfresh
      obtain ⟨was, hwas, rfl⟩ := List.mem_map.mp hold
      have hzone := hnew _ (mem_zones_candidate (Option.mem_toList.mp hob))
      rw [← heq] at hzone
      exact hzone (h.side direction was hwas).2

theorem Gone.update {z : Int × Direction} (h : Gone z r) (hnew : NewZone r (.update c event)) :
    Gone z (r.step (.update c event)) := by
  have hcandidate : ∀ ob ∈ r.tracker.candidates c z.2, ob.ts ≠ z.1 := by
    intro ob hob hts
    rcases mem_candidates hob with hold | hfresh
    · exact h.pending ob hold hts
    · have hzone := hnew _ (mem_zones_candidate hfresh)
      rw [hts] at hzone
      exact hzone h.seen
  refine ⟨?_, fun ob hob => ?_, fun ob hob hts => ?_⟩
  · rw [zones_update]
    exact List.mem_append_left _ h.seen
  · exact hcandidate ob (mem_update_pending hob).1
  · rcases mem_update_active hob with ⟨was, hwas, hsurvive⟩ | ⟨-, hob, -⟩
    · obtain ⟨-, -, rfl⟩ := survive_spec hsurvive
      simp [h.active was hwas hts]
    · exact absurd hts (hcandidate ob hob)

theorem Distinct.poiAt (h : Distinct r) (lo hi : ℚ) (direction : Direction) : Distinct (r.step (.poiAt lo hi direction)) := by
  rw [step]
  cases hpoi : r.tracker.poiAt lo hi direction with
  | none => exact h
  | some found =>
    obtain ⟨ob, t⟩ := found
    obtain ⟨hrest, -, hts, hmem⟩ := poiAt_active hpoi
    have hpending : t.pending = r.tracker.pending := by rw [hrest]
    refine ⟨fun side b hb => ?_, fun side => ?_⟩
    · rcases List.mem_append.mp hb with hactive | hwaiting
      · rcases hmem side b hactive with hold | ⟨was, hwas, rfl⟩
        · exact h.side side b (List.mem_append_left _ hold)
        · exact h.side side was (List.mem_append_left _ hwas)
      · have hwaiting : b ∈ r.tracker.pending.get side := by rw [← hpending]; exact hwaiting
        exact h.side side b (List.mem_append_right _ hwaiting)
    · show (((t.active.get side) ++ t.pending.get side).map (·.ts)).Nodup
      rw [List.map_append, hts side, hpending, ← List.map_append]
      exact h.nodup side

theorem Gone.poiAt {z : Int × Direction} (h : Gone z r) (lo hi : ℚ) (direction : Direction) :
    Gone z (r.step (.poiAt lo hi direction)) := by
  rw [step]
  cases hpoi : r.tracker.poiAt lo hi direction with
  | none => exact h
  | some found =>
    obtain ⟨ob, t⟩ := found
    obtain ⟨hrest, -, -, hmem⟩ := poiAt_active hpoi
    have hpending : t.pending = r.tracker.pending := by rw [hrest]
    refine ⟨h.seen, ?_, fun b hb hts => ?_⟩
    · show ∀ ob ∈ t.pending.get z.2, _
      rw [hpending]
      exact h.pending
    · rcases hmem z.2 b hb with hold | ⟨was, hwas, rfl⟩
      · exact h.active b hold hts
      · rfl

theorem Distinct.step (h : Distinct r) {op : BlockOp} (hnew : NewZone r op) : Distinct (r.step op) := by
  cases op with
  | update c event => exact h.update hnew
  | poiAt lo hi direction => exact h.poiAt lo hi direction

theorem Gone.step {z : Int × Direction} (h : Gone z r) {op : BlockOp} (hnew : NewZone r op) : Gone z (r.step op) := by
  cases op with
  | update c event => exact h.update hnew
  | poiAt lo hi direction => exact h.poiAt lo hi direction

/-- The zone of a marked block is over: no other block of its zone stands in the registries. -/
theorem Distinct.gone (h : Distinct r) (hob : ob ∈ r.tracker.active.get direction) (hmit : ob.mitigated = true) :
    Gone (ob.ts, direction) r := by
  have hnodup := h.nodup direction
  rw [blocks, List.map_append, List.nodup_append] at hnodup
  obtain ⟨hactive, -, hapart⟩ := hnodup
  refine ⟨(h.side direction ob (List.mem_append_left _ hob)).2, fun b hb hts => ?_, fun b hb hts => ?_⟩
  · exact hapart ob.ts (List.mem_map_of_mem hob) b.ts (List.mem_map_of_mem hb) hts.symm
  · obtain rfl := List.inj_on_of_nodup_map hactive hb hob hts
    exact hmit

theorem Distinct.returned (h : Distinct r) {lo hi : ℚ} {t : OrderBlockTracker}
    (hpoi : r.tracker.poiAt lo hi direction = some (ob, t)) :
    ob.zone = (ob.ts, direction) ∧ (∀ z, Gone z r → z ≠ ob.zone) ∧ Gone ob.zone (r.step (.poiAt lo hi direction)) := by
  have hafter : Distinct (r.step (.poiAt lo hi direction)) := h.poiAt lo hi direction
  have hstep : r.step (.poiAt lo hi direction) = { r with tracker := t, returned := r.returned ++ [ob] } := by
    rw [BlockRun.step, hpoi]
  obtain ⟨was, hwas, hoffers, rfl⟩ := poiAt_found hpoi
  have hfresh : was.mitigated = false := by
    simp only [offers, Bool.and_eq_true, Bool.not_eq_true'] at hoffers
    exact hoffers.1.1
  have hdir := (h.side direction was (List.mem_append_left _ hwas)).1
  have hzone : OrderBlock.zone { was with mitigated := true } = (was.ts, direction) := by
    unfold OrderBlock.zone
    rw [hdir]
  refine ⟨hzone, fun z hgone heq => ?_, ?_⟩
  · rw [hzone] at heq
    subst heq
    have hmarked := hgone.active was hwas rfl
    rw [hfresh] at hmarked
    cases hmarked
  · rw [hzone]
    rw [hstep] at hafter ⊢
    have hgone := hafter.gone (poiAt_active hpoi).2.1 rfl
    exact hgone

/-- Every zone has been returned at most once, and is over then. -/
structure Once (r : BlockRun) : Prop where
  distinct : Distinct r
  gone : ∀ ob ∈ r.returned, Gone ob.zone r
  nodup : (r.returned.map OrderBlock.zone).Nodup

theorem Once.step (h : Once r) {op : BlockOp} (hnew : NewZone r op) : Once (r.step op) := by
  have hgone : ∀ ob ∈ r.returned, Gone ob.zone (r.step op) := fun ob hob => (h.gone ob hob).step hnew
  cases op with
  | update c event => exact ⟨h.distinct.step hnew, hgone, h.nodup⟩
  | poiAt lo hi direction =>
    cases hpoi : r.tracker.poiAt lo hi direction with
    | none =>
      have hstep : r.step (.poiAt lo hi direction) = r := by rw [BlockRun.step, hpoi]
      rw [hstep]
      exact h
    | some found =>
      obtain ⟨ob, t⟩ := found
      obtain ⟨-, hother, hover⟩ := h.distinct.returned hpoi
      have hreturned : (r.step (.poiAt lo hi direction)).returned = r.returned ++ [ob] := by rw [BlockRun.step, hpoi]
      refine ⟨h.distinct.step hnew, fun b hb => ?_, ?_⟩
      · rw [hreturned] at hb
        rcases List.mem_append.mp hb with hold | hlast
        · exact hgone b hold
        · obtain rfl := List.mem_singleton.mp hlast
          exact hover
      · rw [hreturned, List.map_append, List.nodup_append]
        refine ⟨h.nodup, by simp, fun z hz z' hz' => ?_⟩
        obtain ⟨b, hb, rfl⟩ := List.mem_map.mp hz
        obtain rfl := List.mem_singleton.mp hz'
        exact hother b.zone (h.gone b hb)

theorem Distinct.start {t : OrderBlockTracker} (hactive : t.active = ⟨[], []⟩) (hpending : t.pending = ⟨[], []⟩) :
    Distinct { tracker := t } := by
  have hnone : ∀ direction, blocks t direction = [] := fun direction => by
    unfold blocks
    rw [hactive, hpending]
    cases direction <;> rfl
  refine ⟨fun direction ob hob => ?_, fun direction => ?_⟩
  · have hob : ob ∈ blocks t direction := hob
    rw [hnone] at hob
    cases hob
  · show ((blocks t direction).map (·.ts)).Nodup
    rw [hnone]
    exact List.nodup_nil

/-- **A zone is traded at most once**, if no bar is cut twice in one direction: `poi_at` returns no zone twice, and
none of which a block has been marked before, touched or consumed. -/
theorem zone_once {dispBodyFrac dispAtrMult : ℚ} {confirmBars maxBlocks expiryBars atrPeriod : Int} {t : OrderBlockTracker}
    (hcreate : create dispBodyFrac dispAtrMult confirmBars maxBlocks expiryBars atrPeriod = .ok t) (ops : List BlockOp)
    (hnew : StepsMeet step NewZone { tracker := t } ops) :
    ((run step { tracker := t } ops).returned.map OrderBlock.zone).Nodup ∧
    ∀ before after, ops = before ++ after → ∀ side, ∀ b ∈ (run step { tracker := t } before).tracker.active.get side,
      b.mitigated = true → ∀ lo hi direction ob t', (run step { tracker := t } ops).tracker.poiAt lo hi direction = some (ob, t') →
        ob.zone ≠ b.zone := by
  obtain ⟨hactive, hpending, -⟩ := created_empty hcreate
  have hstart := Distinct.start hactive hpending
  constructor
  · have honce : Once (run step { tracker := t } ops) :=
      run_invariant (fun _ _ h hop => h.step hop) ⟨hstart, by simp, by simp⟩ hnew
    exact honce.nodup
  · rintro before after rfl side b hb hmit lo hi direction ob t' hpoi hzone
    obtain ⟨hbefore, hafter⟩ := hnew.of_append
    have hdistinct : Distinct (run step { tracker := t } before) := run_invariant (fun _ _ h hop => h.step hop) hstart hbefore
    have hdir := (hdistinct.side side b (List.mem_append_left _ hb)).1
    have hgone := hdistinct.gone hb hmit
    have hkept : Distinct (run step (run step { tracker := t } before) after) ∧
        Gone (b.ts, side) (run step (run step { tracker := t } before) after) :=
      run_invariant (I := fun r => Distinct r ∧ Gone (b.ts, side) r) (fun _ _ h hop => ⟨h.1.step hop, h.2.step hop⟩)
        ⟨hdistinct, hgone⟩ hafter
    rw [run_append] at hpoi
    refine (hkept.1.returned hpoi).2.1 (b.ts, side) hkept.2 ?_
    rw [hzone, OrderBlock.zone, hdir]

theorem zone_once_impulse :
    ∃ t, create (1 / 2) (1 / 10) 10 20 180 1 = .ok t ∧
      ((run step { tracker := t } (impulseOps ++ [.poiAt 11 12 .long, .poiAt 11 12 .long])).returned.map
        OrderBlock.zone).Nodup := by
  have hmeet : (create (1 / 2) (1 / 10) 10 20 180 1).toOption.map (fun t =>
      decide (StepsMeet step NewZone { tracker := t } (impulseOps ++ [.poiAt 11 12 .long, .poiAt 11 12 .long]))) = some true := by
    decide +kernel
  cases hcreate : create (1 / 2) (1 / 10) 10 20 180 1 with
  | error text =>
    rw [hcreate] at hmeet
    cases hmeet
  | ok t =>
    rw [hcreate] at hmeet
    exact ⟨t, rfl, (zone_once hcreate _ (of_decide_eq_true (Option.some.inj hmeet))).1⟩

/-- Two displacements in a row cut the same red bar, one break confirms both blocks, and both are asked for. -/
def twiceCut : List BlockOp :=
  [.update (barOf 0 12 12 4 10) none, .update (barOf 1 10 16 10 16) none,
    .update (barOf 2 16 22 16 22) (some ⟨2, .bos, .long, 13⟩), .poiAt 11 12 .long, .poiAt 11 12 .long]

theorem zone_twice :
    ¬ ∀ (t : OrderBlockTracker) (ops : List BlockOp), create (1 / 2) (1 / 10) 10 20 180 1 = .ok t →
      ((run step { tracker := t } ops).returned.map OrderBlock.zone).Nodup := by
  intro h
  have htwice : (create (1 / 2) (1 / 10) 10 20 180 1).toOption.map (fun t =>
      (run step { tracker := t } twiceCut).returned.map OrderBlock.zone) = some [(0, .long), (0, .long)] := by decide +kernel
  cases hcreate : create (1 / 2) (1 / 10) 10 20 180 1 with
  | error text =>
    rw [hcreate] at htwice
    cases htwice
  | ok t =>
    rw [hcreate] at htwice
    have hzones : (run step { tracker := t } twiceCut).returned.map OrderBlock.zone = [(0, .long), (0, .long)] :=
      Option.some.inj htwice
    have hnodup := h t twiceCut hcreate
    rw [hzones] at hnodup
    exact absurd hnodup (by decide)

end BlockRun

end FreqTrading
