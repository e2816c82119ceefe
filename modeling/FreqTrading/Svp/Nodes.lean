import FreqTrading.Svp.ValueArea

/-!
# The nodes of a profile

The high volume nodes are the peaks of the histogram, a run of neighbouring peaks taken for one; between two of them
there may be a low volume node. Both scans break ties towards the lower row, as the scan for the point of control does,
and so the point of control is always among the high volume nodes.
-/

namespace FreqTrading

open Lib

namespace VolumeProfile

variable {p : VolumeProfile} {lo hi mn mx : Int}

/-! ### Runs of consecutive rows -/

theorem runs_flatten (rs : List Int) : (runs rs).flatten = rs := by
  induction rs with
  | nil => rfl
  | cons r rest ih =>
    unfold runs
    split
    · next s run others hruns =>
      rw [hruns] at ih
      split
      · rw [← ih]
        rfl
      · rw [← ih]
        rfl
    · rw [List.flatten_cons, ih]
      rfl

theorem runs_nonempty (rs : List Int) : ∀ run ∈ runs rs, run ≠ [] := by
  induction rs with
  | nil => exact fun _ h => (by cases h)
  | cons r rest ih =>
    unfold runs
    split
    · next s run others hruns =>
      rw [hruns] at ih
      split
      · intro run' hrun'
        rcases List.mem_cons.mp hrun' with rfl | hrest
        · exact List.cons_ne_nil _ _
        · exact ih run' (List.mem_cons_of_mem _ hrest)
      · intro run' hrun'
        rcases List.mem_cons.mp hrun' with rfl | hrest
        · exact List.cons_ne_nil _ _
        · exact ih run' hrest
    · intro run' hrun'
      rcases List.mem_cons.mp hrun' with rfl | hrest
      · exact List.cons_ne_nil _ _
      · exact ih run' hrest

/-- Between the rows of two runs there is a row that is in neither. -/
def Apart (run run' : List Int) : Prop := ∀ x ∈ run, ∀ y ∈ run', x + 1 < y

theorem runs_apart {rs : List Int} (h : rs.Pairwise (· < ·)) : (runs rs).Pairwise Apart := by
  induction rs with
  | nil => exact List.Pairwise.nil
  | cons r rest ih =>
    obtain ⟨hfirst, hrest⟩ := List.pairwise_cons.mp h
    have hapart := ih hrest
    have hflat := runs_flatten rest
    unfold runs
    split
    · next s run others hruns =>
      rw [hruns] at hapart hflat
      obtain ⟨hhead, htail⟩ := List.pairwise_cons.mp hapart
      have hsplit : rest = s :: (run ++ others.flatten) := hflat.symm
      have hs : r < s := hfirst s (by rw [hsplit]; exact List.mem_cons_self)
      split
      · -- `r` joins the first run, whose rows are above it
        refine List.pairwise_cons.mpr ⟨fun run' hrun' x hx y hy => ?_, htail⟩
        have hy' := hhead run' hrun' s List.mem_cons_self y hy
        rcases List.mem_cons.mp hx with rfl | hx
        · omega
        · exact hhead run' hrun' x hx y hy
      · refine List.pairwise_cons.mpr ⟨fun run' hrun' x hx y hy => ?_, hapart⟩
        rw [List.mem_singleton] at hx
        subst hx
        have hmem : y ∈ s :: (run ++ others.flatten) := by
          rw [← hsplit, ← hflat]
          exact List.mem_flatten.mpr ⟨run', hrun', hy⟩
        rcases List.mem_cons.mp hmem with rfl | hlater
        · omega
        · have hlt := List.rel_of_pairwise_cons (hsplit ▸ hrest) hlater
          omega
    · next hnone =>
      have hempty : runs rest = [] := by
        cases hruns : runs rest with
        | nil => rfl
        | cons run others =>
          cases run with
          | nil => exact absurd rfl (runs_nonempty rest [] (by rw [hruns]; exact List.mem_cons_self))
          | cons s run => exact absurd hruns (hnone s run others)
      rw [hempty]
      exact List.pairwise_singleton _ _

theorem heaviest_firstBest (p : VolumeProfile) {run : List Int} (h : run ≠ []) :
    ∃ b, p.heaviest run = some b ∧ FirstBest p.hist run b := by
  cases run with
  | nil => exact absurd rfl h
  | cons first rest =>
    refine ⟨_, rfl, ?_⟩
    dsimp only
    rw [List.foldl_cons, if_neg (lt_irrefl _)]
    exact foldl_firstBest (fun _ _ => Iff.rfl) first rest

/-! ### Suppressing neighbours -/

section suppress

variable {peaks : List Int}

theorem mem_suppress {r : Int} (h : r ∈ p.suppressAdjacent peaks) : r ∈ peaks := by
  obtain ⟨run, hrun, hr⟩ := List.mem_filterMap.mp h
  obtain ⟨b, hb, hfirst⟩ := heaviest_firstBest p (runs_nonempty peaks run hrun)
  rw [hb] at hr
  cases hr
  rw [← runs_flatten peaks]
  exact List.mem_flatten.mpr ⟨run, hrun, hfirst.mem⟩

theorem suppress_apart (hpeaks : peaks.Pairwise (· < ·)) :
    (p.suppressAdjacent peaks).Pairwise fun a b => a + 1 < b := by
  have hapart : ((runs peaks).Pairwise fun run run' => run ≠ [] ∧ run' ≠ [] ∧ Apart run run') :=
    (runs_apart hpeaks).imp_of_mem fun ha hb h => ⟨runs_nonempty peaks _ ha, runs_nonempty peaks _ hb, h⟩
  refine List.Pairwise.filterMap p.heaviest ?_ hapart
  rintro run run' ⟨hne, hne', h⟩ a ha b hb
  obtain ⟨a', ha', hfirst⟩ := heaviest_firstBest p hne
  obtain ⟨b', hb', hfirst'⟩ := heaviest_firstBest p hne'
  rw [ha'] at ha
  rw [hb'] at hb
  cases ha
  cases hb
  exact h a hfirst.mem b hfirst'.mem

theorem poc_mem_suppress (hpeaks : peaks.Pairwise (· < ·)) {poc : Int} (hpoc : p.IsPoc mn mx poc) (hmem : poc ∈ peaks) :
    poc ∈ p.suppressAdjacent peaks := by
  rw [← runs_flatten peaks] at hmem
  obtain ⟨run, hrun, hin⟩ := List.mem_flatten.mp hmem
  obtain ⟨b, hb, hfirst⟩ := heaviest_firstBest p (runs_nonempty peaks run hrun)
  have hsub : run.Sublist peaks := by
    have h := List.sublist_flatten_of_mem hrun
    rwa [runs_flatten] at h
  have hsame : b = poc := by
    rcases lt_trichotomy b poc with hbelow | hsame | habove
    · exact absurd (hfirst.best poc hin) (not_le.mpr (hpoc.lowest b hbelow))
    · exact hsame
    · exact absurd (hpoc.heaviest b) (not_le.mpr (hfirst.lowest (hpeaks.sublist hsub) hin habove))
  rw [← hsame]
  exact List.mem_filterMap.mpr ⟨run, hrun, hb⟩

end suppress

/-! ### The lightest row of a gap -/

theorem lightestBetween_spec {a b r : Int} (h : p.lightestBetween a b = some r) :
    a < r ∧ r < b ∧ ∀ s, a < s → s < b → p.hist r ≤ p.hist s := by
  unfold lightestBetween at h
  cases hrows : rows (a + 1) (b - 1) with
  | nil =>
    rw [hrows] at h
    cases h
  | cons first rest =>
    rw [hrows] at h
    have hfirst : FirstBest (fun r => OrderDual.toDual (p.hist r)) (rows (a + 1) (b - 1))
        (rest.foldl (fun best r => if p.hist r < p.hist best then r else best) first) := by
      rw [hrows]
      exact foldl_firstBest (f := fun r => OrderDual.toDual (p.hist r)) (fun _ _ => OrderDual.toDual_lt_toDual.symm) first rest
    cases h
    generalize rest.foldl (fun best r => if p.hist r < p.hist best then r else best) first = r at hfirst
    obtain ⟨hlow, hhigh⟩ := mem_rows.mp hfirst.mem
    refine ⟨by omega, by omega, fun s has hsb => ?_⟩
    exact OrderDual.toDual_le_toDual.mp (hfirst.best s (mem_rows.mpr ⟨by omega, by omega⟩))

theorem filterMap_origin {α β : Type*} (f : α → Option β) (l : List α) :
    ∃ pairs : List (α × β), pairs.map (·.2) = l.filterMap f ∧ (pairs.map (·.1)).Sublist l ∧
      ∀ pair ∈ pairs, f pair.1 = some pair.2 := by
  induction l with
  | nil => exact ⟨[], rfl, List.Sublist.slnil, fun _ h => (by cases h)⟩
  | cons a l ih =>
    obtain ⟨pairs, hvalues, hsub, hfrom⟩ := ih
    cases hfa : f a with
    | none => exact ⟨pairs, by rw [List.filterMap_cons_none hfa, hvalues], hsub.cons a, hfrom⟩
    | some b =>
      refine ⟨(a, b) :: pairs, by rw [List.filterMap_cons_some hfa, List.map_cons, hvalues], hsub.cons_cons a, ?_⟩
      intro pair hpair
      rcases List.mem_cons.mp hpair with rfl | hrest
      · exact hfa
      · exact hfrom pair hrest

/-! ### The nodes -/

theorem foldl_max_le_iff (l : List ℚ) (a b : ℚ) : l.foldl max a ≤ b ↔ a ≤ b ∧ ∀ x ∈ l, x ≤ b := by
  induction l generalizing a with
  | nil => simp
  | cons x l ih => rw [List.foldl_cons, ih, max_le_iff, List.forall_mem_cons, and_assoc]

theorem maxVol_eq {poc : Int} (hpoc : p.IsPoc mn mx poc) (hpos : 0 ≤ p.hist poc) : maxVol (p.rowVols mn mx) = p.hist poc := by
  apply le_antisymm
  · refine (foldl_max_le_iff _ _ _).mpr ⟨hpos, fun x hx => ?_⟩
    obtain ⟨r, -, rfl⟩ := List.mem_map.mp hx
    exact hpoc.heaviest r
  · exact ((foldl_max_le_iff _ _ _).mp le_rfl).2 _ (List.mem_map_of_mem (mem_rows.mpr ⟨hpoc.low, hpoc.high⟩))

/-- The nodes of a profile that spans the rows `mn` to `mx`. -/
structure WellFormedNodes (p : VolumeProfile) (mn mx : Int) : Prop where
  poc : ∃ poc, p.pocRow = some poc ∧ poc ∈ p.nodes.1
  apart : p.nodes.1.Pairwise fun a b => a + 1 < b
  heavy : ∀ r ∈ p.nodes.1, p.hvnFrac * maxVol (p.rowVols mn mx) ≤ p.hist r
  /-- Every low volume node has a gap of its own, between two consecutive high volume nodes. -/
  gaps : ∃ gaps : List ((Int × Int) × Int), gaps.map (·.2) = p.nodes.2 ∧
    (gaps.map (·.1)).Sublist (p.nodes.1.zip p.nodes.1.tail) ∧ ∀ gap ∈ gaps, gap.1.1 < gap.2 ∧ gap.2 < gap.1.2 ∧
      (∀ s, gap.1.1 < s → s < gap.1.2 → p.hist gap.2 ≤ p.hist s) ∧ p.hist gap.2 ≤ p.lvnFrac * meanVol (p.rowVols mn mx)

theorem IsPoc.isPeak {poc : Int} (hpoc : p.IsPoc mn mx poc) {thresh : ℚ} (hthresh : thresh ≤ p.hist poc) :
    p.isPeak mn mx thresh poc = true := by
  unfold VolumeProfile.isPeak
  simp only [hthresh, hpoc.heaviest, decide_true, Bool.or_true, Bool.and_self]

theorem Filled.wellFormedNodes (h : p.Filled) (hfrac : p.hvnFrac ≤ 1) (hspan : p.span = some (mn, mx))
    (hspans : p.Spans mn mx) : p.WellFormedNodes mn mx := by
  obtain ⟨poc, hrow, hpoc⟩ := hspans.pocRow h.nonneg hspan
  have hmax : maxVol (p.rowVols mn mx) = p.hist poc := maxVol_eq hpoc (h.nonneg poc)
  have hheavy : 0 < p.hist poc := hspans.lowest.trans_le (hpoc.heaviest mn)
  have hpeaks : ((rows mn mx).filter (p.isPeak mn mx (p.hvnFrac * maxVol (p.rowVols mn mx)))).Pairwise (· < ·) :=
    (rows_ascending mn mx).sublist List.filter_sublist
  have hnodes : p.nodes.1 =
      p.suppressAdjacent ((rows mn mx).filter (p.isPeak mn mx (p.hvnFrac * maxVol (p.rowVols mn mx)))) := by
    unfold VolumeProfile.nodes
    rw [hspan]
    dsimp only
    rw [if_neg (by rw [hmax]; exact not_le.mpr hheavy)]
  refine ⟨⟨poc, hrow, ?_⟩, ?_, fun r hr => ?_, ?_⟩
  · have hthresh : p.hvnFrac * maxVol (p.rowVols mn mx) ≤ p.hist poc := by
      rw [hmax]
      exact mul_le_of_le_one_left hheavy.le hfrac
    rw [hnodes]
    refine poc_mem_suppress hpeaks hpoc (List.mem_filter.mpr ⟨mem_rows.mpr ⟨hpoc.low, hpoc.high⟩, hpoc.isPeak hthresh⟩)
  · rw [hnodes]
    exact suppress_apart hpeaks
  · rw [hnodes] at hr
    have hpeak := (List.mem_filter.mp (mem_suppress hr)).2
    unfold VolumeProfile.isPeak at hpeak
    simp only [Bool.and_eq_true, decide_eq_true_eq] at hpeak
    exact hpeak.1.1
  · have hlvn : p.nodes.2 = (p.nodes.1.zip p.nodes.1.tail).filterMap fun (ab : Int × Int) =>
        (p.lightestBetween ab.1 ab.2).filter fun r => p.hist r ≤ p.lvnFrac * meanVol (p.rowVols mn mx) := by
      rw [hnodes]
      unfold VolumeProfile.nodes
      rw [hspan]
      dsimp only
      rw [if_neg (by rw [hmax]; exact not_le.mpr hheavy)]
    obtain ⟨gaps, hvalues, hsub, hfrom⟩ := filterMap_origin (fun (ab : Int × Int) =>
      (p.lightestBetween ab.1 ab.2).filter fun r => p.hist r ≤ p.lvnFrac * meanVol (p.rowVols mn mx))
      (p.nodes.1.zip p.nodes.1.tail)
    refine ⟨gaps, hvalues.trans hlvn.symm, hsub, fun gap hgap => ?_⟩
    obtain ⟨hlightest, hlow⟩ := Option.filter_eq_some_iff.mp (hfrom gap hgap)
    obtain ⟨hleft, hright, hmin⟩ := lightestBetween_spec hlightest
    exact ⟨hleft, hright, hmin, of_decide_eq_true hlow⟩

/-- **Volume nodes are well formed.** After any updates with some weight: the point of control is one of the high volume
nodes, which ascend without neighbours and weigh their fraction of the greatest row; each low volume node is a lightest
row of a gap of its own, and weighs at most its fraction of the mean row. -/
theorem nodes_of_updates (p : VolumeProfile) (h : p.Constructed) (hfrac : p.hvnFrac ≤ 1) (bars : List Sample)
    (htotal : 0 < (run feed p bars).total) :
    ∃ mn mx, (run feed p bars).span = some (mn, mx) ∧ (run feed p bars).WellFormedNodes mn mx := by
  have hfilled := run_filled h.filled bars
  obtain ⟨mn, mx, hspan, hspans⟩ := hfilled.spans_of_total htotal
  have hsame := (run_fractions p bars).2
  exact ⟨mn, mx, hspan, hfilled.wellFormedNodes (hsame ▸ hfrac) hspan hspans⟩

/-- Two lots of volume with a thin row between them. -/
def twoHumps : List Sample := [⟨100, 101, 40⟩, ⟨101, 103, 9⟩, ⟨103, 104, 50⟩]

theorem nodes_of_updates_twoHumps :
    (∃ mn mx, (run feed dollarRows twoHumps).span = some (mn, mx) ∧ (run feed dollarRows twoHumps).WellFormedNodes mn mx) ∧
      (run feed dollarRows twoHumps).nodes = ([1, 3], [2]) :=
  ⟨nodes_of_updates dollarRows dollarRows_constructed (by decide +kernel) twoHumps (by decide +kernel), by decide +kernel⟩

end VolumeProfile

end FreqTrading
