import Mathlib.Data.List.Perm.Basic
import FreqTrading.Lib.Groups
import FreqTrading.Lib.Python
import FreqTrading.Analytics

/-!
# The live report

`fetch_deals` of `scripts/live_report.py`: the deals of a magic, as the terminal lists them for the window, are grouped
by position, and a position with an in-deal becomes one record. An attribute that is missing or `None` is `none` here,
and no time lies outside of what `datetime` can hold.

A record is made whether or not the position is flat: `listsFlat_iff`.
-/

namespace FreqTrading

open Lib Analytics

namespace LiveReport

structure Deal where
  positionId : Int
  magic : Option Int
  entry : Int
  type : Int
  time : ℚ
  symbol : String := ""
  volume : Option ℚ := none
  profit : Option ℚ := none
  commission : Option ℚ := none
  swap : Option ℚ := none
  fee : Option ℚ := none
  deriving DecidableEq

/-- `DEAL_ENTRY_IN`. -/
def entryIn : Int := 0

/-- `DEAL_TYPE_BUY`. -/
def typeBuy : Int := 0

/-- `int(d.time)`. -/
def Deal.seconds (d : Deal) : Int := Py.truncate d.time

/-- `_utc(d.time)`, in microseconds. -/
def Deal.utc (d : Deal) : Int := d.seconds * 1000000

/-- What a deal adds to the profit of its position. -/
def Deal.booked (d : Deal) : ℚ := d.profit.getD 0 + d.commission.getD 0 + d.swap.getD 0 + d.fee.getD 0

/-- The record of a position with these deals; without an in-deal there is none. The close is the last deal but the
entry. -/
def recordOf (ds : List Deal) : Option TradeRecord :=
  let sorted := ds.mergeSort fun d e => decide (d.seconds ≤ e.seconds)
  (sorted.find? (·.entry = entryIn)).map fun entry =>
    let close := (sorted.eraseP (·.entry = entryIn)).getLast?.getD entry
    { openTs := entry.utc
      closeTs := close.utc
      pnl := (sorted.map (·.booked)).sum
      direction := if entry.type = typeBuy then "LONG" else "SHORT"
      symbol := entry.symbol
      volume := entry.volume.getD 0 }

/-- The deals of a magic; the terminal may have no answer. -/
def ofMagic (history : Option (List Deal)) (magic : Int) : List Deal :=
  (history.getD []).filter fun d => d.magic = some magic

/-- The records of `fetch_deals` with their positions, which the code leaves behind. -/
def positionRecords (history : Option (List Deal)) (magic : Int) : List (Int × TradeRecord) :=
  ((groups (·.positionId) (ofMagic history magic)).filterMap fun g => (recordOf g.2).map fun r => (g.1, r)).mergeSort
    fun r s => decide (r.2.closeTs ≤ s.2.closeTs)

/-- `fetch_deals`. -/
def fetchDeals (history : Option (List Deal)) (magic : Int) : List TradeRecord :=
  (positionRecords history magic).map (·.2)

/-! ### Flat positions -/

/-- The deals of a position. -/
def dealsOf (history : Option (List Deal)) (magic id : Int) : List Deal :=
  (ofMagic history magic).filter fun d => d.positionId = id

def inVolume (ds : List Deal) : ℚ := ((ds.filter fun d => d.entry = entryIn).map (·.volume.getD 0)).sum

def outVolume (ds : List Deal) : ℚ := ((ds.filter fun d => d.entry ≠ entryIn).map (·.volume.getD 0)).sum

def Flat (ds : List Deal) : Prop := outVolume ds = inVolume ds

instance (ds : List Deal) : Decidable (Flat ds) := inferInstanceAs (Decidable (_ = _))

/-- The report lists the flat positions of the history once and no others, each with the sum of its deals. -/
structure ListsFlat (history : Option (List Deal)) (magic : Int) : Prop where
  once : ∀ d ∈ ofMagic history magic, ((positionRecords history magic).map (·.1)).count d.positionId =
    if Flat (dealsOf history magic d.positionId) then 1 else 0
  only : ∀ r ∈ positionRecords history magic, ∃ d ∈ ofMagic history magic, d.positionId = r.1
  pnl : ∀ r ∈ positionRecords history magic, r.2.pnl = ((dealsOf history magic r.1).map (·.booked)).sum

variable {history : Option (List Deal)} {magic id : Int} {r : TradeRecord}

theorem recordOf_isSome (ds : List Deal) : (recordOf ds).isSome = true ↔ ∃ d ∈ ds, d.entry = entryIn := by
  unfold recordOf
  simp only [Option.isSome_map, List.find?_isSome, List.mem_mergeSort, decide_eq_true_eq]

theorem recordOf_pnl {ds : List Deal} (h : recordOf ds = some r) : r.pnl = (ds.map (·.booked)).sum := by
  unfold recordOf at h
  obtain ⟨entry, -, rfl⟩ := Option.map_eq_some_iff.mp h
  exact ((List.mergeSort_perm ds _).map _).sum_eq

theorem mem_positionRecords : (id, r) ∈ positionRecords history magic ↔
    (∃ d ∈ ofMagic history magic, d.positionId = id) ∧ recordOf (dealsOf history magic id) = some r := by
  have hgroups := groups_grouped Deal.positionId (ofMagic history magic)
  unfold positionRecords
  rw [List.mem_mergeSort, List.mem_filterMap, ← hgroups.keys]
  constructor
  · rintro ⟨g, hg, hrecord⟩
    obtain ⟨r', hr', heq⟩ := Option.map_eq_some_iff.mp hrecord
    obtain ⟨rfl, rfl⟩ := Prod.mk.inj heq
    rw [hgroups.members g hg] at hr'
    exact ⟨List.mem_map_of_mem hg, hr'⟩
  · rintro ⟨hid, hrecord⟩
    obtain ⟨g, hg, rfl⟩ := List.mem_map.mp hid
    refine ⟨g, hg, ?_⟩
    rw [hgroups.members g hg]
    exact Option.map_eq_some_iff.mpr ⟨r, hrecord, rfl⟩

theorem positionRecords_nodup : ((positionRecords history magic).map (·.1)).Nodup := by
  have hgroups := groups_grouped Deal.positionId (ofMagic history magic)
  have hsublist : ∀ gs : List (Int × List Deal),
      ((gs.filterMap fun g => (recordOf g.2).map fun r => (g.1, r)).map (·.1)).Sublist (gs.map (·.1)) := by
    intro gs
    induction gs with
    | nil => exact List.Sublist.refl _
    | cons g gs ih =>
      cases hrecord : recordOf g.2 with
      | none =>
        rw [List.filterMap_cons_none (by rw [hrecord]; rfl)]
        exact ih.cons _
      | some r =>
        rw [List.filterMap_cons_some (by rw [hrecord]; rfl)]
        exact ih.cons_cons _
  unfold positionRecords
  exact ((List.mergeSort_perm _ _).map _).nodup_iff.mpr (hgroups.nodup.sublist (hsublist _))

theorem count_positionRecords {d : Deal} (hd : d ∈ ofMagic history magic) :
    ((positionRecords history magic).map (·.1)).count d.positionId =
      if ∃ e ∈ dealsOf history magic d.positionId, e.entry = entryIn then 1 else 0 := by
  have hmem : d.positionId ∈ (positionRecords history magic).map (·.1) ↔
      ∃ e ∈ dealsOf history magic d.positionId, e.entry = entryIn := by
    rw [← recordOf_isSome, Option.isSome_iff_exists, List.mem_map]
    constructor
    · rintro ⟨⟨id, r⟩, hr, rfl⟩
      exact ⟨r, (mem_positionRecords.mp hr).2⟩
    · rintro ⟨r, hr⟩
      exact ⟨(d.positionId, r), mem_positionRecords.mpr ⟨⟨d, hd, rfl⟩, hr⟩, rfl⟩
  rw [positionRecords_nodup.count]
  simp only [hmem]

/-- **The report lists the flat positions exactly if these are the positions with an in-deal.** -/
theorem listsFlat_iff (history : Option (List Deal)) (magic : Int) : ListsFlat history magic ↔
    ∀ d ∈ ofMagic history magic, (∃ e ∈ dealsOf history magic d.positionId, e.entry = entryIn) ↔
      Flat (dealsOf history magic d.positionId) := by
  have hcount : ∀ p q : Prop, ∀ [Decidable p] [Decidable q], (if p then 1 else 0) = (if q then 1 else 0) ↔ (p ↔ q) := by
    intro p q _ _
    by_cases hp : p <;> by_cases hq : q <;> simp [hp, hq]
  constructor
  · intro h d hd
    have honce := h.once d hd
    rwa [count_positionRecords hd, hcount] at honce
  · intro h
    refine ⟨fun d hd => ?_, fun r hr => (mem_positionRecords.mp hr).1, fun r hr => ?_⟩
    · rw [count_positionRecords hd, hcount]
      exact h d hd
    · exact recordOf_pnl (mem_positionRecords.mp hr).2

/-- A position that is still open. -/
def openDeal : Deal where
  positionId := 100
  magic := some 20260621
  entry := entryIn
  type := typeBuy
  time := 0
  volume := some (2 / 100)

theorem listsFlat_open : ¬ ∀ history magic, ListsFlat history magic := by
  intro h
  have honce := (h (some [openDeal]) 20260621).once openDeal (by decide +kernel)
  revert honce
  decide +kernel

end LiveReport

end FreqTrading
