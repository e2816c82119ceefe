import FreqTrading.Indicators

/-!
# Market structure

`StructureTracker` of `orb/smc/structure.py`: fractal swings, confirmed `lookback` bars late, and the closes
that break the last unbroken one.
-/

namespace FreqTrading

structure SwingPoint where
  ts : Int
  price : ℚ
  deriving DecidableEq, Repr

inductive StructureKind
  | bos | choch
  deriving DecidableEq, Repr

structure StructureEvent where
  ts : Int
  kind : StructureKind
  direction : Direction
  /-- The swing level broken. -/
  level : ℚ
  deriving DecidableEq, Repr

/-- What the window of a tracker keeps of a bar. -/
structure SwingBar where
  ts : Int
  high : ℚ
  low : ℚ
  deriving DecidableEq, Repr

def swingBar (c : Candle) : SwingBar := ⟨c.ts, c.high, c.low⟩

structure StructureTracker where
  lookback : Int := 2
  maxSwings : Int := 50
  window : List SwingBar := []
  highs : List SwingPoint := []
  lows : List SwingPoint := []
  refHigh : Option SwingPoint := none
  refLow : Option SwingPoint := none
  trend : Option Direction := none
  deriving DecidableEq, Repr

namespace StructureTracker

/-- The centre of a full window. -/
def centre (t : StructureTracker) : Option SwingBar :=
  let k := t.lookback.toNat
  if t.window.length = 2 * k + 1 then t.window[k]? else none

/-- Every other bar of the window meets the condition. -/
def othersAll (t : StructureTracker) (meets : SwingBar → Bool) : Bool :=
  (t.window.eraseIdx t.lookback.toNat).all meets

def confirmHigh (t : StructureTracker) (bar : SwingBar) : StructureTracker :=
  if t.othersAll fun other => other.high < bar.high then
    let sp := ⟨bar.ts, bar.high⟩
    { t with highs := pushBounded t.maxSwings.toNat t.highs sp, refHigh := some sp }
  else t

def confirmLow (t : StructureTracker) (bar : SwingBar) : StructureTracker :=
  if t.othersAll fun other => bar.low < other.low then
    let sp := ⟨bar.ts, bar.low⟩
    { t with lows := pushBounded t.maxSwings.toNat t.lows sp, refLow := some sp }
  else t

/-- Take in a bar and confirm the one that is now `lookback` bars old. -/
def confirm (t : StructureTracker) (c : Candle) : StructureTracker :=
  let t := { t with window := pushBounded (2 * t.lookback.toNat + 1) t.window ⟨c.ts, c.high, c.low⟩ }
  match t.centre with
  | none => t
  | some bar => (t.confirmHigh bar).confirmLow bar

/-- A break in the direction of the last one, or the first, continues; another one changes the character. -/
def kindOf (t : StructureTracker) (direction : Direction) : StructureKind :=
  match t.trend with
  | none => .bos
  | some trend => if trend = direction then .bos else .choch

/-- The close-based break check, with at most one event. -/
def breakCheck (t : StructureTracker) (c : Candle) : Option StructureEvent × StructureTracker :=
  let up := t.refHigh.filter fun sp => sp.price < c.close
  let dn := t.refLow.filter fun sp => c.close < sp.price
  -- a bar that broke both goes by its body
  let both := up.isSome && dn.isSome
  match (if both ∧ c.close < c.open' then none else up), (if both ∧ c.open' ≤ c.close then none else dn) with
  | some sp, _ =>
    (some ⟨c.ts, t.kindOf .long, .long, sp.price⟩, { t with refHigh := none, trend := some .long })
  | none, some sp =>
    (some ⟨c.ts, t.kindOf .short, .short, sp.price⟩, { t with refLow := none, trend := some .short })
  | none, none => (none, t)

def update (t : StructureTracker) (c : Candle) : Option StructureEvent × StructureTracker :=
  (t.confirm c).breakCheck c

def lastSwingHigh (t : StructureTracker) : Option SwingPoint := t.highs.getLast?

def lastSwingLow (t : StructureTracker) : Option SwingPoint := t.lows.getLast?

/-- A wick below the last swing low and a close above it: the level swept. -/
def sweptLow (t : StructureTracker) (c : Candle) : Option ℚ :=
  (t.lastSwingLow.filter fun sp => c.low < sp.price && sp.price < c.close).map (·.price)

def sweptHigh (t : StructureTracker) (c : Candle) : Option ℚ :=
  (t.lastSwingHigh.filter fun sp => sp.price < c.high && c.close < sp.price).map (·.price)

end StructureTracker

/-! ### The window is a slice of the series -/

theorem slice_others {α : Type} {xs : List α} {n lb : Nat} (hn : n < xs.length) (hlb : 2 * lb ≤ n) (p : α → Bool) :
    ((((xs.take (n + 1)).drop (n - 2 * lb)).eraseIdx lb).all p = true) ↔
      ∀ k, (hk : k < xs.length) → n ≤ k + 2 * lb → k ≤ n → k ≠ n - lb → p xs[k] = true := by
  simp only [List.all_eq_true, List.mem_eraseIdx_iff_getElem]
  constructor
  · intro h k hk hlow hhigh hne
    refine h _ ⟨k - (n - 2 * lb), by simp; omega, by omega, ?_⟩
    simp only [List.getElem_drop, List.getElem_take]
    congr 1
    omega
  · rintro h x ⟨i, hi, hne, rfl⟩
    simp only [List.length_drop, List.length_take] at hi
    simp only [List.getElem_drop, List.getElem_take]
    exact h _ (by omega) (by omega) (by omega) (by omega)

theorem slice_centre {bars : List Candle} {n lb : Nat} (hn : n < bars.length) (hfull : 2 * lb ≤ n) :
    (((bars.map swingBar).take (n + 1)).drop (n - 2 * lb))[lb]? = some (swingBar bars[n - lb]) := by
  have hat : n - 2 * lb + lb = n - lb := by omega
  rw [List.getElem?_drop, hat, List.getElem?_take_of_lt (by omega), List.getElem?_map,
    List.getElem?_eq_getElem (by omega), Option.map_some]

end FreqTrading
