import FreqTrading.Lib.Rounding
import FreqTrading.Macroguard.State

/-!
# The state that the macro sidecar builds

`macro/state_writer.py`, and what the layers of `macro/` share. The state is the dictionary of the source as a
structure, and `toPy` is the dictionary; the order of its members is the source's. The layers change a state in place,
here each gives the new state. Numbers are exact.
-/

namespace FreqTrading

namespace Macro

open Lib

/-! ### Labels -/

inductive Impact
  | high | medium | low | holiday | unknown
  deriving DecidableEq, Repr

def Impact.text : Impact → Text
  | .high => "high".toList
  | .medium => "medium".toList
  | .low => "low".toList
  | .holiday => "holiday".toList
  | .unknown => "unknown".toList

/-- The kind of a calendar event. -/
inductive Kind
  | nfp | fomc | cpi | ppi | gdp | jobs | other
  deriving DecidableEq, Repr

def Kind.text : Kind → Text
  | .nfp => "NFP".toList
  | .fomc => "FOMC".toList
  | .cpi => "CPI".toList
  | .ppi => "PPI".toList
  | .gdp => "GDP".toList
  | .jobs => "JOBS".toList
  | .other => "OTHER".toList

inductive Bias
  | bullish | bearish | neutral
  deriving DecidableEq, Repr

def Bias.text : Bias → Text
  | .bullish => "bullish".toList
  | .bearish => "bearish".toList
  | .neutral => "neutral".toList

inductive Regime
  | riskOn | neutral | riskOff
  deriving DecidableEq, Repr

def Regime.text : Regime → Text
  | .riskOn => "risk_on".toList
  | .neutral => "neutral".toList
  | .riskOff => "risk_off".toList

/-- `_BIAS_DEADBAND`. -/
def biasDeadband : ℚ := 1 / 10

/-- `_bias`, the same in every layer. -/
def biasOf (score : ℚ) : Bias :=
  if biasDeadband < score then .bullish else if score < -biasDeadband then .bearish else .neutral

/-! ### The state -/

structure BlackoutState where
  active : Bool := false
  until' : Option Text := none
  reason : Option Text := none
  deriving DecidableEq

structure AssetState where
  bias : Bias := .neutral
  score : ℚ := 0
  drivers : List Text := []
  deriving DecidableEq

structure GlobalState where
  riskRegime : Regime := .neutral
  riskScore : ℚ := 0
  confidence : ℚ := 0
  blackout : BlackoutState := {}
  deriving DecidableEq

/-- A row of `events`. -/
structure Upcoming where
  id : Text
  ts : Text
  impact : Impact
  kind : Kind
  currency : Text
  preMin : Int
  postMin : Int
  deriving DecidableEq

structure State where
  generatedAt : Text
  ttlSec : Int
  global : GlobalState
  events : List Upcoming
  assets : List (Text × AssetState)
  deriving DecidableEq

/-- `SCHEMA_VERSION`. -/
def schemaVersion : Int := 1

/-- `DEFAULT_SYMBOLS`. -/
def defaultSymbols : List Text := ["XAUUSD".toList, "US100".toList, "US500".toList, "XAGUSD".toList]

/-- `neutral_state`. -/
def neutralState (symbols : List Text) (ttlSec : Int) (generatedAt : Text) : State where
  generatedAt := generatedAt
  ttlSec := ttlSec
  global := {}
  events := []
  assets := symbols.eraseDups.map fun sym => (sym, {})

def orNull : Option Text → Py
  | some s => .str s
  | none => .null

def BlackoutState.toPy (b : BlackoutState) : Py :=
  .obj [("active".toList, .bool b.active), ("until".toList, orNull b.until'), ("reason".toList, orNull b.reason)]

def AssetState.toPy (a : AssetState) : Py :=
  .obj [("bias".toList, .str a.bias.text), ("score".toList, .float (.fin a.score)),
    ("horizon".toList, .str "intraday".toList), ("drivers".toList, .list (a.drivers.map .str))]

def GlobalState.toPy (g : GlobalState) : Py :=
  .obj [("risk_regime".toList, .str g.riskRegime.text), ("risk_score".toList, .float (.fin g.riskScore)),
    ("confidence".toList, .float (.fin g.confidence)), ("blackout".toList, g.blackout.toPy)]

def Upcoming.toPy (e : Upcoming) : Py :=
  .obj [("id".toList, .str e.id), ("ts".toList, .str e.ts), ("impact".toList, .str e.impact.text),
    ("kind".toList, .str e.kind.text), ("currency".toList, .str e.currency), ("blackout_pre_min".toList, .int e.preMin),
    ("blackout_post_min".toList, .int e.postMin)]

/-- The dictionary that `build_state` returns. -/
def State.toPy (s : State) : Py :=
  .obj [("schema_version".toList, .int schemaVersion), ("generated_at".toList, .str s.generatedAt),
    ("ttl_sec".toList, .int s.ttlSec), ("global".toList, s.global.toPy),
    ("events".toList, .list (s.events.map Upcoming.toPy)),
    ("assets".toList, .obj (s.assets.map fun (sym, a) => (sym, a.toPy)))]

/-! ### What the layers share -/

/-- `max(-1.0, min(1.0, x))`. -/
def clamp (x : ℚ) : ℚ := max (-1) (min 1 x)

/-- `round(x, 3)`. -/
def round3 (x : ℚ) : ℚ := roundPlaces 3 x

/-- Texts that `==` takes for equal are equal. -/
scoped instance text_lawfulBEq : LawfulBEq Text := inferInstance

/-- Append a tag that is not there yet. -/
def addTag (drivers : List Text) (tag : Text) : List Text := if tag ∈ drivers then drivers else drivers ++ [tag]

/-- What a layer does to an asset: it moves the score, gives the bias that goes with it and says why. -/
def AssetState.tilt (a : AssetState) (delta : ℚ) (tags : List Text) : AssetState :=
  let sc := round3 (clamp (a.score + delta))
  { bias := biasOf sc, score := sc, drivers := tags.foldl addTag a.drivers }

/-- The loop of a layer over the assets: what it moves an asset by, and why, or that it leaves it. -/
def tiltAssets (assets : List (Text × AssetState)) (move : Text → Option (ℚ × List Text)) : List (Text × AssetState) :=
  assets.map fun m =>
    match move m.1 with
    | none => m
    | some (delta, tags) => (m.1, m.2.tilt delta tags)

/-- `f"{x:+.2f}"`. -/
def signed2 (x : ℚ) : Text := (if x < 0 then [] else ['+']) ++ (fixedPoint 2 x).toList

theorem round3_mono {x y : ℚ} (h : x ≤ y) : round3 x ≤ round3 y := by
  unfold round3 roundPlaces
  refine div_le_div_of_nonneg_right ?_ (by positivity)
  exact_mod_cast roundEven_mono (mul_le_mul_of_nonneg_right h (by positivity))

theorem round3_mem {x lo hi : ℚ} (hlo : round3 lo = lo) (hhi : round3 hi = hi) (h : lo ≤ x ∧ x ≤ hi) :
    lo ≤ round3 x ∧ round3 x ≤ hi := by
  constructor
  · rw [← hlo]
    exact round3_mono h.1
  · rw [← hhi]
    exact round3_mono h.2

theorem round3_int (k : ℤ) : round3 k = k := by
  unfold round3 roundPlaces
  rw [show (k : ℚ) * 10 ^ 3 = ((k * 1000 : ℤ) : ℚ) by push_cast; ring, roundEven_intCast]
  push_cast
  ring

theorem clamp_mem (x : ℚ) : -1 ≤ clamp x ∧ clamp x ≤ 1 :=
  ⟨le_max_left _ _, max_le (by norm_num) (min_le_left _ _)⟩

theorem round3_clamp_mem (x : ℚ) : -1 ≤ round3 (clamp x) ∧ round3 (clamp x) ≤ 1 :=
  round3_mem (by exact_mod_cast round3_int (-1)) (by exact_mod_cast round3_int 1) (clamp_mem x)

/-! ### Bounds and labels -/

/-- The score of an asset is in range and goes with its label. -/
structure AssetState.Scaled (a : AssetState) : Prop where
  lower : -1 ≤ a.score
  upper : a.score ≤ 1
  bias : a.bias = biasOf a.score

theorem AssetState.tilt_scaled (a : AssetState) (delta : ℚ) (tags : List Text) : (a.tilt delta tags).Scaled :=
  ⟨(round3_clamp_mem _).1, (round3_clamp_mem _).2, rfl⟩

theorem tiltAssets_scaled {assets : List (Text × AssetState)} (h : ∀ m ∈ assets, m.2.Scaled)
    (move : Text → Option (ℚ × List Text)) : ∀ m ∈ tiltAssets assets move, m.2.Scaled := by
  intro m hm
  obtain ⟨m', hm', rfl⟩ := List.mem_map.mp hm
  cases move m'.1 with
  | none => exact h m' hm'
  | some d => exact m'.2.tilt_scaled _ _

theorem tiltAssets_keys (assets : List (Text × AssetState)) (move : Text → Option (ℚ × List Text)) :
    (tiltAssets assets move).map Prod.fst = assets.map Prod.fst := by
  unfold tiltAssets
  rw [List.map_map]
  refine List.map_congr_left fun m _ => ?_
  simp only [Function.comp_apply]
  cases move m.1 <;> rfl

end Macro

end FreqTrading
