import FreqTrading.Lib.Calendar
import FreqTrading.Models

/-!
# The macro state and its decisions

The parsed state model and the pure decision logic of `orb/macroguard.py`. `fromDict` may raise; `MacroGuard.read`
catches some of what it raises, and `fieldVerdicts` says of each field, in the order in which the fields are read,
whether it is taken, refused with an exception that is caught, or refused with one that is not. Where the source keeps
the text of a JSON value (`str(...)`) the value itself is kept.
-/

namespace FreqTrading

namespace Macroguard

open Lib

/-! ### The parsed state model -/

structure Blackout where
  active : Bool := false
  until' : Py := .null
  reason : Py := .null

structure AssetView where
  bias : Py
  score : PyFloat
  horizon : Py
  drivers : List Py

structure MacroState where
  schemaVersion : Int
  generatedAt : DateTime
  ttlSec : Int
  riskRegime : Py
  riskScore : PyFloat
  confidence : PyFloat
  blackout : Blackout
  assets : List (Key × AssetView)

/-- `raw.replace("Z", "+00:00")`. -/
def replaceZ (raw : Text) : Text := raw.flatMap fun c => if c = 'Z' then "+00:00".toList else [c]

/-- `_parse_ts`. -/
def parseTs (raw : Text) : Except PyError DateTime :=
  match fromisoformat (replaceZ raw) with
  | none => .error .valueError
  | some (_, none) => .error .valueError
  | some (us, some offset) => if h : InRange (us - offset) then .ok ⟨us - offset, h⟩ else .error .overflowError

/-- `_parse_ts(str(d["generated_at"]))`: the text of anything but a string is no aware time. -/
def parseGeneratedAt (d : Py) : Except PyError DateTime :=
  match d.members.lookup (keyOf "generated_at".toList) with
  | none => .error .keyError
  | some (.str s) => parseTs s
  | some _ => .error .valueError

/-- `str.upper`, on ASCII. -/
def upper (s : Text) : Text := s.map Char.toUpper

/-- The same on code points. -/
def upperKey (key : Key) : Key := key.map fun u => if 'a'.toNat ≤ u ∧ u ≤ 'z'.toNat then u - 32 else u

theorem upperKey_keyOf (s : Text) : upperKey (keyOf s) = keyOf (upper s) := by
  unfold upperKey keyOf upper
  rw [List.map_map, List.map_map]
  refine List.map_congr_left fun c _ => ?_
  have hrange : ('a'.toNat ≤ c.toNat ∧ c.toNat ≤ 'z'.toNat) ↔ ('a'.val ≤ c.val ∧ c.val ≤ 'z'.val) := by
    simp only [UInt32.le_iff_toNat_le]
    rfl
  show (if 'a'.toNat ≤ c.toNat ∧ c.toNat ≤ 'z'.toNat then c.toNat - 32 else c.toNat) = c.toUpper.toNat
  unfold Char.toUpper
  by_cases h : 'a'.val ≤ c.val ∧ c.val ≤ 'z'.val
  · rw [if_pos (hrange.mpr h), dif_pos h]
    obtain ⟨hlow, hhigh⟩ := hrange.mpr h
    show c.toNat - 32 = (c.val + ('A'.val - 'a'.val)).toNat
    rw [UInt32.toNat_add]
    show c.toNat - 32 = (c.toNat + 4294967264) % 4294967296
    simp only [show 'a'.toNat = 97 from rfl, show 'z'.toNat = 122 from rfl] at hlow hhigh
    omega
  · rw [if_neg (mt hrange.mp h), dif_neg h]

/-- One turn of the loop over the assets. -/
def addAsset (assets : List (Key × AssetView)) (item : Key × Py) : Except PyError (List (Key × AssetView)) := do
  let bias ← item.2.get "bias".toList (.str "neutral".toList)
  let score ← (← item.2.get "score".toList (.float (.fin 0))).toFloat
  let horizon ← item.2.get "horizon".toList (.str "intraday".toList)
  let drivers ← ((← item.2.get "drivers".toList (.list [])).or (.list [])).tuple
  return put assets (upperKey item.1) { bias, score, horizon, drivers }

/-- `MacroState.from_dict`. -/
def fromDict (d : Py) : Except PyError MacroState := do
  let g ← d.get "global".toList (.dict [])
  let b ← g.get "blackout".toList (.dict [])
  let assets ← d.get "assets".toList (.dict [])
  let assets ← (assets.or (.dict [])).items
  let assets ← assets.foldlM addAsset []
  let schemaVersion ← (← d.get "schema_version".toList (.int 0)).toInt
  let generatedAt ← parseGeneratedAt d
  let ttlSec ← (← d.get "ttl_sec".toList (.int 0)).toInt
  let riskRegime ← g.get "risk_regime".toList (.str "neutral".toList)
  let riskScore ← (← g.get "risk_score".toList (.float (.fin 0))).toFloat
  let confidence ← (← g.get "confidence".toList (.float (.fin 0))).toFloat
  let active ← (b.or (.dict [])).get "active".toList (.bool false)
  let until' ← (b.or (.dict [])).get "until".toList .null
  let reason ← (b.or (.dict [])).get "reason".toList .null
  return {
    schemaVersion, generatedAt, ttlSec, riskRegime, riskScore, confidence, assets
    blackout := { active := active.truthy, until', reason } }

namespace MacroState

def ageSec (s : MacroState) (now : DateTime) : ℚ := now.secondsSince s.generatedAt

def isStale (s : MacroState) (now : DateTime) : Bool := s.ttlSec ≤ 0 || (s.ttlSec : ℚ) < s.ageSec now

end MacroState

/-! ### Decisions -/

/-- `default_when_stale`. -/
inductive WhenStale
  | allow | block
  deriving DecidableEq, Repr

inductive Action
  | allow | veto
  deriving DecidableEq, Repr

/-- The reason of a decision, with what its text shows. -/
inductive Reason
  | absent (w : WhenStale)
  | stale (w : WhenStale)
  | blackout (reason : Py)
  | biasConflict (score confidence : PyFloat)
  | macroOk (regime : Py) (bias : Option Py)

structure Decision where
  action : Action
  qty : Option ℚ
  reason : Reason

/-- `_EPS`. -/
def eps : ℚ := 1 / 1000000000

/-- `bare_key`. -/
def bareKey (symbol : Text) : Text := upper (symbol.takeWhile (· ≠ '.'))

/-- `_stale_decision`. -/
def staleDecision (qty : Option ℚ) (w : WhenStale) (reason : WhenStale → Reason) : Decision where
  action := if w = .block then .veto else .allow
  qty := qty
  reason := reason w

/-- The score is against the direction. -/
def opposes (score : PyFloat) (direction : Direction) : Bool :=
  match direction with
  | .long => !(PyFloat.fin 0).lt score
  | .short => (PyFloat.fin 0).lt score

/-- The asset's score counts, with enough confidence, and is against the direction. -/
def conflicts (s : MacroState) (view : AssetView) (direction : Direction) (confMin : ℚ) : Bool :=
  (PyFloat.fin eps).lt view.score.abs && (PyFloat.fin confMin).le s.confidence && opposes view.score direction

def decideEntry (state : Option MacroState) (assetKey : Text) (direction : Direction) (qty : Option ℚ) (now : DateTime)
    (confMin : ℚ) (w : WhenStale) : Decision :=
  match state with
  | none => staleDecision qty w .absent
  | some s =>
    if s.isStale now then staleDecision qty w .stale
    else if s.blackout.active then ⟨.veto, qty, .blackout (s.blackout.reason.or (.str "unknown".toList))⟩
    else
      match s.assets.lookup (keyOf assetKey) with
      | none => ⟨.allow, qty, .macroOk s.riskRegime none⟩
      | some view =>
        if conflicts s view direction confMin then ⟨.veto, qty, .biasConflict view.score s.confidence⟩
        else ⟨.allow, qty, .macroOk s.riskRegime (some view.bias)⟩

/-- The reason if positions are to be closed. -/
def decideRiskOff (state : Option MacroState) (now : DateTime) : Option Reason :=
  match state with
  | none => none
  | some s =>
    if s.isStale now then none
    else if s.blackout.active then some (.blackout (s.blackout.reason.or (.str "unknown".toList)))
    else none

/-! ### What becomes of a field -/

/-- The exceptions that `MacroGuard.read` catches. -/
def caughtByRead : PyError → Bool
  | .osError | .valueError | .keyError | .typeError => true
  | .attributeError | .overflowError | .recursionError => false

/-- A value that is used as an object. -/
def objectVerdict : Py → Verdict
  | .dict _ => .fine
  | _ => .escapes

/-- A value that `int` is applied to. -/
def intVerdict : Py → Verdict
  | .bool _ | .int _ | .float (.fin _) => .fine
  | .float (.inf _) => .escapes
  | .str s => if (intOf? s).isSome then .fine else .caught
  | .float .nan | .null | .list _ | .dict _ => .caught

/-- A value that `float` is applied to. -/
def floatVerdict : Py → Verdict
  | .bool _ | .float _ => .fine
  | .int n => if floatLimit ≤ |(n : ℚ)| then .escapes else .fine
  | .str s => if (floatOf? s).isSome then .fine else .caught
  | .null | .list _ | .dict _ => .caught

/-- A value that is iterated over. -/
def tupleVerdict : Py → Verdict
  | .list _ | .str _ | .dict _ => .fine
  | _ => .caught

/-- A time stamp, or the lack of one. -/
def stampVerdict : Option Py → Verdict
  | some (.str s) =>
    match fromisoformat (replaceZ s) with
    | some (us, some offset) => if InRange (us - offset) then .fine else .escapes
    | _ => .caught
  | _ => .caught

/-- The member of an object under a key, or a default. -/
def field (x : Py) (key : Text) (default : Py) : Py := (x.members.lookup (keyOf key)).getD default

def assetVerdict (view : Py) : Verdict :=
  .first [objectVerdict view, floatVerdict (field view "score".toList (.float (.fin 0))),
    tupleVerdict ((field view "drivers".toList (.list [])).or (.list []))]

/-- What becomes of the fields of a state, in the order in which they are read. -/
def fieldVerdicts (d : Py) : List Verdict :=
  let g := field d "global".toList (.dict [])
  let assets := (field d "assets".toList (.dict [])).or (.dict [])
  [objectVerdict d, objectVerdict g, objectVerdict assets] ++ assets.members.map (fun item => assetVerdict item.2) ++
    [intVerdict (field d "schema_version".toList (.int 0)), stampVerdict (d.members.lookup (keyOf "generated_at".toList)),
      intVerdict (field d "ttl_sec".toList (.int 0)), floatVerdict (field g "risk_score".toList (.float (.fin 0))),
      floatVerdict (field g "confidence".toList (.float (.fin 0))),
      objectVerdict ((field g "blackout".toList (.dict [])).or (.dict []))]

theorem get_verdict (x : Py) (key : Text) (default : Py) :
    verdict caughtByRead (x.get key default) = objectVerdict x := by
  cases x <;> rfl

theorem items_verdict (x : Py) : verdict caughtByRead x.items = objectVerdict x := by
  cases x <;> rfl

theorem toInt_verdict (x : Py) : verdict caughtByRead x.toInt = intVerdict x := by
  cases x with
  | float x => cases x <;> rfl
  | str s =>
    simp only [Py.toInt, intVerdict]
    cases intOf? s <;> rfl
  | _ => rfl

theorem toFloat_verdict (x : Py) : verdict caughtByRead x.toFloat = floatVerdict x := by
  cases x with
  | int n =>
    simp only [Py.toFloat, floatVerdict]
    split <;> rfl
  | str s =>
    simp only [Py.toFloat, floatVerdict]
    cases floatOf? s <;> rfl
  | _ => rfl

theorem tuple_verdict (x : Py) : verdict caughtByRead x.tuple = tupleVerdict x := by
  cases x <;> rfl

theorem stamp_verdict (d : Py) :
    verdict caughtByRead (parseGeneratedAt d) = stampVerdict (d.members.lookup (keyOf "generated_at".toList)) := by
  unfold parseGeneratedAt
  cases d.members.lookup (keyOf "generated_at".toList) with
  | none => rfl
  | some x =>
    cases x with
    | str s =>
      simp only [parseTs, stampVerdict]
      rcases fromisoformat (replaceZ s) with - | ⟨us, - | offset⟩
      · rfl
      · rfl
      · by_cases h : InRange (us - offset)
        · simp only [dif_pos h, if_pos h]
          rfl
        · simp only [dif_neg h, if_neg h]
          rfl
    | _ => rfl

theorem verdict_step {α β : Type} {x : Except PyError α} {f : α → Except PyError β} {v : Verdict} {vs : List Verdict}
    (hx : verdict caughtByRead x = v) (hf : ∀ a, x = .ok a → verdict caughtByRead (f a) = .first vs) :
    verdict caughtByRead (x >>= f) = .first (v :: vs) := by
  rw [verdict_bind hf, hx]
  rfl

theorem verdict_steps {α β : Type} {x : Except PyError α} {f : α → Except PyError β} {us vs : List Verdict}
    (hx : verdict caughtByRead x = .first us) (hf : ∀ a, x = .ok a → verdict caughtByRead (f a) = .first vs) :
    verdict caughtByRead (x >>= f) = .first (us ++ vs) := by
  rw [verdict_bind hf, hx, Verdict.first_append]

@[simp] theorem dict_get (members : List (Key × Py)) (key : Text) (default : Py) :
    (Py.dict members).get key default = .ok (field (.dict members) key default) := rfl

theorem get_ok {x : Py} {key : Text} {default y : Py} (h : x.get key default = .ok y) :
    ∃ members, x = .dict members ∧ y = field x key default := by
  cases x with
  | dict members =>
    cases h
    exact ⟨members, rfl, rfl⟩
  | _ => cases h

theorem items_ok {x : Py} {members : List (Key × Py)} (h : x.items = .ok members) : members = x.members := by
  cases x with
  | dict members' =>
    cases h
    rfl
  | _ => cases h

theorem addAsset_verdict (assets : List (Key × AssetView)) (item : Key × Py) :
    verdict caughtByRead (addAsset assets item) = assetVerdict item.2 := by
  unfold addAsset assetVerdict
  refine verdict_step (get_verdict _ _ _) fun bias hbias => ?_
  obtain ⟨members, hmembers, -⟩ := get_ok hbias
  rw [hmembers]
  simp only [dict_get, ok_bind]
  refine verdict_step (toFloat_verdict _) fun score _ => ?_
  exact verdict_step (tuple_verdict _) fun drivers _ => rfl

theorem assets_verdict (items : List (Key × Py)) (assets : List (Key × AssetView)) :
    verdict caughtByRead (items.foldlM addAsset assets) = .first (items.map fun item => assetVerdict item.2) := by
  induction items generalizing assets with
  | nil => rfl
  | cons item items ih =>
    rw [List.foldlM_cons]
    exact verdict_step (addAsset_verdict assets item) fun assets' _ => ih assets'

/-- **What `from_dict` makes of a value** is decided by the first field that it does not take. -/
theorem fromDict_verdict (d : Py) : verdict caughtByRead (fromDict d) = .first (fieldVerdicts d) := by
  unfold fromDict fieldVerdicts
  refine verdict_step (get_verdict _ _ _) fun g hg => ?_
  obtain ⟨members, rfl, rfl⟩ := get_ok hg
  refine verdict_step (get_verdict _ _ _) fun b hb => ?_
  obtain ⟨globals, hglobals, rfl⟩ := get_ok hb
  simp only [hglobals, dict_get, ok_bind]
  refine verdict_step (items_verdict _) fun assets hassets => ?_
  obtain rfl := items_ok hassets
  refine verdict_steps (assets_verdict _ _) fun assets _ => ?_
  refine verdict_step (toInt_verdict _) fun schemaVersion _ => ?_
  refine verdict_step (stamp_verdict _) fun generatedAt _ => ?_
  refine verdict_step (toInt_verdict _) fun ttlSec _ => ?_
  refine verdict_step (toFloat_verdict _) fun riskScore _ => ?_
  refine verdict_step (toFloat_verdict _) fun confidence _ => ?_
  refine verdict_step (get_verdict _ _ _) fun active hactive => ?_
  obtain ⟨blackout, hblackout, -⟩ := get_ok hactive
  rw [hblackout]
  rfl

end Macroguard

end FreqTrading
