import Mathlib.Tactic.Ring
import FreqTrading.Models

/-!
# Retcode policy

`orb/broker/retcodes.py`: what the broker does about the answer of `order_send`. A retcode that is not in
the table aborts, and no answer at all is ambiguous.
-/

namespace FreqTrading

inductive PolicyAction
  | success | successPartial | retryFreshPrice | retryBackoff | ambiguous | deferLadder | rotateFilling
  | abort | abortAlert
  deriving DecidableEq, Repr

/-- `POLICY`. -/
def policy : List (Int × PolicyAction) :=
  [(10009, .success), (10008, .success), (10010, .successPartial),
   (10004, .retryFreshPrice), (10015, .retryFreshPrice), (10020, .retryFreshPrice),
   (10006, .retryBackoff), (10011, .retryBackoff), (10021, .retryBackoff), (10024, .retryBackoff),
   (10028, .retryBackoff), (10012, .ambiguous), (10031, .ambiguous), (10019, .deferLadder),
   (10030, .rotateFilling), (10013, .abort), (10014, .abort), (10017, .abort), (10018, .abort),
   (10022, .abort), (10029, .abort), (10033, .abort), (10034, .abort), (10016, .abortAlert),
   (10026, .abortAlert), (10027, .abortAlert)]

def classify : Option Int → PolicyAction
  | none => .ambiguous
  | some retcode => ((policy.find? (·.1 = retcode)).map (·.2)).getD .abort

theorem mem_policy_of_classify {retcode : Int} (h : classify (some retcode) ≠ .abort) :
    (retcode, classify (some retcode)) ∈ policy := by
  simp only [classify] at *
  cases hfind : policy.find? (·.1 = retcode) with
  | none =>
    rw [hfind] at h
    exact absurd rfl h
  | some row =>
    have hcode : row.1 = retcode := by simpa using List.find?_some hfind
    have hmem : row ∈ policy := List.mem_of_find?_eq_some hfind
    show (retcode, row.2) ∈ policy
    rwa [← hcode]

/-- `TRADE_RETCODE_DONE`. -/
def retcodeDone : Int := 10009

structure RetryPolicy where
  maxRetries : Nat := 3
  baseDelay : ℚ := 1 / 2
  mult : ℚ := 2
  maxDelay : ℚ := 8
  deriving DecidableEq, Repr

/-- The loop of `delays`, with `d` its running delay: each turn yields it capped, and multiplies it. -/
def delaysFrom (pol : RetryPolicy) : Nat → ℚ → List ℚ
  | 0, _ => []
  | n + 1, d => min d pol.maxDelay :: delaysFrom pol n (d * pol.mult)

def delays (pol : RetryPolicy) : List ℚ := delaysFrom pol pol.maxRetries pol.baseDelay

theorem delaysFrom_eq (pol : RetryPolicy) (n : Nat) (d : ℚ) :
    delaysFrom pol n d = (List.range n).map fun i => min (d * pol.mult ^ i) pol.maxDelay := by
  induction n generalizing d with
  | zero => rfl
  | succ n ih =>
    have hpow : ∀ i, d * pol.mult * pol.mult ^ i = d * pol.mult ^ (i + 1) := fun i => by rw [pow_succ']; ring
    rw [delaysFrom, ih, List.range_succ_eq_map, List.map_cons, List.map_map, pow_zero, mul_one]
    refine congrArg _ (List.map_congr_left fun i _ => ?_)
    rw [hpow]
    rfl

theorem delays_eq (pol : RetryPolicy) :
    delays pol = (List.range pol.maxRetries).map fun i => min (pol.baseDelay * pol.mult ^ i) pol.maxDelay :=
  delaysFrom_eq pol _ _

theorem classify_success {retcode : Option Int}
    (h : classify retcode = .success ∨ classify retcode = .successPartial) :
    retcode = some 10009 ∨ retcode = some 10008 ∨ retcode = some 10010 := by
  have hrows : ∀ row ∈ policy, (row.2 = .success ∨ row.2 = .successPartial) →
      row.1 = 10009 ∨ row.1 = 10008 ∨ row.1 = 10010 := by decide
  cases retcode with
  | none => rcases h with h | h <;> cases h
  | some code =>
    have hmem : (code, classify (some code)) ∈ policy :=
      mem_policy_of_classify (by rcases h with h | h <;> rw [h] <;> decide)
    simpa using hrows _ hmem h

theorem classify_ambiguous {retcode : Option Int} (h : classify retcode = .ambiguous) :
    retcode = none ∨ retcode = some 10012 ∨ retcode = some 10031 := by
  have hrows : ∀ row ∈ policy, row.2 = .ambiguous → row.1 = 10012 ∨ row.1 = 10031 := by decide
  cases retcode with
  | none => exact Or.inl rfl
  | some code =>
    have hmem : (code, classify (some code)) ∈ policy := mem_policy_of_classify (by rw [h]; decide)
    exact Or.inr (by simpa using hrows _ hmem h)

end FreqTrading
