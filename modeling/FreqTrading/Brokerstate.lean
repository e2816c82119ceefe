import FreqTrading.Lib.Run
import FreqTrading.Riskguard
import Mathlib.Data.List.Induction

/-!
# The broker-state cache

`BrokerStateCache` of `orb/brokerstate.py`: a background task takes a snapshot of balance and positions again and
again, and the bar loop reads the snapshot. A refresh writes nothing before both broker calls have returned, so it is
one event, at the time at which it stores the snapshot or fails; its reads may be older than reads of the loop that
come before it. What the broker answers and what the clock says are inputs.
-/

namespace FreqTrading

namespace Brokerstate

open Lib

variable {Pos α : Type*}

structure BrokerStateCache (Pos : Type*) where
  balance : Option ℚ := none
  positions : Option (List Pos) := none
  updatedAt : Option ℚ := none

/-- The cache before the first refresh. -/
def cold : BrokerStateCache Pos := {}

/-- `_is_fresh`. -/
def BrokerStateCache.isFresh (c : BrokerStateCache Pos) (maxAge : Option ℚ) (now : ℚ) : Bool :=
  match c.updatedAt with
  | none => false
  | some updatedAt =>
    match maxAge with
    | none => true
    | some age => now - updatedAt ≤ age

/-- How a read is answered: with the snapshot, or by the broker, which raises if it has no answer. -/
inductive Answer (α : Type*) where
  | cached (a : α)
  | direct (broker : Option α)
  deriving DecidableEq

/-- What the caller gets; `none` is an exception. -/
def Answer.value : Answer α → Option α
  | .cached a => some a
  | .direct broker => broker

/-- What the cache keeps: a direct read that returns replaces the snapshot, but not its time. -/
def Answer.kept (snapshot : Option α) : Answer α → Option α
  | .cached _ => snapshot
  | .direct broker => broker.or snapshot

/-- The body that `balance` and `positions` share. -/
def BrokerStateCache.read (c : BrokerStateCache Pos) (snapshot : Option α) (maxAge : Option ℚ) (now : ℚ)
    (broker : Option α) : Answer α :=
  match snapshot with
  | none => .direct broker
  | some a => if c.isFresh maxAge now then .cached a else .direct broker

/-- `balance`. -/
def BrokerStateCache.readBalance (c : BrokerStateCache Pos) (maxAge : Option ℚ) (now : ℚ) (broker : Option ℚ) :
    Answer ℚ :=
  c.read c.balance maxAge now broker

/-- `positions`. -/
def BrokerStateCache.readPositions (c : BrokerStateCache Pos) (maxAge : Option ℚ) (now : ℚ)
    (broker : Option (List Pos)) : Answer (List Pos) :=
  c.read c.positions maxAge now broker

inductive Event (Pos : Type*) where
  /-- `_refresh_once` comes to its end. -/
  | refreshed (balance : ℚ) (positions : List Pos) (now : ℚ)
  /-- One of its two broker calls raises; `_run` logs it and goes on. -/
  | refreshFailed
  | balance (maxAge : Option ℚ) (now : ℚ) (broker : Option ℚ)
  | positions (maxAge : Option ℚ) (now : ℚ) (broker : Option (List Pos))

def BrokerStateCache.step (c : BrokerStateCache Pos) : Event Pos → BrokerStateCache Pos
  | .refreshed balance positions now => ⟨some balance, some positions, some now⟩
  | .refreshFailed => c
  | .balance maxAge now broker => { c with balance := (c.readBalance maxAge now broker).kept c.balance }
  | .positions maxAge now broker => { c with positions := (c.readPositions maxAge now broker).kept c.positions }

/-! ### The law of the fall back -/

/-- A refresh has failed, and none has succeeded since. -/
def Failing (es : List (Event Pos)) : Prop :=
  ∃ xs ys, es = xs ++ .refreshFailed :: ys ∧ ∀ b ps now, .refreshed b ps now ∉ ys

/-- If the event is a read, the broker answers it. -/
def Event.Direct (c : BrokerStateCache Pos) : Event Pos → Prop
  | .balance maxAge now broker => c.readBalance maxAge now broker = .direct broker
  | .positions maxAge now broker => c.readPositions maxAge now broker = .direct broker
  | _ => True

/-- Every read after a failed refresh, with no success since, is answered by the broker. -/
def FallsBack (es : List (Event Pos)) : Prop :=
  ∀ xs e ys, es = xs ++ e :: ys → Failing xs → e.Direct (run BrokerStateCache.step cold xs)

/-- The time of the last refresh that succeeded. -/
def lastSuccess (es : List (Event Pos)) : Option ℚ :=
  es.reverse.findSome? fun
    | .refreshed _ _ now => some now
    | _ => none

/-- The read asks for a snapshot that is younger than the last success, if there is one. -/
def Asks (maxAge : Option ℚ) (now : ℚ) (success : Option ℚ) : Prop :=
  ∀ t, success = some t → ∃ age, maxAge = some age ∧ age < now - t

/-- If the event is a read, it asks for a younger snapshot than there is. -/
def Event.AsksYounger (success : Option ℚ) : Event Pos → Prop
  | .balance maxAge now _ => Asks maxAge now success
  | .positions maxAge now _ => Asks maxAge now success
  | _ => True

/-! ### What the cache holds after a run -/

/-- The time of the snapshot is that of the last success, and a success leaves both snapshots. -/
structure Holds (success : Option ℚ) (c : BrokerStateCache Pos) : Prop where
  updatedAt : c.updatedAt = success
  balance : success.isSome = true → c.balance.isSome = true
  positions : success.isSome = true → c.positions.isSome = true

theorem cold_holds : Holds none (cold : BrokerStateCache Pos) := by
  refine ⟨rfl, ?_, ?_⟩
  · intro h
    cases h
  · intro h
    cases h

theorem kept_isSome {snapshot : Option α} (h : snapshot.isSome = true) (a : Answer α) :
    (a.kept snapshot).isSome = true := by
  cases a with
  | cached a => exact h
  | direct broker => simp [Answer.kept, h]

theorem lastSuccess_append (es : List (Event Pos)) (e : Event Pos) :
    lastSuccess (es ++ [e]) =
      match e with
      | .refreshed _ _ now => some now
      | _ => lastSuccess es := by
  cases e <;> simp [lastSuccess]

theorem Holds.step {es : List (Event Pos)} {c : BrokerStateCache Pos} (h : Holds (lastSuccess es) c) (e : Event Pos) :
    Holds (lastSuccess (es ++ [e])) (c.step e) := by
  rw [lastSuccess_append]
  cases e with
  | refreshed balance positions now => exact ⟨rfl, fun _ => rfl, fun _ => rfl⟩
  | refreshFailed => exact h
  | balance maxAge now broker =>
    exact ⟨h.updatedAt, fun hsome => kept_isSome (h.balance hsome) _, h.positions⟩
  | positions maxAge now broker =>
    exact ⟨h.updatedAt, h.balance, fun hsome => kept_isSome (h.positions hsome) _⟩

theorem run_holds (es : List (Event Pos)) : Holds (lastSuccess es) (run BrokerStateCache.step cold es) := by
  induction es using List.reverseRecOn with
  | nil => exact cold_holds
  | append_singleton es e ih =>
    rw [run_append]
    exact ih.step e

/-! ### When a read falls back -/

theorem not_fresh_iff {success : Option ℚ} {c : BrokerStateCache Pos} (h : c.updatedAt = success)
    (maxAge : Option ℚ) (now : ℚ) : c.isFresh maxAge now = false ↔ Asks maxAge now success := by
  unfold BrokerStateCache.isFresh Asks
  rw [h]
  cases success with
  | none => simp
  | some t =>
    cases maxAge with
    | none => simp
    | some age => simp [lt_sub_iff_add_lt]

theorem read_direct_iff {success : Option ℚ} {c : BrokerStateCache Pos} {snapshot : Option α}
    (h : c.updatedAt = success) (hsnapshot : success.isSome = true → snapshot.isSome = true) (maxAge : Option ℚ)
    (now : ℚ) (broker : Option α) :
    c.read snapshot maxAge now broker = .direct broker ↔ Asks maxAge now success := by
  rw [← not_fresh_iff h]
  unfold BrokerStateCache.read
  cases snapshot with
  | none =>
    -- no snapshot, so no refresh has succeeded
    have hnone : success = none := by
      by_contra hsome
      cases hsnapshot (Option.isSome_iff_ne_none.mpr hsome)
    simp [BrokerStateCache.isFresh, h, hnone]
  | some a =>
    by_cases hfresh : c.isFresh maxAge now = true
    · simp [hfresh]
    · simp [hfresh]

theorem direct_iff {success : Option ℚ} {c : BrokerStateCache Pos} (h : Holds success c) (e : Event Pos) :
    e.Direct c ↔ e.AsksYounger success := by
  cases e with
  | refreshed balance positions now => exact Iff.rfl
  | refreshFailed => exact Iff.rfl
  | balance maxAge now broker => exact read_direct_iff h.updatedAt h.balance maxAge now broker
  | positions maxAge now broker => exact read_direct_iff h.updatedAt h.positions maxAge now broker

/-- **A failed refresh falls back** in exactly the runs whose reads after a failure ask for a younger snapshot than
that of the last success, or come before any success. -/
theorem fallsBack_iff (es : List (Event Pos)) :
    FallsBack es ↔ ∀ xs e ys, es = xs ++ e :: ys → Failing xs → e.AsksYounger (lastSuccess xs) := by
  constructor
  · intro h xs e ys hes hfailing
    exact (direct_iff (run_holds xs) e).mp (h xs e ys hes hfailing)
  · intro h xs e ys hes hfailing
    exact (direct_iff (run_holds xs) e).mpr (h xs e ys hes hfailing)

/-- An hour after the last success the account has lost half; every refresh since has failed. -/
def outage : List (Event Unit) := [.refreshed 10000 [] 0, .refreshFailed, .balance none 3600 (some 5000)]

/-- **The breaker on an old balance.** The read after the failure is answered with the snapshot, and a breaker with a
cap of 1000 goes on; with what the broker says it would halt. -/
theorem outage_cached :
    ¬FallsBack outage ∧
      (run BrokerStateCache.step (cold : BrokerStateCache Unit) (outage.take 2)).readBalance none 3600 (some 5000) =
        .cached 10000 ∧
      ((({ cap := ⟨some 1000, none, by decide, by decide +kernel, DailyCap.none_pos⟩ } : DailyLossBreaker).update 0
        10000).update 0 10000).halted = false ∧
      ((({ cap := ⟨some 1000, none, by decide, by decide +kernel, DailyCap.none_pos⟩ } : DailyLossBreaker).update 0
        10000).update 0 5000).halted = true := by
  refine ⟨?_, by decide +kernel, by decide +kernel, by decide +kernel⟩
  intro h
  have hdirect := h [.refreshed 10000 [] 0, .refreshFailed] (.balance none 3600 (some 5000)) [] rfl
    ⟨[.refreshed 10000 [] 0], [], rfl, by simp⟩
  rw [direct_iff (run_holds _)] at hdirect
  obtain ⟨age, hage, -⟩ := hdirect 0 rfl
  cases hage

/-! ### The callers -/

/-- The calls of the bar loop: it passes no `max_age`. -/
def Event.OfLoop : Event Pos → Prop
  | .balance maxAge _ _ => maxAge = none
  | .positions maxAge _ _ => maxAge = none
  | _ => True

theorem warm_read {c : BrokerStateCache Pos} {b : ℚ} (hwarm : c.updatedAt.isSome = true) (hbalance : c.balance = some b)
    (now : ℚ) (broker : Option ℚ) : c.readBalance none now broker = .cached b := by
  obtain ⟨t, ht⟩ := Option.isSome_iff_exists.mp hwarm
  simp [BrokerStateCache.readBalance, BrokerStateCache.read, BrokerStateCache.isFresh, hbalance, ht]

theorem warm_step {c : BrokerStateCache Pos} {b : ℚ} {e : Event Pos} (hwarm : c.updatedAt.isSome = true)
    (hbalance : c.balance = some b) (hfails : ∀ b ps now, e ≠ .refreshed b ps now) (hloop : e.OfLoop) :
    (c.step e).updatedAt.isSome = true ∧ (c.step e).balance = some b := by
  cases e with
  | refreshed balance positions now => exact absurd rfl (hfails balance positions now)
  | refreshFailed => exact ⟨hwarm, hbalance⟩
  | balance maxAge now broker =>
    obtain rfl : maxAge = none := hloop
    -- the read is answered with the snapshot, which stays
    refine ⟨hwarm, ?_⟩
    simp only [BrokerStateCache.step, warm_read hwarm hbalance, Answer.kept]
    exact hbalance
  | positions maxAge now broker => exact ⟨hwarm, hbalance⟩

/-- Once a refresh has succeeded, the loop reads one and the same balance until the next success. -/
theorem balance_frozen {c : BrokerStateCache Pos} {b : ℚ} (hwarm : c.updatedAt.isSome = true)
    (hbalance : c.balance = some b) {es : List (Event Pos)} (hfails : ∀ b ps now, .refreshed b ps now ∉ es)
    (hloop : ∀ e ∈ es, e.OfLoop) (now : ℚ) (broker : Option ℚ) :
    (run BrokerStateCache.step c es).readBalance none now broker = .cached b := by
  have hmeet : StepsMeet BrokerStateCache.step
      (fun _ (e : Event Pos) => (∀ b ps now, e ≠ .refreshed b ps now) ∧ e.OfLoop) c es :=
    stepsMeet_of_forall fun e he => ⟨fun b ps now heq => hfails b ps now (heq ▸ he), hloop e he⟩
  obtain ⟨hwarm', hbalance'⟩ :=
    run_invariant (I := fun c : BrokerStateCache Pos => c.updatedAt.isSome = true ∧ c.balance = some b)
      (fun _ _ hc he => warm_step hc.1 hc.2 he.1 he.2) ⟨hwarm, hbalance⟩ hmeet
  exact warm_read hwarm' hbalance' now broker

end Brokerstate

end FreqTrading
