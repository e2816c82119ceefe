import FreqTrading.Lib.JsonLoad
import FreqTrading.Lib.Run
import FreqTrading.Macroguard.State

/-!
# The macro guard

`MacroGuard` of `orb/macroguard.py`, over any sequence of calls. What is at `state_path` when a call looks, and what the
clock says, are inputs, so the file may be rewritten in any way between two calls. Beside the guard stands what it is
for, `Good`: the last good state, which a content that does not parse leaves as it is. `limit` is how deep `json` can
nest before the interpreter gives up.
-/

namespace FreqTrading

namespace Macroguard

open Lib

inductive Content
  /-- `open` or `read` raises an `OSError`. -/
  | unreadable
  | bytes (bs : List UInt8)
  deriving DecidableEq, Repr

/-- What is at `state_path`: nothing that `os.stat` finds, or a file with the time of its last change. -/
inductive File
  | absent
  | present (mtime : Int) (content : Content)
  deriving DecidableEq, Repr

inductive Query
  | evaluateEntry (direction : Direction) (qty : Option ℚ)
  | riskOffNow
  deriving DecidableEq

/-- A call of the loop. -/
structure Call where
  file : File
  now : DateTime
  query : Query

inductive Answer
  | decision (d : Decision)
  | riskOff (reason : Option Reason)

structure MacroGuard where
  assetKey : Text
  whenStale : WhenStale
  confMin : ℚ
  cachedMtime : Option Int := none
  cachedState : Option MacroState := none

variable (limit : Nat)

/-- What is inside the `try` of `read`. -/
def parseContent : Content → Except PyError MacroState
  | .unreadable => .error .osError
  | .bytes bs => Json.load limit bs >>= fromDict

/-- `read`, and the guard after it. -/
def MacroGuard.read (g : MacroGuard) : File → Except PyError (Option MacroState) × MacroGuard
  | .absent => (.ok none, g)
  | .present mtime content =>
    if g.cachedMtime = some mtime ∧ g.cachedState.isSome then (.ok g.cachedState, g)
    else
      match parseContent limit content with
      | .ok s => (.ok (some s), { g with cachedMtime := some mtime, cachedState := some s })
      | .error e => if caughtByRead e then (.ok g.cachedState, g) else (.error e, g)

/-- What the guard decides on a state. -/
def MacroGuard.decide (g : MacroGuard) (state : Option MacroState) (c : Call) : Answer :=
  match c.query with
  | .evaluateEntry direction qty =>
    .decision (decideEntry state g.assetKey direction qty c.now g.confMin g.whenStale)
  | .riskOffNow => .riskOff (decideRiskOff state c.now)

/-- `evaluate_entry` or `risk_off_now`: the answer, or the exception that ends the loop. -/
def MacroGuard.answer (g : MacroGuard) (c : Call) : Except PyError Answer :=
  (g.read limit c.file).1.map fun state => g.decide state c

def MacroGuard.step (g : MacroGuard) (c : Call) : MacroGuard := (g.read limit c.file).2

/-! ### The last good state -/

/-- The last state that was read, with the time of the file it was in. -/
abbrev Good := Option (Int × MacroState)

/-- A file that has not changed since is not read again, and one that does not parse is as if it were not there. -/
def Good.see (good : Good) : File → Good
  | .absent => good
  | .present mtime content =>
    if good.map Prod.fst = some mtime then good
    else
      match parseContent limit content with
      | .ok s => some (mtime, s)
      | .error _ => good

/-- The state to decide on: none without a file, else the last good one. -/
def Good.state (good : Good) (file : File) : Option MacroState :=
  match file with
  | .absent => none
  | .present _ _ => (good.see limit file).map Prod.snd

/-- The last good state after the calls. -/
def lastGood (cs : List Call) : Good := run (fun good c => good.see limit c.file) none cs

/-- The content nests too deep, or the first field that `from_dict` does not take raises what `read` does not catch. -/
def Content.Escapes (content : Content) : Prop :=
  ∃ bs, content = .bytes bs ∧
    (Json.load limit bs = .error .recursionError ∨
      ∃ d, Json.load limit bs = .ok d ∧ Verdict.first (fieldVerdicts d) = .escapes)

/-- There is nothing to read, or what there is does not escape. -/
def Tolerated (good : Good) : File → Prop
  | .absent => True
  | .present mtime content => good.map Prod.fst = some mtime ∨ ¬content.Escapes limit

variable {limit}

/-! ### What a call does -/

theorem parseContent_escapes (content : Content) :
    verdict caughtByRead (parseContent limit content) = .escapes ↔ content.Escapes limit := by
  unfold Content.Escapes
  cases content with
  | unreadable => simp [parseContent, verdict, caughtByRead]
  | bytes bs =>
    simp only [parseContent, Content.bytes.injEq, exists_eq_left']
    cases hload : Json.load limit bs with
    | error e =>
      rcases Json.load_fault hload with rfl | rfl
      · simp [error_bind, verdict, caughtByRead]
      · simp [error_bind, verdict, caughtByRead]
    | ok d => simp [ok_bind, fromDict_verdict]

/-- The guard caches the last good state. -/
structure Caches (g₀ : MacroGuard) (good : Good) (g : MacroGuard) : Prop where
  assetKey : g.assetKey = g₀.assetKey
  whenStale : g.whenStale = g₀.whenStale
  confMin : g.confMin = g₀.confMin
  cachedMtime : g.cachedMtime = good.map Prod.fst
  cachedState : g.cachedState = good.map Prod.snd

theorem Caches.decide {g₀ g : MacroGuard} {good : Good} (h : Caches g₀ good g) (state : Option MacroState) (c : Call) :
    g.decide state c = g₀.decide state c := by
  unfold MacroGuard.decide
  rw [h.assetKey, h.whenStale, h.confMin]

/-- **What `read` does** on a cache that holds the last good state: it keeps it, and returns the state to decide on
unless the content escapes. -/
theorem Caches.read {g₀ g : MacroGuard} {good : Good} (h : Caches g₀ good g) (file : File) :
    Caches g₀ (good.see limit file) (g.read limit file).2 ∧
      ((Tolerated limit good file ∧ (g.read limit file).1 = .ok (good.state limit file)) ∨
        (¬Tolerated limit good file ∧ ∃ e, (g.read limit file).1 = .error e)) := by
  cases file with
  | absent => exact ⟨h, Or.inl ⟨trivial, rfl⟩⟩
  | present mtime content =>
    have hcached : (g.cachedMtime = some mtime ∧ g.cachedState.isSome) ↔ good.map Prod.fst = some mtime := by
      rw [h.cachedMtime, h.cachedState]
      cases good <;> simp
    unfold MacroGuard.read Good.state Good.see Tolerated
    by_cases hunchanged : good.map Prod.fst = some mtime
    · -- the file is not read again
      simp only [if_pos (hcached.mpr hunchanged), if_pos hunchanged]
      exact ⟨h, Or.inl ⟨Or.inl hunchanged, by rw [h.cachedState]⟩⟩
    · have hescapes : verdict caughtByRead (parseContent limit content) = .escapes ↔ content.Escapes limit :=
        parseContent_escapes content
      simp only [if_neg (mt hcached.mp hunchanged), if_neg hunchanged]
      cases hparse : parseContent limit content with
      | ok s =>
        have hfine : ¬content.Escapes limit := by
          rw [← hescapes, hparse]
          simp [verdict]
        exact ⟨⟨h.assetKey, h.whenStale, h.confMin, rfl, rfl⟩, Or.inl ⟨Or.inr hfine, rfl⟩⟩
      | error e =>
        by_cases hcaught : caughtByRead e = true
        · have hfine : ¬content.Escapes limit := by
            rw [← hescapes, hparse]
            simp [verdict, hcaught]
          simp only [if_pos hcaught]
          exact ⟨h, Or.inl ⟨Or.inr hfine, by rw [h.cachedState]⟩⟩
        · have hbad : content.Escapes limit := by
            rw [← hescapes, hparse]
            simp [verdict, hcaught]
          simp only [if_neg hcaught]
          refine ⟨h, Or.inr ⟨?_, e, rfl⟩⟩
          rintro (hsame | hfine)
          · exact hunchanged hsame
          · exact hfine hbad

theorem Caches.answer {g₀ g : MacroGuard} {good : Good} (h : Caches g₀ good g) (c : Call) :
    g.answer limit c = .ok (g₀.decide (good.state limit c.file) c) ↔ Tolerated limit good c.file := by
  unfold MacroGuard.answer
  rcases (h.read c.file).2 with ⟨htolerated, hread⟩ | ⟨hnot, e, hread⟩
  · rw [hread]
    exact iff_of_true (congrArg Except.ok (h.decide _ c)) htolerated
  · rw [hread]
    exact iff_of_false (fun herror => nomatch herror) hnot

theorem run_caches {g₀ g : MacroGuard} {good : Good} (h : Caches g₀ good g) (cs : List Call) :
    Caches g₀ (run (fun good c => good.see limit c.file) good cs) (run (MacroGuard.step limit) g cs) := by
  induction cs generalizing good g with
  | nil => exact h
  | cons c cs ih => exact ih (h.read c.file).1

/-! ### The law -/

/-- A guard as it is constructed. -/
def guard (assetKey : Text) (whenStale : WhenStale) (confMin : ℚ) : MacroGuard := { assetKey, whenStale, confMin }

/-- Every call is answered, with what the guard decides on the last good state. -/
def Answered (limit : Nat) (g₀ : MacroGuard) (cs : List Call) : Prop :=
  ∀ xs c ys, cs = xs ++ c :: ys →
    (run (MacroGuard.step limit) g₀ xs).answer limit c = .ok (g₀.decide ((lastGood limit xs).state limit c.file) c)

/-- **A state file never stops the loop** in exactly the runs in which every call finds no file, an unchanged one, or
one whose content does not escape. -/
theorem answered_iff (limit : Nat) (assetKey : Text) (whenStale : WhenStale) (confMin : ℚ) (cs : List Call) :
    Answered limit (guard assetKey whenStale confMin) cs ↔
      ∀ xs c ys, cs = xs ++ c :: ys → Tolerated limit (lastGood limit xs) c.file := by
  have hcaches (xs : List Call) :
      Caches (guard assetKey whenStale confMin) (lastGood limit xs)
        (run (MacroGuard.step limit) (guard assetKey whenStale confMin) xs) :=
    run_caches ⟨rfl, rfl, rfl, rfl, rfl⟩ xs
  constructor
  · intro h xs c ys hcs
    exact ((hcaches xs).answer c).mp (h xs c ys hcs)
  · intro h xs c ys hcs
    exact ((hcaches xs).answer c).mpr (h xs c ys hcs)

theorem epoch_inRange : InRange 0 := by decide

theorem parseContent_empty : parseContent 1000 (.bytes [91, 93]) = .error .attributeError := by
  have hload : Json.load 1000 [91, 93] = .ok (.list []) := by
    unfold Json.load
    rw [show String.fromUTF8? ⟨[91, 93].toArray⟩ = some "[]" by decide +kernel]
    rfl
  show Json.load 1000 [91, 93] >>= fromDict = _
  rw [hload]
  rfl

/-- **A file that stops the loop.** The content is the JSON array `[]`: `from_dict` asks it for a member, and the
`AttributeError` is not among the exceptions that `read` catches. -/
theorem empty_array_raises :
    ((guard "XAUUSD".toList .allow (6 / 10)).read 1000 (.present 1 (.bytes [91, 93]))).1 = .error .attributeError ∧
      ¬Answered 1000 (guard "XAUUSD".toList .allow (6 / 10))
        [⟨.present 1 (.bytes [91, 93]), ⟨0, epoch_inRange⟩, .evaluateEntry .long none⟩] := by
  have hread : ((guard "XAUUSD".toList .allow (6 / 10)).read 1000 (.present 1 (.bytes [91, 93]))).1 =
      .error .attributeError := by
    unfold MacroGuard.read
    simp only [parseContent_empty]
    rfl
  refine ⟨hread, fun h => ?_⟩
  have hanswer := h [] _ [] rfl
  rw [MacroGuard.answer, run_nil, hread] at hanswer
  cases hanswer

end Macroguard

end FreqTrading
