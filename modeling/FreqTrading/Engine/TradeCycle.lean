import Mathlib.Data.List.Induction

/-!
# The trade cycle

What an engine that holds at most one position does, seen from outside: it enters, may take part of the
position off once, and leaves, and only then enters again. `Book` is that machine, over any type of
directions; a sequence of events it accepts is a prefix of complete trade cycles (`after_prefix`).
-/

namespace FreqTrading

variable {D : Type*}

inductive TradeEvent (D : Type*)
  | enter (d : D)
  | takePart (d : D)
  | leave (d : D)
  deriving DecidableEq, Repr

/-- What is held: nothing, or a position of which a part may already have been taken. -/
inductive Book (D : Type*)
  | flat
  | holds (d : D) (partTaken : Bool)
  deriving DecidableEq, Repr

/-- A complete trade. -/
structure TradeCycle (D : Type*) where
  direction : D
  partTaken : Bool

namespace TradeCycle

/-- What has happened of a trade that is still open. -/
def opening (d : D) : Bool → List (TradeEvent D)
  | false => [.enter d]
  | true => [.enter d, .takePart d]

def events (t : TradeCycle D) : List (TradeEvent D) := opening t.direction t.partTaken ++ [.leave t.direction]

end TradeCycle

namespace Book

variable [DecidableEq D]

def next : Book D → TradeEvent D → Option (Book D)
  | .flat, .enter d => some (.holds d false)
  | .holds d false, .takePart d' => if d' = d then some (.holds d true) else none
  | .holds d _, .leave d' => if d' = d then some .flat else none
  | _, _ => none

/-- The book after a sequence of events; `none` if one of them is refused. -/
def after (b : Book D) (es : List (TradeEvent D)) : Option (Book D) := es.foldlM next b

theorem after_append (b : Book D) (es fs : List (TradeEvent D)) :
    b.after (es ++ fs) = (b.after es).bind (·.after fs) :=
  List.foldlM_append

@[simp] theorem after_singleton (b : Book D) (ev : TradeEvent D) : b.after [ev] = b.next ev := by
  simp [after]

/-- The events of the trade that is open. -/
def pending : Book D → List (TradeEvent D)
  | .flat => []
  | .holds d partTaken => TradeCycle.opening d partTaken

theorem after_eq_cycles {es : List (TradeEvent D)} {b : Book D} (h : Book.flat.after es = some b) :
    ∃ cycles : List (TradeCycle D), es = cycles.flatMap TradeCycle.events ++ b.pending := by
  induction es using List.reverseRecOn generalizing b with
  | nil =>
    cases h
    exact ⟨[], rfl⟩
  | append_singleton es ev ih =>
    rw [after_append] at h
    obtain ⟨mid, hmid, hnext⟩ := Option.bind_eq_some_iff.mp h
    rw [after_singleton] at hnext
    obtain ⟨cycles, rfl⟩ := ih hmid
    cases mid with
    | flat =>
      cases ev with
      | enter d =>
        cases hnext
        exact ⟨cycles, by simp [pending, TradeCycle.opening]⟩
      | takePart d => cases hnext
      | leave d => cases hnext
    | holds d partTaken =>
      cases ev with
      | enter d' => cases partTaken <;> cases hnext
      | takePart d' =>
        cases partTaken with
        | true => cases hnext
        | false =>
          simp only [next, Option.ite_none_right_eq_some, Option.some.injEq] at hnext
          obtain ⟨rfl, rfl⟩ := hnext
          exact ⟨cycles, by simp [pending, TradeCycle.opening]⟩
      | leave d' =>
        have hleave : d' = d ∧ b = .flat := by
          cases partTaken <;> simpa [next, eq_comm] using hnext
        obtain ⟨rfl, rfl⟩ := hleave
        refine ⟨cycles ++ [⟨d', partTaken⟩], ?_⟩
        simp [pending, TradeCycle.events]

/-- **Accepted events form trade cycles.** They are a prefix of complete cycles. -/
theorem after_prefix {es : List (TradeEvent D)} {b : Book D} (h : Book.flat.after es = some b) :
    ∃ cycles : List (TradeCycle D), es <+: cycles.flatMap TradeCycle.events := by
  obtain ⟨cycles, rfl⟩ := after_eq_cycles h
  cases b with
  | flat => exact ⟨cycles, by simp [pending]⟩
  | holds d partTaken =>
    refine ⟨cycles ++ [⟨d, partTaken⟩], ?_⟩
    rw [List.flatMap_append, List.prefix_append_right_inj]
    simp [pending, TradeCycle.events]

end Book

end FreqTrading
