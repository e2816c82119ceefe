import FreqTrading.Lib.Views
import FreqTrading.Exits.StopStages

/-!
# Tickets do not interfere

Both exit managers go through the positions of a snapshot one by one, with one entry a ticket. What they ask for a
ticket depends on the candles, on the settings and on that ticket's own snapshots: each is `Separate` for every ticket,
with the settings and the ticket's entry as the view, and forgetting the tickets that are gone keeps the views.
-/

namespace FreqTrading

open Lib

/-- The action is for the ticket. -/
def SitterAction.isFor (ticket : Nat) : SitterAction → Bool
  | .partialClose t _ => t = ticket
  | .updateSl t _ => t = ticket

/-- The position has the ticket. -/
def Position.hasTicket (ticket : Nat) (p : Position) : Bool := p.ticket = ticket

/-- The snapshots agree on the ticket. -/
def AgreeOn (ticket : Nat) (positions positions' : List Position) : Prop :=
  positions.filter (·.hasTicket ticket) = positions'.filter (·.hasTicket ticket)

section

variable {ticket : Nat} {positions positions' : List Position}

theorem mem_tickets : ticket ∈ positions.map (·.ticket) ↔ positions.filter (·.hasTicket ticket) ≠ [] := by
  simp [Position.hasTicket]

theorem AgreeOn.mem_iff (h : AgreeOn ticket positions positions') :
    ticket ∈ positions.map (·.ticket) ↔ ticket ∈ positions'.map (·.ticket) := by
  rw [mem_tickets, mem_tickets, h]

/-- Both snapshots keep the ticket, or both forget it. -/
theorem AgreeOn.keep {σ : Type} (h : AgreeOn ticket positions positions') {m m' : Memory Nat σ} (hm : m ticket = m' ticket) :
    m.keep (positions.map (·.ticket)) ticket = m'.keep (positions'.map (·.ticket)) ticket := by
  unfold Memory.keep
  by_cases hin : ticket ∈ positions.map (·.ticket)
  · rw [if_pos hin, if_pos (h.mem_iff.mp hin)]
    exact hm
  · rw [if_neg hin, if_neg (hin ∘ h.mem_iff.mpr)]

theorem filter_isFor {acts : List SitterAction} {t : Nat} (hacts : ∀ a ∈ acts, a.isFor t = true) (h : t ≠ ticket) :
    acts.filter (·.isFor ticket) = [] := by
  rw [List.filter_eq_nil_iff]
  intro a ha hfor
  have hmine := hacts a ha
  cases a with
  | partialClose t' v => exact h ((decide_eq_true_eq.mp hmine).symm.trans (decide_eq_true_eq.mp hfor))
  | updateSl t' sl => exact h ((decide_eq_true_eq.mp hmine).symm.trans (decide_eq_true_eq.mp hfor))

end

/-! ### The babysitter -/

namespace Babysitter

variable {ticket : Nat}

/-- What a babysitter has for a ticket: its settings, and the ticket's entry. -/
def viewOf (ticket : Nat) (b : Babysitter) : ℚ × ℚ × ℚ × ℚ × Option TradeState :=
  (b.partialFrac, b.partialAtR, b.breakevenAtR, b.defaultD, b.trades ticket)

theorem visit_isFor (close : ℚ) (b : Babysitter) (p : Position) : ∀ a ∈ (b.visit close p).1, a.isFor p.ticket = true := by
  intro a ha
  rcases List.mem_append.mp ha with hpartial | hstop
  · split at hpartial
    · rw [List.mem_singleton] at hpartial
      subst hpartial
      exact decide_eq_true rfl
    · cases hpartial
  · split at hstop
    · rw [List.mem_singleton] at hstop
      subst hstop
      exact decide_eq_true rfl
    · cases hstop

theorem visit_served (close : ℚ) {b b' : Babysitter} {p : Position} (h : viewOf p.ticket b = viewOf p.ticket b') :
    (b.visit close p).1 = (b'.visit close p).1 ∧ viewOf p.ticket (b.visit close p).2 = viewOf p.ticket (b'.visit close p).2 := by
  obtain ⟨partialFrac, partialAtR, breakevenAtR, defaultD, trades⟩ := b
  obtain ⟨partialFrac', partialAtR', breakevenAtR', defaultD', trades'⟩ := b'
  simp only [viewOf, Prod.mk.injEq] at h
  obtain ⟨rfl, rfl, rfl, rfl, htrades⟩ := h
  have hstate : stateOf ⟨partialFrac, partialAtR, breakevenAtR, defaultD, trades⟩ p =
      stateOf ⟨partialFrac, partialAtR, breakevenAtR, defaultD, trades'⟩ p := by
    unfold stateOf
    dsimp only
    rw [htrades]
  unfold visit partialDue target
  dsimp only
  rw [hstate]
  refine ⟨rfl, ?_⟩
  simp only [viewOf, Memory.put_self]

theorem visit_separate (close : ℚ) (ticket : Nat) :
    Separate (visit close) (viewOf ticket) (·.hasTicket ticket) (·.isFor ticket) := by
  constructor
  · intro b p hother
    have hne : p.ticket ≠ ticket := of_decide_eq_false hother
    refine ⟨filter_isFor (visit_isFor close b p) hne, ?_⟩
    simp only [viewOf, visit, Memory.put_of_ne _ hne.symm]
  · intro b b' p hmine hview
    obtain rfl : p.ticket = ticket := of_decide_eq_true hmine
    obtain ⟨hacts, hafter⟩ := visit_served close hview
    exact ⟨congrArg _ hacts, hafter⟩

theorem visits_eq (close : ℚ) (b : Babysitter) (ps : List Position) :
    b.visits close ps = ((outputs (visit close) b ps).flatten, after (visit close) b ps) := by
  induction ps generalizing b with
  | nil => rfl
  | cons p ps ih =>
    show ((b.visit close p).1 ++ ((b.visit close p).2.visits close ps).1, ((b.visit close p).2.visits close ps).2) = _
    rw [ih]
    rfl

theorem onBar_sameFor (close : ℚ) {b b' : Babysitter} (hview : viewOf ticket b = viewOf ticket b')
    {positions positions' : List Position} (h : AgreeOn ticket positions positions') :
    SameFor (viewOf ticket) (·.isFor ticket) (b.onBar close positions) (b'.onBar close positions') := by
  obtain ⟨hacts, hafter⟩ := (visit_separate close ticket).outputs_congr hview h
  unfold onBar
  rw [visits_eq, visits_eq]
  refine ⟨hacts, ?_⟩
  simp only [viewOf, Prod.mk.injEq] at hafter ⊢
  obtain ⟨hfrac, hat, hbreakeven, hdefault, htrades⟩ := hafter
  exact ⟨hfrac, hat, hbreakeven, hdefault, h.keep htrades⟩

/-- The actions asked for on each bar. -/
def asks (b : Babysitter) (bars : List (List Position × ℚ)) : List (List SitterAction) :=
  outputs (fun b bar => b.onBar bar.2 bar.1) b bars

end Babysitter

/-! ### The ladder -/

namespace Ladder

variable {cfg : LadderConfig} {ticket : Nat}

/-- What a ladder has for a ticket: the candle before, and the ticket's entry. -/
def viewOf (ticket : Nat) (l : Ladder) : Option Candle × Option PosState := (l.prevCandle, l.trades ticket)

theorem rungs_isFor (cfg : LadderConfig) (p : Position) (r : ℚ) (st : PosState) :
    ∀ a ∈ (rungs cfg p r st).acts, a.isFor p.ticket = true := by
  have h : ∀ (levels : List ((ℚ × ℚ) × Nat)) (s : Rungs), (∀ a ∈ s.acts, a.isFor p.ticket = true) →
      ∀ a ∈ (levels.foldl (rung cfg p r) s).acts, a.isFor p.ticket = true := by
    intro levels
    induction levels with
    | nil => exact fun _ hs => hs
    | cons level levels ih =>
      intro s hs
      refine ih _ ?_
      unfold rung
      split
      · exact hs
      · dsimp only
        split
        · exact hs
        · intro a ha
          rcases List.mem_append.mp ha with hold | hnew
          · exact hs a hold
          · rw [List.mem_singleton] at hnew
            subst hnew
            exact decide_eq_true rfl
  exact h _ _ fun _ ha => (by cases ha)

theorem StageStep.isFor {p : Position} {st st' : PosState} {close : ℚ} {candidate : Option Candle}
    {acts : List SitterAction} (h : StageStep cfg p st close candidate acts st') : ∀ a ∈ acts, a.isFor p.ticket = true := by
  cases h with
  | quiet => exact fun _ ha => (by cases ha)
  | breakeven c sl => simp [SitterAction.isFor]
  | lock c => simp [SitterAction.isFor]

theorem visit_isFor (cfg : LadderConfig) (candle : Candle) (spread : Nat → ℚ) (l : Ladder) (p : Position) :
    ∀ a ∈ (l.visit cfg candle spread p).1, a.isFor p.ticket = true := by
  unfold visit
  dsimp only
  split
  · intro a ha
    rcases List.mem_append.mp ha with hrung | hlast
    · exact rungs_isFor cfg p _ _ a hrung
    · split at hlast
      · rw [List.mem_singleton] at hlast
        subst hlast
        exact decide_eq_true rfl
      · cases hlast
  · intro a ha
    rcases List.mem_append.mp ha with hrung | hstop
    · exact rungs_isFor cfg p _ _ a hrung
    · exact (stage_cases cfg p _ candle.close (spread p.ticket) l.prevCandle).isFor a hstop

theorem visit_served (cfg : LadderConfig) (candle : Candle) (spread : Nat → ℚ) {l l' : Ladder} {p : Position}
    (h : viewOf p.ticket l = viewOf p.ticket l') :
    (l.visit cfg candle spread p).1 = (l'.visit cfg candle spread p).1 ∧
      viewOf p.ticket (l.visit cfg candle spread p).2 = viewOf p.ticket (l'.visit cfg candle spread p).2 := by
  obtain ⟨trades, prev⟩ := l
  obtain ⟨trades', prev'⟩ := l'
  simp only [viewOf, Prod.mk.injEq] at h
  obtain ⟨rfl, htrades⟩ := h
  have hstate : stateOf cfg ⟨trades, prev⟩ p = stateOf cfg ⟨trades', prev⟩ p := by
    unfold stateOf
    dsimp only
    rw [htrades]
  unfold visit
  dsimp only
  rw [hstate]
  split
  · simp only [viewOf, Memory.drop_self, and_self]
  · simp only [viewOf, Memory.put_self, and_self]

theorem visit_separate (cfg : LadderConfig) (candle : Candle) (spread : Nat → ℚ) (ticket : Nat) :
    Separate (visit cfg candle spread) (viewOf ticket) (·.hasTicket ticket) (·.isFor ticket) := by
  constructor
  · intro l p hother
    have hne : p.ticket ≠ ticket := of_decide_eq_false hother
    refine ⟨filter_isFor (visit_isFor cfg candle spread l p) hne, ?_⟩
    exact Prod.ext (visit_prevCandle cfg candle spread l p) (visit_other cfg candle spread l p hne)
  · intro l l' p hmine hview
    obtain rfl : p.ticket = ticket := of_decide_eq_true hmine
    obtain ⟨hacts, hafter⟩ := visit_served cfg candle spread hview
    exact ⟨congrArg _ hacts, hafter⟩

theorem visits_eq (cfg : LadderConfig) (candle : Candle) (spread : Nat → ℚ) (l : Ladder) (ps : List Position) :
    l.visits cfg candle spread ps =
      ((outputs (visit cfg candle spread) l ps).flatten, after (visit cfg candle spread) l ps) := by
  induction ps generalizing l with
  | nil => rfl
  | cons p ps ih =>
    show ((l.visit cfg candle spread p).1 ++ ((l.visit cfg candle spread p).2.visits cfg candle spread ps).1,
      ((l.visit cfg candle spread p).2.visits cfg candle spread ps).2) = _
    rw [ih]
    rfl

theorem onBar_sameFor (cfg : LadderConfig) (candle : Candle) (spread : Nat → ℚ) {l l' : Ladder}
    (hview : viewOf ticket l = viewOf ticket l') {positions positions' : List Position}
    (h : AgreeOn ticket positions positions') :
    SameFor (viewOf ticket) (·.isFor ticket) (l.onBar cfg candle spread positions) (l'.onBar cfg candle spread positions') := by
  obtain ⟨hacts, hafter⟩ := (visit_separate cfg candle spread ticket).outputs_congr hview h
  unfold onBar
  rw [visits_eq, visits_eq]
  refine ⟨hacts, ?_⟩
  simp only [viewOf, Prod.mk.injEq] at hafter ⊢
  exact ⟨trivial, h.keep hafter.2⟩

/-- The actions asked for on each bar. -/
def asks (cfg : LadderConfig) (l : Ladder) (bars : List LadderBar) : List (List SitterAction) :=
  outputs (fun l bar => l.onBar cfg bar.candle bar.spread bar.positions) l bars

end Ladder

/-! ### Both managers -/

/-- The same close, and snapshots that agree on the ticket. -/
def SitterBarsAgree (ticket : Nat) (bar bar' : List Position × ℚ) : Prop :=
  AgreeOn ticket bar.1 bar'.1 ∧ bar.2 = bar'.2

/-- The same candle and spread, and snapshots that agree on the ticket. -/
def LadderBarsAgree (ticket : Nat) (bar bar' : LadderBar) : Prop :=
  AgreeOn ticket bar.positions bar'.positions ∧ bar.candle = bar'.candle ∧ bar.spread = bar'.spread

/-- **Tickets do not interfere.** Over bars that agree on a ticket, whatever else their snapshots have, both exit
managers ask for the same actions for it, bar by bar. -/
theorem tickets_separate (ticket : Nat) (b : Babysitter) (bars bars' : List (List Position × ℚ)) (cfg : LadderConfig)
    (l : Ladder) (ladderBars ladderBars' : List LadderBar) (hbars : List.Forall₂ (SitterBarsAgree ticket) bars bars')
    (hladder : List.Forall₂ (LadderBarsAgree ticket) ladderBars ladderBars') :
    (b.asks bars).map (·.filter (·.isFor ticket)) = (b.asks bars').map (·.filter (·.isFor ticket)) ∧
      (l.asks cfg ladderBars).map (·.filter (·.isFor ticket)) =
        (l.asks cfg ladderBars').map (·.filter (·.isFor ticket)) := by
  constructor
  · refine outputs_forall₂ (Babysitter.viewOf ticket) ?_ rfl hbars
    rintro s s' ⟨positions, close⟩ ⟨positions', close'⟩ hview ⟨hagree, hclose⟩
    obtain rfl : close = close' := hclose
    exact Babysitter.onBar_sameFor close hview hagree
  · refine outputs_forall₂ (Ladder.viewOf ticket) ?_ rfl hladder
    rintro s s' ⟨positions, candle, spread⟩ ⟨positions', candle', spread'⟩ hview ⟨hagree, hcandle, hspread⟩
    obtain rfl : candle = candle' := hcandle
    obtain rfl : spread = spread' := hspread
    exact Ladder.onBar_sameFor cfg candle spread hview hagree

/-- A position of another ticket, from 90 with its stop at the entry. -/
def otherTicket : Position := { longFrom100 90 with ticket := 2, priceOpen := 90 }

/-- The theorem on two bars: the ticket alone, and with another one that comes in front of it and goes away. -/
theorem tickets_separate_other :
    (Babysitter.asks {} [([longFrom100 98], 104), ([longFrom100 102], 105)]).map (·.filter (·.isFor 1)) =
        (Babysitter.asks {} [([otherTicket, longFrom100 98], 104), ([longFrom100 102], 105)]).map (·.filter (·.isFor 1)) ∧
      (Ladder.asks Ladder.defaults {} [⟨[longFrom100 98], flatCandle 0 104, fun _ => 0⟩]).map (·.filter (·.isFor 1)) =
        (Ladder.asks Ladder.defaults {} [⟨[otherTicket, longFrom100 98], flatCandle 0 104, fun _ => 0⟩]).map
          (·.filter (·.isFor 1)) :=
  tickets_separate 1 {} _ _ Ladder.defaults {} _ _ (.cons ⟨rfl, rfl⟩ (.cons ⟨rfl, rfl⟩ .nil)) (.cons ⟨rfl, rfl, rfl⟩ .nil)

end FreqTrading
