import FreqTrading.Exits.Babysitter
import FreqTrading.Broker.Asked
import FreqTrading.Broker.PartialTp
import FreqTrading.Broker.SendTrace

/-!
# What a partial close of the babysitter leaves

The babysitter asks for its fraction of the volume as it is, and `close_ticket` rounds it to the volume step, up as well
as down, with no look at the minimal volume. So a runner of the minimal volume stays exactly when the volume asked for
rounds to one that leaves it (`LeavesRoom`); of a position of a single step a fraction above a half closes all.
-/

namespace FreqTrading

open Lib

variable {β : Type}

namespace Babysitter

theorem partialClose_mem {sitter : Babysitter} {close : ℚ} {ps : List Position} {ticket : Nat} {volume : ℚ}
    (h : .partialClose ticket volume ∈ (sitter.onBar close ps).1) :
    ∃ q ∈ ps, q.ticket = ticket ∧ volume = q.volume * sitter.partialFrac := by
  have hvisits : ∀ (ps : List Position) (sitter : Babysitter),
      .partialClose ticket volume ∈ (sitter.visits close ps).1 →
        ∃ q ∈ ps, q.ticket = ticket ∧ volume = q.volume * sitter.partialFrac := by
    intro ps
    induction ps with
    | nil =>
      intro sitter h
      cases h
    | cons p ps ih =>
      intro sitter h
      rcases List.mem_append.mp h with hhere | hlater
      · have hdue : SitterAction.partialClose ticket volume ∈
            (if sitter.partialDue close p then [.partialClose p.ticket (p.volume * sitter.partialFrac)] else []) := by
          rcases List.mem_append.mp hhere with hpartial | hstop
          · exact hpartial
          · split at hstop
            · cases List.mem_singleton.mp hstop
            · cases hstop
        split at hdue
        · cases List.mem_singleton.mp hdue
          exact ⟨p, List.mem_cons_self, rfl, rfl⟩
        · cases hdue
      · obtain ⟨q, hq, hticket, hvolume⟩ := ih (sitter.visit close p).2 hlater
        exact ⟨q, List.mem_cons_of_mem _ hq, hticket, hvolume⟩
  exact hvisits ps sitter h

end Babysitter

namespace Mt5Broker

variable (b : Mt5Broker β)

/-- `close_ticket` finds the position, whose volume is on the grid of the step and not below the minimal one. -/
structure HeldOnGrid (w : World β) (step volMin : ℚ) (p : Position) : Prop where
  found : (b.seen w).find? (·.ticket = p.ticket) = some p
  isStep : IsStep step
  reads : stepOf w.afterRead.reply.info = step
  grid : ∃ n : ℤ, p.volume = n * step
  min : volMin ≤ p.volume
  min_pos : 0 < volMin

/-- Every request from `w` to `w'` closes a volume on the grid, less than the position's, that leaves the minimal one. -/
def KeepsRunner (step volMin : ℚ) (p : Position) (w w' : World β) : Prop :=
  ∀ s ∈ sentSince w w', ∃ v, CloseBody p v s.request.body ∧ (∃ n : ℤ, v = n * step) ∧ 0 < v ∧ v < p.volume ∧
    volMin ≤ p.volume - v

/-- The most steps that leave the minimal volume. -/
def roomSteps (step volMin held : ℚ) : ℤ := ⌊(held - volMin) / step⌋

/-- The volume asked for is less than half a step above the largest one that leaves the minimal volume, or half a step
if that is an even number of steps; the guard of the rounding counts with it. -/
def LeavesRoom (step volMin held asked : ℚ) : Prop :=
  asked / step + 1 / 1000000000 < roomSteps step volMin held + 1 / 2 ∨
    asked / step + 1 / 1000000000 = roomSteps step volMin held + 1 / 2 ∧ roomSteps step volMin held % 2 = 0

/-- The volume that `close_ticket` closes. -/
def ticketVolume (step : ℚ) (p : Position) (volume : ℚ) : ℚ := snapVolume step (min volume p.volume)

/-- What is closed leaves the minimal volume, unless it is nothing, exactly when the volume asked for leaves room. -/
theorem ticketVolume_leaves_iff {step volMin volume : ℚ} {p : Position} (hstep : IsStep step) (hmin : volMin ≤ p.volume) :
    (ticketVolume step p volume ≤ 0 ∨ volMin ≤ p.volume - ticketVolume step p volume) ↔
      LeavesRoom step volMin p.volume (min volume p.volume) := by
  have hpos := hstep.pos
  unfold ticketVolume LeavesRoom
  rw [← roundEven_le_iff, snapVolume_eq hstep]
  generalize roundEven (min volume p.volume / step + 1 / 1000000000) = j
  have hroom : 0 ≤ roomSteps step volMin p.volume := Int.floor_nonneg.mpr (div_nonneg (sub_nonneg.mpr hmin) hpos.le)
  have hleaves : volMin ≤ p.volume - j * step ↔ j ≤ roomSteps step volMin p.volume := by
    unfold roomSteps
    rw [Int.le_floor, le_div_iff₀ hpos]
    constructor <;> intro h <;> linarith
  rw [hleaves]
  constructor
  · rintro (hnone | hle)
    · have hj : (j : ℚ) ≤ 0 := nonpos_of_mul_nonpos_left hnone hpos
      exact le_trans (by exact_mod_cast hj) hroom
    · exact hle
  · exact Or.inr

theorem closeBody_volume {p : Position} {u v : ℚ} {body : OrderBody} (hu : CloseBody p u body) (hv : CloseBody p v body) :
    u = v := by
  cases body with
  | close => exact hu.1.symm.trans hv.1
  | entry | pending | sltp | remove => exact hu.elim

/-- The new requests from `w` to `w'` close this volume, and there is one exactly if there is a quote. -/
structure ClosesAt (quoted : Bool) (p : Position) (volume : ℚ) (w w' : World β) : Prop where
  bodies : ∀ s ∈ sentSince w w', CloseBody p volume s.request.body
  onQuote : ∀ s ∈ sentSince w w', quoted = true
  sends : quoted = true → ∃ s ∈ sentSince w w', CloseBody p volume s.request.body

theorem mem_sentSince_quiet {w w' : World β} {s : Sent} (hsame : w'.sent = w.sent) : s ∉ sentSince w w' := by
  rw [sentSince_of_append (l := []) (by rw [hsame, List.append_nil])]
  exact List.not_mem_nil

theorem closePosition_closesAt (p : Position) (volume : ℚ) (reason : String) {w w₀ : World β} (hsame : w₀.sent = w.sent) :
    Ensures (b.closePosition p volume reason) w₀ fun _ w' => ClosesAt w₀.reply.tick.isSome p volume w w' := by
  have hbodies : Ensures (b.closePosition p volume reason) w₀ fun _ w' =>
      ∀ s ∈ sentSince w w', CloseBody p volume s.request.body := by
    have hlog := (b.closePosition_steps p volume reason w₀).invariant
      (I := fun w' => ∃ l, w'.sent = w.sent ++ l ∧ ∀ s ∈ l, CloseBody p volume s.request.body)
      (fun w₁ w₂ hstep hw₁ => ?_) ⟨[], by rw [hsame, List.append_nil], fun _ h => by cases h⟩
    · obtain ⟨l, hsent, hall⟩ := hlog
      intro s hs
      rw [sentSince_of_append hsent] at hs
      exact hall s hs
    · obtain ⟨l, hsent, hall⟩ := hw₁
      cases hstep with
      | send r hbody =>
        refine ⟨l ++ [_], by rw [afterSend_sent, hsent, List.append_assoc], fun s hs => ?_⟩
        rcases List.mem_append.mp hs with hold | hnew
        · exact hall s hold
        · cases List.mem_singleton.mp hnew
          exact hbody
      | read | pause | notify => exact ⟨l, hsent, hall⟩
  cases htick : w₀.reply.tick with
  | none =>
    have hquiet : Ensures (b.closePosition p volume reason) w₀ fun _ w' => w'.sent = w.sent := by
      unfold closePosition
      rw [ensures_bind, ensures_symbolInfoTick, post_ok, htick]
      exact hsame
    refine (hbodies.and hquiet).mono fun _ w' h => ⟨h.1, fun s hs => ?_, fun hq => by cases hq⟩
    exact absurd hs (mem_sentSince_quiet h.2)
  | some tick =>
    have hasks := b.closePosition_asks (n := w.sent.length) p volume reason (le_of_eq (by rw [hsame]))
      (show w₀.reply.tick.isSome = true by rw [htick]; rfl)
    exact (hbodies.and hasks).mono fun _ w' h => ⟨h.1, fun _ _ => rfl, fun _ => h.2⟩

theorem closeTicket_closesAt {w : World β} {step volMin : ℚ} {p : Position} (volume : ℚ) (h : b.HeldOnGrid w step volMin p) :
    Ensures (b.closeTicket p.ticket volume) w fun _ w' =>
      (ticketVolume step p volume ≤ 0 ∧ w'.sent = w.sent) ∨
        (0 < ticketVolume step p volume ∧
          ClosesAt w.afterRead.afterRead.reply.tick.isSome p (ticketVolume step p volume) w w') := by
  unfold closeTicket
  rw [ensures_bind, ensures_myPositions, post_ok, h.found]
  refine (roundVolume_reads _ _).bind_total fun v w₂ hv => ?_
  obtain ⟨rfl, rfl⟩ := hv
  rw [h.reads, show snapVolume step (min volume p.volume) = ticketVolume step p volume from rfl]
  by_cases hnone : ticketVolume step p volume ≤ 0
  · rw [if_pos hnone]
    exact Or.inl ⟨hnone, rfl⟩
  · rw [if_neg hnone]
    have hclose := b.closePosition_closesAt p (ticketVolume step p volume) "partial_2r"
      (show w.afterRead.afterRead.sent = w.sent from rfl)
    exact Ensures.bind_keep (hclose.mono fun _ w' hw' => Or.inr ⟨not_le.mp hnone, hw'⟩) (fun _ h => h) fun res w' hw' => hw'

/-- **When the partial close of the babysitter leaves a runner.** Executed through `close_ticket`, the partial close that
the babysitter asks for sends nothing or leaves the minimal volume exactly when, if there is a quote to close at, the
fraction asked for leaves room for it. -/
theorem partial_keeps_runner_iff (sitter : Babysitter) (close : ℚ) (ps : List Position) {w : World β} {step volMin : ℚ}
    {p : Position} {volume : ℚ} (h : b.HeldOnGrid w step volMin p)
    (hasked : .partialClose p.ticket volume ∈ (sitter.onBar close ps).1) :
    ∃ q ∈ ps, q.ticket = p.ticket ∧ volume = q.volume * sitter.partialFrac ∧
      (KeepsRunner step volMin p w (exec (b.closeTicket p.ticket volume) w).2 ↔
        (w.afterRead.afterRead.reply.tick.isSome = true →
          LeavesRoom step volMin p.volume (min (q.volume * sitter.partialFrac) p.volume))) := by
  obtain ⟨q, hq, hticket, rfl⟩ := Babysitter.partialClose_mem hasked
  refine ⟨q, hq, hticket, rfl, ?_⟩
  rw [← ticketVolume_leaves_iff h.isStep h.min]
  rcases b.closeTicket_closesAt (q.volume * sitter.partialFrac) h with ⟨hnone, hsame⟩ | ⟨hpos, hcloses⟩
  · exact iff_of_true (fun s hs => absurd hs (mem_sentSince_quiet hsame)) fun _ => Or.inl hnone
  · constructor
    · intro hkeeps hquoted
      obtain ⟨s, hs, hbody⟩ := hcloses.sends hquoted
      obtain ⟨v, hv, -, -, -, hleft⟩ := hkeeps s hs
      rw [closeBody_volume hbody hv]
      exact Or.inr hleft
    · intro hroom s hs
      have hleft := (hroom (hcloses.onQuote s hs)).resolve_left (not_le.mpr hpos)
      refine ⟨_, hcloses.bodies s hs, ⟨_, snapVolume_eq h.isStep _⟩, hpos, ?_, hleft⟩
      exact sub_pos.mp (h.min_pos.trans_le hleft)

/-! ### A position of one step and one of a hundred -/

/-- A long position from 100 with its stop at 98. -/
def heldLots (volume : ℚ) : Position := { scaledFill with volume := volume }

/-- The position alone, four above its entry; every request is executed. -/
def holding (volume : ℚ) : World Unit where
  server := { positions := [heldLots volume], nextTicket := 2 }
  env := scaledWorld.env
  bot := ()

theorem heldLots_onGrid {n : ℤ} {volume : ℚ} (hn : 1 ≤ n) (hvolume : volume = n / 100)
    (hfound : (({} : Mt5Broker Unit).seen (holding volume)).find? (·.ticket = (heldLots volume).ticket) =
      some (heldLots volume)) :
    ({} : Mt5Broker Unit).HeldOnGrid (holding volume) (1 / 100) (1 / 100) (heldLots volume) where
  found := hfound
  isStep := ⟨1000000, by norm_num, by norm_num⟩
  reads := by norm_num [holding, scaledWorld, World.reply, World.afterRead, stepOf, orElse]
  grid := by
    refine ⟨n, ?_⟩
    show volume = n * (1 / 100)
    linarith
  min := by
    have hn' : (1 : ℚ) ≤ n := by exact_mod_cast hn
    show 1 / 100 ≤ volume
    linarith
  min_pos := by norm_num

/-- The theorem on a lot, of which seven tenths are closed. -/
theorem partial_keeps_runner_lot :
    ∃ q ∈ [heldLots 1], q.ticket = (heldLots 1).ticket ∧ 7 / 10 = q.volume * ({} : Babysitter).partialFrac ∧
      (KeepsRunner (1 / 100) (1 / 100) (heldLots 1) (holding 1)
          (exec (({} : Mt5Broker Unit).closeTicket (heldLots 1).ticket (7 / 10)) (holding 1)).2 ↔
        ((holding 1).afterRead.afterRead.reply.tick.isSome = true →
          LeavesRoom (1 / 100) (1 / 100) (heldLots 1).volume
            (min (q.volume * ({} : Babysitter).partialFrac) (heldLots 1).volume))) :=
  partial_keeps_runner_iff {} {} 104 [heldLots 1]
    (heldLots_onGrid (n := 100) (by norm_num) (by norm_num) (by decide +kernel)) (by decide +kernel)

/-- Of a position of one step, seven tenths are rounded up to all of it. -/
theorem partial_closes_step :
    ¬ ∀ (b : Mt5Broker Unit) (sitter : Babysitter) (close : ℚ) (w : World Unit) (step volMin : ℚ) (p : Position)
      (volume : ℚ), 0 < sitter.partialFrac → sitter.partialFrac < 1 → b.HeldOnGrid w step volMin p →
      .partialClose p.ticket volume ∈ (sitter.onBar close [p]).1 →
      KeepsRunner step volMin p w (exec (b.closeTicket p.ticket volume) w).2 := by
  intro h
  have hkeeps := h {} {} 104 (holding (1 / 100)) (1 / 100) (1 / 100) (heldLots (1 / 100)) (7 / 1000) (by norm_num)
    (by norm_num) (heldLots_onGrid (n := 1) le_rfl (by norm_num) (by decide +kernel)) (by decide +kernel)
  have hasked : Asked (holding (1 / 100)).sent.length (CloseBody (heldLots (1 / 100)) (1 / 100))
      (exec (({} : Mt5Broker Unit).closeTicket (heldLots (1 / 100)).ticket (7 / 1000)) (holding (1 / 100))).2 := by
    decide +kernel
  obtain ⟨s, hs, hbody⟩ := hasked
  obtain ⟨v, hv, -, -, hless, -⟩ := hkeeps s hs
  exact hless.ne (closeBody_volume hv hbody)

end Mt5Broker

end FreqTrading
