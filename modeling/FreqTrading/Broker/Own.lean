import FreqTrading.Broker.Steps

/-!
# The bot's own positions

What happens to the positions with one magic number. Tickets stay distinct (`Server.WellFormed`). With no own
pending order, what the server does by itself and what a close or a cancellation does can only take own
positions away or shrink their volume. `Server.Holds m H s` says that the server is well formed, has no own
pending order, and every own position is in `H`; a request keeps it if it keeps `H` on what it opens or
modifies (`KeptBy`).
-/

namespace FreqTrading

open Lib

namespace Server

/-- Tickets are distinct, among the positions and from those of the orders, and were all handed out. -/
structure WellFormed (s : Server) : Prop where
  issued : s.Issued
  nodup : (s.positions.map (·.ticket)).Nodup
  apart : ∀ p ∈ s.positions, ∀ o ∈ s.orders, p.ticket ≠ o.ticket

/-- A set of positions that does not depend on their profit or magic number, nor on a larger volume. -/
def ShrinkClosed (H : Position → Prop) : Prop :=
  ∀ q₀ q : Position, q.ticket = q₀.ticket → q.direction = q₀.direction → q.sl = q₀.sl → q.volume ≤ q₀.volume →
    H q₀ → H q

structure Holds (m : Int) (H : Position → Prop) (s : Server) : Prop where
  wf : s.WellFormed
  noOrders : ∀ o ∈ s.orders, o.magic ≠ m
  all : ∀ p ∈ s.positions, p.magic = m → H p

variable {m : Int} {H : Position → Prop} {s s' : Server}

theorem mem_own {p : Position} : p ∈ s.own m ↔ p ∈ s.positions ∧ p.magic = m := by
  simp [own, List.mem_filter]

theorem own_eq_nil : s.own m = [] ↔ ∀ p ∈ s.positions, p.magic ≠ m := by
  simp [own, List.filter_eq_nil_iff]

theorem Holds.mono {H' : Position → Prop} (h : s.Holds m H) (hH : ∀ p ∈ s.positions, p.magic = m → H p → H' p) :
    s.Holds m H' :=
  ⟨h.wf, h.noOrders, fun p hp hm => hH p hp hm (h.all p hp hm)⟩

theorem holds_false : s.Holds m (fun _ => False) ↔
    s.WellFormed ∧ (∀ o ∈ s.orders, o.magic ≠ m) ∧ s.own m = [] := by
  constructor
  · intro h
    exact ⟨h.wf, h.noOrders, own_eq_nil.mpr fun p hp hm => h.all p hp hm⟩
  · rintro ⟨hwf, hord, hown⟩
    exact ⟨hwf, hord, fun p hp hm => own_eq_nil.mp hown p hp hm⟩

/-! ### Closing deals -/

theorem mem_closeVolume_le {p q : Position} {volume profit : ℚ} {order : Option Int} (hvol : 0 ≤ volume)
    (h : q ∈ (s.closeVolume p volume profit order).positions) :
    ∃ q₀ ∈ s.positions, q.volume ≤ q₀.volume ∧ q = { q₀ with volume := q.volume } := by
  unfold closeVolume at h
  simp only at h
  split at h
  · obtain ⟨q₀, hq₀, rfl⟩ := List.mem_map.mp h
    refine ⟨q₀, hq₀, ?_⟩
    split
    · exact ⟨by simp only; linarith, rfl⟩
    · exact ⟨le_rfl, rfl⟩
  · exact ⟨q, (List.mem_filter.mp h).1, le_rfl, rfl⟩

theorem closeVolume_tickets (s : Server) (p : Position) (volume profit : ℚ) (order : Option Int) :
    ((s.closeVolume p volume profit order).positions.map (·.ticket)).Sublist (s.positions.map (·.ticket)) := by
  unfold closeVolume
  simp only
  split
  · rw [List.map_map]
    have heq : s.positions.map ((·.ticket) ∘ fun q => if q.ticket = p.ticket then
        { q with volume := q.volume - volume } else q) = s.positions.map (·.ticket) := by
      refine List.map_congr_left fun q _ => ?_
      simp only [Function.comp]
      split <;> rfl
    rw [heq]
  · exact List.filter_sublist.map _

theorem WellFormed.of_subset {t : Server} (h : s.WellFormed)
    (hpos : (t.positions.map (·.ticket)).Sublist (s.positions.map (·.ticket))) (hord : ∀ o ∈ t.orders, o ∈ s.orders)
    (hnext : t.nextTicket = s.nextTicket) : t.WellFormed := by
  have hback : ∀ p ∈ t.positions, ∃ q ∈ s.positions, q.ticket = p.ticket := by
    intro p hp
    have hmem := hpos.subset (List.mem_map_of_mem hp)
    simpa using hmem
  refine ⟨⟨fun p hp => ?_, fun o ho => ?_⟩, h.nodup.sublist hpos, fun p hp o ho => ?_⟩
  · obtain ⟨q, hq, heq⟩ := hback p hp
    rw [← heq, hnext]
    exact h.issued.positions q hq
  · rw [hnext]
    exact h.issued.orders o (hord o ho)
  · obtain ⟨q, hq, heq⟩ := hback p hp
    rw [← heq]
    exact h.apart q hq o (hord o ho)

theorem Holds.congr {t : Server} (h : s.Holds m H) (hpos : t.positions = s.positions) (hord : t.orders = s.orders)
    (hnext : t.nextTicket = s.nextTicket) : t.Holds m H :=
  ⟨h.wf.of_subset (by rw [hpos]) (by rw [hord]; exact fun _ ho => ho) hnext, by rw [hord]; exact h.noOrders,
    by rw [hpos]; exact h.all⟩

theorem Holds.closeVolume (h : s.Holds m H) (hH : ShrinkClosed H) (p : Position) {volume : ℚ} (hvol : 0 ≤ volume)
    (profit : ℚ) (order : Option Int) : (s.closeVolume p volume profit order).Holds m H := by
  refine ⟨h.wf.of_subset (closeVolume_tickets s p volume profit order) (fun _ ho => ho) rfl, h.noOrders,
    fun q hq hm => ?_⟩
  obtain ⟨q₀, hq₀, hle, heq⟩ := mem_closeVolume_le hvol hq
  have hm₀ : q₀.magic = m := by rw [heq] at hm; exact hm
  exact hH q₀ q (by rw [heq]) (by rw [heq]) (by rw [heq]) hle (h.all q₀ hq₀ hm₀)

/-! ### What the server does by itself -/

theorem WellFormed.applyEvent (h : s.WellFormed) (ev : ServerEvent) : (s.applyEvent ev).WellFormed := by
  cases ev with
  | closed ticket profit =>
    simp only [Server.applyEvent]
    cases s.position? ticket with
    | none => exact h
    | some p => exact h.of_subset (closeVolume_tickets s p _ _ _) (fun _ ho => ho) rfl
  | adjusted delta => exact h.of_subset (List.Sublist.refl _) (fun _ ho => ho) rfl
  | filled ticket price =>
    have hissued := h.issued.applyEvent (.filled ticket price)
    simp only [Server.applyEvent] at *
    cases ho : s.orders.find? (·.ticket = ticket) with
    | none => exact h
    | some o =>
      have hmem := List.mem_of_find?_eq_some ho
      have hticket : o.ticket = ticket := by simpa using List.find?_some ho
      refine ⟨by simpa only [ho] using hissued, ?_, ?_⟩
      · simp only [List.map_append, List.nodup_append]
        refine ⟨h.nodup, List.nodup_singleton _, fun t ht t' ht' => ?_⟩
        obtain ⟨p, hp, rfl⟩ := List.mem_map.mp ht
        obtain rfl : t' = o.ticket := by simpa using ht'
        exact h.apart p hp o hmem
      · intro p hp o' ho'
        obtain ⟨ho', hne⟩ := List.mem_filter.mp ho'
        have hne : o'.ticket ≠ ticket := by simpa using hne
        rcases List.mem_append.mp hp with hp | hp
        · exact h.apart p hp o' ho'
        · simp only [List.mem_singleton] at hp
          rw [hp]
          exact fun heq => hne (heq.symm.trans hticket)

theorem Holds.applyEvent (h : s.Holds m H) (ev : ServerEvent) : (s.applyEvent ev).Holds m H := by
  cases ev with
  | closed ticket profit =>
    simp only [Server.applyEvent]
    cases hp : s.position? ticket with
    | none => exact h
    | some p =>
      simp only
      refine ⟨h.wf.of_subset (closeVolume_tickets s p _ _ _) (fun _ ho => ho) rfl, h.noOrders, fun q hq hm => ?_⟩
      -- a close by the server takes the whole position
      simp only [Server.closeVolume, lt_irrefl, if_false] at hq
      exact h.all q (List.mem_filter.mp hq).1 hm
  | adjusted delta => exact ⟨h.wf.applyEvent _, h.noOrders, h.all⟩
  | filled ticket price =>
    refine ⟨h.wf.applyEvent _, fun o ho => h.noOrders o (applyEvent_orders ho), fun q hq hm => ?_⟩
    simp only [Server.applyEvent] at hq
    cases ho : s.orders.find? (·.ticket = ticket) with
    | none =>
      rw [ho] at hq
      exact h.all q hq hm
    | some o =>
      rw [ho] at hq
      rcases List.mem_append.mp hq with hq | hq
      · exact h.all q hq hm
      · simp only [List.mem_singleton] at hq
        rw [hq] at hm
        exact absurd hm (h.noOrders o (List.mem_of_find?_eq_some ho))

theorem Holds.applyEvents (h : s.Holds m H) (events : List ServerEvent) : (s.applyEvents events).Holds m H := by
  induction events generalizing s with
  | nil => exact h
  | cons ev events ih => exact ih (h.applyEvent ev)

/-! ### Requests -/

/-- Executing a request with this body keeps `Holds m H`. -/
def KeptBy (m : Int) (H : Position → Prop) (body : OrderBody) : Prop :=
  ∀ s s' : Server, s.Holds m H → ∀ partly price profit, s.perform partly price profit body = some s' →
    s'.Holds m H

theorem executedVolume_nonneg {volume : ℚ} (hvol : 0 < volume) (partly : Option ℚ) :
    0 ≤ executedVolume volume partly := by
  unfold executedVolume
  cases partly with
  | none => exact hvol.le
  | some part =>
    simp only
    split
    · next hpart => exact hpart.1.le
    · exact hvol.le

theorem keptBy_close (hH : ShrinkClosed H) {body : OrderBody} {p : Position} {volume : ℚ}
    (hbody : Mt5Broker.CloseBody p volume body) : KeptBy m H body := by
  intro s s' h partly price profit hperf
  cases body with
  | close dir v ticket px dev magic comment =>
    simp only [Server.perform] at hperf
    cases hpos : s.position? ticket with
    | none => rw [hpos] at hperf; cases hperf
    | some q =>
      rw [hpos] at hperf
      simp only at hperf
      split at hperf
      · next hcan =>
        cases hperf
        exact h.closeVolume hH q (executedVolume_nonneg hcan.1 partly) profit (some magic)
      · cases hperf
  | entry | pending | sltp | remove => exact hbody.elim

theorem keptBy_remove {body : OrderBody} (hbody : Mt5Broker.RemoveBody body) : KeptBy m H body := by
  intro s s' h partly price profit hperf
  cases body with
  | remove ticket =>
    simp only [Server.perform] at hperf
    split at hperf
    · cases hperf
    · cases hperf
      exact ⟨h.wf.of_subset (List.Sublist.refl _) (fun o ho => (List.mem_filter.mp ho).1) rfl,
        fun o ho => h.noOrders o (List.mem_filter.mp ho).1, h.all⟩
  | entry | pending | sltp | close => exact hbody.elim

theorem keptBy_entry {dir : Direction} {volume price sl tp : ℚ} {dev magic : Int} {comment : String}
    (hnew : ∀ p : Position, p.direction = dir → p.sl = sl → H p) :
    KeptBy m H (.entry dir volume price sl tp dev magic comment) := by
  intro s s' h partly px profit hperf
  simp only [Server.perform, Option.some.injEq] at hperf
  subst hperf
  refine ⟨⟨⟨fun p hp => ?_, fun o ho => Nat.lt_succ_of_lt (h.wf.issued.orders o ho)⟩, ?_, ?_⟩, h.noOrders, ?_⟩
  · rcases List.mem_append.mp hp with hp | hp
    · exact Nat.lt_succ_of_lt (h.wf.issued.positions p hp)
    · simp only [List.mem_singleton] at hp
      rw [hp]
      exact Nat.lt_succ_self _
  · simp only [List.map_append, List.nodup_append]
    refine ⟨h.wf.nodup, List.nodup_singleton _, fun t ht t' ht' => ?_⟩
    obtain ⟨p, hp, rfl⟩ := List.mem_map.mp ht
    obtain rfl : t' = s.nextTicket := by simpa using ht'
    exact (h.wf.issued.positions p hp).ne
  · intro p hp o ho
    rcases List.mem_append.mp hp with hp | hp
    · exact h.wf.apart p hp o ho
    · simp only [List.mem_singleton] at hp
      rw [hp]
      exact (h.wf.issued.orders o ho).ne'
  · intro p hp hm
    rcases List.mem_append.mp hp with hp | hp
    · exact h.all p hp hm
    · simp only [List.mem_singleton] at hp
      exact hnew p (by rw [hp]) (by rw [hp])

theorem keptBy_sltp {ticket : Nat} {sl tp : ℚ}
    (hnew : ∀ p : Position, H p → p.ticket = ticket → H { p with sl := sl, tp := tp }) :
    KeptBy m H (.sltp ticket sl tp) := by
  intro s s' h partly px profit hperf
  simp only [Server.perform] at hperf
  split at hperf
  · cases hperf
  · cases hperf
    have htickets : (s.positions.map fun q => if q.ticket = ticket then { q with sl := sl, tp := tp } else q).map
        (·.ticket) = s.positions.map (·.ticket) := by
      rw [List.map_map]
      refine List.map_congr_left fun q _ => ?_
      simp only [Function.comp]
      split <;> rfl
    refine ⟨h.wf.of_subset (by rw [htickets]) (fun _ ho => ho) rfl, h.noOrders, fun q hq hm => ?_⟩
    obtain ⟨p, hp, heq⟩ := List.mem_map.mp hq
    split at heq
    · next hticket =>
      subst heq
      exact hnew p (h.all p hp hm) hticket
    · subst heq
      exact h.all p hp hm

end Server

/-! ### Steps -/

section Steps

variable {β : Type} {m : Int} {H : Position → Prop} {w w' : World β}

theorem Server.Holds.settled (h : w.server.Holds m H) : w.settled.Holds m H := h.applyEvents _

theorem Server.Holds.outcome (h : w.server.Holds m H) {r : OrderRequest} (hbody : Server.KeptBy m H r.body) : (w.outcome r).1.Holds m H := by
  cases hex : (w.outcome r).2.1 with
  | false =>
    rw [outcome_not_executed hex]
    exact h.settled
  | true => exact hbody _ _ h.settled _ _ _ (outcome_executed hex).2.2

theorem MtStep.holds {b : Mt5Broker β} {B : OrderBody → Prop} {E : BrokerEvent → Prop} (hstep : MtStep b B E w w')
    (hB : ∀ body, B body → Server.KeptBy m H body) (h : w.server.Holds m H) : w'.server.Holds m H := by
  cases hstep with
  | read => exact h.settled
  | send r hbody => exact h.outcome (hB _ hbody)
  | pause | notify => exact h

theorem CallStep.holds {b : Mt5Broker β} {B : OrderBody → Prop} (hstep : CallStep b B w w')
    (hH : Server.ShrinkClosed H) (hB : ∀ body, B body → Server.KeptBy m H body) (h : w.server.Holds m H) :
    w'.server.Holds m H := by
  cases hstep with
  | quiet hstep => exact hstep.holds hB h
  | closing p volume reason =>
    exact (b.closePosition_steps p volume reason w).invariant
      (fun _ _ hs hI => hs.holds (fun _ => Server.keptBy_close hH) hI) h

end Steps

end FreqTrading
