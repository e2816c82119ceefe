import Mathlib.Data.List.Nodup

/-!
# Sending one at a time, at least once

A sender holds a list of `pending` items and sends its head until it is acknowledged; then the head is
`done`. A request may be stored without an answer, stored long after the sender gave it up (`late`), or never,
so that the receiver stores some items several times. It still stores every item for the first time in the
order of the list (`Ok`): nothing behind the head is ever sent.
-/

namespace FreqTrading.Lib

variable {α κ : Type*}

section Firsts

variable [DecidableEq κ]

/-- Each key where it occurs first. -/
def firsts (keys : List κ) : List κ := keys.eraseDups

@[simp] theorem firsts_nil : firsts ([] : List κ) = [] := rfl

theorem mem_firsts {l : List κ} {k : κ} : k ∈ firsts l ↔ k ∈ l := List.mem_eraseDups

theorem firsts_concat (l : List κ) (k : κ) : firsts (l ++ [k]) = if k ∈ l then firsts l else firsts l ++ [k] := by
  simp only [firsts]
  rw [List.eraseDups_append]
  split <;> simp_all [List.removeAll, List.eraseDups_cons]

theorem firsts_take_sublist (l : List κ) (n : Nat) : (firsts (l.take n)).Sublist (firsts l) := by
  conv_rhs => rw [← List.take_append_drop n l]
  unfold firsts
  rw [List.eraseDups_append]
  exact List.sublist_append_left _ _

end Firsts

structure Outbox (α : Type*) where
  done : List α
  pending : List α
  late : List α
  stored : List α

namespace Outbox

inductive Step : Outbox α → Outbox α → Prop
  | push {o : Outbox α} (x : α) : Step o { o with pending := o.pending ++ [x] }
  /-- The head reaches the receiver. -/
  | store {o : Outbox α} {x : α} (h : o.pending.head? = some x) : Step o { o with stored := o.stored ++ [x] }
  /-- The head's request is given up while it is under way. -/
  | delay {o : Outbox α} {x : α} (h : o.pending.head? = some x) : Step o { o with late := o.late ++ [x] }
  | storeLate {o : Outbox α} {x : α} (i : Nat) (h : o.late[i]? = some x) :
    Step o { o with stored := o.stored ++ [x], late := o.late.eraseIdx i }
  | dropLate {o : Outbox α} (i : Nat) : Step o { o with late := o.late.eraseIdx i }
  | ack {o : Outbox α} {x : α} {rest : List α} (h : o.pending = x :: rest) (hstored : x ∈ o.stored) :
    Step o { o with done := o.done ++ [x], pending := rest }

/-- Done, or the item being sent. -/
def Sent (o : Outbox α) (x : α) : Prop := x ∈ o.done ∨ o.pending.head? = some x

/-- What the receiver has stored is what is done, each item for the first time in order, and maybe the head. -/
structure Ok [DecidableEq κ] (key : α → κ) (o : Outbox α) : Prop where
  done_stored : ∀ x ∈ o.done, x ∈ o.stored
  stored_sent : ∀ x ∈ o.stored, o.Sent x
  late_sent : ∀ x ∈ o.late, o.Sent x
  inOrder : firsts (o.stored.map key) = o.done.map key ∨
    ∃ x, o.pending.head? = some x ∧ firsts (o.stored.map key) = o.done.map key ++ [key x]

theorem ok_nil [DecidableEq κ] (key : α → κ) (pending : List α) : Ok key ⟨[], pending, [], []⟩ :=
  ⟨by simp, by simp, by simp, by simp⟩

theorem Sent.push {o : Outbox α} {x : α} (h : o.Sent x) (y : α) : ({ o with pending := o.pending ++ [y] } : Outbox α).Sent x := by
  rcases h with h | h
  · exact Or.inl h
  · exact Or.inr (by simp [List.head?_append, h])

theorem Sent.ack {o : Outbox α} {x y : α} {rest : List α} (h : o.Sent x) (hpending : o.pending = y :: rest) :
    ({ o with done := o.done ++ [y], pending := rest } : Outbox α).Sent x := by
  rcases h with h | h
  · exact Or.inl (List.mem_append_left _ h)
  · rw [hpending, List.head?_cons, Option.some.injEq] at h
    exact Or.inl (by simp [h])

variable [DecidableEq κ] {key : α → κ} {o o' : Outbox α}

theorem Ok.firsts_store (h : Ok key o) {x : α} (hx : o.Sent x) :
    firsts ((o.stored ++ [x]).map key) = o.done.map key ∨
      ∃ y, o.pending.head? = some y ∧ firsts ((o.stored ++ [x]).map key) = o.done.map key ++ [key y] := by
  rw [List.map_append, List.map_cons, List.map_nil, firsts_concat]
  split
  · exact h.inOrder
  · next hnew =>
    rcases hx with hx | hx
    · exact absurd (List.mem_map_of_mem (h.done_stored x hx)) hnew
    · rcases h.inOrder with hfirsts | ⟨y, hy, hfirsts⟩
      · exact Or.inr ⟨x, hx, by rw [hfirsts]⟩
      · -- the head is stored already
        obtain rfl : y = x := Option.some.inj (hy.symm.trans hx)
        refine absurd (mem_firsts.mp ?_) hnew
        rw [hfirsts]
        simp

theorem Step.ok (hstep : Step o o') (h : Ok key o) (hnodup : ((o.done ++ o.pending).map key).Nodup) : Ok key o' := by
  cases hstep with
  | push y =>
    refine ⟨h.done_stored, fun x hx => (h.stored_sent x hx).push y, fun x hx => (h.late_sent x hx).push y, ?_⟩
    rcases h.inOrder with hfirsts | ⟨x, hx, hfirsts⟩
    · exact Or.inl hfirsts
    · exact Or.inr ⟨x, by simp [List.head?_append, hx], hfirsts⟩
  | store hx =>
    refine ⟨fun y hy => List.mem_append_left _ (h.done_stored y hy), fun y hy => ?_, h.late_sent,
      h.firsts_store (Or.inr hx)⟩
    rcases List.mem_append.mp hy with hy | hy
    · exact h.stored_sent y hy
    · obtain rfl := List.mem_singleton.mp hy
      exact Or.inr hx
  | delay hx =>
    refine ⟨h.done_stored, h.stored_sent, fun y hy => ?_, h.inOrder⟩
    rcases List.mem_append.mp hy with hy | hy
    · exact h.late_sent y hy
    · obtain rfl := List.mem_singleton.mp hy
      exact Or.inr hx
  | storeLate i hi =>
    have hsent := h.late_sent _ (List.mem_of_getElem? hi)
    refine ⟨fun y hy => List.mem_append_left _ (h.done_stored y hy), fun y hy => ?_,
      fun y hy => h.late_sent y (List.mem_of_mem_eraseIdx hy), h.firsts_store hsent⟩
    rcases List.mem_append.mp hy with hy | hy
    · exact h.stored_sent y hy
    · obtain rfl := List.mem_singleton.mp hy
      exact hsent
  | dropLate i =>
    exact ⟨h.done_stored, h.stored_sent, fun y hy => h.late_sent y (List.mem_of_mem_eraseIdx hy), h.inOrder⟩
  | @ack x rest hpending hstored =>
    refine ⟨fun y hy => ?_, fun y hy => (h.stored_sent y hy).ack hpending,
      fun y hy => (h.late_sent y hy).ack hpending, Or.inl ?_⟩
    · rcases List.mem_append.mp hy with hy | hy
      · exact h.done_stored y hy
      · obtain rfl := List.mem_singleton.mp hy
        exact hstored
    · rw [List.map_append]
      rcases h.inOrder with hfirsts | ⟨y, hy, hfirsts⟩
      · -- the head is stored and has a key of its own
        have hmem : key x ∈ o.done.map key := by
          rw [← hfirsts, mem_firsts]
          exact List.mem_map_of_mem hstored
        rw [hpending, List.map_append, List.nodup_append] at hnodup
        exact absurd rfl (hnodup.2.2 _ hmem _ (by simp))
      · rw [hpending, List.head?_cons, Option.some.injEq] at hy
        rw [hfirsts, hy]
        rfl

/-- The receiver stores the items for the first time in their order. -/
theorem Ok.firsts_sublist (h : Ok key o) : (firsts (o.stored.map key)).Sublist ((o.done ++ o.pending).map key) := by
  rw [List.map_append]
  rcases h.inOrder with hfirsts | ⟨x, hx, hfirsts⟩
  · rw [hfirsts]
    exact List.sublist_append_left _ _
  · rw [hfirsts]
    obtain ⟨rest, hpending⟩ := List.head?_eq_some_iff.mp hx
    rw [hpending]
    exact (List.Sublist.refl _).append (by simp)

end Outbox

end FreqTrading.Lib
