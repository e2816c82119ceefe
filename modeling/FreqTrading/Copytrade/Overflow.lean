import FreqTrading.Copytrade.Broadcast

/-!
# The overflow counter

`dropped` of `orb/broadcast.py`. On a full queue `publish` drops the oldest event and counts it, but between
the failed put and the get the worker may have emptied the queue: then nothing is dropped and the counter
still goes up. `Turn` says what a step of one of the threads can do to the queue and to the counts;
`dropped_counts_iff` says that the counter is right as long as no drop finds the queue empty.
-/

namespace FreqTrading.Copytrade

open Lib
open scoped List

/-- The process goes on. -/
def Event.Lives : Event → Prop
  | .kill _ => False
  | _ => True

instance : DecidablePred Event.Lives
  | .kill _ => isFalse id
  | .publish _ | .producer | .close | .worker | .diskFault _ | .arrive | .answer _ _ | .late _ => isTrue trivial

namespace Wire

/-! ### What the threads do to the queue -/

/-- The queue and its history as they were. -/
structure SameCounts (w w' : Wire) : Prop where
  published : w'.published = w.published
  taken : w'.taken = w.taken
  queue : w'.queue = w.queue
  discarded : w'.discarded = w.discarded
  dropped : w'.dropped = w.dropped

/-- What a step does to the queue. -/
inductive Turn (w w' : Wire) : Prop
  | quiet (h : SameCounts w w')
  | put (payload : Payload) (hpublished : w'.published = w.published ++ [payload])
      (hqueue : w'.queue = w.queue ++ [payload]) (htaken : w'.taken = w.taken) (hdiscarded : w'.discarded = w.discarded)
      (hdropped : w'.dropped = w.dropped)
  | take (payload : Payload) (hqueue : w.queue = payload :: w'.queue) (htaken : w'.taken = w.taken ++ [payload])
      (hpublished : w'.published = w.published) (hdiscarded : w'.discarded = w.discarded)
      (hdropped : w'.dropped = w.dropped)
  /-- The oldest event is dropped. -/
  | drop (payload : Payload) (hqueue : w.queue = payload :: w'.queue)
      (hdiscarded : w'.discarded = w.discarded ++ [payload]) (hdropped : w'.dropped = w.dropped + 1)
      (hpublished : w'.published = w.published) (htaken : w'.taken = w.taken)
  /-- The new event is dropped. -/
  | refuse (payload : Payload) (hpublished : w'.published = w.published ++ [payload])
      (hdiscarded : w'.discarded = w.discarded ++ [payload]) (hdropped : w'.dropped = w.dropped + 1)
      (hqueue : w'.queue = w.queue) (htaken : w'.taken = w.taken)

/-- A drop is counted and nothing was there to drop. -/
structure Miss (w w' : Wire) : Prop where
  published : w'.published = w.published
  taken : w'.taken = w.taken
  queue : w'.queue = w.queue
  discarded : w'.discarded = w.discarded
  dropped : w'.dropped = w.dropped + 1

/-- The drop that is due finds an event on the queue. -/
def FindsOldest (w : Wire) : Event → Prop
  | .producer => ∀ payload, w.producer = .full payload → w.queue ≠ []
  | _ => True

theorem publish_turn (w : Wire) (payload : Payload) : Turn w (w.publish payload) := by
  unfold publish
  split
  · split
    · exact .put payload rfl rfl rfl rfl rfl
    · exact .quiet ⟨rfl, rfl, rfl, rfl, rfl⟩
  · exact .quiet ⟨rfl, rfl, rfl, rfl, rfl⟩

theorem producerStep_turn {w : Wire} (h : w.FindsOldest .producer) : Turn w w.producerStep := by
  unfold producerStep
  cases hproducer : w.producer with
  | ready => exact .quiet ⟨rfl, rfl, rfl, rfl, rfl⟩
  | full payload =>
    obtain ⟨oldest, rest, hqueue⟩ := List.exists_cons_of_ne_nil (h payload hproducer)
    refine .drop oldest ?_ ?_ rfl rfl rfl
    · rw [hqueue]
      rfl
    · rw [hqueue]
      rfl
  | again payload =>
    dsimp only
    split
    · exact .put payload rfl rfl rfl rfl rfl
    · exact .refuse payload rfl rfl rfl rfl rfl

theorem producerStep_miss {w : Wire} (h : ¬ w.FindsOldest .producer) : Miss w w.producerStep := by
  simp only [FindsOldest, not_forall, not_not] at h
  obtain ⟨payload, hproducer, hqueue⟩ := h
  unfold producerStep
  rw [hproducer, hqueue]
  exact ⟨rfl, rfl, hqueue.symm, List.append_nil _, rfl⟩

theorem workerStep_turn (w : Wire) : Turn w w.workerStep := by
  have hturn := w.workerStep_turns
  revert hturn
  generalize w.workerStep = w'
  intro hturn
  cases hturn with
  | takes hworker hqueue => exact .take _ hqueue rfl rfl rfl rfl
  | waits | stops | joins | sends | spools | drained | reads | replayed | skips | resends | respools =>
    exact .quiet ⟨rfl, rfl, rfl, rfl, rfl⟩

theorem answer_turn (w : Wire) (ok stays : Bool) : Turn w (w.answer ok stays) := by
  have hturn := w.answer_turns ok stays
  revert hturn
  generalize w.answer ok stays = w'
  intro hturn
  cases hturn <;> exact .quiet ⟨rfl, rfl, rfl, rfl, rfl⟩

theorem step_turn {w : Wire} {e : Event} (hlives : e.Lives) (h : w.FindsOldest e) : Turn w (w.step e) := by
  cases e with
  | publish payload => exact publish_turn w payload
  | producer => exact producerStep_turn h
  | close => exact .quiet ⟨rfl, rfl, rfl, rfl, rfl⟩
  | worker => exact workerStep_turn w
  | diskFault written =>
    simp only [step, diskFault]
    split <;> exact .quiet ⟨rfl, rfl, rfl, rfl, rfl⟩
  | arrive =>
    simp only [step, arrive]
    split
    · split <;> exact .quiet ⟨rfl, rfl, rfl, rfl, rfl⟩
    · exact .quiet ⟨rfl, rfl, rfl, rfl, rfl⟩
  | answer ok stays => exact answer_turn w ok stays
  | late i =>
    simp only [step, lateArrival]
    split <;> exact .quiet ⟨rfl, rfl, rfl, rfl, rfl⟩
  | kill written => exact hlives.elim

theorem step_turn_or_miss {w : Wire} {e : Event} (hlives : e.Lives) :
    w.FindsOldest e ∧ Turn w (w.step e) ∨ ¬ w.FindsOldest e ∧ Miss w (w.step e) := by
  by_cases h : w.FindsOldest e
  · exact Or.inl ⟨h, step_turn hlives h⟩
  · refine Or.inr ⟨h, ?_⟩
    cases e with
    | producer => exact producerStep_miss h
    | publish | close | worker | diskFault | arrive | answer | late | kill => exact absurd trivial h

/-! ### Where the published events are -/

/-- Each published event is with the worker, on the queue or discarded. -/
def Split (w : Wire) : Prop := w.published.Perm (w.taken ++ w.queue ++ w.discarded)

theorem Turn.split {w w' : Wire} (h : Turn w w') (hsplit : w.Split) : w'.Split := by
  unfold Split at *
  cases h with
  | quiet h => rwa [h.published, h.taken, h.queue, h.discarded]
  | put payload hpublished hqueue htaken hdiscarded =>
    rw [hpublished, hqueue, htaken, hdiscarded]
    calc w.published ++ [payload]
        _ ~ payload :: w.published := List.perm_append_singleton ..
        _ ~ payload :: (w.taken ++ w.queue ++ w.discarded) := hsplit.cons payload
        _ ~ w.taken ++ w.queue ++ payload :: w.discarded := List.perm_middle.symm
        _ = w.taken ++ (w.queue ++ [payload]) ++ w.discarded := by simp
  | take payload hqueue htaken hpublished hdiscarded =>
    rw [hpublished, htaken, hdiscarded]
    rw [hqueue] at hsplit
    simpa using hsplit
  | drop payload hqueue hdiscarded hdropped hpublished htaken =>
    rw [hpublished, htaken, hdiscarded]
    rw [hqueue] at hsplit
    calc w.published
        _ ~ w.taken ++ (payload :: w'.queue) ++ w.discarded := hsplit
        _ = w.taken ++ payload :: (w'.queue ++ w.discarded) := by simp
        _ ~ payload :: (w.taken ++ (w'.queue ++ w.discarded)) := List.perm_middle
        _ ~ w.taken ++ (w'.queue ++ w.discarded) ++ [payload] := (List.perm_append_singleton ..).symm
        _ = w.taken ++ w'.queue ++ (w.discarded ++ [payload]) := by simp
  | refuse payload hpublished hdiscarded hdropped hqueue htaken =>
    rw [hpublished, htaken, hdiscarded, hqueue, ← List.append_assoc]
    exact hsplit.append_right _

theorem step_split {w : Wire} {e : Event} (hlives : e.Lives) (h : w.Split) : (w.step e).Split := by
  rcases step_turn_or_miss (w := w) hlives with ⟨-, hturn⟩ | ⟨-, hmiss⟩
  · exact hturn.split h
  · unfold Split at *
    rwa [hmiss.published, hmiss.taken, hmiss.queue, hmiss.discarded]

/-! ### The counter -/

/-- The published events are those the worker took, those on the queue, and others that `dropped` counts. -/
def DropsCounted (w : Wire) : Prop :=
  ∃ lost : List Payload, w.published.Perm (w.taken ++ w.queue ++ lost) ∧ w.dropped = lost.length

theorem Split.dropsCounted_iff {w : Wire} (h : w.Split) : w.DropsCounted ↔ w.dropped = w.discarded.length := by
  constructor
  · rintro ⟨lost, hlost, hdropped⟩
    have hlen := (hlost.symm.trans h).length_eq
    simp only [List.length_append] at hlen
    omega
  · intro hdropped
    exact ⟨w.discarded, h, hdropped⟩

theorem step_counted {w : Wire} {e : Event} (hlives : e.Lives) (h : w.dropped = w.discarded.length) :
    (w.step e).dropped = (w.step e).discarded.length ↔ w.FindsOldest e := by
  rcases step_turn_or_miss (w := w) hlives with ⟨hfinds, hturn⟩ | ⟨hnot, hmiss⟩
  · refine iff_of_true ?_ hfinds
    cases hturn with
    | quiet hsame => rw [hsame.dropped, hsame.discarded, h]
    | put payload _ _ _ hdiscarded hdropped => rw [hdropped, hdiscarded, h]
    | take payload _ _ _ hdiscarded hdropped => rw [hdropped, hdiscarded, h]
    | drop payload _ hdiscarded hdropped => rw [hdropped, hdiscarded, h, List.length_append, List.length_singleton]
    | refuse payload _ hdiscarded hdropped => rw [hdropped, hdiscarded, h, List.length_append, List.length_singleton]
  · refine iff_of_false ?_ hnot
    rw [hmiss.dropped, hmiss.discarded]
    omega

/-- **The counter is right in every state of a run exactly if no drop finds the queue empty.** -/
theorem dropped_counts_iff (maxQueue : Nat) (spool : Option Text) {events : List Event}
    (hlives : ∀ e ∈ events, e.Lives) :
    (∀ n, (run Wire.step (Wire.started maxQueue spool) (events.take n)).DropsCounted) ↔
      StepsMeet Wire.step FindsOldest (Wire.started maxQueue spool) events := by
  have hstart : (Wire.started maxQueue spool).Split := List.Perm.refl _
  have hcount : (Wire.started maxQueue spool).DropsCounted := hstart.dropsCounted_iff.mpr rfl
  refine run_prefixes_iff (I := Split) (D := fun _ e => e.Lives) (G := DropsCounted)
    (fun w e hsplit hlives => step_split hlives hsplit) (fun w e hsplit hlives hcounted => ?_) hstart hcount
    (stepsMeet_of_forall hlives)
  rw [(step_split hlives hsplit).dropsCounted_iff]
  exact step_counted hlives (hsplit.dropsCounted_iff.mp hcounted)

/-- A queue of one, and a second `publish` that drops the first event. -/
def overflowingEvents : List Event := [.publish [], .publish [], .producer, .producer]

theorem dropped_counts_overflowing : (run Wire.step (Wire.started 1 none) overflowingEvents).DropsCounted := by
  have hlives : ∀ e ∈ overflowingEvents, e.Lives := by decide
  refine (dropped_counts_iff 1 none hlives).mpr ⟨trivial, trivial, ?_, ?_, trivial⟩ 4
  · intro payload _ hqueue
    cases hqueue
  · intro payload hproducer
    cases hproducer

/-- A queue of one: the worker empties it between the failed put and the get of the second `publish`. -/
def racingEvents : List Event := [.publish [], .publish [], .worker, .producer, .producer]

theorem dropped_counts_racing :
    ¬ ∀ (maxQueue : Nat) (spool : Option Text) (events : List Event), 1 ≤ maxQueue → (∀ e ∈ events, e.Lives) →
      (run Wire.step (Wire.started maxQueue spool) events).producer = .ready →
      (run Wire.step (Wire.started maxQueue spool) events).DropsCounted := by
  intro h
  have hlives : ∀ e ∈ racingEvents, e.Lives := by decide
  obtain ⟨lost, hlost, hdropped⟩ := h 1 none racingEvents (Nat.le_refl 1) hlives rfl
  have hlen := hlost.length_eq
  have htwo : (run Wire.step (Wire.started 1 none) racingEvents).published.length = 2 := rfl
  have hboth : ((run Wire.step (Wire.started 1 none) racingEvents).taken ++
      (run Wire.step (Wire.started 1 none) racingEvents).queue).length = 2 := rfl
  rw [List.length_append, htwo, hboth] at hlen
  have hone : 1 = lost.length := hdropped
  omega

end Wire

end FreqTrading.Copytrade
