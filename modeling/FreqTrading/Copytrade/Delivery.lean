import FreqTrading.Lib.Outbox
import FreqTrading.Copytrade.Broadcast

/-!
# Delivery to the leader

While the process lives and its disk works, broadcaster and leader are an outbox (`Lib/Outbox`): pending are
the events in the spool and in the worker's hands, whichever way they go through them, and the worker only
ever sends the first of these.
-/

namespace FreqTrading.Copytrade

open Lib Lib.Json

def eventIdKey : Str := Str.ofText "event_id".toList

def eventId : Value → Option Value
  | .obj event => member eventIdKey event
  | _ => none

def publishedIds (payloads : List Payload) : List (Option Value) := payloads.map fun payload => eventId (.obj payload)

/-- No crash, and no failure of the disk. -/
def Event.Healthy : Event → Prop
  | .diskFault _ | .kill _ => False
  | _ => True

/-! ### The leader -/

/-- What the leader stores of a payload. -/
def RecordOf (record payload : Payload) : Prop := ∃ seq, record = setMember seqKey (ofNat seq) payload

theorem RecordOf.eventId {record payload : Payload} (h : RecordOf record payload) :
    eventId (.obj record) = eventId (.obj payload) := by
  obtain ⟨seq, rfl⟩ := h
  exact member_setMember_of_ne (by decide) _ _

theorem latest_joined (records : List Payload) (seq : Nat) {n : Nat} (h : records.length ≤ n) :
    (LeaderStore.mk (joined (records.map eventLine)) seq).latest n = records.map Value.obj := by
  rw [latest_records, lastItems_all h]

namespace Wire

/-- The leader's file has one record for each event received. -/
def Recorded (w : Wire) : Prop :=
  ∃ records, w.leader.file = joined (records.map eventLine) ∧ List.Forall₂ RecordOf records w.received ∧
    w.leader.seq = records.length

theorem receive_recorded {w : Wire} (h : w.Recorded) (payload : Payload) : (w.receive payload).Recorded := by
  obtain ⟨records, hfile, hrecords, hseq⟩ := h
  refine ⟨records ++ [w.leader.record payload], ?_, ?_, ?_⟩
  · simp [receive, LeaderStore.append, hfile, joined_append, joined_single]
  · exact List.rel_append hrecords (.cons ⟨_, rfl⟩ .nil)
  · simp [receive, LeaderStore.append, hseq]

theorem Recorded.of_eq {w w' : Wire} (h : w.Recorded) (hleader : w'.leader = w.leader)
    (hreceived : w'.received = w.received) : w'.Recorded := by
  unfold Recorded
  rw [hleader, hreceived]
  exact h

/-! ### The spool between steps -/

/-- The spool is whole lines, and an event goes around it only while it is empty. -/
structure InOrder (w : Wire) : Prop where
  held : w.LinesHeld
  whole : Terminated isBreak w.spoolText
  alone : ∀ payload, w.worker = .sending payload → w.spoolText = []
  answered : w.arrived = true → ∀ event ∈ w.worker.request, event ∈ w.received.map Value.obj

theorem InOrder.request_first {w : Wire} (h : w.InOrder) {event : Value} (hrequest : w.worker.request = some event) :
    ∃ rest, w.pending = event :: rest := by
  cases hworker : w.worker with
  | sending payload =>
    rw [hworker, Worker.request, Option.some.injEq] at hrequest
    refine ⟨[], ?_⟩
    rw [pending, onDisk, h.alone payload hworker, eventsOf_nil, hworker, ← hrequest]
    rfl
  | resending event' line rest =>
    rw [hworker, Worker.request, Option.some.injEq] at hrequest
    have hheld := h.held
    simp only [LinesHeld, hworker] at hheld
    refine ⟨rest.filterMap loads, ?_⟩
    rw [pending, onDisk, Broadcaster.spoolText, hheld.1, hworker, ← hrequest]
    simp [Worker.hands]
  | idle => simp [hworker, Worker.request] at hrequest
  | stopped => simp [hworker, Worker.request] at hrequest
  | handling payload => simp [hworker, Worker.request] at hrequest
  | spooling payload drains => simp [hworker, Worker.request] at hrequest
  | draining => simp [hworker, Worker.request] at hrequest
  | replaying texts => simp [hworker, Worker.request] at hrequest
  | respooling texts => simp [hworker, Worker.request] at hrequest

/-! ### The worker's own steps -/

/-- The worker takes these from the queue, and the rest of what does not belong to it is as it was. -/
structure Takes (w w' : Wire) (new : List Payload) : Prop where
  queue : w.queue = new ++ w'.queue
  taken : w'.taken = w.taken ++ new
  acked : w'.acked = w.acked
  late : w'.late = w.late
  received : w'.received = w.received
  leader : w'.leader = w.leader
  published : w'.published = w.published
  discarded : w'.discarded = w.discarded

theorem takes_none {w w' : Wire}
    (h : w' = { w with worker := w'.worker, spool := w'.spool, arrived := w'.arrived, spooled := w'.spooled,
                       kept := w'.kept }) : Takes w w' [] := by
  rw [h]
  exact ⟨rfl, (List.append_nil _).symm, rfl, rfl, rfl, rfl, rfl, rfl⟩

theorem spoolText_of_empty {w : Wire} (h : w.spoolBacklog = false) : w.spoolText = [] := by
  simpa [Broadcaster.spoolBacklog] using h

theorem workerStep_takes {w : Wire} (h : w.InOrder) :
    ∃ new, new.length ≤ 1 ∧ Takes w w.workerStep new ∧ w.workerStep.pending = w.pending ++ new.map Value.obj := by
  have hheld := h.held
  have hturn := w.workerStep_turns
  revert hturn
  generalize w.workerStep = w'
  intro hturn
  cases hturn with
  | takes hworker hqueue =>
    exact ⟨[_], by simp, ⟨hqueue, rfl, rfl, rfl, rfl, rfl, rfl, rfl⟩,
      by simp [pending, onDisk, Broadcaster.spoolText, hworker, Worker.hands]⟩
  | waits => exact ⟨[], by simp, takes_none rfl, by simp⟩
  | stops hworker | joins hworker | sends hworker | drained hworker | replayed hworker =>
    exact ⟨[], by simp, takes_none rfl, by simp [pending, onDisk, Broadcaster.spoolText, hworker, Worker.hands]⟩
  | @spools payload drains hworker =>
    refine ⟨[], by simp, takes_none rfl, ?_⟩
    have hdisk := eventsOf_append h.whole (joined [eventLine payload])
    rw [eventsOf_eventLine] at hdisk
    cases drains <;> simpa [pending, onDisk, Broadcaster.spoolText, hworker, Worker.hands] using hdisk
  | reads hworker hspool =>
    refine ⟨[], by simp, takes_none rfl, ?_⟩
    simp [pending, onDisk, Broadcaster.spoolText, hworker, hspool, Worker.hands, eventsOf]
  | skips hworker hloads | resends hworker hloads =>
    refine ⟨[], by simp, takes_none rfl, ?_⟩
    simp [pending, onDisk, Broadcaster.spoolText, hworker, hloads, Worker.hands]
  | respools hworker =>
    simp only [LinesHeld, hworker] at hheld
    refine ⟨[], by simp, takes_none rfl, ?_⟩
    simp [pending, onDisk, Broadcaster.spoolText, hworker, hheld.1, eventsOf_joined hheld.2, Worker.hands]

/-! ### Answers -/

/-- What an answer leaves alone. -/
structure Answered (w w' : Wire) : Prop where
  queue : w'.queue = w.queue
  taken : w'.taken = w.taken
  received : w'.received = w.received
  leader : w'.leader = w.leader
  published : w'.published = w.published
  discarded : w'.discarded = w.discarded

theorem answer_answered (w : Wire) (ok stays : Bool) : Answered w (w.answer ok stays) := by
  have hturn := w.answer_turns ok stays
  revert hturn
  generalize w.answer ok stays = w'
  intro hturn
  cases hturn <;> exact ⟨rfl, rfl, rfl, rfl, rfl, rfl⟩

theorem answer_pending {w : Wire} (h : w.InOrder) (ok stays : Bool) :
    (∃ event, w.arrived = true ∧ w.worker.request = some event ∧ w.pending = event :: (w.answer ok stays).pending ∧
        (w.answer ok stays).acked = w.acked ++ [event] ∧ (w.answer ok stays).late = w.late) ∨
      ((w.answer ok stays).pending = w.pending ∧ (w.answer ok stays).acked = w.acked ∧
        ((w.answer ok stays).late = w.late ∨
          ∃ event, w.worker.request = some event ∧ (w.answer ok stays).late = w.late ++ [event])) := by
  have hlate : ∀ event, w.giveUp event stays = w.late ∨ w.giveUp event stays = w.late ++ [event] := by
    intro event
    unfold giveUp
    split
    · exact Or.inr rfl
    · exact Or.inl rfl
  have hheld := h.held
  have hturn := w.answer_turns ok stays
  revert hturn
  generalize w.answer ok stays = w'
  intro hturn
  cases hturn with
  | waits => exact Or.inr ⟨rfl, rfl, Or.inl rfl⟩
  | @sent payload hworker harrived =>
    have hempty := h.alone payload hworker
    refine Or.inl ⟨.obj payload, harrived, by rw [hworker]; rfl, ?_, rfl, rfl⟩
    simp only [Broadcaster.spoolText] at hempty
    simp [pending, onDisk, Broadcaster.spoolText, hworker, hempty, Worker.hands]
  | @failed payload hworker =>
    refine Or.inr ⟨?_, rfl, ?_⟩
    · simp [pending, onDisk, Broadcaster.spoolText, hworker, Worker.hands]
    · rcases hlate (.obj payload) with hsame | hmore
      · exact Or.inl hsame
      · exact Or.inr ⟨_, by rw [hworker]; rfl, hmore⟩
  | @resent event line rest hworker harrived =>
    simp only [LinesHeld, hworker] at hheld
    refine Or.inl ⟨event, harrived, by rw [hworker]; rfl, ?_, rfl, rfl⟩
    simp [pending, onDisk, Broadcaster.spoolText, hworker, hheld.1, Worker.hands]
  | @failedAgain event line rest hworker =>
    simp only [LinesHeld, hworker] at hheld
    refine Or.inr ⟨?_, rfl, ?_⟩
    · simp [pending, onDisk, Broadcaster.spoolText, hworker, hheld.2.1, Worker.hands]
    · rcases hlate event with hsame | hmore
      · exact Or.inl hsame
      · exact Or.inr ⟨_, by rw [hworker]; rfl, hmore⟩

/-! ### One step keeps the order -/

theorem SameWorker.inOrder {w w' : Wire} (h : SameWorker w w') (horder : w.InOrder)
    (hanswered : w'.arrived = true → ∀ event ∈ w.worker.request, event ∈ w'.received.map Value.obj) : w'.InOrder := by
  have htext : w'.spoolText = w.spoolText := by simp only [Broadcaster.spoolText, h.spool]
  refine ⟨h.linesHeld horder.held, htext ▸ horder.whole, fun payload hworker => ?_, fun harrived event hevent => ?_⟩
  · rw [htext]
    exact horder.alone payload (h.worker ▸ hworker)
  · exact hanswered harrived event (h.worker ▸ hevent)

theorem workerStep_inOrder {w : Wire} (h : w.InOrder) : w.workerStep.InOrder := by
  have hquiet : ∀ w' : Wire, w'.LinesHeld → Terminated isBreak w'.spoolText → w'.worker.request = none → w'.InOrder := by
    intro w' hheld' hwhole hrequest
    refine ⟨hheld', hwhole, fun payload hworker => ?_, fun _ event hevent => ?_⟩
    · rw [hworker] at hrequest
      cases hrequest
    · rw [hrequest] at hevent
      cases hevent
  have hlines := h.held
  have hturn := w.workerStep_turns
  have hheld := w.workerStep_linesHeld h.held
  revert hturn hheld
  generalize w.workerStep = w'
  intro hturn hheld
  cases hturn with
  | waits => exact h
  | stops | takes | joins | drained | replayed | skips => exact hquiet _ hheld h.whole rfl
  | sends hworker hempty =>
    exact ⟨hheld, h.whole, fun _ _ => spoolText_of_empty hempty, fun harrived => by cases harrived⟩
  | @spools payload drains hworker =>
    have hwhole : Terminated isBreak (w.spoolText ++ joined [eventLine payload]) := by
      rw [joined_single, ← List.append_assoc]
      exact terminated_concat _ (by decide)
    cases drains <;> exact hquiet _ hheld hwhole rfl
  | reads => exact hquiet _ hheld terminated_nil rfl
  | resends hworker =>
    exact ⟨hheld, h.whole, fun _ hsending => (by cases hsending), fun harrived => by cases harrived⟩
  | @respools texts hworker =>
    simp only [LinesHeld, hworker] at hlines
    refine hquiet _ hheld ?_ rfl
    have hnone : w.spoolText = [] := by simp only [Broadcaster.spoolText, hlines.1, Option.getD_none]
    show Terminated isBreak (w.spoolText ++ joined texts)
    rw [hnone]
    exact terminated_joined (by decide) texts

theorem answer_inOrder {w : Wire} (h : w.InOrder) (ok stays : Bool) : (w.answer ok stays).InOrder := by
  have hturn := w.answer_turns ok stays
  have hheld := w.answer_linesHeld ok stays h.held
  revert hturn hheld
  generalize w.answer ok stays = w'
  intro hturn hheld
  cases hturn with
  | waits => exact h
  | sent | failed | resent | failedAgain =>
    exact ⟨hheld, h.whole, fun _ hworker => (by cases hworker), fun _ _ hevent => by cases hevent⟩

theorem step_inOrder {w : Wire} {e : Event} (h : w.InOrder) (he : e.Healthy) : (w.step e).InOrder := by
  have hmono : ∀ {w' : Wire}, (w'.arrived = true → w.arrived = true) → w.received <+: w'.received →
      w'.arrived = true → ∀ event ∈ w.worker.request, event ∈ w'.received.map Value.obj := by
    intro w' harrived hreceived hnow event hevent
    exact (List.IsPrefix.map Value.obj hreceived).subset (h.answered (harrived hnow) event hevent)
  cases e with
  | publish payload =>
    refine (w.publish_sameWorker payload).inOrder h (hmono ?_ ?_)
    all_goals
      simp only [publish, put]
      split
      · split <;> simp
      · simp
  | producer =>
    refine w.producerStep_sameWorker.inOrder h (hmono ?_ ?_)
    all_goals
      simp only [producerStep, put]
      split
      · simp
      · simp
      · split <;> simp
  | close => exact ⟨h.held, h.whole, h.alone, h.answered⟩
  | worker => exact workerStep_inOrder h
  | diskFault written => exact he.elim
  | arrive =>
    refine w.arrive_sameWorker.inOrder h ?_
    unfold arrive
    split
    · next payload hrequest =>
      split
      · exact h.answered
      · intro _ event hevent
        obtain rfl : Value.obj payload = event := Option.some.inj (hrequest.symm.trans hevent)
        simp [receive]
    · exact h.answered
  | answer ok stays => exact answer_inOrder h ok stays
  | late i =>
    refine (w.lateArrival_sameWorker i).inOrder h (hmono ?_ ?_)
    all_goals
      simp only [lateArrival, receive]
      split <;> simp
  | kill written => exact he.elim

/-! ### The queue -/

/-- What was published is on the queue, or was taken from it or dropped. -/
structure Accounted (w : Wire) : Prop where
  queued : (w.taken ++ w.queue).Sublist w.published
  placed : ∀ payload ∈ w.published, payload ∈ w.taken ∨ payload ∈ w.queue ∨ payload ∈ w.discarded

theorem Accounted.of_eq {w w' : Wire} (h : w.Accounted) (hqueue : w'.queue = w.queue) (htaken : w'.taken = w.taken)
    (hpublished : w'.published = w.published) (hdiscarded : w'.discarded = w.discarded) : w'.Accounted := by
  refine ⟨?_, ?_⟩
  · rw [hqueue, htaken, hpublished]
    exact h.queued
  · rw [hqueue, htaken, hpublished, hdiscarded]
    exact h.placed

theorem put_accounted {w : Wire} (h : w.Accounted) (payload : Payload) : (w.put payload).Accounted := by
  refine ⟨?_, fun other hother => ?_⟩
  · simp only [put, ← List.append_assoc]
    exact h.queued.append (List.Sublist.refl _)
  · simp only [put, List.mem_append, List.mem_singleton] at hother ⊢
    rcases hother with hother | rfl
    · rcases h.placed other hother with htaken | hqueue | hdiscarded
      · exact Or.inl htaken
      · exact Or.inr (Or.inl (Or.inl hqueue))
      · exact Or.inr (Or.inr hdiscarded)
    · exact Or.inr (Or.inl (Or.inr rfl))

theorem producerStep_accounted {w : Wire} (h : w.Accounted) : w.producerStep.Accounted := by
  unfold producerStep
  split
  · exact h
  · refine ⟨?_, fun other hother => ?_⟩
    · exact ((List.Sublist.refl _).append (List.tail_sublist _)).trans h.queued
    · rcases h.placed other hother with htaken | hqueue | hdiscarded
      · exact Or.inl htaken
      · -- the head of the queue is dropped
        cases hq : w.queue with
        | nil => simp [hq] at hqueue
        | cons first others =>
          rw [hq] at hqueue
          rcases List.mem_cons.mp hqueue with rfl | hqueue
          · exact Or.inr (Or.inr (by simp))
          · exact Or.inr (Or.inl (by simpa using hqueue))
      · exact Or.inr (Or.inr (List.mem_append_left _ hdiscarded))
  · split
    · exact put_accounted h _
    · refine ⟨h.queued.trans (List.sublist_append_left _ _), fun other hother => ?_⟩
      rcases List.mem_append.mp hother with hother | hother
      · rcases h.placed other hother with htaken | hqueue | hdiscarded
        · exact Or.inl htaken
        · exact Or.inr (Or.inl hqueue)
        · exact Or.inr (Or.inr (List.mem_append_left _ hdiscarded))
      · exact Or.inr (Or.inr (List.mem_append_right _ hother))

theorem Takes.accounted {w w' : Wire} {new : List Payload} (ht : Takes w w' new) (h : w.Accounted) : w'.Accounted := by
  refine ⟨?_, fun other hother => ?_⟩
  · rw [ht.taken, ht.published, List.append_assoc, ← ht.queue]
    exact h.queued
  · rw [ht.taken, ht.discarded]
    rw [ht.published] at hother
    rcases h.placed other hother with htaken | hqueue | hdiscarded
    · exact Or.inl (List.mem_append_left _ htaken)
    · rw [ht.queue, List.mem_append] at hqueue
      rcases hqueue with hnew | hqueue
      · exact Or.inl (List.mem_append_right _ hnew)
      · exact Or.inr (Or.inl hqueue)
    · exact Or.inr (Or.inr hdiscarded)

theorem step_accounted {w : Wire} {e : Event} (h : w.Accounted) (horder : w.InOrder) (he : e.Healthy) :
    (w.step e).Accounted := by
  cases e with
  | publish payload =>
    simp only [step, publish]
    split
    · split
      · exact put_accounted h payload
      · exact h.of_eq rfl rfl rfl rfl
    · exact h
  | producer => exact producerStep_accounted h
  | close => exact h.of_eq rfl rfl rfl rfl
  | worker =>
    obtain ⟨new, -, ht, -⟩ := workerStep_takes horder
    exact ht.accounted h
  | diskFault written => exact he.elim
  | arrive =>
    simp only [step, arrive]
    split
    · split <;> exact h.of_eq rfl rfl rfl rfl
    · exact h
  | answer ok stays =>
    have ha := w.answer_answered ok stays
    exact h.of_eq ha.queue ha.taken ha.published ha.discarded
  | late i =>
    simp only [step, lateArrival]
    split <;> exact h.of_eq rfl rfl rfl rfl
  | kill written => exact he.elim

/-! ### Broadcaster and leader are an outbox -/

def outbox (w : Wire) : Outbox Value := ⟨w.acked, w.pending, w.late, w.received.map .obj⟩

theorem workerStep_refines {w : Wire} (h : w.InOrder) :
    w.workerStep.outbox = w.outbox ∨ Outbox.Step w.outbox w.workerStep.outbox := by
  obtain ⟨new, hlength, ht, hpending⟩ := workerStep_takes h
  have hout : w.workerStep.outbox = { w.outbox with pending := w.pending ++ new.map Value.obj } := by
    simp only [outbox, ht.acked, ht.late, ht.received, hpending]
  rcases new with _ | ⟨payload, _ | ⟨second, more⟩⟩
  · simp only [List.map_nil, List.append_nil] at hout
    exact Or.inl hout
  · rw [hout]
    exact Or.inr (Outbox.Step.push (Value.obj payload))
  · simp at hlength

theorem arrive_refines {w : Wire} (h : w.InOrder) :
    w.arrive.outbox = w.outbox ∨ Outbox.Step w.outbox w.arrive.outbox := by
  unfold arrive
  split
  · next payload hrequest =>
    obtain ⟨rest, hpending⟩ := h.request_first hrequest
    split
    · exact Or.inl rfl
    · refine Or.inr ?_
      have hstore := Outbox.Step.store (o := w.outbox) (x := .obj payload) (by simp [outbox, hpending])
      simpa [outbox, receive, pending, onDisk, Broadcaster.spoolText] using hstore
  · exact Or.inl rfl

theorem answer_refines {w : Wire} (h : w.InOrder) (ok stays : Bool) :
    (w.answer ok stays).outbox = w.outbox ∨ Outbox.Step w.outbox (w.answer ok stays).outbox := by
  have ha := w.answer_answered ok stays
  rcases answer_pending h ok stays with
    ⟨event, harrived, hrequest, hpending, hacked, hlate⟩ | ⟨hpending, hacked, hlate | ⟨event, hrequest, hlate⟩⟩
  · have hack := Outbox.Step.ack (o := w.outbox) hpending (h.answered harrived event hrequest)
    refine Or.inr ?_
    simpa only [outbox, hacked, hlate, ha.received] using hack
  · refine Or.inl ?_
    simp only [outbox, hpending, hacked, hlate, ha.received]
  · obtain ⟨rest, hfirst⟩ := h.request_first hrequest
    have hdelay := Outbox.Step.delay (o := w.outbox) (x := event) (by simp [outbox, hfirst])
    refine Or.inr ?_
    simpa only [outbox, hpending, hacked, hlate, ha.received] using hdelay

theorem lateArrival_refines (w : Wire) (i : Nat) :
    (w.lateArrival i).outbox = w.outbox ∨ Outbox.Step w.outbox (w.lateArrival i).outbox := by
  unfold lateArrival
  split
  · next payload hi =>
    refine Or.inr ?_
    have hstore := Outbox.Step.storeLate (o := w.outbox) i hi
    simpa [outbox, receive, pending, onDisk, Broadcaster.spoolText] using hstore
  · exact Or.inr (Outbox.Step.dropLate (o := w.outbox) i)
  · exact Or.inl rfl

/-- **Every step is one of the outbox's, or none.** -/
theorem step_refines {w : Wire} {e : Event} (h : w.InOrder) (he : e.Healthy) :
    (w.step e).outbox = w.outbox ∨ Outbox.Step w.outbox (w.step e).outbox := by
  cases e with
  | publish payload =>
    simp only [step, publish]
    split
    · split <;> exact Or.inl rfl
    · exact Or.inl rfl
  | producer =>
    simp only [step, producerStep]
    split
    · exact Or.inl rfl
    · exact Or.inl rfl
    · split <;> exact Or.inl rfl
  | close => exact Or.inl rfl
  | worker => exact workerStep_refines h
  | arrive => exact arrive_refines h
  | answer ok stays => exact answer_refines h ok stays
  | late i => exact lateArrival_refines w i
  | diskFault written => exact he.elim
  | kill written => exact he.elim

theorem step_handled {w : Wire} {e : Event} (h : w.InOrder) (he : e.Healthy)
    (hhandled : w.taken.map Value.obj = w.acked ++ w.pending) :
    (w.step e).taken.map Value.obj = (w.step e).acked ++ (w.step e).pending := by
  have hsame : ∀ {w' : Wire}, SameWorker w w' → w'.taken.map Value.obj = w'.acked ++ w'.pending := by
    intro w' hw
    rw [hw.taken, hw.acked, hw.pending, hhandled]
  cases e with
  | publish payload => exact hsame (w.publish_sameWorker payload)
  | producer => exact hsame w.producerStep_sameWorker
  | close => exact hsame ⟨rfl, rfl, rfl, rfl, rfl⟩
  | worker =>
    obtain ⟨new, -, ht, hpending⟩ := workerStep_takes h
    simp only [step, ht.taken, ht.acked, hpending, List.map_append, hhandled, List.append_assoc]
  | diskFault written => exact he.elim
  | arrive => exact hsame w.arrive_sameWorker
  | answer ok stays =>
    have ha := w.answer_answered ok stays
    rcases answer_pending h ok stays with ⟨event, -, -, hpending, hacked, -⟩ | ⟨hpending, hacked, -⟩
    · simp only [step, ha.taken, hacked, hhandled, hpending, List.append_assoc, List.singleton_append]
    · simp only [step, ha.taken, hacked, hhandled, hpending]
  | late i => exact hsame (w.lateArrival_sameWorker i)
  | kill written => exact he.elim

theorem step_recorded {w : Wire} (e : Event) (h : w.Recorded) : (w.step e).Recorded := by
  cases e with
  | publish payload =>
    simp only [step, publish]
    split
    · split <;> exact h.of_eq rfl rfl
    · exact h
  | producer =>
    simp only [step, producerStep]
    split
    · exact h
    · exact h.of_eq rfl rfl
    · split <;> exact h.of_eq rfl rfl
  | close => exact h.of_eq rfl rfl
  | worker =>
    simp only [step, workerStep]
    repeat' split
    all_goals exact h.of_eq rfl rfl
  | diskFault written =>
    simp only [step, diskFault]
    split <;> exact h.of_eq rfl rfl
  | arrive =>
    simp only [step, arrive]
    split
    · split
      · exact h
      · exact (receive_recorded h _).of_eq rfl rfl
    · exact h
  | answer ok stays =>
    have ha := w.answer_answered ok stays
    exact h.of_eq ha.leader ha.received
  | late i =>
    simp only [step, lateArrival]
    split
    · exact (receive_recorded h _).of_eq rfl rfl
    · exact h.of_eq rfl rfl
    · exact h
  | kill written => exact h.of_eq rfl rfl

theorem step_published (w : Wire) (e : Event) : w.published <+: (w.step e).published := by
  cases e with
  | publish payload =>
    simp only [step, publish, put]
    split
    · split <;> simp
    · simp
  | producer =>
    simp only [step, producerStep, put]
    split
    · simp
    · simp
    · split <;> simp
  | close => simp [step]
  | worker =>
    simp only [step, workerStep]
    repeat' split
    all_goals simp
  | diskFault written =>
    simp only [step, diskFault]
    split <;> simp
  | arrive =>
    simp only [step, arrive, receive]
    split
    · split <;> simp
    · simp
  | answer ok stays => simp [step, (w.answer_answered ok stays).published]
  | late i =>
    simp only [step, lateArrival, receive]
    split <;> simp
  | kill written => simp [step, kill]

end Wire

/-! ### Whole runs -/

open Wire

/-- What holds of a system whose process lives and whose disk works. -/
structure Delivering (w : Wire) : Prop where
  inOrder : w.InOrder
  accounted : w.Accounted
  handled : w.taken.map Value.obj = w.acked ++ w.pending
  recorded : w.Recorded
  outbox : (publishedIds w.published).Nodup → w.outbox.Ok eventId

theorem Delivering.nodup {w : Wire} (h : Delivering w) (hids : (publishedIds w.published).Nodup) :
    ((w.outbox.done ++ w.outbox.pending).map eventId).Nodup := by
  have htaken : w.taken.Sublist w.published := (List.sublist_append_left _ _).trans h.accounted.queued
  have hids' : (publishedIds w.taken).Nodup := (htaken.map _).nodup hids
  show ((w.acked ++ w.pending).map eventId).Nodup
  rw [← h.handled, List.map_map]
  exact hids'

theorem step_delivering {w : Wire} {e : Event} (h : Delivering w) (he : e.Healthy) : Delivering (w.step e) := by
  refine ⟨step_inOrder h.inOrder he, step_accounted h.accounted h.inOrder he, step_handled h.inOrder he h.handled,
    step_recorded e h.recorded, fun hids => ?_⟩
  have hids' : (publishedIds w.published).Nodup := ((w.step_published e).sublist.map _).nodup hids
  rcases step_refines h.inOrder he with hsame | hstep
  · rw [hsame]
    exact h.outbox hids'
  · exact hstep.ok (h.outbox hids') (h.nodup hids')

theorem started_delivering (maxQueue : Nat) : Delivering (Wire.started maxQueue none) where
  inOrder := ⟨trivial, terminated_nil, fun _ h => (by cases h), fun h => by cases h⟩
  accounted := ⟨by simp [Wire.started], by simp [Wire.started]⟩
  handled := by simp [Wire.started, Wire.pending, Wire.onDisk, Broadcaster.spoolText, Worker.hands]
  recorded := ⟨[], rfl, .nil, by simp [Wire.started, LeaderStore.opened, loadLastSeq]⟩
  outbox := fun _ => Outbox.ok_nil _ _

namespace Wire

/-- The leader returns a record of the payload. -/
def StoredAtLeader (w : Wire) (payload : Payload) : Prop :=
  ∃ record, RecordOf record payload ∧ ∀ n, w.leader.count ≤ n → Value.obj record ∈ w.leader.latest n

def Located (w : Wire) (payload : Payload) : Prop :=
  w.StoredAtLeader payload ∨ payload ∈ w.queue ∨ .obj payload ∈ w.worker.hands ∨ .obj payload ∈ w.onDisk ∨
    payload ∈ w.discarded

/-- The leader's store lists the events for the first time in the order in which they were published. -/
def ListedInOrder (w : Wire) : Prop :=
  ∀ n, w.leader.count ≤ n → (firsts ((w.leader.latest n).map eventId)).Sublist (publishedIds w.published)

end Wire

theorem Delivering.latest {w : Wire} (h : Delivering w) :
    ∃ records, List.Forall₂ RecordOf records w.received ∧
      ∀ n, w.leader.count ≤ n → w.leader.latest n = records.map Value.obj := by
  obtain ⟨records, hfile, hrecords, hseq⟩ := h.recorded
  refine ⟨records, hrecords, fun n hn => ?_⟩
  have hlatest := latest_joined records w.leader.seq (n := n) (by rw [← hseq]; exact hn)
  rwa [← hfile] at hlatest

theorem Delivering.storedAtLeader {w : Wire} (h : Delivering w) {payload : Payload} (hin : payload ∈ w.received) :
    w.StoredAtLeader payload := by
  obtain ⟨records, hrecords, hlatest⟩ := h.latest
  obtain ⟨i, hi, rfl⟩ := List.mem_iff_getElem.mp hin
  have hi' : i < records.length := by rw [hrecords.length_eq]; exact hi
  refine ⟨records[i], hrecords.get hi' hi, fun n hn => ?_⟩
  rw [hlatest n hn]
  exact List.mem_map_of_mem (List.getElem_mem hi')

theorem Delivering.located {w : Wire} (h : Delivering w) (hids : (publishedIds w.published).Nodup)
    {payload : Payload} (hin : payload ∈ w.published) : w.Located payload := by
  rcases h.accounted.placed payload hin with htaken | hqueue | hdiscarded
  · have hmem : Value.obj payload ∈ w.acked ++ w.pending := h.handled ▸ List.mem_map_of_mem htaken
    rcases List.mem_append.mp hmem with hacked | hpending
    · have hstored : Value.obj payload ∈ w.received.map Value.obj := (h.outbox hids).done_stored _ hacked
      obtain ⟨other, hother, heq⟩ := List.mem_map.mp hstored
      obtain rfl : other = payload := by injection heq
      exact Or.inl (h.storedAtLeader hother)
    · rcases List.mem_append.mp hpending with hdisk | hhands
      · exact Or.inr (Or.inr (Or.inr (Or.inl hdisk)))
      · exact Or.inr (Or.inr (Or.inl hhands))
  · exact Or.inr (Or.inl hqueue)
  · exact Or.inr (Or.inr (Or.inr (Or.inr hdiscarded)))

theorem Delivering.listedInOrder {w : Wire} (h : Delivering w) (hids : (publishedIds w.published).Nodup) :
    w.ListedInOrder := by
  intro n hn
  obtain ⟨records, hrecords, hlatest⟩ := h.latest
  have hsame : (records.map Value.obj).map eventId = (w.received.map Value.obj).map eventId := by
    rw [List.map_map, List.map_map]
    refine List.forall₂_eq_eq_eq ▸ ?_
    exact List.forall₂_map_left_iff.mpr (List.forall₂_map_right_iff.mpr (hrecords.imp fun _ _ hr => hr.eventId))
  rw [hlatest n hn, hsame]
  have hfirsts := (h.outbox hids).firsts_sublist
  have hall : (w.acked ++ w.pending).map eventId = publishedIds w.taken := by
    rw [← h.handled, List.map_map]
    rfl
  refine hfirsts.trans ?_
  show ((w.acked ++ w.pending).map eventId).Sublist _
  rw [hall]
  exact ((List.sublist_append_left _ _).trans h.accounted.queued).map _

/-- **Nothing is lost on the way to the leader, and nothing overtakes.** For every interleaving of the two
threads, the network and the leader. -/
theorem delivered (maxQueue : Nat) (events : List Event) (healthy : ∀ e ∈ events, e.Healthy) :
    let w := run Wire.step (Wire.started maxQueue none) events
    (publishedIds w.published).Nodup → (∀ payload ∈ w.published, w.Located payload) ∧ w.ListedInOrder := by
  intro w hids
  have h : Delivering w :=
    run_invariant (C := fun _ e => Event.Healthy e) (fun _ _ h he => step_delivering h he) (started_delivering maxQueue)
      (stepsMeet_of_forall healthy)
  exact ⟨fun payload hin => h.located hids hin, h.listedInOrder hids⟩

/-- A lost response, a backlog, an overflow and a late request, with a queue of one. -/
theorem delivered_backlog :
    let event (n : Nat) : Payload := [(eventIdKey, ofNat n)]
    let w := run Wire.step (Wire.started 1 none)
      [.publish (event 1), .worker, .worker, .arrive, .answer false false, .worker, .publish (event 2), .publish (event 3),
        .producer, .producer, .worker, .worker, .worker, .worker, .worker, .answer false true, .late 0]
    (∀ payload ∈ w.published, w.Located payload) ∧ w.ListedInOrder := by
  refine delivered 1 _ ?_ (by decide +kernel)
  simp [Event.Healthy]

end FreqTrading.Copytrade
