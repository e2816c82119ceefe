import FreqTrading.Copytrade.Broadcast

/-!
# What a dying process leaves in the spool

`_drain_spool` removes the spool file before it sends what was in it. Until the lines are written back, or
their events acknowledged, only the worker has them.
-/

namespace FreqTrading.Copytrade

open Lib Lib.Json

namespace Wire

/-! ### What the worker has taken off the disk -/

/-- The events of the removed spool file that the worker has not dealt with. -/
def held (w : Wire) : List Value :=
  match w.worker with
  | .replaying lines | .respooling lines => lines.filterMap loads
  | .resending _ line rest => (line :: rest).filterMap loads
  | _ => []

/-- A line is appended to the spool only behind whole lines. -/
def OnWhole (w : Wire) : Prop :=
  match w.worker with
  | .spooling _ _ => Terminated isBreak w.spoolText
  | _ => True

/-- Every event taken off the disk is acknowledged, or back on the disk once so much is written. -/
def Covered (w : Wire) (written : Nat) : Prop :=
  ∀ event ∈ w.held, event ∈ w.acked ∨ event ∈ eventsOf ((w.spoolAfter written).getD [])

/-- No line is torn or glued to a torn one, and no write-back of unacknowledged events is cut short. -/
def Intact (w : Wire) : Event → Prop
  | .worker => w.OnWhole
  | .diskFault written => w.OnWhole ∧ (w.worker.output ≠ none → w.Covered written)
  | .kill written => w.OnWhole ∧ w.Covered written
  | _ => True

/-- Everything that was on the disk is acknowledged or still there. -/
def Survives (w w' : Wire) : Prop := ∀ event ∈ w.kept, event ∈ w.acked ∨ event ∈ w'.onDisk

instance (w : Wire) : Decidable w.OnWhole := by unfold OnWhole; split <;> infer_instance

instance (w : Wire) (written : Nat) : Decidable (w.Covered written) :=
  inferInstanceAs (Decidable (∀ event ∈ w.held, event ∈ w.acked ∨ event ∈ eventsOf ((w.spoolAfter written).getD [])))

instance (w : Wire) (e : Event) : Decidable (w.Intact e) := by cases e <;> unfold Intact <;> infer_instance

instance (w w' : Wire) : Decidable (w.Survives w') :=
  inferInstanceAs (Decidable (∀ event ∈ w.kept, event ∈ w.acked ∨ event ∈ w'.onDisk))

theorem OnWhole.spooling {w : Wire} (h : w.OnWhole) {payload : Payload} {drains : Bool}
    (hworker : w.worker = .spooling payload drains) : Terminated isBreak w.spoolText := by
  simpa [OnWhole, hworker] using h

/-! ### The invariant -/

/-- What was once on the disk is there, or acknowledged, or in the worker's hands. -/
structure Safe (w : Wire) : Prop where
  lines : w.LinesHeld
  kept : ∀ event ∈ w.kept, event ∈ w.acked ∨ event ∈ w.onDisk ∨ event ∈ w.held
  disk_kept : ∀ event ∈ w.onDisk, event ∈ w.kept
  held_kept : ∀ event ∈ w.held, event ∈ w.kept

theorem SameWorker.held {w w' : Wire} (h : SameWorker w w') : w'.held = w.held := by
  unfold Wire.held
  rw [h.worker]

theorem SameWorker.safe {w w' : Wire} (h : SameWorker w w') (hsafe : w.Safe) : w'.Safe := by
  refine ⟨h.linesHeld hsafe.lines, ?_, ?_, ?_⟩
  · rw [h.kept, h.acked, h.onDisk, h.held]
    exact hsafe.kept
  · rw [h.onDisk, h.kept]
    exact hsafe.disk_kept
  · rw [h.held, h.kept]
    exact hsafe.held_kept

theorem onDisk_spoolAfter {w : Wire} (hlines : w.LinesHeld) (hwhole : w.OnWhole) (written : Nat) :
    ∀ event ∈ w.onDisk, event ∈ eventsOf ((w.spoolAfter written).getD []) := by
  intro event hevent
  unfold Broadcaster.spoolAfter
  cases hworker : w.worker with
  | spooling payload drains =>
    simp only [Worker.output, Option.getD_some]
    rw [eventsOf_append (hwhole.spooling hworker)]
    exact List.mem_append_left _ hevent
  | respooling texts =>
    simp only [LinesHeld, hworker] at hlines
    simp [onDisk, Broadcaster.spoolText, hlines.1] at hevent
  | idle => exact hevent
  | stopped => exact hevent
  | handling payload => exact hevent
  | sending payload => exact hevent
  | draining => exact hevent
  | replaying texts => exact hevent
  | resending e line rest => exact hevent

theorem Safe.of_same {w w' : Wire} (h : w.Safe) (hlines : w'.LinesHeld) (hkept : w'.kept = w.kept)
    (hacked : w'.acked = w.acked) (hdisk : w'.onDisk = w.onDisk) (hheld : w'.held = w.held) : w'.Safe := by
  refine ⟨hlines, ?_, ?_, ?_⟩
  · rw [hkept, hacked, hdisk, hheld]
    exact h.kept
  · rw [hdisk, hkept]
    exact h.disk_kept
  · rw [hheld, hkept]
    exact h.held_kept

theorem Safe.of_moved {w w' : Wire} (h : w.Safe) (hlines : w'.LinesHeld) (hkept : w'.kept = w.kept)
    (hacked : w'.acked = w.acked)
    (hmoved : ∀ event, event ∈ w'.onDisk ∨ event ∈ w'.held ↔ event ∈ w.onDisk ∨ event ∈ w.held) : w'.Safe := by
  have hwas : ∀ event, event ∈ w'.onDisk ∨ event ∈ w'.held → event ∈ w'.kept := by
    intro event hevent
    rw [hkept]
    rcases (hmoved event).mp hevent with hdisk | hheld
    · exact h.disk_kept event hdisk
    · exact h.held_kept event hheld
  refine ⟨hlines, fun event hevent => ?_, fun event hevent => hwas event (Or.inl hevent),
    fun event hevent => hwas event (Or.inr hevent)⟩
  rw [hkept] at hevent
  rw [hacked]
  rcases h.kept event hevent with hdone | hthere
  · exact Or.inl hdone
  · exact Or.inr ((hmoved event).mpr hthere)

theorem spools_safe {w : Wire} {payload : Payload} {drains : Bool} (h : w.Safe) (hwhole : w.OnWhole)
    (hworker : w.worker = .spooling payload drains) {w' : Wire} (hw' : w' = { w with
      spool := some (w.spoolText ++ joined [eventLine payload]), spooled := w.spooled + 1,
      worker := if drains then .draining else .idle, kept := w.kept ++ [.obj payload] }) (hnew : w'.LinesHeld) :
    w'.Safe := by
  subst hw'
  have hdisk : eventsOf (w.spoolText ++ joined [eventLine payload]) = w.onDisk ++ [.obj payload] := by
    rw [eventsOf_append (hwhole.spooling hworker), eventsOf_eventLine]
    rfl
  have hheld : w.held = [] := by simp [held, hworker]
  refine ⟨hnew, fun event hevent => ?_, fun event hevent => ?_, fun event hevent => ?_⟩
  · show _ ∨ event ∈ eventsOf (w.spoolText ++ joined [eventLine payload]) ∨ _
    rw [hdisk]
    rcases List.mem_append.mp hevent with hevent | hevent
    · rcases h.kept event hevent with hdone | hthere | hhands
      · exact Or.inl hdone
      · exact Or.inr (Or.inl (List.mem_append_left _ hthere))
      · rw [hheld] at hhands
        cases hhands
    · exact Or.inr (Or.inl (List.mem_append_right _ hevent))
  · have hevent' : event ∈ eventsOf (w.spoolText ++ joined [eventLine payload]) := hevent
    rw [hdisk] at hevent'
    rcases List.mem_append.mp hevent' with hevent' | hevent'
    · exact List.mem_append_left _ (h.disk_kept event hevent')
    · exact List.mem_append_right _ hevent'
  · cases drains <;> cases hevent

theorem workerStep_safe {w : Wire} (h : w.Safe) (hwhole : w.OnWhole) : w.workerStep.Safe := by
  have hlines := h.lines
  have hturn := w.workerStep_turns
  have hnew := w.workerStep_linesHeld h.lines
  revert hturn hnew
  generalize w.workerStep = w'
  intro hturn hnew
  cases hturn with
  | waits => exact h
  | stops hworker | takes hworker | joins hworker | sends hworker | drained hworker | replayed hworker =>
    exact h.of_same hnew rfl rfl rfl (by simp [held, hworker])
  | spools hworker => exact spools_safe h hwhole hworker rfl hnew
  | reads hworker hspool =>
    refine h.of_moved hnew rfl rfl fun event => ?_
    simp [onDisk, Broadcaster.spoolText, held, hworker, hspool, eventsOf]
  | skips hworker hloads => exact h.of_same hnew rfl rfl rfl (by simp [held, hworker, hloads])
  | resends hworker => exact h.of_same hnew rfl rfl rfl (by simp [held, hworker])
  | respools hworker =>
    simp only [LinesHeld, hworker] at hlines
    refine h.of_moved hnew rfl rfl fun event => ?_
    simp [onDisk, Broadcaster.spoolText, held, hworker, hlines.1, eventsOf_joined hlines.2]

theorem answer_safe {w : Wire} (h : w.Safe) (ok stays : Bool) : (w.answer ok stays).Safe := by
  have hlines := h.lines
  have hturn := w.answer_turns ok stays
  have hnew := w.answer_linesHeld ok stays h.lines
  revert hturn hnew
  generalize w.answer ok stays = w'
  intro hturn hnew
  cases hturn with
  | waits => exact h
  | failed hworker | failedAgain hworker => exact h.of_same hnew rfl rfl rfl (by simp [held, hworker])
  | sent hworker =>
    have hheld : w.held = [] := by simp [held, hworker]
    refine ⟨hnew, fun event hevent => ?_, h.disk_kept, fun event hevent => by cases hevent⟩
    rcases h.kept event hevent with hdone | hthere | hhands
    · exact Or.inl (List.mem_append_left _ hdone)
    · exact Or.inr (Or.inl hthere)
    · rw [hheld] at hhands
      cases hhands
  | @resent first line rest hworker =>
    simp only [LinesHeld, hworker] at hlines
    have hheld : w.held = first :: rest.filterMap loads := by simp [held, hworker, hlines.2.1]
    refine ⟨hnew, fun event hevent => ?_, h.disk_kept, fun event hevent => ?_⟩
    · rcases h.kept event hevent with hdone | hthere | hhands
      · exact Or.inl (List.mem_append_left _ hdone)
      · exact Or.inr (Or.inl hthere)
      · rw [hheld] at hhands
        rcases List.mem_cons.mp hhands with rfl | hrest
        · exact Or.inl (List.mem_append_right _ (by simp))
        · exact Or.inr (Or.inr hrest)
    · exact h.held_kept event (by rw [hheld]; exact List.mem_cons_of_mem _ hevent)

theorem Safe.of_cut {w w' : Wire} (h : w.Safe) {written : Nat} (hwhole : w.OnWhole) (hcovered : w.Covered written)
    (hlines : w'.LinesHeld) (hheld : w'.held = []) (hacked : w'.acked = w.acked)
    (hdisk : w'.onDisk = eventsOf ((w.spoolAfter written).getD []))
    (hkept : w'.kept = w.kept ++ eventsOf ((w.spoolAfter written).getD [])) : w'.Safe := by
  refine ⟨hlines, fun event hevent => ?_, fun event hevent => ?_, fun event hevent => ?_⟩
  · rw [hacked, hdisk]
    rw [hkept] at hevent
    rcases List.mem_append.mp hevent with hevent | hevent
    · rcases h.kept event hevent with hdone | hthere | hhands
      · exact Or.inl hdone
      · exact Or.inr (Or.inl (onDisk_spoolAfter h.lines hwhole written event hthere))
      · rcases hcovered event hhands with hdone | hthere
        · exact Or.inl hdone
        · exact Or.inr (Or.inl hthere)
    · exact Or.inr (Or.inl hevent)
  · rw [hdisk] at hevent
    rw [hkept]
    exact List.mem_append_right _ hevent
  · rw [hheld] at hevent
    cases hevent

theorem diskFault_safe {w : Wire} {written : Nat} (h : w.Safe) (hi : w.Intact (.diskFault written)) :
    (w.diskFault written).Safe := by
  obtain ⟨hwhole, hcovered⟩ := hi
  have hnew := w.diskFault_linesHeld written h.lines
  revert hnew
  unfold diskFault
  cases hworker : w.worker with
  | handling payload => exact fun hnew => h.of_same hnew rfl rfl rfl (by simp [held, hworker])
  | spooling payload drains =>
    have hcov : w.Covered written := hcovered (by simp [hworker, Worker.output])
    cases drains <;> exact fun hnew => h.of_cut hwhole hcov hnew rfl rfl rfl rfl
  | draining => exact fun hnew => h.of_same hnew rfl rfl rfl (by simp [held, hworker])
  | respooling texts =>
    have hcov : w.Covered written := hcovered (by simp [hworker, Worker.output])
    exact fun hnew => h.of_cut hwhole hcov hnew rfl rfl rfl rfl
  | idle => exact fun _ => h
  | stopped => exact fun _ => h
  | sending payload => exact fun _ => h
  | replaying texts => exact fun _ => h
  | resending event line rest => exact fun _ => h

theorem step_safe (w : Wire) (e : Event) (h : w.Safe) (hi : w.Intact e) : (w.step e).Safe := by
  cases e with
  | publish payload => exact (w.publish_sameWorker payload).safe h
  | producer => exact w.producerStep_sameWorker.safe h
  | close =>
    have hsame : SameWorker w (w.step .close) := ⟨rfl, rfl, rfl, rfl, rfl⟩
    exact hsame.safe h
  | worker => exact workerStep_safe h hi
  | diskFault written => exact diskFault_safe h hi
  | arrive => exact w.arrive_sameWorker.safe h
  | answer ok stays => exact answer_safe h ok stays
  | late i => exact (w.lateArrival_sameWorker i).safe h
  | kill written => exact h.of_cut hi.1 hi.2 trivial rfl rfl rfl rfl

theorem started_safe (maxQueue : Nat) (spool : Option Text) : (Wire.started maxQueue spool).Safe where
  lines := trivial
  kept := fun _ hevent => Or.inr (Or.inl hevent)
  disk_kept := fun _ hevent => hevent
  held_kept := fun _ hevent => by cases hevent

/-- **What the spool keeps when the process dies.** Nothing is lost exactly if the worker has acknowledged, or
has written back, what it took off the disk. -/
theorem kill_survives_iff (maxQueue : Nat) (spool : Option Text) (events : List Event) (written : Nat)
    (h : StepsMeet Wire.step Intact (Wire.started maxQueue spool) events)
    (hwhole : (run Wire.step (Wire.started maxQueue spool) events).OnWhole) :
    let w := run Wire.step (Wire.started maxQueue spool) events
    w.Survives (w.kill written) ↔ w.Covered written := by
  intro w
  have hsafe : w.Safe := run_invariant step_safe (started_safe maxQueue spool) h
  refine ⟨fun hsurvives event hevent => hsurvives event (hsafe.held_kept event hevent), fun hcovered event hevent => ?_⟩
  rcases hsafe.kept event hevent with hdone | hthere | hhands
  · exact Or.inl hdone
  · exact Or.inr (onDisk_spoolAfter hsafe.lines hwhole written event hthere)
  · exact hcovered event hhands

/-- Dying between two drains: the event spooled before and the one being spooled. -/
theorem kill_survives_iff_spooling :
    let event (n : Nat) : Payload := [(seqKey, ofNat n)]
    let w := run Wire.step (Wire.started 0 (some (joined [eventLine (event 1)]))) [.publish (event 2), .worker, .worker]
    w.Survives (w.kill 3) ↔ w.Covered 3 :=
  kill_survives_iff 0 _ _ 3 (by decide +kernel) (by decide +kernel)

/-- Dying right after the spool is removed loses everything in it. -/
theorem drain_kill_loses :
    let event (n : Nat) : Payload := [(seqKey, ofNat n)]
    let w := run Wire.step (Wire.started 0 (some (joined [eventLine (event 1)])))
      [.publish (event 2), .worker, .worker, .worker, .worker]
    ¬ w.Survives (w.kill 0) := by
  decide +kernel

end Wire

end FreqTrading.Copytrade
