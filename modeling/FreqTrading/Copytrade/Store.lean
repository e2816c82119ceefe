import FreqTrading.Lib.Run
import FreqTrading.Lib.Json

/-!
# The leader's event store

`leader/store.py`: a file with one JSON event a line, each with the sequence number the store gave it. A
process that dies inside `append` leaves a part of the line it was writing. `World` keeps, beside the store,
the events whose `append` returned.
-/

namespace FreqTrading.Copytrade

open Lib Lib.Json

abbrev Payload := List (Str × Value)

def seqKey : Str := Str.ofText "seq".toList

/-- One event as a line of a file, without the end of the line. -/
def eventLine (event : Payload) : Text := dumps (.obj event)

/-! ### The store -/

structure LeaderStore where
  file : Text
  seq : Nat

/-- The sequence number on a line; 0 for a line that is not an event with one. -/
def lineSeq (line : Text) : Nat :=
  match loads (strip line) with
  | some (.obj event) => ((member seqKey event).bind asNat).getD 0
  | _ => 0

def higherSeq (last : Nat) (line : Text) : Nat := if last < lineSeq line then lineSeq line else last

def loadLastSeq (file : Text) : Nat := (lines isNewline file).foldl higherSeq 0

/-- `LeaderStore(path)`. -/
def LeaderStore.opened (file : Text) : LeaderStore := ⟨file, loadLastSeq file⟩

/-- What `append` stores of a payload. -/
def LeaderStore.record (store : LeaderStore) (payload : Payload) : Payload :=
  setMember seqKey (ofNat (store.seq + 1)) payload

def LeaderStore.append (store : LeaderStore) (payload : Payload) : LeaderStore where
  file := store.file ++ (eventLine (store.record payload) ++ ['\n'])
  seq := store.seq + 1

def LeaderStore.latest (store : LeaderStore) (n : Nat) : List Value :=
  (lastItems n (lines isBreak store.file)).filterMap loads

def LeaderStore.count (store : LeaderStore) : Nat := store.seq

/-! ### Histories -/

inductive Op
  | append (payload : Payload)
  /-- The process dies inside `append`, after `written` characters of the line, and the store is reopened. -/
  | crash (payload : Payload) (written : Nat)
  | reopen

/-- The store, and the events whose `append` returned with the number it returned, oldest first. -/
structure World where
  store : LeaderStore
  acked : List (Nat × Payload)

def World.opened (file : Text) : World := ⟨.opened file, []⟩

def World.step (w : World) : Op → World
  | .append payload => ⟨w.store.append payload, w.acked ++ [(w.store.seq + 1, w.store.record payload)]⟩
  | .crash payload written => ⟨.opened (w.store.file ++ (eventLine (w.store.record payload) ++ ['\n']).take written), w.acked⟩
  | .reopen => ⟨.opened w.store.file, w.acked⟩

/-- An `append` that returns finds no torn line at the end of the file. -/
def AfterWholeLine (w : World) : Op → Prop
  | .append _ => Terminated isNewline w.store.file
  | _ => True

instance (w : World) (op : Op) : Decidable (AfterWholeLine w op) := by
  cases op <;> unfold AfterWholeLine <;> infer_instance

/-- Everything acknowledged is returned by `latest`, oldest first. -/
def World.Returned (w : World) : Prop :=
  ∃ enough, ∀ n, enough ≤ n → (w.acked.map fun a => Value.obj a.2).Sublist (w.store.latest n)

/-- No acknowledged number was given out before. -/
def World.Increasing (w : World) : Prop := (w.acked.map (·.1)).Pairwise (· < ·)

/-! ### One line -/

theorem isBreak_of_isNewline {c : Char} (h : isNewline c = true) : isBreak c = true := by
  simp only [isNewline, Bool.or_eq_true, decide_eq_true_eq] at h
  rcases h with rfl | rfl <;> decide

theorem isBreak_printable {c : Char} (h : isPrintable c = true) : isBreak c = false := by
  simp only [isPrintable, Bool.and_eq_true, decide_eq_true_eq] at h
  simp only [isBreak, List.contains_eq_mem, List.mem_cons, List.not_mem_nil, or_false, decide_eq_false_iff_not]
  omega

theorem eventLine_printable (event : Payload) : ∀ c ∈ eventLine event, isPrintable c = true :=
  dumps_printable _

theorem eventLine_brace (event : Payload) : ∃ c ∈ eventLine event, isBlank c = false :=
  ⟨'\x7b', by simp [eventLine, dumps], by decide⟩

theorem isLine_eventLine {p : Char → Bool} (hp : ∀ c, p c = true → isBreak c = true) (event : Payload) :
    IsLine p (eventLine event) := by
  refine ⟨fun c hc => ?_, eventLine_brace event⟩
  by_contra hne
  have hbreak := hp c (by simpa using hne)
  rw [isBreak_printable (eventLine_printable event c hc)] at hbreak
  cases hbreak

theorem lines_eventLine {p : Char → Bool} (hp : ∀ c, p c = true → isBreak c = true) (hend : p '\n' = true)
    (event : Payload) : lines p (eventLine event ++ ['\n']) = [eventLine event] :=
  lines_line hend (isLine_eventLine hp event).1 (isLine_eventLine hp event).2

theorem strip_eventLine (event : Payload) : strip (eventLine event) = eventLine event := by
  have hlast : (eventLine event).getLast? = some '\x7d' := by
    simp [eventLine, dumps, List.getLast?_cons]
  refine strip_eq (fun c hc => ?_) fun c hc => ?_
  · simp only [eventLine, dumps, List.head?_cons, Option.mem_def, Option.some.injEq] at hc
    subst hc
    decide
  · simp only [hlast, Option.mem_def, Option.some.injEq] at hc
    subst hc
    decide

theorem loads_eventLine (event : Payload) : loads (eventLine event) = some (.obj event) := loads_dumps _

theorem lineSeq_eventLine {event : Payload} {n : Nat} (h : member seqKey event = some (ofNat n)) :
    lineSeq (eventLine event) = n := by
  simp [lineSeq, strip_eventLine, loads_eventLine, h]

theorem latest_records (records : List Payload) (seq n : Nat) :
    (LeaderStore.mk (joined (records.map eventLine)) seq).latest n = (lastItems n records).map Value.obj := by
  have hlines : lines isBreak (joined (records.map eventLine)) = records.map eventLine := by
    refine lines_joined (by decide) fun line hline => ?_
    obtain ⟨record, -, rfl⟩ := List.mem_map.mp hline
    exact isLine_eventLine (fun _ hc => hc) record
  rw [LeaderStore.latest, hlines, lastItems_map, List.filterMap_map]
  simp [loads_eventLine]

/-! ### Scanning the file -/

theorem le_higherSeq (last : Nat) (line : Text) : last ≤ higherSeq last line ∧ lineSeq line ≤ higherSeq last line := by
  unfold higherSeq
  split <;> omega

theorem le_foldl_higherSeq (texts : List Text) (last : Nat) : last ≤ texts.foldl higherSeq last := by
  induction texts generalizing last with
  | nil => exact Nat.le_refl _
  | cons t texts ih => exact Nat.le_trans (le_higherSeq last t).1 (ih _)

theorem lineSeq_le_foldl {texts : List Text} {line : Text} (h : line ∈ texts) (last : Nat) :
    lineSeq line ≤ texts.foldl higherSeq last := by
  induction texts generalizing last with
  | nil => cases h
  | cons t texts ih =>
    rcases List.mem_cons.mp h with rfl | h
    · exact Nat.le_trans (le_higherSeq last line).2 (le_foldl_higherSeq texts _)
    · exact ih h _

theorem lineSeq_le_loadLastSeq {file line : Text} (h : line ∈ lines isNewline file) : lineSeq line ≤ loadLastSeq file :=
  lineSeq_le_foldl h 0

/-! ### The invariant -/

/-- The file is whole lines, among them every acknowledged event in order, and what comes after them. -/
structure Durable (w : World) : Prop where
  whole : ∃ body tail, w.store.file = body ++ tail ∧ Terminated isNewline body ∧
    (w.acked.map fun a => eventLine a.2).Sublist (lines isBreak body) ∧
    (w.acked.map fun a => eventLine a.2).Sublist (lines isNewline body)
  numbered : ∀ a ∈ w.acked, member seqKey a.2 = some (ofNat a.1)
  given : ∀ a ∈ w.acked, a.1 ≤ w.store.seq
  increasing : w.Increasing

theorem terminated_isBreak {t : Text} (h : Terminated isNewline t) : Terminated isBreak t :=
  fun c hc => isBreak_of_isNewline (h c hc)

theorem Durable.sublist {w : World} (h : Durable w) :
    (w.acked.map fun a => eventLine a.2).Sublist (lines isBreak w.store.file) ∧
      (w.acked.map fun a => eventLine a.2).Sublist (lines isNewline w.store.file) := by
  obtain ⟨body, tail, hfile, hbody, hbreak, hnewline⟩ := h.whole
  rw [hfile, lines_append (terminated_isBreak hbody), lines_append hbody]
  exact ⟨hbreak.trans (List.sublist_append_left _ _), hnewline.trans (List.sublist_append_left _ _)⟩

theorem opened_durable (file : Text) : Durable (World.opened file) where
  whole := ⟨[], file, rfl, terminated_nil, by simp [World.opened], by simp [World.opened]⟩
  numbered := by simp [World.opened]
  given := by simp [World.opened]
  increasing := by simp [World.opened, World.Increasing]

theorem Durable.reopen {w : World} (h : Durable w) (torn : Text) :
    Durable ⟨.opened (w.store.file ++ torn), w.acked⟩ := by
  obtain ⟨body, tail, hfile, hbody, hbreak, hnewline⟩ := h.whole
  refine ⟨⟨body, tail ++ torn, ?_, hbody, hbreak, hnewline⟩, h.numbered, fun a ha => ?_, h.increasing⟩
  · simp [LeaderStore.opened, hfile]
  · have hline : eventLine a.2 ∈ lines isNewline (w.store.file ++ torn) := by
      rw [hfile, List.append_assoc, lines_append hbody]
      exact List.mem_append_left _ (hnewline.subset (List.mem_map_of_mem ha))
    have hseq := lineSeq_le_loadLastSeq hline
    rwa [lineSeq_eventLine (h.numbered a ha)] at hseq

theorem Durable.append {w : World} (h : Durable w) (hwhole : Terminated isNewline w.store.file) (payload : Payload) :
    Durable (w.step (.append payload)) := by
  obtain ⟨hbreak, hnewline⟩ := h.sublist
  refine ⟨⟨w.store.file ++ (eventLine (w.store.record payload) ++ ['\n']), [], ?_, ?_, ?_, ?_⟩, ?_, ?_, ?_⟩
  · simp [World.step, LeaderStore.append]
  · rw [← List.append_assoc]
    exact terminated_concat _ (by decide)
  · rw [lines_append (terminated_isBreak hwhole), lines_eventLine (fun _ hc => hc) (by decide)]
    simpa [World.step] using hbreak.append (List.Sublist.refl [eventLine (w.store.record payload)])
  · rw [lines_append hwhole, lines_eventLine (fun _ hc => isBreak_of_isNewline hc) (by decide)]
    simpa [World.step] using hnewline.append (List.Sublist.refl [eventLine (w.store.record payload)])
  · intro a ha
    rcases List.mem_append.mp ha with ha | ha
    · exact h.numbered a ha
    · obtain rfl := List.mem_singleton.mp ha
      exact member_setMember _ _ _
  · intro a ha
    rcases List.mem_append.mp ha with ha | ha
    · exact Nat.le_succ_of_le (h.given a ha)
    · obtain rfl := List.mem_singleton.mp ha
      exact Nat.le_refl _
  · have hinc := h.increasing
    simp only [World.Increasing, World.step, List.map_append, List.map_cons, List.map_nil] at hinc ⊢
    rw [List.pairwise_append]
    refine ⟨hinc, List.pairwise_singleton _ _, fun n hn m hm => ?_⟩
    obtain ⟨a, ha, rfl⟩ := List.mem_map.mp hn
    obtain rfl := List.mem_singleton.mp hm
    exact Nat.lt_succ_of_le (h.given a ha)

theorem step_durable (w : World) (op : Op) (h : Durable w) (hop : AfterWholeLine w op) : Durable (w.step op) := by
  cases op with
  | append payload => exact h.append hop payload
  | crash payload written => exact h.reopen _
  | reopen =>
    have hopened := h.reopen []
    rwa [List.append_nil] at hopened

theorem Durable.returned {w : World} (h : Durable w) : w.Returned := by
  refine ⟨(lines isBreak w.store.file).length, fun n hn => ?_⟩
  have hsub := h.sublist.1.filterMap loads
  rw [LeaderStore.latest, lastItems_all hn]
  simpa [List.filterMap_map, Function.comp_def, loads_eventLine] using hsub

/-- **What was acknowledged stays readable, under numbers of its own.** Over every history of appends,
crashes and reopenings in which no append starts behind a torn line. -/
theorem acknowledged_returned (file : Text) (ops : List Op)
    (h : StepsMeet World.step AfterWholeLine (World.opened file) ops) :
    (run World.step (World.opened file) ops).Returned ∧ (run World.step (World.opened file) ops).Increasing := by
  have hdurable : Durable (run World.step (World.opened file) ops) :=
    run_invariant step_durable (opened_durable file) h
  exact ⟨hdurable.returned, hdurable.increasing⟩

theorem acknowledged_returned_crash :
    let ops : List Op := [.append [], .crash [] 0, .append [], .crash [] 7, .reopen]
    (run World.step (World.opened []) ops).Returned ∧ (run World.step (World.opened []) ops).Increasing :=
  acknowledged_returned [] _ (by decide +kernel)

/-- The line after a torn one is lost with it, and its number is given out again after the next reopening. -/
theorem torn_line_loses_next :
    let w := run World.step (World.opened []) [.append [], .crash [] 3, .append [], .reopen, .append []]
    ¬ w.Returned ∧ ¬ w.Increasing := by
  intro w
  refine ⟨fun ⟨enough, hreturned⟩ => ?_, ?_⟩
  · have hlines : (lines isBreak w.store.file).length ≤ enough + 3 := Nat.le_add_left_of_le (by decide +kernel)
    have hlength := (hreturned (enough + 3) (by omega)).length_le
    rw [LeaderStore.latest, lastItems_all hlines] at hlength
    revert hlength
    decide +kernel
  · unfold World.Increasing
    decide +kernel

end FreqTrading.Copytrade
