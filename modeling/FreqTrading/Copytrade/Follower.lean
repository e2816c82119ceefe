import FreqTrading.Lib.Cursor
import FreqTrading.Copytrade.Latest
import FreqTrading.Copytrade.Delivery

/-!
# A follower

`leader/follower_example.py` polls `GET /events/latest` and prints each event with a higher number than it has seen.
The broadcaster, the leader and the follower are one system (`Copy.step`): broadcaster and leader as in
`Copytrade.Broadcast`, and the follower is a cursor (`Lib/Cursor`) that reads the last `n` lines of the leader's file.
It prints nothing twice and nothing out of order (`prints_once`), if the leader never dies inside `append`. What a poll
skips is lost: `prints_all_iff`.
-/

namespace FreqTrading.Copytrade

open Lib Lib.Json

/-! ### The follower -/

/-- The state of the loop of `main`. An event that is no object ends it with an `AttributeError`. -/
structure Follower where
  lastSeq : Nat := 0
  printed : List Text := []
  crashed : Bool := false

/-- The body of the loop over the events. -/
def Follower.see (f : Follower) (ev : Value) : Follower :=
  if f.crashed then f else
  match ev with
  | .obj event =>
    match asNat ((member seqKey event).getD (ofNat 0)) with
    | some seq => if f.lastSeq < seq then { f with lastSeq := seq, printed := f.printed ++ [dumps ev] } else f
    | none => f
  | _ => { f with crashed := true }

/-- A poll that is answered with this text. -/
def Follower.poll (f : Follower) (body : Text) : Follower :=
  match loads body with
  | none => f
  | some (.arr events) => events.foldl Follower.see f
  | some (.obj []) | some (.str []) => f
  | some _ => { f with crashed := true }

/-! ### The system -/

structure Copy where
  wire : Wire
  follower : Follower := {}

/-- Nothing is sent yet, and the leader's file is empty. -/
def Copy.started (maxQueue : Nat) (spool : Option Text) : Copy := { wire := .started maxQueue spool }

inductive CopyEvent
  | wire (e : Event)
  /-- The leader stops between two requests and starts again on its file. A leader that dies inside `append` is in
  `World.step`. -/
  | reopen
  | poll
  /-- No answer, or none that can be read. -/
  | pollFailed

/-- `n` is the follower's argument. -/
def Copy.step (n : Int) (c : Copy) : CopyEvent → Copy
  | .wire e => { c with wire := c.wire.step e }
  | .reopen => { c with wire := { c.wire with leader := .opened c.wire.leader.file } }
  | .poll => { c with follower := c.follower.poll (dumps (.arr (c.wire.leader.latestOf n))) }
  | .pollFailed => c

/-- The lines of the leader's file. -/
def Copy.log (c : Copy) : List Text := lines isBreak c.wire.leader.file

/-- No more was stored since the last poll than the follower asks for; all of the file is read if it asks for none. -/
def InWindow (n : Int) (c : Copy) : CopyEvent → Prop
  | .poll => n ≤ 0 ∨ (c.wire.leader.count : Int) ≤ c.follower.lastSeq + n
  | _ => True

instance (n : Int) (c : Copy) (e : CopyEvent) : Decidable (InWindow n c e) := by
  cases e <;> unfold InWindow <;> infer_instance

/-! ### The leader's log -/

/-- The leader stores a payload, or stays as it is. -/
inductive LeaderTurn (w w' : Wire) : Prop
  | keeps (hleader : w'.leader = w.leader) (hreceived : w'.received = w.received)
  | stores (payload : Payload) (hleader : w'.leader = w.leader.append payload)
      (hreceived : w'.received = w.received ++ [payload])

theorem step_leader (w : Wire) (e : Event) : LeaderTurn w (w.step e) := by
  cases e with
  | publish payload =>
    simp only [Wire.step, Wire.publish]
    split
    · split <;> exact .keeps rfl rfl
    · exact .keeps rfl rfl
  | producer =>
    simp only [Wire.step, Wire.producerStep]
    split
    · exact .keeps rfl rfl
    · exact .keeps rfl rfl
    · split <;> exact .keeps rfl rfl
  | close => exact .keeps rfl rfl
  | worker =>
    have hturn := w.workerStep_turns
    simp only [Wire.step]
    revert hturn
    generalize w.workerStep = w'
    intro hturn
    cases hturn <;> exact .keeps rfl rfl
  | diskFault written =>
    simp only [Wire.step, Wire.diskFault]
    split <;> exact .keeps rfl rfl
  | arrive =>
    simp only [Wire.step, Wire.arrive]
    split
    · split
      · exact .keeps rfl rfl
      · exact .stores _ rfl rfl
    · exact .keeps rfl rfl
  | answer ok stays =>
    have ha := w.answer_answered ok stays
    exact .keeps ha.leader ha.received
  | late i =>
    simp only [Wire.step, Wire.lateArrival]
    split
    · exact .stores _ rfl rfl
    · exact .keeps rfl rfl
    · exact .keeps rfl rfl
  | kill written => exact .keeps rfl rfl

/-- The number on a record. -/
def seqOf : Value → Option Nat
  | .obj event => (member seqKey event).bind asNat
  | _ => none

theorem numbers_numbered (payloads : List Payload) : Cursor.Numbers seqOf ((numbered payloads).map Value.obj) := by
  unfold Cursor.Numbers
  induction payloads using List.reverseRecOn with
  | nil => rfl
  | append_singleton payloads payload ih =>
    rw [numbered_append, List.map_append, List.map_append, ih, List.length_append, List.length_map, length_numbered]
    simp [seqOf, member_setMember, List.range'_concat, Nat.add_comm]

theorem lines_history (payloads : List Payload) :
    lines isBreak (history payloads).file = (numbered payloads).map eventLine := by
  rw [history_eq]
  refine lines_joined (by decide) fun line hline => ?_
  obtain ⟨record, -, rfl⟩ := List.mem_map.mp hline
  exact isLine_eventLine (fun _ hc => hc) record

/-- Where in a log of this length `latest` begins. -/
def windowStart (n : Int) (length : Nat) : Nat := if n ≤ 0 then 0 else length - n.toNat

theorem latestOf_history (payloads : List Payload) (n : Int) :
    (history payloads).latestOf n = ((numbered payloads).map Value.obj).drop (windowStart n payloads.length) := by
  rw [LeaderStore.latestOf, history_eq, latest_records, ← List.map_drop, lastItems, windowStart, length_numbered]
  by_cases hn : n ≤ 0
  · rw [if_pos (by omega), if_pos hn, List.drop_zero]
  · rw [if_neg (by omega), if_neg hn, max_eq_left (by omega)]

/-! ### The follower is a cursor -/

/-- What a follower shows of a cursor. -/
structure Shows (f : Follower) (c : Cursor Value) : Prop where
  alive : f.crashed = false
  last : f.lastSeq = c.last
  printed : f.printed = c.taken.map dumps

theorem Shows.see {f : Follower} {c : Cursor Value} (h : Shows f c) (event : Payload) :
    Shows (f.see (.obj event)) (c.see seqOf (.obj event)) := by
  have hseq : asNat ((member seqKey event).getD (ofNat 0)) = seqOf (.obj event) ∨
      asNat ((member seqKey event).getD (ofNat 0)) = some 0 ∧ seqOf (.obj event) = none := by
    cases hmember : member seqKey event with
    | none => exact Or.inr ⟨by simp, by simp [seqOf, hmember]⟩
    | some x => exact Or.inl (by simp [seqOf, hmember])
  unfold Follower.see Cursor.see
  rw [if_neg (by rw [h.alive]; decide)]
  simp only
  rcases hseq with hsame | ⟨hzero, hnone⟩
  · rw [hsame]
    cases seqOf (.obj event) with
    | none => exact h
    | some seq =>
      simp only [h.last]
      split
      · exact ⟨h.alive, rfl, by simp [h.printed]⟩
      · exact h
  · rw [hzero, hnone]
    simp only
    rw [if_neg (Nat.not_lt_zero _)]
    exact h

theorem Shows.poll {f : Follower} {c : Cursor Value} (h : Shows f c) (events : List Payload) :
    Shows (f.poll (dumps (.arr (events.map Value.obj)))) (c.read seqOf (events.map Value.obj)) := by
  unfold Follower.poll Cursor.read
  rw [loads_dumps]
  simp only
  induction events generalizing f c with
  | nil => exact h
  | cons event events ih => exact ih (h.see event)

/-- The leader's file holds what it received, and the follower's cursor is on it. -/
structure Following (c : Copy) (cursor : Cursor Value) : Prop where
  leader : c.wire.leader = history c.wire.received
  shows : Shows c.follower cursor
  tracks : cursor.Tracks ((numbered c.wire.received).map Value.obj)

theorem started_following (maxQueue : Nat) (spool : Option Text) : Following (.started maxQueue spool) {} :=
  ⟨rfl, ⟨rfl, rfl, rfl⟩, Cursor.tracks_start _⟩

theorem Following.log {c : Copy} {cursor : Cursor Value} (h : Following c cursor) :
    c.log = ((numbered c.wire.received).map Value.obj).map dumps := by
  rw [Copy.log, h.leader, lines_history, List.map_map]
  rfl

theorem Following.count {c : Copy} {cursor : Cursor Value} (h : Following c cursor) :
    c.wire.leader.count = c.wire.received.length := by
  rw [h.leader, LeaderStore.count, history_eq]

/-- The cursor after an event. -/
def cursorStep (n : Int) (c : Copy) (cursor : Cursor Value) : CopyEvent → Cursor Value
  | .poll => cursor.read seqOf (((numbered c.wire.received).map Value.obj).drop (windowStart n c.wire.received.length))
  | _ => cursor

theorem Following.step {c : Copy} {cursor : Cursor Value} (h : Following c cursor) (n : Int) (e : CopyEvent) :
    Following (c.step n e) (cursorStep n c cursor e) := by
  cases e with
  | wire e =>
    cases step_leader c.wire e with
    | keeps hleader hreceived =>
      refine ⟨?_, h.shows, ?_⟩
      · show (c.wire.step e).leader = history (c.wire.step e).received
        rw [hleader, hreceived]
        exact h.leader
      · show cursor.Tracks ((numbered (c.wire.step e).received).map Value.obj)
        rw [hreceived]
        exact h.tracks
    | stores payload hleader hreceived =>
      refine ⟨?_, h.shows, ?_⟩
      · show (c.wire.step e).leader = history (c.wire.step e).received
        rw [hleader, hreceived, history_append, h.leader]
      · show cursor.Tracks ((numbered (c.wire.step e).received).map Value.obj)
        rw [hreceived, numbered_append, List.map_append]
        exact h.tracks.append _
  | reopen =>
    refine ⟨?_, h.shows, h.tracks⟩
    show LeaderStore.opened c.wire.leader.file = history c.wire.received
    rw [h.leader, reopened_history]
  | poll =>
    refine ⟨h.leader, ?_, h.tracks.read (numbers_numbered _) _⟩
    show Shows (c.follower.poll (dumps (.arr (c.wire.leader.latestOf n))))
      (cursor.read seqOf (((numbered c.wire.received).map Value.obj).drop (windowStart n c.wire.received.length)))
    rw [h.leader, latestOf_history, ← List.map_drop]
    exact h.shows.poll _
  | pollFailed => exact h

theorem run_following (n : Int) {c : Copy} {cursor : Cursor Value} (h : Following c cursor) (events : List CopyEvent) :
    ∃ cursor', Following (run (Copy.step n) c events) cursor' := by
  induction events generalizing c cursor with
  | nil => exact ⟨cursor, h⟩
  | cons e events ih => exact ih (h.step n e)

/-! ### What it prints -/

theorem lineSeq_dumps {x : Value} {k : Nat} (h : seqOf x = some k) : lineSeq (dumps x) = k := by
  cases x with
  | obj event =>
    obtain ⟨seq, hmember, hseq⟩ := Option.bind_eq_some_iff.mp h
    unfold lineSeq
    rw [show dumps (.obj event) = eventLine event from rfl, strip_eventLine, loads_eventLine]
    simp [hmember, hseq]
  | atom | str | arr => cases h

theorem Following.numbers {c : Copy} {cursor : Cursor Value} (h : Following c cursor) :
    (c.log.map lineSeq) = List.range' 1 c.log.length := by
  have hnumbers := numbers_numbered c.wire.received
  unfold Cursor.Numbers at hnumbers
  rw [h.log, List.length_map, List.map_map]
  generalize (numbered c.wire.received).map Value.obj = records at hnumbers
  refine List.map_injective_iff.mpr (Option.some_injective Nat) ?_
  rw [← hnumbers, List.map_map]
  refine List.map_congr_left fun x hx => ?_
  have hsome : ∃ k, seqOf x = some k := by
    have hmem : seqOf x ∈ records.map seqOf := List.mem_map_of_mem hx
    rw [hnumbers] at hmem
    obtain ⟨k, -, hk⟩ := List.mem_map.mp hmem
    exact ⟨k, hk.symm⟩
  obtain ⟨k, hk⟩ := hsome
  show some (lineSeq (dumps x)) = seqOf x
  rw [lineSeq_dumps hk, hk]

theorem Following.sublist {c : Copy} {cursor : Cursor Value} (h : Following c cursor) :
    c.follower.printed.Sublist (c.log.take c.follower.lastSeq) := by
  rw [h.shows.printed, h.log, h.shows.last, ← List.map_take]
  exact h.tracks.taken.map dumps

/-- **The follower prints lines of the leader's file, in order, and no number twice**, for every interleaving of the
broadcaster (its crashes and its disk faults included), the network, the polls and clean restarts of the leader. -/
theorem prints_once (maxQueue : Nat) (spool : Option Text) (n : Int) (events : List CopyEvent) :
    let c := run (Copy.step n) (.started maxQueue spool) events
    c.follower.crashed = false ∧ c.follower.printed.Sublist c.log ∧
      (c.follower.printed.map lineSeq).Pairwise (· < ·) := by
  intro c
  obtain ⟨cursor, h⟩ := run_following n (started_following maxQueue spool) events
  have hsub : c.follower.printed.Sublist c.log := h.sublist.trans (List.take_sublist _ _)
  refine ⟨h.shows.alive, hsub, ?_⟩
  have hnumbers : (c.log.map lineSeq).Pairwise (· < ·) := by
    rw [h.numbers]
    exact List.pairwise_lt_range'
  exact hnumbers.sublist (hsub.map lineSeq)

/-- A restart of the leader and a poll that fails, between two polls that overlap. -/
example :
    let event (n : Nat) : Payload := [(eventIdKey, ofNat n)]
    let c := run (Copy.step 2) (.started 0 none)
      [.wire (.publish (event 1)), .wire .worker, .wire .worker, .wire .arrive, .poll, .reopen, .pollFailed, .poll]
    c.follower.printed.map lineSeq = [1] := by decide +kernel

/-! ### What it skips -/

/-- The follower printed everything up to its number. -/
def Copy.PrintedAll (c : Copy) : Prop := c.follower.printed = c.log.take c.follower.lastSeq

theorem Following.printedAll_iff {c : Copy} {cursor : Cursor Value} (h : Following c cursor) :
    c.PrintedAll ↔ cursor.taken = ((numbered c.wire.received).map Value.obj).take cursor.last := by
  unfold Copy.PrintedAll
  rw [h.shows.printed, h.log, h.shows.last, ← List.map_take]
  exact (List.map_injective_iff.mpr fun _ _ => dumps_injective).eq_iff

theorem Following.step_printedAll {c : Copy} {cursor : Cursor Value} (h : Following c cursor) (n : Int) (e : CopyEvent) :
    (c.step n e).PrintedAll ↔ c.PrintedAll ∧ InWindow n c e := by
  rw [(h.step n e).printedAll_iff, h.printedAll_iff]
  cases e with
  | wire e =>
    have hle : cursor.last ≤ ((numbered c.wire.received).map Value.obj).length := h.tracks.le
    have hlog : ((numbered (c.wire.step e).received).map Value.obj).take cursor.last =
        ((numbered c.wire.received).map Value.obj).take cursor.last := by
      cases step_leader c.wire e with
      | keeps hleader hreceived => rw [hreceived]
      | stores payload hleader hreceived =>
        rw [hreceived, numbered_append, List.map_append, List.take_append_of_le_length hle]
    show cursor.taken = ((numbered (c.wire.step e).received).map Value.obj).take cursor.last ↔ _
    rw [hlog]
    exact (and_iff_left trivial).symm
  | reopen | pollFailed => exact (and_iff_left trivial).symm
  | poll =>
    have hlength : ((numbered c.wire.received).map Value.obj).length = c.wire.received.length := by simp
    have hstart : windowStart n c.wire.received.length < ((numbered c.wire.received).map Value.obj).length ∨
        (numbered c.wire.received).map Value.obj = [] := by
      rw [← List.length_eq_zero_iff, hlength, windowStart]
      split <;> omega
    refine (h.tracks.read_complete_iff (numbers_numbered _) hstart).trans (and_congr_right' ?_)
    have hle := h.tracks.le
    rw [hlength] at hle ⊢
    simp only [InWindow, h.count, h.shows.last, windowStart]
    split <;> omega

/-- **The follower prints the whole of the log up to its number exactly if no poll finds more new events than it asks
for.** An event a poll skips is not printed later. -/
theorem prints_all_iff (maxQueue : Nat) (spool : Option Text) (n : Int) (events : List CopyEvent) :
    (run (Copy.step n) (.started maxQueue spool) events).PrintedAll ↔
      StepsMeet (Copy.step n) (InWindow n) (.started maxQueue spool) events := by
  have hstart : Copy.PrintedAll (.started maxQueue spool) := rfl
  refine (run_iff_stepsMeet (I := fun c => ∃ cursor, Following c cursor) ?_ ?_
    ⟨{}, started_following maxQueue spool⟩).trans (and_iff_right hstart)
  · rintro c e ⟨cursor, h⟩
    exact ⟨_, h.step n e⟩
  · rintro c e ⟨cursor, h⟩
    exact h.step_printedAll n e

/-! ### From the broadcaster to the follower -/

/-- No crash of the broadcaster, and no failure of its disk. -/
def CopyEvent.Healthy : CopyEvent → Prop
  | .wire e => e.Healthy
  | _ => True

/-- The follower printed a record of the payload, or it is still with the broadcaster, or was dropped. -/
def Copy.Arrived (c : Copy) (payload : Payload) : Prop :=
  (∃ record, RecordOf record payload ∧ eventLine record ∈ c.follower.printed) ∨ payload ∈ c.wire.queue ∨
    .obj payload ∈ c.wire.worker.hands ∨ .obj payload ∈ c.wire.onDisk ∨ payload ∈ c.wire.discarded

def Copy.printedIds (c : Copy) : List (Option Value) := (c.follower.printed.filterMap loads).map eventId

theorem run_delivering (n : Int) (maxQueue : Nat) {events : List CopyEvent} (healthy : ∀ e ∈ events, e.Healthy) :
    ∃ cursor, Following (run (Copy.step n) (.started maxQueue none) events) cursor ∧
      Delivering (run (Copy.step n) (.started maxQueue none) events).wire := by
  have hstep : ∀ c e, ((∃ cursor, Following c cursor) ∧ Delivering c.wire) → e.Healthy →
      (∃ cursor, Following (c.step n e) cursor) ∧ Delivering (c.step n e).wire := by
    rintro c e ⟨⟨cursor, hfollowing⟩, hdelivering⟩ hhealthy
    refine ⟨⟨_, hfollowing.step n e⟩, ?_⟩
    cases e with
    | wire e => exact step_delivering hdelivering hhealthy
    | reopen =>
      have hsame : LeaderStore.opened c.wire.leader.file = c.wire.leader := by
        rw [hfollowing.leader, reopened_history]
      show Delivering { c.wire with leader := LeaderStore.opened c.wire.leader.file }
      rw [hsame]
      exact hdelivering
    | poll | pollFailed => exact hdelivering
  obtain ⟨⟨cursor, hfollowing⟩, hdelivering⟩ := run_invariant (fun c e => hstep c e)
    ⟨⟨{}, started_following maxQueue none⟩, started_delivering maxQueue⟩ (stepsMeet_of_forall healthy)
  exact ⟨cursor, hfollowing, hdelivering⟩

/-- All events of the log, as `latest` lists them. -/
theorem Following.latest {c : Copy} {cursor : Cursor Value} (h : Following c cursor) {n : Nat}
    (hn : c.wire.leader.count ≤ n) : c.wire.leader.latest n = (numbered c.wire.received).map Value.obj := by
  rw [h.count] at hn
  rw [h.leader, history_eq, latest_records, lastItems_all (by rw [length_numbered]; exact hn)]

theorem Following.printed_events {c : Copy} {cursor : Cursor Value} (h : Following c cursor) (hall : c.PrintedAll) :
    c.follower.printed.filterMap loads = ((numbered c.wire.received).map Value.obj).take c.follower.lastSeq := by
  unfold Copy.PrintedAll at hall
  rw [hall, h.log, ← List.map_take, List.filterMap_map]
  simp [loads_dumps]

/-- **What was published reaches the follower, for the first time in the order of publishing.** For every interleaving
of the broadcaster's threads, the network, the leader and the polls, in which no poll finds more than it asks for. -/
theorem copied (maxQueue : Nat) (n : Int) (events : List CopyEvent) (healthy : ∀ e ∈ events, e.Healthy)
    (window : StepsMeet (Copy.step n) (InWindow n) (.started maxQueue none) events) :
    let c := run (Copy.step n) (.started maxQueue none) events
    (publishedIds c.wire.published).Nodup →
      (firsts c.printedIds).Sublist (publishedIds c.wire.published) ∧
        (c.follower.lastSeq = c.wire.leader.count → ∀ payload ∈ c.wire.published, c.Arrived payload) := by
  intro c hids
  obtain ⟨cursor, h, hdelivering⟩ := run_delivering n maxQueue healthy
  have hall : c.PrintedAll := by
    refine (run_iff_stepsMeet (I := fun c => ∃ cursor, Following c cursor) ?_ ?_
      ⟨{}, started_following maxQueue none⟩).mpr ⟨rfl, window⟩
    · rintro c e ⟨cursor, h⟩
      exact ⟨_, h.step n e⟩
    · rintro c e ⟨cursor, h⟩
      exact h.step_printedAll n e
  constructor
  · have horder := hdelivering.listedInOrder hids c.wire.leader.count le_rfl
    rw [h.latest le_rfl] at horder
    rw [Copy.printedIds, h.printed_events hall, List.map_take]
    exact (firsts_take_sublist _ _).trans horder
  · intro hend payload hin
    rcases hdelivering.located hids hin with ⟨record, hrecord, hlisted⟩ | hrest
    · refine Or.inl ⟨record, hrecord, ?_⟩
      have hmem := hlisted c.wire.leader.count le_rfl
      rw [h.latest le_rfl] at hmem
      have hline : eventLine record ∈ c.log := by
        rw [h.log]
        exact List.mem_map_of_mem hmem
      unfold Copy.PrintedAll at hall
      rw [hall, hend, h.count, List.take_of_length_le (by rw [h.log]; simp)]
      exact hline
    · exact Or.inr hrest

/-- The first event is spooled and reaches the leader late, then it is sent again from the spool with the second one; the
leader starts again between two polls. -/
def retold : List CopyEvent :=
  let event (n : Nat) : Payload := [(eventIdKey, ofNat n)]
  [.wire (.publish (event 1)), .wire .worker, .wire .worker, .wire (.answer false true), .wire .worker, .wire (.late 0),
    .poll, .reopen, .wire (.publish (event 2)), .wire .worker, .wire .worker, .wire .worker, .wire .worker, .wire .worker,
    .wire .arrive, .wire (.answer true true), .wire .worker, .wire .arrive, .wire (.answer true true), .pollFailed, .poll]

theorem copied_retold :
    let c := run (Copy.step 2) (.started 0 none) retold
    (firsts c.printedIds).Sublist (publishedIds c.wire.published) ∧ ∀ payload ∈ c.wire.published, c.Arrived payload := by
  have h := copied 0 2 retold (by simp [retold, CopyEvent.Healthy, Event.Healthy]) (by decide +kernel) (by decide +kernel)
  exact ⟨h.1, h.2 (by decide +kernel)⟩

end FreqTrading.Copytrade
