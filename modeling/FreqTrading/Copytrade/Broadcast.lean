import FreqTrading.Copytrade.Store

/-!
# The broadcaster

`orb/broadcast.py`: `publish` puts events on a bounded queue, and a worker thread posts them to the leader,
through a spool file when a post fails. The two threads, the network and the leader take their steps in any
order (`Wire.step`); a request counts as answered with 2xx only after the leader stored its event, which is
what `leader/server.py` does. What `json.dumps` makes of a payload is a `Payload`.
-/

namespace FreqTrading.Copytrade

open Lib Lib.Json

/-! ### The two threads -/

/-- Where the producer is in `publish`. -/
inductive Producer
  | ready
  /-- The queue was full, and the oldest event is about to be dropped. -/
  | full (payload : Payload)
  /-- About to put the payload on the queue a second time. -/
  | again (payload : Payload)

/-- Where the worker is in `_run`. -/
inductive Worker
  | idle
  | stopped
  /-- `_handle`, before it looks for a backlog. -/
  | handling (payload : Payload)
  /-- `_send` of an event that did not go through the spool. -/
  | sending (payload : Payload)
  /-- `_spool`, and `_drain_spool` after it if `drains`. -/
  | spooling (payload : Payload) (drains : Bool)
  /-- `_drain_spool`, before it reads the file. -/
  | draining
  /-- The file is removed, and these of its lines are still to be sent. -/
  | replaying (lines : List Text)
  /-- `_send` of the event on the first of these lines. -/
  | resending (event : Value) (line : Text) (rest : List Text)
  /-- Writing the lines back. -/
  | respooling (lines : List Text)

/-- The event of the request the worker waits for. -/
def Worker.request : Worker → Option Value
  | .sending payload => some (.obj payload)
  | .resending event _ _ => some event
  | _ => none

/-- The text the worker is about to append to the spool. -/
def Worker.output : Worker → Option Text
  | .spooling payload _ => some (joined [eventLine payload])
  | .respooling lines => some (joined lines)
  | _ => none

/-- The events on the lines of a spool file. -/
def eventsOf (t : Text) : List Value := (lines isBreak t).filterMap loads

/-- The events the worker alone has. -/
def Worker.hands : Worker → List Value
  | .handling payload | .sending payload | .spooling payload _ => [.obj payload]
  | .replaying lines | .respooling lines => lines.filterMap loads
  | .resending event _ rest => event :: rest.filterMap loads
  | _ => []

structure Broadcaster where
  maxQueue : Nat
  queue : List Payload := []
  producer : Producer := .ready
  worker : Worker := .idle
  stop : Bool := false
  dropped : Nat := 0
  sent : Nat := 0
  spooled : Nat := 0
  /-- The spool file, if it exists. -/
  spool : Option Text

/-- `put_nowait` succeeds; a queue without a bound always has room. -/
def Broadcaster.hasRoom (b : Broadcaster) : Bool := b.maxQueue = 0 || b.queue.length < b.maxQueue

def Broadcaster.spoolText (b : Broadcaster) : Text := b.spool.getD []

def Broadcaster.spoolBacklog (b : Broadcaster) : Bool := b.spoolText ≠ []

/-- The spool after the first `written` characters of what the worker appends. -/
def Broadcaster.spoolAfter (b : Broadcaster) (written : Nat) : Option Text :=
  match b.worker.output with
  | some t => some (b.spoolText ++ t.take written)
  | none => b.spool

/-! ### The wire -/

/-- A broadcaster, its leader, and the requests in between; the lists after `late` are its history. -/
structure Wire extends Broadcaster where
  leader : LeaderStore
  /-- The leader has stored the event of the request the worker waits for. -/
  arrived : Bool := false
  /-- Requests the worker gave up that may still arrive. -/
  late : List Value := []
  /-- Put on the queue or dropped, in the order of the `publish` calls. -/
  published : List Payload := []
  discarded : List Payload := []
  /-- Taken from the queue by the worker. -/
  taken : List Payload := []
  /-- Answered with 2xx. -/
  acked : List Value := []
  /-- Stored by the leader. -/
  received : List Payload := []
  /-- On disk in the spool at some time. -/
  kept : List Value

/-- A broadcaster and a leader whose file is empty. -/
def Wire.started (maxQueue : Nat) (spool : Option Text) : Wire :=
  { maxQueue, spool, leader := .opened [], kept := eventsOf (spool.getD []) }

inductive Event
  | publish (payload : Payload)
  /-- The producer goes on inside `publish`. -/
  | producer
  | close
  | worker
  /-- A worker step whose disk operation fails after writing so many characters. -/
  | diskFault (written : Nat)
  /-- The request the worker waits for reaches the leader. -/
  | arrive
  /-- The worker gets a reply, 2xx or not, or an exception; a request given up may stay under way. -/
  | answer (ok stays : Bool)
  /-- A request the worker gave up reaches the leader. -/
  | late (i : Nat)
  /-- The process dies with so many characters of the worker's output written, and another one starts. -/
  | kill (written : Nat)

namespace Wire

/-! ### `publish` -/

def put (w : Wire) (payload : Payload) : Wire :=
  { w with queue := w.queue ++ [payload], published := w.published ++ [payload], producer := .ready }

def publish (w : Wire) (payload : Payload) : Wire :=
  match w.producer with
  | .ready => if w.hasRoom then w.put payload else { w with producer := .full payload }
  | _ => w

def producerStep (w : Wire) : Wire :=
  match w.producer with
  | .ready => w
  | .full payload =>
    { w with
      queue := w.queue.tail, discarded := w.discarded ++ w.queue.head?.toList, dropped := w.dropped + 1,
      producer := .again payload }
  | .again payload =>
    if w.hasRoom then w.put payload
    else
      { w with
        published := w.published ++ [payload], discarded := w.discarded ++ [payload], dropped := w.dropped + 1,
        producer := .ready }

/-! ### The worker -/

def workerStep (w : Wire) : Wire :=
  match w.worker with
  | .idle =>
    match w.queue with
    | [] => if w.stop then { w with worker := .stopped } else w
    | payload :: queue => { w with queue, worker := .handling payload, taken := w.taken ++ [payload] }
  | .handling payload =>
    if w.spoolBacklog then { w with worker := .spooling payload true }
    else { w with worker := .sending payload, arrived := false }
  | .spooling payload drains =>
    { w with
      spool := some (w.spoolText ++ joined [eventLine payload]), spooled := w.spooled + 1,
      worker := if drains then .draining else .idle, kept := w.kept ++ [.obj payload] }
  | .draining =>
    match w.spool with
    | none => { w with worker := .idle }
    | some text => { w with spool := none, worker := .replaying (lines isBreak text) }
  | .replaying [] => { w with worker := .idle }
  | .replaying (line :: rest) =>
    match loads line with
    | none => { w with worker := .replaying rest }
    | some event => { w with worker := .resending event line rest, arrived := false }
  | .respooling lines => { w with spool := some (w.spoolText ++ joined lines), worker := .idle }
  | .sending _ | .resending _ _ _ | .stopped => w

/-- The disk operation of the worker's step raises `OSError`, which is logged. -/
def diskFault (w : Wire) (written : Nat) : Wire :=
  match w.worker with
  | .handling payload => { w with worker := .sending payload, arrived := false }
  | .spooling _ drains =>
    { w with
      spool := w.spoolAfter written, worker := if drains then .draining else .idle
      kept := w.kept ++ eventsOf ((w.spoolAfter written).getD []) }
  | .draining => { w with worker := .idle }
  | .respooling _ =>
    { w with
      spool := w.spoolAfter written, worker := .idle, kept := w.kept ++ eventsOf ((w.spoolAfter written).getD []) }
  | _ => w

/-! ### The network -/

/-- `do_POST` of an event that passes the checks: the leader stores objects only. -/
def receive (w : Wire) (payload : Payload) : Wire :=
  { w with leader := w.leader.append payload, received := w.received ++ [payload] }

def arrive (w : Wire) : Wire :=
  match w.worker.request with
  | some (.obj payload) => if w.arrived then w else { w.receive payload with arrived := true }
  | _ => w

/-- The request is given up; one that has not arrived may still be under way. -/
def giveUp (w : Wire) (event : Value) (stays : Bool) : List Value :=
  if stays && !w.arrived then w.late ++ [event] else w.late

def answer (w : Wire) (ok stays : Bool) : Wire :=
  match w.worker with
  | .sending payload =>
    if ok && w.arrived then
      { w with sent := w.sent + 1, acked := w.acked ++ [.obj payload], worker := .draining }
    else { w with worker := .spooling payload false, late := w.giveUp (.obj payload) stays }
  | .resending event line rest =>
    if ok && w.arrived then { w with sent := w.sent + 1, acked := w.acked ++ [event], worker := .replaying rest }
    else { w with worker := .respooling (line :: rest), late := w.giveUp event stays }
  | _ => w

def lateArrival (w : Wire) (i : Nat) : Wire :=
  match w.late[i]? with
  | some (.obj payload) => { w.receive payload with late := w.late.eraseIdx i }
  | some _ => { w with late := w.late.eraseIdx i }
  | none => w

/-- What is on disk, at the leader and on the network stays. -/
def kill (w : Wire) (written : Nat) : Wire :=
  { w with
    toBroadcaster := { maxQueue := w.maxQueue, spool := w.spoolAfter written }
    arrived := false
    late := if w.arrived then w.late else w.late ++ w.worker.request.toList
    kept := w.kept ++ eventsOf ((w.spoolAfter written).getD []) }

def step (w : Wire) : Event → Wire
  | .publish payload => w.publish payload
  | .producer => w.producerStep
  | .close => { w with stop := true }
  | .worker => w.workerStep
  | .diskFault written => w.diskFault written
  | .arrive => w.arrive
  | .answer ok stays => w.answer ok stays
  | .late i => w.lateArrival i
  | .kill written => w.kill written

/-! ### Where the events are -/

def onDisk (w : Wire) : List Value := eventsOf w.spoolText

/-- Taken from the queue and not answered with 2xx, in the order in which they are sent. -/
def pending (w : Wire) : List Value := w.onDisk ++ w.worker.hands

/-! ### What the worker alone changes -/

/-- The worker and what it does to the disk is as it was. -/
structure SameWorker (w w' : Wire) : Prop where
  worker : w'.worker = w.worker
  spool : w'.spool = w.spool
  acked : w'.acked = w.acked
  taken : w'.taken = w.taken
  kept : w'.kept = w.kept

theorem publish_sameWorker (w : Wire) (payload : Payload) : SameWorker w (w.publish payload) := by
  unfold publish
  split
  · split <;> exact ⟨rfl, rfl, rfl, rfl, rfl⟩
  · exact ⟨rfl, rfl, rfl, rfl, rfl⟩

theorem producerStep_sameWorker (w : Wire) : SameWorker w w.producerStep := by
  unfold producerStep
  split
  · exact ⟨rfl, rfl, rfl, rfl, rfl⟩
  · exact ⟨rfl, rfl, rfl, rfl, rfl⟩
  · split <;> exact ⟨rfl, rfl, rfl, rfl, rfl⟩

theorem arrive_sameWorker (w : Wire) : SameWorker w w.arrive := by
  unfold arrive
  split
  · split <;> exact ⟨rfl, rfl, rfl, rfl, rfl⟩
  · exact ⟨rfl, rfl, rfl, rfl, rfl⟩

theorem lateArrival_sameWorker (w : Wire) (i : Nat) : SameWorker w (w.lateArrival i) := by
  unfold lateArrival
  split <;> exact ⟨rfl, rfl, rfl, rfl, rfl⟩

theorem SameWorker.onDisk {w w' : Wire} (h : SameWorker w w') : w'.onDisk = w.onDisk := by
  simp only [Wire.onDisk, Broadcaster.spoolText, h.spool]

theorem SameWorker.pending {w w' : Wire} (h : SameWorker w w') : w'.pending = w.pending := by
  simp only [Wire.pending, h.onDisk, h.worker]

/-! ### What a step of the worker is -/

/-- The branches of `workerStep`. -/
inductive WorkerTurn (w : Wire) : Wire → Prop
  /-- Nothing to do, or the network's turn. -/
  | waits : WorkerTurn w w
  | stops (hworker : w.worker = .idle) : WorkerTurn w { w with worker := .stopped }
  | takes {payload : Payload} {queue : List Payload} (hworker : w.worker = .idle) (hqueue : w.queue = payload :: queue) :
      WorkerTurn w { w with queue, worker := .handling payload, taken := w.taken ++ [payload] }
  | joins {payload : Payload} (hworker : w.worker = .handling payload) :
      WorkerTurn w { w with worker := .spooling payload true }
  | sends {payload : Payload} (hworker : w.worker = .handling payload) (hempty : w.spoolBacklog = false) :
      WorkerTurn w { w with worker := .sending payload, arrived := false }
  | spools {payload : Payload} {drains : Bool} (hworker : w.worker = .spooling payload drains) :
      WorkerTurn w { w with
        spool := some (w.spoolText ++ joined [eventLine payload]), spooled := w.spooled + 1,
        worker := if drains then .draining else .idle, kept := w.kept ++ [.obj payload] }
  | drained (hworker : w.worker = .draining) (hspool : w.spool = none) : WorkerTurn w { w with worker := .idle }
  | reads {text : Text} (hworker : w.worker = .draining) (hspool : w.spool = some text) :
      WorkerTurn w { w with spool := none, worker := .replaying (lines isBreak text) }
  | replayed (hworker : w.worker = .replaying []) : WorkerTurn w { w with worker := .idle }
  | skips {line : Text} {rest : List Text} (hworker : w.worker = .replaying (line :: rest)) (hloads : loads line = none) :
      WorkerTurn w { w with worker := .replaying rest }
  | resends {line : Text} {rest : List Text} {event : Value} (hworker : w.worker = .replaying (line :: rest))
      (hloads : loads line = some event) : WorkerTurn w { w with worker := .resending event line rest, arrived := false }
  | respools {texts : List Text} (hworker : w.worker = .respooling texts) :
      WorkerTurn w { w with spool := some (w.spoolText ++ joined texts), worker := .idle }

theorem workerStep_turns (w : Wire) : WorkerTurn w w.workerStep := by
  unfold workerStep
  cases hworker : w.worker with
  | idle =>
    dsimp only
    split
    · split
      · exact .stops hworker
      · exact .waits
    · next hqueue => exact .takes hworker hqueue
  | handling payload =>
    dsimp only
    split
    · exact .joins hworker
    · next hempty => exact .sends hworker (by simpa using hempty)
  | spooling payload drains => exact .spools hworker
  | draining =>
    dsimp only
    split
    · next hspool => exact .drained hworker hspool
    · next text hspool => exact .reads hworker hspool
  | replaying texts =>
    cases texts with
    | nil => exact .replayed hworker
    | cons line rest =>
      dsimp only
      split
      · next hloads => exact .skips hworker hloads
      · next event hloads => exact .resends hworker hloads
  | respooling texts => exact .respools hworker
  | sending | resending | stopped => exact .waits

/-- The branches of `answer`. -/
inductive AnswerTurn (w : Wire) (stays : Bool) : Wire → Prop
  | waits : AnswerTurn w stays w
  | sent {payload : Payload} (hworker : w.worker = .sending payload) (harrived : w.arrived = true) :
      AnswerTurn w stays { w with sent := w.sent + 1, acked := w.acked ++ [.obj payload], worker := .draining }
  | failed {payload : Payload} (hworker : w.worker = .sending payload) :
      AnswerTurn w stays { w with worker := .spooling payload false, late := w.giveUp (.obj payload) stays }
  | resent {event : Value} {line : Text} {rest : List Text} (hworker : w.worker = .resending event line rest)
      (harrived : w.arrived = true) :
      AnswerTurn w stays { w with sent := w.sent + 1, acked := w.acked ++ [event], worker := .replaying rest }
  | failedAgain {event : Value} {line : Text} {rest : List Text} (hworker : w.worker = .resending event line rest) :
      AnswerTurn w stays { w with worker := .respooling (line :: rest), late := w.giveUp event stays }

theorem answer_turns (w : Wire) (ok stays : Bool) : AnswerTurn w stays (w.answer ok stays) := by
  unfold answer
  cases hworker : w.worker with
  | sending payload =>
    dsimp only
    split
    · next hok => exact .sent hworker (Bool.and_eq_true _ _ ▸ hok).2
    · exact .failed hworker
  | resending event line rest =>
    dsimp only
    split
    · next hok => exact .resent hworker (Bool.and_eq_true _ _ ▸ hok).2
    · exact .failedAgain hworker
  | idle | stopped | handling | spooling | draining | replaying | respooling => exact .waits

/-! ### The lines the worker read -/

/-- The worker has lines of the spool only while there is no spool, and can write them back as they were. -/
def LinesHeld (w : Wire) : Prop :=
  match w.worker with
  | .replaying lines | .respooling lines => w.spool = none ∧ ∀ line ∈ lines, IsLine isBreak line
  | .resending event line rest =>
    w.spool = none ∧ loads line = some event ∧ ∀ other ∈ line :: rest, IsLine isBreak other
  | _ => True

theorem SameWorker.linesHeld {w w' : Wire} (h : SameWorker w w') (hlines : w.LinesHeld) : w'.LinesHeld := by
  unfold LinesHeld
  rw [h.worker, h.spool]
  exact hlines

theorem WorkerTurn.linesHeld {w w' : Wire} (h : WorkerTurn w w') (hlines : w.LinesHeld) : w'.LinesHeld := by
  cases h with
  | waits => exact hlines
  | stops | takes | joins | sends | drained | replayed | respools => trivial
  | @spools payload drains => cases drains <;> trivial
  | reads => exact ⟨rfl, fun line hline => isLine_of_mem hline⟩
  | skips hworker =>
    simp only [LinesHeld, hworker] at hlines
    exact ⟨hlines.1, fun other hother => hlines.2 other (List.mem_cons_of_mem _ hother)⟩
  | resends hworker hloads =>
    simp only [LinesHeld, hworker] at hlines
    exact ⟨hlines.1, hloads, hlines.2⟩

theorem workerStep_linesHeld (w : Wire) (h : w.LinesHeld) : w.workerStep.LinesHeld := w.workerStep_turns.linesHeld h

theorem diskFault_linesHeld (w : Wire) (written : Nat) (h : w.LinesHeld) : (w.diskFault written).LinesHeld := by
  unfold diskFault
  cases hworker : w.worker with
  | spooling payload drains => cases drains <;> trivial
  | handling payload => trivial
  | draining => trivial
  | respooling texts => trivial
  | idle => exact h
  | stopped => exact h
  | sending payload => exact h
  | replaying texts => exact h
  | resending event line rest => exact h

theorem answer_linesHeld (w : Wire) (ok stays : Bool) (h : w.LinesHeld) : (w.answer ok stays).LinesHeld := by
  have hturn := w.answer_turns ok stays
  revert hturn
  generalize w.answer ok stays = w'
  intro hturn
  cases hturn with
  | waits => exact h
  | sent | failed => trivial
  | resent hworker =>
    simp only [LinesHeld, hworker] at h
    exact ⟨h.1, fun other hother => h.2.2 other (List.mem_cons_of_mem _ hother)⟩
  | failedAgain hworker =>
    simp only [LinesHeld, hworker] at h
    exact ⟨h.1, h.2.2⟩

end Wire

/-! ### Events on a spool -/

@[simp] theorem eventsOf_nil : eventsOf [] = [] := by simp [eventsOf]

theorem eventsOf_append {t : Text} (h : Terminated isBreak t) (u : Text) :
    eventsOf (t ++ u) = eventsOf t ++ eventsOf u := by
  rw [eventsOf, lines_append h, List.filterMap_append]
  rfl

theorem eventsOf_joined {texts : List Text} (h : ∀ line ∈ texts, IsLine isBreak line) :
    eventsOf (joined texts) = texts.filterMap loads := by
  rw [eventsOf, lines_joined (by decide) h]

theorem eventsOf_eventLine (payload : Payload) : eventsOf (joined [eventLine payload]) = [.obj payload] := by
  have hline : ∀ line ∈ [eventLine payload], IsLine isBreak line := by
    intro line hline
    obtain rfl := List.mem_singleton.mp hline
    exact isLine_eventLine (fun _ hc => hc) payload
  rw [eventsOf_joined hline]
  simp [loads_eventLine]

end FreqTrading.Copytrade
