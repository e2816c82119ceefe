import FreqTrading.Engine.OneTrade
import FreqTrading.Live.Agreement

/-!
# One own position at a time

In market mode the ORB loop does not look at the broker before an ENTRY: that nothing is held then rests on
engine and broker having agreed after the last bar. `one_position` proves it for every run in which the engine
does not go flat over a position that is still held; a rejected close is enough to break it
(`two_positions_held`).
-/

namespace FreqTrading

open Lib

/-- A request is accepted (executed in full, and answered with `DONE`) or rejected (not executed, and the answer
is no success). -/
def SendReply.Definite (r : SendReply) : Prop :=
  if r.executes then r.partly = none ∧ r.answer.map (·.retcode) = some retcodeDone
  else Mt5Broker.succeeded r.answer = none

theorem SendReply.Definite.truthful {r : SendReply} (h : r.Definite) : r.Truthful := by
  intro hsucc
  unfold SendReply.Definite at h
  split at h
  · next hex => exact ⟨hex, h.1⟩
  · rw [h] at hsucc
    cases hsucc

theorem outcome_definite {β : Type} {b : Mt5Broker β} {w : World β} {r : OrderRequest} (h : w.reply.send.Definite)
    (hans : b.taken (w.outcome r).2.2 = none) : (w.outcome r).2.1 = false := by
  by_contra hex
  obtain ⟨hexec, heq, -⟩ := outcome_executed (by simpa using hex)
  unfold SendReply.Definite at h
  rw [if_pos hexec] at h
  rw [heq] at hans
  exact Mt5Broker.taken_of_done h.2 hans

/-- A market order that opens a position. -/
def OrderBody.Opens : OrderBody → Prop
  | .entry .. => True
  | _ => False

instance : DecidablePred OrderBody.Opens
  | .entry .. => isTrue trivial
  | .close .. => isFalse id
  | .pending .. => isFalse id
  | .sltp .. => isFalse id
  | .remove .. => isFalse id

/-- An executed market entry met no own position. -/
def Sent.Alone (m : Int) (s : Sent) : Prop := s.executed = true → s.request.body.Opens → s.before.own m = []

instance (m : Int) (s : Sent) : Decidable (s.Alone m) := inferInstanceAs (Decidable (_ → _ → _))

namespace Live

variable {live : LiveConfig}

theorem alone_of_reduces {m : Int} {s : Sent} (h : s.request.body.Reduces) : s.Alone m := by
  intro _ hopens
  cases hbody : s.request.body with
  | entry => rw [hbody] at h; exact h.elim
  | close | pending | sltp | remove => rw [hbody] at hopens; exact hopens.elim

theorem alone_of_stop {m : Int} {s : Sent} {sl : ℚ} (h : Mt5Broker.StopBody sl s.request.body) : s.Alone m := by
  intro _ hopens
  cases hbody : s.request.body with
  | sltp => rw [hbody] at hopens; exact hopens.elim
  | close | pending | entry | remove => rw [hbody] at h; exact h.elim

/-- Nothing is asked of what is held. -/
abbrev Anything : PositionState → Position → Prop := fun _ _ => True

theorem anything_tracked {pos : PositionState} {p : Position} : Tracked Anything (some pos) p := ⟨pos, rfl, trivial⟩

theorem entry_alone {sig : Signal} {w : World (Bot OrbEngine)} {r : OrderRequest}
    (h : Kept live.broker.magic (fun _ => False) (Sent.Alone live.broker.magic) w)
    (hr : (mt5 live (ε := OrbEngine)).EntryBody sig (fun _ => True) r.body) :
    Kept live.broker.magic (fun _ => True) (Sent.Alone live.broker.magic) (w.afterSend r) := by
  refine ⟨(h.holds.mono fun _ _ _ hfalse => hfalse.elim).outcome ?_,
    logged_afterSend h.logged fun _ _ => (Server.holds_false.mp h.holds.settled).2.2⟩
  cases hbody : r.body with
  | entry => exact Server.keptBy_entry fun _ _ _ => trivial
  | close | pending | sltp | remove =>
    rw [hbody] at hr
    exact hr.elim

/-- The answers to a market entry that finds nothing held: only an executed one opens a position, and its
answer ends the attempts. -/
theorem entry_answers {sig : Signal} (env : Nat → Reply) (hdefinite : ∀ k, (env k).send.Definite) :
    (mt5 live).Answers
      (fun v : World (Bot OrbEngine) => v.env = env ∧ Kept live.broker.magic (fun _ => False) (Sent.Alone live.broker.magic) v)
      (fun _ v => Kept live.broker.magic (fun _ => True) (Sent.Alone live.broker.magic) v)
      fun r => (mt5 live (ε := OrbEngine)).EntryBody sig (fun _ => True) r.body where
  read := fun v hI => ⟨hI.1, hI.2.holds.settled, hI.2.logged⟩
  pause := fun v delay hI => ⟨hI.1, hI.2.holds, hI.2.logged⟩
  success := fun v r _ hI hr _ => entry_alone hI.2 hr
  failure := fun v r hI hr hans => by
    have hreply : v.reply.send.Definite := by
      unfold World.reply
      rw [hI.1]
      exact hdefinite v.calls
    have hserver := outcome_not_executed (outcome_definite hreply hans)
    refine ⟨hI.1, ?_, (entry_alone hI.2 hr).logged⟩
    rw [afterSend_server, hserver]
    exact hI.2.holds.settled

/-- Market entries open at most one position, and stops are pushed to what is held. -/
theorem alone_discipline (hlive : live.OrbMarket) :
    Discipline live Anything (Sent.Alone live.broker.magic) fun _ env => ∀ k, (env k).send.Definite where
  shrink := fun _ _ _ _ _ _ _ h => h
  held := fun _ _ _ _ _ _ => trivial
  reduces := fun _ hs => alone_of_reduces hs
  opens := fun sig pos w hkind _ _ _ hdefinite hkept => by
    have hopen := (mt5 live).openMarket_rule sig (entry_answers w.env hdefinite)
      (fun _ v hv => hv.2.mono fun _ hfalse => hfalse.elim) (fun _ v f hv => ⟨hv.holds, hv.logged⟩)
      (fun v _ k tick _ => trivial) (w := w) ⟨rfl, hkept⟩
    have hrun : Ensures ((mt5 live).execute sig) w
        (Post (fun _ v => Kept live.broker.magic (fun _ => True) (Sent.Alone live.broker.magic) v)
          fun _ v => Kept live.broker.magic (fun _ => True) (Sent.Alone live.broker.magic) v) := by
      rw [execute_entry hlive hkind]
      refine (hopen.weaken (fun _ _ h => h) fun _ v hv => hv.2.mono fun _ hfalse => hfalse.elim).bind fun _ v hv => hv
    have hkeeps : Kept live.broker.magic (fun _ => True) (Sent.Alone live.broker.magic)
        (exec ((mt5 live).execute sig) w).2 := by
      unfold Ensures at hrun
      rcases hexec : exec ((mt5 live).execute sig) w with ⟨err | res, v⟩ <;> rw [hexec] at hrun <;> exact hrun
    exact hkeeps.mono fun _ _ => anything_tracked
  pushes := fun pos w hkept => by
    refine ((mt5 live).updateStop_steps pos.stop w).invariant (fun _ _ hstep hI => hstep.kept ?_ ?_ hI) hkept
    · intro body hbody
      cases body with
      | sltp => exact Server.keptBy_sltp fun _ _ _ => anything_tracked
      | close | pending | entry | remove => exact hbody.elim
    · exact fun s hs _ => alone_of_stop hs

end Live

namespace LiveState

/-- **One own position at a time.** Every request is accepted or rejected, and the loop starts with nothing of
its own at the broker. If the engine follows the broker on every bar, each market entry is executed while the
broker holds no own position. -/
theorem one_position (cfg : OrbConfig) (live : LiveConfig) (hlive : live.OrbMarket) (server : Server)
    (hserver : server.Holds live.broker.magic fun _ => False) (inputs : List LiveInput)
    (hdefinite : ∀ bar, .bar bar ∈ inputs → ∀ k, (bar.atSignal k).send.Definite)
    (hfollows : StepsMeet (step (orbOps cfg) live) (Follows cfg live) (start live (OrbEngine.init cfg) server) inputs) :
    ∀ s ∈ (run (step (orbOps cfg) live) (start live (OrbEngine.init cfg) server) inputs).world.sent,
      s.Alone live.broker.magic := by
  have hinputs : StepsMeet (step (orbOps cfg) live)
      (fun _ input => ∀ bar, input = .bar bar → ∀ k, (bar.atSignal k).send.Definite)
      (start live (OrbEngine.init cfg) server) inputs :=
    stepsMeet_of_forall fun input hinput bar hbar => hdefinite bar (hbar ▸ hinput)
  have hmeet := (hfollows.and hinputs).mono (D := Meets cfg live fun _ env => ∀ k, (env k).send.Definite) (by
    rintro s (bar | _ | _) ⟨hf, hd⟩
    · exact fun hrun => ⟨hf hrun, Live.emits_of_forall (fun _ _ _ k => (hd bar rfl k).truthful) _,
        Live.emits_of_forall (fun _ _ _ _ _ => hd bar rfl) _⟩
    · trivial
    · trivial)
  exact (run_agreeing (Live.alone_discipline hlive) hlive hserver hmeet).logged

/-! ### Two days of one-bar ranges -/

/-- A quote, and what becomes of a request. -/
def quoting (ask : ℚ) (send : SendReply) : Reply := { tick := some ⟨2004, ask, 0⟩, send := send }

/-- The request is executed. -/
def accepted : SendReply := { executes := true, answer := some {}, price := 2005 }

/-- `MARKET_CLOSED`. -/
def rejected : SendReply := { executes := false, answer := some { retcode := 10018 } }

/-- A bar whose calls all meet one reply. -/
def answered (candle : RawCandle) (reply : Reply) : LiveInput :=
  .bar { candle := candle, atSignal := fun _ => reply, atGuards := fun _ => reply, atSync := fun _ => reply }

/-- A range, an ENTRY and its EXIT on the first day, and a range and an ENTRY on the second. -/
def twoDays (exit : SendReply) : List LiveInput :=
  [answered (EngineRun.minuteBar 0 2000 2001 1999 2000) (quoting 2005 accepted),
    answered (EngineRun.minuteBar 1 2002 2006 2001 2005) (quoting 2005 accepted),
    answered (EngineRun.minuteBar 2 2002 2002 1999 2000) (quoting 2005 exit),
    answered (EngineRun.minuteBar 1440 2000 2001 1999 2000) (quoting 2005 accepted),
    answered (EngineRun.minuteBar 1441 2002 2006 2001 2005) (quoting 2005 accepted)]

theorem twoDays_definite {exit : SendReply} (hexit : exit.Definite) (bar : Bar) (hbar : .bar bar ∈ twoDays exit)
    (k : Nat) : (bar.atSignal k).send.Definite := by
  have haccepted : accepted.Definite := ⟨rfl, rfl⟩
  simp only [twoDays, answered, List.mem_cons, LiveInput.bar.injEq, List.not_mem_nil, or_false] at hbar
  rcases hbar with rfl | rfl | rfl | rfl | rfl
  · exact haccepted
  · exact haccepted
  · exact hexit
  · exact haccepted
  · exact haccepted

/-- The state after the two days. -/
def afterTwoDays (exit : SendReply) : LiveState OrbEngine :=
  run (step (orbOps EngineRun.gapConfig) .default) (start .default (OrbEngine.init EngineRun.gapConfig) {}) (twoDays exit)

/-- The EXIT is accepted: two market entries, each with nothing held. -/
theorem one_position_two_days :
    (afterTwoDays accepted).world.sent.length = 3 ∧ ∀ s ∈ (afterTwoDays accepted).world.sent, s.Alone 20260610 :=
  ⟨by decide +kernel, one_position EngineRun.gapConfig .default ⟨rfl, rfl, rfl⟩ {}
    (Server.holds_false.mpr ⟨⟨Server.issued_of_nil rfl rfl, by decide, by decide⟩, by decide, by decide⟩) _
    (twoDays_definite ⟨rfl, rfl⟩) (by decide +kernel)⟩

/-- The EXIT is rejected: the first day's position is still held when the second day's entry is executed. -/
theorem two_positions_held :
    (∀ bar, .bar bar ∈ twoDays rejected → ∀ k, (bar.atSignal k).send.Definite) ∧
      ¬ ∀ s ∈ (afterTwoDays rejected).world.sent, s.Alone 20260610 :=
  ⟨twoDays_definite rfl, by decide +kernel⟩

end LiveState

end FreqTrading
