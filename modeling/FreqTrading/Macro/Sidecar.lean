import FreqTrading.Lib.Stamped
import FreqTrading.Macro.Daemon
import FreqTrading.Macro.StateText

/-!
# The sidecar and the bots

The daemon of `macro/daemon.py` writes the state file, and any number of bots read it through a `MacroGuard` of their
own, in any interleaving. `write_state` opens the temporary file, its bytes reach the file in parts of any size, and
`os.replace` puts it in place; every step may raise an `OSError`, and the daemon may be killed and started again at any
time. A call of a bot looks at the file with `os.stat`, and opens it some time later. Beside the processes stands what
the laws are about: the states that were put in place, and for every call of a bot how many there were when it began and
when it ended.
-/

namespace FreqTrading

namespace Macro

open Lib Macroguard

/-- The state that a turn builds, with the sources it has after its refresh. -/
structure Draft where
  sources : Daemon
  turn : Turn
  state : State

/-- A state file in place. -/
structure Publication where
  draft : Draft
  mtime : Int

/-- A turn between opening the temporary file and replacing the state file. -/
structure Pending where
  draft : Draft
  rest : List UInt8

/-- A call that was answered. -/
structure Reply where
  began : Nat
  ended : Nat
  call : Call
  result : Except PyError Answer

/-- The arguments of a `MacroGuard`. -/
structure BotConfig where
  assetKey : Text
  whenStale : WhenStale := .allow
  confMin : ℚ := 6 / 10

def BotConfig.guard (cfg : BotConfig) : MacroGuard := Macroguard.guard cfg.assetKey cfg.whenStale cfg.confMin

structure Bot where
  guard : MacroGuard
  /-- A call that is under way: what `os.stat` found, and how many states there had been. -/
  seen : Option (Option Int × Nat) := none
  replies : List Reply := []

structure Sidecar (β : Type) where
  daemon : Daemon := {}
  pending : Option Pending := none
  tmp : Option (Int × List UInt8) := none
  target : Option (Int × List UInt8) := none
  published : List Publication := []
  bots : β → Bot

inductive Event (β : Type)
  /-- A turn begins; the time of the temporary file it opens, if it can. -/
  | turn (t : Turn) (opened : Option Int)
  /-- So many bytes reach the temporary file. -/
  | write (count : Nat) (mtime : Int)
  | replace
  | osError
  | kill
  | stat (bot : β)
  | answer (bot : β) (query : Query) (now : DateTime)

namespace Sidecar

variable {β : Type} [DecidableEq β] (limit : Nat) (halving : ℚ → ℚ) (cfg : DaemonConfig)

def start (bots : β → BotConfig) : Sidecar β := { bots := fun b => { guard := (bots b).guard } }

/-- A turn up to the opening of the temporary file. -/
def beginTurn (s : Sidecar β) (t : Turn) (opened : Option Int) : Sidecar β :=
  if s.pending.isSome ∨ s.daemon.crashed then s
  else
    let d := s.daemon.refreshed cfg t
    match buildState halving cfg.args d.events t.now d.geo d.newsSent d.theme, opened with
    | .ok state, some mtime =>
      { s with pending := some ⟨⟨d, t, state⟩, fileOf state⟩, tmp := some (mtime, []) }
    | _, _ => { s with daemon := s.daemon.iterate halving cfg { t with writes := false } }

def writeSome (s : Sidecar β) (count : Nat) (mtime : Int) : Sidecar β :=
  match s.pending, s.tmp with
  | some p, some (_, bytes) =>
    { s with
      pending := some { p with rest := p.rest.drop count }
      tmp := some (mtime, bytes ++ p.rest.take count) }
  | _, _ => s

/-- `os.replace`, once all is written. -/
def replaceTarget (s : Sidecar β) : Sidecar β :=
  match s.pending, s.tmp with
  | some p, some file =>
    if p.rest = [] then
      { s with
        daemon := s.daemon.iterate halving cfg { p.draft.turn with writes := true }
        pending := none
        tmp := none
        target := some file
        published := s.published ++ [⟨p.draft, file.1⟩] }
    else s
  | _, _ => s

/-- The `OSError` that `run` logs. -/
def abandon (s : Sidecar β) : Sidecar β :=
  match s.pending with
  | some p =>
    { s with daemon := s.daemon.iterate halving cfg { p.draft.turn with writes := false }, pending := none }
  | none => s

/-- `os.stat` of a call. -/
def look (s : Sidecar β) (b : β) : Sidecar β :=
  if (s.bots b).seen.isSome then s
  else
    { s with
      bots := Function.update s.bots b
        { s.bots b with seen := some (s.target.map Prod.fst, s.published.length) } }

/-- What a call finds that saw this time. -/
def found (s : Sidecar β) : Option Int → File
  | none => .absent
  | some mtime => .present mtime (s.target.elim .unreadable fun file => .bytes file.2)

/-- The rest of a call. -/
def finishCall (s : Sidecar β) (b : β) (query : Query) (now : DateTime) : Sidecar β :=
  match (s.bots b).seen with
  | none => s
  | some (mtime, began) =>
    let call : Call := ⟨s.found mtime, now, query⟩
    let bot := s.bots b
    { s with
      bots := Function.update s.bots b
        { guard := bot.guard.step limit call
          seen := none
          replies := bot.replies ++ [⟨began, s.published.length, call, bot.guard.answer limit call⟩] } }

def step (s : Sidecar β) : Event β → Sidecar β
  | .turn t opened => s.beginTurn halving cfg t opened
  | .write count mtime => s.writeSome count mtime
  | .replace => s.replaceTarget halving cfg
  | .osError => s.abandon halving cfg
  | .kill => { s with daemon := {}, pending := none }
  | .stat b => s.look b
  | .answer b query now => s.finishCall limit b query now

end Sidecar

/-! ### The states in place -/

/-- The state that a guard parses of the file of a draft. -/
def Draft.view (d : Draft) : MacroState :=
  parsed d.state (match parseTs d.state.generatedAt with
    | .ok t => t
    | .error _ => d.turn.now)

/-- The file in place after so many publications. -/
def placedAfter (published : List Publication) : Nat → Option Publication
  | 0 => none
  | k + 1 => published[k]?

/-- The state in place after so many publications. -/
def stateAfter (published : List Publication) (k : Nat) : Option MacroState :=
  (placedAfter published k).map fun p => p.draft.view

/-- The stamps and the states of the files. -/
def versions (published : List Publication) : List (Int × MacroState) :=
  published.map fun p => (p.mtime, p.draft.view)

/-- A draft is what `build_state` makes of its sources, which the default providers have answered. -/
structure Draft.Sound (halving : ℚ → ℚ) (cfg : DaemonConfig) (d : Draft) : Prop where
  built : buildState halving cfg.args d.sources.events d.turn.now d.sources.geo d.sources.newsSent d.sources.theme =
    .ok d.state
  assessed : Assessed d.sources.geo d.sources.theme

section views

variable {halving : ℚ → ℚ} {cfg : DaemonConfig} {limit : Nat} {d : Draft} {published : List Publication} {k : Nat}

theorem Draft.Sound.view (h : d.Sound halving cfg) :
    builtState halving cfg.args d.sources.events d.turn.now d.sources.geo d.sources.newsSent d.sources.theme =
      .ok d.view := by
  obtain ⟨bo, rows, -, hmerged⟩ := finish_spec h.built
  have hstamp : d.state.generatedAt = d.turn.now.isoText ['Z'] := by
    rw [hmerged.generatedAt]
    exact (mergeThematic_stamp _).trans (mergeSentiment_stamp _)
  obtain ⟨t, ht, -⟩ := parseTs_isoText d.turn.now
  have hparse : parseTs d.state.generatedAt = .ok t := hstamp ▸ ht
  unfold builtState
  rw [h.built]
  refine (fromDict_toPy hparse).trans ?_
  rw [Draft.view, hparse]

theorem Draft.Sound.parse (h : d.Sound halving cfg) (hlimit : 4 ≤ limit) (hargs : cfg.args.Writable) :
    parseContent limit (.bytes (fileOf d.state)) = .ok d.view :=
  (file_parsed hlimit h.built h.assessed hargs).trans h.view

theorem placedAfter_append (h : k ≤ published.length) (new : List Publication) :
    placedAfter (published ++ new) k = placedAfter published k := by
  cases k with
  | zero => rfl
  | succ k => exact List.getElem?_append_left h

theorem placedAfter_length (published : List Publication) : placedAfter published published.length = published.getLast? := by
  cases published with
  | nil => rfl
  | cons p ps => rw [List.getLast?_eq_getElem?]; rfl

theorem stateAfter_append (h : k ≤ published.length) (new : List Publication) :
    stateAfter (published ++ new) k = stateAfter published k := by
  rw [stateAfter, placedAfter_append h, stateAfter]

theorem stateAfter_succ (published : List Publication) (k : Nat) :
    stateAfter published (k + 1) = (versions published)[k]?.map Prod.snd := by
  rw [versions, List.getElem?_map, Option.map_map]
  rfl

theorem versions_stamps (published : List Publication) :
    (versions published).map Prod.fst = published.map Publication.mtime := by
  simp [versions]

theorem versions_append (published new : List Publication) :
    versions (published ++ new) = versions published ++ versions new := List.map_append

/-- An answer is that on a state that was in place during the call. -/
structure Reply.Right (g₀ : MacroGuard) (published : List Publication) (r : Reply) : Prop where
  ended : r.ended ≤ published.length
  state : ∃ k, r.began ≤ k ∧ k ≤ r.ended ∧ r.result = .ok (g₀.decide (stateAfter published k) r.call)

theorem Reply.Right.append {g₀ : MacroGuard} {r : Reply} (h : r.Right g₀ published)
    (new : List Publication) : r.Right g₀ (published ++ new) := by
  obtain ⟨k, hlow, hhigh, hresult⟩ := h.state
  refine ⟨h.ended.trans (by simp), k, hlow, hhigh, ?_⟩
  rw [stateAfter_append (hhigh.trans h.ended)]
  exact hresult

end views

namespace Sidecar

/-! ### What the processes keep -/

variable {β : Type} {limit : Nat} {halving : ℚ → ℚ} {cfg : DaemonConfig} {s : Sidecar β}

/-- The default providers answer, and no two state files have one time of last change. -/
def Allowed (s : Sidecar β) : Event β → Prop
  | .turn t _ => Assessed t.geo t.theme
  | .replace => ∀ file ∈ s.tmp, ∀ p ∈ s.published, p.mtime ≠ file.1
  | _ => True

/-- A turn that is under way: the temporary file has what is not still to be written. -/
structure Underway (halving : ℚ → ℚ) (cfg : DaemonConfig) (s : Sidecar β) (p : Pending) : Prop where
  sound : p.draft.Sound halving cfg
  assessed : Assessed p.draft.turn.geo p.draft.turn.theme
  tmp : ∃ mtime bytes, s.tmp = some (mtime, bytes) ∧ bytes ++ p.rest = fileOf p.draft.state

/-- The files: in place is the whole of the last state. -/
structure Files (halving : ℚ → ℚ) (cfg : DaemonConfig) (s : Sidecar β) : Prop where
  target : s.target = s.published.getLast?.map fun p => (p.mtime, fileOf p.draft.state)
  stamps : (s.published.map Publication.mtime).Nodup
  sound : ∀ p ∈ s.published, p.draft.Sound halving cfg
  pending : ∀ p ∈ s.pending, Underway halving cfg s p
  sources : Assessed s.daemon.geo s.daemon.theme

/-- What a bot has: the last good state is one that was in place, no newer than a call that is under way. -/
structure Faithful (g₀ : MacroGuard) (published : List Publication) (bot : Bot) : Prop where
  kept : ∃ good, Caches g₀ good bot.guard ∧ Within (versions published) published.length good ∧
    ∀ mtime began, bot.seen = some (mtime, began) → Within (versions published) began good
  seen : ∀ mtime began, bot.seen = some (mtime, began) → began ≤ published.length ∧
    mtime = (placedAfter published began).map Publication.mtime
  right : ∀ r ∈ bot.replies, r.Right g₀ published
  ordered : bot.replies.Pairwise fun r r' => r.ended ≤ r'.began
  after : ∀ mtime began, bot.seen = some (mtime, began) → ∀ r ∈ bot.replies, r.ended ≤ began

/-- A publication changes nothing for a bot. -/
theorem Faithful.append {g₀ : MacroGuard} {published : List Publication} {bot : Bot} (h : Faithful g₀ published bot)
    (new : List Publication) : Faithful g₀ (published ++ new) bot := by
  obtain ⟨good, hcaches, hwithin, hseen⟩ := h.kept
  refine ⟨⟨good, hcaches, ?_, fun mtime began hbegan => ?_⟩, fun mtime began hbegan => ?_, fun r hr =>
    (h.right r hr).append new, h.ordered, h.after⟩
  · rw [versions_append]
    exact (hwithin.append _).mono (by simp)
  · rw [versions_append]
    exact (hseen mtime began hbegan).append _
  · obtain ⟨hle, hmtime⟩ := h.seen mtime began hbegan
    exact ⟨hle.trans (by simp), by rw [placedAfter_append hle, hmtime]⟩

/-! ### The daemon -/

theorem assessed_refresh {d : Daemon} {t : Turn} (hd : Assessed d.geo d.theme) (ht : Assessed t.geo t.theme) :
    Assessed (d.refreshed cfg t).geo (d.refreshed cfg t).theme := by
  unfold Daemon.refreshed
  split
  · refine ⟨fun g hg => ?_, fun r hr => ?_⟩
    · rcases Option.or_eq_some_iff.mp hg with hnew | ⟨-, hold⟩
      · exact ht.geo g hnew
      · exact hd.geo g hold
    · rcases Option.or_eq_some_iff.mp hr with hnew | ⟨-, hold⟩
      · exact ht.theme r hnew
      · exact hd.theme r hold
  · exact hd

theorem runOnce_sources (d : Daemon) (t : Turn) :
    (d.runOnce halving cfg t).geo = d.geo ∧ (d.runOnce halving cfg t).theme = d.theme := by
  unfold Daemon.runOnce
  split
  · exact ⟨rfl, rfl⟩
  · split <;> exact ⟨rfl, rfl⟩

theorem assessed_iterate {d : Daemon} {t : Turn} (hd : Assessed d.geo d.theme) (ht : Assessed t.geo t.theme) :
    Assessed (d.iterate halving cfg t).geo (d.iterate halving cfg t).theme := by
  unfold Daemon.iterate
  split
  · exact hd
  · obtain ⟨hgeo, htheme⟩ := @runOnce_sources halving cfg (d.refreshed cfg t) t
    rw [hgeo, htheme]
    exact assessed_refresh hd ht

/-! ### The steps -/

theorem Files.beginTurn (h : Files halving cfg s) {t : Turn} (ht : Assessed t.geo t.theme) (opened : Option Int) :
    Files halving cfg (s.beginTurn halving cfg t opened) := by
  unfold Sidecar.beginTurn
  split
  · exact h
  · next hidle =>
    have hnone : s.pending = none := by
      simpa using fun hsome => hidle (Or.inl hsome)
    simp only
    split
    · next state mtime hbuilt =>
      refine ⟨h.target, h.stamps, h.sound, ?_, h.sources⟩
      rintro _ ⟨⟩
      exact ⟨⟨hbuilt, assessed_refresh h.sources ht⟩, ht, mtime, [], rfl, rfl⟩
    · refine ⟨h.target, h.stamps, h.sound, fun p hp => ?_, assessed_iterate h.sources ht⟩
      rw [hnone] at hp
      cases hp

theorem Files.writeSome (h : Files halving cfg s) (count : Nat) (mtime : Int) :
    Files halving cfg (s.writeSome count mtime) := by
  unfold Sidecar.writeSome
  split
  · next p old bytes hp htmp =>
    obtain ⟨hsound, hassessed, old', bytes', htmp', hwhole⟩ := h.pending p hp
    refine ⟨h.target, h.stamps, h.sound, ?_, h.sources⟩
    rintro _ ⟨⟩
    refine ⟨hsound, hassessed, mtime, _, rfl, ?_⟩
    obtain ⟨-, rfl⟩ : old = old' ∧ bytes = bytes' := by simpa using htmp.symm.trans htmp'
    rw [List.append_assoc, List.take_append_drop, hwhole]
  · exact h

theorem Files.replaceTarget (h : Files halving cfg s) (hfresh : ∀ file ∈ s.tmp, ∀ p ∈ s.published, p.mtime ≠ file.1) :
    Files halving cfg (s.replaceTarget halving cfg) := by
  unfold Sidecar.replaceTarget
  split
  · next p file hp htmp =>
    split
    · next hrest =>
      obtain ⟨hsound, hassessed, mtime, bytes, htmp', hwhole⟩ := h.pending p hp
      obtain rfl : file = (mtime, bytes) := Option.some.inj (htmp.symm.trans htmp')
      rw [hrest, List.append_nil] at hwhole
      refine ⟨?_, ?_, ?_, fun q hq => (nomatch hq), assessed_iterate h.sources hassessed⟩
      · rw [List.getLast?_concat, Option.map_some, hwhole]
      · rw [List.map_append, List.nodup_append]
        refine ⟨h.stamps, List.nodup_singleton _, ?_⟩
        intro stamp hstamp stamp' hnew
        obtain ⟨q, hq, rfl⟩ := List.mem_map.mp hstamp
        rw [List.mem_singleton.mp hnew]
        exact hfresh _ htmp q hq
      · intro q hq
        rcases List.mem_append.mp hq with hold | hnew
        · exact h.sound q hold
        · rw [List.mem_singleton.mp hnew]
          exact hsound
    · exact h
  · exact h

theorem Files.abandon (h : Files halving cfg s) : Files halving cfg (s.abandon halving cfg) := by
  unfold Sidecar.abandon
  split
  · next p hp =>
    exact ⟨h.target, h.stamps, h.sound, fun q hq => (nomatch hq), assessed_iterate h.sources (h.pending p hp).assessed⟩
  · exact h

theorem Files.sound_placedAfter (h : Files halving cfg s) {k : Nat} {p : Publication}
    (hp : placedAfter s.published k = some p) : p.draft.Sound halving cfg := by
  cases k with
  | zero => cases hp
  | succ k => exact h.sound p (List.mem_of_getElem? hp)

/-! ### The calls -/

theorem see_present (good : Good) {mtime : Int} {content : Content} {ms : MacroState}
    (hparse : parseContent limit content = .ok ms) :
    good.see limit (.present mtime content) = Kept.see good mtime ms := by
  unfold Good.see Kept.see
  simp only [hparse]

theorem tolerated_present (good : Good) {mtime : Int} {content : Content} {ms : MacroState}
    (hparse : parseContent limit content = .ok ms) : Tolerated limit good (.present mtime content) := by
  refine Or.inr fun hescapes => ?_
  have hverdict := (parseContent_escapes content).mpr hescapes
  rw [hparse] at hverdict
  cases hverdict

/-- **A call is answered on a state that was in place since it began.** -/
theorem Faithful.finishCall {g₀ : MacroGuard} (hfiles : Files halving cfg s) (hlimit : 4 ≤ limit)
    (hargs : cfg.args.Writable) {bot : Bot} (h : Faithful g₀ s.published bot) {mtime : Option Int} {began : Nat}
    (hseen : bot.seen = some (mtime, began)) (query : Query) (now : DateTime) :
    let call : Call := ⟨s.found mtime, now, query⟩
    Faithful g₀ s.published
      { guard := bot.guard.step limit call
        seen := none
        replies := bot.replies ++ [⟨began, s.published.length, call, bot.guard.answer limit call⟩] } := by
  intro call
  obtain ⟨hle, hmtime⟩ := h.seen mtime began hseen
  obtain ⟨good, hcaches, -, hbegan⟩ := h.kept
  have hwithin := hbegan mtime began hseen
  -- what the read leaves, and the state it gives
  obtain ⟨hkept, htolerated, k, hlow, hhigh, hstate⟩ :
      Within (versions s.published) s.published.length (good.see limit call.file) ∧ Tolerated limit good call.file ∧
        ∃ k, began ≤ k ∧ k ≤ s.published.length ∧ good.state limit call.file = stateAfter s.published k := by
    cases began with
    | zero =>
      obtain rfl : mtime = none := hmtime
      exact ⟨hwithin.mono (Nat.zero_le _), trivial, 0, le_rfl, hle, rfl⟩
    | succ a =>
      obtain ⟨b, hb⟩ : ∃ b, s.published.length = b + 1 := ⟨s.published.length - 1, by omega⟩
      obtain ⟨first, hfirst⟩ : ∃ p, s.published[a]? = some p := ⟨_, List.getElem?_eq_getElem (by omega)⟩
      obtain ⟨last, hlast⟩ : ∃ p, s.published[b]? = some p := ⟨_, List.getElem?_eq_getElem (by omega)⟩
      obtain rfl : mtime = some first.mtime := by
        rw [hmtime]
        show s.published[a]?.map Publication.mtime = _
        rw [hfirst]
        rfl
      have htarget : s.target = some (last.mtime, fileOf last.draft.state) := by
        rw [hfiles.target, List.getLast?_eq_getElem?, hb, Nat.add_sub_cancel, hlast]
        rfl
      have hfile : call.file = .present first.mtime (.bytes (fileOf last.draft.state)) := by
        show s.found (some first.mtime) = _
        unfold found
        rw [htarget]
        rfl
      have hparse : parseContent limit (.bytes (fileOf last.draft.state)) = .ok last.draft.view :=
        (hfiles.sound last (List.mem_of_getElem? hlast)).parse hlimit hargs
      have hstamp : (versions s.published)[a]?.map Prod.fst = some first.mtime := by
        rw [versions, List.getElem?_map, hfirst]
        rfl
      have hvalue : (versions s.published)[b]?.map Prod.snd = some last.draft.view := by
        rw [versions, List.getElem?_map, hlast]
        rfl
      have hnodup : ((versions s.published).map Prod.fst).Nodup := by
        rw [versions_stamps]
        exact hfiles.stamps
      obtain ⟨hkept, k, hlow, hhigh, hstate⟩ := hwithin.see hnodup (by omega) hstamp hvalue
      rw [hfile]
      refine ⟨?_, tolerated_present good hparse, k + 1, by omega, by omega, ?_⟩
      · rw [see_present good hparse, hb]
        exact hkept
      · rw [stateAfter_succ, ← hstate]
        show (good.see limit _).map Prod.snd = _
        rw [see_present good hparse]
  have hanswer : bot.guard.answer limit call = .ok (g₀.decide (stateAfter s.published k) call) := by
    rw [← hstate]
    exact (hcaches.answer call).mpr htolerated
  refine ⟨⟨_, (hcaches.read call.file).1, hkept, fun _ _ hnone => nomatch hnone⟩, fun _ _ hnone => (nomatch hnone), ?_, ?_,
    fun _ _ hnone => nomatch hnone⟩
  · intro r hr
    rcases List.mem_append.mp hr with hold | hnew
    · exact h.right r hold
    · rw [List.mem_singleton.mp hnew]
      exact ⟨le_rfl, k, hlow, hhigh, hanswer⟩
  · rw [List.pairwise_append]
    refine ⟨h.ordered, List.pairwise_singleton _ _, fun r hr r' hr' => ?_⟩
    rw [List.mem_singleton.mp hr']
    exact h.after mtime began hseen r hr

theorem Faithful.look {g₀ : MacroGuard} {bot : Bot} (hfiles : Files halving cfg s) (h : Faithful g₀ s.published bot) :
    Faithful g₀ s.published { bot with seen := some (s.target.map Prod.fst, s.published.length) } := by
  obtain ⟨good, hcaches, hwithin, -⟩ := h.kept
  refine ⟨⟨good, hcaches, hwithin, ?_⟩, ?_, h.right, h.ordered, ?_⟩
  · rintro _ _ ⟨⟩
    exact hwithin
  · rintro _ _ ⟨⟩
    refine ⟨le_rfl, ?_⟩
    rw [placedAfter_length, hfiles.target, Option.map_map]
    rfl
  · rintro _ _ ⟨⟩ r hr
    exact (h.right r hr).ended

/-- What a step of the daemon leaves: the bots, and the states that there were. -/
structure Extends (s s' : Sidecar β) : Prop where
  bots : s'.bots = s.bots
  published : ∃ new, s'.published = s.published ++ new

theorem extends_of_same {s' : Sidecar β} (hbots : s'.bots = s.bots) (hpublished : s'.published = s.published) :
    Extends s s' := ⟨hbots, [], by rw [hpublished, List.append_nil]⟩

theorem beginTurn_extends (t : Turn) (opened : Option Int) : Extends s (s.beginTurn halving cfg t opened) := by
  unfold Sidecar.beginTurn
  split
  · exact extends_of_same rfl rfl
  · simp only
    split
    · exact extends_of_same rfl rfl
    · exact extends_of_same rfl rfl

theorem writeSome_extends (count : Nat) (mtime : Int) : Extends s (s.writeSome count mtime) := by
  unfold Sidecar.writeSome
  split
  · exact extends_of_same rfl rfl
  · exact extends_of_same rfl rfl

theorem replaceTarget_extends : Extends s (s.replaceTarget halving cfg) := by
  unfold Sidecar.replaceTarget
  split
  · split
    · exact ⟨rfl, _, rfl⟩
    · exact extends_of_same rfl rfl
  · exact extends_of_same rfl rfl

theorem abandon_extends : Extends s (s.abandon halving cfg) := by
  unfold Sidecar.abandon
  split
  · exact extends_of_same rfl rfl
  · exact extends_of_same rfl rfl

theorem Extends.faithful {s' : Sidecar β} {guards : β → MacroGuard} (h : Extends s s')
    (hs : ∀ b, Faithful (guards b) s.published (s.bots b)) : ∀ b, Faithful (guards b) s'.published (s'.bots b) := by
  obtain ⟨new, hnew⟩ := h.published
  intro b
  rw [hnew, h.bots]
  exact (hs b).append new

/-- The files and the bots over a run. -/
structure Coherent (halving : ℚ → ℚ) (cfg : DaemonConfig) (bots : β → BotConfig) (s : Sidecar β) : Prop where
  files : Files halving cfg s
  bots : ∀ b, Faithful (bots b).guard s.published (s.bots b)

theorem start_coherent (halving : ℚ → ℚ) (cfg : DaemonConfig) (bots : β → BotConfig) :
    Coherent halving cfg bots (start bots) := by
  refine ⟨⟨rfl, List.nodup_nil, fun p hp => (nomatch hp), fun p hp => (nomatch hp), fun g hg => (nomatch hg),
    fun r hr => (nomatch hr)⟩, fun b => ⟨⟨none, ⟨rfl, rfl, rfl, rfl, rfl⟩, within_none, fun _ _ h => nomatch h⟩,
      fun _ _ h => (nomatch h), fun r hr => (nomatch hr), List.Pairwise.nil, fun _ _ h => nomatch h⟩⟩

/-! ### The runs -/

variable [DecidableEq β]

theorem step_files (h : Files halving cfg s) (e : Event β) (he : Allowed s e) :
    Files halving cfg (s.step limit halving cfg e) := by
  cases e with
  | turn t opened => exact h.beginTurn he opened
  | write count mtime => exact h.writeSome count mtime
  | replace => exact h.replaceTarget he
  | osError => exact h.abandon
  | kill =>
    exact ⟨h.target, h.stamps, h.sound, fun q hq => (nomatch hq), fun g hg => (nomatch hg), fun r hr => nomatch hr⟩
  | stat b =>
    show Files halving cfg (s.look b)
    unfold look
    split
    · exact h
    · exact ⟨h.target, h.stamps, h.sound, fun p hp => ⟨(h.pending p hp).sound, (h.pending p hp).assessed,
        (h.pending p hp).tmp⟩, h.sources⟩
  | answer b query now =>
    show Files halving cfg (s.finishCall limit b query now)
    unfold finishCall
    split
    · exact h
    · exact ⟨h.target, h.stamps, h.sound, fun p hp => ⟨(h.pending p hp).sound, (h.pending p hp).assessed,
        (h.pending p hp).tmp⟩, h.sources⟩

theorem faithful_update {guards : β → MacroGuard} {b : β} {bot : Bot}
    (hs : ∀ b, Faithful (guards b) s.published (s.bots b)) (h : Faithful (guards b) s.published bot) :
    ∀ b', Faithful (guards b') s.published (Function.update s.bots b bot b') := by
  intro b'
  by_cases heq : b' = b
  · subst heq
    rwa [Function.update_self]
  · rw [Function.update_of_ne heq]
    exact hs b'

theorem step_faithful {guards : β → MacroGuard} (hlimit : 4 ≤ limit) (hargs : cfg.args.Writable)
    (hfiles : Files halving cfg s) (hs : ∀ b, Faithful (guards b) s.published (s.bots b)) (e : Event β) :
    ∀ b, Faithful (guards b) (s.step limit halving cfg e).published ((s.step limit halving cfg e).bots b) := by
  cases e with
  | turn t opened => exact (beginTurn_extends t opened).faithful hs
  | write count mtime => exact (writeSome_extends count mtime).faithful hs
  | replace => exact replaceTarget_extends.faithful hs
  | osError => exact abandon_extends.faithful hs
  | kill => exact hs
  | stat b =>
    show ∀ b', Faithful (guards b') (s.look b).published ((s.look b).bots b')
    unfold Sidecar.look
    split
    · exact hs
    · exact faithful_update hs ((hs b).look hfiles)
  | answer b query now =>
    show ∀ b', Faithful (guards b') (s.finishCall limit b query now).published ((s.finishCall limit b query now).bots b')
    unfold Sidecar.finishCall
    split
    · exact hs
    · next mtime began hseen => exact faithful_update hs ((hs b).finishCall hfiles hlimit hargs hseen query now)

theorem run_coherent (hlimit : 4 ≤ limit) (hargs : cfg.args.Writable) (bots : β → BotConfig) {events : List (Event β)}
    (hallowed : StepsMeet (step limit halving cfg) Allowed (start bots) events) :
    Coherent halving cfg bots (run (step limit halving cfg) (start bots) events) :=
  run_invariant (fun _ e h he => ⟨step_files h.files e he, step_faithful hlimit hargs h.files h.bots e⟩)
    (start_coherent halving cfg bots) hallowed

/-- **The state file is an atomic register.** In every interleaving of the daemon, its failures and any number of bots,
what is in place is the whole of the last state, and every call is answered, on a state that was in place between its
beginning and its end; calls of one bot follow one another, so that they never go back to an older state. -/
theorem reads_atomic (hlimit : 4 ≤ limit) (hargs : cfg.args.Writable) (bots : β → BotConfig) (events : List (Event β))
    (hallowed : StepsMeet (step limit halving cfg) Allowed (start bots) events) :
    let s := run (step limit halving cfg) (start bots) events
    (s.target = s.published.getLast?.map fun p => (p.mtime, fileOf p.draft.state)) ∧
      ∀ b, (∀ r ∈ (s.bots b).replies, r.ended ≤ s.published.length ∧ ∃ k, r.began ≤ k ∧ k ≤ r.ended ∧
          r.result = .ok ((bots b).guard.decide (stateAfter s.published k) r.call)) ∧
        (s.bots b).replies.Pairwise fun r r' => r.ended ≤ r'.began := by
  intro s
  have h := run_coherent hlimit hargs bots hallowed
  exact ⟨h.files.target, fun b => ⟨fun r hr => ⟨((h.bots b).right r hr).ended, ((h.bots b).right r hr).state⟩,
    (h.bots b).ordered⟩⟩

/-- A release at noon. -/
def release : RawEvent :=
  { ts := monday, title := "CPI m/m".toList, currency := "USD".toList, impact := .high, kind := .cpi }

def noon : Turn := { mono := 0, now := monday, fetched := some [release] }

def gold : Unit → BotConfig := fun _ => { assetKey := "XAUUSD".toList }

/-- A call during which the first state is written, one that began before the file was in place, and one after. -/
def overlapping : List (Event Unit) :=
  [.stat (), .turn noon (some 1), .write 100 2, .answer () .riskOffNow monday, .stat (), .write 10000 3, .replace,
    .answer () .riskOffNow monday, .stat (), .answer () .riskOffNow monday]

theorem defaultArgs_writable : Args.Writable {} :=
  ⟨by decide +kernel, by decide +kernel, by decide +kernel⟩

theorem overlapping_allowed : StepsMeet (step 1000 (fun _ => 1) {}) Allowed (start gold) overlapping := by
  have hempty : (run (step 1000 (fun _ => 1) {}) (start gold) (overlapping.take 6)).published = [] :=
    List.isEmpty_iff.mp (by decide +kernel)
  refine ⟨trivial, ⟨fun g hg => (nomatch hg), fun r hr => (nomatch hr)⟩, trivial, trivial, trivial, trivial, ?_, trivial,
    trivial, trivial, trivial⟩
  intro file _ p hp
  exact absurd (hempty ▸ hp) List.not_mem_nil

theorem reads_atomic_overlapping :
    let s := run (step 1000 (fun _ => 1) {}) (start gold) overlapping
    (s.bots ()).replies.map (fun r => (r.began, r.ended)) = [(0, 0), (0, 1), (1, 1)] ∧
      (∀ r ∈ (s.bots ()).replies, ∃ k, r.began ≤ k ∧ k ≤ r.ended ∧
        r.result = .ok ((gold ()).guard.decide (stateAfter s.published k) r.call)) := by
  intro s
  have h := reads_atomic (by decide) defaultArgs_writable gold overlapping overlapping_allowed
  exact ⟨by decide +kernel, fun r hr => ((h.2 ()).1 r hr).2⟩

end Sidecar

end Macro

end FreqTrading
