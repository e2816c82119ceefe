import FreqTrading.Exits.RiskUnit

/-!
# The stop moves of the ladder

`LadderExitManager` moves the stop of a ticket in two stages. What the stages of one visit can do is `StageStep`; what
they do over the whole life of a ticket, from its first snapshot to its final close, is `Disciplined`: the two flags
carry the count, and a stage that has moved the stop in a bar is settled for that bar (`Settled`).
-/

namespace FreqTrading

open Lib

namespace Ladder

variable {cfg : LadderConfig} {p : Position} {st : PosState} {close spread : ℚ} {candidate : Option Candle}

/-! ### One visit -/

/-- What the discrete stop of a visit can do. -/
inductive StageStep (cfg : LadderConfig) (p : Position) (st : PosState) (close : ℚ) (candidate : Option Candle) :
    List SitterAction → PosState → Prop
  | quiet : StageStep cfg p st close candidate [] st
  | breakeven (c : Candle) (sl : ℚ) (hc : candidate = some c) (hfirst : st.stage1Done = false)
      (hsecond : st.stage2Done = false) (hfrom : cfg.stage1AtR ≤ PosState.gain st p.direction c.close / st.d)
      (hbelow : PosState.gain st p.direction c.close / st.d < cfg.stage2AtR) (htight : p.tightens sl = true)
      (hvalid : validAt sl close p.direction = true) :
      StageStep cfg p st close candidate [.updateSl p.ticket sl] { st with stage1Done := true }
  | lock (c : Candle) (hsecond : st.stage2Done = false)
      (htight : p.tightens (stage2Level cfg st.entry st.d c p.direction) = true)
      (hvalid : validAt (stage2Level cfg st.entry st.d c p.direction) close p.direction = true) :
      StageStep cfg p st close candidate [.updateSl p.ticket (stage2Level cfg st.entry st.d c p.direction)]
        { st with stage1Done := true, stage2Done := true }

theorem stage_cases (cfg : LadderConfig) (p : Position) (st : PosState) (close spread : ℚ) (candidate : Option Candle) :
    StageStep cfg p st close candidate (stage cfg p st close spread candidate).1
      (stage cfg p st close spread candidate).2 := by
  unfold stage
  cases hc : candidate with
  | none => exact .quiet
  | some c =>
    dsimp only
    by_cases hsecond : st.stage2Done = true
    · rw [if_pos hsecond]
      exact .quiet
    rw [if_neg hsecond]
    rw [Bool.not_eq_true] at hsecond
    unfold staged
    dsimp only
    by_cases htwo : cfg.stage2AtR ≤ PosState.gain st p.direction c.close / st.d
    · rw [if_pos htwo]
      dsimp only
      split
      · next hmoves =>
        rw [Bool.and_eq_true] at hmoves
        exact .lock c hsecond hmoves.1 hmoves.2
      · exact .quiet
    rw [if_neg htwo]
    by_cases hone : (!st.stage1Done) = true ∧ cfg.stage1AtR ≤ PosState.gain st p.direction c.close / st.d
    · rw [if_pos hone]
      dsimp only
      split
      · next hmoves =>
        rw [Bool.and_eq_true] at hmoves
        exact .breakeven c _ rfl (by simpa using hone.1) hsecond hone.2 (not_le.mp htwo) hmoves.1 hmoves.2
      · exact .quiet
    · rw [if_neg hone]
      exact .quiet

/-- The candidate of the bar has nothing left to move the stop for. -/
def Settled (cfg : LadderConfig) (st : PosState) (candidate : Option Candle) : Prop :=
  st.stage2Done = true ∨ st.stage1Done = true ∧
    ∀ c, candidate = some c → ∀ direction, PosState.gain st direction c.close / st.d < cfg.stage2AtR

theorem stage_settled (h : Settled cfg st candidate) : stage cfg p st close spread candidate = ([], st) := by
  unfold stage
  cases hc : candidate with
  | none => rfl
  | some c =>
    dsimp only
    rcases h with hsecond | ⟨hfirst, hbelow⟩
    · rw [if_pos hsecond]
    · have htwo := not_le.mpr (hbelow c hc p.direction)
      unfold staged
      simp only [if_neg htwo, hfirst, Bool.not_true, Bool.false_eq_true, false_and, if_false, ite_self]

theorem PosState.gain_le (st : PosState) (direction other : Direction) (price : ℚ) :
    PosState.gain st other price ≤ |PosState.gain st direction price| := by
  cases direction with
  | long =>
    cases other with
    | long => exact le_abs_self _
    | short =>
      have h := neg_le_abs (price - st.entry)
      rwa [neg_sub] at h
  | short =>
    cases other with
    | long =>
      have h := neg_le_abs (st.entry - price)
      rwa [neg_sub] at h
    | short => exact le_abs_self _

theorem StageStep.settled {acts : List SitterAction} {st' : PosState} (hd : 0 < st.d)
    (h : StageStep cfg p st close candidate acts st') : acts = [] ∨ Settled cfg st' candidate := by
  cases h with
  | quiet => exact Or.inl rfl
  | breakeven c sl hc hfirst hsecond hfrom hbelow htight hvalid =>
    refine Or.inr (Or.inr ⟨rfl, fun c' hc' direction => ?_⟩)
    rw [hc] at hc'
    cases hc'
    have hpos : 0 < PosState.gain st p.direction c.close := by
      have hratio := cfg.stage1_pos.trans_le hfrom
      exact (div_pos_iff_of_pos_right hd).mp hratio
    have hother := PosState.gain_le st p.direction direction c.close
    rw [abs_of_pos hpos] at hother
    exact lt_of_le_of_lt (div_le_div_of_nonneg_right hother hd.le) hbelow
  | lock => exact Or.inr (Or.inl rfl)

theorem rungs_keep (cfg : LadderConfig) (p : Position) (r : ℚ) (st : PosState) :
    ∃ filled, (rungs cfg p r st).st = { st with filled := filled } := by
  have h : ∀ (levels : List ((ℚ × ℚ) × Nat)) (s : Rungs),
      ∃ filled, (levels.foldl (rung cfg p r) s).st = { s.st with filled := filled } := by
    intro levels
    induction levels with
    | nil => exact fun s => ⟨s.st.filled, rfl⟩
    | cons level levels ih =>
      intro s
      obtain ⟨filled, hrest⟩ := ih (rung cfg p r s level)
      obtain ⟨filled', hone⟩ : ∃ filled, (rung cfg p r s level).st = { s.st with filled := filled } := by
        unfold rung
        split
        · exact ⟨s.st.filled, rfl⟩
        · dsimp only
          split <;> exact ⟨_, rfl⟩
      rw [List.foldl_cons, hrest, hone]
      exact ⟨filled, rfl⟩
  exact h _ _

theorem riskUnit_pos (cfg : LadderConfig) (p : Position) : 0 < riskUnit cfg p := by
  unfold riskUnit
  dsimp only
  split
  · exact cfg.defaultD_pos
  · next hpos => exact not_le.mp hpos

/-- The stop that an action asks for, for the ticket. -/
def stopOf (ticket : Nat) : SitterAction → Option ℚ
  | .partialClose _ _ => none
  | .updateSl t sl => if t = ticket then some sl else none

theorem rungs_acts (cfg : LadderConfig) (p : Position) (r : ℚ) (st : PosState) (ticket : Nat) :
    (rungs cfg p r st).acts.filterMap (stopOf ticket) = [] := by
  have h : ∀ (levels : List ((ℚ × ℚ) × Nat)) (s : Rungs), s.acts.filterMap (stopOf ticket) = [] →
      (levels.foldl (rung cfg p r) s).acts.filterMap (stopOf ticket) = [] := by
    intro levels
    induction levels with
    | nil => exact fun _ hs => hs
    | cons level levels ih =>
      intro s hs
      refine ih _ ?_
      unfold rung
      split
      · exact hs
      · dsimp only
        split
        · exact hs
        · rw [List.filterMap_append, hs]
          rfl
  exact h _ _ rfl

theorem visit_stops (cfg : LadderConfig) (candle : Candle) (spread : Nat → ℚ) (l : Ladder) (p : Position) :
    ((l.visit cfg candle spread p).1.filterMap (stopOf p.ticket) = [] ∧
        (l.visit cfg candle spread p).2.trades p.ticket = none) ∨
      ∃ filled acts st', StageStep cfg p { l.stateOf cfg p with filled := filled } candle.close l.prevCandle acts st' ∧
        (Settled cfg (l.stateOf cfg p) l.prevCandle → acts = [] ∧ st' = { l.stateOf cfg p with filled := filled }) ∧
        (l.visit cfg candle spread p).1.filterMap (stopOf p.ticket) = acts.filterMap (stopOf p.ticket) ∧
        (l.visit cfg candle spread p).2.trades p.ticket = some st' := by
  unfold visit
  dsimp only
  split
  · left
    constructor
    · rw [List.filterMap_append, rungs_acts]
      split <;> rfl
    · exact Memory.drop_self _ _
  · right
    obtain ⟨filled, hst⟩ := rungs_keep cfg p (PosState.gain (l.stateOf cfg p) p.direction candle.close / (l.stateOf cfg p).d)
      (l.stateOf cfg p)
    have hstep := stage_cases cfg p { l.stateOf cfg p with filled := filled } candle.close (spread p.ticket) l.prevCandle
    rw [hst]
    refine ⟨filled, _, _, hstep, fun hsettled => ?_, ?_, Memory.put_self _ _ _⟩
    · have hquiet : stage cfg p { l.stateOf cfg p with filled := filled } candle.close (spread p.ticket) l.prevCandle =
          ([], { l.stateOf cfg p with filled := filled }) := stage_settled hsettled
      rw [hquiet]
      exact ⟨rfl, rfl⟩
    · rw [List.filterMap_append, rungs_acts, List.nil_append]

theorem visit_other (cfg : LadderConfig) (candle : Candle) (spread : Nat → ℚ) (l : Ladder) (p : Position) {ticket : Nat}
    (h : p.ticket ≠ ticket) : (l.visit cfg candle spread p).2.trades ticket = l.trades ticket := by
  unfold visit
  dsimp only
  split
  · exact Memory.drop_of_ne _ (Ne.symm h)
  · exact Memory.put_of_ne _ (Ne.symm h) _

theorem visit_prevCandle (cfg : LadderConfig) (candle : Candle) (spread : Nat → ℚ) (l : Ladder) (p : Position) :
    (l.visit cfg candle spread p).2.prevCandle = l.prevCandle := by
  unfold visit
  dsimp only
  split <;> rfl

/-! ### The life of a ticket -/

/-- A stop move asked for: the bar, the position as its snapshot has it, the close, and the new stop. -/
structure StopMove where
  bar : Nat
  position : Position
  close : ℚ
  sl : ℚ
  /-- The second stage is done with it. -/
  stage2 : Bool
  deriving DecidableEq, Repr

/-- A ladder, and one of its tickets watched: how it was first seen, the stop moves asked for, and whether the final
target has closed it. -/
structure StopWatch where
  manager : Ladder := {}
  bar : Nat := 0
  first : Option Position := none
  moves : List StopMove := []
  closed : Bool := false

variable (cfg : LadderConfig) (ticket : Nat)

def watchStops (candle : Candle) (spread : Nat → ℚ) (w : StopWatch) (p : Position) : StopWatch :=
  let out := w.manager.visit cfg candle spread p
  if p.ticket = ticket ∧ w.closed = false then
    { w with
      manager := out.2
      first := w.first.or (some p)
      moves := w.moves ++ (out.1.filterMap (stopOf ticket)).map fun sl =>
        ⟨w.bar, p, candle.close, sl, (out.2.trades ticket).any (·.stage2Done)⟩
      closed := (out.2.trades ticket).isNone }
  else { w with manager := out.2 }

def watchStopsBar (w : StopWatch) (bar : LadderBar) : StopWatch :=
  { run (watchStops cfg ticket bar.candle bar.spread) w bar.positions with
    manager := (w.manager.onBar cfg bar.candle bar.spread bar.positions).2
    bar := w.bar + 1 }

/-- Once seen, the ticket is in the snapshot, up to its final close. -/
def Present (w : StopWatch) (bar : LadderBar) : Prop :=
  w.first.isSome = true → w.closed = false → ticket ∈ bar.positions.map (·.ticket)

instance (w : StopWatch) (bar : LadderBar) : Decidable (Present ticket w bar) := inferInstanceAs (Decidable (_ → _ → _))

/-- `x` protects more than `y`, of the stops of a position. -/
def Tighter : Direction → ℚ → ℚ → Prop
  | .long, x, y => y < x
  | .short, x, y => x < y

/-- What a stop at `sl` locks in, counted from the entry. -/
def locked (entry sl : ℚ) : Direction → ℚ
  | .long => sl - entry
  | .short => entry - sl

/-- The stop discipline of a ticket. -/
structure Disciplined (w : StopWatch) : Prop where
  few : w.moves.length ≤ 2
  onePerBar : (w.moves.map (·.bar)).Nodup
  tighter : ∀ m ∈ w.moves, m.position.sl ≠ 0 → Tighter m.position.direction m.sl m.position.sl
  losing : ∀ m ∈ w.moves, Tighter m.position.direction m.close m.sl
  last : ∀ m ∈ w.moves.dropLast, m.stage2 = false
  locks : ∀ m ∈ w.moves, m.stage2 = true → ∀ p ∈ w.first,
    cfg.stage2MinLockR * riskUnit cfg p ≤ locked p.priceOpen m.sl m.position.direction

/-- The state of a ticket first seen as `first`, with the moves that its flags account for. -/
structure Tracks (w : StopWatch) (first : Position) (st : PosState) : Prop where
  entry : st.entry = first.priceOpen
  unit : st.d = riskUnit cfg first
  count : w.moves.length ≤ st.stage1Done.toNat + st.stage2Done.toNat
  latch : st.stage2Done = false → ∀ m ∈ w.moves, m.stage2 = false
  settled : (∃ m ∈ w.moves, m.bar = w.bar) → Settled cfg st w.manager.prevCandle

/-- The watch of a ticket, between two visits. -/
structure Watching (w : StopWatch) : Prop where
  disciplined : Disciplined cfg w
  past : ∀ m ∈ w.moves, m.bar ≤ w.bar
  tracks : w.closed = false →
    (w.manager.trades ticket = none ∧ w.first = none ∧ w.moves = []) ∨
      ∃ first st, w.manager.trades ticket = some st ∧ w.first = some first ∧ Tracks cfg w first st

section steps

variable {cfg : LadderConfig} {ticket : Nat} {w : StopWatch} {first p : Position} {st : PosState} {m : StopMove}

theorem Tighter.of_tightens {sl : ℚ} (h : p.tightens sl = true) (hsl : p.sl ≠ 0) : Tighter p.direction sl p.sl := by
  unfold Position.tightens at h
  simp only [hsl, decide_false, Bool.false_or] at h
  unfold Tighter
  cases hdir : p.direction with
  | long => simpa [hdir] using h
  | short => simpa [hdir] using h

theorem Tighter.of_validAt {sl close : ℚ} {direction : Direction} (h : validAt sl close direction = true) :
    Tighter direction close sl := by
  cases direction with
  | long => simpa [validAt, Tighter] using h
  | short => simpa [validAt, Tighter] using h

theorem locked_stage2Level (cfg : LadderConfig) (entry d : ℚ) (c : Candle) (direction : Direction) :
    cfg.stage2MinLockR * d ≤ locked entry (stage2Level cfg entry d c direction) direction := by
  cases direction with
  | long =>
    have hfloor := le_max_right (c.low - cfg.stage2Buffer) (entry + cfg.stage2MinLockR * d)
    unfold locked stage2Level
    linarith
  | short =>
    have hceil := min_le_right (c.high + cfg.stage2Buffer) (entry - cfg.stage2MinLockR * d)
    unfold locked stage2Level
    linarith

theorem Watching.at_visit (h : Watching cfg ticket w) (hopen : w.closed = false) (hp : p.ticket = ticket) :
    ∃ first, w.first.or (some p) = some first ∧ (w.moves = [] ∨ w.first = some first) ∧
      Tracks cfg w first (w.manager.stateOf cfg p) := by
  rcases h.tracks hopen with ⟨hnone, hfirst, hmoves⟩ | ⟨first, st, hst, hfirst, htracks⟩
  · refine ⟨p, by rw [hfirst]; rfl, Or.inl hmoves, ?_⟩
    have hfresh : w.manager.stateOf cfg p = { entry := p.priceOpen, d := riskUnit cfg p, vol0 := p.volume } := by
      unfold stateOf
      rw [hp, hnone]
      rfl
    rw [hfresh]
    constructor
    · rfl
    · rfl
    · rw [hmoves]
      exact Nat.zero_le _
    · intro _ m hm
      rw [hmoves] at hm
      cases hm
    · rintro ⟨m, hm, -⟩
      rw [hmoves] at hm
      cases hm
  · refine ⟨first, by rw [hfirst]; rfl, Or.inr hfirst, ?_⟩
    have hsame : w.manager.stateOf cfg p = st := by
      unfold stateOf
      rw [hp, hst]
      rfl
    rw [hsame]
    exact htracks

theorem Disciplined.push (h : Disciplined cfg w) {w' : StopWatch} (hmoves : w'.moves = w.moves ++ [m])
    (hfirst : w'.first = some first) (hsame : w.moves = [] ∨ w.first = some first) (hroom : w.moves.length ≤ 1)
    (hlatch : ∀ m ∈ w.moves, m.stage2 = false) (hbar : ∀ m' ∈ w.moves, m'.bar ≠ m.bar)
    (htight : m.position.sl ≠ 0 → Tighter m.position.direction m.sl m.position.sl)
    (hlosing : Tighter m.position.direction m.close m.sl)
    (hlocks : m.stage2 = true →
      cfg.stage2MinLockR * riskUnit cfg first ≤ locked first.priceOpen m.sl m.position.direction) :
    Disciplined cfg w' := by
  constructor
  · rw [hmoves, List.length_append, List.length_singleton]
    omega
  · rw [hmoves, List.map_append, List.map_singleton, List.nodup_append]
    refine ⟨h.onePerBar, List.pairwise_singleton _ _, fun bar hold bar' hnew heq => ?_⟩
    obtain ⟨m', hm', rfl⟩ := List.mem_map.mp hold
    rw [List.mem_singleton] at hnew
    exact hbar m' hm' (heq.trans hnew)
  · rw [hmoves]
    intro m' hm'
    rcases List.mem_append.mp hm' with hold | hnew
    · exact h.tighter m' hold
    · cases List.mem_singleton.mp hnew
      exact htight
  · rw [hmoves]
    intro m' hm'
    rcases List.mem_append.mp hm' with hold | hnew
    · exact h.losing m' hold
    · cases List.mem_singleton.mp hnew
      exact hlosing
  · rw [hmoves, List.dropLast_concat]
    exact hlatch
  · rw [hmoves, hfirst]
    intro m' hm' hstage2 p hp
    cases hp
    rcases List.mem_append.mp hm' with hold | hnew
    · rcases hsame with hnone | hsome
      · rw [hnone] at hold
        cases hold
      · exact h.locks m' hold hstage2 _ hsome
    · cases List.mem_singleton.mp hnew
      exact hlocks hstage2

theorem Disciplined.quiet (h : Disciplined cfg w) {w' : StopWatch} (hmoves : w'.moves = w.moves)
    (hfirst : w'.first = some first) (hsame : w.moves = [] ∨ w.first = some first) : Disciplined cfg w' := by
  refine ⟨by rw [hmoves]; exact h.few, by rw [hmoves]; exact h.onePerBar, by rw [hmoves]; exact h.tighter,
    by rw [hmoves]; exact h.losing, by rw [hmoves]; exact h.last, ?_⟩
  rw [hmoves, hfirst]
  intro m hm hstage2 p hp
  cases hp
  rcases hsame with hnone | hsome
  · rw [hnone] at hm
    cases hm
  · exact h.locks m hm hstage2 _ hsome

theorem StageStep.move {close : ℚ} {candidate : Option Candle} {acts : List SitterAction} {st' : PosState}
    (h : StageStep cfg p st close candidate acts st') :
    (acts = [] ∧ st' = st) ∨ ∃ sl, acts = [.updateSl p.ticket sl] ∧ p.tightens sl = true ∧
      validAt sl close p.direction = true ∧ st'.entry = st.entry ∧ st'.d = st.d ∧ st.stage2Done = false ∧
      st.stage1Done.toNat + 1 ≤ st'.stage1Done.toNat + st'.stage2Done.toNat ∧
      (st'.stage2Done = true → cfg.stage2MinLockR * st.d ≤ locked st.entry sl p.direction) := by
  cases h with
  | quiet => exact Or.inl ⟨rfl, rfl⟩
  | breakeven c sl hc hfirst hsecond hfrom hbelow htight hvalid =>
    refine Or.inr ⟨sl, rfl, htight, hvalid, rfl, rfl, hsecond, ?_, fun hdone => ?_⟩
    · rw [hfirst]
      exact Nat.le_add_right _ _
    · rw [hsecond] at hdone
      cases hdone
  | lock c hsecond htight hvalid =>
    refine Or.inr ⟨_, rfl, htight, hvalid, rfl, rfl, hsecond, ?_, fun _ => locked_stage2Level cfg _ _ c _⟩
    have hflag := Bool.toNat_le st.stage1Done
    simp only [Bool.toNat_true]
    omega

theorem Tracks.push (h : Tracks cfg w first st) {st' : PosState} {w' : StopWatch} (hmoves : w'.moves = w.moves ++ [m])
    (hentry : st'.entry = st.entry) (hunit : st'.d = st.d)
    (hcount : w.moves.length + 1 ≤ st'.stage1Done.toNat + st'.stage2Done.toNat) (hlatch : ∀ m ∈ w.moves, m.stage2 = false)
    (hdone : m.stage2 = st'.stage2Done) (hsettled : Settled cfg st' w'.manager.prevCandle) : Tracks cfg w' first st' := by
  refine ⟨hentry.trans h.entry, hunit.trans h.unit, ?_, fun hsecond m' hm' => ?_, fun _ => hsettled⟩
  · rw [hmoves, List.length_append, List.length_singleton]
    exact hcount
  · rw [hmoves] at hm'
    rcases List.mem_append.mp hm' with hold | hnew
    · exact hlatch m' hold
    · cases List.mem_singleton.mp hnew
      exact hdone.trans hsecond

theorem Watching.skip (h : Watching cfg ticket w) (candle : Candle) (spread : Nat → ℚ) {p : Position}
    (hother : w.closed = false → p.ticket ≠ ticket) :
    Watching cfg ticket { w with manager := (w.manager.visit cfg candle spread p).2 } := by
  refine ⟨⟨h.disciplined.few, h.disciplined.onePerBar, h.disciplined.tighter, h.disciplined.losing, h.disciplined.last,
    h.disciplined.locks⟩, h.past, fun hopen => ?_⟩
  have hkept := visit_other cfg candle spread w.manager p (hother hopen)
  rcases h.tracks hopen with ⟨hnone, hfirst, hmoves⟩ | ⟨first, st, hst, hfirst, htracks⟩
  · exact Or.inl ⟨hkept.trans hnone, hfirst, hmoves⟩
  · refine Or.inr ⟨first, st, hkept.trans hst, hfirst, ?_⟩
    refine ⟨htracks.entry, htracks.unit, htracks.count, htracks.latch, fun hmoved => ?_⟩
    show Settled cfg st (w.manager.visit cfg candle spread p).2.prevCandle
    rw [visit_prevCandle]
    exact htracks.settled hmoved

theorem Watching.visit (h : Watching cfg ticket w) (candle : Candle) (spread : Nat → ℚ) (p : Position) :
    Watching cfg ticket (watchStops cfg ticket candle spread w p) := by
  have hprev := visit_prevCandle cfg candle spread w.manager p
  unfold watchStops
  dsimp only
  by_cases hmine : p.ticket = ticket ∧ w.closed = false
  · rw [if_pos hmine]
    obtain ⟨hp, hopen⟩ := hmine
    obtain ⟨first, hfirst, hsame, htracks⟩ := h.at_visit hopen hp
    subst hp
    rcases visit_stops cfg candle spread w.manager p with ⟨hnone, htrades⟩ | ⟨filled, acts, st', hstep, hquiet, hacts, htrades⟩
    · rw [hnone, htrades, List.map_nil, List.append_nil]
      exact ⟨h.disciplined.quiet rfl hfirst hsame, h.past, fun hclosed => by cases hclosed⟩
    · rw [hacts, htrades]
      rcases hstep.move with ⟨rfl, rfl⟩ | ⟨sl, rfl, htight, hvalid, hentry, hunit, hsecond, hflags, hlock⟩
      · refine ⟨h.disciplined.quiet (by simp) hfirst hsame, by simpa using h.past, fun _ => Or.inr ⟨first, _, htrades, hfirst, ?_⟩⟩
        refine ⟨htracks.entry, htracks.unit, by simpa using htracks.count, by simpa using htracks.latch, ?_⟩
        intro hmoved
        rw [hprev]
        exact htracks.settled (by simpa using hmoved)
      · -- the bar had no move of the ticket before this one
        have hnew : ∀ m ∈ w.moves, m.bar ≠ w.bar := by
          intro m hm hbar
          have hnone := (hquiet (htracks.settled ⟨m, hm, hbar⟩)).1
          cases hnone
        have hlatch := htracks.latch hsecond
        have hcount := htracks.count
        dsimp only at hsecond hentry hunit hflags hlock
        rw [hsecond, Bool.toNat_false, Nat.add_zero] at hcount
        have hone := Bool.toNat_le (w.manager.stateOf cfg p).stage1Done
        have hlist : [SitterAction.updateSl p.ticket sl].filterMap (stopOf p.ticket) = [sl] := by simp [stopOf]
        rw [hlist, List.map_singleton]
        have hd : 0 < ({ w.manager.stateOf cfg p with filled := filled } : PosState).d := by
          show 0 < (w.manager.stateOf cfg p).d
          rw [htracks.unit]
          exact riskUnit_pos cfg first
        refine ⟨h.disciplined.push rfl hfirst hsame (by omega) hlatch hnew ?_ ?_ ?_, ?_, fun _ =>
          Or.inr ⟨first, st', htrades, hfirst, ?_⟩⟩
        · exact Tighter.of_tightens htight
        · exact Tighter.of_validAt hvalid
        · intro hdone
          rw [← htracks.unit, ← htracks.entry]
          exact hlock (by simpa using hdone)
        · intro m hm
          rcases List.mem_append.mp hm with hold | hnew
          · exact h.past m hold
          · cases List.mem_singleton.mp hnew
            exact le_rfl
        · refine htracks.push rfl hentry hunit (by omega) hlatch (by simp) ?_
          rw [hprev]
          rcases hstep.settled hd with hnone | hsettled
          · cases hnone
          · exact hsettled
  · rw [if_neg hmine]
    exact h.skip candle spread fun hopen hp => hmine ⟨hp, hopen⟩

/-! ### Bars -/

theorem run_ladder {ω : Type} {watch : ω → Position → ω} {ladder : ω → Ladder} {candle : Candle} {spread : Nat → ℚ}
    (hwatch : ∀ w p, ladder (watch w p) = ((ladder w).visit cfg candle spread p).2) (w : ω) (ps : List Position) :
    ladder (run watch w ps) = ((ladder w).visits cfg candle spread ps).2 := by
  induction ps generalizing w with
  | nil => rfl
  | cons p ps ih =>
    rw [run_cons, ih, hwatch]
    rfl

theorem watchStops_manager (candle : Candle) (spread : Nat → ℚ) (w : StopWatch) (ps : List Position) :
    (run (watchStops cfg ticket candle spread) w ps).manager = (w.manager.visits cfg candle spread ps).2 := by
  refine run_ladder (fun w p => ?_) w ps
  unfold watchStops
  dsimp only
  split <;> rfl

theorem watchStops_absent (candle : Candle) (spread : Nat → ℚ) (w : StopWatch) {ps : List Position}
    (h : ticket ∉ ps.map (·.ticket)) : (run (watchStops cfg ticket candle spread) w ps).first = w.first ∧
      (run (watchStops cfg ticket candle spread) w ps).closed = w.closed := by
  have hothers : ∀ p ∈ ps, p.ticket ≠ ticket := fun p hp heq => h (heq ▸ List.mem_map_of_mem hp)
  refine run_invariant (I := fun w' : StopWatch => w'.first = w.first ∧ w'.closed = w.closed) ?_ ⟨rfl, rfl⟩
    (stepsMeet_of_forall hothers)
  intro w' p hw' hother
  unfold watchStops
  dsimp only
  rw [if_neg fun hmine => hother hmine.1]
  exact hw'

theorem Watching.bar (h : Watching cfg ticket w) {bar : LadderBar} (hpresent : Present ticket w bar) :
    Watching cfg ticket (watchStopsBar cfg ticket w bar) := by
  have hrun : Watching cfg ticket (run (watchStops cfg ticket bar.candle bar.spread) w bar.positions) ∧
      (run (watchStops cfg ticket bar.candle bar.spread) w bar.positions).bar = w.bar := by
    refine run_always (I := fun w' => Watching cfg ticket w' ∧ w'.bar = w.bar) ?_ ⟨h, rfl⟩ bar.positions
    rintro w' p ⟨hw', hbar⟩
    refine ⟨hw'.visit bar.candle bar.spread p, ?_⟩
    unfold watchStops
    dsimp only
    split <;> exact hbar
  have hmanager : (run (watchStops cfg ticket bar.candle bar.spread) w bar.positions).manager =
      (w.manager.visits cfg bar.candle bar.spread bar.positions).2 := watchStops_manager bar.candle bar.spread w bar.positions
  have habsent : ticket ∉ bar.positions.map (·.ticket) →
      (run (watchStops cfg ticket bar.candle bar.spread) w bar.positions).first = w.first ∧
        (run (watchStops cfg ticket bar.candle bar.spread) w bar.positions).closed = w.closed :=
    watchStops_absent bar.candle bar.spread w
  have htrades : (watchStopsBar cfg ticket w bar).manager.trades =
      ((w.manager.visits cfg bar.candle bar.spread bar.positions).2.trades).keep (bar.positions.map (·.ticket)) := rfl
  rw [← hmanager] at htrades
  unfold watchStopsBar at htrades ⊢
  generalize run (watchStops cfg ticket bar.candle bar.spread) w bar.positions = w' at *
  obtain ⟨hw', hbar⟩ := hrun
  have hpast : ∀ m ∈ w'.moves, m.bar ≤ w.bar := fun m hm => hbar ▸ hw'.past m hm
  refine ⟨⟨hw'.disciplined.few, hw'.disciplined.onePerBar, hw'.disciplined.tighter, hw'.disciplined.losing,
    hw'.disciplined.last, hw'.disciplined.locks⟩, fun m hm => (hpast m hm).trans (Nat.le_succ _), fun hopen => ?_⟩
  rw [htrades]
  unfold Memory.keep
  by_cases hin : ticket ∈ bar.positions.map (·.ticket)
  · rw [if_pos hin]
    rcases hw'.tracks hopen with hnone | ⟨first, st, hst, hfirst, htracks⟩
    · exact Or.inl hnone
    · -- a new bar: none of the moves is of it
      refine Or.inr ⟨first, st, hst, hfirst, htracks.entry, htracks.unit, htracks.count, htracks.latch, ?_⟩
      rintro ⟨m, hm, hnow⟩
      exact absurd hnow (Nat.ne_of_lt (Nat.lt_succ_of_le (hpast m hm)))
  · obtain ⟨hfirst, hclosed⟩ := habsent hin
    have hunseen : w.first = none := by
      cases hseen : w.first with
      | none => rfl
      | some first => exact absurd (hpresent (by rw [hseen]; rfl) (hclosed.symm.trans hopen)) hin
    rw [if_neg hin]
    rcases hw'.tracks hopen with ⟨-, hnone, hmoves⟩ | ⟨first, st, -, hsome, -⟩
    · exact Or.inl ⟨rfl, hnone, hmoves⟩
    · rw [hfirst, hunseen] at hsome
      cases hsome

end steps

theorem Disciplined.start (cfg : LadderConfig) : Disciplined cfg {} :=
  ⟨Nat.zero_le _, List.nodup_nil, fun _ h => (by cases h), fun _ h => (by cases h), fun _ h => (by cases h),
    fun _ h => (by cases h)⟩

/-- **The stop discipline of the ladder.** Over any bars in which the ticket is there from its first snapshot to its
final close, at most two stop moves are asked for, at most one per bar, each tighter than the stop there is and short
of the close; none follows the second stage, which locks in its share of the risk unit. -/
theorem ladder_disciplined (cfg : LadderConfig) (ticket : Nat) (bars : List LadderBar)
    (hpresent : StepsMeet (watchStopsBar cfg ticket) (Present ticket) {} bars) :
    Disciplined cfg (run (watchStopsBar cfg ticket) {} bars) := by
  have hstart : Watching cfg ticket {} :=
    ⟨Disciplined.start cfg, fun _ h => (by cases h), fun _ => Or.inl ⟨rfl, rfl, rfl⟩⟩
  exact (run_invariant (I := Watching cfg ticket) (fun _ _ h hpresent => h.bar hpresent) hstart hpresent).disciplined

theorem defaults_volumes : (0 : ℚ) < 1 / 100 ∧ (0 : ℚ) < 1 / 100 := by norm_num

theorem defaults_r : (0 : ℚ) < 1 := by norm_num

theorem defaults_stages : (1 : ℚ) < 2 := by norm_num

theorem defaults_value : (0 : ℚ) < 100 := by norm_num

/-- `LadderExitManager()`. -/
def defaults : LadderConfig where
  volumes_pos := defaults_volumes
  defaultD_pos := LadderConfig.two_pos
  stage1_pos := defaults_r
  stage2_gt := defaults_stages
  minLock_pos := defaults_r
  value_pos := defaults_value

/-- A long position from 100 with its stop at 98, on bars that close at 102, 105, 106 and 107. -/
def climb : List LadderBar :=
  [⟨[longFrom100 98], flatCandle 0 102, fun _ => 0⟩, ⟨[longFrom100 98], flatCandle 60000000 105, fun _ => 0⟩,
    ⟨[longFrom100 (10007 / 100)], flatCandle 120000000 106, fun _ => 0⟩,
    ⟨[longFrom100 (209 / 2)], flatCandle 180000000 107, fun _ => 0⟩]

/-- Breakeven on the second bar, the lock on the third, and no more. -/
theorem ladder_disciplined_climb :
    Disciplined defaults (run (watchStopsBar defaults 1) {} climb) ∧
      (run (watchStopsBar defaults 1) {} climb).moves.map (fun m => (m.bar, m.sl, m.stage2)) =
        [(1, 10007 / 100, false), (2, 209 / 2, true)] :=
  ⟨ladder_disciplined defaults 1 climb (by decide +kernel), by decide +kernel⟩

end Ladder

end FreqTrading
