import FreqTrading.Feeds.Mt5Feed

/-!
# What the feed makes of any batches

The terminal of `Mt5Feed` has a history that only grows. A terminal that reconnects may also answer with older bars than
before, or with more or fewer of them. Here a poll gets any rates whatsoever, and a poll of a history is one such
(`poll_eq_batch`). One watermark, the time of the last bar yielded, keeps the candles in order (`Faithful`); one
measurement decides by how much all of them are shifted (`FreshAtLock`).
-/

namespace FreqTrading

namespace Mt5Feed

open Lib

/-- A poll with the rates that it gets. Its `arrived` and `answered` say no more. -/
structure Fetch where
  rates : Option (List Rate)
  poll : Poll
  deriving DecidableEq, Repr

/-- The closed bars and the forming one, unless there are fewer than two rates. -/
def Fetch.split (b : Fetch) : Option (List Rate × Rate) :=
  match b.rates with
  | none => none
  | some rates => if rates.length < 2 then none else rates.getLast?.map fun forming => (rates.dropLast, forming)

/-- One turn of the loop. -/
def Feed.pollBatch (cfg : Config) (f : Feed) (b : Fetch) : Feed :=
  if f.raised then f
  else
    match b.split with
    | none => f.noRates cfg b.poll
    | some (closed, forming) =>
      match f.lockOffset forming.time b.poll.now with
      | none => { f with failStreak := 0 }
      | some offset =>
        ((closed.foldl (Feed.emit offset) { f with failStreak := 0, offset := some offset }).warmed b.poll).watchdog cfg
          b.poll

variable {hist : History} {cfg : Config} {f : Feed} {p : Poll} {b : Fetch}

theorem copyRates_split {visible count : Nat} (h : 2 ≤ (copyRates hist visible count).length) :
    Fetch.split ⟨some (copyRates hist visible count), p⟩ =
      some ((copyRates hist visible count).dropLast, hist.rate (visible - 1)) := by
  have hlast : (copyRates hist visible count).getLast? = some (hist.rate (visible - 1)) := by
    rw [copyRates_length] at h
    unfold copyRates
    rw [List.getLast?_map, List.getLast?_drop, List.length_range, if_neg (by omega), List.getLast?_range,
      if_neg (by omega)]
    rfl
  unfold Fetch.split
  dsimp only
  rw [if_neg (by omega), hlast]
  rfl

/-- A poll of a history is the poll of the batch that is copied from it. -/
theorem poll_eq_batch (hopen : f.raised = false) :
    f.poll hist cfg p =
      Feed.pollBatch cfg
        (if f.succeeds hist p then
          { f with
            visible := f.visible + p.arrived
            first := f.first.or (some (f.visible + p.arrived))
            seen := f.visible + p.arrived }
        else { f with visible := f.visible + p.arrived })
        ⟨if p.answered then some (copyRates hist (f.visible + p.arrived) f.count) else none, p⟩ := by
  unfold Feed.poll
  rw [if_neg (by simp [hopen])]
  dsimp only
  by_cases hsucceeds : f.succeeds hist p
  · rw [if_pos hsucceeds, if_pos hsucceeds, if_pos hsucceeds.1]
    unfold Feed.pollBatch
    dsimp only
    rw [if_neg (by simp [hopen]), copyRates_split hsucceeds.2]
    rfl
  · rw [if_neg hsucceeds, if_neg hsucceeds]
    unfold Feed.pollBatch
    dsimp only
    rw [if_neg (by simp [hopen])]
    have hsplit : Fetch.split ⟨if p.answered then some (copyRates hist (f.visible + p.arrived) f.count) else none, p⟩ =
        none := by
      unfold Fetch.split
      by_cases hanswered : p.answered = true
      · have hfew : ¬ 2 ≤ (copyRates hist (f.visible + p.arrived) f.count).length := fun h => hsucceeds ⟨hanswered, h⟩
        rw [if_pos hanswered]
        dsimp only
        rw [if_pos (by omega)]
      · rw [if_neg hanswered]
    rw [hsplit]

/-! ### One batch -/

/-- `bars` were yielded at this offset, and the newest of them is the watermark. -/
structure Feed.Took (f g : Feed) (offset : Int) (bars : List Rate) : Prop where
  yielded : g.yielded = f.yielded ++ bars.map (candleOf offset)
  lastEmitted : g.lastEmitted = (bars.getLast?.map (·.time)).or f.lastEmitted
  newer : ∀ last ∈ f.lastEmitted, ∀ r ∈ bars, last < r.time
  ascending : (bars.map (·.time)).Pairwise (· < ·)

theorem Feed.Took.none (offset : Int) (f : Feed) : f.Took f offset [] :=
  ⟨(List.append_nil _).symm, rfl, fun _ _ _ h => (by cases h), List.Pairwise.nil⟩

theorem emit_offset (offset : Int) (closed : List Rate) (f : Feed) :
    (closed.foldl (Feed.emit offset) f).offset = f.offset := by
  induction closed generalizing f with
  | nil => rfl
  | cons r closed ih =>
    rw [List.foldl_cons, ih]
    unfold Feed.emit
    split <;> rfl

theorem emit_took (offset : Int) (f : Feed) (r : Rate) :
    f.Took (f.emit offset r) offset [] ∨ f.Took (f.emit offset r) offset [r] := by
  unfold Feed.emit
  split
  · exact Or.inl (Feed.Took.none offset f)
  · next hnew =>
    refine Or.inr ⟨rfl, rfl, ?_, List.pairwise_singleton _ _⟩
    intro last hlast r' hr'
    rw [List.mem_singleton] at hr'
    subst hr'
    by_contra hold
    exact hnew ((Option.any_eq_true _ _).mpr ⟨last, hlast, decide_eq_true (not_lt.mp hold)⟩)

/-- Bars taken one after the other are taken in order. -/
theorem Feed.Took.append {g h : Feed} {offset : Int} {bars bars' : List Rate} (hfirst : f.Took g offset bars)
    (hsecond : g.Took h offset bars') : f.Took h offset (bars ++ bars') := by
  have hmark : ∀ r ∈ bars, ∃ last, g.lastEmitted = some last ∧ r.time ≤ last := by
    intro r hr
    obtain ⟨before, newest, rfl⟩ := List.eq_nil_or_concat bars |>.resolve_left (List.ne_nil_of_mem hr)
    refine ⟨newest.time, by rw [hfirst.lastEmitted]; simp, ?_⟩
    have hsorted := hfirst.ascending
    rw [List.concat_eq_append, List.map_append, List.pairwise_append] at hsorted
    rcases List.mem_append.mp (List.concat_eq_append ▸ hr) with hold | hlast
    · exact (hsorted.2.2 _ (List.mem_map_of_mem hold) _ (List.mem_singleton_self _)).le
    · rw [List.mem_singleton.mp hlast]
  refine ⟨?_, ?_, ?_, ?_⟩
  · rw [hsecond.yielded, hfirst.yielded, List.map_append, List.append_assoc]
  · rw [hsecond.lastEmitted, hfirst.lastEmitted, List.getLast?_append, Option.map_or, Option.or_assoc]
  · intro last hlast r hr
    rcases List.mem_append.mp hr with hold | hnew
    · exact hfirst.newer last hlast r hold
    · rcases List.eq_nil_or_concat bars with rfl | ⟨before, newest, rfl⟩
      · exact hsecond.newer last (by rw [hfirst.lastEmitted]; exact hlast) r hnew
      · obtain ⟨mark, hmark, hle⟩ := hmark newest (by simp)
        have hbefore := hfirst.newer last hlast newest (by simp)
        have hafter := hsecond.newer mark hmark r hnew
        omega
  · rw [List.map_append, List.pairwise_append]
    refine ⟨hfirst.ascending, hsecond.ascending, ?_⟩
    intro t ht t' ht'
    obtain ⟨r, hr, rfl⟩ := List.mem_map.mp ht
    obtain ⟨r', hr', rfl⟩ := List.mem_map.mp ht'
    obtain ⟨mark, hmark, hle⟩ := hmark r hr
    exact hle.trans_lt (hsecond.newer mark hmark r' hr')

theorem emit_batch (offset : Int) (closed : List Rate) (f : Feed) :
    ∃ bars, bars.Sublist closed ∧ f.Took (closed.foldl (Feed.emit offset) f) offset bars := by
  induction closed generalizing f with
  | nil => exact ⟨[], List.Sublist.slnil, Feed.Took.none offset f⟩
  | cons r closed ih =>
    obtain ⟨bars, hsub, htook⟩ := ih (f.emit offset r)
    rcases emit_took offset f r with hnone | hone
    · exact ⟨bars, hsub.cons r, hnone.append htook⟩
    · exact ⟨r :: bars, hsub.cons_cons r, hone.append htook⟩

theorem pollBatch_cases (cfg : Config) (f : Feed) (b : Fetch) :
    SameYield f (f.pollBatch cfg b) ∨
      ∃ closed forming offset bars, b.split = some (closed, forming) ∧ f.raised = false ∧
        f.lockOffset forming.time b.poll.now = some offset ∧ (f.pollBatch cfg b).offset = some offset ∧
        bars.Sublist closed ∧ f.Took (f.pollBatch cfg b) offset bars := by
  unfold Feed.pollBatch
  by_cases hraised : f.raised = true
  · rw [if_pos hraised]
    exact Or.inl ⟨rfl, rfl, rfl, rfl, rfl, rfl⟩
  rw [if_neg hraised]
  cases hsplit : b.split with
  | none => exact Or.inl noRates_same
  | some parts =>
    obtain ⟨closed, forming⟩ := parts
    dsimp only
    cases hlock : f.lockOffset forming.time b.poll.now with
    | none => exact Or.inl ⟨rfl, rfl, rfl, rfl, rfl, rfl⟩
    | some offset =>
      obtain ⟨bars, hsub, htook⟩ := emit_batch offset closed { f with failStreak := 0, offset := some offset }
      have hsame : ∀ g : Feed, SameYield g ((g.warmed b.poll).watchdog cfg b.poll) := fun g =>
        SameYield.trans warmed_same watchdog_same
      refine Or.inr ⟨closed, forming, offset, bars, rfl, by simpa using hraised, hlock, ?_, hsub, ?_⟩
      · rw [(hsame _).offset, emit_offset]
      · exact ⟨(hsame _).yielded.trans htook.yielded, (hsame _).lastEmitted.trans htook.lastEmitted, htook.newer,
          htook.ascending⟩

/-! ### Any batches -/

/-- A feed, and what each poll yielded from its batch. -/
structure BatchWatch where
  feed : Feed
  log : List (Fetch × List RawCandle) := []

def watchBatch (cfg : Config) (w : BatchWatch) (b : Fetch) : BatchWatch where
  feed := w.feed.pollBatch cfg b
  log := w.log ++ [(b, (w.feed.pollBatch cfg b).yielded.drop w.feed.yielded.length)]

/-- The bar times of a batch increase. -/
def Fetch.Ascending (b : Fetch) : Prop := ∀ rates ∈ b.rates, (rates.map (·.time)).Pairwise (· < ·)

/-- The candles come from the closed bars of the batch at this offset, in order; if the batch is ascending, its last bar
is later than all of them. -/
def FromBatch (offset : Int) (b : Fetch) (candles : List RawCandle) : Prop :=
  ∃ closed forming, b.split = some (closed, forming) ∧ candles.Sublist (closed.map (candleOf offset)) ∧
    (b.Ascending → ∀ y ∈ candles, y.ts < (candleOf offset forming).ts)

/-- The feed is in order and true to its batches. -/
structure Faithful (w : BatchWatch) : Prop where
  logged : w.feed.yielded = w.log.flatMap (·.2)
  increasing : (w.feed.yielded.map (·.ts)).Pairwise (· < ·)
  /-- No bar time is yielded twice, and all are shifted by the one offset. -/
  once : w.feed.yielded ≠ [] → ∃ (offset : Int) (bars : List Rate), w.feed.offset = some offset ∧
    w.feed.yielded = bars.map (candleOf offset) ∧ (bars.map (·.time)).Nodup
  shifted : ∀ e ∈ w.log, e.2 ≠ [] → ∃ offset, w.feed.offset = some offset ∧ FromBatch offset e.1 e.2

/-- What a run keeps: the bars yielded so far, at the locked offset, the newest of which is the watermark. -/
structure Marked (w : BatchWatch) : Prop where
  logged : w.feed.yielded = w.log.flatMap (·.2)
  took : ∃ offset bars, (bars ≠ [] → w.feed.offset = some offset) ∧ (start {}).Took w.feed offset bars
  shifted : ∀ e ∈ w.log, e.2 ≠ [] → ∃ offset, w.feed.offset = some offset ∧ FromBatch offset e.1 e.2

theorem candleOf_ts_lt {offset : Int} {r r' : Rate} : (candleOf offset r).ts < (candleOf offset r').ts ↔ r.time < r'.time := by
  unfold candleOf
  dsimp only
  omega

theorem Marked.faithful {w : BatchWatch} (h : Marked w) : Faithful w := by
  obtain ⟨offset, bars, hoffset, htook⟩ := h.took
  have hyielded : w.feed.yielded = bars.map (candleOf offset) := htook.yielded
  refine ⟨h.logged, ?_, fun hsome => ?_, h.shifted⟩
  · rw [hyielded, List.map_map, List.pairwise_map]
    exact (List.pairwise_map.mp htook.ascending).imp candleOf_ts_lt.mpr
  · refine ⟨offset, bars, hoffset ?_, hyielded, htook.ascending.imp ne_of_lt⟩
    rintro rfl
    exact hsome hyielded

theorem split_forming {closed : List Rate} {forming : Rate} (hbatch : b.Ascending) (h : b.split = some (closed, forming)) :
    ∀ r ∈ closed, r.time < forming.time := by
  unfold Fetch.split at h
  cases hrates : b.rates with
  | none =>
    rw [hrates] at h
    cases h
  | some rates =>
    rw [hrates] at h
    dsimp only at h
    split at h
    · cases h
    · obtain ⟨last, hlast, heq⟩ := Option.map_eq_some_iff.mp h
      cases heq
      have hsorted := hbatch rates hrates
      rw [← List.dropLast_append_getLast? _ hlast, List.map_append, List.pairwise_append] at hsorted
      intro r hr
      exact hsorted.2.2 _ (List.mem_map_of_mem hr) _ (List.mem_singleton_self _)

theorem Marked.poll {w : BatchWatch} (h : Marked w) (cfg : Config) (b : Fetch) : Marked (watchBatch cfg w b) := by
  obtain ⟨offset, bars, hoffset, htook⟩ := h.took
  unfold watchBatch
  rcases pollBatch_cases cfg w.feed b with hsame | ⟨closed, forming, lock, new, hsplit, -, hlock, hlocked, hsub, hnew⟩
  · have hnone : (w.feed.pollBatch cfg b).yielded.drop w.feed.yielded.length = [] := by
      rw [hsame.yielded, List.drop_length]
    rw [hnone]
    refine ⟨?_, ⟨offset, bars, fun hsome => hsame.offset.trans (hoffset hsome), ?_⟩, ?_⟩
    · rw [List.flatMap_append, hsame.yielded, h.logged]
      simp
    · exact ⟨hsame.yielded.trans htook.yielded, hsame.lastEmitted.trans htook.lastEmitted, htook.newer, htook.ascending⟩
    · intro e he hsome
      rcases List.mem_append.mp he with hold | hthis
      · obtain ⟨o, ho, hfrom⟩ := h.shifted e hold hsome
        exact ⟨o, hsame.offset.trans ho, hfrom⟩
      · rw [List.mem_singleton.mp hthis] at hsome
        exact absurd rfl hsome
  · have hdrop : (w.feed.pollBatch cfg b).yielded.drop w.feed.yielded.length = new.map (candleOf lock) := by
      rw [hnew.yielded, List.drop_left]
    -- the offset is locked once
    have hkept : ∀ o, w.feed.offset = some o → lock = o := fun o ho => lockOffset_known ho hlock
    rw [hdrop]
    refine ⟨?_, ⟨lock, bars ++ new, fun _ => hlocked, ?_⟩, ?_⟩
    · rw [List.flatMap_append, hnew.yielded, h.logged]
      simp
    · rcases eq_or_ne bars [] with rfl | hsome
      · exact Feed.Took.append ⟨htook.yielded, htook.lastEmitted, htook.newer, htook.ascending⟩ hnew
      · rw [hkept offset (hoffset hsome)] at hnew ⊢
        exact htook.append hnew
    · intro e he hsome
      rcases List.mem_append.mp he with hold | hthis
      · obtain ⟨o, ho, hfrom⟩ := h.shifted e hold hsome
        rw [hkept o ho] at hlocked
        exact ⟨o, hlocked, hfrom⟩
      · rw [List.mem_singleton.mp hthis]
        refine ⟨lock, hlocked, closed, forming, hsplit, hsub.map _, ?_⟩
        intro hbatch y hy
        obtain ⟨r, hr, rfl⟩ := List.mem_map.mp hy
        exact candleOf_ts_lt.mpr (split_forming hbatch hsplit r (hsub.subset hr))

theorem Marked.start (cfg : Config) : Marked { feed := start cfg } :=
  ⟨rfl, ⟨0, [], fun h => absurd rfl h, rfl, rfl, fun _ h => (by cases h), List.Pairwise.nil⟩, fun _ h => (by cases h)⟩

theorem run_marked (cfg : Config) {w : BatchWatch} (h : Marked w) (fetches : List Fetch) :
    Marked (run (watchBatch cfg) w fetches) :=
  run_always (I := Marked) (fun _ b hw => hw.poll cfg b) h fetches

/-- **The order of the feed.** Whatever batches the terminal answers with, and whatever polls fail in between, the
candles yielded increase in time, no bar is yielded twice, and each is a closed bar of its batch, shifted by the one
locked offset; of a batch of increasing bar times the last is not among them. -/
theorem feed_faithful (cfg : Config) (fetches : List Fetch) :
    Faithful (run (watchBatch cfg) { feed := start cfg } fetches) :=
  (run_marked cfg (Marked.start cfg) fetches).faithful

/-! ### The offset -/

/-- How long ago the bar opened, where the clock of the broker is `k` hours ahead of UTC. -/
def Rate.age (r : Rate) (k : Int) (now : ℚ) : ℚ := now - (r.time - 3600 * k)

/-- The bar opened within half an hour; half an hour ago will do if `k` is even. -/
def Rate.Fresh (r : Rate) (k : Int) (now : ℚ) : Prop := |r.age k now| < 1800 ∨ |r.age k now| = 1800 ∧ k % 2 = 0

/-- A poll that locks the offset does so on a fresh bar. -/
def FreshAtLock (k : Int) (f : Feed) (b : Fetch) : Prop :=
  f.raised = false → f.offset = none → ∀ parts ∈ b.split, |(parts.2.time : ℚ) - b.poll.now| ≤ 15 * 3600 →
    parts.2.Fresh k b.poll.now

/-- The offset, if there is one, is that of the broker, and the candles have the UTC times of their bars. -/
structure TrueUtc (k : Int) (w : BatchWatch) : Prop where
  offset : ∀ offset ∈ w.feed.offset, offset = 3600 * k
  candles : ∀ y ∈ w.feed.yielded, ∃ e ∈ w.log, ∃ parts ∈ e.1.split, ∃ r ∈ parts.1, y = candleOf (3600 * k) r

theorem pollBatch_offset (cfg : Config) (f : Feed) (b : Fetch) : (f.pollBatch cfg b).offset =
    if f.raised then f.offset else b.split.elim f.offset fun parts => f.lockOffset parts.2.time b.poll.now := by
  unfold Feed.pollBatch
  split
  · rfl
  · cases b.split with
    | none => exact noRates_same.offset
    | some parts =>
      dsimp only [Option.elim_some]
      cases hlock : f.lockOffset parts.2.time b.poll.now with
      | some offset =>
        dsimp only
        rw [watchdog_same.offset, warmed_same.offset, emit_offset]
      | none =>
        -- only an unknown offset is not locked
        show f.offset = none
        cases hknown : f.offset with
        | none => rfl
        | some offset =>
          rw [Feed.lockOffset, hknown] at hlock
          cases hlock

theorem lockOffset_right (r : Rate) (k : Int) (now : ℚ) :
    roundEven (((r.time : ℚ) - now) / 3600) * 3600 = 3600 * k ↔ r.Fresh k now := by
  have hhours : |((r.time : ℚ) - now) / 3600 - k| = |r.age k now| / 3600 := by
    have hdiff : ((r.time : ℚ) - now) / 3600 - k = -(r.age k now / 3600) := by
      unfold Rate.age
      ring
    rw [hdiff, abs_neg, abs_div, abs_of_pos (by norm_num : (0 : ℚ) < 3600)]
  have hcancel : roundEven (((r.time : ℚ) - now) / 3600) * 3600 = 3600 * k ↔ roundEven (((r.time : ℚ) - now) / 3600) = k := by
    omega
  rw [hcancel, roundEven_eq_iff, hhours]
  unfold Rate.Fresh
  rw [div_lt_iff₀ (by norm_num), div_eq_iff (by norm_num)]
  norm_num

/-- One poll keeps the offset right exactly if it does not lock it on a bar that is not fresh. -/
theorem pollBatch_right (cfg : Config) (k : Int) (f : Feed) (b : Fetch) :
    (∀ offset ∈ (f.pollBatch cfg b).offset, offset = 3600 * k) ↔
      (∀ offset ∈ f.offset, offset = 3600 * k) ∧ FreshAtLock k f b := by
  rw [pollBatch_offset]
  unfold FreshAtLock
  by_cases hraised : f.raised = true
  · simp [hraised]
  rw [if_neg hraised]
  rw [Bool.not_eq_true] at hraised
  cases hsplit : b.split with
  | none => simp
  | some parts =>
    rw [Option.elim_some]
    unfold Feed.lockOffset
    cases hknown : f.offset with
    | some offset => simp
    | none =>
      dsimp only
      by_cases hstale : 15 * 3600 < |(parts.2.time : ℚ) - b.poll.now|
      · rw [if_pos hstale]
        simp [hstale]
      · rw [if_neg hstale]
        simp only [Option.mem_def, Option.some.injEq, forall_eq', lockOffset_right, hraised, forall_const, not_lt.mp hstale,
          reduceCtorEq, false_imp_iff, true_and]

/-- **The offset of the broker.** In auto mode, over whatever batches: a locked offset is that of the broker and all
candles have their UTC times, exactly if the offset is never locked on a bar that opened more than half an hour
before. -/
theorem offset_right_iff (cfg : Config) (k : Int) (fetches : List Fetch) :
    TrueUtc k (run (watchBatch cfg) { feed := start { cfg with tzOffset := none } } fetches) ↔
      StepsMeet (watchBatch cfg) (fun w b => FreshAtLock k w.feed b) { feed := start { cfg with tzOffset := none } }
        fetches := by
  have hstart : ∀ offset ∈ (start { cfg with tzOffset := none }).offset, offset = 3600 * k := fun _ h => (by cases h)
  have hrun : (∀ offset ∈ (run (watchBatch cfg) { feed := start { cfg with tzOffset := none } } fetches).feed.offset,
      offset = 3600 * k) ↔ StepsMeet (watchBatch cfg) (fun w b => FreshAtLock k w.feed b)
        { feed := start { cfg with tzOffset := none } } fetches := by
    rw [← and_iff_right (b := StepsMeet _ _ _ _) hstart]
    exact run_iff_stepsMeet (I := fun _ => True) (G := fun w : BatchWatch => ∀ offset ∈ w.feed.offset, offset = 3600 * k)
      (fun _ _ _ => trivial) (fun w b _ => pollBatch_right cfg k w.feed b) trivial
  have hmarked := run_marked cfg (Marked.start { cfg with tzOffset := none }) fetches
  refine Iff.trans ⟨fun h => h.offset, fun h => ⟨h, ?_⟩⟩ hrun
  intro y hyielded
  rw [hmarked.logged] at hyielded
  obtain ⟨e, he, hy⟩ := List.mem_flatMap.mp hyielded
  obtain ⟨offset, hoffset, closed, forming, hsplit, hsub, -⟩ := hmarked.shifted e he (List.ne_nil_of_mem hy)
  obtain ⟨r, hr, rfl⟩ := List.mem_map.mp (hsub.subset hy)
  exact ⟨e, he, _, hsplit, r, hr, by rw [h offset hoffset]⟩

/-- The last two bars before the daily break of a broker at UTC+3, from 20:58 UTC on, fetched at 21:45 UTC. -/
def breakBatch : Fetch where
  rates := some [⟨1781567880, 4300, 4301, 4299, 4300, 90⟩, ⟨1781567940, 4300, 4302, 4300, 4301, 80⟩]
  poll := { arrived := 2, now := 1781559900 }

/-- **An offset locked in the daily break.** It is two hours, where the broker is three ahead. -/
theorem break_locks_wrong :
    ¬ TrueUtc 3 (run (watchBatch {}) { feed := start { tzOffset := none } } [breakBatch]) := by
  intro h
  have hlocked : (run (watchBatch {}) { feed := start { tzOffset := none } } [breakBatch]).feed.offset = some 7200 := by
    decide +kernel
  have hright := h.offset 7200 hlocked
  omega

end Mt5Feed

end FreqTrading
