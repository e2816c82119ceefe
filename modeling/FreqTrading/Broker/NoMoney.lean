import FreqTrading.Broker.VolumeLadder

/-!
# The ladder and the text it reads

`_open` tries smaller volumes while the broker says that there is no money (retcode 10019). It reads the
retcode off the text of the exception. That text also holds the numbers and texts of the request and the
comment of the answer, so the ladder goes on after another failure if the digits 10019 stand in one of these:
`noMoney_iff` has the exact condition.
-/

namespace FreqTrading

open Lib

variable {β : Type}

/-- The request is for less than this one was. -/
def Smaller (y x : Sent) : Prop := ∃ v ∈ y.request.body.opened, ∃ u ∈ x.request.body.opened, v < u

/-- The answer was 10019. -/
def Sent.NoMoney (s : Sent) : Prop := s.answer.map (·.retcode) = some 10019

instance (s : Sent) : Decidable s.NoMoney := inferInstanceAs (Decidable (_ = _))

namespace Mt5Broker

variable (b : Mt5Broker β)

/-! ### What the text of a failure names -/

/-- The label has none of the digits of 10019. -/
def apart (label : String) : Bool := label.toList.all fun c => !"10019".toList.contains c

theorem not_mem_of_apart {label : String} (h : apart label = true) : ∀ c ∈ label.toList, c ∉ "10019".toList := by
  intro c hc
  have hnot := List.all_eq_true.mp h c hc
  simpa using hnot

/-- The items of the request with its filling. -/
def requestItems (r : OrderRequest) : List (String × String) :=
  r.body.items b.symbol ++ r.filling.toList.map fun f => ("type_filling", f.code)

theorem requestItems_text (r : OrderRequest) :
    r.text b.symbol = "\x7b" ++ ", ".intercalate ((b.requestItems r).map fun kv => "'" ++ kv.1 ++ "': " ++ kv.2) ++
      "\x7d" := by
  unfold OrderRequest.text requestItems
  cases r.filling <;> rfl

theorem requestItems_keys (r : OrderRequest) : ∀ kv ∈ b.requestItems r, apart kv.1 = true := by
  have hkeys : ((r.body.items b.symbol).map (·.1)).all apart = true := by
    cases r.body <;> simp only [OrderBody.items, List.map_cons, List.map_nil] <;> decide +kernel
  intro kv hkv
  rcases List.mem_append.mp hkv with hbody | hfilling
  · exact List.all_eq_true.mp hkeys kv.1 (List.mem_map_of_mem hbody)
  · obtain ⟨f, -, rfl⟩ := List.mem_map.mp hfilling
    show apart "type_filling" = true
    decide +kernel

theorem toList_intercalate_items (kv : String × String) (items : List (String × String)) :
    (", ".intercalate ((kv :: items).map fun kv => "'" ++ kv.1 ++ "': " ++ kv.2)).toList =
      ("'" ++ kv.1 ++ "': ").toList ++ kv.2.toList ++
        items.flatMap fun kv => (", '" ++ kv.1 ++ "': ").toList ++ kv.2.toList := by
  induction items generalizing kv with
  | nil => simp
  | cons next items ih =>
    have hrest := ih next
    rw [List.map_cons] at hrest
    rw [List.map_cons, List.map_cons, String.intercalate_cons_cons, String.toList_append, hrest]
    simp

theorem namesNoMoney_eq (text : String) : namesNoMoney text = true ↔ "10019".toList <:+: text.toList := by
  unfold namesNoMoney
  rw [decide_eq_true_iff]

/-- The text of a rejection as labels and values; the items of the request are `kv :: items`. -/
def rejectedParts (res : OrderResult) (kv : String × String) (items : List (String × String)) :
    List (List Char × List Char) :=
  [("order rejected retcode=".toList, (toString res.retcode).toList),
   (" comment=".toList, (pyRepr res.comment).toList),
   ((" request=" ++ ("\x7b" ++ ("'" ++ kv.1 ++ "': "))).toList, kv.2.toList)] ++
  items.map (fun kv : String × String => ((", '" ++ kv.1 ++ "': ").toList, kv.2.toList)) ++ [("\x7d".toList, [])]

theorem toList_rejectedText (res : OrderResult) {r : OrderRequest} {kv : String × String}
    {items : List (String × String)} (hitems : b.requestItems r = kv :: items) :
    (rejectedText b.symbol res r).toList = (rejectedParts res kv items).flatMap fun part => part.1 ++ part.2 := by
  unfold rejectedText rejectedParts
  rw [requestItems_text, hitems]
  simp only [String.toList_append, toList_intercalate_items, List.cons_append, List.nil_append, List.flatMap_cons,
    List.flatMap_append, List.flatMap_map, List.flatMap_nil, List.append_nil, List.append_assoc]

theorem keyLabel_apart {before after key : String} (hbefore : apart before = true) (hkey : apart key = true)
    (hafter : apart after = true) : ∀ c ∈ (before ++ key ++ after).toList, c ∉ "10019".toList := by
  intro c hc
  rw [String.toList_append, String.toList_append, List.mem_append, List.mem_append] at hc
  rcases hc with (hc | hc) | hc
  · exact not_mem_of_apart hbefore c hc
  · exact not_mem_of_apart hkey c hc
  · exact not_mem_of_apart hafter c hc

theorem rejectedParts_labels (res : OrderResult) {kv : String × String} {items : List (String × String)}
    (hkeys : ∀ kv' ∈ kv :: items, apart kv'.1 = true) :
    ∀ part ∈ rejectedParts res kv items, part.1 ≠ [] ∧ ∀ c ∈ part.1, c ∉ "10019".toList := by
  intro part hpart
  unfold rejectedParts at hpart
  simp only [List.mem_append, List.mem_cons, List.not_mem_nil, or_false, List.mem_map] at hpart
  rcases hpart with ((rfl | rfl | rfl) | ⟨kv', hkv', rfl⟩) | rfl
  · exact ⟨by simp, not_mem_of_apart (by decide +kernel)⟩
  · exact ⟨by simp, not_mem_of_apart (by decide +kernel)⟩
  · have hlabel : ∀ c ∈ (" request=\x7b'" ++ kv.1 ++ "': ").toList, c ∉ "10019".toList :=
      keyLabel_apart (by decide +kernel) (hkeys kv List.mem_cons_self) (by decide +kernel)
    refine ⟨by simp, ?_⟩
    simpa [String.append_assoc] using hlabel
  · exact ⟨by simp, keyLabel_apart (by decide +kernel) (hkeys kv' (List.mem_cons_of_mem _ hkv')) (by decide +kernel)⟩
  · exact ⟨by simp, not_mem_of_apart (by decide +kernel)⟩

theorem rejectedParts_values (res : OrderResult) (kv : String × String) (items : List (String × String)) :
    (rejectedParts res kv items).map (·.2) =
      (toString res.retcode :: pyRepr res.comment :: (kv :: items).map (·.2)).map String.toList ++ [[]] := by
  simp [rejectedParts]

/-- **The text names 10019 if one of its values does**: the labels between them have no digits. -/
theorem namesNoMoney_rejected (res : OrderResult) (r : OrderRequest) :
    namesNoMoney (rejectedText b.symbol res r) = true ↔
      ∃ value ∈ toString res.retcode :: pyRepr res.comment :: (b.requestItems r).map (·.2),
        namesNoMoney value = true := by
  obtain ⟨kv, items, hitems⟩ : ∃ kv items, b.requestItems r = kv :: items := by
    unfold requestItems
    cases r.body <;> exact ⟨_, _, rfl⟩
  have hkeys := b.requestItems_keys r
  rw [hitems] at hkeys
  have hword : "10019".toList ≠ [] := by decide +kernel
  rw [namesNoMoney_eq, b.toList_rejectedText res hitems, infix_labelled_iff hword _ (rejectedParts_labels res hkeys),
    hitems]
  constructor
  · rintro ⟨part, hpart, hin⟩
    have hmem : part.2 ∈ (rejectedParts res kv items).map (·.2) := List.mem_map_of_mem hpart
    rw [rejectedParts_values, List.mem_append] at hmem
    rcases hmem with hmem | hmem
    · obtain ⟨value, hvalue, heq⟩ := List.mem_map.mp hmem
      exact ⟨value, hvalue, (namesNoMoney_eq value).mpr (heq ▸ hin)⟩
    · rw [List.mem_singleton.mp hmem, List.infix_nil] at hin
      exact absurd hin hword
  · rintro ⟨value, hvalue, hnames⟩
    have hmem : value.toList ∈ (rejectedParts res kv items).map (·.2) := by
      rw [rejectedParts_values]
      exact List.mem_append_left _ (List.mem_map_of_mem hvalue)
    obtain ⟨part, hpart, heq⟩ := List.mem_map.mp hmem
    exact ⟨part, hpart, heq ▸ (namesNoMoney_eq value).mp hnames⟩

/-- The values in the text of a failed request. -/
def failureValues (w : World β) (s : Sent) : List String :=
  match s.answer with
  | none => [(w.env (w.calls - 1)).lastError]
  | some res => toString res.retcode :: pyRepr res.comment :: (b.requestItems s.request).map (·.2)

/-- One of them has the digits 10019. -/
def NamesNoMoney (w : World β) (s : Sent) : Prop := ∃ value ∈ b.failureValues w s, namesNoMoney value = true

theorem namesNoMoney_failureText (w : World β) (s : Sent) :
    namesNoMoney (b.failureText w s) = true ↔ b.NamesNoMoney w s := by
  unfold failureText NamesNoMoney failureValues
  cases s.answer with
  | some res => exact b.namesNoMoney_rejected res s.request
  | none =>
    have hlabel : ∀ c ∈ "order_send returned None: ".toList, c ∉ "10019".toList :=
      not_mem_of_apart (by decide +kernel)
    simp only [List.mem_singleton, exists_eq_left, namesNoMoney_eq, String.toList_append]
    exact infix_append_of_disjoint (by decide +kernel) hlabel

theorem namesNoMoney_of_noMoney {s : Sent} (h : s.NoMoney) (w : World β) : b.NamesNoMoney w s := by
  unfold Sent.NoMoney at h
  unfold NamesNoMoney failureValues
  cases hanswer : s.answer with
  | none =>
    rw [hanswer] at h
    cases h
  | some res =>
    rw [hanswer] at h
    have hcode : res.retcode = 10019 := by simpa using h
    refine ⟨toString res.retcode, List.mem_cons_self, ?_⟩
    rw [hcode]
    decide +kernel

/-! ### When the ladder goes on -/

/-- On its way down from the first volume the ladder meets a failure that names 10019 and is none, with a
volume left to try. -/
def Misread (sig : Signal) (price : ℚ) : List ℚ → World β → Prop
  | vol :: next :: rest, w =>
    match exec (b.tryVolume sig price vol) w with
    | (.error _, v) => ∃ s ∈ v.sent.getLast?,
        (¬ s.NoMoney ∧ b.NamesNoMoney v s) ∨ (s.NoMoney ∧ Misread sig price (next :: rest) v)
    | (.ok _, _) => False
  | _, _ => False

/-- A request for a smaller volume comes right after a 10019. -/
def OnlyAfterNoMoney (sent : List Sent) : Prop := sent.IsChain fun x y => Smaller y x → x.NoMoney

theorem not_smaller_of_entries {sig : Signal} {vol : ℚ} {x y : Sent} (hx : b.IsEntry sig vol x.request)
    (hy : b.IsEntry sig vol y.request) : ¬ Smaller y x := by
  obtain ⟨px, fx, hx⟩ := hx
  obtain ⟨py, fy, hy⟩ := hy
  rintro ⟨v, hv, u, hu, hlt⟩
  rw [hx] at hu
  rw [hy] at hv
  cases hu
  cases hv
  exact lt_irrefl _ hlt

theorem smaller_of_entries {sig : Signal} {u v : ℚ} {x y : Sent} (hx : b.IsEntry sig u x.request)
    (hy : b.IsEntry sig v y.request) (hlt : v < u) : Smaller y x := by
  obtain ⟨px, fx, hx⟩ := hx
  obtain ⟨py, fy, hy⟩ := hy
  refine ⟨v, ?_, u, ?_, hlt⟩
  · rw [hy]
    rfl
  · rw [hx]
    rfl

theorem onlyAfterNoMoney_of_same {sent : List Sent} (h : ∀ x ∈ sent, ∀ y ∈ sent, ¬ Smaller y x) :
    OnlyAfterNoMoney sent := by
  refine (List.pairwise_of_forall_mem_list fun x hx y hy hsmaller => ?_).isChain
  exact absurd hsmaller (h x hx y hy)

theorem Rung.onlyAfterNoMoney {sig : Signal} {vol : ℚ} {sent : List Sent} (h : b.Rung sig vol sent) :
    OnlyAfterNoMoney sent :=
  onlyAfterNoMoney_of_same fun x hx y hy => b.not_smaller_of_entries (h.entries x hx) (h.entries y hy)

theorem onlyAfterNoMoney_next {sig : Signal} {vol next : ℚ} {l new : List Sent} {s : Sent} (hl : b.Rung sig vol l)
    (hs : l.getLast? = some s) (hne : new ≠ []) (hnew : ∀ y ∈ new.head?, b.IsEntry sig next y.request)
    (hlt : next < vol) : OnlyAfterNoMoney (l ++ new) ↔ s.NoMoney ∧ OnlyAfterNoMoney new := by
  unfold OnlyAfterNoMoney
  rw [List.isChain_append]
  constructor
  · rintro ⟨-, hchain, hseam⟩
    have hy := List.head?_eq_some_head hne
    refine ⟨hseam s hs _ hy ?_, hchain⟩
    exact b.smaller_of_entries (hl.entries s (List.mem_of_getLast? hs)) (hnew _ hy) hlt
  · rintro ⟨hnomoney, hchain⟩
    refine ⟨Rung.onlyAfterNoMoney b hl, hchain, fun x hx y hy _ => ?_⟩
    obtain rfl : s = x := by simpa [hs] using hx
    exact hnomoney

theorem tryVolume_onlyAfterNoMoney (sig : Signal) (price vol : ℚ) (w : World β) :
    OnlyAfterNoMoney (sentSince w (exec (b.tryVolume sig price vol) w).2) := by
  obtain ⟨hsending, -⟩ := b.tryVolume_trace sig price vol w
  obtain ⟨l, hlog, hrung⟩ := b.rung_of_sending hsending
  rw [sentSince_of_append hlog]
  exact Rung.onlyAfterNoMoney b hrung

theorem openLadder_noMoney_iff (sig : Signal) (price : ℚ) (lastErr : Failure) (volumes : List ℚ)
    (hdecr : volumes.Pairwise (· > ·)) (w : World β) :
    OnlyAfterNoMoney (sentSince w (exec (b.openLadder sig price lastErr volumes) w).2) ↔
      ¬ b.Misread sig price volumes w := by
  induction volumes generalizing lastErr w with
  | nil =>
    have hnone : sentSince w (exec (b.openLadder sig price lastErr []) w).2 = [] := List.drop_length
    rw [hnone]
    exact iff_of_true List.isChain_nil id
  | cons vol rest ih =>
    have htry := b.tryVolume_trace sig price vol w
    have hone := b.tryVolume_onlyAfterNoMoney sig price vol w
    rw [exec_openLadder_cons]
    rcases hexec : exec (b.tryVolume sig price vol) w with ⟨err | res, v⟩ <;> rw [hexec] at hone
    · obtain ⟨hsending, hsettled⟩ := htry.of_exec hexec
      obtain ⟨l, hlog, hrung⟩ := b.rung_of_sending hsending
      obtain ⟨s, hs, rfl⟩ := Settled.error b hsettled
      have hlast : l.getLast? = some s := by
        rw [← hs, hlog, List.getLast?_append_of_ne_nil _ hrung.nonempty]
      by_cases hnames : namesNoMoney (b.failureText v s) = true
      · simp only [if_pos hnames]
        cases rest with
        | nil => exact iff_of_true hone fun h => h
        | cons next rest =>
          obtain ⟨⟨steps, hne, hsent, hpre, hrungs⟩, -⟩ :=
            b.openLadder_trace sig price (.broker (b.failureText v s)) (next :: rest) (by simp) v
          obtain ⟨hlt, hdecr'⟩ := List.pairwise_cons.mp hdecr
          have hrest := ih (.broker (b.failureText v s)) hdecr' v
          rw [sentSince_of_append hsent] at hrest
          obtain ⟨hnew, hhead⟩ := b.head_of_steps hne hpre hrungs
          rw [sentSince_of_append (l := l ++ steps.flatMap (·.2)) (by rw [hsent, hlog, List.append_assoc]),
            b.onlyAfterNoMoney_next hrung hlast hnew hhead (hlt next List.mem_cons_self), hrest]
          have hnamed := (b.namesNoMoney_failureText v s).mp hnames
          simp only [Misread, hexec, hs, Option.mem_some_iff, exists_eq_left']
          tauto
      · simp only [if_neg hnames]
        refine iff_of_true hone fun hmisread => ?_
        have hnot : ¬ b.NamesNoMoney v s := fun h => hnames ((b.namesNoMoney_failureText v s).mpr h)
        cases rest with
        | nil => exact hmisread
        | cons next rest =>
          simp only [Misread, hexec, hs, Option.mem_some_iff, exists_eq_left'] at hmisread
          rcases hmisread with ⟨-, h⟩ | ⟨h, -⟩
          · exact hnot h
          · exact hnot (b.namesNoMoney_of_noMoney h v)
    · have hdone : OnlyAfterNoMoney (sentSince w (b.opened sig v)) := by
        unfold sentSince
        rwa [(b.opened_sameLog sig v).sent]
      refine iff_of_true hdone fun hmisread => ?_
      cases rest with
      | nil => exact hmisread
      | cons next rest =>
        simp only [Misread, hexec] at hmisread

/-! ### `_open` -/

/-- How an `_open` ends: before it sends anything, with a `BrokerError`, or with the end of its last request. -/
def EndsWithLast (w v : World β) (res : Except Failure (Option SendResult)) : Prop :=
  (sentSince w v = [] ∧ ∃ text, res = .error (.broker text)) ∨
    ∃ out, res = out.map some ∧ ∃ s ∈ (sentSince w v).getLast?, b.EndsAfter v s out

/-- An entry tries a smaller volume only right after a 10019, and any other failure is what it ends with. -/
structure StepsOnNoMoney (sig : Signal) (w : World β) : Prop where
  smaller : OnlyAfterNoMoney (sentSince w (exec (b.open' sig) w).2)
  ends : b.EndsWithLast w (exec (b.open' sig) w).2 (exec (b.open' sig) w).1

/-- A market entry meets a failure that names 10019 and is none, with a volume left to try. -/
def EntryMisread (sig : Signal) (w : World β) : Prop :=
  b.entryMode = .market ∧ ∃ tick ∈ w.reply.tick,
    b.Misread sig (quote sig.direction tick) (ladder (b.wantedQty sig)) w.afterRead

theorem openLimit_onlyAfterNoMoney (sig : Signal) (w : World β) :
    OnlyAfterNoMoney (sentSince w (exec (b.openLimit sig) w).2) := by
  obtain ⟨l, hlog, hall, -⟩ := b.openLimit_trace sig w
  rw [sentSince_of_append hlog]
  refine onlyAfterNoMoney_of_same fun x hx y hy hsmaller => ?_
  obtain ⟨v, hv, u, hu, hlt⟩ := hsmaller
  rw [hall x hx] at hu
  rw [hall y hy] at hv
  cases hu
  cases hv
  exact lt_irrefl _ hlt

theorem openMarket_noMoney_iff (sig : Signal) (w : World β) :
    OnlyAfterNoMoney (sentSince w (exec (b.openMarket sig) w).2) ↔
      ¬ ∃ tick ∈ w.reply.tick, b.Misread sig (quote sig.direction tick) (ladder (b.wantedQty sig)) w.afterRead := by
  unfold openMarket symbolInfoTick
  rw [exec_bind_of (exec_readCall _)]
  cases w.reply.tick with
  | none =>
    have hnone : sentSince w (exec (b.noTick (α := SendResult)) w.afterRead).2 = [] := List.drop_length
    simp only
    rw [hnone]
    exact iff_of_true List.isChain_nil (by simp)
  | some tick =>
    simp only [Option.mem_some_iff, exists_eq_left']
    exact b.openLadder_noMoney_iff sig _ .other _ (ladder_decreasing _) w.afterRead

theorem open_endsWithLast (sig : Signal) (w : World β) :
    b.EndsWithLast w (exec (b.open' sig) w).2 (exec (b.open' sig) w).1 := by
  rw [exec_open]
  cases b.entryMode with
  | limit =>
    obtain ⟨l, hlog, -, -, hend⟩ := b.openLimit_trace sig w
    rcases hend with ⟨rfl, herror⟩ | ⟨hne, out, hout, hsettled⟩
    · exact Or.inl ⟨sentSince_of_append hlog, herror⟩
    · exact Or.inr ⟨out, hout, b.settled_since hlog hne hsettled⟩
  | market =>
    obtain ⟨steps, hlog, hpre, hrungs, hend⟩ := b.openMarket_trace sig w
    rcases hend with ⟨rfl, text, htext⟩ | ⟨hne, hsettled⟩
    · exact Or.inl ⟨sentSince_of_append hlog, text, by simp only [htext, Except.map]⟩
    · have hsome : steps.flatMap (·.2) ≠ [] := (b.head_of_steps hne hpre hrungs).1
      exact Or.inr ⟨_, rfl, b.settled_since hlog hsome hsettled⟩

def refusingTick : Tick := ⟨110009 / 100000, 110019 / 100000, 0⟩

/-- A server that refuses the stops of an entry. -/
def refusingWorld : World Unit where
  server := {}
  env := fun _ =>
    { tick := some refusingTick
      send := { executes := false, answer := some { retcode := 10016, comment := "Invalid stops" } } }
  bot := ()

def refusedSignal : Signal where
  ts := 0
  kind := .entry
  direction := .long
  price := 110018 / 100000
  stateFrom := .rangeDefined
  stateTo := .breakout
  reason := "breakout_long"
  stop := some (109918 / 100000)
  qty := some (4 / 100)

theorem refused_misread :
    ({ symbol := "EURUSD" } : Mt5Broker Unit).Misread refusedSignal (quote refusedSignal.direction refusingTick)
      (ladder (({ symbol := "EURUSD" } : Mt5Broker Unit).wantedQty refusedSignal)) refusingWorld.afterRead := by
  have hladder : ladder (({ symbol := "EURUSD" } : Mt5Broker Unit).wantedQty refusedSignal) =
      [4 / 100, 2 / 100, 1 / 100] := by decide +kernel
  have hexec : exec (({ symbol := "EURUSD" } : Mt5Broker Unit).tryVolume refusedSignal (110019 / 100000) (4 / 100))
      refusingWorld.afterRead = (.error (.broker _), _) := rfl
  rw [show quote refusedSignal.direction refusingTick = 110019 / 100000 from rfl, hladder, Misread, hexec]
  refine ⟨_, rfl, Or.inl ⟨by decide, pyFloat (110019 / 100000), ?_, by decide +kernel⟩⟩
  exact List.mem_cons_of_mem _ (List.mem_cons_of_mem _ (List.mem_map.mpr
    ⟨("price", pyFloat (110019 / 100000)), by simp [requestItems, OrderBody.items, entryRequest], rfl⟩))

end Mt5Broker

end FreqTrading
