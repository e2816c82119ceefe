import FreqTrading.Broker.Terminal

/-!
# The ledger of closing deals

The bot's own trades, as the closing deals tell them. A ledger here has its last deal first. A trade is closed
by the deal that leaves nothing of its position, and its result is what all deals of the position brought.
`losses` counts the trades of a day that lost in a row, up to the last; `Lost n` says that at some moment of the
ledger that count had reached `n`.
-/

namespace FreqTrading.Ledger

/-- What the own deals of a position brought. -/
def paid (m : Int) (position : Nat) (deals : List ClosingDeal) : ℚ :=
  ((deals.filter fun d => d.magic = m ∧ d.position = position).map (·.profit)).sum

/-- What the position of a deal brought with it, after the deals in `older`. -/
def net (m : Int) (older : List ClosingDeal) (d : ClosingDeal) : ℚ := d.profit + paid m d.position older

/-- The deal closed an own trade on this day. -/
def Closes (m day : Int) (d : ClosingDeal) : Prop := d.magic = m ∧ d.full = true ∧ d.day = day

instance (m day : Int) (d : ClosingDeal) : Decidable (Closes m day d) := inferInstanceAs (Decidable (_ ∧ _ ∧ _))

/-- The results of the own trades closed on a day, the last one first. -/
def results (m day : Int) : List ClosingDeal → List ℚ
  | [] => []
  | d :: older => if Closes m day d then net m older d :: results m day older else results m day older

/-- How many of these lost in a row, up to the last. -/
def losses (m day : Int) (deals : List ClosingDeal) : Nat := ((results m day deals).takeWhile (· < 0)).length

/-- At some moment the last `n` own trades closed on the day had all lost. -/
def Lost (n : Nat) (m day : Int) (deals : List ClosingDeal) : Prop := ∃ older, older <:+ deals ∧ n ≤ losses m day older

variable {n : Nat} {m day : Int} {d : ClosingDeal} {deals older : List ClosingDeal}

/-! ### One more deal -/

theorem losses_same (older : List ClosingDeal) (h : ¬ Closes m day d) : losses m day (d :: older) = losses m day older := by
  unfold losses
  rw [results, if_neg h]

theorem losses_loss (h : Closes m day d) (hnet : net m older d < 0) :
    losses m day (d :: older) = losses m day older + 1 := by
  unfold losses
  rw [results, if_pos h, List.takeWhile_cons_of_pos (by simpa using hnet), List.length_cons]

theorem losses_gain (h : Closes m day d) (hnet : 0 ≤ net m older d) : losses m day (d :: older) = 0 := by
  unfold losses
  rw [results, if_pos h, List.takeWhile_cons_of_neg (by simpa using hnet), List.length_nil]

theorem lost_cons : Lost n m day (d :: older) ↔ n ≤ losses m day (d :: older) ∨ Lost n m day older := by
  constructor
  · rintro ⟨past, hpast, hn⟩
    rcases List.suffix_cons_iff.mp hpast with rfl | hpast
    · exact Or.inl hn
    · exact Or.inr ⟨past, hpast, hn⟩
  · rintro (hn | ⟨past, hpast, hn⟩)
    · exact ⟨_, List.suffix_rfl, hn⟩
    · exact ⟨past, hpast.trans (List.suffix_cons d older), hn⟩

theorem losses_none (h : ∀ d ∈ deals, ¬ Closes m day d) : losses m day deals = 0 := by
  induction deals with
  | nil => rfl
  | cons d older ih =>
    rw [losses_same _ (h d List.mem_cons_self)]
    exact ih fun d hd => h d (List.mem_cons_of_mem _ hd)

theorem not_lost_none (hn : 0 < n) (h : ∀ d ∈ deals, ¬ Closes m day d) : ¬ Lost n m day deals := by
  rintro ⟨past, hpast, hle⟩
  rw [losses_none fun d hd => h d (hpast.subset hd)] at hle
  omega

/-! ### What a counter of losses can follow -/

/-- A deal that a counter fed with the profits of the bot's own deals can follow: a trade the server closes does
not lose; and of the bot's deals one that closes a part of a position gains only if the trade before it did not
lose, one that closes a losing trade loses itself, and none gains once `n` trades of the day have lost in a
row. -/
structure Plain (n : Nat) (m : Int) (older : List ClosingDeal) (d : ClosingDeal) : Prop where
  server : d.byServer = true → 0 ≤ net m older d
  part : d.byServer = false → d.full = false → 0 < d.profit → losses m d.day older = 0
  last : d.byServer = false → d.full = true → net m older d < 0 → d.profit < 0
  blocked : d.byServer = false → Lost n m d.day older → d.profit ≤ 0

/-- Every own deal is plain. -/
def Audible (n : Nat) (m : Int) : List ClosingDeal → Prop
  | [] => True
  | d :: older => Audible n m older ∧ (d.magic = m → Plain n m older d)

/-- The streak of a counter is not behind the ledger. -/
structure Counts (n : Nat) (m day : Int) (deals : List ClosingDeal) (streak : Nat) : Prop where
  losses : losses m day deals ≤ streak
  lost : Lost n m day deals → n ≤ streak

variable {streak streak' : Nat}

theorem Counts.mono (h : Counts n m day deals streak) (hle : streak ≤ streak') : Counts n m day deals streak' :=
  ⟨h.losses.trans hle, fun hlost => (h.lost hlost).trans hle⟩

theorem counts_none (hn : 0 < n) (h : ∀ d ∈ deals, ¬ Closes m day d) (streak : Nat) : Counts n m day deals streak where
  losses := by rw [losses_none h]; exact Nat.zero_le _
  lost := fun hlost => absurd hlost (not_lost_none hn h)

theorem Counts.foreign (h : Counts n m day older streak) (hd : ¬ Closes m day d) :
    Counts n m day (d :: older) streak := by
  have hsame := losses_same older hd
  refine ⟨hsame ▸ h.losses, fun hlost => ?_⟩
  rcases lost_cons.mp hlost with hn | hlost
  · exact (hsame ▸ hn).trans h.losses
  · exact h.lost hlost

theorem Counts.gain (hn : 0 < n) (hd : Closes m day d) (hnet : 0 ≤ net m older d)
    (hlost : Lost n m day older → n ≤ streak') : Counts n m day (d :: older) streak' := by
  have hnone := losses_gain hd hnet
  refine ⟨by rw [hnone]; exact Nat.zero_le _, fun h => ?_⟩
  rcases lost_cons.mp h with hle | hpast
  · exact absurd (hle.trans_eq hnone) (not_le.mpr hn)
  · exact hlost hpast

theorem Counts.loss (h : Counts n m day older streak) (hd : Closes m day d) (hnet : net m older d < 0)
    (hcounted : streak + 1 ≤ streak') : Counts n m day (d :: older) streak' := by
  have hmore := losses_loss hd hnet
  have hbefore := h.losses
  refine ⟨by omega, fun hlost => ?_⟩
  rcases lost_cons.mp hlost with hle | hpast
  · omega
  · exact (h.lost hpast).trans (by omega)

/-- **A deal of the day.** The counter stays up to date if it goes up with a loss of the bot's own deals, and goes
down only with a gain of one. -/
theorem Counts.deal (hn : 0 < n) (h : Counts n m d.day older streak) (hplain : d.magic = m → Plain n m older d)
    (hown : d.byServer = false → d.magic = m) (hloss : d.byServer = false → d.profit < 0 → streak + 1 ≤ streak')
    (hkeep : d.byServer = true ∨ d.profit ≤ 0 → streak ≤ streak') : Counts n m d.day (d :: older) streak' := by
  by_cases hkept : streak ≤ streak'
  · by_cases hd : Closes m d.day d
    · have hp := hplain hd.1
      by_cases hnet : net m older d < 0
      · refine h.loss hd hnet ?_
        cases hby : d.byServer with
        | true => exact absurd hnet (not_lt.mpr (hp.server hby))
        | false => exact hloss hby (hp.last hby hd.2.1 hnet)
      · exact Counts.gain hn hd (not_lt.mp hnet) fun hlost => (h.lost hlost).trans hkept
    · exact (h.mono hkept).foreign hd
  · -- the counter went down: a gain of an own deal
    have hby : d.byServer = false := by
      by_contra hby
      exact hkept (hkeep (Or.inl (by simpa using hby)))
    have hgain : 0 < d.profit := by
      by_contra hle
      exact hkept (hkeep (Or.inr (not_lt.mp hle)))
    have hp := hplain (hown hby)
    have hnot : ¬ Lost n m d.day older := fun hlost => absurd (hp.blocked hby hlost) (not_le.mpr hgain)
    cases hfull : d.full with
    | true =>
      have hd : Closes m d.day d := ⟨hown hby, hfull, rfl⟩
      have hnet : ¬ net m older d < 0 := fun hneg => absurd (hp.last hby hfull hneg) (not_lt.mpr hgain.le)
      exact Counts.gain hn hd (not_lt.mp hnet) fun hlost => absurd hlost hnot
    | false =>
      have hd : ¬ Closes m d.day d := fun hd => by rw [hd.2.1] at hfull; cases hfull
      have hnone := hp.part hby hfull hgain
      exact Counts.foreign ⟨by omega, fun hlost => absurd hlost hnot⟩ hd

end FreqTrading.Ledger
