import FreqTrading.Broker.VolumeLadder

/-!
# Stop and target of every request of an entry

A request for an entry is refreshed to a new quote, has its filling exchanged and is built anew for a smaller
volume. Whatever is sent in the end, its stop and its target are at the signal's distances from its own price
(`entry_geometry`).
-/

namespace FreqTrading

open Lib

variable {β : Type}

/-- The price at this distance from `price` where a position in this direction has lost. -/
def losing (direction : Direction) (price d : ℚ) : ℚ :=
  match direction with
  | .long => price - d
  | .short => price + d

/-- The price at this distance from `price` where it has won. -/
def winning (direction : Direction) (price d : ℚ) : ℚ :=
  match direction with
  | .long => price + d
  | .short => price - d

/-- The level is where a position opened at `price` has lost. -/
def Loses (direction : Direction) (price level : ℚ) : Prop :=
  match direction with
  | .long => level < price
  | .short => price < level

/-- The level is where a position opened at `price` has won. -/
def Wins (direction : Direction) (price level : ℚ) : Prop :=
  match direction with
  | .long => price < level
  | .short => level < price

theorem loses_losing {direction : Direction} {price d : ℚ} (hd : 0 < d) :
    Loses direction price (losing direction price d) := by
  cases direction with
  | long => exact sub_lt_self price hd
  | short => exact lt_add_of_pos_right price hd

theorem loses_rounded {direction : Direction} {price d : ℚ} (hd : 1 / 2 / 10 ^ 8 < d) :
    Loses direction price (roundPrice (losing direction price d)) := by
  have herror := abs_le.mp (roundPlaces_error 8 (losing direction price d))
  cases direction with
  | long =>
    show roundPlaces 8 (price - d) < price
    simp only [losing] at herror
    linarith [herror.2]
  | short =>
    show price < roundPlaces 8 (price + d)
    simp only [losing] at herror
    linarith [herror.1]

theorem wins_rounded {direction : Direction} {price d : ℚ} (hd : 1 / 2 / 10 ^ 8 < d) :
    Wins direction price (roundPrice (winning direction price d)) := by
  have herror := abs_le.mp (roundPlaces_error 8 (winning direction price d))
  cases direction with
  | long =>
    show price < roundPlaces 8 (price + d)
    simp only [winning] at herror
    linarith [herror.1]
  | short =>
    show roundPlaces 8 (price - d) < price
    simp only [winning] at herror
    linarith [herror.2]

namespace Mt5Broker

variable (b : Mt5Broker β)

/-- A level at distance `d` from `price`, to eight decimals: `Beyond` says on which side it then is. -/
structure AtDistance (level exact d : ℚ) (Beyond : Prop) : Prop where
  rounded : level = roundPrice exact
  error : |level - exact| ≤ 1 / 2 / 10 ^ 8
  side : 1 / 2 / 10 ^ 8 < d → Beyond

/-- A market order with its stop and its target where the signal has them, seen from the price of the order. -/
def KeepsDistances (sig : Signal) (stop : ℚ) : OrderBody → Prop
  | .entry direction _ price sl tp _ _ _ =>
    direction = sig.direction ∧ Loses direction price (losing direction price |sig.price - stop|) ∧
    AtDistance sl (losing direction price |sig.price - stop|) |sig.price - stop| (Loses direction price sl) ∧
    ∀ target, sig.tp = some target → target ≠ 0 → b.serverTp = true →
      AtDistance tp (winning direction price |sig.price - target|) |sig.price - target| (Wins direction price tp)
  | _ => False

theorem anchoredSl_eq {sig : Signal} {stop : ℚ} (hstop : sig.stop = some stop) (hne : stop ≠ 0) (price : ℚ) :
    anchoredSl sig price = losing sig.direction price |sig.price - stop| := by
  unfold anchoredSl anchored losing
  rw [hstop]
  cases sig.direction <;> simp [hne]

theorem anchoredTp_eq {sig : Signal} {target : ℚ} (htp : sig.tp = some target) (hne : target ≠ 0)
    (hserver : b.serverTp = true) (price : ℚ) :
    b.anchoredTp sig price = winning sig.direction price |sig.price - target| := by
  unfold anchoredTp anchored winning
  rw [htp, hserver]
  cases sig.direction <;> simp [hne]

theorem keepsDistances_entry {sig : Signal} {stop vol : ℚ} {r : OrderRequest} (hstop : sig.stop = some stop)
    (hne : stop ≠ 0) (hprice : stop ≠ sig.price) (hr : b.IsEntry sig vol r) : b.KeepsDistances sig stop r.body := by
  obtain ⟨price, f, rfl⟩ := hr
  have hd : 0 < |sig.price - stop| := abs_pos.mpr (sub_ne_zero.mpr hprice.symm)
  refine ⟨rfl, loses_losing hd, ⟨?_, ?_, ?_⟩, fun target htp htarget hserver => ⟨?_, ?_, ?_⟩⟩
  · rw [anchoredSl_eq hstop hne]
  · rw [anchoredSl_eq hstop hne]
    exact roundPlaces_error 8 _
  · rw [anchoredSl_eq hstop hne]
    exact loses_rounded
  · rw [b.anchoredTp_eq htp htarget hserver]
  · rw [b.anchoredTp_eq htp htarget hserver]
    exact roundPlaces_error 8 _
  · rw [b.anchoredTp_eq htp htarget hserver]
    exact wins_rounded

/-- **Every request of a market entry keeps the signal's distances.** -/
theorem entry_geometry (hmode : b.entryMode = .market) (sig : Signal) {stop : ℚ} (hstop : sig.stop = some stop)
    (hne : stop ≠ 0) (hprice : stop ≠ sig.price) (w : World β) :
    ∀ s ∈ sentSince w (exec (b.open' sig) w).2, b.KeepsDistances sig stop s.request.body := by
  obtain ⟨steps, hlog, -, hrungs, -⟩ := b.openMarket_trace sig w
  rw [b.open_market_world hmode, sentSince_of_append hlog]
  intro s hs
  obtain ⟨step, hstep, hmem⟩ := List.mem_flatMap.mp hs
  exact b.keepsDistances_entry hstop hne hprice ((hrungs step hstep).entries s hmem)

/-- Two requotes at rising prices, and a fill. -/
def requotingWorld : World Unit where
  server := {}
  env := fun n =>
    { tick := some ⟨100 + n, 101 + n, 0⟩
      send := { executes := 7 ≤ n, answer := some { retcode := if n < 7 then 10004 else 10009 } } }
  bot := ()

def requotedSignal : Signal where
  ts := 0
  kind := .entry
  direction := .long
  price := 100
  stateFrom := .rangeDefined
  stateTo := .breakout
  reason := "breakout_long"
  stop := some 98
  tp := some 103

/-- What the entry sends there under the default policy. -/
def requotedSends : List Sent :=
  sentSince requotingWorld (exec (({ retry := some {} } : Mt5Broker Unit).open' requotedSignal) requotingWorld).2

theorem entry_geometry_requoted :
    requotedSends.length = 3 ∧
      ∀ s ∈ requotedSends, ({ retry := some {} } : Mt5Broker Unit).KeepsDistances requotedSignal 98 s.request.body := by
  refine ⟨by decide +kernel, ?_⟩
  exact entry_geometry { retry := some {} } rfl requotedSignal rfl (by norm_num) (by norm_num [requotedSignal])
    requotingWorld

end Mt5Broker

end FreqTrading
