import FreqTrading.Lib.Memory
import FreqTrading.Broker.Terminal

/-!
# The babysitter

`Babysitter` of `orb/babysitter.py`: it keeps a risk unit `d` for every open ticket, asks for a partial close
at so many units of profit, and trails the stop at `d` behind the close, never looser. A ticket's state is
made when the ticket is first seen and forgotten when a snapshot does not have it.
-/

namespace FreqTrading

open Lib

/-- `Action`. -/
inductive SitterAction
  | partialClose (ticket : Nat) (volume : ℚ)
  | updateSl (ticket : Nat) (sl : ℚ)
  deriving DecidableEq, Repr

/-- The action asks for a partial close of the ticket. -/
def SitterAction.isPartialOf (ticket : Nat) : SitterAction → Bool
  | .partialClose t _ => t = ticket
  | .updateSl _ _ => false

/-- The partial closes of a ticket among the actions. -/
def partialsOf (ticket : Nat) (acts : List SitterAction) : Nat := acts.countP (·.isPartialOf ticket)

theorem partialsOf_append (ticket : Nat) (as bs : List SitterAction) :
    partialsOf ticket (as ++ bs) = partialsOf ticket as + partialsOf ticket bs := List.countP_append

namespace Position

/-- The distance of the stop, or the default one where there is no stop. -/
def stopDistance (p : Position) (defaultD : ℚ) : ℚ := if p.sl ≠ 0 then |p.priceOpen - p.sl| else defaultD

/-- What the position has gained at a price, a move in its direction counting positive. -/
def gain (p : Position) (price : ℚ) : ℚ :=
  match p.direction with
  | .long => price - p.priceOpen
  | .short => p.priceOpen - price

/-- A stop that protects more than the position's, or any if it has none. -/
def tightens (p : Position) (sl : ℚ) : Bool :=
  p.sl = 0 ||
    match p.direction with
    | .long => p.sl < sl
    | .short => sl < p.sl

end Position

/-- `_TradeState`. -/
structure TradeState where
  d : ℚ
  partialDone : Bool := false
  deriving DecidableEq, Repr

structure Babysitter where
  partialFrac : ℚ := 7 / 10
  partialAtR : ℚ := 2
  breakevenAtR : ℚ := 0
  defaultD : ℚ := 4
  trades : Memory Nat TradeState := Memory.empty

namespace Babysitter

variable (close : ℚ)

/-- The state of a ticket, made at first sight. -/
def stateOf (b : Babysitter) (p : Position) : TradeState :=
  (b.trades p.ticket).getD { d := p.stopDistance b.defaultD }

/-- The partial close is due. -/
def partialDue (b : Babysitter) (p : Position) : Bool :=
  !(b.stateOf p).partialDone && b.partialAtR * (b.stateOf p).d ≤ p.gain close

/-- Where the stop is chased to: `d` behind the close, from breakeven on not worse than the entry. -/
def target (b : Babysitter) (p : Position) : ℚ :=
  let d := (b.stateOf p).d
  let breakeven := 0 < b.breakevenAtR ∧ b.breakevenAtR * d ≤ p.gain close
  match p.direction with
  | .long => if breakeven then max (close - d) p.priceOpen else close - d
  | .short => if breakeven then min (close + d) p.priceOpen else close + d

/-- One position of the snapshot: the actions asked for, and the state after. -/
def visit (b : Babysitter) (p : Position) : List SitterAction × Babysitter :=
  let st := b.stateOf p
  let due := b.partialDue close p
  let target := b.target close p
  ((if due then [.partialClose p.ticket (p.volume * b.partialFrac)] else []) ++
      (if p.tightens target then [.updateSl p.ticket target] else []),
    { b with trades := b.trades.put p.ticket { st with partialDone := st.partialDone || due } })

def visits : Babysitter → List Position → List SitterAction × Babysitter
  | b, [] => ([], b)
  | b, p :: ps =>
    let (acts, b) := b.visit close p
    let (rest, b) := visits b ps
    (acts ++ rest, b)

/-- `on_bar`: the positions in turn, then the tickets of no position are forgotten. -/
def onBar (b : Babysitter) (positions : List Position) : List SitterAction × Babysitter :=
  let (acts, b) := b.visits close positions
  (acts, { b with trades := b.trades.keep (positions.map (·.ticket)) })

end Babysitter

end FreqTrading
