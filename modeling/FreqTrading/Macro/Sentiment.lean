import FreqTrading.Macro.Scorer

/-!
# Headline sentiment

`macro/sentiment.py`: the lexicon score of a headline, the assets it is about, the aggregate per asset, and the merge
of an aggregate into a state. A set of assets is a test on assets. `halving` is the function `0.5 ** x`, of which
nothing is assumed.
-/

namespace FreqTrading

namespace Macro

open Lib

/-! ### Words -/

/-- Words as texts. -/
def wordsOf (ws : List String) : List Text := ws.map String.toList

/-- `_POS`. -/
def positiveWords : List Text := wordsOf
  ["rally", "rallies", "surge", "surges", "soar", "soars", "jump", "jumps", "gain", "gains", "beat", "beats", "upgrade",
   "upgraded", "bullish", "optimism", "optimistic", "rebound", "recovery", "strong", "strength", "climbs", "rises",
   "rose", "boost", "boosts", "record", "outperform", "easing", "dovish", "soften"]

/-- `_NEG`. -/
def negativeWords : List Text := wordsOf
  ["crash", "crashes", "plunge", "plunges", "slump", "slumps", "tumble", "tumbles", "fall", "falls", "fell", "drop",
   "drops", "miss", "misses", "downgrade", "downgraded", "bearish", "fear", "fears", "recession", "selloff", "sinks",
   "slides", "weak", "weakness", "default", "crisis", "war", "conflict", "sanctions", "hawkish", "layoffs", "slowdown",
   "hot", "spike"]

/-- `_NEGATORS`. -/
def negators : List Text := wordsOf ["not", "no", "never", "without", "nt", "less"]

/-- `_ROUTES.get(sym)`. -/
def routes (sym : Text) : List Text :=
  if sym = "XAUUSD".toList then wordsOf ["gold", "bullion", "xau", "xauusd"]
  else if sym = "XAGUSD".toList then wordsOf ["silver", "xag", "xagusd"]
  else if sym = "US100".toList then
    wordsOf ["nasdaq", "tech", "semiconductor", "semiconductors", "chip", "chips", "ai", "nvidia", "amd", "broadcom",
      "tsmc", "apple", "microsoft", "us100"]
  else if sym = "US500".toList then wordsOf ["sp500", "dow", "us500"]
  else []

/-- `_PHRASES.get(sym)`. -/
def phrases (sym : Text) : List Text :=
  if sym = "XAUUSD".toList then ["gold price".toList]
  else if sym = "US100".toList then ["artificial intelligence".toList, "wall street tech".toList]
  else if sym = "US500".toList then ["s&p".toList, "s&p 500".toList, "wall street".toList, "blue chip".toList]
  else []

/-- `_EQUITY_TOKENS`. -/
def equityTokens : List Text := wordsOf ["equities", "stocks", "shares", "equity"]

/-- `_GLOBAL_TOKENS`. -/
def globalTokens : List Text := wordsOf
  ["fed", "fomc", "inflation", "cpi", "recession", "rates", "rate", "treasury", "yields", "dollar", "war", "tariffs",
   "geopolitical"]

/-- `text.lower()`, on ASCII. -/
def lower (text : Text) : Text := text.map Char.toLower

/-- A character of `_TOKEN_RE`. -/
def isToken (c : Char) : Bool := ('a' ≤ c && c ≤ 'z') || c.isDigit || c = '&'

/-- `_tokens`. -/
def tokens (text : Text) : List Text := ((lower text).splitOnP fun c => !isToken c).filter (· ≠ [])

/-- The state of the loop of `score_text`. -/
structure Count where
  pos : Nat := 0
  neg : Nat := 0
  negate : Bool := false
  deriving DecidableEq, Repr

/-- One turn of the loop: a negator turns the next word that counts, and a word that does not count ends it. -/
def Count.add (n : Count) (t : Text) : Count :=
  if t ∈ negators then { n with negate := true }
  else
    let positive := if t ∈ positiveWords then some true else if t ∈ negativeWords then some false else none
    match positive with
    | none => { n with negate := false }
    | some p =>
      if p = !n.negate then { n with pos := n.pos + 1, negate := false } else { n with neg := n.neg + 1, negate := false }

/-- `score_text`. -/
def scoreText (text : Text) : Option ℚ :=
  let n := (tokens text).foldl Count.add {}
  if n.pos + n.neg = 0 then none else some (((n.pos : ℚ) - n.neg) / (n.pos + n.neg))

/-- `sym in route_assets(text, symbols)`, for one of the symbols. -/
def routed (text sym : Text) : Bool :=
  let toks := tokens text
  toks.any (· ∈ routes sym) || (phrases sym).any (fun p => p <:+: lower text) ||
    ((sym = "US100".toList || sym = "US500".toList) && toks.any (· ∈ equityTokens)) || toks.any (· ∈ globalTokens)

/-! ### The aggregate -/

structure Headline where
  ts : DateTime
  text : Text

/-- `lookback_h` and `half_life_h` of `aggregate`. -/
def newsLookbackH : ℚ := 24

def newsHalfLifeH : ℚ := 8

/-- What the loop over the headlines keeps for one asset. -/
structure Tone where
  acc : ℚ := 0
  wt : ℚ := 0
  cnt : Nat := 0
  deriving DecidableEq, Repr

/-- The row of an aggregate. -/
structure Sentiment where
  sentiment : ℚ
  n : Nat
  deriving DecidableEq, Repr

variable (halving : ℚ → ℚ)

/-- One turn of the loop of `aggregate`, for one asset. -/
def Tone.add (now : DateTime) (sym : Text) (tone : Tone) (h : Headline) : Tone :=
  let age := ageH now h.ts
  if age < 0 ∨ newsLookbackH < age then tone
  else
    match scoreText h.text with
    | none => tone
    | some sv =>
      if routed h.text sym then
        let w := halving (age / newsHalfLifeH)
        { acc := tone.acc + w * sv, wt := tone.wt + w, cnt := tone.cnt + 1 }
      else tone

/-- The row of a tone. -/
def Tone.row (tone : Tone) : Sentiment where
  sentiment := if 0 < tone.wt then round3 (tone.acc / tone.wt) else 0
  n := tone.cnt

/-- `aggregate`. -/
def aggregate (headlines : List Headline) (now : DateTime) (symbols : List Text) : List (Text × Sentiment) :=
  symbols.eraseDups.map fun sym => (sym, (headlines.foldl (Tone.add halving now sym) {}).row)

/-! ### The merge -/

/-- `weight` of `merge_sentiment`. -/
def sentWeight : ℚ := 3 / 10

/-- `_SENT_CONF_CAP` and `_SENT_CONF_FULL`. -/
def sentConfCap : ℚ := 1 / 2

def sentConfFull : ℚ := 5

/-- The row that tilts an asset, if there is one. -/
def tiltedBy (agg : List (Text × Sentiment)) (sym : Text) : Option Sentiment :=
  (agg.lookup sym).filter fun a => a.n ≠ 0 && a.sentiment ≠ 0

/-- What an aggregate does to an asset. -/
def sentimentMove (agg : List (Text × Sentiment)) (sym : Text) : Option (ℚ × List Text) :=
  (tiltedBy agg sym).map fun row => (sentWeight * row.sentiment, ["sentiment=".toList ++ signed2 row.sentiment])

/-- The confidence of a merge that counted at most `n` headlines for an asset. -/
def sentConfidence (n : Nat) : ℚ := round3 (min sentConfCap (n / sentConfFull * sentConfCap))

/-- `merge_sentiment`. -/
def mergeSentiment (s : State) (agg : Option (List (Text × Sentiment))) : State :=
  match agg with
  | none => s
  | some agg =>
    let maxN := (s.assets.filterMap fun m => (tiltedBy agg m.1).map Sentiment.n).foldl max 0
    { s with
      assets := tiltAssets s.assets (sentimentMove agg)
      global :=
        if 0 < maxN then { s.global with confidence := max s.global.confidence (sentConfidence maxN) } else s.global }

end Macro

end FreqTrading
