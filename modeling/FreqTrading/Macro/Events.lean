import FreqTrading.Macro.State

/-!
# Calendar events and blackout windows

`RawEvent` and `parse_value` of `macro/normalizer.py`, and `macro/blackout.py`. A sum of a time and a duration that
leaves the years of `datetime` raises, here and in the source.
-/

namespace FreqTrading

namespace Macro

open Lib

structure RawEvent where
  ts : DateTime
  title : Text
  currency : Text
  impact : Impact
  kind : Kind
  forecast : Option Text := none
  actual : Option Text := none

/-- `reason`. -/
def RawEvent.reason (ev : RawEvent) : Text := if ev.kind ≠ .other then ev.kind.text else ev.title.take 24

/-- `_SUFFIX`. -/
def suffix? (c : Char) : Option ℚ :=
  match c.toLower with
  | 'k' => some (10 ^ 3)
  | 'm' => some (10 ^ 6)
  | 'b' => some (10 ^ 9)
  | 't' => some (10 ^ 12)
  | _ => none

/-- `parse_value`. -/
def parseValue (s : Option Text) : Option PyFloat :=
  s.bind fun s =>
    let t := strip ((strip s).filter fun c => c ≠ '<' && c ≠ '>' && c ≠ '~' && c ≠ ',' && c ≠ '%')
    match t.getLast? with
    | none => none
    | some c =>
      match suffix? c with
      | some mult => (floatOf? t.dropLast).map (PyFloat.scale mult)
      | none => floatOf? t

def microsPerMinute : Int := 60000000

/-! ### Blackout windows -/

/-- `DEFAULT_PRE_MIN` and `DEFAULT_POST_MIN`. -/
def defaultPreMin : Int := 30

def defaultPostMin : Int := 30

/-- `DEFAULT_IMPACTS`. -/
def defaultImpacts : List Impact := [.high]

/-- One turn of the loop of `active_blackout`: the windows that `now` is in, by their ends and reasons. -/
def addHit (now : DateTime) (preMin postMin : Int) (impacts : List Impact) (found : List (DateTime × Text))
    (ev : RawEvent) : Except PyError (List (DateTime × Text)) :=
  if ev.impact ∉ impacts then .ok found
  else do
    let start ← ev.ts.add (-(preMin * microsPerMinute))
    let stop ← ev.ts.add (postMin * microsPerMinute)
    return if start.us ≤ now.us ∧ now.us ≤ stop.us then found ++ [(stop, ev.reason)] else found

/-- The later of two times. -/
def later (t u : DateTime) : DateTime := if t.us < u.us then u else t

/-- `active_blackout`. -/
def activeBlackout (events : List RawEvent) (now : DateTime) (preMin postMin : Int) (impacts : List Impact) :
    Except PyError (Option BlackoutState) := do
  match ← events.foldlM (addHit now preMin postMin impacts) [] with
  | [] => return none
  | (stop, reason) :: rest =>
    let until' := rest.foldl (fun t hit => later t hit.1) stop
    let reasons := (reason :: rest.map Prod.snd).eraseDups
    return some { active := true, until' := some (until'.isoText ['Z']), reason := some ([','].intercalate reasons) }

/-- `horizon_h` of `build_state`. -/
def horizonH : Int := 48

/-- `upcoming_events`. -/
def upcomingEvents (events : List RawEvent) (now : DateTime) (preMin postMin : Int) : Except PyError (List Upcoming) := do
  let horizon ← now.add (horizonH * 60 * microsPerMinute)
  return (events.filter fun ev =>
    (ev.impact = .high || ev.impact = .medium) && now.us ≤ ev.ts.us && ev.ts.us ≤ horizon.us).map fun ev =>
      { id := ev.kind.text ++ '-' :: (ev.ts.isoText []).take 16
        ts := ev.ts.isoText ['Z']
        impact := ev.impact
        kind := ev.kind
        currency := ev.currency
        preMin := preMin
        postMin := postMin }

end Macro

end FreqTrading
