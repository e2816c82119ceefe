import Mathlib.Data.List.Induction
import FreqTrading.Lib.Python
import FreqTrading.Copytrade.Server

/-!
# Reading the store

`do_GET` of `leader/server.py`, and `latest` of `leader/store.py` on any integer. The file of a store that was
only appended to has one line for each payload, with its number (`history_file`), and a store reopened on it goes on
where it was (`reopened_history`). `lines[-n:]` is the end of the list for a positive `n`, and for 0 all of it:
`latest_iff` says which reads return a suffix of the log.
-/

namespace FreqTrading.Copytrade

open Lib Lib.Json

/-! ### `do_GET` -/

/-- `latest` of an integer, with `lines[-max(int(n), 0):]`. -/
def LeaderStore.latestOf (store : LeaderStore) (n : Int) : List Value := store.latest (max n 0).toNat

/-- The JSON of an answer with status 200. -/
inductive Body
  | health (events : Nat)
  | events (latest : List Value)

/-- `do_GET`, where `n` is the first value `parse_qs` finds for the parameter. -/
def LeaderStore.doGet (store : LeaderStore) (path : Text) (n : Option Text) : Except Refusal Body :=
  if path = "/health".toList then .ok (.health store.count)
  else if path = "/events/latest".toList then
    match intOf? (n.getD "50".toList) with
    | none => .error (.rejected 400 "bad_n")
    | some n => .ok (.events (store.latestOf n))
  else .error (.rejected 404 "not_found")

/-! ### A history of appends -/

/-- The store after these appends to a new file. -/
def history (payloads : List Payload) : LeaderStore := payloads.foldl LeaderStore.append (.opened [])

/-- The payloads with their numbers. -/
def numbered (payloads : List Payload) : List Payload :=
  payloads.zipIdx.map fun (payload, i) => setMember seqKey (ofNat (i + 1)) payload

theorem numbered_append (payloads : List Payload) (payload : Payload) :
    numbered (payloads ++ [payload]) =
      numbered payloads ++ [setMember seqKey (ofNat (payloads.length + 1)) payload] := by
  simp [numbered, List.zipIdx_append]

@[simp] theorem length_numbered (payloads : List Payload) : (numbered payloads).length = payloads.length := by
  simp [numbered]

theorem history_append (payloads : List Payload) (payload : Payload) :
    history (payloads ++ [payload]) = (history payloads).append payload := by
  simp [history]

theorem history_eq (payloads : List Payload) :
    history payloads = ⟨joined ((numbered payloads).map eventLine), payloads.length⟩ := by
  induction payloads using List.reverseRecOn with
  | nil => rfl
  | append_singleton payloads payload ih =>
    rw [history_append, ih, numbered_append]
    simp [LeaderStore.append, LeaderStore.record, joined_append, joined_single]

theorem loadLastSeq_history (payloads : List Payload) :
    loadLastSeq (joined ((numbered payloads).map eventLine)) = payloads.length := by
  have hlines : lines isNewline (joined ((numbered payloads).map eventLine)) = (numbered payloads).map eventLine := by
    refine lines_joined (by decide) fun line hline => ?_
    obtain ⟨record, -, rfl⟩ := List.mem_map.mp hline
    exact isLine_eventLine (fun _ hc => isBreak_of_isNewline hc) record
  unfold loadLastSeq
  rw [hlines]
  clear hlines
  induction payloads using List.reverseRecOn with
  | nil => rfl
  | append_singleton payloads payload ih =>
    have hline : lineSeq (eventLine (setMember seqKey (ofNat (payloads.length + 1)) payload)) = payloads.length + 1 :=
      lineSeq_eventLine (member_setMember _ _ _)
    rw [numbered_append, List.map_append, List.foldl_append, ih]
    simp [higherSeq, hline]

/-- A store that is reopened between two appends goes on as if it had not been. -/
theorem reopened_history (payloads : List Payload) : LeaderStore.opened (history payloads).file = history payloads := by
  rw [history_eq, LeaderStore.opened, loadLastSeq_history]

/-! ### The end of the log -/

/-- The last `min(max(n, 0), number of events)` events of the log. -/
def lastEvents (payloads : List Payload) (n : Int) : List Value :=
  ((numbered payloads).drop (payloads.length - min (max n 0).toNat payloads.length)).map Value.obj

/-- **`latest` is the end of the log exactly for the positive numbers**, unless nothing was stored. -/
theorem latest_iff (payloads : List Payload) (n : Int) :
    (history payloads).latestOf n = lastEvents payloads n ↔ 1 ≤ n ∨ payloads = [] := by
  rw [LeaderStore.latestOf, history_eq, latest_records, lastEvents]
  constructor
  · intro h
    by_contra hnot
    have hn : (max n 0).toNat = 0 := by omega
    have hlength := congrArg List.length h
    rw [hn] at hlength
    simp only [lastItems, if_true, List.length_map, length_numbered, Nat.zero_min, Nat.sub_zero, List.length_drop,
      Nat.sub_self] at hlength
    exact hnot (Or.inr (List.length_eq_zero_iff.mp hlength))
  · rintro (hn | rfl)
    · have hpos : (max n 0).toNat ≠ 0 := by omega
      rw [lastItems, if_neg hpos, length_numbered]
      congr 2
      omega
    · have hall : (numbered []).length ≤ (max n 0).toNat := Nat.zero_le _
      rw [lastItems_all hall]
      simp [numbered]

/-- One event is stored, and none is asked for. -/
theorem latest_zero :
    ¬ ∀ (payloads : List Payload) (n : Int), (history payloads).latestOf n = lastEvents payloads n := by
  intro h
  have hlength := congrArg List.length (h [[]] 0)
  cases hlength

end FreqTrading.Copytrade
