import FreqTrading.Lib.JsonLoad
import FreqTrading.Copytrade.Store
import Mathlib.Data.List.Basic

/-!
# The leader's server

`do_POST` of `leader/server.py` over the event store, and `sign` of `orb/broadcast.py`. HMAC-SHA256 is a parameter,
as is what `json.dumps` writes of a dict; the headers are texts as `http.server` reads them, one character a byte.

A header that `float` reads has no brace in it and a body that is a JSON object has nothing but space before its
first, so that a signed message has one reading (`signed_message_injective`). An event that is stored is fresh
unless its timestamp is read as NaN, which is not more than `max_skew` away from any time (`replay_window_iff`).
-/

namespace FreqTrading.Copytrade

open Lib

/-! ### Requests -/

/-- A POST request: the path `urlparse` finds in its target, the headers that are read, and what can be read from the
connection after them. -/
structure Request where
  path : Text
  contentLength : Option Text := none
  timestamp : Option Text := none
  signature : Option Text := none
  received : List UInt8 := []
  deriving DecidableEq

namespace Request

variable (r : Request)

/-- `self.headers.get("X-Timestamp", "")`. -/
def ts : Text := r.timestamp.getD []

/-- `self.headers.get("X-Signature", "")`. -/
def sig : Text := r.signature.getD []

/-- `int(self.headers.get("Content-Length", 0))`. -/
def length? : Option Int :=
  match r.contentLength with
  | none => some 0
  | some header => intOf? header

end Request

/-- `rfile.read`: -1 reads to the end, and a length that is no index raises. -/
def readBody (received : List UInt8) (length : Int) : Option (List UInt8) :=
  if length < -1 ∨ 2 ^ 63 ≤ length then none
  else if length = -1 then some received
  else some (received.take length.toNat)

/-- The body that is read, where it is. -/
def Request.raw? (r : Request) : Option (List UInt8) := r.length?.bind (readBody r.received)

/-- What is signed: `timestamp.encode() + b"." + body`. -/
def message (timestamp : Text) (body : List UInt8) : List UInt8 := Json.encode timestamp ++ 46 :: body

/-- `hmac.compare_digest` of two texts; it raises if one of them is not ASCII. -/
def compareDigest (a b : Text) : Option Bool :=
  if (a ++ b).all (·.toNat < 128) then some (a = b) else none

/-- How a request ends that is not stored. -/
inductive Refusal
  | rejected (status : Nat) (error : String)
  /-- The handler raises, and the connection is dropped. -/
  | raised
  deriving DecidableEq, Repr

/-- What `make_handler` closes over, with the recursion limit of the interpreter. -/
structure Leader where
  secret : List UInt8
  maxSkew : ℚ := 300
  /-- `hmac.new(secret, message, sha256).hexdigest()`. -/
  hmac : List UInt8 → List UInt8 → Text
  /-- The members as `json.dumps` writes them. -/
  dumped : List (Key × Py) → Payload
  recursionLimit : Nat := 1000

namespace Leader

variable (L : Leader)

def sign (timestamp : Text) (body : List UInt8) : Text := L.hmac L.secret (message timestamp body)

/-- The test of the timestamp against the clock. -/
def stale (now : ℚ) (tsVal : PyFloat) : Bool := (PyFloat.fin L.maxSkew).lt ((PyFloat.fin now).sub tsVal).abs

/-- `do_POST` up to `store.append`: the payload, or how the request ends without one. -/
def ingest (now : ℚ) (r : Request) : Except Refusal (List (Key × Py)) :=
  if r.path ≠ "/events".toList then .error (.rejected 404 "not_found")
  else
    match r.length? with
    | none => .error (.rejected 400 "bad_content_length")
    | some length =>
      match readBody r.received length with
      | none => .error .raised
      | some raw =>
        match compareDigest (L.sign r.ts raw) r.sig with
        | none => .error .raised
        | some false => .error (.rejected 401 "bad_signature")
        | some true =>
          match floatOf? r.ts with
          | none => .error (.rejected 400 "bad_timestamp")
          | some tsVal =>
            if L.stale now tsVal then .error (.rejected 408 "stale_timestamp")
            else
              match Json.load L.recursionLimit raw with
              | .error .valueError => .error (.rejected 400 "malformed_json")
              | .error _ => .error .raised
              | .ok (.dict members) => .ok members
              | .ok _ => .error (.rejected 400 "payload_not_object")

/-- `do_POST`: the number of the event, if it is stored, and the store after it. -/
def doPost (now : ℚ) (store : LeaderStore) (r : Request) : Except Refusal Nat × LeaderStore :=
  match L.ingest now r with
  | .error refusal => (.error refusal, store)
  | .ok members => (.ok (store.append (L.dumped members)).seq, store.append (L.dumped members))

end Leader

/-! ### What is accepted -/

/-- A request for an event that is signed, with its body and the JSON object in it. -/
structure Leader.Signed (L : Leader) (r : Request) (raw : List UInt8) (members : List (Key × Py)) : Prop where
  path : r.path = "/events".toList
  body : r.raw? = some raw
  digest : compareDigest (L.sign r.ts raw) r.sig = some true
  object : Json.load L.recursionLimit raw = .ok (.dict members)

variable {L : Leader}

theorem ingest_ok_iff {now : ℚ} {r : Request} {members : List (Key × Py)} :
    L.ingest now r = .ok members ↔
      ∃ raw tsVal, L.Signed r raw members ∧ floatOf? r.ts = some tsVal ∧ L.stale now tsVal = false := by
  constructor
  · intro h
    unfold Leader.ingest at h
    split at h
    · cases h
    next hpath =>
    split at h
    · cases h
    next length hlength =>
    split at h
    · cases h
    next raw hraw =>
    split at h
    · cases h
    · cases h
    next hdigest =>
    split at h
    · cases h
    next tsVal hts =>
    split at h
    · cases h
    next hfresh =>
    split at h
    · cases h
    · cases h
    · next hobject =>
      cases h
      exact ⟨raw, tsVal, ⟨not_not.mp hpath, Option.bind_eq_some_iff.mpr ⟨length, hlength, hraw⟩, hdigest, hobject⟩,
        hts, by simpa using hfresh⟩
    · cases h
  · rintro ⟨raw, tsVal, hsigned, hts, hfresh⟩
    obtain ⟨length, hlength, hraw⟩ := Option.bind_eq_some_iff.mp hsigned.body
    simp [Leader.ingest, hsigned.path, hlength, hraw, hsigned.digest, hts, hfresh, hsigned.object]

theorem doPost_stored_iff {now : ℚ} {store : LeaderStore} {r : Request} :
    (∃ seq, (L.doPost now store r).1 = .ok seq) ↔ ∃ members, L.ingest now r = .ok members := by
  unfold Leader.doPost
  cases L.ingest now r with
  | error refusal => simp
  | ok members => simp

theorem doPost_refused {now : ℚ} {store : LeaderStore} {r : Request} {refusal : Refusal}
    (h : (L.doPost now store r).1 = .error refusal) : (L.doPost now store r).2 = store := by
  unfold Leader.doPost at *
  cases hingest : L.ingest now r with
  | error _ => rfl
  | ok members =>
    rw [hingest] at h
    cases h

/-! ### One reading -/

theorem append_cons_inj {c : Char} {cs cs' rest rest' : Text} (hcs : c ∉ cs) (hcs' : c ∉ cs')
    (h : cs ++ c :: rest = cs' ++ c :: rest') : cs = cs' ∧ rest = rest' := by
  induction cs generalizing cs' with
  | nil =>
    cases cs' with
    | nil => exact ⟨rfl, (List.cons.inj h).2⟩
    | cons d cs' => exact absurd (List.cons.inj h).1 (List.ne_of_not_mem_cons hcs')
  | cons d cs ih =>
    cases cs' with
    | nil => exact absurd (List.cons.inj h).1.symm (List.ne_of_not_mem_cons hcs)
    | cons d' cs' =>
      rw [List.cons_append, List.cons_append, List.cons_eq_cons] at h
      obtain ⟨rfl, htail⟩ := h
      obtain ⟨rfl, hrest⟩ := ih (List.not_mem_of_not_mem_cons hcs) (List.not_mem_of_not_mem_cons hcs') htail
      exact ⟨rfl, hrest⟩

/-- A timestamp without braces, a point and an object behind nothing but space can be told apart. -/
theorem split_message {ts ts' body body' rest rest' : Text} (hts : '{' ∉ ts) (hts' : '{' ∉ ts')
    (hbody : Json.skipSpace body = '{' :: rest) (hbody' : Json.skipSpace body' = '{' :: rest')
    (h : ts ++ '.' :: body = ts' ++ '.' :: body') : ts = ts' ∧ body = body' := by
  have hspace : ∀ {cs : Text} {c : Char}, c ∈ cs.takeWhile Json.isSpace → Json.isSpace c = true :=
    fun {cs c} hc => List.all_eq_true.mp (@List.all_takeWhile _ Json.isSpace cs) c hc
  have hsplit : ∀ {cs rest : Text}, Json.skipSpace cs = '{' :: rest → cs = cs.takeWhile Json.isSpace ++ '{' :: rest := by
    intro cs rest hcs
    rw [← hcs]
    exact List.takeWhile_append_dropWhile.symm
  have hfree : ∀ {cs ts : Text}, '{' ∉ ts → '{' ∉ ts ++ '.' :: cs.takeWhile Json.isSpace := by
    intro cs ts hts hmem
    rcases List.mem_append.mp hmem with hmem | hmem
    · exact hts hmem
    · rcases List.mem_cons.mp hmem with hpoint | hmem
      · cases hpoint
      · cases hspace hmem
  rw [hsplit hbody, hsplit hbody', ← List.cons_append, ← List.cons_append, ← List.append_assoc,
    ← List.append_assoc] at h
  obtain ⟨hhead, hrest⟩ := append_cons_inj (hfree hts) (hfree hts') h
  -- what stands before the first brace, from its last point on
  have hback := congrArg List.reverse hhead
  rw [List.reverse_append, List.reverse_append, List.reverse_cons, List.reverse_cons, List.append_assoc,
    List.append_assoc, List.singleton_append, List.singleton_append] at hback
  obtain ⟨hws, hts⟩ := append_cons_inj (fun hmem => by cases hspace (List.mem_reverse.mp hmem))
    (fun hmem => by cases hspace (List.mem_reverse.mp hmem)) hback
  refine ⟨List.reverse_injective hts, ?_⟩
  rw [hsplit hbody, hsplit hbody', hrest, List.reverse_injective hws]

/-- **The signed encoding is injective** where the timestamp is read as a float and the body as an object. -/
theorem message_injective {limit : Nat} {ts ts' : Text} {x x' : PyFloat} {raw raw' : List UInt8}
    {members members' : List (Key × Py)} (hts : floatOf? ts = some x) (hts' : floatOf? ts' = some x')
    (hraw : Json.load limit raw = .ok (.dict members)) (hraw' : Json.load limit raw' = .ok (.dict members'))
    (h : message ts raw = message ts' raw') : ts = ts' ∧ raw = raw' := by
  have hbrace : ∀ {ts : Text} {x : PyFloat}, floatOf? ts = some x → '{' ∉ ts := by
    intro ts x hts hmem
    rw [floatOf?_brace hmem] at hts
    cases hts
  obtain ⟨body, rfl, hparse⟩ := Json.load_ok hraw
  obtain ⟨body', rfl, hparse'⟩ := Json.load_ok hraw'
  obtain ⟨rest, hbody⟩ := Json.parse_dict hparse
  obtain ⟨rest', hbody'⟩ := Json.parse_dict hparse'
  have hmessage : ∀ ts body : Text, message ts (Json.encode body) = Json.encode (ts ++ '.' :: body) := by
    intro ts body
    have hpoint : Json.encode ('.' :: body) = 46 :: Json.encode body := rfl
    rw [Json.encode_append, hpoint]
    rfl
  rw [hmessage, hmessage] at h
  obtain ⟨rfl, rfl⟩ := split_message (hbrace hts) (hbrace hts') hbody hbody' (Json.encode_injective h)
  exact ⟨rfl, rfl⟩

theorem compareDigest_true {a b : Text} (h : compareDigest a b = some true) : a = b := by
  unfold compareDigest at h
  split at h
  · simpa using h
  · cases h

/-- **A signed message has one reading.** Two accepted requests with one signature have one timestamp and one body, if
the hash does not collide on them. -/
theorem accepted_signature_injective {now now' : ℚ} {store store' : LeaderStore} {r r' : Request} {seq seq' : Nat}
    (h : (L.doPost now store r).1 = .ok seq) (h' : (L.doPost now' store' r').1 = .ok seq') (hsig : r.sig = r'.sig)
    (hcollision : ∀ raw ∈ r.raw?, ∀ raw' ∈ r'.raw?,
      L.sign r.ts raw = L.sign r'.ts raw' → message r.ts raw = message r'.ts raw') :
    r.ts = r'.ts ∧ r.raw? = r'.raw? := by
  obtain ⟨members, hingest⟩ := doPost_stored_iff.mp ⟨seq, h⟩
  obtain ⟨members', hingest'⟩ := doPost_stored_iff.mp ⟨seq', h'⟩
  obtain ⟨raw, x, hsigned, hts, -⟩ := ingest_ok_iff.mp hingest
  obtain ⟨raw', x', hsigned', hts', -⟩ := ingest_ok_iff.mp hingest'
  have hdigest : L.sign r.ts raw = L.sign r'.ts raw' := by
    rw [compareDigest_true hsigned.digest, compareDigest_true hsigned'.digest, hsig]
  obtain ⟨hts_eq, rfl⟩ := message_injective hts hts' hsigned.object hsigned'.object
    (hcollision raw hsigned.body raw' hsigned'.body hdigest)
  exact ⟨hts_eq, hsigned.body.trans hsigned'.body.symm⟩

/-- A leader that knows the digests of two messages with the body of two braces. -/
def sampleLeader : Leader where
  secret := "secret".toUTF8.toList
  hmac _ m :=
    if m = message "nan".toList [123, 125] then "46892c24976c7e8b610e05a3f7e71c1c0ad25a03a1d13b65883000467fb939f8".toList
    else if m = message "1700000000".toList [123, 125] then
      "b8569b78799ff9e3cbff0fc2d63a33a2b57f3282abd07c37ae5e8e7d79a5f163".toList
    else []
  dumped _ := []

def sampleRequest (length timestamp : String) (digest : String) : Request where
  path := "/events".toList
  contentLength := some length.toList
  timestamp := some timestamp.toList
  signature := some digest.toList
  received := [123, 125]

/-- A signed request of that time, with its length written in some way. -/
def signedRequest (length : String) : Request :=
  sampleRequest length "1700000000" "b8569b78799ff9e3cbff0fc2d63a33a2b57f3282abd07c37ae5e8e7d79a5f163"

theorem accepted_signature_injective_sample :
    (signedRequest "2").ts = (signedRequest "02").ts ∧ (signedRequest "2").raw? = (signedRequest "02").raw? := by
  have h : (sampleLeader.doPost 1700000100 ⟨[], 0⟩ (signedRequest "2")).1 = .ok 1 := by decide +kernel
  have h' : (sampleLeader.doPost 1700000200 ⟨[], 1⟩ (signedRequest "02")).1 = .ok 2 := by decide +kernel
  exact accepted_signature_injective h h' (by decide +kernel) (by decide +kernel)

/-! ### The replay window -/

/-- A request, and the clock when its timestamp is tested. -/
structure Arrival where
  now : ℚ
  request : Request

namespace Leader

variable (L : Leader)

def serve (store : LeaderStore) (a : Arrival) : LeaderStore := (L.doPost a.now store a.request).2

/-- How the requests of a run end. -/
def replies : LeaderStore → List Arrival → List (Arrival × Except Refusal Nat)
  | _, [] => []
  | store, a :: arrivals => (a, (L.doPost a.now store a.request).1) :: replies (L.serve store a) arrivals

/-- What is stored has a timestamp around the clock, no timestamp is accepted again once the window has passed, and
what is refused leaves the store as it was. -/
structure ReplayWindow (store : LeaderStore) (arrivals : List Arrival) : Prop where
  fresh : ∀ x ∈ L.replies store arrivals, ∀ seq, x.2 = .ok seq →
    ∃ q, floatOf? x.1.request.ts = some (.fin q) ∧ |x.1.now - q| ≤ L.maxSkew
  once : ∀ x ∈ L.replies store arrivals, ∀ y ∈ L.replies store arrivals, ∀ seq seq', x.2 = .ok seq →
    y.2 = .ok seq' → x.1.request.ts = y.1.request.ts → y.1.now ≤ x.1.now + 2 * L.maxSkew
  refused : StepsMeet L.serve (fun store a => ∀ refusal, (L.doPost a.now store a.request).1 = .error refusal →
    L.serve store a = store) store arrivals

/-- A signed event with a timestamp that is read as NaN. -/
def SignedNan (r : Request) : Prop := floatOf? r.ts = some .nan ∧ ∃ raw members, L.Signed r raw members

end Leader

theorem stale_fin {now q : ℚ} : L.stale now (.fin q) = false ↔ |now - q| ≤ L.maxSkew := by
  simp [Leader.stale, PyFloat.sub, PyFloat.abs, PyFloat.lt]

theorem stale_inf {now : ℚ} {negative : Bool} : L.stale now (.inf negative) = true := rfl

theorem stale_nan {now : ℚ} : L.stale now .nan = false := rfl

theorem stored_fresh {now : ℚ} {store : LeaderStore} {r : Request} {seq : Nat}
    (h : (L.doPost now store r).1 = .ok seq) :
    (∃ q, floatOf? r.ts = some (.fin q) ∧ |now - q| ≤ L.maxSkew) ∨ L.SignedNan r := by
  obtain ⟨members, hingest⟩ := doPost_stored_iff.mp ⟨seq, h⟩
  obtain ⟨raw, x, hsigned, hts, hstale⟩ := ingest_ok_iff.mp hingest
  cases x with
  | nan => exact Or.inr ⟨hts, raw, members, hsigned⟩
  | inf negative =>
    rw [stale_inf] at hstale
    cases hstale
  | fin q => exact Or.inl ⟨q, hts, stale_fin.mp hstale⟩

theorem signedNan_stored {r : Request} (h : L.SignedNan r) (now : ℚ) (store : LeaderStore) :
    ∃ seq, (L.doPost now store r).1 = .ok seq := by
  obtain ⟨hts, raw, members, hsigned⟩ := h
  exact doPost_stored_iff.mpr ⟨members, ingest_ok_iff.mpr ⟨raw, .nan, hsigned, hts, stale_nan⟩⟩

theorem mem_replies {store : LeaderStore} {arrivals : List Arrival} {x : Arrival × Except Refusal Nat}
    (h : x ∈ L.replies store arrivals) :
    x.1 ∈ arrivals ∧ ∃ store', x.2 = (L.doPost x.1.now store' x.1.request).1 := by
  induction arrivals generalizing store with
  | nil => cases h
  | cons a arrivals ih =>
    rcases List.mem_cons.mp h with rfl | h
    · exact ⟨List.mem_cons_self, store, rfl⟩
    · obtain ⟨hmem, hreply⟩ := ih h
      exact ⟨List.mem_cons_of_mem _ hmem, hreply⟩

theorem reply_of_mem (store : LeaderStore) {arrivals : List Arrival} {a : Arrival} (h : a ∈ arrivals) :
    ∃ store', (a, (L.doPost a.now store' a.request).1) ∈ L.replies store arrivals := by
  induction arrivals generalizing store with
  | nil => cases h
  | cons b arrivals ih =>
    rcases List.mem_cons.mp h with rfl | h
    · exact ⟨store, List.mem_cons_self⟩
    · obtain ⟨store', hmem⟩ := ih (L.serve store b) h
      exact ⟨store', List.mem_cons_of_mem _ hmem⟩

/-- **The replay window** holds of a run, whatever the clock does, exactly if no event is signed with a NaN. -/
theorem replay_window_iff (L : Leader) (store : LeaderStore) (arrivals : List Arrival) :
    L.ReplayWindow store arrivals ↔ ∀ a ∈ arrivals, ¬ L.SignedNan a.request := by
  constructor
  · intro h a ha hnan
    obtain ⟨store', hmem⟩ := reply_of_mem store ha
    obtain ⟨seq, hseq⟩ := signedNan_stored hnan a.now store'
    obtain ⟨q, hq, -⟩ := h.fresh _ hmem seq hseq
    rw [hnan.1] at hq
    cases hq
  · intro h
    have hfresh : ∀ x ∈ L.replies store arrivals, ∀ seq, x.2 = .ok seq →
        ∃ q, floatOf? x.1.request.ts = some (.fin q) ∧ |x.1.now - q| ≤ L.maxSkew := by
      intro x hx seq hseq
      obtain ⟨hmem, store', hreply⟩ := mem_replies hx
      exact (stored_fresh (hreply.symm.trans hseq)).resolve_right (h x.1 hmem)
    refine ⟨hfresh, ?_, ?_⟩
    · intro x hx y hy seq seq' hseq hseq' hts
      obtain ⟨q, hq, hle⟩ := hfresh x hx seq hseq
      obtain ⟨q', hq', hle'⟩ := hfresh y hy seq' hseq'
      obtain rfl : q = q' := by
        rw [hts, hq'] at hq
        cases hq
        rfl
      have hx := abs_le.mp hle
      have hy := abs_le.mp hle'
      linarith
    · exact (stepsMeet_of_forall (P := fun _ => True) fun _ _ => trivial).mono
        fun store a _ refusal hrefused => doPost_refused hrefused

def nanRequest : Request :=
  sampleRequest "2" "nan" "46892c24976c7e8b610e05a3f7e71c1c0ad25a03a1d13b65883000467fb939f8"

/-- An event signed with a NaN is stored, and a day later stored again. -/
theorem replay_window_fails :
    (sampleLeader.doPost 1700000000 ⟨[], 0⟩ nanRequest).1 = .ok 1 ∧
      (sampleLeader.doPost 1700086400 ⟨[], 1⟩ nanRequest).1 = .ok 2 ∧
      ¬ sampleLeader.ReplayWindow ⟨[], 0⟩ [⟨1700000000, nanRequest⟩, ⟨1700086400, nanRequest⟩] := by
  have hstored : (sampleLeader.doPost 1700000000 ⟨[], 0⟩ nanRequest).1 = .ok 1 := by decide +kernel
  have hagain : (sampleLeader.doPost 1700086400 ⟨[], 1⟩ nanRequest).1 = .ok 2 := by decide +kernel
  have hnan : floatOf? nanRequest.ts = some .nan := by decide +kernel
  refine ⟨hstored, hagain, fun h => ?_⟩
  obtain ⟨q, hq, -⟩ := h.fresh _ List.mem_cons_self 1 hstored
  rw [hnan] at hq
  cases hq

end FreqTrading.Copytrade
