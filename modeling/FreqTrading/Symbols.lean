import Mathlib.Data.Char
import Mathlib.Data.List.Lex
import Mathlib.Data.List.Induction
import Mathlib.Data.Prod.Lex
import FreqTrading.Lib.Run
import FreqTrading.Macroguard.State

/-!
# Broker symbols

The resolver of `orb/symbols.py` with its cache, and the two ways back from a broker's name to the base symbol:
`base_symbol_of` of the trade events and `bare_key` of the macro guard. What the three do on letter case is a
`Casing`, so that the results hold for all of Unicode; on ASCII the guard's own `bare_key` is the one of the casing
(`bareKey_asciiOnly`).

A resolved name is one the broker has listed, and the best of its list (`resolveSymbol_listed`); both ways back lead
to the base exactly if the name is the base with at most a dotted suffix, and the base has nothing on it that is
taken for a decoration (`normalised_iff`). The base itself, where it is listed, is returned exactly if no candidate stands
better in the market watch (`resolveSymbol_exact_iff`).
-/

namespace FreqTrading

open Lib

namespace Symbols

/-- `str.upper` and `str.isalnum`, a character at a time. Only the point has a point in upper case. -/
structure Casing where
  upperOf : Char → Text
  isAlnum : Char → Bool
  ascii : ∀ c, c.toNat < 128 → upperOf c = [c.toUpper] ∧ isAlnum c = c.isAlphanum
  upperOf_ne_nil : ∀ c, upperOf c ≠ []
  point : ∀ c, '.' ∈ upperOf c → c = '.'

/-- A name the broker lists, with what is read of it. -/
structure SymbolRow where
  name : Text
  visible : Bool
  tradeMode : Option Int
  deriving DecidableEq, Repr

/-- `SYMBOL_TRADE_MODE_FULL`. -/
def tradeModeFull : Int := 4

/-- `KNOWN_SUFFIXES`. -/
def knownSuffixes : List Text :=
  ["".toList, ".ECN".toList, ".PRO".toList, ".RAW".toList, ".STD".toList, "M".toList, ".M".toList, "C".toList,
    ".I".toList]

/-- `_GENERIC_TAIL_RANK`. -/
def genericTailRank : Nat := knownSuffixes.length

/-- `_PREFIX_FORM_RANK`. -/
def prefixFormRank : Nat := genericTailRank + 1

/-- `_MAX_GENERIC_TAIL`. -/
def maxGenericTail : Nat := 4

/-- `_BARE_SUFFIXES`. -/
def bareSuffixes : List Text := ["m".toList, "c".toList]

/-- The loop of `base_symbol_of` over the bare suffixes. -/
def dropBareSuffix (head : Text) : List Text → Text
  | [] => head
  | suf :: rest =>
    if suf.length < head.length ∧ suf <:+ head then head.take (head.length - suf.length) else dropBareSuffix head rest

/-- The sort key of a candidate: tradable first, then visible, then the rank of its form, then the shortest. -/
abbrev RankKey := Lex (Nat × Lex (Nat × Lex (Nat × Lex (Nat × Text))))

def RankKey.name (key : RankKey) : Text := (ofLex (ofLex (ofLex (ofLex key).2).2).2).2

/-- `_CACHE`: the resolved name by the identity of the connection and the base in upper case. -/
abbrev Cache := List ((Nat × Text) × Text)

/-- `SymbolResolveError`. -/
inductive SymbolResolveError
  | emptyBase
  | noMatch (base : Text) (scanned : Nat)
  deriving DecidableEq, Repr

/-- What happens to the module's cache. -/
inductive ResolverCall
  | resolve (mt5 : Nat) (infos : Option (List SymbolRow)) (base : Text)
  | clear

namespace Casing

variable (cs : Casing)

def upper (s : Text) : Text := s.flatMap cs.upperOf

/-- `_match_rank`. -/
def matchRank (nameU baseU : Text) : Option Nat :=
  let tail := nameU.drop baseU.length
  let known := knownSuffixes.findIdx? (· = tail)
  if baseU <+: nameU ∧ known.isSome then known
  else if baseU <+: nameU ∧ 0 < tail.length ∧ tail.length ≤ maxGenericTail ∧
      tail.all (fun c => cs.isAlnum c || c = '.') then some genericTailRank
  else if baseU <:+ nameU then some prefixFormRank
  else none

/-- The key of a row that matches the base. -/
def keyOf (baseU : Text) (row : SymbolRow) : Option RankKey :=
  (cs.matchRank (cs.upper row.name) baseU).map fun rank =>
    toLex (if row.tradeMode = some tradeModeFull then 0 else 1,
      toLex (if row.visible then 0 else 1, toLex (rank, toLex (row.name.length, row.name))))

/-- `rank_candidates`. -/
def rankCandidates (infos : List SymbolRow) (base : Text) : List Text :=
  if cs.upper base = [] then []
  else ((infos.filterMap (cs.keyOf (cs.upper base))).mergeSort fun k k' => decide (k ≤ k')).map RankKey.name

/-- `resolve_symbol`, with the cache it leaves. -/
def resolveSymbol (cache : Cache) (mt5 : Nat) (infos : Option (List SymbolRow)) (base : Text) :
    Except SymbolResolveError Text × Cache :=
  if base = [] then (.error .emptyBase, cache)
  else
    match cache.lookup (mt5, cs.upper base) with
    | some cached => (.ok cached, cache)
    | none =>
      match cs.rankCandidates (infos.getD []) base with
      | [] => (.error (.noMatch base (infos.getD []).length), cache)
      | resolved :: _ => (.ok resolved, ((mt5, cs.upper base), resolved) :: cache)

def resolverStep (cache : Cache) : ResolverCall → Cache
  | .resolve mt5 infos base => (cs.resolveSymbol cache mt5 infos base).2
  | .clear => []

/-- `base_symbol_of`. -/
def baseSymbolOf (symbol : Text) : Text :=
  cs.upper (dropBareSuffix (strip (symbol.takeWhile (· ≠ '.'))) bareSuffixes)

/-- `bare_key`. -/
def bareKey (symbol : Text) : Text := cs.upper (symbol.takeWhile (· ≠ '.'))

/-! ### Upper case -/

variable {cs}

theorem upper_append (s t : Text) : cs.upper (s ++ t) = cs.upper s ++ cs.upper t := List.flatMap_append

theorem upper_eq_nil {s : Text} : cs.upper s = [] ↔ s = [] := by
  constructor
  · intro h
    cases s with
    | nil => rfl
    | cons c s =>
      rw [upper, List.flatMap_cons, List.append_eq_nil_iff] at h
      exact absurd h.1 (cs.upperOf_ne_nil c)
  · rintro rfl
    rfl

theorem point_mem_upper {s : Text} : '.' ∈ cs.upper s ↔ '.' ∈ s := by
  have hpoint : '.' ∈ cs.upperOf '.' := by
    rw [(cs.ascii '.' (by decide)).1]
    decide
  rw [upper, List.mem_flatMap]
  constructor
  · rintro ⟨c, hc, hmem⟩
    rwa [cs.point c hmem] at hc
  · intro h
    exact ⟨'.', h, hpoint⟩

theorem eq_of_upper_infix {s t : Text} (hin : t <:+: s) (h : cs.upper t = cs.upper s) : t = s := by
  obtain ⟨a, b, hs⟩ := hin
  have hlength : (cs.upper a).length + (cs.upper b).length = 0 := by
    have := congrArg List.length h
    rw [← hs, upper_append, upper_append, List.length_append, List.length_append] at this
    omega
  have ha : cs.upper a = [] := List.eq_nil_of_length_eq_zero (by omega)
  have hb : cs.upper b = [] := List.eq_nil_of_length_eq_zero (by omega)
  rw [← hs, upper_eq_nil.mp ha, upper_eq_nil.mp hb, List.nil_append, List.append_nil]

end Casing

/-! ### The way back to the base -/

theorem dropBareSuffix_head (head : Text) (sufs : List Text) : dropBareSuffix head sufs <+: head := by
  induction sufs with
  | nil => exact List.prefix_rfl
  | cons suf rest ih =>
    unfold dropBareSuffix
    split
    · exact List.take_prefix _ _
    · exact ih

theorem dropBareSuffix_eq_self {head : Text} {sufs : List Text} (hne : [] ∉ sufs) :
    dropBareSuffix head sufs = head ↔ ∀ suf ∈ sufs, suf.length < head.length → ¬ suf <:+ head := by
  induction sufs with
  | nil => simp [dropBareSuffix]
  | cons suf rest ih =>
    rw [List.mem_cons, not_or] at hne
    rw [List.forall_mem_cons, dropBareSuffix]
    by_cases hsuf : suf.length < head.length ∧ suf <:+ head
    · rw [if_pos hsuf]
      have hpos : 0 < suf.length := List.length_pos_of_ne_nil (Ne.symm hne.1)
      refine iff_of_false ?_ fun h => h.1 hsuf.1 hsuf.2
      intro h
      have := congrArg List.length h
      rw [List.length_take] at this
      omega
    · rw [if_neg hsuf, ih hne.2]
      constructor
      · intro h
        exact ⟨fun hlt hend => hsuf ⟨hlt, hend⟩, h⟩
      · exact And.right

/-- The name is the base, which has no point, in some letter case, alone or before a point; nothing of it is taken for
a blank or for a bare suffix. -/
def Casing.PlainForm (cs : Casing) (base name : Text) : Prop :=
  '.' ∉ base ∧ ∃ head tail, name = head ++ tail ∧ cs.upper head = cs.upper base ∧ (∀ c ∈ tail.head?, c = '.') ∧
    ((∀ c ∈ head.head?, isBlank c = false) ∧ ∀ c ∈ head.getLast?, isBlank c = false) ∧
    ∀ suf ∈ bareSuffixes, suf.length < head.length → ¬ suf <:+ head

theorem takeWhile_point {head tail : Text} (hhead : '.' ∉ head) (htail : ∀ c ∈ tail.head?, c = '.') :
    (head ++ tail).takeWhile (· ≠ '.') = head := by
  rw [List.takeWhile_append_of_pos fun c hc => by simpa using fun h : c = '.' => hhead (h ▸ hc)]
  cases tail with
  | nil => simp
  | cons c rest =>
    have hc : c = '.' := htail c rfl
    simp [hc]

theorem head_of_takeWhile (name : Text) :
    '.' ∉ name.takeWhile (· ≠ '.') ∧ ∀ c ∈ (name.dropWhile (· ≠ '.')).head?, c = '.' := by
  constructor
  · intro h
    have hall := List.all_eq_true.mp (@List.all_takeWhile _ (fun c : Char => decide (c ≠ '.')) name) '.' h
    simp at hall
  · intro c hc
    have hhead := List.head?_dropWhile_not (fun c : Char => decide (c ≠ '.')) name
    rw [hc] at hhead
    simpa using hhead

/-- Both ways back lead to the base exactly from its plain forms. -/
theorem Casing.normalised_iff_plainForm (cs : Casing) (base name : Text) :
    (cs.baseSymbolOf name = cs.upper base ∧ cs.bareKey name = cs.upper base) ↔ cs.PlainForm base name := by
  obtain ⟨hpoint, htail⟩ := head_of_takeWhile name
  have hbare : ∀ head : Text, dropBareSuffix head bareSuffixes = head ↔
      ∀ suf ∈ bareSuffixes, suf.length < head.length → ¬ suf <:+ head :=
    fun head => dropBareSuffix_eq_self (by decide)
  constructor
  · rintro ⟨hbase, hkey⟩
    have hin : dropBareSuffix (strip (name.takeWhile (· ≠ '.'))) bareSuffixes <:+: name.takeWhile (· ≠ '.') :=
      (dropBareSuffix_head _ _).isInfix.trans (strip_within _)
    have hall := eq_of_upper_infix hin (hbase.trans hkey.symm)
    -- nothing was dropped on the way
    have hstrip : strip (name.takeWhile (· ≠ '.')) = name.takeWhile (· ≠ '.') := by
      refine (strip_within _).eq_of_length_le ?_
      have hle := (dropBareSuffix_head (strip (name.takeWhile (· ≠ '.'))) bareSuffixes).length_le
      rwa [hall] at hle
    rw [hstrip] at hall
    refine ⟨?_, _, _, (List.takeWhile_append_dropWhile).symm, hkey, htail, strip_eq_iff.mp hstrip, (hbare _).mp hall⟩
    rw [← Casing.point_mem_upper, ← hkey, bareKey, Casing.point_mem_upper]
    exact hpoint
  · rintro ⟨hdot, head, tail, rfl, hupper, hnext, hblank, hsuffix⟩
    have hhead : '.' ∉ head := by
      rw [← Casing.point_mem_upper, hupper, Casing.point_mem_upper]
      exact hdot
    rw [baseSymbolOf, bareKey, takeWhile_point hhead hnext, strip_eq_iff.mpr hblank, (hbare head).mpr hsuffix]
    exact ⟨hupper, hupper⟩

/-! ### What the resolver returns -/

/-- A listed name that matches the base, with no candidate of the list before it. -/
def Casing.Best (cs : Casing) (infos : Option (List SymbolRow)) (baseU name : Text) : Prop :=
  ∃ row ∈ infos.getD [], row.name = name ∧ ∃ key, cs.keyOf baseU row = some key ∧
    ∀ other ∈ infos.getD [], ∀ k ∈ cs.keyOf baseU other, key ≤ k

variable {cs : Casing}

theorem keyOf_name {baseU : Text} {row : SymbolRow} {key : RankKey} (h : cs.keyOf baseU row = some key) :
    key.name = row.name := by
  obtain ⟨rank, _, rfl⟩ := Option.map_eq_some_iff.mp h
  rfl

theorem best_of_rankCandidates {infos : Option (List SymbolRow)} {base resolved : Text} {others : List Text}
    (h : cs.rankCandidates (infos.getD []) base = resolved :: others) : cs.Best infos (cs.upper base) resolved := by
  unfold Casing.rankCandidates at h
  split at h
  · cases h
  · obtain ⟨key, keys, hkeys, rfl, _⟩ := List.map_eq_cons_iff.mp h
    have htrans : ∀ a b c : RankKey, decide (a ≤ b) → decide (b ≤ c) → decide (a ≤ c) := by
      simpa only [decide_eq_true_eq] using fun a b c : RankKey => le_trans
    have htotal : ∀ a b : RankKey, decide (a ≤ b) || decide (b ≤ a) := by
      simpa only [Bool.or_eq_true, decide_eq_true_eq] using fun a b : RankKey => le_total a b
    have hsorted := List.pairwise_mergeSort htrans htotal ((infos.getD []).filterMap (cs.keyOf (cs.upper base)))
    have hmem : ∀ k, k ∈ (infos.getD []).filterMap (cs.keyOf (cs.upper base)) ↔ k ∈ key :: keys := by
      intro k
      rw [← hkeys, List.mem_mergeSort]
    obtain ⟨row, hrow, hkey⟩ := List.mem_filterMap.mp ((hmem key).mpr List.mem_cons_self)
    refine ⟨row, hrow, (keyOf_name hkey).symm, key, hkey, fun other hother k hk => ?_⟩
    rw [hkeys, List.pairwise_cons] at hsorted
    rcases List.mem_cons.mp ((hmem k).mp (List.mem_filterMap.mpr ⟨other, hother, hk⟩)) with rfl | hk
    · exact le_rfl
    · simpa using hsorted.1 k hk

/-- Every name in the cache was the best of a list scanned for its base on its connection. -/
def Casing.Justified (cs : Casing) (calls : List ResolverCall) (cache : Cache) : Prop :=
  ∀ mt5 baseU name, cache.lookup (mt5, baseU) = some name →
    ∃ infos base, .resolve mt5 infos base ∈ calls ∧ cs.upper base = baseU ∧ cs.Best infos baseU name

theorem resolveSymbol_step {calls : List ResolverCall} {cache : Cache} (hcache : cs.Justified calls cache) (mt5 : Nat)
    (infos : Option (List SymbolRow)) (base : Text) :
    cs.Justified (calls ++ [.resolve mt5 infos base]) (cs.resolveSymbol cache mt5 infos base).2 ∧
      ∀ name, (cs.resolveSymbol cache mt5 infos base).1 = .ok name →
        (cs.resolveSymbol cache mt5 infos base).2.lookup (mt5, cs.upper base) = some name := by
  have hkept : cs.Justified (calls ++ [.resolve mt5 infos base]) cache := by
    intro mt5' baseU name hname
    obtain ⟨infos', base', hmem, hbest⟩ := hcache mt5' baseU name hname
    exact ⟨infos', base', List.mem_append_left _ hmem, hbest⟩
  unfold Casing.resolveSymbol
  split
  · exact ⟨hkept, fun name h => nomatch h⟩
  · split
    · next cached hcached =>
      refine ⟨hkept, fun name h => ?_⟩
      cases h
      exact hcached
    · split
      · exact ⟨hkept, fun name h => nomatch h⟩
      · next resolved others hranked =>
        refine ⟨?_, fun name h => ?_⟩
        · intro mt5' baseU name hname
          rw [List.lookup_cons] at hname
          split at hname
          · next heq =>
            have hkey : mt5' = mt5 ∧ baseU = cs.upper base := by simpa using heq
            obtain ⟨rfl, rfl⟩ := hkey
            cases hname
            exact ⟨infos, base, by simp, rfl, best_of_rankCandidates hranked⟩
          · exact hkept mt5' baseU name hname
        · cases h
          exact List.lookup_cons_self

theorem cache_justified (cs : Casing) (calls : List ResolverCall) :
    cs.Justified calls (run cs.resolverStep [] calls) := by
  induction calls using List.reverseRecOn with
  | nil => exact fun mt5 baseU name h => nomatch h
  | append_singleton calls call ih =>
    rw [run_append]
    cases call with
    | resolve mt5 infos base => exact (resolveSymbol_step ih mt5 infos base).1
    | clear => exact fun mt5 baseU name h => nomatch h

/-- **A resolved name is the best of a list the broker gave for this base.** -/
theorem resolveSymbol_listed {calls : List ResolverCall} {mt5 : Nat} {infos : Option (List SymbolRow)}
    {base name : Text}
    (h : (cs.resolveSymbol (run cs.resolverStep [] calls) mt5 infos base).1 = .ok name) :
    ∃ listed base', .resolve mt5 listed base' ∈ calls ++ [.resolve mt5 infos base] ∧
      cs.upper base' = cs.upper base ∧ cs.Best listed (cs.upper base) name := by
  obtain ⟨hcache, hname⟩ := resolveSymbol_step (cache_justified cs calls) mt5 infos base
  exact hcache mt5 (cs.upper base) name (hname name h)

/-- **Normalisation.** The name resolved for a base is one of those the broker listed for it, and both ways back from
it lead to the base exactly if it is a plain form of the base. -/
theorem normalised_iff (cs : Casing) (calls : List ResolverCall) {mt5 : Nat} {infos : Option (List SymbolRow)}
    {base name : Text} (h : (cs.resolveSymbol (run cs.resolverStep [] calls) mt5 infos base).1 = .ok name) :
    (∃ listed base', .resolve mt5 listed base' ∈ calls ++ [.resolve mt5 infos base] ∧
      cs.upper base' = cs.upper base ∧ cs.Best listed (cs.upper base) name) ∧
    ((cs.baseSymbolOf name = cs.upper base ∧ cs.bareKey name = cs.upper base) ↔ cs.PlainForm base name) :=
  ⟨resolveSymbol_listed h, cs.normalised_iff_plainForm base name⟩

/-! ### ASCII names -/

/-- The casing of ASCII; every casing agrees with it there. -/
def Casing.asciiOnly : Casing where
  upperOf c := [c.toUpper]
  isAlnum c := c.isAlphanum
  ascii _ _ := ⟨rfl, rfl⟩
  upperOf_ne_nil _ := by simp
  point c h := by
    rw [List.mem_singleton] at h
    unfold Char.toUpper at h
    split at h
    · next hlower =>
      have hval := congrArg (fun d : Char => d.val.toNat) h
      have hge : 97 ≤ c.toNat := hlower.1
      have hle : c.toNat ≤ 122 := hlower.2
      simp at hval
      omega
    · exact h.symm

theorem bareKey_asciiOnly : Casing.asciiOnly.bareKey = Macroguard.bareKey := by
  funext symbol
  unfold Casing.bareKey Casing.upper Macroguard.bareKey Macroguard.upper
  exact (List.map_eq_flatMap).symm

theorem normalised_iff_ecn :
    (Casing.asciiOnly.resolveSymbol [] 1 (some [⟨"XAUUSD.ecn".toList, true, some 4⟩]) "XAUUSD".toList).1 =
      .ok "XAUUSD.ecn".toList ∧
    Casing.asciiOnly.PlainForm "XAUUSD".toList "XAUUSD.ecn".toList := by
  have h : (Casing.asciiOnly.resolveSymbol (run Casing.asciiOnly.resolverStep [] []) 1
      (some [⟨"XAUUSD.ecn".toList, true, some 4⟩]) "XAUUSD".toList).1 = .ok "XAUUSD.ecn".toList := by decide +kernel
  exact ⟨h, (normalised_iff _ [] h).2.mp (by decide +kernel)⟩

/-- The macro guard looks for `XAUUSDm` under a key of its own, and a name with a prefix is taken for its prefix. -/
theorem normalised_fails :
    ((Casing.asciiOnly.resolveSymbol [] 1 (some [⟨"XAUUSDm".toList, true, some 4⟩]) "XAUUSD".toList).1 =
        .ok "XAUUSDm".toList ∧
      ¬ (Casing.asciiOnly.baseSymbolOf "XAUUSDm".toList = Casing.asciiOnly.upper "XAUUSD".toList ∧
        Casing.asciiOnly.bareKey "XAUUSDm".toList = Casing.asciiOnly.upper "XAUUSD".toList)) ∧
    (Casing.asciiOnly.resolveSymbol [] 1 (some [⟨"JM.XAUUSD".toList, true, some 4⟩]) "XAUUSD".toList).1 =
        .ok "JM.XAUUSD".toList ∧
      Casing.asciiOnly.baseSymbolOf "JM.XAUUSD".toList = "JM".toList ∧
      Casing.asciiOnly.bareKey "JM.XAUUSD".toList = "JM".toList := by
  decide +kernel

/-! ### Names that are resolved already -/

/-- What comes before the form of the name in the sort key: tradable first, then visible. -/
def SymbolRow.standing (row : SymbolRow) : Nat ×ₗ Nat :=
  toLex (if row.tradeMode = some tradeModeFull then 0 else 1, if row.visible then 0 else 1)

/-- The name of the row is the base, in some letter case. -/
def Casing.Exact (cs : Casing) (baseU : Text) (row : SymbolRow) : Prop := cs.upper row.name = baseU

instance (cs : Casing) (baseU : Text) (row : SymbolRow) : Decidable (cs.Exact baseU row) :=
  inferInstanceAs (Decidable (_ = _))

theorem matchRank_eq_zero_iff {nameU baseU : Text} : cs.matchRank nameU baseU = some 0 ↔ nameU = baseU := by
  have hknown : ∀ tail : Text, knownSuffixes.findIdx? (· = tail) = some 0 ↔ tail = [] := by
    intro tail
    rw [knownSuffixes, List.findIdx?_cons]
    by_cases htail : tail = []
    · subst htail
      exact iff_of_true rfl rfl
    · rw [if_neg (by simpa using Ne.symm htail)]
      simp [htail]
  unfold Casing.matchRank
  dsimp only
  constructor
  · intro h
    split at h
    · next hstarts =>
      have hnil := (hknown _).mp h
      exact (hstarts.1.eq_of_length_le (List.drop_eq_nil_iff.mp hnil)).symm
    · split at h
      · cases h
      · split at h <;> cases h
  · rintro rfl
    have hzero := (hknown (nameU.drop nameU.length)).mpr (List.drop_length)
    rw [if_pos ⟨List.prefix_rfl, by rw [hzero]; rfl⟩, hzero]

theorem keyOf_eq_some {baseU : Text} {row : SymbolRow} {key : RankKey} (h : cs.keyOf baseU row = some key) :
    ∃ rank, cs.matchRank (cs.upper row.name) baseU = some rank ∧
      key = toLex ((ofLex row.standing).1, toLex ((ofLex row.standing).2, toLex (rank, toLex (row.name.length, row.name)))) := by
  obtain ⟨rank, hrank, rfl⟩ := Option.map_eq_some_iff.mp h
  exact ⟨rank, hrank, rfl⟩

theorem standing_of_key_le {baseU : Text} {row other : SymbolRow} {key key' : RankKey} {rank rank' : Nat}
    (hkey : cs.keyOf baseU row = some key) (hkey' : cs.keyOf baseU other = some key')
    (hrank : cs.matchRank (cs.upper row.name) baseU = some rank)
    (hrank' : cs.matchRank (cs.upper other.name) baseU = some rank') (h : key ≤ key') :
    row.standing < other.standing ∨ row.standing = other.standing ∧ rank ≤ rank' := by
  obtain ⟨r, hr, rfl⟩ := keyOf_eq_some hkey
  obtain ⟨r', hr', rfl⟩ := keyOf_eq_some hkey'
  obtain rfl : rank = r := Option.some.inj (hrank.symm.trans hr)
  obtain rfl : rank' = r' := Option.some.inj (hrank'.symm.trans hr')
  rcases Prod.Lex.toLex_le_toLex.mp h with htrade | ⟨htrade, hrest⟩
  · exact Or.inl (Prod.Lex.toLex_lt_toLex.mpr (Or.inl htrade))
  rcases Prod.Lex.toLex_le_toLex.mp hrest with hvisible | ⟨hvisible, hform⟩
  · exact Or.inl (Prod.Lex.toLex_lt_toLex.mpr (Or.inr ⟨htrade, hvisible⟩))
  refine Or.inr ⟨congrArg toLex (Prod.ext htrade hvisible), ?_⟩
  rcases Prod.Lex.toLex_le_toLex.mp hform with hlt | ⟨heq, -⟩
  · exact hlt.le
  · exact heq.le

/-- The best of a list is the base itself exactly if no candidate of the list stands better than the base does. -/
theorem best_exact_iff {infos : Option (List SymbolRow)} {baseU name : Text} (h : cs.Best infos baseU name) :
    cs.upper name = baseU ↔ ∃ row ∈ infos.getD [], cs.Exact baseU row ∧
      ∀ other ∈ infos.getD [], (cs.matchRank (cs.upper other.name) baseU).isSome → row.standing ≤ other.standing := by
  obtain ⟨best, hbest, rfl, key, hkey, hleast⟩ := h
  obtain ⟨rank, hrank, -⟩ := keyOf_eq_some hkey
  have hcandidate : ∀ other ∈ infos.getD [], ∀ rank', cs.matchRank (cs.upper other.name) baseU = some rank' →
      best.standing < other.standing ∨ best.standing = other.standing ∧ rank ≤ rank' := by
    intro other hother rank' hrank'
    obtain ⟨key', hkey'⟩ : ∃ key', cs.keyOf baseU other = some key' := ⟨_, by rw [Casing.keyOf, hrank']; rfl⟩
    exact standing_of_key_le hkey hkey' hrank hrank' (hleast other hother key' hkey')
  constructor
  · intro hexact
    refine ⟨best, hbest, hexact, ?_⟩
    intro other hother hmatches
    obtain ⟨rank', hrank'⟩ := Option.isSome_iff_exists.mp hmatches
    rcases hcandidate other hother rank' hrank' with hlt | ⟨heq, -⟩
    · exact hlt.le
    · exact heq.le
  · rintro ⟨row, hrow, hexact, hall⟩
    -- the best one is not worse than the base, so it stands as well and has its rank
    have hle := hall best hbest (by rw [hrank]; rfl)
    rcases hcandidate row hrow 0 (matchRank_eq_zero_iff.mpr hexact) with hlt | ⟨-, hzero⟩
    · exact absurd hle (not_le_of_gt hlt)
    · rw [Nat.le_zero.mp hzero] at hrank
      exact matchRank_eq_zero_iff.mp hrank

theorem resolveSymbol_best (mt5 : Nat) (infos : Option (List SymbolRow)) {base : Text} (hbase : base ≠ [])
    (hlisted : ∃ row ∈ infos.getD [], cs.Exact (cs.upper base) row) :
    ∃ name, (cs.resolveSymbol [] mt5 infos base).1 = .ok name ∧ cs.Best infos (cs.upper base) name := by
  cases hranked : cs.rankCandidates (infos.getD []) base with
  | nil =>
    exfalso
    obtain ⟨row, hrow, hexact⟩ := hlisted
    obtain ⟨key, hkey⟩ : ∃ key, cs.keyOf (cs.upper base) row = some key :=
      ⟨_, by rw [Casing.keyOf, matchRank_eq_zero_iff.mpr hexact]; rfl⟩
    have hmem : key ∈ ((infos.getD []).filterMap (cs.keyOf (cs.upper base))).mergeSort fun k k' => decide (k ≤ k') :=
      List.mem_mergeSort.mpr (List.mem_filterMap.mpr ⟨row, hrow, hkey⟩)
    rw [Casing.rankCandidates, if_neg (mt Casing.upper_eq_nil.mp hbase), List.map_eq_nil_iff] at hranked
    rw [hranked] at hmem
    exact List.not_mem_nil hmem
  | cons resolved others =>
    refine ⟨resolved, ?_, best_of_rankCandidates hranked⟩
    rw [Casing.resolveSymbol, if_neg hbase, List.lookup_nil]
    dsimp only
    rw [hranked]

/-- **Names that are resolved already.** With an empty cache a listed name that is the base is what is returned exactly
if the base is not empty and one of these names stands as well as every candidate of the list. -/
theorem resolveSymbol_exact_iff (cs : Casing) (mt5 : Nat) (infos : Option (List SymbolRow)) (base : Text) :
    (∃ row ∈ infos.getD [], cs.Exact (cs.upper base) row ∧ (cs.resolveSymbol [] mt5 infos base).1 = .ok row.name) ↔
      base ≠ [] ∧ ∃ row ∈ infos.getD [], cs.Exact (cs.upper base) row ∧
        ∀ other ∈ infos.getD [], (cs.matchRank (cs.upper other.name) (cs.upper base)).isSome →
          row.standing ≤ other.standing := by
  constructor
  · rintro ⟨row, hrow, hexact, hreturned⟩
    have hbase : base ≠ [] := by
      rintro rfl
      cases hreturned
    obtain ⟨name, hname, hbest⟩ := resolveSymbol_best mt5 infos hbase ⟨row, hrow, hexact⟩
    obtain rfl : name = row.name := Except.ok.inj (hname.symm.trans hreturned)
    exact ⟨hbase, (best_exact_iff hbest).mp hexact⟩
  · rintro ⟨hbase, row, hrow, hexact, hall⟩
    obtain ⟨name, hname, hbest⟩ := resolveSymbol_best mt5 infos hbase ⟨row, hrow, hexact⟩
    have hupper := (best_exact_iff hbest).mpr ⟨row, hrow, hexact, hall⟩
    obtain ⟨best, hmem, rfl, -⟩ := hbest
    exact ⟨best, hmem, hupper, hname⟩

/-- The name of the base is listed, but it is not in the market watch, and the micro contract is. -/
def hiddenBase : List SymbolRow := [⟨"XAUUSD".toList, false, some 4⟩, ⟨"XAUUSDm".toList, true, some 4⟩]

theorem resolveSymbol_exact_fails :
    (∃ row ∈ hiddenBase, Casing.asciiOnly.Exact (Casing.asciiOnly.upper "XAUUSD".toList) row) ∧
      (Casing.asciiOnly.resolveSymbol [] 1 (some hiddenBase) "XAUUSD".toList).1 = .ok "XAUUSDm".toList ∧
      ¬ Casing.asciiOnly.Exact (Casing.asciiOnly.upper "XAUUSD".toList) ⟨"XAUUSDm".toList, true, some 4⟩ := by
  have hlisted : ∃ row ∈ hiddenBase, Casing.asciiOnly.Exact (Casing.asciiOnly.upper "XAUUSD".toList) row := by
    decide +kernel
  refine ⟨hlisted, ?_, by decide +kernel⟩
  obtain ⟨name, hname, hbest⟩ := resolveSymbol_best 1 (some hiddenBase) (by decide) hlisted
  have hother : Casing.asciiOnly.upper name ≠ Casing.asciiOnly.upper "XAUUSD".toList := by
    rw [Ne, best_exact_iff hbest]
    decide +kernel
  obtain ⟨row, hrow, rfl, -⟩ := hbest
  rcases List.mem_pair.mp hrow with rfl | rfl
  · exact absurd rfl hother
  · exact hname

end Symbols

end FreqTrading
