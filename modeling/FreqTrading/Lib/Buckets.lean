import Mathlib.Order.Lattice
import Mathlib.Data.List.Basic

/-!
# Folding a time series into buckets

A series of timed entries is folded into buckets, one entry a bucket, which carries the key of the bucket as its time.
`collect` does it in one pass, with the bucket in progress as an accumulator; it drops an entry that is older than
that bucket. `buckets` is the same by recursion from the right, where an entry joins the first bucket of the rest or
opens one in front of it. On a sorted series the two agree (`collect_eq`), and buckets of buckets are the buckets of
the coarser key (`collect_collect`).
-/

namespace FreqTrading.Lib

variable {α β κ : Type*}

/-- Timed entries that can be put together: `opening k c` is the bucket at `k` with the one entry `c`, and `fold b c` is
the bucket `b` with `c` at its end. -/
structure Foldable (α κ : Type*) where
  time : α → κ
  opening : κ → α → α
  fold : α → α → α
  time_opening : ∀ k c, time (opening k c) = k
  time_fold : ∀ b c, time (fold b c) = time b
  opening_self : ∀ c, opening (time c) c = c
  opening_opening : ∀ k j c, opening k (opening j c) = opening k c
  opening_fold : ∀ k b c, opening k (fold b c) = fold (opening k b) c
  fold_opening : ∀ b k c, fold b (opening k c) = fold b c
  fold_assoc : ∀ b c d, fold (fold b c) d = fold b (fold c d)

namespace Foldable

variable [LinearOrder κ] (F : Foldable α κ) (key : κ → κ)

/-- One entry of the pass: the buckets that are done, and the one in progress. -/
def collectStep (s : List α × Option α) (c : α) : List α × Option α :=
  match s.2 with
  | none => (s.1, some (F.opening (key (F.time c)) c))
  | some b =>
    if key (F.time c) = F.time b then (s.1, some (F.fold b c))
    else if F.time b < key (F.time c) then (s.1 ++ [b], some (F.opening (key (F.time c)) c))
    else s

def collect (cs : List α) : List α :=
  let s := cs.foldl (F.collectStep key) ([], none)
  s.1 ++ s.2.toList

/-- An entry in front of buckets: it joins the first one, or opens its own. -/
def push (c : α) : List α → List α
  | [] => [F.opening (key (F.time c)) c]
  | b :: bs =>
    if key (F.time c) = F.time b then F.fold (F.opening (key (F.time c)) c) b :: bs
    else F.opening (key (F.time c)) c :: b :: bs

def buckets (cs : List α) : List α := cs.foldr (F.push key) []

variable {F key}

@[simp] theorem buckets_cons (c : α) (cs : List α) : F.buckets key (c :: cs) = F.push key c (F.buckets key cs) := rfl

theorem push_join {c b : α} (h : key (F.time c) = F.time b) (bs : List α) :
    F.push key c (b :: bs) = F.fold (F.opening (key (F.time c)) c) b :: bs := if_pos h

theorem push_apart {c b : α} (h : key (F.time c) ≠ F.time b) (bs : List α) :
    F.push key c (b :: bs) = F.opening (key (F.time c)) c :: b :: bs := if_neg h

theorem push_opening {k : κ} {c : α} (h : key k = key (F.time c)) (bs : List α) :
    F.push key (F.opening k c) bs = F.push key c bs := by
  cases bs with
  | nil => simp only [push, F.time_opening, h, F.opening_opening]
  | cons b bs => simp only [push, F.time_opening, h, F.opening_opening]

/-- Two entries of one key, put together before or in the bucket. -/
theorem push_push {c d : α} (h : key (F.time c) = key (F.time d)) (bs : List α) :
    F.push key c (F.push key d bs) = F.push key (F.fold c d) bs := by
  have htime : F.time (F.opening (key (F.time d)) d) = key (F.time d) := F.time_opening _ _
  cases bs with
  | nil =>
    simp only [push, htime, if_pos h, F.time_fold, F.opening_fold, F.fold_opening]
  | cons b bs =>
    have hboth : key (F.time (F.fold c d)) = key (F.time d) := by rw [F.time_fold, h]
    by_cases hjoin : key (F.time d) = F.time b
    · rw [push_join hjoin, push_join (by rw [F.time_fold, htime]; exact h), push_join (hboth.trans hjoin), F.time_fold,
        F.opening_fold, ← F.fold_assoc, F.fold_opening]
    · rw [push_apart hjoin, push_join (h.trans htime.symm), push_apart (fun heq => hjoin (hboth.symm.trans heq)), F.time_fold,
        F.opening_fold, F.fold_opening]

/-! ### Buckets of buckets -/

theorem buckets_push {coarse : κ → κ} (hkeys : ∀ k, coarse (key k) = coarse k) (c : α) (bs : List α) :
    F.buckets coarse (F.push key c bs) = F.push coarse c (F.buckets coarse bs) := by
  cases bs with
  | nil => exact push_opening (hkeys _) []
  | cons b bs =>
    by_cases hjoin : key (F.time c) = F.time b
    · have hsame : coarse (F.time c) = coarse (F.time b) := by rw [← hjoin, hkeys]
      rw [push_join hjoin, buckets_cons, buckets_cons, push_push hsame, ← F.opening_fold]
      refine push_opening ?_ _
      rw [hkeys, F.time_fold]
    · rw [push_apart hjoin, buckets_cons, push_opening (hkeys _)]

theorem buckets_buckets {coarse : κ → κ} (hkeys : ∀ k, coarse (key k) = coarse k) (cs : List α) :
    F.buckets coarse (F.buckets key cs) = F.buckets coarse cs := by
  induction cs with
  | nil => rfl
  | cons c cs ih => rw [buckets_cons, buckets_push hkeys, ih, buckets_cons]

/-! ### The pass -/

theorem collectStep_join {b c : α} (h : key (F.time c) = F.time b) (out : List α) :
    F.collectStep key (out, some b) c = (out, some (F.fold b c)) := if_pos h

theorem collectStep_new {b c : α} (h : F.time b < key (F.time c)) (out : List α) :
    F.collectStep key (out, some b) c = (out ++ [b], some (F.opening (key (F.time c)) c)) := by
  unfold collectStep
  dsimp only
  rw [if_neg h.ne', if_pos h]

theorem collectStep_old {b c : α} (h : key (F.time c) < F.time b) (out : List α) :
    F.collectStep key (out, some b) c = (out, some b) := by
  unfold collectStep
  dsimp only
  rw [if_neg h.ne, if_neg h.not_gt]

variable (key) in
theorem push_cons (c : α) (bs : List α) :
    ∃ d ds, F.push key c bs = d :: ds ∧ F.time d = key (F.time c) ∧ ∀ e ∈ ds, e ∈ bs := by
  cases bs with
  | nil => exact ⟨_, _, rfl, F.time_opening _ _, fun _ h => (by cases h)⟩
  | cons b bs =>
    by_cases hjoin : key (F.time c) = F.time b
    · exact ⟨_, _, push_join hjoin bs, by rw [F.time_fold, F.time_opening], fun e he => List.mem_cons_of_mem _ he⟩
    · exact ⟨_, _, push_apart hjoin bs, F.time_opening _ _, fun e he => he⟩

theorem time_buckets {cs : List α} {b : α} (h : b ∈ F.buckets key cs) : ∃ c ∈ cs, F.time b = key (F.time c) := by
  induction cs with
  | nil => cases h
  | cons c cs ih =>
    obtain ⟨d, ds, hpush, htime, hrest⟩ := push_cons key c (F.buckets key cs)
    rw [buckets_cons, hpush] at h
    rcases List.mem_cons.mp h with rfl | htail
    · exact ⟨c, List.mem_cons_self, htime⟩
    · obtain ⟨c', hc', heq⟩ := ih (hrest b htail)
      exact ⟨c', List.mem_cons_of_mem c hc', heq⟩

/-- The entries come in the order of their keys. -/
def InOrder (F : Foldable α κ) (key : κ → κ) (cs : List α) : Prop :=
  cs.Pairwise fun c d => key (F.time c) ≤ key (F.time d)

theorem buckets_inOrder {cs : List α} (h : F.InOrder key cs) :
    (F.buckets key cs).Pairwise fun b b' => F.time b ≤ F.time b' := by
  induction cs with
  | nil => exact List.Pairwise.nil
  | cons c cs ih =>
    obtain ⟨hfirst, hrest⟩ := List.pairwise_cons.mp h
    have htail := ih hrest
    have hlater : ∀ b ∈ F.buckets key cs, key (F.time c) ≤ F.time b := by
      intro b hb
      obtain ⟨d, hd, heq⟩ := time_buckets hb
      rw [heq]
      exact hfirst d hd
    rw [buckets_cons]
    cases hbuckets : F.buckets key cs with
    | nil => exact List.pairwise_singleton _ _
    | cons b bs =>
      rw [hbuckets] at htail hlater
      by_cases hjoin : key (F.time c) = F.time b
      · rw [push_join hjoin]
        refine List.pairwise_cons.mpr ⟨fun e he => ?_, (List.pairwise_cons.mp htail).2⟩
        rw [F.time_fold, F.time_opening]
        exact hlater e (List.mem_cons_of_mem b he)
      · rw [push_apart hjoin]
        refine List.pairwise_cons.mpr ⟨fun e he => ?_, htail⟩
        rw [F.time_opening]
        exact hlater e he

theorem collect_from (hidem : ∀ k, key (key k) = key k) {cs : List α} (hsorted : F.InOrder key cs) (out : List α) (b : α)
    (hopened : key (F.time b) = F.time b) (hlater : ∀ c ∈ cs, F.time b ≤ key (F.time c)) :
    (cs.foldl (F.collectStep key) (out, some b)).1 ++ (cs.foldl (F.collectStep key) (out, some b)).2.toList =
      out ++ F.push key b (F.buckets key cs) := by
  induction cs generalizing out b with
  | nil =>
    show out ++ [b] = out ++ [F.opening (key (F.time b)) b]
    rw [hopened, F.opening_self]
  | cons c cs ih =>
    obtain ⟨hfirst, hrest⟩ := List.pairwise_cons.mp hsorted
    rw [List.foldl_cons]
    by_cases hjoin : key (F.time c) = F.time b
    · have hlater' : ∀ d ∈ cs, F.time (F.fold b c) ≤ key (F.time d) := by
        intro d hd
        rw [F.time_fold]
        exact hlater d (List.mem_cons_of_mem c hd)
      rw [collectStep_join hjoin, ih hrest out (F.fold b c) (by rw [F.time_fold, hopened]) hlater', buckets_cons,
        push_push (hopened.trans hjoin.symm)]
    · have hnew : F.time b < key (F.time c) := lt_of_le_of_ne (hlater c List.mem_cons_self) (Ne.symm hjoin)
      have hlater' : ∀ d ∈ cs, F.time (F.opening (key (F.time c)) c) ≤ key (F.time d) := by
        intro d hd
        rw [F.time_opening]
        exact hfirst d hd
      rw [collectStep_new hnew, ih hrest _ _ (by rw [F.time_opening, hidem]) hlater', push_opening (hidem _), ← buckets_cons]
      -- the bucket in progress stays apart from the one that is opened
      obtain ⟨d, ds, hpush, htime, -⟩ := push_cons key c (F.buckets key cs)
      have happart : key (F.time b) ≠ F.time d := by
        rw [hopened, htime]
        exact Ne.symm hjoin
      rw [buckets_cons, hpush, push_apart happart, hopened, F.opening_self, List.append_assoc]
      rfl

theorem collect_eq (hidem : ∀ k, key (key k) = key k) {cs : List α} (hsorted : F.InOrder key cs) :
    F.collect key cs = F.buckets key cs := by
  unfold collect
  cases cs with
  | nil => rfl
  | cons c cs =>
    obtain ⟨hfirst, hrest⟩ := List.pairwise_cons.mp hsorted
    have hlater : ∀ d ∈ cs, F.time (F.opening (key (F.time c)) c) ≤ key (F.time d) := by
      intro d hd
      rw [F.time_opening]
      exact hfirst d hd
    have hpass := collect_from hidem hrest [] (F.opening (key (F.time c)) c) (by rw [F.time_opening, hidem]) hlater
    rw [push_opening (hidem _)] at hpass
    exact hpass

/-- **Aggregation composes.** Where the coarse buckets are made of whole fine ones, a sorted series can be collected into
the fine ones first. -/
theorem collect_collect {coarse : κ → κ} (hfine : Monotone key) (hmono : Monotone coarse) (hidem : ∀ k, key (key k) = key k)
    (hidem' : ∀ k, coarse (coarse k) = coarse k) (hkeys : ∀ k, coarse (key k) = coarse k) {cs : List α}
    (hsorted : cs.Pairwise fun c d => F.time c ≤ F.time d) :
    F.collect coarse (F.collect key cs) = F.collect coarse cs := by
  have hsortedFine : F.InOrder key cs := hsorted.imp fun h => hfine h
  have hsortedCoarse : F.InOrder coarse cs := hsorted.imp fun h => hmono h
  have hbuckets : F.InOrder coarse (F.buckets key cs) := (buckets_inOrder hsortedFine).imp fun h => hmono h
  rw [collect_eq hidem hsortedFine, collect_eq hidem' hbuckets, collect_eq hidem' hsortedCoarse, buckets_buckets hkeys]

theorem collect_map {G : Foldable β κ} (f : α → β) (htime : ∀ c, G.time (f c) = F.time c)
    (hopening : ∀ k c, f (F.opening k c) = G.opening k (f c)) (hfold : ∀ b c, f (F.fold b c) = G.fold (f b) (f c))
    (cs : List α) : (F.collect key cs).map f = G.collect key (cs.map f) := by
  have hstep : ∀ (s : List α × Option α) (c : α),
      ((F.collectStep key s c).1.map f, (F.collectStep key s c).2.map f) = G.collectStep key (s.1.map f, s.2.map f) (f c) := by
    rintro ⟨out, current⟩ c
    cases current with
    | none => simp [collectStep, htime, hopening]
    | some b =>
      show _ = G.collectStep key (out.map f, some (f b)) (f c)
      rcases lt_trichotomy (key (F.time c)) (F.time b) with hold | hjoin | hnew
      · have hold' : key (G.time (f c)) < G.time (f b) := by rwa [htime, htime]
        rw [collectStep_old hold, collectStep_old hold']
        rfl
      · have hjoin' : key (G.time (f c)) = G.time (f b) := by rwa [htime, htime]
        rw [collectStep_join hjoin, collectStep_join hjoin', ← hfold]
        rfl
      · have hnew' : G.time (f b) < key (G.time (f c)) := by rwa [htime, htime]
        rw [collectStep_new hnew, collectStep_new hnew', htime, ← hopening]
        simp only [List.map_append, List.map_singleton, Option.map_some]
  have hpass : ∀ (cs : List α) (s : List α × Option α),
      ((cs.foldl (F.collectStep key) s).1.map f, (cs.foldl (F.collectStep key) s).2.map f) =
        (cs.map f).foldl (G.collectStep key) (s.1.map f, s.2.map f) := by
    intro cs
    induction cs with
    | nil => exact fun _ => rfl
    | cons c cs ih =>
      intro s
      rw [List.foldl_cons, ih, hstep, List.map_cons, List.foldl_cons]
  unfold collect
  dsimp only
  rw [List.map_append, show ([], none) = (([] : List α).map f, (none : Option α).map f) from rfl, ← hpass cs ([], none)]
  congr 1
  cases (cs.foldl (F.collectStep key) ([], none)).2 <;> rfl

end Foldable

end FreqTrading.Lib
