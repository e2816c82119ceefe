import Mathlib.Logic.Relation

/-!
# Fallible programs

Reasoning about `Except` values and about programs with a state and exceptions, over any state, value and
exception types. An exception keeps the state reached when it was raised, as in a language with mutable
objects.

`exec` runs a program. `Ensures x s Q` says that the run of `x` from `s` ends with a result and a state in
`Q`; it goes through a program by the rules `ensures_bind`, `ensures_tryCatch` and so on. `StepsFrom R x s`
says only that the run goes from `s` to its final state by steps of the relation `R`. What a program may do
is then said once, as a step relation, and a property that every such step keeps holds after the program
whatever its result (`StepsFrom.invariant`).
-/

namespace FreqTrading.Lib

/-! ### `Except` -/

section Except

universe u v

variable {ε : Type u} {α β : Type v}

theorem bind_ok {x : Except ε α} {f : α → Except ε β} {b : β} :
    x >>= f = .ok b ↔ ∃ a, x = .ok a ∧ f a = .ok b := by
  cases x <;> simp [bind, Except.bind]

theorem mapError_ok {δ : Type*} {x : Except ε α} {f : ε → δ} {a : α} : x.mapError f = .ok a ↔ x = .ok a := by
  cases x with
  | error e => exact ⟨fun h => (by cases h), fun h => (by cases h)⟩
  | ok b => exact ⟨fun h => (by cases h; rfl), fun h => (by cases h; rfl)⟩

@[simp] theorem ok_bind (a : α) (f : α → Except ε β) : (Except.ok a >>= f) = f a := rfl

theorem error_bind (e : ε) (f : α → Except ε β) : (Except.error e >>= f) = .error e := rfl

@[simp] theorem pure_eq_ok (a : α) : (pure a : Except ε α) = .ok a := rfl

/-- A loop comes to its end if no turn raises, where that does not depend on the turns before. -/
theorem foldlM_ok_iff {f : β → α → Except ε β} {P : α → Prop} (h : ∀ b a, (∃ b', f b a = .ok b') ↔ P a)
    (xs : List α) (b : β) : (∃ b', xs.foldlM f b = .ok b') ↔ ∀ a ∈ xs, P a := by
  induction xs generalizing b with
  | nil => exact iff_of_true ⟨b, rfl⟩ (by simp)
  | cons x xs ih =>
    rw [List.forall_mem_cons, ← h b x, List.foldlM_cons]
    constructor
    · rintro ⟨b', hb'⟩
      obtain ⟨c, hc, hrest⟩ := bind_ok.mp hb'
      exact ⟨⟨c, hc⟩, (ih c).mp ⟨b', hrest⟩⟩
    · rintro ⟨⟨c, hc⟩, hrest⟩
      obtain ⟨b', hb'⟩ := (ih c).mpr hrest
      exact ⟨b', bind_ok.mpr ⟨c, hc, hb'⟩⟩

/-- What a loop has found is what it had found before or what one of its turns finds. -/
theorem foldlM_found_iff {f : β → α → Except ε β} {Q : β → Prop} {P : α → Prop}
    (h : ∀ b a b', f b a = .ok b' → (Q b' ↔ Q b ∨ P a)) {xs : List α} {b b' : β} (hb : xs.foldlM f b = .ok b') :
    Q b' ↔ Q b ∨ ∃ a ∈ xs, P a := by
  induction xs generalizing b with
  | nil =>
    cases hb
    simp
  | cons x xs ih =>
    rw [List.foldlM_cons] at hb
    obtain ⟨c, hc, hrest⟩ := bind_ok.mp hb
    simp only [ih hrest, h b x c hc, List.mem_cons, exists_eq_or_imp, or_assoc]

end Except

/-! ### Running a program -/

universe u

/-- A program on a state `σ` that returns an `α` or raises an `ε`. -/
abbrev Program (ε σ α : Type u) := ExceptT ε (StateM σ) α

variable {ε σ α β : Type u}

/-- The result and the final state of a program. -/
def exec (x : Program ε σ α) (s : σ) : Except ε α × σ := x s

@[simp] theorem exec_pure (a : α) (s : σ) : exec (pure a : Program ε σ α) s = (.ok a, s) := rfl

theorem exec_bind (x : Program ε σ α) (f : α → Program ε σ β) (s : σ) :
    exec (x >>= f) s =
      match exec x s with
      | (.ok a, s') => exec (f a) s'
      | (.error err, s') => (.error err, s') := by
  show (ExceptT.bindCont f (x s).1 : StateM σ _) (x s).2 = _
  unfold exec
  rcases h : x s with ⟨r, s'⟩
  cases r <;> rfl

theorem exec_bind_of {x : Program ε σ α} {f : α → Program ε σ β} {s s' : σ} {a : α} (h : exec x s = (.ok a, s')) :
    exec (x >>= f) s = exec (f a) s' := by
  rw [exec_bind, h]

theorem exec_bind_ok {x : Program ε σ α} {f : α → Program ε σ β} {s s'' : σ} {b : β} :
    exec (x >>= f) s = (.ok b, s'') ↔ ∃ a s', exec x s = (.ok a, s') ∧ exec (f a) s' = (.ok b, s'') := by
  constructor
  · intro h
    rw [exec_bind] at h
    rcases hx : exec x s with ⟨err | a, s'⟩ <;> rw [hx] at h
    · cases h
    · exact ⟨a, s', rfl, h⟩
  · rintro ⟨a, s', hx, hf⟩
    rw [exec_bind_of hx, hf]

theorem exec_discard (x : Program ε σ α) (b : β) (s : σ) : (exec (x >>= fun _ => pure b) s).2 = (exec x s).2 := by
  rw [exec_bind]
  rcases exec x s with ⟨err | a, s'⟩ <;> rfl

theorem exec_tryCatch (x : Program ε σ α) (handler : ε → Program ε σ α) (s : σ) :
    exec (tryCatch x handler) s =
      match exec x s with
      | (.ok a, s') => (.ok a, s')
      | (.error err, s') => exec (handler err) s' := by
  show (match (x s).1 with
    | .ok a => pure (Except.ok a)
    | .error err => handler err : StateM σ (Except ε α)) (x s).2 = _
  unfold exec
  rcases h : x s with ⟨r, s'⟩
  cases r <;> rfl

@[simp] theorem exec_get (s : σ) : exec (get : Program ε σ σ) s = (.ok s, s) := rfl

@[simp] theorem exec_modify (f : σ → σ) (s : σ) : exec (modify f : Program ε σ PUnit) s = (.ok ⟨⟩, f s) := rfl

/-! ### Postconditions -/

/-- The postcondition `Q` on what is returned, and `E` on what is raised. -/
def Post (Q : α → σ → Prop) (E : ε → σ → Prop) : Except ε α → σ → Prop
  | .ok a, s => Q a s
  | .error err, s => E err s

/-- The run of `x` from `s` ends in `Q`. -/
def Ensures (x : Program ε σ α) (s : σ) (Q : Except ε α → σ → Prop) : Prop := Q (exec x s).1 (exec x s).2

variable {x : Program ε σ α} {s : σ} {Q Q' : Except ε α → σ → Prop}

@[simp] theorem post_ok {Q : α → σ → Prop} {E : ε → σ → Prop} {a : α} : Post Q E (.ok a) s ↔ Q a s := Iff.rfl

@[simp] theorem post_error {Q : α → σ → Prop} {E : ε → σ → Prop} {err : ε} : Post Q E (.error err) s ↔ E err s :=
  Iff.rfl

theorem Ensures.mono (h : Ensures x s Q) (hQ : ∀ r s', Q r s' → Q' r s') : Ensures x s Q' := hQ _ _ h

theorem Ensures.of_exec (h : Ensures x s Q) {r : Except ε α} {s' : σ} (hexec : exec x s = (r, s')) : Q r s' := by
  unfold Ensures at h
  rwa [hexec] at h

theorem Ensures.returns {Q : α → σ → Prop} (h : Ensures x s (Post Q fun _ _ => False)) :
    ∃ a s', exec x s = (.ok a, s') ∧ Q a s' := by
  rcases hexec : exec x s with ⟨err | a, s'⟩
  · exact (h.of_exec hexec).elim
  · exact ⟨a, s', rfl, h.of_exec hexec⟩

theorem Ensures.and (h : Ensures x s Q) (h' : Ensures x s Q') : Ensures x s fun r s' => Q r s' ∧ Q' r s' := ⟨h, h'⟩

theorem Ensures.and_post {Q : α → σ → Prop} {E : ε → σ → Prop} {I : σ → Prop} (h : Ensures x s (Post Q E))
    (h' : Ensures x s fun _ s' => I s') : Ensures x s (Post (fun a s' => Q a s' ∧ I s') E) := by
  refine (h.and h').mono fun r s' hr => ?_
  cases r with
  | ok a => exact hr
  | error err => exact hr.1

/-- A property of the final state, for results and exceptions. -/
theorem Ensures.post {I : σ → Prop} {Q : α → σ → Prop} {E : ε → σ → Prop} (h : Ensures x s fun _ s' => I s')
    (hQ : ∀ {a} s', I s' → Q a s') (hE : ∀ {err} s', I s' → E err s') : Ensures x s (Post Q E) := by
  refine h.mono fun r s' hI => ?_
  cases r with
  | ok a => exact hQ s' hI
  | error err => exact hE s' hI

theorem Ensures.any (x : Program ε σ α) (s : σ) : Ensures x s (Post (fun _ _ => True) fun _ _ => True) := by
  unfold Ensures
  cases (exec x s).1 <;> trivial

theorem Ensures.weaken {Q Q' : α → σ → Prop} {E E' : ε → σ → Prop} (h : Ensures x s (Post Q E))
    (hQ : ∀ a s', Q a s' → Q' a s') (hE : ∀ err s', E err s' → E' err s') : Ensures x s (Post Q' E') := by
  refine h.mono fun r s' hr => ?_
  cases r with
  | ok a => exact hQ a s' hr
  | error err => exact hE err s' hr

@[simp] theorem ensures_pure (a : α) : Ensures (pure a) s Q ↔ Q (.ok a) s := Iff.rfl

@[simp] theorem ensures_throw (err : ε) : Ensures (throw err) s Q ↔ Q (.error err) s := Iff.rfl

theorem ensures_bind {f : α → Program ε σ β} {Q : Except ε β → σ → Prop} :
    Ensures (x >>= f) s Q ↔
      Ensures x s (Post (fun a s' => Ensures (f a) s' Q) fun err s' => Q (.error err) s') := by
  unfold Ensures
  rw [exec_bind]
  rcases exec x s with ⟨r, s'⟩
  cases r <;> rfl

/-- The rule of a sequence: the first part ends where the second starts. -/
theorem Ensures.bind {f : α → Program ε σ β} {Q : α → σ → Prop} {Q' : β → σ → Prop} {E : ε → σ → Prop}
    (hx : Ensures x s (Post Q E)) (hf : ∀ a s', Q a s' → Ensures (f a) s' (Post Q' E)) :
    Ensures (x >>= f) s (Post Q' E) := by
  rw [ensures_bind]
  exact hx.weaken hf fun _ _ h => h

/-- The rule of a sequence whose first part raises nothing. -/
theorem Ensures.bind_total {f : α → Program ε σ β} {Q : α → σ → Prop} {Q' : Except ε β → σ → Prop}
    (hx : Ensures x s (Post Q fun _ _ => False)) (hf : ∀ a s', Q a s' → Ensures (f a) s' Q') :
    Ensures (x >>= f) s Q' := by
  rw [ensures_bind]
  exact hx.weaken hf fun _ _ h => h.elim

/-- The rule of a sequence for a property of the final state only. -/
theorem Ensures.bind_keep {f : α → Program ε σ β} {I J : σ → Prop} (hx : Ensures x s fun _ s' => I s')
    (hIJ : ∀ s', I s' → J s') (hf : ∀ a s', I s' → Ensures (f a) s' fun _ s'' => J s'') :
    Ensures (x >>= f) s fun _ s' => J s' := by
  rw [ensures_bind]
  refine hx.mono fun r s' hI => ?_
  cases r with
  | ok a => exact hf a s' hI
  | error err => exact hIJ s' hI

theorem ensures_tryCatch {handler : ε → Program ε σ α} :
    Ensures (tryCatch x handler) s Q ↔
      Ensures x s (Post (fun a s' => Q (.ok a) s') fun err s' => Ensures (handler err) s' Q) := by
  unfold Ensures
  rw [exec_tryCatch]
  rcases exec x s with ⟨r, s'⟩
  cases r <;> rfl

@[simp] theorem ensures_get {Q : Except ε σ → σ → Prop} : Ensures get s Q ↔ Q (.ok s) s := Iff.rfl

@[simp] theorem ensures_set {s' : σ} {Q : Except ε PUnit → σ → Prop} :
    Ensures (set s') s Q ↔ Q (.ok ⟨⟩) s' := Iff.rfl

@[simp] theorem ensures_modify {f : σ → σ} {Q : Except ε PUnit → σ → Prop} :
    Ensures (modify f) s Q ↔ Q (.ok ⟨⟩) (f s) := Iff.rfl

/-! ### Step relations -/

/-- The run of `x` from `s` is made of steps of `R`. -/
def StepsFrom (R : σ → σ → Prop) (x : Program ε σ α) (s : σ) : Prop := Relation.ReflTransGen R s (exec x s).2

/-- Every run of `x` is made of steps of `R`. -/
def Steps (R : σ → σ → Prop) (x : Program ε σ α) : Prop := ∀ s, StepsFrom R x s

variable {R R' : σ → σ → Prop}

theorem StepsFrom.mono (h : StepsFrom R x s) (hR : ∀ s s', R s s' → R' s s') : StepsFrom R' x s :=
  Relation.ReflTransGen.mono hR _ _ h

/-- **The invariant rule.** What every step keeps, the program keeps, whether it returns or raises. -/
theorem StepsFrom.invariant {I : σ → Prop} (h : StepsFrom R x s) (hI : ∀ s s', R s s' → I s → I s')
    (hs : I s) : I (exec x s).2 := by
  unfold StepsFrom at h
  generalize (exec x s).2 = s' at h
  induction h with
  | refl => exact hs
  | tail _ hlast ih => exact hI _ _ hlast ih

theorem StepsFrom.pure (a : α) : StepsFrom R (pure a : Program ε σ α) s := Relation.ReflTransGen.refl

theorem StepsFrom.throw (err : ε) : StepsFrom R (throw err : Program ε σ α) s := Relation.ReflTransGen.refl

theorem StepsFrom.get : StepsFrom R (get : Program ε σ σ) s := Relation.ReflTransGen.refl

theorem StepsFrom.single (h : R s (exec x s).2) : StepsFrom R x s := Relation.ReflTransGen.single h

theorem StepsFrom.bind {f : α → Program ε σ β} (hx : StepsFrom R x s)
    (hf : ∀ a s', exec x s = (.ok a, s') → StepsFrom R (f a) s') : StepsFrom R (x >>= f) s := by
  unfold StepsFrom at *
  rw [exec_bind]
  rcases h : exec x s with ⟨r, s'⟩
  rw [h] at hx
  cases r with
  | ok a => exact hx.trans (hf a s' h)
  | error err => exact hx

theorem StepsFrom.tryCatch {handler : ε → Program ε σ α} (hx : StepsFrom R x s)
    (hh : ∀ err s', exec x s = (.error err, s') → StepsFrom R (handler err) s') :
    StepsFrom R (tryCatch x handler) s := by
  unfold StepsFrom at *
  rw [exec_tryCatch]
  rcases h : exec x s with ⟨r, s'⟩
  rw [h] at hx
  cases r with
  | ok a => exact hx
  | error err => exact hx.trans (hh err s' h)

theorem Steps.bind {f : α → Program ε σ β} (hx : Steps R x) (hf : ∀ a, Steps R (f a)) : Steps R (x >>= f) :=
  fun s => (hx s).bind fun a s' _ => hf a s'

theorem Steps.pure (a : α) : Steps R (Pure.pure a : Program ε σ α) := fun _ => .pure a

theorem Steps.throw (err : ε) : Steps R (MonadExcept.throw err : Program ε σ α) := fun _ => .throw err

end FreqTrading.Lib
