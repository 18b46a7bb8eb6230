import TraceSubstitution.Failure.Failure

/-!
# Success of composed operations

An operation that is composed of steps succeeds exactly when every step does.
`bind_eq_ok_iff` says so for operations that only report, `Act.apply_bind_eq_ok_iff`
for actions on a state. An action that fails leaves the state it had reached:
`Act.apply_bind` is the equation for both cases. An action is `Act.Atomic` if it
leaves the state that it found whenever it fails; looking before acting makes it so.
-/

namespace TraceSubstitution

section Except

variable {β γ : Type}

@[simp] theorem pure_eq_ok (b : β) : (pure b : Except Failure β) = .ok b := rfl

@[simp] theorem ok_bind (b : β) (f : β → Except Failure γ) : (.ok b >>= f) = f b := rfl

@[simp] theorem error_bind (e : Failure) (f : β → Except Failure γ) :
    ((.error e : Except Failure β) >>= f) = .error e := rfl

theorem bind_eq_ok_iff {x : Except Failure β} {f : β → Except Failure γ} {c : γ} :
    (x >>= f) = .ok c ↔ ∃ b, x = .ok b ∧ f b = .ok c := by
  cases x with
  | error e => simp
  | ok b => simp

/-- A check before an operation: it holds, and the operation succeeds. -/
theorem check_bind_eq_ok_iff {x : Except Failure Unit} {f : Unit → Except Failure γ} {c : γ} :
    (x >>= f) = .ok c ↔ x = .ok () ∧ f () = .ok c := by
  cases x with
  | error e => simp
  | ok b => simp

theorem map_eq_ok_iff {x : Except Failure β} {f : β → γ} {c : γ} :
    x.map f = .ok c ↔ ∃ b, x = .ok b ∧ f b = c := by
  cases x with
  | error e => simp [Except.map]
  | ok b => simp [Except.map]

theorem mapError_eq_ok_iff {ε : Type} {x : Except ε β} {f : ε → Failure} {b : β} :
    x.mapError f = .ok b ↔ x = .ok b := by
  cases x with
  | error e => exact ⟨nofun, nofun⟩
  | ok b' => exact ⟨fun h => by cases h; rfl, fun h => by cases h; rfl⟩

/-- A list is read element by element: all of them succeed, and in order. -/
theorem mapM_cons_eq_ok_iff {f : β → Except Failure γ} {b : β} {bs : List β} {cs : List γ} :
    (b :: bs).mapM f = .ok cs ↔ ∃ c cs', f b = .ok c ∧ bs.mapM f = .ok cs' ∧ cs = c :: cs' := by
  simp only [List.mapM_cons, bind_eq_ok_iff, pure_eq_ok, Except.ok.injEq]
  constructor
  · rintro ⟨c, hc, cs', hcs', rfl⟩
    exact ⟨c, cs', hc, hcs', rfl⟩
  · rintro ⟨c, cs', hc, hcs', rfl⟩
    exact ⟨c, hc, cs', hcs', rfl⟩

@[simp] theorem mapM_nil_eq_ok_iff {f : β → Except Failure γ} {cs : List γ} :
    [].mapM f = .ok cs ↔ cs = [] := by
  simp [eq_comm]

/-- A list is read as a whole if success means that each element equals what has been read. -/
theorem mapM_eq_ok_iff {δ : Type} {f : β → Except Failure γ} {g : β → δ} {h : γ → δ}
    (hf : ∀ b c, f b = .ok c ↔ g b = h c) {bs : List β} {cs : List γ} :
    bs.mapM f = .ok cs ↔ bs.map g = cs.map h := by
  induction bs generalizing cs with
  | nil => cases cs <;> simp
  | cons b bs ih =>
    rw [mapM_cons_eq_ok_iff]
    cases cs with
    | nil => simp
    | cons c cs => simp [hf, ih]

/-- A list is read if each of its elements is. -/
theorem mapM_eq_ok {f : β → Except Failure γ} {g : β → γ} {bs : List β}
    (h : ∀ b ∈ bs, f b = .ok (g b)) : bs.mapM f = .ok (bs.map g) := by
  induction bs with
  | nil => rfl
  | cons b bs ih =>
    obtain ⟨hb, hbs⟩ := List.forall_mem_cons.1 h
    rw [List.mapM_cons, hb, ih hbs]
    rfl

/-- Reading a list depends on what is read at its elements. -/
theorem mapM_congr {f g : β → Except Failure γ} {bs : List β} (h : ∀ b ∈ bs, f b = g b) :
    bs.mapM f = bs.mapM g := by
  induction bs with
  | nil => rfl
  | cons b bs ih =>
    obtain ⟨hb, hbs⟩ := List.forall_mem_cons.1 h
    rw [List.mapM_cons, List.mapM_cons, hb, ih hbs]

/-- A list is walked if each step succeeds. -/
theorem foldlM_eq_ok {f : γ → β → Except Failure γ} {g : γ → β → γ} {bs : List β}
    (h : ∀ c, ∀ b ∈ bs, f c b = .ok (g c b)) (c : γ) : bs.foldlM f c = .ok (bs.foldl g c) := by
  induction bs generalizing c with
  | nil => rfl
  | cons b bs ih =>
    rw [List.foldlM_cons, h c b List.mem_cons_self]
    exact ih (fun c b hb => h c b (List.mem_cons_of_mem _ hb)) _

end Except

namespace Act

variable {σ β γ : Type}

/-- An action is what it does. -/
theorem ext {x y : Act σ β} (h : ∀ s, x.apply s = y.apply s) : x = y := funext h

@[simp] theorem apply_pure (b : β) (s : σ) : (pure b : Act σ β).apply s = (.ok b, s) := rfl

/-- An action after another one: it starts where the first one ends, unless that one fails. -/
theorem apply_bind (x : Act σ β) (f : β → Act σ γ) (s : σ) :
    (x >>= f).apply s = match x.apply s with
      | (.ok b, s') => (f b).apply s'
      | (.error e, s') => (.error e, s') := by
  change ExceptT.bindCont f (x.apply s).1 (x.apply s).2 = _
  rcases x.apply s with ⟨_ | _, _⟩ <;> rfl

/-- What follows an action that succeeds. -/
theorem apply_bind_of_ok {x : Act σ β} {s s' : σ} {b : β} (h : x.apply s = (.ok b, s'))
    (f : β → Act σ γ) : (x >>= f).apply s = (f b).apply s' := by
  rw [apply_bind, h]

theorem apply_bind_eq_ok_iff {x : Act σ β} {f : β → Act σ γ} {s s'' : σ} {c : γ} :
    (x >>= f).apply s = (.ok c, s'') ↔
      ∃ b s', x.apply s = (.ok b, s') ∧ (f b).apply s' = (.ok c, s'') := by
  rw [apply_bind]
  rcases x.apply s with ⟨_ | b, s'⟩
  · simp
  · simp [and_assoc]

/-- A state in which an action fails is that of one of its two parts. -/
theorem apply_bind_eq_error_iff {x : Act σ β} {f : β → Act σ γ} {s s'' : σ} {e : Failure} :
    (x >>= f).apply s = (.error e, s'') ↔ x.apply s = (.error e, s'') ∨
      ∃ b s', x.apply s = (.ok b, s') ∧ (f b).apply s' = (.error e, s'') := by
  rw [apply_bind]
  rcases x.apply s with ⟨_ | b, s'⟩
  · simp
  · simp [and_assoc]

/-- A result that is changed afterwards; the state is not. -/
@[simp] theorem apply_map (f : β → γ) (x : Act σ β) (s : σ) :
    (f <$> x).apply s = ((x.apply s).1.map f, (x.apply s).2) := by
  change (x >>= fun b => pure (f b)).apply s = _
  rw [apply_bind]
  rcases x.apply s with ⟨_ | _, _⟩ <;> rfl

@[simp] theorem apply_get (s : σ) : (get : Act σ σ).apply s = (.ok s, s) := rfl

@[simp] theorem apply_set (s s' : σ) : (set s' : Act σ Unit).apply s = (.ok (), s') := rfl

@[simp] theorem apply_modify (f : σ → σ) (s : σ) :
    (modify f : Act σ Unit).apply s = (.ok (), f s) := rfl

@[simp] theorem apply_liftM (x : Except Failure β) (s : σ) :
    (liftM x : Act σ β).apply s = (x, s) := rfl

theorem apply_liftM_bind_of_ok {x : Except Failure β} {b : β} (h : x = .ok b) (f : β → Act σ γ)
    (s : σ) : ((liftM x : Act σ β) >>= f).apply s = (f b).apply s :=
  apply_bind_of_ok (by rw [apply_liftM, h]) f

theorem apply_attempt_of_ok {x : Act σ β} {s s' : σ} {b : β} (h : x.apply s = (.ok b, s')) :
    x.attempt.apply s = (.ok (.ok b), s') := by
  unfold attempt
  unfold apply at h ⊢
  simp only [ExceptT.run] at h ⊢
  rw [h]

theorem apply_attempt_of_error {x : Act σ β} {s s' : σ} {e : Error}
    (h : x.apply s = (.error (.error e), s')) : x.attempt.apply s = (.ok (.error e), s') := by
  unfold attempt
  unfold apply at h ⊢
  simp only [ExceptT.run] at h ⊢
  rw [h]

theorem apply_attempt_of_panic {x : Act σ β} {s s' : σ} {p : Panic}
    (h : x.apply s = (.error (.panic p), s')) : x.attempt.apply s = (.error (.panic p), s') := by
  unfold attempt
  unfold apply at h ⊢
  simp only [ExceptT.run] at h ⊢
  rw [h]

/-- An attempt succeeds with the result of the action or with the error it reports. -/
theorem apply_attempt_eq_ok_iff {x : Act σ β} {s s' : σ} {r : Except Error β} :
    x.attempt.apply s = (.ok r, s') ↔
      (∃ b, r = .ok b ∧ x.apply s = (.ok b, s')) ∨
        ∃ e, r = .error e ∧ x.apply s = (.error (.error e), s') := by
  rcases hx : x.apply s with ⟨(e | p) | b, s''⟩
  · rw [apply_attempt_of_error hx]
    constructor
    · intro h
      cases h
      exact .inr ⟨e, rfl, rfl⟩
    · rintro (⟨b, rfl, h⟩ | ⟨e', rfl, h⟩) <;> cases h
      rfl
  · rw [apply_attempt_of_panic hx]
    simp
  · rw [apply_attempt_of_ok hx]
    constructor
    · intro h
      cases h
      exact .inl ⟨b, rfl, rfl⟩
    · rintro (⟨b', rfl, h⟩ | ⟨e, rfl, h⟩) <;> cases h
      rfl

/-- What follows an attempt goes on from its result or from the error it reports. -/
theorem apply_attempt_bind_eq_ok_iff {x : Act σ β} {f : Except Error β → Act σ γ} {s s'' : σ}
    {c : γ} : (x.attempt >>= f).apply s = (.ok c, s'') ↔
      (∃ b s', x.apply s = (.ok b, s') ∧ (f (.ok b)).apply s' = (.ok c, s'')) ∨
        ∃ e s', x.apply s = (.error (.error e), s') ∧ (f (.error e)).apply s' = (.ok c, s'') := by
  simp only [apply_bind_eq_ok_iff, apply_attempt_eq_ok_iff]
  constructor
  · rintro ⟨_, s', ⟨b, rfl, hx⟩ | ⟨e, rfl, hx⟩, hf⟩
    · exact .inl ⟨b, s', hx, hf⟩
    · exact .inr ⟨e, s', hx, hf⟩
  · rintro (⟨b, s', hx, hf⟩ | ⟨e, s', hx, hf⟩)
    · exact ⟨.ok b, s', .inl ⟨b, rfl, hx⟩, hf⟩
    · exact ⟨.error e, s', .inr ⟨e, rfl, hx⟩, hf⟩

/-- The action only looks at the state. -/
def ReadOnly (x : Act σ β) : Prop := ∀ s, (x.apply s).2 = s

/-- The action leaves what is looked at in the state as it is, also if it fails. -/
def Keeps {τ : Type} (look : σ → τ) (x : Act σ β) : Prop := ∀ s, look (x.apply s).2 = look s

/-- The action changes nothing if it fails. -/
def Atomic (x : Act σ β) : Prop := ∀ ⦃s e s'⦄, x.apply s = (.error e, s') → s' = s

theorem readOnly_lift (x : Except Failure β) : (lift x : Act σ β).ReadOnly := fun _ => rfl

theorem readOnly_liftM (x : Except Failure β) : (liftM x : Act σ β).ReadOnly := fun _ => rfl

theorem readOnly_get : (get : Act σ σ).ReadOnly := fun _ => rfl

theorem ReadOnly.atomic {x : Act σ β} (hx : x.ReadOnly) : x.Atomic := by
  intro s e s' h
  have hsame := hx s
  rwa [h] at hsame

theorem Keeps.bind {τ : Type} {look : σ → τ} {x : Act σ β} {f : β → Act σ γ} (hx : x.Keeps look)
    (hf : ∀ b, (f b).Keeps look) : (x >>= f).Keeps look := by
  intro s
  have hs := hx s
  rw [apply_bind]
  generalize x.apply s = outcome at hs
  obtain ⟨_ | b, s'⟩ := outcome
  · exact hs
  · exact (hf b s').trans hs

/-- Only looking before an atomic action makes an atomic action. -/
theorem ReadOnly.bind {x : Act σ β} {f : β → Act σ γ} (hx : x.ReadOnly)
    (hf : ∀ b, (f b).Atomic) : (x >>= f).Atomic := by
  intro s e s' h
  rcases apply_bind_eq_error_iff.1 h with hfirst | ⟨b, s₁, hfirst, hnext⟩
  · exact hx.atomic hfirst
  · have hsame := hx s
    rw [hfirst] at hsame
    rw [hf b hnext]
    exact hsame

/-- Changing the result afterwards cannot fail. -/
theorem Atomic.map {x : Act σ β} (hx : x.Atomic) (f : β → γ) : (f <$> x).Atomic := by
  intro s e s' h
  rw [apply_map] at h
  rcases hresult : x.apply s with ⟨e' | b, s₁⟩
  · rw [hresult] at h
    obtain rfl : s₁ = s' := (Prod.mk.inj h).2
    exact hx hresult
  · rw [hresult] at h
    exact nomatch (Prod.mk.inj h).1

theorem atomic_set (s : σ) : (set s : Act σ PUnit).Atomic :=
  fun _ _ _ h => nomatch (Prod.mk.inj h).1

theorem atomic_set_bind_pure (s : σ) (b : β) :
    (set s >>= fun _ => pure b : Act σ β).Atomic := fun _ _ _ h => nomatch (Prod.mk.inj h).1

theorem outcome_eq_ok_iff {x : Act σ β} {s s' : σ} {b : β} :
    x.outcome s = .ok (b, s') ↔ x.apply s = (.ok b, s') := by
  unfold outcome
  rcases x.apply s with ⟨_ | b', s''⟩
  · simp
  · simp [Prod.ext_iff]

end Act

end TraceSubstitution
