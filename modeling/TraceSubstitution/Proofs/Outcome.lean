import TraceSubstitution.Proofs.Action

/-!
# How operations end

`Ends E x Q` says of an operation `x` that it returns a value with the property
`Q`, or else that its failure is one that `E` permits. Two permissions matter:
`Returns` permits no failure, and `Reports` permits errors but no panics. Both go
through compositions step by step, since a step has to end in a state from which
the rest ends as it should (`ends_bind`), and through a walk along a list, where
every element is met with the same demand (`Ends.mapM`) or an invariant is kept
(`Ends.foldlM`).
-/

namespace TraceSubstitution

/-- The operation returns a value with the property `Q`, or it fails as `E` permits. -/
def Ends {β : Type} (E : Failure → Prop) (x : Except Failure β) (Q : β → Prop) : Prop :=
  match x with
  | .ok b => Q b
  | .error e => E e

/-- The failure is an error that a caller may react to. -/
def Failure.IsError (e : Failure) : Prop := ∀ p, e ≠ .panic p

/-- The operation returns a value with the property `Q`. -/
abbrev Returns {β : Type} (x : Except Failure β) (Q : β → Prop) : Prop :=
  Ends (fun _ => False) x Q

/-- The operation does not panic, and what it returns has the property `Q`. -/
abbrev Reports {β : Type} (x : Except Failure β) (Q : β → Prop) : Prop :=
  Ends Failure.IsError x Q

section

variable {β γ : Type} {E : Failure → Prop} {x : Except Failure β} {P Q : β → Prop}

@[simp] theorem ends_ok {b : β} : Ends E (.ok b) Q ↔ Q b := Iff.rfl

@[simp] theorem ends_error {e : Failure} : Ends E (.error e : Except Failure β) Q ↔ E e := Iff.rfl

@[simp] theorem ends_pure {b : β} : Ends E (pure b) Q ↔ Q b := Iff.rfl

@[simp] theorem ends_bind {f : β → Except Failure γ} {R : γ → Prop} :
    Ends E (x >>= f) R ↔ Ends E x fun b => Ends E (f b) R := by
  cases x <;> exact Iff.rfl

@[simp] theorem ends_map {f : β → γ} {R : γ → Prop} :
    Ends E (x.map f) R ↔ Ends E x fun b => R (f b) := by
  cases x <;> exact Iff.rfl

theorem Ends.mono (h : Ends E x P) (hPQ : ∀ b, x = .ok b → P b → Q b) : Ends E x Q := by
  cases x with
  | error e => exact h
  | ok b => exact hPQ b rfl h

/-- A step that ends well, followed by steps that end well after it. -/
theorem Ends.bind {f : β → Except Failure γ} {R : γ → Prop} (h : Ends E x P)
    (hf : ∀ b, x = .ok b → P b → Ends E (f b) R) : Ends E (x >>= f) R :=
  ends_bind.2 (h.mono hf)

/-- A list is walked without a failure that is not permitted. -/
theorem Ends.mapM {f : β → Except Failure γ} {R : γ → Prop} {xs : List β}
    (h : ∀ b ∈ xs, Ends E (f b) R) :
    Ends E (xs.mapM f) fun ys => ys.length = xs.length ∧ ∀ y ∈ ys, R y := by
  induction xs with
  | nil => exact ⟨rfl, nofun⟩
  | cons b xs ih =>
    rw [List.mapM_cons]
    refine (h b List.mem_cons_self).bind fun y _ hy => ?_
    refine (ih fun b hb => h b (List.mem_cons_of_mem _ hb)).bind fun ys _ hys => ?_
    exact ⟨congrArg (· + 1) hys.1, List.forall_mem_cons.2 ⟨hy, hys.2⟩⟩

/-- A list is walked together with the positions of its elements. -/
theorem Ends.mapM_zipIdx {f : β × Nat → Except Failure γ} {R : γ → Prop} {xs : List β}
    (h : ∀ x ∈ xs, ∀ i < xs.length, Ends E (f (x, i)) R) :
    Ends E (xs.zipIdx.mapM f) fun ys => ys.length = xs.length ∧ ∀ y ∈ ys, R y := by
  refine (Ends.mapM fun e he => ?_).mono fun ys _ hys => ⟨hys.1.trans List.length_zipIdx, hys.2⟩
  exact h e.1 (List.fst_mem_of_mem_zipIdx he) e.2 (List.snd_lt_of_mem_zipIdx he)

/-- What holds at the start of a walk along a list and after each step holds at its end. -/
theorem Ends.foldlM {f : γ → β → Except Failure γ} {I : γ → Prop} {xs : List β} {c : γ}
    (h : ∀ b ∈ xs, ∀ c, I c → Ends E (f c b) I) (hc : I c) : Ends E (xs.foldlM f c) I := by
  induction xs generalizing c with
  | nil => exact hc
  | cons b xs ih =>
    rw [List.foldlM_cons]
    exact (h b List.mem_cons_self c hc).bind fun c' _ hc' =>
      ih (fun b hb => h b (List.mem_cons_of_mem _ hb)) hc'

theorem returns_iff : Returns x Q ↔ ∃ b, x = .ok b ∧ Q b := by
  cases x with
  | error e => exact ⟨False.elim, fun ⟨_, h, _⟩ => nomatch h⟩
  | ok b => exact ⟨fun h => ⟨b, rfl, h⟩, fun ⟨_, h, hQ⟩ => Except.ok.inj h ▸ hQ⟩

theorem returns_of_eq_ok {b : β} (h : x = .ok b) (hb : Q b) : Returns x Q :=
  returns_iff.2 ⟨b, h, hb⟩

theorem reports_ofCause (c : Cause) : Reports (.error (.ofCause c) : Except Failure β) Q :=
  fun _ h => nomatch h

theorem Reports.ne_panic (h : Reports x Q) (p : Panic) : x ≠ .error (.panic p) := by
  rintro rfl
  exact h p rfl

theorem reports_withContext {context : String} (h : Reports x Q) :
    Reports (withContext context x) Q := by
  cases x with
  | ok b => exact h
  | error e =>
    cases e with
    | error e => exact nofun
    | panic p => exact h

@[simp] theorem reports_ensure {condition : Bool} {c : Cause} {R : Unit → Prop} :
    Reports (ensure condition c) R ↔ (condition = true → R ()) := by
  cases condition with
  | false => exact iff_of_true (reports_ofCause c) nofun
  | true => exact ⟨fun h _ => h, fun h => h rfl⟩

/-- What follows a check that does not panic may rely on it. -/
theorem reports_ensure_bind {condition : Bool} {c : Cause} {f : Unit → Except Failure β}
    (h : condition = true → Reports (f ()) Q) : Reports (ensure condition c >>= f) Q :=
  ends_bind.2 (reports_ensure.2 h)

@[simp] theorem reports_orError {c : Cause} {x : Option β} :
    Reports (orError c x) Q ↔ ∀ b, x = some b → Q b := by
  cases x with
  | none => exact iff_of_true (reports_ofCause c) nofun
  | some b => exact ⟨fun h _ hb => Option.some.inj hb ▸ h, fun h => h b rfl⟩

end

end TraceSubstitution
