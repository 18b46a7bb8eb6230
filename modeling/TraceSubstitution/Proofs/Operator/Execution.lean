import TraceSubstitution.Operator.Operator
import TraceSubstitution.Proofs.Action
import TraceSubstitution.Proofs.Tensor.Layout

/-!
# What a call depends on

Matching a call with a signature looks at which operands are there, and running
it looks at the contents of the operands: `Operator.bind_map` and
`Operator.execute_congr`. A verified call succeeds exactly when the call succeeds
and its outputs have the types that are inferred for it, in number and one by one.
-/

namespace TraceSubstitution

/-- What depends on the contents of a tensor can be computed on equal contents. -/
theorem map_congr_of_contents {α β : Type} {f : Tensor α → β}
    (hf : ∀ t u : Tensor α, t.contents = u.contents → f t = f u) :
    ∀ {xs ys : List (Option (Tensor α))},
      xs.map (·.map Tensor.contents) = ys.map (·.map Tensor.contents) →
        xs.map (·.map f) = ys.map (·.map f)
  | [], [], _ => rfl
  | x :: xs, y :: ys, h => by
    obtain ⟨hhead, htail⟩ := List.cons_eq_cons.1 h
    have hx : x.map f = y.map f := by
      cases x with
      | none =>
        cases y with
        | none => rfl
        | some u => exact nomatch hhead
      | some t =>
        cases y with
        | none => exact nomatch hhead
        | some u => exact congrArg some (hf t u (Option.some.inj hhead))
    rw [List.map_cons, List.map_cons, hx, map_congr_of_contents hf htail]
  | [], _ :: _, h => nomatch h
  | _ :: _, [], h => nomatch h

/-- Signatures look at which operands are there, not at what they are. -/
theorem Signature.checkOperands_map {τ σ : Type} (s : Signature) (op : String)
    (xs : List (Option τ)) (f : τ → σ) :
    s.checkOperands op (xs.map (·.map f)) = s.checkOperands op xs := by
  have hfind : ∀ ps : List TensorParam,
      ((ps.zip (xs.map (·.map f))).find? fun e => e.2.isNone && !e.1.optional).map (·.1) =
        ((ps.zip xs).find? fun e => e.2.isNone && !e.1.optional).map (·.1) := by
    intro ps
    induction xs generalizing ps with
    | nil => simp
    | cons x xs ih =>
      cases ps with
      | nil => simp
      | cons p ps =>
        simp only [List.map_cons, List.zip_cons_cons, List.find?_cons, Option.isNone_map]
        cases x.isNone && !p.optional
        · exact ih ps
        · rfl
  have hsame := hfind s.tensors
  unfold checkOperands
  rw [List.length_map]
  split
  · rfl
  · split
    · next p x h =>
      rw [show (s.tensors.zip (xs.map (·.map f))).find? (fun e => e.2.isNone && !e.1.optional) =
        some (p, x) from h] at hsame
      split
      · next q y h' =>
        rw [show (s.tensors.zip xs).find? (fun e => e.2.isNone && !e.1.optional) = some (q, y) from
          h'] at hsame
        rw [show p = q from Option.some.inj hsame]
      · next h' =>
        rw [show (s.tensors.zip xs).find? (fun e => e.2.isNone && !e.1.optional) = none from h']
          at hsame
        exact nomatch hsame
    · next h =>
      rw [show (s.tensors.zip (xs.map (·.map f))).find? (fun e => e.2.isNone && !e.1.optional) =
        none from h] at hsame
      split
      · next q y h' =>
        rw [show (s.tensors.zip xs).find? (fun e => e.2.isNone && !e.1.optional) = some (q, y) from
          h'] at hsame
        exact nomatch hsame
      · rfl

namespace Operator

variable {α : Type} {o : Operator α}

theorem bind_map {τ σ : Type} (o : Operator α) (xs : List (Option τ)) (attrs : Attrs)
    (f : τ → σ) : o.bind (xs.map (·.map f)) attrs = o.bind xs attrs := by
  unfold Operator.bind
  rw [Signature.checkOperands_map]

theorem bind_eq_ok_iff {τ : Type} {xs : List (Option τ)} {attrs bound : Attrs} :
    o.bind xs attrs = .ok bound ↔ o.signature.checkOperands o.qualifiedName xs = .ok () ∧
      o.signature.bindAttrs o.qualifiedName attrs = .ok bound := by
  unfold Operator.bind
  exact check_bind_eq_ok_iff

theorem infer_eq_ok_iff {types : List (Option TensorType)} {attrs : Attrs}
    {outputs : List TensorType} : o.infer types attrs = .ok outputs ↔
      ∃ bound, o.bind types attrs = .ok bound ∧ o.inferBound types bound = .ok outputs :=
  TraceSubstitution.bind_eq_ok_iff

/-- A call depends on the contents of its operands only. -/
theorem execute_congr {xs ys : List (Option (Tensor α))}
    (h : xs.map (·.map Tensor.contents) = ys.map (·.map Tensor.contents)) (attrs : Attrs) :
    o.execute xs attrs = o.execute ys attrs := by
  have hbind : o.bind xs attrs = o.bind ys attrs := by
    rw [← bind_map o xs attrs Tensor.contents, h, bind_map]
  have hdense : xs.map (·.map Tensor.contiguous) = ys.map (·.map Tensor.contiguous) :=
    map_congr_of_contents (fun _ _ => Tensor.contiguous_congr) h
  unfold execute
  rw [hbind, hdense]

theorem executeVerified_congr {xs ys : List (Option (Tensor α))}
    (h : xs.map (·.map Tensor.contents) = ys.map (·.map Tensor.contents)) (attrs : Attrs) :
    o.executeVerified xs attrs = o.executeVerified ys attrs := by
  have htypes : xs.map (·.map Tensor.type) = ys.map (·.map Tensor.type) :=
    map_congr_of_contents (fun _ _ => Tensor.type_eq_of_contents) h
  unfold executeVerified
  rw [execute_congr h, htypes]

theorem firstMismatch?_eq_none_iff {i : Nat} {declared produced : List TensorType}
    (h : declared.length = produced.length) :
    firstMismatch? i declared produced = none ↔ declared = produced := by
  induction declared generalizing i produced with
  | nil =>
    cases produced with
    | nil => simp [firstMismatch?]
    | cons p produced => exact nomatch h
  | cons d declared ih =>
    cases produced with
    | nil => exact nomatch h
    | cons p produced =>
      by_cases hd : d = p
      · simp [firstMismatch?, hd, ih (Nat.succ.inj h)]
      · simp [firstMismatch?, hd]

theorem checkOutputs_eq_ok_iff {declared produced : List TensorType} :
    o.checkOutputs declared produced = .ok () ↔ declared = produced := by
  unfold checkOutputs
  split
  · next hlength => exact ⟨nofun, fun h => absurd (congrArg List.length h) hlength⟩
  · next hlength =>
    rw [← firstMismatch?_eq_none_iff (i := 0) (Classical.not_not.1 hlength)]
    cases firstMismatch? 0 declared produced <;> simp

theorem executeVerified_eq_ok_iff {xs : List (Option (Tensor α))} {attrs : Attrs}
    {outputs : List (Tensor α)} : o.executeVerified xs attrs = .ok outputs ↔
      o.execute xs attrs = .ok outputs ∧
        o.infer (xs.map (·.map Tensor.type)) attrs = .ok (outputs.map Tensor.type) := by
  unfold executeVerified
  constructor
  · intro h
    obtain ⟨ys, hrun, h⟩ := TraceSubstitution.bind_eq_ok_iff.1 h
    obtain ⟨declared, hinfer, h⟩ := TraceSubstitution.bind_eq_ok_iff.1 h
    obtain ⟨hcheck, hys⟩ := check_bind_eq_ok_iff.1 h
    obtain rfl : ys = outputs := Except.ok.inj hys
    obtain rfl := checkOutputs_eq_ok_iff.1 hcheck
    exact ⟨hrun, hinfer⟩
  · rintro ⟨hrun, hinfer⟩
    simp [hrun, hinfer, checkOutputs_eq_ok_iff.2]

end Operator

end TraceSubstitution
