import TraceSubstitution.Proofs.Core
import TraceSubstitution.Proofs.Gradient.Sum
import TraceSubstitution.Proofs.SymbolMap

/-!
# Contributions that are refused

A contribution is refused if there is a gradient already and the two cannot be added:
one of them is not of the program, or their types differ (`Tracer.CanAdd`). The program
is left alone then, but the gradient is not, since the binding gives it up before the
addition is tried. All that has been contributed to the symbol is lost, and the next
contribution counts as the first one (`GradientBinding.accumulate_refused`).
-/

namespace TraceSubstitution

variable {α : Type}

namespace Tracer

variable {t : Tracer α}

/-- Two symbols are of the program and have one type. -/
structure CanAdd (t : Tracer α) (lhs rhs : Symbol) : Prop where
  ownsLhs : t.owns lhs = true
  ownsRhs : t.owns rhs = true
  sameType : lhs.type = rhs.type

theorem reports_checkAll (t : Tracer α) (symbols : List Symbol) :
    Reports (t.checkAll symbols) fun _ => True := by
  cases h : t.checkAll symbols with
  | ok _ => trivial
  | error e =>
    obtain ⟨s, -, rfl⟩ := exists_of_checkAll_error h
    exact reports_ofCause _

/-- A call does not panic if the inference of its output types does not. -/
theorem reports_admission {op : NodeOp α} {operands : List (Option Symbol)}
    (h : ∀ bound, Reports (op.inferTypes (operands.map (·.map Symbol.type)) bound) fun _ => True)
    (attrs : Attrs) : Reports (t.admission op operands attrs) fun _ => True :=
  (op.operator.reports_bind _ attrs).bind fun bound _ _ => (h bound).bind fun _ _ _ =>
    (t.reports_checkAll _).bind fun _ _ _ => trivial

end Tracer

namespace GradientBinding

variable [Scalar α] {t t' : Tracer α} {grads : GradientBinding} {primal : SymbolId}
  {lhs rhs x : Symbol}

theorem admission_add_eq_ok_iff {types : List TensorType} {bound : Attrs} :
    t.admission (.kernel Core.add) [some lhs, some rhs] .empty = .ok (bound, types) ↔
      t.CanAdd lhs rhs ∧ bound = .empty ∧ types = [lhs.type] := by
  have howned : (∀ s, some s ∈ [some lhs, some rhs] → t.owns s = true) ↔
      t.owns lhs = true ∧ t.owns rhs = true := by simp
  have hinfer : (NodeOp.kernel (Core.add : Operator α)).inferTypes
      [some lhs.type, some rhs.type] bound = .ok types ↔
        lhs.type = rhs.type ∧ types = [lhs.type] := by
    refine Core.inferBound_add_eq_ok_iff.trans ⟨?_, ?_⟩
    · rintro ⟨type, hlhs, hrhs, rfl⟩
      obtain rfl := Option.some.inj hlhs
      exact ⟨(Option.some.inj hrhs).symm, rfl⟩
    · rintro ⟨htype, rfl⟩
      exact ⟨lhs.type, rfl, congrArg some htype.symm, rfl⟩
  rw [Tracer.admission_eq_ok_iff, howned]
  change Except.ok Dict.empty = Except.ok bound ∧ (NodeOp.kernel Core.add).inferTypes
    [some lhs.type, some rhs.type] bound = .ok types ∧ _ ↔ _
  rw [hinfer, Except.ok.injEq, eq_comm]
  constructor
  · rintro ⟨hbound, ⟨htype, htypes⟩, hlhs, hrhs⟩
    exact ⟨⟨hlhs, hrhs, htype⟩, hbound, htypes⟩
  · rintro ⟨⟨hlhs, hrhs, htype⟩, hbound, htypes⟩
    exact ⟨hbound, ⟨htype, htypes⟩, hlhs, hrhs⟩

/-- The sum of two symbols that can be added is recorded. -/
theorem exists_sum (h : t.CanAdd lhs rhs) :
    ∃ total t', (sum lhs rhs).apply t = (.ok total, t') := by
  have hcall := Tracer.apply_call_eq t (.kernel Core.add) [some lhs, some rhs] .empty
  rw [admission_add_eq_ok_iff.2 ⟨h, rfl, rfl⟩] at hcall
  exact ⟨_, _, Act.apply_bind_of_ok hcall _⟩

/-- An addition that is impossible is an error, and changes nothing. -/
theorem sum_refused (h : ¬ t.CanAdd lhs rhs) :
    ∃ e : Error, (sum lhs rhs).apply t = (.error (.error e), t) := by
  have hcall := Tracer.apply_call_eq t (.kernel Core.add) [some lhs, some rhs] .empty
  have hreports : Reports (t.admission (.kernel Core.add) [some lhs, some rhs] .empty)
      fun _ => True := by
    refine Tracer.reports_admission (fun bound => ?_) _
    exact reports_withContext ((Core.reports_sumType _).bind fun _ _ _ => trivial)
  unfold sum
  rw [Act.apply_bind]
  cases hknown : t.admission (.kernel Core.add) [some lhs, some rhs] .empty with
  | ok known => exact absurd (admission_add_eq_ok_iff.1 hknown).1 h
  | error e =>
    rw [hknown] at hcall hreports
    rw [hcall]
    cases e with
    | error e => exact ⟨e, rfl⟩
    | panic p => exact absurd rfl (hreports p)

/-- A contribution that cannot be added takes the gradient with it. -/
theorem apply_accumulate_of_not_canAdd {existing : Symbol}
    (hget : grads.get? primal = some existing) (h : ¬ t.CanAdd existing x) :
    ∃ e : Error, (accumulate primal x).apply (t, grads) =
      (.error (.error e), t, grads.erase primal) := by
  obtain ⟨e, hsum⟩ := sum_refused h
  refine ⟨e, ?_⟩
  unfold accumulate
  unfold Act.apply at hsum ⊢
  simp only [ExceptT.run, hget] at hsum ⊢
  rw [hsum]

/-- A contribution is refused if and only if there is a gradient and the two cannot be added. -/
theorem accumulate_fails_iff : (∃ e b, (accumulate primal x).apply (t, grads) = (.error e, b)) ↔
    ∃ existing, grads.get? primal = some existing ∧ ¬ t.CanAdd existing x := by
  constructor
  · rintro ⟨e, b, h⟩
    cases hget : grads.get? primal with
    | none =>
      rw [apply_accumulate_of_none hget] at h
      exact nomatch (Prod.mk.inj h).1
    | some existing =>
      refine ⟨existing, rfl, fun hadd => ?_⟩
      obtain ⟨total, t', hsum⟩ := exists_sum hadd
      rw [apply_accumulate_of_some hget hsum] at h
      exact nomatch (Prod.mk.inj h).1
  · rintro ⟨existing, hget, hadd⟩
    obtain ⟨e, h⟩ := apply_accumulate_of_not_canAdd hget hadd
    exact ⟨_, _, h⟩

/-- Bindings have one gradient for each symbol, whatever is contributed. -/
theorem distinct_accumulate (hgrads : grads.Distinct) :
    ((accumulate primal x).apply (t, grads)).2.2.Distinct := by
  cases hget : grads.get? primal with
  | none =>
    rw [apply_accumulate_of_none hget]
    exact hgrads.insert primal x
  | some existing =>
    by_cases hadd : t.CanAdd existing x
    · obtain ⟨total, t', hsum⟩ := exists_sum hadd
      rw [apply_accumulate_of_some hget hsum]
      exact hgrads.insert primal total
    · obtain ⟨e, h⟩ := apply_accumulate_of_not_canAdd hget hadd
      rw [h]
      exact hgrads.erase primal

/-- The binding and the program after contributions that are made one after the other, whether they
are refused or not. -/
def accumulateAll (b : Backward α) (contributions : List (SymbolId × Symbol)) : Backward α :=
  contributions.foldl (fun b c => ((accumulate c.1 c.2).apply b).2) b

theorem distinct_accumulateAll {b : Backward α} (h : b.2.Distinct)
    (contributions : List (SymbolId × Symbol)) : (accumulateAll b contributions).2.Distinct := by
  induction contributions generalizing b with
  | nil => exact h
  | cons c contributions ih => exact ih (distinct_accumulate h)

/-- A contribution is refused if and only if there is a gradient already that it cannot be added to.
This is an error, and the program is as before; but the gradient is lost, and only this one, so
that the next contribution becomes the gradient by itself. -/
theorem accumulate_refused (hgrads : grads.Distinct) (t : Tracer α) (primal : SymbolId)
    (x : Symbol) :
    ((∃ e b, (accumulate primal x).apply (t, grads) = (.error e, b)) ↔
      ∃ existing, grads.get? primal = some existing ∧ ¬ t.CanAdd existing x) ∧
    ∀ e b, (accumulate primal x).apply (t, grads) = (.error e, b) →
      e.IsError ∧ b.1 = t ∧ b.2.get? primal = none ∧
        (∀ other, other ≠ primal → b.2.get? other = grads.get? other) ∧
        b.2.size + 1 = grads.size ∧
        ∀ y, (accumulate primal y).apply b = (.ok (), t, b.2.insert primal y) := by
  refine ⟨accumulate_fails_iff, fun e b h => ?_⟩
  obtain ⟨existing, hget, hadd⟩ := accumulate_fails_iff.1 ⟨e, b, h⟩
  obtain ⟨error, hrefused⟩ := apply_accumulate_of_not_canAdd hget hadd
  obtain ⟨he, hb⟩ := Prod.mk.inj (h.symm.trans hrefused)
  obtain rfl := Except.error.inj he
  obtain rfl := hb
  have hnone : (grads.erase primal).get? primal = none := by
    rw [SymbolMap.get?_erase, if_pos rfl]
  refine ⟨nofun, rfl, hnone, fun other hne => ?_, hgrads.size_erase hget,
    apply_accumulate_of_none hnone⟩
  rw [SymbolMap.get?_erase, if_neg hne]

/-- The gradient of a symbol is one number, and two numbers are contributed to it. -/
theorem accumulate_refused_twoNumbers :
    let t : Tracer Float32 := (((Tracer.empty ⟨0⟩).input oneNumber).2.input twoNumbers).2
    let x : Symbol := ⟨⟨0⟩, ⟨0⟩, oneNumber⟩
    let y : Symbol := ⟨⟨0⟩, ⟨1⟩, twoNumbers⟩
    let b := accumulateAll (t, .empty) [(⟨0⟩, x), (⟨1⟩, y)]
    b.2.Distinct ∧ ∃ e b', (accumulate ⟨0⟩ y).apply b = (.error e, b') ∧ b'.1 = t ∧
      b'.2.get? ⟨0⟩ = none ∧ b'.2.get? ⟨1⟩ = some y ∧ b'.2.size + 1 = b.2.size := by
  intro t x y b
  have hdistinct : b.2.Distinct := distinct_accumulateAll SymbolMap.distinct_empty _
  obtain ⟨hfails, hlost⟩ := accumulate_refused hdistinct t ⟨0⟩ y
  obtain ⟨e, b', h⟩ := hfails.2 ⟨x, rfl, fun hadd => nomatch hadd.sameType⟩
  obtain ⟨-, hprogram, hnone, hothers, hsize, -⟩ := hlost e b' h
  exact ⟨hdistinct, e, b', h, hprogram, hnone, hothers ⟨1⟩ (by decide), hsize⟩

/-- The gradient is there before the contribution that is refused, and not there afterwards. -/
theorem accumulate_loses :
    let t : Tracer Float32 := (((Tracer.empty ⟨0⟩).input oneNumber).2.input twoNumbers).2
    let x : Symbol := ⟨⟨0⟩, ⟨0⟩, oneNumber⟩
    let grads : GradientBinding := SymbolMap.empty.insert ⟨0⟩ x
    ∃ e b, (accumulate ⟨0⟩ ⟨⟨0⟩, ⟨1⟩, twoNumbers⟩).apply (t, grads) = (.error (.error e), b) ∧
      grads.get? ⟨0⟩ = some x ∧ b.2.get? ⟨0⟩ = none ∧ grads.size = 1 ∧ b.2.size = 0 :=
  ⟨_, _, rfl, rfl, rfl, rfl, rfl⟩

end GradientBinding

end TraceSubstitution
