import TraceSubstitution.Operator.Operator
import TraceSubstitution.Operator.Requirement
import TraceSubstitution.Proofs.Outcome

/-!
# Type inference that does not panic

Matching a call with its signature never panics, and neither does a requirement on
types whose axes exist. So type inference does not panic if it looks at an axis only
after it has made sure of the number of axes (`Operator.reports_infer`).
-/

namespace TraceSubstitution

theorem Operands.reports_tensor {τ : Type} (args : Operands τ) (i : Nat) :
    Reports (args.tensor i) fun _ => True := by
  unfold tensor
  simp

theorem Attrs.reports_float (attrs : Attrs) (name : String) :
    Reports (attrs.float name) fun _ => True := by
  unfold float
  split
  · trivial
  · trivial
  · exact reports_ofCause _

namespace Require

variable {lhsName rhsName : String} {lhs rhs type : TensorType} {axis size : Nat}

theorem reports_rank {name : String} : Reports (rank name type size) fun _ => True := by
  unfold rank
  simp

theorem reports_sameDType : Reports (sameDType lhsName lhs rhsName rhs) fun _ => True := by
  unfold sameDType
  simp

theorem reports_sameDevice : Reports (sameDevice lhsName lhs rhsName rhs) fun _ => True := by
  unfold sameDevice
  simp

theorem reports_sameShape : Reports (sameShape lhsName lhs rhsName rhs) fun _ => True := by
  unfold sameShape
  simp

theorem reports_dim (h : axis < type.rank) : Reports (dim type axis) fun _ => True := by
  unfold dim
  have hget : type.dims[axis]? = some (type.dims.get ⟨axis, h⟩) := List.getElem?_eq_getElem h
  rw [hget]
  trivial

theorem reports_sameDim (hl : axis < lhs.rank) (hr : axis < rhs.rank) :
    Reports (sameDim axis lhsName lhs rhsName rhs) fun _ => True :=
  (reports_dim hl).bind fun _ _ _ => (reports_dim hr).bind fun _ _ _ => by simp

theorem reports_lastDim (h : 0 < type.rank) : Reports (lastDim type) fun _ => True := by
  unfold lastDim
  cases hlast : type.shape.lastDim? with
  | some size => trivial
  | none => exact absurd (Shape.lastDim?_eq_none_iff.1 hlast) (Nat.ne_of_gt h)

theorem reports_withLastDim (h : 0 < type.rank) :
    Reports (withLastDim type size) fun _ => True := by
  unfold withLastDim
  cases hshape : type.shape.withLastDim? size with
  | some shape => trivial
  | none => exact absurd (Shape.withLastDim?_eq_none_iff.1 hshape) (Nat.ne_of_gt h)

end Require

namespace Signature

theorem reports_checkOperands {τ : Type} (s : Signature) (op : String)
    (operands : List (Option τ)) : Reports (s.checkOperands op operands) fun _ => True := by
  unfold checkOperands
  split
  · exact reports_ofCause _
  · split
    · exact reports_ofCause _
    · trivial

theorem reports_bindAttr (op : String) (attrs : Attrs) (p : AttrParam) :
    Reports (bindAttr op attrs p) fun _ => True := by
  unfold bindAttr
  split
  · split
    · trivial
    · exact reports_ofCause _
  · simp

theorem reports_bindAttrs (s : Signature) (op : String) (attrs : Attrs) :
    Reports (s.bindAttrs op attrs) fun _ => True := by
  unfold bindAttrs
  split
  · exact reports_ofCause _
  · exact Ends.foldlM (fun p _ _ _ => (reports_bindAttr op attrs p).bind fun _ _ _ => trivial)
      trivial

end Signature

namespace Operator

variable {α : Type} {o : Operator α}

theorem reports_bind {τ : Type} (o : Operator α) (operands : List (Option τ)) (attrs : Attrs) :
    Reports (o.bind operands attrs) fun _ => True :=
  (o.signature.reports_checkOperands _ operands).bind fun _ _ _ =>
    o.signature.reports_bindAttrs _ attrs

/-- Type inference of a call does not panic if that of its bound form does not. -/
theorem reports_infer {operands : List (Option TensorType)} {attrs : Attrs}
    (h : ∀ bound, Reports (o.outputTypes ⟨o.qualifiedName, operands, bound⟩) fun _ => True) :
    Reports (o.infer operands attrs) fun _ => True :=
  (o.reports_bind operands attrs).bind fun bound _ _ => reports_withContext (h bound)

end Operator

end TraceSubstitution
