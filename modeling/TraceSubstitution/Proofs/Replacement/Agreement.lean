import TraceSubstitution.Proofs.Replacement.Copying
import TraceSubstitution.Proofs.Replacement.Placement
import TraceSubstitution.Proofs.Trace.Affordable

/-!
# Forward and joint programs that agree

If the joint program of a source grows out of its forward program, it first computes
what the forward program computes, and then the gradients. So the outputs of the source
do not depend on the cotangents (`Replaced.GrowsFrom.agrees`), and only memory can run
out on the way to the gradients (`Replaced.GrowsFrom.runs`).
-/

namespace TraceSubstitution

variable {α : Type} [Scalar α]

/-- The forward program `x` and the joint program `y` of a source agree: they report the same, and
the outputs of the joint program begin with those of the forward program, whatever the cotangents
are. -/
structure Replaced.Agrees (source : Trace α) (x y : Replaced α) : Prop where
  /-- The report is about all high-level calls of the source. -/
  calls : x.report.calls = source.namedCalls
  /-- What is decided about a call is the same in both modes. -/
  report : y.report.plain = x.report.plain
  /-- What the joint program returns is what the forward program returns, and then the gradients. -/
  outputs : ∀ (tensors cotangents : List (Tensor α)) (verify : Bool) all,
    tensors.map Tensor.type = source.inputTypes →
    y.trace.execute (tensors ++ cotangents) verify = .ok all → ∃ outs gradients,
      all = outs ++ gradients ∧ outs.length = source.outputs.length ∧
      gradients.length = source.inputs.length ∧ x.trace.execute tensors verify = .ok outs
  /-- Where the forward program fails, the joint program fails in the same way. -/
  failures : ∀ (tensors cotangents : List (Tensor α)) (verify : Bool) e,
    tensors.map Tensor.type = source.inputTypes →
    cotangents.map Tensor.type = source.outputTypes →
    x.trace.execute tensors verify = .error e →
    y.trace.execute (tensors ++ cotangents) verify = .error e
  /-- If nothing has been replaced, the forward program does what the source does. -/
  untouched : x.report.Untouched → ∀ (tensors : List (Tensor α)) (verify : Bool),
    tensors.map Tensor.type = source.inputTypes →
    x.trace.execute tensors verify = source.execute tensors verify

/-- If there is room for the buffers and outputs of its calls, the joint program runs on all tensors
and cotangents of the declared types: it returns what the forward program returns, and a gradient
for every input. -/
def Replaced.Runs (ops : List (Builtin α)) (source : Trace α) (x y : Replaced α) : Prop :=
  y.trace.Affordable ops → ∀ (tensors cotangents : List (Tensor α)) (verify : Bool),
    tensors.map Tensor.type = source.inputTypes →
    cotangents.map Tensor.type = source.outputTypes → ∃ outs gradients,
      x.trace.execute tensors verify = .ok outs ∧
      y.trace.execute (tensors ++ cotangents) verify = .ok (outs ++ gradients) ∧
      outs.map Tensor.type = source.outputTypes ∧
      gradients.map Tensor.type = source.inputTypes

namespace Replaced.GrowsFrom

variable {allowed : Set (Operator α)} {source : Trace α} {x y : Replaced α}
  {tensors cotangents : List (Tensor α)} {verify : Bool}

/-- Both programs fail in the same way, or the joint program returns first what the forward program
returns, if it returns anything. -/
theorem execute (h : y.GrowsFrom allowed source x) (hclosed : x.trace.Closed)
    (hx : x.trace.HasInterface source.inputTypes source.outputTypes)
    (htensors : tensors.map Tensor.type = source.inputTypes)
    (hcotangents : cotangents.map Tensor.type = source.outputTypes) :
    (∃ e, x.trace.execute tensors verify = .error e ∧
      y.trace.execute (tensors ++ cotangents) verify = .error e) ∨
    ∃ outs, x.trace.execute tensors verify = .ok outs ∧
      ∀ all, y.trace.execute (tensors ++ cotangents) verify = .ok all →
        ∃ gradients, all = outs ++ gradients := by
  obtain ⟨σ, more, backward, gradients, hcontinues⟩ := h.continues
  have hmore : (tensors ++ cotangents).map Tensor.type =
      source.inputTypes ++ source.outputTypes := by
    rw [List.map_append, htensors, hcotangents]
  rcases hcontinues.outputs_eq_append hclosed (hx.inputs_eq htensors)
    (h.interface.inputs_eq hmore) verify with hfail | ⟨outs, hexecute, hfirst, -⟩
  · exact .inl hfail
  · refine .inr ⟨outs, hexecute, fun all hall => ?_⟩
    obtain ⟨rest, hrest, -⟩ := hfirst all hall
    exact ⟨rest, hrest⟩

/-- The cotangents that a joint program has run on have the types of the outputs of the source. -/
theorem types_of_execute (h : y.GrowsFrom allowed source x)
    (htensors : tensors.map Tensor.type = source.inputTypes) {all : List (Tensor α)}
    (hall : y.trace.execute (tensors ++ cotangents) verify = .ok all) :
    cotangents.map Tensor.type = source.outputTypes := by
  obtain ⟨values, htypes, -, -⟩ := Trace.execute_eq_ok_iff.1 hall
  have hdeclared := h.interface.inputs.symm.trans htypes
  have hsome : (tensors ++ cotangents).map (some ·.type) =
      ((tensors ++ cotangents).map Tensor.type).map some := by
    rw [List.map_map]
    rfl
  have htypes := List.map_injective_iff.2 (Option.some_injective _) (hdeclared.trans hsome)
  rw [List.map_append, htensors] at htypes
  exact (List.append_cancel_left htypes).symm

/-- A joint program that grows out of the forward program agrees with it. -/
theorem agrees (h : y.GrowsFrom allowed source x) (hclosed : x.trace.Closed)
    (hx : x.trace.HasInterface source.inputTypes source.outputTypes)
    (hsource : source.HasInterface source.inputTypes source.outputTypes)
    (hcalls : x.report.calls = source.namedCalls)
    (huntouched : x.report.Untouched → ∀ (tensors : List (Tensor α)) verify,
      source.inputs.map source.typeOf? = tensors.map (some ·.type) →
        x.trace.execute tensors verify = source.execute tensors verify) :
    Replaced.Agrees source x y where
  calls := hcalls
  report := h.report
  outputs tensors cotangents verify all htensors hall := by
    have hcotangents := h.types_of_execute htensors hall
    rcases h.execute hclosed hx htensors hcotangents with ⟨e, -, herror⟩ | ⟨outs, hexecute, hfirst⟩
    · exact nomatch hall.symm.trans herror
    · obtain ⟨gradients, rfl⟩ := hfirst all hall
      have hlength : outs.length = source.outputs.length := by
        rw [Trace.length_of_execute hexecute, hx.length_outputs, hsource.length_outputs]
      have hlengths := Trace.length_of_execute hall
      rw [h.interface.length_outputs, List.length_append, List.length_append, hlength,
        ← hsource.length_outputs] at hlengths
      have hgradients := (Nat.add_left_cancel hlengths).trans hsource.length_inputs.symm
      exact ⟨outs, gradients, rfl, hlength, hgradients, hexecute⟩
  failures tensors cotangents verify e htensors hcotangents herror := by
    rcases h.execute hclosed hx htensors hcotangents with ⟨e', hfail, hfail'⟩ | ⟨outs, hexecute, -⟩
    · rw [hfail', Except.error.inj (hfail.symm.trans herror)]
    · exact nomatch hexecute.symm.trans herror
  untouched hreport tensors verify htensors :=
    huntouched hreport tensors verify (hsource.inputs_eq htensors)

/-- A joint program of built-in operators runs. -/
theorem runs (h : y.GrowsFrom allowed source x) (hclosed : x.trace.Closed)
    (hx : x.trace.HasInterface source.inputTypes source.outputTypes) {ops : List (Builtin α)}
    (hops : ∀ b ∈ ops, b.operator.Fulfils b.scratch ∧ b.operator.signature.Proper)
    (hcalls : ∀ n ∈ y.trace.nodes, ∃ b ∈ ops, n.op.operator = b.operator) :
    Replaced.Runs ops source x y := by
  intro hroom tensors cotangents verify htensors hcotangents
  have hmore : (tensors ++ cotangents).map Tensor.type =
      source.inputTypes ++ source.outputTypes := by
    rw [List.map_append, htensors, hcotangents]
  have hcallsAll : y.trace.Calls ops := fun n hn => ⟨h.typed n hn, hcalls n hn⟩
  obtain ⟨all, hall, htypes⟩ := Trace.exists_execute h.closed hops hcallsAll hroom
    (h.interface.inputs_eq hmore) verify
  rcases h.execute hclosed hx htensors hcotangents with ⟨e, -, herror⟩ | ⟨outs, hexecute, hfirst⟩
  · exact nomatch hall.symm.trans herror
  · obtain ⟨gradients, rfl⟩ := hfirst all hall
    have hdeclared : (outs ++ gradients).map Tensor.type =
        source.outputTypes ++ source.inputTypes := by
      rw [h.interface.outputs] at htypes
      refine List.map_injective_iff.2 (Option.some_injective _) (Eq.trans ?_ htypes.symm)
      rw [List.map_map]
      rfl
    have hlength : (outs.map Tensor.type).length = source.outputTypes.length := by
      rw [List.length_map, Trace.length_of_execute hexecute, hx.length_outputs]
    rw [List.map_append] at hdeclared
    obtain ⟨houts, hgradients⟩ := List.append_inj hdeclared hlength
    exact ⟨outs, gradients, hexecute, hall, houts, hgradients⟩

end Replaced.GrowsFrom

end TraceSubstitution
