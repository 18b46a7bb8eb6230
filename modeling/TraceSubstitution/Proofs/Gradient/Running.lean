import TraceSubstitution.Proofs.Gradient.Joint
import TraceSubstitution.Proofs.Trace.Closed

/-!
# Joint programs that run

If the gradient transforms that are selected are timely, a joint program is closed,
and a run of it on tensors of the declared types fails in an operator only
(`Replacer.joint_runs`). Transforms that are late are not refused. What they lead to
are programs that do not run: with an output that is never computed, with a call
that reads a gradient in place of a result, or with one that reads what another call
has left to its fragment (`Replacer.joint_late`).
-/

namespace TraceSubstitution

namespace Replacer

variable {α : Type} [Scalar α]

/-- The joint program of timely gradient transforms is closed, and its runs fail in an operator
only. -/
theorem joint_runs (r : Replacer α) (id : TraceId) (source : Trace α)
    (s s' : Journaled (Decisions α)) (x : Replaced α)
    (hselected : r.SelectsTimely (r.decisions ⟨true, id, source⟩ s))
    (h : (r.joint id source).apply s = (.ok x, s')) :
    x.trace.Closed ∧ ∀ tensors verify e,
      x.trace.inputs.map x.trace.typeOf? = tensors.map (some ·.type) →
      x.trace.execute tensors verify = .error e →
        ∃ n ∈ x.trace.nodes, ∃ operands, Trace.computeNode verify n operands = .error e := by
  obtain ⟨p₀, p, fragments, s₁, outputs, inputs, gradients, t', grads, hstart, hnodes, houtputs,
    hinputs, hbuild, hfinish⟩ := joint_eq_ok h
  rw [jointNodes_eq] at hnodes
  unfold decisions at hselected
  rw [hstart] at hselected
  have hleave := leaveAll_of_steps (Progress.settled_start hstart) hselected hnodes
  obtain ⟨hsettled, hreturned⟩ := Backward.settled_of_build hleave
    (fun _ => hleave.settled.mem_of_symbolsFor houtputs)
    (fun _ => hleave.settled.mem_of_symbolsFor hinputs) hbuild
  obtain ⟨-, -, htrace⟩ := Tracer.finish_eq_ok_iff.1 hfinish
  have hclosed : x.trace.Closed := by
    rw [htrace]
    refine ⟨hsettled.closed, fun id hid => ?_⟩
    obtain ⟨y, hy, rfl⟩ := List.mem_map.1 hid
    exact hreturned y hy
  exact ⟨hclosed, fun tensors verify e htypes herror => hclosed.exists_of_execute_error htypes herror⟩

theorem joint_runs_doubling : ∃ s,
    ofCore.SelectsTimely (ofCore.decisions ⟨true, ⟨1⟩, doubling⟩ ofCore.start) ∧
      (ofCore.joint ⟨1⟩ doubling).apply ofCore.start =
        (.ok ⟨jointDoubling, [⟨0, "core::add", .fallback, false⟩]⟩, s) ∧
      jointDoubling.Closed ∧ ∀ tensors verify e,
        jointDoubling.inputs.map jointDoubling.typeOf? = tensors.map (some ·.type) →
        jointDoubling.execute tensors verify = .error e →
          ∃ n ∈ jointDoubling.nodes, ∃ operands,
            Trace.computeNode verify n operands = .error e := by
  obtain ⟨s, hjoint⟩ := joint_doubling
  have htimely := selectsDisciplined_doubling.timely
  exact ⟨s, htimely, hjoint, joint_runs ofCore ⟨1⟩ doubling ofCore.start s _ htimely hjoint⟩

/-- An operator that returns its operand. -/
def copying : Operator Float32 where
  id := ⟨4⟩
  space := "toy"
  name := "copying"
  signature := Signature.empty.tensor "x"
  outputTypes args := do return [← args.tensor 0]
  compute args := do return [← args.tensor 0]

/-- A replacer that has this operator, with the given gradient transform. -/
def ofCopying (T : Transform Float32) : Replacer Float32 where
  registry := { (Registry.initial : Registry Float32) with
    namespaces := [⟨coreSpace, Registry.coreVersion, Core.operators, []⟩,
      ⟨"toy", "1", [copying], []⟩]
    highLevel := Core.highLevelOperators ++ [⟨copying, some T⟩]
    nextOperator := 5 }
  options := ⟨none, 0⟩

/-- A program that calls the operator. -/
def copyingOnce : Trace Float32 where
  id := ⟨0⟩
  symbols := [oneNumber, oneNumber]
  inputs := [⟨0⟩]
  nodes := [⟨.highLevel copying, [some ⟨0⟩], .empty, [⟨1⟩]⟩]
  outputs := [⟨1⟩]

/-- A program that calls the operator on each of its two inputs. -/
def copyingBoth : Trace Float32 where
  id := ⟨0⟩
  symbols := [oneNumber, oneNumber, oneNumber, oneNumber]
  inputs := [⟨0⟩, ⟨1⟩]
  nodes := [⟨.highLevel copying, [some ⟨0⟩], .empty, [⟨2⟩]⟩,
    ⟨.highLevel copying, [some ⟨1⟩], .empty, [⟨3⟩]⟩]
  outputs := [⟨2⟩, ⟨3⟩]

/-- Returns a gradient in place of a result. -/
def returnsGradient : Transform Float32 := fun args => do
  return [← Recipe.incomingGradient (← args.tensor 0)]

/-- Asks for the gradient of a gradient. -/
def asksTwice : Transform Float32 := fun args => do
  let x ← args.tensor 0
  let _ ← Recipe.incomingGradient (← Recipe.incomingGradient x)
  return [x]

/-- Makes a call in the fragment for the first input, and reads its output for the second one. -/
def readsOther : Transform Float32 := fun args => do
  let x ← args.tensor 0
  if x.id = ⟨0⟩ then
    let _ ← Recipe.outputsOf (.kernel Core.zerosLike) [some (← Recipe.incomingGradient x)] .empty
    return [x]
  else Recipe.outputsOf (.kernel Core.zerosLike) [some ⟨x.trace, ⟨3⟩, x.type⟩] .empty

/-- With the given gradient transform the program has a joint program, which fails on tensors of the
declared types. -/
def FailsWith (T : Transform Float32) (source : Trace Float32) (e : ExecutionError) : Prop :=
  ∃ x s tensors, ((ofCopying T).joint ⟨1⟩ source).apply (ofCopying T).start = (.ok x, s) ∧
    x.trace.inputs.map x.trace.typeOf? = tensors.map (some ·.type) ∧
      x.trace.execute tensors true = .error (.ofCause (.execution e))

/-- Zeros of the type of a gradient are made before there is a gradient. -/
theorem failsWith_asksTwice : FailsWith asksTwice copyingOnce (.noValue ⟨1⟩) := by
  let x (i : Nat) : Symbol := ⟨⟨1⟩, ⟨i⟩, oneNumber⟩
  let zeros : Tensor Float32 := Tensor.zeros oneNumber
  let p₀ : Progress Float32 := ⟨⟨⟨1⟩, [oneNumber], [⟨0⟩], [], none⟩, ⟨[(⟨0⟩, x 0)]⟩, []⟩
  let p₁ : Progress Float32 :=
    ⟨⟨⟨1⟩, [oneNumber, oneNumber, oneNumber], [⟨0⟩], [], none⟩, ⟨[(⟨1⟩, x 0), (⟨0⟩, x 0)]⟩,
      [⟨0, "toy::copying", .fallback, false⟩]⟩
  have hstart : Progress.start ⟨1⟩ copyingOnce = .ok p₀ := rfl
  obtain ⟨s, hnodes⟩ : ∃ s, ((ofCopying asksTwice).jointNodes p₀ 0 copyingOnce.nodes).apply
      (ofCopying asksTwice).start =
        (.ok (p₁, [⟨[(⟨1⟩, ⟨0⟩), (⟨2⟩, ⟨1⟩)], []⟩]), s) := ⟨_, rfl⟩
  unfold FailsWith joint
  simp only [Act.apply_bind, Act.apply_lift, hstart, hnodes]
  exact ⟨_, _, [zeros, zeros], rfl, rfl, rfl⟩

/-- The second call reads what the first one has left to its fragment. -/
theorem failsWith_readsOther : FailsWith readsOther copyingBoth (.noValue ⟨3⟩) := by
  let x (i : Nat) : Symbol := ⟨⟨1⟩, ⟨i⟩, oneNumber⟩
  let zeros : Tensor Float32 := Tensor.zeros oneNumber
  let p₀ : Progress Float32 :=
    ⟨⟨⟨1⟩, [oneNumber, oneNumber], [⟨0⟩, ⟨1⟩], [], none⟩, ⟨[(⟨1⟩, x 1), (⟨0⟩, x 0)]⟩, []⟩
  let n₁ : Node Float32 := ⟨.highLevel copying, [some ⟨0⟩], .empty, [⟨2⟩]⟩
  let n₂ : Node Float32 := ⟨.highLevel copying, [some ⟨1⟩], .empty, [⟨3⟩]⟩
  let p₁ : Progress Float32 :=
    ⟨⟨⟨1⟩, [oneNumber, oneNumber, oneNumber, oneNumber], [⟨0⟩, ⟨1⟩], [], none⟩,
      ⟨[(⟨2⟩, x 0), (⟨1⟩, x 1), (⟨0⟩, x 0)]⟩, [⟨0, "toy::copying", .fallback, false⟩]⟩
  have hstart : Progress.start ⟨1⟩ copyingBoth = .ok p₀ := rfl
  let p₂ : Progress Float32 :=
    ⟨⟨⟨1⟩, [oneNumber, oneNumber, oneNumber, oneNumber, oneNumber], [⟨0⟩, ⟨1⟩],
      [.zerosLike ⟨3⟩ ⟨4⟩], none⟩,
      ⟨[(⟨3⟩, x 4), (⟨2⟩, x 0), (⟨1⟩, x 1), (⟨0⟩, x 0)]⟩,
      [⟨0, "toy::copying", .fallback, false⟩, ⟨1, "toy::copying", .fallback, false⟩]⟩
  -- The states after each call are written out, so that each call is evaluated on its own.
  obtain ⟨j₁, h₁⟩ : ∃ j, ((ofCopying readsOther).jointNode p₀ 0 n₁).apply
      (ofCopying readsOther).start =
        (.ok (p₁, ⟨[(⟨2⟩, ⟨0⟩)], [.node (.zerosLike ⟨2⟩ ⟨3⟩)]⟩), ⟨.empty 0, j⟩) := ⟨_, rfl⟩
  obtain ⟨s₂, h₂⟩ : ∃ s₂, ((ofCopying readsOther).jointNode p₁ 1 n₂).apply ⟨.empty 0, j₁⟩ =
      (.ok (p₂, ⟨[], []⟩), s₂) := ⟨_, rfl⟩
  have hnodes : ((ofCopying readsOther).jointNodes p₀ 0 copyingBoth.nodes).apply
      (ofCopying readsOther).start =
        (.ok (p₂, [⟨[(⟨2⟩, ⟨0⟩)], [.node (.zerosLike ⟨2⟩ ⟨3⟩)]⟩]), s₂) := by
    change ((ofCopying readsOther).jointNodes p₀ 0 [n₁, n₂]).apply
      (ofCopying readsOther).start = _
    simp only [jointNodes, Act.apply_bind, h₁, h₂]
    rfl
  unfold FailsWith joint
  simp only [Act.apply_bind, Act.apply_lift, hstart, hnodes]
  exact ⟨_, _, [zeros, zeros, zeros, zeros], rfl, rfl, rfl⟩

/-- Transforms that are late are not refused. -/
theorem joint_late : FailsWith returnsGradient copyingOnce (.neverComputed ⟨1⟩) ∧
    FailsWith asksTwice copyingOnce (.noValue ⟨1⟩) ∧
      FailsWith readsOther copyingBoth (.noValue ⟨3⟩) := by
  let zeros : Tensor Float32 := Tensor.zeros oneNumber
  exact ⟨⟨_, _, [zeros, zeros], rfl, rfl, rfl⟩, failsWith_asksTwice, failsWith_readsOther⟩

end Replacer

end TraceSubstitution
