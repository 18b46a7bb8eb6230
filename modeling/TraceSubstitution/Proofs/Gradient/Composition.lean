import Mathlib.Algebra.Group.Nat.Defs
import TraceSubstitution.Proofs.Gradient.Joint
import TraceSubstitution.Proofs.Trace.Reading

/-!
# Gradients within one fragment

A placeholder stands for the contributions that have been made before its fragment
is replayed (`Replacer.joint_placeholders`). If the fragment itself contributes to
the gradient that it has asked for, then uses of the placeholder that come later in
the fragment miss this: a fragment composes with itself only if it waits
(`Fragment.Waits`). An operator whose gradient goes through a chain of additions
does not wait, and the gradient is lost (`Replacer.joint_inlined`).
-/

namespace TraceSubstitution

variable {α : Type} [Scalar α]

namespace Fragment

/-- No use of a placeholder comes after a contribution of the fragment to the gradient that the
placeholder stands for. -/
def Waits (f : Fragment α) : Prop :=
  ∀ before s after, f.steps = before ++ s :: after → ∀ x ∈ f.placeholders, x.1 ∈ s.reads →
    x.2 ∉ before.flatMap BackwardStep.targets

/-- Where a placeholder is used, it stands for the sum of all contributions that come before the use,
those of the fragment included. -/
def Composes (nodes : List (Node α)) (contributions : List Contribution) (f : Fragment α)
    (m : SymbolMap SymbolId) : Prop :=
  ∀ before s after, f.steps = before ++ s :: after → ∀ x ∈ f.placeholders, x.1 ∈ s.reads →
    Node.Gradient nodes (contributions ++ before.flatMap (BackwardStep.contributions m)) x.2
      (m.rename x.1)

/-- A fragment that waits composes with itself. -/
theorem Renamed.composes {nodes : List (Node α)} {contributions : List Contribution}
    {f : Fragment α} {m : SymbolMap SymbolId} (h : f.Renamed nodes contributions m)
    (hwaits : f.Waits) : f.Composes nodes contributions m := by
  intro before s after hsteps x hx hreads
  obtain ⟨g, hg, hgradient⟩ := h.placeholders x hx
  have hrename : m.rename x.1 = g := by
    rw [SymbolMap.rename, hg]
    rfl
  rw [hrename]
  refine hgradient.mono (List.Subset.refl nodes) ?_
  have htargets := map_target_contributions m ⟨f.placeholders, before⟩
  unfold Fragment.contributions targets at htargets
  rw [htargets]
  exact hwaits before s after hsteps x hx hreads

end Fragment

namespace Replacer

/-- Whatever the gradient transforms do, the placeholders of a fragment stand for the contributions
that have been made before the fragment is replayed. If the fragment waits, these are all
contributions that come before a use of the placeholder. -/
theorem joint_placeholders (r : Replacer α) (id : TraceId) (source : Trace α)
    (s s' : Journaled (Decisions α)) (x : Replaced α)
    (h : (r.joint id source).apply s = (.ok x, s')) :
    ∃ p₀ p fragments s₁ outputs inputs cotangents replayed gradients,
      Progress.start id source = .ok p₀ ∧
      (r.jointNodes p₀ 0 source.nodes).apply s = (.ok (p, fragments), s₁) ∧
      source.outputs.mapM p.symbolFor = .ok outputs ∧
      source.inputs.mapM p.symbolFor = .ok inputs ∧
      x.trace.Assembled p fragments outputs inputs cotangents replayed gradients ∧
      ∀ before y after, replayed = before ++ y :: after → y.1.Waits →
        y.1.Composes x.trace.nodes (Contribution.all outputs cotangents before) y.2 := by
  obtain ⟨p₀, p, fragments, s₁, outputs, inputs, gradients, t', grads, hstart, hnodes, houtputs,
    hinputs, hbuild, hfinish⟩ := joint_eq_ok h
  have hsteps := hnodes
  rw [jointNodes_eq] at hsteps
  obtain ⟨types, -, rfl⟩ := Progress.start_eq_ok_iff.1 hstart
  obtain ⟨hcapture, hnodup⟩ := nodup_of_steps rfl hsteps
  obtain ⟨cotangents, replayed, hassembled⟩ :=
    Backward.assembled_of_build hcapture hnodup hbuild hfinish
  exact ⟨_, p, fragments, s₁, outputs, inputs, cotangents, replayed, _, hstart, hnodes, houtputs,
    hinputs, hassembled, fun before y after heq hwaits =>
      (hassembled.renamed before y after heq).composes hwaits⟩

theorem waits_fragmentDoubling : fragmentDoubling.Waits := by
  intro before s after hsteps x hx hreads
  obtain rfl : x = (⟨2⟩, ⟨1⟩) := List.mem_singleton.1 hx
  -- All contributions are to the gradient of the input.
  intro htarget
  obtain ⟨step, hstep, htarget⟩ := List.mem_flatMap.1 htarget
  have hmem : step ∈ fragmentDoubling.steps := hsteps ▸ List.mem_append_left _ hstep
  rcases List.mem_pair.1 hmem with rfl | rfl
  · exact absurd htarget (by decide)
  · exact absurd htarget (by decide)

/-- The placeholder for the gradient of the sum in `doubling` stands for the cotangent where it is
used. -/
theorem joint_placeholders_doubling : ∃ s,
    (ofCore.joint ⟨1⟩ doubling).apply ofCore.start =
        (.ok ⟨jointDoubling, [⟨0, "core::add", .fallback, false⟩]⟩, s) ∧
      fragmentDoubling.Waits ∧ ∃ m gradients,
        jointDoubling.Assembled forwardDoubling [fragmentDoubling] [outputDoubling] [inputDoubling]
          [⟨3⟩] [(fragmentDoubling, m)] gradients ∧
        fragmentDoubling.Composes jointDoubling.nodes [⟨⟨1⟩, ⟨3⟩⟩] m ∧ m.rename ⟨2⟩ = ⟨3⟩ := by
  obtain ⟨s, hjoint⟩ := joint_doubling
  obtain ⟨p₀, p, fragments, s₁, outputs, inputs, cotangents, replayed, gradients, hstart, hnodes,
    houtputs, hinputs, hassembled, hcomposes⟩ :=
      joint_placeholders ofCore ⟨1⟩ doubling ofCore.start s _ hjoint
  obtain rfl := Except.ok.inj (start_doubling.symm.trans hstart)
  obtain ⟨s₂, hnodes'⟩ := jointNodes_doubling
  obtain ⟨rfl, rfl⟩ : forwardDoubling = p ∧ [fragmentDoubling] = fragments :=
    Prod.mk.inj (Except.ok.inj (Prod.mk.inj (hnodes'.symm.trans hnodes)).1)
  obtain rfl : [outputDoubling] = outputs := Except.ok.inj houtputs
  obtain rfl : [inputDoubling] = inputs := Except.ok.inj hinputs
  have hsupplied : [⟨0⟩, ⟨3⟩] = (⟨0⟩ : SymbolId) :: cotangents := hassembled.supplied.1
  obtain rfl := (List.cons.inj hsupplied).2
  obtain ⟨⟨f, m⟩, rfl, hf⟩ : ∃ y, replayed = [y] ∧ y.1 = fragmentDoubling := by
    simpa [List.map_eq_singleton_iff] using hassembled.order
  obtain rfl : f = fragmentDoubling := hf
  have hcomposed := hcomposes [] (fragmentDoubling, m) [] rfl waits_fragmentDoubling
  refine ⟨s, hjoint, waits_fragmentDoubling, m, gradients, hassembled, hcomposed, ?_⟩
  have hsum : Node.Sum jointDoubling.nodes [⟨3⟩] (m.rename ⟨2⟩) :=
    hcomposed [] (.accumulate ⟨0⟩ ⟨2⟩) [.accumulate ⟨0⟩ ⟨2⟩] rfl (⟨2⟩, ⟨1⟩) List.mem_cons_self
      List.mem_cons_self
  exact hsum.eq_of_singleton

/-- An operator that adds up three tensors. -/
def summing : Operator Float32 where
  id := ⟨4⟩
  space := "toy"
  name := "summing"
  signature := ((Signature.empty.tensor "x").tensor "y").tensor "z"
  outputTypes args := do return [← args.tensor 0]
  compute args := do return [← (← (← args.tensor 0).add (← args.tensor 1)).add (← args.tensor 2)]

/-- Two additions with their gradients, one after the other. -/
def inlinesAdditions : Transform Float32 := fun args => do
  let x ← args.tensor 0
  let y ← args.tensor 1
  let z ← args.tensor 2
  let part ← single (← Recipe.outputsOf (.highLevel Core.add) [some x, some y] .empty)
  let total ← single (← Recipe.outputsOf (.highLevel Core.add) [some part, some z] .empty)
  let incoming ← Recipe.incomingGradient total
  Recipe.accumulateGradient part incoming
  Recipe.accumulateGradient z incoming
  let incoming ← Recipe.incomingGradient part
  Recipe.accumulateGradient x incoming
  Recipe.accumulateGradient y incoming
  return [total]

/-- A replacer that has this operator with this gradient. -/
def ofSumming : Replacer Float32 where
  registry := { (Registry.initial : Registry Float32) with
    namespaces := [⟨coreSpace, Registry.coreVersion, Core.operators, []⟩,
      ⟨"toy", "1", [summing], []⟩]
    highLevel := Core.highLevelOperators ++ [⟨summing, some inlinesAdditions⟩]
    nextOperator := 5 }
  options := ⟨none, 0⟩

/-- The program that adds up its inputs by one call of the operator. -/
def summingOnce : Trace Float32 where
  id := ⟨0⟩
  symbols := [oneNumber, oneNumber, oneNumber, oneNumber]
  inputs := [⟨0⟩, ⟨1⟩, ⟨2⟩]
  nodes := [⟨.highLevel summing, [some ⟨0⟩, some ⟨1⟩, some ⟨2⟩], .empty, [⟨3⟩]⟩]
  outputs := [⟨3⟩]

/-- The program that adds up its inputs by two additions. -/
def addingTwice : Trace Float32 where
  id := ⟨0⟩
  symbols := [oneNumber, oneNumber, oneNumber, oneNumber, oneNumber]
  inputs := [⟨0⟩, ⟨1⟩, ⟨2⟩]
  nodes := [⟨.highLevel Core.add, [some ⟨0⟩, some ⟨1⟩], .empty, [⟨3⟩]⟩,
    ⟨.highLevel Core.add, [some ⟨3⟩, some ⟨2⟩], .empty, [⟨4⟩]⟩]
  outputs := [⟨4⟩]

/-- The joint program loses the gradient of the first addition. -/
theorem read_joint_summingOnce : ∃ x s,
    (ofSumming.joint ⟨1⟩ summingOnce).apply ofSumming.start = (.ok x, s) ∧
      x.trace.read? ([1, 2, 4, 8] : List Nat) = some [7, 0, 0, 8] := by
  let x (i : Nat) : Symbol := ⟨⟨1⟩, ⟨i⟩, oneNumber⟩
  let p₀ : Progress Float32 :=
    ⟨⟨⟨1⟩, [oneNumber, oneNumber, oneNumber], [⟨0⟩, ⟨1⟩, ⟨2⟩], [], none⟩,
      ⟨[(⟨2⟩, x 2), (⟨1⟩, x 1), (⟨0⟩, x 0)]⟩, []⟩
  let p₁ : Progress Float32 :=
    ⟨⟨⟨1⟩, List.replicate 7 oneNumber, [⟨0⟩, ⟨1⟩, ⟨2⟩],
      [⟨.highLevel Core.add, [some ⟨0⟩, some ⟨1⟩], .empty, [⟨3⟩]⟩,
        ⟨.highLevel Core.add, [some ⟨3⟩, some ⟨2⟩], .empty, [⟨4⟩]⟩], none⟩,
      ⟨[(⟨3⟩, x 4), (⟨2⟩, x 2), (⟨1⟩, x 1), (⟨0⟩, x 0)]⟩,
      [⟨0, "toy::summing", .fallback, false⟩]⟩
  have hstart : Progress.start ⟨1⟩ summingOnce = .ok p₀ := rfl
  obtain ⟨s, hnodes⟩ : ∃ s, (ofSumming.jointNodes p₀ 0 summingOnce.nodes).apply ofSumming.start =
      (.ok (p₁, [⟨[(⟨5⟩, ⟨4⟩), (⟨6⟩, ⟨3⟩)], [.accumulate ⟨3⟩ ⟨5⟩, .accumulate ⟨2⟩ ⟨5⟩,
        .accumulate ⟨0⟩ ⟨6⟩, .accumulate ⟨1⟩ ⟨6⟩]⟩]), s) := ⟨_, rfl⟩
  unfold joint
  simp only [Act.apply_bind, Act.apply_lift, hstart, hnodes]
  exact ⟨_, _, rfl, rfl⟩

/-- With the additions as calls of their own no gradient is lost. -/
theorem read_joint_addingTwice : ∃ x s,
    (ofCore.joint ⟨1⟩ addingTwice).apply ofCore.start = (.ok x, s) ∧
      x.trace.read? ([1, 2, 4, 8] : List Nat) = some [7, 8, 8, 8] := by
  let x (i : Nat) : Symbol := ⟨⟨1⟩, ⟨i⟩, oneNumber⟩
  let n₁ : Node Float32 := ⟨.highLevel Core.add, [some ⟨0⟩, some ⟨1⟩], .empty, [⟨3⟩]⟩
  let n₂ : Node Float32 := ⟨.highLevel Core.add, [some ⟨3⟩, some ⟨2⟩], .empty, [⟨4⟩]⟩
  let p₀ : Progress Float32 :=
    ⟨⟨⟨1⟩, [oneNumber, oneNumber, oneNumber], [⟨0⟩, ⟨1⟩, ⟨2⟩], [], none⟩,
      ⟨[(⟨2⟩, x 2), (⟨1⟩, x 1), (⟨0⟩, x 0)]⟩, []⟩
  let p₁ : Progress Float32 :=
    ⟨⟨⟨1⟩, List.replicate 5 oneNumber, [⟨0⟩, ⟨1⟩, ⟨2⟩], [n₁], none⟩,
      ⟨[(⟨3⟩, x 3), (⟨2⟩, x 2), (⟨1⟩, x 1), (⟨0⟩, x 0)]⟩, [⟨0, "core::add", .fallback, false⟩]⟩
  let p₂ : Progress Float32 :=
    ⟨⟨⟨1⟩, List.replicate 7 oneNumber, [⟨0⟩, ⟨1⟩, ⟨2⟩],
      [n₁, ⟨.highLevel Core.add, [some ⟨3⟩, some ⟨2⟩], .empty, [⟨5⟩]⟩], none⟩,
      ⟨[(⟨4⟩, x 5), (⟨3⟩, x 3), (⟨2⟩, x 2), (⟨1⟩, x 1), (⟨0⟩, x 0)]⟩,
      [⟨0, "core::add", .fallback, false⟩, ⟨1, "core::add", .fallback, false⟩]⟩
  have hstart : Progress.start ⟨1⟩ addingTwice = .ok p₀ := rfl
  -- The states after each call are written out, so that each call is evaluated on its own.
  obtain ⟨j₁, h₁⟩ : ∃ j, (ofCore.jointNode p₀ 0 n₁).apply ofCore.start =
      (.ok (p₁, ⟨[(⟨4⟩, ⟨3⟩)], [.accumulate ⟨0⟩ ⟨4⟩, .accumulate ⟨1⟩ ⟨4⟩]⟩), ⟨.empty 0, j⟩) :=
    ⟨_, rfl⟩
  obtain ⟨s₂, h₂⟩ : ∃ s₂, (ofCore.jointNode p₁ 1 n₂).apply ⟨.empty 0, j₁⟩ =
      (.ok (p₂, ⟨[(⟨6⟩, ⟨5⟩)], [.accumulate ⟨3⟩ ⟨6⟩, .accumulate ⟨2⟩ ⟨6⟩]⟩), s₂) := ⟨_, rfl⟩
  have hnodes : (ofCore.jointNodes p₀ 0 addingTwice.nodes).apply ofCore.start =
      (.ok (p₂, [⟨[(⟨4⟩, ⟨3⟩)], [.accumulate ⟨0⟩ ⟨4⟩, .accumulate ⟨1⟩ ⟨4⟩]⟩,
        ⟨[(⟨6⟩, ⟨5⟩)], [.accumulate ⟨3⟩ ⟨6⟩, .accumulate ⟨2⟩ ⟨6⟩]⟩]), s₂) := by
    change (ofCore.jointNodes p₀ 0 [n₁, n₂]).apply ofCore.start = _
    simp only [jointNodes, Act.apply_bind, h₁, h₂]
    rfl
  unfold joint
  simp only [Act.apply_bind, Act.apply_lift, hstart, hnodes]
  exact ⟨_, _, rfl, rfl⟩

/-- Additions that are inlined do not have the gradients that they have as calls of their own. -/
theorem joint_inlined : ∃ x s y s',
    (ofSumming.joint ⟨1⟩ summingOnce).apply ofSumming.start = (.ok x, s) ∧
      (ofCore.joint ⟨1⟩ addingTwice).apply ofCore.start = (.ok y, s') ∧
        x.trace.read? ([1, 2, 4, 8] : List Nat) = some [7, 0, 0, 8] ∧
          y.trace.read? ([1, 2, 4, 8] : List Nat) = some [7, 8, 8, 8] := by
  obtain ⟨x, s, hx, hread⟩ := read_joint_summingOnce
  obtain ⟨y, s', hy, hread'⟩ := read_joint_addingTwice
  exact ⟨x, s, y, s', hx, hy, hread, hread'⟩

end Replacer

end TraceSubstitution
