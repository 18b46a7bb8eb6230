import TraceSubstitution.Proofs.Gradient.Typing
import TraceSubstitution.Proofs.Trace.Affordable

/-!
# Verified runs

A verified run checks the outputs of every call against the types that its operator
infers from the operands it is given. The program is not asked, so it has to be shown
that what is inferred is what the program declares. It is, for every program that a
tracer records or a replacer returns, as long as all values so far have their declared
types; and the first value of another type ends the run. So a verified run is the plain
run, up to the first call that breaks its contract (`Trace.evalNodes_verified`), and
`Trace.verification_conservative` says what this means for whole programs.
-/

namespace TraceSubstitution

variable {α : Type}

/-- The programs that tracers record and replacers return, from whatever sources. -/
inductive Trace.Obtainable [Scalar α] : Trace α → Prop where
  | recorded {t : Trace α} : t.Recorded → Obtainable t
  | replaced {r : Replacer α} {q : Request α} {s s' : Journaled (Decisions α)} {x : Replaced α} :
    (r.answer q).apply s = (.ok x, s') → Obtainable x.trace

/-- The calls of such a program are typed. -/
theorem Trace.Obtainable.typed [Scalar α] {t : Trace α} (h : t.Obtainable) :
    ∀ n ∈ t.nodes, n.IsTyped t.symbols := by
  cases h with
  | recorded h => exact h.typed
  | @replaced r q s s' x h =>
    unfold Replacer.answer at h
    cases hgradient : q.gradient with
    | false =>
      simp only [hgradient, Bool.false_eq_true, ↓reduceIte] at h
      obtain ⟨t, outputs, ht, -, hfinish⟩ := Replacer.recorded_of_forward h
      exact Trace.Recorded.typed ⟨t, outputs, ht, hfinish⟩
    | true =>
      simp only [hgradient, ↓reduceIte] at h
      exact Replacer.callsTyped_of_joint h

/-- What is said of outputs that do not have the declared types: that their number is wrong, or else
which is the first one of another type. -/
def ContractViolation.Tells (v : ContractViolation) (op : String)
    (declared produced : List TensorType) : Prop :=
  (declared.length ≠ produced.length ∧ v = .outputArity op declared.length produced.length) ∨
    ∃ i expected actual, v = .outputType op i expected actual ∧
      declared.length = produced.length ∧ declared.take i = produced.take i ∧
      declared[i]? = some expected ∧ produced[i]? = some actual ∧ expected ≠ actual

namespace Operator

variable {o : Operator α}

theorem firstMismatch?_eq_some {first index : Nat} {declared produced : List TensorType}
    {expected actual : TensorType}
    (h : firstMismatch? first declared produced = some (index, expected, actual)) :
    ∃ i, index = first + i ∧ declared.take i = produced.take i ∧ declared[i]? = some expected ∧
      produced[i]? = some actual ∧ expected ≠ actual := by
  induction declared generalizing first produced with
  | nil => exact nomatch h
  | cons d declared ih =>
    cases produced with
    | nil => exact nomatch h
    | cons p produced =>
      unfold firstMismatch? at h
      split at h
      · next heq =>
        obtain ⟨i, rfl, htake, hexpected, hactual, hne⟩ := ih h
        refine ⟨i + 1, by omega, ?_, hexpected, hactual, hne⟩
        rw [List.take_succ_cons, List.take_succ_cons, heq, htake]
      · next hne =>
        obtain ⟨rfl, rfl, rfl⟩ : first = index ∧ d = expected ∧ p = actual := by simpa using h
        exact ⟨0, rfl, rfl, rfl, rfl, hne⟩

/-- Outputs have the declared types, or it is said in which way they do not. -/
theorem checkOutputs_cases (o : Operator α) (declared produced : List TensorType) :
    (declared = produced ∧ o.checkOutputs declared produced = .ok ()) ∨
      ∃ v : ContractViolation, v.Tells o.qualifiedName declared produced ∧
        declared ≠ produced ∧ o.checkOutputs declared produced = .error (.ofCause (.contract v)) := by
  by_cases heq : declared = produced
  · exact .inl ⟨heq, checkOutputs_eq_ok_iff.2 heq⟩
  · refine .inr ?_
    unfold checkOutputs
    split
    · next hlength => exact ⟨_, .inl ⟨hlength, rfl⟩, heq, rfl⟩
    · next hlength =>
      have hlength := Classical.not_not.1 hlength
      cases hmismatch : firstMismatch? 0 declared produced with
      | none => exact absurd ((firstMismatch?_eq_none_iff hlength).1 hmismatch) heq
      | some x =>
        obtain ⟨i, hindex, hdiffers⟩ := firstMismatch?_eq_some hmismatch
        rw [Nat.zero_add] at hindex
        rw [← hindex] at hdiffers
        exact ⟨_, .inr ⟨_, _, _, rfl, hlength, hdiffers⟩, heq, rfl⟩

/-- A verified call that runs compares the outputs with the types that are inferred. -/
theorem executeVerified_of_execute {xs : List (Option (Tensor α))} {attrs : Attrs}
    {produced : List (Tensor α)} (hrun : o.execute xs attrs = .ok produced)
    {declared : List TensorType}
    (hinfer : o.infer (xs.map (·.map Tensor.type)) attrs = .ok declared) :
    o.executeVerified xs attrs =
      (do o.checkOutputs declared (produced.map Tensor.type); return produced) := by
  unfold executeVerified
  rw [hrun, ok_bind, hinfer, ok_bind]

end Operator

/-- What was inferred for a typed call is inferred for it again, if its static arguments can be
bound again. -/
theorem Node.Typed.infer_of_bind {symbols : List TensorType} {n : Node α}
    {types : List (Option TensorType)} {outputs : List TensorType}
    (h : n.Typed symbols types outputs) (hbuilt : n.op.operator.signature.Built) {bound : Attrs}
    (hbind : n.op.operator.bind types n.attrs = .ok bound) :
    n.op.operator.infer types n.attrs = .ok outputs := by
  obtain ⟨attrs, hfirst⟩ := h.bound
  obtain rfl : bound = n.attrs := Signature.bindAttrs_rebind hbuilt
    (Operator.bind_eq_ok_iff.1 hfirst).2 (Operator.bind_eq_ok_iff.1 hbind).2
  have hinferred := h.inferred
  unfold NodeOp.inferTypes at hinferred
  cases hop : n.op with
  | highLevel o =>
    rw [hop] at hinferred
    exact hinferred
  | kernel o =>
    rw [hop] at hinferred hbind
    exact Operator.infer_eq_ok_iff.2 ⟨n.attrs, hbind, hinferred⟩

namespace Trace

/-- What the implementation of the call returns after the calls `before`, in the plain run. -/
def returned (values : SymbolMap (Tensor α)) (before : List (Node α)) (n : Node α) :
    Except Failure (List (Tensor α)) := do
  let values ← evalNodes false before values
  let operands ← n.inputs.mapM (operandOf values)
  n.op.operator.execute operands n.attrs

/-- The call returns tensors of the declared types, in number and one by one. -/
def Honours (symbols : List TensorType) (values : SymbolMap (Tensor α)) (before : List (Node α))
    (n : Node α) : Prop :=
  ∃ produced, returned values before n = .ok produced ∧
    n.outputs.map (fun id => symbols[id.index]?) = produced.map (some ·.type)

/-- The call after the calls `before` is the first one that returns tensors of other types than the
declared ones, and `v` says so. -/
structure FirstBreach (symbols : List TensorType) (values : SymbolMap (Tensor α))
    (before : List (Node α)) (n : Node α) (v : ContractViolation) : Prop where
  earlier : ∀ first m later, before = first ++ m :: later → Honours symbols values first m
  breach : ∃ declared produced, returned values before n = .ok produced ∧
    n.outputs.map (fun id => symbols[id.index]?) = declared.map some ∧
    declared ≠ produced.map Tensor.type ∧
    v.Tells n.op.operator.qualifiedName declared (produced.map Tensor.type)

section

variable {symbols : List TensorType} {values values' : SymbolMap (Tensor α)} {n : Node α}
  {nodes before : List (Node α)}

theorem returned_nil : returned values [] n =
    (n.inputs.mapM (operandOf values) >>= fun xs => n.op.operator.execute xs n.attrs) := rfl

theorem returned_cons {m : Node α} (h : evalNode false values m = .ok values') :
    returned values (m :: before) n = returned values' before n := by
  unfold returned
  rw [evalNodes_cons, h, ok_bind]

theorem honours_cons {m : Node α} (h : evalNode false values m = .ok values') :
    Honours symbols values (m :: before) n ↔ Honours symbols values' before n := by
  unfold Honours
  rw [returned_cons h]

/-- One call on values of the declared types: the verified run does what the plain run does, unless
the call breaks its contract. -/
theorem evalNode_verified (hn : n.IsTyped symbols) (hbuilt : n.op.operator.signature.Built)
    (hfits : values.Fits symbols) :
    (evalNode true values n = evalNode false values n ∧ ∀ more, evalNode false values n = .ok more →
        more.Fits symbols ∧ Honours symbols values [] n) ∨
      ∃ v, FirstBreach symbols values [] n v ∧
        evalNode true values n = .error (.ofCause (.contract v)) := by
  obtain ⟨types, outputs, hn⟩ := hn
  unfold evalNode
  cases hxs : n.inputs.mapM (operandOf values) with
  | error e => exact .inl ⟨rfl, nofun⟩
  | ok xs =>
    have htypes := hfits.operandTypes hn (operands_eq_ok_iff.1 hxs)
    unfold computeNode
    simp only [ok_bind, ↓reduceIte, Bool.false_eq_true]
    cases hrun : n.op.operator.execute xs n.attrs with
    | error e =>
      have hverified : n.op.operator.executeVerified xs n.attrs = .error e := by
        unfold Operator.executeVerified
        rw [hrun, error_bind]
      rw [hverified]
      exact .inl ⟨rfl, nofun⟩
    | ok produced =>
      have hreturned : returned values [] n = .ok produced := by
        rw [returned_nil, hxs, ok_bind, hrun]
      -- The operator has run, so its static arguments could be bound: the same types are inferred.
      obtain ⟨bound, hbind, -⟩ := bind_eq_ok_iff.1 hrun
      rw [← Operator.bind_map _ xs n.attrs Tensor.type, htypes] at hbind
      have hinfer := hn.infer_of_bind hbuilt hbind
      rw [Operator.executeVerified_of_execute hrun (htypes ▸ hinfer)]
      rcases n.op.operator.checkOutputs_cases outputs (produced.map Tensor.type) with
        ⟨hsame, hcheck⟩ | ⟨v, htells, hne, hcheck⟩
      · rw [hcheck]
        have hdeclared : n.outputs.map (fun id => symbols[id.index]?) =
            produced.map (some ·.type) := by
          rw [hn.outputTypes, hsame, List.map_map]
          rfl
        refine .inl ⟨rfl, fun more hmore => ⟨?_, produced, hreturned, hdeclared⟩⟩
        obtain ⟨ys, hlength, hys⟩ := bind_eq_ok_iff.1 hmore
        obtain ⟨-, hproduced⟩ := check_bind_eq_ok_iff.1 hlength
        obtain rfl := Except.ok.inj hproduced
        exact Except.ok.inj hys ▸ hfits.insertAll hdeclared
      · rw [hcheck]
        exact .inr ⟨v, ⟨fun first m later h => absurd h (by simp), outputs, produced, hreturned,
          hn.outputTypes, hne, htells⟩, rfl⟩

/-- The verified run does what the plain run does, up to the first call that breaks its contract. -/
theorem evalNodes_verified (hnodes : ∀ n ∈ nodes, n.IsTyped symbols)
    (hbuilt : ∀ n ∈ nodes, n.op.operator.signature.Built) (hfits : values.Fits symbols) :
    (evalNodes true nodes values = evalNodes false nodes values ∧
        ∀ more, evalNodes false nodes values = .ok more → more.Fits symbols ∧
          ∀ before n after, nodes = before ++ n :: after → Honours symbols values before n) ∨
      ∃ before n after v, nodes = before ++ n :: after ∧ FirstBreach symbols values before n v ∧
        evalNodes true nodes values = .error (.ofCause (.contract v)) := by
  induction nodes generalizing values with
  | nil =>
    refine .inl ⟨rfl, fun more hmore => ⟨Except.ok.inj hmore ▸ hfits, fun before n after h => ?_⟩⟩
    exact absurd h (by simp)
  | cons m nodes ih =>
    obtain ⟨hm, hnodes⟩ := List.forall_mem_cons.1 hnodes
    obtain ⟨hmbuilt, hbuilt⟩ := List.forall_mem_cons.1 hbuilt
    simp only [evalNodes_cons]
    rcases evalNode_verified hm hmbuilt hfits with ⟨hsame, hkeeps⟩ | ⟨v, hbreach, herror⟩
    · rw [hsame]
      cases hone : evalNode false values m with
      | error e => exact .inl ⟨rfl, nofun⟩
      | ok values₁ =>
        obtain ⟨hfits₁, hhonours⟩ := hkeeps values₁ hone
        have hfirst : ∀ before n after, m :: nodes = before ++ n :: after →
            (∀ before n after, nodes = before ++ n :: after → Honours symbols values₁ before n) →
              Honours symbols values before n := by
          intro before n after heq hrest
          cases before with
          | nil => exact (List.cons_eq_cons.1 heq).1 ▸ hhonours
          | cons m' before =>
            obtain ⟨rfl, htail⟩ := List.cons_eq_cons.1 heq
            exact (honours_cons hone).2 (hrest before n after htail)
        simp only [ok_bind]
        rcases ih hnodes hbuilt hfits₁ with ⟨hrest, hall⟩ | ⟨before, n, after, v, rfl, hbreach, herror⟩
        · refine .inl ⟨hrest, fun more hmore => ⟨(hall more hmore).1, fun before n after heq => ?_⟩⟩
          exact hfirst before n after heq (hall more hmore).2
        · refine .inr ⟨m :: before, n, after, v, rfl, ⟨fun first k later heq => ?_, ?_⟩, herror⟩
          · cases first with
            | nil => exact (List.cons_eq_cons.1 heq).1 ▸ hhonours
            | cons m' first =>
              obtain ⟨rfl, htail⟩ := List.cons_eq_cons.1 heq
              exact (honours_cons hone).2 (hbreach.earlier first k later htail)
          · rw [returned_cons hone]
            exact hbreach.breach
    · rw [herror]
      exact .inr ⟨[], m, nodes, v, rfl, hbreach, rfl⟩

end

/-- The values with which a run starts: every input has its tensor. -/
def supplied (t : Trace α) (tensors : List (Tensor α)) : SymbolMap (Tensor α) :=
  SymbolMap.empty.insertAll t.inputs tensors

section

variable {t : Trace α} {tensors : List (Tensor α)} {values : SymbolMap (Tensor α)}

/-- What a verified run of the calls `before` has computed has the declared types, and the plain run
computes the same. -/
theorem fits_of_verified (hcalls : ∀ n ∈ t.nodes, n.IsTyped t.symbols)
    (hbuilt : ∀ n ∈ t.nodes, n.op.operator.signature.Built)
    (hstart : (t.supplied tensors).Fits t.symbols) {before after : List (Node α)}
    (hnodes : t.nodes = before ++ after)
    (hrun : evalNodes true t.nodes (t.supplied tensors) = .ok values) :
    ∃ values, evalNodes true before (t.supplied tensors) = .ok values ∧
      evalNodes false before (t.supplied tensors) = .ok values ∧ values.Fits t.symbols := by
  rw [hnodes] at hrun hcalls hbuilt
  rw [evalNodes_append] at hrun
  obtain ⟨mid, hmid, -⟩ := bind_eq_ok_iff.1 hrun
  rcases evalNodes_verified (fun n hn => hcalls n (List.mem_append_left after hn))
    (fun n hn => hbuilt n (List.mem_append_left after hn)) hstart with
    ⟨hsame, hall⟩ | ⟨_, _, _, v, -, -, herror⟩
  · have hplain := hsame.symm.trans hmid
    exact ⟨mid, hmid, hplain, (hall mid hplain).1⟩
  · exact nomatch hmid.symm.trans herror

/-- The verification of contracts changes no result, and it finds out every breach.

If a verified run returns, then the plain run returns the same, everything that is computed on the
way has the type that the program declares for its symbol, and so have the outputs. If the plain run
returns, then so does the verified run, unless some call returns tensors of other types than the
declared ones; the verified run then fails with what is said of the first such call. -/
theorem verification_conservative [Scalar α] (t : Trace α) (ht : t.Obtainable)
    (hbuilt : ∀ n ∈ t.nodes, n.op.operator.signature.Built) (tensors : List (Tensor α)) :
    (∀ outs, t.execute tensors true = .ok outs →
      t.execute tensors false = .ok outs ∧ outs.map Tensor.type = t.outputTypes ∧
      (∀ before after, t.nodes = before ++ after →
        ∃ values, evalNodes true before (t.supplied tensors) = .ok values ∧
          evalNodes false before (t.supplied tensors) = .ok values ∧ values.Fits t.symbols) ∧
      ∀ before n after, t.nodes = before ++ n :: after →
        Honours t.symbols (t.supplied tensors) before n) ∧
    ∀ outs, t.execute tensors false = .ok outs →
      t.execute tensors true = .ok outs ∨
        ∃ before n after v, t.nodes = before ++ n :: after ∧
          FirstBreach t.symbols (t.supplied tensors) before n v ∧
          t.execute tensors true = .error (.ofCause (.contract v)) := by
  have hcalls := ht.typed
  have hempty : (SymbolMap.empty : SymbolMap (Tensor α)).Fits t.symbols := nofun
  refine ⟨fun outs hverified => ?_, fun outs hplain => ?_⟩
  · obtain ⟨values, hinputs, hrun, houts⟩ := execute_eq_ok_iff.1 hverified
    have hstart : (t.supplied tensors).Fits t.symbols := hempty.insertAll hinputs
    rcases evalNodes_verified hcalls hbuilt hstart with
      ⟨hsame, hall⟩ | ⟨_, _, _, v, -, -, herror⟩
    · have hrun' := hsame.symm.trans hrun
      obtain ⟨hfits, hhonours⟩ := hall values hrun'
      have htypes := SymbolMap.map_of_values hfits (outputValues_eq_ok_iff.1 houts)
      refine ⟨execute_eq_ok_iff.2 ⟨values, hinputs, hrun', houts⟩, ?_,
        fun before after hnodes => fits_of_verified hcalls hbuilt hstart hnodes hrun, hhonours⟩
      exact (filterMap_eq_of_map htypes).symm
    · exact nomatch hrun.symm.trans herror
  · obtain ⟨values, hinputs, hrun, houts⟩ := execute_eq_ok_iff.1 hplain
    have hstart : (t.supplied tensors).Fits t.symbols := hempty.insertAll hinputs
    rcases evalNodes_verified hcalls hbuilt hstart with
      ⟨hsame, -⟩ | ⟨before, n, after, v, hnodes, hbreach, herror⟩
    · exact .inl (execute_eq_ok_iff.2 ⟨values, hinputs, hsame.trans hrun, houts⟩)
    · refine .inr ⟨before, n, after, v, hnodes, hbreach, ?_⟩
      rw [execute_eq, bindInputs_eq_ok_iff.2 ⟨hinputs, rfl⟩, ok_bind]
      exact congrArg (· >>= t.outputValues) herror

end

/-- An operator that declares two numbers and returns what it is given. -/
def mislabel : Operator Float32 where
  id := ⟨0⟩
  space := "core"
  name := "mislabel"
  signature := Signature.empty.tensor "input"
  outputTypes _ := .ok [twoNumbers]
  compute args := do return [← args.tensor 0]

/-- The program that calls `mislabel` on one number. -/
def mislabelling : Trace Float32 where
  id := ⟨0⟩
  symbols := [oneNumber, twoNumbers]
  inputs := [⟨0⟩]
  nodes := [⟨.kernel mislabel, [some ⟨0⟩], .empty, [⟨1⟩]⟩]
  outputs := [⟨1⟩]

theorem recorded_mislabelling : mislabelling.Recorded := by
  have hinput : Tracer.Recorded ((Tracer.empty ⟨0⟩ : Tracer Float32).input oneNumber).2 :=
    .input oneNumber (.empty ⟨0⟩)
  have hcall : (Tracer.call (.kernel mislabel) [some ⟨⟨0⟩, ⟨0⟩, oneNumber⟩] .empty).apply
      ((Tracer.empty ⟨0⟩ : Tracer Float32).input oneNumber).2 =
        (.ok [⟨⟨0⟩, ⟨1⟩, twoNumbers⟩],
          ⟨⟨0⟩, mislabelling.symbols, mislabelling.inputs, mislabelling.nodes, none⟩) := rfl
  exact ⟨_, [⟨⟨0⟩, ⟨1⟩, twoNumbers⟩], hinput.call hcall, rfl⟩

/-- The plain run of `mislabelling` returns the number it is given; the verified run says that the
first output is not as declared. -/
theorem verified_mislabelling : mislabelling.Obtainable ∧
    (∀ n ∈ mislabelling.nodes, n.op.operator.signature.Built) ∧
    mislabelling.execute [.dense oneNumber #[0] rfl] false =
      .ok [.dense oneNumber #[0] rfl] ∧
    mislabelling.execute [.dense oneNumber #[0] rfl] true =
      .error (.ofCause (.contract (.outputType "core::mislabel" 0 twoNumbers oneNumber))) := by
  have hobtainable : mislabelling.Obtainable := .recorded recorded_mislabelling
  have hbuilt : ∀ n ∈ mislabelling.nodes, n.op.operator.signature.Built := by
    intro n hn
    rw [List.mem_singleton.1 hn]
    exact .tensor "input" .empty
  have hplain : mislabelling.execute [.dense oneNumber #[0] rfl] false =
      .ok [.dense oneNumber #[0] rfl] := rfl
  refine ⟨hobtainable, hbuilt, hplain, ?_⟩
  obtain ⟨hverified, hbreached⟩ :=
    verification_conservative mislabelling hobtainable hbuilt [.dense oneNumber #[0] rfl]
  rcases hbreached _ hplain with hok | ⟨before, n, after, v, hnodes, hbreach, herror⟩
  · obtain ⟨-, htypes, -⟩ := hverified _ hok
    exact absurd htypes (by decide)
  · cases before with
    | cons m before => exact absurd (List.cons_eq_cons.1 hnodes).2 (by simp)
    | nil =>
      obtain rfl := (List.cons_eq_cons.1 hnodes).1
      obtain ⟨declared, produced, hreturned, hdeclared, -, htells⟩ := hbreach.breach
      obtain rfl : declared = [twoNumbers] :=
        (List.map_injective_iff.2 (Option.some_injective _) hdeclared).symm
      obtain rfl : _ = produced := Except.ok.inj hreturned
      rw [herror]
      rcases htells with ⟨hlength, -⟩ | ⟨i, expected, actual, rfl, -, -, hexpected, hactual, -⟩
      · exact absurd rfl hlength
      · obtain rfl : i = 0 := by simpa using (List.getElem?_eq_some_iff.1 hexpected).1
        obtain rfl : twoNumbers = expected := Option.some.inj hexpected
        obtain rfl : oneNumber = actual := Option.some.inj hactual
        rfl

end Trace

end TraceSubstitution
