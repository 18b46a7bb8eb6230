import TraceSubstitution.Proofs.Registry.Selection

/-!
# What an override reaches

A policy is set under a text, and a text is compared with the qualified names of operators
and, if there is no policy under that, with their bare names. So a policy under the
qualified name of one operator reaches another one exactly if the other one has that
qualified name as well, or has it for its bare name (`Overrides.Reaches`).

Names are not restricted, so both can be. The namespace and the name can be told from a
qualified name if the name has no colons in the wrong places (`Operator.ClearName`), and then
the policy is that of one operator alone (`Registry.insert_override`).
-/

namespace TraceSubstitution

variable {α : Type}

namespace Operator

/-- A separator is nowhere in the name, not even if a colon stands in front of it. -/
def ClearName (o : Operator α) : Prop := ¬[':', ':'] <:+: ':' :: o.name.toList

theorem toList_qualifiedName (o : Operator α) :
    o.qualifiedName.toList = o.space.toList ++ ':' :: ':' :: o.name.toList := by
  simp [qualifiedName]

/-- In front of a clear name there is only one place for a separator that does not lie further
to the left. -/
theorem eq_nil_of_clear {cs name name' : List Char} (hclear : ¬[':', ':'] <:+: ':' :: name)
    (h : ':' :: ':' :: name = cs ++ ':' :: ':' :: name') : cs = [] := by
  match cs, h with
  | [], _ => rfl
  | [c], h =>
    obtain ⟨-, h⟩ := List.cons_eq_cons.1 h
    exact absurd ⟨[], name', h.symm⟩ hclear
  | c :: d :: cs, h =>
    obtain ⟨-, h⟩ := List.cons_eq_cons.1 h
    obtain ⟨-, rfl⟩ := List.cons_eq_cons.1 h
    exact absurd ⟨':' :: cs, name', by simp⟩ hclear

variable {a b : Operator α}

/-- The namespace and the name can be told from a qualified name. -/
theorem eq_of_qualifiedName_eq (ha : a.ClearName) (hb : b.ClearName)
    (h : a.qualifiedName = b.qualifiedName) : a.space = b.space ∧ a.name = b.name := by
  have hlists : a.space.toList ++ ':' :: ':' :: a.name.toList =
      b.space.toList ++ ':' :: ':' :: b.name.toList := by
    rw [← toList_qualifiedName, ← toList_qualifiedName, h]
  rcases List.append_eq_append_iff.1 hlists with ⟨cs, hspace, hrest⟩ | ⟨cs, hspace, hrest⟩
  · obtain rfl := eq_nil_of_clear ha hrest
    simp_all [String.toList_inj]
  · obtain rfl := eq_nil_of_clear hb hrest
    simp_all [String.toList_inj]

/-- A qualified name is not a clear name. -/
theorem qualifiedName_ne_name (hb : b.ClearName) : a.qualifiedName ≠ b.name := by
  intro h
  refine hb ⟨':' :: a.space.toList, a.name.toList, ?_⟩
  rw [← h, toList_qualifiedName]
  simp

end Operator

/-- A policy that is set under the key is that of the operator. -/
def Overrides.Reaches (o : Overrides) (key : String) (b : Operator α) : Prop :=
  key = b.qualifiedName ∨ key = b.name ∧ o.get? b.qualifiedName = none

namespace Overrides

variable {o : Overrides} {key : String} {b : Operator α}

theorem Reaches.policyFor_insert (h : o.Reaches key b) (p : Policy) :
    policyFor (o.insert key p) b.qualifiedName b.name = p := by
  unfold policyFor
  rw [Dict.get?_insert, Dict.get?_insert]
  rcases h with rfl | ⟨rfl, hnone⟩
  · simp
  · by_cases hname : b.qualifiedName = b.name <;> simp [hname, hnone]

theorem policyFor_insert_of_not_reaches (h : ¬o.Reaches key b) (p : Policy) :
    policyFor (o.insert key p) b.qualifiedName b.name = policyFor o b.qualifiedName b.name := by
  obtain ⟨hqualified, hname⟩ := not_or.1 h
  unfold policyFor
  rw [Dict.get?_insert, if_neg (Ne.symm hqualified), Dict.get?_insert]
  by_cases hkey : b.name = key
  · obtain ⟨q, hq⟩ := Option.ne_none_iff_exists'.1 fun hnone => hname ⟨hkey.symm, hnone⟩
    simp [hq]
  · rw [if_neg hkey]

end Overrides

namespace Registry

/-- All operators, namespace by namespace. -/
def operators (r : Registry α) : List (Operator α) := r.namespaces.flatMap (·.operators)

/-- No two operators have both the namespace and the name in common. -/
theorem Sound.eq_of_names {r : Registry α} (hr : r.Sound) {a b : Operator α} (ha : a ∈ r.operators)
    (hb : b ∈ r.operators) (hspace : a.space = b.space) (hname : a.name = b.name) : a = b := by
  obtain ⟨ns, hns, ha⟩ := List.mem_flatMap.1 ha
  obtain ⟨ns', hns', hb⟩ := List.mem_flatMap.1 hb
  have hsame : ns.name = ns'.name := by
    rw [← (hr.namespaces ns hns).owned a ha, ← (hr.namespaces ns' hns').owned b hb, hspace]
  obtain rfl := List.inj_on_of_nodup_map hr.distinct hns hns' hsame
  exact List.inj_on_of_nodup_map (hr.namespaces ns hns).distinct ha hb hname

/-- The registry with these policies in force. -/
def withOverrides (r : Registry α) (o : Overrides) : Registry α := { r with overrides := o }

variable {r : Registry α} {o o' : Overrides} {b : Operator α}

/-- What there is to try for an operator depends on the overrides through its policy only. -/
theorem candidateRules_of_policy (h : (r.withOverrides o').policy b = (r.withOverrides o).policy b)
    (executors : Option (List String)) (gradient : Bool) :
    (r.withOverrides o').candidateRules b executors gradient =
      (r.withOverrides o).candidateRules b executors gradient := by
  unfold candidateRules
  rw [h]
  rfl

end Registry

namespace Replacer

variable {r : Registry α} {o o' : Overrides} {b : Operator α} {args : Operands Symbol}

/-- A call is dispatched in the same way under the same policy, if what is remembered is right:
the decisions about other operators may have changed what is remembered. -/
theorem apply_dispatch_of_policy
    (h : (r.withOverrides o').policy b = (r.withOverrides o).policy b) (options : ReplacerOptions)
    {ops : Set (Operator α)} (hb : b ∈ ops) {s s' : Journaled (Decisions α)}
    (hs : s.state.Right ⟨r.withOverrides o, options⟩ ops)
    (hs' : s'.state.Right ⟨r.withOverrides o', options⟩ ops) (hargs : args.op = b.qualifiedName)
    (index : Nat) (gradient : Bool) :
    (((⟨r.withOverrides o', options⟩ : Replacer α).dispatch index b args gradient).apply s').1.map
        (·.2) =
      (((⟨r.withOverrides o, options⟩ : Replacer α).dispatch index b args gradient).apply s).1.map
        (·.2) := by
  have hchosen : chosenRule ⟨r.withOverrides o', options⟩ b args gradient =
      chosenRule ⟨r.withOverrides o, options⟩ b args gradient := by
    unfold chosenRule
    rw [Registry.candidateRules_of_policy h]
  obtain ⟨journal, hdispatch⟩ := apply_dispatch hs hb hargs index gradient
  obtain ⟨journal', hdispatch'⟩ := apply_dispatch hs' hb hargs index gradient
  rw [hdispatch, hdispatch', hchosen]
  cases chosenRule ⟨r.withOverrides o, options⟩ b args gradient <;> rfl

end Replacer

namespace Registry

/-- A policy under the qualified name of an operator of a registry at any time: it reaches no
other operator if both names are clear; what it does not reach has the same candidates as before
in both modes, and its calls are dispatched as before; and what it reaches has this policy. -/
theorem insert_override [Scalar α] (journal : Journal) (registrations : List (Registration α))
    (o : Overrides) (p : Policy) :
    let r := (Registration.run ⟨.initial, journal⟩ registrations).state
    ∀ a ∈ r.operators, ∀ b ∈ r.operators, a ≠ b →
      let before := r.withOverrides o
      let after := r.withOverrides (o.insert a.qualifiedName p)
      (a.ClearName → b.ClearName → ¬o.Reaches a.qualifiedName b) ∧
      (¬o.Reaches a.qualifiedName b →
        (∀ executors gradient,
          after.candidateRules b executors gradient = before.candidateRules b executors gradient) ∧
        ∀ options (ops : Set (Operator α)), b ∈ ops → ∀ s s' : Journaled (Decisions α),
          s.state.Right ⟨before, options⟩ ops → s'.state.Right ⟨after, options⟩ ops →
            ∀ index (args : Operands Symbol) gradient, args.op = b.qualifiedName →
              ((Replacer.dispatch ⟨after, options⟩ index b args gradient).apply s').1.map (·.2) =
                ((Replacer.dispatch ⟨before, options⟩ index b args gradient).apply s).1.map
                  (·.2)) ∧
      (o.Reaches a.qualifiedName b → after.policy b = p) := by
  intro r a ha b hb hne before after
  have hr : r.Sound := (Registration.advances_run ⟨.initial, journal⟩ registrations sound_initial).1
  refine ⟨fun hclear hclear' hreaches => ?_, fun hreaches => ?_, fun hreaches => ?_⟩
  · rcases hreaches with hqualified | ⟨hname, -⟩
    · obtain ⟨hspace, hname⟩ := Operator.eq_of_qualifiedName_eq hclear hclear' hqualified
      exact hne (hr.eq_of_names ha hb hspace hname)
    · exact Operator.qualifiedName_ne_name hclear' hname
  · have hpolicy : after.policy b = before.policy b :=
      Overrides.policyFor_insert_of_not_reaches hreaches p
    refine ⟨candidateRules_of_policy hpolicy, ?_⟩
    intro options ops hmem s s' hs hs' index args gradient hargs
    exact Replacer.apply_dispatch_of_policy hpolicy options hmem hs hs' hargs index gradient
  · exact hreaches.policyFor_insert p

/-- An operator that returns its operand. -/
def identityOp (number : Nat) (space name : String) : Operator Float32 where
  id := ⟨number⟩
  space := space
  name := name
  signature := Signature.empty.tensor "x"
  outputTypes args := do return [← args.tensor 0]
  compute args := do return [← args.tensor 0]

/-- Registers such an operator. -/
def ofIdentity (space name : String) : Registration Float32 :=
  .ofOperator space name (identityOp 0 space name).signature (identityOp 0 space name).outputTypes
    (identityOp 0 space name).compute

/-- Three operators with one text for their qualified names and bare names, and rules for two of
them. -/
def sameText : List (Registration Float32) :=
  [.ofNamespace "a" "1", ofIdentity "a" "b::c", .ofNamespace "a::b" "1", ofIdentity "a::b" "c",
    .ofNamespace "x" "1", ofIdentity "x" "a::b::c",
    .ofRule "a::b" { offerOf 0 false with target := identityOp 5 "a::b" "c" },
    .ofRule "x" { offerOf 0 false with target := identityOp 6 "x" "a::b::c" }]

theorem operators_sameText : (Registration.run ⟨.initial, []⟩ sameText).state.operators =
    Core.operators ++
      [identityOp 4 "a" "b::c", identityOp 5 "a::b" "c", identityOp 6 "x" "a::b::c"] := by rfl

/-- A policy under the qualified name of an operator can take the candidates from others. -/
theorem override_reaches_sameText :
    let r := (Registration.run ⟨.initial, []⟩ sameText).state
    let a := identityOp 4 "a" "b::c"
    a ∈ r.operators ∧
    ∀ b ∈ [identityOp 5 "a::b" "c", identityOp 6 "x" "a::b::c"], b ∈ r.operators ∧ a ≠ b ∧
      (r.withOverrides .empty).candidateRules b none false ≠ [] ∧
      (r.withOverrides (Dict.insert .empty a.qualifiedName .fallback)).candidateRules b none false =
        [] := by
  intro r a
  refine ⟨by simp [r, a, operators_sameText], fun b hb => ⟨?_, ?_, ?_, ?_⟩⟩
  · rw [operators_sameText]
    exact List.mem_append_right _ (List.mem_cons_of_mem a hb)
  · rintro rfl
    simp [a, identityOp] at hb
  · rcases List.mem_pair.1 hb with rfl | rfl
    · exact List.cons_ne_nil _ _
    · exact List.cons_ne_nil _ _
  · rcases List.mem_pair.1 hb with rfl | rfl <;> rfl

/-- The last operator has a policy of its own and keeps its candidate, also when its calls are
dispatched; the second one comes under the policy of the first one; and the policy of `core::add`
is not that of `core::zeros_like`. -/
theorem insert_override_sameText :
    let r := (Registration.run ⟨.initial, []⟩ sameText).state
    let o : Overrides := Dict.insert .empty "x::a::b::c" .default
    let a := identityOp 4 "a" "b::c"
    let b := identityOp 6 "x" "a::b::c"
    let after := r.withOverrides (o.insert a.qualifiedName .fallback)
    (after.candidateRules b none false).map (·.executor) = ["x"] ∧
    (((Replacer.dispatch ⟨after, .standard⟩ 0 b ⟨b.qualifiedName, [], .empty⟩ false).apply
      (Replacer.start ⟨after, .standard⟩)).1.map (·.2)).map (·.map (·.executor)) =
        .ok (some "x") ∧
    after.policy (identityOp 5 "a::b" "c") = .fallback ∧
    ¬o.Reaches (Core.add : Operator Float32).qualifiedName (Core.zerosLike : Operator Float32) := by
  intro r o a b after
  have hmem : ∀ x, x ∈ Core.operators ++ [a, identityOp 5 "a::b" "c", b] → x ∈ r.operators :=
    fun x hx => by rwa [operators_sameText]
  have ha : a ∈ r.operators := hmem a (by simp)
  have hown : ¬o.Reaches a.qualifiedName b := by
    rintro (h | ⟨-, h⟩)
    · exact absurd h (by decide)
    · exact nomatch h
  obtain ⟨-, hframe, -⟩ := insert_override [] sameText o .fallback a ha b (hmem b (by simp))
    (by simp [a, b, identityOp])
  obtain ⟨hcandidates, hdispatch⟩ := hframe hown
  obtain ⟨-, -, hreached⟩ := insert_override [] sameText o .fallback a ha
    (identityOp 5 "a::b" "c") (hmem _ (by simp)) (by simp [a, identityOp])
  have hadd : Core.add ∈ r.operators := hmem _ (List.mem_append_left _ List.mem_cons_self)
  have hzeros : Core.zerosLike ∈ r.operators :=
    hmem _ (List.mem_append_left _ (List.mem_cons_of_mem _ List.mem_cons_self))
  have hne : (Core.add : Operator Float32) ≠ Core.zerosLike := fun h =>
    absurd (congrArg Operator.name h) (by decide : "add" ≠ "zeros_like")
  obtain ⟨hclear, -, -⟩ := insert_override [] sameText o .fallback Core.add hadd Core.zerosLike
    hzeros hne
  have haddClear : (Core.add : Operator Float32).ClearName := by
    simp [Operator.ClearName, Core.add, List.infix_cons_iff]
  have hzerosClear : (Core.zerosLike : Operator Float32).ClearName := by
    simp [Operator.ClearName, Core.zerosLike, List.infix_cons_iff]
  refine ⟨?_, ?_, hreached (.inl rfl), hclear haddClear hzerosClear⟩
  · rw [hcandidates none false]
    rfl
  · have hright : ∀ replacer : Replacer Float32, replacer.start.state.Right replacer Set.univ :=
      fun replacer => Decisions.right_empty _
    rw [hdispatch .standard Set.univ trivial _ _ (hright _) (hright _) 0
      ⟨b.qualifiedName, [], .empty⟩ false rfl]
    rfl

end Registry

end TraceSubstitution
