import Mathlib.Data.List.Basic
import Mathlib.Data.Set.Function
import TraceSubstitution.Proofs.Action
import TraceSubstitution.Replacement.Dispatch

/-!
# Remembered decisions are right

A decision is remembered under a key, and calls of one key are the same to a
checker that looks at the name of the operator, the types of the operands and the
static arguments only. So every decision that is remembered is the one that would
be made anew (`Decisions.Right`), whatever has been dropped from memory, and
`Replacer.dispatch` decides as `Replacer.chosenRule` does.
-/

namespace TraceSubstitution

/-- The checker looks at the name of the operator, the types of the operands and the static
arguments only. -/
def Checker.TypeDirected (c : Checker) : Prop :=
  ∀ args args' : Operands Symbol, args.op = args'.op →
    args.tensors.map (·.map Symbol.type) = args'.tensors.map (·.map Symbol.type) →
      args.attrs = args'.attrs → c args = c args'

/-- Numbers with the same bits are the same. -/
theorem eq_of_toBits_eq {x y : Float} (h : x.toBits = y.toBits) : x = y := by
  obtain ⟨⟨bits, valid⟩⟩ := x
  obtain ⟨⟨bits', valid'⟩⟩ := y
  obtain rfl : bits = bits' := h
  rfl

theorem AttrKey.ofValue_injective : ∀ {v w : AttrValue}, ofValue v = ofValue w → v = w
  | .bool _, .bool _, h => congrArg AttrValue.bool (AttrKey.bool.inj h)
  | .int _, .int _, h => congrArg AttrValue.int (AttrKey.int.inj h)
  | .float _, .float _, h => congrArg AttrValue.float (eq_of_toBits_eq (AttrKey.float.inj h))
  | .unset, .unset, _ => rfl

/-- Calls of one key have the same types of operands and the same static arguments. -/
theorem DispatchKey.eq_of_ofCall_eq {op op' : OperatorId} {gradient gradient' : Bool}
    {args args' : Operands Symbol} (h : ofCall op gradient args = ofCall op' gradient' args') :
    op = op' ∧ gradient = gradient' ∧
      args.tensors.map (·.map Symbol.type) = args'.tensors.map (·.map Symbol.type) ∧
        args.attrs = args'.attrs := by
  obtain ⟨hop, hgradient, htypes, hattrs⟩ := DispatchKey.mk.inj h
  refine ⟨hop, hgradient, htypes, ?_⟩
  have hinj : ∀ e e' : String × AttrValue,
      (e.1, AttrKey.ofValue e.2) = (e'.1, AttrKey.ofValue e'.2) → e = e' := by
    intro e e' heq
    obtain ⟨hname, hv⟩ := Prod.mk.inj heq
    exact Prod.ext hname (AttrKey.ofValue_injective hv)
  have hentries : args.attrs.entries = args'.attrs.entries :=
    (List.map_inj_right fun e e' heq => hinj e e' heq).1 hattrs
  obtain ⟨op, tensors, entries, sorted⟩ := args
  obtain ⟨op', tensors', entries', sorted'⟩ := args'
  simp only at hentries
  subst hentries
  rfl

namespace Registry

variable {α : Type} {r : Registry α}

/-- All rules, namespace by namespace. -/
def rules (r : Registry α) : List (Rule α) := r.namespaces.flatMap (·.rules)

theorem mem_of_mem_rulesFor {target : Operator α} {asked : String → Bool} {gradient : Bool}
    {c : Candidate α} (h : c ∈ r.rulesFor target asked gradient) :
    c.rule ∈ r.rules ∧ applies target gradient c.rule = true := by
  obtain ⟨⟨ns, place⟩, hns, hc⟩ := List.mem_flatMap.1 h
  obtain ⟨rule, hrule, rfl⟩ := List.mem_map.1 hc
  obtain ⟨hmem, happlies⟩ := List.mem_filter.1 hrule
  have hnamespace := List.fst_mem_of_mem_zipIdx (List.mem_filter.1 hns).1
  exact ⟨List.mem_flatMap.2 ⟨ns, hnamespace, hmem⟩, happlies⟩

/-- Candidates are rules for the operator. -/
theorem mem_of_mem_candidateRules {target : Operator α} {executors : Option (List String)}
    {gradient : Bool} {rule : Rule α} (h : rule ∈ r.candidateRules target executors gradient) :
    rule ∈ r.rules ∧ applies target gradient rule = true := by
  have htried : ∀ {asked : String → Bool},
      rule ∈ (Candidate.ordered (r.rulesFor target asked gradient)).map (·.rule) →
        rule ∈ r.rules ∧ applies target gradient rule = true := by
    intro asked hmem
    obtain ⟨c, hc, rfl⟩ := List.mem_map.1 hmem
    exact mem_of_mem_rulesFor (Candidate.mem_ordered.1 hc)
  unfold candidateRules at h
  split at h
  · exact nomatch h
  · split at h
    · exact nomatch h
    · exact htried h
  · exact htried h

/-- If all rules have gradient transforms, the candidates are the same in both modes. -/
theorem candidateRules_of_gradient (h : ∀ rule ∈ r.rules, rule.gradient.isSome = true)
    (target : Operator α) (executors : Option (List String)) (gradient : Bool) :
    r.candidateRules target executors gradient = r.candidateRules target executors false := by
  have hrulesFor : ∀ asked, r.rulesFor target asked gradient = r.rulesFor target asked false := by
    intro asked
    unfold rulesFor
    refine List.flatMap_congr fun x hx => ?_
    have hns : x.1 ∈ r.namespaces := List.fst_mem_of_mem_zipIdx (List.mem_filter.1 hx).1
    refine congrArg (List.map (Candidate.mk x.2)) (List.filter_congr fun rule hrule => ?_)
    unfold applies
    rw [h rule (List.mem_flatMap.2 ⟨x.1, hns, hrule⟩), Bool.or_true, Bool.or_true]
  unfold candidateRules
  simp only [hrulesFor]

end Registry

namespace Replacer

variable {α : Type} {r : Replacer α} {rules : List (Rule α)} {args args' : Operands Symbol}

theorem firstAdmitting_cons (rule : Rule α) (rules : List (Rule α)) (args : Operands Symbol) :
    firstAdmitting args (rule :: rules) = match rule.admits args with
      | .ok true => .ok (some rule)
      | .ok false => firstAdmitting args rules
      | .error p => .error p := by
  rw [firstAdmitting]
  rcases rule.admits args with p | _ | _ <;> rfl

theorem firstAdmitting_congr (h : ∀ rule ∈ rules, rule.admits args = rule.admits args') :
    firstAdmitting args rules = firstAdmitting args' rules := by
  induction rules with
  | nil => rfl
  | cons rule rules ih =>
    rw [firstAdmitting_cons, firstAdmitting_cons, h rule List.mem_cons_self,
      ih fun x hx => h x (List.mem_cons_of_mem rule hx)]

/-- No rule is found exactly when all of them refuse. -/
theorem firstAdmitting_eq_none_iff :
    firstAdmitting args rules = .ok none ↔ ∀ rule ∈ rules, rule.admits args = .ok false := by
  induction rules with
  | nil => simp [firstAdmitting]
  | cons rule rules ih =>
    rw [firstAdmitting_cons, List.forall_mem_cons]
    rcases rule.admits args with p | _ | _
    · simp
    · simp [ih]
    · simp

/-- The rule that is found is the first one that admits the call; those before it refuse. -/
theorem firstAdmitting_eq_some_iff {rule : Rule α} :
    firstAdmitting args rules = .ok (some rule) ↔ ∃ earlier later,
      rules = earlier ++ rule :: later ∧ rule.admits args = .ok true ∧
        ∀ x ∈ earlier, x.admits args = .ok false := by
  constructor
  · intro h
    induction rules with
    | nil => exact nomatch h
    | cons first rules ih =>
      rw [firstAdmitting_cons] at h
      cases hfirst : first.admits args with
      | error p =>
        rw [hfirst] at h
        exact nomatch h
      | ok admitted =>
        cases admitted with
        | true =>
          rw [hfirst] at h
          obtain rfl : first = rule := Option.some.inj (Except.ok.inj h)
          exact ⟨[], rules, rfl, hfirst, nofun⟩
        | false =>
          rw [hfirst] at h
          obtain ⟨earlier, later, rfl, hrule, hearlier⟩ := ih h
          refine ⟨first :: earlier, later, rfl, hrule, ?_⟩
          exact List.forall_mem_cons.2 ⟨hfirst, hearlier⟩
  · rintro ⟨earlier, later, rfl, hrule, hearlier⟩
    induction earlier with
    | nil => rw [List.nil_append, firstAdmitting_cons, hrule]
    | cons first earlier ih =>
      obtain ⟨hfirst, hrest⟩ := List.forall_mem_cons.1 hearlier
      rw [List.cons_append, firstAdmitting_cons, hfirst]
      exact ih hrest

/-- All checkers look at names, types and static arguments only. -/
def TypeDirected (r : Replacer α) : Prop := ∀ rule ∈ r.registry.rules, rule.admits.TypeDirected

theorem chosenRule_congr (hr : r.TypeDirected) {o : Operator α} {gradient : Bool}
    (hop : args.op = args'.op)
    (htypes : args.tensors.map (·.map Symbol.type) = args'.tensors.map (·.map Symbol.type))
    (hattrs : args.attrs = args'.attrs) :
    r.chosenRule o args gradient = r.chosenRule o args' gradient := by
  apply firstAdmitting_congr
  intro rule hrule
  exact hr rule (Registry.mem_of_mem_candidateRules hrule).1 args args' hop htypes hattrs

/-- If all rules have gradient transforms, the same rule is chosen in both modes. -/
theorem chosenRule_of_gradient (h : ∀ rule ∈ r.registry.rules, rule.gradient.isSome = true)
    (o : Operator α) (args : Operands Symbol) (gradient : Bool) :
    r.chosenRule o args gradient = r.chosenRule o args false := by
  unfold chosenRule
  rw [Registry.candidateRules_of_gradient h]

end Replacer

namespace Decisions

variable {α : Type} {r : Replacer α} {ops : Set (Operator α)} {d : Decisions α}

/-- Every decision that is remembered is the one that would be made anew. -/
def Right (r : Replacer α) (ops : Set (Operator α)) (d : Decisions α) : Prop :=
  ∀ o ∈ ops, ∀ gradient args, args.op = o.qualifiedName → ∀ rule,
    (DispatchKey.ofCall o.id gradient args, rule) ∈ d.entries →
      r.chosenRule o args gradient = .ok rule

theorem right_empty (capacity : Nat) : (empty capacity : Decisions α).Right r ops :=
  fun _ _ _ _ _ _ h => nomatch h

/-- It is right to remember what has been decided anew. -/
theorem Right.remember (h : d.Right r ops) (hr : r.TypeDirected)
    (hids : Set.InjOn Operator.id ops) {o : Operator α} (ho : o ∈ ops) {gradient : Bool}
    {args : Operands Symbol} (hargs : args.op = o.qualifiedName) {rule : Option (Rule α)}
    (hrule : r.chosenRule o args gradient = .ok rule) :
    (d.remember (.ofCall o.id gradient args) rule).Right r ops := by
  intro o' ho' gradient' args' hargs' rule' hmem
  rcases mem_remember hmem with heq | hmem
  · obtain ⟨hkey, rfl⟩ := Prod.mk.inj heq
    obtain ⟨hid, rfl, htypes, hattrs⟩ := DispatchKey.eq_of_ofCall_eq hkey
    obtain rfl := hids ho' ho hid
    rw [Replacer.chosenRule_congr hr (hargs'.trans hargs.symm) htypes hattrs, hrule]
  · exact h o' ho' gradient' args' hargs' rule' hmem

end Decisions

namespace Replacer

variable {α : Type} {r : Replacer α} {ops : Set (Operator α)}

theorem apply_note (e : Event) {σ : Type} (s : Journaled σ) :
    (Journaled.note e).apply s = (.ok (), ⟨s.state, s.journal ++ [e]⟩) := rfl

theorem apply_forM_note {σ : Type} (events : List Event) (s : Journaled σ) :
    (events.forM Journaled.note).apply s = (.ok (), ⟨s.state, s.journal ++ events⟩) := by
  induction events generalizing s with
  | nil => simp [List.forM]
  | cons e events ih =>
    change (Journaled.note e >>= fun _ => events.forM Journaled.note).apply s = _
    rw [Act.apply_bind, apply_note]
    simp only [ih, List.append_assoc, List.singleton_append]

/-- What is decided about a call does not depend on what is remembered, if that is right. -/
theorem apply_dispatch {s : Journaled (Decisions α)} (hs : s.state.Right r ops) {o : Operator α}
    (ho : o ∈ ops) {args : Operands Symbol} (hargs : args.op = o.qualifiedName) (index : Nat)
    (gradient : Bool) : ∃ journal, (r.dispatch index o args gradient).apply s =
      match r.chosenRule o args gradient with
      | .ok rule => (.ok (⟨index, o.qualifiedName, outcomeOf rule,
          (s.state.find? (.ofCall o.id gradient args)).isSome⟩, rule),
          ⟨s.state.remember (.ofCall o.id gradient args) rule, journal⟩)
      | .error p => (.error (.panic p), ⟨s.state, journal⟩) := by
  unfold dispatch
  simp only [Act.apply_bind, Journaled.current, Journaled.put, Act.apply_get, Act.apply_pure]
  cases hfind : s.state.find? (.ofCall o.id gradient args) with
  | some rule =>
    have hrule := hs o ho gradient args hargs rule (Decisions.mem_of_find? hfind)
    rw [hrule]
    exact ⟨_, rfl⟩
  | none =>
    unfold decideAnew
    simp only [Act.apply_bind, apply_forM_note, Act.apply_lift]
    cases r.chosenRule o args gradient with
    | error p => exact ⟨_, rfl⟩
    | ok rule => exact ⟨_, rfl⟩

end Replacer

end TraceSubstitution
