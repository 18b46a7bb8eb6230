import Mathlib.Data.List.Sort
import Mathlib.Data.Prod.Lex
import TraceSubstitution.Proofs.Registry.InForce
import TraceSubstitution.Proofs.Replacement.Dispatch
import TraceSubstitution.Scalar.Single

/-!
# Which rules are tried, and in which order

All rules of a registry stand in one order: by priority, then by the place of their
namespace, then by their number in it (`Registry.rank`). In a sound registry no two
rules have the same rank, so there is one list of all rules in this order
(`Registry.lineup`), whatever order they are listed in before. The candidates for the
calls of an operator are those of this list that qualify (`Rule.Qualifies`), which
depends on the rule, the policy in force and the caller, and not on other rules
(`Registry.Sound.candidateRules_eq`). The policy is the one that the overrides set last
give the operator (`Overrides.Gives`).

So what is true of the list is true of the candidates: they are in strict order, fewer
of them qualify where gradients are needed, and a new rule is inserted among them
without moving others (`Registry.Sound.lineup_addRule`).
-/

namespace TraceSubstitution

variable {α : Type}

/-- Skipping elements of a list leaves out what they contribute. -/
theorem flatMap_filter {β γ : Type} (p : β → Bool) (f : β → List γ) (bs : List β) :
    (bs.filter p).flatMap f = bs.flatMap fun b => if p b then f b else [] := by
  induction bs with
  | nil => rfl
  | cons b bs ih => cases hb : p b <;> simp [hb, ih]

namespace Namespace.Sound

variable {ns : Namespace α} (h : ns.Sound)
include h

theorem executor_of_mem {rule : Rule α} (hrule : rule ∈ ns.rules) : rule.executor = ns.name := by
  obtain ⟨i, hi⟩ := List.mem_iff_getElem?.1 hrule
  exact (h.numbered i rule hi).2

/-- The rules of the executors that are asked are those of a namespace that is asked. -/
theorem filter_rules (asked : String → Bool) (p : Rule α → Bool) :
    (ns.rules.filter fun rule => asked rule.executor && p rule) =
      if asked ns.name then ns.rules.filter p else [] := by
  split
  · next hasked =>
    exact List.filter_congr fun rule hrule => by simp [h.executor_of_mem hrule, hasked]
  · next hasked =>
    exact List.filter_eq_nil_iff.2 fun rule hrule => by simp [h.executor_of_mem hrule, hasked]

end Namespace.Sound

namespace Candidate

variable {cs ds : List (Candidate α)}

/-- What candidates are ordered by: higher priorities come first, then earlier namespaces, and then
earlier rules. -/
def key (c : Candidate α) : ℤ ×ₗ ℕ ×ₗ ℕ :=
  toLex (-c.rule.priority, toLex (c.place, c.rule.sequence))

theorem before_iff {a b : Candidate α} : a.before b = true ↔ a.key < b.key := by
  simp [before, key, Prod.Lex.toLex_lt_toLex, eq_comm (a := b.rule.priority)]

theorem ordered_eq_insertionSort (cs : List (Candidate α)) :
    ordered cs = cs.insertionSort fun a b => a.key ≤ b.key := by
  have hinsert : ∀ (c : Candidate α) cs,
      insertOrdered c cs = cs.orderedInsert (fun a b => a.key ≤ b.key) c := by
    intro c cs
    induction cs with
    | nil => rfl
    | cons d cs ih =>
      rw [insertOrdered, List.orderedInsert_cons, ih]
      by_cases hle : c.key ≤ d.key
      · rw [if_pos hle, if_neg (mt before_iff.1 (not_lt.2 hle))]
      · rw [if_neg hle, if_pos (before_iff.2 (not_le.1 hle))]
  induction cs with
  | nil => rfl
  | cons c cs ih => rw [List.insertionSort_cons, ← ih, ← hinsert]; rfl

theorem perm_ordered (cs : List (Candidate α)) : (ordered cs).Perm cs := by
  rw [ordered_eq_insertionSort]
  exact List.perm_insertionSort _ cs

/-- A candidate is inserted between the others. -/
theorem exists_insertOrdered (c : Candidate α) (cs : List (Candidate α)) :
    ∃ before after, cs = before ++ after ∧ insertOrdered c cs = before ++ c :: after := by
  induction cs with
  | nil => exact ⟨[], [], rfl, rfl⟩
  | cons d cs ih =>
    obtain ⟨before, after, hsplit, hinsert⟩ := ih
    rw [insertOrdered]
    split
    · exact ⟨d :: before, after, congrArg (d :: ·) hsplit, congrArg (d :: ·) hinsert⟩
    · exact ⟨[], d :: cs, rfl, rfl⟩

/-- Candidates with different keys are ordered strictly. -/
theorem pairwise_ordered (h : (cs.map key).Nodup) :
    (ordered cs).Pairwise fun a b => a.key < b.key := by
  have : Std.Total fun a b : Candidate α => a.key ≤ b.key := ⟨fun a b => le_total a.key b.key⟩
  have : IsTrans (Candidate α) fun a b => a.key ≤ b.key := ⟨fun _ _ _ => le_trans⟩
  have hle : (ordered cs).Pairwise fun a b => a.key ≤ b.key := by
    rw [ordered_eq_insertionSort]
    exact List.pairwise_insertionSort _ cs
  have hne : (ordered cs).Pairwise fun a b => a.key ≠ b.key :=
    List.pairwise_map.1 (((perm_ordered cs).map key).nodup_iff.2 h)
  exact (hle.and hne).imp fun h => lt_of_le_of_ne h.1 h.2

/-- There is one strict order of the same candidates. -/
theorem eq_of_perm (hcs : cs.Pairwise fun a b => a.key < b.key)
    (hds : ds.Pairwise fun a b => a.key < b.key) (h : cs.Perm ds) : cs = ds :=
  h.eq_of_pairwise (fun _ _ _ _ hab hba => absurd (hab.trans hba) (lt_irrefl _)) hcs hds

end Candidate

namespace Rule

variable {policy : Policy} {target : Operator α} {executors : Option (List String)}
  {gradient : Bool} {rule : Rule α}

/-- The rule may be tried for the calls of an operator under a policy. -/
structure Qualifies (policy : Policy) (target : Operator α) (executors : Option (List String))
    (gradient : Bool) (rule : Rule α) : Prop where
  /-- It is a rule for this operator. -/
  applies : rule.target.id = target.id
  /-- If there is a list of allowed executors, its executor is on the list. -/
  allowed : ∀ names ∈ executors, rule.executor ∈ names
  /-- The policy asks all executors, or this one. -/
  asked : policy = .default ∨ policy = .force rule.executor
  /-- It has a gradient transform if one is needed. -/
  differentiable : gradient = true → rule.gradient.isSome = true

theorem qualifies_iff : rule.Qualifies policy target executors gradient ↔
    (policy = .default ∨ policy = .force rule.executor) ∧
      Registry.allows executors rule.executor = true ∧
        Registry.applies target gradient rule = true := by
  have hallows : Registry.allows executors rule.executor = true ↔
      ∀ names ∈ executors, rule.executor ∈ names := by
    simp [Registry.allows, Option.all_eq_true]
  have happlies : Registry.applies target gradient rule = true ↔
      rule.target.id = target.id ∧ (gradient = true → rule.gradient.isSome = true) := by
    cases gradient <;> simp [Registry.applies]
  rw [hallows, happlies]
  exact ⟨fun h => ⟨h.asked, h.allowed, h.applies, h.differentiable⟩,
    fun ⟨hasked, hallowed, htarget, hgradient⟩ => ⟨htarget, hallowed, hasked, hgradient⟩⟩

instance : Decidable (rule.Qualifies policy target executors gradient) :=
  decidable_of_iff' _ qualifies_iff

/-- Rules without a gradient transform do not qualify in a program with gradients. -/
theorem qualifies_true : rule.Qualifies policy target executors true ↔
    rule.gradient.isSome = true ∧ rule.Qualifies policy target executors false :=
  ⟨fun h => ⟨h.differentiable rfl, h.applies, h.allowed, h.asked, nofun⟩,
    fun ⟨hgradient, h⟩ => ⟨h.applies, h.allowed, h.asked, fun _ => hgradient⟩⟩

theorem not_qualifies_fallback : ¬rule.Qualifies .fallback target executors gradient :=
  fun h => h.asked.elim nofun nofun

end Rule

namespace Registry

variable {r : Registry α} {c : Candidate α} {target : Operator α}
  {executors : Option (List String)} {gradient : Bool}

/-- What rules are ordered by. -/
def rank (r : Registry α) (rule : Rule α) : ℤ ×ₗ ℕ ×ₗ ℕ :=
  toLex (-rule.priority,
    toLex ((r.namespaces.map (·.name)).idxOf rule.executor, rule.sequence))

/-- All rules with the places of their namespaces. -/
def placed (r : Registry α) : List (Candidate α) :=
  r.namespaces.zipIdx.flatMap fun (ns, place) => ns.rules.map (⟨place, ·⟩)

/-- All rules in the order in which they are tried. -/
def lineup (r : Registry α) : List (Rule α) := (Candidate.ordered r.placed).map (·.rule)

theorem mem_placed : c ∈ r.placed ↔
    ∃ ns, r.namespaces[c.place]? = some ns ∧ c.rule ∈ ns.rules := by
  unfold placed
  constructor
  · intro h
    obtain ⟨⟨ns, place⟩, hns, hc⟩ := List.mem_flatMap.1 h
    obtain ⟨rule, hrule, rfl⟩ := List.mem_map.1 hc
    exact ⟨ns, List.mem_zipIdx_iff_getElem?.1 hns, hrule⟩
  · rintro ⟨ns, hns, hrule⟩
    exact List.mem_flatMap.2 ⟨(ns, c.place), List.mem_zipIdx_iff_getElem?.2 hns,
      List.mem_map.2 ⟨c.rule, hrule, rfl⟩⟩

theorem map_rule_placed (r : Registry α) : r.placed.map (·.rule) = r.rules := by
  have hrules : ∀ (namespaces : List (Namespace α)) (start : Nat),
      ((namespaces.zipIdx start).flatMap fun x => x.1.rules.map (Candidate.mk x.2)).map (·.rule) =
        namespaces.flatMap (·.rules) := by
    intro namespaces start
    induction namespaces generalizing start with
    | nil => rfl
    | cons ns namespaces ih => simp [List.zipIdx_cons, Function.comp_def, ih]
  exact hrules r.namespaces 0

theorem perm_lineup (r : Registry α) : r.lineup.Perm r.rules := by
  rw [← map_rule_placed]
  exact (Candidate.perm_ordered r.placed).map _

namespace Sound

variable (h : r.Sound)
include h

theorem isSome_namespace?_executor {rule : Rule α} (hrule : rule ∈ r.rules) :
    (r.namespace? rule.executor).isSome = true := by
  obtain ⟨ns, hns, hrule⟩ := List.mem_flatMap.1 hrule
  exact namespace?_isSome_iff.2 ⟨ns, hns, ((h.namespaces ns hns).executor_of_mem hrule).symm⟩

/-- The place of a namespace is that of its name. -/
theorem idxOf_name {place : Nat} {ns : Namespace α} (hns : r.namespaces[place]? = some ns) :
    (r.namespaces.map (·.name)).idxOf ns.name = place := by
  obtain ⟨hlt, rfl⟩ := List.getElem?_eq_some_iff.1 hns
  have hidx := h.distinct.idxOf_getElem place (by rwa [List.length_map])
  rwa [List.getElem_map] at hidx

theorem key_eq_rank (hc : c ∈ r.placed) : c.key = r.rank c.rule := by
  obtain ⟨ns, hns, hrule⟩ := mem_placed.1 hc
  have hexecutor := (h.namespaces ns (List.mem_of_getElem? hns)).executor_of_mem hrule
  rw [Candidate.key, rank, hexecutor, h.idxOf_name hns]

/-- No two rules have the same key. -/
theorem nodup_key_placed : (r.placed.map Candidate.key).Nodup := by
  have hkey {a b : Candidate α} (heq : a.key = b.key) :
      a.place = b.place ∧ a.rule.sequence = b.rule.sequence := by simp_all [Candidate.key]
  -- Within a namespace the numbers differ, and between namespaces the places do.
  refine List.pairwise_map.2 (List.pairwise_flatMap.2 ⟨fun x hx => ?_, ?_⟩)
  · refine List.pairwise_map.2 (List.pairwise_iff_getElem.2 fun i j hi hj hlt heq => ?_)
    have hnumbered := (h.namespaces x.1 (List.fst_mem_of_mem_zipIdx hx)).numbered
    have hfirst := (hnumbered i _ (List.getElem?_eq_getElem hi)).1
    have hsecond := (hnumbered j _ (List.getElem?_eq_getElem hj)).1
    have hsame : x.1.rules[i].sequence = x.1.rules[j].sequence := (hkey heq).2
    omega
  · refine List.pairwise_iff_getElem.2 fun i j hi hj hlt a ha b hb heq => ?_
    obtain ⟨rule, -, rfl⟩ := List.mem_map.1 ha
    obtain ⟨rule', -, rfl⟩ := List.mem_map.1 hb
    have hsame := (hkey heq).1
    change (r.namespaces.zipIdx[i]).2 = (r.namespaces.zipIdx[j]).2 at hsame
    rw [List.getElem_zipIdx, List.getElem_zipIdx] at hsame
    omega

/-- Executors can be asked by the names that the rules carry. -/
theorem rulesFor_eq (asked : String → Bool) : r.rulesFor target asked gradient =
    r.placed.filter fun c => asked c.rule.executor && applies target gradient c.rule := by
  unfold rulesFor placed
  rw [flatMap_filter, List.filter_flatMap]
  refine List.flatMap_congr fun x hx => ?_
  obtain ⟨ns, place⟩ := x
  have hns := h.namespaces ns (List.fst_mem_of_mem_zipIdx hx)
  rw [List.filter_map]
  change _ = (ns.rules.filter fun rule => asked rule.executor && _).map _
  rw [hns.filter_rules asked (applies target gradient)]
  dsimp only
  split <;> rfl

/-- The rules for an operator are tried in the order of all rules. -/
theorem map_rule_ordered_rulesFor (asked : String → Bool) :
    (Candidate.ordered (r.rulesFor target asked gradient)).map (·.rule) =
      r.lineup.filter fun rule => asked rule.executor && applies target gradient rule := by
  have hordered : Candidate.ordered (r.rulesFor target asked gradient) =
      (Candidate.ordered r.placed).filter fun c =>
        asked c.rule.executor && applies target gradient c.rule := by
    rw [h.rulesFor_eq]
    refine Candidate.eq_of_perm (Candidate.pairwise_ordered ?_)
      ((Candidate.pairwise_ordered h.nodup_key_placed).filter _) ?_
    · exact h.nodup_key_placed.sublist (List.filter_sublist.map _)
    · exact (Candidate.perm_ordered _).trans ((Candidate.perm_ordered _).symm.filter _)
  rw [hordered, lineup, List.filter_map]
  rfl

/-- The candidates are the rules that qualify, in the order of all rules. -/
theorem candidateRules_eq (target : Operator α) (executors : Option (List String))
    (gradient : Bool) : r.candidateRules target executors gradient =
      r.lineup.filter (·.Qualifies (r.policy target) target executors gradient) := by
  simp only [candidateRules, h.map_rule_ordered_rulesFor]
  cases hpolicy : r.policy target with
  | default =>
    refine List.filter_congr fun rule _ => Bool.eq_iff_iff.2 ?_
    simp [Rule.qualifies_iff]
  | fallback =>
    refine (List.filter_eq_nil_iff.2 fun rule _ => ?_).symm
    simp [Rule.not_qualifies_fallback]
  | force executor =>
    dsimp only
    split
    · next hnone =>
      refine (List.filter_eq_nil_iff.2 fun rule hrule hqualifies => ?_).symm
      have hregistered := h.isSome_namespace?_executor (r.perm_lineup.mem_iff.1 hrule)
      obtain rfl : executor = rule.executor := by
        simpa using (of_decide_eq_true hqualifies).asked
      rw [Option.isNone_iff_eq_none] at hnone
      rw [hnone] at hregistered
      exact nomatch hregistered
    · refine List.filter_congr fun rule _ => Bool.eq_iff_iff.2 ?_
      have hasked : (Policy.force executor = .default ∨ Policy.force executor =
          .force rule.executor) ↔ rule.executor = executor := by simp [eq_comm]
      simp only [Rule.qualifies_iff, hasked, Bool.and_eq_true, decide_eq_true_eq, and_assoc]
      exact and_left_comm

/-- All rules are in strict order, so that no two of them tie. -/
theorem pairwise_lineup : r.lineup.Pairwise fun a b => r.rank a < r.rank b := by
  refine List.pairwise_map.2
    ((Candidate.pairwise_ordered h.nodup_key_placed).imp_of_mem fun {a b} ha hb hlt => ?_)
  rwa [← h.key_eq_rank (Candidate.mem_ordered.1 ha), ← h.key_eq_rank (Candidate.mem_ordered.1 hb)]

/-- The rules with a new one among them. -/
theorem perm_placed_addRule {space : String} {ns : Namespace α} (hns : r.namespace? space = some ns)
    (s : Substitution α) : ∃ place,
      (r.modifyNamespace space (·.addRule s)).placed.Perm (⟨place, ns.nextRule s⟩ :: r.placed) := by
  obtain ⟨hmem, rfl⟩ := h.namespace?_eq_some_iff.1 hns
  obtain ⟨before, after, hsplit⟩ := List.append_of_mem hmem
  have hdistinct := h.distinct
  rw [hsplit, List.map_append, List.map_cons, List.nodup_middle, ← List.map_append,
    List.nodup_cons] at hdistinct
  have hsame : ∀ others : List (Namespace α), (∀ other ∈ others, other ∈ before ++ after) →
      others.map (fun other => if other.name = ns.name then other.addRule s else other) =
        others := by
    intro others hothers
    refine (List.map_congr_left fun other hother => if_neg fun hname => ?_).trans (List.map_id _)
    exact hdistinct.1 (List.mem_map.2 ⟨other, hothers other hother, hname⟩)
  have hnamespaces : (r.modifyNamespace ns.name (·.addRule s)).namespaces =
      before ++ ns.addRule s :: after := by
    unfold modifyNamespace
    rw [hsplit, List.map_append, List.map_cons, if_pos rfl,
      hsame before fun _ => List.mem_append_left _, hsame after fun _ => List.mem_append_right _]
  refine ⟨before.length, ?_⟩
  unfold placed
  rw [hnamespaces, hsplit]
  simp only [List.zipIdx_append, List.zipIdx_cons, List.flatMap_append, List.flatMap_cons,
    Namespace.addRule, List.map_append, List.map_cons, List.map_nil, List.append_assoc,
    List.singleton_append, Nat.zero_add]
  rw [← List.append_assoc, ← List.append_assoc _ (ns.rules.map _)]
  exact List.perm_middle

/-- A new rule takes its place among all rules, which stay in their order. -/
theorem lineup_addRule {space : String} {ns : Namespace α} (hns : r.namespace? space = some ns)
    (s : Substitution α) : ∃ before after, r.lineup = before ++ after ∧
      (r.modifyNamespace space (·.addRule s)).lineup = before ++ ns.nextRule s :: after := by
  obtain ⟨place, hperm⟩ := h.perm_placed_addRule hns s
  have hnodup := (h.addRule space s).nodup_key_placed
  have hordered : Candidate.ordered (r.modifyNamespace space (·.addRule s)).placed =
      Candidate.ordered (⟨place, ns.nextRule s⟩ :: r.placed) :=
    Candidate.eq_of_perm (Candidate.pairwise_ordered hnodup)
      (Candidate.pairwise_ordered ((hperm.map _).nodup_iff.1 hnodup))
      ((Candidate.perm_ordered _).trans (hperm.trans (Candidate.perm_ordered _).symm))
  obtain ⟨before, after, hsplit, hinsert⟩ :=
    Candidate.exists_insertOrdered ⟨place, ns.nextRule s⟩ (Candidate.ordered r.placed)
  refine ⟨before.map (·.rule), after.map (·.rule), ?_, ?_⟩
  · rw [lineup, hsplit, List.map_append]
  · rw [lineup, hordered]
    change (Candidate.insertOrdered _ (Candidate.ordered r.placed)).map _ = _
    rw [hinsert, List.map_append, List.map_cons]

/-- A new rule that qualifies takes its place among the candidates, which stay in their order. -/
theorem candidateRules_addRule {space : String} {ns : Namespace α}
    (hns : r.namespace? space = some ns) (s : Substitution α) (target : Operator α)
    (executors : Option (List String)) (gradient : Bool) : ∃ before after,
      r.candidateRules target executors gradient = before ++ after ∧
        (r.modifyNamespace space (·.addRule s)).candidateRules target executors gradient = before ++
          (if (ns.nextRule s).Qualifies (r.policy target) target executors gradient then
            [ns.nextRule s] else []) ++ after := by
  -- Which rules qualify depends on the policies, and these are not changed.
  have hpolicy : (r.modifyNamespace space (·.addRule s)).policy target = r.policy target := rfl
  obtain ⟨before, after, hlineup, hadded⟩ := h.lineup_addRule hns s
  let p : Rule α → Bool := (·.Qualifies (r.policy target) target executors gradient)
  refine ⟨before.filter p, after.filter p, ?_, ?_⟩
  · rw [h.candidateRules_eq, hlineup, List.filter_append]
  · rw [(h.addRule space s).candidateRules_eq, hpolicy, hadded, List.filter_append,
      List.filter_cons, List.append_assoc]
    by_cases hqualifies : (ns.nextRule s).Qualifies (r.policy target) target executors gradient
    · rw [if_pos (decide_eq_true hqualifies), if_pos hqualifies]
      rfl
    · rw [if_neg (mt of_decide_eq_true hqualifies), if_neg hqualifies]
      rfl

end Sound

/-- The candidates for the calls of an operator at any time, under the policy that the overrides set
last give it: none if the policy forbids all replacements or names an executor that is not
registered; otherwise each of the rules that qualify, once and in strict order of priority, place of
the namespace and number in it. A program with gradients has the candidates that have a gradient
transform, in the same order. A further rule takes its place among the candidates if it qualifies,
and they stay in their order. -/
theorem candidates_exact [Scalar α] (journal : Journal) (registrations : List (Registration α))
    (target : Operator α) (executors : Option (List String)) (gradient : Bool) :
    let s := Registration.run ⟨.initial, journal⟩ registrations
    let r := s.state
    let candidates := r.candidateRules target executors gradient
    (∀ place ns number rule, r.namespaces[place]? = some ns → ns.rules[number]? = some rule →
      rule.executor = ns.name ∧ r.rank rule = toLex (-rule.priority, toLex (place, number))) ∧
    ∃ policy, (Registration.lastOverrides registrations).Gives target policy ∧
      ((policy = .fallback ∨
        ∃ executor, policy = .force executor ∧ ∀ ns ∈ r.namespaces, ns.name ≠ executor) →
          candidates = []) ∧
      candidates.Perm (r.rules.filter (·.Qualifies policy target executors gradient)) ∧
      (candidates.Pairwise fun a b => r.rank a < r.rank b) ∧
      r.candidateRules target executors true =
        (r.candidateRules target executors false).filter (·.gradient.isSome) ∧
      ∀ space offer s', (registerRule space offer).apply s = (.ok (), s') →
        ∃ ns ∈ r.namespaces, ns.name = space ∧ ∃ before after, candidates = before ++ after ∧
          s'.state.candidateRules target executors gradient = before ++
            (if (ns.nextRule offer).Qualifies policy target executors gradient then
              [ns.nextRule offer] else []) ++ after := by
  intro s r candidates
  have hr : r.Sound := (Registration.advances_run ⟨.initial, journal⟩ registrations sound_initial).1
  have hoverrides : r.overrides = Registration.lastOverrides registrations :=
    Registration.overrides_run ⟨.initial, journal⟩ registrations
  have hcandidates : candidates =
      r.lineup.filter (·.Qualifies (r.policy target) target executors gradient) :=
    hr.candidateRules_eq target executors gradient
  refine ⟨fun place ns number rule hns hrule => ?_, r.policy target, ?_, fun hpolicy => ?_, ?_, ?_,
    ?_, fun space offer s' hregister => ?_⟩
  · obtain ⟨hnumber, hexecutor⟩ :=
      (hr.namespaces ns (List.mem_of_getElem? hns)).numbered number rule hrule
    exact ⟨hexecutor, by rw [rank, hexecutor, hr.idxOf_name hns, hnumber]⟩
  · rw [Overrides.gives_iff, ← hoverrides]
    rfl
  · rcases hpolicy with hpolicy | ⟨executor, hpolicy, hnone⟩
    · simp [candidates, candidateRules, hpolicy]
    · have hnone : r.namespace? executor = none := by simpa [namespace?] using hnone
      simp [candidates, candidateRules, hpolicy, hnone]
  · rw [hcandidates]
    exact r.perm_lineup.filter _
  · rw [hcandidates]
    exact hr.pairwise_lineup.filter _
  · rw [hr.candidateRules_eq, hr.candidateRules_eq, List.filter_filter]
    exact List.filter_congr fun rule _ => Bool.eq_iff_iff.2 (by simp [Rule.qualifies_true])
  · obtain ⟨ns, hns, hstate⟩ := exists_of_registerRule hregister
    obtain ⟨hmem, hname⟩ := hr.namespace?_eq_some_iff.1 hns
    rw [hstate]
    exact ⟨ns, hmem, hname, hr.candidateRules_addRule hns offer target executors gradient⟩

/-- An offer to replace every call of attention by nothing, with a gradient transform or without. -/
def offerOf (priority : Int) (gradient : Bool) : Substitution Float32 where
  target := Attention.operator
  admits := fun _ => .ok true
  execution := fun _ => pure []
  gradient := if gradient then some fun _ => pure [] else none
  priority := priority

/-- Two executors; the first one has a rule of higher priority after another one. -/
def twoExecutors : List (Registration Float32) :=
  [.ofNamespace "alpha" "1", .ofRule "alpha" (offerOf 0 false), .ofRule "alpha" (offerOf 5 true),
    .ofNamespace "beta" "1", .ofRule "beta" (offerOf 0 true)]

/-- The same executors with policies under names of operators. -/
def underPolicies (policies : List (String × Policy)) : List (Registration Float32) :=
  twoExecutors ++ [.ofOverrides (Dict.ofList policies)]

/-- The executors and numbers of the candidates for the calls of attention. -/
def shown (registrations : List (Registration Float32)) (executors : Option (List String))
    (gradient : Bool) : List (String × Nat) :=
  ((Registration.run ⟨.initial, []⟩ registrations).state.candidateRules Attention.operator executors
    gradient).map fun rule => (rule.executor, rule.sequence)

/-- The rule of higher priority is tried first, and then one rule of each executor. One of the three
has no gradient transform, and a further rule is inserted. One is left if the other executor is not
allowed, or if this one is forced under the bare name of attention. None is left if attention is
exempt under its qualified name, which wins, or if an executor is forced that is not registered. -/
theorem candidates_exact_twoExecutors :
    let bare := "scaled_dot_product_attention"
    let qualified := "core::scaled_dot_product_attention"
    let s := Registration.run ⟨.initial, []⟩ twoExecutors
    shown twoExecutors none false = [("alpha", 1), ("alpha", 0), ("beta", 0)] ∧
    shown twoExecutors none true = [("alpha", 1), ("beta", 0)] ∧
    shown twoExecutors (some ["gamma", "beta"]) false = [("beta", 0)] ∧
    shown (underPolicies [(bare, .force "beta")]) none false = [("beta", 0)] ∧
    shown (underPolicies [(bare, .force "beta"), (qualified, .fallback)]) none false = [] ∧
    shown (underPolicies [(bare, .force "gamma")]) none false = [] ∧
    ∃ s' before after, (registerRule "alpha" (offerOf 0 true)).apply s = (.ok (), s') ∧
      shown twoExecutors none false = before ++ after ∧
      (s'.state.candidateRules Attention.operator none false).map
        (fun rule => (rule.executor, rule.sequence)) = before ++ ("alpha", 2) :: after := by
  intro bare qualified s
  refine ⟨by rfl, ?_, ?_, ?_, ?_, ?_, ?_⟩
  · obtain ⟨-, policy, -, -, -, -, hgradient, -⟩ :=
      candidates_exact [] twoExecutors Attention.operator none false
    unfold shown
    rw [hgradient]
    rfl
  · obtain ⟨-, policy, hgives, -, hperm, -⟩ :=
      candidates_exact [] twoExecutors Attention.operator (some ["gamma", "beta"]) false
    obtain rfl := hgives.unique (.neither rfl rfl)
    exact List.perm_singleton.1 (hperm.map _)
  · obtain ⟨-, policy, hgives, -, hperm, -⟩ :=
      candidates_exact [] (underPolicies [(bare, .force "beta")]) Attention.operator none false
    obtain rfl := hgives.unique (.bare rfl rfl)
    exact List.perm_singleton.1 (hperm.map _)
  · obtain ⟨-, policy, hgives, hempty, -⟩ := candidates_exact []
      (underPolicies [(bare, .force "beta"), (qualified, .fallback)]) Attention.operator none false
    obtain rfl : policy = .fallback := hgives.unique (.qualified (by decide))
    exact congrArg (List.map _) (hempty (.inl rfl))
  · obtain ⟨-, policy, hgives, hempty, -⟩ :=
      candidates_exact [] (underPolicies [(bare, .force "gamma")]) Attention.operator none false
    obtain rfl := hgives.unique (.bare rfl rfl)
    exact congrArg (List.map _) (hempty (.inr ⟨"gamma", rfl, by decide⟩))
  · obtain ⟨-, policy, hgives, -, -, -, -, hinserted⟩ :=
      candidates_exact [] twoExecutors Attention.operator none false
    obtain rfl := hgives.unique (.neither rfl rfl)
    obtain ⟨ns, hns, hname, before, after, hcandidates, hadded⟩ :=
      hinserted "alpha" (offerOf 0 true) _ rfl
    refine ⟨_, before.map fun rule => (rule.executor, rule.sequence),
      after.map fun rule => (rule.executor, rule.sequence), rfl, ?_, ?_⟩
    · unfold shown
      rw [hcandidates, List.map_append]
    · have hqualifies : (ns.nextRule (offerOf 0 true)).Qualifies .default Attention.operator none
          false := ⟨rfl, nofun, .inl rfl, nofun⟩
      have hrules : ∀ ns ∈ s.state.namespaces, ns.name = "alpha" → ns.rules.length = 2 := by decide
      rw [hadded, if_pos hqualifies, List.map_append, List.map_append, List.append_assoc]
      simp [Namespace.nextRule, hname, hrules ns hns hname]

end Registry

end TraceSubstitution
