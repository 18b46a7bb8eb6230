import TraceSubstitution.Proofs.Registry.Selection
import TraceSubstitution.Proofs.Replacement.Steps

/-!
# Lists of allowed executors

A list of allowed executors says whose rules may be tried. It does not say in which order:
the candidates under a list are those without a list, less the rules of the executors that
are not on it (`Registry.Sound.candidateRules_some`), so that they stay in the order of
priorities, places of namespaces and numbers.

Which rule replaces a call can be told from this order (`Registry.Sound.firstAdmitting_iff`):
it admits the call, and the rules of lower rank refuse. So lists that allow the same executors
are the same to a replacer in all it does (`Replacer.answer_of_allowed`).
-/

namespace TraceSubstitution

variable {α : Type}

/-- A rule qualifies under a list if its executor is on the list and it qualifies without one. -/
theorem Rule.qualifies_some {policy : Policy} {target : Operator α} {names : List String}
    {gradient : Bool} {rule : Rule α} : rule.Qualifies policy target (some names) gradient ↔
      rule.executor ∈ names ∧ rule.Qualifies policy target none gradient :=
  ⟨fun h => ⟨h.allowed names rfl, h.applies, nofun, h.asked, h.differentiable⟩,
    fun ⟨hallowed, h⟩ => ⟨h.applies, fun _ heq => Option.some.inj heq ▸ hallowed, h.asked,
      h.differentiable⟩⟩

namespace Registry

variable {r : Registry α} {target : Operator α} {names names' : List String} {gradient : Bool}

/-- Only the members of a list of executors count. -/
theorem allows_of_mem_iff (h : ∀ name, name ∈ names' ↔ name ∈ names) :
    allows (some names') = allows (some names) := by
  funext name
  simp only [allows, Option.all_some, List.contains_eq_mem, h name]

theorem candidateRules_of_allowed (h : ∀ name, name ∈ names' ↔ name ∈ names) :
    r.candidateRules target (some names') gradient =
      r.candidateRules target (some names) gradient := by
  unfold candidateRules
  rw [allows_of_mem_iff h]

namespace Sound

variable (h : r.Sound)
include h

/-- A list of allowed executors takes candidates away, and the others stay in their order. -/
theorem candidateRules_some : r.candidateRules target (some names) gradient =
    (r.candidateRules target none gradient).filter (names.contains ·.executor) := by
  rw [h.candidateRules_eq, h.candidateRules_eq, List.filter_filter]
  exact List.filter_congr fun rule _ => Bool.eq_iff_iff.2 (by simp [Rule.qualifies_some])

theorem pairwise_candidateRules (target : Operator α) (executors : Option (List String))
    (gradient : Bool) : (r.candidateRules target executors gradient).Pairwise
      fun a b => r.rank a < r.rank b := by
  rw [h.candidateRules_eq]
  exact h.pairwise_lineup.filter _

/-- The rule that replaces a call admits it, and the candidates of lower rank refuse it. -/
theorem firstAdmitting_iff {executors : Option (List String)} {args : Operands Symbol}
    {rule : Rule α} :
    Replacer.firstAdmitting args (r.candidateRules target executors gradient) = .ok (some rule) ↔
      rule ∈ r.candidateRules target executors gradient ∧ rule.admits args = .ok true ∧
        ∀ other ∈ r.candidateRules target executors gradient, r.rank other < r.rank rule →
          other.admits args = .ok false := by
  have hordered := h.pairwise_candidateRules target executors gradient
  generalize r.candidateRules target executors gradient = rules at hordered
  rw [Replacer.firstAdmitting_eq_some_iff]
  constructor
  · rintro ⟨earlier, later, rfl, hrule, hearlier⟩
    refine ⟨List.mem_append_cons_self, hrule, fun other hother hlt => ?_⟩
    obtain ⟨-, hlater, -⟩ := List.pairwise_append.1 hordered
    rcases List.mem_append.1 hother with hother | hother
    · exact hearlier other hother
    · rcases List.mem_cons.1 hother with rfl | hother
      · exact absurd hlt (lt_irrefl _)
      · exact absurd hlt (List.rel_of_pairwise_cons hlater hother).asymm
  · rintro ⟨hmem, hrule, hrefuse⟩
    obtain ⟨earlier, later, rfl⟩ := List.append_of_mem hmem
    obtain ⟨-, -, hbefore⟩ := List.pairwise_append.1 hordered
    refine ⟨earlier, later, rfl, hrule, fun other hother => ?_⟩
    exact hrefuse other (List.mem_append_left _ hother)
      (hbefore other hother rule List.mem_cons_self)

end Sound

/-- One rule has a lower rank than another one if its priority is higher, or it has the same
priority and an earlier namespace, or the same of both and a lower number. -/
theorem rank_lt_rank_iff {a b : Rule α} : r.rank a < r.rank b ↔
    b.priority < a.priority ∨ a.priority = b.priority ∧
      ((r.namespaces.map (·.name)).idxOf a.executor < (r.namespaces.map (·.name)).idxOf b.executor ∨
        (r.namespaces.map (·.name)).idxOf a.executor =
          (r.namespaces.map (·.name)).idxOf b.executor ∧ a.sequence < b.sequence) := by
  simp only [rank, Prod.Lex.toLex_lt_toLex, Int.neg_lt_neg_iff, Int.neg_inj]

end Registry

namespace Replacer

variable {registry : Registry α} {options options' : ReplacerOptions}

/-- Calls are decided about in the same way if the same rules are chosen for them. -/
theorem dispatch_of_chosenRule
    (h : (⟨registry, options'⟩ : Replacer α).chosenRule = chosenRule ⟨registry, options⟩) :
    (⟨registry, options'⟩ : Replacer α).dispatch = dispatch ⟨registry, options⟩ := by
  funext index op args gradient
  unfold dispatch decideAnew
  rw [h]

theorem steps_of_chosenRule
    (h : (⟨registry, options'⟩ : Replacer α).chosenRule = chosenRule ⟨registry, options⟩)
    (gradient : Bool) (p : Progress α) (index : Nat) (nodes : List (Node α)) :
    (⟨registry, options'⟩ : Replacer α).steps gradient p index nodes =
      steps ⟨registry, options⟩ gradient p index nodes := by
  have hstep : (⟨registry, options'⟩ : Replacer α).step = step ⟨registry, options⟩ := by
    funext gradient p index n
    unfold step
    rw [dispatch_of_chosenRule h]
    rfl
  induction nodes generalizing p index with
  | nil => rfl
  | cons n nodes ih =>
    unfold steps
    rw [hstep]
    simp only [ih]

/-- Of its options a replacer uses nothing for its answers but the rules that it chooses. -/
theorem answer_of_chosenRule [Scalar α]
    (h : (⟨registry, options'⟩ : Replacer α).chosenRule = chosenRule ⟨registry, options⟩) :
    (⟨registry, options'⟩ : Replacer α).answer = answer ⟨registry, options⟩ := by
  funext q
  simp only [answer_eq, steps_of_chosenRule h]

/-- Under lists with the same members a replacer gives the same answers. -/
theorem answer_of_allowed [Scalar α] {names names' : List String}
    (h : ∀ name, name ∈ names' ↔ name ∈ names) (cacheSize : Nat) :
    (⟨registry, ⟨some names', cacheSize⟩⟩ : Replacer α).answer =
      answer ⟨registry, ⟨some names, cacheSize⟩⟩ := by
  refine answer_of_chosenRule ?_
  funext op args gradient
  unfold chosenRule
  rw [Registry.candidateRules_of_allowed h]

end Replacer

namespace Registry

/-- The candidates under a list of allowed executors, for a registry at any time: they are those
without a list whose executors are on it, in the same order, that is by priority, then by the place
of the namespace among all namespaces, and then by number. The first one in this order that admits a
call replaces it, if those before it refuse. The order of the list, and how often a name is on it,
is nothing to the candidates and nothing to the answers of a replacer, nor to what it remembers and
notes down. -/
theorem allowed_restricts [Scalar α] (journal : Journal) (registrations : List (Registration α))
    (target : Operator α) (names : List String) (gradient : Bool) :
    let r := (Registration.run ⟨.initial, journal⟩ registrations).state
    let place (rule : Rule α) : Nat := (r.namespaces.map (·.name)).idxOf rule.executor
    let candidates := r.candidateRules target (some names) gradient
    candidates = (r.candidateRules target none gradient).filter (names.contains ·.executor) ∧
    (candidates.Pairwise fun a b => b.priority < a.priority ∨ a.priority = b.priority ∧
      (place a < place b ∨ place a = place b ∧ a.sequence < b.sequence)) ∧
    (∀ args rule, Replacer.firstAdmitting args candidates = .ok (some rule) ↔
      rule ∈ candidates ∧ rule.admits args = .ok true ∧
        ∀ other ∈ candidates, (rule.priority < other.priority ∨ other.priority = rule.priority ∧
            (place other < place rule ∨
              place other = place rule ∧ other.sequence < rule.sequence)) →
          other.admits args = .ok false) ∧
    ∀ names' : List String, (∀ name, name ∈ names' ↔ name ∈ names) →
      r.candidateRules target (some names') gradient = candidates ∧
      ∀ (cacheSize : Nat) (q : Request α) (s : Journaled (Decisions α)),
        (Replacer.answer ⟨r, ⟨some names', cacheSize⟩⟩ q).apply s =
          (Replacer.answer ⟨r, ⟨some names, cacheSize⟩⟩ q).apply s := by
  intro r place candidates
  have hr : r.Sound := (Registration.advances_run ⟨.initial, journal⟩ registrations sound_initial).1
  refine ⟨hr.candidateRules_some, ?_, fun args rule => ?_, fun names' hnames => ⟨?_, ?_⟩⟩
  · exact (hr.pairwise_candidateRules target (some names) gradient).imp rank_lt_rank_iff.1
  · rw [hr.firstAdmitting_iff]
    simp only [rank_lt_rank_iff]
    rfl
  · exact candidateRules_of_allowed hnames
  · intro cacheSize q s
    rw [Replacer.answer_of_allowed hnames]

/-- Two executors with rules of one priority for every call of attention. -/
def evenExecutors : List (Registration Float32) :=
  [.ofNamespace "alpha" "1", .ofRule "alpha" (offerOf 0 true),
    .ofNamespace "beta" "1", .ofRule "beta" (offerOf 0 true)]

/-- The executor that was registered first is asked first, also if the list has it last and has the
other one twice; and without the list there are the same candidates. -/
theorem allowed_restricts_evenExecutors :
    let r := (Registration.run ⟨.initial, []⟩ evenExecutors).state
    (r.candidateRules Attention.operator (some ["beta", "alpha", "beta"]) true).map (·.executor) =
      ["alpha", "beta"] ∧
    r.candidateRules Attention.operator (some ["beta"]) true =
      (r.candidateRules Attention.operator none true).filter (·.executor = "beta") ∧
    ∀ (q : Request Float32) s,
      (Replacer.answer ⟨r, ⟨some ["beta", "alpha", "beta"], 256⟩⟩ q).apply s =
        (Replacer.answer ⟨r, ⟨some ["alpha", "beta"], 256⟩⟩ q).apply s := by
  intro r
  obtain ⟨-, -, -, hsame⟩ :=
    allowed_restricts [] evenExecutors Attention.operator ["alpha", "beta"] true
  obtain ⟨hcandidates, hanswers⟩ := hsame ["beta", "alpha", "beta"] fun name => by
    rw [List.mem_cons, List.mem_pair]
    tauto
  obtain ⟨hbeta, -⟩ := allowed_restricts [] evenExecutors Attention.operator ["beta"] true
  refine ⟨?_, ?_, hanswers 256⟩
  · rw [hcandidates]
    rfl
  · rw [hbeta]
    exact List.filter_congr fun rule _ => by simp

/-- The executor that is first on the list is asked after one that was registered earlier, and
whichever of them is first on the list, the same one replaces every call. -/
theorem allowed_unordered :
    let r := (Registration.run ⟨.initial, []⟩ evenExecutors).state
    let names := ["beta", "alpha"]
    let candidates := r.candidateRules Attention.operator (some names) true
    names.Nodup ∧
    candidates.map (fun rule => (rule.executor, rule.priority)) = [("alpha", 0), ("beta", 0)] ∧
    ¬(candidates.Pairwise fun a b => a.priority = b.priority →
      names.idxOf a.executor ≤ names.idxOf b.executor) ∧
    ∀ allowed ∈ [["alpha", "beta"], ["beta", "alpha"]], ∀ args,
      (Replacer.chosenRule ⟨r, ⟨some allowed, 256⟩⟩ Attention.operator args true).map
        (·.map (·.executor)) = .ok (some "alpha") := by
  intro r names candidates
  refine ⟨by decide, by rfl, fun h => ?_, fun allowed hallowed args => ?_⟩
  · exact absurd (List.pairwise_pair.1 h rfl) (by decide)
  · rcases List.mem_pair.1 hallowed with rfl | rfl <;> rfl

end Registry

end TraceSubstitution
