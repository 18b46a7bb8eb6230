import TraceSubstitution.Proofs.Replacement.History

/-!
# Replacers without rules

A replacer whose registry has no rules replaces nothing: no rule is chosen, and
none is ever remembered, whatever the replacer has been asked for.
-/

namespace TraceSubstitution

variable {α : Type} {r : Replacer α}

/-- No rule is remembered. -/
def Decisions.Ruleless (d : Decisions α) : Prop := ∀ e ∈ d.entries, e.2 = none

namespace Replacer

theorem candidateRules_eq_nil (hr : r.registry.rules = []) (o : Operator α)
    (executors : Option (List String)) (gradient : Bool) :
    r.registry.candidateRules o executors gradient = [] := by
  refine List.eq_nil_iff_forall_not_mem.2 fun rule hrule => ?_
  have hmem := (Registry.mem_of_mem_candidateRules hrule).1
  rw [hr] at hmem
  exact List.not_mem_nil hmem

theorem chosenRule_eq_none (hr : r.registry.rules = []) (o : Operator α) (args : Operands Symbol)
    (gradient : Bool) : r.chosenRule o args gradient = .ok none := by
  unfold chosenRule
  rw [candidateRules_eq_nil hr]
  rfl

theorem rule_eq_none (hr : r.registry.rules = []) {d : Decided α} (h : d.Follows r) :
    d.rule = none := by
  refine h.fallback.2 fun rule hrule => ?_
  rw [candidateRules_eq_nil hr] at hrule
  exact absurd hrule List.not_mem_nil

end Replacer

namespace Decisions.Ruleless

variable {d : Decisions α}

theorem right (h : d.Ruleless) (hr : r.registry.rules = []) (ops : Set (Operator α)) :
    d.Right r ops := by
  intro o _ gradient args _ rule hmem
  obtain rfl : rule = none := h _ hmem
  exact Replacer.chosenRule_eq_none hr o args gradient

theorem remember (h : d.Ruleless) (key : DispatchKey) : (d.remember key none).Ruleless := by
  intro e he
  rcases mem_remember he with rfl | he
  · rfl
  · exact h e he

end Decisions.Ruleless

namespace Replacer

variable {s : Journaled (Decisions α)} {gradient : Bool} {p : Progress α} {index : Nat} {n : Node α}

/-- One call: if a decision is made, no rule is chosen. -/
theorem ruleless_step (hr : r.registry.rules = []) (hs : s.state.Ruleless) (gradient : Bool)
    (p : Progress α) (index : Nat) (n : Node α) :
    ((r.step gradient p index n).apply s).2.state.Ruleless ∧
      ∀ d, r.decision? gradient p index n s = some d → d.rule = none ∧ n.op = .highLevel d.op := by
  rcases decision?_step (hs.right hr Set.univ) (Set.mem_univ n.op.operator) gradient p index with
    ⟨hnone, hstate⟩ | ⟨d, hd, hfollows, -, hstate⟩
  · exact ⟨hstate ▸ hs, fun d hd => nomatch hnone.symm.trans hd⟩
  · have hrule := rule_eq_none hr hfollows
    rw [hrule] at hstate
    refine ⟨hstate ▸ hs.remember d.key, fun d' hd' => ⟨?_, op_of_decision? hd'⟩⟩
    exact Option.some.inj (hd.symm.trans hd') ▸ hrule

theorem ruleless_steps (hr : r.registry.rules = []) (hs : s.state.Ruleless) (gradient : Bool)
    (p : Progress α) (index : Nat) (nodes : List (Node α)) :
    ((r.steps gradient p index nodes).apply s).2.state.Ruleless ∧
      ∀ d ∈ r.nodeDecisions gradient p index nodes s,
        d.rule = none ∧ ∃ n ∈ nodes, n.op = .highLevel d.op := by
  induction nodes generalizing p index s with
  | nil => exact ⟨hs, fun _ hd => absurd hd List.not_mem_nil⟩
  | cons n nodes ih =>
    obtain ⟨hfirst, hdecision⟩ := ruleless_step hr hs gradient p index n
    have hnow : ∀ d ∈ (r.decision? gradient p index n s).toList,
        d.rule = none ∧ ∃ m ∈ n :: nodes, m.op = .highLevel d.op := by
      intro d hd
      obtain ⟨hrule, hop⟩ := hdecision d (Option.mem_toList.1 hd)
      exact ⟨hrule, n, List.mem_cons_self, hop⟩
    rw [apply_steps_cons, nodeDecisions_cons]
    rcases hstep : (r.step gradient p index n).apply s with ⟨e | ⟨p', fragment⟩, s'⟩
    · rw [hstep] at hfirst
      exact ⟨hfirst, by simpa using hnow⟩
    · rw [hstep] at hfirst
      obtain ⟨hrest, hlater⟩ := ih hfirst p' (index + 1)
      refine ⟨hrest, fun d hd => ?_⟩
      rcases List.mem_append.1 hd with hd | hd
      · exact hnow d hd
      · obtain ⟨hrule, m, hm, hop⟩ := hlater d hd
        exact ⟨hrule, m, List.mem_cons_of_mem n hm, hop⟩

variable [Scalar α]

theorem ruleless_answer (hr : r.registry.rules = []) (hs : s.state.Ruleless) (q : Request α) :
    ((r.answer q).apply s).2.state.Ruleless := by
  cases hstart : Progress.start q.id q.source with
  | error e =>
    rw [answer_eq]
    simp only [Act.apply_bind, Act.apply_lift, hstart]
    exact hs
  | ok p =>
    rw [state_answer_of_start hstart]
    exact (ruleless_steps hr hs q.gradient p 0 q.source.nodes).1

/-- After any history no rule is remembered. -/
theorem ruleless_after (hr : r.registry.rules = []) (history : List (Request α)) :
    (r.after history).state.Ruleless := by
  have hfrom : ∀ s : Journaled (Decisions α), s.state.Ruleless →
      (history.foldl (fun s q => ((r.answer q).apply s).2) s).state.Ruleless := by
    induction history with
    | nil => exact fun s hs => hs
    | cons q history ih => exact fun s hs => ih _ (ruleless_answer hr hs q)
  exact hfrom r.start fun e he => absurd he List.not_mem_nil

end Replacer

end TraceSubstitution
