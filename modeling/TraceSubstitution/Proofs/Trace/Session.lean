import Mathlib.Data.List.Induction
import TraceSubstitution.Proofs.Replacement.Walk
import TraceSubstitution.Proofs.Trace.Lookups
import TraceSubstitution.Proofs.Trace.SingleAssignment

/-!
# Sessions

A session has any number of tracers, each under an identity of its own, and clients
work on them in any order: inputs are declared, calls are made with symbols of any
tracer, programs are finished and replaced. A deed that is refused leaves the session
as it was, but for a tracer that could not be finished, which is lost.

Every program that comes out of a session is in single-assignment form, and its runs
find all values (`Session.singleAssignment_run`): what one deed keeps is `Session.Sound`.
-/

namespace TraceSubstitution

variable {α : Type}

/-- What has become of an identity. -/
inductive Stage (α : Type) where
  /-- It has not been given to a tracer yet. -/
  | unused
  /-- A program is in the making. -/
  | recording (t : Tracer α)
  /-- The program has been finished with the given outputs. -/
  | finished (p : Trace α) (outputs : List Symbol)
  /-- A replacer has made the program. -/
  | replaced (p : Trace α)
  /-- The tracer has been lost. -/
  | lost

/-- The tracers and programs of a session, and what the tracers have accepted. -/
structure Session (α : Type) where
  /-- What has become of each identity. -/
  stage : TraceId → Stage α
  /-- The requests that tracers accepted, in order. -/
  history : List (TraceId × Accepted α)

/-- What can be done in a session. -/
inductive Deed (α : Type) where
  /-- Starts a tracer; identities are not used twice. -/
  | start (id : TraceId)
  /-- Declares an input. -/
  | input (id : TraceId) (type : TensorType)
  /-- Makes a call. The operands may be symbols of any tracer, or of none. -/
  | call (id : TraceId) (op : NodeOp α) (operands : List (Option Symbol)) (attrs : Attrs)
  /-- Finishes a program. -/
  | finish (id : TraceId) (outputs : List Symbol)
  /-- Asks a replacer for the forward program of a source, with whatever it remembers. -/
  | forward (id : TraceId) (r : Replacer α) (memory : Journaled (Decisions α)) (source : Trace α)

namespace Session

/-- The session before anything has been done. -/
def empty : Session α := ⟨fun _ => .unused, []⟩

/-- The session in which something else has become of an identity. -/
def put (s : Session α) (id : TraceId) (stage : Stage α) : Session α :=
  { s with stage := fun other => if other = id then stage else s.stage other }

/-- The session in which a tracer has accepted a request. -/
def note (s : Session α) (id : TraceId) (e : Accepted α) : Session α :=
  { s with history := s.history ++ [(id, e)] }

/-- The requests that the tracer of an identity has accepted, in order. -/
def accepted (s : Session α) (id : TraceId) : List (Accepted α) :=
  s.history.filterMap fun e => if e.1 = id then some e.2 else none

/-- Does one thing. -/
def perform (s : Session α) : Deed α → Session α
  | .start id =>
    match s.stage id with
    | .unused => s.put id (.recording (.empty id))
    | _ => s
  | .input id type =>
    match s.stage id with
    | .recording t =>
      (s.put id (.recording (t.input type).2)).note id (.input (t.input type).1)
    | _ => s
  | .call id op operands attrs =>
    match s.stage id with
    | .recording t =>
      match (Tracer.call op operands attrs).apply t with
      | (.ok results, t) => (s.put id (.recording t)).note id (.call ⟨op, operands, attrs, results⟩)
      | (.error _, t) => s.put id (.recording t)
    | _ => s
  | .finish id outputs =>
    match s.stage id with
    | .recording t =>
      match t.finish outputs with
      | .ok p => s.put id (.finished p outputs)
      | .error _ => s.put id .lost
    | _ => s
  | .forward id r memory source =>
    match s.stage id with
    | .unused =>
      match (r.forward id source).apply memory with
      | (.ok replaced, _) => s.put id (.replaced replaced.trace)
      | (.error _, _) => s.put id .lost
    | _ => s

/-- Does things one after the other. -/
def run (deeds : List (Deed α)) : Session α := deeds.foldl perform empty

theorem run_append_singleton (deeds : List (Deed α)) (d : Deed α) :
    run (deeds ++ [d]) = (run deeds).perform d := List.foldl_concat ..

@[simp] theorem stage_put (s : Session α) (id : TraceId) (stage : Stage α) :
    (s.put id stage).stage id = stage := if_pos rfl

theorem stage_put_of_ne (s : Session α) {id other : TraceId} (h : other ≠ id) (stage : Stage α) :
    (s.put id stage).stage other = s.stage other := if_neg h

@[simp] theorem accepted_note (s : Session α) (id : TraceId) (e : Accepted α) :
    (s.note id e).accepted id = s.accepted id ++ [e] := by
  unfold note accepted
  rw [List.filterMap_append]
  simp

theorem accepted_note_of_ne (s : Session α) {id other : TraceId} (h : other ≠ id)
    (e : Accepted α) : (s.note id e).accepted other = s.accepted other := by
  unfold note accepted
  rw [List.filterMap_append]
  simp [h.symm]

end Session

/-- What has become of an identity fits the requests that its tracer has accepted. -/
def Stage.Fits (id : TraceId) (log : List (Accepted α)) : Stage α → Prop
  | unused => log = []
  | recording t => t.Accepts id log
  | finished p outputs => p.SingleAssignment id log outputs
  | replaced p => log = [] ∧ ∃ calls outputs, p.SingleAssignment id calls outputs
  | lost => True

namespace Session

/-- Every stage fits what has been accepted under its identity, and tracers hand out symbols of
their own. -/
structure Sound (s : Session α) : Prop where
  fits : ∀ id, (s.stage id).Fits id (s.accepted id)
  own : ∀ e ∈ s.history, ∀ x ∈ e.2.results, x.trace = e.1

theorem sound_empty : (empty : Session α).Sound := ⟨fun _ => rfl, nofun⟩

variable {s : Session α} {id : TraceId}

/-- Something else becomes of an identity. -/
theorem Sound.put (h : s.Sound) {stage : Stage α} (hfits : stage.Fits id (s.accepted id)) :
    (s.put id stage).Sound := by
  refine ⟨fun other => ?_, h.own⟩
  by_cases heq : other = id
  · subst heq
    rw [stage_put]
    exact hfits
  · rw [stage_put_of_ne s heq]
    exact h.fits other

/-- The tracer of an identity goes on with a request that it accepts. -/
theorem Sound.accept (h : s.Sound) {t : Tracer α} {e : Accepted α}
    (haccepts : t.Accepts id (s.accepted id ++ [e])) :
    ((s.put id (.recording t)).note id e).Sound := by
  refine ⟨fun other => ?_, fun x hx y hy => ?_⟩
  · by_cases heq : other = id
    · subst heq
      rw [accepted_note]
      change Stage.Fits other _ ((s.put other (.recording t)).stage other)
      rw [stage_put]
      exact haccepts
    · rw [accepted_note_of_ne _ heq]
      change Stage.Fits other _ ((s.put id (.recording t)).stage other)
      rw [stage_put_of_ne s heq]
      exact h.fits other
  · rcases List.mem_append.1 hx with hx | hx
    · exact h.own x hx y hy
    · rw [List.mem_singleton.1 hx] at hy ⊢
      have hmem : y ∈ Accepted.handedOut (s.accepted id ++ [e]) := by
        rw [Accepted.handedOut_append, Accepted.handedOut_singleton]
        exact List.mem_append_right _ hy
      exact (Tracer.owns_iff.1 (haccepts.owns_iff_mem.2 hmem)).1.trans haccepts.id_eq

theorem Sound.accepts (h : s.Sound) {t : Tracer α} (hstage : s.stage id = .recording t) :
    t.Accepts id (s.accepted id) := by
  have hfits := h.fits id
  rwa [hstage] at hfits

theorem Sound.accepted_eq_nil (h : s.Sound) (hstage : s.stage id = .unused) :
    s.accepted id = [] := by
  have hfits := h.fits id
  rwa [hstage] at hfits

/-- Every deed keeps a session sound, whether it is accepted or refused. -/
theorem Sound.perform (h : s.Sound) (d : Deed α) : (s.perform d).Sound := by
  cases d with
  | start id =>
    simp only [Session.perform]
    split
    · next hstage =>
      exact h.put (h.accepted_eq_nil hstage ▸ .empty)
    · exact h
  | input id type =>
    simp only [Session.perform]
    split
    · next t hstage => exact h.accept ((h.accepts hstage).input type)
    · exact h
  | call id op operands attrs =>
    simp only [Session.perform]
    split
    · next t hstage =>
      split
      · next results t' hcall => exact h.accept ((h.accepts hstage).call hcall)
      · -- a call that is refused leaves the tracer as it was
        next e t' hcall => exact h.put (Tracer.atomic_call _ _ _ hcall ▸ h.accepts hstage)
    · exact h
  | finish id outputs =>
    simp only [Session.perform]
    split
    · next t hstage =>
      split
      · next p hfinish => exact h.put ((h.accepts hstage).singleAssignment hfinish)
      · exact h.put trivial
    · exact h
  | forward id r memory source =>
    simp only [Session.perform]
    split
    · next hstage =>
      split
      · next replaced memory' hforward =>
        obtain ⟨t, outputs, hrecorded, rfl, hfinish⟩ := Replacer.recorded_of_forward hforward
        obtain ⟨log, hlog⟩ := hrecorded.exists_accepts
        exact h.put ⟨h.accepted_eq_nil hstage, log, outputs, hlog.singleAssignment hfinish⟩
      · exact h.put trivial
    · exact h

theorem sound_run (deeds : List (Deed α)) : (run deeds).Sound := by
  induction deeds using List.reverseRecOn with
  | nil => exact sound_empty
  | append_singleton deeds d ih =>
    rw [run_append_singleton]
    exact ih.perform d

end Session

/-- Numbers that are declared are below the number of symbols, so no run misses a value. -/
theorem Trace.SingleAssignment.served {p : Trace α} {id : TraceId} {log : List (Accepted α)}
    {outputs : List Symbol} (h : p.SingleAssignment id log outputs) : p.Served := by
  refine h.closed.served fun x hx => ?_
  by_contra hge
  have hcount := h.once x
  rw [if_neg hge, List.count_eq_zero] at hcount
  exact hcount hx

namespace Session

/-- Every program that comes out of a session is in single-assignment form, with respect to the
requests that its tracer accepted, and every run of it finds the values that it looks up. The same
holds of the forward programs that a replacer makes, whatever the execution transforms do. -/
theorem singleAssignment_run (deeds : List (Deed α)) (id : TraceId) :
    (∀ p outputs, (run deeds).stage id = .finished p outputs →
      p.SingleAssignment id ((run deeds).accepted id) outputs ∧ p.Served) ∧
    (∀ p, (run deeds).stage id = .replaced p →
      (∃ log outputs, p.SingleAssignment id log outputs) ∧ p.Served) ∧
    ∀ e ∈ (run deeds).history, ∀ x ∈ e.2.results, x.trace = e.1 := by
  have hsound := sound_run deeds
  have hfits := hsound.fits id
  refine ⟨fun p outputs hstage => ?_, fun p hstage => ?_, hsound.own⟩
  · rw [hstage] at hfits
    exact ⟨hfits, Trace.SingleAssignment.served hfits⟩
  · rw [hstage] at hfits
    obtain ⟨-, log, outputs, hform⟩ := hfits
    exact ⟨⟨log, outputs, hform⟩, hform.served⟩

/-- Two tracers have a symbol of the same number and type. A sum that mixes them is refused, the
first program is finished, and a replacer makes a program from it. -/
def crossed : List (Deed Float32) :=
  let x (trace : Nat) : Option Symbol := some ⟨⟨trace⟩, ⟨0⟩, oneNumber⟩
  [.start ⟨0⟩, .start ⟨1⟩, .input ⟨0⟩ oneNumber, .input ⟨1⟩ oneNumber,
    .call ⟨0⟩ (.highLevel Core.add) [x 0, x 1] .empty,
    .call ⟨0⟩ (.highLevel Core.add) [x 0, x 0] .empty,
    .finish ⟨0⟩ [⟨⟨0⟩, ⟨1⟩, oneNumber⟩],
    .forward ⟨2⟩ Replacer.ofAdd Replacer.ofAdd.start doubling]

theorem singleAssignment_crossed :
    (run crossed).stage ⟨0⟩ = .finished doubling [⟨⟨0⟩, ⟨1⟩, oneNumber⟩] ∧
      ((run crossed).accepted ⟨0⟩).length = 2 ∧
      doubling.SingleAssignment ⟨0⟩ ((run crossed).accepted ⟨0⟩) [⟨⟨0⟩, ⟨1⟩, oneNumber⟩] ∧
      doubling.Served ∧
      ∃ p log outputs, (run crossed).stage ⟨2⟩ = .replaced p ∧
        p.SingleAssignment ⟨2⟩ log outputs ∧ p.Served := by
  have hfinished : (run crossed).stage ⟨0⟩ = .finished doubling [⟨⟨0⟩, ⟨1⟩, oneNumber⟩] := rfl
  obtain ⟨p, hreplaced⟩ : ∃ p, (run crossed).stage ⟨2⟩ = .replaced p := ⟨_, rfl⟩
  obtain ⟨hform, hserved⟩ := (singleAssignment_run crossed ⟨0⟩).1 _ _ hfinished
  obtain ⟨⟨log, outputs, hform'⟩, hserved'⟩ := (singleAssignment_run crossed ⟨2⟩).2.1 p hreplaced
  exact ⟨hfinished, rfl, hform, hserved, p, log, outputs, hreplaced, hform', hserved'⟩

end Session

end TraceSubstitution
