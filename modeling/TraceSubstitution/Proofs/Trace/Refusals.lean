import TraceSubstitution.Proofs.Trace.Recorded

/-!
# Refusals

A call, the question for an incoming gradient and a contribution to a gradient are
proposals to a program in the making, which may be refused; declaring an input and
opening or closing a capture may not. A proposal that is refused leaves the program as
it was (`Proposal.atomic_act`), so whatever is done afterwards has the same effect as if
the proposal had not been made. Hence the program that comes out of any number of moves
is the one that the accepted moves alone make: `Tracer.makeAll_accepted`.

A proposal that is accepted only adds to what is there: symbols and calls to the
program, placeholders, calls and contributions to the open capture
(`Tracer.Appends`).
-/

namespace TraceSubstitution

variable {α : Type}

/-- The second capture is the first one with more placeholders, steps and tainted symbols. -/
structure Capture.Grows (c c' : Capture α) : Prop where
  placeholders : c.placeholders <+: c'.placeholders
  steps : c.steps <+: c'.steps
  tainted : c.tainted ⊆ c'.tainted

namespace Capture

variable {c c' c'' : Capture α}

theorem Grows.refl (c : Capture α) : c.Grows c :=
  ⟨List.prefix_rfl, List.prefix_rfl, List.Subset.refl _⟩

theorem Grows.trans (h : c.Grows c') (h' : c'.Grows c'') : c.Grows c'' :=
  ⟨h.placeholders.trans h'.placeholders, h.steps.trans h'.steps,
    List.Subset.trans h.tainted h'.tainted⟩

theorem grows_addPlaceholder (c : Capture α) (placeholder primal : SymbolId) :
    c.Grows (c.addPlaceholder placeholder primal) :=
  ⟨List.prefix_append _ _, List.prefix_rfl, List.subset_cons_self _ _⟩

theorem grows_divert (c : Capture α) (n : Node α) : c.Grows (c.divert n) :=
  ⟨List.prefix_rfl, List.prefix_append _ _, List.subset_append_right _ _⟩

theorem grows_accumulate (c : Capture α) (target contribution : SymbolId) :
    c.Grows (c.accumulate target contribution) :=
  ⟨List.prefix_rfl, List.prefix_append _ _, List.Subset.refl _⟩

end Capture

/-- Something that a program in the making may refuse. -/
inductive Proposal (α : Type) where
  /-- A call of a kernel or of a high-level operator. -/
  | call (op : NodeOp α) (operands : List (Option Symbol)) (attrs : Attrs)
  /-- Asks for the gradient that flows into a symbol. -/
  | incoming (primal : Symbol)
  /-- Adds a contribution to the gradient of a symbol. -/
  | accumulate (target contribution : Symbol)

/-- What a proposal does to a program in the making; the result is the symbols that it returns. -/
def Proposal.act : Proposal α → Act (Tracer α) (List Symbol)
  | call op operands attrs => Tracer.call op operands attrs
  | incoming primal => (fun s => [s]) <$> Tracer.incomingGradient primal
  | accumulate target contribution =>
    (fun _ => []) <$> Tracer.accumulateGradient target contribution

namespace Tracer

variable {t t' t'' : Tracer α}

/-- The second program is the first one with more symbols and more calls, and so is its capture.
What the first one has is found unchanged in the second one. -/
structure Appends (t t' : Tracer α) : Prop extends t.Extends t' where
  captured : ∀ c, t.capture = some c → ∃ c', t'.capture = some c' ∧ c.Grows c'

theorem Appends.refl (t : Tracer α) : t.Appends t := ⟨.refl t, fun c hc => ⟨c, hc, .refl c⟩⟩

theorem Appends.trans (h : t.Appends t') (h' : t'.Appends t'') : t.Appends t'' := by
  refine ⟨h.toExtends.trans h'.toExtends, fun c hc => ?_⟩
  obtain ⟨c', hc', hgrows⟩ := h.captured c hc
  obtain ⟨c'', hc'', hgrows'⟩ := h'.captured c' hc'
  exact ⟨c'', hc'', hgrows.trans hgrows'⟩

theorem appends_of_call {op : NodeOp α} {operands : List (Option Symbol)} {attrs : Attrs}
    {results : List Symbol} (h : (call op operands attrs).apply t = (.ok results, t')) :
    t.Appends t' := by
  refine ⟨extends_of_call h, fun c hc => ?_⟩
  obtain ⟨bound, types, -, -, -, -, rfl⟩ := call_eq_ok_iff.1 h
  unfold append
  simp only [declare, hc]
  split
  · exact ⟨_, rfl, c.grows_divert _⟩
  · exact ⟨c, rfl, .refl c⟩

theorem appends_of_incomingGradient {primal s : Symbol}
    (h : (incomingGradient primal).apply t = (.ok s, t')) : t.Appends t' := by
  refine ⟨extends_of_incomingGradient h, fun c hc => ?_⟩
  obtain ⟨-, c₁, hc₁, hcases⟩ := incomingGradient_eq_ok_iff.1 h
  obtain rfl := Option.some.inj (hc.symm.trans hc₁)
  obtain ⟨existing, -, -, rfl⟩ | ⟨-, -, rfl⟩ := hcases
  · exact ⟨c, hc, .refl c⟩
  · exact ⟨_, rfl, c.grows_addPlaceholder _ _⟩

theorem appends_of_accumulateGradient {target contribution : Symbol}
    (h : (accumulateGradient target contribution).apply t = (.ok (), t')) : t.Appends t' := by
  refine ⟨extends_of_accumulateGradient h, fun c hc => ?_⟩
  obtain ⟨-, -, -, c₁, hc₁, rfl⟩ := accumulateGradient_eq_ok_iff.1 h
  obtain rfl := Option.some.inj (hc.symm.trans hc₁)
  exact ⟨_, rfl, c.grows_accumulate _ _⟩

end Tracer

namespace Proposal

variable {t t' : Tracer α}

/-- A proposal that is refused changes nothing. -/
theorem atomic_act : ∀ x : Proposal α, x.act.Atomic
  | call op operands attrs => Tracer.atomic_call op operands attrs
  | incoming primal => (Tracer.atomic_incomingGradient primal).map _
  | accumulate target contribution => (Tracer.atomic_accumulateGradient target contribution).map _

/-- A proposal that is accepted only adds to the program. -/
theorem appends_of_act {x : Proposal α} {results : List Symbol}
    (h : x.act.apply t = (.ok results, t')) : t.Appends t' := by
  cases x with
  | call op operands attrs => exact Tracer.appends_of_call h
  | incoming primal =>
    obtain ⟨s, t₁, hs, hpure⟩ := Act.apply_bind_eq_ok_iff.1 h
    obtain rfl : t₁ = t' := (Prod.mk.inj hpure).2
    exact Tracer.appends_of_incomingGradient hs
  | accumulate target contribution =>
    obtain ⟨⟨⟩, t₁, hs, hpure⟩ := Act.apply_bind_eq_ok_iff.1 h
    obtain rfl : t₁ = t' := (Prod.mk.inj hpure).2
    exact Tracer.appends_of_accumulateGradient hs

end Proposal

/-- Something that is done to a program in the making. -/
inductive Move (α : Type) where
  /-- Declares an input. -/
  | input (type : TensorType)
  /-- Makes a proposal. -/
  | propose (x : Proposal α)
  /-- Opens a capture. -/
  | openCapture
  /-- Closes the capture. -/
  | closeCapture

namespace Tracer

variable {t : Tracer α}

/-- The program after a move. -/
def make (t : Tracer α) : Move α → Tracer α
  | .input type => (t.input type).2
  | .propose x => (x.act.apply t).2
  | .openCapture => t.beginBackward
  | .closeCapture => t.endBackward.2

/-- The program after moves that are made one after the other. -/
def makeAll (t : Tracer α) (moves : List (Move α)) : Tracer α := moves.foldl make t

/-- Whether a move is refused. -/
def refuses (t : Tracer α) : Move α → Bool
  | .propose x => !(x.act.apply t).1.isOk
  | _ => false

/-- The moves that are not refused when all moves are made one after the other. -/
def accepted (t : Tracer α) : List (Move α) → List (Move α)
  | [] => []
  | m :: moves => if t.refuses m then t.accepted moves else m :: (t.make m).accepted moves

theorem makeAll_cons (t : Tracer α) (m : Move α) (moves : List (Move α)) :
    t.makeAll (m :: moves) = (t.make m).makeAll moves := rfl

theorem make_propose (t : Tracer α) (x : Proposal α) :
    t.make (.propose x) = (x.act.apply t).2 := rfl

theorem refuses_propose {x : Proposal α} : t.refuses (.propose x) = true ↔
    ∃ e, x.act.apply t = (.error e, t) := by
  unfold refuses
  simp only
  rcases hx : x.act.apply t with ⟨e | results, t'⟩
  · obtain rfl := x.atomic_act hx
    simp [Except.isOk, Except.toBool]
  · simp [Except.isOk, Except.toBool]

/-- A move that is refused changes nothing. -/
theorem make_of_refuses {m : Move α} (h : t.refuses m = true) : t.make m = t := by
  cases m with
  | propose x =>
    obtain ⟨e, hx⟩ := refuses_propose.1 h
    rw [make_propose, hx]
  | _ => exact nomatch h

/-- The accepted moves alone make the same program. -/
theorem makeAll_accepted (t : Tracer α) (moves : List (Move α)) :
    t.makeAll (t.accepted moves) = t.makeAll moves := by
  induction moves generalizing t with
  | nil => rfl
  | cons m moves ih =>
    unfold accepted
    rw [makeAll_cons]
    split
    · next hrefuses => rw [make_of_refuses hrefuses, ih]
    · rw [makeAll_cons, ih]

/-- None of the accepted moves is refused when they are made alone. -/
theorem accepted_accepted (t : Tracer α) (moves : List (Move α)) :
    t.accepted (t.accepted moves) = t.accepted moves := by
  induction moves generalizing t with
  | nil => rfl
  | cons m moves ih =>
    by_cases hrefuses : t.refuses m = true
    · simp only [accepted, hrefuses, ↓reduceIte, ih]
    · simp only [accepted, hrefuses, Bool.false_eq_true, ↓reduceIte, ih]

/-- Proposals only add to a program, whether they are accepted or refused. -/
theorem appends_makeAll (t : Tracer α) (proposals : List (Proposal α)) :
    t.Appends (t.makeAll (proposals.map .propose)) := by
  induction proposals generalizing t with
  | nil => exact .refl t
  | cons x proposals ih =>
    refine Appends.trans ?_ (ih (t.make (.propose x)))
    rcases hx : x.act.apply t with ⟨e | results, t'⟩
    · obtain rfl := x.atomic_act hx
      rw [make_propose, hx]
      exact .refl t'
    · rw [make_propose, hx]
      exact x.appends_of_act hx

end Tracer

namespace Proposal

variable {t : Tracer α} {e : Error}

/-- A client that goes on after the error of a refused proposal works on the program as it was. -/
theorem apply_attempt_bind_of_refused {β : Type} {x : Proposal α} {t' : Tracer α}
    (h : x.act.apply t = (.error (.error e), t'))
    (next : Except Error (List Symbol) → Act (Tracer α) β) :
    (x.act.attempt >>= next).apply t = (next (.error e)).apply t := by
  obtain rfl := x.atomic_act h
  exact Act.apply_bind_of_ok (Act.apply_attempt_of_error h) next

/-- Refused proposals have no effect: the program is as before, and whatever is done next, in any
moves or by any client, is done as if the proposal had not been made, so a program is what the
accepted moves make of it. Proposals that are accepted only add to the program. -/
theorem unseen_or_appends (t : Tracer α) :
    (∀ (x : Proposal α) e t', x.act.apply t = (.error e, t') → t' = t ∧
      ∀ moves, t.makeAll (.propose x :: moves) = t.makeAll moves) ∧
    (∀ (x : Proposal α) e t', x.act.apply t = (.error (.error e), t') →
      ∀ {β : Type} (next : Except Error (List Symbol) → Act (Tracer α) β),
        (x.act.attempt >>= next).apply t = (next (.error e)).apply t) ∧
    (∀ moves, t.makeAll (t.accepted moves) = t.makeAll moves ∧
      t.accepted (t.accepted moves) = t.accepted moves) ∧
    (∀ (x : Proposal α) results t', x.act.apply t = (.ok results, t') → t.Appends t') ∧
    ∀ proposals : List (Proposal α), t.Appends (t.makeAll (proposals.map .propose)) := by
  refine ⟨fun x e t' h => ?_, fun x e t' h _ next => apply_attempt_bind_of_refused h next,
    fun moves => ⟨t.makeAll_accepted moves, t.accepted_accepted moves⟩,
    fun x results t' h => appends_of_act h, t.appends_makeAll⟩
  obtain rfl := x.atomic_act h
  refine ⟨rfl, fun moves => ?_⟩
  rw [Tracer.makeAll_cons, Tracer.make_of_refuses (Tracer.refuses_propose.2 ⟨e, h⟩)]

/-- While a capture is open, the gradient of the input is asked for. A call that adds it to a symbol
of another program is refused. -/
theorem unseen_or_appends_foreign :
    let t : Tracer Float32 := ((Tracer.empty ⟨0⟩).input oneNumber).2.beginBackward
    let x (trace number : Nat) : Symbol := ⟨⟨trace⟩, ⟨number⟩, oneNumber⟩
    let accepted : Proposal Float32 := .incoming (x 0 0)
    let refused : Proposal Float32 := .call (.kernel Core.add) [some (x 0 1), some (x 1 0)] .empty
    let t' := t.make (.propose accepted)
    accepted.act.apply t = (.ok [x 0 1], t') ∧ t.Appends t' ∧
      refused.act.apply t' = (.error (.ofCause (.tracing (.foreignSymbol ⟨0⟩ oneNumber))), t') ∧
      ∀ moves, t'.makeAll (.propose refused :: moves) = t'.makeAll moves := by
  intro t x accepted refused t'
  have haccepted : accepted.act.apply t = (.ok [x 0 1], t') := rfl
  have hrefused : refused.act.apply t' =
      (.error (.ofCause (.tracing (.foreignSymbol ⟨0⟩ oneNumber))), t') := rfl
  obtain ⟨-, -, -, happends, -⟩ := unseen_or_appends t
  obtain ⟨hunseen, -⟩ := unseen_or_appends t'
  exact ⟨haccepted, happends accepted _ t' haccepted, hrefused, (hunseen refused _ t' hrefused).2⟩

end Proposal

end TraceSubstitution
