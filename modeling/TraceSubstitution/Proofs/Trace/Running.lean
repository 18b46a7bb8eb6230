import TraceSubstitution.Proofs.Trace.Recorded

/-!
# Running recipes

A recipe that ends with the first error runs like the actions it is made of:
`Recipe.run` takes one recipe after another to one action after another, and each
single step to what it does with the tracer.
-/

namespace TraceSubstitution

namespace Recipe

variable {α β γ : Type}

/-- One recipe and then another one: first one action, then the other. -/
theorem run_bind (r : Recipe α β) (f : β → Recipe α γ) :
    (r.bind f).run = (r.run >>= fun b => (f b).run) := by
  induction r with
  | done result =>
    cases result with
    | error e => rfl
    | ok b => rfl
  | read next ih => simp only [bind, run, ih, bind_assoc]
  | call op operands attrs next ih => simp only [bind, run, ih, bind_assoc]
  | incoming primal next ih => simp only [bind, run, ih, bind_assoc]
  | accumulate target contribution next ih => simp only [bind, run, ih, bind_assoc]

theorem run_seq (r : Recipe α β) (f : β → Recipe α γ) :
    (r >>= f).run = (r.run >>= fun b => (f b).run) := run_bind r f

theorem run_pure (b : β) : (pure b : Recipe α β).run = pure b := rfl

theorem run_lift (x : Except Failure β) : (lift x : Recipe α β).run = Act.lift x := rfl

theorem run_liftM (x : Except Failure β) : (liftM x : Recipe α β).run = Act.lift x := rfl

/-- A step that passes its error on is the action itself. -/
theorem attempt_bind_orEnd (x : Act (Tracer α) β) :
    (x.attempt >>= fun result => (orEnd (fun b => done (.ok b)) result : Recipe α β).run) = x := by
  apply Act.ext
  intro t
  rw [Act.apply_bind]
  rcases hx : x.apply t with ⟨(e | p) | b, t'⟩
  · rw [Act.apply_attempt_of_error hx]
    rfl
  · rw [Act.apply_attempt_of_panic hx]
  · rw [Act.apply_attempt_of_ok hx]
    rfl

theorem run_outputsOf (op : NodeOp α) (operands : List (Option Symbol)) (attrs : Attrs) :
    (outputsOf op operands attrs).run = Tracer.call op operands attrs := attempt_bind_orEnd _

theorem run_incomingGradient (primal : Symbol) :
    (incomingGradient primal : Recipe α Symbol).run = Tracer.incomingGradient primal :=
  attempt_bind_orEnd _

theorem run_accumulateGradient (target contribution : Symbol) :
    (accumulateGradient target contribution : Recipe α Unit).run =
      Tracer.accumulateGradient target contribution := attempt_bind_orEnd _

end Recipe

end TraceSubstitution
