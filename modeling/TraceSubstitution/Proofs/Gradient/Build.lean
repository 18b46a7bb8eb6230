import TraceSubstitution.Proofs.Core
import TraceSubstitution.Proofs.Gradient.Replay

/-!
# Building the backward part

A fragment fits if a placeholder has the type of the symbol whose gradient it
stands for, and a contribution the type of its target. Every run of a recipe
leaves a fragment that fits, since contributions of another type are refused. The
backward part that is built from such fragments never fails: the gradient of a
symbol always has the type of the symbol, so contributions can be added up.

Some symbols may be private to calls. If no fragment asks for their gradients or
contributes them to a gradient, then the only calls of the backward part that read
them are calls of fragments.
-/

namespace TraceSubstitution

variable {α : Type}

/-- Two numbers stand for symbols of one type. -/
def Alike (symbols : List TensorType) (x y : SymbolId) : Prop :=
  ∃ type, symbols[x.index]? = some type ∧ symbols[y.index]? = some type

theorem Alike.mono {symbols symbols' : List TensorType} {x y : SymbolId} (h : Alike symbols x y)
    (hle : symbols <+: symbols') : Alike symbols' x y := by
  obtain ⟨type, hx, hy⟩ := h
  exact ⟨type, Node.getElem?_of_le hle hx, Node.getElem?_of_le hle hy⟩

/-- Placeholders have the types of the symbols whose gradients they stand for, and contributions
those of their targets. -/
structure Fragment.Typed (symbols : List TensorType) (f : Fragment α) : Prop where
  placeholders : ∀ x ∈ f.placeholders, Alike symbols x.1 x.2
  contributions : ∀ target contribution, .accumulate target contribution ∈ f.steps →
    Alike symbols target contribution

theorem Fragment.Typed.mono {symbols symbols' : List TensorType} {f : Fragment α}
    (h : f.Typed symbols) (hle : symbols <+: symbols') : f.Typed symbols' :=
  ⟨fun x hx => (h.placeholders x hx).mono hle,
    fun target contribution hmem => (h.contributions target contribution hmem).mono hle⟩

/-- What a fragment asks for and contributes are not private symbols, but for placeholders. -/
structure Fragment.Public (allowed : SymbolId → Prop) (f : Fragment α) : Prop where
  primals : ∀ id ∈ f.primals, allowed id
  contributions : ∀ target contribution, .accumulate target contribution ∈ f.steps →
    contribution ∈ f.placeholderIds ∨ allowed contribution

theorem Fragment.Public.mono {allowed allowed' : SymbolId → Prop} {f : Fragment α}
    (h : f.Public allowed) (hsub : ∀ id, allowed id → allowed' id) : f.Public allowed' :=
  ⟨fun id hid => hsub id (h.primals id hid), fun target contribution hmem =>
    (h.contributions target contribution hmem).imp_right (hsub contribution)⟩

namespace Tracer

variable {t t' : Tracer α}

theorem alike_of_owns {s : Symbol} (hs : t.owns s = true) {id : SymbolId}
    (hid : t.symbols[id.index]? = some s.type) : Alike t.symbols id s.id :=
  ⟨s.type, hid, (owns_iff.1 hs).2⟩

/-- The fragment of the open capture fits. -/
def CapturesTyped (t : Tracer α) : Prop :=
  ∃ c, t.capture = some c ∧ c.toFragment.Typed t.symbols

theorem capturesTyped_beginBackward (t : Tracer α) : t.beginBackward.CapturesTyped :=
  ⟨.empty, rfl, nofun, nofun⟩

theorem CapturesTyped.call (h : t.CapturesTyped) {op : NodeOp α} {operands : List (Option Symbol)}
    {attrs : Attrs} {results : List Symbol}
    (hcall : (Tracer.call op operands attrs).apply t = (.ok results, t')) : t'.CapturesTyped := by
  obtain ⟨c, hc, htyped⟩ := h
  have hle := (extends_of_call hcall).symbols
  obtain ⟨n, types, -, -, -, rfl⟩ := call_of_capture hc hcall
  cases hdiverts : t.diverts operands with
  | true =>
    rw [hdiverts] at hle
    refine ⟨c.divert n, rfl, (htyped.mono hle).placeholders, fun target contribution hmem => ?_⟩
    rcases List.mem_append.1 hmem with hmem | hmem
    · exact (htyped.mono hle).contributions target contribution hmem
    · exact nomatch List.mem_singleton.1 hmem
  | false =>
    rw [hdiverts] at hle
    exact ⟨c, hc, htyped.mono hle⟩

theorem CapturesTyped.incomingGradient (h : t.CapturesTyped) {primal gradient : Symbol}
    (hincoming : (Tracer.incomingGradient primal).apply t = (.ok gradient, t')) :
    t'.CapturesTyped := by
  obtain ⟨c, hc, htyped⟩ := h
  have hle := (extends_of_incomingGradient hincoming).symbols
  obtain ⟨howned, c', hc', ⟨_, -, -, rfl⟩ | ⟨-, -, rfl⟩⟩ :=
    incomingGradient_eq_ok_iff.1 hincoming
  · exact ⟨c, hc, htyped⟩
  · obtain rfl : c' = c := Option.some.inj (hc'.symm.trans hc)
    refine ⟨_, rfl, fun x hx => ?_, (htyped.mono hle).contributions⟩
    rcases List.mem_append.1 hx with hx | hx
    · exact (htyped.mono hle).placeholders x hx
    · rw [List.mem_singleton.1 hx]
      refine ⟨primal.type, ?_, Node.getElem?_of_le hle (owns_iff.1 howned).2⟩
      simp [declare, nextId]

theorem CapturesTyped.accumulateGradient (h : t.CapturesTyped) {target contribution : Symbol}
    (haccumulate : (Tracer.accumulateGradient target contribution).apply t = (.ok (), t')) :
    t'.CapturesTyped := by
  obtain ⟨c, hc, htyped⟩ := h
  obtain ⟨htarget, hcontribution, htype, c', hc', rfl⟩ :=
    accumulateGradient_eq_ok_iff.1 haccumulate
  obtain rfl : c' = c := Option.some.inj (hc'.symm.trans hc)
  refine ⟨_, rfl, htyped.placeholders, fun target' contribution' hmem => ?_⟩
  rcases List.mem_append.1 hmem with hmem | hmem
  · exact htyped.contributions target' contribution' hmem
  · obtain ⟨rfl, rfl⟩ := BackwardStep.accumulate.inj (List.mem_singleton.1 hmem)
    exact alike_of_owns hcontribution (htype ▸ (owns_iff.1 htarget).2)

/-- Every run leaves a fragment that fits. -/
theorem CapturesTyped.run {β : Type} {r : Recipe α β} (h : t.CapturesTyped) {b : β}
    (hrun : r.run.apply t = (.ok b, t')) : t'.CapturesTyped :=
  Recipe.keeps_of_run (fun _ _ _ _ _ _ ht hcall => ht.call hcall)
    (fun _ _ _ _ ht hincoming => ht.incomingGradient hincoming)
    (fun _ _ _ _ ht haccumulate => ht.accumulateGradient haccumulate) h hrun

theorem CapturesTyped.endBackward (h : t.CapturesTyped) :
    t.endBackward.1.Typed t.endBackward.2.symbols := by
  obtain ⟨c, hc, htyped⟩ := h
  unfold Tracer.endBackward
  rw [hc]
  exact htyped

theorem symbol_eq_ok {id : SymbolId} {type : TensorType} (h : t.symbols[id.index]? = some type) :
    t.symbol id = .ok ⟨t.id, id, type⟩ := by
  unfold symbol
  rw [h]
  rfl

/-- A call of a kernel operator without static arguments, with one result, that is accepted. -/
theorem apply_single_call (ht : t.capture = none) (o : Operator α)
    (operands : List (Option Symbol)) {type : TensorType}
    (hinfer : o.infer (operands.map (·.map Symbol.type)) .empty = .ok [type])
    (hbind : o.bind (operands.map (·.map Symbol.type)) .empty = .ok .empty)
    (howned : ∀ s, some s ∈ operands → t.owns s = true) :
    (do single (← call (.kernel o) operands .empty) : Act (Tracer α) Symbol).apply t =
      (.ok ⟨t.id, t.nextId, type⟩, { t with
        symbols := t.symbols ++ [type]
        nodes := t.nodes ++ [⟨.kernel o, operands.map (·.map Symbol.id), .empty, [t.nextId]⟩] }) := by
  obtain ⟨bound, hbound, hinferred⟩ := Operator.infer_eq_ok_iff.1 hinfer
  obtain rfl : Dict.empty = bound := Except.ok.inj (hbind.symm.trans hbound)
  have hcall : (call (.kernel o) operands .empty).apply t = (.ok (t.fresh [type]), _) :=
    call_eq_ok_iff.2 ⟨.empty, [type], hbind, hinferred, howned, rfl, rfl⟩
  rw [Act.apply_bind, hcall, declare_append ht]
  rfl

end Tracer

namespace Backward

/-- The gradients so far have the types of the symbols they belong to, and are allowed; so is
everything that is still to come. -/
structure Typed (allowed : SymbolId → Prop) (b : Backward α) : Prop where
  capture : b.1.capture = none
  fresh : ∀ id : SymbolId, b.1.symbols.length ≤ id.index → allowed id
  bound : ∀ id g, b.2.get? id = some g →
    b.1.owns g = true ∧ b.1.symbols[id.index]? = some g.type ∧ allowed g.id

variable {allowed : SymbolId → Prop} {b : Backward α}

theorem Typed.record (h : b.Typed allowed) (type : TensorType) (n : Node α) : Typed allowed
    ({ b.1 with symbols := b.1.symbols ++ [type], nodes := b.1.nodes ++ [n] }, b.2) := by
  have hle : b.1.symbols <+: b.1.symbols ++ [type] := List.prefix_append _ _
  refine ⟨h.capture, fun id hid => h.fresh id (Nat.le_trans hle.length_le hid), fun id g hg => ?_⟩
  obtain ⟨howned, htype, hallowed⟩ := h.bound id g hg
  obtain ⟨htrace, hget⟩ := Tracer.owns_iff.1 howned
  exact ⟨Tracer.owns_iff.2 ⟨htrace, Node.getElem?_of_le hle hget⟩, Node.getElem?_of_le hle htype,
    hallowed⟩

/-- The fresh symbol is allowed, and the program has it. -/
theorem Typed.fresh_record (h : b.Typed allowed) (type : TensorType) (n : Node α) :
    Tracer.owns { b.1 with symbols := b.1.symbols ++ [type], nodes := b.1.nodes ++ [n] }
      ⟨b.1.id, b.1.nextId, type⟩ = true ∧ allowed b.1.nextId := by
  refine ⟨Tracer.owns_iff.2 ⟨rfl, ?_⟩, h.fresh b.1.nextId (Nat.le_refl _)⟩
  simp [Tracer.nextId]

theorem Typed.insert (h : b.Typed allowed) {primal : SymbolId} {g : Symbol}
    (hg : b.1.owns g = true) (htype : b.1.symbols[primal.index]? = some g.type)
    (hallowed : allowed g.id) : Typed allowed (b.1, b.2.insert primal g) := by
  refine ⟨h.capture, h.fresh, fun id g' hg' => ?_⟩
  rw [SymbolMap.get?_insert] at hg'
  split at hg'
  · next heq =>
    obtain rfl := Option.some.inj hg'
    rw [heq]
    exact ⟨hg, htype, hallowed⟩
  · exact h.bound id g' hg'

end Backward

variable [Scalar α]

theorem Core.bind_zerosLike {τ : Type} (x : τ) :
    (Core.zerosLike : Operator α).bind [some x] .empty = .ok .empty := rfl

theorem Core.infer_zerosLike (type : TensorType) :
    (Core.zerosLike : Operator α).infer [some type] .empty = .ok [type] := rfl

/-- The calls that add up contributions or make zeros, and read only allowed symbols. -/
def Node.GathersFrom (allowed : SymbolId → Prop) (n : Node α) : Prop :=
  n.Gathers ∧ ∀ id, some id ∈ n.inputs → allowed id

namespace Backward

/-- The second program has all symbols and calls of the first one, and then the given calls with
sums and zeros in between. -/
structure Adds (allowed : SymbolId → Prop) (calls : List (Node α)) (b b' : Backward α) : Prop where
  id : b'.1.id = b.1.id
  symbols : b.1.symbols <+: b'.1.symbols
  nodes : ∃ backward, b'.1.nodes = b.1.nodes ++ backward ∧
    Node.Interleaved (Node.GathersFrom allowed) calls backward

variable {allowed : SymbolId → Prop} {calls calls' : List (Node α)} {b b' b'' : Backward α}

theorem Adds.refl (b : Backward α) : Adds allowed [] b b :=
  ⟨rfl, List.prefix_rfl, [], (List.append_nil _).symm, .nil⟩

theorem Adds.trans (h : Adds allowed calls b b') (h' : Adds allowed calls' b' b'') :
    Adds allowed (calls ++ calls') b b'' := by
  obtain ⟨backward, hbackward, hcalls⟩ := h.nodes
  obtain ⟨backward', hbackward', hcalls'⟩ := h'.nodes
  refine ⟨h'.id.trans h.id, h.symbols.trans h'.symbols, backward ++ backward', ?_,
    hcalls.append hcalls'⟩
  rw [hbackward', hbackward, List.append_assoc]

theorem Adds.owns (h : Adds allowed calls b b') {s : Symbol} (hs : b.1.owns s = true) :
    b'.1.owns s = true := by
  obtain ⟨htrace, hget⟩ := Tracer.owns_iff.1 hs
  exact Tracer.owns_iff.2 ⟨htrace.trans h.id.symm, Node.getElem?_of_le h.symbols hget⟩

/-- A sum or zeros, with a fresh symbol as the output. -/
theorem Adds.record (b : Backward α) (type : TensorType) {n : Node α}
    (hn : n.GathersFrom allowed) : Adds allowed [] b
      ({ b.1 with symbols := b.1.symbols ++ [type], nodes := b.1.nodes ++ [n] }, b.2) :=
  ⟨rfl, List.prefix_append _ _, [n], rfl, .other hn .nil⟩

theorem Adds.insert (h : Adds allowed calls b b') (primal : SymbolId) (g : Symbol) :
    Adds allowed calls b (b'.1, b'.2.insert primal g) := ⟨h.id, h.symbols, h.nodes⟩

theorem Typed.accumulate (h : b.Typed allowed) (primal : SymbolId) {x : Symbol}
    (hx : b.1.owns x = true) (htype : b.1.symbols[primal.index]? = some x.type)
    (hallowed : allowed x.id) : ∃ b', (GradientBinding.accumulate primal x).apply b = (.ok (), b') ∧
      Typed allowed b' ∧ Adds allowed [] b b' := by
  obtain ⟨t, grads⟩ := b
  cases hget : grads.get? primal with
  | none =>
    exact ⟨_, GradientBinding.apply_accumulate_of_none hget x, h.insert hx htype hallowed, rfl,
      List.prefix_rfl, [], (List.append_nil _).symm, .nil⟩
  | some existing =>
    obtain ⟨howned, hexisting, hallowed'⟩ := h.bound primal existing hget
    have hsame : existing.type = x.type := Option.some.inj (hexisting.symm.trans htype)
    have hsum := Tracer.apply_single_call h.capture Core.add [some existing, some x]
      (by simpa [hsame] using Core.infer_add x.type) (Core.bind_add _ _) (fun s hs => by
        rcases List.mem_pair.1 hs with hs | hs
        · exact Option.some.inj hs ▸ howned
        · exact Option.some.inj hs ▸ hx)
    have hgathers : Node.GathersFrom allowed
        (Node.add existing.id x.id t.nextId : Node α) := by
      refine ⟨.inl ⟨_, _, _, rfl⟩, fun id hid => ?_⟩
      rcases List.mem_pair.1 hid with hid | hid
      · exact Option.some.inj hid ▸ hallowed'
      · exact Option.some.inj hid ▸ hallowed
    have hrecorded := h.record x.type (Node.add existing.id x.id t.nextId)
    obtain ⟨hfresh, hfreshAllowed⟩ := h.fresh_record x.type (Node.add existing.id x.id t.nextId)
    refine ⟨_, GradientBinding.apply_accumulate_of_some hget hsum, ?_,
      (Adds.record (t, grads) x.type hgathers).insert primal _⟩
    exact hrecorded.insert hfresh (Node.getElem?_of_le (List.prefix_append _ _) htype)
      hfreshAllowed

theorem Typed.addCotangent (h : b.Typed allowed) {output : Symbol}
    (howned : b.1.owns output = true) : ∃ b', (addCotangent output).apply b = (.ok (), b') ∧
      Typed allowed b' ∧ Adds allowed [] b b' := by
  obtain ⟨t, grads⟩ := b
  have hle : t.symbols <+: t.symbols ++ [output.type] := List.prefix_append _ _
  have hinput : Typed allowed ((t.input output.type).2, grads) := by
    refine ⟨h.capture, fun id hid => h.fresh id (Nat.le_trans hle.length_le hid),
      fun id g hg => ?_⟩
    obtain ⟨hg, htype, hallowed⟩ := h.bound id g hg
    obtain ⟨htrace, hget⟩ := Tracer.owns_iff.1 hg
    exact ⟨Tracer.owns_iff.2 ⟨htrace, Node.getElem?_of_le hle hget⟩, Node.getElem?_of_le hle htype,
      hallowed⟩
  have hcotangent : (t.input output.type).2.owns (t.input output.type).1 = true := by
    refine Tracer.owns_iff.2 ⟨rfl, ?_⟩
    simp [Tracer.input, Tracer.declare, Tracer.nextId]
  obtain ⟨b', haccumulate, htyped, hadds⟩ := hinput.accumulate output.id hcotangent
    (Node.getElem?_of_le hle (Tracer.owns_iff.1 howned).2) (h.fresh t.nextId (Nat.le_refl _))
  exact ⟨b', haccumulate, htyped, hadds.id, hle.trans hadds.symbols, hadds.nodes⟩

theorem Typed.addCotangents {outputs : List Symbol} (h : b.Typed allowed)
    (howned : ∀ s ∈ outputs, b.1.owns s = true) :
    ∃ b', (outputs.forM Backward.addCotangent).apply b = (.ok (), b') ∧
      Typed allowed b' ∧ Adds allowed [] b b' := by
  induction outputs generalizing b with
  | nil => exact ⟨b, rfl, h, .refl b⟩
  | cons output outputs ih =>
    obtain ⟨houtput, howned⟩ := List.forall_mem_cons.1 howned
    obtain ⟨b₁, hone, h₁, hadds₁⟩ := h.addCotangent houtput
    obtain ⟨b', hrest, h', hadds⟩ := ih h₁ fun s hs => hadds₁.owns (howned s hs)
    exact ⟨b', Act.apply_bind_eq_ok_iff.2 ⟨(), b₁, hone, hrest⟩, h', hadds₁.trans hadds⟩

/-- A gradient that is asked for has the type of the symbol it belongs to. -/
theorem Typed.gradientOrZeros (h : b.Typed allowed) {s : Symbol} (hs : b.1.owns s = true)
    (hallowed : allowed s.id) {primal : Act (Tracer α) Symbol}
    (hprimal : primal.apply b.1 = (.ok s, b.1)) :
    ∃ g b', (gradientOrZeros s.id primal).apply b = (.ok g, b') ∧ Typed allowed b' ∧
      Adds allowed [] b b' ∧ b'.1.owns g = true ∧ g.type = s.type ∧ allowed g.id := by
  obtain ⟨t, grads⟩ := b
  unfold Backward.gradientOrZeros
  rw [Act.apply_bind, Act.apply_get]
  cases hget : grads.get? s.id with
  | some g =>
    obtain ⟨hg, htype, hallowed'⟩ := h.bound s.id g hget
    have hsame : g.type = s.type :=
      Option.some.inj (htype.symm.trans (Tracer.owns_iff.1 hs).2)
    refine ⟨g, (t, grads), ?_, h, .refl _, hg, hsame, hallowed'⟩
    simp only [hget, Act.apply_pure]
  | none =>
    have hzeros := Tracer.apply_single_call h.capture Core.zerosLike [some s]
      (Core.infer_zerosLike s.type) (Core.bind_zerosLike _)
      (fun s' hs' => Option.some.inj (List.mem_singleton.1 hs') ▸ hs)
    have hgathers : Node.GathersFrom allowed (Node.zerosLike s.id t.nextId : Node α) := by
      refine ⟨.inr ⟨_, _, rfl⟩, fun id hid => ?_⟩
      exact Option.some.inj (List.mem_singleton.1 hid) ▸ hallowed
    obtain ⟨hfresh, hfreshAllowed⟩ := h.fresh_record s.type (Node.zerosLike s.id t.nextId)
    refine ⟨⟨t.id, t.nextId, s.type⟩, _, ?_, h.record s.type (Node.zerosLike s.id t.nextId),
      .record (t, grads) s.type hgathers, hfresh, rfl, hfreshAllowed⟩
    have hmake : (do Core.traceZerosLike (← primal) : Act (Tracer α) Symbol).apply t = _ :=
      Act.apply_bind_eq_ok_iff.2 ⟨s, t, hprimal, hzeros⟩
    simp only [hget, apply_onTracer, hmake]
    rfl

/-- The numbers in a list are renamed to allowed symbols of the same types, and no others are
renamed. -/
structure Renames (allowed : SymbolId → Prop) (symbols : List TensorType) (ids : List SymbolId)
    (m : SymbolMap SymbolId) : Prop where
  bound : ∀ id g, m.get? id = some g → Alike symbols id g ∧ allowed g
  domain : ∀ id, (m.get? id).isSome = true ↔ id ∈ ids

omit [Scalar α] in
/-- Nothing is renamed at first. -/
theorem renames_empty (allowed : SymbolId → Prop) (symbols : List TensorType) :
    Renames allowed symbols [] .empty where
  bound _ _ h := nomatch h
  domain _ := iff_of_false Bool.false_ne_true List.not_mem_nil

omit [Scalar α] in
theorem Renames.mono {symbols symbols' : List TensorType} {ids : List SymbolId}
    {m : SymbolMap SymbolId} (h : Renames allowed symbols ids m) (hle : symbols <+: symbols') :
    Renames allowed symbols' ids m :=
  ⟨fun id g hg => ⟨(h.bound id g hg).1.mono hle, (h.bound id g hg).2⟩, h.domain⟩

theorem Typed.resolveOne (h : b.Typed allowed) {ids : List SymbolId} {m : SymbolMap SymbolId}
    (hm : Renames allowed b.1.symbols ids m) {x : SymbolId × SymbolId}
    (hx : Alike b.1.symbols x.1 x.2) (hallowed : allowed x.2) :
    ∃ m' b', (resolveOne m x).apply b = (.ok m', b') ∧ Typed allowed b' ∧ Adds allowed [] b b' ∧
      Renames allowed b'.1.symbols (ids ++ [x.1]) m' := by
  obtain ⟨type, hplaceholder, hprimal⟩ := hx
  have howned : b.1.owns ⟨b.1.id, x.2, type⟩ = true := Tracer.owns_iff.2 ⟨rfl, hprimal⟩
  have hsymbol : (do Act.lift ((← get).symbol x.2) : Act (Tracer α) Symbol).apply b.1 =
      (.ok ⟨b.1.id, x.2, type⟩, b.1) :=
    Prod.ext (Tracer.symbol_eq_ok hprimal) rfl
  obtain ⟨g, b', hgradient, h', hadds, hg, htype, hallowed'⟩ :=
    h.gradientOrZeros howned hallowed hsymbol
  refine ⟨m.insert x.1 g.id, b', Act.apply_bind_eq_ok_iff.2 ⟨g, b', hgradient, rfl⟩, h', hadds,
    fun id g' hg' => ?_, fun id => ?_⟩
  · rw [SymbolMap.get?_insert] at hg'
    split at hg'
    · next heq =>
      obtain rfl := Option.some.inj hg'
      rw [heq]
      refine ⟨⟨type, Node.getElem?_of_le hadds.symbols hplaceholder, ?_⟩, hallowed'⟩
      rw [(Tracer.owns_iff.1 hg).2, htype]
    · exact (hm.mono hadds.symbols).bound id g' hg'
  · rw [SymbolMap.get?_insert, List.mem_append, List.mem_singleton, ← hm.domain]
    by_cases heq : id = x.1
    · simp [heq]
    · simp [heq]

theorem Typed.resolve {placeholders : List (SymbolId × SymbolId)} (h : b.Typed allowed)
    {ids : List SymbolId} {m : SymbolMap SymbolId} (hm : Renames allowed b.1.symbols ids m)
    (halike : ∀ x ∈ placeholders, Alike b.1.symbols x.1 x.2)
    (hallowed : ∀ x ∈ placeholders, allowed x.2) :
    ∃ m' b', (placeholders.foldlM Backward.resolveOne m).apply b = (.ok m', b') ∧
      Typed allowed b' ∧ Adds allowed [] b b' ∧
        Renames allowed b'.1.symbols (ids ++ placeholders.map Prod.fst) m' := by
  induction placeholders generalizing m b ids with
  | nil => exact ⟨m, b, rfl, h, .refl b, (List.append_nil ids).symm ▸ hm⟩
  | cons x placeholders ih =>
    obtain ⟨hx, halike⟩ := List.forall_mem_cons.1 halike
    obtain ⟨hxallowed, hallowed⟩ := List.forall_mem_cons.1 hallowed
    obtain ⟨m₁, b₁, hone, h₁, hadds₁, hm₁⟩ := h.resolveOne hm hx hxallowed
    obtain ⟨m', b', hrest, h', hadds, hm'⟩ :=
      ih h₁ hm₁ (fun y hy => (halike y hy).mono hadds₁.symbols) hallowed
    refine ⟨m', b', ?_, h', hadds₁.trans hadds, ?_⟩
    · rw [List.foldlM_cons]
      exact Act.apply_bind_eq_ok_iff.2 ⟨m₁, b₁, hone, hrest⟩
    · rwa [List.append_assoc] at hm'

omit [Scalar α] in
/-- Renaming keeps the types of symbols. -/
theorem Renames.getElem?_rename {symbols : List TensorType} {ids : List SymbolId}
    {m : SymbolMap SymbolId} (h : Renames allowed symbols ids m) {id : SymbolId}
    {type : TensorType} (hid : symbols[id.index]? = some type) :
    symbols[(m.rename id).index]? = some type := by
  unfold SymbolMap.rename
  cases hget : m.get? id with
  | none => exact hid
  | some g =>
    obtain ⟨type', htype, hg⟩ := (h.bound id g hget).1
    exact hg.trans (htype.symm.trans hid)

omit [Scalar α] in
theorem Renames.allowed_rename {symbols : List TensorType} {ids : List SymbolId}
    {m : SymbolMap SymbolId} (h : Renames allowed symbols ids m) {id : SymbolId}
    (hid : id ∈ ids ∨ allowed id) : allowed (m.rename id) := by
  unfold SymbolMap.rename
  cases hget : m.get? id with
  | none =>
    rcases hid with hid | hid
    · have hsome := (h.domain id).2 hid
      rw [hget] at hsome
      exact absurd hsome Bool.false_ne_true
    · exact hid
  | some g => exact (h.bound id g hget).2

omit [Scalar α] in
theorem Renames.rename_eq {symbols : List TensorType} {ids : List SymbolId} {m : SymbolMap SymbolId}
    (h : Renames allowed symbols ids m) {id : SymbolId} (hid : id ∉ ids) : m.rename id = id := by
  unfold SymbolMap.rename
  cases hget : m.get? id with
  | none => rfl
  | some g => exact absurd ((h.domain id).1 (hget ▸ rfl)) hid

omit [Scalar α] in
/-- Symbols that come before the one that is renamed keep their numbers. -/
theorem Renames.map_rename_of_lt {symbols : List TensorType} {d : SymbolId}
    {m : SymbolMap SymbolId} (h : Renames allowed symbols [d] m) {ids : List SymbolId}
    (hids : ∀ id ∈ ids, id.index < d.index) : ids.map m.rename = ids := by
  refine (List.map_congr_left fun id hid => h.rename_eq fun hmem => ?_).trans (List.map_id' ids)
  rw [List.mem_singleton.1 hmem] at hid
  exact absurd (hids d hid) (Nat.lt_irrefl _)

theorem Typed.replayStep (h : b.Typed allowed) {ids : List SymbolId} {m : SymbolMap SymbolId}
    (hm : Renames allowed b.1.symbols ids m) {s : BackwardStep α}
    (hs : ∀ target contribution, s = .accumulate target contribution →
      Alike b.1.symbols target contribution ∧ (contribution ∈ ids ∨ allowed contribution)) :
    ∃ b', (replayStep m s).apply b = (.ok (), b') ∧ Typed allowed b' ∧
      Adds allowed (s.calls m) b b' := by
  obtain ⟨t, grads⟩ := b
  cases s with
  | node n =>
    refine ⟨(t.replay n m, grads), rfl, ⟨h.capture, h.fresh, h.bound⟩, rfl, List.prefix_rfl,
      [n.renamed m], rfl, .call _ .nil⟩
  | accumulate target contribution =>
    obtain ⟨⟨type, htarget, hcontribution⟩, hpublic⟩ := hs target contribution rfl
    have hrenamed := hm.getElem?_rename hcontribution
    have hsymbol := Tracer.symbol_eq_ok hrenamed
    have howned : t.owns ⟨t.id, m.rename contribution, type⟩ = true :=
      Tracer.owns_iff.2 ⟨rfl, hrenamed⟩
    obtain ⟨b', haccumulate, h', hadds⟩ :=
      h.accumulate target howned htarget (hm.allowed_rename hpublic)
    exact ⟨b', Act.apply_bind_eq_ok_iff.2 ⟨_, (t, grads), Prod.ext hsymbol rfl, haccumulate⟩, h',
      hadds⟩

theorem Typed.replaySteps {steps : List (BackwardStep α)} (h : b.Typed allowed)
    {ids : List SymbolId} {m : SymbolMap SymbolId} (hm : Renames allowed b.1.symbols ids m)
    (hsteps : ∀ target contribution, .accumulate target contribution ∈ steps →
      Alike b.1.symbols target contribution ∧ (contribution ∈ ids ∨ allowed contribution)) :
    ∃ b', (steps.forM (Backward.replayStep m)).apply b = (.ok (), b') ∧ Typed allowed b' ∧
      Adds allowed (steps.flatMap (BackwardStep.calls m)) b b' := by
  induction steps generalizing b with
  | nil => exact ⟨b, rfl, h, .refl b⟩
  | cons s steps ih =>
    obtain ⟨b₁, hone, h₁, hadds₁⟩ := h.replayStep hm fun target contribution hs =>
      hsteps target contribution (hs ▸ List.mem_cons_self)
    obtain ⟨b', hrest, h', hadds⟩ := ih h₁ (hm.mono hadds₁.symbols)
      fun target contribution hmem => by
        obtain ⟨halike, hpublic⟩ := hsteps target contribution (List.mem_cons_of_mem s hmem)
        exact ⟨halike.mono hadds₁.symbols, hpublic⟩
    exact ⟨b', Act.apply_bind_eq_ok_iff.2 ⟨(), b₁, hone, hrest⟩, h', hadds₁.trans hadds⟩

/-- A fragment that fits can be replayed. -/
theorem Typed.replay (h : b.Typed allowed) {f : Fragment α} (htyped : f.Typed b.1.symbols)
    (hpublic : f.Public allowed) : ∃ m b', (Backward.replay f).apply b = (.ok (), b') ∧
      Typed allowed b' ∧ Adds allowed (f.calls m) b b' ∧
        Renames allowed b'.1.symbols f.placeholderIds m := by
  have hempty : Renames allowed b.1.symbols [] .empty :=
    ⟨nofun, fun id => ⟨nofun, fun hid => absurd hid List.not_mem_nil⟩⟩
  obtain ⟨m, b₁, hresolve, h₁, hadds₁, hm⟩ := h.resolve hempty htyped.placeholders
    fun x hx => hpublic.primals x.2 (List.mem_map_of_mem hx)
  obtain ⟨b', hsteps, h', hadds⟩ := h₁.replaySteps hm fun target contribution hmem =>
    ⟨(htyped.contributions target contribution hmem).mono hadds₁.symbols,
      hpublic.contributions target contribution hmem⟩
  refine ⟨m, b', ?_, h', hadds₁.trans hadds, hm.mono hadds.symbols⟩
  unfold Backward.replay
  rw [resolve_eq]
  exact Act.apply_bind_eq_ok_iff.2 ⟨m, b₁, hresolve, hsteps⟩

theorem Typed.replayAll {fragments : List (Fragment α)} (h : b.Typed allowed)
    (htyped : ∀ f ∈ fragments, f.Typed b.1.symbols)
    (hpublic : ∀ f ∈ fragments, f.Public allowed) :
    ∃ replayed : List (Fragment α × SymbolMap SymbolId), ∃ b',
      (fragments.forM Backward.replay).apply b = (.ok (), b') ∧
        replayed.map Prod.fst = fragments ∧ Typed allowed b' ∧
        Adds allowed (replayed.flatMap fun x => x.1.calls x.2) b b' ∧
        ∀ x ∈ replayed, Renames allowed b'.1.symbols x.1.placeholderIds x.2 := by
  induction fragments generalizing b with
  | nil => exact ⟨[], b, rfl, rfl, h, .refl b, nofun⟩
  | cons f fragments ih =>
    obtain ⟨hf, htyped⟩ := List.forall_mem_cons.1 htyped
    obtain ⟨hfpublic, hpublic⟩ := List.forall_mem_cons.1 hpublic
    obtain ⟨m, b₁, hone, h₁, hadds₁, hm⟩ := h.replay hf hfpublic
    obtain ⟨replayed, b', hrest, hreplayed, h', hadds, hall⟩ :=
      ih h₁ (fun g hg => (htyped g hg).mono hadds₁.symbols) hpublic
    exact ⟨(f, m) :: replayed, b', Act.apply_bind_eq_ok_iff.2 ⟨(), b₁, hone, hrest⟩,
      congrArg (f :: ·) hreplayed, h', hadds₁.trans hadds,
      List.forall_mem_cons.2 ⟨hm.mono hadds.symbols, hall⟩⟩

theorem Typed.gradientsOrZeros {inputs : List Symbol} (h : b.Typed allowed)
    (howned : ∀ s ∈ inputs, b.1.owns s = true) (hallowed : ∀ s ∈ inputs, allowed s.id) :
    ∃ gradients b', (inputs.mapM fun input => Backward.gradientOrZeros input.id (pure input)).apply b
        = (.ok gradients, b') ∧ Typed allowed b' ∧ Adds allowed [] b b' ∧
      ∀ g ∈ gradients, b'.1.owns g = true ∧ allowed g.id := by
  induction inputs generalizing b with
  | nil => exact ⟨[], b, rfl, h, .refl b, nofun⟩
  | cons input inputs ih =>
    obtain ⟨hinput, howned⟩ := List.forall_mem_cons.1 howned
    obtain ⟨hinputAllowed, hallowed⟩ := List.forall_mem_cons.1 hallowed
    obtain ⟨g, b₁, hone, h₁, hadds₁, hg, -, hgAllowed⟩ :=
      h.gradientOrZeros hinput hinputAllowed (Act.apply_pure input b.1)
    obtain ⟨gradients, b', hrest, h', hadds, hall⟩ :=
      ih h₁ (fun s hs => hadds₁.owns (howned s hs)) hallowed
    refine ⟨g :: gradients, b', ?_, h', hadds₁.trans hadds,
      List.forall_mem_cons.2 ⟨⟨hadds.owns hg, hgAllowed⟩, hall⟩⟩
    rw [List.mapM_cons]
    exact Act.apply_bind_eq_ok_iff.2 ⟨g, b₁, hone,
      Act.apply_bind_eq_ok_iff.2 ⟨gradients, b', hrest, rfl⟩⟩

/-- The backward part can be built from fragments that fit. It consists of their calls, with sums
and zeros of allowed symbols in between, and the gradients are allowed symbols as well. -/
theorem build_eq_ok {t : Tracer α} (ht : t.capture = none)
    (hfresh : ∀ id : SymbolId, t.symbols.length ≤ id.index → allowed id)
    {outputs inputs : List Symbol} {fragments : List (Fragment α)}
    (houtputs : ∀ s ∈ outputs, t.owns s = true)
    (hinputs : ∀ s ∈ inputs, t.owns s = true ∧ allowed s.id)
    (htyped : ∀ f ∈ fragments, f.Typed t.symbols) (hpublic : ∀ f ∈ fragments, f.Public allowed) :
    ∃ replayed : List (Fragment α × SymbolMap SymbolId), ∃ gradients b',
      (build outputs inputs fragments).apply (t, .empty) = (.ok gradients, b') ∧
        replayed.map Prod.fst = fragments.reverse ∧ b'.1.capture = none ∧
        Adds allowed (replayed.flatMap fun x => x.1.calls x.2) (t, .empty) b' ∧
        (∀ x ∈ replayed, Renames allowed b'.1.symbols x.1.placeholderIds x.2) ∧
        ∀ g ∈ gradients, b'.1.owns g = true ∧ allowed g.id := by
  have hstart : Typed allowed ((t, .empty) : Backward α) := ⟨ht, hfresh, nofun⟩
  obtain ⟨b₁, hcotangents, h₁, hadds₁⟩ := hstart.addCotangents houtputs
  obtain ⟨replayed, b₂, hreplay, hreplayed, h₂, hadds₂, hrenames⟩ := h₁.replayAll
    (fun f hf => (htyped f (List.mem_reverse.1 hf)).mono hadds₁.symbols)
    fun f hf => hpublic f (List.mem_reverse.1 hf)
  have hadds₁₂ := hadds₁.trans hadds₂
  obtain ⟨gradients, b', hgradients, h', hadds₃, hall⟩ := h₂.gradientsOrZeros
    (fun s hs => hadds₁₂.owns (hinputs s hs).1) fun s hs => (hinputs s hs).2
  refine ⟨replayed, gradients, b', ?_, hreplayed, h'.capture, ?_,
    fun x hx => (hrenames x hx).mono hadds₃.symbols, hall⟩
  · exact Act.apply_bind_eq_ok_iff.2 ⟨(), b₁, hcotangents,
      Act.apply_bind_eq_ok_iff.2 ⟨(), b₂, hreplay, hgradients⟩⟩
  · have hall := hadds₁₂.trans hadds₃
    rwa [List.nil_append, List.append_nil] at hall

end Backward

end TraceSubstitution
