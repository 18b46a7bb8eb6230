import Mathlib.Data.List.Induction
import Mathlib.Data.List.Nodup
import TraceSubstitution.Registry.Registry

/-!
# Growing registries

Names of namespaces are distinct, and so are the names of the operators of a namespace;
rules are numbered, and no two operators have one identity: a registry of this kind is
sound (`Registry.Sound`), and stays so when a namespace, an operator or a rule is added
under a name that is free. A registry that only grows finds under a name what it has once
found there (`Registry.Grows.operator?`).

Operators are found by a search in the model. A table of positions, kept up to date as
operators are added, finds the same ones (`Namespace.Sound.operator?_eq_getElem?`).
-/

namespace TraceSubstitution

variable {α : Type}

/-- Under distinct keys a search finds all there is. -/
theorem find?_eq_some_iff_of_nodup {β : Type*} {l : List β} {f : β → String}
    (h : (l.map f).Nodup) {key : String} {b : β} :
    l.find? (f · = key) = some b ↔ b ∈ l ∧ f b = key := by
  refine ⟨fun hfind => ⟨List.mem_of_find?_eq_some hfind, by simpa using List.find?_some hfind⟩, ?_⟩
  rintro ⟨hb, rfl⟩
  cases hfind : l.find? (f · = f b) with
  | none => simpa using List.find?_eq_none.1 hfind b hb
  | some c =>
    have hkey : f c = f b := by simpa using List.find?_some hfind
    rw [List.inj_on_of_nodup_map h (List.mem_of_find?_eq_some hfind) hb hkey]

/-- Where the operator of each name stands in a list: an entry is made when an operator is added. -/
def Operator.positions (ops : List (Operator α)) : Dict Nat :=
  ops.zipIdx.foldl (fun index x => index.insert x.1.name x.2) .empty

namespace Operator

variable {ops : List (Operator α)}

theorem positions_concat (ops : List (Operator α)) (o : Operator α) :
    positions (ops ++ [o]) = (positions ops).insert o.name ops.length := by
  unfold positions
  rw [List.zipIdx_append, List.foldl_append]
  simp

/-- Under distinct names the entry of a name is the place of its operator. -/
theorem get?_positions (h : (ops.map (·.name)).Nodup) {name : String} {i : Nat} :
    (positions ops).get? name = some i ↔ ∃ o, ops[i]? = some o ∧ o.name = name := by
  induction ops using List.reverseRecOn generalizing i with
  | nil => simp [positions]
  | append_singleton ops o ih =>
    rw [List.map_append, List.nodup_append] at h
    obtain ⟨hops, -, hnew⟩ := h
    have hnew : ∀ x ∈ ops, x.name ≠ o.name := fun x hx =>
      hnew x.name (List.mem_map_of_mem hx) o.name (by simp)
    rw [positions_concat, Dict.get?_insert]
    split
    · next heq =>
      rw [Option.some.injEq]
      constructor
      · rintro rfl
        exact ⟨o, by simp, heq.symm⟩
      · rintro ⟨x, hx, hname⟩
        rcases Nat.lt_or_ge i ops.length with hlt | hge
        · rw [List.getElem?_append_left hlt] at hx
          exact absurd (hname.trans heq) (hnew x (List.mem_of_getElem? hx))
        · have hlt := (List.getElem?_eq_some_iff.1 hx).1
          rw [List.length_append, List.length_singleton] at hlt
          omega
    · next hne =>
      rw [ih hops]
      constructor
      · rintro ⟨x, hx, hname⟩
        have hlt := (List.getElem?_eq_some_iff.1 hx).1
        exact ⟨x, by rw [List.getElem?_append_left hlt, hx], hname⟩
      · rintro ⟨x, hx, hname⟩
        rcases Nat.lt_or_ge i ops.length with hlt | hge
        · exact ⟨x, by rwa [List.getElem?_append_left hlt] at hx, hname⟩
        · rw [List.getElem?_append_right hge] at hx
          have hmem := List.mem_of_getElem? hx
          exact absurd (hname ▸ congrArg Operator.name (List.mem_singleton.1 hmem)) hne

end Operator

namespace Namespace

variable {ns ns' ns'' : Namespace α}

/-- Names of operators are distinct, operators belong to the namespace, and rules carry its name and
their number. -/
structure Sound (ns : Namespace α) : Prop where
  distinct : (ns.operators.map (·.name)).Nodup
  owned : ∀ o ∈ ns.operators, o.space = ns.name
  numbered : ∀ (i : Nat) (rule : Rule α), ns.rules[i]? = some rule → rule.sequence = i ∧ rule.executor = ns.name

/-- The second namespace is the first one with more operators and rules. -/
structure Grows (ns ns' : Namespace α) : Prop where
  name : ns'.name = ns.name
  version : ns'.version = ns.version
  operators : ns.operators <+: ns'.operators
  rules : ns.rules <+: ns'.rules

theorem Grows.refl (ns : Namespace α) : ns.Grows ns := ⟨rfl, rfl, List.prefix_rfl, List.prefix_rfl⟩

theorem Grows.trans (h : ns.Grows ns') (h' : ns'.Grows ns'') : ns.Grows ns'' :=
  ⟨h'.name.trans h.name, h'.version.trans h.version, h.operators.trans h'.operators,
    h.rules.trans h'.rules⟩

theorem grows_addOperator (ns : Namespace α) (o : Operator α) : ns.Grows (ns.addOperator o) :=
  ⟨rfl, rfl, List.prefix_append _ [o], List.prefix_rfl⟩

theorem grows_addRule (ns : Namespace α) (s : Substitution α) : ns.Grows (ns.addRule s) :=
  ⟨rfl, rfl, List.prefix_rfl, List.prefix_append _ [ns.nextRule s]⟩

/-- An operator is found under its name, and nothing else is. -/
theorem Sound.operator?_eq_some_iff (h : ns.Sound) {name : String} {o : Operator α} :
    ns.operator? name = some o ↔ o ∈ ns.operators ∧ o.name = name :=
  find?_eq_some_iff_of_nodup h.distinct

/-- The index leads to the operators that are found. -/
theorem Sound.operator?_eq_getElem? (h : ns.Sound) (name : String) :
    ns.operator? name = ((Operator.positions ns.operators).get? name).bind (ns.operators[·]?) := by
  ext o
  rw [h.operator?_eq_some_iff, Option.bind_eq_some_iff]
  constructor
  · rintro ⟨ho, hname⟩
    obtain ⟨i, hi⟩ := List.mem_iff_getElem?.1 ho
    exact ⟨i, (Operator.get?_positions h.distinct).2 ⟨o, hi, hname⟩, hi⟩
  · rintro ⟨i, hindex, hi⟩
    obtain ⟨x, hx, hname⟩ := (Operator.get?_positions h.distinct).1 hindex
    obtain rfl : x = o := Option.some.inj (hx.symm.trans hi)
    exact ⟨List.mem_of_getElem? hx, hname⟩

theorem sound_empty (name version : String) : (Namespace.empty name version : Namespace α).Sound :=
  ⟨List.nodup_nil, fun _ ho => absurd ho List.not_mem_nil, nofun⟩

theorem Sound.addOperator (h : ns.Sound) {o : Operator α} (hspace : o.space = ns.name)
    (hfree : ns.operator? o.name = none) : (ns.addOperator o).Sound where
  distinct := by
    change ((ns.operators ++ [o]).map (·.name)).Nodup
    rw [List.map_append, List.map_singleton, ← List.concat_eq_append]
    refine h.distinct.concat fun hmem => ?_
    obtain ⟨x, hx, hname⟩ := List.mem_map.1 hmem
    simpa [hname] using List.find?_eq_none.1 hfree x hx
  owned x hx := by
    rcases List.mem_append.1 hx with hx | hx
    · exact h.owned x hx
    · exact List.mem_singleton.1 hx ▸ hspace
  numbered := h.numbered

theorem Sound.addRule (h : ns.Sound) (s : Substitution α) : (ns.addRule s).Sound where
  distinct := h.distinct
  owned := h.owned
  numbered i rule hrule := by
    change (ns.rules ++ [ns.nextRule s])[i]? = some rule at hrule
    rcases Nat.lt_or_ge i ns.rules.length with hlt | hge
    · rw [List.getElem?_append_left hlt] at hrule
      exact h.numbered i rule hrule
    · have hlt := (List.getElem?_eq_some_iff.1 hrule).1
      rw [List.length_append, List.length_singleton] at hlt
      obtain rfl : i = ns.rules.length := by omega
      rw [List.getElem?_concat_length] at hrule
      exact Option.some.inj hrule ▸ ⟨rfl, rfl⟩

end Namespace

namespace Registry

variable {r r' r'' : Registry α}

/-- The operator of the given name in the namespace of the given name, if there is one. -/
def operator? (r : Registry α) (space name : String) : Option (Operator α) :=
  (r.namespace? space).bind (·.operator? name)

/-- Names of namespaces are distinct, `core` comes first, all namespaces are sound, and no two
operators have one identity. -/
structure Sound (r : Registry α) : Prop where
  distinct : (r.namespaces.map (·.name)).Nodup
  core : r.namespaces.head?.map (·.name) = some coreSpace
  namespaces : ∀ ns ∈ r.namespaces, ns.Sound
  identified : ∀ ns ∈ r.namespaces, ∀ o ∈ ns.operators, o.id.number < r.nextOperator ∧
    ∀ ns' ∈ r.namespaces, ∀ o' ∈ ns'.operators, o.id = o'.id → o = o'

/-- The second registry has the namespaces of the first one in their places, with more operators and
rules, and further namespaces after them. -/
def Grows (r r' : Registry α) : Prop :=
  ∀ (i : Nat) (ns : Namespace α), r.namespaces[i]? = some ns → ∃ ns', r'.namespaces[i]? = some ns' ∧ ns.Grows ns'

theorem Grows.refl (r : Registry α) : r.Grows r := fun _ ns hns => ⟨ns, hns, .refl ns⟩

theorem Grows.trans (h : r.Grows r') (h' : r'.Grows r'') : r.Grows r'' := by
  intro i ns hns
  obtain ⟨ns₁, hns₁, hgrows⟩ := h i ns hns
  obtain ⟨ns₂, hns₂, hgrows'⟩ := h' i ns₁ hns₁
  exact ⟨ns₂, hns₂, hgrows.trans hgrows'⟩

theorem Sound.namespace?_eq_some_iff (h : r.Sound) {name : String} {ns : Namespace α} :
    r.namespace? name = some ns ↔ ns ∈ r.namespaces ∧ ns.name = name :=
  find?_eq_some_iff_of_nodup h.distinct

theorem namespace?_isSome_iff {name : String} :
    (r.namespace? name).isSome = true ↔ ∃ ns ∈ r.namespaces, ns.name = name := by
  simp [namespace?, List.find?_isSome]

/-- Namespaces are found under their names ever after. -/
theorem Grows.namespace? (h : r.Grows r') (hr : r.Sound) (hr' : r'.Sound) {name : String}
    {ns : Namespace α} (hns : r.namespace? name = some ns) :
    ∃ ns', r'.namespace? name = some ns' ∧ ns.Grows ns' := by
  obtain ⟨hmem, hname⟩ := hr.namespace?_eq_some_iff.1 hns
  obtain ⟨i, hi⟩ := List.mem_iff_getElem?.1 hmem
  obtain ⟨ns', hns', hgrows⟩ := h i ns hi
  exact ⟨ns', hr'.namespace?_eq_some_iff.2 ⟨List.mem_of_getElem? hns', hgrows.name.trans hname⟩,
    hgrows⟩

/-- Operators are found under their names ever after. -/
theorem Grows.operator? (h : r.Grows r') (hr : r.Sound) (hr' : r'.Sound) {space name : String}
    {o : Operator α} (ho : r.operator? space name = some o) : r'.operator? space name = some o := by
  obtain ⟨ns, hns, ho⟩ := Option.bind_eq_some_iff.1 ho
  obtain ⟨ns', hns', hgrows⟩ := h.namespace? hr hr' hns
  have hsound := hr.namespaces ns (hr.namespace?_eq_some_iff.1 hns).1
  have hsound' := hr'.namespaces ns' (hr'.namespace?_eq_some_iff.1 hns').1
  obtain ⟨hmem, hname⟩ := hsound.operator?_eq_some_iff.1 ho
  exact Option.bind_eq_some_iff.2
    ⟨ns', hns', hsound'.operator?_eq_some_iff.2 ⟨hgrows.operators.subset hmem, hname⟩⟩

/-- The registry with one more namespace. -/
def addNamespace (r : Registry α) (name version : String) : Registry α :=
  { r with namespaces := r.namespaces ++ [.empty name version] }

/-- The next operator. -/
def nextOperatorOf (r : Registry α) (space name : String) (signature : Signature)
    (outputTypes : Operands TensorType → Except Failure (List TensorType))
    (compute : Operands (Tensor α) → Except Failure (List (Tensor α))) : Operator α :=
  ⟨⟨r.nextOperator⟩, space, name, signature, outputTypes, compute⟩

/-- The registry with one more operator. -/
def addOperator (r : Registry α) (o : Operator α) : Registry α :=
  { r.modifyNamespace o.space (·.addOperator o) with nextOperator := r.nextOperator + 1 }

theorem grows_addNamespace (r : Registry α) (name version : String) :
    r.Grows (r.addNamespace name version) := by
  intro i ns hns
  have hlt := (List.getElem?_eq_some_iff.1 hns).1
  exact ⟨ns, by rw [addNamespace, List.getElem?_append_left hlt, hns], .refl ns⟩

theorem grows_modifyNamespace (r : Registry α) (name : String) {f : Namespace α → Namespace α}
    (hf : ∀ ns : Namespace α, ns.Grows (f ns)) : r.Grows (r.modifyNamespace name f) := by
  intro i ns hns
  refine ⟨if ns.name = name then f ns else ns, ?_, ?_⟩
  · rw [modifyNamespace, List.getElem?_map, hns]
    rfl
  · split
    · exact hf ns
    · exact .refl ns

theorem map_name_modifyNamespace (r : Registry α) (name : String) {f : Namespace α → Namespace α}
    (hf : ∀ ns : Namespace α, ns.Grows (f ns)) :
    (r.modifyNamespace name f).namespaces.map (·.name) = r.namespaces.map (·.name) := by
  unfold modifyNamespace
  rw [List.map_map]
  refine List.map_congr_left fun ns _ => ?_
  simp only [Function.comp_apply]
  split
  · exact (hf ns).name
  · rfl

/-- A namespace that has been changed is found under its name. -/
theorem namespace?_modifyNamespace (r : Registry α) (name : String)
    {f : Namespace α → Namespace α} (hf : ∀ ns : Namespace α, ns.Grows (f ns)) :
    (r.modifyNamespace name f).namespace? name = (r.namespace? name).map f := by
  unfold modifyNamespace namespace?
  induction r.namespaces with
  | nil => rfl
  | cons ns rest ih =>
    rw [List.map_cons]
    by_cases hname : ns.name = name
    · have hsame : (f ns).name = name := (hf ns).name.trans hname
      simp [hname, hsame]
    · simpa [hname] using ih

theorem namespace?_addNamespace (h : (r.namespace? name).isSome = false) (version : String) :
    (r.addNamespace name version).namespace? name = some (.empty name version) := by
  have hnone : r.namespaces.find? (·.name = name) = none := by simpa [namespace?] using h
  unfold addNamespace namespace?
  rw [List.find?_append, hnone]
  simp [Namespace.empty]

/-- What is in a namespace of a registry one of whose namespaces has been changed. -/
theorem mem_modifyNamespace {name : String} {f : Namespace α → Namespace α} {ns' : Namespace α}
    (h : ns' ∈ (r.modifyNamespace name f).namespaces) : ∃ ns ∈ r.namespaces,
      (ns.name = name ∧ ns' = f ns) ∨ (ns.name ≠ name ∧ ns' = ns) := by
  obtain ⟨ns, hns, rfl⟩ := List.mem_map.1 h
  refine ⟨ns, hns, ?_⟩
  split
  · next hname => exact .inl ⟨hname, rfl⟩
  · next hname => exact .inr ⟨hname, rfl⟩

theorem head_name_of_map {namespaces namespaces' : List (Namespace α)}
    (h : namespaces'.map (·.name) = namespaces.map (·.name)) :
    namespaces'.head?.map (·.name) = namespaces.head?.map (·.name) := by
  rw [← List.head?_map, h, List.head?_map]

theorem Sound.addNamespace (h : r.Sound) {name : String}
    (hfree : (r.namespace? name).isSome = false) (version : String) :
    (r.addNamespace name version).Sound where
  distinct := by
    change ((r.namespaces ++ [Namespace.empty name version] : List (Namespace α)).map (·.name)).Nodup
    rw [List.map_append, List.map_singleton, ← List.concat_eq_append]
    refine h.distinct.concat fun hmem => ?_
    obtain ⟨ns, hns, hname⟩ := List.mem_map.1 hmem
    have htaken : (r.namespace? name).isSome = true := namespace?_isSome_iff.2 ⟨ns, hns, hname⟩
    exact Bool.false_ne_true (hfree.symm.trans htaken)
  core := by
    have hcore := h.core
    unfold Registry.addNamespace
    cases hr : r.namespaces with
    | nil => exact nomatch hr ▸ hcore
    | cons ns rest => simpa [hr] using hcore
  namespaces ns hns := by
    rcases List.mem_append.1 hns with hns | hns
    · exact h.namespaces ns hns
    · exact List.mem_singleton.1 hns ▸ Namespace.sound_empty name version
  identified ns hns o ho := by
    have hold : ∀ ns ∈ r.namespaces ++ [Namespace.empty name version], ∀ o ∈ ns.operators,
        ns ∈ r.namespaces := by
      intro ns hns o ho
      rcases List.mem_append.1 hns with hns | hns
      · exact hns
      · rw [List.mem_singleton.1 hns] at ho
        exact absurd ho List.not_mem_nil
    obtain ⟨hlt, hsame⟩ := h.identified ns (hold ns hns o ho) o ho
    exact ⟨hlt, fun ns' hns' o' ho' => hsame ns' (hold ns' hns' o' ho') o' ho'⟩

theorem Sound.addRule (h : r.Sound) (space : String) (s : Substitution α) :
    (r.modifyNamespace space (·.addRule s)).Sound := by
  have hgrows := fun ns : Namespace α => ns.grows_addRule s
  have hnames := r.map_name_modifyNamespace space hgrows
  have hold : ∀ ns' ∈ (r.modifyNamespace space (·.addRule s)).namespaces,
      ∃ ns ∈ r.namespaces, ns'.operators = ns.operators ∧ ns'.Sound := by
    intro ns' hns'
    obtain ⟨ns, hns, ⟨-, rfl⟩ | ⟨-, rfl⟩⟩ := mem_modifyNamespace hns'
    · exact ⟨ns, hns, rfl, (h.namespaces ns hns).addRule s⟩
    · exact ⟨ns', hns, rfl, h.namespaces ns' hns⟩
  refine ⟨hnames ▸ h.distinct, (head_name_of_map hnames).trans h.core, fun ns' hns' => ?_,
    fun ns' hns' o ho => ?_⟩
  · obtain ⟨-, -, -, hsound⟩ := hold ns' hns'
    exact hsound
  · obtain ⟨ns, hns, hops, -⟩ := hold ns' hns'
    obtain ⟨hlt, hsame⟩ := h.identified ns hns o (hops ▸ ho)
    refine ⟨hlt, fun ns₁' hns₁' o₁ ho₁ => ?_⟩
    obtain ⟨ns₁, hns₁, hops₁, -⟩ := hold ns₁' hns₁'
    exact hsame ns₁ hns₁ o₁ (hops₁ ▸ ho₁)

/-- A new operator, with an identity of its own, under a name that is free. -/
theorem Sound.addOperator (h : r.Sound) {o : Operator α} (hid : o.id = ⟨r.nextOperator⟩)
    (hfree : ∀ ns ∈ r.namespaces, ns.name = o.space → ns.operator? o.name = none) :
    (r.addOperator o).Sound := by
  have hgrows := fun ns : Namespace α => ns.grows_addOperator o
  have hnames : (r.addOperator o).namespaces.map (·.name) = r.namespaces.map (·.name) :=
    r.map_name_modifyNamespace o.space hgrows
  have hold : ∀ ns' ∈ (r.addOperator o).namespaces, ns'.Sound ∧
      ∀ x ∈ ns'.operators, x = o ∨ ∃ ns ∈ r.namespaces, x ∈ ns.operators := by
    intro ns' hns'
    obtain ⟨ns, hns, ⟨hname, rfl⟩ | ⟨-, rfl⟩⟩ := mem_modifyNamespace hns'
    · refine ⟨(h.namespaces ns hns).addOperator hname.symm (hfree ns hns hname), fun x hx => ?_⟩
      rcases List.mem_append.1 hx with hx | hx
      · exact .inr ⟨ns, hns, hx⟩
      · exact .inl (List.mem_singleton.1 hx)
    · exact ⟨h.namespaces ns' hns, fun x hx => .inr ⟨ns', hns, hx⟩⟩
  have hnumber : o.id.number = r.nextOperator := congrArg OperatorId.number hid
  refine ⟨hnames ▸ h.distinct, (head_name_of_map hnames).trans h.core,
    fun ns' hns' => (hold ns' hns').1, fun ns' hns' x hx => ?_⟩
  have hlast : (r.addOperator o).nextOperator = r.nextOperator + 1 := rfl
  rcases (hold ns' hns').2 x hx with rfl | ⟨ns, hns, hx⟩
  · refine ⟨by omega, fun ns₁' hns₁' y hy heq => ?_⟩
    rcases (hold ns₁' hns₁').2 y hy with rfl | ⟨ns₁, hns₁, hy⟩
    · rfl
    · have hlt := (h.identified ns₁ hns₁ y hy).1
      rw [← heq] at hlt
      omega
  · obtain ⟨hlt, hsame⟩ := h.identified ns hns x hx
    refine ⟨by omega, fun ns₁' hns₁' y hy heq => ?_⟩
    rcases (hold ns₁' hns₁').2 y hy with rfl | ⟨ns₁, hns₁, hy⟩
    · rw [heq] at hlt
      omega
    · exact hsame ns₁ hns₁ y hy heq

/-- The operators of `core` have the numbers from zero on. -/
theorem index_of_mem_coreOperators [Scalar α] {o : Operator α} (h : o ∈ Core.operators) :
    o.space = coreSpace ∧ Core.operators[o.id.number]? = some o := by
  simp only [Core.operators, List.mem_cons, List.not_mem_nil, or_false] at h
  rcases h with rfl | rfl | rfl | rfl <;> exact ⟨rfl, rfl⟩

theorem sound_initial [Scalar α] : (initial : Registry α).Sound where
  distinct := List.nodup_singleton _
  core := rfl
  namespaces ns hns := by
    rw [List.mem_singleton.1 hns]
    refine ⟨?_, fun o ho => (index_of_mem_coreOperators ho).1, nofun⟩
    change ["add", "zeros_like", "scaled_dot_product_attention", "sdpa_backward"].Nodup
    decide
  identified ns hns o ho := by
    rw [List.mem_singleton.1 hns] at ho
    have hindex := (index_of_mem_coreOperators ho).2
    refine ⟨(List.getElem?_eq_some_iff.1 hindex).1, fun ns' hns' o' ho' heq => ?_⟩
    rw [List.mem_singleton.1 hns'] at ho'
    rw [heq, (index_of_mem_coreOperators ho').2] at hindex
    exact (Option.some.inj hindex).symm

end Registry

end TraceSubstitution
