import Mathlib.Data.List.Perm.Basic
import TraceSubstitution.Proofs.Json.Values
import TraceSubstitution.Proofs.Operator.Coherent
import TraceSubstitution.Proofs.Text.Trimmed
import TraceSubstitution.Registry.Policy

/-!
# Policies in texts

A policy that has been read is written in a form that is read as the same policy
(`Policy.parse_text`). The name of a forced executor is trimmed and not empty
(`Policy.Named`), and behind `force=` every such name is read as it stands, whatever
characters it has. Without the word in front it stands for the same policy unless it is
a reserved word or has a reserved character (`Policy.parse_eq_force_iff`).

Overrides that were loaded from JSON are thus the same after they have been written and
loaded again, in whatever order their members are written.
-/

namespace TraceSubstitution

namespace Policy

/-- The executor of the policy, if it names one, has a name that can be written. -/
def Named (p : Policy) : Prop := ∀ executor, p = force executor → executor ≠ "" ∧
  trim executor = executor

theorem named_force {executor : String} (hne : executor ≠ "") (htrim : trim executor = executor) :
    (force executor).Named := by
  rintro _ ⟨⟩
  exact ⟨hne, htrim⟩

theorem stripWord?_append (word cs : List Char) : stripWord? word (word ++ cs) = some cs := by
  induction word with
  | nil => rfl
  | cons w word ih => rw [List.cons_append, stripWord?, if_pos rfl, ih]

theorem eq_append_of_stripWord? {word cs rest : List Char} (h : stripWord? word cs = some rest) :
    cs = word ++ rest := by
  induction word generalizing cs with
  | nil => exact Option.some.inj h
  | cons w word ih =>
    cases cs with
    | nil => exact nomatch h
    | cons c cs =>
      rw [stripWord?] at h
      split at h
      · next hw => rw [ih h, hw, List.cons_append]
      · exact nomatch h

theorem toList_force (executor : String) :
    ("force=" ++ executor).toList = forceWord ++ executor.toList := String.toList_append

/-- Any other word than the reserved ones names an executor. -/
theorem parse_of_trimmed {word : String} (htrim : trim word = word) (hne : word ≠ "")
    (hdefault : sameWord word "default" = false) (hfallback : sameWord word "fallback" = false) :
    parse word = match stripWord? forceWord word.toList with
      | some rest =>
        if String.ofList (trimList rest) = "" then .error (.ofCause (.policy .missingExecutor))
        else .ok (force (String.ofList (trimList rest)))
      | none =>
        if word.toList.any isReserved then .error (.ofCause (.policy (.unrecognised word)))
        else .ok (force word) := by
  have hword : ¬(word = "" ∨ sameWord word "default" = true) := fun h =>
    h.elim hne (Bool.eq_false_iff.1 hdefault)
  unfold parse
  dsimp only
  rw [htrim]
  exact (if_neg hword).trans (if_neg (Bool.eq_false_iff.1 hfallback))

/-- The name of an executor is read as it stands behind the word. -/
theorem parse_force {executor : String} (hne : executor ≠ "") (htrim : trim executor = executor) :
    parse ("force=" ++ executor) = .ok (force executor) := by
  have htrimmed : trim ("force=" ++ executor) = "force=" ++ executor := by
    rw [trim_eq_self_iff, toList_force]
    exact (trim_eq_self_iff.1 htrim).append (by simpa using hne)
      (by simp [forceWord, isBlank, blankRanges])
  have hrest : String.ofList (trimList executor.toList) = executor := htrim
  rw [parse_of_trimmed htrimmed (by simp) (by simp [sameWord]) (by simp [sameWord]), toList_force,
    stripWord?_append]
  simp only [hrest, if_neg hne]

/-- A policy that has been read has a name that can be written, if it has one. -/
theorem named_of_parse {raw : String} {p : Policy} (h : parse raw = .ok p) : p.Named := by
  unfold parse at h
  dsimp only at h
  split at h
  · obtain rfl := Except.ok.inj h
    exact nofun
  · next hword =>
    split at h
    · obtain rfl := Except.ok.inj h
      exact nofun
    · split at h
      · next rest _ =>
        split at h
        · exact nomatch h
        · next hne =>
          obtain rfl := Except.ok.inj h
          refine named_force hne (trim_eq_self_iff.2 ?_)
          rw [String.toList_ofList]
          exact trimmed_trimList rest
      · split at h
        · exact nomatch h
        · obtain rfl := Except.ok.inj h
          exact named_force (fun hempty => hword (.inl hempty)) (trim_trim raw)

/-- A policy with a name that can be written is read as it is written. -/
theorem Named.parse_text {p : Policy} (h : p.Named) : parse p.text = .ok p := by
  cases p with
  | default => rfl
  | fallback => rfl
  | force executor =>
    obtain ⟨hne, htrim⟩ := h executor rfl
    exact parse_force hne htrim

/-- A name with the word in front does not stand for the executor of that whole name: what is
read is shorter. -/
theorem ne_of_stripWord? {executor : String} {rest : List Char}
    (h : stripWord? forceWord executor.toList = some rest) :
    String.ofList (trimList rest) ≠ executor := by
  rintro heq
  have hle := length_trimList_le rest
  have hlength : executor.toList.length = forceWord.length + rest.length := by
    rw [eq_append_of_stripWord? h, List.length_append]
  rw [← heq, String.toList_ofList, show forceWord.length = 6 from rfl] at hlength
  omega

/-- A name stands for its executor by itself, too, unless it is reserved. -/
theorem parse_eq_force_iff {executor : String} (hne : executor ≠ "")
    (htrim : trim executor = executor) : parse executor = .ok (force executor) ↔
      sameWord executor "default" = false ∧ sameWord executor "fallback" = false ∧
        executor.toList.any isReserved = false := by
  by_cases hdefault : sameWord executor "default" = true
  · have hparse : parse executor = .ok default := by
      unfold parse
      simp [htrim, hdefault]
    simp [hparse, hdefault]
  by_cases hfallback : sameWord executor "fallback" = true
  · have hparse : parse executor = .ok fallback := by
      unfold parse
      simp [htrim, hne, hdefault, hfallback]
    simp [hparse, hfallback]
  rw [Bool.not_eq_true] at hdefault hfallback
  rw [parse_of_trimmed htrim hne hdefault hfallback]
  cases hstrip : stripWord? forceWord executor.toList with
  | some rest =>
    have hreserved : executor.toList.any isReserved = true := by
      simp [eq_append_of_stripWord? hstrip, forceWord, isReserved]
    refine iff_of_false (fun h => ?_) (by simp [hreserved])
    dsimp only at h
    split at h
    · exact nomatch h
    · exact ne_of_stripWord? hstrip (force.inj (Except.ok.inj h))
  | none => cases hany : executor.toList.any isReserved <;> simp [hdefault, hfallback]

theorem ofJson?_eq_some_iff {j : Json} {p : Policy} :
    ofJson? j = some p ↔ ∃ raw, j.text? = some raw ∧ parse raw = .ok p := by
  simp only [ofJson?, Option.bind_eq_bind, Option.bind_eq_some_iff]
  refine exists_congr fun raw => and_congr_right fun _ => ?_
  cases parse raw <;> simp

end Policy

namespace Overrides

/-- Every policy has a name that can be written, if it has one. -/
def Named (o : Overrides) : Prop := ∀ e ∈ o.toList, e.2.Named

theorem ofMember?_eq_some_iff {member : Option String × Json} {e : String × Policy} :
    ofMember? member = some e ↔ member.1 = some e.1 ∧ Policy.ofJson? member.2 = some e.2 := by
  obtain ⟨name, j⟩ := member
  obtain ⟨n, p⟩ := e
  simp only [ofMember?, Option.bind_eq_bind, Option.pure_def, Option.bind_eq_some_iff,
    Option.some.injEq, Prod.mk.injEq]
  constructor
  · rintro ⟨_, hname, _, hp, rfl, rfl⟩
    exact ⟨hname, hp⟩
  · rintro ⟨hname, hp⟩
    exact ⟨n, hname, p, hp, rfl, rfl⟩

/-- Members are loaded as entries one by one. -/
theorem mapM_ofMember?_iff {members : List (Option String × Json)}
    {entries : List (String × Policy)} :
    members.mapM ofMember? = some entries ↔
      List.Forall₂ (fun member e => ofMember? member = some e) members entries := by
  induction members generalizing entries with
  | nil => simp [eq_comm]
  | cons member members ih =>
    simp only [List.mapM_cons, Option.bind_eq_bind, Option.pure_def, Option.bind_eq_some_iff,
      List.forall₂_cons_left_iff, Option.some.injEq, ih]
    constructor
    · rintro ⟨e, he, rest, hrest, rfl⟩
      exact ⟨e, rest, he, hrest, rfl⟩
    · rintro ⟨e, rest, he, hrest, rfl⟩
      exact ⟨e, he, rest, hrest, rfl⟩

/-- Policies that were loaded have names that can be written. -/
theorem named_of_ofJson? {j : Json} {o : Overrides} (h : ofJson? j = some o) : o.Named := by
  intro e he
  cases j with
  | object members =>
    obtain ⟨entries, hentries, rfl⟩ := Option.map_eq_some_iff.1 h
    have hlookup : lookupEntry e.1 entries.reverse = some e.2 := by
      rw [← Dict.get?_ofList]
      exact Dict.get?_eq_some_iff.2 he
    have hmem : e ∈ entries := List.mem_reverse.1 (Dict.mem_of_lookupEntry hlookup)
    obtain ⟨i, hi, rfl⟩ := List.getElem_of_mem hmem
    have hforall := mapM_ofMember?_iff.1 hentries
    have hmember := hforall.get (hforall.length_eq ▸ hi) hi
    obtain ⟨raw, -, hparse⟩ := Policy.ofJson?_eq_some_iff.1 (ofMember?_eq_some_iff.1 hmember).2
    exact Policy.named_of_parse hparse
  | null | bool _ | number _ | string _ | array _ => exact nomatch h

/-- The members of an object as which entries are written. -/
def members (entries : List (String × Policy)) : List (Option String × Json) :=
  entries.map fun e => (some e.1, e.2.toJson)

theorem members_eq_textMembers (entries : List (String × Policy)) :
    members entries = Json.textMembers (entries.map fun e => (e.1, e.2.text)) := by
  rw [Json.textMembers, List.map_map]
  rfl

/-- Members in another order are those of the entries in another order. -/
theorem exists_eq_members_of_perm {written : List (Option String × Json)}
    {entries : List (String × Policy)} (h : written.Perm (members entries)) :
    ∃ entries' : List (String × Policy), written = members entries' ∧ entries'.Perm entries := by
  have hcomp := List.eq_map_comp_perm fun e : String × Policy => (some e.1, e.2.toJson)
  have hmembers := congrFun (congrFun hcomp written) entries
  exact hmembers.mpr h

/-- Members that were written in any order are loaded as the overrides. -/
theorem Named.ofJson?_of_perm {o : Overrides} (ho : o.Named) {entries : List (String × Policy)}
    (hperm : entries.Perm o.toList) :
    ofJson? (.object (members entries)) = some o := by
  have hentries : (members entries).mapM ofMember? = some entries := by
    rw [mapM_ofMember?_iff, members, List.forall₂_map_left_iff, List.forall₂_same]
    intro e he
    refine ofMember?_eq_some_iff.2 ⟨rfl, Policy.ofJson?_eq_some_iff.2 ⟨e.2.text, rfl, ?_⟩⟩
    exact (ho e (hperm.mem_iff.1 he)).parse_text
  have hnodup : (o.toList.map (·.1)).Nodup :=
    List.pairwise_map.2 (o.sorted.imp fun h => Std.ne_of_lt h)
  have hreverse : (entries.reverse.map (·.1)).Nodup :=
    (((List.reverse_perm entries).trans hperm).map _).nodup_iff.2 hnodup
  refine Option.map_eq_some_iff.2 ⟨entries, hentries, Dict.ext fun name => Option.ext fun p => ?_⟩
  rw [Dict.get?_ofList, Dict.get?_eq_some_iff, ← hperm.mem_iff, ← List.mem_reverse]
  exact ⟨Dict.mem_of_lookupEntry, Dict.lookupEntry_of_mem hreverse⟩

/-- Policies are read as they were written. A policy that has been read is written in a form
that is read as this policy, and the name of its executor, if it has one, is trimmed and not
empty. Every such name is read as it stands behind `force=`, and by itself exactly if it is
neither a reserved word, in letters of any case, nor has a reserved character. Overrides that
were loaded are the same for every query after they have been written, with their members in
any order, and loaded again. -/
theorem round_trip :
    (∀ raw p, Policy.parse raw = .ok p → Policy.parse p.text = .ok p ∧
      ∀ executor, p = .force executor → executor ≠ "" ∧ trim executor = executor) ∧
    (∀ executor, executor ≠ "" → trim executor = executor →
      Policy.parse ("force=" ++ executor) = .ok (.force executor) ∧
      (Policy.parse executor = Policy.parse ("force=" ++ executor) ↔
        sameWord executor "default" = false ∧ sameWord executor "fallback" = false ∧
          ∀ c ∈ ['=', '(', ')', ' '], c ∉ executor.toList)) ∧
    ∀ j o, ofJson? j = some o → ∃ members, o.toJson = .object members ∧
      ∀ written, written.Perm members →
        ∃ o', (Json.read? (Json.write (.object written))).bind ofJson? = some o' ∧
          (∀ name, o'.policy name = o.policy name) ∧
          ∀ qualifiedName name, o'.policyFor qualifiedName name = o.policyFor qualifiedName name := by
  refine ⟨fun raw p hparse => ?_, fun executor hne htrim => ?_, fun j o hload => ?_⟩
  · have hnamed := Policy.named_of_parse hparse
    exact ⟨hnamed.parse_text, hnamed⟩
  · have hforce := Policy.parse_force hne htrim
    have hreserved : executor.toList.any Policy.isReserved = false ↔
        ∀ c ∈ ['=', '(', ')', ' '], c ∉ executor.toList := by
      simp only [Policy.isReserved, List.any_eq_false]
      grind
    rw [hforce, Policy.parse_eq_force_iff hne htrim, hreserved]
    exact ⟨rfl, Iff.rfl⟩
  · have hnamed := named_of_ofJson? hload
    refine ⟨members o.toList, rfl, fun written hperm => ⟨o, ?_, fun _ => rfl, fun _ _ => rfl⟩⟩
    obtain ⟨entries, rfl, hentries⟩ := exists_eq_members_of_perm hperm
    rw [members_eq_textMembers, Json.read?_write_texts, Option.bind_some, ← members_eq_textMembers]
    exact hnamed.ofJson?_of_perm hentries

/-- The members of an object that overrides are loaded from: the name of one executor holds the
word in front of it once more, that of the other one holds a reserved character. -/
def sampleMembers : List (Option String × Json) :=
  [(some "softmax", .ofText " force= force=Fallback "), (some "add", .ofText "FALLBACK"),
    (some "nn::add", .ofText "force=a = b")]

theorem round_trip_sample :
    Policy.parse (Policy.force "force=Fallback").text = .ok (.force "force=Fallback") ∧
    Policy.parse "a = b" ≠ Policy.parse "force=a = b" ∧
    Policy.parse "flash" = Policy.parse "force=flash" ∧
    ∃ o, ofJson? (.object sampleMembers) = some o ∧
      ∃ o', (Json.read? (Json.write o.toJson)).bind ofJson? = some o' ∧
        o'.policyFor "nn::add" "add" = .force "a = b" ∧
        o'.policyFor "math::add" "add" = .fallback := by
  have hread : Policy.parse " force= force=Fallback " = .ok (.force "force=Fallback") := by rfl
  have hbare := (round_trip.2.1 "a = b" (by decide) (by rfl)).2
  have hflash := (round_trip.2.1 "flash" (by decide) (by rfl)).2
  refine ⟨(round_trip.1 _ _ hread).1, fun h => ?_, hflash.2 ⟨by decide, by decide, by simp⟩, ?_⟩
  · exact absurd ((hbare.1 h).2.2 '=') (by decide)
  · have hload : ofJson? (.object sampleMembers) = some (Dict.ofList
        [("softmax", .force "force=Fallback"), ("add", .fallback), ("nn::add", .force "a = b")]) := by
      rfl
    obtain ⟨members, hmembers, hagain⟩ := round_trip.2.2 _ _ hload
    obtain ⟨o', ho', -, hpolicyFor⟩ := hagain members (List.Perm.refl members)
    refine ⟨_, hload, o', hmembers ▸ ho', ?_, ?_⟩
    · rw [hpolicyFor]
      decide
    · rw [hpolicyFor]
      decide

end Overrides

end TraceSubstitution
