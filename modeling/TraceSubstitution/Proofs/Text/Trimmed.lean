import Mathlib.Data.List.DropRight
import TraceSubstitution.Text.Blank

/-!
# Trimmed texts

A text is trimmed if it neither starts nor ends with a blank character (`Trimmed`).
Trimming gives such a text (`trimmed_trimList`) and leaves it alone (`trim_eq_self_iff`),
so a text may be trimmed any number of times.
-/

namespace TraceSubstitution

/-- The characters at both ends, if there are any, are not blank. -/
structure Trimmed (cs : List Char) : Prop where
  first : ∀ c ∈ cs.head?, isBlank c = false
  last : ∀ c ∈ cs.getLast?, isBlank c = false

theorem trimList_eq_rdropWhile (cs : List Char) :
    trimList cs = (cs.dropWhile isBlank).rdropWhile isBlank := rfl

theorem trimmed_trimList (cs : List Char) : Trimmed (trimList cs) where
  first c hc := by
    -- What is left of the text starts as it did before its end was cut off.
    obtain ⟨ending, hending⟩ := List.rdropWhile_prefix isBlank (cs.dropWhile isBlank)
    rw [trimList_eq_rdropWhile] at hc
    have hhead : (cs.dropWhile isBlank).head? = some c := by
      rw [← hending, List.head?_append, Option.mem_def.1 hc]
      rfl
    have hnot := List.head?_dropWhile_not isBlank cs
    rwa [hhead] at hnot
  last c hc := by
    have hne : trimList cs ≠ [] := by
      rintro h
      rw [h] at hc
      exact nomatch hc
    have hlast := List.rdropWhile_last_not isBlank (cs.dropWhile isBlank) hne
    rw [List.getLast?_eq_some_getLast hne] at hc
    obtain rfl := Option.some.inj hc
    exact eq_false_of_ne_true hlast

theorem Trimmed.trimList_eq {cs : List Char} (h : Trimmed cs) : trimList cs = cs := by
  have hfirst : cs.dropWhile isBlank = cs := by
    cases cs with
    | nil => rfl
    | cons c cs => exact List.dropWhile_cons_of_neg (by simp [h.first c rfl])
  rw [trimList_eq_rdropWhile, hfirst]
  refine List.rdropWhile_eq_self_iff.2 fun hne => ?_
  rw [h.last _ (List.getLast?_eq_some_getLast hne)]
  exact Bool.false_ne_true

theorem trimList_eq_self_iff {cs : List Char} : trimList cs = cs ↔ Trimmed cs :=
  ⟨fun h => h ▸ trimmed_trimList cs, Trimmed.trimList_eq⟩

@[simp] theorem toList_trim (s : String) : (trim s).toList = trimList s.toList :=
  String.toList_ofList

theorem trim_eq_self_iff {s : String} : trim s = s ↔ Trimmed s.toList := by
  rw [← String.toList_inj, toList_trim, trimList_eq_self_iff]

@[simp] theorem trim_trim (s : String) : trim (trim s) = trim s := by
  rw [trim_eq_self_iff, toList_trim]
  exact trimmed_trimList s.toList

theorem length_trimList_le (cs : List Char) : (trimList cs).length ≤ cs.length :=
  ((List.rdropWhile_prefix isBlank _).length_le).trans (List.dropWhile_sublist isBlank).length_le

/-- A trimmed text with a word in front is trimmed, if the word does not start with a blank. -/
theorem Trimmed.append {word cs : List Char} (h : Trimmed cs) (hcs : cs ≠ [])
    (hword : ∀ c ∈ (word ++ cs).head?, isBlank c = false) : Trimmed (word ++ cs) where
  first := hword
  last := by
    rw [List.getLast?_append_of_ne_nil _ hcs]
    exact h.last

end TraceSubstitution
