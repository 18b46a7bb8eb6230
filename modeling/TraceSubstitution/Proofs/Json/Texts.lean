import Mathlib.Data.Option.Basic
import TraceSubstitution.Json.Reader
import TraceSubstitution.Json.Writer

/-!
# Texts survive JSON

A text is written between quotes with some characters escaped, and it is read back as it
was (`exists_readString?`): every character is one code unit when it is read, and none of
them is taken for half of a surrogate pair.
-/

namespace TraceSubstitution

namespace Json

theorem toNat_lt_or_lt (c : Char) : c.toNat < 0xd800 ∨ 0xe000 ≤ c.toNat := by
  rcases c.valid with h | h
  · exact .inl h
  · exact .inr (Nat.succ_le_of_lt h.1)

/-- Code units of whole characters are joined to these characters. -/
theorem joinUnits?_toNat (cs : List Char) : joinUnits? (cs.map Char.toNat) = some cs := by
  induction cs with
  | nil => rfl
  | cons c cs ih =>
    have hhigh : ¬(0xd800 ≤ c.toNat ∧ c.toNat < 0xdc00) := by
      have := toNat_lt_or_lt c
      omega
    have hlow : ¬(0xdc00 ≤ c.toNat ∧ c.toNat < 0xe000) := by
      have := toNat_lt_or_lt c
      omega
    rw [List.map_cons]
    unfold joinUnits?
    simp only [if_neg hhigh, if_neg hlow, ih, Char.ofNat_toNat, Option.map_some]

theorem hexUnit?_digits : ∀ n < 0x20,
    hexUnit? '0' '0' (n / 16).digitChar (n % 16).digitChar = some n := by decide

/-- A character is read as it was written, before the rest of the text. -/
theorem readUnits?_escape (c : Char) (rest : List Char) :
    readUnits? ((escape c).toList ++ rest) =
      (readUnits? rest).map fun (units, rest) => (c.toNat :: units, rest) := by
  unfold escape
  split
  · next h =>
    subst h
    cases hrest : readUnits? rest <;> simp [readUnits?, escaped?, hrest]
  · next hquote =>
    split
    · next h =>
      subst h
      cases hrest : readUnits? rest <;> simp [readUnits?, escaped?, hrest]
    · next hslash =>
      split
      · next hcontrol =>
        have hunit := hexUnit?_digits c.toNat hcontrol
        cases hrest : readUnits? rest <;> simp [readUnits?, hunit, hrest]
      · next hcontrol =>
        cases hrest : readUnits? rest <;>
          simp [readUnits?, hslash, hrest, Nat.le_of_not_lt hcontrol, guard]

theorem readUnits?_escapes (cs rest : List Char) :
    readUnits? (cs.flatMap (fun c => (escape c).toList) ++ '"' :: rest) =
      some (cs.map Char.toNat, rest) := by
  induction cs with
  | nil => simp [readUnits?]
  | cons c cs ih =>
    rw [List.flatMap_cons, List.append_assoc, readUnits?_escape, ih]
    rfl

theorem toList_writeText (s : String) :
    (writeText s).toList = '"' :: (s.toList.flatMap (fun c => (escape c).toList) ++ ['"']) := by
  simp [writeText, String.toList_join, List.flatMap_map]

/-- A text is read as it was written. -/
theorem exists_readString? (s : String) (rest : List Char) :
    ∃ body, (writeText s).toList ++ rest = '"' :: body ∧
      readString? body = some (some s, rest) := by
  refine ⟨s.toList.flatMap (fun c => (escape c).toList) ++ '"' :: rest, ?_, ?_⟩
  · simp [toList_writeText]
  · simp [readString?, readUnits?_escapes, joinUnits?_toNat]

theorem skipSpace_cons {c : Char} (h : isSpace c = false) (rest : List Char) :
    skipSpace (c :: rest) = c :: rest := List.dropWhile_cons_of_neg (by simp [h])

theorem readValue?_writeText (bound : Nat) (s : String) (rest : List Char) :
    readValue? (bound + 1) ((writeText s).toList ++ rest) = some (ofText s, rest) := by
  obtain ⟨body, hwritten, hread⟩ := exists_readString? s rest
  rw [hwritten, readValue?, skipSpace_cons (by decide)]
  simp only [hread, Option.map_some]
  rfl

end Json

end TraceSubstitution
