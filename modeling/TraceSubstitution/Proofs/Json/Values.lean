import TraceSubstitution.Proofs.Json.Texts

/-!
# Values survive JSON

A natural number is written with its digits, and they are read back as this number where
nothing follows that would belong to it (`readMagnitude?_toDigits`). Texts are read back
wherever they stand. So is everything that arrays and objects are made of these
(`Json.Plain`), by induction over the value: `Json.read?_write`.
-/

namespace TraceSubstitution

namespace Json

/-- Nothing at the front of the text belongs to a number before it. -/
def EndsNumber (rest : List Char) : Prop :=
  ∀ c ∈ rest.head?, c.isDigit = false ∧ c ≠ '.' ∧ c ≠ 'e' ∧ c ≠ 'E'

theorem endsNumber_nil : EndsNumber [] := nofun

theorem endsNumber_cons {c : Char} (h : c.isDigit = false ∧ c ≠ '.' ∧ c ≠ 'e' ∧ c ≠ 'E')
    (rest : List Char) : EndsNumber (c :: rest) := by
  intro d hd
  obtain rfl : c = d := Option.some.inj hd
  exact h

/-- Digits are read up to what follows them. -/
theorem readDigits_append {digits rest : List Char} (hdigits : ∀ c ∈ digits, c.isDigit = true)
    (hrest : EndsNumber rest) (start : Nat) :
    readDigits start (digits ++ rest) =
      (digits.length, Nat.ofDigitChars 10 digits start, rest) := by
  induction digits generalizing start with
  | nil =>
    cases rest with
    | nil => rfl
    | cons c rest =>
      rw [List.nil_append, readDigits, (hrest c rfl).1]
      rfl
  | cons c digits ih =>
    obtain ⟨hc, hdigits⟩ := List.forall_mem_cons.1 hdigits
    rw [List.cons_append, readDigits, if_pos hc, ih hdigits, Nat.ofDigitChars_cons,
      Nat.mul_comm start]
    rfl

theorem head?_toDigits_append (n : Nat) (rest : List Char) :
    (Nat.toDigits 10 n ++ rest).head? = (Nat.toDigits 10 n).head? := by
  obtain ⟨c, digits, hdigits⟩ := List.exists_cons_of_ne_nil (Nat.toDigits_ne_nil (n := n) (b := 10))
  rw [hdigits]
  rfl

/-- No number but zero starts with a zero. -/
theorem head?_toDigits_ne {n : Nat} (hn : 0 < n) : (Nat.toDigits 10 n).head? ≠ some '0' := by
  induction n using Nat.strongRecOn with
  | ind n ih =>
    rw [Nat.toDigits_eq_if (by decide)]
    split
    · next hlt =>
      have hdigit : ∀ m < 10, 0 < m → [m.digitChar].head? ≠ some '0' := by decide
      exact hdigit n hlt hn
    · next hge =>
      rw [head?_toDigits_append]
      exact ih (n / 10) (by omega) (by omega)

/-- A natural number is read as it was written. -/
theorem readMagnitude?_toDigits (n : Nat) {rest : List Char} (hrest : EndsNumber rest) :
    readMagnitude? false (Nat.toDigits 10 n ++ rest) = some (.ofNat n, rest) := by
  have hdigits : ∀ c ∈ Nat.toDigits 10 n, c.isDigit = true := fun c hc =>
    Nat.isDigit_of_mem_toDigits (by decide) (by decide) hc
  have hguard : (Nat.toDigits 10 n).length ≠ 0 ∧ ((Nat.toDigits 10 n).length = 1 ∨
      (Nat.toDigits 10 n ++ rest).head? ≠ some '0') := by
    refine ⟨Nat.ne_of_gt Nat.length_toDigits_pos, ?_⟩
    rw [head?_toDigits_append]
    by_cases hn : n = 0
    · exact .inl (by rw [hn]; rfl)
    · exact .inr (head?_toDigits_ne (Nat.pos_of_ne_zero hn))
  have hexponent : readExponent? rest = some (none, rest) := by
    unfold readExponent?
    cases rest with
    | nil => rfl
    | cons c rest =>
      obtain ⟨-, -, he, hE⟩ := hrest c rfl
      simp only [if_neg (not_or.2 ⟨he, hE⟩)]
  unfold readMagnitude?
  simp only [readDigits_append hdigits hrest, Nat.ofDigitChars_ten_toDigits, guard, if_pos hguard]
  cases rest with
  | nil => rfl
  | cons c rest =>
    obtain ⟨-, hpoint, -, -⟩ := hrest c rfl
    simp [hpoint, hexponent, JsonNumber.ofNat]

theorem ne_of_isDigit {c d : Char} (hc : c.isDigit = true) (hd : d.isDigit = false) : c ≠ d := by
  rintro rfl
  exact Bool.false_ne_true (hd.symm.trans hc)

theorem isSpace_of_isDigit {c : Char} (hc : c.isDigit = true) : isSpace c = false := by
  simp only [isSpace, Bool.or_eq_false_iff, decide_eq_false_iff_not]
  exact ⟨⟨⟨ne_of_isDigit hc (by decide), ne_of_isDigit hc (by decide)⟩,
    ne_of_isDigit hc (by decide)⟩, ne_of_isDigit hc (by decide)⟩

/-- A value that starts with a digit is a number. -/
theorem readValue?_of_isDigit {c : Char} (hc : c.isDigit = true) (bound : Nat) (cs : List Char) :
    readValue? (bound + 1) (c :: cs) =
      (readMagnitude? false (c :: cs)).map fun x => (number x.1, x.2) := by
  have hsign : readNumber? (c :: cs) = readMagnitude? false (c :: cs) := by
    unfold readNumber?
    split
    · next h => exact absurd (List.cons_eq_cons.1 h).1 (ne_of_isDigit hc (by decide))
    · rfl
  rw [← hsign, readValue?, skipSpace_cons (isSpace_of_isDigit hc)]
  split
  · next h => exact absurd h (List.cons_ne_nil c cs)
  iterate 6
    · next h => exact absurd (List.cons_eq_cons.1 h).1 (ne_of_isDigit hc (by decide))
  · rfl

/-- Natural numbers, texts, and what arrays and objects are made of these. -/
inductive Plain : Json → Prop where
  | ofNat (n : Nat) : Plain (ofNat n)
  | ofText (s : String) : Plain (ofText s)
  | array {items : List Json} (h : ∀ j ∈ items, Plain j) : Plain (array items)
  | object {members : List (Option String × Json)} (hnames : ∀ e ∈ members, e.1.isSome = true)
    (h : ∀ e ∈ members, Plain e.2) : Plain (object members)

/-- A member of an object as it is written. -/
def memberText (e : Option String × Json) : List Char :=
  (writeString e.1).toList ++ ':' :: e.2.write.toList

theorem intercalate_map_cons_cons {β : Type} (f : β → List Char) (a b : β) (bs : List β) :
    [','].intercalate ((a :: b :: bs).map f) =
      f a ++ ',' :: [','].intercalate ((b :: bs).map f) := by
  simp [List.intercalate_cons_cons]

theorem toList_write_ofNat (n : Nat) : (ofNat n).write.toList = Nat.toDigits 10 n := by
  simp [write, ofNat, JsonNumber.write, JsonNumber.ofNat, Nat.toList_repr]

theorem toList_write_array (items : List Json) : (array items).write.toList =
    '[' :: ([','].intercalate (items.map (·.write.toList)) ++ [']']) := by
  have hitems : (writeItems items).map String.toList = items.map (·.write.toList) := by
    induction items with
    | nil => rfl
    | cons j items ih => rw [writeItems, List.map_cons, List.map_cons, ih]
  simp [write, String.toList_intercalate, hitems]

theorem toList_write_object (members : List (Option String × Json)) :
    (object members).write.toList =
      '\x7b' :: ([','].intercalate (members.map memberText) ++ ['\x7d']) := by
  have hmembers : (writeMembers members).map String.toList = members.map memberText := by
    induction members with
    | nil => rfl
    | cons e members ih =>
      rw [writeMembers, List.map_cons, List.map_cons, ih]
      simp [memberText]
  simp [write, String.toList_intercalate, hmembers]

/-- The value is read as it was written, with a bound above the length of its text. -/
def ReadBack (j : Json) : Prop :=
  ∀ (bound : Nat) (rest : List Char), j.write.toList.length < bound → EndsNumber rest →
    readValue? bound (j.write.toList ++ rest) = some (j, rest)

theorem readBack_ofNat (n : Nat) : (ofNat n).ReadBack := by
  intro bound rest hbound hrest
  obtain ⟨bound, rfl⟩ : ∃ b, bound = b + 1 := ⟨bound - 1, by omega⟩
  have hread := readMagnitude?_toDigits n hrest
  rw [toList_write_ofNat]
  obtain ⟨c, digits, hdigits⟩ := List.exists_cons_of_ne_nil (Nat.toDigits_ne_nil (n := n) (b := 10))
  have hc : c.isDigit = true :=
    Nat.isDigit_of_mem_toDigits (by decide) (by decide) (hdigits ▸ List.mem_cons_self)
  rw [hdigits, List.cons_append] at hread ⊢
  rw [readValue?_of_isDigit hc, hread]
  rfl

theorem readBack_ofText (s : String) : (ofText s).ReadBack := by
  intro bound rest hbound _
  obtain ⟨bound, rfl⟩ : ∃ b, bound = b + 1 := ⟨bound - 1, by omega⟩
  exact readValue?_writeText bound s rest

/-- An item is read up to the character that ends it. -/
theorem readItems?_item {j : Json} (hj : j.ReadBack) {bound : Nat}
    (hbound : j.write.toList.length < bound) {c : Char} (hc : isSpace c = false)
    {rest : List Char} (hrest : EndsNumber (c :: rest)) :
    readItems? (bound + 1) (j.write.toList ++ c :: rest) =
      match c :: rest with
      | ']' :: rest => some ([j], rest)
      | ',' :: rest => (readItems? bound rest).bind fun (items, rest) => some (j :: items, rest)
      | _ => none := by
  rw [readItems?, hj bound (c :: rest) hbound hrest]
  simp only [Option.bind_eq_bind, Option.bind_some, skipSpace_cons hc]
  rfl

/-- Items are read up to the bracket that closes the array. -/
theorem readItems?_written {items : List Json} (hne : items ≠ []) (h : ∀ j ∈ items, j.ReadBack)
    {bound : Nat}
    (hbound : ([','].intercalate (items.map (·.write.toList))).length + 1 < bound)
    (rest : List Char) :
    readItems? bound ([','].intercalate (items.map (·.write.toList)) ++ ']' :: rest) =
      some (items, rest) := by
  induction items generalizing bound with
  | nil => exact absurd rfl hne
  | cons j items ih =>
    obtain ⟨bound, rfl⟩ : ∃ b, bound = b + 1 := ⟨bound - 1, by omega⟩
    obtain ⟨hj, hitems⟩ := List.forall_mem_cons.1 h
    cases items with
    | nil =>
      rw [List.map_singleton, List.intercalate_singleton] at hbound ⊢
      rw [readItems?_item hj (by omega) (by decide) (endsNumber_cons (by decide) rest)]
      rfl
    | cons j' items =>
      rw [intercalate_map_cons_cons] at hbound ⊢
      rw [List.length_append, List.length_cons] at hbound
      have hrest := @ih (List.cons_ne_nil j' items) hitems bound (by omega)
      rw [List.append_assoc, List.cons_append,
        readItems?_item hj (by omega) (by decide) (endsNumber_cons (by decide) _)]
      simp only [hrest, Option.bind_some]

/-- A member is read up to the character that ends it. -/
theorem readMembers?_member {e : Option String × Json} (hname : e.1.isSome = true)
    (he : e.2.ReadBack) {bound : Nat} (hbound : (memberText e).length < bound) {c : Char}
    (hc : isSpace c = false) {rest : List Char} (hrest : EndsNumber (c :: rest)) :
    readMembers? (bound + 1) (memberText e ++ c :: rest) =
      match c :: rest with
      | '\x7d' :: rest => some ([e], rest)
      | ',' :: rest =>
        (readMembers? bound rest).bind fun (members, rest) => some (e :: members, rest)
      | _ => none := by
  obtain ⟨_ | name, value⟩ := e
  · exact nomatch hname
  obtain ⟨body, hwritten, hread⟩ :=
    exists_readString? name (':' :: (value.write.toList ++ c :: rest))
  have htext : memberText (some name, value) ++ c :: rest =
      (writeText name).toList ++ ':' :: (value.write.toList ++ c :: rest) := by
    simp [memberText, writeString]
  have hvalue : value.write.toList.length < bound := by
    simp only [memberText, List.length_append, List.length_cons] at hbound
    omega
  rw [htext, hwritten, readMembers?, skipSpace_cons (by decide)]
  simp only [hread, skipSpace_cons (show isSpace ':' = false by decide),
    he bound (c :: rest) hvalue hrest, Option.bind_eq_bind, Option.bind_some, skipSpace_cons hc]
  rfl

/-- Members are read up to the brace that closes the object. -/
theorem readMembers?_written {members : List (Option String × Json)} (hne : members ≠ [])
    (hnames : ∀ e ∈ members, e.1.isSome = true) (h : ∀ e ∈ members, e.2.ReadBack) {bound : Nat}
    (hbound : ([','].intercalate (members.map memberText)).length + 1 < bound)
    (rest : List Char) :
    readMembers? bound ([','].intercalate (members.map memberText) ++ '\x7d' :: rest) =
      some (members, rest) := by
  induction members generalizing bound with
  | nil => exact absurd rfl hne
  | cons e members ih =>
    obtain ⟨bound, rfl⟩ : ∃ b, bound = b + 1 := ⟨bound - 1, by omega⟩
    obtain ⟨hname, hnames⟩ := List.forall_mem_cons.1 hnames
    obtain ⟨he, hmembers⟩ := List.forall_mem_cons.1 h
    cases members with
    | nil =>
      rw [List.map_singleton, List.intercalate_singleton] at hbound ⊢
      rw [readMembers?_member hname he (by omega) (by decide) (endsNumber_cons (by decide) rest)]
      rfl
    | cons e' members =>
      rw [intercalate_map_cons_cons] at hbound ⊢
      rw [List.length_append, List.length_cons] at hbound
      have hrest := @ih (List.cons_ne_nil e' members) hnames hmembers bound (by omega)
      rw [List.append_assoc, List.cons_append,
        readMembers?_member hname he (by omega) (by decide) (endsNumber_cons (by decide) _)]
      simp only [hrest, Option.bind_some]

/-- Values start with a character that is neither white space nor a bracket that closes. -/
theorem Plain.exists_front {j : Json} (h : j.Plain) : ∃ c cs, j.write.toList = c :: cs ∧
    isSpace c = false ∧ c ≠ ']' := by
  cases h with
  | ofNat n =>
    rw [toList_write_ofNat]
    obtain ⟨c, digits, hdigits⟩ :=
      List.exists_cons_of_ne_nil (Nat.toDigits_ne_nil (n := n) (b := 10))
    have hc : c.isDigit = true :=
      Nat.isDigit_of_mem_toDigits (by decide) (by decide) (hdigits ▸ List.mem_cons_self)
    refine ⟨c, digits, hdigits, isSpace_of_isDigit hc, ?_⟩
    exact ne_of_isDigit hc (by decide)
  | ofText s => exact ⟨_, _, toList_writeText s, by decide, by decide⟩
  | array _ => exact ⟨_, _, toList_write_array _, by decide, by decide⟩
  | object _ _ => exact ⟨_, _, toList_write_object _, by decide, by decide⟩

theorem exists_front_memberText {e : Option String × Json} (hname : e.1.isSome = true) :
    ∃ cs, memberText e = '"' :: cs := by
  obtain ⟨_ | name, value⟩ := e
  · exact nomatch hname
  · exact ⟨_, congrArg (· ++ _) (toList_writeText name)⟩

/-- A list of pieces starts as its first piece does. -/
theorem exists_front_intercalate {β : Type} (f : β → List Char) {b : β} (bs : List β) {c : Char}
    {cs : List Char} (h : f b = c :: cs) :
    ∃ rest, [','].intercalate ((b :: bs).map f) = c :: rest := by
  cases bs with
  | nil => exact ⟨cs, by simp [h]⟩
  | cons b' bs => exact ⟨_, by rw [intercalate_map_cons_cons, h]; rfl⟩

theorem readBack_array {items : List Json} (hplain : ∀ j ∈ items, j.Plain)
    (h : ∀ j ∈ items, j.ReadBack) : (array items).ReadBack := by
  intro bound rest hbound _
  obtain ⟨bound, rfl⟩ : ∃ b, bound = b + 1 := ⟨bound - 1, by omega⟩
  rw [toList_write_array] at hbound ⊢
  rw [List.length_cons, List.length_append, List.length_singleton] at hbound
  rw [List.cons_append, List.append_assoc, List.singleton_append, readValue?,
    skipSpace_cons (by decide)]
  cases items with
  | nil => rfl
  | cons j items =>
    have hread :=
      @readItems?_written (j :: items) (List.cons_ne_nil j items) h bound (by omega) rest
    obtain ⟨c, cs, hc, hspace, hbracket⟩ := (hplain j List.mem_cons_self).exists_front
    obtain ⟨text, htext⟩ := exists_front_intercalate (·.write.toList) items hc
    simp only [htext, List.cons_append, skipSpace_cons hspace] at hread ⊢
    split
    · next heq => exact absurd (List.cons_eq_cons.1 heq).1 hbracket
    · exact congrArg (Option.map fun x => (array x.1, x.2)) hread

theorem readBack_object {members : List (Option String × Json)}
    (hnames : ∀ e ∈ members, e.1.isSome = true) (h : ∀ e ∈ members, e.2.ReadBack) :
    (object members).ReadBack := by
  intro bound rest hbound _
  obtain ⟨bound, rfl⟩ : ∃ b, bound = b + 1 := ⟨bound - 1, by omega⟩
  rw [toList_write_object] at hbound ⊢
  rw [List.length_cons, List.length_append, List.length_singleton] at hbound
  rw [List.cons_append, List.append_assoc, List.singleton_append, readValue?,
    skipSpace_cons (by decide)]
  cases members with
  | nil => rfl
  | cons e members =>
    have hne : e :: members ≠ [] := List.cons_ne_nil e members
    have hread := @readMembers?_written (e :: members) hne hnames h bound (by omega) rest
    obtain ⟨cs, hcs⟩ := exists_front_memberText (hnames e List.mem_cons_self)
    obtain ⟨text, htext⟩ := exists_front_intercalate memberText members hcs
    simp only [htext, List.cons_append, skipSpace_cons (show isSpace '"' = false by decide)]
      at hread ⊢
    exact congrArg (Option.map fun x => (object x.1, x.2)) hread

theorem Plain.readBack {j : Json} (h : j.Plain) : j.ReadBack := by
  induction h with
  | ofNat n => exact readBack_ofNat n
  | ofText s => exact readBack_ofText s
  | array hplain ih => exact readBack_array hplain ih
  | object hnames _ ih => exact readBack_object hnames ih

/-- What is written is read back. -/
theorem Plain.read?_write {j : Json} (h : j.Plain) : read? j.write = some j := by
  have hread := h.readBack (2 * j.write.toList.length + 2) [] (by omega) endsNumber_nil
  rw [List.append_nil] at hread
  unfold read?
  simp only [hread]
  rfl

/-- Members of an object that are texts. -/
def textMembers (texts : List (String × String)) : List (Option String × Json) :=
  texts.map fun (name, s) => (some name, ofText s)

/-- An object whose members are texts is read as it was written. -/
theorem read?_write_texts (texts : List (String × String)) :
    read? (write (object (textMembers texts))) = some (object (textMembers texts)) := by
  refine Plain.read?_write (.object (fun e he => ?_) fun e he => ?_)
  · obtain ⟨_, -, rfl⟩ := List.mem_map.1 he
    rfl
  · obtain ⟨x, -, rfl⟩ := List.mem_map.1 he
    exact .ofText x.2

end Json

end TraceSubstitution
