import TraceSubstitution.Json.Value

/-!
# Reading JSON texts

`Json.read?` accepts exactly one JSON value between optional white space. The
readers below take what they need from the front of a list of characters and
return the rest. `readValue?` calls itself on the items of arrays and objects,
so it carries a bound on the number of values still to be read; the length of
the text is always enough, since every value takes a character.
-/

namespace TraceSubstitution

namespace Json

/-- White space between the tokens of a JSON text. -/
def isSpace (c : Char) : Bool := c = ' ' || c = '\n' || c = '\t' || c = '\r'

/-- The text without the white space at its front. -/
def skipSpace (cs : List Char) : List Char := cs.dropWhile isSpace

/-- The value of a hexadecimal digit. -/
def hexDigit? (c : Char) : Option Nat :=
  if '0' ≤ c ∧ c ≤ '9' then some (c.toNat - '0'.toNat)
  else if 'a' ≤ c ∧ c ≤ 'f' then some (c.toNat - 'a'.toNat + 10)
  else if 'A' ≤ c ∧ c ≤ 'F' then some (c.toNat - 'A'.toNat + 10)
  else none

/-- The value of four hexadecimal digits. -/
def hexUnit? (a b c d : Char) : Option Nat := do
  let a ← hexDigit? a
  let b ← hexDigit? b
  let c ← hexDigit? c
  let d ← hexDigit? d
  return ((a * 16 + b) * 16 + c) * 16 + d

/-- The character that a backslash and `c` stand for. -/
def escaped? : Char → Option Char
  | '"' => some '"'
  | '\\' => some '\\'
  | '/' => some '/'
  | 'b' => some '\x08'
  | 'f' => some '\x0c'
  | 'n' => some '\n'
  | 'r' => some '\r'
  | 't' => some '\t'
  | _ => none

/-- The code units up to the closing quote, and the text after it. -/
def readUnits? : List Char → Option (List Nat × List Char)
  | [] => none
  | '"' :: rest => some ([], rest)
  | '\\' :: 'u' :: a :: b :: c :: d :: rest => do
    let unit ← hexUnit? a b c d
    let (units, rest) ← readUnits? rest
    return (unit :: units, rest)
  | '\\' :: c :: rest => do
    let c ← escaped? c
    let (units, rest) ← readUnits? rest
    return (c.toNat :: units, rest)
  | c :: rest => do
    guard (c ≠ '\\' ∧ 0x20 ≤ c.toNat)
    let (units, rest) ← readUnits? rest
    return (c.toNat :: units, rest)

/-- The characters that code units stand for; `none` if a surrogate has no partner. -/
def joinUnits? : List Nat → Option (List Char)
  | [] => some []
  | u :: units =>
    if 0xd800 ≤ u ∧ u < 0xdc00 then
      match units with
      | [] => none
      | v :: units =>
        if 0xdc00 ≤ v ∧ v < 0xe000 then
          (joinUnits? units).map (Char.ofNat (0x10000 + (u - 0xd800) * 0x400 + (v - 0xdc00)) :: ·)
        else none
    else if 0xdc00 ≤ u ∧ u < 0xe000 then none
    else (joinUnits? units).map (Char.ofNat u :: ·)

/-- A string literal whose opening quote has been read. -/
def readString? (cs : List Char) : Option (Option String × List Char) :=
  (readUnits? cs).map fun (units, rest) => ((joinUnits? units).map String.ofList, rest)

/-- A run of digits: its length, its value after `start`, and the text after it. -/
def readDigits (start : Nat) : List Char → Nat × Nat × List Char
  | c :: rest =>
    if c.isDigit then
      let (count, value, rest) := readDigits (start * 10 + (c.toNat - '0'.toNat)) rest
      (count + 1, value, rest)
    else (0, start, c :: rest)
  | [] => (0, start, [])

/-- The exponent part of a number, if there is one. -/
def readExponent? : List Char → Option (Option Int × List Char)
  | c :: rest =>
    if c = 'e' ∨ c = 'E' then
      let (negative, rest) := match rest with
        | '-' :: rest => (true, rest)
        | '+' :: rest => (false, rest)
        | rest => (false, rest)
      let (count, value, rest) := readDigits 0 rest
      if count = 0 then none
      else some (some (if negative then -Int.ofNat value else Int.ofNat value), rest)
    else some (none, c :: rest)
  | [] => some (none, [])

/-- The digits of a number after its sign. -/
def readMagnitude? (negative : Bool) (cs : List Char) : Option (JsonNumber × List Char) := do
  let (count, integer, rest) := readDigits 0 cs
  guard (count ≠ 0 ∧ (count = 1 ∨ cs.head? ≠ some '0'))
  let (places, mantissa, rest) ← match rest with
    | '.' :: rest =>
      let (count, value, rest) := readDigits integer rest
      if count = 0 then none else some (count, value, rest)
    | rest => some (0, integer, rest)
  let (exponent, rest) ← readExponent? rest
  return (⟨negative, mantissa, exponent.getD 0 - places, places = 0 && exponent.isNone⟩, rest)

/-- A number literal. -/
def readNumber? : List Char → Option (JsonNumber × List Char)
  | '-' :: rest => readMagnitude? true rest
  | cs => readMagnitude? false cs

/-- The text after `word`, if it starts with it. -/
def readWord? : List Char → List Char → Option (List Char)
  | [], rest => some rest
  | w :: word, c :: rest => if w = c then readWord? word rest else none
  | _ :: _, [] => none

mutual

/-- A value, with at most `bound` values in it. -/
def readValue? : (bound : Nat) → List Char → Option (Json × List Char)
  | 0, _ => none
  | bound + 1, cs =>
    match skipSpace cs with
    | [] => none
    | '"' :: rest => (readString? rest).map fun (s, rest) => (string s, rest)
    | '[' :: rest =>
      match skipSpace rest with
      | ']' :: rest => some (array [], rest)
      | rest => (readItems? bound rest).map fun (items, rest) => (array items, rest)
    | '{' :: rest =>
      match skipSpace rest with
      | '}' :: rest => some (object [], rest)
      | rest => (readMembers? bound rest).map fun (members, rest) => (object members, rest)
    | 'n' :: rest => (readWord? ['u', 'l', 'l'] rest).map fun rest => (null, rest)
    | 't' :: rest => (readWord? ['r', 'u', 'e'] rest).map fun rest => (bool true, rest)
    | 'f' :: rest => (readWord? ['a', 'l', 's', 'e'] rest).map fun rest => (bool false, rest)
    | cs => (readNumber? cs).map fun (n, rest) => (number n, rest)

/-- The items of an array up to its closing bracket; there is at least one. -/
def readItems? : (bound : Nat) → List Char → Option (List Json × List Char)
  | 0, _ => none
  | bound + 1, cs => do
    let (item, rest) ← readValue? bound cs
    match skipSpace rest with
    | ']' :: rest => return ([item], rest)
    | ',' :: rest =>
      let (items, rest) ← readItems? bound rest
      return (item :: items, rest)
    | _ => none

/-- The members of an object up to its closing brace; there is at least one. -/
def readMembers? : (bound : Nat) → List Char → Option (List (Option String × Json) × List Char)
  | 0, _ => none
  | bound + 1, cs =>
    match skipSpace cs with
    | '"' :: rest => do
      let (key, rest) ← readString? rest
      match skipSpace rest with
      | ':' :: rest =>
        let (value, rest) ← readValue? bound rest
        match skipSpace rest with
        | '}' :: rest => return ([(key, value)], rest)
        | ',' :: rest =>
          let (members, rest) ← readMembers? bound rest
          return ((key, value) :: members, rest)
        | _ => none
      | _ => none
    | _ => none

end

/-- The value of a JSON text: one value with nothing but white space around it. -/
def read? (s : String) : Option Json := do
  let cs := s.toList
  let (value, rest) ← readValue? (2 * cs.length + 2) cs
  guard ((skipSpace rest).isEmpty)
  return value

end Json

end TraceSubstitution
