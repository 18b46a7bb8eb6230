import TraceSubstitution.Json.Value

/-!
# Writing JSON texts

`Json.write` writes a value without white space. Quotes, backslashes and control
characters are escaped and all other characters stand for themselves. A string
literal that stands for no text is written as `null`.
-/

namespace TraceSubstitution

/-- A number as a literal; one that is not whole has an exponent. -/
def JsonNumber.write (n : JsonNumber) : String :=
  (if n.negative then "-" else "") ++ toString n.mantissa
    ++ if n.whole then "" else "e" ++ toString n.exponent

namespace Json

/-- One character as it stands between quotes. -/
def escape (c : Char) : String :=
  if c = '"' then "\\\""
  else if c = '\\' then "\\\\"
  else if c.toNat < 0x20 then
    "\\u00" ++ String.ofList [(c.toNat / 16).digitChar, (c.toNat % 16).digitChar]
  else c.toString

/-- A text between quotes. -/
def writeText (s : String) : String := "\"" ++ String.join (s.toList.map escape) ++ "\""

/-- A string literal. -/
def writeString : Option String → String
  | some s => writeText s
  | none => "null"

mutual

/-- A value as a text. -/
def write : Json → String
  | null => "null"
  | bool b => toString b
  | number n => n.write
  | string s => writeString s
  | array items => "[" ++ String.intercalate "," (writeItems items) ++ "]"
  | object members => "\x7b" ++ String.intercalate "," (writeMembers members) ++ "\x7d"

/-- The items of an array. -/
def writeItems : List Json → List String
  | [] => []
  | item :: items => write item :: writeItems items

/-- The members of an object. -/
def writeMembers : List (Option String × Json) → List String
  | [] => []
  | (name, value) :: members => (writeString name ++ ":" ++ write value) :: writeMembers members

end

end Json

end TraceSubstitution
