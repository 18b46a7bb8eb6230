import TraceSubstitution.Text.Printable

/-!
# Quoted texts

A text is quoted between double quotes. Quotes, backslashes and the common
control characters get a backslash; every other character without a glyph of its
own is shown by its code point in hexadecimal, between braces.
-/

namespace TraceSubstitution

/-- The hexadecimal digits of a number, in lower case. -/
def hexText (n : Nat) : String := String.ofList (Nat.toDigits 16 n)

/-- One character as it stands between quotes. -/
def quoteChar (c : Char) : String :=
  if c = '"' then "\\\""
  else if c = '\\' then "\\\\"
  else if c = '\n' then "\\n"
  else if c = '\r' then "\\r"
  else if c = '\t' then "\\t"
  else if c.toNat = 0 then "\\0"
  else if isPrintable c then c.toString
  else "\\u\x7b" ++ hexText c.toNat ++ "\x7d"

/-- A text between quotes. -/
def quoted (s : String) : String :=
  "\"" ++ String.join (s.toList.map quoteChar) ++ "\""

end TraceSubstitution
