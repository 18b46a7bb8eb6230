import TraceSubstitution.Json.Value

/-!
# Records in JSON texts

A record is written as an object, or as an array of its fields in order. In an
object the fields may come in any order and other members are ignored, but no
field may be repeated. A field that is missing makes the text unreadable, unless
the record has a default for it; an array without defaults must be complete, and
no array may be longer than the record. One of a few names is written as a text,
or as an object with the name as its only member and nothing under it.
-/

namespace TraceSubstitution

namespace Json

/-- The fields of a record as they are written: `none` stands for a missing field. -/
abbrev Fields := List (Option Json)

/-- The value under `name` among the members of an object: `none` if the name is repeated,
`some none` if it is missing. -/
def member? (members : List (Option String × Json)) (name : String) : Option (Option Json) :=
  match members.filter (·.1 = some name) with
  | [] => some none
  | [(_, value)] => some (some value)
  | _ => none

/-- The fields with the given names of a record. -/
def fields? (names : List String) : Json → Option Fields
  | object members =>
    if members.all (·.1.isSome) then names.mapM (member? members) else none
  | array items =>
    if items.length ≤ names.length then
      some (items.map some ++ List.replicate (names.length - items.length) none)
    else none
  | _ => none

/-- A field that must be there. -/
def required? {β : Type} (read : Json → Option β) (field : Option Json) : Option β :=
  field.bind read

/-- A field that has a default. -/
def withDefault? {β : Type} (default : β) (read : Json → Option β) : Option Json → Option β
  | none => some default
  | some j => read j

/-- A name, written as a text or as the only member of an object with nothing under it. -/
def name? : Json → Option String
  | string s => s
  | object [(s, null)] => s
  | _ => none

/-- A list of items of one kind. -/
def list? {β : Type} (read : Json → Option β) : Json → Option (List β)
  | array items => items.mapM read
  | _ => none

end Json

end TraceSubstitution
