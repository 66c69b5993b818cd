import ClassHighlight.Json.Value

/-!
# Records in JSON

A record is written as an object, and read from an object or from the list of its fields in order.
Unknown members of an object are passed over, and no field may be given twice. A record is either
strict, then every field has to be there, or lenient, then a missing field has a default; in both a
list may not be too long.
-/

namespace ClassHighlight

namespace JsonValue

/-- The fields with the given names in a value, each with its value or without one. -/
def fields? (names : List Text) : JsonValue → Option (List (Option JsonValue))
  | .object members =>
    if names.all fun name => (members.map Prod.fst).count name ≤ 1 then
      some (names.map fun name => members.lookup name)
    else none
  | .array items =>
    if items.length ≤ names.length then
      some (items.map some ++ List.replicate (names.length - items.length) none)
    else none
  | _ => none

/-- The fields with the given names in a value, if all are there. -/
def strictFields? (names : List Text) (v : JsonValue) : Option (List JsonValue) :=
  (v.fields? names).bind fun found => found.mapM id

/-- The name of a choice: a string, or the only member of an object, with null under it. -/
def choice? : JsonValue → Option Text
  | .string t => some t
  | .object [(name, .null)] => some name
  | _ => none

/-- A truth value. -/
def boolean? : JsonValue → Option Bool
  | .boolean b => some b
  | _ => none

/-- A number of 64 bits without a sign. -/
def natural? : JsonValue → Option Nat
  | .natural n => if n ≤ maxNat64 then some n else none
  | _ => none

/-- A string. -/
def string? : JsonValue → Option Text
  | .string t => some t
  | _ => none

/-- The items of an array, each read in one way. -/
def list? {α : Type} (read? : JsonValue → Option α) : JsonValue → Option (List α)
  | .array items => items.mapM read?
  | _ => none

end JsonValue

end ClassHighlight
