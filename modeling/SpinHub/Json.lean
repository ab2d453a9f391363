import SpinHub.Numeral

/-!
# JSON values

A value keeps numbers as they are written and fields in the order they are given, repeated
ones included. A string that names half of a surrogate pair is no text; such a string is
harmless where it is skipped, so it is kept as `none`.
-/

namespace SpinHub

/-- The contents of a JSON string, if they are text. -/
abbrev JsonText := Option String

/-- A JSON value. -/
inductive Json where
  | null
  | bool (value : Bool)
  | number (value : Numeral)
  | text (value : JsonText)
  | list (items : List Json)
  | object (fields : List (JsonText × Json))

namespace Json

/-- A text value. -/
def ofText (s : String) : Json := .text (some s)

/-- A whole number. -/
def ofInt (n : Int) : Json := .number (.ofInt n)

/-- An object with the given fields. -/
def ofFields (fields : List (String × Json)) : Json :=
  .object (fields.map fun (name, value) => (some name, value))

/-- The value, or null if there is none. -/
def ofOption {α : Type} (encode : α → Json) : Option α → Json
  | none => .null
  | some a => encode a

end Json

end SpinHub
