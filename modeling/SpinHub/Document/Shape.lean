import SpinHub.Document.Names
import SpinHub.Json

/-!
# Shapes of documents

A record is an object with its fields by name, or a list of them in order. Unknown fields
are skipped, whatever they hold; a known field stands at most once. An alternative is its
name alone, or an object whose only field is the name with the contents. Lists and objects
that are read, and not skipped, may be nested only so deep: every reader gets the number of
levels that are left, and one is used up by each list or object it enters.
-/

namespace SpinHub.Document

/-- A reader of a value that may enter the given number of levels of lists and objects. -/
abbrev Reading (α : Type) := Nat → Json → Option α

/-! ### Plain values -/

/-- A text. -/
def text? : Json → Option String
  | .text s => s
  | _ => none

/-- A truth value. -/
def bool? : Json → Option Bool
  | .bool b => some b
  | _ => none

/-- A whole number from `low` up to `high`. -/
def int? (low high : Int) : Json → Option Int
  | .number n => n.toInt?.filter fun i => low ≤ i ∧ i ≤ high
  | _ => none

/-- A number of eight bits. -/
def byte? (j : Json) : Option UInt8 := (int? 0 255 j).map UInt8.ofInt

/-- A number of 32 bits. -/
def unsigned? (j : Json) : Option UInt32 := (int? 0 4294967295 j).map UInt32.ofInt

/-- A signed word. -/
def word? (j : Json) : Option Word := (int? (-2147483648) 2147483647 j).map (BitVec.ofInt 32)

/-! ### Lists -/

/-- The items of a list and the levels left for them. -/
def items? : Reading (Nat × List Json)
  | levels + 1, .list items => some (levels, items)
  | _, _ => none

/-- A list of values of one kind. -/
def list? {α : Type} (read : Reading α) : Reading (List α) := fun levels j => do
  let (levels, items) ← items? levels j
  items.mapM (read levels)

/-- A value or null. -/
def option? {α : Type} (read : Json → Option α) : Json → Option (Option α)
  | .null => some none
  | j => (read j).map some

/-! ### Records -/

/-- A field of a record: given, left out of an object, or past the end of a list. -/
inductive Field where
  | given (value : Json)
  | omitted
  | pastEnd

namespace Field

/-- A field that must be given. -/
def required {α : Type} (read : Json → Option α) : Field → Option α
  | given j => read j
  | omitted | pastEnd => none

/-- A field that has a default. -/
def orDefault {α : Type} (read : Json → Option α) (default : α) : Field → Option α
  | given j => read j
  | omitted | pastEnd => some default

/-- A field that is null when an object leaves it out. -/
def nullable {α : Type} (read : Json → Option α) : Field → Option (Option α)
  | given j => option? read j
  | omitted => some none
  | pastEnd => none

/-- A field that is null when it is not given. -/
def nullableOrDefault {α : Type} (read : Json → Option α) : Field → Option (Option α) :=
  orDefault (option? read) none

end Field

/-- The field of a name among the fields of an object. -/
def field? (fields : List (JsonText × Json)) (name : String) : Option Field :=
  match fields.filter (·.1 = some name) with
  | [] => some .omitted
  | [(_, value)] => some (.given value)
  | _ => none

/-- The fields of a record with the given names, and the levels left for them. -/
def record? (names : List String) : Reading (Nat × List Field)
  | levels + 1, .list items =>
    if items.length ≤ names.length then
      some (levels, items.map .given ++ List.replicate (names.length - items.length) .pastEnd)
    else none
  | levels + 1, .object fields =>
    if fields.all (·.1.isSome) then (names.mapM (field? fields)).map fun fs => (levels, fs)
    else none
  | _, _ => none

/-! ### Alternatives -/

/-- The contents of an alternative with the levels left for them, if it has any. -/
abbrev Contents := Option (Nat × Json)

/-- The name of an alternative and its contents. -/
def alternative? : Reading (String × Contents)
  | _, .text (some name) => some (name, none)
  | levels + 1, .object [(some name, value)] => some (name, some (levels, value))
  | _, _ => none

/-- An alternative without contents, which may be written as null. -/
def plain? {α : Type} (a : α) : Contents → Option α
  | none => some a
  | some (_, .null) => some a
  | some _ => none

/-- One of several alternatives without contents. -/
def oneOf? {α : Type} (names : Names α) : Reading α := fun levels j => do
  let (name, contents) ← alternative? levels j
  let a ← names.find? name
  plain? a contents

end SpinHub.Document
