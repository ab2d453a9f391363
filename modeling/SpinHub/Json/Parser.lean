import SpinHub.Json.Token

/-!
# Parsing JSON

A value is read token by token on a stack of the lists and objects that are still open, so
nesting has no limit here. A text is one value with nothing after it.
-/

namespace SpinHub.Json

/-- A list or object that is still open, with what it holds so far, last first. -/
inductive Frame where
  | items (done : List Json)
  /-- An object that waits for the value of the field `name`. -/
  | field (name : JsonText) (done : List (JsonText × Json))

/-- What may follow, and the lists and objects that are open there, innermost first. -/
inductive Reader where
  | value (stack : List Frame)
  /-- After an opening bracket: a value or the closing bracket. -/
  | listStart (stack : List Frame)
  /-- After an opening brace: a field or the closing brace. -/
  | objectStart (stack : List Frame)
  /-- After a comma in an object: a field. -/
  | name (done : List (JsonText × Json)) (stack : List Frame)
  | colon (name : JsonText) (done : List (JsonText × Json)) (stack : List Frame)
  /-- After a whole value: a separator, a closing sign, or the end of the text. -/
  | complete (value : Json) (stack : List Frame)

namespace Reader

/-- Starts a value. -/
def start (stack : List Frame) : Token → Option Reader
  | .openList => some (.listStart stack)
  | .openObject => some (.objectStart stack)
  | .null => some (.complete .null stack)
  | .bool b => some (.complete (.bool b) stack)
  | .number n => some (.complete (.number n) stack)
  | .text s => some (.complete (.text s) stack)
  | .closeList | .closeObject | .comma | .colon => none

/-- Reads one token. -/
def step : Reader → Token → Option Reader
  | value stack, t => start stack t
  | listStart stack, t =>
    if t = .closeList then some (.complete (.list []) stack) else start (.items [] :: stack) t
  | objectStart stack, .closeObject => some (.complete (.object []) stack)
  | objectStart stack, .text n => some (.colon n [] stack)
  | name done stack, .text n => some (.colon n done stack)
  | colon n done stack, .colon => some (.value (.field n done :: stack))
  | complete v (.items done :: stack), .comma => some (.value (.items (v :: done) :: stack))
  | complete v (.items done :: stack), .closeList =>
    some (.complete (.list (v :: done).reverse) stack)
  | complete v (.field n done :: stack), .comma => some (.name ((n, v) :: done) stack)
  | complete v (.field n done :: stack), .closeObject =>
    some (.complete (.object ((n, v) :: done).reverse) stack)
  | _, _ => none

end Reader

/-- The value of a list of tokens. -/
def ofTokens? (tokens : List Token) : Option Json :=
  match tokens.foldlM Reader.step (.value []) with
  | some (.complete v []) => some v
  | _ => none

/-- The value of a text. -/
def parse? (s : String) : Option Json := (tokens? s.toList).bind ofTokens?

end SpinHub.Json
