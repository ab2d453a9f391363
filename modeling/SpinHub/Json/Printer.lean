import SpinHub.Json

/-!
# Writing JSON

A value is written without blanks. In strings the quote, the backslash and the control
characters are escaped, the usual ones by a letter and the others by their number.
-/

namespace SpinHub.Json

/-- The hexadecimal digit for a number below sixteen. -/
def hexDigit (n : Nat) : Char := Nat.digitChar n

/-- The characters that stand for a character in a string. -/
def escape (c : Char) : List Char :=
  if c = '"' then ['\\', '"']
  else if c = '\\' then ['\\', '\\']
  else if c = '\n' then ['\\', 'n']
  else if c = '\r' then ['\\', 'r']
  else if c = '\t' then ['\\', 't']
  else if c.toNat = 8 then ['\\', 'b']
  else if c.toNat = 12 then ['\\', 'f']
  else if c.toNat < 0x20 then
    ['\\', 'u', '0', '0', hexDigit (c.toNat / 16), hexDigit (c.toNat % 16)]
  else [c]

/-- A string in quotes. -/
def quoted (s : String) : List Char := '"' :: s.toList.flatMap escape ++ ['"']

/-- The name of a field and the colon after it. -/
def nameChars : JsonText → List Char
  | some s => quoted s ++ [':']
  | none => "\"\\ud800\":".toList

mutual

/-- The characters of a value. A string that is no text is written as a lone half of a
surrogate pair. -/
def chars : Json → List Char
  | .null => "null".toList
  | .bool true => "true".toList
  | .bool false => "false".toList
  | .number n => n.chars
  | .text (some s) => quoted s
  | .text none => "\"\\ud800\"".toList
  | .list [] => ['[', ']']
  | .list (item :: items) => '[' :: item.chars ++ itemChars items
  | .object [] => ['\x7b', '\x7d']
  | .object ((name, value) :: fields) =>
    '\x7b' :: nameChars name ++ value.chars ++ fieldChars fields

/-- The rest of a list after its first item. -/
def itemChars : List Json → List Char
  | [] => [']']
  | item :: items => ',' :: item.chars ++ itemChars items

/-- The rest of an object after its first field. -/
def fieldChars : List (JsonText × Json) → List Char
  | [] => ['\x7d']
  | (name, value) :: fields => ',' :: nameChars name ++ value.chars ++ fieldChars fields

end

/-- The text of a value. -/
def render (value : Json) : String := String.ofList value.chars

end SpinHub.Json
