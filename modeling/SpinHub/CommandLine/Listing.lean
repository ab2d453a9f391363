import SpinHub.Build
import SpinHub.Text.Combining
import SpinHub.Text.Ignorable
import SpinHub.Text.Unprintable

/-!
# Listings

What the command shows of a compilation: nested lists and records, with one item per line
and every level indented.
-/

namespace SpinHub

/-- A value in a listing. -/
inductive Listing where
  | number (n : Nat)
  | text (s : String)
  | list (items : List Listing)
  | record (name : String) (fields : List (String × Listing))

namespace Listing

/-! ### Quoted text -/

/-- Characters that are shown by their number: those that would not be seen, or would be drawn
over the character before them. -/
def isHidden (c : Char) : Bool :=
  Text.isUnprintable c || Text.isIgnorable c || Text.isCombining c

/-- A character inside quotes. -/
def quotedChar (c : Char) : String :=
  if c = '"' then "\\\""
  else if c = '\\' then "\\\\"
  else if c = '\n' then "\\n"
  else if c = '\r' then "\\r"
  else if c = '\t' then "\\t"
  else if c.toNat = 0 then "\\0"
  else if isHidden c then "\\u\x7b" ++ String.ofList (Nat.toDigits 16 c.toNat) ++ "\x7d"
  else c.toString

/-- A text in quotes. -/
def quoted (s : String) : String := "\"" ++ String.join (s.toList.map quotedChar) ++ "\""

/-! ### Lines -/

/-- Indents lines by one level. -/
def indent (lines : List String) : List String := lines.map ("    " ++ ·)

/-- Puts a text in front of the first line. -/
def label (text : String) : List String → List String
  | [] => []
  | first :: rest => (text ++ first) :: rest

/-- Ends the last line with a comma. -/
def comma : List String → List String
  | [] => []
  | [last] => [last ++ ","]
  | line :: rest => line :: comma rest

mutual

/-- The lines of a value. -/
def lines : Listing → List String
  | number n => [toString n]
  | text s => [quoted s]
  | list [] => ["[]"]
  | list items => "[" :: itemLines items ++ ["]"]
  | record name fields => (name ++ " \x7b") :: fieldLines fields ++ ["\x7d"]

/-- The lines of the items of a list. -/
def itemLines : List Listing → List String
  | [] => []
  | item :: rest => indent (comma item.lines) ++ itemLines rest

/-- The lines of the fields of a record. -/
def fieldLines : List (String × Listing) → List String
  | [] => []
  | (name, value) :: rest => indent (comma (label (name ++ ": ") value.lines)) ++ fieldLines rest

end

/-- A value under a title. -/
def titled (title : String) (value : Listing) : String :=
  String.join ((label (title ++ " = ") value.lines).map (· ++ "\n"))

end Listing

/-! ### Listings of a build -/

namespace Build

/-- The files in the order of layout. -/
def orderListing (build : Build) : String :=
  Listing.titled "&order" (.list (build.files.map .text))

/-- The layout of an object. -/
def layoutOf (object : Object) : Listing :=
  .record "ObjectLayout"
    [("file", .text object.file), ("hub_address", .number object.hubAddress),
     ("methods", .number object.methods.length), ("objects", .number object.subSlots),
     ("dat_bytes", .number object.datBytes.length), ("var_size", .number object.varSize),
     ("size_in_bytes", .number object.size)]

/-- The layout of all objects. -/
def layoutListing (build : Build) : String :=
  Listing.titled "&layouts" (.list (build.order.map fun id => layoutOf (build.object id)))

/-- The code of a method of an object. -/
def methodOf (object : Object) (method : Method) : Listing :=
  .record "MethodCode"
    [("method", .text (object.file ++ "." ++ method.name.name)), ("index", .number method.index),
     ("offset", .number method.offset), ("locals_size", .number method.localsSize),
     ("bytes", .list (method.code.map fun b => .number b.toNat))]

/-- The code of all methods. -/
def methodListing (build : Build) : String :=
  Listing.titled "&methods" (.list (build.order.flatMap fun id =>
    (build.object id).methodTable.map (methodOf (build.object id))))

end Build

end SpinHub
