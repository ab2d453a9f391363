/-!
# Paths

Names of files, with their directories in front of them. Output files are named after the
input by their extension.
-/

namespace SpinHub

namespace Path

/-- Reversed characters of a path without separators and current directories at the end. -/
def dropEnd : List Char → List Char
  | '/' :: rest => dropEnd rest
  | '.' :: '/' :: rest => dropEnd rest
  | chars => chars

/-- Reversed characters of a name without its extension. A point at the front of a name starts
no extension. -/
def dropExtension (name : List Char) : List Char :=
  match name.dropWhile (· ≠ '.') with
  | '.' :: c :: stem => c :: stem
  | _ => name

/-- The path with the extension of its final component replaced, or added if it has none. A
path that ends in no name stays as it is. -/
def withExtension (path extension : String) : String :=
  let chars := dropEnd path.toList.reverse
  let name := chars.takeWhile (· ≠ '/')
  if name = [] ∨ name = ['.'] ∨ name = ['.', '.'] then path
  else
    let stem := dropExtension name ++ chars.drop name.length
    String.ofList stem.reverse ++ "." ++ extension

/-- The directory of a path, without separators and current directories at its end. The
outermost directory is a separator alone, and a name alone has no directory in front of it. -/
def parent (path : String) : String :=
  let front := (dropEnd path.toList.reverse).dropWhile (· ≠ '/')
  match dropEnd front with
  | [] => if front = [] then "" else "/"
  | directory => String.ofList directory.reverse

/-- The path of a file in the directory of another. A name that starts at the outermost
directory is a path of its own. -/
def sibling (path name : String) : String :=
  let directory := parent path
  if name.startsWith "/" then name
  else if directory = "" ∨ directory = "/" then directory ++ name
  else directory ++ "/" ++ name

/-! ### Where a path leads -/

/-- The most bytes that a name in a directory may have. -/
def maxName : Nat := 255

/-- The most bytes that a path may have. -/
def maxLength : Nat := 4095

end Path

/-- Where a path leads, as far as it can be followed through directories alone. -/
inductive Location where
  /-- A directory: the one at the start of the path or one around it. -/
  | directory
  /-- A name, in the directory at the start or in one around it. The path may go on behind the
  name. -/
  | entry (inside : Bool) (name : String) (last : Bool)

namespace Path

/-- Follows the parts of a path up to the first name. -/
def follow (inside : Bool) : List String → Location
  | [] => .directory
  | part :: rest =>
    if part = "" ∨ part = "." then follow inside rest
    else if part = ".." then follow false rest
    else .entry inside part rest.isEmpty

/-- Where a path leads. A path that starts with a separator starts at the outermost
directory. -/
def locate (path : String) : Location := follow (!path.startsWith "/") (path.splitOn "/")

end Path

end SpinHub
