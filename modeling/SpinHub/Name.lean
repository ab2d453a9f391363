/-!
# Names and positions

Names are compared without regard to the case of ASCII letters: two names are the same
when their keys are. A name that starts with a colon is local to the label before it. An
object is named by its source file, and the extension of the file may be left out.
-/

namespace SpinHub

/-- A place in a source file; 0:0 stands for no place. -/
structure Pos where
  line : UInt32 := 0
  column : UInt32 := 0
deriving DecidableEq

/-- A name as it is spelled at a place. -/
structure Ident where
  name : String
  pos : Pos := {}
deriving DecidableEq

/-- What names are compared by: the name with its ASCII letters in upper case. -/
def nameKey (name : String) : String := String.ofList (name.toList.map Char.toUpper)

/-- A name that starts with a colon belongs to the last label that does not. -/
def isLocalLabel (name : String) : Bool := name.toList.head? = some ':'

namespace FileName

/-- The characters before the source extension, if the name ends in it in any case. -/
def stem? (name : String) : Option String :=
  let chars := name.toList
  let cut := chars.length - 5
  if nameKey (String.ofList (chars.drop cut)) = ".SPIN" then some (String.ofList (chars.take cut))
  else none

/-- The name of a source file with its extension, which is added if it is missing. -/
def normalize (name : String) : String :=
  match stem? name with
  | some _ => name
  | none => name ++ ".spin"

/-- The key that source files are compared by. -/
def key (name : String) : String := nameKey (normalize name)

/-- The name of the container file for an object. -/
def container (name : String) : String :=
  match stem? name with
  | some stem => stem ++ ".sob"
  | none => name ++ ".sob"

/-- The name under which a container refers to an object. -/
def importName (name : String) : String :=
  match stem? name with
  | some stem => nameKey stem
  | none => nameKey name

end FileName

end SpinHub
