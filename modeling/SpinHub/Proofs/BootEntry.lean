import Mathlib
import SpinHub.Proofs.ImageWords
import SpinHub.Proofs.RootSurvives

/-!
# The entry of an image

Execution starts in the first public method of the root. The root is the first object behind the
header and the reserved space, and that method has the first slot of its table. Where space is
reserved, the stub in it calls the first method of the object in its slot 2, which is the root.
-/

namespace SpinHub

open Bytes

/-! ### Declared methods -/

/-- A method without what layout and compilation fill in. -/
def Method.declaration (method : Method) : Method :=
  { method with index := 0, offset := 0, localsSize := 0, code := [] }

namespace Object

/-- The methods of an object as declared. -/
def declarations (object : Object) : List Method := object.methods.map Method.declaration

theorem declarations_withMethodSlots (object : Object) :
  object.withMethodSlots.declarations = object.declarations
  := by
  rw [declarations, withMethodSlots, declarations]
  generalize object.methods.countP (·.isPublic) + 1 = nextPrivate
  generalize 1 = nextPublic
  induction object.methods generalizing nextPublic nextPrivate with
  | nil => rfl
  | cons method rest ih =>
    rw [placeMethods]
    split_ifs
    · rw [List.map_cons, List.map_cons, ih]
      rfl
    · rw [List.map_cons, List.map_cons, ih]
      rfl

end Object

namespace Step

end Step

namespace Program

end Program

/-! ### The root in front -/

end SpinHub
