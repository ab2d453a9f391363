import SpinHub.Build

/-!
# Variables

The variables of an object stand in one block: longs, then words, then bytes, each kind in
order of declaration, so that every variable is aligned to its own size.
-/

namespace SpinHub

/-- The value of a dimension of a variable. -/
def Var.extent (var : Var) (site : Site) (dim : Exp) : Eval Nat := do
  let n ← site.evalInt dim
  if n < 1 then failAt dim.pos (.arraySize var.name.name) else return n.toNat

/-- The values of all dimensions of a variable; without dimensions it has one cell. -/
def Var.measure (var : Var) (site : Site) : Eval (List Nat) := do
  match ← var.dims.mapM (var.extent site) with
  | [] => return [1]
  | extents => return extents

/-- Gives the variables of one size consecutive offsets from `offset` on, and returns the
offset behind them. -/
def placeVars (size : Size) : Nat → List Var → List Var × Nat
  | offset, [] => ([], offset)
  | offset, var :: rest =>
    if var.size = size then
      let placed := placeVars size (offset + var.bytes) rest
      ({ var with offset } :: placed.1, placed.2)
    else
      let placed := placeVars size offset rest
      (var :: placed.1, placed.2)

namespace Object

/-- Gives every variable its extents and its offset. -/
def withVars (object : Object) (extents : List (List Nat)) : Object :=
  let measured := object.vars.zipWith (fun var extents => { var with extents }) extents
  let longs := placeVars .long 0 measured
  let words := placeVars .word longs.2 longs.1
  let bytes := placeVars .byte words.2 words.1
  { object with vars := bytes.1, varSize := roundLong bytes.2 }

end Object

/-- Lays out the variables of an object. -/
def Step.placeVars (id : ObjId) : Step Unit := do
  let object ← object id
  let extents ← evaluateIn id fun site => object.vars.mapM fun var => var.measure site
  modifyObject id (·.withVars extents)

end SpinHub
