import SpinHub.Build

/-!
# Slots

An object starts with a table of longs: slot 0 holds sizes, then every method has a slot,
public methods first, and then every instance of a sub-object. The numbers of method and
of instance slots have to fit in a byte.
-/

namespace SpinHub

/-- The number of instances of a sub-object. -/
def SubObject.instances (sub : SubObject) (site : Site) : Eval Nat := do
  match sub.countExp with
  | none => return 1
  | some e =>
    let count ← site.evalInt e
    if count < 1 then failAt e.pos (.objectCount count) else return count.toNat

/-- Gives sub-objects their counts and consecutive slots from `index` on. -/
def placeSubs : Nat → List SubObject → List Nat → List SubObject
  | index, sub :: subs, count :: counts =>
    { sub with count, index } :: placeSubs (index + count) subs counts
  | _, subs, _ => subs

/-- Gives methods their slots, from `nextPublic` on for public ones and from `nextPrivate` on
for the others. -/
def placeMethods : Nat → Nat → List Method → List Method
  | _, _, [] => []
  | nextPublic, nextPrivate, method :: rest =>
    if method.isPublic then
      { method with index := nextPublic } :: placeMethods (nextPublic + 1) nextPrivate rest
    else
      { method with index := nextPrivate } :: placeMethods nextPublic (nextPrivate + 1) rest

namespace Object

/-- Gives every method its slot. -/
def withMethodSlots (object : Object) : Object :=
  let publics := object.methods.countP (·.isPublic)
  { object with methods := placeMethods 1 (publics + 1) object.methods }

/-- Gives every sub-object its count and its slots, behind those of the methods. -/
def withSubSlots (object : Object) (counts : List Nat) : Object :=
  { object with subs := placeSubs (object.methods.length + 1) object.subs counts }

/-- Records the size of the table for a number of instance slots. -/
def withTable (object : Object) (slots : Nat) : Object :=
  { object with
    subSlots := slots
    headerSize := (slots + object.methods.length + 1) * 4 }

end Object

namespace Step

/-- Gives the methods of an object their slots. -/
def placeMethods (id : ObjId) : Step Unit := modifyObject id Object.withMethodSlots

/-- Gives the sub-objects of an object their counts and slots. The counts and slots stay when
there are too many of them. -/
def placeSubs (id : ObjId) : Step Unit := do
  let object ← object id
  let counts ← evaluateIn id fun site => object.subs.mapM fun sub => sub.instances site
  modifyObject id (·.withSubSlots counts)
  if 255 < total counts ∨ 255 < object.methods.length + 1 then
    failAt {} (.tooManySlots object.file)
  else
    modifyObject id (·.withTable (total counts))

end Step

end SpinHub
