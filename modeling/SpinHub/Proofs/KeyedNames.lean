import Mathlib
import SpinHub.Evaluation

/-!
# Names by their keys

Names are compared by their keys, so a program that differs from another one in the case of
letters differs in no more than the spelling of its names. `keyed` replaces every name of a syntax
tree, or of an object, by its key. Two programs are the same up to case if they are the same program
once they are keyed, and so are two builds.
-/

namespace SpinHub

/-! ### Keys -/

@[simp]
theorem nameKey_nameKey (name : String) :
  nameKey (nameKey name) = nameKey name
  := by
  rw [nameKey, nameKey, String.toList_ofList, List.map_map]
  congr 2
  funext c
  apply Char.toUpper_toUpper_eq_toUpper

/-- The key of a name is that of its parts. -/
theorem nameKey_append (front back : String) :
  nameKey (front ++ back) = nameKey front ++ nameKey back
  := by
  rw [nameKey, String.toList_append, List.map_append, String.ofList_append, nameKey, nameKey]

/-- A colon is no letter, and no letter becomes one. -/
theorem toUpper_eq_colon (c : Char) :
  c.toUpper = ':' ↔ c = ':'
  := by
  by_cases hlower : c.isLower
  · have hupper : c.toUpper.isUpper := by
      rw [Char.isUpper_toUpper_eq_isAlpha, Char.isAlpha, hlower, Bool.or_true]
    constructor
    · intro h
      rw [h] at hupper
      cases hupper
    · rintro rfl
      cases hlower
  · rw [Char.toUpper_eq_of_not_isLower hlower]

/-- Whether a label is local does not depend on case. -/
@[simp]
theorem isLocalLabel_nameKey (name : String) :
  isLocalLabel (nameKey name) = isLocalLabel name
  := by
  rw [isLocalLabel, nameKey, String.toList_ofList, List.head?_map, isLocalLabel]
  cases name.toList.head? with
  | none => rfl
  | some c => simp only [Option.map_some, Option.some.injEq, toUpper_eq_colon]

/-- A name as its key at the same place. -/
def Ident.keyed (ident : Ident) : Ident := { ident with name := nameKey ident.name }

/-! ### Files -/

namespace FileName

/-- The stem of a file name, by key. -/
theorem stem?_nameKey (name : String) :
  stem? (nameKey name) = (stem? name).map nameKey
  := by
  have hchars : (nameKey name).toList = name.toList.map Char.toUpper := by
    rw [nameKey, String.toList_ofList]
  have hpart (chars : List Char) :
      String.ofList (chars.map Char.toUpper) = nameKey (String.ofList chars) := by
    rw [nameKey, String.toList_ofList]
  simp only [stem?, hchars, List.length_map, ← List.map_drop, ← List.map_take, hpart,
    nameKey_nameKey]
  split_ifs <;> rfl

/-- Files are compared without regard to case. -/
@[simp]
theorem key_nameKey (name : String) :
  key (nameKey name) = key name
  := by
  delta key normalize
  rw [stem?_nameKey]
  cases stem? name with
  | some stem => exact nameKey_nameKey name
  | none =>
    dsimp only [Option.map_none]
    rw [nameKey_append, nameKey_nameKey, nameKey_append]

/-- Spellings of a file name have normal forms that are the same up to case. -/
theorem nameKey_normalize {name name' : String} (h : nameKey name = nameKey name') :
  nameKey (normalize name) = nameKey (normalize name')
  := by
  change key name = key name'
  rw [← key_nameKey, h, key_nameKey]

/-- A file is imported under one name, however it is spelled. -/
theorem importName_nameKey (name : String) :
  importName (nameKey name) = importName name
  := by
  delta importName
  rw [stem?_nameKey]
  cases stem? name with
  | some stem => exact nameKey_nameKey stem
  | none => exact nameKey_nameKey name

end FileName

/-! ### Syntax trees -/

mutual

/-- An expression with the keys of its names. Strings stay as they are. -/
def Exp.keyed : Exp → Exp
  | .int pos w => .int pos w
  | .float pos x => .float pos x
  | .name pos n => .name pos (nameKey n)
  | .cell pos n size indices => .cell pos (nameKey n) size (Exp.keyedList indices)
  | .member pos object n => .member pos (nameKey object) (nameKey n)
  | .memory pos size base index => .memory pos size base.keyed (Exp.keyed? index)
  | .call pos object index method args trap =>
    .call pos (object.map nameKey) (Exp.keyed? index) (nameKey method) (Exp.keyedList args) trap
  | .unary pos op operand => .unary pos op operand.keyed
  | .binary pos op left right => .binary pos op left.keyed right.keyed
  | .assign pos op target value => .assign pos op target.keyed value.keyed
  | .look pos kind value items => .look pos kind value.keyed (Exp.keyedRanges items)
  | .register pos reg .all => .register pos reg .all
  | .register pos reg (.one bit) => .register pos reg (.one bit.keyed)
  | .register pos reg (.field high low) => .register pos reg (.field high.keyed low.keyed)
  | .special pos index => .special pos index.keyed
  | .readOnly pos source => .readOnly pos source
  | .convert pos conversion operand => .convert pos conversion operand.keyed
  | .constant pos operand => .constant pos operand.keyed
  | .string pos text => .string pos text
  | .cog pos which e stack => .cog pos (Exp.keyed? which) e.keyed stack.keyed
  | .stringCompare pos left right => .stringCompare pos left.keyed right.keyed
  | .stringSize pos operand => .stringSize pos operand.keyed
  | .lock pos op args => .lock pos op (Exp.keyedList args)
  | .here pos => .here pos
  | .absolute pos n => .absolute pos (nameKey n)

/-- Expressions with the keys of their names. -/
def Exp.keyedList : List Exp → List Exp
  | [] => []
  | e :: rest => e.keyed :: Exp.keyedList rest

/-- An optional expression with the keys of its names. -/
def Exp.keyed? : Option Exp → Option Exp
  | none => none
  | some e => some e.keyed

/-- Values and ranges with the keys of their names. -/
def Exp.keyedRanges : List (Range Exp) → List (Range Exp)
  | [] => []
  | .single e :: rest => .single e.keyed :: Exp.keyedRanges rest
  | .span low high :: rest => .span low.keyed high.keyed :: Exp.keyedRanges rest

end

namespace Exp

@[simp]
theorem keyed_pos (e : Exp) :
  e.keyed.pos = e.pos
  := by
  cases e with
  | register pos reg bits => cases bits <;> rfl
  | _ => rfl

/-- Two spellings of an expression stand at one position. -/
theorem pos_of_keyed {e e' : Exp} (h : e.keyed = e'.keyed) :
  e.pos = e'.pos
  := by
  rw [← keyed_pos, h, keyed_pos]

/-- The simple name of an expression, by key. -/
theorem simpleName?_keyed (e : Exp) :
  e.keyed.simpleName? = e.simpleName?.map nameKey
  := by
  cases e with
  | cell pos n size indices =>
    cases size with
    | none => cases indices <;> rfl
    | some size => rfl
  | register pos reg bits => cases bits <;> rfl
  | _ => rfl

end Exp

/-- The control of a loop with the keys of its names. -/
def LoopControl.keyed : LoopControl → LoopControl
  | .forever => .forever
  | .times count => .times count.keyed
  | .before negated condition => .before negated condition.keyed
  | .after negated condition => .after negated condition.keyed
  | .fromTo counter first last step =>
    .fromTo counter.keyed first.keyed last.keyed (step.map Exp.keyed)

mutual

/-- A statement with the keys of its names. -/
def Stmt.keyed : Stmt → Stmt
  | .exp pos e => .exp pos e.keyed
  | .ret pos value => .ret pos (value.map Exp.keyed)
  | .abort pos value => .abort pos (value.map Exp.keyed)
  | .branch pos negated condition yes none =>
    .branch pos negated condition.keyed (Stmt.keyedBlock yes) none
  | .branch pos negated condition yes (some no) =>
    .branch pos negated condition.keyed (Stmt.keyedBlock yes) (some (Stmt.keyedBlock no))
  | .loop pos control body => .loop pos control.keyed (Stmt.keyedBlock body)
  | .next pos => .next pos
  | .quit pos => .quit pos
  | .select pos value arms other =>
    .select pos value.keyed (Stmt.keyedArms arms) (Stmt.keyedBlock other)
  | .reboot pos => .reboot pos
  | .fillMove pos op args => .fillMove pos op (args.map Exp.keyed)
  | .wait pos op args => .wait pos op (args.map Exp.keyed)
  | .clkset pos mode frequency => .clkset pos mode.keyed frequency.keyed
  | .cogstop pos cog => .cogstop pos cog.keyed

/-- Statements with the keys of their names. -/
def Stmt.keyedBlock : List Stmt → List Stmt
  | [] => []
  | statement :: rest => statement.keyed :: Stmt.keyedBlock rest

/-- The arms of a CASE with the keys of their names. -/
def Stmt.keyedArms : List Arm → List Arm
  | [] => []
  | .mk tests body :: rest =>
    .mk (Exp.keyedRanges tests) (Stmt.keyedBlock body) :: Stmt.keyedArms rest

end

/-! ### Declarations -/

/-- A constant declaration with the keys of its names. -/
def ConDecl.keyed (decl : ConDecl) : ConDecl :=
  { name := decl.name.keyed, value := decl.value.keyed }

/-- A variable declaration with the keys of its names. -/
def VarDecl.keyed (decl : VarDecl) : VarDecl :=
  { decl with name := decl.name.keyed, dims := decl.dims.map Exp.keyed }

/-- A sub-object declaration with the keys of its names. -/
def ObjDecl.keyed (decl : ObjDecl) : ObjDecl :=
  { decl with
    name := decl.name.keyed
    file := decl.file.keyed
    count := decl.count.map Exp.keyed }

/-- A local variable with the keys of its names. -/
def LocalDecl.keyed (decl : LocalDecl) : LocalDecl :=
  { name := decl.name.keyed, count := decl.count.map Exp.keyed }

/-- A method declaration with the keys of its names. -/
def MethodDecl.keyed (decl : MethodDecl) : MethodDecl :=
  { name := decl.name.keyed
    isPublic := decl.isPublic
    result := decl.result.map Ident.keyed
    params := decl.params.map Ident.keyed
    locals := decl.locals.map LocalDecl.keyed
    body := Stmt.keyedBlock decl.body }

/-- An instruction with the keys of its mnemonic and its names. -/
def Instruction.keyed (instruction : Instruction) : Instruction :=
  { instruction with
    mnemonic := nameKey instruction.mnemonic
    dest := instruction.dest.map Exp.keyed
    source := instruction.source.map Exp.keyed }

/-- Data with the keys of its names. -/
def DatData.keyed (data : DatData) : DatData :=
  { data with value := data.value.keyed, count := data.count.map Exp.keyed }

/-- An entry of a DAT section with the keys of its names. -/
def DatEntry.keyed : DatEntry → DatEntry
  | .label name alignment => .label name.keyed alignment
  | .org pos origin => .org pos (origin.map Exp.keyed)
  | .orgx pos => .orgx pos
  | .instruction i => .instruction i.keyed
  | .res pos count => .res pos (count.map Exp.keyed)
  | .fit pos limit => .fit pos (limit.map Exp.keyed)
  | .file pos bytes => .file pos bytes
  | .data d => .data d.keyed

/-- A source object with the keys of its file and its names. -/
def SourceObject.keyed (source : SourceObject) : SourceObject :=
  { file := nameKey source.file
    constants := source.constants.map ConDecl.keyed
    vars := source.vars.map VarDecl.keyed
    objs := source.objs.map ObjDecl.keyed
    methods := source.methods.map MethodDecl.keyed
    dat := source.dat.map DatEntry.keyed }

/-- A program with the keys of its files and names. -/
def Program.keyed (program : Program) : Program :=
  { root := nameKey program.root, objects := program.objects.map SourceObject.keyed }

/-! ### Objects -/

/-- A constant with the keys of its names. -/
def Con.keyed (con : Con) : Con :=
  { con with name := con.name.keyed, value := con.value.keyed }

/-- A label with the key of its name. -/
def Label.keyed (label : Label) : Label := { label with name := label.name.keyed }

/-- A variable with the keys of its names. -/
def Var.keyed (var : Var) : Var :=
  { var with name := var.name.keyed, dims := var.dims.map Exp.keyed }

/-- A sub-object with the keys of its names. -/
def SubObject.keyed (sub : SubObject) : SubObject :=
  { sub with
    name := sub.name.keyed
    file := sub.file.keyed
    countExp := sub.countExp.map Exp.keyed }

/-- A method with the keys of its names. -/
def Method.keyed (method : Method) : Method :=
  { method with
    name := method.name.keyed
    result := method.result.map Ident.keyed
    params := method.params.map Ident.keyed
    locals := method.locals.map LocalDecl.keyed
    body := Stmt.keyedBlock method.body }

/-- An object with the keys of its names. Its symbols are found by keys already. -/
def Object.keyed (object : Object) : Object :=
  { object with
    file := nameKey object.file
    cons := object.cons.map Con.keyed
    labels := object.labels.map Label.keyed
    vars := object.vars.map Var.keyed
    subs := object.subs.map SubObject.keyed
    methods := object.methods.map Method.keyed
    dat := object.dat.map DatEntry.keyed
    latestLabel := nameKey object.latestLabel }

/-- What a name stands for, with the keys of its names. -/
def Meaning.keyed : Meaning → Meaning
  | .slot offset => .slot offset
  | .con owner index c => .con owner index c.keyed
  | .label l => .label l.keyed
  | .var v => .var v.keyed
  | .sub s => .sub s.keyed
  | .method m => .method m.keyed
  | .file id => .file id

/-- A site in the keyed objects. -/
def Site.keyed (site : Site) : Site := { site with objects := site.objects.map Object.keyed }

/-! ### Looking up names -/

/-- The objects of a number, by keys. -/
theorem objectAt_keyed (objects : List Object) (id : ObjId) :
  objectAt (objects.map Object.keyed) id = (objectAt objects id).keyed
  := by
  rw [objectAt, List.getElem?_map, objectAt]
  cases objects[id]? with
  | none => rfl
  | some object => rfl

/-- The key of a name is the same in the object with keys for names. -/
theorem Object.key_keyed (object : Object) (name : String) :
  object.keyed.key (nameKey name) = object.key name
  := by
  simp only [key, keyed, isLocalLabel_nameKey, nameKey_append, nameKey_nameKey]

/-- The meaning of a place, by keys. -/
theorem Object.meaning?_keyed (object : Object) (id : ObjId) (ref : SymbolRef) :
  object.keyed.meaning? id ref = (object.meaning? id ref).map Meaning.keyed
  := by
  cases ref <;> simp only [meaning?, keyed, List.getElem?_map, Option.map_map] <;> rfl

/-- Files are found by key, so spelling does not matter. -/
theorem fileId?_keyed (objects : List Object) (key : String) :
  fileId? (objects.map Object.keyed) key = fileId? objects key
  := by
  simp only [fileId?, List.findIdx?_map, Function.comp_def, Object.keyed, nameKey_nameKey]

/-- The key of a name stands in keyed objects for what the name stands for. -/
theorem lookup?_keyed (objects : List Object) (id : ObjId) (scope : Scope) (name : String) :
  lookup? (objects.map Object.keyed) id scope (nameKey name)
    = (lookup? objects id scope name).map Meaning.keyed
  := by
  simp only [lookup?, objectAt_keyed, Object.key_keyed]
  cases scope.lookup ((objectAt objects id).key name) with
  | some offset => rfl
  | none =>
    have hfind : (objectAt objects id).keyed.find? = (objectAt objects id).find? := rfl
    simp only [hfind]
    cases (objectAt objects id).find? ((objectAt objects id).key name) with
    | some ref => apply Object.meaning?_keyed
    | none =>
      simp only [fileId?_keyed, Option.map_map]
      rfl

end SpinHub
