import SpinHub.Error
import SpinHub.Syntax

/-!
# Objects

An object is one source file with its symbols and, as the phases go by, its layout. Symbols
stand in one list per kind, in order of declaration, and are found by key through one list
of names, in which each key stands once.
-/

namespace SpinHub

/-- An object of a build, numbered in the order in which the files were read. -/
abbrev ObjId := Nat

/-- A constant. -/
structure Con where
  name : Ident
  value : Exp
  /-- Known in every object without a declaration. -/
  builtin : Bool := false

/-- A label of the DAT section. -/
structure Label where
  name : Ident
  alignment : Nat
  /-- Bytes from the start of the object. -/
  offset : Nat
  /-- Cog address in bytes. -/
  cog : Int

/-- A variable. -/
structure Var where
  name : Ident
  size : Size
  dims : List Exp
  /-- The values of the dimensions, once storage is laid out; a plain variable has one of 1. -/
  extents : List Nat := []
  /-- Bytes from the start of the object's variables. -/
  offset : Nat := 0

/-- A declared sub-object. -/
structure SubObject where
  name : Ident
  file : Ident
  countExp : Option Exp
  /-- Whether its instances have variables of their own. -/
  ownsVars : Bool
  /-- The object of the file. -/
  target : ObjId := 0
  count : Nat := 1
  /-- The slot of the first instance in the object's table. -/
  index : Nat := 0

/-- A method. -/
structure Method where
  name : Ident
  isPublic : Bool
  result : Option Ident
  params : List Ident
  locals : List LocalDecl
  body : List Stmt
  /-- The slot in the object's table. -/
  index : Nat := 0
  /-- Bytes from the start of the object. -/
  offset : Nat := 0
  localsSize : Nat := 0
  code : Bytes := []

/-- The frame that a call reserves: result, parameters and locals. -/
def Method.frameSize (method : Method) : Nat :=
  method.localsSize + (method.params.length + 1) * 4

/-- The cells of a variable. -/
def Var.cells (var : Var) : Nat := var.extents.foldl (· * ·) 1

/-- The bytes of a variable. -/
def Var.bytes (var : Var) : Nat := var.size.bytes * var.cells

/-- A symbol by its kind and its place in the list of that kind. -/
inductive SymbolRef where
  | con (index : Nat)
  | label (index : Nat)
  | var (index : Nat)
  | sub (index : Nat)
  | method (index : Nat)
deriving DecidableEq

/-- One source file with its symbols and layout. -/
structure Object where
  file : String
  names : List (String × SymbolRef) := []
  cons : List Con := []
  labels : List Label := []
  vars : List Var := []
  subs : List SubObject := []
  methods : List Method := []
  dat : List DatEntry := []
  /-- The label that local labels belong to. -/
  latestLabel : String := ""
  /-- Slots of sub-object instances in the table. -/
  subSlots : Nat := 0
  /-- The table at the start of the object. -/
  headerSize : Nat := 0
  datBytes : Bytes := []
  varSize : Nat := 0
  size : Nat := 0
  /-- The hub address that the code is compiled for. -/
  hubAddress : Nat := 0
  /-- The hub address in the image. -/
  address : Nat := 0
  /-- An identical object that takes this one's place. -/
  replacement : Option ObjId := none

instance : Inhabited Object := ⟨{ file := "" }⟩

namespace Object

/-! ### Names -/

/-- The symbol of a key. -/
def find? (object : Object) (key : String) : Option SymbolRef := object.names.lookup key

/-- The key of a name in this object: a local label belongs to the latest label before it. -/
def key (object : Object) (name : String) : String :=
  if isLocalLabel name then nameKey (object.latestLabel ++ name) else nameKey name

/-! ### Methods -/

/-- The methods in the order of the table: public ones first, each kind as declared. -/
def methodTable (object : Object) : List Method :=
  object.methods.filter (·.isPublic) ++ object.methods.filter (!·.isPublic)

/-- The first public method. -/
def firstPublic? (object : Object) : Option Method := object.methods.find? (·.isPublic)

end Object

/-! ### Declarations -/

/-- Declarations into an object; a failure keeps what was declared before it. -/
abbrev Declare := ExceptT Fault (StateM Object)

namespace Declare

/-- Enters a name under a key that must be free. -/
def enter (key : String) (name : Ident) (ref : SymbolRef) : Declare Unit := do
  match (← get).find? key with
  | some _ => throw { cause := .duplicateSymbol name.name, pos := name.pos }
  | none => modify fun object => { object with names := object.names ++ [(key, ref)] }

/-- Declares a symbol: its name is entered for the next place of its kind, and then the symbol is
put there. -/
def symbol (key : String) (name : Ident) (next : Object → SymbolRef) (push : Object → Object) :
    Declare Unit := do
  enter key name (next (← get))
  modify push

def con (con : Con) : Declare Unit :=
  symbol (nameKey con.name.name) con.name (fun object => .con object.cons.length)
    fun object => { object with cons := object.cons ++ [con] }

/-- Declares a label under the key it was given. -/
def label (key : String) (label : Label) : Declare Unit :=
  symbol key label.name (fun object => .label object.labels.length)
    fun object => { object with labels := object.labels ++ [label] }

def var (var : Var) : Declare Unit :=
  symbol (nameKey var.name.name) var.name (fun object => .var object.vars.length)
    fun object => { object with vars := object.vars ++ [var] }

def sub (sub : SubObject) : Declare Unit :=
  symbol (nameKey sub.name.name) sub.name (fun object => .sub object.subs.length)
    fun object => { object with subs := object.subs ++ [sub] }

def method (method : Method) : Declare Unit :=
  symbol (nameKey method.name.name) method.name (fun object => .method object.methods.length)
    fun object => { object with methods := object.methods ++ [method] }

end Declare

namespace Object

/-- The object after declarations, which must all succeed. -/
def declare (object : Object) (declarations : Declare Unit) : Except Fault Object :=
  match declarations.run.run object with
  | (.ok _, object) => .ok object
  | (.error fault, _) => .error fault

/-! ### From source -/

/-- The constants that every object knows. -/
def builtinCons : List Con :=
  let word (name : String) (value : Word) : Con :=
    { name := { name }, value := .int {} value, builtin := true }
  [word "TRUE" (-1), word "FALSE" 0, word "POSX" 0x7fffffff, word "NEGX" 0x80000000,
   word "RCFAST" 0x001, word "RCSLOW" 0x002, word "XINPUT" 0x004, word "XTAL1" 0x008,
   word "XTAL2" 0x010, word "XTAL3" 0x020, word "PLL1X" 0x040, word "PLL2X" 0x080,
   word "PLL4X" 0x100, word "PLL8X" 0x200, word "PLL16X" 0x400,
   { name := { name := "PI" }, value := .float {} .pi, builtin := true }]

/-- A constant as declared. -/
def conOf (decl : ConDecl) : Con := { name := decl.name, value := decl.value }

/-- A variable as declared. -/
def varOf (decl : VarDecl) : Var := { name := decl.name, size := decl.size, dims := decl.dims }

/-- A sub-object as declared. -/
def subOf (decl : ObjDecl) : SubObject :=
  { name := decl.name
    file := { name := FileName.normalize decl.file.name, pos := decl.file.pos }
    countExp := decl.count
    ownsVars := !decl.pointer }

/-- A method as declared. -/
def methodOf (decl : MethodDecl) : Method :=
  { name := decl.name, isPublic := decl.isPublic, result := decl.result, params := decl.params,
    locals := decl.locals, body := decl.body }

/-- The object of a source file, before any layout. Names must be distinct. -/
def ofSource (source : SourceObject) : Except Fault Object :=
  Object.declare { file := FileName.normalize source.file, dat := source.dat } do
    (builtinCons ++ source.constants.map conOf).forM Declare.con
    (source.vars.map varOf).forM Declare.var
    (source.objs.map subOf).forM Declare.sub
    (source.methods.map methodOf).forM Declare.method

end Object

end SpinHub
