import SpinHub.Name
import SpinHub.Operator
import SpinHub.Single

/-!
# Syntax trees

A program is a set of source objects with the file of the root. An object declares
constants, variables, sub-objects and methods, and lists the entries of its DAT section.
-/

namespace SpinHub

/-- Cell sizes. -/
inductive Size where
  | byte
  | word
  | long
deriving DecidableEq

/-- The bytes of a cell. -/
def Size.bytes : Size → Nat
  | .byte => 1
  | .word => 2
  | .long => 4

/-- One value or all values between two. -/
inductive Range (α : Type) where
  | single (value : α)
  | span (low high : α)

/-- The bits of a register that an expression names: all, one, or a field of them. -/
inductive Bits (α : Type) where
  | all
  | one (bit : α)
  | field (high low : α)

/-- Expressions. -/
inductive Exp where
  | int (pos : Pos) (value : Word)
  | float (pos : Pos) (value : Single)
  | name (pos : Pos) (name : String)
  /-- A variable with a size override or subscripts. -/
  | cell (pos : Pos) (name : String) (size : Option Size) (indices : List Exp)
  /-- A constant of a sub-object. -/
  | member (pos : Pos) (object name : String)
  /-- Memory at a computed address. -/
  | memory (pos : Pos) (size : Size) (base : Exp) (index : Option Exp)
  /-- A method call; `trap` catches an abort. -/
  | call (pos : Pos) (object : Option String) (objectIndex : Option Exp) (method : String)
      (args : List Exp) (trap : Bool)
  | unary (pos : Pos) (op : UnaryOp) (operand : Exp)
  | binary (pos : Pos) (op : BinaryOp) (left right : Exp)
  | assign (pos : Pos) (op : Option BinaryOp) (target value : Exp)
  | look (pos : Pos) (kind : LookKind) (value : Exp) (items : List (Range Exp))
  | register (pos : Pos) (reg : UInt8) (bits : Bits Exp)
  /-- A register named by its number at run time. -/
  | special (pos : Pos) (index : Exp)
  | readOnly (pos : Pos) (source : ReadOnly)
  | convert (pos : Pos) (conversion : Conversion) (operand : Exp)
  | constant (pos : Pos) (operand : Exp)
  | string (pos : Pos) (text : String)
  /-- Starts a cog, any free one if none is given. -/
  | cog (pos : Pos) (cog : Option Exp) (code stack : Exp)
  | stringCompare (pos : Pos) (left right : Exp)
  | stringSize (pos : Pos) (operand : Exp)
  | lock (pos : Pos) (op : Lock) (args : List Exp)
  /-- The current cog address. -/
  | here (pos : Pos)
  /-- The address of a label in hub memory. -/
  | absolute (pos : Pos) (name : String)

namespace Exp

/-- Where an expression stands. -/
def pos : Exp → Pos
  | int pos _ | float pos _ | name pos _ | cell pos _ _ _ | member pos _ _ | memory pos _ _ _
  | call pos _ _ _ _ _ | unary pos _ _ | binary pos _ _ _ | assign pos _ _ _ | look pos _ _ _
  | register pos _ _ | special pos _ | readOnly pos _ | convert pos _ _ | constant pos _
  | string pos _ | cog pos _ _ _ | stringCompare pos _ _ | stringSize pos _ | lock pos _ _
  | here pos | absolute pos _ => pos

/-- The name of a bare identifier, with or without the variable syntax. -/
def simpleName? : Exp → Option String
  | name _ n => some n
  | cell _ n none [] => some n
  | _ => none

end Exp

/-- How a loop is controlled. -/
inductive LoopControl where
  | forever
  | times (count : Exp)
  /-- The condition is tested before each pass; `negated` loops until it holds. -/
  | before (negated : Bool) (condition : Exp)
  /-- The condition is tested after each pass; `negated` loops until it holds. -/
  | after (negated : Bool) (condition : Exp)
  | fromTo (counter first last : Exp) (step : Option Exp)

mutual

/-- Statements. -/
inductive Stmt where
  | exp (pos : Pos) (exp : Exp)
  | ret (pos : Pos) (value : Option Exp)
  | abort (pos : Pos) (value : Option Exp)
  | branch (pos : Pos) (negated : Bool) (condition : Exp) (yes : List Stmt)
      (no : Option (List Stmt))
  | loop (pos : Pos) (control : LoopControl) (body : List Stmt)
  | next (pos : Pos)
  | quit (pos : Pos)
  | select (pos : Pos) (value : Exp) (arms : List Arm) (other : List Stmt)
  | reboot (pos : Pos)
  | fillMove (pos : Pos) (op : FillMove) (args : List Exp)
  | wait (pos : Pos) (op : Wait) (args : List Exp)
  | clkset (pos : Pos) (mode frequency : Exp)
  | cogstop (pos : Pos) (cog : Exp)

/-- The values that select an arm of a CASE, and its body. -/
inductive Arm where
  | mk (tests : List (Range Exp)) (body : List Stmt)

end

/-- A constant declaration. -/
structure ConDecl where
  name : Ident
  value : Exp

/-- A variable declaration with its dimensions. -/
structure VarDecl where
  name : Ident
  size : Size
  dims : List Exp := []

/-- A sub-object declaration. A pointer owns no variables of its own. -/
structure ObjDecl where
  name : Ident
  file : Ident
  count : Option Exp := none
  pointer : Bool := false

/-- A local variable of a method. -/
structure LocalDecl where
  name : Ident
  count : Option Exp := none

/-- A method declaration. -/
structure MethodDecl where
  name : Ident
  isPublic : Bool
  result : Option Ident := none
  params : List Ident := []
  locals : List LocalDecl := []
  body : List Stmt := []

/-- An assembly instruction: an opcode template and its operands. Bits 0, 1 and 2 of `effect`
are WR, WC and WZ, and 8 is NR. -/
structure Instruction where
  pos : Pos
  mnemonic : String
  opcode : Word
  condition : UInt8
  dest : Option Exp := none
  source : Option Exp := none
  immediate : Bool := false
  effect : UInt8 := 0

/-- Data of one size, repeated `count` times. -/
structure DatData where
  pos : Pos
  alignment : UInt8
  size : UInt8
  value : Exp
  count : Option Exp := none

/-- Entries of a DAT section. -/
inductive DatEntry where
  /-- A label; alignment 0 keeps the current one. -/
  | label (name : Ident) (alignment : UInt8)
  | org (pos : Pos) (origin : Option Exp)
  | orgx (pos : Pos)
  | instruction (instruction : Instruction)
  | res (pos : Pos) (count : Option Exp)
  | fit (pos : Pos) (limit : Option Exp)
  | file (pos : Pos) (bytes : Bytes)
  | data (data : DatData)

/-- One source file. -/
structure SourceObject where
  file : String
  constants : List ConDecl := []
  vars : List VarDecl := []
  objs : List ObjDecl := []
  methods : List MethodDecl := []
  dat : List DatEntry := []

/-- A whole program: the root file and every source object. -/
structure Program where
  root : String
  objects : List SourceObject

end SpinHub
