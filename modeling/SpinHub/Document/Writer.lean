import SpinHub.Document.Names
import SpinHub.Json.Printer
import SpinHub.Single.Shortest

/-!
# Writing programs

The document of a syntax tree, with every field present: records as objects, alternatives
without contents as their names.
-/

namespace SpinHub.Document

/-- An alternative with contents. -/
def alternative (name : String) (contents : Json) : Json := .ofFields [(name, contents)]

/-- One of several alternatives without contents. -/
def choice {α : Type} [DecidableEq α] (names : Names α) (a : α) : Json := .ofText (names.nameOf a)

def posJson (pos : Pos) : Json :=
  .ofFields [("line", .ofInt pos.line.toNat), ("column", .ofInt pos.column.toNat)]

def identJson (ident : Ident) : Json :=
  .ofFields [("name", .ofText ident.name), ("pos", posJson ident.pos)]

/-- A single is written by its shortest decimal; one that is not finite has none. -/
def singleJson (x : Single) : Json := if x.isFinite then .number x.numeral else .null

/-- A record of a place and the contents that stand there. -/
def placed (pos : Pos) (contents : Json) : Json :=
  .ofFields [("pos", posJson pos), ("kind", contents)]

/-! ### Expressions -/

mutual

def expJson : Exp → Json
  | .int pos v => placed pos (alternative "Int" (.ofInt v.toInt))
  | .float pos x => placed pos (alternative "Float" (singleJson x))
  | .name pos n => placed pos (alternative "Id" (.ofText n))
  | .cell pos n size indices => placed pos (alternative "Variable" (.ofFields
      [("name", .ofText n), ("size", .ofOption (choice sizes) size),
       ("indices", .list (expsJson indices))]))
  | .member pos object n => placed pos (alternative "ObjConst" (.ofFields
      [("object", .ofText object), ("name", .ofText n)]))
  | .memory pos size base index => placed pos (alternative "Memory" (.ofFields
      [("size", choice sizes size), ("base", expJson base), ("index", optionJson index)]))
  | .call pos object objectIndex method args trap => placed pos (alternative "Call" (.ofFields
      [("object", .ofOption .ofText object), ("object_index", optionJson objectIndex),
       ("method", .ofText method), ("args", .list (expsJson args)), ("abort_trap", .bool trap)]))
  | .unary pos op operand => placed pos (alternative "Unary" (.list
      [choice unaryOps op, expJson operand]))
  | .binary pos op left right => placed pos (alternative "Binary" (.list
      [choice binaryOps op, expJson left, expJson right]))
  | .assign pos op target value => placed pos (alternative "Assign" (.ofFields
      [("op", .ofOption (choice binaryOps) op), ("target", expJson target),
       ("value", expJson value)]))
  | .look pos kind value items => placed pos (alternative "Look" (.ofFields
      [("kind", choice lookKinds kind), ("value", expJson value),
       ("items", .list (rangesJson items))]))
  | .register pos reg bits => placed pos (alternative "Register" (.ofFields
      [("reg", .ofInt reg.toNat), ("bits", bitsJson bits)]))
  | .special pos index => placed pos (alternative "Spr" (expJson index))
  | .readOnly pos source => placed pos (alternative "ReadOnly" (choice readOnlys source))
  | .convert pos conversion operand => placed pos (alternative "Convert" (.list
      [choice conversions conversion, expJson operand]))
  | .constant pos operand => placed pos (alternative "Constant" (expJson operand))
  | .string pos s => placed pos (alternative "Str" (.ofText s))
  | .cog pos cog code stack => placed pos (alternative "Cog" (.ofFields
      [("cog", optionJson cog), ("code", expJson code), ("stack", expJson stack)]))
  | .stringCompare pos left right => placed pos (alternative "StrComp" (.list
      [expJson left, expJson right]))
  | .stringSize pos operand => placed pos (alternative "StrSize" (expJson operand))
  | .lock pos op args => placed pos (alternative "Lock" (.list
      [choice locks op, .list (expsJson args)]))
  | .here pos => placed pos (.ofText "Here")
  | .absolute pos n => placed pos (alternative "AbsoluteAddress" (.ofText n))

def expsJson : List Exp → List Json
  | [] => []
  | e :: es => expJson e :: expsJson es

def optionJson : Option Exp → Json
  | none => .null
  | some e => expJson e

def rangeJson : Range Exp → Json
  | .single e => alternative "Single" (expJson e)
  | .span low high => alternative "Span" (.list [expJson low, expJson high])

def rangesJson : List (Range Exp) → List Json
  | [] => []
  | r :: rs => rangeJson r :: rangesJson rs

def bitsJson : Bits Exp → Json
  | .all => .null
  | .one bit => .list [expJson bit, .null]
  | .field high low => .list [expJson high, expJson low]

end

/-! ### Statements -/

/-- The contents of a loop, by its control and the document of its body. -/
def loopJson (control : LoopControl) (body : Json) : Json :=
  match control with
  | .forever => alternative "Forever" body
  | .times count => alternative "Times" (.ofFields [("count", expJson count), ("body", body)])
  | .before negated condition => alternative "PreCondition" (.ofFields
      [("until", .bool negated), ("condition", expJson condition), ("body", body)])
  | .after negated condition => alternative "PostCondition" (.ofFields
      [("until", .bool negated), ("condition", expJson condition), ("body", body)])
  | .fromTo counter first last step => alternative "FromTo" (.ofFields
      [("var", expJson counter), ("from", expJson first), ("to", expJson last),
       ("step", optionJson step), ("body", body)])

mutual

def stmtJson : Stmt → Json
  | .exp pos e => placed pos (alternative "Exp" (expJson e))
  | .ret pos value => placed pos (alternative "Return" (optionJson value))
  | .abort pos value => placed pos (alternative "Abort" (optionJson value))
  | .branch pos negated condition yes none => placed pos (alternative "If" (.ofFields
      [("negate", .bool negated), ("condition", expJson condition),
       ("then", .list (stmtsJson yes)), ("els", .null)]))
  | .branch pos negated condition yes (some no) => placed pos (alternative "If" (.ofFields
      [("negate", .bool negated), ("condition", expJson condition),
       ("then", .list (stmtsJson yes)), ("els", .list (stmtsJson no))]))
  | .loop pos control body => placed pos (alternative "Repeat"
      (loopJson control (.list (stmtsJson body))))
  | .next pos => placed pos (.ofText "Next")
  | .quit pos => placed pos (.ofText "Quit")
  | .select pos value arms other => placed pos (alternative "Case" (.ofFields
      [("value", expJson value), ("arms", .list (armsJson arms)),
       ("other", .list (stmtsJson other))]))
  | .reboot pos => placed pos (.ofText "Reboot")
  | .fillMove pos op args => placed pos (alternative "FillMove" (.list
      [choice fillMoves op, .list (expsJson args)]))
  | .wait pos op args => placed pos (alternative "Wait" (.list
      [choice waits op, .list (expsJson args)]))
  | .clkset pos mode frequency => placed pos (alternative "Clkset" (.list
      [expJson mode, expJson frequency]))
  | .cogstop pos cog => placed pos (alternative "Cogstop" (expJson cog))

def stmtsJson : List Stmt → List Json
  | [] => []
  | s :: ss => stmtJson s :: stmtsJson ss

def armJson : Arm → Json
  | .mk tests body =>
    .ofFields [("matches", .list (rangesJson tests)), ("body", .list (stmtsJson body))]

def armsJson : List Arm → List Json
  | [] => []
  | arm :: arms => armJson arm :: armsJson arms

end

/-! ### Declarations -/

def conDeclJson (con : ConDecl) : Json :=
  .ofFields [("name", identJson con.name), ("value", expJson con.value)]

def varDeclJson (var : VarDecl) : Json :=
  .ofFields [("name", identJson var.name), ("size", choice sizes var.size),
    ("dims", .list (var.dims.map expJson))]

def objDeclJson (obj : ObjDecl) : Json :=
  .ofFields [("name", identJson obj.name), ("file", identJson obj.file),
    ("count", optionJson obj.count), ("pointer", .bool obj.pointer)]

def localDeclJson (decl : LocalDecl) : Json :=
  .ofFields [("name", identJson decl.name), ("count", optionJson decl.count)]

def methodDeclJson (method : MethodDecl) : Json :=
  .ofFields [("name", identJson method.name), ("public", .bool method.isPublic),
    ("result", .ofOption identJson method.result),
    ("params", .list (method.params.map identJson)),
    ("locals", .list (method.locals.map localDeclJson)),
    ("body", .list (method.body.map stmtJson))]

/-! ### DAT sections -/

def instructionJson (i : Instruction) : Json :=
  .ofFields [("pos", posJson i.pos), ("mnemonic", .ofText i.mnemonic),
    ("opcode", .ofInt i.opcode.toNat), ("cond", .ofInt i.condition.toNat),
    ("dest", optionJson i.dest), ("src", optionJson i.source), ("immediate", .bool i.immediate),
    ("effect", .ofInt i.effect.toNat)]

def datDataJson (d : DatData) : Json :=
  .ofFields [("pos", posJson d.pos), ("alignment", .ofInt d.alignment.toNat),
    ("size", .ofInt d.size.toNat), ("value", expJson d.value), ("count", optionJson d.count)]

def datEntryJson : DatEntry → Json
  | .label name alignment => alternative "Label" (.ofFields
      [("name", identJson name), ("alignment", .ofInt alignment.toNat)])
  | .org pos origin => alternative "Org" (.ofFields
      [("pos", posJson pos), ("origin", optionJson origin)])
  | .orgx pos => alternative "Orgx" (.ofFields [("pos", posJson pos)])
  | .instruction i => alternative "Instruction" (instructionJson i)
  | .res pos count => alternative "Res" (.ofFields
      [("pos", posJson pos), ("count", optionJson count)])
  | .fit pos limit => alternative "Fit" (.ofFields
      [("pos", posJson pos), ("limit", optionJson limit)])
  | .file pos bytes => alternative "File" (.ofFields
      [("pos", posJson pos), ("bytes", .list (bytes.map fun b => .ofInt b.toNat))])
  | .data d => alternative "Data" (datDataJson d)

/-! ### Programs -/

def sourceObjectJson (object : SourceObject) : Json :=
  .ofFields [("file", .ofText object.file),
    ("constants", .list (object.constants.map conDeclJson)),
    ("vars", .list (object.vars.map varDeclJson)),
    ("objs", .list (object.objs.map objDeclJson)),
    ("methods", .list (object.methods.map methodDeclJson)),
    ("dat", .list (object.dat.map datEntryJson))]

end SpinHub.Document

namespace SpinHub.Program

/-- The document of a program. -/
def toJson (program : Program) : Json :=
  .ofFields [("root", .ofText program.root),
    ("objects", .list (program.objects.map Document.sourceObjectJson))]

/-- The text of a program. -/
def render (program : Program) : String := program.toJson.render

end SpinHub.Program
