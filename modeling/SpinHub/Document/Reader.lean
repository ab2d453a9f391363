import SpinHub.Document.Shape
import SpinHub.Json.Parser
import SpinHub.Single.Reading
import SpinHub.Syntax

/-!
# Reading programs

The document form of syntax trees. Expressions and statements hold others of their kind, so
their readers are built in rounds, one round for each level that may be entered.
-/

namespace SpinHub.Document

/-- Lists and objects may be nested this deep. -/
def levelLimit : Nat := 127

/-! ### Names and positions -/

def pos? : Reading Pos := fun levels j => do
  let (_, [line, column]) ← record? ["line", "column"] levels j | none
  return { line := ← line.required unsigned?, column := ← column.required unsigned? }

def ident? : Reading Ident := fun levels j => do
  let (levels, [name, pos]) ← record? ["name", "pos"] levels j | none
  return { name := ← name.required text?, pos := ← pos.orDefault (pos? levels) {} }

/-! ### Expressions -/

/-- One value or a span of them. -/
def range? {α : Type} (read : Reading α) : Reading (Range α) := fun levels j => do
  match ← alternative? levels j with
  | ("Single", some (levels, j)) => return .single (← read levels j)
  | ("Span", some (levels, j)) =>
    let (levels, [low, high]) ← items? levels j | none
    return .span (← read levels low) (← read levels high)
  | _ => none

/-- The bits of a register: two expressions, of which the second may be null. -/
def bits? {α : Type} (read : Reading α) : Reading (Bits α) := fun levels j => do
  let (levels, [high, low]) ← items? levels j | none
  let high ← read levels high
  match ← option? (read levels) low with
  | none => return .one high
  | some low => return .field high low

/-- The contents of an expression at a place, by a reader for the expressions in it. -/
def expKind? (read : Reading Exp) (pos : Pos) : Reading Exp := fun levels j => do
  match ← alternative? levels j with
  | ("Here", contents) => plain? (.here pos) contents
  | (_, none) => none
  | (kind, some (levels, j)) =>
    match kind with
    | "Int" => return .int pos (← word? j)
    | "Float" =>
      match j with
      | .number n => return .float pos (← Single.ofNumeral? n)
      | _ => none
    | "Id" => return .name pos (← text? j)
    | "Variable" =>
      let (levels, [name, size, indices]) ← record? ["name", "size", "indices"] levels j | none
      return .cell pos (← name.required text?) (← size.nullable (oneOf? sizes levels))
        (← indices.required (list? read levels))
    | "ObjConst" =>
      let (_, [object, name]) ← record? ["object", "name"] levels j | none
      return .member pos (← object.required text?) (← name.required text?)
    | "Memory" =>
      let (levels, [size, base, index]) ← record? ["size", "base", "index"] levels j | none
      return .memory pos (← size.required (oneOf? sizes levels)) (← base.required (read levels))
        (← index.nullable (read levels))
    | "Call" =>
      let (levels, [object, objectIndex, method, args, trap]) ←
        record? ["object", "object_index", "method", "args", "abort_trap"] levels j | none
      return .call pos (← object.nullable text?) (← objectIndex.nullable (read levels))
        (← method.required text?) (← args.required (list? read levels)) (← trap.required bool?)
    | "Unary" =>
      let (levels, [op, operand]) ← items? levels j | none
      return .unary pos (← oneOf? unaryOps levels op) (← read levels operand)
    | "Binary" =>
      let (levels, [op, left, right]) ← items? levels j | none
      return .binary pos (← oneOf? binaryOps levels op) (← read levels left) (← read levels right)
    | "Assign" =>
      let (levels, [op, target, value]) ← record? ["op", "target", "value"] levels j | none
      return .assign pos (← op.nullable (oneOf? binaryOps levels)) (← target.required (read levels))
        (← value.required (read levels))
    | "Look" =>
      let (levels, [kind, value, items]) ← record? ["kind", "value", "items"] levels j | none
      return .look pos (← kind.required (oneOf? lookKinds levels)) (← value.required (read levels))
        (← items.required (list? (range? read) levels))
    | "Register" =>
      let (levels, [reg, bits]) ← record? ["reg", "bits"] levels j | none
      return .register pos (← reg.required byte?) ((← bits.nullable (bits? read levels)).getD .all)
    | "Spr" => return .special pos (← read levels j)
    | "ReadOnly" => return .readOnly pos (← oneOf? readOnlys levels j)
    | "Convert" =>
      let (levels, [conversion, operand]) ← items? levels j | none
      return .convert pos (← oneOf? conversions levels conversion) (← read levels operand)
    | "Constant" => return .constant pos (← read levels j)
    | "Str" => return .string pos (← text? j)
    | "Cog" =>
      let (levels, [cog, code, stack]) ← record? ["cog", "code", "stack"] levels j | none
      return .cog pos (← cog.nullable (read levels)) (← code.required (read levels))
        (← stack.required (read levels))
    | "StrComp" =>
      let (levels, [left, right]) ← items? levels j | none
      return .stringCompare pos (← read levels left) (← read levels right)
    | "StrSize" => return .stringSize pos (← read levels j)
    | "Lock" =>
      let (levels, [op, args]) ← items? levels j | none
      return .lock pos (← oneOf? locks levels op) (← list? read levels args)
    | "AbsoluteAddress" => return .absolute pos (← text? j)
    | _ => none

/-- An expression with at most the given number of expressions inside each other. -/
def expWithin? : Nat → Reading Exp
  | 0 => fun _ _ => none
  | depth + 1 => fun levels j => do
    let (levels, [pos, kind]) ← record? ["pos", "kind"] levels j | none
    let pos ← pos.orDefault (pos? levels) {}
    kind.required (expKind? (expWithin? depth) pos levels)

/-- An expression. Each uses up a level at least, so the levels bound their depth. -/
def exp? : Reading Exp := fun levels => expWithin? levels levels

/-! ### Statements -/

/-- A loop's control and body, by a reader for the statements in it. -/
def loop? (read : Reading Stmt) (pos : Pos) : Reading Stmt := fun levels j => do
  match ← alternative? levels j with
  | (kind, some (levels, j)) =>
    match kind with
    | "Forever" => return .loop pos .forever (← list? read levels j)
    | "Times" =>
      let (levels, [count, body]) ← record? ["count", "body"] levels j | none
      return .loop pos (.times (← count.required (exp? levels)))
        (← body.required (list? read levels))
    | "PreCondition" =>
      let (levels, [negated, condition, body]) ←
        record? ["until", "condition", "body"] levels j | none
      return .loop pos (.before (← negated.required bool?) (← condition.required (exp? levels)))
        (← body.required (list? read levels))
    | "PostCondition" =>
      let (levels, [negated, condition, body]) ←
        record? ["until", "condition", "body"] levels j | none
      return .loop pos (.after (← negated.required bool?) (← condition.required (exp? levels)))
        (← body.required (list? read levels))
    | "FromTo" =>
      let (levels, [counter, first, last, step, body]) ←
        record? ["var", "from", "to", "step", "body"] levels j | none
      return .loop pos (.fromTo (← counter.required (exp? levels)) (← first.required (exp? levels))
        (← last.required (exp? levels)) (← step.nullable (exp? levels)))
        (← body.required (list? read levels))
    | _ => none
  | _ => none

/-- An arm of a CASE, by a reader for the statements in it. -/
def arm? (read : Reading Stmt) : Reading Arm := fun levels j => do
  let (levels, [tests, body]) ← record? ["matches", "body"] levels j | none
  return .mk (← tests.required (list? (range? exp?) levels)) (← body.required (list? read levels))

/-- The contents of a statement at a place, by a reader for the statements in it. -/
def stmtKind? (read : Reading Stmt) (pos : Pos) : Reading Stmt := fun levels j => do
  match ← alternative? levels j with
  | ("Next", contents) => plain? (.next pos) contents
  | ("Quit", contents) => plain? (.quit pos) contents
  | ("Reboot", contents) => plain? (.reboot pos) contents
  | (_, none) => none
  | (kind, some (levels, j)) =>
    match kind with
    | "Exp" => return .exp pos (← exp? levels j)
    | "Return" => return .ret pos (← option? (exp? levels) j)
    | "Abort" => return .abort pos (← option? (exp? levels) j)
    | "If" =>
      let (levels, [negated, condition, yes, no]) ←
        record? ["negate", "condition", "then", "els"] levels j | none
      return .branch pos (← negated.required bool?) (← condition.required (exp? levels))
        (← yes.required (list? read levels)) (← no.nullable (list? read levels))
    | "Repeat" => loop? read pos levels j
    | "Case" =>
      let (levels, [value, arms, other]) ← record? ["value", "arms", "other"] levels j | none
      return .select pos (← value.required (exp? levels))
        (← arms.required (list? (arm? read) levels)) (← other.required (list? read levels))
    | "FillMove" =>
      let (levels, [op, args]) ← items? levels j | none
      return .fillMove pos (← oneOf? fillMoves levels op) (← list? exp? levels args)
    | "Wait" =>
      let (levels, [op, args]) ← items? levels j | none
      return .wait pos (← oneOf? waits levels op) (← list? exp? levels args)
    | "Clkset" =>
      let (levels, [mode, frequency]) ← items? levels j | none
      return .clkset pos (← exp? levels mode) (← exp? levels frequency)
    | "Cogstop" => return .cogstop pos (← exp? levels j)
    | _ => none

/-- A statement with at most the given number of statements inside each other. -/
def stmtWithin? : Nat → Reading Stmt
  | 0 => fun _ _ => none
  | depth + 1 => fun levels j => do
    let (levels, [pos, kind]) ← record? ["pos", "kind"] levels j | none
    let pos ← pos.orDefault (pos? levels) {}
    kind.required (stmtKind? (stmtWithin? depth) pos levels)

/-- A statement. Each uses up a level at least, so the levels bound their depth. -/
def stmt? : Reading Stmt := fun levels => stmtWithin? levels levels

/-! ### Declarations -/

def conDecl? : Reading ConDecl := fun levels j => do
  let (levels, [name, value]) ← record? ["name", "value"] levels j | none
  return { name := ← name.required (ident? levels), value := ← value.required (exp? levels) }

def varDecl? : Reading VarDecl := fun levels j => do
  let (levels, [name, size, dims]) ← record? ["name", "size", "dims"] levels j | none
  return { name := ← name.required (ident? levels), size := ← size.required (oneOf? sizes levels),
           dims := ← dims.orDefault (list? exp? levels) [] }

def objDecl? : Reading ObjDecl := fun levels j => do
  let (levels, [name, file, count, pointer]) ←
    record? ["name", "file", "count", "pointer"] levels j | none
  return { name := ← name.required (ident? levels), file := ← file.required (ident? levels),
           count := ← count.nullableOrDefault (exp? levels),
           pointer := ← pointer.orDefault bool? false }

def localDecl? : Reading LocalDecl := fun levels j => do
  let (levels, [name, count]) ← record? ["name", "count"] levels j | none
  return { name := ← name.required (ident? levels),
           count := ← count.nullableOrDefault (exp? levels) }

def methodDecl? : Reading MethodDecl := fun levels j => do
  let (levels, [name, isPublic, result, params, locals, body]) ←
    record? ["name", "public", "result", "params", "locals", "body"] levels j | none
  return { name := ← name.required (ident? levels), isPublic := ← isPublic.required bool?,
           result := ← result.nullableOrDefault (ident? levels),
           params := ← params.orDefault (list? ident? levels) [],
           locals := ← locals.orDefault (list? localDecl? levels) [],
           body := ← body.orDefault (list? stmt? levels) [] }

/-! ### DAT sections -/

def instruction? : Reading Instruction := fun levels j => do
  let (levels, [pos, mnemonic, opcode, condition, dest, source, immediate, effect]) ←
    record? ["pos", "mnemonic", "opcode", "cond", "dest", "src", "immediate", "effect"] levels j
    | none
  return { pos := ← pos.required (pos? levels), mnemonic := ← mnemonic.required text?,
           opcode := (← opcode.required unsigned?).toBitVec,
           condition := ← condition.required byte?,
           dest := ← dest.nullableOrDefault (exp? levels),
           source := ← source.nullableOrDefault (exp? levels),
           immediate := ← immediate.orDefault bool? false, effect := ← effect.orDefault byte? 0 }

def datData? : Reading DatData := fun levels j => do
  let (levels, [pos, alignment, size, value, count]) ←
    record? ["pos", "alignment", "size", "value", "count"] levels j | none
  return { pos := ← pos.required (pos? levels), alignment := ← alignment.required byte?,
           size := ← size.required byte?, value := ← value.required (exp? levels),
           count := ← count.nullableOrDefault (exp? levels) }

def datEntry? : Reading DatEntry := fun levels j => do
  match ← alternative? levels j with
  | (kind, some (levels, j)) =>
    match kind with
    | "Label" =>
      let (levels, [name, alignment]) ← record? ["name", "alignment"] levels j | none
      return .label (← name.required (ident? levels)) (← alignment.required byte?)
    | "Org" =>
      let (levels, [pos, origin]) ← record? ["pos", "origin"] levels j | none
      return .org (← pos.required (pos? levels)) (← origin.nullable (exp? levels))
    | "Orgx" =>
      let (levels, [pos]) ← record? ["pos"] levels j | none
      return .orgx (← pos.required (pos? levels))
    | "Instruction" => return .instruction (← instruction? levels j)
    | "Res" =>
      let (levels, [pos, count]) ← record? ["pos", "count"] levels j | none
      return .res (← pos.required (pos? levels)) (← count.nullable (exp? levels))
    | "Fit" =>
      let (levels, [pos, limit]) ← record? ["pos", "limit"] levels j | none
      return .fit (← pos.required (pos? levels)) (← limit.nullable (exp? levels))
    | "File" =>
      let (levels, [pos, bytes]) ← record? ["pos", "bytes"] levels j | none
      return .file (← pos.required (pos? levels)) (← bytes.required (list? (fun _ => byte?) levels))
    | "Data" => return .data (← datData? levels j)
    | _ => none
  | _ => none

/-! ### Programs -/

def sourceObject? : Reading SourceObject := fun levels j => do
  let (levels, [file, constants, vars, objs, methods, dat]) ←
    record? ["file", "constants", "vars", "objs", "methods", "dat"] levels j | none
  return { file := ← file.required text?,
           constants := ← constants.orDefault (list? conDecl? levels) [],
           vars := ← vars.orDefault (list? varDecl? levels) [],
           objs := ← objs.orDefault (list? objDecl? levels) [],
           methods := ← methods.orDefault (list? methodDecl? levels) [],
           dat := ← dat.orDefault (list? datEntry? levels) [] }

def program? : Reading Program := fun levels j => do
  let (levels, [root, objects]) ← record? ["root", "objects"] levels j | none
  return { root := ← root.required text?,
           objects := ← objects.required (list? sourceObject? levels) }

end SpinHub.Document

namespace SpinHub

/-- The expression of a document. -/
def Exp.ofJson? (j : Json) : Option Exp := Document.exp? Document.levelLimit j

/-- The statements of a document. -/
def Stmt.listOfJson? (j : Json) : Option (List Stmt) :=
  Document.list? Document.stmt? Document.levelLimit j

/-- The program of a document. -/
def Program.ofJson? (j : Json) : Option Program := Document.program? Document.levelLimit j

/-- The program of a text. -/
def Program.parse? (s : String) : Option Program := (Json.parse? s).bind Program.ofJson?

end SpinHub
