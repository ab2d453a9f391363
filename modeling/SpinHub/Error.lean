import SpinHub.Name

/-!
# Errors

A `Cause` is what went wrong, in the terms of the part that found it; `Cause.message` is its
wording and `Cause.kind` the family it belongs to. A `Fault` is a cause at a place in a
source file. A `Warning` never stops a compilation.
-/

namespace SpinHub

/-- The families of causes. -/
inductive Kind where
  | unknownSymbol
  | duplicateSymbol
  | nonConstant
  | circularReference
  | typeMismatch
  | invalidContext
  | originOverflow
  | fixupDivergence
  | imageTooLarge
  | circularObject
  | missingObject
  | noPublicMethods
  | valueOutOfRange
  | divideByZero
  | clockSettings
  | misalignedAddress
deriving DecidableEq

/-- The operand fields of an assembly instruction. -/
inductive Operand where
  | destination
  | source
deriving DecidableEq

/-- What went wrong. -/
inductive Cause where
  | unknownSymbol (name : String)
  | duplicateSymbol (name : String)
  | hereOutsideDat
  | registerInConstant
  | expectedConstant
  | notAConstant (name : String)
  | constantOfNonObject (object : String)
  | memberNotAConstant (object name : String)
  | expectedLabel
  | constantNotALabel (name : String)
  | badOperator
  | circularReference (name : String)
  | floatWhereInt
  | intWhereFloat
  | mixedOperands
  | floatInNarrowData
  | constantNotAnInt (name : String)
  | labelMoved (name : String)
  | badDataSize (size : Nat)
  | dataBelowAlignment
  | unusedValue
  | notAssignable
  | argumentCount (given expected : Nat)
  | tooFewSubscripts
  | tooManySubscripts
  | lockReturnsNothing
  | addressNotALabel (name : String)
  | overrideTooLarge
  | addressOfRegister
  | addressOfSpecial
  | indexWithoutObject
  | callOfNonObject (object : String)
  | memberNotAMethod (object name : String)
  | privateMethod (name : String)
  | notAMethod (name : String)
  | coginitReturnsNothing
  | noEnclosingLoop
  | notAConstantSymbol (name : String)
  | originOverflow (excess : Int)
  | unplacedTarget (target : Nat)
  | shrinkingRecord (address : Int) (before after : Nat)
  | stillChanging (rounds : Nat)
  | datTooLarge (limit : Nat)
  | programTooLarge (size memory : Int)
  | stackTooLarge
  | programExceeds (longs : Int)
  | noRoomForGuard (address : Nat)
  | outsideMemory (address : Int)
  | circularObject (file : String)
  | missingObject (file : String)
  | noPublicMethods (file : String)
  | objectCount (count : Int)
  | tooManySlots (file : String)
  | arraySize (name : String)
  | registerOutOfRange (operand : Operand)
  | cogAddressOutOfRange
  | negativeDataCount (count : Int)
  | negativeSpace
  | nonLongOffset (offset : Int)
  | divideByZero
  | clockModeMissing
  | clockFrequencyMissing
  | clockConflict
  | invalidClockMode
  | misalignedAddress (name : String)
deriving DecidableEq

namespace Operand

/-- The word for an operand field in messages. -/
def text : Operand → String
  | .destination => "destination"
  | .source => "source"

end Operand

/-- A number in hexadecimal with the mark `0x`, at least four digits long. -/
def hexAddress (n : Nat) : String :=
  let digits := Nat.toDigits 16 n
  "0x" ++ String.ofList (List.replicate (4 - digits.length) '0' ++ digits)

namespace Cause

/-- The family a cause belongs to. -/
def kind : Cause → Kind
  | unknownSymbol _ => .unknownSymbol
  | duplicateSymbol _ => .duplicateSymbol
  | hereOutsideDat | registerInConstant | expectedConstant | notAConstant _
  | constantOfNonObject _ | memberNotAConstant _ _ | expectedLabel | constantNotALabel _
  | badOperator => .nonConstant
  | circularReference _ => .circularReference
  | floatWhereInt | intWhereFloat | mixedOperands | floatInNarrowData
  | constantNotAnInt _ => .typeMismatch
  | labelMoved _ | badDataSize _ | dataBelowAlignment | unusedValue | notAssignable
  | argumentCount _ _ | tooFewSubscripts | tooManySubscripts | lockReturnsNothing
  | addressNotALabel _ | overrideTooLarge | addressOfRegister | addressOfSpecial
  | indexWithoutObject | callOfNonObject _ | memberNotAMethod _ _ | privateMethod _
  | notAMethod _ | coginitReturnsNothing | noEnclosingLoop
  | notAConstantSymbol _ => .invalidContext
  | originOverflow _ => .originOverflow
  | unplacedTarget _ | shrinkingRecord _ _ _ | stillChanging _ => .fixupDivergence
  | datTooLarge _ | programTooLarge _ _ | stackTooLarge | programExceeds _
  | noRoomForGuard _ | outsideMemory _ => .imageTooLarge
  | circularObject _ => .circularObject
  | missingObject _ => .missingObject
  | noPublicMethods _ => .noPublicMethods
  | objectCount _ | tooManySlots _ | arraySize _ | registerOutOfRange _
  | cogAddressOutOfRange | negativeDataCount _ | negativeSpace
  | nonLongOffset _ => .valueOutOfRange
  | divideByZero => .divideByZero
  | clockModeMissing | clockFrequencyMissing | clockConflict
  | invalidClockMode => .clockSettings
  | misalignedAddress _ => .misalignedAddress

/-- The wording of a cause. -/
def message : Cause → String
  | unknownSymbol name => s!"unknown symbol {name}"
  | duplicateSymbol name => s!"{name} is already defined"
  | hereOutsideDat => "$ valid only in DAT context"
  | registerInConstant => "register not allowed in constant expression"
  | expectedConstant => "expected a constant expression"
  | notAConstant name => s!"{name} is not a constant"
  | constantOfNonObject object => s!"{object} is not an object"
  | memberNotAConstant object name => s!"{object}#{name} is not a constant"
  | expectedLabel => "expected DAT symbol"
  | constantNotALabel name => s!"{name} is not a DAT symbol"
  | badOperator => "bad operator in constant expression"
  | circularReference name => s!"circular reference in definition of {name}"
  | floatWhereInt => "floating-point expression not allowed"
  | intWhereFloat => "integer expression not allowed"
  | mixedOperands => "can't mix integer and floating-point operands"
  | floatInNarrowData => "floating-point not allowed in byte or word data"
  | constantNotAnInt name => s!"{name} must be an int"
  | labelMoved name => s!"label {name} moved between DAT passes"
  | badDataSize size => s!"data size must be 1, 2 or 4, not {size}"
  | dataBelowAlignment => "size override must be larger"
  | unusedValue => "expression value is not used"
  | notAssignable => "expression is not assignable"
  | argumentCount given expected =>
    s!"wrong number of arguments ({given} instead of {expected})"
  | tooFewSubscripts => "not enough subscripts"
  | tooManySubscripts => "too many subscripts"
  | lockReturnsNothing => "LOCKRET does not return a value"
  | addressNotALabel name => s!"{name} is not a DAT symbol"
  | overrideTooLarge => "size override must be smaller"
  | addressOfRegister => "can't apply @ to register"
  | addressOfSpecial => "can't apply @ to SPR"
  | indexWithoutObject => "indexed call needs an object"
  | callOfNonObject object => s!"{object} is not an object"
  | memberNotAMethod object name => s!"{object}.{name} is not a method"
  | privateMethod name => s!"method {name} is PRI"
  | notAMethod name => s!"{name} is not a method"
  | coginitReturnsNothing => "COGINIT does not return a value"
  | noEnclosingLoop => "no enclosing REPEAT loop"
  | notAConstantSymbol name => s!"{name} must be a CON"
  | originOverflow excess => s!"origin exceeds FIT limit by {excess}"
  | unplacedTarget target =>
    s!"fixup did not converge: branch target {target} is never placed"
  | shrinkingRecord address before after =>
    s!"fixup did not converge: record at {address} shrank from {before} to {after} bytes"
  | stillChanging rounds =>
    s!"fixup did not converge: still changing after {rounds} rounds"
  | datTooLarge limit => s!"DAT section exceeds {limit} bytes"
  | programTooLarge size memory => s!"program is {size} bytes, memory is {memory}"
  | stackTooLarge => "_STACK + _FREE must be < 8192 longs"
  | programExceeds longs => s!"program too big by {longs} longs"
  | noRoomForGuard address => s!"no room for the stack guard at {hexAddress address}"
  | outsideMemory address => s!"nothing can be written at {address}"
  | circularObject file => s!"circular object reference {file}"
  | missingObject file => s!"object file {file} not found"
  | noPublicMethods file => s!"no PUB routines found in {file}"
  | objectCount count => s!"object count must be positive, got {count}"
  | tooManySlots file => s!"too many methods or objects in {file}"
  | arraySize name => s!"array size of {name} must be positive"
  | registerOutOfRange operand => s!"{operand.text} register cannot exceed $1ff"
  | cogAddressOutOfRange => "cog address out of range"
  | negativeDataCount count => s!"negative data count {count}"
  | negativeSpace => "_SPACE < 0"
  | nonLongOffset offset => s!"non-long offset {offset}"
  | divideByZero => "division by zero in constant expression"
  | clockModeMissing => "_CLKMODE must be specified"
  | clockFrequencyMissing => "_CLKFREQ or _XINFREQ must be specified"
  | clockConflict => "conflicting _CLKFREQ and _XINFREQ"
  | invalidClockMode => "invalid _CLKMODE"
  | misalignedAddress name => s!"address of {name} is not long aligned"

end Cause

/-- A cause at a place, in a file once one is known. -/
structure Fault where
  cause : Cause
  pos : Pos
  file : Option String := none
deriving DecidableEq

namespace Fault

/-- Attaches a file unless one is attached already. -/
def inFile (fault : Fault) (file : String) : Fault :=
  { fault with file := some (fault.file.getD file) }

/-- The place and the wording of a fault. -/
def message (fault : Fault) : String :=
  let place := s!"{fault.pos.line}:{fault.pos.column}: {fault.cause.message}"
  match fault.file with
  | some file => s!"{file}:{place}"
  | none => place

end Fault

/-- A remark about a place in a file. -/
structure Warning where
  file : String
  pos : Pos
  text : String
deriving DecidableEq

namespace Warning

/-- The place and the wording of a warning. -/
def message (warning : Warning) : String :=
  s!"{warning.file}:{warning.pos.line}:{warning.pos.column}: warning: {warning.text}"

end Warning

end SpinHub
