import SpinHub.CommandLine.Directory

/-!
# The command

Reads the input file, and shows and writes what the plan for it says.
-/

namespace SpinHub

/-- The error that has a number, which some calls give negated. -/
def errorOf (code : UInt32) (text : String) : SystemError :=
  match code.toInt32.toInt.natAbs with
  | 2 => .missing
  | 20 => .notDirectory
  | 21 => .isDirectory
  | 36 => .nameTooLong
  | n => .other s!"{text} (os error {n})"

/-- What an error of the system says. -/
def systemError : IO.Error → SystemError
  | .noFileOrDirectory .. => .missing
  | .inappropriateType _ code text => errorOf code text
  | .invalidArgument _ code text => errorOf code text
  | .permissionDenied _ code text => errorOf code text
  | .resourceExhausted _ code text => errorOf code text
  | error => .other (toString error)

/-- Carries out actions in order; the first file that cannot be written ends them. -/
def carryOut : List Action → IO (Option Failure)
  | [] => return none
  | .display text :: rest => do
    IO.eprint text
    carryOut rest
  | .write path bytes :: rest => do
    match ← (IO.FS.writeBinFile path ⟨bytes.toArray⟩).toBaseIO with
    | .ok () => carryOut rest
    | .error error => return some (.system (systemError error))

/-- The text of a file. -/
def readInput (name : String) : IO (Except Failure String) := do
  match ← (IO.FS.readBinFile name).toBaseIO with
  | .error error => return .error (.ofInput name (systemError error))
  | .ok bytes =>
    match String.fromUTF8? bytes with
    | some document => return .ok document
    | none => return .error (.system .notText)

/-- Compiles the input file and writes what the options ask for. -/
def Options.run (options : Options) : IO (Option Failure) := do
  match ← readInput (options.input.getD "") with
  | .error failure => return some failure
  | .ok document =>
    let plan := options.plan document
    match ← carryOut plan.actions with
    | some failure => return some failure
    | none => return plan.failure

end SpinHub

/-- The command. -/
def main (words : List String) : IO UInt32 := do
  match SpinHub.Options.parse? words with
  | none =>
    IO.print SpinHub.Options.usage
    return 0
  | some options =>
    match ← options.run with
    | none => return 0
    | some failure =>
      IO.eprintln s!"Error: {failure.message}"
      return 1
