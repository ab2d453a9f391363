import SpinHub.CommandLine.Listing
import SpinHub.CommandLine.Options
import SpinHub.CommandLine.Path
import SpinHub.Compilation
import SpinHub.Document.Reader

/-!
# Plans

What a run of the command does with its input: it shows listings and writes files, in
order, and may end with a failure. Files that were written before a failure stay.
-/

namespace SpinHub

/-- Why the system did not read or write a file. -/
inductive SystemError where
  | missing
  | notDirectory
  | isDirectory
  | nameTooLong
  /-- An error that is known by its wording only. -/
  | other (text : String)

namespace SystemError

/-- A name that holds the character that ends names. -/
def endInName : SystemError := other "file name contained an unexpected NUL byte"

/-- A file that is no text. -/
def notText : SystemError := other "stream did not contain valid UTF-8"

/-- The number and the kind of an error that has a number. -/
def number? : SystemError → Option (Nat × String)
  | missing => some (2, "NotFound")
  | notDirectory => some (20, "NotADirectory")
  | isDirectory => some (21, "IsADirectory")
  | nameTooLong => some (36, "InvalidFilename")
  | other _ => none

/-- What an error says. It does not repeat the path. -/
def text : SystemError → String
  | missing => "No such file or directory"
  | notDirectory => "Not a directory"
  | isDirectory => "Is a directory"
  | nameTooLong => "File name too long"
  | other text => text

/-- The wording of an error, with its number behind it. -/
def message (error : SystemError) : String :=
  match error.number? with
  | some (code, _) => s!"{error.text} (os error {code})"
  | none => error.text

/-- The parts of an error, each under its name. -/
def parts (error : SystemError) : String :=
  match error.number? with
  | some (code, kind) => s!"Os \x7b code: {code}, kind: {kind}, message: \"{error.text}\" \x7d"
  | none => error.text

end SystemError

/-- Why a run of the command failed. -/
inductive Failure where
  | noSuchFile (name : String)
  | unreachable (error : SystemError)
  | system (error : SystemError)
  | badInput
  | fault (fault : Fault)

namespace Failure

/-- The wording of a failure. -/
def message : Failure → String
  | noSuchFile name => s!"File {name} does not exist"
  | unreachable error => error.parts
  | system error => s!"io error: {error.message}"
  | badInput => "bad input: the document is not a program"
  | fault f => s!"error: {f.message}"

/-- The failure to read the input. A path that cannot be followed is told apart from a file that
cannot be read. -/
def ofInput (name : String) : SystemError → Failure
  | .missing => noSuchFile name
  | .notDirectory => unreachable .notDirectory
  | .nameTooLong => unreachable .nameTooLong
  | error => system error

end Failure

/-- Something that a run does. -/
inductive Action where
  | display (text : String)
  | write (path : String) (bytes : Bytes)

/-- The actions of a run, and the failure that ends it, if one does. -/
structure Plan where
  actions : List Action := []
  failure : Option Failure := none

namespace Plan

/-- A run that only fails. -/
def fail (failure : Failure) : Plan := { failure := some failure }

/-- Some actions in front of a plan. -/
def after (actions : List Action) (plan : Plan) : Plan :=
  { plan with actions := actions ++ plan.actions }

end Plan

namespace Options

/-- The path of an output file. -/
def outputFile (options : Options) (extension : String) : String :=
  Path.withExtension ((options.output.orElse fun _ => options.input).getD "") extension

/-- The files of an image. -/
def imageFiles (options : Options) (image : Image) (build : Build) : List Action :=
  let binary := Action.write (options.outputFile "binary") image.program
  let eeprom := Action.write (options.outputFile "eeprom") image.memory
  let dat := Action.write (options.outputFile "dat") (build.object Build.root).datBytes
  (if options.binary then [binary] else []) ++
    (if options.eeprom ∨ !options.binary then [eeprom] else []) ++
    (if options.dat then [dat] else [])

/-- The containers of objects, up to the first whose constants cannot be evaluated. -/
def containerFiles (options : Options) (build : Build) : List ObjId → Plan
  | [] => {}
  | id :: rest =>
    match (Step.evaluateIn id Site.container).run.run build with
    | (.error f, _) => .fail (.fault f)
    | (.ok container, build) =>
      let name := FileName.container (build.object id).file
      let path := Path.sibling (options.outputFile "sob") name
      (containerFiles options build rest).after [.write path container.bytes]

/-- The plan from the compiled objects on. -/
def planLink (options : Options) (build : Build) : Plan :=
  match (Step.link options.config).run.run build with
  | (.error f, _) => .fail (.fault f)
  | (.ok image, build) =>
    let containers : Plan :=
      if options.containers then options.containerFiles build build.order else {}
    containers.after (options.imageFiles image build)

/-- The plan from the registered objects on. -/
def planBuild (options : Options) (build : Build) : Plan :=
  match (Step.build options.config).run.run build with
  | (.error f, _) => .fail (.fault f)
  | (.ok (), build) =>
    let listings :=
      (if options.layout then [Action.display build.layoutListing] else []) ++
        (if options.methods then [Action.display build.methodListing] else [])
    if options.layout ∨ options.methods then { actions := listings }
    else options.planLink build

/-- The plan for a document. -/
def plan (options : Options) (document : String) : Plan :=
  match Program.parse? document with
  | none => .fail .badInput
  | some program =>
    match program.register with
    | .error f => .fail (.fault f)
    | .ok build =>
      if options.order then { actions := [.display build.orderListing] }
      else options.planBuild build

end Options

end SpinHub
