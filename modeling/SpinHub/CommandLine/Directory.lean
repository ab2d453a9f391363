import SpinHub.CommandLine.Plan

/-!
# Runs in a directory

A directory that holds files and no other directories, and what a run of the command does
in it.
-/

namespace SpinHub

/-- A directory without directories in it. -/
structure Directory where
  files : List (String × Bytes) := []

namespace Directory

/-- What a name stands for when the path goes on behind it, in a directory that holds only
files. -/
def beyond (directory : Directory) (inside : Bool) (name : String) : SystemError :=
  if inside ∧ (directory.files.lookup name).isSome then .notDirectory else .missing

/-- Reads the file at a path. The directories around hold nothing that is known. -/
def read (directory : Directory) (path : String) : Except SystemError Bytes :=
  if path = "" then .error .missing
  else if Path.maxLength < path.utf8ByteSize then .error .nameTooLong
  else
    match Path.locate path with
    | .directory => .error .isDirectory
    | .entry inside name last =>
      if Path.maxName < name.utf8ByteSize then .error .nameTooLong
      else if !last then .error (directory.beyond inside name)
      else
        match if inside then directory.files.lookup name else none with
        | none => .error .missing
        | some bytes => .ok bytes

/-- Puts a file in the directory, in place of one of the same name. -/
def put (directory : Directory) (name : String) (bytes : Bytes) : Directory :=
  { files := directory.files.filter (·.1 ≠ name) ++ [(name, bytes)] }

/-- Writes a file. One that stands in a directory around leaves this one as it is. -/
def write (directory : Directory) (path : String) (bytes : Bytes) :
    Except SystemError Directory :=
  if path.contains '\x00' then .error .endInName
  else if path = "" then .error .missing
  else if Path.maxLength < path.utf8ByteSize then .error .nameTooLong
  else
    match Path.locate path with
    | .directory => .error .isDirectory
    | .entry inside name last =>
      if Path.maxName < name.utf8ByteSize then .error .nameTooLong
      else if !last then .error (directory.beyond inside name)
      else .ok (if inside then directory.put name bytes else directory)

end Directory

/-- What a run leaves: its exit status, what it printed, and the directory. -/
structure Outcome where
  status : Nat := 0
  output : String := ""
  errors : String := ""
  directory : Directory

namespace Outcome

/-- Ends with a failure. -/
def fail (outcome : Outcome) (failure : Failure) : Outcome :=
  { outcome with status := 1, errors := outcome.errors ++ "Error: " ++ failure.message ++ "\n" }

/-- Carries out a plan up to the first file that cannot be written. -/
def carryOut (outcome : Outcome) (plan : Plan) : Outcome :=
  go plan.actions outcome
where
  /-- Carries out actions in order. -/
  go : List Action → Outcome → Outcome
    | [], outcome =>
      match plan.failure with
      | none => outcome
      | some failure => outcome.fail failure
    | .display text :: rest, outcome => go rest { outcome with errors := outcome.errors ++ text }
    | .write path bytes :: rest, outcome =>
      match outcome.directory.write path bytes with
      | .ok directory => go rest { outcome with directory }
      | .error error => outcome.fail (.system error)

end Outcome

/-- The text of a file, if it is one. -/
def textOf? (bytes : Bytes) : Option String := String.fromUTF8? ⟨bytes.toArray⟩

/-- Runs the command in a directory. -/
def Directory.run (directory : Directory) (words : List String) : Outcome :=
  let start : Outcome := { directory }
  match Options.parse? words with
  | none => { start with output := Options.usage }
  | some options =>
    let input := options.input.getD ""
    match directory.read input with
    | .error error => start.fail (.ofInput input error)
    | .ok bytes =>
      match textOf? bytes with
      | none => start.fail (.system .notText)
      | some document => start.carryOut (options.plan document)

end SpinHub
