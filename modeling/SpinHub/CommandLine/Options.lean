import SpinHub.Config

/-!
# Options

The words after the command's name. A word that is no option is the input file, and there
is exactly one. Words that make no sense are answered with the usage.
-/

namespace SpinHub

/-- What the command is asked to do. -/
structure Options where
  /-- Stop after registering and show the files in order. -/
  order : Bool := false
  /-- Stop after compiling and show the layout of the objects. -/
  layout : Bool := false
  /-- Stop after compiling and show the code of the methods. -/
  methods : Bool := false
  /-- Write the program without its variables. -/
  binary : Bool := false
  /-- Write the whole memory, as is done if nothing else is asked for. -/
  eeprom : Bool := false
  /-- Write the DAT section of the root. -/
  dat : Bool := false
  keepDuplicates : Bool := false
  memorySize : Option Nat := none
  /-- Write a container for every object. -/
  containers : Bool := false
  verbose : Bool := false
  output : Option String := none
  input : Option String := none

namespace Options

/-- The largest memory size that can be asked for. -/
def sizeLimit : Nat := 0x10000000000000000

/-- A memory size: decimal digits, with or without a plus sign. -/
def size? (word : String) : Option Nat :=
  let digits := match word.toList with
    | '+' :: rest => rest
    | chars => chars
  if digits.isEmpty ∨ !digits.all Char.isDigit then none
  else
    let n := digits.foldl (fun n c => 10 * n + (c.toNat - '0'.toNat)) 0
    if n < sizeLimit then some n else none

/-- Reads the words one after another; none if the usage has to be shown. -/
def read? (options : Options) : List String → Option Options
  | [] => if options.input.isSome then some options else none
  | "--resolve" :: rest => { options with order := true }.read? rest
  | "--layout" :: rest => { options with layout := true }.read? rest
  | "--emit" :: rest => { options with methods := true }.read? rest
  | "-b" :: rest | "--binary" :: rest => { options with binary := true }.read? rest
  | "-e" :: rest | "--eeprom" :: rest => { options with eeprom := true }.read? rest
  | "--dat" :: rest => { options with dat := true }.read? rest
  | "--no-dedup" :: rest => { options with keepDuplicates := true }.read? rest
  | "--sob" :: rest => { options with containers := true }.read? rest
  | "-v" :: rest | "--verbose" :: rest => { options with verbose := true }.read? rest
  | "-h" :: _ | "--help" :: _ => none
  | ["-M"] | ["-o"] => none
  | "-M" :: word :: rest =>
    match size? word with
    | some n => { options with memorySize := some n }.read? rest
    | none => none
  | "-o" :: name :: rest => { options with output := some name }.read? rest
  | word :: rest =>
    if options.input.isSome then none else { options with input := some word }.read? rest

/-- The options of the words after the command's name; none if the usage has to be shown. -/
def parse? (words : List String) : Option Options := ({} : Options).read? words

/-- The configuration that the options ask for. -/
def config (options : Options) : Config :=
  { memorySize := options.memorySize.getD hubSize
    shareDuplicates := !options.keepDuplicates }

/-- How the command is used. -/
def usage : String :=
  "Nameless Spin compiler\n\n" ++
  "Usage: nlsc [OPTIONS] FILE.json\n\n" ++
  "Options:\n" ++
  "  -h, --help             Show this message\n" ++
  "  -v, --verbose          Log every phase (RUST_LOG overrides)\n" ++
  "  -o <name>              Base name of the output files\n" ++
  "      --resolve          Stop after registering objects\n" ++
  "      --layout           Stop after compiling objects, show their layout\n" ++
  "      --emit             Stop after compiling objects, show method bytes\n" ++
  "  -b, --binary           Write a .binary image (program only)\n" ++
  "  -e, --eeprom           Write a .eeprom image (default)\n" ++
  "      --dat              Write the root object's DAT bytes to .dat\n" ++
  "      --no-dedup         Keep structurally identical objects\n" ++
  "  -M <bytes>             Hub memory size (default 32768)\n" ++
  "      --sob              Write a .sob file for every object\n"

end Options

end SpinHub
