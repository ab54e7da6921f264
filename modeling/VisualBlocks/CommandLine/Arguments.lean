import VisualBlocks.Number.Reading

/-!
# Arguments

The program takes a workspace file, optionally a file to write the text to, and options.  Options
have a long name, and a value behind an equals sign or in the next argument; two of them have a
short name too, and these can be run together.  Everything after a lone double dash is a file.

An argument is judged in two steps.  Its form is looked at when it is read.  Its value is looked at
when the next argument is accepted, or at the end, so that an argument of a form that is not known
is reported before the value in front of it.
-/

set_option autoImplicit false

namespace VisualBlocks
namespace CommandLine

/-- What an argument can set. -/
inductive Setting where
  | input
  | output
  | vocabulary
  | blocks
  | emitToolbox
  | svg
  | stepDelay
  | maxSteps
  | lint
  | run
  | verbose
  | help
deriving Repr, DecidableEq, Inhabited

/-- Why arguments are refused. -/
inductive UsageError where
  | unknownArgument (arg : String)
  | inputMissing
  | valueMissing (setting : Setting)
  | emptyPath (setting : Setting)
  | notANumber (setting : Setting) (value : String)
  | repeated (setting : Setting)
  | unexpectedValue (setting : Setting)
  /-- The arguments ask for help instead of a run. -/
  | helpRequested
deriving Repr, DecidableEq, Inhabited

/-- What the program is asked to do. -/
structure Arguments where
  input : String
  output : Option String
  vocabulary : String
  blocks : Option String
  emitToolbox : Option String
  svg : Option String
  lint : Bool
  run : Bool
  /-- How long to pause between two steps of a run, in milliseconds. -/
  stepDelay : Nat
  /-- The most steps of a run. -/
  maxSteps : Nat
deriving Repr, DecidableEq, Inhabited

/-! ## Options -/

/-- The options by their long names. -/
def longNames : List (String × Setting) :=
  [("vocabulary", .vocabulary), ("blocks", .blocks), ("emit-toolbox", .emitToolbox),
   ("lint", .lint), ("run", .run), ("svg", .svg), ("step-delay-ms", .stepDelay),
   ("max-steps", .maxSteps), ("verbose", .verbose), ("help", .help)]

/-- The options by their short names. -/
def shortNames : List (Char × Setting) := [('v', .verbose), ('h', .help)]

namespace Setting

/-- Is the setting a switch, without a value? -/
def isSwitch : Setting → Bool
  | .lint => true
  | .run => true
  | .verbose => true
  | .help => true
  | _ => false

/-- Is the value of the setting a number? -/
def isNumeric : Setting → Bool
  | .stepDelay => true
  | .maxSteps => true
  | _ => false

/-- Is the value of the setting a path? -/
def isPath : Setting → Bool
  | .input => true
  | .output => true
  | .blocks => true
  | .emitToolbox => true
  | .svg => true
  | _ => false

end Setting

/-- The name under which users know the setting. -/
def Setting.label (s : Setting) : String :=
  match longNames.find? fun option => option.2 == s with
  | some (name, _) => "--" ++ name
  | none => if s = .input then "<INPUT>" else "[OUTPUT]"

/-- The wording of a refusal. -/
def UsageError.message : UsageError → String
  | .unknownArgument arg => "unexpected argument '" ++ arg ++ "' found"
  | .inputMissing => "the required argument <INPUT> was not provided"
  | .valueMissing s => "a value is required for '" ++ s.label ++ "' but none was supplied"
  | .emptyPath s => "a value is required for '" ++ s.label ++ "' but none was supplied"
  | .notANumber s value => "invalid value '" ++ value ++ "' for '" ++ s.label ++ "'"
  | .repeated s => "the argument '" ++ s.label ++ "' cannot be used multiple times"
  | .unexpectedValue s => "unexpected value for '" ++ s.label ++ "' found; no more were expected"
  | .helpRequested => "help requested"

/-- How the program is used. -/
def usage : String :=
  "Generate script text from a block workspace (JSON or XML), optionally run it.

" ++
  "Usage: [OPTIONS] <INPUT> [OUTPUT]

" ++
  "  <INPUT>                    Workspace file (.json or .xml).
" ++
  "  [OUTPUT]                   Write generated text here instead of stdout.
" ++
  "  --vocabulary <VOCABULARY>  Block vocabulary: standard, automation or canvas.
" ++
  "  --blocks <JSON>            Extra block descriptors (JSON array) to register.
" ++
  "  --emit-toolbox <PATH>      Write the vocabulary's toolbox XML to this path.
" ++
  "  --lint                     Report graph warnings on stderr.
" ++
  "  --run                      Execute the generated text in the sandbox.
" ++
  "  --svg <PATH>               With --run, write the drawing surface as SVG.
" ++
  "  --step-delay-ms <N>        With --run, delay between interpreter steps.
" ++
  "  --max-steps <N>            With --run, abort after this many steps.
" ++
  "  -v, --verbose              Log progress details.
" ++
  "  -h, --help                 Print help.
"

/-! ## Reading -/

/-- How far the arguments have been read. -/
structure Draft where
  /-- The settings that have been made, with their values. -/
  given : List (Setting × String)
  /-- The setting to be made next; its value may still have to come. -/
  pending : Option (Setting × Option String)
  /-- How many files there have been. -/
  files : Nat
  /-- Has there been a double dash? -/
  onlyFiles : Bool
deriving Repr, DecidableEq, Inhabited

namespace Draft

/-- Nothing read so far. -/
def empty : Draft := ⟨[], none, 0, false⟩

/-- The value of a setting. -/
def value? (d : Draft) (s : Setting) : Option String := d.given.lookup s

/-- Has the setting been made? -/
def has (d : Draft) (s : Setting) : Bool := (d.value? s).isSome

/-- The value of a numeric setting, or a default. -/
def number (d : Draft) (s : Setting) (default : Nat) : Nat :=
  ((d.value? s).bind Number.natural?).getD default

/-- Makes a setting, unless it has been made before or its value does not fit. -/
def give (d : Draft) (s : Setting) (value : String) : Except UsageError Draft :=
  if d.has s then .error (.repeated s)
  else if s.isPath && value.isEmpty then .error (.emptyPath s)
  else if s.isNumeric && (Number.natural? value).isNone then .error (.notANumber s value)
  else .ok { d with given := (s, value) :: d.given }

/-- Makes the pending setting, if there is one. -/
def settle (d : Draft) : Except UsageError Draft :=
  match d.pending with
  | none => .ok d
  | some (s, none) => .error (.valueMissing s)
  | some (s, some value) => ({ d with pending := none }).give s value

/-- Makes the pending setting and puts another one in its place. -/
def await (d : Draft) (s : Setting) (value : Option String) : Except UsageError Draft := do
  let d ← d.settle
  return { d with pending := some (s, value) }

/-- Turns a switch on. -/
def switch (d : Draft) (s : Setting) : Except UsageError Draft := do
  let d ← d.settle
  if s = .help then throw .helpRequested
  d.give s ""

/-- Takes a file: the first is the input, the second the output. -/
def takeFile (d : Draft) (arg : String) : Except UsageError Draft :=
  match d.files with
  | 0 => ({ d with files := 1 }).await .input (some arg)
  | 1 => ({ d with files := 2 }).await .output (some arg)
  | _ => .error (.unknownArgument arg)

/-- Takes an option by its long name, with the value that is attached to it, if any. -/
def takeLong (d : Draft) (name : String) (attached : Option String) : Except UsageError Draft :=
  match longNames.lookup name with
  | none => .error (.unknownArgument ("--" ++ name))
  | some s =>
    match s.isSwitch, attached with
    | true, none => d.switch s
    | true, some _ => .error (.unexpectedValue s)
    | false, none => d.await s none
    | false, some value => do (← d.settle).give s value

/-- Takes options by their short names. -/
def takeShort (d : Draft) : List Char → Except UsageError Draft
  | [] => .ok d
  | c :: cs =>
    match shortNames.lookup c with
    | none => .error (.unknownArgument (String.ofList ['-', c]))
    | some s => do (← d.switch s).takeShort cs

/-- Takes an argument that is no option: the value of the pending setting, or a file. -/
def takePlain (d : Draft) (arg : String) : Except UsageError Draft :=
  match d.pending with
  | some (s, none) => .ok { d with pending := some (s, some arg) }
  | _ => d.takeFile arg

/-- Takes an argument. -/
def take (d : Draft) (arg : String) : Except UsageError Draft :=
  if d.onlyFiles then d.takeFile arg
  else
    match arg.toList with
    | ['-', '-'] => .ok { d with onlyFiles := true }
    | '-' :: '-' :: cs =>
      let name := cs.takeWhile (· != '=')
      let attached := match cs.dropWhile (· != '=') with
        | [] => none
        | _ :: value => some (String.ofList value)
      d.takeLong (String.ofList name) attached
    | '-' :: c :: cs => d.takeShort (c :: cs)
    | _ => d.takePlain arg

/-- What the settings ask for. -/
def finish (d : Draft) : Except UsageError Arguments := do
  let d ← d.settle
  match d.value? .input with
  | none => throw .inputMissing
  | some input =>
    return {
      input
      output := d.value? .output
      vocabulary := (d.value? .vocabulary).getD "standard"
      blocks := d.value? .blocks
      emitToolbox := d.value? .emitToolbox
      svg := d.value? .svg
      lint := d.has .lint
      run := d.has .run
      stepDelay := d.number .stepDelay 0
      maxSteps := d.number .maxSteps 1000000 }

end Draft

/-- Reads the arguments of the program. -/
def Arguments.read (args : List String) : Except UsageError Arguments := do
  (← args.foldlM Draft.take .empty).finish

end CommandLine
end VisualBlocks
