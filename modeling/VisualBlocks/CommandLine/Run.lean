import VisualBlocks.Adapter
import VisualBlocks.CommandLine.Arguments
import VisualBlocks.Lint
import VisualBlocks.Sandbox.Run
import VisualBlocks.Toolbox.Markup
import VisualBlocks.Workspace.Load

/-!
# Running the program

The program reads a workspace file, generates its text and, if it is asked to, checks the workspace,
writes the toolbox and runs the text in the sandbox.  It announces each stage.  What it needs of the
world around it are the operations of a `World`; all that it decides is decided here, whatever the
world is.
-/

set_option autoImplicit false

namespace VisualBlocks
namespace CommandLine

/-- What the program needs of the world around it. -/
structure World (m : Type → Type) where
  /-- The full path of a file, if there is such a file. -/
  locate : String → m (Option String)
  /-- The text of a file, if it can be read. -/
  read : String → m (Option String)
  /-- Writes a file, and says whether that was possible. -/
  write : String → String → m Bool
  /-- Puts out generated text. -/
  print : String → m Unit
  /-- Tells the user something, in a line of its own. -/
  tell : String → m Unit
  /-- Waits for some milliseconds. -/
  wait : Nat → m Unit

/-- Why the program stops. -/
inductive RunError where
  | svgWithoutRun
  | inputNotFound (path : String)
  | vocabulary (e : Vocabulary.Error)
  | unreadable (what path : String)
  | load (path : String) (e : Workspace.LoadError)
  | mount (e : Adapter.MountError Editor.UnknownTypes)
  | unwritable (what path : String)
  | sandbox (e : Sandbox.Error)
deriving Repr, DecidableEq

/-- The wording of an error. -/
def RunError.message : RunError → String
  | .svgWithoutRun => "--svg requires --run."
  | .inputNotFound path => "Input file not found: '" ++ path ++ "'."
  | .vocabulary e => e.message
  | .unreadable what path => "Failed to read " ++ what ++ " '" ++ path ++ "'."
  | .load path e => "Failed to load workspace '" ++ path ++ "'.: " ++ e.message
  | .mount e => e.message Editor.UnknownTypes.message
  | .unwritable what path => "Failed to write " ++ what ++ " '" ++ path ++ "'."
  | .sandbox e => e.message

/-! ## Stages -/

/-- A stage of the program. -/
inductive Stage where
  | locate
  | vocabulary
  | load
  | lint
  | generate
  | toolbox
  | output
  | run
  | svg
deriving Repr, DecidableEq, Inhabited

/-- What is announced. -/
def Stage.label : Stage → String
  | .locate => "Resolving input path"
  | .vocabulary => "Loading block vocabulary"
  | .load => "Loading workspace"
  | .lint => "Checking block graph"
  | .generate => "Generating code"
  | .toolbox => "Writing toolbox"
  | .output => "Writing generated code"
  | .run => "Running sandbox"
  | .svg => "Writing drawing surface"

/-- The stages that the arguments ask for, in order. -/
def Arguments.stages (a : Arguments) : List Stage :=
  let only (asked : Bool) (s : Stage) : List Stage := if asked then [s] else []
  [.locate, .vocabulary, .load] ++ only a.lint .lint ++ [.generate] ++
    only a.emitToolbox.isSome .toolbox ++ only a.output.isSome .output ++ only a.run .run ++
    only a.svg.isSome .svg

/-- A bar that is filled up to the given step, rounded to the nearest character. -/
def progressBar (step total width : Nat) : String :=
  let filled := min width ((step * width + total / 2) / total)
  "[" ++ String.ofList (List.replicate filled '=' ++ List.replicate (width - filled) '-') ++ "]"

/-- The line that announces a stage. -/
def Arguments.announcement (a : Arguments) (s : Stage) : String :=
  let step := a.stages.idxOf s + 1
  let total := a.stages.length
  "[Generate] " ++ s.label ++ "... (" ++ toString step ++ "/" ++ toString total ++ ") " ++
    progressBar step total 14

/-! ## The run -/

/-- The number of steps after which a run without a budget would be given up. -/
def patience : Nat := Nat.pow 2 62

section
variable {m : Type → Type} [Monad m] (w : World m) (a : Arguments)

/-- A step of the program, which can stop it. -/
abbrev Action (m : Type → Type) (α : Type) : Type := ExceptT RunError m α

/-- Stops the program if an outcome is an error. -/
def orStop {ε α : Type} (wrap : ε → RunError) : Except ε α → Action m α
  | .ok x => pure x
  | .error e => throw (wrap e)

/-- Announces a stage. -/
def announce (s : Stage) : Action m Unit := ExceptT.lift (w.tell (a.announcement s))

/-- Reads a file. -/
def readFile (what path : String) : Action m String := do
  match ← ExceptT.lift (w.read path) with
  | some text => return text
  | none => throw (.unreadable what path)

/-- Writes a file. -/
def writeFile (what path text : String) : Action m Unit := do
  if !(← ExceptT.lift (w.write path text)) then throw (.unwritable what path)

/-- The full path of the workspace file. -/
def locateInput : Action m String := do
  announce w a .locate
  match ← ExceptT.lift (w.locate a.input) with
  | some path => return path
  | none => throw (.inputNotFound a.input)

/-- The preset of the vocabulary, with the further block types. -/
def loadPreset : Action m Preset := do
  announce w a .vocabulary
  let vocabulary ← orStop .vocabulary (Vocabulary.ofName a.vocabulary)
  let custom ← a.blocks.mapM (readFile w "block descriptors")
  orStop .vocabulary (vocabulary.presetWith custom)

/-- The workspace in a file. -/
def loadWorkspace (path : String) : Action m Workspace := do
  announce w a .load
  orStop (.load path) (Workspace.ofText (← readFile w "workspace" path))

/-- Tells the user the warnings about the workspace. -/
def tellWarnings (p : Preset) (workspace : Workspace) : Action m Unit := do
  announce w a .lint
  for warning in Lint.findings workspace p.registry true do
    ExceptT.lift (w.tell ("[Lint] " ++ warning.text))

/-- Writes the text to its file, or puts it out. -/
def deliver (code : String) : Action m Unit := do
  match a.output with
  | none => ExceptT.lift (w.print code)
  | some path =>
    announce w a .output
    writeFile w "output" path code

/-- Runs the text in the sandbox, and gives the sandbox after the run. -/
def runSandbox (code : String) : Action m Sandbox := do
  announce w a .run
  let options := { Sandbox.Options.standard with
    stepDelay := a.stepDelay, maxSteps := some a.maxSteps }
  let (sandbox, progress, outcome) := (Sandbox.new options).execute patience code
  if 0 < a.stepDelay * progress.pauses then
    ExceptT.lift (w.wait (a.stepDelay * progress.pauses))
  orStop .sandbox outcome
  for line in sandbox.effects.output do
    ExceptT.lift (w.tell ("[Run] " ++ line))
  return sandbox

/-- The program. -/
def run : Action m Unit := do
  if a.svg.isSome && !a.run then throw .svgWithoutRun
  let path ← locateInput w a
  let preset ← loadPreset w a
  let workspace ← loadWorkspace w a path
  if a.lint then tellWarnings w a preset workspace
  announce w a .generate
  let code ← orStop .mount (preset.codeThroughAdapter workspace)
  if let some path := a.emitToolbox then
    announce w a .toolbox
    writeFile w "toolbox" path preset.toolbox.toXmlText
  deliver w a code
  if a.run then
    let sandbox ← runSandbox w a code
    if let some path := a.svg then
      announce w a .svg
      writeFile w "SVG" path sandbox.effects.surface.toSvg

end
end CommandLine
end VisualBlocks
