import VisualBlocks.CommandLine.Run
import VisualBlocks.Table

/-!
# A folder in memory

A world that consists of one folder with files.  The program can be run in it without touching
anything, and what it has done can be looked at afterwards.
-/

set_option autoImplicit false

namespace VisualBlocks
namespace CommandLine

/-- A folder: its path, its files, and what the program has put out and told. -/
structure Folder where
  path : String
  files : Table String
  printed : String
  told : String
deriving Repr, DecidableEq, Inhabited

namespace Folder

/-- A folder with files, before the program runs. -/
def ofFiles (path : String) (files : Table String) : Folder := ⟨path, files, "", ""⟩

/-- The steps of a path. -/
def steps (path : String) : List String := path.splitOn "/"

/-- The name of the file that a path leads to from inside the folder.  Single dots and repeated
slashes lead nowhere; a path that leads out of the folder, or into a folder below, has no name
here, and neither has a path that ends in a slash or a dot. -/
def fileName? (path : String) : Option String :=
  if path.startsWith "/" then none
  else
    let all := steps path
    match all.getLast?, all.filter fun s => s != "" && s != "." with
    | some last, [name] => if last == name && name != ".." then some name else none
    | _, _ => none

/-- The full path of a file. -/
def locate (f : Folder) (path : String) : Option String :=
  (fileName? path).bind fun name =>
    if f.files.contains name then some (f.path ++ "/" ++ name) else none

/-- The name of the file under a path, which may also be a full path. -/
def nameWithin? (f : Folder) (path : String) : Option String :=
  if path.startsWith (f.path ++ "/") then
    fileName? (String.ofList (path.toList.drop (f.path.length + 1)))
  else fileName? path

/-- The text of a file. -/
def read (f : Folder) (path : String) : Option String :=
  (f.nameWithin? path).bind f.files.get?

/-- The folder after writing a file, and whether that was possible. -/
def write (f : Folder) (path text : String) : Bool × Folder :=
  match fileName? path with
  | none => (false, f)
  | some name => (true, { f with files := f.files.set name text })

/-- The folder as a world. -/
def world : World (StateM Folder) where
  locate path := fun f => (f.locate path, f)
  read path := fun f => (f.read path, f)
  write path text := fun f => f.write path text
  print text := fun f => ((), { f with printed := f.printed ++ text })
  tell line := fun f => ((), { f with told := f.told ++ line ++ "\n" })
  wait _ := pure ()

/-- The outcome of the program in the folder, and the folder afterwards. -/
def run (f : Folder) (a : Arguments) : Except RunError Unit × Folder :=
  (CommandLine.run world a).run f

end Folder
end CommandLine
end VisualBlocks
