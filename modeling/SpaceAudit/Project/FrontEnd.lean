import SpaceAudit.FileTree.Basic
import SpaceAudit.Settings.Basic
import SpaceAudit.Text.Blank

/-! The program that writes the dumps: how it is found, called and judged. -/
namespace SpaceAudit

structure Invocation where
  folder : Path
  arguments : List String
deriving DecidableEq, Repr

/-- How a call ended: the exit code, which a signal leaves out, and the text of its errors. -/
structure Ending where
  code : Option Nat
  errors : String
deriving DecidableEq, Repr

namespace Ending

def isSuccess (e : Ending) : Bool := e.code == some 0

def codeText (e : Ending) : String :=
  match e.code with
  | some n => toString n
  | none => "a signal"

end Ending

structure Tool where
  run : Invocation → Ending

structure Machine where
  files : FileSystem
  tools : List (String × Tool)

/-- What was found for a front end: a program, or a file that is none. -/
inductive Program where
  | tool (t : Tool)
  | plainFile (p : Path)

structure FrontEnd where
  program : Program
  arguments : List String
  folder : Path

namespace FrontEnd

def standardName : String := "cppcheck"

/-- The front end of that name: a file, or else a program that can be found by the name. -/
def locate? (m : Machine) (settings : Settings) (name : Option String) (folder : Path) :
    Option FrontEnd :=
  let found := fun (name : String) => (m.tools.lookup name).map Program.tool
  let program :=
    match name with
    | none => found standardName
    | some name => if m.files.isFile ⟨name⟩ then some (.plainFile ⟨name⟩) else found name
  program.map fun p => ⟨p, settings.frontEndArguments, folder⟩

/-- The call for some files: the fixed arguments, the files and the filters. -/
def invocation (f : FrontEnd) (files filter : List Path) : Invocation :=
  ⟨f.folder, f.arguments ++ files.map Path.text ++
    filter.map fun p => "--file-filter=" ++ p.text⟩

/-- Calls the front end. A file that is no program may not be run. -/
def call (f : FrontEnd) (i : Invocation) : Except PathFault Ending :=
  match f.program with
  | .tool t => .ok (t.run i)
  | .plainFile _ => .error .denied

end FrontEnd

end SpaceAudit
