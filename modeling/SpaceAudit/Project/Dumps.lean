import SpaceAudit.FileTree.Basic
import SpaceAudit.Group.Basic
import SpaceAudit.Settings.File
import SpaceAudit.Source.Loading

/-! Units from dumps in files. A dump that cannot be used is a finding about its source. -/
namespace SpaceAudit

inductive DumpFault where
  | unreadable (e : PathFault)
  | rejected (r : Rejection)
deriving DecidableEq, Repr

def DumpFault.message (dump : Path) : DumpFault → String
  | unreadable e => "Cannot read dump " ++ dump.text ++ ": " ++ e.text
  | rejected r => r.message dump

namespace Dump

def read (fs : FileSystem) (dump : Path) : Except DumpFault SourceUnit :=
  match fs.readText dump with
  | .error e => .error (.unreadable e)
  | .ok text =>
    match SourceUnit.ofText dump text with
    | .error r => .error (.rejected r)
    | .ok u => .ok u

def faultFinding (dump : Path) (e : DumpFault) : Finding :=
  ⟨.style, .structural, dump.sourceOf, 0, 0, e.message dump, none⟩

def units (fs : FileSystem) (dumps : List Path) : List SourceUnit :=
  dumps.filterMap fun d => (read fs d).toOption

def faults (fs : FileSystem) (dumps : List Path) : List Finding :=
  dumps.filterMap fun d =>
    match read fs d with
    | .ok _ => none
    | .error e => some (faultFinding d e)

def audit (fs : FileSystem) (settings : Settings) (dumps : List Path) (r : Run) : Run :=
  (GroupAudit.ofUnits settings settings.isOwning (units fs dumps)
    (r.reportAll (faults fs dumps))).run

end Dump

end SpaceAudit
