import SpaceAudit.Project.Dumps
import SpaceAudit.Project.FrontEnd
import SpaceAudit.Project.Groups

/-! A run over a whole project: its groups one after the other, each with the front end first, if
there is one, and then the dumps that lie beside the sources. -/
namespace SpaceAudit

inductive ProjectFault where
  | unreadable (path : Path) (e : PathFault)
  | frontEndNotFound
  | frontEndFailed (e : PathFault)
deriving DecidableEq, Repr

def ProjectFault.message : ProjectFault → String
  | unreadable path e => "Cannot read " ++ path.text ++ ": " ++ e.text
  | frontEndNotFound => "cppcheck not found. Install cppcheck or specify the path with --cppcheck"
  | frontEndFailed e => "Failed to start cppcheck: " ++ e.text

structure Project where
  settings : Settings
  root : Path
  filter : List Path
  frontEnd : Option FrontEnd

namespace Project

def ofRoot (fs : FileSystem) (settings : Settings) (root : Path) : Except ProjectFault Project :=
  match fs.canonical root with
  | .error e => .error (.unreadable root e)
  | .ok root => .ok ⟨settings, root, [], none⟩

def withFilter (p : Project) (fs : FileSystem) (files : List Path) : Project :=
  { p with filter := files.map fun f => (fs.canonical (p.root.join f)).toOption.getD (p.root.join f) }

def withFrontEnd (p : Project) (f : FrontEnd) : Project := { p with frontEnd := some f }

def groups (p : Project) (fs : FileSystem) : List FileGroup := Groups.discover fs p.settings p.root

def wants (p : Project) (file : Path) : Bool := p.filter.isEmpty || file.isIn p.filter

def selectedGroups (p : Project) (fs : FileSystem) : List FileGroup :=
  ((p.groups fs).map fun g =>
      if g.oneAtATime then { g with files := g.files.filter p.wants } else g).filter
    fun g => !g.files.isEmpty && g.isSelected p.filter

def lastOfEqual : List Path → List Path
  | p :: q :: rest => if p.same q then lastOfEqual (q :: rest) else p :: lastOfEqual (q :: rest)
  | ps => ps

/-- The sources that a change of which would call for another run. -/
def watched (p : Project) (fs : FileSystem) : List Path :=
  if p.filter.isEmpty then lastOfEqual (Path.sort ((p.groups fs).flatMap FileGroup.files))
  else p.filter.filter fs.exists?

/-- Files that are handed to the front end together. -/
structure Job where
  group : String
  files : List Path
deriving DecidableEq, Repr

def jobsOf (g : FileGroup) : List Job :=
  if g.oneAtATime then g.files.map fun f => ⟨g.name, [f]⟩ else [⟨g.name, g.files⟩]

structure Progress where
  run : Run
  calls : List Invocation

def failureFinding (p : Project) (j : Job) (e : Ending) : Finding :=
  ⟨.style, .frontEndFailure, j.files.head?.getD p.root, 0, 0,
    "cppcheck exited with " ++ e.codeText ++ " while checking group " ++ j.group,
    Text.lastLine? e.errors⟩

def prepare (p : Project) (j : Job) (s : Progress) : Except ProjectFault Progress :=
  match p.frontEnd with
  | none => .ok s
  | some f =>
    let i := f.invocation j.files p.filter
    match f.call i with
    | .error e => .error (.frontEndFailed e)
    | .ok ending =>
      let calls := s.calls ++ [i]
      if ending.isSuccess then .ok { s with calls }
      else .ok ⟨s.run.report (p.failureFinding j ending), calls⟩

/-- Audits the units of a group that are wanted, each source once in a run. -/
def auditUnits (p : Project) (units : List SourceUnit) (r : Run) : Run :=
  let g := GroupContext.ofUnits p.settings p.settings.isOwning units
  (AnnotatedUnit.auditList (AnnotatedUnit.auditOnce p.settings g)
    ((units.filter fun u => p.wants u.path).map SourceUnit.unannotated) r).2

def auditJob (p : Project) (fs : FileSystem) (j : Job) (r : Run) : Run :=
  let dumps := (j.files.map Path.dumpOf).filter fs.isFile
  p.auditUnits (Dump.units fs dumps) (r.reportAll (Dump.faults fs dumps))

/-- Goes through the jobs until one fails; what was found before stays. -/
def runJobs (p : Project) (fs : FileSystem) : List Job → Progress → Progress × Option ProjectFault
  | [], s => (s, none)
  | j :: js, s =>
    match p.prepare j s with
    | .error e => (s, some e)
    | .ok s => p.runJobs fs js { s with run := p.auditJob fs j s.run }

def run (p : Project) (fs : FileSystem) : Progress × Option ProjectFault :=
  p.runJobs fs ((p.selectedGroups fs).flatMap jobsOf) ⟨.start, []⟩

end Project

end SpaceAudit
