import SpaceAudit.Project.Sources
import SpaceAudit.Settings.Basic

/-! The sources of a project in groups that are audited together. Every geometry has a group, shared
by the project folders; the multipatch folder has one whose files are taken one at a time; what is
left of the first project folder joins every group but that one, and what is left of the others is
general. -/
namespace SpaceAudit

structure FileGroup where
  name : String
  files : List Path
  oneAtATime : Bool
deriving DecidableEq, Repr

namespace FileGroup

/-- Whether a group holds one of the wanted files; without wishes all do. -/
def isSelected (g : FileGroup) (filter : List Path) : Bool :=
  filter.isEmpty || g.files.any (·.isIn filter)

end FileGroup

namespace Groups

/-- Sets of files by name, in the order of the names. -/
abbrev Sets := List (String × List Path)

def addAll (files : List Path) (set : List Path) : List Path :=
  files.foldl (fun set p => p.insertSorted set) set

def add (name : String) (files : List Path) : Sets → Sets
  | [] => [(name, addAll files [])]
  | (n, set) :: rest =>
    if name < n then (name, addAll files []) :: (n, set) :: rest
    else if name = n then (n, addAll files set) :: rest
    else (n, set) :: add name files rest

def general : String := "general"

/-- Files that are given to the geometries they lie in, and those that are left. -/
structure Partition where
  sets : Sets
  left : List Path

def Partition.take (p : Partition) (geometry : String × Path) : Partition :=
  ⟨add geometry.1 (p.left.filter (·.startsWith geometry.2)) p.sets,
    p.left.filter fun f => !f.startsWith geometry.2⟩

def part (fs : FileSystem) (multipatch folder : Path) (sets : Sets) : Partition :=
  (fs.geometries folder).foldl Partition.take
    ⟨sets, (fs.sources folder).filter fun f => !f.startsWith multipatch⟩

def collect (fs : FileSystem) (multipatch : Path) (sets : Sets) (folders : List Path) : Sets :=
  folders.foldl
    (fun sets folder =>
      let p := part fs multipatch folder sets
      add general p.left p.sets)
    sets

def partition (fs : FileSystem) (multipatch : Path) : List Path → Partition
  | [] => ⟨[], []⟩
  | first :: folders =>
    let p := part fs multipatch first []
    let sets := collect fs multipatch p.sets folders
    if sets.isEmpty && !p.left.isEmpty then ⟨[(general, [])], p.left⟩ else ⟨sets, p.left⟩

def multipatchGroup (fs : FileSystem) (multipatch : Path) : List FileGroup :=
  let files := fs.sources multipatch
  if files.isEmpty then [] else [⟨"multipatch", files, true⟩]

def discover (fs : FileSystem) (settings : Settings) (root : Path) : List FileGroup :=
  let multipatch := root.child settings.multipatchFolder
  let p := partition fs multipatch (settings.projectFolders.map root.child)
  multipatchGroup fs multipatch ++
    p.sets.map fun (name, files) => ⟨name, addAll p.left files, false⟩

end Groups

end SpaceAudit
