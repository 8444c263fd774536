import SpaceAudit.FileTree.Basic

/-! The sources of a project. -/
namespace SpaceAudit

def Path.isSource (p : Path) : Bool := p.extension? == some "hpp" || p.extension? == some "cpp"

namespace FileTree

mutual

def sourcesAt (p : Path) : FileTree → List Path
  | file _ => if p.isSource then [p] else []
  | folder entries => sourcesIn p entries

def sourcesIn (dir : Path) : List (String × FileTree) → List Path
  | [] => []
  | (name, t) :: rest => sourcesAt (dir.child name) t ++ sourcesIn dir rest

end

end FileTree

namespace FileSystem

/-- The sources below a folder, sorted; a missing folder has none. -/
def sources (fs : FileSystem) (dir : Path) : List Path :=
  Path.sort (FileTree.sourcesIn dir (fs.entries dir))

def geometries (fs : FileSystem) (dir : Path) : List (String × Path) :=
  (((fs.entries dir).filterMap fun (name, t) =>
      match t with
      | .folder _ => if "geometry".toList.isPrefixOf name.toList then some name else none
      | .file _ => none).mergeSort (· ≤ ·)).map fun name => (name, dir.child name)

end FileSystem

end SpaceAudit
