import SpaceAudit.Command.Basic

/-! The command line. Files are read as they are named: the settings and the dumps by the options,
the files of a project on standard input, one path a line. No program is started from here, so a
project run needs the dumps to be there. -/
namespace SpaceAudit.Command

def namedPlace (folder : List String) (p : Path) : List String :=
  p.pieces.foldl
    (fun here piece =>
      if piece = "" ∨ piece = "." then here
      else if piece = ".." then here.dropLast
      else here ++ [piece])
    (if p.isAbsolute then [] else folder)

def load (fs : FileSystem) (p : Path) : IO FileSystem := do
  try
    let bytes ← IO.FS.readBinFile p.text
    return { fs with tree := fs.tree.putFile (namedPlace fs.folder p) bytes }
  catch _ => return fs

partial def readPaths (input : IO.FS.Stream) (paths : List Path) : IO (List Path) := do
  let line ← input.getLine
  if line.isEmpty then return paths.reverse
  else readPaths input (⟨Text.trim line⟩ :: paths)

def wantedPaths (o : Options) : IO (List Path) := do
  if o.dumps.isEmpty then return o.config.toList ++ (← readPaths (← IO.getStdin) [])
  else return o.config.toList ++ o.dumps ++ o.dumps.map Path.sourceOf

/-- The machine as far as a command line can see it. -/
def machine (arguments : List String) : IO Machine := do
  let folder := namedPlace [] ⟨(← IO.getEnv "PWD").getD "/"⟩
  let known : FileSystem := ⟨FileTree.empty.putFolder folder, folder⟩
  match Options.ofArguments arguments with
  | .error _ => return ⟨known, []⟩
  | .ok o => return ⟨← (← wantedPaths o).foldlM load known, []⟩

end SpaceAudit.Command

def main (arguments : List String) : IO UInt32 := do
  let report := SpaceAudit.Command.run (← SpaceAudit.Command.machine arguments) arguments
  IO.print report.output
  if let some message := report.failure then IO.eprintln message
  return report.code.toUInt32
