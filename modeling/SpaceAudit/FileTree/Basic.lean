import SpaceAudit.Path.Basic

/-! Files and folders as a value, and what a path means in them. -/
namespace SpaceAudit

inductive FileTree where
  | file (bytes : ByteArray)
  | folder (entries : List (String × FileTree))

inductive PathFault where
  | notFound | notFolder | isFolder | denied | notText
deriving DecidableEq, Repr

def PathFault.text : PathFault → String
  | notFound => "No such file or directory (os error 2)"
  | notFolder => "Not a directory (os error 20)"
  | isFolder => "Is a directory (os error 21)"
  | denied => "Permission denied (os error 13)"
  | notText => "stream did not contain valid UTF-8"

namespace FileTree

def empty : FileTree := folder []

def get? : FileTree → List String → Option FileTree
  | t, [] => some t
  | folder entries, name :: names =>
    match entries.lookup name with
    | some t => t.get? names
    | none => none
  | file _, _ :: _ => none

def setEntry (entries : List (String × FileTree)) (name : String) (t : FileTree) :
    List (String × FileTree) :=
  if (entries.lookup name).isSome then
    entries.map fun (n, old) => if n == name then (n, t) else (n, old)
  else entries ++ [(name, t)]

/-- Puts something at a place, and makes the folders on the way. -/
def alter (change : Option FileTree → FileTree) : List String → Option FileTree → FileTree
  | [], old => change old
  | name :: names, some (folder entries) =>
    folder (setEntry entries name (alter change names (entries.lookup name)))
  | name :: names, _ => folder [(name, alter change names none)]

def putFile (t : FileTree) (place : List String) (bytes : ByteArray) : FileTree :=
  alter (fun _ => file bytes) place (some t)

def putFolder (t : FileTree) (place : List String) : FileTree :=
  alter
    (fun
      | some (folder entries) => folder entries
      | _ => empty)
    place (some t)

/-- Follows the pieces of a path from a folder. Every piece, an empty one too, asks for a folder to
start from. -/
def follow (t : FileTree) (here : List String) : List String → Except PathFault (List String)
  | [] => .ok here
  | piece :: rest =>
    match t.get? here with
    | none => .error .notFound
    | some (file _) => .error .notFolder
    | some (folder entries) =>
      if piece = "" ∨ piece = "." then t.follow here rest
      else if piece = ".." then t.follow here.dropLast rest
      else if (entries.lookup piece).isSome then t.follow (here ++ [piece]) rest
      else .error .notFound

end FileTree

structure FileSystem where
  tree : FileTree
  folder : List String

namespace FileSystem
variable (fs : FileSystem)

def place (p : Path) : Except PathFault (List String) :=
  if p.text = "" then .error .notFound
  else fs.tree.follow (if p.isAbsolute then [] else fs.folder) p.pieces

def at? (p : Path) : Option FileTree :=
  match fs.place p with
  | .ok names => fs.tree.get? names
  | .error _ => none

def exists? (p : Path) : Bool := (fs.at? p).isSome

def isFile (p : Path) : Bool :=
  match fs.at? p with
  | some (.file _) => true
  | _ => false

/-- The entries of a folder; anything else has none. -/
def entries (p : Path) : List (String × FileTree) :=
  match fs.at? p with
  | some (.folder entries) => entries
  | _ => []

/-- The path of a place from the root down. -/
def canonical (p : Path) : Except PathFault Path :=
  match fs.place p with
  | .error e => .error e
  | .ok names => .ok ⟨"/" ++ "/".intercalate names⟩

def readText (p : Path) : Except PathFault String :=
  match fs.place p with
  | .error e => .error e
  | .ok names =>
    match fs.tree.get? names with
    | none => .error .notFound
    | some (.folder _) => .error .isFolder
    | some (.file bytes) =>
      match String.fromUTF8? bytes with
      | some s => .ok s
      | none => .error .notText

end FileSystem

end SpaceAudit
