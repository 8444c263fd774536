/-! Slash-separated paths. A path keeps the text it was written as and is compared by its
components: repeated and trailing slashes and inner dots do not count. -/
namespace SpaceAudit

inductive Component where
  | root | current | parent
  | normal (name : String)
deriving DecidableEq, Repr

namespace Component

def rank : Component → Nat
  | root => 0
  | current => 1
  | parent => 2
  | normal _ => 3

def compare : Component → Component → Ordering
  | normal a, normal b => Ord.compare a b
  | a, b => Ord.compare a.rank b.rank

def ofFirst : String → Option Component
  | "" => none
  | "." => some current
  | ".." => some parent
  | name => some (normal name)

def ofLater : String → Option Component
  | "" | "." => none
  | ".." => some parent
  | name => some (normal name)

end Component

structure Path where
  text : String
deriving DecidableEq, Repr

namespace Path

def isAbsolute (p : Path) : Bool := p.text.toList.head? == some '/'

def pieces (p : Path) : List String := (p.text.toList.splitOn '/').map String.ofList

def components (p : Path) : List Component :=
  match p.pieces with
  | [] => []
  | first :: rest =>
    (if p.isAbsolute then [.root] else (Component.ofFirst first).toList) ++
      rest.filterMap Component.ofLater

def same (p q : Path) : Bool := p.components == q.components

def compare (p q : Path) : Ordering := List.compareLex Component.compare p.components q.components

def le (p q : Path) : Bool := (p.compare q).isLE

def startsWith (p q : Path) : Bool := q.components.isPrefixOf p.components

def endsWith (p q : Path) : Bool := q.components.isSuffixOf p.components

/-- Either path stands at the end of the other. -/
def overlaps (p q : Path) : Bool := p.same q || p.endsWith q || q.endsWith p

def isIn (p : Path) (ps : List Path) : Bool := ps.any (p.same ·)

/-- An absolute `q` takes the place of `p`; otherwise `q` is written after `p` and a slash. -/
def join (p q : Path) : Path :=
  if q.isAbsolute then q
  else if p.text.isEmpty || p.text.toList.getLast? == some '/' then ⟨p.text ++ q.text⟩
  else ⟨p.text ++ "/" ++ q.text⟩

def child (p : Path) (name : String) : Path := p.join ⟨name⟩

def fileName? (p : Path) : Option String :=
  match p.components.getLast? with
  | some (.normal name) => some name
  | _ => none

/-- A file name cut at its last dot. A name that only starts with a dot has no extension. -/
def cutName (name : String) : String × Option String :=
  let rev := name.toList.reverse
  match rev.dropWhile (· != '.') with
  | _ :: c :: before =>
    (String.ofList (c :: before).reverse, some (String.ofList (rev.takeWhile (· != '.')).reverse))
  | _ => (name, none)

def extension? (p : Path) : Option String := p.fileName?.bind fun name => (cutName name).2

/-- What is left of a reversed text without the slashes and dots that stand for no component. -/
def skipIdle : List Char → List Char
  | '/' :: cs => skipIdle cs
  | '.' :: '/' :: cs => skipIdle cs
  | cs => cs

/-- The path cut right after the stem of its file name. A path without file name stays. -/
def cutToStem (p : Path) : Path :=
  match p.fileName? with
  | none => p
  | some name =>
    let extra := name.length - (cutName name).1.length
    ⟨String.ofList ((skipIdle p.text.toList.reverse).drop extra).reverse⟩

/-- Takes the extension off. First as many characters as the extension has are taken from the end
of the text, then all that follows the stem of what is left. -/
def dropExtension (p : Path) : Path :=
  match p.extension? with
  | none => p
  | some ext =>
    cutToStem ⟨String.ofList (p.text.toList.take (p.text.length - ext.length))⟩

end Path

/-- Sorted by components, of equal paths the one that stands first. -/
def Path.sort (ps : List Path) : List Path := ps.mergeSort Path.le

/-- Inserts into a list of paths that is strictly sorted; an equal path there is kept. -/
def Path.insertSorted (p : Path) : List Path → List Path
  | [] => [p]
  | q :: qs =>
    match p.compare q with
    | .lt => p :: q :: qs
    | .eq => q :: qs
    | .gt => q :: p.insertSorted qs

end SpaceAudit
