import SpaceAudit.Markup.Element
import SpaceAudit.Markup.Reference

/-! A document becomes its root element. Names are read with their namespaces: a qualifier has to
be declared, and an element's attributes differ in namespace or base name. -/
namespace SpaceAudit.Markup

def reservedNamespace (parts : List String) : String :=
  "/".intercalate (["http:", "", "www.w3.org"] ++ parts)

/-- The namespace that `xml` names and no other qualifier may. -/
def standardNamespace : String := reservedNamespace ["XML", "1998", "namespace"]

def declarationNamespace : String := reservedNamespace ["2000", "xmlns", ""]

/-- What the attributes of a tag come to: the namespaces it declares and the attributes proper. -/
structure Marks where
  declared : List (String × String)
  attributes : List (QName × String)

namespace Marks

def declareQualified (m : Marks) (base uri : String) : Except Fault Marks :=
  if uri = declarationNamespace then .error .reservedNamespace
  else if base = "xml" && uri ≠ standardNamespace then .error .reservedNamespace
  else if base ≠ "xml" && uri = standardNamespace then .error .reservedNamespace
  else if (m.declared.lookup base).isSome then .error .duplicateNamespace
  else if uri = standardNamespace then .ok m
  else .ok { m with declared := m.declared ++ [(base, uri)] }

def declareDefault (m : Marks) (uri : String) : Except Fault Marks :=
  if uri = standardNamespace || uri = declarationNamespace then .error .reservedNamespace
  else .ok { m with declared := m.declared ++ [("", uri)] }

def add (m : Marks) (a : RawAttribute) : Except Fault Marks :=
  match normalize a.value with
  | .error e => .error e
  | .ok cs =>
    let value := String.ofList cs
    if a.name.qualifier = "xmlns" then m.declareQualified a.name.base value
    else if a.name.base = "xmlns" then m.declareDefault value
    else .ok { m with attributes := m.attributes ++ [(a.name, value)] }

end Marks

def attributeSpace (spaces : List (String × String)) (name : QName) :
    Except Fault (Option String) :=
  if name.qualifier = "" then .ok none
  else if name.qualifier = "xml" then .ok (some standardNamespace)
  else
    match spaces.lookup name.qualifier with
    | some uri => .ok (some uri)
    | none => .error .unknownNamespace

/-- Keeps the attributes without namespace, once all of them are known to differ. -/
def plainAttributes (spaces : List (String × String)) :
    List (Option String × String) → List (QName × String) →
      Except Fault (List (String × String))
  | _, [] => .ok []
  | seen, (name, value) :: rest =>
    match attributeSpace spaces name with
    | .error e => .error e
    | .ok uri =>
      if (uri, name.base) ∈ seen then .error .duplicateAttribute
      else
        match plainAttributes spaces ((uri, name.base) :: seen) rest with
        | .error e => .error e
        | .ok kept => .ok (if uri = none then (name.base, value) :: kept else kept)

/-- An element that is not closed yet; its children stand in reverse. -/
structure Frame where
  name : QName
  attributes : List (String × String)
  spaces : List (String × String)
  children : List Element

def Frame.ofTag (outer : List (String × String)) (name : QName) (raw : List RawAttribute) :
    Except Fault Frame :=
  match raw.foldlM Marks.add ⟨[], []⟩ with
  | .error e => .error e
  | .ok marks =>
    let spaces := marks.declared ++ outer
    if name.qualifier = "xmlns" then .error .reservedNamespace
    else if name.qualifier ≠ "" && (spaces.lookup name.qualifier).isNone then
      .error .unknownNamespace
    else
      match plainAttributes spaces [] marks.attributes with
      | .error e => .error e
      | .ok kept => .ok ⟨name, kept, spaces, []⟩

def Frame.element (f : Frame) : Element := .node f.name.base f.attributes f.children.reverse

/-- How far a document is read: its root once that is closed, and the open elements. -/
structure Reading where
  root : Option Element
  frames : List Frame

namespace Reading

def start : Reading := ⟨none, []⟩

def place (r : Reading) (e : Element) : Reading :=
  match r.frames with
  | [] => { r with root := some e }
  | f :: fs => { r with frames := { f with children := e :: f.children } :: fs }

def spaces (r : Reading) : List (String × String) :=
  match r.frames with
  | [] => []
  | f :: _ => f.spaces

def step (r : Reading) : Event → Except Fault Reading
  | .opening name raw closed =>
    if r.frames.isEmpty && r.root.isSome then .error .secondRoot
    else
      match Frame.ofTag r.spaces name raw with
      | .error e => .error e
      | .ok f => .ok (if closed then r.place f.element else { r with frames := f :: r.frames })
  | .closing name =>
    match r.frames with
    | [] => .error .mismatchedTag
    | f :: fs =>
      if f.name = name then .ok (Reading.place { r with frames := fs } f.element)
      else .error .mismatchedTag
  | .text blank => if r.frames.isEmpty && !blank then .error .misplacedText else .ok r
  | .data => if r.frames.isEmpty then .error .misplacedText else .ok r
  | .aside => .ok r

def finish (r : Reading) : Except Fault Element :=
  match r.root, r.frames with
  | some e, [] => .ok e
  | _, _ => .error .unclosed

def run (r : Reading) (cs : List Char) : Except Fault Element :=
  match cs with
  | [] => r.finish
  | c :: cs =>
    match _h : Event.next (c :: cs) with
    | .error e => .error e
    | .ok (event, rest) =>
      match r.step event with
      | .error e => .error e
      | .ok r => r.run rest
termination_by cs.length
decreasing_by exact Event.next_length (by simp) _h

end Reading

def declarationGap (cs : List Char) : Except Fault (List Char) :=
  match cs with
  | [] => .ok []
  | c :: _ =>
    if isSpace c || "?>".toList.isPrefixOf cs then .ok (skipSpaces cs)
    else .error .badDeclaration

def declarationPart (name : String) (cs : List Char) : Except Fault (List Char) :=
  if name.toList.isPrefixOf cs then (attributeAt cs).map (·.2) else .ok cs

/-- The declaration after `<?xml`: a version, then an encoding and a standalone mark or not. -/
def declaration (cs : List Char) : Except Fault (List Char) := do
  let cs ← declarationGap cs
  if !"version".toList.isPrefixOf cs then throw .badDeclaration
  let cs ← declarationPart "version" cs
  let cs ← declarationGap cs
  let encoded := "encoding".toList.isPrefixOf cs
  let cs ← declarationPart "encoding" cs
  let cs ← if encoded then declarationGap cs else pure cs
  let cs ← declarationPart "standalone" cs
  match skipSpaces cs with
  | '?' :: '>' :: rest => pure rest
  | _ => throw .badDeclaration

def dropMark (cs : List Char) : List Char :=
  match cs with
  | c :: rest => if c = Char.ofNat 0xFEFF then rest else cs
  | [] => []

/-- The root element of a document. A declaration stands at the very start or nowhere. -/
def parse (text : String) : Except Fault Element :=
  let cs := dropMark text.toList
  if "<?xml ".toList.isPrefixOf cs then
    match declaration (cs.drop 5) with
    | .error e => .error e
    | .ok rest => Reading.start.run rest
  else Reading.start.run cs

end SpaceAudit.Markup
