/-! Elements of a markup document: a local name, the attributes without a namespace, and the child
elements. Character data is not kept. -/
namespace SpaceAudit.Markup

inductive Element where
  | node (name : String) (attributes : List (String × String)) (children : List Element)
deriving Repr

namespace Element

def name : Element → String
  | node n _ _ => n

def attributes : Element → List (String × String)
  | node _ as _ => as

def children : Element → List Element
  | node _ _ es => es

def attribute? (e : Element) (key : String) : Option String := e.attributes.lookup key

def attributeD (e : Element) (key : String) : String := (e.attribute? key).getD ""

def childrenNamed (e : Element) (name : String) : List Element :=
  e.children.filter (·.name == name)

def child? (e : Element) (name : String) : Option Element :=
  e.children.find? (·.name == name)

def flag (e : Element) (key : String) : Bool := e.attribute? key == some "true"

def digits? (cs : List Char) : Option Nat :=
  if cs.isEmpty || !cs.all Char.isDigit then none
  else some (cs.foldl (fun n c => 10 * n + (c.toNat - 48)) 0)

/-- A decimal number below `2 ^ 32`, with at most one plus sign before it. -/
def number? (text : String) : Option Nat :=
  let value := match text.toList with
    | '+' :: cs => digits? cs
    | cs => digits? cs
  value.filter (· < UInt32.size)

def number (e : Element) (key : String) : Nat := ((e.attribute? key).bind number?).getD 0

end Element

end SpaceAudit.Markup
