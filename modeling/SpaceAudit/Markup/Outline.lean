import SpaceAudit.Markup.Element

/-! Documents written with one tag a line, each level indented by two spaces. -/
namespace SpaceAudit.Markup

def escapeChar : Char → List Char
  | '&' => "&amp;".toList
  | '<' => "&lt;".toList
  | '>' => "&gt;".toList
  | '"' => "&quot;".toList
  | c => [c]

def escape (s : String) : String := String.ofList (s.toList.flatMap escapeChar)

/-- A leaf is one tag that closes itself; a block has an opening and a closing line. -/
inductive Outline where
  | leaf (name : String) (attributes : List (String × String))
  | block (name : String) (attributes : List (String × String)) (children : List Outline)

namespace Outline

def writeAttributes (as : List (String × String)) : String :=
  String.join (as.map fun (key, value) => " " ++ key ++ "=\"" ++ escape value ++ "\"")

def indent (depth : Nat) : String := String.ofList (List.replicate (2 * depth) ' ')

mutual

def write (depth : Nat) : Outline → String
  | leaf name as => indent depth ++ "<" ++ name ++ writeAttributes as ++ "/>\n"
  | block name as children =>
    indent depth ++ "<" ++ name ++ writeAttributes as ++ ">\n" ++ writeAll (depth + 1) children ++
      indent depth ++ "</" ++ name ++ ">\n"

def writeAll (depth : Nat) : List Outline → String
  | [] => ""
  | o :: os => write depth o ++ writeAll depth os

end

mutual

def element : Outline → Element
  | leaf name as => .node name as []
  | block name as children => .node name as (elements children)

def elements : List Outline → List Element
  | [] => []
  | o :: os => element o :: elements os

end

def document (root : Outline) : String := "<?xml version=\"1.0\"?>\n" ++ root.write 0

end Outline

end SpaceAudit.Markup
