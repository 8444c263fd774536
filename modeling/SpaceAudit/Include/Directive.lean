import SpaceAudit.Path.Basic

/-! Preprocessor directives arrive as text, and the files they include are read off their pieces.
A header without directives shows its includes in its raw tokens. -/
namespace SpaceAudit

inductive Piece where
  | hash
  | word (text : String)
  | quoted (text : String)
  | angled (text : String)
deriving DecidableEq, Repr

namespace Piece

def isWordStart (c : Char) : Bool := c.isAlpha || c == '_'
def isWordChar (c : Char) : Bool := c.isAlphanum || c == '_'

def upTo (close : Char) (cs : List Char) : Option (List Char × List Char) :=
  match cs.dropWhile (· != close) with
  | [] => none
  | _ :: rest => some (cs.takeWhile (· != close), rest)

theorem upTo_length {close : Char} {cs name rest : List Char}
    (h : upTo close cs = some (name, rest)) : rest.length < cs.length := by
  unfold upTo at h
  split at h
  · simp at h
  · rename_i d ds hd
    have hle := (List.dropWhile_sublist (l := cs) (p := (· != close))).length_le
    simp only [Option.some.injEq, Prod.mk.injEq] at h
    rw [hd, List.length_cons, h.2] at hle
    exact hle

/-- The pieces of a directive. Words are as long as they can be. Blanks and characters that start
no piece are dropped; a quote or an angle that is never closed takes the rest of the text away. -/
def lex : List Char → List Piece
  | [] => []
  | c :: cs =>
    if c = '#' then hash :: lex cs
    else if isWordStart c then
      word (String.ofList (c :: cs.takeWhile isWordChar)) :: lex (cs.dropWhile isWordChar)
    else if c = '"' then
      match _h : upTo '"' cs with
      | none => []
      | some (name, rest) => quoted (String.ofList name) :: lex rest
    else if c = '<' then
      match _h : upTo '>' cs with
      | none => []
      | some (name, rest) => angled (String.ofList name) :: lex rest
    else lex cs
termination_by cs => cs.length
decreasing_by
  · simp
  · exact Nat.lt_succ_of_le (List.dropWhile_sublist _).length_le
  · exact Nat.lt_succ_of_lt (upTo_length ‹_›)
  · exact Nat.lt_succ_of_lt (upTo_length ‹_›)
  · simp

end Piece

structure Include where
  name : String
  quoted : Bool
deriving DecidableEq, Repr

namespace Include

def fileName (i : Include) : String :=
  String.ofList ((i.name.toList.splitOn '/').getLastD [])

def ofPieces? : List Piece → Option Include
  | .hash :: .word w :: target :: _ =>
    if w = "include" then
      match target with
      | .quoted name => some ⟨name, true⟩
      | .angled name => some ⟨name, false⟩
      | _ => none
    else none
  | _ => none

def ofDirective? (text : String) : Option Include := ofPieces? (Piece.lex text.toList)

def unquote? (text : String) : Option String :=
  match text.toList with
  | '"' :: rest => if rest.getLast? = some '"' then some (String.ofList rest.dropLast) else none
  | _ => none

def ofRaw : List String → List Include
  | a :: b :: c :: rest =>
    let found := if a = "#" ∧ b = "include" then (unquote? c).map (⟨·, true⟩) else none
    found.toList ++ ofRaw (b :: c :: rest)
  | _ => []

end Include

structure Directive where
  file : Path
  line : Nat
  text : String
deriving DecidableEq, Repr

def Directive.include? (d : Directive) : Option Include := Include.ofDirective? d.text

end SpaceAudit
