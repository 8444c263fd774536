/-! A token stream is cut into statements at its boundary tokens. The index keeps the positions of
the boundaries and answers which statement a position belongs to. -/
namespace SpaceAudit

/-- A half-open range of positions. -/
structure Span where
  start : Nat
  stop : Nat
deriving DecidableEq, Repr

namespace Span

def length (s : Span) : Nat := s.stop - s.start
def isEmpty (s : Span) : Bool := s.start == s.stop
def contains (s : Span) (i : Nat) : Bool := s.start ≤ i && i < s.stop
def positions (s : Span) : List Nat := List.range' s.start s.length

end Span

def isBoundary (text : String) : Bool := text == "\x7b" || text == "\x7d" || text == ";"

structure Statements where
  boundaries : List Nat
  length : Nat
deriving DecidableEq, Repr

namespace Statements

def boundariesFrom (i : Nat) : List String → List Nat
  | [] => []
  | t :: ts => if isBoundary t then i :: boundariesFrom (i + 1) ts else boundariesFrom (i + 1) ts

def ofTexts (texts : List String) : Statements := ⟨boundariesFrom 0 texts, texts.length⟩

def startBefore (s : Statements) (i : Nat) : Nat :=
  match (s.boundaries.takeWhile (· < i)).getLast? with
  | none => 0
  | some b => b + 1

def stopFrom (s : Statements) (i : Nat) : Nat :=
  match s.boundaries.dropWhile (· < i) with
  | [] => s.length
  | b :: _ => b

def prefixOf (s : Statements) (i : Nat) : Span := ⟨s.startBefore i, i⟩

/-- The statement that holds `i`. A boundary belongs to the statement it ends. -/
def containing (s : Statements) (i : Nat) : Span := ⟨s.startBefore i, s.stopFrom i⟩

def spansFrom (length start : Nat) : List Nat → List Span
  | [] => if start == length then [] else [⟨start, length⟩]
  | b :: bs =>
    if start == b then spansFrom length (b + 1) bs
    else ⟨start, b⟩ :: spansFrom length (b + 1) bs

def spans (s : Statements) : List Span := spansFrom s.length 0 s.boundaries

end Statements

end SpaceAudit
