import SpaceAudit.Text.Blank
import SpaceAudit.Text.Case
import SpaceAudit.Text.Word

/-! Patterns over text, and whether one matches somewhere in a text. -/
namespace SpaceAudit

inductive CharSet where
  | none
  | char (c : Char)
  | range (first last : Char)
  | word | digit | blank
  | complement (s : CharSet)
  | union (s t : CharSet)
  | inter (s t : CharSet)
  | diff (s t : CharSet)
  | symmDiff (s t : CharSet)
  | caseless (s : CharSet)
deriving DecidableEq, Repr

namespace CharSet

def contains : CharSet → Char → Bool
  | none, _ => false
  | char d, c => c == d
  | range first last, c => first ≤ c && c ≤ last
  | word, c => Text.isWordPart c
  | digit, c => Text.isDecimalDigit c
  | blank, c => Text.isBlank c
  | complement s, c => !s.contains c
  | union s t, c => s.contains c || t.contains c
  | inter s t, c => s.contains c && t.contains c
  | diff s t, c => s.contains c && !t.contains c
  | symmDiff s t, c => s.contains c != t.contains c
  | caseless s, c => (Text.caseMates c).any s.contains

end CharSet

/-- A condition on a place between characters. -/
inductive Anchor where
  | textStart | textEnd | lineStart | lineEnd
  | wordEdge | noWordEdge | wordStart | wordEnd | noWordBefore | noWordAfter
deriving DecidableEq, Repr

namespace Anchor

def holds : Anchor → Option Char → Option Char → Bool
  | textStart, before, _ => before.isNone
  | textEnd, _, after => after.isNone
  | lineStart, before, _ => before.all (· == '\n')
  | lineEnd, _, after => after.all (· == '\n')
  | wordEdge, before, after => before.any Text.isWordPart != after.any Text.isWordPart
  | noWordEdge, before, after => before.any Text.isWordPart == after.any Text.isWordPart
  | wordStart, before, after => !before.any Text.isWordPart && after.any Text.isWordPart
  | wordEnd, before, after => before.any Text.isWordPart && !after.any Text.isWordPart
  | noWordBefore, before, _ => !before.any Text.isWordPart
  | noWordAfter, _, after => !after.any Text.isWordPart

end Anchor

inductive Pattern where
  | empty
  | single (s : CharSet)
  | anchor (a : Anchor)
  | seq (p q : Pattern)
  | alt (p q : Pattern)
  | exactly (p : Pattern) (times : Nat)
  | atMost (p : Pattern) (times : Nat)
  | star (p : Pattern)
deriving DecidableEq, Repr

/-- A set of places in a text: a mark for each, from the start of the text to its end. -/
abbrev Places := List Bool

namespace Places

def union (a b : Places) : Places := List.zipWith (· || ·) a b

/-- Moves every marked place over the character after it, if that is in the set. -/
def advance (s : CharSet) : Places → List Char → Places
  | mark :: marks, c :: cs => (mark && s.contains c) :: advance s marks cs
  | _, _ => []

def keep (a : Anchor) (before : Option Char) : Places → List Char → Places
  | mark :: marks, [] => (mark && a.holds before none) :: marks
  | mark :: marks, c :: cs => (mark && a.holds before (some c)) :: keep a (some c) marks cs
  | [], _ => []

/-- Joins a set with its images under `f` until nothing new comes, at most `steps` times. -/
def close (f : Places → Places) : Nat → Places → Places
  | 0, marks => marks
  | steps + 1, marks =>
    let more := marks.union (f marks)
    if more = marks then marks else close f steps more

end Places

namespace Pattern

/-- The places where a match can end that begins at one of the marked places. -/
def ends (text : List Char) : Pattern → Places → Places
  | empty, marks => marks
  | single s, marks => false :: Places.advance s marks text
  | anchor a, marks => Places.keep a none marks text
  | seq p q, marks => q.ends text (p.ends text marks)
  | alt p q, marks => (p.ends text marks).union (q.ends text marks)
  | exactly p n, marks => Nat.repeat (p.ends text) n marks
  | atMost p n, marks => Nat.repeat (fun ms => ms.union (p.ends text ms)) n marks
  | star p, marks => Places.close (p.ends text) (text.length + 1) marks

def matchesIn (p : Pattern) (text : String) : Bool :=
  (p.ends text.toList (List.replicate (text.length + 1) true)).any id

end Pattern

end SpaceAudit
