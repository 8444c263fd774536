import SpaceAudit.Pattern.Basic

/-! What a backslash and the characters after it stand for in a pattern. -/
namespace SpaceAudit

inductive PatternFault where
  | escape
  | bracketSet
  | group
  | repetition
deriving DecidableEq, Repr

inductive Escape where
  | literal (c : Char)
  | set (s : CharSet)
  | anchor (a : Anchor)
deriving DecidableEq, Repr

namespace Escape

def hexValue? (c : Char) : Option Nat :=
  if '0' ≤ c && c ≤ '9' then some (c.toNat - '0'.toNat)
  else if 'a' ≤ c && c ≤ 'f' then some (c.toNat - 'a'.toNat + 10)
  else if 'A' ≤ c && c ≤ 'F' then some (c.toNat - 'A'.toNat + 10)
  else none

def hexNumber? (cs : List Char) : Option Nat :=
  cs.foldl (fun n c => n.bind fun n => (hexValue? c).map fun v => 16 * n + v) (some 0)

def hexChar? (digits : List Char) : Option Char :=
  match digits with
  | [] => none
  | _ =>
    match hexNumber? digits with
    | none => none
    | some n => if n.isValidChar then some (Char.ofNat n) else none

/-- A code of `width` digits, or of any number in braces. -/
def hex (width : Nat) : List Char → Except PatternFault (Escape × List Char)
  | '\x7b' :: cs =>
    match hexChar? (cs.takeWhile (· != '\x7d')), cs.dropWhile (· != '\x7d') with
    | some c, _ :: rest => .ok (literal c, rest)
    | _, _ => .error .escape
  | cs =>
    if cs.length < width then .error .escape
    else
      match hexChar? (cs.take width) with
      | some c => .ok (literal c, cs.drop width)
      | none => .error .escape

/-- ASCII characters other than letters and digits stand for themselves. -/
def standsForItself (c : Char) : Bool := c.toNat < 128 && !c.isAlphanum

def isEdgeName (c : Char) : Bool := c.isAlpha || c == '-'

def edge? : String → Option Anchor
  | "start" => some .wordStart
  | "end" => some .wordEnd
  | "start-half" => some .noWordBefore
  | "end-half" => some .noWordAfter
  | _ => none

/-- An edge of a word, which may be named in braces. Braces that hold no letters are left for a
repetition. -/
def wordEdge : List Char → Except PatternFault (Escape × List Char)
  | '\x7b' :: c :: cs =>
    if isEdgeName c then
      match edge? (String.ofList (c :: cs.takeWhile isEdgeName)), cs.dropWhile isEdgeName with
      | some a, '\x7d' :: rest => .ok (anchor a, rest)
      | _, _ => .error .escape
    else .ok (anchor .wordEdge, '\x7b' :: c :: cs)
  | cs => .ok (anchor .wordEdge, cs)

def read : List Char → Except PatternFault (Escape × List Char)
  | [] => .error .escape
  | 'd' :: cs => .ok (set .digit, cs)
  | 'D' :: cs => .ok (set (.complement .digit), cs)
  | 's' :: cs => .ok (set .blank, cs)
  | 'S' :: cs => .ok (set (.complement .blank), cs)
  | 'w' :: cs => .ok (set .word, cs)
  | 'W' :: cs => .ok (set (.complement .word), cs)
  | 'x' :: cs => hex 2 cs
  | 'u' :: cs => hex 4 cs
  | 'U' :: cs => hex 8 cs
  | 'a' :: cs => .ok (literal '\x07', cs)
  | 'f' :: cs => .ok (literal '\x0c', cs)
  | 't' :: cs => .ok (literal '\t', cs)
  | 'n' :: cs => .ok (literal '\n', cs)
  | 'r' :: cs => .ok (literal '\r', cs)
  | 'v' :: cs => .ok (literal '\x0b', cs)
  | 'A' :: cs => .ok (anchor .textStart, cs)
  | 'z' :: cs => .ok (anchor .textEnd, cs)
  | 'b' :: cs => wordEdge cs
  | 'B' :: cs => .ok (anchor .noWordEdge, cs)
  | '<' :: cs => .ok (anchor .wordStart, cs)
  | '>' :: cs => .ok (anchor .wordEnd, cs)
  | c :: cs => if standsForItself c then .ok (literal c, cs) else .error .escape

end Escape

end SpaceAudit
