import SpaceAudit.Pattern.BracketSet

/-! Patterns as they are written. -/
namespace SpaceAudit.Pattern

structure Flags where
  caseless : Bool
  multiline : Bool
  dotAll : Bool
  spaced : Bool
deriving DecidableEq, Repr

def Flags.standard : Flags := ⟨false, false, false, false⟩

/-- A group that is being read: the flags outside it, the branches it has, and the items of the
branch at hand. The last item stays apart, since a repetition may follow it. -/
structure Frame where
  outer : Flags
  branches : Option Pattern
  items : Pattern
  last : Option Pattern
deriving Repr

namespace Frame

def start (outer : Flags) : Frame := ⟨outer, none, .empty, none⟩

def settled (f : Frame) : Frame :=
  match f.last with
  | none => f
  | some p => { f with items := .seq f.items p, last := none }

def push (f : Frame) (p : Pattern) : Frame := { f.settled with last := some p }

def value (f : Frame) : Pattern :=
  match f.branches with
  | none => f.settled.items
  | some p => .alt p f.settled.items

def branch (f : Frame) : Frame := ⟨f.outer, some f.value, .empty, none⟩

end Frame

structure Reading where
  flags : Flags
  frame : Frame
  around : List Frame
  names : List String
deriving Repr

namespace Reading

def start : Reading := ⟨.standard, .start .standard, [], []⟩

def push (r : Reading) (p : Pattern) : Reading := { r with frame := r.frame.push p }

def pushSet (r : Reading) (s : CharSet) : Reading := r.push (.single s)

def pushLiteral (r : Reading) (c : Char) : Reading :=
  r.pushSet (if r.flags.caseless then .caseless (.char c) else .char c)

def pushDot (r : Reading) : Reading :=
  r.pushSet (.complement (if r.flags.dotAll then .none else .char '\n'))

def branch (r : Reading) : Reading := { r with frame := r.frame.branch }

def openGroup (r : Reading) (inner : Flags) : Reading :=
  { r with flags := inner, frame := .start r.flags, around := r.frame :: r.around }

def closeGroup (r : Reading) : Except PatternFault Reading :=
  match r.around with
  | [] => .error .group
  | frame :: around =>
    .ok { r with flags := r.frame.outer, frame := frame.push r.frame.value, around }

/-- Flags hold for the rest of the group, and are nothing that could be repeated. -/
def setFlags (r : Reading) (flags : Flags) : Reading := { r with flags, frame := r.frame.settled }

def repeated (r : Reading) (f : Pattern → Pattern) : Except PatternFault Reading :=
  match r.frame.last with
  | none => .error .repetition
  | some p => .ok { r with frame := { r.frame with last := some (f p) } }

end Reading

/-- Drops the mark that makes a repetition prefer less. It does not change what matches. -/
def dropLazy : List Char → List Char
  | '?' :: cs => cs
  | cs => cs

def readCount (cs : List Char) : Except PatternFault (Option Nat × List Char) :=
  let cs := cs.dropWhile Text.isBlank
  let digits := cs.takeWhile Char.isDigit
  let rest := (cs.dropWhile Char.isDigit).dropWhile Text.isBlank
  match digits with
  | [] => .ok (none, rest)
  | _ =>
    let n := digits.foldl (fun n d => 10 * n + (d.toNat - '0'.toNat)) 0
    if n < 4294967296 then .ok (some n, rest) else .error .repetition

def counted (least : Nat) : Option Nat → Pattern → Pattern
  | none, p => .seq (.exactly p least) (.star p)
  | some most, p => .seq (.exactly p least) (.atMost p (most - least))

def readCounts (cs : List Char) : Except PatternFault ((Pattern → Pattern) × List Char) :=
  match readCount cs with
  | .error e => .error e
  | .ok (none, _) => .error .repetition
  | .ok (some least, '\x7d' :: rest) => .ok (counted least (some least), rest)
  | .ok (some least, ',' :: rest) =>
    match readCount rest with
    | .error e => .error e
    | .ok (none, '\x7d' :: rest) => .ok (counted least none, rest)
    | .ok (some most, '\x7d' :: rest) =>
      if least ≤ most then .ok (counted least (some most), rest) else .error .repetition
    | .ok _ => .error .repetition
  | .ok _ => .error .repetition

def Flags.set (f : Flags) (on : Bool) : Char → Except PatternFault Flags
  | 'i' => .ok { f with caseless := on }
  | 'm' => .ok { f with multiline := on }
  | 's' => .ok { f with dotAll := on }
  | 'x' => .ok { f with spaced := on }
  | 'U' => .ok f
  | 'u' => if on then .ok f else .error .group
  | _ => .error .group

/-- Flags up to the colon or bracket that ends them; `seen` are the letters already read and `on`
says whether they are set or, after a minus, unset. -/
def readFlags (f : Flags) (on : Bool) (seen : List Char) :
    List Char → Except PatternFault (Flags × Char × List Char)
  | [] => .error .group
  | ':' :: rest => if seen.head? = some '-' then .error .group else .ok (f, ':', rest)
  | ')' :: rest =>
    if seen.isEmpty || seen.head? = some '-' then .error .group else .ok (f, ')', rest)
  | c :: rest =>
    if seen.contains c then .error .group
    else if c = '-' then readFlags f false (c :: seen) rest
    else
      match f.set on c with
      | .error e => .error e
      | .ok f => readFlags f on (c :: seen) rest

def isName (name : List Char) : Bool :=
  match name with
  | [] => false
  | c :: cs =>
    (Text.isWordPart c && !Text.isDecimalDigit c) &&
      cs.all fun c => Text.isWordPart c || c == '.' || c == '[' || c == ']'

def readName (r : Reading) (cs : List Char) : Except PatternFault (Reading × List Char) :=
  let name := cs.takeWhile (· != '>')
  match cs.dropWhile (· != '>') with
  | [] => .error .group
  | _ :: rest =>
    if isName name && !r.names.contains (String.ofList name) then
      .ok ({ r with names := String.ofList name :: r.names }.openGroup r.flags, rest)
    else .error .group

/-- A group, read after its opening bracket. There is no looking around. -/
def readGroup (r : Reading) : List Char → Except PatternFault (Reading × List Char)
  | '?' :: 'P' :: '<' :: cs => readName r cs
  | '?' :: '<' :: cs =>
    if cs.head? = some '=' ∨ cs.head? = some '!' then .error .group else readName r cs
  | '?' :: cs =>
    match readFlags r.flags true [] cs with
    | .error e => .error e
    | .ok (flags, ':', rest) => .ok (r.openGroup flags, rest)
    | .ok (flags, _, rest) => .ok (r.setFlags flags, rest)
  | cs => .ok (r.openGroup r.flags, cs)

def readEscape (r : Reading) (cs : List Char) : Except PatternFault (Reading × List Char) :=
  match Escape.read cs with
  | .error e => .error e
  | .ok (.literal c, rest) => .ok (r.pushLiteral c, rest)
  | .ok (.set s, rest) => .ok (r.pushSet s, rest)
  | .ok (.anchor a, rest) => .ok (r.push (.anchor a), rest)

def readRepetition (r : Reading) (f : Pattern → Pattern) (rest : List Char) :
    Except PatternFault (Reading × List Char) :=
  match r.repeated f with
  | .error e => .error e
  | .ok r => .ok (r, dropLazy rest)

def readItem (r : Reading) (c : Char) (cs : List Char) : Except PatternFault (Reading × List Char) :=
  if r.flags.spaced && Text.isBlank c then .ok (r, cs)
  else
    match c with
    | '\\' => readEscape r cs
    | '(' => readGroup r cs
    | ')' =>
      match r.closeGroup with
      | .error e => .error e
      | .ok r => .ok (r, cs)
    | '|' => .ok (r.branch, cs)
    | '[' =>
      match BracketSet.read r.flags.caseless cs with
      | .error e => .error e
      | .ok (s, rest) => .ok (r.pushSet s, rest)
    | '.' => .ok (r.pushDot, cs)
    | '^' => .ok (r.push (.anchor (if r.flags.multiline then .lineStart else .textStart)), cs)
    | '$' => .ok (r.push (.anchor (if r.flags.multiline then .lineEnd else .textEnd)), cs)
    | '*' => readRepetition r .star cs
    | '+' => readRepetition r (counted 1 none) cs
    | '?' => readRepetition r (counted 0 (some 1)) cs
    | '\x7b' =>
      match readCounts cs with
      | .error e => .error e
      | .ok (f, rest) => readRepetition r f rest
    | '#' =>
      if r.flags.spaced then .ok (r, cs.dropWhile (· != '\n')) else .ok (r.pushLiteral c, cs)
    | c => .ok (r.pushLiteral c, cs)

/-- Every step takes a character at least. -/
def readFrom : Nat → Reading → List Char → Except PatternFault Pattern
  | _, r, [] => if r.around.isEmpty then .ok r.frame.value else .error .group
  | 0, _, _ => .error .group
  | steps + 1, r, c :: cs =>
    match readItem r c cs with
    | .error e => .error e
    | .ok (r, rest) => readFrom steps r rest

def ofText (text : String) : Except PatternFault Pattern :=
  readFrom text.length .start text.toList

end SpaceAudit.Pattern
