import SpaceAudit.Pattern.Escape

/-! Bracketed sets of characters, with ranges, named sets, inner sets and operations on sets. -/
namespace SpaceAudit

inductive SetOp where
  | inter | diff | symmDiff
deriving DecidableEq, Repr

def SetOp.apply : SetOp → CharSet → CharSet → CharSet
  | inter, s, t => .inter s t
  | diff, s, t => .diff s t
  | symmDiff, s, t => .symmDiff s t

namespace BracketSet

/-- A set that is being read: the operation it is the right side of, and its members so far. -/
structure Frame where
  negated : Bool
  pending : Option (SetOp × CharSet)
  members : CharSet
deriving Repr

namespace Frame

def add (f : Frame) (s : CharSet) : Frame := { f with members := .union f.members s }

def folded (caseless : Bool) (s : CharSet) : CharSet := if caseless then .caseless s else s

/-- The set up to here; operations are carried out from left to right. -/
def soFar (f : Frame) (caseless : Bool) : CharSet :=
  match f.pending with
  | none => folded caseless f.members
  | some (op, left) => op.apply left (folded caseless f.members)

def operate (f : Frame) (caseless : Bool) (op : SetOp) : Frame :=
  { f with pending := some (op, f.soFar caseless), members := .none }

/-- Negation comes after case is taken out. -/
def value (f : Frame) (caseless : Bool) : CharSet :=
  if f.negated then .complement (f.soFar caseless) else f.soFar caseless

end Frame

def ranges (rs : List (Char × Char)) : CharSet :=
  rs.foldl (fun s (first, last) => .union s (.range first last)) .none

def named? : String → Option CharSet
  | "alnum" => some (ranges [('0', '9'), ('A', 'Z'), ('a', 'z')])
  | "alpha" => some (ranges [('A', 'Z'), ('a', 'z')])
  | "ascii" => some (ranges [('\x00', '\x7f')])
  | "blank" => some (ranges [('\t', '\t'), (' ', ' ')])
  | "cntrl" => some (ranges [('\x00', '\x1f'), ('\x7f', '\x7f')])
  | "digit" => some (ranges [('0', '9')])
  | "graph" => some (ranges [('!', '~')])
  | "lower" => some (ranges [('a', 'z')])
  | "print" => some (ranges [(' ', '~')])
  | "punct" => some (ranges [('!', '/'), (':', '@'), ('[', '\x60'), ('\x7b', '~')])
  | "space" => some (ranges [('\t', '\r'), (' ', ' ')])
  | "upper" => some (ranges [('A', 'Z')])
  | "word" => some (ranges [('0', '9'), ('A', 'Z'), ('a', 'z'), ('_', '_')])
  | "xdigit" => some (ranges [('0', '9'), ('A', 'F'), ('a', 'f')])
  | _ => none

def readNamed? (cs : List Char) : Option (CharSet × List Char) :=
  let (negated, cs) := match cs with
    | '^' :: rest => (true, rest)
    | _ => (false, cs)
  match named? (String.ofList (cs.takeWhile (· != ':'))), cs.dropWhile (· != ':') with
  | some s, ':' :: ']' :: rest => some (if negated then .complement s else s, rest)
  | _, _ => none

/-- What begins a set: a negation, then hyphens or a closing bracket that are members. -/
def openFrame (cs : List Char) : Frame × List Char :=
  let (negated, cs) := match cs with
    | '^' :: rest => (true, rest)
    | _ => (false, cs)
  let frame : Frame := ⟨negated, none, .none⟩
  match cs with
  | '-' :: _ => (frame.add (.char '-'), cs.dropWhile (· == '-'))
  | ']' :: rest => (frame.add (.char ']'), rest)
  | _ => (frame, cs)

def readMember : List Char → Except PatternFault (Escape × List Char)
  | '\\' :: cs => Escape.read cs
  | c :: cs => .ok (.literal c, cs)
  | [] => .error .bracketSet

def readRange (cs : List Char) : Except PatternFault (CharSet × List Char) :=
  match readMember cs with
  | .error e => .error e
  | .ok (.anchor _, _) => .error .bracketSet
  | .ok (.set s, '-' :: c :: rest) =>
    if c = ']' ∨ c = '-' then .ok (s, '-' :: c :: rest) else .error .bracketSet
  | .ok (.set s, rest) => .ok (s, rest)
  | .ok (.literal first, '-' :: c :: rest) =>
    if c = ']' ∨ c = '-' then .ok (.char first, '-' :: c :: rest)
    else
      match readMember (c :: rest) with
      | .error e => .error e
      | .ok (.literal last, rest) =>
        if first ≤ last then .ok (.range first last, rest) else .error .bracketSet
      | .ok _ => .error .bracketSet
  | .ok (.literal c, rest) => .ok (.char c, rest)

/-- Reads on in the innermost set; `outer` are the sets around it. Every step takes a character
at least. -/
def readFrom (caseless : Bool) :
    Nat → Frame → List Frame → List Char → Except PatternFault (CharSet × List Char)
  | 0, _, _, _ => .error .bracketSet
  | steps + 1, frame, outer, cs =>
    match cs with
    | [] => .error .bracketSet
    | ']' :: rest =>
      match outer with
      | [] => .ok (frame.value caseless, rest)
      | f :: outer => readFrom caseless steps (f.add (frame.value caseless)) outer rest
    | '&' :: '&' :: rest => readFrom caseless steps (frame.operate caseless .inter) outer rest
    | '-' :: '-' :: rest => readFrom caseless steps (frame.operate caseless .diff) outer rest
    | '~' :: '~' :: rest => readFrom caseless steps (frame.operate caseless .symmDiff) outer rest
    | '[' :: rest =>
      match rest with
      | ':' :: more =>
        match readNamed? more with
        | some (s, rest) => readFrom caseless steps (frame.add s) outer rest
        | none =>
          let (inner, rest) := openFrame rest
          readFrom caseless steps inner (frame :: outer) rest
      | _ =>
        let (inner, rest) := openFrame rest
        readFrom caseless steps inner (frame :: outer) rest
    | cs =>
      match readRange cs with
      | .error e => .error e
      | .ok (s, rest) => readFrom caseless steps (frame.add s) outer rest

def read (caseless : Bool) (cs : List Char) : Except PatternFault (CharSet × List Char) :=
  let (frame, rest) := openFrame cs
  readFrom caseless (cs.length + 1) frame [] rest

end BracketSet

end SpaceAudit
