import SpaceAudit.Pattern.Escape
import SpaceAudit.Toml.Value

/-! Quoted text in a settings file, on one line or on several. -/
namespace SpaceAudit.Toml

def isPlain (c : Char) : Bool := c == '\t' || (' ' ≤ c && c != '\x7f')

def isSpace (c : Char) : Bool := c == ' ' || c == '\t'

def newline? : List Char → Option (List Char)
  | '\n' :: cs => some cs
  | '\r' :: '\n' :: cs => some cs
  | _ => none

def dropLines : List Char → List Char
  | '\n' :: cs => dropLines cs
  | '\r' :: '\n' :: cs => dropLines cs
  | ' ' :: cs => dropLines cs
  | '\t' :: cs => dropLines cs
  | cs => cs

def codePoint (width : Nat) (cs : List Char) : Except Fault (Char × List Char) :=
  if cs.length < width then .error .malformed
  else
    match Escape.hexChar? (cs.take width) with
    | some c => .ok (c, cs.drop width)
    | none => .error .malformed

def escape : List Char → Except Fault (Char × List Char)
  | 'b' :: cs => .ok ('\x08', cs)
  | 't' :: cs => .ok ('\t', cs)
  | 'n' :: cs => .ok ('\n', cs)
  | 'f' :: cs => .ok ('\x0c', cs)
  | 'r' :: cs => .ok ('\r', cs)
  | '"' :: cs => .ok ('"', cs)
  | '\\' :: cs => .ok ('\\', cs)
  | 'u' :: cs => codePoint 4 cs
  | 'U' :: cs => codePoint 8 cs
  | _ => .error .malformed

structure Quotation where
  mark : Char
  escapes : Bool
  lines : Bool

/-- The rest after a backslash that ends a line, with all blanks before the next text. -/
def joinedLine? (cs : List Char) : Option (List Char) :=
  (newline? (cs.dropWhile isSpace)).map dropLines

/-- The text up to the closing marks; `done` is what was read, last character first. Over several
lines three marks close, and up to two more before them belong to the text. Every step takes a
character at least. -/
def quotedFrom (q : Quotation) : Nat → List Char → List Char → Except Fault (String × List Char)
  | 0, _, _ => .error .malformed
  | _, _, [] => .error .malformed
  | steps + 1, done, c :: cs =>
    if c = q.mark then
      if q.lines then
        let run := ((c :: cs).takeWhile (· == q.mark)).take 5
        if run.length < 3 then quotedFrom q steps (c :: done) cs
        else .ok (String.ofList (done.reverse ++ run.drop 3), (c :: cs).drop run.length)
      else .ok (String.ofList done.reverse, cs)
    else if c = '\\' ∧ q.escapes then
      match if q.lines then joinedLine? cs else none with
      | some rest => quotedFrom q steps done rest
      | none =>
        match escape cs with
        | .error e => .error e
        | .ok (d, rest) => quotedFrom q steps (d :: done) rest
    else
      match if q.lines then newline? (c :: cs) else none with
      | some rest => quotedFrom q steps ('\n' :: done) rest
      | none => if isPlain c then quotedFrom q steps (c :: done) cs else .error .malformed

def lineText (mark : Char) (cs : List Char) : Except Fault (String × List Char) :=
  quotedFrom ⟨mark, mark == '"', false⟩ (cs.length + 1) [] cs

/-- A text over several lines, read after its three opening marks. A line end right after them
does not count. -/
def linesText (mark : Char) (cs : List Char) : Except Fault (String × List Char) :=
  let cs := (newline? cs).getD cs
  quotedFrom ⟨mark, mark == '"', true⟩ (cs.length + 1) [] cs

def quoted (mark : Char) (cs : List Char) : Except Fault (String × List Char) :=
  match cs with
  | a :: b :: rest => if a = mark ∧ b = mark then linesText mark rest else lineText mark cs
  | _ => lineText mark cs

end SpaceAudit.Toml
