import SpaceAudit.Finding.Basic
import SpaceAudit.Text.Blank

/-! A finding with the source line it speaks of and a mark under the word it stands at. -/
namespace SpaceAudit.Excerpt

/-- A place that lies inside a character cannot be shown. -/
inductive Fault where
  | insideCharacter
deriving DecidableEq, Repr

def byteLength : List Char → Nat
  | [] => 0
  | c :: cs => c.utf8Size + byteLength cs

/-- The lines of a text, each with the newline that ends it. -/
def newlineLines : List Char → List (List Char)
  | [] => []
  | c :: cs =>
    if c = '\n' then [c] :: newlineLines cs
    else
      match newlineLines cs with
      | [] => [[c]]
      | line :: lines => (c :: line) :: lines

/-- The byte at which a line and column lie, where the column stops at the end of its line. -/
def offset? (source : List Char) (line column : Nat) : Option Nat :=
  match line with
  | 0 => none
  | before + 1 =>
    match (newlineLines source)[before]? with
    | none => none
    | some text =>
      let width := byteLength (text.filter (· != '\n'))
      some (byteLength ((newlineLines source).take before).flatten + min (max column 1 - 1) width)

/-- What follows so many bytes, unless they end inside a character. -/
def dropBytes : Nat → List Char → Except Fault (List Char)
  | 0, cs => .ok cs
  | _, [] => .error .insideCharacter
  | n, c :: cs => if c.utf8Size ≤ n then dropBytes (n - c.utf8Size) cs else .error .insideCharacter

/-- The byte at which the word ends that begins a text at `start`; a blank is a word of its own. -/
def wordEnd (start : Nat) (rest : List Char) : Nat :=
  let word := rest.takeWhile fun c => !Text.isBlank c
  if word.length = rest.length then start + byteLength rest else start + max (byteLength word) 1

def isLineEnd (c : Char) : Bool :=
  ['\n', '\x0b', '\x0c', '\r', '\u0085', '\u2028', '\u2029'].contains c

def shownLines : List Char → List (List Char)
  | [] => []
  | '\r' :: '\n' :: cs => ['\r', '\n'] :: shownLines cs
  | c :: cs =>
    if isLineEnd c then [c] :: shownLines cs
    else
      match shownLines cs with
      | [] => [[c]]
      | line :: lines => (c :: line) :: lines

/-- A place in a text: the number of its line from 0, the line, and the characters before it. -/
structure Place where
  index : Nat
  line : List Char
  column : Nat
deriving Repr

/-- The place of a character, of which the end of the text is one. -/
def place? (index : Nat) (offset : Nat) : List (List Char) → Option Place
  | [] => none
  | [line] => if offset ≤ line.length then some ⟨index, line, offset⟩ else none
  | line :: lines =>
    if offset < line.length then some ⟨index, line, offset⟩
    else place? (index + 1) (offset - line.length) lines

/-- How wide a character at a column is shown: tabs go on to the next multiple of 4. -/
def widthAt (column : Nat) (c : Char) : Nat := if c = '\t' then 4 - column % 4 else 1

def shownChar (column : Nat) (c : Char) : List Char :=
  if Text.isBlank c then List.replicate (widthAt column c) ' ' else [c]

def shownText (line : List Char) : String :=
  String.ofList (line.zipIdx.flatMap fun (c, column) => shownChar column c)

def times (n : Nat) (c : Char) : String := String.ofList (List.replicate n c)

def widthFrom (column : Nat) : List Char → Nat
  | [] => 0
  | c :: cs => widthAt column c + widthFrom (column + 1) cs

/-- The width of what is shown before a column; beyond the end of the line all is blank. -/
def widthBefore (line : List Char) (column : Nat) : Nat :=
  widthFrom 0 (line.take column) + (column - line.length)

def marked (pad : String) (p : Place) (width : Nat) (label : String) : String :=
  let line := Text.trimEnd p.line
  let before := times (widthBefore line p.column) ' '
  let middle := width / 2
  " " ++ toString (p.index + 1) ++ " │ " ++ shownText line ++ "\n" ++
    pad ++ "│ " ++ before ++ times middle '─' ++ "┬" ++ times (width - middle - 1) '─' ++ "  \n" ++
    pad ++ "│ " ++ before ++ times middle ' ' ++ "╰" ++ times (width - middle + 1) '─' ++ " " ++
    label ++ "\n"

def headline (f : Finding) : String :=
  "[" ++ f.check.code ++ "] " ++ (if Severity.error ≤ f.severity then "Error" else "Warning") ++ ": " ++
    f.message ++ "\n"

/-- The excerpt around a place; a mark that leaves its line is not drawn. -/
def body (f : Finding) (p : Place) (width : Nat) : String :=
  let digits := (toString (p.index + 1)).length
  let pad := times (digits + 2) ' '
  pad ++ "╭─[" ++ f.file.text ++ ":" ++ toString (p.index + 1) ++ ":" ++ toString (p.column + 1) ++
    "]\n" ++ pad ++ "│\n" ++
    (if p.column + width ≤ p.line.length then marked pad p width f.severity.text
      else pad ++ "│ \n") ++
    (match f.hint with
      | none => ""
      | some hint => pad ++ "│ \n" ++ pad ++ "│ Help: " ++ hint ++ "\n") ++
    times (digits + 2) '─' ++ "╯\n"

/-- A finding with its source line; none when the source has no such line. The bytes of the place
are taken for characters, so wide characters before it push the mark to the right, and out of the
source altogether if there are enough of them. -/
def render (f : Finding) (source : String) : Except Fault (Option String) :=
  let chars := source.toList
  match offset? chars f.line f.column with
  | none => .ok none
  | some start =>
    match dropBytes start chars with
    | .error e => .error e
    | .ok rest =>
      let width := max (wordEnd start rest - start) 1
      match place? 0 start (shownLines chars) with
      | none => .ok (some (headline f))
      | some p =>
        if start + width ≤ chars.length + 1 then .ok (some (headline f ++ body f p width))
        else .ok (some (headline f))

end SpaceAudit.Excerpt
