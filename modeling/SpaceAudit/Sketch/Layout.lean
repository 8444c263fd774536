import SpaceAudit.Sketch.Basic

/-! The lines of a sketch laid out as tokens. What follows the first `@` of a word is a list of
notes: which variable or function the word names, and where bodies, types and definitions lie. -/
namespace SpaceAudit.Sketch

inductive Note where
  | plain (key : String)
  | names (key : String)
  | declares (key : String)
  | spells (key : String)
  | typeStart (key : String)
  | typeEnd (key : String)
  | calls (key : String)
  | defines (key : String)
  | valueType (key : String)
deriving DecidableEq, Repr

def Note.ofPair? (kind key : String) : Option Note :=
  match kind with
  | "" => some (.plain key)
  | "v" => some (.names key)
  | "decl" => some (.declares key)
  | "ty" => some (.spells key)
  | "ts" => some (.typeStart key)
  | "te" => some (.typeEnd key)
  | "f" => some (.calls key)
  | "def" => some (.defines key)
  | "vt" => some (.valueType key)
  | _ => none

/-- `kind=key`, or a key alone. -/
def Note.ofItem? (item : List Char) : Option Note :=
  match item.dropWhile (· != '=') with
  | [] => ofPair? "" (String.ofList item)
  | _ :: key => ofPair? (String.ofList (item.takeWhile (· != '='))) (String.ofList key)

def notesOf (items : List Char) : List Note :=
  ((items.splitOn ',').filter fun i => !i.isEmpty).filterMap Note.ofItem?

/-- A word's own text, and its notes. A word that starts with `@` has none. -/
def cutWord (word : String) : String × List Note :=
  let cs := word.toList
  match cs.takeWhile (· != '@'), cs.dropWhile (· != '@') with
  | c :: text, _ :: items => (String.ofList (c :: text), notesOf items)
  | _, _ => (word, [])

/-- A word at its place, before its notes are read. -/
structure Word where
  text : String
  notes : List Note
  line : Nat
  column : Nat

def wordsFrom (line column : Nat) : List String → List Word
  | [] => []
  | w :: ws =>
    let (text, notes) := cutWord w
    ⟨text, notes, line, column⟩ :: wordsFrom line (column + text.utf8ByteSize + 1) ws

def wordsOfLines (line : Nat) : List String → List Word
  | [] => []
  | l :: ls => wordsFrom line 1 (Text.words l) ++ wordsOfLines (line + 1) ls

/-- The words of a sketch. Its code starts below one line for every include. -/
def words (s : Sketch) : List Word := wordsOfLines (s.includes.length + 1) s.lines

structure Placed where
  text : String
  line : Nat
  column : Nat
  scope : String
  var : Option String
  function : Option String
  valueType : Option String

/-- What the notes read so far come to. Of two places for one key the later counts, so the
places stand latest first; the innermost open scope heads the stack. -/
structure Layout where
  stack : List String
  placed : List Placed
  bodyStart : List (String × Nat)
  bodyEnd : List (String × Nat)
  nameToken : List (String × Nat)
  typeStart : List (String × Nat)
  typeEnd : List (String × Nat)
  definition : List (String × Nat)

namespace Layout

def start : Layout := ⟨[globalKey], [], [], [], [], [], [], []⟩

def closeScope (key : String) : List String → List String
  | [] => []
  | [bottom] => [bottom]
  | top :: rest => if top = key then rest else top :: rest

def readNote (i : Nat) (l : Layout) (w : Placed) : Note → Layout × Placed
  | .plain key =>
    if w.text = "\x7b" then
      ({ l with bodyStart := (key, i) :: l.bodyStart, stack := key :: l.stack },
        { w with scope := key })
    else if w.text = "\x7d" then
      ({ l with bodyEnd := (key, i) :: l.bodyEnd, stack := closeScope key l.stack },
        { w with scope := key })
    else (l, { w with var := some key })
  | .names key => (l, { w with var := some key })
  | .declares key => ({ l with nameToken := (key, i) :: l.nameToken }, { w with var := some key })
  | .spells key =>
    ({ l with typeStart := (key, i) :: l.typeStart, typeEnd := (key, i) :: l.typeEnd }, w)
  | .typeStart key => ({ l with typeStart := (key, i) :: l.typeStart }, w)
  | .typeEnd key => ({ l with typeEnd := (key, i) :: l.typeEnd }, w)
  | .calls key => (l, { w with function := some key })
  | .defines key =>
    ({ l with definition := (key, i) :: l.definition }, { w with function := some key })
  | .valueType key => (l, { w with valueType := some key })

def readNotes (i : Nat) : Layout → Placed → List Note → Layout × Placed
  | l, w, [] => (l, w)
  | l, w, n :: ns =>
    let (l, w) := readNote i l w n
    readNotes i l w ns

def addWord (l : Layout) (w : Word) : Layout :=
  let bare : Placed := ⟨w.text, w.line, w.column, l.stack.headD "", none, none, none⟩
  let (l, placed) := readNotes l.placed.length l bare w.notes
  { l with placed := l.placed ++ [placed] }

end Layout

def layout (s : Sketch) : Layout := s.words.foldl Layout.addWord .start

def openerOf? : String → Option String
  | ")" => some "("
  | "]" => some "["
  | "\x7d" => some "\x7b"
  | _ => none

def isOpener (text : String) : Bool := text == "(" || text == "[" || text == "\x7b"

/-- The nearest open bracket of a kind, and the others that stay open. -/
def takeOpen (text : String) : List (Nat × String) → Option (Nat × List (Nat × String))
  | [] => none
  | (i, t) :: rest =>
    if t = text then some (i, rest)
    else (takeOpen text rest).map fun (j, left) => (j, (i, t) :: left)

/-- The positions of matching brackets, from position `i` on and with the brackets `opened` before it,
nearest first. A closing bracket takes the nearest open one of its kind, whatever is open between. -/
def pairsFrom (i : Nat) (opened : List (Nat × String)) : List String → List (Nat × Nat)
  | [] => []
  | t :: ts =>
    if isOpener t then pairsFrom (i + 1) ((i, t) :: opened) ts
    else
      match (openerOf? t).bind (takeOpen · opened) with
      | some (j, left) => (j, i) :: pairsFrom (i + 1) left ts
      | none => pairsFrom (i + 1) opened ts

def bracketPairs (texts : List String) : List (Nat × Nat) := pairsFrom 0 [] texts

def partner? (pairs : List (Nat × Nat)) (i : Nat) : Option Nat :=
  pairs.findSome? fun (a, b) => if a = i then some b else if b = i then some a else none

end SpaceAudit.Sketch
