import SpaceAudit.Toml.Quoted
import SpaceAudit.Toml.Scalar

/-! Settings files as they are written. -/
namespace SpaceAudit.Toml

def dropSpaces (cs : List Char) : List Char := cs.dropWhile isSpace

def isBareKey (c : Char) : Bool := c.isAlphanum || c == '_' || c == '-'

def readKeyPart (cs : List Char) : Except Fault (String × List Char) :=
  match cs with
  | '"' :: rest => lineText '"' rest
  | '\x27' :: rest => lineText '\x27' rest
  | _ =>
    if (cs.takeWhile isBareKey).isEmpty then .error .malformed
    else .ok (String.ofList (cs.takeWhile isBareKey), cs.dropWhile isBareKey)

/-- The parts of a key, parted by dots. Every step takes a character at least. -/
def readKeyFrom : Nat → List Char → Except Fault (List String × List Char)
  | 0, _ => .error .malformed
  | steps + 1, cs =>
    match readKeyPart (dropSpaces cs) with
    | .error e => .error e
    | .ok (part, rest) =>
      match dropSpaces rest with
      | '.' :: rest =>
        match readKeyFrom steps rest with
        | .error e => .error e
        | .ok (parts, rest) => .ok (part :: parts, rest)
      | rest => .ok ([part], rest)

def readKey (cs : List Char) : Except Fault ((List String × String) × List Char) :=
  match readKeyFrom (cs.length + 1) cs with
  | .error e => .error e
  | .ok (parts, rest) =>
    match parts.getLast? with
    | none => .error .malformed
    | some key => .ok ((parts.dropLast, key), rest)

def dropComment : List Char → List Char
  | '#' :: cs => cs.dropWhile isPlain
  | cs => cs

/-- The rest after spaces, line ends and comments. Every step takes a character at least. -/
def dropBlanks : Nat → List Char → List Char
  | 0, cs => cs
  | steps + 1, cs =>
    match dropLines cs with
    | '#' :: rest =>
      match newline? (rest.dropWhile isPlain) with
      | some rest => dropBlanks steps rest
      | none => '#' :: rest
    | rest => rest

def readText (mark : Char) (cs : List Char) : Except Fault (Value × List Char) :=
  match quoted mark cs with
  | .error e => .error e
  | .ok (s, rest) => .ok (.text s, rest)

def isScalarPart (c : Char) : Bool :=
  c.isAlphanum || c == '+' || c == '-' || c == '_' || c == '.' || c == ':'

/-- A number, a boolean or a date. After a day, a space may come before the time. -/
def readScalar (cs : List Char) : Except Fault (Value × List Char) :=
  let word := cs.takeWhile isScalarPart
  let rest := cs.dropWhile isScalarPart
  match isDay word, rest with
  | true, ' ' :: d :: more =>
    if d.isDigit then
      if isScalar (word ++ ' ' :: (d :: more).takeWhile isScalarPart) then
        .ok (.scalar, (d :: more).dropWhile isScalarPart)
      else .error .malformed
    else .ok (.scalar, rest)
  | _, _ => if isScalar word then .ok (.scalar, rest) else .error .malformed

/-- The items of an array after its opening bracket; the last may be followed by a comma. Every
step takes a character at least. -/
def readItems (item : List Char → Except Fault (Value × List Char)) :
    Nat → List Char → Except Fault (List Value × List Char)
  | 0, _ => .error .malformed
  | steps + 1, cs =>
    match dropBlanks cs.length cs with
    | ']' :: rest => .ok ([], rest)
    | cs =>
      match item cs with
      | .error e => .error e
      | .ok (v, rest) =>
        match dropBlanks rest.length rest with
        | ']' :: rest => .ok ([v], rest)
        | ',' :: rest =>
          match readItems item steps rest with
          | .error e => .error e
          | .ok (vs, rest) => .ok (v :: vs, rest)
        | _ => .error .malformed

def readEntry (item : List Char → Except Fault (Value × List Char)) (cs : List Char) :
    Except Fault (((List String × String) × Value) × List Char) :=
  match readKey cs with
  | .error e => .error e
  | .ok (key, '=' :: rest) =>
    match item (dropSpaces rest) with
    | .error e => .error e
    | .ok (v, rest) => .ok ((key, v), rest)
  | .ok _ => .error .malformed

/-- The entries of an inline table; it stands on one line, and no comma follows the last. Every
step takes a character at least. -/
def readInline (item : List Char → Except Fault (Value × List Char)) :
    Nat → Entries → List Char → Except Fault (Entries × List Char)
  | 0, _, _ => .error .malformed
  | steps + 1, es, cs =>
    match readEntry item cs with
    | .error e => .error e
    | .ok (((path, key), v), rest) =>
      match es.insert path key v with
      | .error e => .error e
      | .ok es =>
        match dropSpaces rest with
        | '\x7d' :: rest => .ok (es, rest)
        | ',' :: rest => readInline item steps es rest
        | _ => .error .malformed

/-- How many arrays and inline tables may stand in each other. -/
def deepest : Nat := 79

def readValue : Nat → List Char → Except Fault (Value × List Char)
  | _, '"' :: rest => readText '"' rest
  | _, '\x27' :: rest => readText '\x27' rest
  | 0, '[' :: _ => .error .tooDeep
  | depth + 1, '[' :: rest =>
    match readItems (readValue depth) (rest.length + 1) rest with
    | .error e => .error e
    | .ok (vs, rest) => .ok (.array vs, rest)
  | 0, '\x7b' :: _ => .error .tooDeep
  | depth + 1, '\x7b' :: rest =>
    match dropSpaces rest with
    | '\x7d' :: rest => .ok (.table .inline [], rest)
    | rest =>
      match readInline (readValue depth) (rest.length + 1) [] rest with
      | .error e => .error e
      | .ok (es, rest) => .ok (.table .inline es, rest)
  | _, cs => readScalar cs

/-- A document that is being read: what it holds, and the path of the header at hand. -/
structure Reading where
  entries : Entries
  header : List String

def Reading.add (r : Reading) (path : List String) (key : String) (v : Value) :
    Except Fault Reading :=
  match r.entries.alter false (fun _ inner => Entries.insert inner path key v) r.header false with
  | .error e => .error e
  | .ok entries => .ok { r with entries }

def readHeader (r : Reading) (cs : List Char) : Except Fault (Reading × List Char) :=
  match cs with
  | '[' :: cs =>
    match readKey cs with
    | .error e => .error e
    | .ok ((path, key), ']' :: ']' :: rest) =>
      match r.entries.openItem path key with
      | .error e => .error e
      | .ok entries => .ok (⟨entries, path ++ [key]⟩, rest)
    | .ok _ => .error .malformed
  | _ =>
    match readKey cs with
    | .error e => .error e
    | .ok ((path, key), ']' :: rest) =>
      match r.entries.openTable path key with
      | .error e => .error e
      | .ok entries => .ok (⟨entries, path ++ [key]⟩, rest)
    | .ok _ => .error .malformed

def readLine (r : Reading) (cs : List Char) : Except Fault (Reading × List Char) :=
  match cs with
  | '[' :: rest => readHeader r rest
  | _ =>
    match readEntry (readValue deepest) cs with
    | .error e => .error e
    | .ok (((path, key), v), rest) =>
      match r.add path key v with
      | .error e => .error e
      | .ok r => .ok (r, rest)

def readLines : Nat → Reading → List Char → Except Fault Entries
  | 0, _, _ => .error .malformed
  | steps + 1, r, cs =>
    match dropBlanks cs.length cs with
    | [] => .ok r.entries
    | '#' :: rest => if (rest.dropWhile isPlain).isEmpty then .ok r.entries else .error .malformed
    | cs =>
      match readLine r cs with
      | .error e => .error e
      | .ok (r, rest) =>
        match dropComment (dropSpaces rest) with
        | [] => .ok r.entries
        | rest =>
          match newline? rest with
          | none => .error .malformed
          | some rest => readLines steps r rest

def dropMark : List Char → List Char
  | '\ufeff' :: cs => cs
  | cs => cs

def ofText (text : String) : Except Fault Entries :=
  readLines (text.length + 1) ⟨[], []⟩ (dropMark text.toList)

end SpaceAudit.Toml
