/-! Blank characters, and text cut at them: words, lines, trimming. -/
namespace SpaceAudit.Text

/-- The characters that have the Unicode property `White_Space`. -/
def isBlank (c : Char) : Bool :=
  let n := c.toNat
  (9 ≤ n && n ≤ 13) || n == 0x20 || n == 0x85 || n == 0xA0 || n == 0x1680 ||
    (0x2000 ≤ n && n ≤ 0x200A) || n == 0x2028 || n == 0x2029 || n == 0x202F ||
    n == 0x205F || n == 0x3000

/-- The maximal blank-free pieces of a text, in order. -/
def words (s : String) : List String :=
  ((s.toList.splitOnP isBlank).filter (fun w => !w.isEmpty)).map String.ofList

def dropCarriageReturn (line : List Char) : List Char :=
  if line.getLast? = some '\r' then line.dropLast else line

/-- A line ends at a line feed, or at a carriage return and a line feed.
A last line without an ending counts when it is not empty. -/
def linesOf : List (List Char) → List (List Char)
  | [] => []
  | [last] => if last.isEmpty then [] else [last]
  | line :: rest => dropCarriageReturn line :: linesOf rest

def lines (s : String) : List String :=
  (linesOf (s.toList.splitOn '\n')).map String.ofList

def trimEnd (cs : List Char) : List Char := (cs.reverse.dropWhile isBlank).reverse

def trim (s : String) : String := String.ofList (trimEnd (s.toList.dropWhile isBlank))

def lastLine? (s : String) : Option String :=
  ((lines s).reverse.map trim).find? (fun l => !l.isEmpty)

def holdsChars (part : List Char) : List Char → Bool
  | [] => part.isEmpty
  | c :: cs => part.isPrefixOf (c :: cs) || holdsChars part cs

def holds (s part : String) : Bool := holdsChars part.toList s.toList

def startsWith (s part : String) : Bool := part.toList.isPrefixOf s.toList

def endsWith (s part : String) : Bool := part.toList.isSuffixOf s.toList

/-- Every occurrence of `old`, found from left to right without overlap, becomes `new`.
An empty `old` changes nothing. -/
def replaceChars (old new : List Char) : Nat → List Char → List Char
  | _, [] => []
  | skip + 1, _ :: cs => replaceChars old new skip cs
  | 0, c :: cs =>
    if !old.isEmpty && old.isPrefixOf (c :: cs) then
      new ++ replaceChars old new (old.length - 1) cs
    else c :: replaceChars old new 0 cs

def replace (s old new : String) : String :=
  String.ofList (replaceChars old.toList new.toList 0 s.toList)

end SpaceAudit.Text
