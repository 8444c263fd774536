/-! Type aliases: what a token stream declares, and how aliases are put in the place of their
names. -/
namespace SpaceAudit

/-- Names with the tokens they stand for. The first entry of a name counts. -/
structure AliasTable where
  entries : List (String × List String)
deriving Repr

namespace AliasTable

def empty : AliasTable := ⟨[]⟩

def get? (t : AliasTable) (name : String) : Option (List String) := t.entries.lookup name

def isEmpty (t : AliasTable) : Bool := t.entries.isEmpty

def bindings (t : AliasTable) : List (String × List String) :=
  (t.entries.map Prod.fst).eraseDups.filterMap fun name => (t.get? name).map fun d => (name, d)

/-- The entries of `t`, and those of `other` for the names that `t` lacks. -/
def orElse (t other : AliasTable) : AliasTable := ⟨t.entries ++ other.entries⟩

theorem get?_orElse (t other : AliasTable) (name : String) :
    (t.orElse other).get? name = (t.get? name).or (other.get? name) := List.lookup_append

def isIdentifier (name : String) : Bool :=
  match name.toList with
  | [] => false
  | c :: cs => (c.isAlpha || c == '_') && cs.all fun c => c.isAlphanum || c == '_'

/-- The declarations `using name = definition`, each up to its semicolon or the end. -/
def declarations : List String → List (String × List String)
  | u :: name :: e :: d :: rest =>
    if u = "using" ∧ e = "=" ∧ isIdentifier name then
      (name, (d :: rest).takeWhile (· != ";")) :: declarations ((d :: rest).dropWhile (· != ";"))
    else declarations (name :: e :: d :: rest)
  | _ => []
termination_by texts => texts.length
decreasing_by
  · have := (List.dropWhile_sublist (l := d :: rest) (· != ";")).length_le
    simp only [List.length_cons] at *
    omega
  · simp

/-- The aliases that a token stream declares; a later declaration of a name replaces an earlier. -/
def ofTexts (texts : List String) : AliasTable := ⟨(declarations texts).reverse⟩

def rounds : Nat := 8

/-- Puts definitions in the place of names that do not stand right after `::`. -/
def expandFrom (t : AliasTable) (before : String) : List String → List String
  | [] => []
  | text :: rest =>
    (if before = "::" then [text] else (t.get? text).getD [text]) ++ expandFrom t text rest

def expandOnce (t : AliasTable) (texts : List String) : List String := t.expandFrom "" texts

def replaces (t : AliasTable) (before : String) : List String → Bool
  | [] => false
  | text :: rest => before != "::" && (t.get? text).isSome || replaces t text rest

/-- Goes over a type until nothing is put in any more, and at most `n` times. -/
def expandRounds (t : AliasTable) : Nat → List String → List String
  | 0, texts => texts
  | n + 1, texts =>
    if t.replaces "" texts then expandRounds t n (t.expandOnce texts) else t.expandOnce texts

def expand (t : AliasTable) (texts : List String) : List String :=
  if t.isEmpty then texts else t.expandRounds rounds texts

end AliasTable

end SpaceAudit
