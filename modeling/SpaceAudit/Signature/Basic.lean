import SpaceAudit.Alias.Table
import SpaceAudit.Source.Configuration

/-! The functions of a group by what they return: an owning field, or whatever `auto` makes of
it. -/
namespace SpaceAudit

/-- The names of the functions that stand out by their return type. -/
structure Signatures where
  owning : List String
  auto : List String
deriving DecidableEq, Repr

namespace Signatures

def empty : Signatures := ⟨[], []⟩

def append (a b : Signatures) : Signatures := ⟨a.owning ++ b.owning, a.auto ++ b.auto⟩

def inOrder (names : List String) : List String := names.eraseDups.mergeSort fun a b => a ≤ b

def ordered (s : Signatures) : Signatures := ⟨inOrder s.owning, inOrder s.auto⟩

end Signatures

/-- Drops the qualifications (`Name ::`) that a text ends with, read from its end. -/
def dropQualifications : List String → List String
  | "::" :: _ :: rest => dropQualifications rest
  | texts => texts

namespace Configuration
variable (c : Configuration)

/-- The return type before the name of a function, without the classes that qualify the name. -/
def returnType (name : c.TokenIdx) : List String :=
  (dropQualifications (c.textsIn (c.statements.prefixOf name)).reverse).reverse

def signature (aliases : AliasTable) (isOwning : String → Bool) (f : c.FunctionIdx) : Signatures :=
  match (c.function f).definition.get? with
  | none => .empty
  | some name =>
    let texts := c.returnType name
    if texts.getLast? = some "auto" then ⟨[], [(c.function f).name]⟩
    else if isOwning (" ".intercalate (aliases.expand texts)) then ⟨[(c.function f).name], []⟩
    else .empty

def signatures (aliases : AliasTable) (isOwning : String → Bool) : Signatures :=
  c.functionIndices.foldl (fun s f => s.append (c.signature aliases isOwning f)) .empty

end Configuration

end SpaceAudit
