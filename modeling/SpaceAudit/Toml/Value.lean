/-! The values of a settings file, and how its headers and dotted keys build up tables. -/
namespace SpaceAudit.Toml

/-- What brought a table about. A header may come once for a table that was only implied by the
headers of its inner tables. -/
inductive Origin where
  | header | implied | dotted | inline
deriving DecidableEq, Repr

/-- Numbers, booleans and dates are only known to be well written. -/
inductive Value where
  | text (s : String)
  | scalar
  | array (items : List Value)
  | table (origin : Origin) (entries : List (String × Value))
  | tables (items : List (List (String × Value)))

abbrev Entries := List (String × Value)

inductive Fault where
  | malformed
  | duplicate (key : String)
  | noTable (key : String)
  | tooDeep
deriving DecidableEq, Repr

namespace Entries

def replace (es : Entries) (key : String) (v : Value) : Entries :=
  es.map fun (k, w) => if k == key then (k, v) else (k, w)

/-- Changes the table that a path leads to, and makes the tables on the way that are missing.
`change` is told whether dotted keys made the table. Dotted keys cannot lead into a table that has
a header of its own, and nothing leads into an inline table. -/
def alter (dotted : Bool) (change : Bool → Entries → Except Fault Entries) :
    List String → Bool → Entries → Except Fault Entries
  | [], made, es => change made es
  | key :: path, _, es =>
    match es.lookup key with
    | none =>
      match alter dotted change path dotted [] with
      | .error e => .error e
      | .ok inner => .ok (es ++ [(key, .table (if dotted then .dotted else .implied) inner)])
    | some (.table origin inner) =>
      if origin = .inline then .error (.noTable key)
      else if dotted ∧ origin = .header then .error (.duplicate key)
      else
        match alter dotted change path (origin == .dotted) inner with
        | .error e => .error e
        | .ok inner => .ok (es.replace key (.table origin inner))
    | some (.tables items) =>
      match items.getLast? with
      | none => .error (.noTable key)
      | some inner =>
        match alter dotted change path false inner with
        | .error e => .error e
        | .ok inner => .ok (es.replace key (.tables (items.dropLast ++ [inner])))
    | some _ => .error (.noTable key)

/-- Adds a value under a key that may be dotted. A table made by dotted keys takes dotted keys
only, and any other takes plain ones. -/
def insert (es : Entries) (path : List String) (key : String) (v : Value) : Except Fault Entries :=
  alter true
    (fun made inner =>
      if made == path.isEmpty || (inner.lookup key).isSome then .error (.duplicate key)
      else .ok (inner ++ [(key, v)]))
    path false es

def openTable (es : Entries) (path : List String) (key : String) : Except Fault Entries :=
  alter false
    (fun _ inner =>
      match inner.lookup key with
      | none => .ok (inner ++ [(key, .table .header [])])
      | some (.table .implied es) => .ok (Entries.replace inner key (.table .header es))
      | some _ => .error (.duplicate key))
    path false es

def openItem (es : Entries) (path : List String) (key : String) : Except Fault Entries :=
  alter false
    (fun _ inner =>
      match inner.lookup key with
      | none => .ok (inner ++ [(key, .tables [[]])])
      | some (.tables items) => .ok (Entries.replace inner key (.tables (items ++ [[]])))
      | some _ => .error (.duplicate key))
    path false es

end Entries

end SpaceAudit.Toml
