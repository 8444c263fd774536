import SpaceAudit.Alias.Table
import SpaceAudit.Source.Unit

/-! Within a group a unit also knows the aliases of the shared headers it includes, directly or
through others. The nearest definition of a name counts, the unit's own before all. -/
namespace SpaceAudit

/-- What one unit brings into the aliases of its group. -/
structure AliasSource where
  path : Path
  own : AliasTable
  includes : List Include

namespace AliasSource

/-- The aliases of the main file, read off the raw tokens if the dump has any. -/
def ownAliases (u : SourceUnit) : AliasTable :=
  if u.rawTokens.isEmpty then
    match u.configurations with
    | [] => .empty
    | c :: _ => .ofTexts ((c.tokens.toList.filter fun t => t.file == u.mainFile).map Token.text)
  else .ofTexts u.mainRawTexts

def ofUnit (u : SourceUnit) : AliasSource := ⟨u.path, ownAliases u, u.includes⟩

/-- The source with the least path, the first of equals. -/
def least? : List AliasSource → Option AliasSource
  | [] => none
  | s :: rest =>
    match least? rest with
    | none => some s
    | some t => if s.path.le t.path then some s else some t

def header? (group : List AliasSource) (i : Include) : Option AliasSource :=
  least? (group.filter fun s => s.path.endsWith ⟨i.name⟩)

def shared? (group : List AliasSource) (headers : List String) (i : Include) :
    Option AliasSource :=
  if headers.contains i.fileName then header? group i else none

theorem least?_mem {ss : List AliasSource} {s : AliasSource} (h : least? ss = some s) : s ∈ ss := by
  induction ss generalizing s with
  | nil => simp [least?] at h
  | cons a rest ih =>
    unfold least? at h
    split at h
    · simp only [Option.some.injEq] at h
      simp [h]
    · rename_i t ht
      split at h
      · simp only [Option.some.injEq] at h
        simp [h]
      · simp only [Option.some.injEq] at h
        exact List.mem_cons_of_mem _ (h ▸ ih ht)

theorem shared?_mem {group : List AliasSource} {headers : List String} {i : Include}
    {s : AliasSource} (h : shared? group headers i = some s) : s ∈ group := by
  unfold shared? at h
  split at h
  · exact (List.mem_filter.1 (least?_mem h)).1
  · simp at h

def unvisited (group : List AliasSource) (visited : List Path) : Nat :=
  (group.filter fun s => !s.path.isIn visited).length

theorem unvisited_lt {group : List AliasSource} {visited : List Path} {s : AliasSource}
    (hs : s ∈ group) (hv : s.path.isIn visited = false) :
    unvisited group (s.path :: visited) < unvisited group visited := by
  have hsame : s.path.same s.path = true := by simp [Path.same]
  have hle : ∀ a : AliasSource,
      (!a.path.isIn (s.path :: visited)) = true → (!a.path.isIn visited) = true := by
    intro a ha
    simp only [Path.isIn, List.any_cons, Bool.not_or, Bool.and_eq_true] at ha ⊢
    exact ha.2
  unfold unvisited
  simp only [← List.countP_eq_length_filter]
  induction group with
  | nil => simp at hs
  | cons a rest ih =>
    rw [List.countP_cons, List.countP_cons]
    have hrest : List.countP (fun t => !t.path.isIn (s.path :: visited)) rest ≤
        List.countP (fun t => !t.path.isIn visited) rest :=
      List.countP_mono_left fun t _ => hle t
    rcases List.mem_cons.1 hs with rfl | hmem
    · have h1 : (!s.path.isIn (s.path :: visited)) = false := by simp [Path.isIn, hsame]
      simp only [h1, hv, Bool.not_false, Bool.false_eq_true, if_true, if_false]
      omega
    · have := ih hmem
      by_cases ha : (!a.path.isIn (s.path :: visited)) = true
      · simp only [ha, hle a ha, if_true]
        omega
      · rw [if_neg ha]
        split <;> omega

/-- The shared headers that pending includes lead to, in the order of a depth-first walk that
enters every path once. -/
def walk (group : List AliasSource) (headers : List String) (visited : List Path)
    (pending : List Include) : List AliasSource :=
  match pending with
  | [] => []
  | i :: rest =>
    match _h : shared? group headers i with
    | none => walk group headers visited rest
    | some s =>
      if _hv : s.path.isIn visited then walk group headers visited rest
      else s :: walk group headers (s.path :: visited) (s.includes ++ rest)
termination_by (unvisited group visited, pending.length)
decreasing_by
  · exact Prod.Lex.right _ (Nat.lt_succ_self _)
  · exact Prod.Lex.right _ (Nat.lt_succ_self _)
  · exact Prod.Lex.left _ _ (unvisited_lt (shared?_mem _h) (by simpa using _hv))

def merged (group : List AliasSource) (headers : List String) (s : AliasSource) : AliasTable :=
  (walk group headers [s.path] s.includes).foldl (fun t h => t.orElse h.own) s.own

theorem get?_foldl_orElse (sources : List AliasSource) (t : AliasTable) (name : String) :
    (sources.foldl (fun t h => t.orElse h.own) t).get? name =
      (t.get? name).or (sources.findSome? fun h => h.own.get? name) := by
  induction sources generalizing t with
  | nil => simp
  | cons h rest ih =>
    rw [List.foldl_cons, ih, AliasTable.get?_orElse, List.findSome?_cons, Option.or_assoc]
    cases h.own.get? name <;> rfl

/-- A name means what its first definition says, the member's own before those of its headers. -/
theorem get?_merged (group : List AliasSource) (headers : List String) (s : AliasSource)
    (name : String) : (s.merged group headers).get? name =
      (s.own.get? name).or
        ((walk group headers [s.path] s.includes).findSome? fun h => h.own.get? name) :=
  get?_foldl_orElse _ _ _

end AliasSource

structure GroupAliases where
  tables : List (Path × AliasTable)

namespace GroupAliases

def ofSources (group : List AliasSource) (headers : List String) : GroupAliases :=
  ⟨group.map fun s => (s.path, s.merged group headers)⟩

/-- Of several members with one path the last one counts. -/
def get (g : GroupAliases) (path : Path) : AliasTable :=
  ((g.tables.reverse.find? fun (p, _) => p.same path).map Prod.snd).getD .empty

theorem get_ofSources (before : List AliasSource) (s : AliasSource) (after : List AliasSource)
    (headers : List String) (hlast : ∀ a ∈ after, a.path.same s.path = false) :
    (ofSources (before ++ s :: after) headers).get s.path =
      s.merged (before ++ s :: after) headers := by
  have hafter : after.reverse.find? (fun a => a.path.same s.path) = none := by
    refine List.find?_eq_none.2 fun a ha => ?_
    simp [hlast a (List.mem_reverse.1 ha)]
  have hself : s.path.same s.path = true := by simp [Path.same]
  have hfind : (before ++ s :: after).reverse.find? (fun a => a.path.same s.path) = some s := by
    rw [List.reverse_append, List.reverse_cons, List.append_assoc, List.find?_append, hafter,
      Option.none_or, List.singleton_append, List.find?_cons, hself]
  have hget (group : List AliasSource) : (ofSources group headers).get s.path =
      ((group.reverse.find? fun a => a.path.same s.path).map
        fun a => a.merged group headers).getD .empty := by
    rw [get, ofSources, ← List.map_reverse, List.find?_map, Option.map_map]
    rfl
  rw [hget, hfind, Option.map_some, Option.getD_some]

end GroupAliases

end SpaceAudit
