import Mathlib.Data.List.TakeWhile
import SpaceAudit.Alias.Merge
import SpaceAudit.Proofs.Strict.Access
import SpaceAudit.Signature.Basic
import SpaceAudit.Space.Memory

/-! Strict evaluation of what is read off lists of token texts: declared aliases and their
expansion, included files, return types and template arguments. Positions are followed as numbers,
and each comes out inside its list. -/
namespace SpaceAudit.Strict
open Excerpt (byteLength)

theorem get_append {α : Type} (before rest : List α) {k : Nat} {a : α}
    (h : rest[k]? = some a) : get (before ++ rest) (before.length + k) = pure a := by
  apply get_eq
  rw [List.getElem?_append_right (Nat.le_add_right _ _), Nat.add_sub_cancel_left, h]

theorem slice_append {α : Type} (before middle after : List α) :
    slice (before ++ middle ++ after) before.length (before ++ middle).length = pure middle := by
  rw [slice_eq (by simp) (by simp), List.take_left, List.drop_left]

def declarationsFrom (texts : List String) (i : Nat) : Strict (List (String × List String)) :=
  if _h : i + 3 < texts.length then do
    let word ← get texts i
    let sign ← get texts (i + 2)
    let name ← get texts (i + 1)
    if word = "using" ∧ sign = "=" ∧ AliasTable.isIdentifier name then
      let rest ← slice texts (i + 3) texts.length
      let stop := i + 3 + rest.findIdx (· == ";")
      let definition ← slice texts (i + 3) stop
      return (name, definition) :: (← declarationsFrom texts stop)
    else declarationsFrom texts (i + 1)
  else return []
termination_by texts.length - i

theorem takeWhile_length_eq_findIdx (l : List String) :
    (l.takeWhile (· != ";")).length = l.findIdx (· == ";") := by
  have h := l.takeWhile_eq_take_findIdx_not (p := (· != ";"))
  simp only [bne, Bool.not_not] at h
  rw [show (fun a : String => a != ";") = fun a => !(a == ";") from rfl, h, List.length_take]
  exact Nat.min_eq_left List.findIdx_le_length

theorem slice_definition (before l : List String) :
    slice (before ++ l) before.length (before.length + l.findIdx (· == ";")) =
      pure (l.takeWhile (· != ";")) := by
  have h := slice_append before (l.takeWhile (· != ";")) (l.dropWhile (· != ";"))
  rwa [List.append_assoc, List.takeWhile_append_dropWhile, List.length_append,
    takeWhile_length_eq_findIdx] at h

theorem declarationsFrom_step (before : List String) (u name e d : String) (rest : List String) :
    declarationsFrom (before ++ u :: name :: e :: d :: rest) before.length =
      if u = "using" ∧ e = "=" ∧ AliasTable.isIdentifier name then do
        let later ← declarationsFrom (before ++ u :: name :: e :: d :: rest)
          (before.length + 3 + (d :: rest).findIdx (· == ";"))
        return (name, (d :: rest).takeWhile (· != ";")) :: later
      else declarationsFrom (before ++ u :: name :: e :: d :: rest) (before.length + 1) := by
  have hlong : before.length + 3 < (before ++ u :: name :: e :: d :: rest).length := by
    simp only [List.length_append, List.length_cons]
    omega
  have hu := get_append before (u :: name :: e :: d :: rest) (k := 0) rfl
  have he := get_append before (u :: name :: e :: d :: rest) (k := 2) rfl
  have hname := get_append before (u :: name :: e :: d :: rest) (k := 1) rfl
  have hsplit : before ++ u :: name :: e :: d :: rest = before ++ [u, name, e] ++ d :: rest := by
    simp
  have hstart : (before ++ [u, name, e]).length = before.length + 3 := by simp
  have hrest := slice_append (before ++ [u, name, e]) (d :: rest) []
  have hdefinition := slice_definition (before ++ [u, name, e]) (d :: rest)
  rw [List.append_nil, hstart, ← hsplit] at hrest
  rw [hstart, ← hsplit] at hdefinition
  rw [declarationsFrom, dif_pos hlong, ← Nat.add_zero before.length, hu, Nat.add_zero, he, hname]
  simp only [pure_bind, hrest, hdefinition]

theorem declarationsFrom_append (before rest : List String) :
    declarationsFrom (before ++ rest) before.length = pure (AliasTable.declarations rest) := by
  induction rest using AliasTable.declarations.induct generalizing before with
  | case1 u name e d rest h ih =>
    have hlater := ih (before ++ [u, name, e] ++ (d :: rest).takeWhile (· != ";"))
    rw [List.append_assoc _ (List.takeWhile _ _), List.takeWhile_append_dropWhile,
      List.length_append, takeWhile_length_eq_findIdx, List.append_assoc,
      List.length_append] at hlater
    rw [declarationsFrom_step, if_pos h, AliasTable.declarations, if_pos h]
    exact congrArg (· >>= _) hlater
  | case2 u name e d rest h ih =>
    have hlater := ih (before ++ [u])
    rw [List.append_assoc, List.length_append] at hlater
    rw [declarationsFrom_step, if_neg h, AliasTable.declarations, if_neg h]
    exact hlater
  | case3 rest h =>
    have hshort : ¬ before.length + 3 < (before ++ rest).length := by
      rcases rest with - | ⟨u, - | ⟨name, - | ⟨e, - | ⟨d, rest⟩⟩⟩⟩
      case cons.cons.cons.cons => exact absurd rfl (h u name e d rest)
      all_goals
        simp only [List.length_append, List.length_cons, List.length_nil]
        omega
    rw [declarationsFrom, dif_neg hshort, AliasTable.declarations]
    exact h

def expandAt (t : AliasTable) (texts : List String) (p : String × Nat) : Strict (List String) := do
  let before ← if p.2 = 0 then pure "" else get texts (p.2 - 1)
  return if before = "::" then [p.1] else (t.get? p.1).getD [p.1]

def expandOnce (t : AliasTable) (texts : List String) : Strict (List String) :=
  gather (expandAt t texts) texts.zipIdx

def expandRounds (t : AliasTable) : Nat → List String → Strict (List String)
  | 0, texts => pure texts
  | n + 1, texts => do
    let next ← expandOnce t texts
    if t.replaces "" texts then expandRounds t n next else return next

def expand (t : AliasTable) (texts : List String) : Strict (List String) :=
  if t.isEmpty then pure texts else expandRounds t AliasTable.rounds texts

theorem expandAt_append (t : AliasTable) (before : List String) (text : String)
    (rest : List String) :
    expandAt t (before ++ text :: rest) (text, before.length) =
      pure (if before.getLastD "" = "::" then [text] else (t.get? text).getD [text]) := by
  rcases List.eq_nil_or_concat' before with rfl | ⟨first, last, rfl⟩
  · rfl
  · have hlast := get_append first (last :: text :: rest) (k := 0) rfl
    rw [Nat.add_zero] at hlast
    simp [expandAt, hlast]

theorem expandFrom_append (t : AliasTable) (before rest : List String) :
    gather (expandAt t (before ++ rest)) (rest.zipIdx before.length) =
      pure (t.expandFrom (before.getLastD "") rest) := by
  induction rest generalizing before with
  | nil => rfl
  | cons text rest ih =>
    have hlater := ih (before ++ [text])
    rw [List.append_assoc, List.singleton_append, List.length_append, List.length_singleton,
      List.getLastD_concat] at hlater
    rw [List.zipIdx_cons, gather, expandAt_append, pure_bind, hlater, pure_bind,
      AliasTable.expandFrom]

theorem expandRounds_eq (t : AliasTable) (n : Nat) (texts : List String) :
    expandRounds t n texts = pure (t.expandRounds n texts) := by
  induction n generalizing texts with
  | zero => rfl
  | succ n ih =>
    have hround : expandOnce t texts = pure (t.expandOnce texts) := expandFrom_append t [] texts
    rw [expandRounds, hround, pure_bind, ih, AliasTable.expandRounds]
    split
    · rfl
    · rfl

@[simp] theorem expand_eq (t : AliasTable) (texts : List String) :
    expand t texts = pure (t.expand texts) := by
  rw [expand, AliasTable.expand, expandRounds_eq]
  split
  · rfl
  · rfl

section Includes

def unquote (text : String) : Strict (Option String) :=
  if 2 ≤ byteLength text.toList ∧ text.toList.head? = some '"' ∧ text.toList.getLast? = some '"' then
    some <$> cut text 1 (byteLength text.toList - 1)
  else pure none

theorem byteLength_append (cs ds : List Char) :
    byteLength (cs ++ ds) = byteLength cs + byteLength ds := by
  induction cs with
  | nil => simp [byteLength]
  | cons c cs ih => simp only [List.cons_append, byteLength, ih, Nat.add_assoc]

theorem cut_enclosed {first last : Char} (hfirst : first.utf8Size = 1) (hlast : last.utf8Size = 1)
    (name : List Char) :
    cut (String.ofList (first :: name ++ [last])) 1 (byteLength (first :: name ++ [last]) - 1) =
      pure (String.ofList name) := by
  have h := cut_between [first] name [last]
  have hstart : byteLength [first] = 1 := by simp [byteLength, hfirst]
  have hstop : byteLength (first :: name ++ [last]) - 1 = byteLength ([first] ++ name) := by
    simp [byteLength_append, byteLength, hlast]
  rw [hstart, ← hstop] at h
  exact h

theorem unquote_eq (text : String) : unquote text = pure (Include.unquote? text) := by
  obtain ⟨cs, rfl⟩ : ∃ cs, text = String.ofList cs := ⟨text.toList, by simp⟩
  have hquote : '"'.utf8Size = 1 := by decide
  unfold unquote Include.unquote?
  rw [String.toList_ofList]
  cases cs with
  | nil => rfl
  | cons c rest =>
    by_cases hc : c = '"'
    · subst hc
      rcases List.eq_nil_or_concat' rest with rfl | ⟨name, last, rfl⟩
      · simp [byteLength, hquote]
      · have hend : ('"' :: (name ++ [last])).getLast? = some last := by simp [List.getLast?_cons]
        by_cases hlast : last = '"'
        · subst hlast
          have hlong : 2 ≤ byteLength ('"' :: (name ++ ['"'])) := by
            simp only [byteLength, byteLength_append, hquote]
            omega
          have h := cut_enclosed hquote hquote name
          rw [List.cons_append] at h
          rw [if_pos ⟨hlong, rfl, hend⟩, h]
          simp
        · rw [if_neg (by simp [hend, hlast])]
          simp [hlast]
    · simp [hc]

/-- The texts of three tokens in a row, at every position where three follow. -/
def windows (texts : List String) : List (List String) :=
  (List.range (texts.length - 2)).map fun i => (texts.drop i).take 3

def includeIn (window : List String) : Strict (Option Include) := do
  let hash ← get window 0
  let word ← get window 1
  if hash = "#" ∧ word = "include" then
    return (← unquote (← get window 2)).map (⟨·, true⟩)
  else return none

def includesOfRaw (texts : List String) : Strict (List Include) := choose includeIn (windows texts)

theorem includeIn_eq (a b c : String) :
    includeIn [a, b, c] =
      pure (if a = "#" ∧ b = "include" then (Include.unquote? c).map (⟨·, true⟩) else none) := by
  have ha : get [a, b, c] 0 = pure a := rfl
  have hb : get [a, b, c] 1 = pure b := rfl
  have hc : get [a, b, c] 2 = pure c := rfl
  simp only [includeIn, ha, hb, hc, unquote_eq, pure_bind]
  split <;> rfl

theorem windows_cons (a b c : String) (rest : List String) :
    windows (a :: b :: c :: rest) = [a, b, c] :: windows (b :: c :: rest) := by
  simp [windows, List.range_succ_eq_map]

theorem includesOfRaw_eq (texts : List String) :
    includesOfRaw texts = pure (Include.ofRaw texts) := by
  induction texts using Include.ofRaw.induct with
  | case1 a b c rest ih =>
    rw [includesOfRaw, windows_cons, choose, gather, ← choose, includeIn_eq]
    rw [includesOfRaw] at ih
    simp only [map_pure, pure_bind, ih, Include.ofRaw]
  | case2 texts h =>
    rcases texts with - | ⟨a, - | ⟨b, - | ⟨c, rest⟩⟩⟩
    case cons.cons.cons => exact absurd rfl (h a b c rest)
    all_goals rfl

def piece : Piece → Strict Piece
  | .quoted name =>
    let found := '"' :: name.toList ++ ['"']
    .quoted <$> cut (String.ofList found) 1 (byteLength found - 1)
  | .angled name =>
    let found := '<' :: name.toList ++ ['>']
    .angled <$> cut (String.ofList found) 1 (byteLength found - 1)
  | p => pure p

theorem piece_eq (p : Piece) : piece p = pure p := by
  have hquote : '"'.utf8Size = 1 := by decide
  have hopen : '<'.utf8Size = 1 := by decide
  have hclose : '>'.utf8Size = 1 := by decide
  cases p with
  | hash => rfl
  | word text => rfl
  | quoted name =>
    have h := cut_enclosed hquote hquote name.toList
    simp only [piece, h, map_pure, String.ofList_toList]
  | angled name =>
    have h := cut_enclosed hopen hclose name.toList
    simp only [piece, h, map_pure, String.ofList_toList]

def includeOf (d : Directive) : Strict (Option Include) :=
  Include.ofPieces? <$> (Piece.lex d.text.toList).mapM piece

@[simp] theorem includeOf_eq (d : Directive) : includeOf d = pure d.include? := by
  have h := List.mapM_pure (m := Strict) (l := Piece.lex d.text.toList) (f := id)
  rw [List.map_id] at h
  rw [includeOf, funext piece_eq]
  exact congrArg (Include.ofPieces? <$> ·) h

end Includes

section Sources

def aliasesOf (texts : List String) : Strict AliasTable :=
  (fun declared => ⟨declared.reverse⟩) <$> declarationsFrom texts 0

def ownAliases (u : SourceUnit) : Strict AliasTable :=
  if u.rawTokens.isEmpty then
    match u.configurations with
    | [] => pure .empty
    | c :: _ => aliasesOf ((c.tokens.toList.filter fun t => t.file == u.mainFile).map Token.text)
  else aliasesOf u.mainRawTexts

def directiveIncludes (u : SourceUnit) : Strict (List Include) :=
  match u.configurations with
  | [] => pure []
  | c :: _ =>
    List.filter Include.quoted <$>
      choose includeOf (c.directives.filter fun d => d.file.overlaps u.path)

def includes (u : SourceUnit) : Strict (List Include) := do
  let found ← directiveIncludes u
  if found.isEmpty then includesOfRaw u.mainRawTexts else return found

def aliasSource (u : SourceUnit) : Strict AliasSource := do
  return ⟨u.path, ← ownAliases u, ← includes u⟩

theorem aliasesOf_eq (texts : List String) : aliasesOf texts = pure (.ofTexts texts) := by
  have h := declarationsFrom_append [] texts
  rw [List.nil_append, List.length_nil] at h
  rw [aliasesOf, h]
  rfl

theorem ownAliases_eq (u : SourceUnit) : ownAliases u = pure (AliasSource.ownAliases u) := by
  unfold ownAliases AliasSource.ownAliases
  simp only [aliasesOf_eq]
  cases u.rawTokens.isEmpty with
  | false => rfl
  | true => cases u.configurations <;> rfl

theorem includes_eq (u : SourceUnit) : includes u = pure u.includes := by
  have h : directiveIncludes u = pure u.directiveIncludes := by
    unfold directiveIncludes SourceUnit.directiveIncludes
    cases u.configurations with
    | nil => rfl
    | cons c rest =>
      simp only [funext includeOf_eq, choose_pure, map_pure]
  simp only [includes, h, includesOfRaw_eq, pure_bind, SourceUnit.includes]
  split <;> rfl

@[simp] theorem aliasSource_eq (u : SourceUnit) : aliasSource u = pure (.ofUnit u) := by
  simp only [aliasSource, ownAliases_eq, includes_eq, pure_bind, AliasSource.ofUnit]

/-- Of several members that an include may mean, one is named. -/
def candidateNamed (group : List AliasSource) (i : Include) : Strict (Option AliasSource) :=
  let candidates := group.filter fun s => s.path.endsWith ⟨i.name⟩
  if 1 < candidates.length then some <$> get candidates 0 else pure none

/-- The aliases of a group. Every include of every member is looked at first, those that the walks
follow among them. -/
def groupAliases (group : List AliasSource) (headers : List String) : Strict GroupAliases := do
  let _ ← (group.flatMap AliasSource.includes).mapM (candidateNamed group)
  return GroupAliases.ofSources group headers

theorem candidateNamed_eq (group : List AliasSource) (i : Include) :
    candidateNamed group i =
      let candidates := group.filter fun s => s.path.endsWith ⟨i.name⟩
      pure (if 1 < candidates.length then candidates.head? else none) := by
  unfold candidateNamed
  cases group.filter fun s => s.path.endsWith ⟨i.name⟩ with
  | nil => rfl
  | cons s rest =>
    have h : get (s :: rest) 0 = pure s := rfl
    simp only [h, List.head?_cons, map_pure]
    split <;> rfl

theorem groupAliases_eq (group : List AliasSource) (headers : List String) :
    groupAliases group headers = pure (.ofSources group headers) := by
  simp only [groupAliases, funext (candidateNamed_eq group), List.mapM_pure, pure_bind]

end Sources

section Types

def dropQualified (texts : List String) : Strict (List String) :=
  if _h : 2 ≤ texts.length then do
    let last ← get texts (texts.length - 1)
    if last = "::" then dropQualified (texts.take (texts.length - 2)) else return texts
  else return texts
termination_by texts.length

theorem dropQualified_reverse (texts : List String) :
    dropQualified texts.reverse = pure (dropQualifications texts).reverse := by
  induction texts using dropQualifications.induct with
  | case1 name rest ih =>
    have hlast : get ("::" :: name :: rest).reverse (("::" :: name :: rest).reverse.length - 1) =
        pure "::" := by
      apply get_eq
      simp
    have htake : ("::" :: name :: rest).reverse.take (("::" :: name :: rest).reverse.length - 2) =
        rest.reverse := by
      simp
    rw [dropQualified, dif_pos (by simp), hlast, pure_bind, if_pos rfl, htake, ih]
    rfl
  | case2 texts h =>
    have hkept : dropQualifications texts = texts := by
      rw [dropQualifications]
      exact h
    rw [hkept]
    rcases texts with - | ⟨last, - | ⟨name, rest⟩⟩
    · rw [dropQualified, dif_neg (by simp)]
    · rw [dropQualified, dif_neg (by simp)]
    · have hne : last ≠ "::" := by
        intro hq
        exact h name rest (by rw [hq])
      have hlast : get (last :: name :: rest).reverse ((last :: name :: rest).reverse.length - 1) =
          pure last := by
        apply get_eq
        simp
      rw [dropQualified, dif_pos (by simp), hlast, pure_bind, if_neg hne]

/-- Goes over the texts from position `i` on. The current argument begins at `start`. -/
def lastArgumentFrom (texts : List String) (depth start i : Nat) :
    List String → Strict (Option (List String))
  | [] => pure none
  | text :: rest =>
    if text = "<" then lastArgumentFrom texts (depth + 1) start (i + 1) rest
    else if text = ">" then
      if depth = 0 then pure none
      else if depth = 1 then some <$> slice texts start i
      else lastArgumentFrom texts (depth - 1) start (i + 1) rest
    else if text = ">>" then
      if depth ≤ 2 then some <$> slice texts start i
      else lastArgumentFrom texts (depth - 2) start (i + 1) rest
    else if text = "," ∧ depth = 1 then lastArgumentFrom texts depth (i + 1) (i + 1) rest
    else if isBoundary text then pure none
    else lastArgumentFrom texts depth start (i + 1) rest

/-- The argument at hand is what stands between its beginning and the current position. -/
theorem lastArgumentFrom_append (before argument rest : List String) (depth : Nat) :
    lastArgumentFrom (before ++ argument ++ rest) depth before.length
        (before ++ argument).length rest =
      pure (Template.lastArgumentFrom depth argument rest) := by
  induction rest generalizing before argument depth with
  | nil => rfl
  | cons text rest ih =>
    have hslice := slice_append before argument (text :: rest)
    have hlonger := ih before (argument ++ [text])
    have hnext := ih (before ++ argument ++ [text]) []
    simp only [List.append_assoc, List.singleton_append, List.length_append, List.append_nil,
      List.length_singleton, ← Nat.add_assoc] at hslice hlonger hnext
    simp only [lastArgumentFrom, Template.lastArgumentFrom, List.append_assoc, List.length_append,
      hslice, hlonger, hnext, map_pure]
    split_ifs <;> rfl

def familySpaceAt (texts : List String) (family : Nat) : Strict MemorySpace :=
  if texts[family + 1]? = some "<" then do
    match ← lastArgumentFrom texts 0 (family + 2) (family + 1) (texts.drop (family + 1)) with
    | some argument => return Template.spaceOf argument
    | none => return .unknown
  else return .device

def spaceOfType (s : Settings) (texts : List String) : Strict (Option MemorySpace) :=
  match texts.findIdx? s.isFieldFamily with
  | none => return none
  | some family =>
    if texts.any s.hostWrappers.contains then return some .host
    else if texts.any s.deviceSpaceMarkers.contains then return some .device
    else if texts.any s.hostSpaceMarkers.contains then return some .host
    else some <$> familySpaceAt texts family

theorem familySpaceAt_append (before : List String) (name : String) (rest : List String) :
    familySpaceAt (before ++ name :: rest) before.length = pure (familySpace rest) := by
  have hnext : (before ++ name :: rest)[before.length + 1]? = rest.head? := by
    rw [List.getElem?_append_right (Nat.le_add_right _ _), Nat.add_sub_cancel_left,
      List.getElem?_cons_succ, List.head?_eq_getElem?]
  have hdrop : (before ++ name :: rest).drop (before.length + 1) = rest := by
    rw [← List.drop_drop, List.drop_left]
    rfl
  rw [familySpaceAt, hnext, hdrop]
  cases rest with
  | nil => rfl
  | cons text rest =>
    by_cases htext : text = "<"
    · subst htext
      have h : lastArgumentFrom (before ++ name :: "<" :: rest) 1 (before.length + 2)
          (before.length + 2) rest = pure (Template.lastArgumentFrom 1 [] rest) := by
        simpa using lastArgumentFrom_append (before ++ [name, "<"]) [] rest 1
      rw [List.head?_cons, if_pos rfl, lastArgumentFrom, if_pos rfl, h, pure_bind]
      simp only [familySpace]
      cases Template.lastArgumentFrom 1 [] rest <;> rfl
    · rw [List.head?_cons, if_neg (by simp [htext])]
      simp [familySpace, htext]

theorem findIdx?_of_dropWhile {p : String → Bool} {texts rest : List String} {name : String}
    (h : texts.dropWhile (fun t => !p t) = name :: rest) :
    texts.findIdx? p = some (texts.takeWhile fun t => !p t).length := by
  induction texts with
  | nil => simp at h
  | cons text texts ih =>
    cases hp : p text with
    | true => simp [hp, List.findIdx?_cons]
    | false =>
      rw [List.dropWhile_cons_of_pos (by simp [hp])] at h
      simp [hp, List.findIdx?_cons, ih h]

theorem spaceOfType_eq (s : Settings) (texts : List String) :
    spaceOfType s texts = pure (s.spaceOfType? texts) := by
  unfold spaceOfType Settings.spaceOfType?
  cases h : texts.dropWhile fun t => !s.isFieldFamily t with
  | nil =>
    have hnone : texts.findIdx? s.isFieldFamily = none := by
      rw [List.dropWhile_eq_nil_iff] at h
      simpa [List.findIdx?_eq_none_iff] using h
    rw [hnone]
  | cons name rest =>
    have hfamily := familySpaceAt_append (texts.takeWhile fun t => !s.isFieldFamily t) name rest
    rw [← h, List.takeWhile_append_dropWhile] at hfamily
    rw [findIdx?_of_dropWhile h]
    simp only [hfamily, map_pure]
    split_ifs <;> rfl

end Types

end SpaceAudit.Strict
