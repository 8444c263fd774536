import Mathlib.Data.List.Forall2
import SpaceAudit.Proofs.Audit.Subject
import SpaceAudit.Proofs.Source.ScopeTree
import SpaceAudit.Source.Loading

/-! What loading makes of a document. Every record of a configuration comes from one element, and
every reference of it stands for what the element's attribute names: nothing, the first record with
that id, or an id that no record has. -/
namespace SpaceAudit
open Markup (Element)

/-- The element at a position carries the id. -/
def Carries (es : List Element) (i : Nat) (id : String) : Prop :=
  (es[i]?.bind fun e => e.attribute? "id") = some id

/-- What a reference to one of the elements is for the value of an attribute. -/
structure Denotes {n : Nat} (es : List Element) (value : Option String) (r : Ref n) : Prop where
  absent : r = .absent ↔ value = none ∨ value = some "" ∨ value = some "0"
  resolved : ∀ i, r = .resolved i ↔ ∃ id, value = some id ∧ id ≠ "" ∧ id ≠ "0" ∧
    Carries es i id ∧ ∀ j < i.val, ¬ Carries es j id
  dangling : ∀ id, r = .dangling id ↔ value = some id ∧ id ≠ "" ∧ id ≠ "0" ∧
    ∀ j, ¬ Carries es j id

namespace Denotes
variable {n : Nat} {es : List Element} {id : String}

theorem of_absent {value : Option String}
    (h : value = none ∨ value = some "" ∨ value = some "0") :
    Denotes es value (.absent : Ref n) := by
  refine ⟨iff_of_true rfl h, fun i => iff_of_false nofun ?_, fun id => iff_of_false nofun ?_⟩
  · rintro ⟨id, rfl, hne, hzero, _⟩
    simp [hne, hzero] at h
  · rintro ⟨rfl, hne, hzero, _⟩
    simp [hne, hzero] at h

theorem of_first {i : Fin n} (hne : id ≠ "") (hzero : id ≠ "0") (hi : Carries es i id)
    (hfirst : ∀ j < i.val, ¬ Carries es j id) : Denotes es (some id) (.resolved i) := by
  refine ⟨iff_of_false nofun (by simp [hne, hzero]), fun j => ?_, fun other => iff_of_false nofun ?_⟩
  · constructor
    · intro h
      obtain rfl := Ref.resolved.inj h
      exact ⟨id, rfl, hne, hzero, hi, hfirst⟩
    · rintro ⟨other, hother, _, _, hj, hfirst'⟩
      obtain rfl := Option.some.inj hother
      -- Two first positions are one.
      rcases Nat.lt_trichotomy i.val j.val with hlt | heq | hlt
      · exact absurd hi (hfirst' i hlt)
      · rw [Fin.ext heq]
      · exact absurd hj (hfirst j hlt)
  · rintro ⟨hother, _, _, hnone⟩
    obtain rfl := Option.some.inj hother
    exact hnone i hi

theorem of_unknown (hne : id ≠ "") (hzero : id ≠ "0") (hnone : ∀ j, ¬ Carries es j id) :
    Denotes es (some id) (.dangling id : Ref n) := by
  refine ⟨iff_of_false nofun (by simp [hne, hzero]), fun j => iff_of_false nofun ?_, fun other => ?_⟩
  · rintro ⟨other, hother, _, _, hj, _⟩
    obtain rfl := Option.some.inj hother
    exact hnone j hj
  · constructor
    · intro h
      obtain rfl := Ref.dangling.inj h
      exact ⟨rfl, hne, hzero, hnone⟩
    · rintro ⟨hother, _⟩
      rw [Option.some.inj hother]

end Denotes

structure IdsOf {n : Nat} (es : List Element) (ids : Vector String n) : Prop where
  length : es.length = n
  get : ∀ i : Fin n, Carries es i ids[i]

namespace IdsOf
variable {n : Nat} {es : List Element} {ids : Vector String n}

theorem carries_iff (h : IdsOf es ids) {i : Fin n} {id : String} :
    Carries es i id ↔ ids.get i = id := by
  have hi : Carries es i (ids.get i) := h.get i
  unfold Carries at hi ⊢
  rw [hi, Option.some.injEq]

theorem lt_of_carries (h : IdsOf es ids) {j : Nat} {id : String} (hj : Carries es j id) : j < n := by
  obtain ⟨e, he, _⟩ := Option.bind_eq_some_iff.1 hj
  obtain ⟨hlt, _⟩ := List.getElem?_eq_some_iff.1 he
  rwa [h.length] at hlt

end IdsOf

theorem findFinIdx?_eq_some_iff {α : Type} {n : Nat} {v : Vector α n} {p : α → Bool}
    {i : Fin n} : v.findFinIdx? p = some i ↔
      p (v.get i) = true ∧ ∀ j < i, ¬ p (v.get j) = true := by
  obtain ⟨xs, rfl⟩ := v
  simp [Vector.findFinIdx?, Vector.get, Array.findFinIdx?_eq_some_iff]

theorem Ref.resolve_denotes {n : Nat} {es : List Element} {ids : Vector String n}
    (h : IdsOf es ids) (value : Option String) : Denotes es value (Ref.resolve ids value) := by
  cases value with
  | none => exact .of_absent (.inl rfl)
  | some id =>
    rw [resolve]
    by_cases hempty : id = "" ∨ id = "0"
    · rw [if_pos hempty]
      refine .of_absent (.inr ?_)
      rcases hempty with rfl | rfl <;> simp
    · obtain ⟨hne, hzero⟩ := not_or.1 hempty
      rw [if_neg hempty]
      cases hfind : ids.findFinIdx? (· == id) with
      | none =>
        refine .of_unknown hne hzero fun j hj => ?_
        have hlt := h.lt_of_carries hj
        have hid : ids.get ⟨j, hlt⟩ = id := h.carries_iff.1 hj
        refine Vector.findFinIdx?_eq_none_iff.1 hfind id ?_ (by simp)
        rw [← hid]
        exact Vector.getElem_mem hlt
      | some i =>
        obtain ⟨hi, hfirst⟩ := findFinIdx?_eq_some_iff.1 hfind
        refine .of_first hne hzero (h.carries_iff.2 (by simpa using hi)) fun j hj hc => ?_
        have hid : ids.get ⟨j, by omega⟩ = id := h.carries_iff.1 hc
        exact hfirst ⟨j, by omega⟩ hj (by simpa using hid)

namespace FileTable
variable {t : FileTable}

/-- Every position that an index of the dump stands for is one of a name. -/
def Sound (t : FileTable) : Prop := ∀ entry ∈ t.byIndex, entry.2 < t.names.length

/-- Names are only added, and positions stay in range. -/
structure Grows (t t' : FileTable) : Prop where
  length : t.names.length ≤ t'.names.length
  sound : t.Sound → t'.Sound

theorem Grows.refl (t : FileTable) : Grows t t := ⟨Nat.le_refl _, id⟩

theorem Grows.trans {t t' t'' : FileTable} (h : Grows t t') (h' : Grows t' t'') : Grows t t'' :=
  ⟨Nat.le_trans h.length h'.length, h'.sound ∘ h.sound⟩

/-- A file is one of the first `n` or, for want of a name, file 0. -/
def InRange (n file : Nat) : Prop := file < n ∨ file = 0

theorem InRange.mono {n m file : Nat} (h : InRange n file) (hnm : n ≤ m) : InRange m file :=
  h.imp_left fun hlt => Nat.lt_of_lt_of_le hlt hnm

theorem intern_spec (t : FileTable) (name : String) :
    Grows t (t.intern name).2 ∧ (t.intern name).1 < (t.intern name).2.names.length := by
  unfold intern
  cases hfind : t.names.findIdx? (· == name) with
  | some i =>
    obtain ⟨hlt, _⟩ := List.findIdx?_eq_some_iff_getElem.1 hfind
    exact ⟨.refl t, hlt⟩
  | none =>
    refine ⟨⟨by simp, fun h entry hentry => ?_⟩, by simp⟩
    have := h entry hentry
    simp only [List.length_append, List.length_singleton]
    omega

theorem registerElement_grows (t : FileTable) (e : Element) : Grows t (t.registerElement e) := by
  unfold registerElement
  split
  · rename_i index name _ _
    obtain ⟨hgrows, hlt⟩ := t.intern_spec name
    refine ⟨hgrows.length, fun h entry hentry => ?_⟩
    rcases List.mem_cons.1 hentry with rfl | hentry
    · exact hlt
    · exact hgrows.sound h entry hentry
  · exact .refl t

theorem registerAll_grows (es : List Element) (t : FileTable) :
    Grows t (es.foldl registerElement t) := by
  induction es generalizing t with
  | nil => exact .refl t
  | cons e es ih => exact (t.registerElement_grows e).trans (ih _)

theorem resolve_spec (ht : t.Sound) (e : Element) :
    Grows t (t.resolve e).2 ∧ InRange (t.resolve e).2.names.length (t.resolve e).1 := by
  unfold resolve
  split
  · rename_i i hi
    obtain ⟨index, _, hlookup⟩ := Option.bind_eq_some_iff.1 hi
    obtain ⟨before, after, hsplit, _⟩ := List.lookup_eq_some_iff.1 hlookup
    have hmem : (index, i) ∈ t.byIndex := by simp [hsplit]
    exact ⟨.refl t, .inl (ht (index, i) hmem)⟩
  · split
    · rename_i name _
      obtain ⟨hgrows, hlt⟩ := t.intern_spec name
      exact ⟨hgrows, .inl hlt⟩
    · exact ⟨.refl t, .inr rfl⟩

theorem resolveAll_spec (ht : t.Sound) (es : List Element) :
    Grows t (t.resolveAll es).2 ∧
      (t.resolveAll es).1.length = es.length ∧
      ∀ file ∈ (t.resolveAll es).1, InRange (t.resolveAll es).2.names.length file := by
  induction es generalizing t with
  | nil => exact ⟨.refl t, rfl, by simp [resolveAll]⟩
  | cons e es ih =>
    obtain ⟨hgrows, hfile⟩ := resolve_spec ht e
    obtain ⟨hrest, hlength, hfiles⟩ := ih (hgrows.sound ht)
    refine ⟨hgrows.trans hrest, by simp [resolveAll, hlength], ?_⟩
    intro file hmem
    rcases List.mem_cons.1 hmem with rfl | hmem
    · exact hfile.mono hrest.length
    · exact hfiles file hmem

end FileTable

namespace Load
variable (e : Element)

def tokensIn : List Element := section? e "tokenlist" "token"
def scopesIn : List Element := section? e "scopes" "scope"
def varsIn : List Element := section? e "variables" "var"

def functionsIn : List (Element × Nat) :=
  (scopesIn e).zipIdx.flatMap fun (s, i) =>
    (section? s "functionList" "function").map fun f => (f, i)

variable {x : Extent}

/-- A token comes from its element, with a file among the first `files`. -/
structure TokenFrom (files : Nat) (el : Element) (t : Token x) : Prop where
  scope : Denotes (scopesIn e) (el.attribute? "scope") t.scope
  var : Denotes (varsIn e) (el.attribute? "variable") t.var
  function : Denotes ((functionsIn e).map Prod.fst) (el.attribute? "function") t.function
  link : Denotes (tokensIn e) (el.attribute? "link") t.link
  valueTypeScope : Denotes (scopesIn e) (el.attribute? "valueType-typeScope") t.valueTypeScope
  file : FileTable.InRange files t.file

structure ScopeFrom (el : Element) (s : Scope x) : Prop where
  parent : Denotes (scopesIn e) (el.attribute? "nestedIn") s.parent
  bodyStart : Denotes (tokensIn e) (el.attribute? "bodyStart") s.bodyStart
  bodyEnd : Denotes (tokensIn e) (el.attribute? "bodyEnd") s.bodyEnd
  function : Denotes ((functionsIn e).map Prod.fst) (el.attribute? "function") s.function
  /-- The listed variables that exist, in the order of the list. -/
  vars : ∃ refs : List (Ref x.vars),
    List.Forall₂ (fun v r => Denotes (varsIn e) (v.attribute? "id") r) (section? el "varlist" "var")
      refs ∧ s.vars = refs.filterMap Ref.get?

structure FunctionFrom (el : Element × Nat) (f : Function x) : Prop where
  definition : Denotes (tokensIn e) (el.1.attribute? "tokenDef") f.definition
  owner : f.owner.val = el.2

structure VariableFrom (el : Element) (v : Variable x) : Prop where
  nameToken : Denotes (tokensIn e) (el.attribute? "nameToken") v.nameToken
  typeStart : Denotes (tokensIn e) (el.attribute? "typeStartToken") v.typeStart
  typeEnd : Denotes (tokensIn e) (el.attribute? "typeEndToken") v.typeEnd
  scope : Denotes (scopesIn e) (el.attribute? "scope") v.scope

/-- The records of a configuration come from the elements of its section, one from each. -/
structure RecordsFrom (files : Nat) (c : Configuration) : Prop where
  tokens : List.Forall₂ (TokenFrom e files) (tokensIn e) c.tokens.toList
  scopes : List.Forall₂ (ScopeFrom e) (scopesIn e) c.scopes.toList
  functions : List.Forall₂ (FunctionFrom e) (functionsIn e) c.functions.toList
  vars : List.Forall₂ (VariableFrom e) (varsIn e) c.vars.toList

variable {e}

theorem idsOf_eq_ok {n : Nat} {kind : RecordKind} {es : Vector Element n} {ids : Vector String n}
    (h : idsOf kind es = .ok ids) : IdsOf es.toList ids := by
  unfold idsOf at h
  split at h
  · rename_i hall
    obtain rfl := Except.ok.inj h
    refine ⟨by simp, fun i => ?_⟩
    obtain ⟨id, hid⟩ := Option.isSome_iff_exists.1 (Vector.all_eq_true.1 hall i i.isLt)
    simp [Carries, Element.attributeD, hid]
  · cases h

theorem functionElements_eq (scopes : List Element) :
    (functionElements scopes.toArray).toList.map (fun p => (p.1, p.2.val)) =
      scopes.zipIdx.flatMap fun (s, i) =>
        (section? s "functionList" "function").map fun f => (f, i) := by
  have hindexed : scopes.zipIdx =
      (List.finRange scopes.length).map fun i => (scopes[i], i.val) := by
    refine List.ext_getElem (by simp) fun i hi _ => ?_
    simp
  rw [hindexed, List.flatMap_map]
  simp only [functionElements, Array.toList_flatMap, List.map_flatMap, List.map_map,
    Function.comp_def]
  rfl

theorem functionElements_toList (e : Element) :
    ((functionElements (section? e "scopes" "scope").toArray).toVector.map Prod.fst).toList =
      (functionsIn e).map Prod.fst := by
  rw [functionsIn, scopesIn, ← functionElements_eq, List.map_map, Vector.toList_map]
  rfl

theorem exists_of_bind {ε α β : Type} {o : Except ε α} {f : α → Except ε β} {b : β}
    (h : (o >>= f) = .ok b) : ∃ a, o = .ok a ∧ f a = .ok b := by
  cases o with
  | error e => cases h
  | ok a => exact ⟨a, rfl, h⟩

theorem error_of_bind {ε α β : Type} {o : Except ε α} {f : α → Except ε β} {r : ε}
    (h : (o >>= f) = .error r) : o = .error r ∨ ∃ a, o = .ok a ∧ f a = .error r := by
  cases o with
  | error e =>
    obtain rfl : e = r := Except.error.inj h
    exact .inl rfl
  | ok a => exact .inr ⟨a, rfl, h⟩

/-- The ids of the records are those that the elements carry. -/
structure Ids.Of (e : Element) (ids : Ids x) : Prop where
  tokens : IdsOf (tokensIn e) ids.tokens
  scopes : IdsOf (scopesIn e) ids.scopes
  functions : IdsOf ((functionsIn e).map Prod.fst) ids.functions
  vars : IdsOf (varsIn e) ids.vars

namespace Ids.Of
variable {ids : Ids x}

theorem token (h : ids.Of e) (el : Element) {files file : Nat} (hfile : FileTable.InRange files file) :
    TokenFrom e files el (Load.token ids el file) where
  scope := Ref.resolve_denotes h.scopes _
  var := Ref.resolve_denotes h.vars _
  function := Ref.resolve_denotes h.functions _
  link := Ref.resolve_denotes h.tokens _
  valueTypeScope := Ref.resolve_denotes h.scopes _
  file := hfile

theorem scope (h : ids.Of e) (el : Element) : ScopeFrom e el (Load.scope ids el) where
  parent := Ref.resolve_denotes h.scopes _
  bodyStart := Ref.resolve_denotes h.tokens _
  bodyEnd := Ref.resolve_denotes h.tokens _
  function := Ref.resolve_denotes h.functions _
  vars := by
    refine ⟨(section? el "varlist" "var").map fun v => variableRef ids v "id", ?_, ?_⟩
    · rw [List.forall₂_map_right_iff]
      exact List.forall₂_same.2 fun v _ => Ref.resolve_denotes h.vars _
    · rw [List.filterMap_map]
      rfl

theorem function (h : ids.Of e) (el : Element) (owner : Fin x.scopes) :
    FunctionFrom e (el, owner.val) (Load.function ids el owner) where
  definition := Ref.resolve_denotes h.tokens _
  owner := rfl

theorem var (h : ids.Of e) (el : Element) (tokens : Vector (Token x) x.tokens) :
    VariableFrom e el (Load.var ids el tokens) where
  nameToken := Ref.resolve_denotes h.tokens _
  typeStart := Ref.resolve_denotes h.tokens _
  typeEnd := Ref.resolve_denotes h.tokens _
  scope := Ref.resolve_denotes h.scopes _

end Ids.Of

theorem configuration_records {t t' : FileTable} {c : Configuration} (ht : t.Sound)
    (h : configuration e t = .ok (c, t')) :
    t.Grows t' ∧ RecordsFrom e t'.names.length c := by
  unfold configuration at h
  obtain ⟨tokenIds, htokens, h⟩ := exists_of_bind h
  obtain ⟨scopeIds, hscopes, h⟩ := exists_of_bind h
  obtain ⟨functionIds, hfunctions, h⟩ := exists_of_bind h
  obtain ⟨variableIds, hvars, h⟩ := exists_of_bind h
  obtain ⟨hc, rfl⟩ := Prod.mk.inj (Except.ok.inj h)
  subst hc
  have htokens : IdsOf (tokensIn e) tokenIds := idsOf_eq_ok htokens
  have hscopes : IdsOf (scopesIn e) scopeIds := idsOf_eq_ok hscopes
  have hfunctions : IdsOf ((functionsIn e).map Prod.fst) functionIds :=
    functionElements_toList e ▸ idsOf_eq_ok hfunctions
  have hvars : IdsOf (varsIn e) variableIds := idsOf_eq_ok hvars
  have hids : Ids.Of e (x := ⟨_, _, _, _⟩) ⟨tokenIds, scopeIds, functionIds, variableIds⟩ :=
    ⟨htokens, hscopes, hfunctions, hvars⟩
  obtain ⟨hgrows, hlength, hfiles⟩ := FileTable.resolveAll_spec ht (tokensIn e)
  refine ⟨hgrows, ?_, ?_, ?_, ?_⟩
  · rw [List.forall₂_iff_get]
    refine ⟨by simp [tokensIn], fun i hi _ => ?_⟩
    have hfile : FileTable.InRange (t.resolveAll (tokensIn e)).2.names.length
        ((t.resolveAll (tokensIn e)).1.getD i 0) := by
      rw [List.getD_eq_getElem?_getD, List.getElem?_eq_getElem (by omega), Option.getD_some]
      exact hfiles _ (List.getElem_mem _)
    simpa [tokensIn] using hids.token (tokensIn e)[i] hfile
  · rw [Vector.toList_map, List.forall₂_map_right_iff]
    exact List.forall₂_same.2 fun el _ => hids.scope el
  · rw [Vector.toList_map, List.forall₂_map_right_iff, functionsIn, scopesIn, ← functionElements_eq,
      List.forall₂_map_left_iff]
    exact List.forall₂_same.2 fun el _ => hids.function el.1 el.2
  · rw [Vector.toList_map, List.forall₂_map_right_iff]
    exact List.forall₂_same.2 fun el _ => hids.var el _

theorem RecordsFrom.mono {n m : Nat} {c : Configuration} (h : RecordsFrom e n c) (hnm : n ≤ m) :
    RecordsFrom e m c where
  tokens := h.tokens.imp fun _ _ ht => { ht with file := ht.file.mono hnm }
  scopes := h.scopes
  functions := h.functions
  vars := h.vars

theorem rawTokens_spec {t : FileTable} (ht : t.Sound) (e : Element) :
    t.Grows (rawTokens t e).2 ∧
      ∀ tok ∈ (rawTokens t e).1, FileTable.InRange (rawTokens t e).2.names.length tok.file := by
  have hregister := FileTable.registerAll_grows (e.childrenNamed "file") t
  obtain ⟨hgrows, _, hfiles⟩ := FileTable.resolveAll_spec (hregister.sound ht) (e.childrenNamed "tok")
  refine ⟨hregister.trans hgrows, fun tok htok => ?_⟩
  obtain ⟨⟨el, file⟩, hmem, rfl⟩ := List.mem_map.1 htok
  exact hfiles file (List.of_mem_zip hmem).2

/-- What comes of one more section: its raw tokens are read, its configuration is loaded, or it is
none of the sections that count. -/
inductive Sheet.Adds (s : Sheet) (e : Element) : Sheet → Prop where
  | raw (hname : e.name = "rawtokens") : Adds s e
      { s with
        files := (Load.rawTokens s.files e).2
        hasRaw := true
        rawTokens := s.rawTokens ++ (Load.rawTokens s.files e).1 }
  | configuration {c : Configuration} {t : FileTable} (hname : e.name = "dump")
      (hload : Load.configuration e s.files = .ok (c, t)) :
      Adds s e { s with files := t, configurations := s.configurations ++ [c] }
  | other (hraw : e.name ≠ "rawtokens") (hdump : e.name ≠ "dump") : Adds s e s

theorem Sheet.adds_of_add {s s' : Sheet} (h : s.add e = .ok s') : s.Adds e s' := by
  unfold Sheet.add at h
  split at h
  · rename_i hname
    obtain rfl := Except.ok.inj h
    exact .raw hname
  · rename_i hraw
    split at h
    · rename_i hname
      split at h
      · cases h
      · rename_i hload
        obtain rfl := Except.ok.inj h
        exact .configuration hname hload
    · rename_i hdump
      obtain rfl := Except.ok.inj h
      exact .other hraw hdump

/-- What holds of the sections read so far, and is kept by one more, holds of all of them. -/
theorem Sheet.keeps_of_addAll {P : List Element → Sheet → Prop}
    (hstep : ∀ {read : List Element} {e : Element} {s s' : Sheet}, P read s → s.Adds e s' →
      P (read ++ [e]) s')
    {read es : List Element} {s s' : Sheet} (h : P read s)
    (hadd : es.foldlM Sheet.add s = .ok s') : P (read ++ es) s' := by
  induction es generalizing read s with
  | nil =>
    obtain rfl := Except.ok.inj hadd
    simpa using h
  | cons e es ih =>
    rw [List.foldlM_cons] at hadd
    obtain ⟨next, hnext, hadd⟩ := exists_of_bind hadd
    simpa using ih (hstep h (adds_of_add hnext)) hadd

/-- What has been read of the sections `read`. -/
structure Sheet.Of (read : List Element) (s : Sheet) : Prop where
  sound : s.files.Sound
  raw : ∀ tok ∈ s.rawTokens, FileTable.InRange s.files.names.length tok.file
  configurations : List.Forall₂ (fun e c => RecordsFrom e s.files.names.length c)
    (read.filter (·.name == "dump")) s.configurations

theorem Sheet.Of.add {read : List Element} {s s' : Sheet} (h : s.Of read) (hadd : s.Adds e s') :
    s'.Of (read ++ [e]) := by
  cases hadd with
  | raw hname =>
    obtain ⟨hgrows, hraw⟩ := rawTokens_spec h.sound e
    have hother : (e.name == "dump") = false := by simp [hname]
    refine ⟨hgrows.sound h.sound, ?_, ?_⟩
    · intro tok htok
      rcases List.mem_append.1 htok with htok | htok
      · exact (h.raw tok htok).mono hgrows.length
      · exact hraw tok htok
    · rw [List.filter_append, List.filter_singleton, hother, cond_false, List.append_nil]
      exact h.configurations.imp fun _ _ hc => hc.mono hgrows.length
  | configuration hname hload =>
    obtain ⟨hgrows, hrecords⟩ := configuration_records h.sound hload
    have hdump : (e.name == "dump") = true := by simp [hname]
    refine ⟨hgrows.sound h.sound, fun tok htok => (h.raw tok htok).mono hgrows.length, ?_⟩
    rw [List.filter_append, List.filter_singleton, hdump, cond_true]
    refine List.rel_append (h.configurations.imp fun _ _ hc => hc.mono hgrows.length) ?_
    exact .cons hrecords .nil
  | other _ hname =>
    have hother : (e.name == "dump") = false := by simp [hname]
    refine ⟨h.sound, h.raw, ?_⟩
    rw [List.filter_append, List.filter_singleton, hother, cond_false, List.append_nil]
    exact h.configurations

theorem Sheet.Of.addAll {read es : List Element} {s s' : Sheet} (h : s.Of read)
    (hadd : es.foldlM Sheet.add s = .ok s') : s'.Of (read ++ es) :=
  Sheet.keeps_of_addAll Sheet.Of.add h hadd

end Load

namespace Configuration
variable (c : Configuration)

/-- How the records of a configuration hang together. -/
structure Arena : Prop where
  /-- The members of a scope are the other scopes that name it as their parent. -/
  members : ∀ i j, j ∈ c.members i ↔ (c.scope j).parent = .resolved i ∧ i ≠ j
  membersInOrder : ∀ i, (c.members i).Pairwise (· < ·)
  /-- A function stands once in the list of the scope that declares it, and in no other. -/
  functions : ∀ f s, (c.functionsOf s).count f = if s = (c.function f).owner then 1 else 0
  /-- The body of a function is the first scope that refers to it. -/
  body : ∀ f s, c.bodyOf? f = some s ↔
    (c.scope s).function = .resolved f ∧ ∀ r < s, (c.scope r).function ≠ .resolved f

theorem find?_finRange_eq_some_iff {n : Nat} {p : Fin n → Bool} {i : Fin n} :
    (List.finRange n).find? p = some i ↔ p i = true ∧ ∀ j < i, ¬ p j = true := by
  rw [List.find?_eq_some_iff_getElem]
  constructor
  · rintro ⟨hp, k, hk, hget, hbefore⟩
    rw [List.getElem_finRange] at hget
    subst hget
    refine ⟨hp, fun j hj => ?_⟩
    simpa using hbefore j.val hj
  · rintro ⟨hp, hbefore⟩
    refine ⟨hp, i.val, by simp, by simp, fun j hj => ?_⟩
    simpa using hbefore ⟨j, by omega⟩ hj

theorem arena : c.Arena where
  members i j := by
    rw [mem_members, parent?, Ref.get?_eq_some_iff]
    exact and_congr_right fun _ => ne_comm
  membersInOrder i := by
    rw [members_eq]
    exact (List.pairwise_lt_finRange _).filter _
  functions f s := by
    have honce : c.functionIndices.count f = 1 :=
      List.count_eq_one_of_mem (List.nodup_finRange _) (List.mem_finRange f)
    by_cases hs : s = (c.function f).owner
    · rw [functionsOf_eq, List.count_filter (by simp [hs]), honce, if_pos hs]
    · rw [if_neg hs, List.count_eq_zero, functionsOf_eq, List.mem_filter]
      simp [Ne.symm hs]
  body f s := by
    rw [bodyOf?_eq, scopeIndices, find?_finRange_eq_some_iff]
    simp [Ref.get?_eq_some_iff]

end Configuration

/-- The unit says what the sections of the document say. -/
structure SourceUnit.LoadedFrom (root : Element) (u : SourceUnit) : Prop where
  configurations : List.Forall₂ (fun e c => Load.RecordsFrom e u.files.length c)
    (root.childrenNamed "dump") u.configurations
  arenas : ∀ c ∈ u.configurations, c.Arena
  rawTokens : ∀ tok ∈ u.rawTokens, FileTable.InRange u.files.length tok.file

theorem SourceUnit.loadedFrom_of_ofElement {dumpPath : Path} {root : Element} {u : SourceUnit}
    (h : ofElement dumpPath root = .ok u) : u.LoadedFrom root := by
  unfold ofElement at h
  split at h
  · cases h
  · split at h
    · cases h
    · rename_i s hs
      split at h
      · cases h
      · obtain rfl := Except.ok.inj h
        have hempty : Load.Sheet.Of [] ⟨.empty, false, [], []⟩ :=
          ⟨nofun, nofun, .nil⟩
        have hread := hempty.addAll hs
        rw [List.nil_append] at hread
        refine ⟨?_, fun c _ => c.arena, ?_⟩
        · simpa [Element.childrenNamed] using hread.configurations
        · simpa using hread.raw

/-- The first scope is its own parent, the second has a parent that is nowhere, the third is nested
in the second by an id that two scopes carry. -/
def dumpSample : Element :=
  .node "dumps" []
    [.node "rawtokens" []
      [.node "file" [("index", "0"), ("name", "src/a.cpp")] [],
        .node "tok" [("fileIndex", "7"), ("str", "void")] []],
      .node "dump" [("cfg", "")]
        [.node "tokenlist" []
          [.node "token" [("id", "t1"), ("str", "f"), ("fileIndex", "0"), ("scope", "s2"),
              ("link", "0")] [],
            .node "token" [("id", "t2"), ("str", "x"), ("file", "src/b.hpp"), ("link", "t9"),
              ("variable", "v1")] []],
          .node "scopes" []
            [.node "scope" [("id", "s1"), ("nestedIn", "s1")]
                [.node "functionList" [] [.node "function" [("id", "f1"), ("tokenDef", "t1")] []]],
              .node "scope" [("id", "s2"), ("nestedIn", "s9"), ("function", "f2")]
                [.node "functionList" [] [.node "function" [("id", "f2")] []]],
              .node "scope" [("id", "s2"), ("nestedIn", "s2"), ("function", "f2")]
                [.node "varlist" [] [.node "var" [("id", "v9")] [], .node "var" [("id", "v1")] []]]],
          .node "variables" [] [.node "var" [("id", "v1"), ("nameToken", "t2"), ("scope", "")] []]]]

/-- What the passes leave in the tables of the sample. -/
def SampleTables (c : Configuration) : Prop :=
  c.scopeIndices.map (fun s => (c.members s).map Fin.val) = [[], [2], []] ∧
    c.scopeIndices.map (fun s => (c.functionsOf s).map Fin.val) = [[0], [1], []] ∧
    c.functionIndices.map (fun f => (c.bodyOf? f).map Fin.val) = [none, some 1]

instance : DecidablePred SampleTables := fun _ => inferInstanceAs (Decidable (_ ∧ _))

theorem SourceUnit.loadedFrom_of_ofElement_sample :
    ∃ u, ofElement ⟨"src/a.cpp.dump"⟩ dumpSample = .ok u ∧ u.LoadedFrom dumpSample ∧
      ∃ c, u.configurations = [c] ∧ SampleTables c := by
  have hok : ((ofElement ⟨"src/a.cpp.dump"⟩ dumpSample).toOption.any fun u =>
      u.configurations.length == 1 && u.configurations.all fun c => decide (SampleTables c)) =
        true := by
    decide +kernel
  cases h : ofElement ⟨"src/a.cpp.dump"⟩ dumpSample with
  | error r =>
    rw [h] at hok
    cases hok
  | ok u =>
    rw [h] at hok
    obtain ⟨hone, hall⟩ := Bool.and_eq_true_iff.1 hok
    obtain ⟨c, hc⟩ := List.length_eq_one_iff.1 (beq_iff_eq.1 hone)
    rw [hc, List.all_cons, List.all_nil, Bool.and_true] at hall
    exact ⟨u, rfl, loadedFrom_of_ofElement h, c, hc, of_decide_eq_true hall⟩

end SpaceAudit
