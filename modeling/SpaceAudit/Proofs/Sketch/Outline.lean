import SpaceAudit.Proofs.Sketch.Layout
import SpaceAudit.Proofs.Source.Loading
import SpaceAudit.Sketch.Dump

/-! The document of a sketch: it can be written, and its elements hold what the sketch declares. -/
namespace SpaceAudit.Sketch
open Markup (Outline Element PlainAttributes isPlainName isPlainText isPlainChar)

/-- A key that names a record. An id that is empty or `0` names nothing. -/
def isKey (key : String) : Bool := key != "" && key != "0"

/-- The texts that a sketch puts into its dump besides its code. -/
def texts (s : Sketch) : List String :=
  s.source.text :: (s.includes ++
    s.scopes.flatMap (fun e =>
      [e.key, e.kind, e.className] ++ e.parent.toList ++ e.function.toList) ++
    s.functions.flatMap (fun f => [f.key, f.name, f.kind]) ++
    s.vars.flatMap (fun v => [v.key, v.scope, v.access]))

/-- What a sketch is to be like: its keys tell the declarations of one kind apart, its functions
stand in declared scopes, and its texts can be written. -/
structure Proper (s : Sketch) : Prop where
  scopeKeys : (s.scopes.map ScopeEntry.key).Nodup
  functionKeys : (s.functions.map FunctionEntry.key).Nodup
  varKeys : (s.vars.map VariableEntry.key).Nodup
  scopeKey : ∀ e ∈ s.scopes, isKey e.key = true
  functionKey : ∀ f ∈ s.functions, isKey f.key = true
  varKey : ∀ v ∈ s.vars, isKey v.key = true
  declared : ∀ f ∈ s.functions, ∃ e ∈ s.scopes, e.key = f.owner
  texts : ∀ text ∈ s.texts, isPlainText text = true
  lines : ∀ line ∈ s.lines, isCode line = true

/-- What writing needs of a sketch: its texts and its code hold characters of documents. -/
structure Plain (s : Sketch) : Prop where
  texts : ∀ text ∈ s.texts, isPlainText text = true
  lines : ∀ line ∈ s.lines, isCode line = true

theorem Proper.plain {s : Sketch} (h : s.Proper) : s.Plain := ⟨h.texts, h.lines⟩

section Texts

theorem isPlainText_append {a b : String} :
    isPlainText (a ++ b) = true ↔ isPlainText a = true ∧ isPlainText b = true := by
  simp [isPlainText]

theorem isPlainChar_of_isDigit {c : Char} (h : c.isDigit = true) : isPlainChar c = true := by
  have hrange : 48 ≤ c.toNat ∧ c.toNat ≤ 57 := by
    simpa [Char.isDigit, UInt32.le_iff_toNat_le] using h
  have hblank : Markup.isSpace c = false := by
    by_contra hspace
    rw [Bool.not_eq_false] at hspace
    rcases Markup.isSpace_iff.1 hspace with rfl | rfl | rfl | rfl <;> exact absurd h (by decide)
  have hdocument : Markup.isDocumentChar c = true := by
    simp only [Markup.isDocumentChar, Markup.within, List.any_cons, Bool.or_eq_true,
      Bool.and_eq_true, decide_eq_true_eq]
    omega
  simp [isPlainChar, hdocument, hblank]

theorem isPlainText_toString (n : Nat) : isPlainText (toString n) = true := by
  have hchars : (toString n).toList = Nat.toDigits 10 n := String.toList_ofList
  rw [isPlainText, hchars, List.all_eq_true]
  intro c hc
  exact isPlainChar_of_isDigit (Nat.isDigit_of_mem_toDigits (by decide) (by decide) hc)

theorem isPlainText_tokenId (i : Nat) : isPlainText (tokenId i) = true :=
  isPlainText_append.2 ⟨by decide, isPlainText_toString (i + 1)⟩

theorem isPlainText_truth (b : Bool) : isPlainText (truth b) = true := by
  cases b <;> decide

end Texts

section Attributes

@[simp] theorem lookup_given_self (key : String) (value : Option String) :
    (given key value).lookup key = value := by
  cases value with
  | none => rfl
  | some v => simp [given]

theorem lookup_given_ne {key other : String} (value : Option String) (h : other ≠ key) :
    (given key value).lookup other = none := by
  cases value with
  | none => rfl
  | some v =>
    have hne : (other == key) = false := beq_eq_false_iff_ne.2 h
    simp [given, hne]

/-- The attributes have their keys from a list, in its order, and can be written. -/
structure Among (keys : List String) (as : List (String × String)) : Prop where
  keys : (as.map Prod.fst).Sublist keys
  values : ∀ a ∈ as, isPlainText a.2 = true

namespace Among
variable {keys keys' : List String} {as bs : List (String × String)} {key value : String}

theorem nil : Among [] [] := ⟨.slnil, nofun⟩

theorem cons (hvalue : isPlainText value = true) (h : Among keys as) :
    Among (key :: keys) ((key, value) :: as) :=
  ⟨h.keys.cons_cons key, List.forall_mem_cons.2 ⟨hvalue, h.values⟩⟩

theorem append (h : Among keys as) (h' : Among keys' bs) : Among (keys ++ keys') (as ++ bs) where
  keys := by
    rw [List.map_append]
    exact h.keys.append h'.keys
  values := List.forall_mem_append.2 ⟨h.values, h'.values⟩

theorem given (key : String) {value : Option String} (h : ∀ v ∈ value, isPlainText v = true) :
    Among [key] (given key value) := by
  cases value with
  | none => exact ⟨List.nil_sublist _, nofun⟩
  | some v => exact .cons (h v rfl) .nil

theorem placeOf (key name : String) (places : List (String × Nat)) :
    Among [key] (placeOf key name places) := by
  apply Among.given key
  intro v hv
  obtain ⟨i, _, rfl⟩ := Option.map_eq_some_iff.1 hv
  exact isPlainText_tokenId i

theorem plain (h : Among keys as) (hkeys : keys.Nodup)
    (hnames : ∀ key ∈ keys, isPlainName key = true) : PlainAttributes as where
  keys _ ha := hnames _ (h.keys.subset (List.mem_map_of_mem ha))
  values := h.values
  nodup := h.keys.nodup hkeys

end Among

end Attributes

section Writable
variable {s : Sketch}

theorem Plain.function_texts (h : s.Plain) {f : FunctionEntry} (hf : f ∈ s.functions) :
    isPlainText f.key = true ∧ isPlainText f.name = true ∧ isPlainText f.kind = true := by
  have hall : ∀ text ∈ [f.key, f.name, f.kind], isPlainText text = true := fun text ht =>
    h.texts text (List.mem_cons_of_mem _ (List.mem_append_left _ (List.mem_append_right _
      (List.mem_flatMap.2 ⟨f, hf, ht⟩))))
  simpa using hall

theorem Plain.var_texts (h : s.Plain) {v : VariableEntry} (hv : v ∈ s.vars) :
    isPlainText v.key = true ∧ isPlainText v.scope = true ∧ isPlainText v.access = true := by
  have hall : ∀ text ∈ [v.key, v.scope, v.access], isPlainText text = true := fun text ht =>
    h.texts text (List.mem_cons_of_mem _ (List.mem_append_right _ (List.mem_flatMap.2 ⟨v, hv, ht⟩)))
  simpa using hall

theorem rawToken_writable (line column : Nat) {text : String} (h : isPlainText text = true) :
    (rawToken line column text).Writable :=
  ⟨by decide, (Among.cons (by decide) (.cons (isPlainText_toString line)
    (.cons (isPlainText_toString column) (.cons h .nil)))).plain (by decide) (by decide)⟩

theorem token_writable (hsource : isPlainText s.source.text = true) (pairs : List (Nat × Nat))
    {t : Placed} (i : Nat) (ht : ∀ text ∈ t.texts, isPlainText text = true) :
    (s.token pairs t i).Writable := by
  obtain ⟨htext, hscope, hvar, hfunction, hvalueType⟩ : isPlainText t.text = true ∧
      isPlainText t.scope = true ∧ (∀ k ∈ t.var, isPlainText k = true) ∧
      (∀ k ∈ t.function, isPlainText k = true) ∧ ∀ k ∈ t.valueType, isPlainText k = true := by
    simpa [Placed.texts, or_imp, forall_and] using ht
  have hlink : ∀ k ∈ (partner? pairs i).map tokenId, isPlainText k = true := by
    intro k hk
    obtain ⟨j, _, rfl⟩ := Option.map_eq_some_iff.1 hk
    exact isPlainText_tokenId j
  have hfixed : Among ["id", "file", "fileIndex", "linenr", "column", "str", "scope"]
      [("id", tokenId i), ("file", s.source.text), ("fileIndex", "0"), ("linenr", toString t.line),
        ("column", toString t.column), ("str", t.text), ("scope", t.scope)] :=
    .cons (isPlainText_tokenId i) (.cons hsource (.cons (by decide)
      (.cons (isPlainText_toString _) (.cons (isPlainText_toString _) (.cons htext
        (.cons hscope .nil))))))
  have hall := (((hfixed.append (.given "variable" hvar)).append
    (.given "function" hfunction)).append (.given "link" hlink)).append
      (.given "valueType-typeScope" hvalueType)
  exact ⟨by decide, hall.plain (by decide) (by decide)⟩

theorem functionLeaf_writable (l : Layout) {f : FunctionEntry} (hkey : isPlainText f.key = true)
    (hname : isPlainText f.name = true) (hkind : isPlainText f.kind = true) :
    (functionLeaf l f).Writable :=
  ⟨by decide, (((Among.cons hkey (.cons hname (.cons hkind .nil))).append
    (.placeOf "tokenDef" _ _)).append (.cons (isPlainText_truth _) .nil)).plain (by decide)
      (by decide)⟩

theorem variableLeaf_writable (l : Layout) {v : VariableEntry} (hkey : isPlainText v.key = true)
    (hscope : isPlainText v.scope = true) (haccess : isPlainText v.access = true) :
    (variableLeaf l v).Writable := by
  have hflags : Among ["access", "scope", "isReference", "isStatic", "isArgument"]
      [("access", v.access), ("scope", v.scope), ("isReference", truth v.isReference),
        ("isStatic", truth v.isStatic), ("isArgument", truth (v.access == "Argument"))] :=
    .cons haccess (.cons hscope (.cons (isPlainText_truth _) (.cons (isPlainText_truth _)
      (.cons (isPlainText_truth _) .nil))))
  have hid : Among ["id"] [("id", v.key)] := .cons hkey .nil
  have hall := (((hid.append (.placeOf "nameToken" v.key l.nameToken)).append
    (.placeOf "typeStartToken" v.key l.typeStart)).append
      (.placeOf "typeEndToken" v.key l.typeEnd)).append hflags
  exact ⟨by decide, hall.plain (by decide) (by decide)⟩

theorem block_writable {name : String} {os : List Outline} (hname : isPlainName name = true)
    (h : ∀ o ∈ os, o.Writable) : (Outline.block name [] os).Writable :=
  ⟨⟨hname, nofun, nofun, List.nodup_nil⟩, Outline.allWritable_iff.2 h⟩

theorem listed_writable {name : String} {os : List Outline} (hname : isPlainName name = true)
    (h : ∀ o ∈ os, o.Writable) : ∀ o ∈ listed name os, o.Writable := by
  unfold listed
  split
  · nofun
  · exact List.forall_mem_singleton.2 (block_writable hname h)

theorem Plain.scope_texts (h : s.Plain) {e : ScopeEntry} (he : e ∈ s.scopes) :
    isPlainText e.key = true ∧ isPlainText e.kind = true ∧ isPlainText e.className = true ∧
      (∀ k ∈ e.parent, isPlainText k = true) ∧ ∀ k ∈ e.function, isPlainText k = true := by
  have hall : ∀ text ∈ [e.key, e.kind, e.className] ++ e.parent.toList ++ e.function.toList,
      isPlainText text = true := fun text ht =>
    h.texts text (List.mem_cons_of_mem _ (List.mem_append_left _ (List.mem_append_left _
      (List.mem_append_right _ (List.mem_flatMap.2 ⟨e, he, ht⟩)))))
  simpa [List.forall_mem_append, or_imp, forall_and] using hall

theorem scopeBlock_writable (h : s.Plain) (l : Layout) {e : ScopeEntry} (he : e ∈ s.scopes) :
    (s.scopeBlock l e).Writable := by
  obtain ⟨hkey, hkind, hclass, hparent, hfunction⟩ := h.scope_texts he
  have hfixed : Among ["id", "type", "className"]
      [("id", e.key), ("type", e.kind), ("className", e.className)] :=
    .cons hkey (.cons hkind (.cons hclass .nil))
  have hall := (((hfixed.append (.placeOf "bodyStart" e.key l.bodyStart)).append
    (.placeOf "bodyEnd" e.key l.bodyEnd)).append (.given "nestedIn" hparent)).append
    (.given "function" hfunction)
  refine ⟨⟨by decide, hall.plain (by decide) (by decide)⟩, Outline.allWritable_iff.2 ?_⟩
  refine List.forall_mem_append.2 ⟨listed_writable (by decide) ?_, listed_writable (by decide) ?_⟩
  · refine List.forall_mem_map.2 fun f hf => ?_
    obtain ⟨hkey, hname, hkind⟩ := h.function_texts (List.mem_of_mem_filter hf)
    exact functionLeaf_writable l hkey hname hkind
  · refine List.forall_mem_map.2 fun v hv => ?_
    have hkey := (h.var_texts (List.mem_of_mem_filter hv)).1
    exact ⟨by decide, (Among.cons hkey .nil).plain (by decide) (by decide)⟩

theorem directive_writable (hsource : isPlainText s.source.text = true) {target : String} (i : Nat)
    (h : isPlainText target = true) : (s.directive target i).Writable := by
  have hstr : isPlainText ("#include \"" ++ target ++ "\"") = true :=
    isPlainText_append.2 ⟨isPlainText_append.2 ⟨by decide, h⟩, by decide⟩
  exact ⟨by decide, (Among.cons hsource (.cons (isPlainText_toString _) (.cons hstr .nil))).plain
    (by decide) (by decide)⟩

theorem rawInclude_writable {target : String} (i : Nat) (h : isPlainText target = true) :
    ∀ o ∈ rawInclude target i, o.Writable := by
  have hquoted : isPlainText ("\"" ++ target ++ "\"") = true :=
    isPlainText_append.2 ⟨isPlainText_append.2 ⟨by decide, h⟩, by decide⟩
  simp only [rawInclude, List.forall_mem_cons]
  exact ⟨rawToken_writable _ _ (by decide), rawToken_writable _ _ (by decide),
    rawToken_writable _ _ hquoted, nofun⟩

theorem Plain.source_text (h : s.Plain) : isPlainText s.source.text = true :=
  h.texts _ List.mem_cons_self

theorem Plain.include_text (h : s.Plain) {p : String × Nat} (hp : p ∈ s.includes.zipIdx) :
    isPlainText p.1 = true :=
  h.texts _ (List.mem_cons_of_mem _ (List.mem_append_left _ (List.mem_append_left _
    (List.mem_append_left _ (List.fst_mem_of_mem_zipIdx hp)))))

theorem rawTokens_writable (h : s.Plain) : (s.rawTokens s.layout).Writable := by
  refine block_writable (by decide)
    (List.forall_mem_append.2 ⟨List.forall_mem_append.2 ⟨?_, ?_⟩, ?_⟩)
  · refine List.forall_mem_singleton.2 ⟨by decide, ?_⟩
    exact (Among.cons (by decide) (.cons h.source_text .nil)).plain (by decide) (by decide)
  · intro o ho
    obtain ⟨p, hp, ho⟩ := List.mem_flatMap.1 ho
    exact rawInclude_writable p.2 (h.include_text hp) o ho
  · refine List.forall_mem_map.2 fun p hp => rawToken_writable _ _ ?_
    exact (layout_holds h.lines).texts p hp _ List.mem_cons_self

theorem configuration_writable (h : s.Plain) : (s.configuration s.layout).Writable := by
  refine ⟨⟨by decide, (Among.cons (by decide) .nil).plain (by decide) (by decide)⟩,
    Outline.allWritable_iff.2 ?_⟩
  simp only [List.forall_mem_cons]
  refine ⟨block_writable (by decide) ?_, block_writable (by decide) ?_,
    block_writable (by decide) ?_, block_writable (by decide) ?_, nofun⟩
  · exact List.forall_mem_map.2 fun p hp => directive_writable h.source_text p.2 (h.include_text hp)
  · refine List.forall_mem_map.2 fun p hp => ?_
    have htexts := (layout_holds h.lines).texts p.1 (List.fst_mem_of_mem_zipIdx hp)
    exact token_writable h.source_text _ p.2 htexts
  · exact List.forall_mem_map.2 fun e he => scopeBlock_writable h s.layout he
  · refine List.forall_mem_map.2 fun v hv => ?_
    obtain ⟨hkey, hscope, haccess⟩ := h.var_texts hv
    exact variableLeaf_writable s.layout hkey hscope haccess

theorem outline_writable (h : s.Plain) : s.outline.Writable := by
  refine block_writable (by decide) (List.forall_mem_append.2 ⟨?_, ?_⟩)
  · exact List.forall_mem_singleton.2 (rawTokens_writable h)
  · split
    · nofun
    · exact List.forall_mem_singleton.2 (configuration_writable h)

end Writable

section Elements
variable {s : Sketch} {l : Layout}

/-- The functions scope by scope, each with the position of its scope. -/
def ownedFunctions (s : Sketch) : List (FunctionEntry × Nat) :=
  s.scopes.zipIdx.flatMap fun p => (s.functions.filter (·.owner == p.1.key)).map fun f => (f, p.2)

theorem parts_of_child {α : Type} {e : Element} {list item : String} (items : List α)
    (part : α → Outline)
    (hchild : e.child? list = some (Outline.block list [] (items.map part)).element)
    (h : ∀ a, (part a).element.name = item) :
    Load.section? e list item = items.map fun a => (part a).element := by
  rw [Load.section?, hchild, Option.map_some, Option.getD_some, Outline.element,
    Outline.elements_eq_map, List.map_map]
  refine List.filter_eq_self.2 (List.forall_mem_map.2 fun a _ => ?_)
  rw [Function.comp_apply, h a, beq_self_eq_true]

theorem find?_elements_eq_none {list : String} {os : List Outline}
    (h : ∀ o ∈ os, o.element.name ≠ list) :
    (os.map Outline.element).find? (·.name == list) = none := by
  simpa using h

theorem parts_of_listed {α : Type} {e : Element} {list item : String} (before : List Outline)
    (items : List α) (part : α → Outline) (after : List Outline)
    (hchildren : e.children =
      (before ++ listed list (items.map part) ++ after).map Outline.element)
    (hbefore : ∀ o ∈ before, o.element.name ≠ list) (hafter : ∀ o ∈ after, o.element.name ≠ list)
    (h : ∀ a, (part a).element.name = item) :
    Load.section? e list item = items.map fun a => (part a).element := by
  have hchild : e.child? list =
      ((listed list (items.map part)).map Outline.element).find? (·.name == list) := by
    rw [Element.child?, hchildren, List.map_append, List.map_append, List.find?_append,
      List.find?_append, find?_elements_eq_none hbefore, find?_elements_eq_none hafter,
      Option.none_or, Option.or_none]
  cases items with
  | nil =>
    rw [Load.section?, hchild]
    rfl
  | cons a items =>
    refine parts_of_child (a :: items) part (hchild.trans ?_) h
    simp [listed, Outline.element, Element.name]

theorem name_of_mem_listed {name : String} {os : List Outline} {o : Outline}
    (h : o ∈ listed name os) : o.element.name = name := by
  unfold listed at h
  split at h
  · cases h
  · obtain rfl := List.mem_singleton.1 h
    rfl

theorem tokensIn_configuration : Load.tokensIn (s.configuration l).element =
    l.placed.zipIdx.map fun p =>
      (s.token (bracketPairs (l.placed.map Placed.text)) p.1 p.2).element :=
  parts_of_child l.placed.zipIdx
    (fun p => s.token (bracketPairs (l.placed.map Placed.text)) p.1 p.2) rfl fun _ => rfl

theorem scopesIn_configuration : Load.scopesIn (s.configuration l).element =
    s.scopes.map fun e => (s.scopeBlock l e).element :=
  parts_of_child s.scopes (s.scopeBlock l) rfl fun _ => rfl

theorem varsIn_configuration : Load.varsIn (s.configuration l).element =
    s.vars.map fun v => (variableLeaf l v).element :=
  parts_of_child s.vars (variableLeaf l) rfl fun _ => rfl

theorem directivesIn_configuration :
    Load.section? (s.configuration l).element "directivelist" "directive" =
      s.includes.zipIdx.map fun p => (s.directive p.1 p.2).element :=
  parts_of_child s.includes.zipIdx (fun p => s.directive p.1 p.2) rfl fun _ => rfl

theorem children_scopeBlock (e : ScopeEntry) : (s.scopeBlock l e).element.children =
    (listed "functionList" ((s.functions.filter (·.owner == e.key)).map (functionLeaf l)) ++
      listed "varlist" ((s.vars.filter (·.scope == e.key)).map fun v =>
        .leaf "var" [("id", v.key)])).map Outline.element :=
  Outline.elements_eq_map _

theorem functionsOf_scopeBlock (e : ScopeEntry) :
    Load.section? (s.scopeBlock l e).element "functionList" "function" =
      (s.functions.filter (·.owner == e.key)).map fun f => (functionLeaf l f).element := by
  have hchildren := children_scopeBlock (s := s) (l := l) e
  rw [← List.nil_append (listed "functionList" _)] at hchildren
  refine parts_of_listed _ _ _ _ hchildren nofun (fun o ho => ?_) fun _ => rfl
  rw [name_of_mem_listed ho]
  decide

theorem varsOf_scopeBlock (e : ScopeEntry) :
    Load.section? (s.scopeBlock l e).element "varlist" "var" =
      (s.vars.filter (·.scope == e.key)).map fun v =>
        (Outline.leaf "var" [("id", v.key)]).element := by
  have hchildren := children_scopeBlock (s := s) (l := l) e
  rw [← List.append_nil (listed "functionList" _ ++ _)] at hchildren
  refine parts_of_listed _ _ _ _ hchildren (fun o ho => ?_) nofun fun _ => rfl
  rw [name_of_mem_listed ho]
  decide

theorem functionsIn_configuration : Load.functionsIn (s.configuration l).element =
    s.ownedFunctions.map fun p => ((functionLeaf l p.1).element, p.2) := by
  rw [Load.functionsIn, scopesIn_configuration, List.zipIdx_map, List.flatMap_map, ownedFunctions,
    List.map_flatMap]
  refine List.flatMap_congr fun p _ => ?_
  simp [functionsOf_scopeBlock]

theorem token_attributes (s : Sketch) (pairs : List (Nat × Nat)) (t : Placed) (i : Nat)
    {el : Element} (h : el = (s.token pairs t i).element) :
    el.attribute? "id" = some (tokenId i) ∧ el.attribute? "fileIndex" = some "0" ∧
      el.attribute? "str" = some t.text ∧ el.attribute? "linenr" = some (toString t.line) ∧
      el.attribute? "column" = some (toString t.column) ∧ el.attribute? "scope" = some t.scope ∧
      el.attribute? "variable" = t.var ∧ el.attribute? "function" = t.function ∧
      el.attribute? "link" = (partner? pairs i).map tokenId ∧
      el.attribute? "valueType-typeScope" = t.valueType := by
  subst h
  simp [token, Outline.element, Element.attribute?, Element.attributes, List.lookup_append,
    List.lookup_cons, lookup_given_ne]

theorem scope_attributes (s : Sketch) (l : Layout) (e : ScopeEntry) {el : Element}
    (h : el = (s.scopeBlock l e).element) :
    el.attribute? "id" = some e.key ∧ el.attribute? "type" = some e.kind ∧
      el.attribute? "className" = some e.className ∧
      el.attribute? "bodyStart" = (l.bodyStart.lookup e.key).map tokenId ∧
      el.attribute? "bodyEnd" = (l.bodyEnd.lookup e.key).map tokenId ∧
      el.attribute? "nestedIn" = e.parent ∧ el.attribute? "function" = e.function := by
  subst h
  simp [scopeBlock, placeOf, Outline.element, Element.attribute?, Element.attributes,
    List.lookup_append, List.lookup_cons, lookup_given_ne]

theorem function_attributes (l : Layout) (f : FunctionEntry) {el : Element}
    (h : el = (functionLeaf l f).element) :
    el.attribute? "id" = some f.key ∧ el.attribute? "name" = some f.name ∧
      el.attribute? "type" = some f.kind ∧
      el.attribute? "tokenDef" = (l.definition.lookup f.key).map tokenId ∧
      el.attribute? "hasVirtualSpecifier" = some (truth f.isVirtual) ∧
      el.attribute? "isImplicitlyVirtual" = none ∧ el.attribute? "isStatic" = none := by
  subst h
  simp [functionLeaf, placeOf, Outline.element, Element.attribute?, Element.attributes,
    List.lookup_append, List.lookup_cons, lookup_given_ne]

theorem variable_attributes (l : Layout) (v : VariableEntry) {el : Element}
    (h : el = (variableLeaf l v).element) :
    el.attribute? "id" = some v.key ∧
      el.attribute? "nameToken" = (l.nameToken.lookup v.key).map tokenId ∧
      el.attribute? "typeStartToken" = (l.typeStart.lookup v.key).map tokenId ∧
      el.attribute? "typeEndToken" = (l.typeEnd.lookup v.key).map tokenId ∧
      el.attribute? "access" = some v.access ∧ el.attribute? "scope" = some v.scope ∧
      el.attribute? "isReference" = some (truth v.isReference) ∧
      el.attribute? "isStatic" = some (truth v.isStatic) := by
  subst h
  simp [variableLeaf, placeOf, Outline.element, Element.attribute?, Element.attributes,
    List.lookup_append, List.lookup_cons, lookup_given_ne]

end Elements

end SpaceAudit.Sketch
