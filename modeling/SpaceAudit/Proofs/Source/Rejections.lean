import SpaceAudit.Proofs.Source.TokenIds

/-! Which documents are refused. A document is judged by the names of its elements and by which of
them carry an id, and never by where its references lead. Whatever is not refused is loaded in full,
with a configuration for each section and all raw tokens, in the order of the document. -/
namespace SpaceAudit
open Markup (Element)

namespace Load
variable {e el : Element} {list item : String}

def FirstNamed (e : Element) (name : String) (l : Element) : Prop :=
  ∃ before after, e.children = before ++ l :: after ∧ l.name = name ∧
    ∀ x ∈ before, x.name ≠ name

def Listed (e : Element) (list item : String) (el : Element) : Prop :=
  ∃ l, FirstNamed e list l ∧ el ∈ l.children ∧ el.name = item

/-- `el` is an element that a record of the section `e` is made of. Functions stand in the scopes
that declare them. -/
inductive RecordOf (e : Element) : RecordKind → Element → Prop where
  | token {el : Element} (h : Listed e "tokenlist" "token" el) : RecordOf e .token el
  | scope {el : Element} (h : Listed e "scopes" "scope" el) : RecordOf e .scope el
  | function {s el : Element} (hs : Listed e "scopes" "scope" s)
      (h : Listed s "functionList" "function" el) : RecordOf e .function el
  | var {el : Element} (h : Listed e "variables" "var" el) : RecordOf e .var el

theorem child?_eq_some_iff {name : String} {l : Element} :
    e.child? name = some l ↔ FirstNamed e name l := by
  rw [Element.child?, List.find?_eq_some_iff_append]
  simp only [beq_iff_eq, Bool.not_eq_true', beq_eq_false_iff_ne, FirstNamed]
  constructor
  · rintro ⟨hname, before, after, hsplit, hbefore⟩
    exact ⟨before, after, hsplit, hname, hbefore⟩
  · rintro ⟨before, after, hsplit, hname, hbefore⟩
    exact ⟨hname, before, after, hsplit, hbefore⟩

theorem mem_section?_iff : el ∈ section? e list item ↔ Listed e list item el := by
  simp only [Listed, ← child?_eq_some_iff, section?]
  cases e.child? list with
  | none => simp
  | some l => simp [Element.childrenNamed]

def recordsIn (e : Element) : RecordKind → List Element
  | .token => tokensIn e
  | .scope => scopesIn e
  | .function => (functionsIn e).map Prod.fst
  | .var => varsIn e

theorem mem_functionsIn_iff :
    el ∈ (functionsIn e).map Prod.fst ↔
      ∃ s ∈ scopesIn e, el ∈ section? s "functionList" "function" := by
  have hscopes : (scopesIn e).zipIdx.map Prod.fst = scopesIn e := List.zipIdx_map_fst 0 _
  constructor
  · intro h
    obtain ⟨⟨f, i⟩, hf, rfl⟩ := List.mem_map.1 h
    obtain ⟨⟨s, j⟩, hs, hf⟩ := List.mem_flatMap.1 hf
    obtain ⟨f', hf', heq⟩ := List.mem_map.1 hf
    obtain rfl := (Prod.mk.inj heq).1
    exact ⟨s, hscopes ▸ List.mem_map_of_mem hs, hf'⟩
  · rintro ⟨s, hs, hf⟩
    rw [← hscopes] at hs
    obtain ⟨⟨s', i⟩, hs', rfl⟩ := List.mem_map.1 hs
    exact List.mem_map.2 ⟨(el, i), List.mem_flatMap.2 ⟨(s', i), hs', List.mem_map_of_mem hf⟩, rfl⟩

theorem mem_recordsIn_iff {k : RecordKind} : el ∈ recordsIn e k ↔ RecordOf e k el := by
  constructor
  · intro h
    cases k with
    | token => exact .token (mem_section?_iff.1 h)
    | scope => exact .scope (mem_section?_iff.1 h)
    | function =>
      obtain ⟨s, hs, hf⟩ := mem_functionsIn_iff.1 h
      exact .function (mem_section?_iff.1 hs) (mem_section?_iff.1 hf)
    | var => exact .var (mem_section?_iff.1 h)
  · intro h
    cases h with
    | token h => exact mem_section?_iff.2 h
    | scope h => exact mem_section?_iff.2 h
    | function hs h =>
      exact mem_functionsIn_iff.2 ⟨_, mem_section?_iff.2 hs, mem_section?_iff.2 h⟩
    | var h => exact mem_section?_iff.2 h

theorem not_identified_iff {es : List Element} :
    ¬ Identified es ↔ ∃ el ∈ es, el.attribute? "id" = none := by
  simp [Identified]

theorem identified_of_idsOf {n : Nat} {es : List Element} {ids : Vector String n}
    (h : IdsOf es ids) : Identified es := by
  intro el hel
  obtain ⟨i, hi⟩ := List.mem_iff_getElem?.1 hel
  have hlt : i < n := by
    obtain ⟨hlt, _⟩ := List.getElem?_eq_some_iff.1 hi
    rwa [← h.length]
  have hcarries : Carries es i (ids.get ⟨i, hlt⟩) := h.get ⟨i, hlt⟩
  rw [Carries, hi, Option.bind_some] at hcarries
  rw [hcarries]
  rfl

theorem idsOf_eq_error {n : Nat} {kind : RecordKind} {es : Vector Element n} {r : Rejection}
    (h : idsOf kind es = .error r) : r = .withoutId kind ∧ ¬ Identified es.toList := by
  constructor
  · unfold idsOf at h
    split at h
    · cases h
    · exact (Except.error.inj h).symm
  · intro hids
    obtain ⟨ids, hok⟩ := exists_idsOf kind es hids
    rw [hok] at h
    cases h

theorem configuration_eq_error {t : FileTable} {r : Rejection}
    (h : configuration e t = .error r) :
    ∃ k, r = .withoutId k ∧ ¬ Identified (recordsIn e k) := by
  unfold configuration at h
  rcases error_of_bind h with h | ⟨_, _, h⟩
  · exact ⟨.token, idsOf_eq_error h⟩
  rcases error_of_bind h with h | ⟨_, _, h⟩
  · exact ⟨.scope, idsOf_eq_error h⟩
  rcases error_of_bind h with h | ⟨_, _, h⟩
  · have hfunctions := idsOf_eq_error h
    rw [functionElements_toList] at hfunctions
    exact ⟨.function, hfunctions⟩
  rcases error_of_bind h with h | ⟨_, _, h⟩
  · exact ⟨.var, idsOf_eq_error h⟩
  · cases h

theorem Ids.Of.identified {x : Extent} {ids : Ids x} (h : ids.Of e) (k : RecordKind) :
    Identified (recordsIn e k) := by
  cases k with
  | token => exact identified_of_idsOf h.tokens
  | scope => exact identified_of_idsOf h.scopes
  | function => exact identified_of_idsOf h.functions
  | var => exact identified_of_idsOf h.vars

theorem Sheet.addAll_eq_error {es : List Element} {s : Sheet} {r : Rejection}
    (h : es.foldlM Sheet.add s = .error r) :
    ∃ e ∈ es, e.name = "dump" ∧ ∃ t, configuration e t = .error r := by
  induction es generalizing s with
  | nil => cases h
  | cons e es ih =>
    rw [List.foldlM_cons] at h
    rcases error_of_bind h with h | ⟨next, _, h⟩
    · unfold Sheet.add at h
      split at h
      · cases h
      · split at h
        · rename_i hname
          split at h
          · rename_i r' hload
            obtain rfl : r' = r := Except.error.inj h
            exact ⟨e, List.mem_cons_self, hname, s.files, hload⟩
          · cases h
        · cases h
    · obtain ⟨e', he', hload⟩ := ih h
      exact ⟨e', List.mem_cons_of_mem e he', hload⟩

/-- A raw token says what its element says. -/
structure RawTokenFrom (el : Element) (tok : RawToken) : Prop where
  text : tok.text = el.attributeD "str"
  line : tok.line = el.number "linenr"
  column : tok.column = el.number "column"

theorem length_resolveAll (t : FileTable) (es : List Element) :
    (t.resolveAll es).1.length = es.length := by
  induction es generalizing t with
  | nil => rfl
  | cons e es ih => simp [FileTable.resolveAll, ih]

theorem rawTokens_from (t : FileTable) (e : Element) :
    List.Forall₂ RawTokenFrom (e.childrenNamed "tok") (rawTokens t e).1 := by
  rw [List.forall₂_iff_get]
  refine ⟨by simp [rawTokens, length_resolveAll], fun i hi _ => ?_⟩
  constructor <;> simp [rawTokens]

def rawElements (es : List Element) : List Element :=
  (es.filter (·.name == "rawtokens")).flatMap (·.childrenNamed "tok")

/-- The raw tokens of the sections `read`, and whether there was a place for some. -/
structure Sheet.ReadsRaw (read : List Element) (s : Sheet) : Prop where
  hasRaw : s.hasRaw = true ↔ ∃ e ∈ read, e.name = "rawtokens"
  rawTokens : List.Forall₂ RawTokenFrom (rawElements read) s.rawTokens

theorem Sheet.ReadsRaw.pass {read : List Element} {s s' : Sheet} (h : s.ReadsRaw read)
    (hname : e.name ≠ "rawtokens") (hraw : s'.hasRaw = s.hasRaw)
    (htokens : s'.rawTokens = s.rawTokens) : s'.ReadsRaw (read ++ [e]) := by
  have hsame : rawElements (read ++ [e]) = rawElements read := by
    simp [rawElements, hname]
  constructor
  · rw [hraw, h.hasRaw]
    simp [or_and_right, exists_or, hname]
  · rw [hsame, htokens]
    exact h.rawTokens

theorem Sheet.ReadsRaw.add {read : List Element} {s s' : Sheet} (h : s.ReadsRaw read)
    (hadd : s.Adds e s') : s'.ReadsRaw (read ++ [e]) := by
  cases hadd with
  | raw hname =>
    have hmore : rawElements (read ++ [e]) = rawElements read ++ e.childrenNamed "tok" := by
      simp [rawElements, hname]
    refine ⟨iff_of_true rfl ⟨e, by simp, hname⟩, ?_⟩
    rw [hmore]
    exact List.rel_append h.rawTokens (rawTokens_from s.files e)
  | configuration hname _ => exact h.pass (by simp [hname]) rfl rfl
  | other hname _ => exact h.pass hname rfl rfl

end Load

namespace Markup.Element

mutual

/-- What is left of an element without the values of its attributes: the names, and whether there is
an id. -/
def skeleton : Element → Element
  | node name attributes children =>
    node name (if (attributes.lookup "id").isSome then [("id", "")] else []) (skeletons children)

def skeletons : List Element → List Element
  | [] => []
  | e :: es => e.skeleton :: skeletons es

end

variable (e : Element) (name : String)

theorem skeletons_eq_map (es : List Element) : skeletons es = es.map skeleton := by
  induction es with
  | nil => rfl
  | cons e es ih => rw [skeletons, ih, List.map_cons]

theorem name_skeleton : e.skeleton.name = e.name := by
  cases e
  rfl

theorem children_skeleton : e.skeleton.children = e.children.map skeleton := by
  cases e
  exact skeletons_eq_map _

theorem id_skeleton_eq_none : e.skeleton.attribute? "id" = none ↔ e.attribute? "id" = none := by
  cases e with
  | node n attributes children =>
    cases hid : attributes.lookup "id" with
    | none => simp [skeleton, attribute?, Element.attributes, hid]
    | some id => simp [skeleton, attribute?, Element.attributes, hid]

theorem childrenNamed_skeleton :
    e.skeleton.childrenNamed name = (e.childrenNamed name).map skeleton := by
  rw [childrenNamed, children_skeleton, List.filter_map, childrenNamed]
  simp only [Function.comp_def, name_skeleton]

theorem child?_skeleton : e.skeleton.child? name = (e.child? name).map skeleton := by
  rw [child?, children_skeleton, List.find?_map, child?]
  simp only [Function.comp_def, name_skeleton]

end Markup.Element

namespace SourceUnit
variable {dumpPath : Path} {root : Element} {u : SourceUnit} {r : Rejection}

/-- What is wrong with the structure of a document. -/
inductive Misshapen (root : Element) : Rejection → Prop where
  | wrongRoot (h : root.name ≠ "dumps") : Misshapen root (.wrongRoot root.name)
  | nothing (h : ∀ e ∈ root.children, e.name ≠ "rawtokens" ∧ e.name ≠ "dump") :
      Misshapen root .nothing
  | withoutId {e el : Element} {k : RecordKind} (he : e ∈ root.children) (hdump : e.name = "dump")
      (hrecord : Load.RecordOf e k el) (hid : el.attribute? "id" = none) :
      Misshapen root (.withoutId k)

theorem readsRaw_of_addAll {es : List Element} {s : Load.Sheet}
    (h : es.foldlM Load.Sheet.add ⟨.empty, false, [], []⟩ = .ok s) : s.ReadsRaw es := by
  have hempty : Load.Sheet.ReadsRaw [] ⟨.empty, false, [], []⟩ := ⟨by simp, .nil⟩
  simpa using Load.Sheet.keeps_of_addAll Load.Sheet.ReadsRaw.add hempty h

theorem configurations_eq_nil_iff {es : List Element} {s : Load.Sheet} (h : s.Configured es) :
    s.configurations = [] ↔ ∀ e ∈ es, e.name ≠ "dump" := by
  rw [← List.length_eq_zero_iff, ← h.length_eq, List.length_eq_zero_iff, List.filter_eq_nil_iff]
  simp

theorem misshapen_of_ofElement (h : ofElement dumpPath root = .error r) : Misshapen root r := by
  unfold ofElement at h
  split at h
  · rename_i hname
    obtain rfl := Except.error.inj h
    exact .wrongRoot hname
  · split at h
    · rename_i r' hadd
      obtain rfl : r' = r := Except.error.inj h
      obtain ⟨e, he, hdump, t, hload⟩ := Load.Sheet.addAll_eq_error hadd
      obtain ⟨k, rfl, hids⟩ := Load.configuration_eq_error hload
      obtain ⟨el, hel, hid⟩ := Load.not_identified_iff.1 hids
      exact .withoutId he hdump (Load.mem_recordsIn_iff.1 hel) hid
    · rename_i s hs
      split at h
      · rename_i hempty
        obtain rfl := Except.error.inj h
        simp only [Bool.and_eq_true, Bool.not_eq_true', List.isEmpty_iff] at hempty
        have hdump := (configurations_eq_nil_iff (Load.Sheet.configured_of_addAll hs)).1 hempty.2
        refine .nothing fun e he => ⟨fun hraw => ?_, hdump e he⟩
        rw [(readsRaw_of_addAll hs).hasRaw.2 ⟨e, he, hraw⟩] at hempty
        cases hempty.1
      · cases h

theorem not_misshapen_of_ofElement (h : ofElement dumpPath root = .ok u) (r : Rejection) :
    ¬ Misshapen root r := by
  obtain ⟨hname, s, hs, hsome, rfl⟩ := ofElement_eq_ok_iff.1 h
  intro hwrong
  cases hwrong with
  | wrongRoot hroot => exact hroot hname
  | nothing hnone =>
    cases hsome with
    | inl hraw =>
      obtain ⟨e, he, hraw⟩ := (readsRaw_of_addAll hs).hasRaw.1 hraw
      exact (hnone e he).1 hraw
    | inr hsections =>
      have hconfigured := Load.Sheet.configured_of_addAll hs
      exact hsections ((configurations_eq_nil_iff hconfigured).2 fun e he => (hnone e he).2)
  | @withoutId e el k he hdump hrecord hid =>
    have hmem : e ∈ root.children.filter (·.name == "dump") :=
      List.mem_filter.2 ⟨he, by simp [hdump]⟩
    obtain ⟨i, hi, hget⟩ := List.mem_iff_getElem.1 hmem
    have hconfigured := Load.Sheet.configured_of_addAll hs
    obtain ⟨files, ids, hholds⟩ := hconfigured.get hi (hconfigured.length_eq ▸ hi)
    rw [List.get_eq_getElem, hget] at hholds
    have hsome := hholds.idsOf.identified k el (Load.mem_recordsIn_iff.2 hrecord)
    rw [hid] at hsome
    cases hsome

theorem ofElement_eq_error_iff :
    (∃ r, ofElement dumpPath root = .error r) ↔ ∃ r, Misshapen root r := by
  constructor
  · rintro ⟨r, h⟩
    exact ⟨r, misshapen_of_ofElement h⟩
  · rintro ⟨r, hwrong⟩
    cases h : ofElement dumpPath root with
    | error r => exact ⟨r, rfl⟩
    | ok u => exact absurd hwrong (not_misshapen_of_ofElement h r)

/-- A unit holds what its document says, in the order of the document. -/
structure ReadInOrder (dumpPath : Path) (root : Element) (u : SourceUnit) : Prop where
  dumpPath : u.dumpPath = dumpPath
  configurations : List.Forall₂ (fun e c => ∃ files ids, Load.Holds e files c ids)
    (root.childrenNamed "dump") u.configurations
  rawTokens : List.Forall₂ Load.RawTokenFrom (Load.rawElements root.children) u.rawTokens

theorem readInOrder_of_ofElement (h : ofElement dumpPath root = .ok u) :
    ReadInOrder dumpPath root u := by
  obtain ⟨s, hs, rfl⟩ := exists_sheet_of_ofElement h
  exact ⟨rfl, Load.Sheet.configured_of_addAll hs, (readsRaw_of_addAll hs).rawTokens⟩

theorem listed_skeleton_iff {e el : Element} {list item : String} :
    Load.Listed e.skeleton list item el ↔ ∃ x, Load.Listed e list item x ∧ x.skeleton = el := by
  have hsection : Load.section? e.skeleton list item =
      (Load.section? e list item).map Element.skeleton := by
    rw [Load.section?, Element.child?_skeleton, Load.section?]
    cases e.child? list with
    | none => rfl
    | some l => exact Element.childrenNamed_skeleton l item
  simp only [← Load.mem_section?_iff, hsection, List.mem_map]

theorem recordOf_skeleton_iff {e el : Element} {k : RecordKind} :
    Load.RecordOf e.skeleton k el ↔ ∃ x, Load.RecordOf e k x ∧ x.skeleton = el := by
  constructor
  · intro h
    cases h with
    | token h =>
      obtain ⟨x, hx, hel⟩ := listed_skeleton_iff.1 h
      exact ⟨x, .token hx, hel⟩
    | scope h =>
      obtain ⟨x, hx, hel⟩ := listed_skeleton_iff.1 h
      exact ⟨x, .scope hx, hel⟩
    | function hs h =>
      obtain ⟨s, hs', rfl⟩ := listed_skeleton_iff.1 hs
      obtain ⟨x, hx, hel⟩ := listed_skeleton_iff.1 h
      exact ⟨x, .function hs' hx, hel⟩
    | var h =>
      obtain ⟨x, hx, hel⟩ := listed_skeleton_iff.1 h
      exact ⟨x, .var hx, hel⟩
  · rintro ⟨x, h, rfl⟩
    cases h with
    | token h => exact .token (listed_skeleton_iff.2 ⟨x, h, rfl⟩)
    | scope h => exact .scope (listed_skeleton_iff.2 ⟨x, h, rfl⟩)
    | function hs h =>
      exact .function (listed_skeleton_iff.2 ⟨_, hs, rfl⟩) (listed_skeleton_iff.2 ⟨x, h, rfl⟩)
    | var h => exact .var (listed_skeleton_iff.2 ⟨x, h, rfl⟩)

/-- The skeleton of a document has the same faults as the document. -/
theorem misshapen_skeleton_iff : Misshapen root.skeleton r ↔ Misshapen root r := by
  constructor
  · intro h
    cases h with
    | wrongRoot h =>
      rw [Element.name_skeleton] at h ⊢
      exact .wrongRoot h
    | nothing h =>
      refine .nothing fun e he => ?_
      have hskeleton : e.skeleton ∈ root.skeleton.children := by
        rw [Element.children_skeleton]
        exact List.mem_map_of_mem he
      simpa only [Element.name_skeleton] using h _ hskeleton
    | withoutId he hdump hrecord hid =>
      rw [Element.children_skeleton] at he
      obtain ⟨e, he', rfl⟩ := List.mem_map.1 he
      obtain ⟨x, hx, rfl⟩ := recordOf_skeleton_iff.1 hrecord
      rw [Element.name_skeleton] at hdump
      exact .withoutId he' hdump hx ((Element.id_skeleton_eq_none x).1 hid)
  · intro h
    cases h with
    | wrongRoot h =>
      rw [← Element.name_skeleton] at h ⊢
      exact .wrongRoot h
    | nothing h =>
      refine .nothing fun e he => ?_
      rw [Element.children_skeleton] at he
      obtain ⟨x, hx, rfl⟩ := List.mem_map.1 he
      simpa only [Element.name_skeleton] using h x hx
    | @withoutId e el k he hdump hrecord hid =>
      have he' : e.skeleton ∈ root.skeleton.children := by
        rw [Element.children_skeleton]
        exact List.mem_map_of_mem he
      refine .withoutId he' ?_ (recordOf_skeleton_iff.2 ⟨el, hrecord, rfl⟩)
        ((Element.id_skeleton_eq_none el).2 hid)
      rw [Element.name_skeleton, hdump]

/-- A document is refused if and only if its structure is at fault, and the fault that is given is
one that it has. What is not refused is loaded in full. So documents that differ in nothing but the
values of attributes are refused together or loaded together. -/
theorem refused_iff_misshapen (dumpPath : Path) (root : Element) :
    (∀ text, Markup.parse text = .ok root → ofText dumpPath text = ofElement dumpPath root) ∧
      ((∃ r, ofElement dumpPath root = .error r) ↔ ∃ r, Misshapen root r) ∧
      (∀ r, ofElement dumpPath root = .error r → Misshapen root r) ∧
      ((∀ r, ¬ Misshapen root r) →
        ∃ u, ofElement dumpPath root = .ok u ∧ ReadInOrder dumpPath root u) ∧
      ∀ other : Element, other.skeleton = root.skeleton →
        ((∃ r, ofElement dumpPath other = .error r) ↔ ∃ r, ofElement dumpPath root = .error r) := by
  refine ⟨fun text htext => ?_, ofElement_eq_error_iff, fun r => misshapen_of_ofElement,
    fun hfine => ?_, fun other hother => ?_⟩
  · rw [ofText, htext]
  · cases h : ofElement dumpPath root with
    | error r => exact absurd (misshapen_of_ofElement h) (hfine r)
    | ok u => exact ⟨u, rfl, readInOrder_of_ofElement h⟩
  · rw [ofElement_eq_error_iff, ofElement_eq_error_iff]
    refine exists_congr fun r => ?_
    rw [← misshapen_skeleton_iff, hother, misshapen_skeleton_iff]

/-- Sections out of order, twice and inside of others, with references that lead nowhere. What the
second list of tokens, the second list of functions and the note hold has no ids. -/
def scatteredDump (scope : List (String × String)) : Element :=
  .node "dumps" []
    [.node "dump" []
      [.node "scopes" []
          [.node "scope" (("nestedIn", "s9") :: scope)
            [.node "functionList" [] [.node "function" [("id", "f1"), ("tokenDef", "t9")] []],
              .node "functionList" [] [.node "function" [("name", "f")] []]]],
        .node "note" [] [.node "variables" [] [.node "var" [("nameToken", "t1")] []]],
        .node "tokenlist" [] [.node "token" [("id", "t1"), ("link", "t9"), ("linenr", "one")] []],
        .node "tokenlist" [] [.node "token" [("str", "f")] []]],
      .node "rawtokens" [] [.node "tok" [("fileIndex", "7"), ("str", "void")] []],
      .node "dump" [("cfg", "A")] [],
      .node "rawtokens" [] [.node "tok" [("str", "f")] []]]

/-- Without an id on its scope the document is refused. -/
theorem refused_iff_misshapen_scattered :
    (∀ r, ¬ Misshapen (scatteredDump [("id", "s1")]) r) ∧
      (∃ u, ofElement ⟨"a.cpp.dump"⟩ (scatteredDump [("id", "s1")]) = .ok u ∧
        ReadInOrder ⟨"a.cpp.dump"⟩ (scatteredDump [("id", "s1")]) u) ∧
      (scatteredDump [("id", "s2"), ("type", "Class")]).skeleton =
        (scatteredDump [("id", "s1")]).skeleton ∧
      Misshapen (scatteredDump []) (.withoutId .scope) ∧
      ∃ r, ofElement ⟨"a.cpp.dump"⟩ (scatteredDump []) = .error r := by
  have hok : (ofElement ⟨"a.cpp.dump"⟩ (scatteredDump [("id", "s1")])).isOk = true := by
    decide +kernel
  obtain ⟨_, hiff, _, hload, _⟩ :=
    refused_iff_misshapen ⟨"a.cpp.dump"⟩ (scatteredDump [("id", "s1")])
  have hfine : ∀ r, ¬ Misshapen (scatteredDump [("id", "s1")]) r := by
    intro r hwrong
    obtain ⟨r', herror⟩ := hiff.2 ⟨r, hwrong⟩
    rw [herror] at hok
    cases hok
  have hwrong : Misshapen (scatteredDump []) (.withoutId .scope) :=
    .withoutId List.mem_cons_self rfl
      (.scope ⟨_, ⟨[], _, rfl, rfl, by simp⟩, List.mem_cons_self, rfl⟩) rfl
  have hrefused := (refused_iff_misshapen ⟨"a.cpp.dump"⟩ (scatteredDump [])).2.1.2 ⟨_, hwrong⟩
  exact ⟨hfine, hload hfine, rfl, hwrong, hrefused⟩

end SourceUnit

end SpaceAudit
