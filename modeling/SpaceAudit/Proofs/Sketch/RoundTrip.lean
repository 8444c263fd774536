import SpaceAudit.Proofs.Path.Pieces
import SpaceAudit.Proofs.Sketch.Brackets
import SpaceAudit.Proofs.Sketch.Meaning
import SpaceAudit.Proofs.Source.Records

/-! Loading the dump of a sketch gives back what the sketch says: its words as tokens, its
declarations in their order, and references that lead where keys, remarks and brackets point. -/
namespace SpaceAudit.Sketch
open Markup (Outline Element)

/-- What a reference is for the key that names its target. -/
structure Refers {n : Nat} (keys : List String) (value : Option String) (r : Ref n) : Prop where
  absent : r = .absent ↔ value = none ∨ value = some "" ∨ value = some "0"
  resolved : ∀ i, r = .resolved i ↔ ∃ key, value = some key ∧ keys[i.val]? = some key
  dangling : ∀ key, r = .dangling key ↔ value = some key ∧ isKey key = true ∧ key ∉ keys

/-- The reference leads to the position that has a property, and nowhere if none has it. -/
structure Finds {n : Nat} (p : Nat → Prop) (r : Ref n) : Prop where
  absent : r = .absent ↔ ∀ i, ¬ p i
  resolved : ∀ i, (∃ h : i < n, r = .resolved ⟨i, h⟩) ↔ p i

/-- The words at two positions are partners among the brackets of one kind. -/
def Linked (texts : List String) (i j : Nat) : Prop :=
  ∃ k : Bracket, (i, j) ∈ k.matching texts ∨ (j, i) ∈ k.matching texts

section Laid
variable (s : Sketch)

def scopeKeys : List String := s.scopes.map ScopeEntry.key

def varKeys : List String := s.vars.map VariableEntry.key

def functionKeys : List String := s.ownedFunctions.map fun p => p.1.key

variable (rs : List Reading) {x : Extent}

structure TokenLaid (r : Reading) (i : Nat) (t : Token x) : Prop where
  id : t.id = tokenId i
  text : t.text = r.text
  file : t.file = 0
  line : t.line = Element.readBack r.line
  column : t.column = Element.readBack r.column
  scope : ∃ key, (∀ k, InScope rs i k ↔ k = key) ∧ Refers s.scopeKeys (some key) t.scope
  var : Refers s.varKeys (r.key? .var) t.var
  function : Refers s.functionKeys (r.key? .function) t.function
  link : Finds (Linked (rs.map Reading.text) i) t.link
  valueTypeScope : Refers s.scopeKeys (r.key? .valueType) t.valueTypeScope

structure ScopeLaid (e : ScopeEntry) (sc : Scope x) : Prop where
  id : sc.id = e.key
  kind : sc.kind = .ofName e.kind
  className : sc.className = e.className
  parent : Refers s.scopeKeys e.parent sc.parent
  bodyStart : Finds (Last (Named rs .bodyStart e.key)) sc.bodyStart
  bodyEnd : Finds (Last (Named rs .bodyEnd e.key)) sc.bodyEnd
  function : Refers s.functionKeys e.function sc.function
  vars : List.Forall₂ (fun v i => s.vars[i.val]? = some v) (s.vars.filter (·.scope == e.key))
    sc.vars

structure FunctionLaid (p : FunctionEntry × Nat) (f : Function x) : Prop where
  id : f.id = p.1.key
  name : f.name = p.1.name
  kind : f.kind = .ofName p.1.kind
  definition : Finds (Last (Named rs .definition p.1.key)) f.definition
  owner : f.owner.val = p.2
  isVirtual : f.isVirtual = p.1.isVirtual
  isStatic : f.isStatic = false

structure VariableLaid (e : VariableEntry) (v : Variable x) : Prop where
  id : v.id = e.key
  name : v.name = ((v.nameToken.get?.bind fun t => rs[t.val]?).map Reading.text).getD ""
  nameToken : Finds (Last (Named rs .nameToken e.key)) v.nameToken
  typeStart : Finds (Last (Named rs .typeStart e.key)) v.typeStart
  typeEnd : Finds (Last (Named rs .typeEnd e.key)) v.typeEnd
  access : v.access = .ofName e.access
  isStatic : v.isStatic = e.isStatic
  isReference : v.isReference = e.isReference
  scope : Refers s.scopeKeys (some e.scope) v.scope

def directivesLaid : List Directive :=
  s.includes.zipIdx.map fun p =>
    ⟨s.source, Element.readBack (p.2 + 1), "#include \"" ++ p.1 ++ "\""⟩

/-- The configuration is what the sketch says. A position that does not fit a number of the dump is
read as 0. -/
structure LaidOut (c : Configuration) : Prop where
  name : c.name = ""
  sections : c.sections = ⟨true, true, true, true⟩
  tokens : List.Forall₂ (fun p t => s.TokenLaid rs p.1 p.2 t) rs.zipIdx c.tokens.toList
  columns : (∀ r ∈ rs, r.line < UInt32.size ∧ r.column < UInt32.size) →
    c.tokens.toList.Pairwise fun a b => a.line = b.line → a.column < b.column
  scopes : List.Forall₂ (s.ScopeLaid rs) s.scopes c.scopes.toList
  functions : List.Forall₂ (FunctionLaid rs) s.ownedFunctions c.functions.toList
  everyFunction : (s.ownedFunctions.map Prod.fst).Perm s.functions
  vars : List.Forall₂ (s.VariableLaid rs) s.vars c.vars.toList
  directives : c.directives = s.directivesLaid

/-- Line, column and text of the raw tokens: three for each include, and one for each word. -/
def rawPlaces (positions : List (Nat × Nat × String)) : List (Nat × Nat × String) :=
  s.includes.zipIdx.flatMap (fun p =>
    [(p.2 + 1, 1, "#"), (p.2 + 1, 2, "include"), (p.2 + 1, 3, "\"" ++ p.1 ++ "\"")]) ++ positions

def rawLaid (positions : List (Nat × Nat × String)) : List RawToken :=
  (s.rawPlaces positions).map fun q =>
    ⟨q.2.2, 0, Element.readBack q.1, Element.readBack q.2.1⟩

/-- The unit is what the sketch stands for. -/
structure Built (u : SourceUnit) : Prop where
  dumpPath : u.dumpPath = s.source.dumpOf
  path : ∀ front name, s.source.Ends front name → name ≠ "" → name ≠ "." → u.path = s.source
  files : u.files = [s.source]
  rawTokens : u.rawTokens = s.rawLaid (rs.map Reading.position)
  header : s.headerOnly = true → u.configurations = []
  full : s.headerOnly = false → ∃ c, u.configurations = [c] ∧ s.LaidOut rs c

end Laid

section References
variable {n : Nat} {es : List Element} {keys : List String} {value : Option String} {r : Ref n}

/-- The elements carry keys that tell them apart. -/
structure Keyed (es : List Element) (keys : List String) : Prop where
  ids : es.map (fun e => e.attribute? "id") = keys.map some
  nodup : keys.Nodup
  isKey : ∀ key ∈ keys, isKey key = true

theorem isKey_iff {key : String} : isKey key = true ↔ key ≠ "" ∧ key ≠ "0" := by
  simp [isKey]

theorem Keyed.carries_iff (h : Keyed es keys) {i : Nat} {key : String} :
    Carries es i key ↔ keys[i]? = some key := by
  have hi : es[i]?.map (fun e => e.attribute? "id") = keys[i]?.map some := by
    rw [← List.getElem?_map, h.ids, List.getElem?_map]
  have hbind : (es[i]?.bind fun e => e.attribute? "id") = keys[i]? := by
    cases hes : es[i]? with
    | none =>
      rw [hes] at hi
      exact (Option.map_eq_none_iff.1 hi.symm).symm
    | some e =>
      rw [hes] at hi
      obtain ⟨key, hkey, he⟩ := Option.map_eq_some_iff.1 hi.symm
      rw [hkey, Option.bind_some, he]
  unfold Carries
  rw [hbind]

theorem Keyed.refers (h : Keyed es keys) (hd : Denotes es value r) : Refers keys value r where
  absent := hd.absent
  resolved i := by
    rw [hd.resolved]
    constructor
    · intro hr
      obtain ⟨key, hvalue, _, _, hi, _⟩ := hr
      exact ⟨key, hvalue, h.carries_iff.1 hi⟩
    · intro hr
      obtain ⟨key, hvalue, hi⟩ := hr
      obtain ⟨hne, hzero⟩ := isKey_iff.1 (h.isKey key (List.mem_of_getElem? hi))
      refine ⟨key, hvalue, hne, hzero, h.carries_iff.2 hi, fun j hj hcarries => ?_⟩
      -- No key stands at two positions.
      have hlt : i.val < keys.length := (List.getElem?_eq_some_iff.1 hi).1
      have heq := (List.getElem?_inj (by omega) h.nodup).1
        ((h.carries_iff.1 hcarries).trans hi.symm)
      omega
  dangling key := by
    rw [hd.dangling, isKey_iff, and_assoc]
    have hmem : (∀ j, ¬ Carries es j key) ↔ key ∉ keys := by
      rw [List.mem_iff_getElem?, not_exists]
      exact forall_congr' fun j => not_congr h.carries_iff
    rw [hmem]

theorem identified_of_ids (h : es.map (fun e => e.attribute? "id") = keys.map some) :
    Load.Identified es := by
  intro el hel
  have hid : el.attribute? "id" ∈ keys.map some := h ▸ List.mem_map_of_mem hel
  obtain ⟨key, _, hkey⟩ := List.mem_map.1 hid
  rw [← hkey, Option.isSome_some]

theorem tokenId_injective : Function.Injective tokenId := by
  intro i j h
  have hnumbers : (i + 1).repr = (j + 1).repr := (String.append_right_inj "t").1 h
  have hdigits : Nat.toDigits 10 (i + 1) = Nat.toDigits 10 (j + 1) :=
    String.ofList_injective hnumbers
  have hread := congrArg Element.digits? hdigits
  rw [Element.digits?_toDigits, Element.digits?_toDigits, Option.some.injEq] at hread
  omega

theorem isKey_tokenId (i : Nat) : isKey (tokenId i) = true := by
  have hhead : (tokenId i).toList.head? = some 't' := by simp [tokenId]
  refine isKey_iff.2 ⟨fun h => ?_, fun h => ?_⟩ <;> simp [h] at hhead

structure Points {n : Nat} (place : Option Nat) (r : Ref n) : Prop where
  absent : place = none → r = .absent
  resolved : ∀ i, place = some i → ∃ h : i < n, r = .resolved ⟨i, h⟩

theorem Points.finds {place : Option Nat} {p : Nat → Prop} (h : Points place r)
    (hp : ∀ i, place = some i ↔ p i) : Finds p r := by
  cases place with
  | none =>
    have hr := h.absent rfl
    have hnot (i : Nat) : ¬ p i := fun hi => nomatch (hp i).2 hi
    refine ⟨iff_of_true hr hnot, fun i => iff_of_false (fun hi => ?_) (hnot i)⟩
    obtain ⟨_, hi⟩ := hi
    cases hr.symm.trans hi
  | some j =>
    obtain ⟨hj, hr⟩ := h.resolved j rfl
    refine ⟨iff_of_false (fun habsent => ?_) fun hnot => hnot j ((hp j).1 rfl), fun i => ?_⟩
    · cases hr.symm.trans habsent
    · rw [← hp, hr]
      constructor
      · intro hi
        obtain ⟨_, hi⟩ := hi
        cases hi
        rfl
      · intro hi
        cases hi
        exact ⟨hj, rfl⟩

theorem Refers.points {place : Option Nat}
    (h : Refers ((List.range n).map tokenId) (place.map tokenId) r) (hplace : ∀ i ∈ place, i < n) :
    Points place r := by
  cases place with
  | none => exact ⟨fun _ => h.absent.2 (.inl rfl), nofun⟩
  | some i =>
    refine ⟨nofun, fun j hj => ?_⟩
    obtain rfl := Option.some.inj hj
    have hi := hplace i rfl
    refine ⟨hi, (h.resolved ⟨i, hi⟩).2 ⟨tokenId i, rfl, ?_⟩⟩
    rw [List.getElem?_map, List.getElem?_range hi, Option.map_some]

end References

/-- The references of the records lead where the sketch's keys and places say. -/
structure Resolves (s : Sketch) {x : Extent} (ids : Load.Ids x) : Prop where
  scopes : ∀ value, Refers s.scopeKeys value (.resolve ids.scopes value)
  functions : ∀ value, Refers s.functionKeys value (.resolve ids.functions value)
  vars : ∀ value, Refers s.varKeys value (.resolve ids.vars value)
  tokens : ∀ place : Option Nat, (∀ i ∈ place, i < s.layout.placed.length) →
    Points place (.resolve ids.tokens (place.map tokenId))

section Records
variable {s : Sketch} {rs : List Reading} {x : Extent} {ids : Load.Ids x}

theorem map_fst_ownedFunctions (s : Sketch) : s.ownedFunctions.map Prod.fst =
    s.scopes.flatMap fun e => s.functions.filter (·.owner == e.key) := by
  calc
    s.ownedFunctions.map Prod.fst =
        s.scopes.zipIdx.flatMap fun p => s.functions.filter (·.owner == p.1.key) := by
      simp [ownedFunctions, List.map_flatMap, Function.comp_def]
    _ = (s.scopes.zipIdx.map Prod.fst).flatMap fun e => s.functions.filter (·.owner == e.key) := by
      rw [List.flatMap_map]
    _ = s.scopes.flatMap fun e => s.functions.filter (·.owner == e.key) := by
      rw [List.zipIdx_map_fst]

theorem perm_ownedFunctions (h : s.Proper) : (s.ownedFunctions.map Prod.fst).Perm s.functions := by
  have hfunctions : s.functions.Nodup := List.Nodup.of_map _ h.functionKeys
  have hscopes : s.scopes.Pairwise fun a b => a.key ≠ b.key := List.pairwise_map.1 h.scopeKeys
  rw [map_fst_ownedFunctions]
  refine (List.perm_ext_iff_of_nodup ?_ hfunctions).2 fun f => ?_
  · -- A function has one owner, so two scopes with different keys share none.
    refine List.nodup_flatMap.2 ⟨fun e _ => hfunctions.filter _, hscopes.imp fun hne f ha hb => ?_⟩
    simp only [List.mem_filter, beq_iff_eq] at ha hb
    exact hne (ha.2.symm.trans hb.2)
  · simp only [List.mem_flatMap, List.mem_filter, beq_iff_eq]
    constructor
    · intro hf
      obtain ⟨e, _, hf, _⟩ := hf
      exact hf
    · intro hf
      obtain ⟨e, he, hkey⟩ := h.declared f hf
      exact ⟨e, he, hf, hkey.symm⟩

theorem ids_functions (s : Sketch) :
    ((Load.functionsIn (s.configuration s.layout).element).map Prod.fst).map
      (fun e => e.attribute? "id") = s.functionKeys.map some := by
  rw [functionsIn_configuration, List.map_map, List.map_map, functionKeys, List.map_map]
  exact List.map_congr_left fun p _ => (function_attributes s.layout p.1 rfl).1

theorem ids_scopes (s : Sketch) :
    (Load.scopesIn (s.configuration s.layout).element).map (fun e => e.attribute? "id") =
      s.scopeKeys.map some := by
  rw [scopesIn_configuration, List.map_map, scopeKeys, List.map_map]
  exact List.map_congr_left fun e _ => (scope_attributes s s.layout e rfl).1

theorem ids_vars (s : Sketch) :
    (Load.varsIn (s.configuration s.layout).element).map (fun e => e.attribute? "id") =
      s.varKeys.map some := by
  rw [varsIn_configuration, List.map_map, varKeys, List.map_map]
  exact List.map_congr_left fun v _ => (variable_attributes s.layout v rfl).1

theorem keyed_functions (h : s.Proper) :
    Keyed ((Load.functionsIn (s.configuration s.layout).element).map Prod.fst) s.functionKeys := by
  have hperm := (perm_ownedFunctions h).map FunctionEntry.key
  rw [List.map_map] at hperm
  refine ⟨s.ids_functions, hperm.nodup_iff.2 h.functionKeys, fun key hkey => ?_⟩
  obtain ⟨f, hf, rfl⟩ := List.mem_map.1 (hperm.mem_iff.1 hkey)
  exact h.functionKey f hf

theorem keyed_scopes (h : s.Proper) :
    Keyed (Load.scopesIn (s.configuration s.layout).element) s.scopeKeys :=
  ⟨s.ids_scopes, h.scopeKeys, List.forall_mem_map.2 h.scopeKey⟩

theorem keyed_vars (h : s.Proper) :
    Keyed (Load.varsIn (s.configuration s.layout).element) s.varKeys :=
  ⟨s.ids_vars, h.varKeys, List.forall_mem_map.2 h.varKey⟩

theorem keyed_tokens (s : Sketch) : Keyed (Load.tokensIn (s.configuration s.layout).element)
    ((List.range s.layout.placed.length).map tokenId) := by
  refine ⟨?_, List.nodup_range.map tokenId_injective,
    List.forall_mem_map.2 fun i _ => isKey_tokenId i⟩
  rw [tokensIn_configuration, List.map_map, List.map_map, List.range_eq_range',
    ← List.zipIdx_map_snd, List.map_map]
  exact List.map_congr_left fun p _ => (token_attributes s _ p.1 p.2 rfl).1

theorem resolves_of_proper (h : s.Proper) (hids : ids.Of (s.configuration s.layout).element) :
    s.Resolves ids where
  scopes value := (keyed_scopes h).refers (Ref.resolve_denotes hids.scopes value)
  functions value := (keyed_functions h).refers (Ref.resolve_denotes hids.functions value)
  vars value := (keyed_vars h).refers (Ref.resolve_denotes hids.vars value)
  tokens place hplace := by
    have hlength : s.layout.placed.length = x.tokens := by
      rw [← hids.tokens.length, tokensIn_configuration, List.length_map, List.length_zipIdx]
    have hkeyed := s.keyed_tokens
    -- The places are counted in words, the references in tokens.
    rw [hlength] at hkeyed hplace
    exact (hkeyed.refers (Ref.resolve_denotes hids.tokens _)).points hplace

namespace Resolves
variable {el : Element} {key : String} {value : Option String}

theorem scopeRef (h : s.Resolves ids) (hvalue : el.attribute? key = value) :
    Refers s.scopeKeys value (Load.scopeRef ids el key) := by
  rw [Load.scopeRef, hvalue]
  exact h.scopes value

theorem functionRef (h : s.Resolves ids) (hvalue : el.attribute? key = value) :
    Refers s.functionKeys value (Load.functionRef ids el key) := by
  rw [Load.functionRef, hvalue]
  exact h.functions value

theorem variableRef (h : s.Resolves ids) (hvalue : el.attribute? key = value) :
    Refers s.varKeys value (Load.variableRef ids el key) := by
  rw [Load.variableRef, hvalue]
  exact h.vars value

theorem tokenRef (h : s.Resolves ids) {place : Option Nat}
    (hvalue : el.attribute? key = place.map tokenId)
    (hplace : ∀ i ∈ place, i < s.layout.placed.length) :
    Points place (Load.tokenRef ids el key) := by
  rw [Load.tokenRef, hvalue]
  exact h.tokens place hplace

end Resolves

theorem attributeD_of_attribute {el : Element} {key value : String}
    (h : el.attribute? key = some value) : el.attributeD key = value := by
  rw [Element.attributeD, h, Option.getD_some]

theorem flag_of_attribute {el : Element} {key : String} {b : Bool}
    (h : el.attribute? key = some (truth b)) : el.flag key = b := by
  rw [Element.flag, h]
  cases b <;> decide

theorem Resolves.placeRef (h : s.Resolves ids) (hmeans : Means rs s.layout) (place : Place)
    {el : Element} {key name : String}
    (hvalue : el.attribute? key = ((s.layout.table place).lookup name).map tokenId) :
    Finds (Last (Named rs place name)) (Load.tokenRef ids el key) := by
  have hlast (i : Nat) : (s.layout.table place).lookup name = some i ↔
      Last (Named rs place name) i := by
    rw [hmeans.table, lookup_eq_some_iff_last]
  refine (h.tokenRef hvalue fun i hi => ?_).finds hlast
  rw [hmeans.length]
  exact ((hlast i).1 hi).1.lt

theorem linked_iff {i j : Nat} : s.link? i = some j ↔ Linked s.laidTexts i j := by
  have hmatching {a b : Nat} : (a, b) ∈ bracketPairs s.laidTexts ↔
      ∃ k : Bracket, (a, b) ∈ k.matching s.laidTexts := by
    simp only [mem_matching_iff, exists_and_left]
    refine ⟨fun h => ⟨h, ?_⟩, fun h => h.1⟩
    obtain ⟨_, k, hopener, _⟩ := (paired_bracketPairs s.laidTexts).kinds _ h
    exact ⟨k, hopener⟩
  rw [link?_eq_some_iff, hmatching, hmatching, ← exists_or, Linked]

theorem Means.texts (h : Means rs s.layout) : s.laidTexts = rs.map Reading.text := by
  have htexts := congrArg (List.map fun q => q.2.2) h.positions
  rwa [List.map_map, List.map_map] at htexts

theorem token_laid (h : s.Resolves ids) (hmeans : Means rs s.layout) {r : Reading} {p : Placed}
    {i : Nat} (hr : rs[i]? = some r) (hp : s.layout.placed[i]? = some p) :
    s.TokenLaid rs r i (Load.token ids (s.token s.brackets p i).element 0) := by
  obtain ⟨hid, _, hstr, hline, hcolumn, hscope, hvar, hfunction, hlink, hvalueType⟩ :=
    token_attributes s s.brackets p i rfl
  have hmeant := hmeans.words i r p hr hp
  have hposition : p.position = r.position := by
    have hat := congrArg (fun l => l[i]?) hmeans.positions
    simpa [hr, hp] using hat
  obtain ⟨hatLine, hatColumn, hatText⟩ : p.line = r.line ∧ p.column = r.column ∧
      p.text = r.text := by
    simpa [Placed.position, Reading.position] using hposition
  have hlinks := (h.tokenRef hlink fun j hj => by simpa using partner?_lt hj).finds fun j =>
    linked_iff (s := s)
  rw [hmeans.texts] at hlinks
  exact {
    id := attributeD_of_attribute hid
    text := (attributeD_of_attribute hstr).trans hatText
    file := rfl
    line := (Element.number_of_attribute hline).trans (congrArg _ hatLine)
    column := (Element.number_of_attribute hcolumn).trans (congrArg _ hatColumn)
    scope := by
      refine ⟨p.scope, fun k => ?_, h.scopeRef hscope⟩
      rw [inScope_iff hr, ← hmeant.scope, eq_comm]
    var := h.variableRef (hvar.trans (hmeant.key .var))
    function := h.functionRef (hfunction.trans (hmeant.key .function))
    link := hlinks
    valueTypeScope := h.scopeRef (hvalueType.trans (hmeant.key .valueType)) }

theorem exists_variable (hs : s.Proper) (h : s.Resolves ids) {v : VariableEntry} (hv : v ∈ s.vars) :
    ∃ i, Ref.resolve ids.vars (some v.key) = .resolved i ∧ s.vars[i.val]? = some v := by
  have hrefers := h.vars (some v.key)
  cases hr : Ref.resolve ids.vars (some v.key) with
  | absent =>
    have hkey := isKey_iff.1 (hs.varKey v hv)
    have hnone := hrefers.absent.1 hr
    simp [hkey] at hnone
  | dangling key =>
    obtain ⟨hkey, _, hnot⟩ := (hrefers.dangling key).1 hr
    obtain rfl := Option.some.inj hkey
    exact absurd (List.mem_map_of_mem hv) hnot
  | resolved i =>
    obtain ⟨key, hkey, hi⟩ := (hrefers.resolved i).1 hr
    obtain rfl := Option.some.inj hkey
    rw [varKeys, List.getElem?_map] at hi
    obtain ⟨w, hw, hsame⟩ := Option.map_eq_some_iff.1 hi
    obtain rfl := List.inj_on_of_nodup_map hs.varKeys (List.mem_of_getElem? hw) hv hsame
    exact ⟨i, rfl, hw⟩

theorem variables_found (hs : s.Proper) (h : s.Resolves ids) {vs : List VariableEntry}
    (hvs : ∀ v ∈ vs, v ∈ s.vars) : List.Forall₂ (fun v i => s.vars[i.val]? = some v) vs
      (vs.filterMap fun v => (Ref.resolve ids.vars (some v.key)).get?) := by
  induction vs with
  | nil => exact .nil
  | cons v vs ih =>
    obtain ⟨hv, hvs⟩ := List.forall_mem_cons.1 hvs
    obtain ⟨i, hr, hi⟩ := exists_variable hs h hv
    rw [List.filterMap_cons, hr]
    exact .cons hi (ih hvs)

theorem scope_laid (hs : s.Proper) (h : s.Resolves ids) (hmeans : Means rs s.layout)
    {e : ScopeEntry} : s.ScopeLaid rs e (Load.scope ids (s.scopeBlock s.layout e).element) := by
  obtain ⟨hid, hkind, hclass, hstart, hend, hparent, hfunction⟩ := scope_attributes s s.layout e rfl
  exact {
    id := attributeD_of_attribute hid
    kind := congrArg ScopeKind.ofName (attributeD_of_attribute hkind)
    className := attributeD_of_attribute hclass
    parent := h.scopeRef hparent
    bodyStart := h.placeRef hmeans .bodyStart hstart
    bodyEnd := h.placeRef hmeans .bodyEnd hend
    function := h.functionRef hfunction
    vars := by
      rw [Load.scope, varsOf_scopeBlock, List.filterMap_map]
      exact variables_found hs h fun v hv => List.mem_of_mem_filter hv }

theorem function_laid (h : s.Resolves ids) (hmeans : Means rs s.layout) {p : FunctionEntry × Nat}
    {owner : Fin x.scopes} (howner : owner.val = p.2) :
    FunctionLaid rs p (Load.function ids (functionLeaf s.layout p.1).element owner) := by
  obtain ⟨hid, hname, hkind, hdefinition, hvirtual, himplicit, hstatic⟩ :=
    function_attributes s.layout p.1 rfl
  exact {
    id := attributeD_of_attribute hid
    name := attributeD_of_attribute hname
    kind := congrArg FunctionKind.ofName (attributeD_of_attribute hkind)
    definition := h.placeRef hmeans .definition hdefinition
    owner := howner
    isVirtual := by
      have hflag := flag_of_attribute hvirtual
      rw [Load.function, hflag, Element.flag, himplicit]
      exact Bool.or_false _
    isStatic := by simp [Load.function, Element.flag, hstatic] }

theorem text_of_ref {tokens : Vector (Token x) x.tokens}
    (htokens : tokens.toList.map Token.text = rs.map Reading.text) (r : Ref x.tokens) :
    (r.get?.map fun t => (tokens.get t).text).getD "" =
      ((r.get?.bind fun t => rs[t.val]?).map Reading.text).getD "" := by
  cases r.get? with
  | none => rfl
  | some t =>
    have htext : some (tokens.get t).text = rs[t.val]?.map Reading.text := by
      rw [← List.getElem?_map, ← htokens, List.getElem?_map]
      simp [Vector.get]
    rw [Option.bind_some, ← htext]
    rfl

theorem variable_laid (h : s.Resolves ids) (hmeans : Means rs s.layout) {e : VariableEntry}
    {tokens : Vector (Token x) x.tokens}
    (htokens : tokens.toList.map Token.text = rs.map Reading.text) :
    s.VariableLaid rs e (Load.var ids (variableLeaf s.layout e).element tokens) := by
  obtain ⟨hid, hname, hstart, hend, haccess, hscope, hreference, hstatic⟩ :=
    variable_attributes s.layout e rfl
  exact {
    id := attributeD_of_attribute hid
    name := text_of_ref htokens _
    nameToken := h.placeRef hmeans .nameToken hname
    typeStart := h.placeRef hmeans .typeStart hstart
    typeEnd := h.placeRef hmeans .typeEnd hend
    access := by simp [Load.var, Load.access, haccess]
    isStatic := flag_of_attribute hstatic
    isReference := flag_of_attribute hreference
    scope := h.scopeRef hscope }

theorem map_zipIdx_fst {α β : Type} (f : α → β) (l : List α) :
    l.zipIdx.map (fun p => f p.1) = l.map f := by
  calc
    l.zipIdx.map (fun p => f p.1) = (l.zipIdx.map Prod.fst).map f := List.map_map.symm
    _ = l.map f := by rw [List.zipIdx_map_fst]

theorem forall₂_zipIdx {α β : Type} {R : α × Nat → β × Nat → Prop} {l : List α} {l' : List β}
    (hlength : l.length = l'.length)
    (h : ∀ i a b, l[i]? = some a → l'[i]? = some b → R (a, i) (b, i)) :
    List.Forall₂ R l.zipIdx l'.zipIdx := by
  refine List.forall₂_iff_get.2 ⟨by simpa using hlength, fun i hi hi' => ?_⟩
  rw [List.length_zipIdx] at hi hi'
  simpa using h i l[i] l'[i] (List.getElem?_eq_getElem hi) (List.getElem?_eq_getElem hi')

theorem positions_of_laid {ts : List (Token x)}
    (h : List.Forall₂ (fun p t => s.TokenLaid rs p.1 p.2 t) rs.zipIdx ts) :
    ts.map (fun t => (t.text, t.line, t.column)) =
      rs.map fun r => (r.text, Element.readBack r.line, Element.readBack r.column) := by
  rw [← map_zipIdx_fst _ rs, eq_comm, ← List.forall₂_eq_eq_eq, List.forall₂_map_left_iff,
    List.forall₂_map_right_iff]
  refine h.imp fun p t ht => ?_
  rw [ht.text, ht.line, ht.column]

theorem columns_of_laid (hof : List.Forall₂ Reading.Of rs s.words) {ts : List (Token x)}
    (h : List.Forall₂ (fun p t => s.TokenLaid rs p.1 p.2 t) rs.zipIdx ts)
    (hfit : ∀ r ∈ rs, r.line < UInt32.size ∧ r.column < UInt32.size) :
    ts.Pairwise fun a b => a.line = b.line → a.column < b.column := by
  have hwords : rs.map (fun r => (r.line, r.column)) = s.words.map fun w => (w.line, w.column) := by
    rw [← List.forall₂_eq_eq_eq, List.forall₂_map_left_iff, List.forall₂_map_right_iff]
    refine hof.imp fun r w hw => ?_
    rw [hw.line, hw.column]
  have hexact : ts.map (fun t => (t.line, t.column)) = rs.map fun r => (r.line, r.column) := by
    have hpositions := congrArg (List.map Prod.snd) (positions_of_laid h)
    rw [List.map_map, List.map_map] at hpositions
    refine hpositions.trans (List.map_congr_left fun r hr => ?_)
    rw [Function.comp_apply, Element.readBack, Element.readBack, if_pos (hfit r hr).1,
      if_pos (hfit r hr).2]
  have hpairwise : (ts.map fun t => (t.line, t.column)).Pairwise fun a b =>
      a.1 = b.1 → a.2 < b.2 := by
    rw [hexact, hwords, List.pairwise_map]
    exact wordsOfLines_pairwise _ _
  exact List.pairwise_map.1 hpairwise

theorem directives_of_holds {files : List Nat} {c : Configuration} {ids : Load.Ids c.extent}
    (h : Load.Holds (s.configuration s.layout).element files c ids) :
    c.directives = s.directivesLaid := by
  rw [h.directives, directivesIn_configuration, List.map_map, directivesLaid]
  refine List.map_congr_left fun p _ => ?_
  have hline : (s.directive p.1 p.2).element.attribute? "linenr" =
      some (toString (p.2 + 1)) := rfl
  rw [Function.comp_apply, Load.directive, Element.number_of_attribute hline]
  rfl

theorem laidOut_of_holds (hs : s.Proper) (hof : List.Forall₂ Reading.Of rs s.words)
    {files : List Nat} {c : Configuration} {ids : Load.Ids c.extent}
    (h : Load.Holds (s.configuration s.layout).element files c ids)
    (hfiles : ∀ i, files.getD i 0 = 0) : s.LaidOut rs c := by
  have hresolves := resolves_of_proper hs h.idsOf
  have hmeans := layout_means hof
  have htokens : List.Forall₂ (fun p t => s.TokenLaid rs p.1 p.2 t) rs.zipIdx c.tokens.toList := by
    rw [h.tokens, tokensIn_configuration]
    simp only [hfiles]
    rw [map_zipIdx_fst (fun el => Load.token ids el 0), List.map_map, List.forall₂_map_right_iff]
    exact forall₂_zipIdx hmeans.length.symm fun i r p hr hp => token_laid hresolves hmeans hr hp
  have htexts : c.tokens.toList.map Token.text = rs.map Reading.text := by
    have hpositions := congrArg (List.map Prod.fst) (positions_of_laid htokens)
    rwa [List.map_map, List.map_map] at hpositions
  refine ⟨h.name, h.sections, htokens, columns_of_laid hof htokens, ?_, ?_, perm_ownedFunctions hs,
    ?_, directives_of_holds h⟩
  · rw [h.scopes, scopesIn_configuration, List.map_map, List.forall₂_map_right_iff]
    exact List.forall₂_same.2 fun e _ => scope_laid hs hresolves hmeans
  · have hfunctions := h.functions
    rw [functionsIn_configuration, List.forall₂_map_left_iff] at hfunctions
    refine hfunctions.imp fun p f hf => ?_
    obtain ⟨owner, howner, rfl⟩ := hf
    exact function_laid hresolves hmeans howner
  · rw [h.vars, varsIn_configuration, List.map_map, List.forall₂_map_right_iff]
    exact List.forall₂_same.2 fun v _ => variable_laid hresolves hmeans htexts

end Records

section Files

theorem resolveAll_first {t : FileTable} (ht : t.byIndex.lookup "0" = some 0) {es : List Element}
    (h : ∀ el ∈ es, el.attribute? "fileIndex" = some "0") :
    t.resolveAll es = (es.map fun _ => 0, t) := by
  induction es with
  | nil => rfl
  | cons el es ih =>
    obtain ⟨hel, hes⟩ := List.forall_mem_cons.1 h
    have hresolve : t.resolve el = (0, t) := by
      rw [FileTable.resolve, hel, Option.bind_some, ht]
    rw [FileTable.resolveAll, hresolve]
    simp only [ih hes]
    rfl

def fileTable (s : Sketch) : FileTable := ⟨[s.source.text], [("0", 0)]⟩

variable {s : Sketch}

def positions (s : Sketch) : List (Nat × Nat × String) := s.layout.placed.map Placed.position

theorem rawTokens_eq (s : Sketch) : s.rawTokens s.layout = .block "rawtokens" []
    (.leaf "file" [("index", "0"), ("name", s.source.text)] ::
      (s.rawPlaces s.positions).map fun q => rawToken q.1 q.2.1 q.2.2) := by
  rw [rawTokens, rawPlaces, positions, List.map_append, List.map_flatMap, List.map_map]
  rfl

theorem children_rawTokens (s : Sketch) : (s.rawTokens s.layout).element.children =
    (Outline.leaf "file" [("index", "0"), ("name", s.source.text)]).element ::
      (s.rawPlaces s.positions).map fun q => (rawToken q.1 q.2.1 q.2.2).element := by
  rw [rawTokens_eq]
  refine (Outline.elements_eq_map _).trans ?_
  rw [List.map_cons, List.map_map]
  rfl

theorem files_of_rawTokens (s : Sketch) : (s.rawTokens s.layout).element.childrenNamed "file" =
    [(Outline.leaf "file" [("index", "0"), ("name", s.source.text)]).element] := by
  rw [Element.childrenNamed, children_rawTokens, List.filter_cons_of_pos rfl,
    List.filter_eq_nil_iff.2 (List.forall_mem_map.2 fun q _ => Bool.false_ne_true)]

theorem toks_of_rawTokens (s : Sketch) : (s.rawTokens s.layout).element.childrenNamed "tok" =
    (s.rawPlaces s.positions).map fun q => (rawToken q.1 q.2.1 q.2.2).element := by
  rw [Element.childrenNamed, children_rawTokens, List.filter_cons_of_neg Bool.false_ne_true,
    List.filter_eq_self.2 (List.forall_mem_map.2 fun q _ => rfl)]

theorem rawTokens_laid (s : Sketch) : Load.rawTokens .empty (s.rawTokens s.layout).element =
    (s.rawLaid s.positions, s.fileTable) := by
  have hregister : FileTable.empty.registerElement
      (Outline.leaf "file" [("index", "0"), ("name", s.source.text)]).element = s.fileTable := rfl
  have hresolve := resolveAll_first (t := s.fileTable) rfl
    (List.forall_mem_map.2 fun (q : Nat × Nat × String) (_ : q ∈ s.rawPlaces s.positions) =>
      (rfl : (rawToken q.1 q.2.1 q.2.2).element.attribute? "fileIndex" = some "0"))
  rw [Load.rawTokens, files_of_rawTokens, toks_of_rawTokens, List.foldl_cons, List.foldl_nil,
    hregister]
  simp only [hresolve]
  rw [← List.map_prod_left_eq_zip, List.map_map, List.map_map, rawLaid]
  congr 1
  refine List.map_congr_left fun q _ => ?_
  have hline : (rawToken q.1 q.2.1 q.2.2).element.attribute? "linenr" = some (toString q.1) := rfl
  have hcolumn : (rawToken q.1 q.2.1 q.2.2).element.attribute? "column" =
      some (toString q.2.1) := rfl
  simp only [Function.comp_apply, Element.number_of_attribute hline,
    Element.number_of_attribute hcolumn]
  rfl

/-- The configuration of every sketch is read, whatever its keys are. -/
theorem exists_holds (s : Sketch) : ∃ c,
    Load.configuration (s.configuration s.layout).element s.fileTable = .ok (c, s.fileTable) ∧
      ∃ files, ∃ ids : Load.Ids c.extent,
        Load.Holds (s.configuration s.layout).element files c ids ∧ ∀ i, files.getD i 0 = 0 := by
  obtain ⟨⟨c, t⟩, hc⟩ := Load.exists_configuration s.fileTable
    (identified_of_ids s.keyed_tokens.ids) (identified_of_ids s.ids_scopes)
    (identified_of_ids s.ids_functions) (identified_of_ids s.ids_vars)
  obtain ⟨ht, ids, hholds⟩ := Load.configuration_holds hc
  -- Every token names file 0, which the raw tokens have registered, so the table stays.
  have hindex : ∀ el ∈ Load.tokensIn (s.configuration s.layout).element,
      el.attribute? "fileIndex" = some "0" := by
    rw [tokensIn_configuration]
    exact List.forall_mem_map.2 fun p _ => (token_attributes s _ p.1 p.2 rfl).2.1
  rw [resolveAll_first rfl hindex] at ht hholds
  subst ht
  refine ⟨c, hc, _, ids, hholds, fun i => ?_⟩
  rw [List.getD_eq_getElem?_getD, List.getElem?_map]
  cases (Load.tokensIn (s.configuration s.layout).element)[i]? <;> rfl

theorem exists_laidOut (h : s.Proper) {rs : List Reading}
    (hof : List.Forall₂ Reading.Of rs s.words) : ∃ c,
      Load.configuration (s.configuration s.layout).element s.fileTable = .ok (c, s.fileTable) ∧
        s.LaidOut rs c := by
  obtain ⟨c, hc, _, _, hholds, hfiles⟩ := s.exists_holds
  exact ⟨c, hc, laidOut_of_holds h hof hholds hfiles⟩

def sheet (s : Sketch) (cs : List Configuration) : Load.Sheet :=
  ⟨s.fileTable, true, s.rawLaid s.positions, cs⟩

theorem add_rawTokens (s : Sketch) :
    Load.Sheet.add ⟨.empty, false, [], []⟩ (s.rawTokens s.layout).element = .ok (s.sheet []) := by
  have hname : (s.rawTokens s.layout).element.name = "rawtokens" := rfl
  rw [Load.Sheet.add, if_pos hname, rawTokens_laid]
  rfl

theorem add_configuration {c : Configuration}
    (hc : Load.configuration (s.configuration s.layout).element s.fileTable =
      .ok (c, s.fileTable)) :
    (s.sheet []).add (s.configuration s.layout).element = .ok (s.sheet [c]) := by
  have hraw : (s.configuration s.layout).element.name ≠ "rawtokens" := by
    change "dump" ≠ "rawtokens"
    decide
  have hname : (s.configuration s.layout).element.name = "dump" := rfl
  have hfiles : Load.configuration (s.configuration s.layout).element (s.sheet []).files =
      .ok (c, s.fileTable) := hc
  rw [Load.Sheet.add, if_neg hraw, if_pos hname, hfiles]
  rfl

def unit (s : Sketch) (cs : List Configuration) : SourceUnit :=
  ⟨s.source.dumpOf, [s.source], s.rawLaid s.positions, cs⟩

theorem Plain.load_of_sheet (h : s.Plain) (cs : List Configuration)
    (hcs : s.outline.element.children.foldlM Load.Sheet.add ⟨.empty, false, [], []⟩ =
      .ok (s.sheet cs)) : s.load = .ok (s.unit cs) := by
  have hparse : Markup.parse s.dumpText = .ok s.outline.element :=
    Outline.parse_document (outline_writable h)
  have hname : s.outline.element.name = "dumps" := rfl
  rw [load, SourceUnit.ofText, hparse]
  simp only [SourceUnit.ofElement, hname, hcs]
  rfl

theorem Plain.load_header (h : s.Plain) (hheader : s.headerOnly = true) :
    s.load = .ok (s.unit []) := by
  have hchildren : s.outline.element.children = [(s.rawTokens s.layout).element] := by
    rw [outline, hheader]
    rfl
  refine h.load_of_sheet [] ?_
  rw [hchildren, List.foldlM_cons, add_rawTokens]
  rfl

theorem Plain.load_full (h : s.Plain) (hfull : s.headerOnly = false) {c : Configuration}
    (hc : Load.configuration (s.configuration s.layout).element s.fileTable =
      .ok (c, s.fileTable)) : s.load = .ok (s.unit [c]) := by
  have hchildren : s.outline.element.children =
      [(s.rawTokens s.layout).element, (s.configuration s.layout).element] := by
    rw [outline, hfull]
    rfl
  refine h.load_of_sheet [c] ?_
  rw [hchildren, List.foldlM_cons, add_rawTokens]
  change [(s.configuration s.layout).element].foldlM Load.Sheet.add (s.sheet []) = _
  rw [List.foldlM_cons, add_configuration hc]
  rfl

end Files

def target? {n : Nat} (r : Ref n) : Option Nat := r.get?.map Fin.val

/-- A class with a field and a method. One word has three notes, some texts have to be escaped, and
one note names a scope that is not declared. -/
def classSketch : Sketch :=
  (start ⟨"src/a&b.cpp"⟩)
    |>.addInclude "x<y>.hpp"
    |>.addScope "C" "Class" "Pair<\"T\">" globalKey
    |>.addVariable "field" "C" "Private"
    |>.addBody "run" "run" "Function" "C" "C"
    |>.addVariable "arg" "run" "Argument"
    |>.markReference "arg"
    |>.markVirtual "run"
    |>.addLine "class C \x7b@C int\tfield@decl=field,ty=field,vt=nowhere ;"
    |>.addLine "run@def=run ( auto@ty=arg & arg@decl=arg ) \x7b@run"
    |>.addLine "field@field < @ ; \x7d@run \x7d@C"

theorem classSketch_proper : classSketch.Proper where
  scopeKeys := by decide
  functionKeys := by decide
  varKeys := by decide
  scopeKey := by decide
  functionKey := by decide
  varKey := by decide
  declared := by decide
  texts := by decide +kernel
  lines := by decide +kernel

/-- Where the references of the class lead, word by word and declaration by declaration. -/
def ClassReferences (c : Configuration) : Prop :=
  c.tokens.toList.map Token.text = ["class", "C", "\x7b", "int", "field", ";", "run", "(", "auto", "&",
      "arg", ")", "\x7b", "field", "<", "@", ";", "\x7d", "\x7d"] ∧
    c.tokens.toList.map (fun t => target? t.scope) =
      [0, 0, 1, 1, 1, 1, 1, 1, 1, 1, 1, 1, 2, 2, 2, 2, 2, 2, 1].map some ∧
    c.tokens.toList.zipIdx.filterMap (fun p => (target? p.1.var).map (p.2, ·)) =
      [(4, 0), (10, 1), (13, 0)] ∧
    c.tokens.toList.zipIdx.filterMap (fun p => (target? p.1.function).map (p.2, ·)) = [(6, 0)] ∧
    c.tokens.toList.zipIdx.filterMap (fun p => (target? p.1.link).map (p.2, ·)) =
      [(2, 18), (7, 11), (11, 7), (12, 17), (17, 12), (18, 2)] ∧
    c.tokens.toList[4]?.map Token.valueTypeScope = some (.dangling "nowhere") ∧
    c.scopes.toList.map (fun sc => (target? sc.bodyStart, target? sc.bodyEnd)) =
      [(none, none), (some 2, some 18), (some 12, some 17)] ∧
    c.functions.toList.map (fun f => target? f.definition) = [some 6] ∧
    c.vars.toList.map Variable.name = ["field", "arg"] ∧
    c.vars.toList.map (fun v => target? v.nameToken) = [some 4, some 10] ∧
    c.vars.toList.map (fun v => (target? v.typeStart, target? v.typeEnd)) =
      [(some 4, some 4), (some 8, some 8)]

instance : DecidablePred ClassReferences := fun _ => inferInstanceAs (Decidable (_ ∧ _))

end SpaceAudit.Sketch
