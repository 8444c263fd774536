import SpaceAudit.Proofs.Source.Records

/-! Tokens by their ids. A reference of a dump is resolved to the first token that carries its id,
and a lookup finds the last one. So both fail for the same ids, and they agree on an id as long as
no two tokens share it. -/
namespace SpaceAudit
open Markup (Element)

namespace Configuration
variable {c : Configuration} {id : String}

theorem find?_reverse_finRange_eq_some_iff {n : Nat} {p : Fin n → Bool} {i : Fin n} :
    (List.finRange n).reverse.find? p = some i ↔ p i = true ∧ ∀ j, i < j → ¬ p j = true := by
  rw [List.find?_eq_some_iff_append]
  constructor
  · rintro ⟨hp, before, after, hsplit, hbefore⟩
    refine ⟨hp, fun j hj => ?_⟩
    have hsorted : (before ++ i :: after).Pairwise (· > ·) := by
      rw [← hsplit, List.pairwise_reverse]
      exact List.pairwise_lt_finRange n
    have hmem : j ∈ before ++ i :: after := by
      rw [← hsplit, List.mem_reverse]
      exact List.mem_finRange j
    -- Behind `i` there are only smaller ones.
    rcases List.mem_append.1 hmem with hin | hin
    · simpa using hbefore j hin
    · have hafter := (List.pairwise_cons.1 (List.pairwise_append.1 hsorted).2.1).1
      rcases List.mem_cons.1 hin with rfl | hin
      · exact absurd hj (lt_irrefl j)
      · exact absurd hj (lt_asymm (hafter j hin))
  · rintro ⟨hp, hlater⟩
    obtain ⟨before, after, hsplit⟩ := List.append_of_mem
      (List.mem_reverse.2 (List.mem_finRange i))
    refine ⟨hp, before, after, hsplit, fun j hj => ?_⟩
    have hsorted : (before ++ i :: after).Pairwise (· > ·) := by
      rw [← hsplit, List.pairwise_reverse]
      exact List.pairwise_lt_finRange n
    have hgt := (List.pairwise_append.1 hsorted).2.2 j hj i (by simp)
    simpa using hlater j hgt

structure FirstWith (c : Configuration) (id : String) (t : c.TokenIdx) : Prop where
  carries : (c.token t).id = id
  first : ∀ u < t, (c.token u).id ≠ id

structure LastWith (c : Configuration) (id : String) (t : c.TokenIdx) : Prop where
  carries : (c.token t).id = id
  last : ∀ u, t < u → (c.token u).id ≠ id

theorem tokenById?_eq_some_iff {t : c.TokenIdx} : c.tokenById? id = some t ↔ c.LastWith id t := by
  rw [tokenById?, tokenIndices, find?_reverse_finRange_eq_some_iff]
  simp only [beq_iff_eq]
  exact ⟨fun h => ⟨h.1, h.2⟩, fun h => ⟨h.carries, h.last⟩⟩

theorem tokenById?_eq_none_iff : c.tokenById? id = none ↔ ∀ t, (c.token t).id ≠ id := by
  rw [tokenById?, List.find?_eq_none]
  simp [tokenIndices]

theorem exists_firstWith {t : c.TokenIdx} (h : (c.token t).id = id) : ∃ u, c.FirstWith id u := by
  induction t using WellFoundedLT.induction with
  | ind t ih =>
    by_cases hbefore : ∃ u < t, (c.token u).id = id
    · obtain ⟨u, hlt, hu⟩ := hbefore
      exact ih u hlt hu
    · exact ⟨t, h, fun u hlt hu => hbefore ⟨u, hlt, hu⟩⟩

theorem firstWith_iff_lastWith :
    (∀ t, c.FirstWith id t ↔ c.LastWith id t) ↔
      ∀ t u, (c.token t).id = id → (c.token u).id = id → t = u := by
  constructor
  · intro h t u ht hu
    obtain ⟨f, hf⟩ := exists_firstWith ht
    have hlast := (h f).1 hf
    have honly (v : c.TokenIdx) (hv : (c.token v).id = id) : v = f := by
      rcases lt_trichotomy v f with hlt | heq | hgt
      · exact absurd hv (hf.first v hlt)
      · exact heq
      · exact absurd hv (hlast.last v hgt)
    rw [honly t ht, honly u hu]
  · intro h t
    constructor
    · rintro ⟨ht, _⟩
      exact ⟨ht, fun u hlt hu => absurd (h t u ht hu) (ne_of_lt hlt)⟩
    · rintro ⟨ht, _⟩
      exact ⟨ht, fun u hlt hu => absurd (h u t hu ht) (ne_of_lt hlt)⟩

end Configuration

namespace Load

def Writes (es : List Element) (i : Nat) (key value : String) : Prop :=
  (es[i]?.bind fun e => e.attribute? key) = some value

theorem Writes.attribute?_eq {es : List Element} {i : Nat} {key value : String} {e : Element}
    (h : Writes es i key value) (he : es[i]? = some e) : e.attribute? key = some value := by
  rwa [Writes, he, Option.bind_some] at h

/-- The reference to a token is what the configuration has for an attribute of its section whose
value is the id. -/
inductive RefersTo (e : Element) (c : Configuration) (id : String) : Ref c.extent.tokens → Prop
  | link (t : c.TokenIdx) (h : Writes (tokensIn e) t "link" id) : RefersTo e c id (c.token t).link
  | bodyStart (s : c.ScopeIdx) (h : Writes (scopesIn e) s "bodyStart" id) :
    RefersTo e c id (c.scope s).bodyStart
  | bodyEnd (s : c.ScopeIdx) (h : Writes (scopesIn e) s "bodyEnd" id) :
    RefersTo e c id (c.scope s).bodyEnd
  | definition (f : c.FunctionIdx) (h : Writes ((functionsIn e).map Prod.fst) f "tokenDef" id) :
    RefersTo e c id (c.function f).definition
  | nameToken (v : c.VariableIdx) (h : Writes (varsIn e) v "nameToken" id) :
    RefersTo e c id (c.var v).nameToken
  | typeStart (v : c.VariableIdx) (h : Writes (varsIn e) v "typeStartToken" id) :
    RefersTo e c id (c.var v).typeStart
  | typeEnd (v : c.VariableIdx) (h : Writes (varsIn e) v "typeEndToken" id) :
    RefersTo e c id (c.var v).typeEnd

theorem exists_of_forall₂ {α β : Type} {n : Nat} {R : α → β → Prop} {l : List α} {v : Vector β n}
    (h : List.Forall₂ R l v.toList) (i : Fin n) : ∃ a, l[i.val]? = some a ∧ R a (v.get i) := by
  obtain ⟨hlength, hall⟩ := List.forall₂_iff_get.1 h
  have hi : i.val < l.length := by
    rw [hlength, Vector.length_toList]
    exact i.isLt
  exact ⟨l[i.val], List.getElem?_eq_getElem hi, hall i hi (by simp)⟩

namespace Holds
variable {e : Element} {files : List Nat} {c : Configuration} {ids : Ids c.extent} {id : String}

theorem exists_token (h : Holds e files c ids) (t : c.TokenIdx) :
    ∃ el file, (tokensIn e)[t.val]? = some el ∧ c.token t = token ids el file := by
  have hall : List.Forall₂ (fun el t => ∃ file, t = token ids el file) (tokensIn e)
      c.tokens.toList := by
    rw [h.tokens, List.forall₂_iff_get]
    exact ⟨by simp, fun i hi _ => ⟨files.getD i 0, by simp⟩⟩
  obtain ⟨el, hel, file, htoken⟩ := exists_of_forall₂ hall t
  exact ⟨el, file, hel, htoken⟩

theorem exists_scope (h : Holds e files c ids) (s : c.ScopeIdx) :
    ∃ el, (scopesIn e)[s.val]? = some el ∧ c.scope s = scope ids el := by
  have hall : List.Forall₂ (fun el s => s = scope ids el) (scopesIn e) c.scopes.toList := by
    rw [h.scopes, List.forall₂_map_right_iff]
    exact List.forall₂_same.2 fun _ _ => rfl
  exact exists_of_forall₂ hall s

theorem exists_function (h : Holds e files c ids) (f : c.FunctionIdx) :
    ∃ el owner, ((functionsIn e).map Prod.fst)[f.val]? = some el ∧
      c.function f = function ids el owner := by
  obtain ⟨el, hel, owner, _, hfunction⟩ := exists_of_forall₂ h.functions f
  refine ⟨el.1, owner, ?_, hfunction⟩
  rw [List.getElem?_map, hel]
  rfl

theorem exists_var (h : Holds e files c ids) (v : c.VariableIdx) :
    ∃ el, (varsIn e)[v.val]? = some el ∧ c.var v = var ids el c.tokens := by
  have hall : List.Forall₂ (fun el v => v = var ids el c.tokens) (varsIn e) c.vars.toList := by
    rw [h.vars, List.forall₂_map_right_iff]
    exact List.forall₂_same.2 fun _ _ => rfl
  exact exists_of_forall₂ hall v

theorem id_token (h : Holds e files c ids) {t : c.TokenIdx} :
    Carries (tokensIn e) t id ↔ (c.token t).id = id := by
  obtain ⟨el, file, hel, htoken⟩ := h.exists_token t
  have hcarries := h.idsOf.tokens.get t
  rw [Carries, hel, Option.bind_some] at hcarries ⊢
  rw [htoken, token, Element.attributeD, hcarries, Option.getD_some, Option.some.injEq]

theorem refersTo_eq (h : Holds e files c ids) {r : Ref c.extent.tokens} (hr : RefersTo e c id r) :
    r = .resolve ids.tokens (some id) := by
  cases hr with
  | link t hw =>
    obtain ⟨el, file, hel, htoken⟩ := h.exists_token t
    rw [htoken]
    exact congrArg (Ref.resolve ids.tokens) (hw.attribute?_eq hel)
  | bodyStart s hw =>
    obtain ⟨el, hel, hscope⟩ := h.exists_scope s
    rw [hscope]
    exact congrArg (Ref.resolve ids.tokens) (hw.attribute?_eq hel)
  | bodyEnd s hw =>
    obtain ⟨el, hel, hscope⟩ := h.exists_scope s
    rw [hscope]
    exact congrArg (Ref.resolve ids.tokens) (hw.attribute?_eq hel)
  | definition f hw =>
    obtain ⟨el, owner, hel, hfunction⟩ := h.exists_function f
    rw [hfunction]
    exact congrArg (Ref.resolve ids.tokens) (hw.attribute?_eq hel)
  | nameToken v hw =>
    obtain ⟨el, hel, hvar⟩ := h.exists_var v
    rw [hvar]
    exact congrArg (Ref.resolve ids.tokens) (hw.attribute?_eq hel)
  | typeStart v hw =>
    obtain ⟨el, hel, hvar⟩ := h.exists_var v
    rw [hvar]
    exact congrArg (Ref.resolve ids.tokens) (hw.attribute?_eq hel)
  | typeEnd v hw =>
    obtain ⟨el, hel, hvar⟩ := h.exists_var v
    rw [hvar]
    exact congrArg (Ref.resolve ids.tokens) (hw.attribute?_eq hel)

theorem resolve_eq_resolved_iff (h : Holds e files c ids) (hne : id ≠ "") (hzero : id ≠ "0")
    {t : c.TokenIdx} : Ref.resolve ids.tokens (some id) = .resolved t ↔ c.FirstWith id t := by
  have hdenotes := Ref.resolve_denotes h.idsOf.tokens (some id)
  rw [hdenotes.resolved]
  constructor
  · rintro ⟨other, hother, _, _, ht, hfirst⟩
    obtain rfl := Option.some.inj hother
    exact ⟨h.id_token.1 ht, fun u hlt hu => hfirst u hlt (h.id_token.2 hu)⟩
  · rintro ⟨ht, hfirst⟩
    refine ⟨id, rfl, hne, hzero, h.id_token.2 ht, fun j hj hcarries => ?_⟩
    exact hfirst ⟨j, hj.trans t.isLt⟩ hj (h.id_token.1 hcarries)

theorem resolve_eq_dangling_iff (h : Holds e files c ids) (hne : id ≠ "") (hzero : id ≠ "0") :
    Ref.resolve ids.tokens (some id) = .dangling id ↔ ∀ t, (c.token t).id ≠ id := by
  have hdenotes := Ref.resolve_denotes h.idsOf.tokens (some id)
  rw [hdenotes.dangling]
  constructor
  · rintro ⟨_, _, _, hnone⟩ t ht
    exact hnone t (h.id_token.2 ht)
  · intro hnone
    refine ⟨rfl, hne, hzero, fun j hcarries => ?_⟩
    have hj := h.idsOf.tokens.lt_of_carries hcarries
    exact hnone ⟨j, hj⟩ (h.id_token.1 hcarries)

end Holds

/-- Every configuration that has been read holds what its section says. -/
def Sheet.Configured (read : List Element) (s : Sheet) : Prop :=
  List.Forall₂ (fun e c => ∃ files ids, Holds e files c ids) (read.filter (·.name == "dump"))
    s.configurations

theorem Sheet.Configured.add {read : List Element} {s s' : Sheet} {e : Element}
    (h : s.Configured read) (hadd : s.Adds e s') : s'.Configured (read ++ [e]) := by
  unfold Configured at h ⊢
  rw [List.filter_append, List.filter_singleton]
  cases hadd with
  | raw hname => simpa [hname] using h
  | configuration hname hload =>
    rw [hname, beq_self_eq_true, cond_true]
    exact List.rel_append h (.cons ⟨_, (configuration_holds hload).2⟩ .nil)
  | other _ hname =>
    rw [beq_eq_false_iff_ne.2 hname, cond_false, List.append_nil]
    exact h

theorem Sheet.configured_of_addAll {es : List Element} {s : Sheet}
    (h : es.foldlM Sheet.add ⟨.empty, false, [], []⟩ = .ok s) : s.Configured es := by
  have hempty : Sheet.Configured [] ⟨.empty, false, [], []⟩ := .nil
  simpa using Sheet.keeps_of_addAll Sheet.Configured.add hempty h

/-- What an id is resolved to, and what is found under it. -/
structure Agreement (c : Configuration) (id : String) (r : Ref c.extent.tokens) : Prop where
  resolved : ∀ t, r = .resolved t ↔ c.FirstWith id t
  found : ∀ t, c.tokenById? id = some t ↔ c.LastWith id t
  dangling : r = .dangling id ↔ c.tokenById? id = none
  agree : (∀ t, r = .resolved t ↔ c.tokenById? id = some t) ↔
    ∀ t u, (c.token t).id = id → (c.token u).id = id → t = u

theorem Holds.agreement {e : Element} {files : List Nat} {c : Configuration} {ids : Ids c.extent}
    {id : String} {r : Ref c.extent.tokens} (h : Holds e files c ids) (hr : RefersTo e c id r)
    (hne : id ≠ "") (hzero : id ≠ "0") : Agreement c id r := by
  obtain rfl := h.refersTo_eq hr
  refine ⟨fun t => h.resolve_eq_resolved_iff hne hzero, fun t =>
    Configuration.tokenById?_eq_some_iff, ?_, ?_⟩
  · rw [h.resolve_eq_dangling_iff hne hzero, Configuration.tokenById?_eq_none_iff]
  · simp only [h.resolve_eq_resolved_iff hne hzero, Configuration.tokenById?_eq_some_iff]
    exact Configuration.firstWith_iff_lastWith

end Load

namespace SourceUnit

theorem configurations_of_ofElement {dumpPath : Path} {root : Element} {u : SourceUnit}
    (h : ofElement dumpPath root = .ok u) :
    List.Forall₂ (fun e c => ∃ files ids, Load.Holds e files c ids) (root.childrenNamed "dump")
      u.configurations := by
  obtain ⟨s, hs, rfl⟩ := exists_sheet_of_ofElement h
  exact Load.Sheet.configured_of_addAll hs

/-- In every configuration of a dump that loads, an attribute whose value is the id of a token
becomes a reference to the first token with this id, while the last one is found under it. It
dangles if and only if nothing is found. The reference and what is found are the same token if and
only if no two tokens share the id. -/
theorem reference_agrees_iff {dumpPath : Path} {root : Element} {u : SourceUnit}
    (h : ofElement dumpPath root = .ok u) :
    List.Forall₂ (fun e c => ∀ id r, Load.RefersTo e c id r → id ≠ "" → id ≠ "0" →
      Load.Agreement c id r) (root.childrenNamed "dump") u.configurations := by
  refine (configurations_of_ofElement h).imp fun e c hholds id r hr hne hzero => ?_
  obtain ⟨files, ids, hholds⟩ := hholds
  exact hholds.agreement hr hne hzero

def bracketsSection (last : String) : Element :=
  .node "dump" [] [.node "tokenlist" []
    [.node "token" [("id", "t1"), ("str", "("), ("link", "t2")] [],
      .node "token" [("id", "t2"), ("str", ")"), ("link", "t1")] [],
      .node "token" [("id", last), ("str", ";")] []]]

def bracketsDump (last : String) : Element := .node "dumps" [] [bracketsSection last]

theorem reference_agrees_iff_brackets :
    ∃ u c, ∃ t : c.TokenIdx, ofElement ⟨"a.cpp.dump"⟩ (bracketsDump "t3") = .ok u ∧
      u.configurations = [c] ∧ Load.RefersTo (bracketsSection "t3") c "t1" (c.token t).link ∧
      Load.Agreement c "t1" (c.token t).link := by
  have hsize : ((ofElement ⟨"a.cpp.dump"⟩ (bracketsDump "t3")).toOption.any fun u =>
      u.configurations.all fun c => 1 < c.extent.tokens) = true := by decide +kernel
  cases hload : ofElement ⟨"a.cpp.dump"⟩ (bracketsDump "t3") with
  | error r =>
    rw [hload] at hsize
    cases hsize
  | ok u =>
    rw [hload] at hsize
    obtain ⟨c, rest, hagree, hrest, hunit⟩ :=
      List.forall₂_cons_left_iff.1 (reference_agrees_iff hload)
    obtain rfl := List.forall₂_nil_left_iff.1 hrest
    have hone : 1 < c.extent.tokens :=
      of_decide_eq_true (List.all_eq_true.1 hsize c (by rw [hunit]; simp))
    have hwrites : Load.Writes (Load.tokensIn (bracketsSection "t3")) 1 "link" "t1" := rfl
    have hrefers := Load.RefersTo.link (c := c) ⟨1, hone⟩ hwrites
    exact ⟨u, c, ⟨1, hone⟩, rfl, hunit, hrefers, hagree _ _ hrefers (by decide) (by decide)⟩

def resolvedAndFound (u : SourceUnit) (id : String) : List (List (Option Nat) × Option Nat) :=
  u.configurations.map fun c =>
    (c.tokenIndices.map fun t => (c.token t).link.get?.map Fin.val, (c.tokenById? id).map Fin.val)

/-- With the id on two tokens, the reference is the first and the last one is found. -/
theorem repeated_id_disagrees :
    Load.Writes (Load.tokensIn (bracketsSection "t1")) 1 "link" "t1" ∧
      ((ofElement ⟨"a.cpp.dump"⟩ (bracketsDump "t1")).toOption.map (resolvedAndFound · "t1")) =
        some [([some 1, some 0, none], some 2)] :=
  ⟨rfl, by decide +kernel⟩

end SourceUnit

end SpaceAudit
