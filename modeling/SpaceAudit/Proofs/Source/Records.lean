import SpaceAudit.Proofs.Source.Loading

/-! A section whose records all carry ids is loaded, and this is what its configuration holds. -/
namespace SpaceAudit.Load
open Markup (Element)

/-- What the configuration of a section holds, record by record. -/
structure Holds (e : Element) (files : List Nat) (c : Configuration) (ids : Ids c.extent) :
    Prop where
  idsOf : ids.Of e
  name : c.name = e.attributeD "cfg"
  sections : c.sections = ⟨(e.child? "tokenlist").isSome, (e.child? "scopes").isSome,
    (e.child? "variables").isSome, (e.child? "directivelist").isSome⟩
  tokens : c.tokens.toList = (tokensIn e).zipIdx.map fun p => token ids p.1 (files.getD p.2 0)
  scopes : c.scopes.toList = (scopesIn e).map (scope ids)
  functions : List.Forall₂ (fun el f => ∃ owner, owner.val = el.2 ∧ f = function ids el.1 owner)
    (functionsIn e) c.functions.toList
  vars : c.vars.toList = (varsIn e).map fun v => var ids v c.tokens
  directives : c.directives = (section? e "directivelist" "directive").map directive

theorem configuration_holds {e : Element} {t t' : FileTable} {c : Configuration}
    (h : configuration e t = .ok (c, t')) :
    t' = (t.resolveAll (tokensIn e)).2 ∧ ∃ ids, Holds e (t.resolveAll (tokensIn e)).1 c ids := by
  unfold configuration at h
  obtain ⟨tokenIds, htokens, h⟩ := exists_of_bind h
  obtain ⟨scopeIds, hscopes, h⟩ := exists_of_bind h
  obtain ⟨functionIds, hfunctions, h⟩ := exists_of_bind h
  obtain ⟨variableIds, hvars, h⟩ := exists_of_bind h
  obtain ⟨hc, ht⟩ := Prod.mk.inj (Except.ok.inj h)
  subst hc
  have hfunctions : IdsOf ((functionsIn e).map Prod.fst) functionIds :=
    functionElements_toList e ▸ idsOf_eq_ok hfunctions
  refine ⟨ht.symm, ⟨tokenIds, scopeIds, functionIds, variableIds⟩, ?_⟩
  refine ⟨⟨idsOf_eq_ok htokens, idsOf_eq_ok hscopes, hfunctions, idsOf_eq_ok hvars⟩, rfl, rfl, ?_, ?_,
    ?_, ?_, rfl⟩
  · refine List.ext_getElem (by simp [tokensIn]) fun i hi _ => ?_
    simp [tokensIn]
  · simp [scopesIn]
  · rw [Vector.toList_map, List.forall₂_map_right_iff, functionsIn, scopesIn, ← functionElements_eq,
      List.forall₂_map_left_iff]
    exact List.forall₂_same.2 fun el _ => ⟨el.2, rfl, rfl⟩
  · simp [varsIn]

def Identified (es : List Element) : Prop := ∀ el ∈ es, (el.attribute? "id").isSome

theorem exists_idsOf {n : Nat} (kind : RecordKind) (es : Vector Element n)
    (h : Identified es.toList) : ∃ ids, idsOf kind es = .ok ids := by
  refine ⟨_, if_pos (Vector.all_eq_true.2 fun i hi => ?_)⟩
  exact h _ (by simp)

theorem exists_configuration {e : Element} (t : FileTable) (htokens : Identified (tokensIn e))
    (hscopes : Identified (scopesIn e)) (hfunctions : Identified ((functionsIn e).map Prod.fst))
    (hvars : Identified (varsIn e)) : ∃ loaded, configuration e t = .ok loaded := by
  rw [← functionElements_toList] at hfunctions
  obtain ⟨tokenIds, htokens⟩ :=
    exists_idsOf .token (section? e "tokenlist" "token").toArray.toVector htokens
  obtain ⟨scopeIds, hscopes⟩ :=
    exists_idsOf .scope (section? e "scopes" "scope").toArray.toVector hscopes
  obtain ⟨functionIds, hfunctions⟩ := exists_idsOf .function _ hfunctions
  obtain ⟨variableIds, hvars⟩ :=
    exists_idsOf .var (section? e "variables" "var").toArray.toVector hvars
  unfold configuration
  simp only [htokens, hscopes, hfunctions, hvars]
  exact ⟨_, rfl⟩

end SpaceAudit.Load

namespace SpaceAudit.SourceUnit
open Markup (Element)

/-- A unit is loaded from a document that has raw tokens or a configuration, and it is what the
children of the document add up to. -/
theorem ofElement_eq_ok_iff {dumpPath : Path} {root : Element} {u : SourceUnit} :
    ofElement dumpPath root = .ok u ↔ root.name = "dumps" ∧
      ∃ s, root.children.foldlM Load.Sheet.add ⟨.empty, false, [], []⟩ = .ok s ∧
        (s.hasRaw = true ∨ s.configurations ≠ []) ∧
        u = ⟨dumpPath, s.files.names.map Path.mk, s.rawTokens, s.configurations⟩ := by
  unfold ofElement
  by_cases hname : root.name = "dumps"
  · rw [if_neg (not_not.2 hname)]
    cases root.children.foldlM Load.Sheet.add ⟨.empty, false, [], []⟩ with
    | error r => simp
    | ok s =>
      have hempty : (!s.hasRaw && s.configurations.isEmpty) = true ↔
          ¬ (s.hasRaw = true ∨ s.configurations ≠ []) := by
        simp [not_or]
      by_cases hsome : s.hasRaw = true ∨ s.configurations ≠ []
      · simp only [if_neg fun h => hempty.1 h hsome, Except.ok.injEq, hname, true_and]
        constructor
        · rintro rfl
          exact ⟨s, rfl, hsome, rfl⟩
        · rintro ⟨s', rfl, _, rfl⟩
          rfl
      · simp only [if_pos (hempty.2 hsome), Except.ok.injEq, reduceCtorEq, false_iff]
        rintro ⟨_, s', rfl, hsome', _⟩
        exact hsome hsome'
  · simp [hname]

theorem exists_sheet_of_ofElement {dumpPath : Path} {root : Element} {u : SourceUnit}
    (h : ofElement dumpPath root = .ok u) :
    ∃ s, root.children.foldlM Load.Sheet.add ⟨.empty, false, [], []⟩ = .ok s ∧
      u = ⟨dumpPath, s.files.names.map Path.mk, s.rawTokens, s.configurations⟩ := by
  obtain ⟨_, s, hs, _, hu⟩ := ofElement_eq_ok_iff.1 h
  exact ⟨s, hs, hu⟩

end SpaceAudit.SourceUnit
