import Mathlib.Logic.Function.Iterate
import SpaceAudit.Proofs.Audit.Pipeline
import SpaceAudit.Proofs.Group.Order

/-! Auditing a unit once more changes nothing. A scope keeps the note it has, a variable gets the
binding it got before, and so every check finds what it found before, which the run knows. -/
namespace SpaceAudit

namespace Annotations
variable {e : Extent}

theorem ext_notes {a b : Annotations e} (hexec : ∀ s, a.exec? s = b.exec? s)
    (hmemory : ∀ v, a.memory? v = b.memory? v) : a = b := by
  cases a with
  | mk exec memory =>
    cases b with
    | mk exec' memory' =>
      have he : exec = exec' := Vector.ext fun i hi => hexec ⟨i, hi⟩
      have hm : memory = memory' := Vector.ext fun i hi => hmemory ⟨i, hi⟩
      rw [he, hm]

theorem classify_of_isSome {a : Annotations e} {s : Fin e.scopes} (info : ExecInfo)
    (h : (a.exec? s).isSome) : a.classify s info = a := by
  obtain ⟨old, hold⟩ := Option.isSome_iff_exists.1 h
  rw [classify, hold]

theorem memory?_bind (a : Annotations e) (v x : Fin e.vars) (b : Binding) :
    (a.bind v b).memory? x = if x = v then some b else a.memory? x := by
  by_cases hx : x = v
  · subst hx
    simp [bind, memory?]
  · have hne : v.val ≠ x.val := fun h => hx (Fin.ext h.symm)
    simp [bind, memory?, hx, hne]

end Annotations

namespace Configuration
variable {c : Configuration} {settings : Settings} {aliases : AliasTable}

/-- Every scope that classification is about carries a note. -/
def Classified (c : Configuration) (a : Annotations c.extent) : Prop :=
  ∀ s ∈ c.scopeOrder, (c.scope s).kind.isExecutable = true → (a.exec? s).isSome

theorem isSome_classifyScope {a : Annotations c.extent} {x : c.ScopeIdx} (s : c.ScopeIdx)
    (h : (a.exec? x).isSome) : ((c.classifyScope settings a s).exec? x).isSome := by
  unfold classifyScope
  split
  · by_cases hx : x = s
    · subst hx
      rw [Annotations.classify_of_isSome _ h]
      exact h
    · rw [Annotations.exec?_classify_ne _ _ hx]
      exact h
  · exact h

theorem isSome_classifyScope_self (a : Annotations c.extent) {s : c.ScopeIdx}
    (hs : (c.scope s).kind.isExecutable = true) :
    ((c.classifyScope settings a s).exec? s).isSome := by
  rw [classifyScope, if_pos hs]
  cases h : a.exec? s with
  | none => simp [Annotations.exec?_classify_self _ h]
  | some info =>
    have hsome : (a.exec? s).isSome := by simp [h]
    rwa [Annotations.classify_of_isSome _ hsome]

theorem isSome_foldl_classifyScope (l : List c.ScopeIdx) (a : Annotations c.extent)
    {s : c.ScopeIdx} (hs : (c.scope s).kind.isExecutable = true)
    (h : s ∈ l ∨ (a.exec? s).isSome) :
    ((l.foldl (c.classifyScope settings) a).exec? s).isSome := by
  induction l generalizing a with
  | nil => simpa using h
  | cons t l ih =>
    refine ih _ ?_
    rcases h with h | h
    · rcases List.mem_cons.1 h with rfl | h
      · exact .inr (isSome_classifyScope_self a hs)
      · exact .inl h
    · exact .inr (isSome_classifyScope t h)

theorem classify_of_classified {a : Annotations c.extent}
    (h : c.sections.scopes = true → c.Classified a) : c.classify settings a = a := by
  unfold classify
  split
  · rename_i hscopes
    have hstep : ∀ s ∈ c.scopeOrder, c.classifyScope settings a s = a := by
      intro s hs
      unfold classifyScope
      split
      · rename_i hexec
        exact Annotations.classify_of_isSome _ (h hscopes s hs hexec)
      · rfl
    have hall (l : List c.ScopeIdx) (hl : ∀ s ∈ l, c.classifyScope settings a s = a) :
        l.foldl (c.classifyScope settings) a = a := by
      induction l with
      | nil => rfl
      | cons s l ih =>
        rw [List.foldl_cons, hl s List.mem_cons_self]
        exact ih fun t ht => hl t (List.mem_cons_of_mem s ht)
    exact hall c.scopeOrder hstep
  · rfl

theorem classified_classify (a : Annotations c.extent) (hscopes : c.sections.scopes = true) :
    c.Classified (c.classify settings a) := by
  intro s hs hexec
  rw [classify, if_pos hscopes]
  exact isSome_foldl_classifyScope c.scopeOrder a hexec (.inl hs)

/-- Steps that each settle one variable settle all variables they go through. -/
theorem memory?_foldl {v : c.VariableIdx} {b : Option Binding}
    {step : Annotations c.extent → c.VariableIdx → Annotations c.extent}
    (hself : ∀ a, (step a v).memory? v = b.or (a.memory? v))
    (hother : ∀ a x, v ≠ x → (step a x).memory? v = a.memory? v) (l : List c.VariableIdx)
    (a : Annotations c.extent) :
    (l.foldl step a).memory? v = if v ∈ l then b.or (a.memory? v) else a.memory? v := by
  induction l generalizing a with
  | nil => simp
  | cons x l ih =>
    rw [List.foldl_cons, ih]
    by_cases hx : v = x
    · subst hx
      simp [hself, ← Option.or_assoc]
    · simp [hother a x hx, hx]

theorem memory?_resolveMemory (a : Annotations c.extent) (v : c.VariableIdx) :
    (c.resolveMemory settings aliases a).memory? v =
      (c.binding? settings aliases v).or (a.memory? v) := by
  unfold resolveMemory
  refine (memory?_foldl (b := c.binding? settings aliases v) ?_ ?_ c.variableIndices a).trans
    (if_pos (List.mem_finRange v))
  · intro a
    cases c.binding? settings aliases v with
    | none => rfl
    | some b => simp [Annotations.memory?_bind]
  · intro a x hx
    cases c.binding? settings aliases x with
    | none => rfl
    | some b => simp [Annotations.memory?_bind, hx]

theorem exec?_resolveMemory (a : Annotations c.extent) (s : c.ScopeIdx) :
    (c.resolveMemory settings aliases a).exec? s = a.exec? s := by
  have hexec := Stage.exec_resolveMemory c settings aliases a
  rw [Annotations.exec?, Annotations.exec?, hexec]

theorem resolveMemory_resolveMemory (a : Annotations c.extent) :
    c.resolveMemory settings aliases (c.resolveMemory settings aliases a) =
      c.resolveMemory settings aliases a := by
  refine Annotations.ext_notes (fun s => exec?_resolveMemory _ s) (fun v => ?_)
  simp only [memory?_resolveMemory, ← Option.or_assoc, Option.or_self]

/-- Classification finds all its notes in place after the memory is resolved. -/
theorem classify_resolveMemory_classify (a : Annotations c.extent) :
    c.classify settings (c.resolveMemory settings aliases (c.classify settings a)) =
      c.resolveMemory settings aliases (c.classify settings a) := by
  refine classify_of_classified fun hscopes s hs hexec => ?_
  rw [exec?_resolveMemory]
  exact classified_classify a hscopes s hs hexec

end Configuration

namespace AnnotatedConfiguration
variable (settings : Settings) (aliases : AliasTable) (a : AnnotatedConfiguration)

theorem configuration_annotate : (a.annotate settings aliases).configuration = a.configuration := by
  unfold annotate
  split <;> rfl

theorem annotate_annotate :
    (a.annotate settings aliases).annotate settings aliases = a.annotate settings aliases := by
  cases htokens : a.configuration.hasTokens with
  | false => simp [annotate, htokens]
  | true =>
    have honce : a.annotate settings aliases = ⟨a.configuration, a.configuration.resolveMemory
        settings aliases (a.configuration.classify settings a.notes)⟩ := by
      rw [annotate, if_pos htokens]
    rw [honce, annotate, if_pos htokens, Configuration.classify_resolveMemory_classify,
      Configuration.resolveMemory_resolveMemory]

end AnnotatedConfiguration

namespace Run

theorem reportAll_of_known {r : Run} {fs : List Finding}
    (h : ∀ f ∈ fs, f.key ∈ r.findings.map Finding.key) : r.reportAll fs = r := by
  induction fs with
  | nil => rfl
  | cons f fs ih =>
    have hstep : r.report f = r := by
      rw [report, if_pos (any_sameKey_iff.2 (h f List.mem_cons_self))]
    have hrest := ih fun g hg => h g (List.mem_cons_of_mem f hg)
    calc
      r.reportAll (f :: fs) = (r.report f).reportAll fs := rfl
      _ = r := by rw [hstep, hrest]

theorem known_of_reportAll (r : Run) (fs : List Finding) :
    ∀ f ∈ fs, f.key ∈ (r.reportAll fs).findings.map Finding.key := by
  intro f hf
  rw [(recorded_reportAll r fs).1, mem_map_fresh]
  exact .inr (List.mem_map_of_mem hf)

end Run

namespace AnnotatedUnit
variable (settings : Settings) (g : GroupContext) (u : AnnotatedUnit) (r : Run)

theorem source_annotate : (u.annotate settings g).source = u.source := by
  simp [source, annotate, Function.comp_def, AnnotatedConfiguration.configuration_annotate]

theorem annotate_annotate :
    (u.annotate settings g).annotate settings g = u.annotate settings g := by
  have hpath : (u.annotate settings g).path = u.path := rfl
  rw [annotate, hpath]
  simp [annotate, Function.comp_def, AnnotatedConfiguration.annotate_annotate]

theorem audit_audit :
    (u.audit settings g r).1.audit settings g (u.audit settings g r).2 = u.audit settings g r := by
  have hunit : (u.audit settings g r).1 = u.annotate settings g := rfl
  have hknown := Run.known_of_reportAll r ((u.annotate settings g).findings settings g)
  rw [hunit, audit, annotate_annotate]
  exact congrArg (Prod.mk _) (Run.reportAll_of_known hknown)

/-- What one audit leaves behind is what any number of audits leave behind. -/
structure Repeatable (settings : Settings) (g : GroupContext) (u : AnnotatedUnit) (r : Run) :
    Prop where
  again : ∀ n, (fun x : AnnotatedUnit × Run => x.1.audit settings g x.2)^[n]
    (u.audit settings g r) = u.audit settings g r
  /-- The unit changes in nothing but its notes. -/
  source : (u.audit settings g r).1.source = u.source
  /-- The one audit told all that the checks find in the unit it leaves behind. -/
  recorded : ∀ f ∈ (u.audit settings g r).1.findings settings g,
    f.key ∈ (u.audit settings g r).2.findings.map Finding.key
  claimed : (u.audit settings g r).2.claimed = r.claimed

/-- Auditing is idempotent, on loaded and on annotated units and in every run. -/
theorem audit_repeatable (settings : Settings) (g : GroupContext) (u : AnnotatedUnit) (r : Run) :
    Repeatable settings g u r where
  again n := Function.iterate_fixed (audit_audit settings g u r) n
  source := source_annotate settings g u
  recorded := Run.known_of_reportAll r _
  claimed := Run.claimed_reportAll r _

end AnnotatedUnit

end SpaceAudit
