import Mathlib.Data.List.Infix
import SpaceAudit.Audit.Ownership
import SpaceAudit.Proofs.Audit.Subject
import SpaceAudit.Proofs.Statement.Runs

/-! The audit of owning fields looks at statements one by one: at the first call in each that
returns an owning field, and at the first variable it names. What it reports are the statements in
which the two do not go together, each once. -/
namespace SpaceAudit

theorem Text.holdsChars_iff {part cs : List Char} :
    Text.holdsChars part cs = true ↔ part <:+: cs := by
  induction cs with
  | nil => simp [Text.holdsChars]
  | cons c cs ih =>
    rw [Text.holdsChars, Bool.or_eq_true, ih, List.isPrefixOf_iff_prefix, List.infix_cons_iff]

theorem Ref.get?_eq_none_iff {n : Nat} {r : Ref n} : r.get? = none ↔ ∀ i, r ≠ .resolved i := by
  cases r <;> simp [Ref.get?]

namespace Configuration
variable {c : Configuration}

/-- `t` is the first token of a span with a property. -/
structure First (c : Configuration) (p : c.TokenIdx → Prop) (s : Span) (t : c.TokenIdx) :
    Prop where
  inside : s.start ≤ t.val ∧ t.val < s.stop
  holds : p t
  least : ∀ u : c.TokenIdx, s.start ≤ u.val → u < t → ¬ p u

theorem First.unique {p : c.TokenIdx → Prop} {s : Span} {t u : c.TokenIdx} (ht : c.First p s t)
    (hu : c.First p s u) : t = u := by
  rcases lt_trichotomy t u with hlt | heq | hgt
  · exact absurd ht.holds (hu.least t ht.inside.1 hlt)
  · exact heq
  · exact absurd hu.holds (ht.least u hu.inside.1 hgt)

theorem First.exists_le {p : c.TokenIdx → Prop} {s : Span} {u : c.TokenIdx}
    (hin : s.start ≤ u.val ∧ u.val < s.stop) (hu : p u) : ∃ t, c.First p s t ∧ t ≤ u := by
  induction u using WellFoundedLT.induction with
  | ind u ih =>
    by_cases h : ∃ w, s.start ≤ w.val ∧ w < u ∧ p w
    · obtain ⟨w, hstart, hlt, hw⟩ := h
      obtain ⟨t, ht, hle⟩ := ih w hlt ⟨hstart, lt_trans hlt hin.2⟩ hw
      exact ⟨t, ht, le_trans hle (le_of_lt hlt)⟩
    · exact ⟨u, ⟨hin, hu, fun w hstart hlt hw => h ⟨w, hstart, hlt, hw⟩⟩, le_refl u⟩

theorem first_iff_split {p : c.TokenIdx → Prop} {s : Span} {t : c.TokenIdx} :
    c.First p s t ↔
      p t ∧ ∃ front back, c.tokensIn s = front ++ t :: back ∧ ∀ u ∈ front, ¬ p u := by
  constructor
  · intro h
    obtain ⟨front, back, hsplit⟩ := List.append_of_mem (mem_tokensIn.2 h.inside)
    refine ⟨h.holds, front, back, hsplit, fun u hu => ?_⟩
    have hmem : u ∈ c.tokensIn s := hsplit ▸ List.mem_append_left _ hu
    have hlt := (List.pairwise_append.1 (hsplit ▸ tokensIn_increasing s)).2.2 u hu t (by simp)
    exact h.least u (mem_tokensIn.1 hmem).1 hlt
  · rintro ⟨ht, front, back, hsplit, hfront⟩
    refine ⟨mem_tokensIn.1 (by rw [hsplit]; simp), ht, fun u hstart hlt => ?_⟩
    have hsorted := hsplit ▸ tokensIn_increasing s
    have hstop := (mem_tokensIn.1 (show t ∈ c.tokensIn s by rw [hsplit]; simp)).2
    have hmem : u ∈ front ++ t :: back := hsplit ▸ mem_tokensIn.2 ⟨hstart, lt_trans hlt hstop⟩
    rcases List.mem_append.1 hmem with hu | hu
    · exact hfront u hu
    · rcases List.mem_cons.1 hu with rfl | hu
      · exact absurd hlt (lt_irrefl u)
      · have hgt := (List.pairwise_cons.1 (List.pairwise_append.1 hsorted).2.1).1 u hu
        exact absurd hlt (lt_asymm hgt)

theorem find?_tokensIn_eq_some_iff {q : c.TokenIdx → Bool} {s : Span} {t : c.TokenIdx} :
    (c.tokensIn s).find? q = some t ↔ c.First (fun u => q u = true) s t := by
  simp only [List.find?_eq_some_iff_append, first_iff_split, Bool.not_eq_true', Bool.not_eq_true]

theorem typeTexts_eq_ok_iff {v : c.VariableIdx} {texts : List String} :
    c.typeTexts v = .ok texts ↔ ∃ first last, (c.var v).typeStart = .resolved first ∧
      (c.var v).typeEnd = .resolved last ∧ texts = (c.tokensBetween first last).map c.text := by
  unfold typeTexts
  constructor
  · intro h
    split at h
    · cases h
    · rename_i first hfirst
      split at h
      · cases h
      · rename_i last hlast
        exact ⟨first, last, Ref.require_eq_ok_iff.1 hfirst, Ref.require_eq_ok_iff.1 hlast,
          (Except.ok.inj h).symm⟩
  · rintro ⟨first, last, hfirst, hlast, rfl⟩
    simp [Ref.require_eq_ok_iff.2 hfirst, Ref.require_eq_ok_iff.2 hlast]

end Configuration

namespace Subject
variable {x : Subject}

/-- A token calls a function that returns an owning field: it names one, an argument list follows,
and no function is defined there. -/
def OwningCall (x : Subject) (t : x.TokenIdx) : Prop :=
  x.configuration.text t ∈ x.signatures.owning ∧ x.configuration.nextText t = "(" ∧
    ∀ f, (x.configuration.function f).definition ≠ .resolved t

/-- A scope around a token, at whatever depth, is the body of a function of this name. -/
def InBodyOf (x : Subject) (name : String) (t : x.TokenIdx) : Prop :=
  ∃ s a f, (x.configuration.token t).scope = .resolved s ∧ x.configuration.Encloses a s ∧
    (x.configuration.scope a).function = .resolved f ∧ (x.configuration.function f).name = name

def NamesVariable (x : Subject) (t : x.TokenIdx) : Prop :=
  ∃ v, (x.configuration.token t).var = .resolved v

/-- The type of a variable is known, is not left to the compiler, and has the owning marker neither
as it is written nor with its aliases expanded. -/
def HoldsNothing (x : Subject) (v : x.VariableIdx) : Prop :=
  ∃ first last texts, (x.configuration.var v).typeStart = .resolved first ∧
    (x.configuration.var v).typeEnd = .resolved last ∧
    texts = (x.configuration.tokensBetween first last).map x.configuration.text ∧
    "".intercalate texts ≠ "auto" ∧
    ¬ x.settings.owningMarker.toList <:+: ("".intercalate texts).toList ∧
    ¬ x.settings.owningMarker.toList <:+: ("".intercalate (x.aliases.expand texts)).toList

/-- `f` is what the statement `s` calls for. It begins in the unit's own source, its first owning
call is no call from the body of the function itself, and the variable that it names first is
initialised there and holds nothing. -/
structure Dangling (x : Subject) (s : Span) (f : Finding) : Prop where
  statement : Statements.IsRun x.configuration.texts s
  own : ∃ first : x.TokenIdx, first.val = s.start ∧
    (x.configuration.token first).file = x.mainFile
  call : ∃ t, x.configuration.First x.OwningCall s t ∧ ¬ x.InBodyOf (x.configuration.text t) t
  bound : ∃ t v, x.configuration.First x.NamesVariable s t ∧
    (x.configuration.token t).var = .resolved v ∧
    x.configuration.nextText t ∈ ["(", "=", "\x7b"] ∧ x.HoldsNothing v ∧ f = x.handleFinding s t

theorem owningCall?_eq_some_iff {s : Span} {t : x.TokenIdx} :
    x.owningCall? s = some t ↔ x.configuration.First x.OwningCall s t := by
  have hcall : (fun u => (x.signatures.owning.contains (x.configuration.text u) &&
      x.configuration.nextText u == "(" && !x.isDefinition u) = true) = x.OwningCall := by
    funext u
    simp only [OwningCall, Bool.and_eq_true, List.contains_iff_mem, beq_iff_eq, Bool.not_eq_true',
      isDefinition_eq_false_iff, and_assoc]
  rw [owningCall?, Configuration.find?_tokensIn_eq_some_iff, hcall]

theorem isInsideFunction_iff {name : String} {t : x.TokenIdx} :
    x.isInsideFunction name t = true ↔ x.InBodyOf name t := by
  unfold isInsideFunction InBodyOf
  simp only [← Ref.get?_eq_some_iff]
  cases hs : (x.configuration.token t).scope.get? with
  | none => simp
  | some s =>
    simp only [List.any_eq_true, Option.any_eq_true, beq_iff_eq,
      Configuration.mem_cons_ancestors_iff, Option.some.injEq]
    constructor
    · rintro ⟨a, ha, f, hf, hname⟩
      exact ⟨s, a, f, rfl, ha, hf, hname⟩
    · rintro ⟨_, a, f, rfl, ha, hf, hname⟩
      exact ⟨a, ha, f, hf, hname⟩

theorem initialised?_eq_some_iff {s : Span} {t : x.TokenIdx} {v : x.VariableIdx} :
    x.initialised? s = some (t, v) ↔ x.configuration.First x.NamesVariable s t ∧
      (x.configuration.token t).var = .resolved v ∧
      x.configuration.nextText t ∈ ["(", "=", "\x7b"] := by
  have hfirst : (x.uses (x.configuration.tokensIn s)).head? = some (t, v) ↔
      x.configuration.First x.NamesVariable s t ∧ (x.configuration.token t).var = .resolved v := by
    rw [uses, List.head?_filterMap, List.findSome?_eq_some_iff, Configuration.first_iff_split]
    simp only [NamesVariable, Option.map_eq_none_iff, Option.map_eq_some_iff, Prod.mk.injEq,
      Ref.get?_eq_some_iff, Ref.get?_eq_none_iff, not_exists]
    constructor
    · rintro ⟨front, t', back, hsplit, ⟨w, hw, rfl, rfl⟩, hfront⟩
      exact ⟨⟨⟨w, hw⟩, front, back, hsplit, hfront⟩, hw⟩
    · rintro ⟨⟨_, front, back, hsplit, hfront⟩, hv⟩
      exact ⟨front, t, back, hsplit, ⟨v, hv, rfl, rfl⟩, hfront⟩
  rw [← and_assoc, ← hfirst, initialised?]
  cases x.uses (x.configuration.tokensIn s) with
  | nil => simp
  | cons u rest =>
    simp only [List.contains_iff_mem, Option.ite_none_right_eq_some, List.head?_cons,
      Option.some.injEq]
    constructor
    · rintro ⟨hnext, rfl⟩
      exact ⟨rfl, hnext⟩
    · rintro ⟨rfl, hnext⟩
      exact ⟨hnext, rfl⟩

theorem keepsOwnership_iff {texts : List String} :
    x.keepsOwnership texts = true ↔ "".intercalate texts = "auto" ∨
      x.settings.owningMarker.toList <:+: ("".intercalate texts).toList ∨
      x.settings.owningMarker.toList <:+: ("".intercalate (x.aliases.expand texts)).toList := by
  simp only [keepsOwnership, Bool.or_eq_true, beq_iff_eq, Text.holds, Text.holdsChars_iff, or_assoc]

theorem holdsNothing_iff {v : x.VariableIdx} :
    x.HoldsNothing v ↔
      ∃ texts, x.configuration.typeTexts v = .ok texts ∧ ¬ x.keepsOwnership texts = true := by
  simp only [keepsOwnership_iff, not_or, Configuration.typeTexts_eq_ok_iff]
  constructor
  · rintro ⟨first, last, texts, hfirst, hlast, htexts, hkeeps⟩
    exact ⟨texts, ⟨first, last, hfirst, hlast, htexts⟩, hkeeps⟩
  · rintro ⟨texts, ⟨first, last, hfirst, hlast, htexts⟩, hkeeps⟩
    exact ⟨first, last, texts, hfirst, hlast, htexts, hkeeps⟩

theorem handleFinding?_cases {s : Span} {f : Finding} :
    x.handleFinding? s = some f ↔ ∃ call t v texts, x.owningCall? s = some call ∧
      ¬ x.isInsideFunction (x.configuration.text call) call = true ∧
      x.initialised? s = some (t, v) ∧ x.configuration.typeTexts v = .ok texts ∧
      ¬ x.keepsOwnership texts = true ∧ f = x.handleFinding s t := by
  unfold handleFinding?
  constructor
  · intro h
    split at h
    · cases h
    · rename_i call hcall
      split at h
      · cases h
      · rename_i hbody
        split at h
        · cases h
        · rename_i t v hbound
          split at h
          · cases h
          · rename_i texts htexts
            split at h
            · cases h
            · rename_i hkeeps
              exact ⟨call, t, v, texts, hcall, hbody, hbound, htexts, hkeeps,
                (Option.some.inj h).symm⟩
  · rintro ⟨call, t, v, texts, hcall, hbody, hbound, htexts, hkeeps, rfl⟩
    simp only [hcall, hbody, hbound, htexts, hkeeps, Bool.false_eq_true, if_false]

theorem handleFinding?_eq_some_iff {s : Span} {f : Finding} :
    x.handleFinding? s = some f ↔
      (∃ t, x.configuration.First x.OwningCall s t ∧ ¬ x.InBodyOf (x.configuration.text t) t) ∧
        ∃ t v, x.configuration.First x.NamesVariable s t ∧
          (x.configuration.token t).var = .resolved v ∧
          x.configuration.nextText t ∈ ["(", "=", "\x7b"] ∧ x.HoldsNothing v ∧
          f = x.handleFinding s t := by
  simp only [handleFinding?_cases, owningCall?_eq_some_iff, isInsideFunction_iff,
    initialised?_eq_some_iff, holdsNothing_iff]
  constructor
  · rintro ⟨call, t, v, texts, hcall, hbody, ⟨hfirst, hv, hnext⟩, htexts, hkeeps, hf⟩
    exact ⟨⟨call, hcall, hbody⟩, t, v, hfirst, hv, hnext, ⟨texts, htexts, hkeeps⟩, hf⟩
  · rintro ⟨⟨call, hcall, hbody⟩, t, v, hfirst, hv, hnext, ⟨texts, htexts, hkeeps⟩, hf⟩
    exact ⟨call, t, v, texts, hcall, hbody, ⟨hfirst, hv, hnext⟩, htexts, hkeeps, hf⟩

theorem mem_auditedStatements {s : Span} :
    s ∈ x.auditedStatements ↔ Statements.IsRun x.configuration.texts s ∧
      ∃ first : x.TokenIdx, first.val = s.start ∧
        (x.configuration.token first).file = x.mainFile := by
  simp only [auditedStatements, List.mem_filter, Configuration.statements,
    Statements.mem_spans_iff, Option.any_eq_true, Configuration.tokenAt?_eq_some_iff, inMainFile,
    beq_iff_eq, eq_comm (a := s.start)]

theorem dangling_iff {s : Span} {f : Finding} :
    x.Dangling s f ↔ s ∈ x.auditedStatements ∧ x.handleFinding? s = some f := by
  rw [mem_auditedStatements, handleFinding?_eq_some_iff]
  constructor
  · rintro ⟨hrun, hown, hcall, hbound⟩
    exact ⟨⟨hrun, hown⟩, hcall, hbound⟩
  · rintro ⟨⟨hrun, hown⟩, hcall, hbound⟩
    exact ⟨hrun, hown, hcall, hbound⟩

theorem auditedStatements_increasing (x : Subject) :
    x.auditedStatements.Pairwise fun r s => r.start < s.start := by
  have hspans : (Statements.ofTexts x.configuration.texts).spans.Pairwise
      fun r s => r.start < s.start := by
    refine (Statements.spans_increasing x.configuration.texts).imp_of_mem ?_
    intro r s hr _ hlt
    exact lt_trans (Statements.mem_spans_iff.1 hr).nonempty hlt
  exact hspans.filter _

theorem auditedStatements_nodup (x : Subject) : x.auditedStatements.Nodup := by
  refine (auditedStatements_increasing x).imp ?_
  rintro r s hlt rfl
  exact lt_irrefl _ hlt

theorem ownershipFindings_oneForEach (x : Subject) :
    ∃ fs, x.ownershipFindings = .ok fs ∧ OneForEach x.Dangling fs := by
  refine ⟨x.auditedStatements.filterMap x.handleFinding?, rfl,
    x.auditedStatements.filter fun s => (x.handleFinding? s).isSome,
    (auditedStatements_nodup x).filter _, fun s => ?_, ?_⟩
  · simp only [dangling_iff, List.mem_filter, Option.isSome_iff_exists, exists_and_left]
  · exact (forall₂_filterMap x.handleFinding? x.auditedStatements).imp fun s f => dangling_iff.2

/-- The audit reports exactly the statements that call for it, each once and at the variable that
is initialised. A statement whose first owning call stands in the body of the function itself is
left alone, however many scopes lie between. -/
theorem ownershipFindings_exact (x : Subject) :
    (∃ fs, x.ownershipFindings = .ok fs ∧ OneForEach x.Dangling fs) ∧
      (∀ s t, x.configuration.First x.OwningCall s t → x.InBodyOf (x.configuration.text t) t →
        ∀ f, ¬ x.Dangling s f) ∧
      ∀ s f, x.Dangling s f → ∃ t, x.configuration.First x.NamesVariable s t ∧
        f.check = .danglingHandle ∧ f.severity = .fatal ∧ f.file = x.path ∧
        f.line = (x.configuration.token t).line ∧ f.column = (x.configuration.token t).column := by
  refine ⟨ownershipFindings_oneForEach x, fun s t ht hbody f h => ?_, fun s f h => ?_⟩
  · obtain ⟨call, hcall, hout⟩ := h.call
    rw [hcall.unique ht] at hout
    exact hout hbody
  · obtain ⟨t, v, hfirst, _, _, _, rfl⟩ := h.bound
    exact ⟨t, hfirst, rfl, rfl, rfl, rfl, rfl⟩

end Subject

namespace Configuration

/-- A factory that calls itself in a lambda, and a function that stores two fields of it in a type
which holds nothing. -/
def factoryTexts : Vector String 40 :=
  #v["FM", "make", "(", ")", "\x7b", "[", "]", "\x7b", "V", "r", "=", "make", "(", ")", ";", "\x7d",
    ";", "\x7d", "void", "use", "(", ")", "\x7b", "V", "w", "(", "make", "(", ")", ")", ";", "V",
    "b", "\x7b", "make", "(", ")", "\x7d", ";", "\x7d"]

def factoryRef (n i : Nat) : Ref n := if h : i < n then .resolved ⟨i, h⟩ else .absent

def factoryScopeAt (i : Nat) : Nat :=
  if 7 ≤ i ∧ i ≤ 15 then 2 else if 4 ≤ i ∧ i ≤ 17 then 1 else if 22 ≤ i then 3 else 0

def factoryVariableAt (i : Nat) : Nat :=
  if i = 9 then 0 else if i = 24 then 1 else if i = 32 then 2 else 3

theorem factoryScopes_pos : 0 < 4 := by decide

/-- The body of the factory is scope 1 with the lambda as scope 2. -/
def factorySample : Configuration where
  name := ""
  sections := ⟨true, true, true, true⟩
  extent := ⟨40, 4, 2, 3⟩
  tokens := Vector.ofFn fun i =>
    ⟨"", factoryTexts.get i, 0, 1, i.val, factoryRef 4 (factoryScopeAt i.val),
      factoryRef 3 (factoryVariableAt i.val), .absent, .absent, .absent⟩
  scopes :=
    #v[⟨"", .globalScope, "", .absent, .absent, .absent, .absent, []⟩,
      ⟨"", .function, "make", factoryRef 4 0, factoryRef 40 4, factoryRef 40 17, factoryRef 2 0,
        []⟩,
      ⟨"", .lambda, "", factoryRef 4 1, factoryRef 40 7, factoryRef 40 15, .absent,
        (List.finRange 3).take 1⟩,
      ⟨"", .function, "use", factoryRef 4 0, factoryRef 40 22, factoryRef 40 39, factoryRef 2 1,
        (List.finRange 3).drop 1⟩]
  functions :=
    #v[⟨"", "make", .ordinary, factoryRef 40 1, ⟨0, factoryScopes_pos⟩, false, false⟩,
      ⟨"", "use", .ordinary, factoryRef 40 19, ⟨0, factoryScopes_pos⟩, false, false⟩]
  vars :=
    #v[⟨"", "r", factoryRef 40 9, factoryRef 40 8, factoryRef 40 8, .locally, false, false,
        factoryRef 4 2⟩,
      ⟨"", "w", factoryRef 40 24, factoryRef 40 23, factoryRef 40 23, .locally, false, false,
        factoryRef 4 3⟩,
      ⟨"", "b", factoryRef 40 32, factoryRef 40 31, factoryRef 40 31, .locally, false, false,
        factoryRef 4 3⟩]
  directives := []

end Configuration

namespace Subject

def factorySubject : Subject :=
  ⟨⟨"a.cpp"⟩, 0, .standard, .empty, ⟨["make"], []⟩, Configuration.factorySample, .none⟩

/-- In the sample the factory's own call lies in a lambda of its body. The call in the other
function is reported, at token 24. -/
theorem ownershipFindings_exact_factory :
    factorySubject.ownershipFindings =
        .ok [factorySubject.handleFinding ⟨23, 30⟩ (24 : Fin 40)] ∧
      OneForEach factorySubject.Dangling
        [factorySubject.handleFinding ⟨23, 30⟩ (24 : Fin 40)] ∧
      factorySubject.configuration.First factorySubject.OwningCall ⟨8, 14⟩ (11 : Fin 40) ∧
      factorySubject.InBodyOf "make" (11 : Fin 40) ∧ ∀ f, ¬ factorySubject.Dangling ⟨8, 14⟩ f := by
  have hfound : factorySubject.ownershipFindings =
      .ok [factorySubject.handleFinding ⟨23, 30⟩ (24 : Fin 40)] := by decide +kernel
  have hcall : factorySubject.configuration.First factorySubject.OwningCall ⟨8, 14⟩
      (11 : Fin 40) := owningCall?_eq_some_iff.1 (by decide +kernel)
  have hbody : factorySubject.InBodyOf "make" (11 : Fin 40) :=
    isInsideFunction_iff.1 (by decide +kernel)
  obtain ⟨⟨fs, hfs, hone⟩, hown, _⟩ := ownershipFindings_exact factorySubject
  rw [hfound, Except.ok.injEq] at hfs
  exact ⟨hfound, hfs ▸ hone, hcall, hbody, hown _ _ hcall hbody⟩

end Subject

end SpaceAudit
