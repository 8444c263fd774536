import SpaceAudit.Audit.NeedlessAuto
import SpaceAudit.Proofs.Statement.AutoDeclarations

/-! The audit of `auto` variables, by what it looks at. It goes by the expression where that is
assigned or stands in parentheses. Of an expression in braces it sees nothing, since a brace ends
the statement, and so it reports the variable whatever the expression is. -/
namespace SpaceAudit

/-- An expression whose type has to be deduced: it marks device code, names a mirror function or
calls a function that returns `auto`. -/
def NeedsAuto (settings : Settings) (signatures : Signatures) (e : List String) : Prop :=
  (∃ text ∈ e, (settings.marker? text).isSome = true) ∨
    (∃ text ∈ e, text ∈ settings.mirrorFunctions) ∨ ∃ f ∈ signatures.auto, [f, "("] <:+: e

/-- An expression that may be stored in an `auto` variable. -/
def KeepsAuto (settings : Settings) (signatures : Signatures) (e : List String) : Prop :=
  e.head? = some "[" ∨ NeedsAuto settings signatures e

theorem pair_infix_iff {α : Type} {a b : α} {l : List α} :
    [a, b] <:+: l ↔ ∃ k, l[k]? = some a ∧ l[k + 1]? = some b := by
  constructor
  · intro h
    obtain ⟨front, back, rfl⟩ := h
    exact ⟨front.length, by simp, by simp⟩
  · intro h
    obtain ⟨k, ha, hb⟩ := h
    obtain ⟨hk, rfl⟩ := List.getElem?_eq_some_iff.1 ha
    obtain ⟨hk', rfl⟩ := List.getElem?_eq_some_iff.1 hb
    refine ⟨l.take k, l.drop (k + 2), ?_⟩
    rw [List.append_assoc, List.cons_append, List.singleton_append,
      ← List.drop_eq_getElem_cons hk', ← List.drop_eq_getElem_cons hk, List.take_append_drop]

namespace Configuration
variable {c : Configuration} {i : Nat} {e : List String}

theorem textAt_eq (i : Nat) : c.textAt i = (c.texts[i]?).getD "" := by
  have hneg : ¬ (i : Int) < 0 := by omega
  rw [textAt, if_neg hneg, Int.toNat_natCast, texts, List.getElem?_map, Vector.getElem?_toList]
  cases c.tokens[i]? with
  | none => rfl
  | some t => rfl

namespace Reads

theorem textAt_eq_bracket_iff (h : c.Reads i e) : c.textAt i = "[" ↔ e.head? = some "[" := by
  rw [textAt_eq]
  cases e with
  | nil =>
    obtain ⟨b, hget, hb⟩ := h.getElem?_next
    have hother : b ≠ "[" := by
      intro hbracket
      rw [hbracket] at hb
      exact absurd hb (by decide)
    rw [List.length_nil, Nat.add_zero] at hget
    simpa [hget] using hother
  | cons first e =>
    have hget : c.texts[i]? = some first := h.getElem? (k := 0) (by simp)
    simp [hget]

theorem exists_text_iff (h : c.Reads i e) {p : String → Prop} :
    (∃ t ∈ c.tokensIn ⟨i, i + e.length⟩, p (c.text t)) ↔ ∃ text ∈ e, p text := by
  have htexts := h.textsIn
  rw [Configuration.textsIn] at htexts
  constructor
  · intro hfound
    obtain ⟨t, ht, hp⟩ := hfound
    exact ⟨c.text t, htexts ▸ List.mem_map_of_mem ht, hp⟩
  · intro hfound
    obtain ⟨text, htext, hp⟩ := hfound
    rw [← htexts] at htext
    obtain ⟨t, ht, rfl⟩ := List.mem_map.1 htext
    exact ⟨t, ht, hp⟩

theorem exists_call_iff (h : c.Reads i e) {f : String} :
    (∃ t ∈ c.tokensIn ⟨i, i + e.length⟩, c.text t = f ∧ c.nextText t = "(") ↔
      [f, "("] <:+: e := by
  rw [pair_infix_iff]
  constructor
  · intro hcall
    obtain ⟨t, ht, rfl, hnext⟩ := hcall
    obtain ⟨hle, hlt⟩ := mem_tokensIn.1 ht
    dsimp only at hle hlt
    have hat : t.val = i + (t.val - i) := by omega
    have hk : t.val - i < e.length := by omega
    exact ⟨t.val - i, h.text_eq hat hk, (h.nextText_eq_opening_iff hat hk).1 hnext⟩
  · intro hcall
    obtain ⟨k, hname, hopen⟩ := hcall
    have hk := (List.getElem?_eq_some_iff.1 hname).1
    obtain ⟨t, ht⟩ := h.exists_token hk
    rw [h.text_eq ht hk, Option.some.injEq] at hname
    exact ⟨t, mem_tokensIn.2 ⟨by dsimp only; omega, by dsimp only; omega⟩, hname,
      (h.nextText_eq_opening_iff ht hk).2 hopen⟩

end Reads

end Configuration

namespace Subject
variable {x : Subject} {i : Nat} {e : List String}

theorem isLambda_iff (h : x.configuration.Reads i e) :
    x.isLambda ⟨i, i + e.length⟩ = true ↔
      e.head? = some "[" ∨ ∃ text ∈ e, (x.settings.marker? text).isSome = true := by
  simp only [isLambda, Bool.or_eq_true, beq_iff_eq, h.textAt_eq_bracket_iff, h.textsIn,
    List.any_eq_true]

theorem isDeduced_iff (h : x.configuration.Reads i e) :
    x.isDeduced ⟨i, i + e.length⟩ = true ↔
      (∃ text ∈ e, text ∈ x.settings.mirrorFunctions) ∨
        ∃ f ∈ x.signatures.auto, [f, "("] <:+: e := by
  simp only [isDeduced, List.any_eq_true, Bool.or_eq_true, Bool.and_eq_true, beq_iff_eq,
    List.contains_iff_mem, ← h.exists_text_iff, ← h.exists_call_iff]
  constructor
  · intro hfound
    obtain ⟨t, ht, hjudged⟩ := hfound
    cases hjudged with
    | inl hmirror => exact .inl ⟨t, ht, hmirror⟩
    | inr hcall => exact .inr ⟨_, hcall.1, t, ht, rfl, hcall.2⟩
  · intro hfound
    cases hfound with
    | inl hmirror =>
      obtain ⟨t, ht, hname⟩ := hmirror
      exact ⟨t, ht, .inl hname⟩
    | inr hcall =>
      obtain ⟨_, hauto, t, ht, rfl, hnext⟩ := hcall
      exact ⟨t, ht, .inr ⟨hauto, hnext⟩⟩

theorem isSome_autoFinding?_iff {v : x.VariableIdx} {t : x.TokenIdx}
    (hnamed : (x.configuration.var v).nameToken = .resolved t)
    (hauto : x.configuration.typeTexts v = .ok ["auto"])
    (hinit : x.autoInitializer? v t = some ⟨i, i + e.length⟩) (h : x.configuration.Reads i e) :
    (x.autoFinding? v).isSome = true ↔
      (x.configuration.var v).access ≠ .argument ∧ x.inMainFile t = true ∧
        ¬ KeepsAuto x.settings x.signatures e := by
  have hjudged : (x.isLambda ⟨i, i + e.length⟩ || x.isDeduced ⟨i, i + e.length⟩) = true ↔
      KeepsAuto x.settings x.signatures e := by
    rw [Bool.or_eq_true, isLambda_iff h, isDeduced_iff h, KeepsAuto, NeedsAuto, or_assoc]
  have htype : x.isAuto v = true := by
    rw [isAuto, hauto]
    rfl
  unfold autoFinding?
  rw [Ref.get?_eq_some_iff.2 hnamed]
  dsimp only
  rw [hinit, htype, Bool.and_true]
  dsimp only
  by_cases hsubject : ((x.configuration.var v).access != .argument && x.inMainFile t) = true
  · rw [if_pos hsubject]
    rw [Bool.and_eq_true, bne_iff_ne] at hsubject
    by_cases hkeeps : KeepsAuto x.settings x.signatures e
    · rw [if_pos (hjudged.2 hkeeps)]
      simp [hkeeps]
    · rw [if_neg (fun hj => hkeeps (hjudged.1 hj))]
      simp [hkeeps, hsubject]
  · rw [if_neg hsubject]
    rw [Bool.and_eq_true, bne_iff_ne] at hsubject
    simp only [Option.isSome_none, Bool.false_eq_true, false_iff]
    intro hreported
    exact hsubject ⟨hreported.1, hreported.2.1⟩

end Subject

/-- What the audit looks at. Of an expression in braces that is nothing. -/
def Initialiser.inspected (e : List String) : Initialiser → List String
  | equals => e
  | parentheses => "(" :: (e ++ [")"])
  | braces => []

/-- No parenthesis is a word of the vocabulary. -/
structure PlainParentheses (settings : Settings) (signatures : Signatures) : Prop where
  opening : settings.marker? "(" = none ∧ "(" ∉ settings.mirrorFunctions ∧ "(" ∉ signatures.auto
  closing : settings.marker? ")" = none ∧ ")" ∉ settings.mirrorFunctions

theorem exists_mem_parenthesised {p : String → Prop} {e : List String} :
    (∃ text ∈ "(" :: (e ++ [")"]), p text) ↔ p "(" ∨ (∃ text ∈ e, p text) ∨ p ")" := by
  simp [or_and_right, exists_or]

theorem infix_parenthesised (e : List String) : e <:+: "(" :: (e ++ [")"]) := ⟨["("], [")"], rfl⟩

theorem call_of_parenthesised {f : String} {e : List String} (hf : f ≠ "(")
    (hcall : [f, "("] <:+: "(" :: (e ++ [")"])) : [f, "("] <:+: e := by
  obtain ⟨k, hname, hopen⟩ := pair_infix_iff.1 hcall
  cases k with
  | zero =>
    have hfirst : "(" = f := by simpa using hname
    exact absurd hfirst.symm hf
  | succ k =>
    rw [List.getElem?_cons_succ] at hname hopen
    -- The bracket after the name is not the closing parenthesis, so both lie in the expression.
    have hk : k + 1 < e.length := by
      by_contra hlast
      rw [List.getElem?_append_right (by omega), List.getElem?_singleton] at hopen
      split at hopen
      · exact absurd (Option.some.inj hopen) (by decide)
      · cases hopen
    rw [List.getElem?_append_left (by omega)] at hname hopen
    exact pair_infix_iff.2 ⟨k, hname, hopen⟩

theorem NeedsAuto.parenthesised {settings : Settings} {signatures : Signatures} {e : List String}
    (h : NeedsAuto settings signatures e) :
    NeedsAuto settings signatures ("(" :: (e ++ [")"])) := by
  rw [NeedsAuto, exists_mem_parenthesised, exists_mem_parenthesised]
  refine h.imp (fun hmarker => .inr (.inl hmarker)) (Or.imp (fun hmirror => .inr (.inl hmirror)) ?_)
  intro hcalls
  obtain ⟨f, hf, hcall⟩ := hcalls
  exact ⟨f, hf, hcall.trans (infix_parenthesised e)⟩

theorem needsAuto_parenthesised_iff {settings : Settings} {signatures : Signatures}
    {e : List String} (hplain : PlainParentheses settings signatures) :
    NeedsAuto settings signatures ("(" :: (e ++ [")"])) ↔ NeedsAuto settings signatures e := by
  refine ⟨fun h => ?_, NeedsAuto.parenthesised⟩
  obtain ⟨hmarker, hmirror, hauto⟩ := hplain.opening
  rw [NeedsAuto, exists_mem_parenthesised, exists_mem_parenthesised, hmarker, hplain.closing.1] at h
  refine h.imp ?_ (Or.imp ?_ ?_)
  · simp
  · simp [hmirror, hplain.closing.2]
  · intro hcalls
    obtain ⟨f, hf, hcall⟩ := hcalls
    exact ⟨f, hf, call_of_parenthesised (ne_of_mem_of_not_mem hf hauto) hcall⟩

namespace Subject

/-- The variable stands in the unit's own source, is no argument, and is declared `auto`; the
vocabulary is given. -/
structure JudgesAuto (x : Subject) (settings : Settings) (signatures : Signatures)
    (v : x.VariableIdx) (t : x.TokenIdx) (spelling : Spelling) (e : List String) : Prop where
  settings : x.settings = settings
  signatures : x.signatures = signatures
  own : (x.configuration.token t).file = x.mainFile
  access : (x.configuration.var v).access ≠ .argument
  declares : x.configuration.DeclaresAuto v t spelling e

section Forms
variable {x : Subject} {v : x.VariableIdx} {t : x.TokenIdx} {e : List String}

theorem autoInitializer?_of_assigned {spelling : Spelling}
    (h : x.configuration.DeclaresAuto v t spelling e) (hassigns : spelling.assigns = true)
    (hne : beforeBoundary e ≠ []) :
    x.autoInitializer? v t = some ⟨spelling.expressionAt t,
      spelling.expressionAt t + (beforeBoundary e).length⟩ := by
  unfold autoInitializer?
  rw [h.initializer?_eq hassigns hne]

theorem autoInitializer?_of_bracketed {form : Initialiser} {texts : List String}
    (h : x.configuration.DeclaresAuto v t (.direct form) e) (hform : form ≠ .equals)
    (hreads : x.configuration.Reads (t + 1) texts) :
    x.autoInitializer? v t = some ⟨t + 1, t + 1 + texts.length⟩ := by
  obtain ⟨after, hdrop⟩ := h.exists_drop_direct
  have hnext : x.configuration.nextText t = form.opening := Configuration.nextText_of_drop hdrop
  have hnone : x.configuration.initializer? v = none := by
    refine Configuration.initializer?_of_bracketed h.named ?_ ?_
    · rw [hnext]
      cases form <;> decide
    · rw [hnext]
      cases form with
      | equals => exact absurd rfl hform
      | parentheses => decide
      | braces => decide
  have hbracket : ["(", "\x7b"].contains form.opening = true := by
    cases form with
    | equals => exact absurd rfl hform
    | parentheses => decide
    | braces => decide
  unfold autoInitializer?
  rw [hnone]
  dsimp only
  rw [hnext, if_pos hbracket, hreads.containing_stop]

/-- Every form has an initialiser, of which the audit looks at as much as it reads up to the first
boundary. -/
theorem autoInitializer?_direct {form : Initialiser}
    (h : x.configuration.DeclaresAuto v t (.direct form) e) (hne : e ≠ [])
    (hclear : ∀ text ∈ e, isBoundary text = false) :
    ∃ i, x.autoInitializer? v t = some ⟨i, i + (form.inspected e).length⟩ ∧
      x.configuration.Reads i (form.inspected e) := by
  obtain ⟨after, hdrop⟩ := h.exists_drop_direct
  have hbehind : x.configuration.texts.drop (t + 1) =
      form.opening :: (e ++ form.closing ++ ";" :: after) := by
    rw [← List.drop_drop, hdrop]
    rfl
  cases form with
  | equals =>
    have hall := beforeBoundary_of_clear hclear
    have hinit := autoInitializer?_of_assigned h rfl (by rwa [hall])
    have hreads := h.reads_expression rfl
    rw [hall] at hinit hreads
    exact ⟨_, hinit, hreads⟩
  | parentheses =>
    have hreads : x.configuration.Reads (t + 1) ("(" :: (e ++ [")"])) := by
      refine ⟨?_, ";", after, hbehind, by decide⟩
      rw [List.forall_mem_cons, List.forall_mem_append, List.forall_mem_singleton]
      exact ⟨by decide, hclear, by decide⟩
    exact ⟨t + 1, autoInitializer?_of_bracketed h (by decide) hreads, hreads⟩
  | braces =>
    have hreads : x.configuration.Reads (t + 1) [] :=
      ⟨by simp, "\x7b", _, hbehind, by decide⟩
    exact ⟨t + 1, autoInitializer?_of_bracketed h (by decide) hreads, hreads⟩

theorem JudgesAuto.isSome_autoFinding?_iff {settings : Settings} {signatures : Signatures}
    {form : Initialiser} (h : x.JudgesAuto settings signatures v t (.direct form) e)
    (hne : e ≠ []) (hclear : ∀ text ∈ e, isBoundary text = false) :
    (x.autoFinding? v).isSome = true ↔ ¬ KeepsAuto settings signatures (form.inspected e) := by
  obtain ⟨i, hinit, hreads⟩ := autoInitializer?_direct h.declares hne hclear
  have hown : x.inMainFile t = true := by
    rw [inMainFile, beq_iff_eq]
    exact h.own
  rw [Subject.isSome_autoFinding?_iff h.declares.named h.declares.auto hinit hreads, h.settings,
    h.signatures]
  simp [h.access, hown]

end Forms

/-- One expression and the three ways to initialise an `auto` variable with it. Assigned or in
parentheses, the variable is left alone if the type of the expression has to be deduced. In braces
it is reported whatever the expression is, so the three agree on exactly those expressions that
call for a report. An expression that begins like a lambda, and has no other reason to keep `auto`,
is all that assignment and parentheses can differ in. -/
theorem auto_verdict_by_form (settings : Settings) (signatures : Signatures) (e : List String)
    (hne : e ≠ []) (hclear : ∀ text ∈ e, isBoundary text = false) (x : Initialiser → Subject)
    (v : (form : Initialiser) → (x form).VariableIdx)
    (t : (form : Initialiser) → (x form).TokenIdx)
    (h : ∀ form, (x form).JudgesAuto settings signatures (v form) (t form) (.direct form) e) :
    (∀ form, ((x form).autoFinding? (v form)).isSome = true ↔
        ¬ KeepsAuto settings signatures (form.inspected e)) ∧
      (NeedsAuto settings signatures e →
        ((x .equals).autoFinding? (v .equals)).isSome = false ∧
          ((x .parentheses).autoFinding? (v .parentheses)).isSome = false) ∧
      ((x .braces).autoFinding? (v .braces)).isSome = true ∧
      (PlainParentheses settings signatures →
        (((x .equals).autoFinding? (v .equals)).isSome =
            ((x .parentheses).autoFinding? (v .parentheses)).isSome ↔
          (e.head? = some "[" → NeedsAuto settings signatures e)) ∧
        ((∀ form form', ((x form).autoFinding? (v form)).isSome =
            ((x form').autoFinding? (v form')).isSome) ↔ ¬ KeepsAuto settings signatures e)) := by
  have hverdict : ∀ form, ((x form).autoFinding? (v form)).isSome = true ↔
      ¬ KeepsAuto settings signatures (form.inspected e) :=
    fun form => (h form).isSome_autoFinding?_iff hne hclear
  have hequals := hverdict .equals
  have hparentheses := hverdict .parentheses
  have hbraces : ((x .braces).autoFinding? (v .braces)).isSome = true := by
    rw [hverdict .braces]
    simp [Initialiser.inspected, KeepsAuto, NeedsAuto]
  have hhead : KeepsAuto settings signatures ("(" :: (e ++ [")"])) ↔
      NeedsAuto settings signatures ("(" :: (e ++ [")"])) := by
    simp [KeepsAuto]
  rw [Initialiser.inspected] at hequals
  rw [Initialiser.inspected, hhead] at hparentheses
  refine ⟨hverdict, fun hneeds => ⟨?_, ?_⟩, hbraces, fun hplain => ⟨?_, ?_⟩⟩
  · rw [← Bool.not_eq_true, hequals, not_not]
    exact .inr hneeds
  · rw [← Bool.not_eq_true, hparentheses, not_not]
    exact hneeds.parenthesised
  · rw [needsAuto_parenthesised_iff hplain] at hparentheses
    rw [Bool.eq_iff_iff, hequals, hparentheses, KeepsAuto]
    constructor
    · intro hsame hlambda
      by_contra hneeds
      exact hsame.2 hneeds (.inl hlambda)
    · intro hlambda
      constructor
      · intro hkeeps hneeds
        exact hkeeps (.inr hneeds)
      · intro hneeds hkeeps
        cases hkeeps with
        | inl hfirst => exact hneeds (hlambda hfirst)
        | inr hother => exact hneeds hother
  · rw [needsAuto_parenthesised_iff hplain] at hparentheses
    constructor
    · intro hsame
      rw [← hequals, hsame .equals .braces]
      exact hbraces
    · intro hkeeps
      have hall : ∀ form, ((x form).autoFinding? (v form)).isSome = true := by
        intro form
        cases form with
        | equals => exact hequals.2 hkeeps
        | parentheses => exact hparentheses.2 fun hneeds => hkeeps (.inr hneeds)
        | braces => exact hbraces
      intro form form'
      rw [hall form, hall form']

end Subject

namespace Configuration

/-- A stream that declares `h`, as token 1 and after its type, with the partners of its tokens. -/
def autoSample (texts : List String) (link : Nat → Option Nat) : Configuration where
  name := ""
  sections := ⟨true, true, true, true⟩
  extent := ⟨texts.length, 0, 0, 1⟩
  tokens := Vector.ofFn fun i =>
    ⟨"", texts.get i, 0, 1, i.val, .absent, factoryRef 1 (if texts.get i = "h" then 0 else 1),
      .absent, ((link i.val).map (factoryRef texts.length)).getD .absent, .absent⟩
  scopes := #v[]
  functions := #v[]
  vars :=
    #v[⟨"", "h", factoryRef texts.length 1, factoryRef texts.length 0, factoryRef texts.length 0,
      .locally, false, false, .absent⟩]
  directives := []

end Configuration

namespace Subject

def mirrorExpression : List String := ["ddc", "::", "create_mirror", "(", "d", ")"]

def mirrorSubject (form : Initialiser) : Subject :=
  ⟨⟨"a.cpp"⟩, 0, .standard, .empty, .empty,
    Configuration.autoSample ("auto" :: (Spelling.direct form).texts "h" mirrorExpression)
      (fun _ => none), .none⟩

def mirrorVariable (form : Initialiser) : (mirrorSubject form).VariableIdx := ⟨0, Nat.one_pos⟩

theorem one_lt_mirrorTokens (form : Initialiser) :
    1 < (mirrorSubject form).configuration.extent.tokens := by
  cases form <;> decide

def mirrorName (form : Initialiser) : (mirrorSubject form).TokenIdx := ⟨1, one_lt_mirrorTokens form⟩

theorem mirrorSubject_judgesAuto (form : Initialiser) :
    (mirrorSubject form).JudgesAuto .standard .empty (mirrorVariable form) (mirrorName form)
      (.direct form) mirrorExpression where
  settings := rfl
  signatures := rfl
  own := by cases form <;> decide +kernel
  access := by cases form <;> decide +kernel
  declares :=
    { named := by cases form <;> decide +kernel
      name := by cases form <;> decide +kernel
      auto := by cases form <;> decide +kernel
      spelled := by cases form <;> decide +kernel
      again := fun hparted => by cases hparted }

theorem plainParentheses_standard : PlainParentheses .standard .empty :=
  ⟨⟨by decide +kernel, by decide +kernel, by decide⟩, by decide +kernel, by decide +kernel⟩

theorem mirrorExpression_needsAuto : NeedsAuto .standard .empty mirrorExpression :=
  .inr (.inl ⟨"create_mirror", by decide, by decide⟩)

/-- The mirror is left alone in the first two forms and reported in the third. -/
theorem auto_verdict_by_form_mirror :
    NeedsAuto .standard .empty mirrorExpression ∧
      ((mirrorSubject .equals).autoFinding? (mirrorVariable .equals)).isSome = false ∧
      ((mirrorSubject .parentheses).autoFinding? (mirrorVariable .parentheses)).isSome = false ∧
      ((mirrorSubject .braces).autoFinding? (mirrorVariable .braces)).isSome = true ∧
      ((mirrorSubject .equals).autoFinding? (mirrorVariable .equals)).isSome =
        ((mirrorSubject .parentheses).autoFinding? (mirrorVariable .parentheses)).isSome := by
  have hclear : ∀ text ∈ mirrorExpression, isBoundary text = false := by decide +kernel
  obtain ⟨_, hneeds, hbraces, hplain⟩ := auto_verdict_by_form .standard .empty mirrorExpression
    (by decide) hclear mirrorSubject mirrorVariable mirrorName mirrorSubject_judgesAuto
  obtain ⟨hequals, hparentheses⟩ := hneeds mirrorExpression_needsAuto
  exact ⟨mirrorExpression_needsAuto, hequals, hparentheses, hbraces,
    (hplain plainParentheses_standard).1.2 fun _ => mirrorExpression_needsAuto⟩

/-- The same expression in the same unit: what is left alone when it is assigned is reported when
it stands in braces. -/
theorem braced_mirror_reported :
    (∀ form, (mirrorSubject form).JudgesAuto .standard .empty (mirrorVariable form)
        (mirrorName form) (.direct form) mirrorExpression) ∧
      NeedsAuto .standard .empty mirrorExpression ∧
      (mirrorSubject .equals).autoFindings = .ok [] ∧
      (mirrorSubject .braces).autoFindings =
        .ok [(mirrorSubject .braces).findingAt (mirrorName .braces) .needlessAuto .error
          "Please use explicit types instead of auto (h)"] :=
  ⟨mirrorSubject_judgesAuto, mirrorExpression_needsAuto, by decide +kernel, by decide +kernel⟩

end Subject

end SpaceAudit
