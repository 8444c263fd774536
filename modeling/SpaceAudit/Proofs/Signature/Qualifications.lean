import SpaceAudit.Proofs.Space.TemplateArguments
import SpaceAudit.Proofs.Statement.AutoDeclarations
import SpaceAudit.Signature.Basic

/-! The return type of a function whose name is qualified by classes. A class without template
arguments is dropped with its `::`. Of one with template arguments only the closing bracket goes, and
the rest stays behind the return type. -/
namespace SpaceAudit

/-- A class that qualifies a name. The arguments of a class template go from `<` to the bracket that
closes the list. -/
inductive Qualifier where
  | plain (name : String)
  | template (name : String) (arguments : List String) (bracket : String)
deriving DecidableEq, Repr

namespace Qualifier

def texts : Qualifier → List String
  | plain name => [name, "::"]
  | template name arguments bracket => name :: "<" :: (arguments ++ [bracket, "::"])

def isPlain : Qualifier → Bool
  | plain _ => true
  | template _ _ _ => false

/-- The class has a name, and the brackets of its arguments are balanced. -/
def WellFormed : Qualifier → Prop
  | plain name => AliasTable.isIdentifier name = true
  | template name arguments bracket => AliasTable.isIdentifier name = true ∧
      Template.Closes 1 arguments bracket ∧
      1 + Template.nesting arguments + Template.weight bracket = 0

theorem exists_last_template {chain : List Qualifier} (h : ¬ ∀ q ∈ chain, q.isPlain = true) :
    ∃ front name arguments bracket back,
      chain = front ++ .template name arguments bracket :: back ∧
        ∀ q ∈ back, q.isPlain = true := by
  induction chain with
  | nil => exact absurd (by simp) h
  | cons q chain ih =>
    by_cases hchain : ∀ q ∈ chain, q.isPlain = true
    · cases q with
      | plain name =>
        refine absurd (List.forall_mem_cons.2 ⟨?_, hchain⟩) h
        rfl
      | template name arguments bracket => exact ⟨[], name, arguments, bracket, chain, rfl, hchain⟩
    · obtain ⟨front, name, arguments, bracket, back, rfl, hback⟩ := ih hchain
      exact ⟨q :: front, name, arguments, bracket, back, rfl, hback⟩

end Qualifier

def unqualified (texts : List String) : List String := (dropQualifications texts.reverse).reverse

section Dropping

theorem unqualified_append_pair (texts : List String) (name : String) :
    unqualified (texts ++ [name, "::"]) = unqualified texts := by
  rw [unqualified, List.reverse_append]
  rfl

theorem unqualified_eq_self {texts : List String} (h : texts.getLast? ≠ some "::") :
    unqualified texts = texts := by
  have hkept : dropQualifications texts.reverse = texts.reverse := by
    unfold dropQualifications
    split
    · rename_i heq
      rw [← List.head?_reverse, heq] at h
      exact absurd rfl h
    · rfl
  rw [unqualified, hkept, List.reverse_reverse]

theorem unqualified_append_plain {chain : List Qualifier} (h : ∀ q ∈ chain, q.isPlain = true)
    (texts : List String) :
    unqualified (texts ++ chain.flatMap Qualifier.texts) = unqualified texts := by
  induction chain generalizing texts with
  | nil => rw [List.flatMap_nil, List.append_nil]
  | cons q chain ih =>
    obtain ⟨hq, hchain⟩ := List.forall_mem_cons.1 h
    cases q with
    | template name arguments bracket => cases hq
    | plain name =>
      rw [List.flatMap_cons, ← List.append_assoc, ih hchain]
      exact unqualified_append_pair texts name

/-- What is dropped ends at a name: two texts go at a time, and the name is no `::`. -/
theorem exists_unqualified_append {name : String} (hname : name ≠ "::") {rest : List String}
    (hrest : rest.head? ≠ some "::") (texts : List String) :
    ∃ kept, kept <+: rest ∧ unqualified (texts ++ name :: rest) = texts ++ name :: kept := by
  induction hlength : rest.length using Nat.strong_induction_on generalizing rest with
  | _ n ih =>
    by_cases hlast : rest.getLast? = some "::"
    · obtain ⟨front, rfl⟩ := List.getLast?_eq_some_iff.1 hlast
      cases List.eq_nil_or_concat' front with
      | inl hnil =>
        rw [hnil] at hrest
        exact absurd rfl hrest
      | inr hconcat =>
        obtain ⟨short, text, rfl⟩ := hconcat
        have hhead : short.head? ≠ some "::" := by
          cases short with
          | nil => simp
          | cons first short => exact hrest
        have hshorter : short.length < n := by
          rw [← hlength]
          simp only [List.length_append, List.length_singleton]
          omega
        obtain ⟨kept, hkept, heq⟩ := ih short.length hshorter hhead rfl
        refine ⟨kept, hkept.trans ?_, ?_⟩
        · rw [List.append_assoc]
          exact List.prefix_append _ _
        · rw [← heq, ← unqualified_append_pair (texts ++ name :: short) text]
          simp
    · refine ⟨rest, List.prefix_rfl, unqualified_eq_self ?_⟩
      cases rest with
      | nil => simpa using hname
      | cons first rest =>
        rwa [List.getLast?_append_of_ne_nil _ (by simp), List.getLast?_cons_cons]

end Dropping

namespace Configuration
variable {c : Configuration} {t : c.TokenIdx}

/-- The statement of the token at `t` begins with these texts, and they end before it. -/
def LeadsTo (c : Configuration) (t : c.TokenIdx) (lead : List String) : Prop :=
  ∃ before after, c.texts = before ++ lead ++ after ∧ t.val = before.length + lead.length ∧
    (before = [] ∨ Statements.boundaryAt before (before.length - 1) = true) ∧
    ∀ text ∈ lead, isBoundary text = false

theorem LeadsTo.textsIn {lead : List String} (h : c.LeadsTo t lead) :
    c.textsIn (c.statements.prefixOf t) = lead := by
  obtain ⟨before, after, htexts, hat, hopens, hclear⟩ := h
  have hbegins : Statements.BeginsAt c.texts t before.length := by
    refine ⟨by omega, fun i hle hlt => ?_, ?_⟩
    · rw [Statements.boundaryAt, htexts, List.append_assoc, List.getElem?_append_right hle,
        List.getElem?_append_left (by omega), List.getElem?_eq_getElem (by omega), Option.any_some]
      exact hclear _ (List.getElem_mem _)
    · cases hopens with
      | inl hnil => exact .inl (by rw [hnil]; rfl)
      | inr hlast =>
        right
        have hin := Statements.lt_of_boundaryAt hlast
        rwa [Statements.boundaryAt, htexts, List.append_assoc, List.getElem?_append_left hin]
  have hspan : c.statements.prefixOf t = ⟨before.length, t⟩ := by
    rw [statements, Statements.prefixOf,
      (Statements.startBefore_beginsAt c.texts t).unique hbegins]
  have hlength : t.val - before.length = lead.length := by omega
  rw [hspan, textsIn_eq, Span.length, hlength, htexts, List.append_assoc, List.drop_left,
    List.take_left]

/-- The statement of the name at `t` reads a return type, the classes that qualify the name, and
the name. -/
structure Qualified (c : Configuration) (t : c.TokenIdx) (returns : List String)
    (chain : List Qualifier) : Prop where
  reads : c.LeadsTo t (returns ++ chain.flatMap Qualifier.texts)
  nonempty : returns ≠ []
  last : returns.getLast? ≠ some "::"
  wellFormed : ∀ q ∈ chain, q.WellFormed

namespace Qualified
variable {returns : List String} {chain : List Qualifier}

theorem returnType_eq (h : c.Qualified t returns chain) :
    c.returnType t = unqualified (returns ++ chain.flatMap Qualifier.texts) := by
  rw [returnType, h.reads.textsIn, unqualified]

theorem returnType_of_plain (h : c.Qualified t returns chain)
    (hplain : ∀ q ∈ chain, q.isPlain = true) : c.returnType t = returns := by
  rw [h.returnType_eq, unqualified_append_plain hplain, unqualified_eq_self h.last]

theorem returnType_of_template (h : c.Qualified t returns chain) {front back : List Qualifier}
    {name bracket : String} {arguments : List String}
    (hchain : chain = front ++ .template name arguments bracket :: back)
    (hback : ∀ q ∈ back, q.isPlain = true) :
    ∃ kept, kept <+: "<" :: arguments ∧
      c.returnType t = returns ++ front.flatMap Qualifier.texts ++ name :: kept ∧
      (arguments.getLast? ≠ some "::" → kept = "<" :: arguments) := by
  have hname : name ≠ "::" := by
    have hwell := h.wellFormed (.template name arguments bracket) (by simp [hchain])
    intro heq
    rw [heq] at hwell
    exact absurd hwell.1 (by decide)
  have htexts : returns ++ chain.flatMap Qualifier.texts =
      returns ++ front.flatMap Qualifier.texts ++ name :: "<" :: arguments ++ [bracket, "::"] ++
        back.flatMap Qualifier.texts := by
    simp [hchain, Qualifier.texts]
  have hdropped : c.returnType t =
      unqualified (returns ++ front.flatMap Qualifier.texts ++ name :: "<" :: arguments) := by
    rw [h.returnType_eq, htexts, unqualified_append_plain hback, unqualified_append_pair]
  have hopening : ("<" :: arguments).head? ≠ some "::" := by simp
  obtain ⟨kept, hkept, heq⟩ := exists_unqualified_append hname hopening
    (returns ++ front.flatMap Qualifier.texts)
  refine ⟨kept, hkept, hdropped.trans heq, fun hlast => ?_⟩
  have hwhole : (returns ++ front.flatMap Qualifier.texts ++ name :: "<" :: arguments).getLast? ≠
      some "::" := by
    cases arguments with
    | nil => simp
    | cons first arguments => simpa using hlast
  rw [unqualified_eq_self hwhole] at heq
  exact (List.cons.inj (List.append_cancel_left heq)).2.symm

theorem returnType_eq_iff (h : c.Qualified t returns chain) :
    c.returnType t = returns ↔ ∀ q ∈ chain, q.isPlain = true := by
  refine ⟨fun heq => ?_, h.returnType_of_plain⟩
  by_contra hplain
  obtain ⟨front, name, arguments, bracket, back, hchain, hback⟩ :=
    Qualifier.exists_last_template hplain
  obtain ⟨kept, _, hkept, _⟩ := h.returnType_of_template hchain hback
  rw [heq] at hkept
  have hlength := congrArg List.length hkept
  simp only [List.length_append, List.length_cons] at hlength
  omega

end Qualified

section Harvest
variable {aliases : AliasTable} {isOwning : String → Bool} {f : c.FunctionIdx}

theorem mem_signature_auto_iff (hdefined : (c.function f).definition = .resolved t) :
    (c.function f).name ∈ (c.signature aliases isOwning f).auto ↔
      (c.returnType t).getLast? = some "auto" := by
  have hget : (c.function f).definition.get? = some t := by rw [hdefined]; rfl
  rw [signature, hget]
  dsimp only
  split
  · rename_i hauto
    simp [hauto]
  · rename_i hother
    split
    · simp [hother]
    · simp [hother, Signatures.empty]

theorem mem_signature_owning_iff (hdefined : (c.function f).definition = .resolved t) :
    (c.function f).name ∈ (c.signature aliases isOwning f).owning ↔
      (c.returnType t).getLast? ≠ some "auto" ∧
        isOwning (" ".intercalate (aliases.expand (c.returnType t))) = true := by
  have hget : (c.function f).definition.get? = some t := by rw [hdefined]; rfl
  rw [signature, hget]
  dsimp only
  split
  · rename_i hauto
    simp [hauto]
  · rename_i hother
    split
    · rename_i howning
      simp [hother, howning]
    · rename_i hno
      simp [hother, hno, Signatures.empty]

theorem foldl_signatures {α : Type} (add : α → Signatures) (fs : List α) (s : Signatures) :
    fs.foldl (fun s f => s.append (add f)) s =
      s.append ⟨fs.flatMap fun f => (add f).owning, fs.flatMap fun f => (add f).auto⟩ := by
  induction fs generalizing s with
  | nil => simp [Signatures.append]
  | cons f fs ih =>
    rw [List.foldl_cons, ih]
    simp [Signatures.append]

theorem mem_signatures_iff {name : String} :
    (name ∈ (c.signatures aliases isOwning).auto ↔
        ∃ g, name ∈ (c.signature aliases isOwning g).auto) ∧
      (name ∈ (c.signatures aliases isOwning).owning ↔
        ∃ g, name ∈ (c.signature aliases isOwning g).owning) := by
  rw [signatures, foldl_signatures]
  simp [Signatures.append, Signatures.empty, functionIndices]

end Harvest

/-- The return type is what stands before the qualification as long as no class of it has template
arguments, and a function is then harvested by it. Otherwise the last class template, less its
closing bracket, stays with all before it, and the function is harvested by that. The harvest of a
configuration is what its functions add. -/
theorem qualified_signature_exact (c : Configuration) (f : c.FunctionIdx) (t : c.TokenIdx)
    (returns : List String) (chain : List Qualifier) (aliases : AliasTable)
    (isOwning : String → Bool) (hdefined : (c.function f).definition = .resolved t)
    (h : c.Qualified t returns chain) :
    (c.returnType t = returns ↔ ∀ q ∈ chain, q.isPlain = true) ∧
      ((∀ q ∈ chain, q.isPlain = true) →
        ((c.function f).name ∈ (c.signature aliases isOwning f).auto ↔
            returns.getLast? = some "auto") ∧
          ((c.function f).name ∈ (c.signature aliases isOwning f).owning ↔
            returns.getLast? ≠ some "auto" ∧
              isOwning (" ".intercalate (aliases.expand returns)) = true)) ∧
      (∀ front name arguments bracket back,
        chain = front ++ .template name arguments bracket :: back →
        (∀ q ∈ back, q.isPlain = true) →
        ∃ kept, kept <+: "<" :: arguments ∧
          (arguments.getLast? ≠ some "::" → kept = "<" :: arguments) ∧
          c.returnType t = returns ++ front.flatMap Qualifier.texts ++ name :: kept ∧
          ((c.function f).name ∈ (c.signature aliases isOwning f).auto ↔
            (name :: kept).getLast? = some "auto") ∧
          ((c.function f).name ∈ (c.signature aliases isOwning f).owning ↔
            (name :: kept).getLast? ≠ some "auto" ∧
              isOwning (" ".intercalate (aliases.expand (c.returnType t))) = true)) ∧
      ∀ name,
        (name ∈ (c.signatures aliases isOwning).auto ↔
            ∃ g, name ∈ (c.signature aliases isOwning g).auto) ∧
          (name ∈ (c.signatures aliases isOwning).owning ↔
            ∃ g, name ∈ (c.signature aliases isOwning g).owning) := by
  refine ⟨h.returnType_eq_iff, fun hplain => ?_, fun front name arguments bracket back hchain
    hback => ?_, fun name => mem_signatures_iff⟩
  · rw [mem_signature_auto_iff hdefined, mem_signature_owning_iff hdefined,
      h.returnType_of_plain hplain]
    exact ⟨Iff.rfl, Iff.rfl⟩
  · obtain ⟨kept, hkept, hreturns, hall⟩ := h.returnType_of_template hchain hback
    have hlast : (c.returnType t).getLast? = (name :: kept).getLast? := by
      rw [hreturns, List.getLast?_append_of_ne_nil _ (by simp)]
    refine ⟨kept, hkept, hall, hreturns, ?_⟩
    rw [← hlast]
    exact ⟨mem_signature_auto_iff hdefined, mem_signature_owning_iff hdefined⟩

/-- A method that is defined outside its class, behind another statement. -/
def methodTexts (chain : List Qualifier) : List String :=
  [";", "auto"] ++ chain.flatMap Qualifier.texts ++ ["deduce", "(", ")"]

def methodSample (chain : List Qualifier) : Configuration where
  name := ""
  sections := ⟨true, true, true, true⟩
  extent := ⟨(methodTexts chain).toArray.size, 1, 1, 0⟩
  tokens := (methodTexts chain).toArray.toVector.map fun text =>
    ⟨text, text, 0, 1, 1, .absent, .absent, .absent, .absent, .absent⟩
  scopes := #v[⟨"", .globalScope, "", .absent, .absent, .absent, .absent, []⟩]
  functions :=
    #v[⟨"", "deduce", .ordinary, .resolve (methodTexts chain).toArray.toVector (some "deduce"),
      ⟨0, Nat.one_pos⟩, false, false⟩]
  vars := #v[]
  directives := []

def plainChain : List Qualifier := [.plain "Space", .plain "Shape"]

def templateChain : List Qualifier := [.plain "Space", .template "Shape" ["T"] ">"]

theorem plainChain_qualified :
    (methodSample plainChain).Qualified (6 : Fin 9) ["auto"] plainChain where
  reads := ⟨[";"], ["deduce", "(", ")"], by decide +kernel, by decide +kernel, .inr (by decide),
    by decide +kernel⟩
  nonempty := by decide
  last := by decide
  wellFormed := List.forall_mem_cons.2 ⟨(by decide : AliasTable.isIdentifier "Space" = true),
    List.forall_mem_singleton.2 (by decide : AliasTable.isIdentifier "Shape" = true)⟩

theorem templateChain_qualified :
    (methodSample templateChain).Qualified (9 : Fin 12) ["auto"] templateChain where
  reads := ⟨[";"], ["deduce", "(", ")"], by decide +kernel, by decide +kernel, .inr (by decide),
    by decide +kernel⟩
  nonempty := by decide
  last := by decide
  wellFormed := List.forall_mem_cons.2 ⟨(by decide : AliasTable.isIdentifier "Space" = true),
    List.forall_mem_singleton.2 ⟨by decide, Template.closes_cons_iff.2 ⟨by decide, by decide,
      Template.closes_nil_iff.2 ⟨.inl rfl, by decide, by decide⟩⟩, by decide⟩⟩

/-- Two plain classes leave the return type, and a class template does not. -/
theorem qualified_signature_exact_chains :
    (methodSample plainChain).returnType (6 : Fin 9) = ["auto"] ∧
      "deduce" ∈ ((methodSample plainChain).signatures .empty fun _ => false).auto ∧
      (methodSample templateChain).returnType (9 : Fin 12) =
        ["auto", "Space", "::", "Shape", "<", "T"] := by
  obtain ⟨hreturns, hharvest, _, hall⟩ := qualified_signature_exact (methodSample plainChain)
    (0 : Fin 1) (6 : Fin 9) ["auto"] plainChain .empty (fun _ => false) (by decide +kernel)
    plainChain_qualified
  obtain ⟨_, _, htemplate, _⟩ := qualified_signature_exact (methodSample templateChain)
    (0 : Fin 1) (9 : Fin 12) ["auto"] templateChain .empty (fun _ => false) (by decide +kernel)
    templateChain_qualified
  have hplain : ∀ q ∈ plainChain, q.isPlain = true := by decide
  refine ⟨hreturns.2 hplain, (hall "deduce").1.2 ⟨(0 : Fin 1), (hharvest hplain).1.2 rfl⟩, ?_⟩
  obtain ⟨kept, _, hkept, htexts, _⟩ := htemplate [.plain "Space"] "Shape" ["T"] ">" [] rfl (by simp)
  rw [htexts, hkept (by decide)]
  rfl

/-- The method returns `auto` and is not harvested for it: its class has template arguments. -/
theorem templated_qualifier_hides_auto :
    ((methodSample templateChain).function (0 : Fin 1)).definition = .resolved (9 : Fin 12) ∧
      (methodSample templateChain).Qualified (9 : Fin 12) ["auto"] templateChain ∧
      (methodSample templateChain).returnType (9 : Fin 12) ≠ ["auto"] ∧
      "deduce" ∉ ((methodSample templateChain).signatures .empty fun _ => false).auto :=
  ⟨by decide +kernel, templateChain_qualified, by decide +kernel, by decide +kernel⟩

end Configuration

end SpaceAudit
