import SpaceAudit.Proofs.Audit.DanglingHandles
import SpaceAudit.Proofs.Statement.Initialisers

/-! The owning field of a call, bound by a declaration to a type that holds nothing. The audit of
owning fields goes by statements, so it reports the declaration where variable and call stand in one
statement, and misses it where braces part them. -/
namespace SpaceAudit

namespace Configuration
variable {c : Configuration}

theorem getElem?_texts (i : Nat) : c.texts[i]? = (c.tokenAt? i).map c.text := by
  rw [texts, List.getElem?_map]
  by_cases h : i < c.extent.tokens
  · rw [tokenAt?, dif_pos h, List.getElem?_eq_getElem (by simpa using h)]
    simp [text, token]
  · rw [tokenAt?, dif_neg h, List.getElem?_eq_none (by simpa using h)]
    rfl

theorem getElem?_texts_val (t : c.TokenIdx) : c.texts[t.val]? = some (c.text t) := by
  rw [getElem?_texts, tokenAt?_eq_some_iff.2 rfl, Option.map_some]

theorem nextText_eq (t : c.TokenIdx) : c.nextText t = (c.texts[t.val + 1]?).getD "" := by
  rw [nextText, next?, getElem?_texts]

end Configuration

namespace Subject
variable {x : Subject}

section Stretches

def handlesIn (x : Subject) (r : Span) : List Finding :=
  (x.auditedStatements.filter fun s => r.contains s.start).filterMap x.handleFinding?

theorem filter_contains_append {l : List Span} (hl : l.Pairwise fun r s => r.start < s.start)
    {a b c : Nat} (hab : a ≤ b) (hbc : b ≤ c) :
    (l.filter fun s => (Span.mk a b).contains s.start) ++
        (l.filter fun s => (Span.mk b c).contains s.start) =
      l.filter fun s => (Span.mk a c).contains s.start := by
  induction l with
  | nil => rfl
  | cons s l ih =>
    obtain ⟨hs, hl⟩ := List.pairwise_cons.1 hl
    have hrest := ih hl
    simp only [List.filter_cons, Span.contains_iff]
    by_cases hsb : s.start < b
    · by_cases has : a ≤ s.start
      · rw [if_pos ⟨has, hsb⟩, if_neg (by omega), if_pos ⟨has, by omega⟩, List.cons_append, hrest]
      · rw [if_neg (by omega), if_neg (by omega), if_neg (by omega), hrest]
    · -- All later statements begin behind `b` as well.
      have hnone : (l.filter fun r => (Span.mk a b).contains r.start) = [] := by
        rw [List.filter_eq_nil_iff]
        intro r hr hin
        have hlt := hs r hr
        have hrb := (Span.contains_iff.1 hin).2
        dsimp only at hrb
        omega
      rw [hnone, List.nil_append] at hrest
      rw [if_neg (by omega), hnone, List.nil_append, hrest]
      by_cases hsc : s.start < c
      · rw [if_pos (by omega), if_pos (by omega)]
      · rw [if_neg (by omega), if_neg (by omega)]

theorem handlesIn_append {a b c : Nat} (hab : a ≤ b) (hbc : b ≤ c) :
    x.handlesIn ⟨a, b⟩ ++ x.handlesIn ⟨b, c⟩ = x.handlesIn ⟨a, c⟩ := by
  rw [handlesIn, handlesIn, handlesIn, ← List.filterMap_append,
    filter_contains_append (auditedStatements_increasing x) hab hbc]

theorem ownershipFindings_eq_handlesIn (x : Subject) :
    x.ownershipFindings = .ok (x.handlesIn ⟨0, x.configuration.texts.length⟩) := by
  have hall : (x.auditedStatements.filter fun s =>
      (Span.mk 0 x.configuration.texts.length).contains s.start) = x.auditedStatements := by
    rw [List.filter_eq_self]
    intro s hs
    have hrun := (mem_auditedStatements.1 hs).1
    exact Span.contains_iff.2 ⟨Nat.zero_le _, lt_of_lt_of_le hrun.nonempty hrun.within⟩
  rw [handlesIn, hall, ownershipFindings]

theorem ownershipFindings_split {a b : Nat} (hab : a ≤ b)
    (hb : b ≤ x.configuration.texts.length) :
    x.ownershipFindings = .ok (x.handlesIn ⟨0, a⟩ ++ x.handlesIn ⟨a, b⟩ ++
      x.handlesIn ⟨b, x.configuration.texts.length⟩) := by
  rw [handlesIn_append (Nat.zero_le a) hab, handlesIn_append (Nat.zero_le b) hb]
  exact ownershipFindings_eq_handlesIn x

theorem filterMap_eq_toList {α β : Type} {judge : α → Option β} {l : List α} {a : α}
    (hl : l.Nodup) (ha : a ∈ l) (hother : ∀ b ∈ l, b ≠ a → judge b = none) :
    l.filterMap judge = (judge a).toList := by
  obtain ⟨front, back, rfl⟩ := List.append_of_mem ha
  rw [List.nodup_append, List.nodup_cons] at hl
  have hfront : front.filterMap judge = [] := by
    rw [List.filterMap_eq_nil_iff]
    intro b hb
    exact hother b (by simp [hb]) (hl.2.2 b hb a (by simp))
  have hback : back.filterMap judge = [] := by
    rw [List.filterMap_eq_nil_iff]
    intro b hb
    refine hother b (by simp [hb]) ?_
    rintro rfl
    exact hl.2.1.1 hb
  rw [List.filterMap_append, hfront, List.nil_append, List.filterMap_cons]
  cases judge a with
  | none => simpa using hback
  | some f => simp [hback]

theorem handlesIn_eq_toList {r s : Span} (hs : s ∈ x.auditedStatements)
    (hin : r.contains s.start = true)
    (hother : ∀ q ∈ x.auditedStatements, r.contains q.start = true → q ≠ s →
      x.handleFinding? q = none) : x.handlesIn r = (x.handleFinding? s).toList := by
  refine filterMap_eq_toList ((auditedStatements_nodup x).filter _) (List.mem_filter.2 ⟨hs, hin⟩) ?_
  intro q hq hne
  exact hother q (List.mem_filter.1 hq).1 (List.mem_filter.1 hq).2 hne

theorem handleFinding?_of_unnamed {s : Span}
    (h : ∀ u : x.TokenIdx, s.start ≤ u.val → u.val < s.stop → ¬ x.NamesVariable u) :
    x.handleFinding? s = none := by
  rw [Option.eq_none_iff_forall_ne_some]
  intro f hf
  obtain ⟨_, t, _, hfirst, _⟩ := handleFinding?_eq_some_iff.1 hf
  exact h t hfirst.inside.1 hfirst.inside.2 hfirst.holds

theorem handleFinding?_of_uncalled {s : Span}
    (h : ∀ u : x.TokenIdx, s.start ≤ u.val → u.val < s.stop → ¬ x.OwningCall u) :
    x.handleFinding? s = none := by
  rw [Option.eq_none_iff_forall_ne_some]
  intro f hf
  obtain ⟨⟨t, hfirst, _⟩, _⟩ := handleFinding?_eq_some_iff.1 hf
  exact h t hfirst.inside.1 hfirst.inside.2 hfirst.holds

end Stretches

/-- The unit's own source holds the declaration, in one of its forms. The token `t` names the
variable `v`, the first that is named there, whose type holds nothing; `g` calls a function that
returns an owning field, from outside of its bodies. -/
structure Binds (x : Subject) (d : Declaration) (form : Initialiser) (t g : x.TokenIdx)
    (v : x.VariableIdx) : Prop where
  stream : x.configuration.texts = d.stream form
  wellFormed : d.WellFormed
  own : ∀ u : x.TokenIdx, d.start ≤ u.val → u.val < d.stop form →
    (x.configuration.token u).file = x.mainFile
  name_at : t.val = d.nameAt
  names : (x.configuration.token t).var = .resolved v
  first : ∀ u : x.TokenIdx, d.start ≤ u.val → u < t → ¬ x.NamesVariable u
  holdsNothing : x.HoldsNothing v
  callee_at : g.val = d.calleeAt
  owning : d.callee ∈ x.signatures.owning
  called : ∀ f, (x.configuration.function f).definition ≠ .resolved g
  outside : ¬ x.InBodyOf d.callee g

namespace Binds
variable {d : Declaration} {form : Initialiser} {t g : x.TokenIdx} {v : x.VariableIdx}

theorem getElem?_texts (h : x.Binds d form t g v) (i : Nat) :
    x.configuration.texts[d.nameAt + i]? = (d.binding form)[i]? := by
  rw [h.stream, Declaration.getElem?_stream]

theorem nextText_name (h : x.Binds d form t g v) : x.configuration.nextText t = form.opening := by
  rw [Configuration.nextText_eq, h.name_at, h.getElem?_texts]
  rfl

theorem text_callee (h : x.Binds d form t g v) : x.configuration.text g = d.callee := by
  have htext := Configuration.getElem?_texts_val g
  rw [h.callee_at, Declaration.calleeAt, h.getElem?_texts] at htext
  exact (Option.some.inj htext).symm

theorem owningCall (h : x.Binds d form t g v) : x.OwningCall g := by
  refine ⟨h.text_callee ▸ h.owning, ?_, h.called⟩
  rw [Configuration.nextText_eq, h.callee_at, Declaration.calleeAt, Nat.add_assoc,
    h.getElem?_texts]
  rfl

theorem boundaryAt_texts (h : x.Binds d form t g v) (i : Nat) :
    Statements.boundaryAt x.configuration.texts (d.nameAt + i) =
      Statements.boundaryAt (d.binding form) i := by
  rw [h.stream, Declaration.boundaryAt_stream]

theorem containing_name (h : x.Binds d form t g v) :
    Statements.IsRun x.configuration.texts (x.configuration.statements.containing t) ∧
      (x.configuration.statements.containing t).start ≤ t.val ∧
      t.val < (x.configuration.statements.containing t).stop ∧
      d.start ≤ (x.configuration.statements.containing t).start := by
  have hclear : Statements.boundaryAt x.configuration.texts t = false := by
    rw [h.name_at]
    exact (h.boundaryAt_texts 0).trans h.wellFormed.name
  have hlen : t.val < x.configuration.texts.length := by
    rw [h.stream, Declaration.length_stream, Declaration.stop, Declaration.calleeAt, h.name_at]
    omega
  obtain ⟨hrun, hin⟩ := Statements.containing_isRun hlen hclear
  obtain ⟨hle, hlt⟩ := Span.contains_iff.1 hin
  refine ⟨hrun, hle, hlt, ?_⟩
  rw [Configuration.statements, Statements.containing_eq_walks (Nat.le_of_lt hlen), h.stream,
    h.name_at]
  exact Declaration.start_le_walkBack h.wellFormed

theorem mem_auditedStatements_of_isRun (h : x.Binds d form t g v) {s : Span}
    (hrun : Statements.IsRun x.configuration.texts s) (hstart : d.start ≤ s.start)
    (hstop : s.start < d.stop form) : s ∈ x.auditedStatements := by
  have hlen : x.configuration.texts.length = x.configuration.extent.tokens := by
    simp [Configuration.texts]
  have hlt : s.start < x.configuration.extent.tokens :=
    hlen ▸ lt_of_lt_of_le hrun.nonempty hrun.within
  exact mem_auditedStatements.2 ⟨hrun, ⟨s.start, hlt⟩, rfl, h.own _ hstart hstop⟩

theorem handleFinding?_before (h : x.Binds d form t g v) {s : Span}
    (hs : s ∈ x.auditedStatements) (hstart : d.start ≤ s.start)
    (hlt : s.start < (x.configuration.statements.containing t).stop)
    (hne : s ≠ x.configuration.statements.containing t) : x.handleFinding? s = none := by
  have hrun := (mem_auditedStatements.1 hs).1
  obtain ⟨hname, hle, _, _⟩ := h.containing_name
  have hbefore : s.start < (x.configuration.statements.containing t).start := by
    by_contra hge
    have hin : (x.configuration.statements.containing t).contains s.start = true :=
      Span.contains_iff.2 ⟨Nat.le_of_not_lt hge, hlt⟩
    exact hne (hrun.eq_of_contains hname (Span.contains_iff.2 ⟨le_refl _, hrun.nonempty⟩) hin)
  have hstop : s.stop ≤ (x.configuration.statements.containing t).start := by
    by_contra hgt
    have hin : s.contains (x.configuration.statements.containing t).start = true :=
      Span.contains_iff.2 ⟨Nat.le_of_lt hbefore, Nat.lt_of_not_le hgt⟩
    exact hne (hrun.eq_of_contains hname hin (Span.contains_iff.2 ⟨le_refl _, hname.nonempty⟩))
  refine handleFinding?_of_unnamed fun u hu hu' => h.first u (le_trans hstart hu) ?_
  rw [Fin.lt_def]
  omega

theorem handlesIn_of_joined (h : x.Binds d form t g v) (hform : form ≠ .braces)
    (hcalls : ∀ u : x.TokenIdx, d.start ≤ u.val → u < g → x.OwningCall u →
      ¬ x.InBodyOf (x.configuration.text u) u) :
    x.handlesIn ⟨d.start, d.stop form⟩ =
      [x.handleFinding (x.configuration.statements.containing t) t] := by
  obtain ⟨hrun, hle, hlt, hstart⟩ := h.containing_name
  have hlen : t.val ≤ x.configuration.texts.length := le_of_lt (lt_of_lt_of_le hlt hrun.within)
  have hstop : (x.configuration.statements.containing t).stop = d.stop form := by
    rw [Configuration.statements, Statements.containing_eq_walks hlen, h.stream, h.name_at]
    exact Declaration.walkOn_nameAt h.wellFormed hform
  have hg : t.val < g.val ∧ g.val < d.stop form := by
    rw [h.name_at, h.callee_at, Declaration.stop, Declaration.calleeAt]
    omega
  have hraised : x.handleFinding? (x.configuration.statements.containing t) =
      some (x.handleFinding (x.configuration.statements.containing t) t) := by
    rw [handleFinding?_eq_some_iff]
    constructor
    · obtain ⟨u, hu, hug⟩ := Configuration.First.exists_le
        (s := x.configuration.statements.containing t) (by omega) h.owningCall
      refine ⟨u, hu, ?_⟩
      by_cases heq : u = g
      · rw [heq, h.text_callee]
        exact h.outside
      · exact hcalls u (le_trans hstart hu.inside.1) (lt_of_le_of_ne hug heq) hu.holds
    · refine ⟨t, v, ⟨⟨hle, hlt⟩, ⟨v, h.names⟩, fun u hu => h.first u (le_trans hstart hu)⟩, h.names,
        ?_, h.holdsNothing, rfl⟩
      rw [h.nextText_name]
      exact form.opening_mem
  have haudited := h.mem_auditedStatements_of_isRun hrun hstart (by omega)
  rw [handlesIn_eq_toList haudited (Span.contains_iff.2 ⟨hstart, by dsimp only; omega⟩) ?_, hraised,
    Option.toList_some]
  intro q hq hin hne
  obtain ⟨hqstart, hqstop⟩ := Span.contains_iff.1 hin
  exact h.handleFinding?_before hq hqstart (hstop ▸ hqstop) hne

section Braces
variable (h : x.Binds d .braces t g v)
include h

theorem containing_callee :
    x.configuration.statements.containing g = ⟨d.calleeAt, d.stop .braces - 1⟩ := by
  rw [Configuration.statements, h.stream, h.callee_at]
  exact Declaration.containing_calleeAt_braces h.wellFormed

theorem bounds_of_braces :
    d.calleeAt = d.nameAt + 2 ∧ d.calleeAt + 4 ≤ d.stop .braces ∧
      d.stop .braces < x.configuration.texts.length := by
  rw [h.stream, Declaration.length_stream, Declaration.stop, Initialiser.closing,
    List.length_singleton, Declaration.calleeAt]
  omega

theorem isRun_call : Statements.IsRun x.configuration.texts ⟨d.calleeAt, d.stop .braces - 1⟩ := by
  have hclear : Statements.boundaryAt x.configuration.texts g = false := by
    rw [h.callee_at]
    exact (h.boundaryAt_texts 2).trans h.wellFormed.callee
  have hbounds := h.bounds_of_braces
  rw [← h.containing_callee]
  exact (Statements.containing_isRun (by rw [h.callee_at]; omega) hclear).1

/-- The statement that names the variable has no call in it: a brace follows the name. -/
theorem handleFinding?_name (hcalls : ∀ u : x.TokenIdx, d.start ≤ u.val → u < t →
    ¬ x.OwningCall u) : x.handleFinding? (x.configuration.statements.containing t) = none := by
  obtain ⟨hrun, _, hlt, hstart⟩ := h.containing_name
  have hstop : (x.configuration.statements.containing t).stop = t.val + 1 := by
    have hlen : t.val ≤ x.configuration.texts.length := le_of_lt (lt_of_lt_of_le hlt hrun.within)
    rw [Configuration.statements, Statements.containing_eq_walks hlen, h.stream, h.name_at]
    exact Declaration.walkOn_nameAt_braces h.wellFormed
  refine handleFinding?_of_uncalled fun u hu hu' hown => ?_
  by_cases hut : u = t
  · have hnext := hown.2.1
    rw [hut, h.nextText_name] at hnext
    exact absurd hnext (by decide)
  · have hne := Fin.val_ne_of_ne hut
    exact hcalls u (le_trans hstart hu) (by rw [Fin.lt_def]; omega) hown

/-- Behind the name a statement can begin at the call only, for the braces are boundaries. -/
theorem eq_call_of_behind {q : Span} (hq : Statements.IsRun x.configuration.texts q)
    (hname : d.nameAt < q.start) (hstop : q.start < d.stop .braces) :
    q = ⟨d.calleeAt, d.stop .braces - 1⟩ := by
  have hbounds := h.bounds_of_braces
  have hfirst := hq.clear q.start (le_refl _) hq.nonempty
  have hopening : q.start ≠ d.nameAt + 1 := by
    intro heq
    rw [heq, h.boundaryAt_texts, Declaration.binding, Statements.boundaryAt_cons_succ,
      Statements.boundaryAt_cons_zero] at hfirst
    exact absurd hfirst (by decide)
  have hclosing : q.start ≠ d.stop .braces - 1 := by
    intro heq
    cases h.isRun_call.closes with
    | inl hend =>
      dsimp only at hend
      omega
    | inr hend =>
      rw [heq, hend] at hfirst
      cases hfirst
  have hin : (Span.mk d.calleeAt (d.stop .braces - 1)).contains q.start = true :=
    Span.contains_iff.2 ⟨by dsimp only; omega, by dsimp only; omega⟩
  exact hq.eq_of_contains h.isRun_call (Span.contains_iff.2 ⟨le_refl _, hq.nonempty⟩) hin

theorem handlesIn_of_braces (hcalls : ∀ u : x.TokenIdx, d.start ≤ u.val → u < t →
    ¬ x.OwningCall u) :
    x.handlesIn ⟨d.start, d.stop .braces⟩ =
      (x.handleFinding? (x.configuration.statements.containing g)).toList := by
  have hbounds := h.bounds_of_braces
  have hnameAt := d.start_le_nameAt
  rw [h.containing_callee]
  refine handlesIn_eq_toList
    (h.mem_auditedStatements_of_isRun h.isRun_call (by dsimp only; omega) (by dsimp only; omega))
    (Span.contains_iff.2 ⟨by dsimp only; omega, by dsimp only; omega⟩) ?_
  intro q hq hin hne
  obtain ⟨hqstart, hqstop⟩ := Span.contains_iff.1 hin
  by_cases hqname : q.start ≤ d.nameAt
  · by_cases heq : q = x.configuration.statements.containing t
    · rw [heq]
      exact h.handleFinding?_name hcalls
    · have hlt := h.containing_name.2.2.1
      rw [h.name_at] at hlt
      exact h.handleFinding?_before hq hqstart (by rw [h.name_at]; omega) heq
  · have hrun := (mem_auditedStatements.1 hq).1
    exact absurd (h.eq_call_of_behind hrun (Nat.lt_of_not_le hqname) hqstop) hne

theorem handleFinding?_call {f : Finding}
    (hf : x.handleFinding? (x.configuration.statements.containing g) = some f) :
    ∃ u : x.TokenIdx, g ≤ u ∧ u.val < d.stop .braces ∧ x.NamesVariable u ∧
      f = x.handleFinding (x.configuration.statements.containing g) u := by
  obtain ⟨_, u, _, hfirst, _, _, _, rfl⟩ := handleFinding?_eq_some_iff.1 hf
  have hin := hfirst.inside
  rw [h.containing_callee] at hin
  dsimp only at hin
  refine ⟨u, ?_, by omega, hfirst.holds, rfl⟩
  rw [Fin.le_def, h.callee_at]
  exact hin.1

end Braces

end Binds

/-- The owning field of a call that is bound to a type which holds nothing. Initialised by `=` or in
parentheses, the declaration raises exactly one finding, at its variable, whatever the rest of the
stream raises. Initialised in braces it raises none there: what is reported, if anything, is a
variable that the call itself names. -/
theorem binding_reported_unless_braced (x : Subject) (d : Declaration) (form : Initialiser)
    (t g : x.TokenIdx) (v : x.VariableIdx) (h : x.Binds d form t g v) :
    x.ownershipFindings = .ok (x.handlesIn ⟨0, d.start⟩ ++ x.handlesIn ⟨d.start, d.stop form⟩ ++
        x.handlesIn ⟨d.stop form, x.configuration.texts.length⟩) ∧
      (form ≠ .braces →
        (∀ u : x.TokenIdx, d.start ≤ u.val → u < g → x.OwningCall u →
          ¬ x.InBodyOf (x.configuration.text u) u) →
        x.handlesIn ⟨d.start, d.stop form⟩ =
          [x.handleFinding (x.configuration.statements.containing t) t]) ∧
      (form = .braces →
        (∀ u : x.TokenIdx, d.start ≤ u.val → u < t → ¬ x.OwningCall u) →
        (x.handlesIn ⟨d.start, d.stop form⟩).length ≤ 1 ∧
          ∀ f ∈ x.handlesIn ⟨d.start, d.stop form⟩, ∃ u : x.TokenIdx, g ≤ u ∧
            u.val < d.stop form ∧ x.NamesVariable u ∧
            f = x.handleFinding (x.configuration.statements.containing g) u) := by
  have hle : d.start ≤ d.stop form ∧ d.stop form ≤ x.configuration.texts.length := by
    have hstart := d.start_le_nameAt
    rw [h.stream, Declaration.length_stream, Declaration.stop, Declaration.calleeAt]
    omega
  refine ⟨ownershipFindings_split hle.1 hle.2, h.handlesIn_of_joined, ?_⟩
  rintro rfl hcalls
  rw [h.handlesIn_of_braces hcalls]
  constructor
  · cases x.handleFinding? (x.configuration.statements.containing g) <;> simp
  · intro f hf
    exact h.handleFinding?_call (Option.mem_toList.1 hf)

def joinedDeclaration : Declaration :=
  ⟨Configuration.factoryTexts.toList.take 23, ["V"], "w", "make", [],
    Configuration.factoryTexts.toList.drop 31⟩

def bracedDeclaration : Declaration :=
  ⟨Configuration.factoryTexts.toList.take 31, ["V"], "b", "make", [], ["\x7d"]⟩

theorem factorySubject_joined :
    factorySubject.Binds joinedDeclaration .parentheses (24 : Fin 40) (26 : Fin 40)
      (1 : Fin 3) where
  stream := by decide +kernel
  wellFormed := ⟨.inr (by decide +kernel), by decide, by decide, by simp [joinedDeclaration]⟩
  own := by decide +kernel
  name_at := by decide +kernel
  names := by decide +kernel
  first := by
    rintro u hstart hlt ⟨w, hw⟩
    exact absurd hw (by revert u w; decide +kernel)
  holdsNothing := holdsNothing_iff.2 ⟨["V"], by decide +kernel, by decide +kernel⟩
  callee_at := by decide +kernel
  owning := by decide
  called := by decide +kernel
  outside h := absurd (isInsideFunction_iff.2 h) (by decide +kernel)

theorem factorySubject_braced :
    factorySubject.Binds bracedDeclaration .braces (32 : Fin 40) (34 : Fin 40) (2 : Fin 3) where
  stream := by decide +kernel
  wellFormed := ⟨.inr (by decide +kernel), by decide, by decide, by simp [bracedDeclaration]⟩
  own := by decide +kernel
  name_at := by decide +kernel
  names := by decide +kernel
  first := by
    rintro u hstart hlt ⟨w, hw⟩
    exact absurd hw (by revert u w; decide +kernel)
  holdsNothing := holdsNothing_iff.2 ⟨["V"], by decide +kernel, by decide +kernel⟩
  callee_at := by decide +kernel
  owning := by decide
  called := by decide +kernel
  outside h := absurd (isInsideFunction_iff.2 h) (by decide +kernel)

/-- Both bindings of the sample. The types have no calls in them. -/
theorem binding_reported_unless_braced_factory :
    factorySubject.handlesIn ⟨joinedDeclaration.start, joinedDeclaration.stop .parentheses⟩ =
        [factorySubject.handleFinding ⟨23, 30⟩ (24 : Fin 40)] ∧
      (factorySubject.handlesIn
        ⟨bracedDeclaration.start, bracedDeclaration.stop .braces⟩).length ≤ 1 := by
  have hjoined : ∀ u : factorySubject.TokenIdx, joinedDeclaration.start ≤ u.val →
      u < (26 : Fin 40) → factorySubject.configuration.text u ≠ "make" := by decide +kernel
  have hbraced : ∀ u : factorySubject.TokenIdx, bracedDeclaration.start ≤ u.val →
      u < (32 : Fin 40) → factorySubject.configuration.text u ≠ "make" := by decide +kernel
  have hstatement : factorySubject.configuration.statements.containing (24 : Fin 40) =
      ⟨23, 30⟩ := by decide +kernel
  obtain ⟨_, hone, _⟩ := binding_reported_unless_braced factorySubject joinedDeclaration
    .parentheses _ _ _ factorySubject_joined
  obtain ⟨_, _, hnone⟩ := binding_reported_unless_braced factorySubject bracedDeclaration
    .braces _ _ _ factorySubject_braced
  rw [hone (by decide) fun u hs hlt hcall =>
    absurd (List.mem_singleton.1 hcall.1) (hjoined u hs hlt), hstatement]
  exact ⟨rfl, (hnone rfl fun u hs hlt hcall =>
    hbraced u hs hlt (List.mem_singleton.1 hcall.1)).1⟩

/-- The binding in braces is not reported; the same one in parentheses is all that is. -/
theorem braced_binding_unreported :
    factorySubject.Binds bracedDeclaration .braces (32 : Fin 40) (34 : Fin 40) (2 : Fin 3) ∧
      factorySubject.handlesIn ⟨bracedDeclaration.start, bracedDeclaration.stop .braces⟩ = [] ∧
      factorySubject.ownershipFindings =
        .ok [factorySubject.handleFinding ⟨23, 30⟩ (24 : Fin 40)] :=
  ⟨factorySubject_braced, by decide +kernel, by decide +kernel⟩

end Subject

end SpaceAudit
