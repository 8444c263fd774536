import Mathlib.Data.List.TakeWhile
import SpaceAudit.Proofs.Audit.Bindings
import SpaceAudit.Space.Resolution

/-! A variable of type `auto` and the expression that initialises it, as the stream spells the two.
A declaration by assignment may come in two statements; both ways give the same initialiser. -/
namespace SpaceAudit

/-- A declaration in one statement, or parted from the assignment that initialises it. -/
inductive Spelling where
  | direct (form : Initialiser)
  | parted
deriving DecidableEq, Repr

def Spelling.texts (name : String) (e : List String) : Spelling → List String
  | direct form => name :: form.opening :: (e ++ form.closing ++ [";"])
  | parted => name :: ";" :: name :: "=" :: (e ++ [";"])

def Spelling.assigns : Spelling → Bool
  | direct form => form == .equals
  | parted => true

def Spelling.expressionAt (t : Nat) : Spelling → Nat
  | direct _ => t + 2
  | parted => t + 4

def beforeBoundary (e : List String) : List String := e.takeWhile fun text => !isBoundary text

theorem isBoundary_of_mem_beforeBoundary {e : List String} {text : String}
    (h : text ∈ beforeBoundary e) : isBoundary text = false := by
  simpa using List.mem_takeWhile_imp h

theorem beforeBoundary_of_clear {e : List String} (h : ∀ text ∈ e, isBoundary text = false) :
    beforeBoundary e = e := by
  rw [beforeBoundary, List.takeWhile_eq_self_iff]
  intro text htext
  rw [h text htext]
  rfl

theorem beforeBoundary_ne_nil {e : List String} {first : String} (h : e.head? = some first)
    (hfirst : isBoundary first = false) : beforeBoundary e ≠ [] := by
  obtain ⟨rest, rfl⟩ := List.head?_eq_some_iff.1 h
  simp [beforeBoundary, hfirst]

theorem getElem?_of_beforeBoundary {e : List String} {k : Nat} {text : String}
    (h : (beforeBoundary e)[k]? = some text) : e[k]? = some text := by
  obtain ⟨rest, hrest⟩ : beforeBoundary e <+: e := List.takeWhile_prefix _
  rw [← hrest, List.getElem?_append_left (List.getElem?_eq_some_iff.1 h).1]
  exact h

theorem exists_boundary (e after : List String) :
    ∃ b rest, e ++ ";" :: after = beforeBoundary e ++ b :: rest ∧ isBoundary b = true := by
  induction e with
  | nil => exact ⟨";", after, rfl, by decide⟩
  | cons text e ih =>
    by_cases htext : isBoundary text = true
    · exact ⟨text, e ++ ";" :: after, by simp [beforeBoundary, htext], htext⟩
    · obtain ⟨b, rest, heq, hb⟩ := ih
      refine ⟨b, rest, ?_, hb⟩
      rw [List.cons_append, heq]
      simp [beforeBoundary, htext]

namespace Configuration
variable {c : Configuration}

theorem filterMap_getElem?_range' {α : Type} (l : List α) (i n : Nat) :
    (List.range' i n).filterMap (l[·]?) = (l.drop i).take n := by
  induction n generalizing i with
  | zero => rfl
  | succ n ih =>
    rw [List.range'_succ, List.filterMap_cons, ih]
    by_cases h : i < l.length
    · rw [List.getElem?_eq_getElem h, List.drop_eq_getElem_cons h, List.take_succ_cons]
    · rw [List.getElem?_eq_none (by omega), List.drop_eq_nil_of_le (by omega),
        List.drop_eq_nil_of_le (by omega)]
      simp

theorem textsIn_eq (s : Span) : c.textsIn s = (c.texts.drop s.start).take s.length := by
  rw [textsIn, tokensIn, List.map_filterMap, Span.positions, ← filterMap_getElem?_range']
  simp only [getElem?_texts]

/-- From position `i` on the stream reads `texts`, in which there is no boundary, and then a
boundary comes. -/
structure Reads (c : Configuration) (i : Nat) (texts : List String) : Prop where
  clear : ∀ text ∈ texts, isBoundary text = false
  ends : ∃ b rest, c.texts.drop i = texts ++ b :: rest ∧ isBoundary b = true

namespace Reads
variable {i : Nat} {texts : List String}

theorem lt_length (h : c.Reads i texts) : i + texts.length < c.texts.length := by
  obtain ⟨b, rest, heq, _⟩ := h.ends
  have hlen := congrArg List.length heq
  rw [List.length_drop, List.length_append, List.length_cons] at hlen
  omega

theorem containing_stop (h : c.Reads i texts) :
    (c.statements.containing i).stop = i + texts.length := by
  obtain ⟨b, rest, heq, hb⟩ := h.ends
  have hlen := h.lt_length
  rw [statements, Statements.containing_eq_walks (by omega), Statements.walkOn, heq,
    Declaration.findIdx_append_of_clear h.clear, List.findIdx_cons, hb, cond_true, Nat.add_zero]

theorem textsIn (h : c.Reads i texts) : c.textsIn ⟨i, i + texts.length⟩ = texts := by
  obtain ⟨b, rest, heq, _⟩ := h.ends
  rw [textsIn_eq, Span.length, Nat.add_sub_cancel_left, heq, List.take_left]

theorem tail {text : String} (h : c.Reads i (text :: texts)) : c.Reads (i + 1) texts := by
  obtain ⟨b, rest, heq, hb⟩ := h.ends
  refine ⟨fun t ht => h.clear t (List.mem_cons_of_mem text ht), b, rest, ?_, hb⟩
  rw [← List.drop_drop, heq, List.cons_append, List.drop_succ_cons, List.drop_zero]

theorem getElem? (h : c.Reads i texts) {k : Nat} (hk : k < texts.length) :
    c.texts[i + k]? = texts[k]? := by
  obtain ⟨b, rest, heq, _⟩ := h.ends
  rw [← List.getElem?_drop, heq, List.getElem?_append_left hk]

theorem getElem?_next (h : c.Reads i texts) :
    ∃ b, c.texts[i + texts.length]? = some b ∧ isBoundary b = true := by
  obtain ⟨b, rest, heq, hb⟩ := h.ends
  refine ⟨b, ?_, hb⟩
  rw [← List.getElem?_drop, heq, List.getElem?_append_right (Nat.le_refl _), Nat.sub_self,
    List.getElem?_cons_zero]

theorem exists_token (h : c.Reads i texts) {k : Nat} (hk : k < texts.length) :
    ∃ t : c.TokenIdx, t.val = i + k := by
  have hlen := h.lt_length
  have htokens : c.texts.length = c.extent.tokens := by simp [Configuration.texts]
  exact ⟨⟨i + k, by omega⟩, rfl⟩

theorem text_eq (h : c.Reads i texts) {t : c.TokenIdx} {k : Nat} (ht : t.val = i + k)
    (hk : k < texts.length) : texts[k]? = some (c.text t) := by
  rw [← h.getElem? hk, ← ht]
  exact getElem?_texts_val t

/-- A bracket after a token that was read was read as well, for it is no boundary. -/
theorem nextText_eq_opening_iff (h : c.Reads i texts) {t : c.TokenIdx} {k : Nat}
    (ht : t.val = i + k) (hk : k < texts.length) :
    c.nextText t = "(" ↔ texts[k + 1]? = some "(" := by
  rw [Configuration.nextText_eq, ht, Nat.add_assoc]
  by_cases hlast : k + 1 < texts.length
  · rw [h.getElem? hlast, List.getElem?_eq_getElem hlast, Option.getD_some, Option.some.injEq]
  · obtain ⟨b, hget, hb⟩ := h.getElem?_next
    have hend : k + 1 = texts.length := by omega
    have hother : b ≠ "(" := by
      intro hopening
      rw [hopening] at hb
      exact absurd hb (by decide)
    have hnone : texts[k + 1]? = none := List.getElem?_eq_none (by omega)
    rw [hnone, hend, hget, Option.getD_some]
    simpa using hother

end Reads

/-- A variable of type `auto`, named at `t`, and the expression that initialises it. The name is no
boundary. Parted, the assignment that follows names the variable again. -/
structure DeclaresAuto (c : Configuration) (v : c.VariableIdx) (t : c.TokenIdx)
    (spelling : Spelling) (e : List String) : Prop where
  named : (c.var v).nameToken = .resolved t
  name : isBoundary (c.text t) = false
  auto : c.typeTexts v = .ok ["auto"]
  spelled : spelling.texts (c.text t) e <+: c.texts.drop t
  again : spelling = .parted → ∀ u : c.TokenIdx, u.val = t.val + 2 →
    (c.token u).var = .resolved v

section Assigned
variable {v : c.VariableIdx} {t : c.TokenIdx} {e : List String}

theorem nextText_of_drop {name next : String} {rest : List String}
    (h : c.texts.drop t = name :: next :: rest) : c.nextText t = next := by
  rw [nextText_eq, ← List.getElem?_drop, h]
  rfl

theorem reads_assignment {i : Nat} {name : String} {after : List String}
    (hname : isBoundary name = false)
    (h : c.texts.drop i = name :: "=" :: (e ++ ";" :: after)) :
    c.Reads i (name :: "=" :: beforeBoundary e) := by
  obtain ⟨b, rest, heq, hb⟩ := exists_boundary e after
  refine ⟨?_, b, rest, ?_, hb⟩
  · rw [List.forall_mem_cons, List.forall_mem_cons]
    exact ⟨hname, by decide, fun _ => isBoundary_of_mem_beforeBoundary⟩
  · rw [h, heq]
    rfl

theorem initializer?_of_assignedIn (hin : c.assignedIn? v = some (t, c.statements.containing t))
    (hreads : c.Reads t (c.text t :: "=" :: beforeBoundary e)) (hne : beforeBoundary e ≠ []) :
    c.initializer? v = some ⟨t + 2, t + 2 + (beforeBoundary e).length⟩ := by
  have hnext : c.nextText t = "=" := by
    obtain ⟨b, rest, heq, _⟩ := hreads.ends
    exact nextText_of_drop heq
  have hstop : (c.statements.containing t).stop = t + 2 + (beforeBoundary e).length := by
    rw [hreads.containing_stop, List.length_cons, List.length_cons]
    omega
  have hpos : 0 < (beforeBoundary e).length := List.length_pos_iff.2 hne
  unfold initializer?
  rw [hin]
  dsimp only
  rw [hstop, if_pos ⟨hnext, by omega⟩]

theorem initializer?_of_bracketed (hnamed : (c.var v).nameToken = .resolved t)
    (hnext : c.nextText t ≠ ";") (hopening : c.nextText t ≠ "=") : c.initializer? v = none := by
  have hin : c.assignedIn? v = some (t, c.statements.containing t) := by
    unfold assignedIn?
    rw [Ref.get?_eq_some_iff.2 hnamed]
    dsimp only
    rw [if_neg hnext]
  unfold initializer?
  rw [hin]
  dsimp only
  rw [if_neg (fun h => hopening h.1)]

theorem assignedIn?_of_ended (hnamed : (c.var v).nameToken = .resolved t)
    (hname : isBoundary (c.text t) = false) (hnext : c.nextText t = ";") :
    c.assignedIn? v =
      (c.tokenAt? (t + 2)).bind fun u =>
        if (c.token u).var.get? = some v then some (u, c.statements.containing u) else none := by
  have htext : c.texts[t.val]? = some (c.text t) := getElem?_texts_val t
  have hafter : c.texts[t.val + 1]? = some ";" := by
    rw [nextText_eq] at hnext
    cases hget : c.texts[t.val + 1]? with
    | none =>
      rw [hget] at hnext
      exact absurd hnext (by decide)
    | some next =>
      rw [hget, Option.getD_some] at hnext
      rw [hnext]
  have hdrop : c.texts.drop t = c.text t :: ";" :: c.texts.drop (t + 2) := by
    obtain ⟨hlt, heq⟩ := List.getElem?_eq_some_iff.1 htext
    obtain ⟨hlt', heq'⟩ := List.getElem?_eq_some_iff.1 hafter
    rw [List.drop_eq_getElem_cons hlt, heq, List.drop_eq_getElem_cons hlt', heq']
  have hreads : c.Reads t [c.text t] :=
    ⟨by simpa using hname, ";", c.texts.drop (t + 2), hdrop, by decide⟩
  unfold assignedIn?
  rw [Ref.get?_eq_some_iff.2 hnamed]
  dsimp only
  rw [if_pos hnext, hreads.containing_stop, List.length_singleton]
  cases c.tokenAt? (t + 1 + 1) with
  | none => rfl
  | some u => rfl

end Assigned

namespace DeclaresAuto
variable {v : c.VariableIdx} {t : c.TokenIdx} {e : List String}

theorem exists_drop_direct {form : Initialiser} (h : c.DeclaresAuto v t (.direct form) e) :
    ∃ after, c.texts.drop t =
      c.text t :: form.opening :: (e ++ form.closing ++ ";" :: after) := by
  obtain ⟨after, hafter⟩ := h.spelled
  exact ⟨after, by rw [← hafter]; simp [Spelling.texts]⟩

theorem exists_assignment {spelling : Spelling} (h : c.DeclaresAuto v t spelling e)
    (hassigns : spelling.assigns = true) :
    ∃ (u : c.TokenIdx) (after : List String), u.val + 2 = spelling.expressionAt t ∧
      isBoundary (c.text u) = false ∧ c.assignedIn? v = some (u, c.statements.containing u) ∧
      c.texts.drop u = c.text u :: "=" :: (e ++ ";" :: after) := by
  cases spelling with
  | direct form =>
    have hform : form = .equals := by simpa [Spelling.assigns] using hassigns
    subst hform
    obtain ⟨after, hdrop⟩ := h.exists_drop_direct
    rw [Initialiser.opening, Initialiser.closing, List.append_nil] at hdrop
    have hnext : c.nextText t ≠ ";" := by
      rw [nextText_of_drop hdrop]
      decide
    refine ⟨t, after, rfl, h.name, ?_, hdrop⟩
    unfold assignedIn?
    rw [Ref.get?_eq_some_iff.2 h.named]
    dsimp only
    rw [if_neg hnext]
  | parted =>
    obtain ⟨after, hafter⟩ := h.spelled
    have hdrop : c.texts.drop t =
        c.text t :: ";" :: c.text t :: "=" :: (e ++ ";" :: after) := by
      rw [← hafter]
      simp [Spelling.texts]
    have hdrop' : c.texts.drop (t + 2) = c.text t :: "=" :: (e ++ ";" :: after) := by
      rw [← List.drop_drop, hdrop]
      rfl
    have hget : c.texts[t.val + 2]? = some (c.text t) := by
      rw [← List.getElem?_drop, hdrop]
      rfl
    obtain ⟨u, hu, htext⟩ : ∃ u, c.tokenAt? (t + 2) = some u ∧ c.text u = c.text t := by
      rw [getElem?_texts] at hget
      exact Option.map_eq_some_iff.1 hget
    have hat := tokenAt?_eq_some_iff.1 hu
    have hvar : (c.token u).var.get? = some v :=
      Ref.get?_eq_some_iff.2 (h.again rfl u hat.symm)
    refine ⟨u, after, ?_, htext ▸ h.name, ?_, ?_⟩
    · rw [← hat, Spelling.expressionAt]
    · rw [assignedIn?_of_ended h.named h.name (nextText_of_drop hdrop), hu, Option.bind_some,
        if_pos hvar]
    · rw [← hat, hdrop', htext]

theorem exists_drop_expression {spelling : Spelling} (h : c.DeclaresAuto v t spelling e)
    (hassigns : spelling.assigns = true) :
    ∃ after, c.texts.drop (spelling.expressionAt t) = e ++ ";" :: after := by
  obtain ⟨u, after, hat, _, _, hdrop⟩ := h.exists_assignment hassigns
  refine ⟨after, ?_⟩
  rw [← hat, ← List.drop_drop, hdrop]
  rfl

theorem reads_expression {spelling : Spelling} (h : c.DeclaresAuto v t spelling e)
    (hassigns : spelling.assigns = true) :
    c.Reads (spelling.expressionAt t) (beforeBoundary e) := by
  obtain ⟨u, after, hat, hname, _, hdrop⟩ := h.exists_assignment hassigns
  rw [← hat]
  exact (reads_assignment hname hdrop).tail.tail

/-- What an assignment initialises the variable with is the expression up to its first boundary. -/
theorem initializer?_eq {spelling : Spelling} (h : c.DeclaresAuto v t spelling e)
    (hassigns : spelling.assigns = true) (hne : beforeBoundary e ≠ []) :
    c.initializer? v = some ⟨spelling.expressionAt t,
      spelling.expressionAt t + (beforeBoundary e).length⟩ := by
  obtain ⟨u, after, hat, hname, hin, hdrop⟩ := h.exists_assignment hassigns
  rw [← hat]
  exact initializer?_of_assignedIn hin (reads_assignment hname hdrop) hne

end DeclaresAuto

theorem initializer?_eq_none {v : c.VariableIdx} {t : c.TokenIdx}
    (hnamed : (c.var v).nameToken = .resolved t) (hname : isBoundary (c.text t) = false)
    (hnext : c.nextText t = ";")
    (hother : ∀ u : c.TokenIdx, u.val = t.val + 2 → (c.token u).var ≠ .resolved v) :
    c.initializer? v = none := by
  have hin : c.assignedIn? v = none := by
    rw [assignedIn?_of_ended hnamed hname hnext]
    cases hu : c.tokenAt? (t + 2) with
    | none => rfl
    | some u =>
      have hvar : (c.token u).var.get? ≠ some v := fun hget =>
        hother u (tokenAt?_eq_some_iff.1 hu).symm (Ref.get?_eq_some_iff.1 hget)
      rw [Option.bind_some, if_neg hvar]
  unfold initializer?
  rw [hin]

end Configuration

end SpaceAudit
