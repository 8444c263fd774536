import SpaceAudit.Proofs.Audit.NeedlessAuto
import SpaceAudit.Proofs.Call.Splitting
import SpaceAudit.Proofs.Group.Repeat

/-! A declaration that is parted from its assignment says what it says in one statement. The two
streams hold the same expression at different places, and all that is read off it is the same. -/
namespace SpaceAudit

namespace Configuration

section Mirrors
variable {c : Configuration} {call t close : c.TokenIdx}

theorem mirrorSpace_of_linked (settings : Settings) (hlist : c.argumentList? call = some t)
    (hlink : (c.token t).link.get? = some close) :
    (c.mirrorSpace settings call).toOption =
      some (if ((c.argumentsFrom close [] (t + 1)).map (List.map c.text)).flatten.any
        settings.deviceSpaceMarkers.contains then .device else .host) := by
  have hrequire : (c.token t).link.require .closingParenthesis = .ok close :=
    Ref.require_eq_ok_iff.2 (Ref.get?_eq_some_iff.1 hlink)
  have harguments : ∃ arguments, c.callArguments call = .ok arguments ∧
      arguments.flatten = (c.argumentsFrom close [] (t + 1)).flatten := by
    unfold callArguments
    rw [hlist]
    dsimp only
    rw [hrequire]
    dsimp only
    split
    · rename_i hempty
      exact ⟨[], rfl, by rw [hempty]; rfl⟩
    · exact ⟨_, rfl, rfl⟩
  obtain ⟨arguments, hcall, hflat⟩ := harguments
  unfold mirrorSpace
  rw [hcall]
  dsimp only
  rw [hflat, ← List.map_flatten, List.any_map, Function.comp_def]
  split
  · rfl
  · rfl

theorem mirrorSpace_of_unlinked (settings : Settings) (hlist : c.argumentList? call = some t)
    (hlink : (c.token t).link.get? = none) :
    (c.mirrorSpace settings call).toOption = none := by
  have hrequire : ∃ missing, (c.token t).link.require .closingParenthesis = .error missing := by
    cases href : (c.token t).link with
    | absent => exact ⟨_, rfl⟩
    | dangling id => exact ⟨_, rfl⟩
    | resolved u =>
      rw [href] at hlink
      cases hlink
  obtain ⟨missing, hmissing⟩ := hrequire
  have hcall : c.callArguments call = .error missing := by
    unfold callArguments
    rw [hlist]
    dsimp only
    rw [hmissing]
  unfold mirrorSpace
  rw [hcall]
  rfl

end Mirrors

/-- The `n` tokens from position `i` on have their partners among them, as `partner` says for each
place. -/
structure Linked (c : Configuration) (i n : Nat) (partner : Nat → Option Nat) : Prop where
  inside : ∀ k j, k < n → partner k = some j → j < n
  links : ∀ (t : c.TokenIdx) (k : Nat), k < n → t.val = i + k →
    (c.token t).link.get?.map Fin.val = (partner k).map (i + ·)

/-- From position `i` on the stream reads the expression `e`, whose brackets are linked. -/
structure Holds (c : Configuration) (i : Nat) (e : List String) (partner : Nat → Option Nat) :
    Prop extends Linked c i e.length partner where
  reads : e <+: c.texts.drop i

theorem DeclaresAuto.holds {c : Configuration} {v : c.VariableIdx} {t : c.TokenIdx}
    {spelling : Spelling} {e : List String} {partner : Nat → Option Nat}
    (h : c.DeclaresAuto v t spelling e) (hassigns : spelling.assigns = true)
    (hlinked : c.Linked (spelling.expressionAt t) e.length partner) :
    c.Holds (spelling.expressionAt t) e partner := by
  obtain ⟨after, hafter⟩ := h.exists_drop_expression hassigns
  exact ⟨hlinked, ";" :: after, hafter.symm⟩

namespace Holds
variable {c : Configuration} {i : Nat} {e : List String} {partner : Nat → Option Nat}

theorem getElem?_texts (h : c.Holds i e partner) {k : Nat} (hk : k < e.length) :
    c.texts[i + k]? = e[k]? := by
  obtain ⟨after, hafter⟩ := h.reads
  rw [← List.getElem?_drop, ← hafter, List.getElem?_append_left hk]

theorem exists_token (h : c.Holds i e partner) {k : Nat} (hk : k < e.length) :
    ∃ t : c.TokenIdx, t.val = i + k ∧ e[k]? = some (c.text t) := by
  have hget := h.getElem?_texts hk
  rw [Configuration.getElem?_texts, List.getElem?_eq_getElem hk] at hget
  obtain ⟨t, ht, htext⟩ := Option.map_eq_some_iff.1 hget
  exact ⟨t, (tokenAt?_eq_some_iff.1 ht).symm, by rw [List.getElem?_eq_getElem hk, htext]⟩

theorem textsBetween (h : c.Holds i e partner) {t u : c.TokenIdx} {k j : Nat} (ht : t.val = i + k)
    (hu : u.val = i + j) (hj : j < e.length) :
    (c.tokensBetween t u).map c.text = (e.drop k).take (j + 1 - k) := by
  obtain ⟨after, hafter⟩ := h.reads
  have hslice : (c.tokensBetween t u).map c.text = ((e ++ after).drop k).take (j + 1 - k) := by
    have hlength : (Span.mk t.val (u.val + 1)).length = j + 1 - k := by
      simp only [Span.length, ht, hu]
      omega
    rw [hafter, List.drop_drop, ← ht, ← hlength]
    exact textsIn_eq ⟨t, u + 1⟩
  rw [hslice]
  by_cases hk : k ≤ e.length
  · rw [List.drop_append_of_le_length hk,
      List.take_append_of_le_length (by rw [List.length_drop]; omega)]
  · have hnone : j + 1 - k = 0 := by omega
    rw [hnone, List.take_zero, List.take_zero]

theorem get?_link (h : c.Holds i e partner) {t : c.TokenIdx} {k j : Nat} (ht : t.val = i + k)
    (hk : k < e.length) (hj : partner k = some j) :
    ∃ u : c.TokenIdx, (c.token t).link.get? = some u ∧ u.val = i + j := by
  have hlinks := h.links t k hk ht
  rw [hj, Option.map_some] at hlinks
  exact Option.map_eq_some_iff.1 hlinks

theorem get?_link_eq_none (h : c.Holds i e partner) {t : c.TokenIdx} {k : Nat}
    (ht : t.val = i + k) (hk : k < e.length) (hnone : partner k = none) :
    (c.token t).link.get? = none := by
  have hlinks := h.links t k hk ht
  rwa [hnone, Option.map_none, Option.map_eq_none_iff] at hlinks

theorem not_inside (h : c.Holds i e partner) {t close : c.TokenIdx} {k n : Nat}
    (ht : t.val = i + k) (hk : k < e.length) (hclose : close.val = i + n)
    (hout : ¬ ∃ j, partner k = some j ∧ k < j ∧ j < n) (u : c.TokenIdx)
    (hu : (c.token t).link.get? = some u) : ¬ (t < u ∧ u < close) := by
  intro hin
  rw [Fin.lt_def, Fin.lt_def] at hin
  cases hpartner : partner k with
  | none =>
    rw [h.get?_link_eq_none ht hk hpartner] at hu
    cases hu
  | some j =>
    obtain ⟨u', hu', hat⟩ := h.get?_link ht hk hpartner
    rw [hu, Option.some.injEq] at hu'
    rw [← hu'] at hat
    exact hout ⟨j, hpartner, by omega, by omega⟩

end Holds

theorem Reads.mirrors_iff {c : Configuration} {i : Nat} {b : List String} (h : c.Reads i b)
    (settings : Settings) {t : c.TokenIdx} {k : Nat} (ht : t.val = i + k) (hk : k < b.length) :
    (settings.mirrorFunctions.contains (c.text t) && c.nextText t == "(") = true ↔
      b[k]?.any settings.mirrorFunctions.contains = true ∧ b[k + 1]? = some "(" := by
  rw [Bool.and_eq_true, beq_iff_eq, h.nextText_eq_opening_iff ht hk, h.text_eq ht hk,
    Option.any_some]

section TwoStreams
variable {c c' : Configuration} {i i' : Nat} {e : List String} {partner : Nat → Option Nat}

/-- One step of the walk over the arguments of a call. In both streams it ends an argument at a
comma, or else takes the same texts into the argument and goes on behind them. -/
theorem argumentsFrom_step_same (h : c.Holds i e partner) (h' : c'.Holds i' e partner) {n k : Nat}
    (hn : n < e.length) (hk : k < n) {close : c.TokenIdx} {close' : c'.TokenIdx}
    (hclose : close.val = i + n) (hclose' : close'.val = i' + n) (current : List c.TokenIdx)
    (current' : List c'.TokenIdx) :
    (c.argumentsFrom close current (i + k) = current :: c.argumentsFrom close [] (i + (k + 1)) ∧
        c'.argumentsFrom close' current' (i' + k) =
          current' :: c'.argumentsFrom close' [] (i' + (k + 1))) ∨
      ∃ (m : Nat) (taken : List c.TokenIdx) (taken' : List c'.TokenIdx), k < m ∧
        taken.map c.text = taken'.map c'.text ∧
        c.argumentsFrom close current (i + k) =
          c.argumentsFrom close (current ++ taken) (i + m) ∧
        c'.argumentsFrom close' current' (i' + k) =
          c'.argumentsFrom close' (current' ++ taken') (i' + m) := by
  obtain ⟨t, ht, htext⟩ := h.exists_token (k := k) (by omega)
  obtain ⟨t', ht', htext'⟩ := h'.exists_token (k := k) (by omega)
  have hsame : c.text t = c'.text t' := Option.some.inj (htext.symm.trans htext')
  have hlt : t.val < close := by omega
  have hlt' : t'.val < close' := by omega
  have hnext : i + (k + 1) = t.val + 1 := by omega
  have hnext' : i' + (k + 1) = t'.val + 1 := by omega
  rw [← ht, ← ht']
  by_cases hcomma : c.text t = ","
  · left
    rw [hnext, hnext']
    exact ⟨argumentsFrom_comma hlt hcomma current,
      argumentsFrom_comma hlt' (hsame ▸ hcomma) current'⟩
  right
  have hcomma' : c'.text t' ≠ "," := hsame ▸ hcomma
  -- A bracket is taken with all it holds if its partner lies before the end of the list.
  by_cases hin : ∃ j, partner k = some j ∧ k < j ∧ j < n
  · obtain ⟨j, hpartner, hkj, hjn⟩ := hin
    obtain ⟨u, hu, hat⟩ := h.get?_link ht (by omega) hpartner
    obtain ⟨u', hu', hat'⟩ := h'.get?_link ht' (by omega) hpartner
    have hinside : t < u ∧ u < close := by
      rw [Fin.lt_def, Fin.lt_def]
      omega
    have hinside' : t' < u' ∧ u' < close' := by
      rw [Fin.lt_def, Fin.lt_def]
      omega
    have hbehind : i + (j + 1) = u.val + 1 := by omega
    have hbehind' : i' + (j + 1) = u'.val + 1 := by omega
    refine ⟨j + 1, c.tokensBetween t u, c'.tokensBetween t' u', by omega, ?_, ?_, ?_⟩
    · rw [h.textsBetween ht hat (by omega), h'.textsBetween ht' hat' (by omega)]
    · rw [hbehind]
      exact argumentsFrom_linked hcomma hu hinside current
    · rw [hbehind']
      exact argumentsFrom_linked hcomma' hu' hinside' current'
  · refine ⟨k + 1, [t], [t'], by omega, by rw [List.map_singleton, List.map_singleton, hsame],
      ?_, ?_⟩
    · rw [hnext]
      exact argumentsFrom_plain hlt hcomma (h.not_inside ht (by omega) hclose hin) current
    · rw [hnext']
      exact argumentsFrom_plain hlt' hcomma' (h'.not_inside ht' (by omega) hclose' hin) current'

theorem argumentsFrom_same (h : c.Holds i e partner) (h' : c'.Holds i' e partner) {n : Nat}
    (hn : n < e.length) {close : c.TokenIdx} {close' : c'.TokenIdx} (hclose : close.val = i + n)
    (hclose' : close'.val = i' + n) (k : Nat) (current : List c.TokenIdx)
    (current' : List c'.TokenIdx) (hcurrent : current.map c.text = current'.map c'.text) :
    (c.argumentsFrom close current (i + k)).map (List.map c.text) =
      (c'.argumentsFrom close' current' (i' + k)).map (List.map c'.text) := by
  -- The number of places before the end of the list goes down.
  induction hrest : n - k using Nat.strong_induction_on generalizing k current current' with
  | _ rest ih =>
    by_cases hk : k < n
    · cases argumentsFrom_step_same h h' hn hk hclose hclose' current current' with
      | inl hended =>
        rw [hended.1, hended.2, List.map_cons, List.map_cons, hcurrent,
          ih (n - (k + 1)) (by omega) (k + 1) [] [] rfl rfl]
      | inr htaken =>
        obtain ⟨m, taken, taken', hkm, htexts, hwalk, hwalk'⟩ := htaken
        have hlonger : (current ++ taken).map c.text = (current' ++ taken').map c'.text := by
          rw [List.map_append, List.map_append, hcurrent, htexts]
        rw [hwalk, hwalk', ih (n - m) (by omega) m _ _ hlonger rfl]
    · rw [argumentsFrom_end (by omega), argumentsFrom_end (by omega), List.map_singleton,
        List.map_singleton, hcurrent]

theorem mirrorSpace_same (settings : Settings) (h : c.Holds i e partner)
    (h' : c'.Holds i' e partner) {call : c.TokenIdx} {call' : c'.TokenIdx} {k : Nat}
    (hcall : call.val = i + k) (hcall' : call'.val = i' + k) (hopen : e[k + 1]? = some "(") :
    (c.mirrorSpace settings call).toOption = (c'.mirrorSpace settings call').toOption := by
  have hk := (List.getElem?_eq_some_iff.1 hopen).1
  obtain ⟨t, ht, htext⟩ := h.exists_token hk
  obtain ⟨t', ht', htext'⟩ := h'.exists_token hk
  have hlist : c.argumentList? call = some t :=
    argumentList?_eq_some_iff.2 ⟨by omega, Option.some.inj (htext.symm.trans hopen)⟩
  have hlist' : c'.argumentList? call' = some t' :=
    argumentList?_eq_some_iff.2 ⟨by omega, Option.some.inj (htext'.symm.trans hopen)⟩
  cases hpartner : partner (k + 1) with
  | none =>
    rw [mirrorSpace_of_unlinked settings hlist (h.get?_link_eq_none ht hk hpartner),
      mirrorSpace_of_unlinked settings hlist' (h'.get?_link_eq_none ht' hk hpartner)]
  | some j =>
    obtain ⟨close, hclose, hat⟩ := h.get?_link ht hk hpartner
    obtain ⟨close', hclose', hat'⟩ := h'.get?_link ht' hk hpartner
    have hwalk := argumentsFrom_same h h' (h.inside _ _ hk hpartner) hat hat' (k + 2) [] [] rfl
    have hnext : t.val + 1 = i + (k + 2) := by omega
    have hnext' : t'.val + 1 = i' + (k + 2) := by omega
    rw [mirrorSpace_of_linked settings hlist hclose, mirrorSpace_of_linked settings hlist' hclose',
      hnext, hnext', hwalk]

theorem exists_mirrorCall? (settings : Settings) {b : List String} (h : c.Reads i b)
    (h' : c'.Reads i' b) {call : c.TokenIdx}
    (hcall : c.mirrorCall? settings ⟨i, i + b.length⟩ = some call) :
    ∃ (k : Nat) (call' : c'.TokenIdx), call.val = i + k ∧ call'.val = i' + k ∧
      b[k + 1]? = some "(" ∧ c'.mirrorCall? settings ⟨i', i' + b.length⟩ = some call' := by
  rw [mirrorCall?, find?_tokensIn_eq_some_iff] at hcall
  obtain ⟨hle, hlt⟩ := hcall.inside
  dsimp only at hle hlt
  obtain ⟨k, hk⟩ : ∃ k, call.val = i + k := ⟨call.val - i, by omega⟩
  obtain ⟨call', hk'⟩ := h'.exists_token (k := k) (by omega)
  have hholds := (h.mirrors_iff settings hk (by omega)).1 hcall.holds
  refine ⟨k, call', hk, hk', hholds.2, ?_⟩
  rw [mirrorCall?, find?_tokensIn_eq_some_iff]
  refine ⟨⟨by dsimp only; omega, by dsimp only; omega⟩,
    (h'.mirrors_iff settings hk' (by omega)).2 hholds, fun u' hu' hbefore hother => ?_⟩
  dsimp only at hu'
  rw [Fin.lt_def] at hbefore
  obtain ⟨m, hm'⟩ : ∃ m, u'.val = i' + m := ⟨u'.val - i', by omega⟩
  obtain ⟨u, hm⟩ := h.exists_token (k := m) (by omega)
  refine hcall.least u (by dsimp only; omega) (by rw [Fin.lt_def]; omega) ?_
  exact (h.mirrors_iff settings hm (by omega)).2 ((h'.mirrors_iff settings hm' (by omega)).1 hother)

end TwoStreams

theorem autoBinding?_eq {c : Configuration} (settings : Settings) {v : c.VariableIdx} {s : Span}
    (hinit : c.initializer? v = some s) :
    c.autoBinding? settings v = (c.mirrorCall? settings s).bind fun call =>
      (c.mirrorSpace settings call).toOption.map (⟨·, false⟩) := by
  unfold autoBinding?
  rw [hinit, Option.bind_some]
  cases c.mirrorCall? settings s with
  | none => rfl
  | some call =>
    dsimp only
    cases hspace : c.mirrorSpace settings call with
    | error missing => simp [hspace, Except.toOption]
    | ok space => simp [hspace, Except.toOption]

section Bindings
variable {c c' : Configuration} {v : c.VariableIdx} {v' : c'.VariableIdx} {i i' : Nat}
  {e : List String} {partner : Nat → Option Nat}

theorem autoBinding?_same (settings : Settings)
    (hinit : c.initializer? v = some ⟨i, i + (beforeBoundary e).length⟩)
    (hinit' : c'.initializer? v' = some ⟨i', i' + (beforeBoundary e).length⟩)
    (hreads : c.Reads i (beforeBoundary e)) (hreads' : c'.Reads i' (beforeBoundary e))
    (h : c.Holds i e partner) (h' : c'.Holds i' e partner) :
    c.autoBinding? settings v = c'.autoBinding? settings v' := by
  rw [autoBinding?_eq settings hinit, autoBinding?_eq settings hinit']
  cases hcall : c.mirrorCall? settings ⟨i, i + (beforeBoundary e).length⟩ with
  | some call =>
    obtain ⟨k, call', hk, hk', hopen, hcall'⟩ := exists_mirrorCall? settings hreads hreads' hcall
    have hopen' : e[k + 1]? = some "(" := getElem?_of_beforeBoundary hopen
    rw [hcall', Option.bind_some, Option.bind_some, mirrorSpace_same settings h h' hk hk' hopen']
  | none =>
    cases hcall' : c'.mirrorCall? settings ⟨i', i' + (beforeBoundary e).length⟩ with
    | none => rfl
    | some call' =>
      obtain ⟨_, call, _, _, _, hfound⟩ := exists_mirrorCall? settings hreads' hreads hcall'
      rw [hcall] at hfound
      cases hfound

end Bindings

end Configuration

namespace Subject

/-- One variable in two units that differ in how its declaration is spelled: in one statement in
the first, parted from its assignment in the second. The expression and the partners of its
brackets are the same. -/
structure Respelled (x y : Subject) (v : x.VariableIdx) (w : y.VariableIdx) (t : x.TokenIdx)
    (u : y.TokenIdx) (e : List String) (partner : Nat → Option Nat) : Prop where
  settings : x.settings = y.settings
  signatures : x.signatures = y.signatures
  access : (x.configuration.var v).access = (y.configuration.var w).access
  own : x.inMainFile t = y.inMainFile u
  joined : x.configuration.DeclaresAuto v t (.direct .equals) e
  parted : y.configuration.DeclaresAuto w u .parted e
  linked : x.configuration.Linked (t + 2) e.length partner
  linked_parted : y.configuration.Linked (u + 4) e.length partner

namespace Respelled
variable {x y : Subject} {v : x.VariableIdx} {w : y.VariableIdx} {t : x.TokenIdx}
  {u : y.TokenIdx} {e : List String} {partner : Nat → Option Nat}

theorem memory?_resolveMemory_same (h : x.Respelled y v w t u e partner)
    (hne : beforeBoundary e ≠ []) {aliases aliases' : AliasTable}
    {a : Annotations x.configuration.extent} {b : Annotations y.configuration.extent}
    (hbefore : a.memory? v = b.memory? w) :
    (x.configuration.resolveMemory x.settings aliases a).memory? v =
      (y.configuration.resolveMemory y.settings aliases' b).memory? w := by
  have hauto : x.configuration.autoBinding? x.settings v =
      y.configuration.autoBinding? y.settings w := by
    rw [h.settings]
    exact Configuration.autoBinding?_same y.settings (h.joined.initializer?_eq rfl hne)
      (h.parted.initializer?_eq rfl hne) (h.joined.reads_expression rfl)
      (h.parted.reads_expression rfl) (h.joined.holds rfl h.linked)
      (h.parted.holds rfl h.linked_parted)
  have hbinding : x.configuration.binding? x.settings aliases v =
      y.configuration.binding? y.settings aliases' w := by
    unfold Configuration.binding?
    rw [h.joined.auto, h.parted.auto]
    exact hauto
  rw [Configuration.memory?_resolveMemory, Configuration.memory?_resolveMemory, hbinding, hbefore]

theorem isSome_autoFinding?_same (h : x.Respelled y v w t u e partner)
    (hne : beforeBoundary e ≠ []) : (x.autoFinding? v).isSome = (y.autoFinding? w).isSome := by
  have hinit := autoInitializer?_of_assigned h.joined rfl hne
  have hinit' := autoInitializer?_of_assigned h.parted rfl hne
  rw [Bool.eq_iff_iff, isSome_autoFinding?_iff h.joined.named h.joined.auto hinit
      (h.joined.reads_expression rfl),
    isSome_autoFinding?_iff h.parted.named h.parted.auto hinit' (h.parted.reads_expression rfl),
    h.settings, h.signatures, h.access, h.own]

end Respelled

/-- A declaration by assignment in its two spellings. In both the variable is initialised with the
expression up to its first boundary, and it is bound and judged in the same way. A declaration that
ends after the name, with no assignment to follow, initialises nothing. -/
theorem parted_declaration_equivalent :
    (∀ (c : Configuration) (v : c.VariableIdx) (t : c.TokenIdx) (spelling : Spelling)
        (e : List String) (first : String), spelling.assigns = true →
        c.DeclaresAuto v t spelling e → e.head? = some first → isBoundary first = false →
        c.initializer? v = some ⟨spelling.expressionAt t,
            spelling.expressionAt t + (beforeBoundary e).length⟩ ∧
          c.textsIn ⟨spelling.expressionAt t,
            spelling.expressionAt t + (beforeBoundary e).length⟩ = beforeBoundary e) ∧
      (∀ (x y : Subject) (v : x.VariableIdx) (w : y.VariableIdx) (t : x.TokenIdx)
        (u : y.TokenIdx) (e : List String) (first : String) (partner : Nat → Option Nat),
        x.Respelled y v w t u e partner → e.head? = some first → isBoundary first = false →
        (∀ (aliases aliases' : AliasTable) (a : Annotations x.configuration.extent)
          (b : Annotations y.configuration.extent), a.memory? v = b.memory? w →
          (x.configuration.resolveMemory x.settings aliases a).memory? v =
            (y.configuration.resolveMemory y.settings aliases' b).memory? w) ∧
        (x.autoFinding? v).isSome = (y.autoFinding? w).isSome) ∧
      ∀ (x : Subject) (v : x.VariableIdx) (t : x.TokenIdx),
        (x.configuration.var v).nameToken = .resolved t →
        isBoundary (x.configuration.text t) = false → x.configuration.nextText t = ";" →
        (∀ u : x.TokenIdx, u.val = t.val + 2 → (x.configuration.token u).var ≠ .resolved v) →
        x.configuration.initializer? v = none ∧ x.autoInitializer? v t = none := by
  refine ⟨?_, ?_, ?_⟩
  · intro c v t spelling e first hassigns h hfirst hclear
    have hne := beforeBoundary_ne_nil hfirst hclear
    exact ⟨h.initializer?_eq hassigns hne, (h.reads_expression hassigns).textsIn⟩
  · intro x y v w t u e first partner h hfirst hclear
    have hne := beforeBoundary_ne_nil hfirst hclear
    exact ⟨fun _ _ _ _ hbefore => h.memory?_resolveMemory_same hne hbefore,
      h.isSome_autoFinding?_same hne⟩
  · intro x v t hnamed hname hnext hother
    have hnone := Configuration.initializer?_eq_none hnamed hname hnext hother
    refine ⟨hnone, ?_⟩
    unfold autoInitializer?
    rw [hnone]
    dsimp only
    rw [hnext]
    exact if_neg (by decide)

/-- The arguments of the mirror call go on behind the braces, which end the initialiser. -/
def bracedExpression : List String :=
  ["create_mirror", "(", "f", "\x7b", "\x7d", ",", "CudaSpace", ")"]

def bracedPartner (k : Nat) : Option Nat :=
  if k = 1 then some 7 else if k = 3 then some 4 else if k = 4 then some 3
  else if k = 7 then some 1 else none

def respelledSubject (spelling : Spelling) : Subject :=
  ⟨⟨"a.cpp"⟩, 0, .standard, .empty, .empty,
    Configuration.autoSample ("auto" :: spelling.texts "h" bracedExpression) (fun i =>
      if i < spelling.expressionAt 1 then none
      else (bracedPartner (i - spelling.expressionAt 1)).map (spelling.expressionAt 1 + ·)), .none⟩

def endedSubject : Subject :=
  ⟨⟨"a.cpp"⟩, 0, .standard, .empty, .empty,
    Configuration.autoSample ["auto", "h", ";"] (fun _ => none), .none⟩

def respelledVariable (spelling : Spelling) : (respelledSubject spelling).VariableIdx :=
  ⟨0, Nat.one_pos⟩

theorem one_lt_respelledTokens (spelling : Spelling) :
    1 < (respelledSubject spelling).configuration.extent.tokens := by
  cases spelling with
  | direct form => exact Nat.lt_add_of_pos_left (Nat.succ_pos _)
  | parted => decide

def respelledName (spelling : Spelling) : (respelledSubject spelling).TokenIdx :=
  ⟨1, one_lt_respelledTokens spelling⟩

theorem bracedPartner_inside : ∀ k j, k < bracedExpression.length → bracedPartner k = some j →
    j < bracedExpression.length := by
  have hinside : ∀ k, k < bracedExpression.length → ∀ j ∈ bracedPartner k,
      j < bracedExpression.length := by decide +kernel
  exact fun k j hk hj => hinside k hk j hj

theorem respelledSubject_respelled :
    (respelledSubject (.direct .equals)).Respelled (respelledSubject .parted)
      (respelledVariable (.direct .equals)) (respelledVariable .parted)
      (respelledName (.direct .equals)) (respelledName .parted) bracedExpression bracedPartner where
  settings := rfl
  signatures := rfl
  access := rfl
  own := rfl
  joined :=
    { named := by decide +kernel
      name := by decide +kernel
      auto := by decide +kernel
      spelled := by decide +kernel
      again := fun hparted => by cases hparted }
  parted :=
    { named := by decide +kernel
      name := by decide +kernel
      auto := by decide +kernel
      spelled := by decide +kernel
      again := fun _ => by decide +kernel }
  linked := ⟨bracedPartner_inside, by decide +kernel⟩
  linked_parted := ⟨bracedPartner_inside, by decide +kernel⟩

/-- The mirror is made on the device in both spellings, although the initialiser ends before the
argument that says so. -/
theorem parted_declaration_equivalent_braced :
    (respelledSubject (.direct .equals)).configuration.initializer?
        (respelledVariable (.direct .equals)) = some ⟨3, 6⟩ ∧
      (respelledSubject .parted).configuration.initializer? (respelledVariable .parted) =
        some ⟨5, 8⟩ ∧
      ((respelledSubject (.direct .equals)).configuration.resolveMemory .standard .empty
        .none).memory? (respelledVariable (.direct .equals)) = some ⟨.device, false⟩ ∧
      ((respelledSubject (.direct .equals)).autoFinding?
          (respelledVariable (.direct .equals))).isSome =
        ((respelledSubject .parted).autoFinding? (respelledVariable .parted)).isSome ∧
      endedSubject.configuration.initializer? (⟨0, Nat.one_pos⟩ : Fin 1) = none := by
  obtain ⟨hinit, hsame, hnone⟩ := parted_declaration_equivalent
  have hbound : ((respelledSubject .parted).configuration.resolveMemory .standard .empty
      .none).memory? (respelledVariable .parted) = some ⟨.device, false⟩ := by decide +kernel
  obtain ⟨hmemory, hverdict⟩ := hsame _ _ _ _ _ _ _ "create_mirror" _ respelledSubject_respelled
    rfl (by decide)
  refine ⟨(hinit _ _ _ _ _ "create_mirror" rfl respelledSubject_respelled.joined rfl
      (by decide)).1,
    (hinit _ _ _ _ _ "create_mirror" rfl respelledSubject_respelled.parted rfl (by decide)).1,
    (hmemory .empty .empty .none .none rfl).trans hbound, hverdict, ?_⟩
  exact (hnone endedSubject ⟨0, Nat.one_pos⟩ (1 : Fin 3) (by decide +kernel) (by decide +kernel)
    (by decide +kernel) (by decide +kernel)).1

end Subject

end SpaceAudit
