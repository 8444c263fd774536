import SpaceAudit.Call.Arguments
import SpaceAudit.Proofs.Audit.Subject
import SpaceAudit.Proofs.Strict.Text

/-! Strict evaluation of a configuration. Tokens, scopes, functions and variables are looked up by
number, whether the number is a stored reference or was counted out. -/
namespace SpaceAudit

def Ref.index? {n : Nat} (r : Ref n) : Option Nat := r.get?.map Fin.val

namespace Strict
variable (c : Configuration)

section Records

def token (i : Nat) : Strict (Token c.extent) := get c.tokens.toList i
def scope (i : Nat) : Strict (Scope c.extent) := get c.scopes.toList i
def function (i : Nat) : Strict (Function c.extent) := get c.functions.toList i
def var (i : Nat) : Strict (Variable c.extent) := get c.vars.toList i

def text (i : Nat) : Strict String := Token.text <$> token c i

def next (i : Nat) : Option Nat := if i + 1 < c.extent.tokens then some (i + 1) else none

def prev (i : Nat) : Option Nat := if i = 0 then none else some (i - 1)

def textOr : Option Nat → Strict String
  | some i => text c i
  | none => pure ""

def nextText (i : Nat) : Strict String := textOr c (next c i)

def prevText (i : Nat) : Strict String := textOr c (prev i)

@[simp] theorem index?_eq {n : Nat} (r : Ref n) : r.index? = r.get?.map Fin.val := rfl

theorem map_val_eq_some {n : Nat} {o : Option (Fin n)} {i : Fin n} :
    o.map Fin.val = some i.val ↔ o = some i :=
  (Option.map_injective Fin.val_injective).eq_iff' rfl

@[simp] theorem map_val_beq {n : Nat} (o : Option (Fin n)) (i : Fin n) :
    (o.map Fin.val == some i.val) = (o == some i) := by
  rw [Bool.eq_iff_iff, beq_iff_eq, beq_iff_eq, map_val_eq_some]

@[simp] theorem token_val (t : c.TokenIdx) : token c t = pure (c.token t) := get_toList _ _
@[simp] theorem scope_val (s : c.ScopeIdx) : scope c s = pure (c.scope s) := get_toList _ _
@[simp] theorem function_val (f : c.FunctionIdx) : function c f = pure (c.function f) :=
  get_toList _ _
@[simp] theorem var_val (v : c.VariableIdx) : var c v = pure (c.var v) := get_toList _ _

@[simp] theorem text_val (t : c.TokenIdx) : text c t = pure (c.text t) := by
  simp [text, Configuration.text]

@[simp] theorem next_val (t : c.TokenIdx) : next c t = (c.next? t).map Fin.val := by
  unfold next Configuration.next? Configuration.tokenAt?
  split <;> simp_all

@[simp] theorem prev_val (t : c.TokenIdx) : prev t.val = (c.prev? t).map Fin.val := by
  unfold prev Configuration.prev? Configuration.tokenAt?
  have := t.isLt
  split
  · rfl
  · rw [dif_pos (by omega)]
    rfl

theorem textOr_val (t : Option c.TokenIdx) :
    textOr c (t.map Fin.val) = pure ((t.map c.text).getD "") := by
  cases t with
  | none => rfl
  | some t => exact text_val c t

@[simp] theorem nextText_val (t : c.TokenIdx) : nextText c t = pure (c.nextText t) := by
  rw [nextText, next_val, textOr_val, Configuration.nextText]

@[simp] theorem prevText_val (t : c.TokenIdx) : prevText c t = pure (c.prevText t) := by
  rw [prevText, prev_val, textOr_val, Configuration.prevText]

end Records

section Spans

def texts (s : Span) : Strict (List String) := s.positions.mapM (text c)

theorem positions_eq {s : Span} (h : s.stop ≤ c.extent.tokens) :
    s.positions = (c.tokensIn s).map Fin.val := by
  have hin : ∀ i ∈ s.positions, i < c.extent.tokens := by
    intro i hi
    rw [Span.positions, Span.length, List.mem_range'_1] at hi
    omega
  rw [Configuration.tokensIn]
  generalize s.positions = l at hin ⊢
  induction l with
  | nil => rfl
  | cons i l ih =>
    have hi : c.tokenAt? i = some ⟨i, hin i (List.mem_cons_self ..)⟩ := dif_pos _
    rw [List.filterMap_cons_some hi, List.map_cons,
      ← ih fun j hj => hin j (List.mem_cons_of_mem _ hj)]

theorem positions_between (first last : c.TokenIdx) :
    (Span.mk first (last + 1)).positions = (c.tokensBetween first last).map Fin.val :=
  positions_eq c last.isLt

theorem texts_eq {s : Span} (h : s.stop ≤ c.extent.tokens) : texts c s = pure (c.textsIn s) := by
  simp [texts, positions_eq c h, Configuration.textsIn, Function.comp_def]

/-- One past the last boundary before `i`, the number of boundaries before `i` being known. -/
def startBefore (s : Statements) (i : Nat) : Strict Nat :=
  let before := (s.boundaries.takeWhile (· < i)).length
  if before = 0 then pure 0 else (· + 1) <$> get s.boundaries (before - 1)

def prefixOf (i : Nat) : Strict Span := (⟨·, i⟩) <$> startBefore c.statements i

def containing (i : Nat) : Strict Span :=
  (⟨·, c.statements.stopFrom i⟩) <$> startBefore c.statements i

theorem startBefore_eq (s : Statements) (i : Nat) : startBefore s i = pure (s.startBefore i) := by
  have hsplit := s.boundaries.takeWhile_append_dropWhile (p := (· < i))
  unfold startBefore Statements.startBefore
  rcases List.eq_nil_or_concat' (s.boundaries.takeWhile (· < i)) with hw | ⟨first, last, hw⟩
  · rw [hw]
    rfl
  · have hlast := get_append first (last :: s.boundaries.dropWhile (· < i)) (k := 0) rfl
    rw [Nat.add_zero, ← List.singleton_append, ← List.append_assoc, ← hw, hsplit] at hlast
    simp [hw, hlast]

@[simp] theorem prefixOf_eq (i : Nat) : prefixOf c i = pure (c.statements.prefixOf i) := by
  simp [prefixOf, startBefore_eq, Statements.prefixOf]

@[simp] theorem containing_eq (i : Nat) : containing c i = pure (c.statements.containing i) := by
  simp [containing, startBefore_eq, Statements.containing]

theorem mem_boundariesFrom {b i : Nat} {texts : List String}
    (h : b ∈ Statements.boundariesFrom i texts) : b < i + texts.length := by
  induction texts generalizing i with
  | nil => simp [Statements.boundariesFrom] at h
  | cons t texts ih =>
    rw [List.length_cons]
    unfold Statements.boundariesFrom at h
    split at h
    · rcases List.mem_cons.1 h with rfl | h
      · omega
      · have := ih h
        omega
    · have := ih h
      omega

theorem mem_spansFrom {i start : Nat} {texts : List String} (h : start ≤ i) {s : Span}
    (hs : s ∈ Statements.spansFrom (i + texts.length) start (Statements.boundariesFrom i texts)) :
    s.start < s.stop ∧ s.stop ≤ i + texts.length := by
  induction texts generalizing i start with
  | nil =>
    simp only [Statements.boundariesFrom, Statements.spansFrom, List.length_nil] at hs ⊢
    split at hs
    · simp at hs
    · rename_i hne
      rw [List.mem_singleton] at hs
      subst hs
      simp only [beq_iff_eq] at hne
      constructor <;> dsimp only <;> omega
  | cons t texts ih =>
    have hlength : i + (t :: texts).length = i + 1 + texts.length := by
      rw [List.length_cons]
      omega
    rw [hlength] at hs ⊢
    unfold Statements.boundariesFrom at hs
    split at hs
    · unfold Statements.spansFrom at hs
      split at hs
      · exact ih (Nat.le_refl _) hs
      · rename_i hne
        simp only [beq_iff_eq] at hne
        rcases List.mem_cons.1 hs with rfl | hs
        · constructor <;> dsimp only <;> omega
        · exact ih (Nat.le_refl _) hs
    · exact ih (by omega) hs

theorem length_texts : c.texts.length = c.extent.tokens := by simp [Configuration.texts]

theorem stopFrom_le (i : Nat) : c.statements.stopFrom i ≤ c.extent.tokens := by
  unfold Statements.stopFrom
  split
  · exact Nat.le_of_eq (length_texts c)
  · rename_i b rest hb
    have hmem : b ∈ c.statements.boundaries :=
      (List.dropWhile_sublist _).subset (hb ▸ List.mem_cons_self ..)
    have hlt := mem_boundariesFrom hmem
    rw [length_texts] at hlt
    omega

theorem mem_spans {s : Span} (h : s ∈ c.statements.spans) :
    s.start < s.stop ∧ s.stop ≤ c.extent.tokens := by
  have hlength : c.statements.length = 0 + c.texts.length := (Nat.zero_add _).symm
  rw [Statements.spans, hlength] at h
  have hin := mem_spansFrom (Nat.le_refl 0) h
  rwa [Nat.zero_add, length_texts] at hin

end Spans

section Calls

def argumentsFrom (close : Nat) (current : List Nat) (t : Nat) : Strict (List (List Nat)) :=
  if _h : t < close then do
    let tok ← token c t
    if tok.text = "," then return current :: (← argumentsFrom close [] (t + 1))
    else
      match tok.link.index? with
      | some partner =>
        if _hp : t < partner ∧ partner < close then
          argumentsFrom close (current ++ (Span.mk t (partner + 1)).positions) (partner + 1)
        else argumentsFrom close (current ++ [t]) (t + 1)
      | none => argumentsFrom close (current ++ [t]) (t + 1)
  else return [current]
termination_by close - t

def argumentList (call : Nat) : Strict (Option Nat) :=
  match next c call with
  | none => return none
  | some t => do return if (← text c t) = "(" then some t else none

def callArguments (call : Nat) : Strict (Except Missing (List (List Nat))) := do
  match ← argumentList c call with
  | none => return .error (.reference .argumentList (← token c call).id)
  | some opening =>
    match (← token c opening).link.require .closingParenthesis with
    | .error e => return .error e
    | .ok close =>
      match ← argumentsFrom c close [] (opening + 1) with
      | [[]] => return .ok []
      | arguments => return .ok arguments

theorem argumentsFrom_step {close : Nat} (current : List Nat) {t : c.TokenIdx} (h : t < close) :
    argumentsFrom c close current t =
      if c.text t = "," then (current :: ·) <$> argumentsFrom c close [] (t + 1)
      else
        match (c.token t).link.get? with
        | some partner =>
          if t.val < partner.val ∧ partner.val < close then
            argumentsFrom c close (current ++ (c.tokensBetween t partner).map Fin.val) (partner + 1)
          else argumentsFrom c close (current ++ [t.val]) (t + 1)
        | none => argumentsFrom c close (current ++ [t.val]) (t + 1) := by
  rw [argumentsFrom, dif_pos h, token_val, pure_bind, Configuration.text]
  simp only [bind_pure_comp, index?_eq]
  cases (c.token t).link.get? with
  | none => rfl
  | some partner => simp only [Option.map_some, positions_between, dite_eq_ite]

theorem argumentsFrom_val (close : c.TokenIdx) (current : List c.TokenIdx) (t : Nat) :
    argumentsFrom c close (current.map Fin.val) t =
      pure ((c.argumentsFrom close current t).map (List.map Fin.val)) := by
  fun_induction c.argumentsFrom close current t with
  | case1 current t h tok hcomma ih =>
    rw [argumentsFrom_step c _ (t := tok) h, if_pos hcomma]
    rw [List.map_nil] at ih
    simp [tok, ih]
  | case2 current t h tok hcomma partner hpartner hp ih =>
    rw [argumentsFrom_step c _ (t := tok) h, if_neg hcomma, hpartner]
    dsimp only
    rw [if_pos (show tok.val < partner.val ∧ partner.val < close.val from hp), ← List.map_append, ih]
  | case3 current t h tok hcomma partner hpartner hp ih =>
    rw [argumentsFrom_step c _ (t := tok) h, if_neg hcomma, hpartner]
    dsimp only
    rw [if_neg (show ¬ (tok.val < partner.val ∧ partner.val < close.val) from hp), ← ih,
      List.map_append]
    rfl
  | case4 current t h tok hcomma hpartner ih =>
    rw [argumentsFrom_step c _ (t := tok) h, if_neg hcomma, hpartner, ← ih, List.map_append]
    rfl
  | case5 current t h =>
    rw [argumentsFrom, dif_neg h]
    rfl

@[simp] theorem argumentList_val (call : c.TokenIdx) :
    argumentList c call = pure ((c.argumentList? call).map Fin.val) := by
  unfold argumentList Configuration.argumentList?
  rw [next_val]
  cases c.next? call with
  | none => rfl
  | some t =>
    by_cases h : c.text t = "("
    · simp [h, Option.filter]
    · simp [h, Option.filter]

@[simp] theorem callArguments_val (call : c.TokenIdx) :
    callArguments c call = pure ((c.callArguments call).map (List.map (List.map Fin.val))) := by
  unfold callArguments Configuration.callArguments
  rw [argumentList_val, pure_bind]
  cases c.argumentList? call with
  | none => simp [Except.map]
  | some opening =>
    simp only [Option.map_some, token_val, pure_bind]
    cases (c.token opening).link.require .closingParenthesis with
    | error e => rfl
    | ok close =>
      have h := argumentsFrom_val c close [] (opening + 1)
      rw [List.map_nil] at h
      simp only [h, pure_bind]
      rcases c.argumentsFrom close [] (opening + 1) with - | ⟨- | ⟨t, first⟩, - | ⟨second, rest⟩⟩
      all_goals rfl

end Calls

section Declarations

def declarationPrefix (s : Nat) : Strict (Except Missing Span) := do
  match (← scope c s).bodyStart.require .bodyStart with
  | .error e => return .error e
  | .ok t => return .ok (← prefixOf c t)

def bodyTokens (s : Nat) : Strict (Except Missing (List Nat)) := do
  let body ← scope c s
  match body.bodyStart.require .bodyStart with
  | .error e => return .error e
  | .ok first =>
    match body.bodyEnd.require .bodyEnd with
    | .error e => return .error e
    | .ok last => return .ok (Span.mk first (last + 1)).positions

def typeTexts (v : Nat) : Strict (Except Missing (List String)) := do
  let declared ← var c v
  match declared.typeStart.require .typeStart with
  | .error e => return .error e
  | .ok first =>
    match declared.typeEnd.require .typeEnd with
    | .error e => return .error e
    | .ok last => return .ok (← texts c ⟨first, last + 1⟩)

@[simp] theorem declarationPrefix_val (s : c.ScopeIdx) :
    declarationPrefix c s = pure (c.declarationPrefix s) := by
  unfold declarationPrefix Configuration.declarationPrefix
  rw [scope_val, pure_bind]
  cases (c.scope s).bodyStart.require .bodyStart with
  | error e => rfl
  | ok t => simp

@[simp] theorem bodyTokens_val (s : c.ScopeIdx) :
    bodyTokens c s = pure ((c.bodyTokens s).map (List.map Fin.val)) := by
  unfold bodyTokens Configuration.bodyTokens
  rw [scope_val, pure_bind]
  cases (c.scope s).bodyStart.require .bodyStart with
  | error e => rfl
  | ok first =>
    cases (c.scope s).bodyEnd.require .bodyEnd with
    | error e => rfl
    | ok last =>
      simp only [positions_between]
      rfl

@[simp] theorem typeTexts_val (v : c.VariableIdx) : typeTexts c v = pure (c.typeTexts v) := by
  unfold typeTexts Configuration.typeTexts
  rw [var_val, pure_bind]
  cases (c.var v).typeStart.require .typeStart with
  | error e => rfl
  | ok first =>
    cases (c.var v).typeEnd.require .typeEnd with
    | error e => rfl
    | ok last =>
      have h := texts_eq c (s := ⟨first, last + 1⟩) last.isLt
      simp only [h, pure_bind]
      rfl

end Declarations

end Strict

end SpaceAudit
