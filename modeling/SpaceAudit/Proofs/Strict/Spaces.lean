import SpaceAudit.Proofs.Strict.Scopes
import SpaceAudit.Space.Classification
import SpaceAudit.Space.Resolution

/-! Strict evaluation of what is noted about a configuration: execution spaces, memory spaces and
the return types of functions. -/
namespace SpaceAudit.Strict

section Notes
variable {e : Extent} (a : Annotations e)

def exec (s : Nat) : Strict (Option ExecInfo) := get a.exec.toList s

def space (s : Nat) : Strict (Option ExecSpace) := Option.map ExecInfo.space <$> exec a s

def memory (v : Nat) : Strict (Option Binding) := get a.memory.toList v

def note (s : Nat) (info : ExecInfo) : Strict (Annotations e) := do
  match ← exec a s with
  | some _ => return a
  | none => return { a with exec := ← put a.exec s (some info) }

def bind (v : Nat) (b : Binding) : Strict (Annotations e) := do
  return { a with memory := ← put a.memory v (some b) }

@[simp] theorem exec_val (s : Fin e.scopes) : exec a s = pure (a.exec? s) := get_toList _ _

@[simp] theorem space_val (s : Fin e.scopes) : space a s = pure (a.space? s) := by
  simp [space, Annotations.space?]

@[simp] theorem memory_val (v : Fin e.vars) : memory a v = pure (a.memory? v) := get_toList _ _

@[simp] theorem note_val (s : Fin e.scopes) (info : ExecInfo) :
    note a s info = pure (a.classify s info) := by
  unfold note Annotations.classify
  rw [exec_val, pure_bind]
  cases a.exec? s with
  | none => simp
  | some _ => rfl

@[simp] theorem bind_val (v : Fin e.vars) (b : Binding) : bind a v b = pure (a.bind v b) := by
  simp [bind, Annotations.bind]

end Notes

variable (c : Configuration) (settings : Settings)

section Classification

def ownMarker (s : Nat) : Strict (Option ExecMarker) := do
  match ← declarationPrefix c s with
  | .error _ => return none
  | .ok before => return (← texts c before).findSome? settings.marker?

def outerOwner (s : Nat) : Strict (Option Nat) := do execOwnerOr c (← parent c s)

def outerExec (a : Annotations c.extent) : Option Nat → Strict (Option ExecInfo)
  | none => return none
  | some owner => exec a owner

def execInfo (a : Annotations c.extent) (s : Nat) : Strict ExecInfo := do
  match ← ownMarker c settings s with
  | some marker => return .ofMarker marker
  | none =>
    match ← outerExec c a (← outerOwner c s) with
    | some outer => return outer.passedOn
    | none => return .unmarked

def classifyScope (a : Annotations c.extent) (s : Nat) : Strict (Annotations c.extent) := do
  if (← scope c s).kind.isExecutable then note a s (← execInfo c settings a s) else return a

def classify (a : Annotations c.extent) : Strict (Annotations c.extent) := do
  if c.sections.scopes then (← scopeOrder c).foldlM (classifyScope c settings) a else return a

theorem stop_of_declarationPrefix {s : c.ScopeIdx} {before : Span}
    (h : c.declarationPrefix s = .ok before) : before.stop ≤ c.extent.tokens := by
  unfold Configuration.declarationPrefix at h
  split at h
  · simp at h
  · rename_i t ht
    rw [Except.ok.injEq] at h
    subst h
    exact Nat.le_of_lt t.isLt

@[simp] theorem ownMarker_val (s : c.ScopeIdx) :
    ownMarker c settings s = pure (c.ownMarker? settings s) := by
  unfold ownMarker Configuration.ownMarker?
  rw [declarationPrefix_val, pure_bind]
  cases h : c.declarationPrefix s with
  | error e => rfl
  | ok before => simp [texts_eq c (stop_of_declarationPrefix c h)]

@[simp] theorem outerOwner_val (s : c.ScopeIdx) :
    outerOwner c s = pure ((c.outerOwner? s).map Fin.val) := by
  simp [outerOwner, Configuration.outerOwner?]

@[simp] theorem outerExec_val (a : Annotations c.extent) (s : Option c.ScopeIdx) :
    outerExec c a (s.map Fin.val) = pure (s.bind a.exec?) := by
  cases s with
  | none => rfl
  | some s => exact exec_val a s

@[simp] theorem execInfo_val (a : Annotations c.extent) (s : c.ScopeIdx) :
    execInfo c settings a s = pure (c.execInfo settings a s) := by
  unfold execInfo Configuration.execInfo
  rw [ownMarker_val, pure_bind]
  cases c.ownMarker? settings s with
  | some marker => rfl
  | none =>
    rw [outerOwner_val, pure_bind, outerExec_val, pure_bind]
    cases (c.outerOwner? s).bind a.exec? <;> rfl

theorem classifyScope_val (a : Annotations c.extent) (s : c.ScopeIdx) :
    classifyScope c settings a s = pure (c.classifyScope settings a s) := by
  simp only [classifyScope, Configuration.classifyScope, scope_val, execInfo_val, note_val, pure_bind]
  split <;> rfl

theorem classify_eq (a : Annotations c.extent) :
    classify c settings a = pure (c.classify settings a) := by
  simp only [classify, Configuration.classify, scopeOrder_val, pure_bind, List.foldlM_map,
    classifyScope_val, List.foldlM_pure]
  split <;> rfl

end Classification

section Resolution

def assignedIn (v : Nat) : Strict (Option (Nat × Span)) := do
  match (← var c v).nameToken.index? with
  | none => return none
  | some name =>
    let declaration ← containing c name
    if (← nextText c name) = ";" then
      let t := declaration.stop + 1
      if t < c.extent.tokens then
        if (← token c t).var.index? = some v then return some (t, ← containing c t)
        else return none
      else return none
    else return some (name, declaration)

def initializer (v : Nat) : Strict (Option Span) := do
  match ← assignedIn c v with
  | none => return none
  | some (t, statement) =>
    if (← nextText c t) = "=" ∧ t + 2 < statement.stop then return some ⟨t + 2, statement.stop⟩
    else return none

def mirrorCall (s : Span) : Strict (Option Nat) :=
  find (fun t => do
    return settings.mirrorFunctions.contains (← text c t) && (← nextText c t) == "(") s.positions

def mirrorSpace (call : Nat) : Strict (Except Missing MemorySpace) := do
  match ← callArguments c call with
  | .error e => return .error e
  | .ok arguments =>
    let onDevice ← any (fun t => do return settings.deviceSpaceMarkers.contains (← text c t))
      arguments.flatten
    return .ok (if onDevice then .device else .host)

def autoBinding (v : Nat) : Strict (Option Binding) := do
  match ← initializer c v with
  | none => return none
  | some s =>
    match ← mirrorCall c settings s with
    | none => return none
    | some call =>
      match ← mirrorSpace c settings call with
      | .ok space => return some ⟨space, false⟩
      | .error _ => return none

def binding (aliases : AliasTable) (v : Nat) : Strict (Option Binding) := do
  match ← typeTexts c v with
  | .error _ => return none
  | .ok ["auto"] => autoBinding c settings v
  | .ok texts => return (← spaceOfType settings (← expand aliases texts)).map (⟨·, true⟩)

def resolveMemory (aliases : AliasTable) (a : Annotations c.extent) :
    Strict (Annotations c.extent) :=
  (variableIndices c).foldlM
    (fun a v => do
      match ← binding c settings aliases v with
      | some b => bind a v b
      | none => return a)
    a

@[simp] theorem assignedIn_val (v : c.VariableIdx) :
    assignedIn c v = pure ((c.assignedIn? v).map fun p => (p.1.val, p.2)) := by
  unfold assignedIn Configuration.assignedIn?
  simp only [var_val, pure_bind, index?_eq]
  cases (c.var v).nameToken.get? with
  | none => rfl
  | some name =>
    simp only [Option.map_some, containing_eq, nextText_val, pure_bind]
    by_cases hend : c.nextText name = ";"
    · rw [if_pos hend, if_pos hend]
      by_cases hin : (c.statements.containing name).stop + 1 < c.extent.tokens
      · have hat : c.tokenAt? ((c.statements.containing name).stop + 1) = some ⟨_, hin⟩ := dif_pos hin
        have htoken := token_val c ⟨_, hin⟩
        simp only [if_pos hin, hat, htoken, pure_bind, map_val_eq_some]
        split <;> rfl
      · have hat : c.tokenAt? ((c.statements.containing name).stop + 1) = none := dif_neg hin
        rw [if_neg hin, hat]
        rfl
    · rw [if_neg hend, if_neg hend]
      rfl

@[simp] theorem initializer_val (v : c.VariableIdx) :
    initializer c v = pure (c.initializer? v) := by
  unfold initializer Configuration.initializer?
  rw [assignedIn_val, pure_bind]
  cases c.assignedIn? v with
  | none => rfl
  | some p =>
    simp only [Option.map_some, nextText_val, pure_bind]
    split <;> rfl

theorem stop_of_assignedIn? {v : c.VariableIdx} {t : c.TokenIdx} {s : Span}
    (h : c.assignedIn? v = some (t, s)) : s.stop ≤ c.extent.tokens := by
  have hall : ∀ i, (c.statements.containing i).stop ≤ c.extent.tokens := stopFrom_le c
  unfold Configuration.assignedIn? at h
  grind

theorem initializer?_inside {v : c.VariableIdx} {s : Span} (h : c.initializer? v = some s) :
    s.start < s.stop ∧ s.stop ≤ c.extent.tokens := by
  unfold Configuration.initializer? at h
  cases ha : c.assignedIn? v with
  | none => simp [ha] at h
  | some p =>
    have hstop := stop_of_assignedIn? c ha
    simp only [ha, Option.ite_none_right_eq_some, Option.some.injEq] at h
    obtain ⟨⟨-, hlt⟩, rfl⟩ := h
    exact ⟨hlt, hstop⟩

theorem mirrorCall_eq {s : Span} (h : s.stop ≤ c.extent.tokens) :
    mirrorCall c settings s = pure ((c.mirrorCall? settings s).map Fin.val) := by
  simp [mirrorCall, positions_eq c h, Configuration.mirrorCall?]

@[simp] theorem mirrorSpace_val (call : c.TokenIdx) :
    mirrorSpace c settings call = pure (c.mirrorSpace settings call) := by
  unfold mirrorSpace Configuration.mirrorSpace
  rw [callArguments_val, pure_bind]
  cases c.callArguments call with
  | error e => rfl
  | ok arguments =>
    simp only [Except.map, ← List.map_flatten, any_map, text_val, pure_bind, any_pure]
    split <;> rfl

theorem autoBinding_val (v : c.VariableIdx) :
    autoBinding c settings v = pure (c.autoBinding? settings v) := by
  unfold autoBinding Configuration.autoBinding?
  rw [initializer_val, pure_bind]
  cases h : c.initializer? v with
  | none => rfl
  | some s =>
    simp only [mirrorCall_eq c settings (initializer?_inside c h).2, pure_bind, Option.bind_some]
    cases c.mirrorCall? settings s with
    | none => rfl
    | some call =>
      simp only [Option.map_some, mirrorSpace_val, pure_bind]
      cases c.mirrorSpace settings call <;> rfl

theorem binding_val (aliases : AliasTable) (v : c.VariableIdx) :
    binding c settings aliases v = pure (c.binding? settings aliases v) := by
  unfold binding Configuration.binding?
  rw [typeTexts_val, pure_bind]
  cases c.typeTexts v with
  | error e => rfl
  | ok texts =>
    by_cases h : texts = ["auto"]
    · subst h
      exact autoBinding_val c settings v
    · simp [spaceOfType_eq]

theorem resolveMemory_eq (aliases : AliasTable) (a : Annotations c.extent) :
    resolveMemory c settings aliases a = pure (c.resolveMemory settings aliases a) := by
  rw [resolveMemory, Configuration.resolveMemory, variableIndices_eq, List.foldlM_map,
    ← List.foldlM_pure]
  congr 1
  funext a v
  rw [binding_val, pure_bind]
  cases c.binding? settings aliases v with
  | none => rfl
  | some b => exact bind_val a v b

end Resolution

section Signatures

def returnType (name : Nat) : Strict (List String) := do
  dropQualified (← texts c (← prefixOf c name))

def signature (aliases : AliasTable) (isOwning : String → Bool) (f : Nat) : Strict Signatures := do
  let declared ← function c f
  match declared.definition.index? with
  | none => return .empty
  | some name =>
    let texts ← returnType c name
    if texts.getLast? = some "auto" then return ⟨[], [declared.name]⟩
    else if isOwning (" ".intercalate (← expand aliases texts)) then return ⟨[declared.name], []⟩
    else return .empty

def signatures (aliases : AliasTable) (isOwning : String → Bool) : Strict Signatures :=
  (functionIndices c).foldlM (fun s f => do return s.append (← signature c aliases isOwning f)) .empty

@[simp] theorem returnType_val (name : c.TokenIdx) :
    returnType c name = pure (c.returnType name) := by
  have hstop : (c.statements.prefixOf name).stop ≤ c.extent.tokens := Nat.le_of_lt name.isLt
  have h := dropQualified_reverse (c.textsIn (c.statements.prefixOf name)).reverse
  rw [List.reverse_reverse] at h
  rw [returnType, prefixOf_eq, pure_bind, texts_eq c hstop, pure_bind, h, Configuration.returnType]

theorem signature_val (aliases : AliasTable) (isOwning : String → Bool) (f : c.FunctionIdx) :
    signature c aliases isOwning f = pure (c.signature aliases isOwning f) := by
  unfold signature Configuration.signature
  simp only [function_val, pure_bind, index?_eq]
  cases (c.function f).definition.get? with
  | none => rfl
  | some name =>
    simp only [Option.map_some, returnType_val, expand_eq, pure_bind]
    split_ifs <;> rfl

@[simp] theorem signatures_eq (aliases : AliasTable) (isOwning : String → Bool) :
    signatures c aliases isOwning = pure (c.signatures aliases isOwning) := by
  simp only [signatures, Configuration.signatures, functionIndices_eq, List.foldlM_map,
    signature_val, pure_bind, List.foldlM_pure]

end Signatures

end SpaceAudit.Strict
