import SpaceAudit.Audit.ClassCapture
import SpaceAudit.Audit.VirtualFunctions
import SpaceAudit.Proofs.Strict.Spaces

/-! Strict evaluation of what all audits share, and of the audits of virtual functions and of
classes. -/
namespace SpaceAudit.Strict

def collect {α : Type} (part : α → Strict Outcome) : List α → Strict Outcome
  | [] => return .ok []
  | a :: l => do
    match ← part a with
    | .error e => return .error e
    | .ok found =>
      match ← collect part l with
      | .error e => return .error e
      | .ok more => return .ok (found ++ more)

theorem collect_of_mem {α : Type} {part : α → Strict Outcome} {outcome : α → Outcome} {l : List α}
    (h : ∀ a ∈ l, part a = pure (outcome a)) :
    collect part l = pure (Outcome.collect outcome l) := by
  induction l with
  | nil => rfl
  | cons a l ih =>
    have hl := ih fun b hb => h b (List.mem_cons_of_mem _ hb)
    simp only [collect, Outcome.collect, h a (List.mem_cons_self ..), hl, pure_bind]
    cases outcome a with
    | error e => rfl
    | ok found => cases Outcome.collect outcome l <;> rfl

theorem collect_map {α β : Type} (f : α → β) {part : β → Strict Outcome} {outcome : α → Outcome}
    {l : List α} (h : ∀ a, part (f a) = pure (outcome a)) :
    collect part (l.map f) = pure (Outcome.collect outcome l) := by
  have hmap : collect part (l.map f) = collect (fun a => part (f a)) l := by
    induction l with
    | nil => rfl
    | cons a l ih => simp only [List.map_cons, collect, ih]
  rw [hmap, collect_of_mem fun a _ => h a]

variable (x : Subject)

section Shared

def inMainFile (t : Nat) : Strict Bool := do
  return (← token x.configuration t).file == x.mainFile

def findingAt (t : Nat) (check : Check) (severity : Severity) (message : String) :
    Strict Finding := do
  let found ← token x.configuration t
  return ⟨severity, check, x.path, found.line, found.column, message, none⟩

def vals {n m : Nat} (p : Fin n × Fin m) : Nat × Nat := (p.1.val, p.2.val)

def auditedScope (s : Nat) : Strict (Option (Nat × Nat)) := do
  match ← exec x.notes s, (← scope x.configuration s).bodyStart.index? with
  | some _, some start => return if ← inMainFile x start then some (s, start) else none
  | _, _ => return none

def auditedScopes : Strict (List (Nat × Nat)) := do
  choose (auditedScope x) (← scopeOrder x.configuration)

def auditedStatements : Strict (List Span) :=
  keep (fun s => inMainFile x s.start) x.configuration.statements.spans

def uses (ts : List Nat) : Strict (List (Nat × Nat)) :=
  choose (fun t => do return (← token x.configuration t).var.index?.map fun v => (t, v)) ts

def firstUses (us : List (Nat × Nat)) : List (Nat × Nat) := us.eraseDupsBy fun a b => a.2 == b.2

def isDefinition (t : Nat) : Bool :=
  x.configuration.functions.toList.any fun f => f.definition.index? == some t

def isMemberAccess (t : Nat) : Strict Bool :=
  holds
    (fun p => do
      let access ← text x.configuration p
      return (access == "." || access == "->") && (← prevText x.configuration p) != "this")
    (prev t)

def statementText (s : Span) : Strict String := do
  return " ".intercalate (← texts x.configuration s)

@[simp] theorem inMainFile_val (t : x.TokenIdx) : inMainFile x t = pure (x.inMainFile t) := by
  simp [inMainFile, Subject.inMainFile]

@[simp] theorem findingAt_val (t : x.TokenIdx) (check : Check) (severity : Severity)
    (message : String) :
    findingAt x t check severity message = pure (x.findingAt t check severity message) := by
  simp [findingAt, Subject.findingAt]

@[simp] theorem auditedScopes_eq : auditedScopes x = pure (x.auditedScopes.map vals) := by
  rw [auditedScopes, scopeOrder_val, pure_bind, choose_map, Subject.auditedScopes,
    List.map_filterMap]
  apply choose_of_mem
  intro s _
  simp only [auditedScope, exec_val, scope_val, pure_bind, index?_eq]
  cases x.notes.exec? s with
  | none => rfl
  | some info =>
    cases (x.configuration.scope s).bodyStart.get? with
    | none => rfl
    | some start =>
      simp only [Option.map_some, inMainFile_val, pure_bind]
      split <;> rfl

theorem auditedStatements_eq : auditedStatements x = pure x.auditedStatements := by
  apply keep_of_mem
  intro s hs
  have hin := mem_spans x.configuration hs
  have hat : x.configuration.tokenAt? s.start = some ⟨s.start, by omega⟩ := dif_pos _
  rw [hat, Option.any_some]
  exact inMainFile_val x ⟨s.start, _⟩

theorem stop_of_mem_auditedStatements {s : Span} (h : s ∈ x.auditedStatements) :
    s.stop ≤ x.configuration.extent.tokens :=
  (mem_spans x.configuration (List.mem_filter.1 h).1).2

theorem uses_map (ts : List x.TokenIdx) :
    uses x (ts.map Fin.val) = pure ((x.uses ts).map vals) := by
  simp only [uses, choose_map, token_val, pure_bind, choose_pure, Subject.uses, List.map_filterMap,
    index?_eq, Option.map_map]
  rfl

theorem firstUses_map (us : List (x.TokenIdx × x.VariableIdx)) :
    firstUses (us.map vals) = (x.firstUses us).map vals := by
  cases us with
  | nil => rfl
  | cons u us =>
    have hlater := firstUses_map (us.filter fun b => decide ((b.2 == u.2) = false))
    have hfilter : ((us.map vals).filter fun b => decide ((b.2 == (vals u).2) = false)) =
        (us.filter fun b => decide ((b.2 == u.2) = false)).map vals := by
      simp only [List.filter_map, Function.comp_def, vals, val_beq]
    rw [firstUses, Subject.firstUses, List.map_cons, List.eraseDupsBy_cons, List.eraseDupsBy_cons,
      List.map_cons, hfilter]
    exact congrArg (vals u :: ·) hlater
termination_by us.length
decreasing_by exact Nat.lt_succ_of_le (List.length_filter_le _ _)

theorem get?_beq_some {n : Nat} (r : Ref n) (i : Fin n) :
    (r.get? == some i) = (r == .resolved i) := by
  rw [Bool.eq_iff_iff, beq_iff_eq, beq_iff_eq, Ref.get?_eq_some_iff]

@[simp] theorem isDefinition_val (t : x.TokenIdx) : isDefinition x t = x.isDefinition t := by
  simp only [isDefinition, Subject.isDefinition, index?_eq, map_val_beq, get?_beq_some]

@[simp] theorem isMemberAccess_val (t : x.TokenIdx) :
    isMemberAccess x t = pure (x.isMemberAccess t) := by
  simp only [isMemberAccess, prev_val, holds_map, text_val, prevText_val, pure_bind, holds_pure,
    Subject.isMemberAccess]
  cases x.configuration.prev? t <;> rfl

theorem statementText_eq {s : Span} (h : s.stop ≤ x.configuration.extent.tokens) :
    statementText x s = pure (x.statementText s) := by
  simp [statementText, texts_eq x.configuration h, Subject.statementText]

end Shared

section Virtual

def isVirtualBody (s : Nat) : Strict Bool := do
  let body ← scope x.configuration s
  return (← space x.notes s) == some .device &&
    (← holds (fun f => do return (← function x.configuration f).isVirtual) body.function.index?)

def virtualFinding (s : Nat) : Strict Outcome := do
  if ← isVirtualBody x s then
    match (← scope x.configuration s).bodyStart.require .virtualBodyStart with
    | .error e => return .error e
    | .ok start =>
      let t := (prev start).getD start
      if ← inMainFile x t then
        return .ok [← findingAt x t .virtualOnDevice .error
          "Virtual functions cannot be reliably called from GPU"]
      else return .ok []
  else return .ok []

def classificationFindings : Strict Outcome :=
  if x.configuration.sections.scopes then
    collect (virtualFinding x) (scopeIndices x.configuration)
  else return .error .scopes

@[simp] theorem isVirtualBody_val (s : x.ScopeIdx) :
    isVirtualBody x s = pure (x.isVirtualBody s) := by
  simp [isVirtualBody, Subject.isVirtualBody]

theorem virtualFinding_val (s : x.ScopeIdx) : virtualFinding x s = pure (x.virtualFinding s) := by
  simp only [virtualFinding, Subject.virtualFinding, isVirtualBody_val, scope_val, pure_bind]
  cases x.isVirtualBody s with
  | false => rfl
  | true =>
    simp only [if_true]
    cases (x.configuration.scope s).bodyStart.require .virtualBodyStart with
    | error e => rfl
    | ok start =>
      simp only [prev_val x.configuration, Option.getD_map, inMainFile_val, findingAt_val,
        pure_bind]
      split <;> rfl

theorem classificationFindings_eq :
    classificationFindings x = pure x.classificationFindings := by
  simp only [classificationFindings, Subject.classificationFindings, scopeIndices_eq,
    collect_map _ (virtualFinding_val x)]
  split <;> rfl

end Virtual

section Classes

def isClass (s : Nat) : Strict Bool := do return (← scope x.configuration s).kind.isClassLike

def inDevice (s : Nat) : Strict Bool := do return (← space x.notes s) == some .device

def declaringClass (s : Nat) : Strict (Option Nat) := do
  let body ← find (fun a => do return (← scope x.configuration a).kind == .function)
    (s :: (← ancestors x.configuration s))
  match body with
  | none => return none
  | some body =>
    match (← scope x.configuration body).function.index? with
    | none => return none
    | some f =>
      let owner := (← function x.configuration f).owner
      if ← isClass x owner then return some owner.val else enclosingClass x.configuration owner

def classOf (s : Nat) : Strict (Option Nat) := do
  match ← enclosingClass x.configuration s with
  | some cls => return some cls
  | none => declaringClass x s

def isMethodBody (s : Nat) : Strict Bool := do
  let body ← scope x.configuration s
  return body.kind == .function &&
    (← holds (fun f => do isClass x (← function x.configuration f).owner) body.function.index?)

def capturesOnOwn (s : Nat) : Strict Bool := do
  match ← exec x.notes s with
  | none => return false
  | some info =>
    let inClass ← holds (isClass x) (← parent x.configuration s)
    let isMethod ← isMethodBody x s
    return !info.inherited && (info.marker == .classLambda || inClass || isMethod)

def capturesWithin : Nat → Nat → Strict Bool
  | 0, _ => return false
  | steps + 1, s => do
    match ← exec x.notes s with
    | none => return false
    | some info =>
      if info.inherited then
        match ← outerOwner x.configuration s with
        | some owner => capturesWithin steps owner
        | none => holds (isClass x) (← parent x.configuration s)
      else capturesOnOwn x s

def capturesClass (s : Nat) : Strict Bool :=
  capturesWithin x (x.configuration.extent.scopes + 1) s

def usesObject (cls : Nat) (ts : List Nat) : Strict Bool :=
  any
    (fun t => do
      let used ← token x.configuration t
      let calls ← holds (fun f => do return (← function x.configuration f).owner.val == cls)
        used.function.index?
      return used.text == "this" || used.valueTypeScope.index? == some cls || calls)
    ts

def classMembers (cls : Nat) : Strict (List Nat) := do
  return (← members x.configuration cls) ++
    (← choose (bodyOf x.configuration) (← functionsOf x.configuration cls))

def isConstructorBody (s : Nat) : Strict Bool := do
  holds (fun f => do return (← function x.configuration f).kind.isConstructor)
    (← scope x.configuration s).function.index?

def holdsReference (cls : Nat) : Strict Bool := do
  any (fun v => do return (← var x.configuration v).isReference)
    ((← scope x.configuration cls).vars.map Fin.val)

def classExecFinding (cls : Nat) : Strict (List Finding) := do
  let body ← scope x.configuration cls
  match body.bodyStart.index? with
  | none => return []
  | some start =>
    let onDevice ← keep (inDevice x) (← classMembers x cls)
    let isBuilt ← any (isConstructorBody x) onDevice
    if (← isClass x cls) && (← inMainFile x start) && !onDevice.isEmpty && (← holdsReference x cls) &&
        !isBuilt then
      return [← findingAt x start .classExecSpace .error
        ("Class " ++ body.className ++ " contains CPU references to objects.")]
    else return []

def classExecFindings : Strict Outcome := do
  return .ok (← gather (classExecFinding x) (scopeIndices x.configuration))

@[simp] theorem isClass_val (s : x.ScopeIdx) : isClass x s = pure (x.isClass s) := by
  simp [isClass, Subject.isClass]

@[simp] theorem inDevice_val (s : x.ScopeIdx) : inDevice x s = pure (x.inDevice s) := by
  simp [inDevice, Subject.inDevice]

theorem keep_inDevice (l : List (x.ScopeIdx × x.TokenIdx)) :
    keep (fun p => inDevice x p.1) (l.map vals) =
      pure ((l.filter fun p => x.inDevice p.1).map vals) := by
  simp [vals]

theorem declaringClass_val (s : x.ScopeIdx) :
    declaringClass x s = pure ((x.declaringClass? s).map Fin.val) := by
  simp only [declaringClass, Subject.declaringClass?, ancestors_val, pure_bind, ← List.map_cons,
    find_map, scope_val, find_pure, map_pure]
  cases (s :: x.configuration.ancestors s).find? fun a =>
      (x.configuration.scope a).kind == .function with
  | none => rfl
  | some body =>
    simp only [Option.map_some, scope_val, pure_bind, index?_eq]
    cases (x.configuration.scope body).function.get? with
    | none => rfl
    | some f =>
      simp only [Option.map_some, function_val, isClass_val, enclosingClass_val, pure_bind]
      split <;> rfl

@[simp] theorem classOf_val (s : x.ScopeIdx) :
    classOf x s = pure ((x.classOf? s).map Fin.val) := by
  simp only [classOf, Subject.classOf?, enclosingClass_val, declaringClass_val, pure_bind]
  cases x.configuration.enclosingClass? s <;> rfl

@[simp] theorem isMethodBody_val (s : x.ScopeIdx) :
    isMethodBody x s = pure (x.isMethodBody s) := by
  simp [isMethodBody, Subject.isMethodBody]

@[simp] theorem capturesOnOwn_val (s : x.ScopeIdx) :
    capturesOnOwn x s = pure (x.capturesOnOwn s) := by
  simp only [capturesOnOwn, Subject.capturesOnOwn, exec_val, pure_bind]
  cases x.notes.exec? s with
  | none => rfl
  | some info => simp

theorem capturesWithin_val (steps : Nat) (s : x.ScopeIdx) :
    capturesWithin x steps s = pure (x.capturesWithin steps s) := by
  induction steps generalizing s with
  | zero => rfl
  | succ steps ih =>
    simp only [capturesWithin, Subject.capturesWithin, exec_val, pure_bind]
    cases x.notes.exec? s with
    | none => rfl
    | some info =>
      simp only [outerOwner_val, parent_val, capturesOnOwn_val, pure_bind, holds_map, isClass_val,
        holds_pure]
      cases info.inherited with
      | false => rfl
      | true =>
        cases x.configuration.outerOwner? s with
        | none => rfl
        | some owner => exact ih owner

@[simp] theorem capturesClass_val (s : x.ScopeIdx) :
    capturesClass x s = pure (x.capturesClass s) := capturesWithin_val x _ s

theorem usesObject_val (cls : x.ScopeIdx) (ts : List x.TokenIdx) :
    usesObject x cls (ts.map Fin.val) = pure (x.usesObject cls ts) := by
  simp [usesObject, Subject.usesObject, Configuration.text]

@[simp] theorem classMembers_val (cls : x.ScopeIdx) :
    classMembers x cls = pure ((x.classMembers cls).map Fin.val) := by
  simp [classMembers, Subject.classMembers, List.map_filterMap]

@[simp] theorem isConstructorBody_val (s : x.ScopeIdx) :
    isConstructorBody x s = pure (x.isConstructorBody s) := by
  simp [isConstructorBody, Subject.isConstructorBody]

@[simp] theorem holdsReference_val (cls : x.ScopeIdx) :
    holdsReference x cls = pure (x.holdsReference cls) := by
  simp [holdsReference, Subject.holdsReference]

theorem classExecFinding_val (cls : x.ScopeIdx) :
    classExecFinding x cls = pure (x.classExecFinding cls) := by
  simp only [classExecFinding, Subject.classExecFinding, scope_val, pure_bind, index?_eq]
  cases (x.configuration.scope cls).bodyStart.get? with
  | none => rfl
  | some start =>
    simp only [Option.map_some, classMembers_val, keep_map, inDevice_val, keep_pure, map_pure,
      any_map, isConstructorBody_val, any_pure, isClass_val, inMainFile_val, holdsReference_val,
      findingAt_val, pure_bind, List.isEmpty_map]
    split <;> rfl

theorem classExecFindings_eq : classExecFindings x = pure x.classExecFindings := by
  have h := gather_of_mem fun s (_ : s ∈ x.configuration.scopeIndices) => classExecFinding_val x s
  rw [classExecFindings, scopeIndices_eq, gather_map, h, pure_bind, Subject.classExecFindings]

end Classes

section Captures

def isOwnMemberUse (s cls : Nat) (u : Nat × Nat) : Strict Bool := do
  let used ← var x.configuration u.2
  let owner ← execOwnerOfToken x.configuration u.1
  return owner == some s && !(← isMemberAccess x u.1) && !used.access.isLocal &&
    used.scope.index? == some cls

def uncapturedFinding (u : Nat × Nat) : Strict Finding := do
  findingAt x u.1 .classVariableOnDevice .error
    ("Class variable " ++ (← var x.configuration u.2).name ++
      " used from GPU, but class not captured. Please create a proxy variable.")

def uncapturedFindings (s cls : Nat) (ts : List Nat) : Strict (List Finding) := do
  (firstUses (← keep (isOwnMemberUse x s cls) (← uses x ts))).mapM (uncapturedFinding x)

def needsClass (cls : Nat) (ts : List Nat) : Strict Bool := do
  let used := (← uses x ts).map Prod.snd
  let declared := (← scope x.configuration cls).vars.map Fin.val
  return declared.all used.contains || (← usesObject x cls ts)

def captureFinding (cls : Option Nat) (s start : Nat) : Strict Outcome := do
  match cls with
  | none =>
    return .ok [← findingAt x start .classVariableOnDevice .warning
      "Loop on GPU captures class but does not appear to be in a class."]
  | some cls =>
    if (← exec x.notes s).any fun info => info.marker == .classLambda then
      match ← bodyTokens x.configuration s with
      | .error e => return .error e
      | .ok ts =>
        if ← needsClass x cls ts then return .ok []
        else
          return .ok [← findingAt x start .needlessClassCapture .warning
            ("Loop on GPU captures class but not all variables are used. " ++
              "This increases CPU/GPU copies and GPU memory usage unnecessarily. " ++
              "Please prefer proxy variables.")]
    else return .ok []

def scopeCaptureFindings (p : Nat × Nat) : Strict Outcome := do
  let cls ← classOf x p.1
  if ← capturesClass x p.1 then
    if ← capturesOnOwn x p.1 then captureFinding x cls p.1 p.2 else return .ok []
  else
    match cls with
    | none => return .ok []
    | some cls =>
      match ← bodyTokens x.configuration p.1 with
      | .error e => return .error e
      | .ok ts => return .ok (← uncapturedFindings x p.1 cls ts)

def captureFindings : Strict Outcome := do
  collect (scopeCaptureFindings x) (← keep (fun p => inDevice x p.1) (← auditedScopes x))

theorem isOwnMemberUse_vals (s cls : x.ScopeIdx) (u : x.TokenIdx × x.VariableIdx) :
    isOwnMemberUse x s cls (vals u) = pure (x.isOwnMemberUse s cls u) := by
  simp [isOwnMemberUse, Subject.isOwnMemberUse, vals]

theorem uncapturedFindings_val (s cls : x.ScopeIdx) (ts : List x.TokenIdx) :
    uncapturedFindings x s cls (ts.map Fin.val) = pure (x.uncapturedFindings s cls ts) := by
  have hfinding (u : x.TokenIdx × x.VariableIdx) : uncapturedFinding x (vals u) =
      pure (x.findingAt u.1 .classVariableOnDevice .error
        ("Class variable " ++ (x.configuration.var u.2).name ++
          " used from GPU, but class not captured. Please create a proxy variable.")) := by
    simp [uncapturedFinding, vals]
  simp only [uncapturedFindings, uses_map, pure_bind, keep_map, isOwnMemberUse_vals, keep_pure,
    map_pure, firstUses_map, List.mapM_map, Function.comp_def, hfinding, List.mapM_pure]
  rfl

theorem contains_map_val {n : Nat} (l : List (Fin n)) (i : Fin n) :
    (l.map Fin.val).contains i.val = l.contains i := by
  rw [List.contains_eq_mem, List.contains_eq_mem, decide_eq_decide]
  exact List.mem_map_of_injective Fin.val_injective

theorem needsClass_val (cls : x.ScopeIdx) (ts : List x.TokenIdx) :
    needsClass x cls (ts.map Fin.val) = pure (x.needsClass cls ts) := by
  have hused : ((x.uses ts).map vals).map Prod.snd = ((x.uses ts).map Prod.snd).map Fin.val := by
    simp [vals, Function.comp_def]
  have hall : ((x.configuration.scope cls).vars.map Fin.val).all
      (((x.uses ts).map Prod.snd).map Fin.val).contains =
      (x.configuration.scope cls).vars.all ((x.uses ts).map Prod.snd).contains := by
    rw [List.all_map]
    exact congrArg _ (funext fun v => contains_map_val _ v)
  simp only [needsClass, Subject.needsClass, uses_map, scope_val, usesObject_val, pure_bind, hused,
    hall]

theorem captureFinding_val (s : x.ScopeIdx) (start : x.TokenIdx) :
    captureFinding x ((x.classOf? s).map Fin.val) s start = pure (x.captureFinding s start) := by
  simp only [captureFinding, Subject.captureFinding]
  cases x.classOf? s with
  | none => simp
  | some cls =>
    simp only [Option.map_some, exec_val, bodyTokens_val, pure_bind]
    split
    · cases x.configuration.bodyTokens s with
      | error e => rfl
      | ok ts =>
        simp only [Except.map, needsClass_val, findingAt_val, pure_bind]
        split <;> rfl
    · rfl

theorem scopeCaptureFindings_vals (p : x.ScopeIdx × x.TokenIdx) :
    scopeCaptureFindings x (vals p) = pure (x.scopeCaptureFindings p.1 p.2) := by
  simp only [scopeCaptureFindings, Subject.scopeCaptureFindings, vals, capturesClass_val,
    capturesOnOwn_val, captureFinding_val, classOf_val, bodyTokens_val, pure_bind]
  cases x.capturesClass p.1 with
  | true =>
    simp only [if_true]
    split <;> rfl
  | false =>
    cases x.classOf? p.1 with
    | none => rfl
    | some cls =>
      cases x.configuration.bodyTokens p.1 with
      | error e => rfl
      | ok ts => simp [Except.map, uncapturedFindings_val]

theorem captureFindings_eq : captureFindings x = pure x.captureFindings := by
  rw [captureFindings, auditedScopes_eq, pure_bind, keep_inDevice, pure_bind,
    collect_map _ (scopeCaptureFindings_vals x)]
  rfl

end Captures

end SpaceAudit.Strict
