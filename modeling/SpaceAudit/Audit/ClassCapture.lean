import SpaceAudit.Audit.Subject
import SpaceAudit.Space.Classification

/-! Device code may use the members of a class only where the object itself is on the device: in a
method of the class, or in a lambda that captures the class. -/
namespace SpaceAudit.Subject
variable (x : Subject)

def isClass (s : x.ScopeIdx) : Bool := (x.configuration.scope s).kind.isClassLike

def inDevice (s : x.ScopeIdx) : Bool := x.notes.space? s == some .device

/-- The class that the nearest function at or around a scope is declared in. -/
def declaringClass? (s : x.ScopeIdx) : Option x.ScopeIdx :=
  match (s :: x.configuration.ancestors s).find? fun a =>
      (x.configuration.scope a).kind == .function with
  | none => none
  | some body =>
    match (x.configuration.scope body).function.get? with
    | none => none
    | some f =>
      let owner := (x.configuration.function f).owner
      if x.isClass owner then some owner else x.configuration.enclosingClass? owner

/-- The class whose members the code of a scope means: the one it is written in or, for a method
written elsewhere, the one that declares it. -/
def classOf? (s : x.ScopeIdx) : Option x.ScopeIdx :=
  (x.configuration.enclosingClass? s).orElse fun _ => x.declaringClass? s

def isMethodBody (s : x.ScopeIdx) : Bool :=
  (x.configuration.scope s).kind == .function &&
    (x.configuration.scope s).function.get?.any fun f => x.isClass (x.configuration.function f).owner

def capturesOnOwn (s : x.ScopeIdx) : Bool :=
  match x.notes.exec? s with
  | none => false
  | some info =>
    !info.inherited &&
      (info.marker == .classLambda || (x.configuration.parent? s).any x.isClass ||
        x.isMethodBody s)

def capturesWithin : Nat → x.ScopeIdx → Bool
  | 0, _ => false
  | steps + 1, s =>
    match x.notes.exec? s with
    | none => false
    | some info =>
      if info.inherited then
        match x.configuration.outerOwner? s with
        | some owner => capturesWithin steps owner
        | none => (x.configuration.parent? s).any x.isClass
      else x.capturesOnOwn s

/-- Whether a scope has the class object, by itself or from the scope it inherits from. -/
def capturesClass (s : x.ScopeIdx) : Bool := x.capturesWithin (x.configuration.extent.scopes + 1) s

/-- Whether some token stands for the object as a whole: `this`, an expression of the class type or
a call of one of its methods. -/
def usesObject (cls : x.ScopeIdx) (ts : List x.TokenIdx) : Bool :=
  ts.any fun t =>
    x.configuration.text t == "this" ||
      (x.configuration.token t).valueTypeScope.get? == some cls ||
      (x.configuration.token t).function.get?.any fun f => (x.configuration.function f).owner == cls

/-- The scopes nested in a class and the bodies of its methods written elsewhere. -/
def classMembers (cls : x.ScopeIdx) : List x.ScopeIdx :=
  x.configuration.members cls ++ (x.configuration.functionsOf cls).filterMap x.configuration.bodyOf?

def isConstructorBody (s : x.ScopeIdx) : Bool :=
  (x.configuration.scope s).function.get?.any fun f =>
    (x.configuration.function f).kind.isConstructor

def holdsReference (cls : x.ScopeIdx) : Bool :=
  (x.configuration.scope cls).vars.any fun v => (x.configuration.var v).isReference

def classExecFinding (cls : x.ScopeIdx) : List Finding :=
  match (x.configuration.scope cls).bodyStart.get? with
  | none => []
  | some start =>
    let onDevice := (x.classMembers cls).filter x.inDevice
    if x.isClass cls && x.inMainFile start && !onDevice.isEmpty && x.holdsReference cls &&
        !onDevice.any x.isConstructorBody then
      [x.findingAt start .classExecSpace .error
        ("Class " ++ (x.configuration.scope cls).className ++
          " contains CPU references to objects.")]
    else []

/-- Classes with reference members and device methods that cannot be built on the device. -/
def classExecFindings : Outcome := .ok (x.configuration.scopeIndices.flatMap x.classExecFinding)

def isOwnMemberUse (s cls : x.ScopeIdx) (u : x.TokenIdx × x.VariableIdx) : Bool :=
  x.configuration.execOwnerOfToken? u.1 == some s && !x.isMemberAccess u.1 &&
    !(x.configuration.var u.2).access.isLocal &&
    (x.configuration.var u.2).scope.get? == some cls

def uncapturedFindings (s cls : x.ScopeIdx) (ts : List x.TokenIdx) : List Finding :=
  (x.firstUses ((x.uses ts).filter (x.isOwnMemberUse s cls))).map fun (t, v) =>
    x.findingAt t .classVariableOnDevice .error
      ("Class variable " ++ (x.configuration.var v).name ++
        " used from GPU, but class not captured. Please create a proxy variable.")

/-- Whether a body has use for all of the class: every member, or the object as a whole. -/
def needsClass (cls : x.ScopeIdx) (ts : List x.TokenIdx) : Bool :=
  (x.configuration.scope cls).vars.all ((x.uses ts).map Prod.snd).contains ||
    x.usesObject cls ts

def captureFinding (s : x.ScopeIdx) (start : x.TokenIdx) : Outcome :=
  match x.classOf? s with
  | none =>
    .ok [x.findingAt start .classVariableOnDevice .warning
      "Loop on GPU captures class but does not appear to be in a class."]
  | some cls =>
    if (x.notes.exec? s).any fun info => info.marker == .classLambda then
      match x.configuration.bodyTokens s with
      | .error e => .error e
      | .ok ts =>
        if x.needsClass cls ts then .ok []
        else
          .ok [x.findingAt start .needlessClassCapture .warning
            ("Loop on GPU captures class but not all variables are used. " ++
              "This increases CPU/GPU copies and GPU memory usage unnecessarily. " ++
              "Please prefer proxy variables.")]
    else .ok []

def scopeCaptureFindings (s : x.ScopeIdx) (start : x.TokenIdx) : Outcome :=
  if x.capturesClass s then if x.capturesOnOwn s then x.captureFinding s start else .ok []
  else
    match x.classOf? s with
    | none => .ok []
    | some cls =>
      match x.configuration.bodyTokens s with
      | .error e => .error e
      | .ok ts => .ok (x.uncapturedFindings s cls ts)

/-- Class members used in device code that lacks the class, and captures of the class that are
needless or have no class to capture. -/
def captureFindings : Outcome :=
  Outcome.collect (fun (s, start) => x.scopeCaptureFindings s start)
    (x.auditedScopes.filter fun (s, _) => x.inDevice s)

end SpaceAudit.Subject
