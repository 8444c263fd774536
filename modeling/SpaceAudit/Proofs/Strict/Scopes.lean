import SpaceAudit.Proofs.Strict.Stream

/-! Strict evaluation of the walks over scopes. The order of scopes is a list that is read while it
grows, beside a mark for every scope that is on it already. -/
namespace SpaceAudit.Strict
variable (c : Configuration)

section Indices

def scopeIndices : List Nat := List.range c.extent.scopes
def functionIndices : List Nat := List.range c.extent.functions
def variableIndices : List Nat := List.range c.extent.vars
def tokenIndices : List Nat := List.range c.extent.tokens

theorem range_eq (n : Nat) : List.range n = (List.finRange n).map Fin.val := by
  apply List.ext_getElem <;> simp

@[simp] theorem scopeIndices_eq : scopeIndices c = c.scopeIndices.map Fin.val := range_eq _
@[simp] theorem functionIndices_eq : functionIndices c = c.functionIndices.map Fin.val := range_eq _
@[simp] theorem variableIndices_eq : variableIndices c = c.variableIndices.map Fin.val := range_eq _
@[simp] theorem tokenIndices_eq : tokenIndices c = c.tokenIndices.map Fin.val := range_eq _

@[simp] theorem val_beq {n : Nat} (i j : Fin n) : (i.val == j.val) = (i == j) := by
  rw [Bool.eq_iff_iff]
  simp [Fin.ext_iff]

@[simp] theorem val_bne {n : Nat} (i j : Fin n) : (i.val != j.val) = (i != j) := by
  simp [bne]

end Indices

section Parents

def parent (s : Nat) : Strict (Option Nat) := do return (← scope c s).parent.index?

def members (s : Nat) : Strict (List Nat) := do
  return (← get c.tables.members.toList s).map Fin.val

def functionsOf (s : Nat) : Strict (List Nat) := do
  return (← get c.tables.functions.toList s).map Fin.val

def scopeOpenedAt (t : Nat) : Strict (Option Nat) := do
  return (← get c.tables.opened.toList t).map Fin.val

def bodyOf (f : Nat) : Strict (Option Nat) := do
  return (← get c.tables.bodies.toList f).map Fin.val

@[simp] theorem parent_val (s : c.ScopeIdx) : parent c s = pure ((c.parent? s).map Fin.val) := by
  simp [parent, Configuration.parent?]

@[simp] theorem members_val (s : c.ScopeIdx) :
    members c s = pure ((c.members s).map Fin.val) := by
  rw [members, get_toList]
  rfl

@[simp] theorem functionsOf_val (s : c.ScopeIdx) :
    functionsOf c s = pure ((c.functionsOf s).map Fin.val) := by
  rw [functionsOf, get_toList]
  rfl

@[simp] theorem scopeOpenedAt_val (t : c.TokenIdx) :
    scopeOpenedAt c t = pure ((c.scopeOpenedAt? t).map Fin.val) := by
  rw [scopeOpenedAt, get_toList]
  rfl

@[simp] theorem bodyOf_val (f : c.FunctionIdx) :
    bodyOf c f = pure ((c.bodyOf? f).map Fin.val) := by
  rw [bodyOf, get_toList]
  rfl

end Parents

section Chains

def chain : Nat → Option Nat → Strict (List Nat)
  | 0, _ => return []
  | _, none => return []
  | steps + 1, some s => do return s :: (← chain steps (← parent c s))

def ancestors (s : Nat) : Strict (List Nat) := do chain c (c.extent.scopes + 1) (← parent c s)

def ownerWithin : Nat → Nat → Strict (Option Nat)
  | 0, _ => return none
  | steps + 1, s => do
    let body ← scope c s
    if body.kind.isExecutable then return some s
    else if body.kind.isControlFlow then
      match body.parent.index? with
      | none => return none
      | some p => ownerWithin steps p
    else return none

def execOwner (s : Nat) : Strict (Option Nat) := ownerWithin c (c.extent.scopes + 1) s

def execOwnerOr : Option Nat → Strict (Option Nat)
  | none => return none
  | some s => execOwner c s

def execOwnerOfToken (t : Nat) : Strict (Option Nat) := do
  execOwnerOr c (← token c t).scope.index?

def enclosingClass (s : Nat) : Strict (Option Nat) := do
  find (fun a => do return (← scope c a).kind.isClassLike) (← ancestors c s)

theorem chain_val (steps : Nat) (s : Option c.ScopeIdx) :
    chain c steps (s.map Fin.val) = pure ((c.chain steps s).map Fin.val) := by
  induction steps generalizing s with
  | zero => rfl
  | succ steps ih =>
    cases s with
    | none => rfl
    | some s => simp [chain, Configuration.chain, ih]

@[simp] theorem ancestors_val (s : c.ScopeIdx) :
    ancestors c s = pure ((c.ancestors s).map Fin.val) := by
  simp [ancestors, Configuration.ancestors, chain_val]

theorem ownerWithin_val (steps : Nat) (s : c.ScopeIdx) :
    ownerWithin c steps s = pure ((c.ownerWithin steps s).map Fin.val) := by
  induction steps generalizing s with
  | zero => rfl
  | succ steps ih =>
    simp only [ownerWithin, Configuration.ownerWithin, scope_val, pure_bind, index?_eq,
      Configuration.parent?]
    split_ifs with he hc
    · rfl
    · cases (c.scope s).parent.get? with
      | none => rfl
      | some p => exact ih p
    · rfl

@[simp] theorem execOwner_val (s : c.ScopeIdx) :
    execOwner c s = pure ((c.execOwner? s).map Fin.val) := ownerWithin_val c _ s

@[simp] theorem execOwnerOr_val (s : Option c.ScopeIdx) :
    execOwnerOr c (s.map Fin.val) = pure ((s.bind c.execOwner?).map Fin.val) := by
  cases s with
  | none => rfl
  | some s => exact execOwner_val c s

@[simp] theorem execOwnerOfToken_val (t : c.TokenIdx) :
    execOwnerOfToken c t = pure ((c.execOwnerOfToken? t).map Fin.val) := by
  simp [execOwnerOfToken, Configuration.execOwnerOfToken?]

@[simp] theorem enclosingClass_val (s : c.ScopeIdx) :
    enclosingClass c s = pure ((c.enclosingClass? s).map Fin.val) := by
  simp [enclosingClass, Configuration.enclosingClass?]

end Chains

section Order

/-- The order so far, and which scopes are on it. -/
structure Queue where
  order : List Nat
  seen : Vector Bool c.extent.scopes

variable {c} in
def Queue.add (q : Queue c) (s : Nat) : Strict (Queue c) := do
  if ← get q.seen.toList s then return q
  else return ⟨q.order ++ [s], ← put q.seen s true⟩

/-- Goes on at position `head` of the order, which grows on the way. -/
def visit : Nat → Nat → Queue c → Strict (List Nat)
  | 0, _, q => return q.order
  | steps + 1, head, q =>
    if head < q.order.length then do
      let s ← get q.order head
      visit steps (head + 1) (← (← members c s).foldlM Queue.add q)
    else return q.order

def scopeOrder : Strict (List Nat) := do
  let roots ← keep (fun s => do return (← parent c s).isNone) (scopeIndices c)
  let seen ← roots.foldlM (fun seen s => put seen s true) (Vector.replicate _ false)
  visit c c.extent.scopes 0 ⟨roots, seen⟩

def marks (l : List c.ScopeIdx) : Vector Bool c.extent.scopes := .ofFn fun s => l.contains s

def Queue.of (l : List c.ScopeIdx) : Queue c := ⟨l.map Fin.val, marks c l⟩

theorem put_marks (l : List c.ScopeIdx) (s : c.ScopeIdx) :
    put (marks c l) s true = pure (marks c (l ++ [s])) := by
  rw [put_val]
  congr 1
  ext i hi
  by_cases h : s.val = i
  · have hs : s = ⟨i, hi⟩ := Fin.ext h
    simp [marks, hs]
  · have hs : (⟨i, hi⟩ : c.ScopeIdx) ≠ s := fun he => h (congrArg Fin.val he).symm
    simp [marks, h, hs]

theorem foldlM_marks (l l' : List c.ScopeIdx) :
    (l'.map Fin.val).foldlM (fun seen s => put seen s true) (marks c l) =
      pure (marks c (l ++ l')) := by
  induction l' generalizing l with
  | nil => simp
  | cons s l' ih =>
    rw [List.map_cons, List.foldlM_cons, put_marks, pure_bind, ih, List.append_assoc,
      List.singleton_append]

theorem Queue.add_of (l : List c.ScopeIdx) (s : c.ScopeIdx) :
    (Queue.of c l).add s = pure (if l.contains s then Queue.of c l else Queue.of c (l ++ [s])) := by
  have hseen : get (Queue.of c l).seen.toList s = pure (l.contains s) := by
    simp [Queue.of, marks]
  have hput : put (Queue.of c l).seen s true = pure (marks c (l ++ [s])) := put_marks c l s
  rw [Queue.add, hseen, hput, pure_bind, pure_bind]
  split
  · rfl
  · simp [Queue.of]

theorem foldlM_add {l ms : List c.ScopeIdx} (h : ms.Nodup) :
    (ms.map Fin.val).foldlM Queue.add (Queue.of c l) =
      pure (Queue.of c (l ++ ms.filter fun m => !l.contains m)) := by
  induction ms generalizing l with
  | nil => simp
  | cons m ms ih =>
    obtain ⟨hm, hms⟩ := List.nodup_cons.1 h
    rw [List.map_cons, List.foldlM_cons, Queue.add_of, pure_bind]
    by_cases hmem : m ∈ l
    · rw [if_pos (by simpa using hmem), ih hms, List.filter_cons_of_neg (by simpa using hmem)]
    · have hrest : (ms.filter fun x => !(l ++ [m]).contains x) =
          ms.filter fun x => !l.contains x := by
        apply List.filter_congr
        intro x hx
        have hne : x ≠ m := fun hxm => hm (hxm ▸ hx)
        simp [hne]
      rw [if_neg (by simpa using hmem), ih hms, hrest,
        List.filter_cons_of_pos (by simpa using hmem), List.append_assoc, List.singleton_append]

theorem visit_val {done queue : List c.ScopeIdx} (steps : Nat) (h : c.Frontier done queue)
    (hs : c.extent.scopes ≤ steps + done.length) :
    visit c steps done.length (Queue.of c (done ++ queue)) =
      pure ((done ++ c.visit steps (done ++ queue) queue).map Fin.val) := by
  induction steps generalizing done queue with
  | zero =>
    have hlen := Configuration.length_le_scopes h.nodup
    rw [List.length_append] at hlen
    have hq : queue = [] := List.eq_nil_of_length_eq_zero (by omega)
    rw [hq]
    rfl
  | succ steps ih =>
    cases queue with
    | nil => simp [visit, Queue.of, Configuration.visit]
    | cons s queue =>
      have hhead : get (Queue.of c (done ++ s :: queue)).order done.length = pure s.val := by
        apply get_eq
        simp [Queue.of]
      have hlater := ih h.step (by simp only [List.length_append, List.length_singleton]; omega)
      simp only [List.append_assoc, List.singleton_append, List.length_append,
        List.length_singleton] at hlater
      rw [visit, if_pos (by simp [Queue.of]), hhead, pure_bind, members_val, pure_bind,
        foldlM_add c (Configuration.members_nodup s), pure_bind, List.append_assoc,
        List.cons_append, hlater, Configuration.visit]
      simp

@[simp] theorem scopeOrder_val : scopeOrder c = pure (c.scopeOrder.map Fin.val) := by
  have hroots : keep (fun s => do return (← parent c s).isNone) (scopeIndices c) =
      pure (c.roots.map Fin.val) := by
    simp [Configuration.roots]
  have hnone : Vector.replicate c.extent.scopes false = marks c [] := by
    ext i hi
    simp [marks]
  have hvisit := visit_val c c.extent.scopes Configuration.Frontier.start (by simp)
  rw [scopeOrder, hroots, pure_bind, hnone, foldlM_marks, pure_bind]
  exact hvisit

end Order

end SpaceAudit.Strict
