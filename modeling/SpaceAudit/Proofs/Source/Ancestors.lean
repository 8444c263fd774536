import SpaceAudit.Proofs.Source.ScopeTree

/-! The walks from a scope to its parents stop after a number of steps, for the sake of dumps whose
parents run in a circle. None of them loses an answer by that: what is found is what a walk without a
bound meets first, and a chain of parents that ends is handed out as a whole. -/
namespace SpaceAudit.Configuration
variable {c : Configuration} {s a : c.ScopeIdx}

/-- No scope is met twice on the way up from the parent of `s`. -/
def Acyclic (c : Configuration) (s : c.ScopeIdx) : Prop :=
  ∀ i j a, c.Above (i + 1) s a → c.Above (j + 1) s a → i = j

theorem Above.to_root {i k : Nat} {root : c.ScopeIdx} (h : c.Above i s a)
    (hk : c.Above k s root) (hroot : c.parent? root = none) : i ≤ k ∧ c.Above (k - i) a root := by
  induction h generalizing k with
  | self => exact ⟨Nat.zero_le k, hk⟩
  | @up i s p a hp _ ih =>
    cases hk with
    | self =>
      rw [hp] at hroot
      cases hroot
    | @up k _ q _ hq hk =>
      rw [hp, Option.some.injEq] at hq
      obtain ⟨hle, habove⟩ := ih (hq ▸ hk)
      exact ⟨Nat.succ_le_succ hle, by rwa [Nat.succ_sub_succ]⟩

theorem exists_above_of_not_rooted (h : ¬ c.Rooted s) (n : Nat) : ∃ a, c.Above n s a := by
  induction n generalizing s with
  | zero => exact ⟨s, .self⟩
  | succ n ih =>
    cases hp : c.parent? s with
    | none => exact absurd (.root hp) h
    | some p =>
      obtain ⟨a, ha⟩ := ih fun hrooted => h (.nested hp hrooted)
      exact ⟨a, .up hp ha⟩

theorem exists_above_of_above {n : Nat} (h : c.Above (n + 1) s a) :
    ∃ m < c.extent.scopes, c.Above (m + 1) s a := by
  obtain ⟨p, hp, ha⟩ := above_succ_iff.1 h
  obtain ⟨m, hm, ha⟩ := ha.exists_lt_scopes
  exact ⟨m, hm, .up hp ha⟩

/-- A chain of parents runs in a circle or comes to an end. -/
theorem acyclic_iff_rooted : c.Acyclic s ↔ c.Rooted s := by
  constructor
  · intro h
    by_contra hnot
    obtain ⟨a, ha⟩ := exists_above_of_not_rooted hnot (c.extent.scopes + 1)
    obtain ⟨m, hm, ha'⟩ := exists_above_of_above ha
    exact Nat.ne_of_lt hm (h m _ a ha' ha)
  · intro h i j a hi hj
    obtain ⟨k, root, hk, hroot⟩ := rooted_iff_above.1 h
    obtain ⟨hik, hi⟩ := hi.to_root hk hroot
    obtain ⟨hjk, hj⟩ := hj.to_root hk hroot
    -- From `a` there is one distance to the end.
    have hij := (hi.to_root hj hroot).1
    have hji := (hj.to_root hi hroot).1
    omega

theorem getElem?_ancestors_iff {i : Nat} :
    (c.ancestors s)[i]? = some a ↔ i ≤ c.extent.scopes ∧ c.Above (i + 1) s a := by
  rw [ancestors, above_succ_iff]
  cases hp : c.parent? s with
  | none => simp [chain]
  | some p =>
    rw [getElem?_chain_iff, Nat.lt_succ_iff]
    simp

theorem mem_ancestors_iff : a ∈ c.ancestors s ↔ ∃ n, c.Above (n + 1) s a := by
  simp only [List.mem_iff_getElem?, getElem?_ancestors_iff]
  constructor
  · rintro ⟨n, _, ha⟩
    exact ⟨n, ha⟩
  · rintro ⟨n, ha⟩
    obtain ⟨m, hm, ha⟩ := exists_above_of_above ha
    exact ⟨m, Nat.le_of_lt hm, ha⟩

theorem Acyclic.getElem?_ancestors_iff (h : c.Acyclic s) {i : Nat} :
    (c.ancestors s)[i]? = some a ↔ c.Above (i + 1) s a := by
  rw [Configuration.getElem?_ancestors_iff]
  refine and_iff_right_of_imp fun ha => ?_
  obtain ⟨m, hm, ha'⟩ := exists_above_of_above ha
  rw [h i m a ha ha']
  exact Nat.le_of_lt hm

theorem length_ancestors_of_not_acyclic (h : ¬ c.Acyclic s) :
    (c.ancestors s).length = c.extent.scopes + 1 := by
  rw [acyclic_iff_rooted] at h
  obtain ⟨a, ha⟩ := exists_above_of_not_rooted h (c.extent.scopes + 1)
  obtain ⟨hlast, _⟩ := List.getElem?_eq_some_iff.1
    (getElem?_ancestors_iff.2 ⟨Nat.le_refl _, ha⟩)
  have hend : (c.ancestors s)[c.extent.scopes + 1]? = none := by
    rw [Option.eq_none_iff_forall_ne_some]
    intro b hb
    exact Nat.not_succ_le_self _ (getElem?_ancestors_iff.1 hb).1
  exact Nat.le_antisymm (List.getElem?_eq_none_iff.1 hend) hlast

/-- A walk to the scopes around one: the scope that is next, and how many have been handed out. -/
structure Climb (c : Configuration) where
  current? : Option c.ScopeIdx
  steps : Nat

namespace Climb

def next? (w : Climb c) : Option (c.ScopeIdx × Climb c) :=
  if c.extent.scopes < w.steps then none
  else w.current?.map fun s => (s, ⟨c.parent? s, w.steps + 1⟩)

/-- The walk ends, and this is what it has handed out by then. -/
inductive Yields : Climb c → List c.ScopeIdx → Prop where
  | stop {w : Climb c} (h : w.next? = none) : Yields w []
  | hand {w rest : Climb c} {s : c.ScopeIdx} {l : List c.ScopeIdx} (h : w.next? = some (s, rest))
      (hrest : Yields rest l) : Yields w (s :: l)

/-- Counting the steps up to the bound is counting the ones that are left down to nothing. -/
theorem yields_chain (left : Nat) (w : Climb c) (h : w.steps + left = c.extent.scopes + 1) :
    w.Yields (c.chain left w.current?) := by
  induction left generalizing w with
  | zero => exact .stop (if_pos (by omega))
  | succ left ih =>
    have hgo : ¬ c.extent.scopes < w.steps := by omega
    cases hs : w.current? with
    | none => exact .stop (by rw [next?, if_neg hgo, hs]; rfl)
    | some s =>
      have hnext : w.next? = some (s, ⟨c.parent? s, w.steps + 1⟩) := by
        rw [next?, if_neg hgo, hs]
        rfl
      exact .hand hnext (ih ⟨c.parent? s, w.steps + 1⟩ (by simp only; omega))

end Climb

theorem owner_iff_above {n : Nat} {o : c.ScopeIdx} :
    c.Owner n s o ↔ c.Above n s o ∧ (c.scope o).kind.isExecutable = true ∧
      ∀ m < n, ∀ b, c.Above m s b → (c.scope b).kind.isControlFlow = true := by
  constructor
  · intro h
    induction h with
    | self he => exact ⟨.self, he, fun m hm => absurd hm (Nat.not_lt_zero m)⟩
    | @up n s p o hc hp _ ih =>
      obtain ⟨habove, he, hway⟩ := ih
      refine ⟨.up hp habove, he, fun m hm b hb => ?_⟩
      cases hb with
      | self => exact hc
      | up hq hb =>
        rw [hp, Option.some.injEq] at hq
        exact hway _ (Nat.lt_of_succ_lt_succ hm) b (hq ▸ hb)
  · rintro ⟨habove, he, hway⟩
    induction habove with
    | self => exact .self he
    | @up n s p o hp _ ih =>
      have hc := hway 0 (Nat.succ_pos n) s .self
      exact .up hc hp (ih he fun m hm b hb => hway (m + 1) (Nat.succ_lt_succ hm) b (.up hp hb))

/-- `a` is the first class or struct on the way up from the parent of `s`. -/
def NearestClass (c : Configuration) (s a : c.ScopeIdx) : Prop :=
  ∃ n, c.Above (n + 1) s a ∧ (c.scope a).kind.isClassLike = true ∧
    ∀ m < n, ∀ b, c.Above (m + 1) s b → (c.scope b).kind.isClassLike = false

theorem enclosingClass?_eq_some_iff : c.enclosingClass? s = some a ↔ c.NearestClass s a := by
  rw [enclosingClass?, List.find?_eq_some_iff_getElem]
  constructor
  · rintro ⟨hclass, n, hn, hget, hbefore⟩
    obtain ⟨hbound, ha⟩ := getElem?_ancestors_iff.1 (List.getElem?_eq_some_iff.2 ⟨hn, hget⟩)
    refine ⟨n, ha, hclass, fun m hm b hb => ?_⟩
    have hat := getElem?_ancestors_iff.2 ⟨Nat.le_trans (Nat.le_of_lt hm) hbound, hb⟩
    obtain ⟨_, rfl⟩ := List.getElem?_eq_some_iff.1 hat
    simpa using hbefore m hm
  · rintro ⟨n, ha, hclass, hbefore⟩
    -- What is met again later than `n` is met at `n` for the first time, so `n` is in bounds.
    have hn : n ≤ c.extent.scopes := by
      obtain ⟨m, hm, ha'⟩ := exists_above_of_above ha
      rcases Nat.lt_or_ge m n with hlt | hge
      · rw [hbefore m hlt a ha'] at hclass
        cases hclass
      · omega
    obtain ⟨hlt, hget⟩ := List.getElem?_eq_some_iff.1 (getElem?_ancestors_iff.2 ⟨hn, ha⟩)
    refine ⟨hclass, n, hlt, hget, fun m hm => ?_⟩
    have hat := getElem?_ancestors_iff.1 (List.getElem?_eq_getElem (Nat.lt_trans hm hlt))
    rw [hbefore m hm _ hat.2]
    rfl

theorem enclosingClass?_eq_none_iff : c.enclosingClass? s = none ↔
    ∀ n a, c.Above (n + 1) s a → (c.scope a).kind.isClassLike = false := by
  rw [enclosingClass?, List.find?_eq_none]
  constructor
  · intro h n a ha
    simpa using h a (mem_ancestors_iff.2 ⟨n, ha⟩)
  · intro h a ha
    obtain ⟨n, ha⟩ := mem_ancestors_iff.1 ha
    simp [h n a ha]

/-- What the walks from a scope come to, where `Above` goes up without a bound. -/
structure WalksInFull (c : Configuration) (s : c.ScopeIdx) : Prop where
  /-- The owner is the executable scope that a chain of control-flow bodies leads to. -/
  owner : ∀ o, c.execOwner? s = some o ↔ ∃ n, c.Above n s o ∧
    (c.scope o).kind.isExecutable = true ∧
    ∀ m < n, ∀ b, c.Above m s b → (c.scope b).kind.isControlFlow = true
  enclosing : ∀ a, c.enclosingClass? s = some a ↔ c.NearestClass s a
  notEnclosed : c.enclosingClass? s = none ↔
    ∀ n a, c.Above (n + 1) s a → (c.scope a).kind.isClassLike = false
  /-- Taking one ancestor after the other ends with this list. -/
  yielded : Climb.Yields ⟨c.parent? s, 0⟩ (c.ancestors s)
  /-- A chain without a circle is handed out from the nearest scope to the last. -/
  complete : c.Acyclic s → ∀ i a, (c.ancestors s)[i]? = some a ↔ c.Above (i + 1) s a
  bounded : ¬ c.Acyclic s → (c.ancestors s).length = c.extent.scopes + 1

/-- No walk loses an answer by its bound, whatever the parents of the scopes are. -/
theorem walks_inFull (c : Configuration) (s : c.ScopeIdx) : c.WalksInFull s where
  owner o := by
    rw [execOwner?_eq_some_iff]
    exact exists_congr fun n => owner_iff_above
  enclosing a := enclosingClass?_eq_some_iff
  notEnclosed := enclosingClass?_eq_none_iff
  yielded := Climb.yields_chain _ _ (Nat.zero_add _)
  complete h _ _ := h.getElem?_ancestors_iff
  bounded := length_ancestors_of_not_acyclic

def storeyRef (i : Nat) : Ref 4 := if h : i < 4 then .resolved ⟨i, h⟩ else .absent

/-- Three control-flow bodies around each other and a scope around them all. -/
def storeys (kind : ScopeKind) (outer : Ref 4) : Configuration where
  name := ""
  sections := ⟨false, true, false, false⟩
  extent := ⟨0, 4, 0, 0⟩
  tokens := #v[]
  scopes := #v[⟨"", kind, "", outer, .absent, .absent, .absent, []⟩,
    ⟨"", .whileBody, "", storeyRef 0, .absent, .absent, .absent, []⟩,
    ⟨"", .ifBody, "", storeyRef 1, .absent, .absent, .absent, []⟩,
    ⟨"", .forBody, "", storeyRef 2, .absent, .absent, .absent, []⟩]
  functions := #v[]
  vars := #v[]
  directives := []

/-- The way from the innermost body to the function takes in every scope. Where the outermost scope
is a class that is nested in the innermost body, the class is around itself. -/
theorem walks_inFull_storeys :
    (storeys .function .absent).Acyclic (3 : Fin 4) ∧
      (storeys .function .absent).execOwner? (3 : Fin 4) = some (0 : Fin 4) ∧
      (storeys .function .absent).Above 3 (3 : Fin 4) (0 : Fin 4) ∧
      ¬ (storeys .classScope (storeyRef 3)).Acyclic (0 : Fin 4) ∧
      (storeys .classScope (storeyRef 3)).NearestClass (0 : Fin 4) (0 : Fin 4) ∧
      ((storeys .classScope (storeyRef 3)).ancestors (0 : Fin 4)).length = 5 := by
  have hchain : (storeys .function .absent).Acyclic (3 : Fin 4) :=
    acyclic_iff_rooted.2 (.nested rfl (.nested rfl (.nested rfl (.root rfl))))
  have hring : ¬ (storeys .classScope (storeyRef 3)).Acyclic (0 : Fin 4) := by
    intro h
    have hagain := h 0 4 (3 : Fin 4) (.up rfl .self)
      (.up rfl (.up rfl (.up rfl (.up rfl (.up rfl .self)))))
    omega
  have hin := walks_inFull (storeys .function .absent) (3 : Fin 4)
  have hround := walks_inFull (storeys .classScope (storeyRef 3)) (0 : Fin 4)
  refine ⟨hchain, rfl, ?_, hring, ?_, hround.bounded hring⟩
  · exact (hin.complete hchain 2 (0 : Fin 4)).1 rfl
  · exact (hround.enclosing (0 : Fin 4)).1 rfl

end SpaceAudit.Configuration
