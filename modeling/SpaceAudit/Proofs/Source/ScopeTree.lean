import Mathlib.Data.Fintype.Pigeonhole
import SpaceAudit.Proofs.Source.Tables

/-! What the walks over scopes come to on every graph of parents. The order of scopes holds those
whose chain of parents ends, each once and after its parent, and the bound on the walk to the
owner and to the ancestors never cuts one off. -/
namespace SpaceAudit.Configuration
variable {c : Configuration}

/-- The chain of parents from a scope ends in a scope without a parent. -/
inductive Rooted (c : Configuration) : c.ScopeIdx → Prop where
  | root {s : c.ScopeIdx} (h : c.parent? s = none) : Rooted c s
  | nested {s p : c.ScopeIdx} (h : c.parent? s = some p) (hp : Rooted c p) : Rooted c s

/-- Whatever stands in the list has its parent further to the front. -/
def ParentsFirst (c : Configuration) (l : List c.ScopeIdx) : Prop :=
  ∀ k s, l[k]? = some s → ∀ p, c.parent? s = some p → p ∈ l.take k

theorem mem_members {s m : c.ScopeIdx} : m ∈ c.members s ↔ c.parent? m = some s ∧ m ≠ s := by
  simp [members_eq, scopeIndices, List.mem_finRange]

theorem mem_roots {s : c.ScopeIdx} : s ∈ c.roots ↔ c.parent? s = none := by
  simp [roots, scopeIndices, List.mem_finRange]

theorem members_nodup (s : c.ScopeIdx) : (c.members s).Nodup := by
  rw [members_eq]
  exact (List.nodup_finRange _).filter _

theorem roots_nodup : c.roots.Nodup := (List.nodup_finRange _).filter _

theorem length_le_scopes {l : List c.ScopeIdx} (h : l.Nodup) : l.length ≤ c.extent.scopes := by
  simpa using h.length_le_card

theorem ParentsFirst.append {l l' : List c.ScopeIdx} (h : c.ParentsFirst l)
    (h' : ∀ m ∈ l', ∀ p, c.parent? m = some p → p ∈ l) : c.ParentsFirst (l ++ l') := by
  intro k s hs p hp
  by_cases hk : k < l.length
  · rw [List.getElem?_append_left hk] at hs
    rw [List.take_append_of_le_length (Nat.le_of_lt hk)]
    exact h k s hs p hp
  · rw [List.getElem?_append_right (Nat.le_of_not_lt hk)] at hs
    have hm : s ∈ l' := List.mem_of_getElem? hs
    rw [List.take_append, List.take_of_length_le (Nat.le_of_not_lt hk)]
    exact List.mem_append_left _ (h' s hm p hp)

theorem ParentsFirst.of_append {l l' : List c.ScopeIdx} (h : c.ParentsFirst (l ++ l')) :
    c.ParentsFirst l := by
  intro k s hs p hp
  obtain ⟨hk, _⟩ := List.getElem?_eq_some_iff.1 hs
  have h' := h k s (by rwa [List.getElem?_append_left hk]) p hp
  rwa [List.take_append_of_le_length (Nat.le_of_lt hk)] at h'

theorem ParentsFirst.parent_of_last {l : List c.ScopeIdx} {s p : c.ScopeIdx}
    (h : c.ParentsFirst (l ++ [s])) (hp : c.parent? s = some p) : p ∈ l := by
  have h' := h l.length s (by simp) p hp
  rwa [List.take_left] at h'

theorem ParentsFirst.parent_mem {l : List c.ScopeIdx} {s p : c.ScopeIdx} (h : c.ParentsFirst l)
    (hs : s ∈ l) (hp : c.parent? s = some p) : p ∈ l := by
  obtain ⟨k, hk⟩ := List.mem_iff_getElem?.1 hs
  exact List.mem_of_mem_take (h k s hk p hp)

theorem ParentsFirst.rooted {l : List c.ScopeIdx} (h : c.ParentsFirst l) {s : c.ScopeIdx}
    (hs : s ∈ l) : c.Rooted s := by
  obtain ⟨k, hk⟩ := List.mem_iff_getElem?.1 hs
  -- The parent stands at a smaller position, so the position is what the chain runs down on.
  induction k using Nat.strongRecOn generalizing s with
  | ind k ih =>
    cases hp : c.parent? s with
    | none => exact .root hp
    | some p =>
      obtain ⟨j, hj⟩ := List.mem_iff_getElem?.1 (h k s hk p hp)
      rw [List.getElem?_take] at hj
      split at hj
      · rename_i hjk
        exact .nested hp (ih j hjk (List.mem_of_getElem? hj) hj)
      · simp at hj

/-- How far the walk over the scopes has come: `done` is visited, and `queue` is seen but not yet
visited. -/
structure Frontier (c : Configuration) (done queue : List c.ScopeIdx) : Prop where
  nodup : (done ++ queue).Nodup
  roots : ∀ s ∈ c.roots, s ∈ done ++ queue
  closed : ∀ s ∈ done, ∀ m ∈ c.members s, m ∈ done ++ queue
  ordered : c.ParentsFirst (done ++ queue)

theorem Frontier.start : c.Frontier [] c.roots where
  nodup := roots_nodup
  roots s hs := hs
  closed s hs := by simp at hs
  ordered k s hs p hp := by
    have hr := mem_roots.1 (List.mem_of_getElem? hs)
    simp [hr] at hp

theorem Frontier.step {done queue : List c.ScopeIdx} {s : c.ScopeIdx}
    (h : c.Frontier done (s :: queue)) :
    c.Frontier (done ++ [s])
      (queue ++ (c.members s).filter fun m => !(done ++ s :: queue).contains m) := by
  have hl (l : List c.ScopeIdx) : (done ++ [s]) ++ (queue ++ l) = (done ++ s :: queue) ++ l := by
    simp
  refine ⟨?_, ?_, ?_, ?_⟩
  · rw [hl]
    refine List.Nodup.append h.nodup ((members_nodup s).filter _) ?_
    intro m hm hf
    simp only [List.mem_filter, Bool.not_eq_true', List.contains_eq_mem, decide_eq_false_iff_not]
      at hf
    exact hf.2 hm
  · intro r hr
    rw [hl]
    exact List.mem_append_left _ (h.roots r hr)
  · intro x hx m hm
    rw [hl]
    rcases List.mem_append.1 hx with hx | hx
    · exact List.mem_append_left _ (h.closed x hx m hm)
    · obtain rfl := List.mem_singleton.1 hx
      by_cases hseen : m ∈ done ++ x :: queue
      · exact List.mem_append_left _ hseen
      · exact List.mem_append_right _ (List.mem_filter.2 ⟨hm, by simpa using hseen⟩)
  · rw [hl]
    refine h.ordered.append ?_
    intro m hm p hp
    have hs := (mem_members.1 (List.mem_filter.1 hm).1).1
    rw [hs] at hp
    obtain rfl := Option.some.inj hp
    simp

/-- Once there are as many steps left as scopes not visited, the walk leaves nothing queued. -/
theorem Frontier.visit {done queue : List c.ScopeIdx} (steps : Nat) (h : c.Frontier done queue)
    (hs : c.extent.scopes ≤ steps + done.length) :
    c.Frontier (done ++ c.visit steps (done ++ queue) queue) [] := by
  induction steps generalizing done queue with
  | zero =>
    have hlen := length_le_scopes h.nodup
    rw [List.length_append] at hlen
    have hq : queue = [] := List.eq_nil_of_length_eq_zero (by omega)
    subst hq
    simpa [Configuration.visit] using h
  | succ steps ih =>
    cases queue with
    | nil => simpa [Configuration.visit] using h
    | cons s queue =>
      have h' := ih h.step (by simp only [List.length_append, List.length_singleton]; omega)
      simpa [Configuration.visit] using h'

theorem scopeOrder_frontier : c.Frontier c.scopeOrder [] := by
  simpa [scopeOrder] using Frontier.start.visit c.extent.scopes (by simp)

theorem scopeOrder_nodup : c.scopeOrder.Nodup := by simpa using scopeOrder_frontier.nodup

theorem scopeOrder_parentsFirst : c.ParentsFirst c.scopeOrder := by
  simpa using scopeOrder_frontier.ordered

theorem Rooted.mem_scopeOrder {s : c.ScopeIdx} (h : c.Rooted s) : s ∈ c.scopeOrder := by
  induction h with
  | root h => simpa using scopeOrder_frontier.roots _ (mem_roots.2 h)
  | @nested s p h _ ih =>
    by_cases hsp : s = p
    · rwa [hsp]
    · simpa using scopeOrder_frontier.closed p ih s (mem_members.2 ⟨h, hsp⟩)

theorem mem_scopeOrder_iff {s : c.ScopeIdx} : s ∈ c.scopeOrder ↔ c.Rooted s :=
  ⟨scopeOrder_parentsFirst.rooted, Rooted.mem_scopeOrder⟩

/-- `o` is the executable scope that `s` belongs to, `n` parents up. All scopes on the way are
control-flow bodies. -/
inductive Owner (c : Configuration) : Nat → c.ScopeIdx → c.ScopeIdx → Prop where
  | self {s : c.ScopeIdx} (h : (c.scope s).kind.isExecutable = true) : Owner c 0 s s
  | up {n : Nat} {s p o : c.ScopeIdx} (h : (c.scope s).kind.isControlFlow = true)
      (hp : c.parent? s = some p) (ho : Owner c n p o) : Owner c (n + 1) s o

theorem isExecutable_eq_false {k : ScopeKind} (h : k.isControlFlow = true) :
    k.isExecutable = false := by
  cases k <;> simp_all [ScopeKind.isControlFlow, ScopeKind.isExecutable]

theorem Owner.isExecutable {n : Nat} {s o : c.ScopeIdx} (h : c.Owner n s o) :
    (c.scope o).kind.isExecutable = true := by
  induction h with
  | self h => exact h
  | up _ _ _ ih => exact ih

theorem Owner.unique {n m : Nat} {s o o' : c.ScopeIdx} (h : c.Owner n s o) (h' : c.Owner m s o') :
    n = m ∧ o = o' := by
  induction h generalizing m with
  | self he =>
    cases h' with
    | self => exact ⟨rfl, rfl⟩
    | up hc => simp [isExecutable_eq_false hc] at he
  | up hc hp _ ih =>
    cases h' with
    | self he => simp [isExecutable_eq_false hc] at he
    | up _ hq ho =>
      rw [hp] at hq
      obtain rfl := Option.some.inj hq
      obtain ⟨rfl, rfl⟩ := ih ho
      exact ⟨rfl, rfl⟩

theorem Owner.exists_at {n i : Nat} {s o : c.ScopeIdx} (h : c.Owner n s o) (hi : i ≤ n) :
    ∃ x, c.Owner i x o := by
  induction h with
  | @self s he =>
    obtain rfl : i = 0 := Nat.le_zero.1 hi
    exact ⟨s, .self he⟩
  | @up n s p o hc hp ho ih =>
    rcases Nat.lt_or_ge n i with hlt | hge
    · obtain rfl : i = n + 1 := by omega
      exact ⟨s, .up hc hp ho⟩
    · exact ih hge

/-- Scopes at different distances from the owner are different, so the walk is shorter than the
list of scopes, also where parents run in a circle. -/
theorem Owner.lt_scopes {n : Nat} {s o : c.ScopeIdx} (h : c.Owner n s o) :
    n < c.extent.scopes := by
  choose f hf using fun i : Fin (n + 1) => h.exists_at (Nat.le_of_lt_succ i.isLt)
  have hinj : Function.Injective f := by
    intro i j hij
    have hj := hf j
    rw [← hij] at hj
    exact Fin.ext ((hf i).unique hj).1
  simpa [Nat.succ_le_iff] using Fintype.card_le_of_injective f hinj

theorem ownerWithin_eq_some_iff {steps : Nat} {s o : c.ScopeIdx} :
    c.ownerWithin steps s = some o ↔ ∃ n, n < steps ∧ c.Owner n s o := by
  induction steps generalizing s with
  | zero => simp [ownerWithin]
  | succ steps ih =>
    rw [ownerWithin]
    by_cases he : (c.scope s).kind.isExecutable = true
    · rw [if_pos he, Option.some.injEq]
      constructor
      · rintro rfl
        exact ⟨0, Nat.succ_pos _, .self he⟩
      · rintro ⟨n, _, ho⟩
        exact ((Owner.self he).unique ho).2
    · by_cases hc : (c.scope s).kind.isControlFlow = true
      · rw [if_neg he, if_pos hc]
        simp only [Option.bind_eq_some_iff, ih]
        constructor
        · rintro ⟨p, hp, n, hn, ho⟩
          exact ⟨n + 1, Nat.succ_lt_succ hn, .up hc hp ho⟩
        · rintro ⟨n, hn, ho⟩
          cases ho with
          | self h => exact absurd h he
          | up _ hp ho => exact ⟨_, hp, _, Nat.lt_of_succ_lt_succ hn, ho⟩
      · rw [if_neg he, if_neg hc]
        constructor
        · intro h
          simp at h
        · rintro ⟨n, _, ho⟩
          cases ho with
          | self h => exact absurd h he
          | up h _ _ => exact absurd h hc

theorem execOwner?_eq_some_iff {s o : c.ScopeIdx} :
    c.execOwner? s = some o ↔ ∃ n, c.Owner n s o := by
  rw [execOwner?, ownerWithin_eq_some_iff]
  constructor
  · rintro ⟨n, _, ho⟩
    exact ⟨n, ho⟩
  · rintro ⟨n, ho⟩
    exact ⟨n, Nat.lt_succ_of_lt ho.lt_scopes, ho⟩

theorem ParentsFirst.owner_mem {l : List c.ScopeIdx} {n : Nat} {s o : c.ScopeIdx}
    (h : c.ParentsFirst l) (ho : c.Owner n s o) (hs : s ∈ l) : o ∈ l := by
  induction ho with
  | self => exact hs
  | up _ hp _ ih => exact ih (h.parent_mem hs hp)

/-- `a` is reached from `s` by going to the parent `n` times. On a circle that holds of more than
one `n`. -/
inductive Above (c : Configuration) : Nat → c.ScopeIdx → c.ScopeIdx → Prop where
  | self {s : c.ScopeIdx} : Above c 0 s s
  | up {n : Nat} {s p a : c.ScopeIdx} (hp : c.parent? s = some p) (ha : Above c n p a) :
      Above c (n + 1) s a

theorem above_zero_iff {s a : c.ScopeIdx} : c.Above 0 s a ↔ a = s := by
  constructor
  · intro h
    cases h with
    | self => rfl
  · rintro rfl
    exact .self

theorem above_succ_iff {n : Nat} {s a : c.ScopeIdx} :
    c.Above (n + 1) s a ↔ ∃ p, c.parent? s = some p ∧ c.Above n p a := by
  constructor
  · intro h
    cases h with
    | up hp ha => exact ⟨_, hp, ha⟩
  · rintro ⟨p, hp, ha⟩
    exact .up hp ha

theorem rooted_iff_above {s : c.ScopeIdx} :
    c.Rooted s ↔ ∃ n root, c.Above n s root ∧ c.parent? root = none := by
  constructor
  · intro h
    induction h with
    | root h => exact ⟨0, _, .self, h⟩
    | nested h _ ih =>
      obtain ⟨n, root, habove, hroot⟩ := ih
      exact ⟨n + 1, root, .up h habove, hroot⟩
  · rintro ⟨n, root, habove, hroot⟩
    induction habove with
    | self => exact .root hroot
    | up hp _ ih => exact .nested hp (ih hroot)

/-- `a` is `s` itself or a scope around it, at whatever distance. -/
def Encloses (c : Configuration) (a s : c.ScopeIdx) : Prop := ∃ n, c.Above n s a

theorem Above.trans {m n : Nat} {s p a : c.ScopeIdx} (h : c.Above m s p) (h' : c.Above n p a) :
    c.Above (m + n) s a := by
  induction h with
  | self => simpa using h'
  | @up m s q p hp _ ih =>
    rw [Nat.add_right_comm]
    exact .up hp (ih h')

theorem Above.exists_between {n i : Nat} {s a : c.ScopeIdx} (h : c.Above n s a) (hi : i ≤ n) :
    ∃ p, c.Above i s p ∧ c.Above (n - i) p a := by
  induction h generalizing i with
  | @self s =>
    obtain rfl : i = 0 := Nat.le_zero.1 hi
    exact ⟨s, .self, .self⟩
  | @up n s q a hq ha ih =>
    cases i with
    | zero => exact ⟨s, .self, .up hq ha⟩
    | succ i =>
      obtain ⟨p, hp, hpa⟩ := ih (Nat.le_of_succ_le_succ hi)
      exact ⟨p, .up hq hp, by rwa [Nat.succ_sub_succ]⟩

/-- A walk that comes back to a scope can leave the round out. -/
theorem Above.shorten {n i j : Nat} {s p a : c.ScopeIdx} (hi : c.Above i s p)
    (hj : c.Above (n - j) p a) (hij : i < j) (hjn : j ≤ n) : ∃ m, m < n ∧ c.Above m s a :=
  ⟨i + (n - j), by omega, hi.trans hj⟩

theorem Above.exists_lt_scopes {n : Nat} {s a : c.ScopeIdx} (h : c.Above n s a) :
    ∃ m, m < c.extent.scopes ∧ c.Above m s a := by
  induction n using Nat.strongRecOn with
  | ind n ih =>
    rcases Nat.lt_or_ge n c.extent.scopes with hlt | hge
    · exact ⟨n, hlt, h⟩
    · choose f hf using fun i : Fin (n + 1) => h.exists_between (Nat.le_of_lt_succ i.isLt)
      have hcard : Fintype.card c.ScopeIdx < Fintype.card (Fin (n + 1)) := by
        rw [Fintype.card_fin, Fintype.card_fin]
        omega
      obtain ⟨i, j, hne, heq⟩ := Fintype.exists_ne_map_eq_of_card_lt f hcard
      have hshort : ∃ m, m < n ∧ c.Above m s a := by
        rcases Nat.lt_or_gt_of_ne (Fin.val_ne_of_ne hne) with hlt | hgt
        · exact (hf i).1.shorten (heq ▸ (hf j).2) hlt (Nat.le_of_lt_succ j.isLt)
        · exact (hf j).1.shorten (heq ▸ (hf i).2) hgt (Nat.le_of_lt_succ i.isLt)
      obtain ⟨m, hm, hs⟩ := hshort
      exact ih m hm hs

theorem getElem?_chain_iff {steps i : Nat} {s a : c.ScopeIdx} :
    (c.chain steps (some s))[i]? = some a ↔ i < steps ∧ c.Above i s a := by
  induction steps generalizing s i with
  | zero => simp [chain]
  | succ steps ih =>
    cases i with
    | zero => simp [chain, above_zero_iff, eq_comm]
    | succ i =>
      rw [chain, List.getElem?_cons_succ, above_succ_iff, Nat.add_lt_add_iff_right]
      cases hp : c.parent? s with
      | none => cases steps <;> simp [chain]
      | some p => simp [ih]

theorem mem_chain_iff {steps : Nat} {s a : c.ScopeIdx} :
    a ∈ c.chain steps (some s) ↔ ∃ n, n < steps ∧ c.Above n s a := by
  simp only [List.mem_iff_getElem?, getElem?_chain_iff]

theorem mem_cons_ancestors_iff {s a : c.ScopeIdx} :
    a ∈ s :: c.ancestors s ↔ c.Encloses a s := by
  have hchain : s :: c.ancestors s = c.chain (c.extent.scopes + 2) (some s) := rfl
  rw [hchain, mem_chain_iff]
  constructor
  · rintro ⟨n, _, ha⟩
    exact ⟨n, ha⟩
  · rintro ⟨n, ha⟩
    obtain ⟨m, hm, hs⟩ := ha.exists_lt_scopes
    exact ⟨m, by omega, hs⟩

end SpaceAudit.Configuration
