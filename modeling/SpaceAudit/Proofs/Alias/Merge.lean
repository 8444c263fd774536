import Mathlib.Data.List.Nodup
import SpaceAudit.Alias.Merge
import SpaceAudit.Proofs.Run.Report

/-! The aliases of a group do not depend on the order of its members. An include that several
members could mean is settled by the order of paths, so with one member for each path every include
means the same member, and the walk through the headers is the same walk. -/
namespace SpaceAudit

namespace Component

def word : Component → String
  | normal name => name
  | _ => ""

theorem eq_of_rank_of_word {a b : Component} (hr : a.rank = b.rank) (hw : a.word = b.word) :
    a = b := by
  cases a <;> cases b <;> simp_all [rank, word]

theorem compare_eq_lex :
    Component.compare = compareLex (compareOn Component.rank) (compareOn Component.word) := by
  funext a b
  cases a <;> cases b <;> simp [Component.compare, compareLex, compareOn, rank, word] <;> rfl

instance : Std.TransCmp Component.compare := by
  rw [compare_eq_lex]
  infer_instance

instance : Std.LawfulEqCmp Component.compare where
  eq_of_compare {a b} h := by
    rw [compare_eq_lex, compareLex_eq_eq] at h
    exact eq_of_rank_of_word (Std.LawfulEqCmp.eq_of_compare h.1) (Std.LawfulEqCmp.eq_of_compare h.2)

end Component

namespace Path
variable {p q r : Path}

theorem le_refl (p : Path) : p.le p = true := by
  simp [le, compare, Std.ReflCmp.compare_self]

theorem le_of_not_le (h : ¬ p.le q = true) : q.le p = true := by
  have hlt : List.compareLex Component.compare q.components p.components = .lt :=
    Std.OrientedCmp.lt_of_not_isLE h
  simp [le, compare, hlt]

theorem le_trans (hpq : p.le q = true) (hqr : q.le r = true) : p.le r = true := by
  unfold le compare at *
  exact Std.TransCmp.isLE_trans hpq hqr

theorem components_eq_of_le (hpq : p.le q = true) (hqp : q.le p = true) :
    p.components = q.components := by
  have h : List.compareLex Component.compare p.components q.components = .eq :=
    Std.OrientedCmp.isLE_antisymm hpq hqp
  exact Std.LawfulEqCmp.eq_of_compare h

end Path

theorem find?_eq_of_perm {α : Type} {l m : List α} {p : α → Bool} (h : l.Perm m)
    (hone : ∀ a ∈ l, ∀ b ∈ l, p a = true → p b = true → a = b) : l.find? p = m.find? p := by
  cases hm : m.find? p with
  | none =>
    rw [List.find?_eq_none] at hm ⊢
    intro a ha
    exact hm a (h.mem_iff.1 ha)
  | some b =>
    have hb : b ∈ l := h.mem_iff.2 (List.mem_of_find?_eq_some hm)
    have hpb : p b = true := List.find?_some hm
    cases hl : l.find? p with
    | none => exact absurd hpb (List.find?_eq_none.1 hl b hb)
    | some a =>
      rw [hone a (List.mem_of_find?_eq_some hl) b hb (List.find?_some hl) hpb]

namespace AliasSource
variable {group other : List AliasSource} {headers : List String} {s t : AliasSource}

def Distinct (group : List AliasSource) : Prop := (group.map fun s => s.path.components).Nodup

theorem Distinct.eq_of_components (h : Distinct group) (hs : s ∈ group) (ht : t ∈ group)
    (hc : s.path.components = t.path.components) : s = t :=
  List.inj_on_of_nodup_map h hs ht hc

theorem Distinct.filter (h : Distinct group) (p : AliasSource → Bool) :
    Distinct (group.filter p) :=
  List.Nodup.sublist (List.filter_sublist.map _) h

theorem least?_eq_none_iff : least? group = none ↔ group = [] := by
  cases group with
  | nil => simp [least?]
  | cons a rest =>
    simp only [least?, reduceCtorEq, iff_false]
    split
    · simp
    · split <;> simp

theorem least?_le (h : least? group = some s) : ∀ t ∈ group, s.path.le t.path = true := by
  induction group generalizing s with
  | nil => simp [least?] at h
  | cons a rest ih =>
    intro t ht
    unfold least? at h
    split at h
    · rename_i hnone
      rw [Option.some.injEq] at h
      rw [least?_eq_none_iff.1 hnone, List.mem_singleton] at ht
      rw [← h, ht]
      exact Path.le_refl _
    · rename_i b hb
      split at h
      · rename_i hle
        rw [Option.some.injEq] at h
        subst h
        rcases List.mem_cons.1 ht with rfl | ht
        · exact Path.le_refl _
        · exact Path.le_trans hle (ih hb t ht)
      · rename_i hnle
        rw [Option.some.injEq] at h
        subst h
        rcases List.mem_cons.1 ht with rfl | ht
        · exact Path.le_of_not_le hnle
        · exact ih hb t ht

theorem least?_perm (h : Distinct group) (hp : group.Perm other) : least? group = least? other := by
  cases hs : least? group with
  | none =>
    rw [least?_eq_none_iff] at hs
    subst hs
    rw [List.nil_perm.1 hp]
    rfl
  | some s =>
    cases ht : least? other with
    | none =>
      rw [least?_eq_none_iff] at ht
      subst ht
      rw [List.perm_nil.1 hp] at hs
      simp [least?] at hs
    | some t =>
      have hs' : s ∈ group := least?_mem hs
      have ht' : t ∈ group := hp.mem_iff.2 (least?_mem ht)
      have hst := least?_le hs t ht'
      have hts := least?_le ht s (hp.mem_iff.1 hs')
      rw [h.eq_of_components hs' ht' (Path.components_eq_of_le hst hts)]

theorem shared?_perm (h : Distinct group) (hp : group.Perm other) (i : Include) :
    shared? group headers i = shared? other headers i := by
  unfold shared? header?
  rw [least?_perm (h.filter _) (hp.filter _)]

theorem walk_congr (h : ∀ i, shared? group headers i = shared? other headers i)
    (visited : List Path) (pending : List Include) :
    walk group headers visited pending = walk other headers visited pending := by
  fun_induction walk group headers visited pending with
  | case1 visited => simp [walk]
  | case2 visited i rest hnone ih =>
    rw [h] at hnone
    rw [ih]
    conv => rhs; rw [walk]
    split <;> simp_all
  | case3 visited i rest s hs hv ih =>
    rw [h] at hs
    rw [ih]
    conv => rhs; rw [walk]
    split <;> simp_all
  | case4 visited i rest s hs hv ih =>
    rw [h] at hs
    rw [ih]
    conv => rhs; rw [walk]
    split <;> simp_all

theorem merged_perm (h : Distinct group) (hp : group.Perm other) (s : AliasSource) :
    s.merged group headers = s.merged other headers := by
  unfold merged
  rw [walk_congr (shared?_perm h hp)]

end AliasSource

namespace GroupAliases
variable {group other : List AliasSource} {headers : List String}

theorem tables_perm (h : AliasSource.Distinct group) (hp : group.Perm other) :
    (ofSources group headers).tables.Perm (ofSources other headers).tables := by
  have heq : (fun s : AliasSource => (s.path, s.merged group headers)) =
      fun s => (s.path, s.merged other headers) := by
    funext s
    rw [AliasSource.merged_perm h hp]
  simp only [ofSources, heq]
  exact hp.map _

theorem get_perm (h : AliasSource.Distinct group) (hp : group.Perm other) (path : Path) :
    (ofSources group headers).get path = (ofSources other headers).get path := by
  have hperm : (ofSources group headers).tables.reverse.Perm (ofSources other headers).tables.reverse :=
    (List.reverse_perm _).trans ((tables_perm h hp).trans (List.reverse_perm _).symm)
  unfold get
  rw [find?_eq_of_perm hperm]
  intro a ha b hb hpa hpb
  simp only [ofSources, List.mem_reverse, List.mem_map] at ha hb
  obtain ⟨s, hs, rfl⟩ := ha
  obtain ⟨t, ht, rfl⟩ := hb
  rw [Path.same_iff] at hpa hpb
  rw [h.eq_of_components hs ht (hpa.trans hpb.symm)]

end GroupAliases

end SpaceAudit
