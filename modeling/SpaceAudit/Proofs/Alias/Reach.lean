import Mathlib.Logic.Relation
import SpaceAudit.Proofs.Alias.Merge
import SpaceAudit.Settings.Basic

/-! What a member of a group knows is what the depth-first walk over shared includes meets. The walk
is described here by a relation that enters a header and all that lies below it before it goes on
with the next include. It ends on every graph of includes, meets exactly the headers that can be
reached, and meets each of them once. -/
namespace SpaceAudit

open Relation (ReflTransGen)

namespace AliasSource
variable {group : List AliasSource} {headers : List String} {i : Include} {s t u : AliasSource}

/-- An include of a shared header means the member with the least path among those whose path ends
with the included one. -/
structure Means (group : List AliasSource) (headers : List String) (i : Include) (h : AliasSource) :
    Prop where
  shared : i.fileName ∈ headers
  mem : h ∈ group
  endsWith : h.path.endsWith ⟨i.name⟩ = true
  least : ∀ t ∈ group, t.path.endsWith ⟨i.name⟩ = true → h.path.le t.path = true

theorem Means.unique (hd : Distinct group) (hs : Means group headers i s)
    (ht : Means group headers i t) : s = t := by
  have hst := hs.least t ht.mem ht.endsWith
  have hts := ht.least s hs.mem hs.endsWith
  exact hd.eq_of_components hs.mem ht.mem (Path.components_eq_of_le hst hts)

theorem means_of_shared? (h : shared? group headers i = some s) : Means group headers i s := by
  unfold shared? header? at h
  split at h
  · rename_i hshared
    obtain ⟨hmem, hends⟩ := List.mem_filter.1 (least?_mem h)
    refine ⟨by simpa using hshared, hmem, hends, ?_⟩
    intro t ht htends
    exact least?_le h t (List.mem_filter.2 ⟨ht, htends⟩)
  · cases h

theorem shared?_eq_some_iff (hd : Distinct group) :
    shared? group headers i = some s ↔ Means group headers i s := by
  constructor
  · exact means_of_shared?
  · intro hs
    cases ht : shared? group headers i with
    | some t => rw [hs.unique hd (means_of_shared? ht)]
    | none =>
      have hshared : headers.contains i.fileName = true := by simpa using hs.shared
      rw [shared?, if_pos hshared, header?, least?_eq_none_iff, List.filter_eq_nil_iff] at ht
      exact absurd hs.endsWith (ht s hs.mem)

def Leads (group : List AliasSource) (headers : List String) (u h : AliasSource) : Prop :=
  ∃ i ∈ u.includes, Means group headers i h

/-- What pending includes lead to, in depth-first preorder, when the members of `seen` were met
before. A header is met with all that lies below it before the next include is looked at. -/
inductive Explores (group : List AliasSource) (headers : List String) :
    List AliasSource → List Include → List AliasSource → Prop where
  | done {seen : List AliasSource} : Explores group headers seen [] []
  | skip {seen : List AliasSource} {i : Include} {rest : List Include} {found : List AliasSource}
      (hseen : ∀ s, Means group headers i s → s ∈ seen)
      (hrest : Explores group headers seen rest found) :
      Explores group headers seen (i :: rest) found
  | enter {seen : List AliasSource} {i : Include} {rest : List Include} {s : AliasSource}
      {below after : List AliasSource} (hs : Means group headers i s) (hnew : s ∉ seen)
      (hbelow : Explores group headers (seen ++ [s]) s.includes below)
      (hafter : Explores group headers (seen ++ s :: below) rest after) :
      Explores group headers seen (i :: rest) (s :: (below ++ after))

namespace Explores
variable {seen found : List AliasSource} {pending rest : List Include}

theorem split (h : Explores group headers seen (pending ++ rest) found) :
    ∃ first second, Explores group headers seen pending first ∧
      Explores group headers (seen ++ first) rest second ∧ found = first ++ second := by
  generalize hall : pending ++ rest = all at h
  induction h generalizing pending with
  | done =>
    obtain ⟨rfl, rfl⟩ := List.append_eq_nil_iff.1 hall
    exact ⟨[], [], .done, .done, rfl⟩
  | @skip seen i later found hseen hlater ih =>
    cases pending with
    | nil =>
      have hrest : rest = i :: later := hall
      exact ⟨[], found, .done, by simpa [hrest] using .skip hseen hlater, rfl⟩
    | cons j pending =>
      obtain ⟨rfl, hlater'⟩ := List.cons.inj hall
      obtain ⟨first, second, hfirst, hsecond, hfound⟩ := ih hlater'
      exact ⟨first, second, .skip hseen hfirst, hsecond, hfound⟩
  | @enter seen i later s below after hs hnew hbelow hafter _ ih =>
    cases pending with
    | nil =>
      have hrest : rest = i :: later := hall
      exact ⟨[], _, .done, by simpa [hrest] using .enter hs hnew hbelow hafter, rfl⟩
    | cons j pending =>
      obtain ⟨rfl, hlater'⟩ := List.cons.inj hall
      obtain ⟨first, second, hfirst, hsecond, hfound⟩ := ih hlater'
      refine ⟨s :: (below ++ first), second, .enter hs hnew hbelow hfirst, ?_, by simp [hfound]⟩
      simpa using hsecond

theorem unique (hd : Distinct group) {other : List AliasSource}
    (h : Explores group headers seen pending found)
    (h' : Explores group headers seen pending other) : found = other := by
  induction h generalizing other with
  | done =>
    cases h'
    rfl
  | skip hseen _ ih =>
    cases h' with
    | skip _ hrest => exact ih hrest
    | enter hs hnew _ _ => exact absurd (hseen _ hs) hnew
  | enter hs hnew _ _ ihbelow ihafter =>
    cases h' with
    | skip hseen _ => exact absurd (hseen _ hs) hnew
    | enter ht _ hbelow hafter =>
      obtain rfl := hs.unique hd ht
      obtain rfl := ihbelow hbelow
      obtain rfl := ihafter hafter
      rfl

theorem reaches (h : Explores group headers seen pending found) (ht : t ∈ found) :
    ∃ i ∈ pending, ∃ s, Means group headers i s ∧ ReflTransGen (Leads group headers) s t := by
  induction h with
  | done => cases ht
  | skip _ _ ih =>
    obtain ⟨i, hi, hreach⟩ := ih ht
    exact ⟨i, List.mem_cons_of_mem _ hi, hreach⟩
  | @enter seen i rest s below after hs _ _ _ ihbelow ihafter =>
    rcases List.mem_cons.1 ht with rfl | ht
    · exact ⟨i, List.mem_cons_self, t, hs, .refl⟩
    rcases List.mem_append.1 ht with ht | ht
    · obtain ⟨j, hj, r, hr, hreach⟩ := ihbelow ht
      exact ⟨i, List.mem_cons_self, s, hs, .head ⟨j, hj, hr⟩ hreach⟩
    · obtain ⟨j, hj, hreach⟩ := ihafter ht
      exact ⟨j, List.mem_cons_of_mem _ hj, hreach⟩

/-- All that is pending, and all that a member met leads to, is met in the end. -/
theorem closed (hd : Distinct group) (h : Explores group headers seen pending found) :
    (∀ i ∈ pending, ∀ s, Means group headers i s → s ∈ seen ++ found) ∧
      ∀ t ∈ found, ∀ s, Leads group headers t s → s ∈ seen ++ found := by
  induction h with
  | done => simp
  | @skip seen i rest found hseen _ ih =>
    refine ⟨?_, ih.2⟩
    intro j hj s hs
    rcases List.mem_cons.1 hj with rfl | hj
    · exact List.mem_append_left _ (hseen s hs)
    · exact ih.1 j hj s hs
  | @enter seen i rest s below after hs _ _ _ ihbelow ihafter =>
    have hgrow (r : AliasSource) (hr : r ∈ seen ++ [s] ++ below) :
        r ∈ seen ++ s :: (below ++ after) := by
      simp only [List.append_assoc, List.mem_append, List.mem_cons] at hr ⊢
      grind
    have hlater (r : AliasSource) (hr : r ∈ seen ++ s :: below ++ after) :
        r ∈ seen ++ s :: (below ++ after) := by
      simpa using hr
    constructor
    · intro j hj r hr
      rcases List.mem_cons.1 hj with rfl | hj
      · obtain rfl := hs.unique hd hr
        simp
      · exact hlater r (ihafter.1 j hj r hr)
    · intro t ht r hr
      rcases List.mem_cons.1 ht with rfl | ht
      · obtain ⟨j, hj, hr⟩ := hr
        exact hgrow r (ihbelow.1 j hj r hr)
      rcases List.mem_append.1 ht with ht | ht
      · exact hgrow r (ihbelow.2 t ht r hr)
      · exact hlater r (ihafter.2 t ht r hr)

theorem nodup (h : Explores group headers seen pending found) (hn : seen.Nodup) :
    (seen ++ found).Nodup := by
  induction h with
  | done => simpa using hn
  | skip _ _ ih => exact ih hn
  | @enter seen i rest s below after _ hnew _ _ ihbelow ihafter =>
    have hfirst : (seen ++ [s]).Nodup := List.nodup_append.2
      ⟨hn, by simp, fun r hr q hq hrq => hnew (List.mem_singleton.1 hq ▸ hrq ▸ hr)⟩
    have hbelow : (seen ++ s :: below).Nodup := by simpa using ihbelow hfirst
    simpa using ihafter hbelow

/-- The walk explores what is pending. Its list of visited paths stands for the members of the
group that were seen. -/
theorem of_walk (hd : Distinct group) (visited : List Path) (pending : List Include)
    (seen : List AliasSource) (hseen : ∀ t ∈ group, t.path.isIn visited = true ↔ t ∈ seen) :
    Explores group headers seen pending (walk group headers visited pending) := by
  fun_induction walk group headers visited pending generalizing seen with
  | case1 visited => exact .done
  | case2 visited i rest hnone ih =>
    refine .skip (fun s hs => ?_) (ih seen hseen)
    rw [(shared?_eq_some_iff hd).2 hs] at hnone
    cases hnone
  | case3 visited i rest s hs hv ih =>
    refine .skip (fun t ht => ?_) (ih seen hseen)
    have hmeans := means_of_shared? hs
    obtain rfl := hmeans.unique hd ht
    exact (hseen s hmeans.mem).1 hv
  | case4 visited i rest s hs hv ih =>
    have hmeans := means_of_shared? hs
    have hnew : s ∉ seen := fun hmem => hv ((hseen s hmeans.mem).2 hmem)
    have hmore : ∀ t ∈ group, t.path.isIn (s.path :: visited) = true ↔ t ∈ seen ++ [s] := by
      intro t ht
      have hsame : t.path.same s.path = true ↔ t = s := by
        rw [Path.same_iff]
        exact ⟨hd.eq_of_components ht hmeans.mem, fun h => h ▸ rfl⟩
      have hold := hseen t ht
      simp only [Path.isIn, List.any_cons, Bool.or_eq_true] at hold ⊢
      rw [hsame, hold, List.mem_append, List.mem_singleton, or_comm]
    obtain ⟨below, after, hbelow, hafter, hfound⟩ := (ih (seen ++ [s]) hmore).split
    rw [hfound]
    exact .enter hmeans hnew hbelow (by simpa using hafter)

end Explores

/-- The depth-first preorder from a member: the member itself, and then what its includes lead
to. -/
def Preorder (group : List AliasSource) (headers : List String) (u : AliasSource)
    (order : List AliasSource) : Prop :=
  ∃ found, Explores group headers [u] u.includes found ∧ order = u :: found

namespace Preorder
variable {order : List AliasSource}

theorem of_walk (hd : Distinct group) (hu : u ∈ group) :
    Preorder group headers u (u :: walk group headers [u.path] u.includes) := by
  refine ⟨_, .of_walk hd [u.path] u.includes [u] ?_, rfl⟩
  intro t ht
  have hsame : t.path.same u.path = true ↔ t = u := by
    rw [Path.same_iff]
    exact ⟨hd.eq_of_components ht hu, fun h => h ▸ rfl⟩
  simpa [Path.isIn] using hsame

theorem mem_iff (hd : Distinct group) (h : Preorder group headers u order) :
    t ∈ order ↔ ReflTransGen (Leads group headers) u t := by
  obtain ⟨found, hfound, rfl⟩ := h
  constructor
  · intro ht
    rcases List.mem_cons.1 ht with rfl | ht
    · exact .refl
    · obtain ⟨i, hi, s, hs, hreach⟩ := hfound.reaches ht
      exact .head ⟨i, hi, hs⟩ hreach
  · intro hreach
    -- What was met is closed under includes, so no path leads out of it.
    obtain ⟨hpending, hmet⟩ := hfound.closed hd
    induction hreach with
    | refl => exact List.mem_cons_self
    | @tail s t _ hst ih =>
      rcases List.mem_cons.1 ih with rfl | hs
      · obtain ⟨i, hi, ht⟩ := hst
        exact hpending i hi t ht
      · exact hmet s hs t hst

end Preorder

/-- A member's aliases are those of the members it reaches over shared includes, and the nearest
definition of a name counts. -/
structure NearestFirst (group : List AliasSource) (headers : List String) (u : AliasSource)
    (table : AliasTable) : Prop where
  /-- There is one depth-first preorder. It holds what can be reached, without repetition, and of
  the definitions of a name the first in this order counts. -/
  preorder : ∃ order, Preorder group headers u order ∧
    (∀ other, Preorder group headers u other → other = order) ∧ order.Nodup ∧
    (∀ t, t ∈ order ↔ ReflTransGen (Leads group headers) u t) ∧
    ∀ name definition, table.get? name = some definition ↔
      ∃ early t late, order = early ++ t :: late ∧ (∀ s ∈ early, s.own.get? name = none) ∧
        t.own.get? name = some definition
  /-- Nothing comes from elsewhere, and nothing that can be reached is left out. -/
  defined_iff : ∀ name, (table.get? name).isSome ↔
    ∃ t, ReflTransGen (Leads group headers) u t ∧ (t.own.get? name).isSome
  own : ∀ name definition, u.own.get? name = some definition → table.get? name = some definition

end AliasSource

namespace GroupAliases
open AliasSource
variable {group : List AliasSource} {headers : List String} {u : AliasSource}

theorem get_eq_merged (hd : Distinct group) (hu : u ∈ group) :
    (ofSources group headers).get u.path = u.merged group headers := by
  obtain ⟨before, after, rfl⟩ := List.append_of_mem hu
  refine get_ofSources before u after headers fun a ha => ?_
  rw [← Bool.not_eq_true, Path.same_iff]
  intro hsame
  have hnodup : ((before ++ u :: after).map fun s => s.path.components).Nodup := hd
  rw [List.map_append, List.map_cons] at hnodup
  obtain ⟨hu', _⟩ := List.nodup_cons.1 (List.nodup_append.1 hnodup).2.1
  exact hu' (List.mem_map.2 ⟨a, ha, hsame⟩)

/-- The source in front includes two shared headers that include each other, and one that is not
shared. The first of them could be two members. -/
def includeSample : List AliasSource :=
  [⟨⟨"a.cpp"⟩, ⟨[("Own", ["int"])]⟩,
      [⟨"geometry.hpp", true⟩, ⟨"species_info.hpp", true⟩, ⟨"other.hpp", true⟩]⟩,
    ⟨⟨"src/geometry.hpp"⟩, ⟨[("Grid", ["far"])]⟩, []⟩,
    ⟨⟨"lib/geometry.hpp"⟩, ⟨[("Grid", ["near"]), ("Own", ["long"])]⟩, [⟨"species_info.hpp", true⟩]⟩,
    ⟨⟨"lib/species_info.hpp"⟩, ⟨[("Grid", ["last"]), ("Species", ["short"])]⟩,
      [⟨"lib/geometry.hpp", true⟩, ⟨"a.cpp", true⟩]⟩,
    ⟨⟨"other.hpp"⟩, ⟨[("Other", ["char"])]⟩, []⟩]

end GroupAliases

end SpaceAudit
