import Mathlib.Logic.Function.Basic
import SpaceAudit.Proofs.Source.ScopeTree

/-! The order of scopes as a list that is read while it grows. A round reads the next scope of the
list and puts those of its members at the end that are not on it yet. The loop comes to its end on
every graph of parents. The list then holds the scopes whose chain of parents ends, each once and
behind its parent. -/
namespace SpaceAudit.Configuration
variable {c : Configuration}

/-- The list under way. Its first `head` scopes have been visited, and `seen` marks those on it. -/
structure Worklist (c : Configuration) where
  order : List c.ScopeIdx
  head : Nat
  seen : c.ScopeIdx → Bool

namespace Worklist

def listed (order : List c.ScopeIdx) (head : Nat) : Worklist c :=
  ⟨order, head, fun s => order.contains s⟩

def start (c : Configuration) : Worklist c := listed c.roots 0

def push (w : Worklist c) (m : c.ScopeIdx) : Worklist c :=
  if w.seen m then w
  else { w with order := w.order ++ [m], seen := Function.update w.seen m true }

/-- One round of the loop. There is none once every scope on the list has been visited. -/
def round? (w : Worklist c) : Option (Worklist c) :=
  w.order[w.head]?.map fun s => (c.members s).foldl push { w with head := w.head + 1 }

/-- The loop ends after so many rounds, and this is what it leaves. -/
inductive EndsAt : Nat → Worklist c → Worklist c → Prop where
  | done {w : Worklist c} (h : w.round? = none) : EndsAt 0 w w
  | round {n : Nat} {w next last : Worklist c} (h : w.round? = some next)
      (hrest : EndsAt n next last) : EndsAt (n + 1) w last

theorem push_listed (l : List c.ScopeIdx) (head : Nat) (m : c.ScopeIdx) :
    (listed l head).push m = if m ∈ l then listed l head else listed (l ++ [m]) head := by
  have hseen : (listed l head).seen m = true ↔ m ∈ l := by simp [listed]
  by_cases hm : m ∈ l
  · rw [push, if_pos (hseen.2 hm), if_pos hm]
  · have hmarks : Function.update (listed l head).seen m true = (listed (l ++ [m]) head).seen := by
      funext s
      by_cases hs : s = m
      · simp [listed, hs]
      · simp [listed, hs]
    rw [push, if_neg fun h => hm (hseen.1 h), if_neg hm, hmarks]
    rfl

theorem foldl_push {l ms : List c.ScopeIdx} (head : Nat) (h : ms.Nodup) :
    ms.foldl push (listed l head) = listed (l ++ ms.filter fun m => !l.contains m) head := by
  induction ms generalizing l with
  | nil => simp
  | cons m ms ih =>
    obtain ⟨hm, hms⟩ := List.nodup_cons.1 h
    rw [List.foldl_cons, push_listed]
    by_cases hmem : m ∈ l
    · rw [if_pos hmem, ih hms, List.filter_cons_of_neg (by simpa using hmem)]
    · have hrest : (ms.filter fun x => !(l ++ [m]).contains x) =
          ms.filter fun x => !l.contains x := by
        refine List.filter_congr fun x hx => ?_
        have hne : x ≠ m := fun hxm => hm (hxm ▸ hx)
        simp [hne]
      rw [if_neg hmem, ih hms, hrest, List.filter_cons_of_pos (by simpa using hmem),
        List.append_assoc, List.singleton_append]

theorem round?_of_visited (l : List c.ScopeIdx) : (listed l l.length).round? = none := by
  simp [round?, listed]

theorem round?_of_queued (done queue : List c.ScopeIdx) (s : c.ScopeIdx) :
    (listed (done ++ s :: queue) done.length).round? =
      some (listed (done ++ s :: queue ++
        (c.members s).filter fun m => !(done ++ s :: queue).contains m) (done ++ [s]).length) := by
  have hnext : (done ++ s :: queue)[done.length]? = some s := by simp
  rw [← foldl_push _ (members_nodup s), List.length_append, List.length_singleton]
  simp only [round?, listed, hnext, Option.map_some]

end Worklist

/-- From every frontier the loop ends once it has visited what `visit` lists. -/
theorem Frontier.endsAt {done queue : List c.ScopeIdx} (steps : Nat) (h : c.Frontier done queue)
    (hs : c.extent.scopes ≤ steps + done.length) :
    Worklist.EndsAt (c.visit steps (done ++ queue) queue).length
      (.listed (done ++ queue) done.length)
      (.listed (done ++ c.visit steps (done ++ queue) queue)
        (done ++ c.visit steps (done ++ queue) queue).length) := by
  induction steps generalizing done queue with
  | zero =>
    have hlen := length_le_scopes h.nodup
    rw [List.length_append] at hlen
    have hq : queue = [] := List.eq_nil_of_length_eq_zero (by omega)
    subst hq
    simpa [Configuration.visit] using
      Worklist.EndsAt.done (Worklist.round?_of_visited done)
  | succ steps ih =>
    cases queue with
    | nil =>
      simpa [Configuration.visit] using
        Worklist.EndsAt.done (Worklist.round?_of_visited done)
    | cons s queue =>
      have hrest := ih h.step (by simp only [List.length_append, List.length_singleton]; omega)
      simp only [List.append_assoc, List.cons_append, List.nil_append] at hrest
      have hround := Worklist.round?_of_queued done queue s
      simp only [List.append_assoc, List.cons_append] at hround
      simpa [Configuration.visit] using Worklist.EndsAt.round hround hrest

theorem endsAt_scopeOrder (c : Configuration) :
    (Worklist.start c).EndsAt c.scopeOrder.length
      (.listed c.scopeOrder c.scopeOrder.length) := by
  simpa [scopeOrder, Worklist.start] using Frontier.start.endsAt c.extent.scopes (by simp)

/-- On every graph of parents the loop ends within as many rounds as there are scopes. What it leaves
is the order of scopes. It holds no scope twice, it holds a scope if and only if the chain of parents
from there comes to a scope without a parent, and every parent stands before its members. -/
theorem scopeOrder_enumerates (c : Configuration) :
    (∃ rounds ≤ c.extent.scopes, ∃ last, (Worklist.start c).EndsAt rounds last ∧
        last.order = c.scopeOrder) ∧
      c.scopeOrder.Nodup ∧
      (∀ s, s ∈ c.scopeOrder ↔ ∃ n root, c.Above n s root ∧ c.parent? root = none) ∧
      c.ParentsFirst c.scopeOrder := by
  refine ⟨⟨_, length_le_scopes scopeOrder_nodup, _, endsAt_scopeOrder c, rfl⟩, scopeOrder_nodup,
    fun s => ?_, scopeOrder_parentsFirst⟩
  rw [mem_scopeOrder_iff, rooted_iff_above]

end SpaceAudit.Configuration
