import SpaceAudit.Source.ScopeTree

/-! What the passes leave in the tables of a configuration. An entry has seen the records of its own
key and no others, in their order; whether all of them count, or the first or the last, is up to how
they are put in. -/
namespace SpaceAudit

namespace Tables

section Pass
variable {α : Type} {m n : Nat} {key : Fin m → Option (Fin n)} {put : α → Fin m → α}

theorem get_enter (t : Vector α n) (r : Fin m) (k : Fin n) :
    (enter key put t r).get k = if key r = some k then put (t.get k) r else t.get k := by
  unfold enter
  cases key r with
  | none => rfl
  | some j =>
    have hset : (t.set j (put (t.get j) r)).get k =
        if j.val = k.val then put (t.get j) r else t.get k := Vector.getElem_set ..
    by_cases hj : j = k
    · rw [hset, if_pos (congrArg Fin.val hj), if_pos (congrArg some hj), hj]
    · rw [hset, if_neg fun h => hj (Fin.ext h), if_neg fun h => hj (Option.some.inj h)]

theorem get_foldl_enter (records : List (Fin m)) (t : Vector α n) (k : Fin n) :
    (records.foldl (enter key put) t).get k =
      (records.filter fun r => key r == some k).foldl put (t.get k) := by
  induction records generalizing t with
  | nil => rfl
  | cons r records ih =>
    rw [List.foldl_cons, ih, get_enter]
    by_cases hkey : key r = some k
    · simp [hkey]
    · simp [hkey]

theorem get_pass (blank : α) (k : Fin n) : (pass key put blank).get k =
    ((List.finRange m).filter fun r => key r == some k).foldl put blank := by
  have hblank : (Vector.replicate n blank).get k = blank := by simp [Vector.get]
  rw [pass, get_foldl_enter, hblank]

end Pass

section Put
variable {β : Type}

theorem foldl_concat (front records : List β) :
    records.foldl (fun list r => list ++ [r]) front = front ++ records := by
  rw [List.foldl_append_eq_append, ← List.flatMap_def, List.flatMap_singleton']

theorem foldl_or (first : Option β) (records : List β) :
    records.foldl (fun first r => first.or (some r)) first = first.or records.head? := by
  induction records generalizing first with
  | nil => rw [List.foldl_nil, List.head?_nil, Option.or_none]
  | cons r records ih =>
    rw [List.foldl_cons, ih, Option.or_assoc]
    rfl

theorem foldl_some (last : Option β) (records : List β) :
    records.foldl (fun _ r => some r) last = records.getLast?.or last := by
  induction records generalizing last with
  | nil => rfl
  | cons r records ih =>
    rw [List.foldl_cons, ih, List.getLast?_cons]
    cases records.getLast? <;> rfl

end Put

end Tables

namespace Configuration
variable {c : Configuration}

theorem members_eq (s : c.ScopeIdx) :
    c.members s = c.scopeIndices.filter fun m => c.parent? m == some s && m != s := by
  rw [members, c.filled, Tables.fill, Tables.get_pass, Tables.foldl_concat, List.nil_append]
  refine List.filter_congr fun m _ => ?_
  rw [Bool.eq_iff_iff, beq_iff_eq, Bool.and_eq_true, beq_iff_eq, bne_iff_ne,
    Option.filter_eq_some_iff, bne_iff_ne]
  exact and_congr_right fun _ => ne_comm

theorem functionsOf_eq (s : c.ScopeIdx) :
    c.functionsOf s = c.functionIndices.filter fun f => (c.function f).owner == s := by
  rw [functionsOf, c.filled, Tables.fill, Tables.get_pass, Tables.foldl_concat, List.nil_append]
  exact List.filter_congr fun f _ => Option.some_beq_some

theorem scopeOpenedAt?_eq (t : c.TokenIdx) : c.scopeOpenedAt? t =
    c.scopeIndices.reverse.find? fun s => (c.scope s).bodyStart.get? == some t := by
  rw [scopeOpenedAt?, c.filled, Tables.fill, Tables.get_pass, Tables.foldl_some, Option.or_none,
    List.getLast?_eq_head?_reverse, ← List.filter_reverse, List.head?_filter]
  rfl

theorem bodyOf?_eq (f : c.FunctionIdx) : c.bodyOf? f =
    c.scopeIndices.find? fun s => (c.scope s).function.get? == some f := by
  rw [bodyOf?, c.filled, Tables.fill, Tables.get_pass, Tables.foldl_or, Option.none_or,
    List.head?_filter]
  rfl

end Configuration

end SpaceAudit
