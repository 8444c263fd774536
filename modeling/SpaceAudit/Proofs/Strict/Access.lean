import Mathlib.Data.List.Basic
import SpaceAudit.Finding.Excerpt

/-! Evaluation that stops at the first access out of range. An index has to lie inside the list, a
slice has to start before it stops and to stop inside, and the ends of a cut through a text have to
fall between two characters. -/
namespace SpaceAudit
open Excerpt (byteLength)

inductive OutOfRange where
  | index (i length : Nat)
  | slice (start stop length : Nat)
  | cut (start stop : Nat) (text : String)
deriving DecidableEq, Repr

abbrev Strict := Except OutOfRange

namespace Strict
variable {α β γ : Type}

def get (l : List α) (i : Nat) : Strict α :=
  match l[i]? with
  | some a => pure a
  | none => throw (.index i l.length)

def put {n : Nat} (v : Vector α n) (i : Nat) (a : α) : Strict (Vector α n) :=
  if h : i < n then pure (v.set i a h) else throw (.index i n)

/-- The part of a list from `start` on, up to but not including `stop`. -/
def slice (l : List α) (start stop : Nat) : Strict (List α) :=
  if start ≤ stop ∧ stop ≤ l.length then pure ((l.take stop).drop start)
  else throw (.slice start stop l.length)

/-- The characters before a byte position and those after it; none when the position lies inside a
character or past the end. -/
def splitBytes? : Nat → List Char → Option (List Char × List Char)
  | 0, cs => some ([], cs)
  | _ + 1, [] => none
  | n + 1, c :: cs =>
    if c.utf8Size ≤ n + 1 then
      (splitBytes? (n + 1 - c.utf8Size) cs).map fun (before, after) => (c :: before, after)
    else none

/-- The bytes of a text from `start` on, up to but not including `stop`. -/
def cut (text : String) (start stop : Nat) : Strict String :=
  match (splitBytes? stop text.toList).bind fun (before, _) => splitBytes? start before with
  | some (_, middle) => pure (String.ofList middle)
  | none => throw (.cut start stop text)

def gather (f : α → Strict (List β)) : List α → Strict (List β)
  | [] => pure []
  | a :: l => do
    let found ← f a
    let rest ← gather f l
    return found ++ rest

def choose (f : α → Strict (Option β)) (l : List α) : Strict (List β) :=
  gather (fun a => Option.toList <$> f a) l

/-- The members of a list that pass a test. Every member is looked at. -/
def keep (p : α → Strict Bool) (l : List α) : Strict (List α) :=
  choose (fun a => (fun passes => Option.guard (fun _ => passes) a) <$> p a) l

def find (p : α → Strict Bool) (l : List α) : Strict (Option α) := List.head? <$> keep p l

def findSome (f : α → Strict (Option β)) (l : List α) : Strict (Option β) :=
  List.head? <$> choose f l

def any (p : α → Strict Bool) (l : List α) : Strict Bool := Option.isSome <$> find p l

def holds (p : α → Strict Bool) : Option α → Strict Bool
  | some a => p a
  | none => pure false

@[simp] theorem get_toList {n : Nat} (v : Vector α n) (i : Fin n) : get v.toList i = pure v[i] := by
  simp [get]

theorem get_eq {l : List α} {i : Nat} {a : α} (h : l[i]? = some a) : get l i = pure a := by
  simp [get, h]

@[simp] theorem put_val {n : Nat} (v : Vector α n) (i : Fin n) (a : α) :
    put v i a = pure (v.set i a) := by
  simp [put]

theorem slice_eq {l : List α} {start stop : Nat} (h : start ≤ stop) (h' : stop ≤ l.length) :
    slice l start stop = pure ((l.take stop).drop start) := by
  simp [slice, h, h']

theorem splitBytes?_append (before after : List Char) :
    splitBytes? (byteLength before) (before ++ after) = some (before, after) := by
  induction before with
  | nil => simp [byteLength, splitBytes?]
  | cons c cs ih =>
    have hpos := c.utf8Size_pos
    obtain ⟨n, hn⟩ : ∃ n, byteLength (c :: cs) = n + 1 := ⟨byteLength (c :: cs) - 1, by
      simp only [byteLength]
      omega⟩
    have hrest : n + 1 - c.utf8Size = byteLength cs := by
      simp only [byteLength] at hn
      omega
    rw [hn, List.cons_append, splitBytes?, hrest, ih, if_pos]
    · rfl
    · simp only [byteLength] at hn
      omega

theorem cut_between (before middle after : List Char) :
    cut (String.ofList (before ++ middle ++ after)) (byteLength before)
        (byteLength (before ++ middle)) = pure (String.ofList middle) := by
  rw [cut, String.toList_ofList, splitBytes?_append]
  simp only [Option.bind_some, splitBytes?_append]

example : get [0, 1] 2 = throw (.index 2 2) := rfl
example : slice [0, 1] 2 1 = throw (.slice 2 1 2) := rfl
example : cut "é" 0 1 = throw (.cut 0 1 "é") := by cbv

@[simp] theorem gather_map (f : α → β) (g : β → Strict (List γ)) (l : List α) :
    gather g (l.map f) = gather (fun a => g (f a)) l := by
  induction l with
  | nil => rfl
  | cons a l ih => simp only [List.map_cons, gather, ih]

theorem gather_of_mem {f : α → Strict (List β)} {g : α → List β} {l : List α}
    (h : ∀ a ∈ l, f a = pure (g a)) : gather f l = pure (l.flatMap g) := by
  induction l with
  | nil => rfl
  | cons a l ih =>
    have hl := ih fun b hb => h b (List.mem_cons_of_mem _ hb)
    simp only [gather, h a (List.mem_cons_self ..), hl, pure_bind, List.flatMap_cons]

@[simp] theorem choose_map (f : α → β) (g : β → Strict (Option γ)) (l : List α) :
    choose g (l.map f) = choose (fun a => g (f a)) l := by
  simp [choose]

theorem choose_of_mem {f : α → Strict (Option β)} {g : α → Option β} {l : List α}
    (h : ∀ a ∈ l, f a = pure (g a)) : choose f l = pure (l.filterMap g) := by
  rw [List.filterMap_eq_flatMap_toList]
  apply gather_of_mem
  intro a ha
  rw [h a ha, map_pure]

@[simp] theorem choose_pure (f : α → Option β) (l : List α) :
    choose (fun a => pure (f a)) l = pure (l.filterMap f) := choose_of_mem fun _ _ => rfl

theorem keep_of_mem {p : α → Strict Bool} {q : α → Bool} {l : List α}
    (h : ∀ a ∈ l, p a = pure (q a)) : keep p l = pure (l.filter q) := by
  rw [← List.filterMap_eq_filter]
  apply choose_of_mem
  intro a ha
  rw [h a ha, map_pure]
  rfl

@[simp] theorem keep_pure (p : α → Bool) (l : List α) :
    keep (fun a => pure (p a)) l = pure (l.filter p) := keep_of_mem fun _ _ => rfl

@[simp] theorem keep_map (f : α → β) (p : β → Strict Bool) (l : List α) :
    keep p (l.map f) = List.map f <$> keep (fun a => p (f a)) l := by
  simp only [keep, choose_map]
  induction l with
  | nil => rfl
  | cons a l ih =>
    simp only [choose, gather] at ih ⊢
    rw [ih]
    cases p (f a) with
    | error e => rfl
    | ok passes => cases gather _ l <;> cases passes <;> rfl

@[simp] theorem find_map (f : α → β) (p : β → Strict Bool) (l : List α) :
    find p (l.map f) = Option.map f <$> find (fun a => p (f a)) l := by
  simp [find]

@[simp] theorem find_pure (p : α → Bool) (l : List α) :
    find (fun a => pure (p a)) l = pure (l.find? p) := by
  simp [find]

@[simp] theorem findSome_map (f : α → β) (g : β → Strict (Option γ)) (l : List α) :
    findSome g (l.map f) = findSome (fun a => g (f a)) l := by
  simp [findSome]

@[simp] theorem findSome_pure (f : α → Option β) (l : List α) :
    findSome (fun a => pure (f a)) l = pure (l.findSome? f) := by
  simp [findSome]

@[simp] theorem any_map (f : α → β) (p : β → Strict Bool) (l : List α) :
    any p (l.map f) = any (fun a => p (f a)) l := by
  simp [any]

@[simp] theorem any_pure (p : α → Bool) (l : List α) :
    any (fun a => pure (p a)) l = pure (l.any p) := by
  have h : (l.find? p).isSome = l.any p := by
    rw [Bool.eq_iff_iff, List.find?_isSome, List.any_eq_true]
  simp [any, h]

@[simp] theorem holds_map (f : α → β) (p : β → Strict Bool) (o : Option α) :
    holds p (o.map f) = holds (fun a => p (f a)) o := by
  cases o <;> rfl

@[simp] theorem holds_pure (p : α → Bool) (o : Option α) :
    holds (fun a => pure (p a)) o = pure (o.any p) := by
  cases o <;> rfl

end Strict

end SpaceAudit
