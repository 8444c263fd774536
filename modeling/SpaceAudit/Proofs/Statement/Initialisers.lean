import SpaceAudit.Proofs.Statement.Runs

/-! A variable that takes over what a call returns can be initialised in three ways. Braces are
boundaries: they cut the statement between the variable and the call, so that no statement has
both. The other two ways keep them together. -/
namespace SpaceAudit

/-- How a declaration initialises its variable. -/
inductive Initialiser where
  | equals | parentheses | braces
deriving DecidableEq, Repr

namespace Initialiser

def opening : Initialiser → String
  | equals => "="
  | parentheses => "("
  | braces => "\x7b"

def closing : Initialiser → List String
  | equals => []
  | parentheses => [")"]
  | braces => ["\x7d"]

theorem opening_mem (form : Initialiser) : form.opening ∈ ["(", "=", "\x7b"] := by
  cases form <;> simp [opening]

end Initialiser

/-- A declaration that binds the outcome of a call, and the texts around it. `lead` is the type with
what may stand before it. -/
structure Declaration where
  before : List String
  lead : List String
  name : String
  callee : String
  arguments : List String
  after : List String

namespace Declaration
variable (d : Declaration) (form : Initialiser)

def call : List String :=
  d.callee :: "(" :: (d.arguments ++ ")" :: (form.closing ++ ";" :: d.after))

def binding : List String := d.name :: form.opening :: d.call form

def stream : List String := (d.before ++ d.lead) ++ d.binding form

def start : Nat := d.before.length
def nameAt : Nat := (d.before ++ d.lead).length
def calleeAt : Nat := d.nameAt + 2

def stop : Nat := d.calleeAt + 3 + d.arguments.length + form.closing.length

/-- Names and arguments are no boundaries, and the declaration follows one or opens the stream. -/
structure WellFormed : Prop where
  opens : d.before = [] ∨ Statements.boundaryAt d.before (d.before.length - 1) = true
  name : isBoundary d.name = false
  callee : isBoundary d.callee = false
  arguments : ∀ a ∈ d.arguments, isBoundary a = false

theorem getElem?_stream (i : Nat) : (d.stream form)[d.nameAt + i]? = (d.binding form)[i]? := by
  rw [stream, nameAt, List.getElem?_append_right (Nat.le_add_right _ _), Nat.add_sub_cancel_left]

theorem boundaryAt_stream (i : Nat) :
    Statements.boundaryAt (d.stream form) (d.nameAt + i) =
      Statements.boundaryAt (d.binding form) i := by
  rw [Statements.boundaryAt, getElem?_stream, Statements.boundaryAt]

theorem walkOn_stream (i : Nat) :
    Statements.walkOn (d.stream form) (d.nameAt + i) =
      d.nameAt + i + ((d.binding form).drop i).findIdx isBoundary := by
  rw [Statements.walkOn, stream, nameAt, List.drop_append, List.drop_of_length_le (by omega),
    List.nil_append, Nat.add_sub_cancel_left]

theorem start_le_nameAt : d.start ≤ d.nameAt := by
  rw [start, nameAt, List.length_append]
  omega

variable {d form}

theorem length_stream : (d.stream form).length = d.stop form + 1 + d.after.length := by
  simp only [stream, binding, call, stop, calleeAt, nameAt, List.length_append, List.length_cons]
  omega

theorem findIdx_append_of_clear {l r : List String} (h : ∀ a ∈ l, isBoundary a = false) :
    (l ++ r).findIdx isBoundary = l.length + r.findIdx isBoundary := by
  induction l with
  | nil => simp
  | cons a l ih =>
    have ha : isBoundary a = false := h a (by simp)
    have hl : ∀ b ∈ l, isBoundary b = false := fun b hb => h b (by simp [hb])
    rw [List.cons_append, List.findIdx_cons, ha, cond_false, ih hl, List.length_cons]
    omega

theorem findIdx_call (h : d.WellFormed) :
    (d.call form).findIdx isBoundary =
      3 + d.arguments.length + if form = .braces then 0 else form.closing.length := by
  have hopen : isBoundary "(" = false := by decide
  have hclose : isBoundary ")" = false := by decide
  have hbrace : isBoundary "\x7d" = true := by decide
  have hend : isBoundary ";" = true := by decide
  rw [call, List.findIdx_cons, h.callee, cond_false, List.findIdx_cons, hopen, cond_false,
    findIdx_append_of_clear h.arguments]
  cases form with
  | equals =>
    simp only [Initialiser.closing, List.nil_append, List.findIdx_cons, hclose, hend, cond_false,
      cond_true, reduceCtorEq, if_false, List.length_nil]
    omega
  | parentheses =>
    simp only [Initialiser.closing, List.nil_append, List.cons_append, List.findIdx_cons, hclose,
      hend, cond_false, cond_true, reduceCtorEq, if_false, List.length_cons, List.length_nil]
    omega
  | braces =>
    simp only [Initialiser.closing, List.nil_append, List.cons_append, List.findIdx_cons, hclose,
      hbrace, cond_false, cond_true, if_true]
    omega

/-- Without braces the statement of the variable goes on to the semicolon. -/
theorem walkOn_nameAt (h : d.WellFormed) (hform : form ≠ .braces) :
    Statements.walkOn (d.stream form) d.nameAt = d.stop form := by
  have hopening : isBoundary form.opening = false := by
    cases form with
    | equals => decide
    | parentheses => decide
    | braces => exact absurd rfl hform
  have hwalk := walkOn_stream d form 0
  rw [Nat.add_zero, List.drop_zero, binding, List.findIdx_cons, h.name, cond_false,
    List.findIdx_cons, hopening, cond_false, findIdx_call h, if_neg hform] at hwalk
  rw [hwalk, stop, calleeAt]
  omega

theorem walkOn_nameAt_braces (h : d.WellFormed) :
    Statements.walkOn (d.stream .braces) d.nameAt = d.nameAt + 1 := by
  have hopening : isBoundary (Initialiser.opening .braces) = true := by decide
  have hwalk := walkOn_stream d .braces 0
  rwa [Nat.add_zero, List.drop_zero, binding, List.findIdx_cons, h.name, cond_false,
    List.findIdx_cons, hopening, cond_true] at hwalk

theorem containing_calleeAt_braces (h : d.WellFormed) :
    (Statements.ofTexts (d.stream .braces)).containing d.calleeAt =
      ⟨d.calleeAt, d.stop .braces - 1⟩ := by
  have hopening : Statements.boundaryAt (d.stream .braces) (d.nameAt + 1) = true := by
    rw [boundaryAt_stream, binding, Statements.boundaryAt_cons_succ,
      Statements.boundaryAt_cons_zero]
    decide
  have hwalk := walkOn_stream d .braces 2
  have hback : Statements.walkBack (d.stream .braces) d.calleeAt = d.calleeAt := by
    rw [calleeAt, Statements.walkBack, if_pos hopening]
  have hon : Statements.walkOn (d.stream .braces) d.calleeAt = d.stop .braces - 1 := by
    rw [binding, List.drop_succ_cons, List.drop_succ_cons, List.drop_zero, findIdx_call h,
      if_pos rfl] at hwalk
    rw [calleeAt, hwalk, stop, calleeAt, Initialiser.closing, List.length_singleton]
    omega
  have hlen : d.calleeAt ≤ (d.stream .braces).length := by
    rw [length_stream, stop]
    omega
  rw [Statements.containing_eq_walks hlen, hback, hon]

theorem start_le_walkBack (h : d.WellFormed) :
    d.start ≤ Statements.walkBack (d.stream form) d.nameAt := by
  cases h.opens with
  | inl hnil =>
    rw [start, hnil, List.length_nil]
    exact Nat.zero_le _
  | inr hlast =>
    by_contra hlt
    rw [Nat.not_le] at hlt
    have hle := d.start_le_nameAt
    have hclear := (Statements.walkBack_beginsAt (d.stream form) d.nameAt).clear (d.start - 1)
      (by omega) (by omega)
    have hin : Statements.boundaryAt (d.stream form) (d.start - 1) =
        Statements.boundaryAt d.before (d.before.length - 1) := by
      rw [start] at hlt ⊢
      rw [Statements.boundaryAt, Statements.boundaryAt, stream, List.append_assoc,
        List.getElem?_append_left (by omega)]
    rw [hin, hlast] at hclear
    cases hclear

end Declaration

end SpaceAudit
