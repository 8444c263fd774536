import SpaceAudit.Call.Arguments
import SpaceAudit.Proofs.Audit.Subject

/-! The walk over the arguments of a call. Whatever the links of the stream are, it loses no token
and takes none twice, and it comes to an end. Where the links are pairs of brackets that nest, it
cuts at the commas that a count of the open brackets finds outside all of them. -/
namespace SpaceAudit.Configuration

section Spans
variable {c : Configuration}

theorem tokensIn_eq_nil {first stop : Nat} (h : stop ≤ first) : c.tokensIn ⟨first, stop⟩ = [] := by
  have hlength : (Span.mk first stop).length = 0 := Nat.sub_eq_zero_of_le h
  rw [tokensIn, Span.positions, hlength]
  rfl

theorem tokensIn_cons (t : c.TokenIdx) {stop : Nat} (h : t.val < stop) :
    c.tokensIn ⟨t, stop⟩ = t :: c.tokensIn ⟨t + 1, stop⟩ := by
  have hlength : (Span.mk t.val stop).length = (Span.mk (t.val + 1) stop).length + 1 := by
    simp only [Span.length]
    omega
  have hat : c.tokenAt? t.val = some t := tokenAt?_eq_some_iff.2 rfl
  rw [tokensIn, Span.positions, hlength, List.range'_succ, List.filterMap_cons_some hat]
  rfl

theorem tokensIn_append {first middle stop : Nat} (hfirst : first ≤ middle)
    (hstop : middle ≤ stop) :
    c.tokensIn ⟨first, middle⟩ ++ c.tokensIn ⟨middle, stop⟩ = c.tokensIn ⟨first, stop⟩ := by
  have hmiddle : first + 1 * (middle - first) = middle := by omega
  have hlength : (middle - first) + (stop - middle) = stop - first := by omega
  simp only [tokensIn, Span.positions, Span.length]
  rw [← List.filterMap_append, ← hlength, ← List.range'_append, hmiddle]

theorem tokensBetween_eq {t p : c.TokenIdx} (h : t < p) :
    c.tokensBetween t p = t :: (c.tokensIn ⟨t + 1, p⟩ ++ [p]) := by
  have hlast : c.tokensIn ⟨p, p + 1⟩ = [p] := by
    rw [tokensIn_cons p (Nat.lt_succ_self _), tokensIn_eq_nil (Nat.le_refl _)]
  have hlt : t.val < p.val := h
  rw [tokensBetween, tokensIn_cons t (by omega), ← hlast, tokensIn_append hlt (Nat.le_succ _)]

theorem tokensBetween_append {t p : c.TokenIdx} {stop : Nat} (h : t < p) (hp : p.val < stop) :
    c.tokensBetween t p ++ c.tokensIn ⟨p + 1, stop⟩ = c.tokensIn ⟨t, stop⟩ := by
  have hlt : t.val < p.val := h
  exact tokensIn_append (by omega) hp

end Spans

section Arguments
variable {c : Configuration} {close t : c.TokenIdx}

theorem argumentsFrom_comma (ht : t.val < close) (htext : c.text t = ",")
    (current : List c.TokenIdx) :
    c.argumentsFrom close current t = current :: c.argumentsFrom close [] (t + 1) := by
  rw [argumentsFrom, dif_pos ht]
  exact if_pos htext

theorem argumentsFrom_linked {partner : c.TokenIdx} (htext : c.text t ≠ ",")
    (hlink : (c.token t).link.get? = some partner) (hinside : t < partner ∧ partner < close)
    (current : List c.TokenIdx) :
    c.argumentsFrom close current t =
      c.argumentsFrom close (current ++ c.tokensBetween t partner) (partner + 1) := by
  have ht : t.val < close := lt_trans hinside.1 hinside.2
  rw [argumentsFrom, dif_pos ht]
  dsimp only
  rw [if_neg htext, hlink]
  exact dif_pos hinside

theorem argumentsFrom_plain (ht : t.val < close) (htext : c.text t ≠ ",")
    (hlink : ∀ partner, (c.token t).link.get? = some partner → ¬ (t < partner ∧ partner < close))
    (current : List c.TokenIdx) :
    c.argumentsFrom close current t = c.argumentsFrom close (current ++ [t]) (t + 1) := by
  rw [argumentsFrom, dif_pos ht]
  dsimp only
  rw [if_neg htext]
  cases hget : (c.token t).link.get? with
  | none => rfl
  | some partner => exact dif_neg (hlink partner hget)

theorem argumentsFrom_end {i : Nat} (hi : ¬ i < close.val) (current : List c.TokenIdx) :
    c.argumentsFrom close current i = [current] := by
  rw [argumentsFrom, dif_neg hi]

end Arguments

/-- The walk over the arguments of a call at some moment: the arguments that a comma has ended, what
the next one holds already, and where it goes on. -/
structure Walk (c : Configuration) where
  ended : List (List c.TokenIdx)
  current : List c.TokenIdx
  position : Nat

namespace Walk
variable {c : Configuration}

def start (opening : c.TokenIdx) : Walk c := ⟨[], [], opening + 1⟩

/-- What a walk that is over has found. A single argument that holds nothing is none. -/
def found (w : Walk c) : List (List c.TokenIdx) :=
  if w.ended = [] ∧ w.current = [] then [] else w.ended ++ [w.current]

/-- One turn of the walk. -/
inductive Turn (close : c.TokenIdx) (w : Walk c) : Walk c → Prop
  | comma (t : c.TokenIdx) (hat : t.val = w.position) (hin : t < close) (htext : c.text t = ",") :
    Turn close w ⟨w.ended ++ [w.current], [], t + 1⟩
  | bracket (t partner : c.TokenIdx) (hat : t.val = w.position) (htext : c.text t ≠ ",")
    (hlink : (c.token t).link.get? = some partner) (hinside : t < partner ∧ partner < close) :
    Turn close w ⟨w.ended, w.current ++ c.tokensBetween t partner, partner + 1⟩
  | plain (t : c.TokenIdx) (hat : t.val = w.position) (hin : t < close) (htext : c.text t ≠ ",")
    (hlink : ∀ partner, (c.token t).link.get? = some partner →
      ¬ (t < partner ∧ partner < close)) :
    Turn close w ⟨w.ended, w.current ++ [t], t + 1⟩

inductive Turns (close : c.TokenIdx) : Nat → Walk c → Walk c → Prop
  | none (w : Walk c) : Turns close 0 w w
  | more {n : Nat} {w v u : Walk c} (first : Turn close w v) (rest : Turns close n v u) :
    Turns close (n + 1) w u

variable {close : c.TokenIdx}

theorem Turn.forward {w v : Walk c} (h : Turn close w v) :
    w.position < close.val ∧ w.position < v.position := by
  cases h with
  | comma t hat hin _ =>
    have hlt : t.val < close.val := hin
    exact ⟨by omega, by dsimp only; omega⟩
  | bracket t partner hat _ _ hinside =>
    have hlt : t.val < partner.val := hinside.1
    have hin : partner.val < close.val := hinside.2
    exact ⟨by omega, by dsimp only; omega⟩
  | plain t hat hin _ _ =>
    have hlt : t.val < close.val := hin
    exact ⟨by omega, by dsimp only; omega⟩

theorem exists_turn {w : Walk c} (h : w.position < close.val) : ∃ v, Turn close w v := by
  have hlt : w.position < c.extent.tokens := Nat.lt_trans h close.isLt
  by_cases htext : c.text ⟨w.position, hlt⟩ = ","
  · exact ⟨_, .comma ⟨w.position, hlt⟩ rfl h htext⟩
  · by_cases hlink : ∃ partner, (c.token ⟨w.position, hlt⟩).link.get? = some partner ∧
        (⟨w.position, hlt⟩ < partner ∧ partner < close)
    · obtain ⟨partner, hlink, hinside⟩ := hlink
      exact ⟨_, .bracket ⟨w.position, hlt⟩ partner rfl htext hlink hinside⟩
    · exact ⟨_, .plain ⟨w.position, hlt⟩ rfl h htext fun partner hget hinside =>
        hlink ⟨partner, hget, hinside⟩⟩

/-- What holds of a walk at its end, and before a turn if it does after it, holds of every walk. -/
theorem induction {motive : Walk c → Prop} (close : c.TokenIdx)
    (atEnd : ∀ w, close.val ≤ w.position → motive w)
    (turned : ∀ w v, Turn close w v → motive v → motive w) (w : Walk c) : motive w := by
  induction hrest : close.val - w.position using Nat.strong_induction_on generalizing w with
  | _ rest ih =>
    by_cases hin : w.position < close.val
    · obtain ⟨v, hturn⟩ := exists_turn hin
      have hforward := hturn.forward.2
      exact turned w v hturn (ih (close.val - v.position) (by omega) v rfl)
    · exact atEnd w (Nat.le_of_not_lt hin)

theorem Turns.length_le {n : Nat} {w v : Walk c} (h : Turns close n w v) :
    n ≤ close.val - w.position := by
  induction h with
  | none w => exact Nat.zero_le _
  | more first _ ih =>
    have hforward := first.forward
    omega

theorem exists_turns (close : c.TokenIdx) (w : Walk c) :
    ∃ n v, Turns close n w v ∧ close.val ≤ v.position := by
  induction w using Walk.induction close with
  | atEnd w h => exact ⟨0, w, .none w, h⟩
  | turned w v hturn ih =>
    obtain ⟨n, u, hturns, hover⟩ := ih
    exact ⟨n + 1, u, .more hturn hturns, hover⟩

theorem Turn.argumentsFrom {w v : Walk c} (h : Turn close w v) :
    w.ended ++ c.argumentsFrom close w.current w.position =
      v.ended ++ c.argumentsFrom close v.current v.position := by
  cases h with
  | comma t hat hin htext =>
    rw [← hat, argumentsFrom_comma hin htext, List.append_assoc, List.singleton_append]
  | bracket t partner hat htext hlink hinside =>
    rw [← hat, argumentsFrom_linked htext hlink hinside]
  | plain t hat hin htext hlink =>
    rw [← hat, argumentsFrom_plain hin htext hlink]

theorem Turns.argumentsFrom {n : Nat} {w v : Walk c} (h : Turns close n w v)
    (hover : close.val ≤ v.position) :
    w.ended ++ c.argumentsFrom close w.current w.position = v.ended ++ [v.current] := by
  induction h with
  | none w => rw [argumentsFrom_end (Nat.not_lt.2 hover)]
  | more first _ ih => rw [first.argumentsFrom, ih hover]

theorem found_eq (w : Walk c) :
    w.found = if w.ended ++ [w.current] = [[]] then [] else w.ended ++ [w.current] := by
  rw [found]
  refine if_congr ?_ rfl rfl
  cases hended : w.ended <;> simp

end Walk

section Joining
variable {c : Configuration}

/-- The lists, with a comma token between each two of them, make up the tokens. -/
inductive Joins (c : Configuration) : List (List c.TokenIdx) → List c.TokenIdx → Prop
  | last (argument : List c.TokenIdx) : Joins c [argument] argument
  | comma (argument : List c.TokenIdx) {t : c.TokenIdx} (htext : c.text t = ",")
    {arguments : List (List c.TokenIdx)} {rest : List c.TokenIdx} (h : Joins c arguments rest) :
    Joins c (argument :: arguments) (argument ++ t :: rest)

theorem joins_argumentsFrom (close : c.TokenIdx) (w : Walk c) :
    Joins c (c.argumentsFrom close w.current w.position)
      (w.current ++ c.tokensIn ⟨w.position, close⟩) := by
  induction w using Walk.induction close with
  | atEnd w h =>
    rw [argumentsFrom_end (Nat.not_lt.2 h), tokensIn_eq_nil h, List.append_nil]
    exact .last w.current
  | turned w v hturn ih =>
    cases hturn with
    | comma t hat hin htext =>
      rw [← hat, argumentsFrom_comma hin htext, tokensIn_cons t hin]
      exact .comma w.current htext ih
    | bracket t partner hat htext hlink hinside =>
      rw [← hat, argumentsFrom_linked htext hlink hinside,
        ← tokensBetween_append hinside.1 hinside.2, ← List.append_assoc]
      exact ih
    | plain t hat hin htext hlink =>
      have hcons := List.append_cons w.current t (c.tokensIn ⟨t + 1, close⟩)
      rw [← hat, argumentsFrom_plain hin htext hlink, tokensIn_cons t hin, hcons]
      exact ih

theorem Joins.eq_single {argument tokens : List c.TokenIdx} (h : Joins c [argument] tokens) :
    tokens = argument := by
  cases h with
  | last => rfl
  | comma _ _ h => cases h

/-- Only a list without tokens is taken for a single argument that holds nothing. -/
theorem argumentsFrom_eq_empty_iff {opening close : c.TokenIdx} :
    c.argumentsFrom close [] (opening + 1) = [[]] ↔ close.val ≤ opening + 1 := by
  constructor
  · intro h
    have hjoins := joins_argumentsFrom close (Walk.start opening)
    rw [Walk.start, h] at hjoins
    have hnil := hjoins.eq_single
    by_contra hlt
    rw [Nat.not_le] at hlt
    have hmem : (⟨opening + 1, Nat.lt_trans hlt close.isLt⟩ : c.TokenIdx) ∈
        c.tokensIn ⟨opening + 1, close⟩ := mem_tokensIn.2 ⟨Nat.le_refl _, hlt⟩
    rw [List.nil_append] at hnil
    rw [hnil] at hmem
    cases hmem
  · intro h
    exact argumentsFrom_end (Nat.not_lt.2 h) []

theorem argumentList?_eq_some_iff {call opening : c.TokenIdx} :
    c.argumentList? call = some opening ↔ opening.val = call + 1 ∧ c.text opening = "(" := by
  rw [argumentList?, Option.filter_eq_some_iff, next?, tokenAt?_eq_some_iff, beq_iff_eq, eq_comm]

theorem callArguments_eq_ok {call : c.TokenIdx} {arguments : List (List c.TokenIdx)}
    (h : c.callArguments call = .ok arguments) :
    ∃ opening close, c.argumentList? call = some opening ∧
      (c.token opening).link = .resolved close ∧
      arguments = if c.argumentsFrom close [] (opening + 1) = [[]] then []
        else c.argumentsFrom close [] (opening + 1) := by
  unfold callArguments at h
  split at h
  · cases h
  · rename_i opening hlist
    split at h
    · cases h
    · rename_i close hlink
      refine ⟨opening, close, hlist, Ref.require_eq_ok_iff.1 hlink, ?_⟩
      split at h
      · rename_i hempty
        rw [if_pos hempty]
        exact (Except.ok.inj h).symm
      · rename_i hsome
        rw [if_neg hsome]
        exact (Except.ok.inj h).symm

end Joining

section Depth
variable {c : Configuration}

/-- What a token adds to the number of open pairs: its partner comes later, or came before. -/
def depthChange (c : Configuration) (t : c.TokenIdx) : Int :=
  ((c.token t).link.get?.map fun p => if t < p then 1 else if p < t then -1 else 0).getD 0

/-- The tokens cut at the commas where no pair is open. -/
def splitByDepth (c : Configuration) (depth : Int) (current : List c.TokenIdx) :
    List c.TokenIdx → List (List c.TokenIdx)
  | [] => [current]
  | t :: ts =>
    if c.text t = "," ∧ depth = 0 then current :: splitByDepth c depth [] ts
    else splitByDepth c (depth + c.depthChange t) (current ++ [t]) ts

/-- The linked tokens from `first` up to `stop` are pairs that nest, and no comma is one of them. -/
structure Paired (c : Configuration) (first : Nat) (stop : c.TokenIdx) : Prop where
  commas : ∀ t : c.TokenIdx, first ≤ t.val → t < stop → c.text t = "," →
    (c.token t).link.get? = none
  partners : ∀ t p : c.TokenIdx, first ≤ t.val → t < stop → (c.token t).link.get? = some p →
    first ≤ p.val ∧ p < stop ∧ p ≠ t ∧ (c.token p).link.get? = some t
  nested : ∀ t p u q : c.TokenIdx, first ≤ t.val → p < stop → (c.token t).link.get? = some p →
    t < u → u < p → (c.token u).link.get? = some q → t < q ∧ q < p

namespace Paired
variable {first : Nat} {stop t p : c.TokenIdx}

theorem behind_unlinked (h : c.Paired first stop) (hat : t.val = first)
    (hlink : (c.token t).link.get? = none) : c.Paired (t + 1) stop where
  commas u hu := h.commas u (by omega)
  partners u q hu hlt hq := by
    obtain ⟨hfirst, hstop, hne, hback⟩ := h.partners u q (by omega) hlt hq
    have hother : q ≠ t := by
      intro heq
      rw [heq, hlink] at hback
      cases hback
    rw [Ne, Fin.ext_iff] at hother
    exact ⟨by omega, hstop, hne, hback⟩
  nested u q v r hu := h.nested u q v r (by omega)

theorem inside (h : c.Paired first stop) (hat : first ≤ t.val) (hp : p < stop)
    (hlink : (c.token t).link.get? = some p) : c.Paired (t + 1) p where
  commas u hu hlt := h.commas u (by omega) (lt_trans hlt hp)
  partners u q hu hlt hq := by
    obtain ⟨_, _, hne, hback⟩ := h.partners u q (by omega) (lt_trans hlt hp) hq
    obtain ⟨hfrom, hto⟩ := h.nested t p u q hat hp hlink hu hlt hq
    exact ⟨hfrom, hto, hne, hback⟩
  nested u q v r hu hlt := h.nested u q v r (by omega) (lt_trans hlt hp)

theorem partner_behind (h : c.Paired first stop) (hat : t.val = first) (htp : t < p)
    (hp : p < stop) (hlink : (c.token t).link.get? = some p) {u q : c.TokenIdx} (hu : p < u)
    (hstop : u < stop) (hq : (c.token u).link.get? = some q) : p < q := by
  have hlt : t.val < p.val := htp
  have hpu : p.val < u.val := hu
  obtain ⟨hfirst, _, _, hback⟩ := h.partners u q (by omega) hstop hq
  have hclosing := (h.partners t p (by omega) (lt_trans htp hp) hlink).2.2.2
  by_contra hle
  -- The partner is `p`, lies between `t` and `p`, or is `t`.
  by_cases hqp : q = p
  · rw [hqp, hclosing, Option.some.injEq] at hback
    rw [← hback] at hpu
    omega
  have hbefore : q < p := lt_of_le_of_ne (not_lt.1 hle) hqp
  by_cases hqt : q = t
  · rw [hqt, hlink, Option.some.injEq] at hback
    rw [hback] at hpu
    omega
  · have hafter : t < q := lt_of_le_of_ne (Fin.le_def.2 (by omega)) (Ne.symm hqt)
    have hinside := h.nested t p q u (by omega) hp hlink hafter hbefore hback
    exact lt_asymm hinside.2 hu

theorem behind (h : c.Paired first stop) (hat : t.val = first) (htp : t < p) (hp : p < stop)
    (hlink : (c.token t).link.get? = some p) : c.Paired (p + 1) stop := by
  have hlt : t.val < p.val := htp
  refine ⟨fun u hu => h.commas u (by omega), fun u q hu hstop hq => ?_, fun u q v r hu =>
    h.nested u q v r (by omega)⟩
  obtain ⟨_, hend, hne, hback⟩ := h.partners u q (by omega) hstop hq
  exact ⟨h.partner_behind hat htp hp hlink hu hstop hq, hend, hne, hback⟩

end Paired

theorem depthChange_unlinked {t : c.TokenIdx} (hlink : (c.token t).link.get? = none) :
    c.depthChange t = 0 := by
  rw [depthChange, hlink]
  rfl

theorem depthChange_opening {t p : c.TokenIdx} (hlink : (c.token t).link.get? = some p)
    (h : t < p) : c.depthChange t = 1 := by
  rw [depthChange, hlink, Option.map_some, if_pos h]
  rfl

theorem depthChange_closing {t p : c.TokenIdx} (hlink : (c.token p).link.get? = some t)
    (h : t < p) : c.depthChange p = -1 := by
  rw [depthChange, hlink, Option.map_some, if_neg (not_lt_of_gt h), if_pos h]
  rfl

theorem splitByDepth_cut {t : c.TokenIdx} (htext : c.text t = ",") (current rest : List c.TokenIdx) :
    c.splitByDepth 0 current (t :: rest) = current :: c.splitByDepth 0 [] rest := by
  rw [splitByDepth, if_pos ⟨htext, rfl⟩]

theorem splitByDepth_keep {t : c.TokenIdx} {depth : Int} (h : c.text t = "," → depth ≠ 0)
    (current rest : List c.TokenIdx) :
    c.splitByDepth depth current (t :: rest) =
      c.splitByDepth (depth + c.depthChange t) (current ++ [t]) rest := by
  rw [splitByDepth, if_neg]
  intro hcut
  exact h hcut.1 hcut.2

theorem splitByDepth_pair {first : Nat} {stop t p : c.TokenIdx} (h : c.Paired first stop)
    (hat : first ≤ t.val) (htp : t < p) (hp : p < stop) (hlink : (c.token t).link.get? = some p)
    (depth : Int)
    (hinside : ∀ current rest, c.splitByDepth (depth + 1) current (c.tokensIn ⟨t + 1, p⟩ ++ rest) =
      c.splitByDepth (depth + 1) (current ++ c.tokensIn ⟨t + 1, p⟩) rest)
    (current rest : List c.TokenIdx) :
    c.splitByDepth depth current (c.tokensBetween t p ++ rest) =
      c.splitByDepth depth (current ++ c.tokensBetween t p) rest := by
  have hback := (h.partners t p hat (lt_trans htp hp) hlink).2.2.2
  have hlt : t.val < p.val := htp
  have hopening : c.text t ≠ "," := by
    intro htext
    rw [h.commas t hat (lt_trans htp hp) htext] at hlink
    cases hlink
  have hclosing : c.text p ≠ "," := by
    intro htext
    rw [h.commas p (by omega) hp htext] at hback
    cases hback
  have hsum : depth + 1 + -1 = depth := by omega
  rw [tokensBetween_eq htp, List.cons_append, List.append_assoc, List.singleton_append,
    splitByDepth_keep fun htext => absurd htext hopening, depthChange_opening hlink htp, hinside,
    splitByDepth_keep fun htext => absurd htext hclosing, depthChange_closing hback htp, hsum]
  simp only [List.append_assoc, List.cons_append, List.nil_append]

/-- Inside an open pair nothing is cut, and what is paired leaves the depth as it was. -/
theorem splitByDepth_paired {first : Nat} {stop : c.TokenIdx} (h : c.Paired first stop)
    {depth : Int} (hdepth : 0 < depth) (current rest : List c.TokenIdx) :
    c.splitByDepth depth current (c.tokensIn ⟨first, stop⟩ ++ rest) =
      c.splitByDepth depth (current ++ c.tokensIn ⟨first, stop⟩) rest := by
  induction hsize : stop.val - first using Nat.strong_induction_on
    generalizing first stop depth current rest with
  | _ size ih =>
    by_cases hin : first < stop.val
    · obtain ⟨t, hat⟩ : ∃ t : c.TokenIdx, t.val = first := ⟨⟨first, hin.trans stop.isLt⟩, rfl⟩
      have ht : t < stop := by
        rw [Fin.lt_def]
        omega
      cases hlink : (c.token t).link.get? with
      | none =>
        rw [← hat, tokensIn_cons t ht, List.cons_append,
          splitByDepth_keep fun _ => Int.ne_of_gt hdepth, depthChange_unlinked hlink, Int.add_zero,
          ih (stop.val - (t.val + 1)) (by omega) (h.behind_unlinked hat hlink) hdepth _ _ rfl,
          List.append_assoc, List.singleton_append]
      | some p =>
        obtain ⟨hfrom, hp, hne, _⟩ := h.partners t p (by omega) ht hlink
        have htp : t < p := by
          rw [Ne, Fin.ext_iff] at hne
          rw [Fin.lt_def]
          omega
        have hlt : t.val < p.val := htp
        have hstop : p.val < stop.val := hp
        have hwhole := splitByDepth_pair h (by omega) htp hp hlink depth
          fun current rest => ih (p.val - (t.val + 1)) (by omega)
            (h.inside (by omega) hp hlink) (by omega) current rest rfl
        rw [← hat, ← tokensBetween_append htp hp, List.append_assoc, hwhole,
          ih (stop.val - (p.val + 1)) (by omega) (h.behind hat htp hp hlink) hdepth _ _ rfl,
          List.append_assoc]
    · rw [tokensIn_eq_nil (Nat.le_of_not_lt hin), List.nil_append, List.append_nil]

theorem argumentsFrom_eq_splitByDepth (close : c.TokenIdx) (w : Walk c)
    (h : c.Paired w.position close) :
    c.argumentsFrom close w.current w.position =
      c.splitByDepth 0 w.current (c.tokensIn ⟨w.position, close⟩) := by
  induction w using Walk.induction close with
  | atEnd w hover =>
    rw [argumentsFrom_end (Nat.not_lt.2 hover), tokensIn_eq_nil hover]
    rfl
  | turned w v hturn ih =>
    cases hturn with
    | comma t hat hin htext =>
      have hnone := h.commas t (by omega) hin htext
      rw [← hat, argumentsFrom_comma hin htext, tokensIn_cons t hin, splitByDepth_cut htext,
        ih (h.behind_unlinked hat hnone)]
    | bracket t p hat htext hlink hinside =>
      have hwhole := splitByDepth_pair h (by omega) hinside.1 hinside.2 hlink 0
        (splitByDepth_paired (h.inside (by omega) hinside.2 hlink) Int.zero_lt_one)
      rw [← hat, argumentsFrom_linked htext hlink hinside,
        ← tokensBetween_append hinside.1 hinside.2, hwhole,
        ih (h.behind hat hinside.1 hinside.2 hlink)]
    | plain t hat hin htext hlink =>
      -- A partner would come later, and inside.
      have hnone : (c.token t).link.get? = none := by
        by_contra hsome
        obtain ⟨p, hp⟩ := Option.ne_none_iff_exists'.1 hsome
        obtain ⟨hfrom, hstop, hne, _⟩ := h.partners t p (by omega) hin hp
        rw [Ne, Fin.ext_iff] at hne
        refine hlink p hp ⟨?_, hstop⟩
        rw [Fin.lt_def]
        omega
      rw [← hat, argumentsFrom_plain hin htext hlink, tokensIn_cons t hin,
        splitByDepth_keep fun hcomma => absurd hcomma htext, depthChange_unlinked hnone,
        Int.add_zero, ih (h.behind_unlinked hat hnone)]

end Depth

/-- The arguments of a call are all its tokens between the brackets, cut at commas: joined by one
comma each they are these tokens again, and there is no argument only if there is no token. The walk
that finds them ends, after no more turns than there are tokens. Where the links are pairs that
nest, the commas are those which no pair holds. -/
theorem callArguments_lossless (c : Configuration) (call : c.TokenIdx)
    (arguments : List (List c.TokenIdx)) (h : c.callArguments call = .ok arguments) :
    ∃ opening close : c.TokenIdx, c.argumentList? call = some opening ∧
      (c.token opening).link = .resolved close ∧
      (arguments = [] ↔ close.val ≤ opening + 1) ∧
      (arguments ≠ [] → Joins c arguments (c.tokensIn ⟨opening + 1, close⟩)) ∧
      ((∀ n w, Walk.Turns close n (.start opening) w → n ≤ close - (opening + 1)) ∧
        ∃ n w, Walk.Turns close n (.start opening) w ∧ close.val ≤ w.position ∧
          arguments = w.found) ∧
      (c.Paired (opening + 1) close → arguments ≠ [] →
        arguments = c.splitByDepth 0 [] (c.tokensIn ⟨opening + 1, close⟩)) := by
  obtain ⟨opening, close, hlist, hlink, harguments⟩ := callArguments_eq_ok h
  have hnone : arguments = [] ↔ c.argumentsFrom close [] (opening + 1) = [[]] := by
    rw [harguments, ite_eq_left_iff]
    constructor
    · intro hnil
      by_contra hsome
      have hjoins := joins_argumentsFrom close (Walk.start opening)
      rw [Walk.start, hnil hsome] at hjoins
      cases hjoins
    · intro hempty hsome
      exact absurd hempty hsome
  have hsome (hne : arguments ≠ []) : arguments = c.argumentsFrom close [] (opening + 1) := by
    rw [harguments, if_neg fun hempty => hne (hnone.2 hempty)]
  refine ⟨opening, close, hlist, hlink, hnone.trans argumentsFrom_eq_empty_iff, fun hne => ?_,
    ⟨fun n w hturns => hturns.length_le, ?_⟩, fun hpaired hne => ?_⟩
  · rw [hsome hne]
    exact joins_argumentsFrom close (Walk.start opening)
  · obtain ⟨n, w, hturns, hover⟩ := Walk.exists_turns close (Walk.start opening)
    refine ⟨n, w, hturns, hover, ?_⟩
    rw [Walk.found_eq, ← hturns.argumentsFrom hover]
    exact harguments
  · rw [hsome hne]
    exact argumentsFrom_eq_splitByDepth close (Walk.start opening) hpaired

/-- A call with a plain argument, a capture list and an empty argument. -/
def captureCallTexts : Vector String 11 :=
  #v["f", "(", "a", ",", "[", "x", ",", "y", "]", ",", ")"]

def captureCallIds : Vector String 11 :=
  #v["t1", "t2", "t3", "t4", "t5", "t6", "t7", "t8", "t9", "t10", "t11"]

def captureCallLink (i : Nat) : Option String :=
  if i = 1 then some "t11" else if i = 10 then some "t2" else if i = 4 then some "t9"
  else if i = 8 then some "t5" else none

def captureCall : Configuration where
  name := ""
  sections := ⟨true, true, true, true⟩
  extent := ⟨11, 0, 0, 0⟩
  tokens := Vector.ofFn fun i =>
    ⟨captureCallIds.get i, captureCallTexts.get i, 0, 1, i.val, .absent, .absent, .absent,
      .resolve captureCallIds (captureCallLink i.val), .absent⟩
  scopes := #v[]
  functions := #v[]
  vars := #v[]
  directives := []

theorem captureCall_paired : captureCall.Paired 2 (10 : Fin 11) := by
  have hcommas : ∀ t : captureCall.TokenIdx, captureCall.text t = "," →
      (captureCall.token t).link.get? = none := by decide +kernel
  have hpartners : ∀ t : captureCall.TokenIdx, ∀ p ∈ (captureCall.token t).link.get?,
      2 ≤ t.val → t.val < 10 → 2 ≤ p.val ∧ p.val < 10 ∧ p ≠ t ∧
        (captureCall.token p).link.get? = some t := by decide +kernel
  have hnested : ∀ t u : captureCall.TokenIdx, ∀ p ∈ (captureCall.token t).link.get?,
      ∀ q ∈ (captureCall.token u).link.get?, t < u → u < p → t < q ∧ q < p := by decide +kernel
  exact ⟨fun t _ _ => hcommas t, fun t p hfirst hstop hp => hpartners t p hp hfirst hstop,
    fun t p u q _ _ hp htu hup hq => hnested t u p hp q hq htu hup⟩

def captureCallArguments : List (List captureCall.TokenIdx) :=
  [captureCall.tokensIn ⟨2, 3⟩, captureCall.tokensIn ⟨4, 9⟩, []]

/-- The comma of the capture list is not cut at, and the last argument is there without a token. -/
theorem callArguments_lossless_capture :
    captureCall.callArguments (0 : Fin 11) = .ok captureCallArguments ∧
      Joins captureCall captureCallArguments (captureCall.tokensIn ⟨2, 10⟩) ∧
      captureCall.splitByDepth 0 [] (captureCall.tokensIn ⟨2, 10⟩) = captureCallArguments := by
  have hcall : captureCall.callArguments (0 : Fin 11) = .ok captureCallArguments := by
    decide +kernel
  obtain ⟨opening, close, hlist, hlink, _, hjoins, _, hdepth⟩ :=
    callArguments_lossless captureCall (0 : Fin 11) captureCallArguments hcall
  have hopening : captureCall.argumentList? (0 : Fin 11) = some (1 : Fin 11) := rfl
  obtain rfl := Option.some.inj (hlist.symm.trans hopening)
  have hclose : (captureCall.token (1 : Fin 11)).link = .resolved (10 : Fin 11) := by decide +kernel
  obtain rfl := Ref.resolved.inj (hlink.symm.trans hclose)
  have hsome : captureCallArguments ≠ [] := by simp [captureCallArguments]
  exact ⟨hcall, hjoins hsome, (hdepth captureCall_paired hsome).symm⟩

end SpaceAudit.Configuration
