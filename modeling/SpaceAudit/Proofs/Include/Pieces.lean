import Mathlib.Data.List.TakeWhile
import SpaceAudit.Include.Directive

/-! What is recognised in a directive, said without the reader: the longest piece counts, blanks are
skipped, and where no piece stands the longest beginning of one is given up. Nothing behind the
target of an include line can change what is read before it. -/
namespace SpaceAudit

namespace Piece

/-- The ways to enclose a name. -/
inductive Enclosure where
  | quotes | angles
deriving DecidableEq, Repr

namespace Enclosure

def opening : Enclosure → Char
  | quotes => '"'
  | angles => '<'

def closing : Enclosure → Char
  | quotes => '"'
  | angles => '>'

def piece (name : String) : Enclosure → Piece
  | quotes => .quoted name
  | angles => .angled name

theorem opening_injective {e e' : Enclosure} (h : e.opening = e'.opening) : e = e' := by
  revert h
  cases e <;> cases e' <;> decide

end Enclosure

/-- The text that a piece is written as. -/
inductive Spells : List Char → Piece → Prop
  | hash : Spells ['#'] .hash
  | word {c : Char} {cs : List Char} (hc : isWordStart c = true)
      (hcs : ∀ d ∈ cs, isWordChar d = true) : Spells (c :: cs) (.word (String.ofList (c :: cs)))
  | enclosed (e : Enclosure) {name : List Char} (hname : e.closing ∉ name) :
      Spells (e.opening :: (name ++ [e.closing])) (e.piece (String.ofList name))

def Begins (text : List Char) : Prop := ∃ more p, Spells (text ++ more) p

def isGap (c : Char) : Bool := c == ' ' || c == '\t'

/-- The pieces of a text, from left to right. -/
inductive Recognised : List Char → List Piece → Prop
  | done : Recognised [] []
  | skip {c : Char} {cs : List Char} {ps : List Piece} (hc : isGap c = true)
      (h : Recognised cs ps) : Recognised (c :: cs) ps
  | take {text rest : List Char} {p : Piece} {ps : List Piece} (hp : Spells text p)
      (hlongest : ∀ longer, longer <+: text ++ rest → text.length < longer.length →
        ∀ q, ¬ Spells longer q)
      (h : Recognised rest ps) : Recognised (text ++ rest) (p :: ps)
  /-- Gives up at least one character. -/
  | drop {c : Char} {text rest : List Char} {ps : List Piece} (hc : isGap c = false)
      (hnone : ∀ found, found <+: c :: (text ++ rest) → ∀ q, ¬ Spells found q)
      (hbegins : text ≠ [] → Begins (c :: text))
      (hlongest : ∀ longer, longer <+: c :: (text ++ rest) → text.length + 1 < longer.length →
        ¬ Begins longer)
      (h : Recognised rest ps) : Recognised (c :: (text ++ rest)) ps

section Reading

theorem lex_hash (cs : List Char) : lex ('#' :: cs) = hash :: lex cs := by
  rw [lex, if_pos rfl]

theorem lex_word {c : Char} {word rest : List Char} (hc : isWordStart c = true)
    (hword : ∀ d ∈ word, isWordChar d = true) (hrest : ∀ d ∈ rest.head?, isWordChar d = false) :
    lex (c :: (word ++ rest)) = .word (String.ofList (c :: word)) :: lex rest := by
  have hhash : c ≠ '#' := by
    intro h
    rw [h] at hc
    exact absurd hc (by decide)
  have hstop : rest.takeWhile isWordChar = [] ∧ rest.dropWhile isWordChar = rest := by
    cases rest with
    | nil => exact ⟨rfl, rfl⟩
    | cons d ds =>
      have hd : ¬ isWordChar d = true := Bool.eq_false_iff.1 (hrest d rfl)
      exact ⟨List.takeWhile_cons_of_neg hd, List.dropWhile_cons_of_neg hd⟩
  rw [lex, if_neg hhash, if_pos hc, List.takeWhile_append_of_pos hword,
    List.dropWhile_append_of_pos hword, hstop.1, hstop.2, List.append_nil]

theorem upTo_eq_some_iff {close : Char} {cs name rest : List Char} :
    upTo close cs = some (name, rest) ↔ close ∉ name ∧ cs = name ++ close :: rest := by
  constructor
  · intro h
    have hparts := List.takeWhile_append_dropWhile (p := (· != close)) (l := cs)
    have hhead := List.head?_dropWhile_not (· != close) cs
    unfold upTo at h
    split at h
    · cases h
    · rename_i d ds hdrop
      obtain ⟨rfl, rfl⟩ := Prod.mk.inj (Option.some.inj h)
      rw [hdrop] at hparts hhead
      have hd : d = close := by simpa using hhead
      rw [hd] at hparts
      refine ⟨fun hmem => ?_, hparts.symm⟩
      simpa using List.mem_takeWhile_imp hmem
  · intro h
    have hname : ∀ d ∈ name, (d != close) = true := by
      intro d hd
      rw [bne_iff_ne]
      exact ne_of_mem_of_not_mem hd h.1
    simp [upTo, h.2, List.dropWhile_append_of_pos hname, List.takeWhile_append_of_pos hname]

theorem upTo_eq_none_iff {close : Char} {cs : List Char} : upTo close cs = none ↔ close ∉ cs := by
  constructor
  · intro h hmem
    unfold upTo at h
    split at h
    · rename_i hdrop
      simpa using List.dropWhile_eq_nil_iff.1 hdrop close hmem
    · cases h
  · intro h
    cases hup : upTo close cs with
    | none => rfl
    | some found =>
      obtain ⟨name, rest⟩ := found
      rw [(upTo_eq_some_iff.1 hup).2] at h
      simp at h

theorem lex_opening (e : Enclosure) (cs : List Char) : lex (e.opening :: cs) =
    (upTo e.closing cs).elim [] fun found => e.piece (String.ofList found.1) :: lex found.2 := by
  cases e with
  | quotes =>
    change lex ('"' :: cs) = (upTo '"' cs).elim [] _
    rw [lex, if_neg (by decide), if_neg (by decide), if_pos rfl]
    split
    · rename_i hnone
      rw [hnone]
      rfl
    · rename_i hsome
      rw [hsome]
      rfl
  | angles =>
    change lex ('<' :: cs) = (upTo '>' cs).elim [] _
    rw [lex, if_neg (by decide), if_neg (by decide), if_neg (by decide), if_pos rfl]
    split
    · rename_i hnone
      rw [hnone]
      rfl
    · rename_i hsome
      rw [hsome]
      rfl

theorem lex_closed (e : Enclosure) {name : List Char} (h : e.closing ∉ name) (rest : List Char) :
    lex (e.opening :: (name ++ e.closing :: rest)) = e.piece (String.ofList name) :: lex rest := by
  rw [lex_opening, upTo_eq_some_iff.2 ⟨h, rfl⟩, Option.elim_some]

theorem lex_unclosed (e : Enclosure) {cs : List Char} (h : e.closing ∉ cs) :
    lex (e.opening :: cs) = [] := by
  rw [lex_opening, upTo_eq_none_iff.2 h, Option.elim_none]

def isStart (c : Char) : Bool := c == '#' || isWordStart c || c == '"' || c == '<'

theorem isStart_iff {c : Char} : isStart c = true ↔
    c = '#' ∨ isWordStart c = true ∨ ∃ e : Enclosure, c = e.opening := by
  have hopening : (∃ e : Enclosure, c = e.opening) ↔ c = '"' ∨ c = '<' := by
    constructor
    · intro h
      obtain ⟨e, he⟩ := h
      cases e with
      | quotes => exact .inl he
      | angles => exact .inr he
    · intro h
      exact h.elim (fun hc => ⟨.quotes, hc⟩) fun hc => ⟨.angles, hc⟩
  rw [hopening]
  simp [isStart, or_assoc]

theorem lex_other {c : Char} (h : isStart c = false) (cs : List Char) : lex (c :: cs) = lex cs := by
  simp only [isStart, Bool.or_eq_false_iff, beq_eq_false_iff_ne] at h
  obtain ⟨⟨⟨hhash, hword⟩, hquote⟩, hangle⟩ := h
  rw [lex, if_neg hhash, if_neg (Bool.eq_false_iff.1 hword), if_neg hquote, if_neg hangle]

theorem eq_of_isGap {c : Char} (h : isGap c = true) : c = ' ' ∨ c = '\t' := by
  simpa [isGap] using h

theorem isStart_of_isGap {c : Char} (h : isGap c = true) : isStart c = false := by
  cases eq_of_isGap h with
  | inl hc => rw [hc]; decide
  | inr hc => rw [hc]; decide

theorem isWordChar_of_isGap {c : Char} (h : isGap c = true) : isWordChar c = false := by
  cases eq_of_isGap h with
  | inl hc => rw [hc]; decide
  | inr hc => rw [hc]; decide

theorem lex_gap {gap : List Char} (hgap : ∀ c ∈ gap, isGap c = true) (rest : List Char) :
    lex (gap ++ rest) = lex rest := by
  induction gap with
  | nil => rfl
  | cons c gap ih =>
    obtain ⟨hc, hgap⟩ := List.forall_mem_cons.1 hgap
    rw [List.cons_append, lex_other (isStart_of_isGap hc), ih hgap]

end Reading

section Recognition
variable {c : Char} {cs text rest tail : List Char} {p q : Piece} {ps : List Piece}

theorem Spells.isStart (h : Spells (c :: cs) p) : isStart c = true := by
  rw [isStart_iff]
  cases h with
  | hash => exact .inl rfl
  | word hc hcs => exact .inr (.inl hc)
  | enclosed e hname => exact .inr (.inr ⟨e, rfl⟩)

theorem Begins.isStart (h : Begins (c :: cs)) : Piece.isStart c = true := by
  obtain ⟨more, p, hp⟩ := h
  exact hp.isStart

theorem Spells.of_found {found : List Char} (h : Spells found p) (hfound : found <+: c :: cs) :
    ∃ tail, found = c :: tail ∧ tail <+: cs := by
  cases List.prefix_cons_iff.1 hfound with
  | inl hnil =>
    subst hnil
    cases h
  | inr hcons => exact hcons

theorem Spells.tail_hash (h : Spells ('#' :: tail) p) : tail = [] := by
  generalize hc : '#' = c at h
  cases h with
  | hash => rfl
  | word hword hcs =>
    rw [← hc] at hword
    exact absurd hword (by decide)
  | enclosed e hname => cases e <;> exact absurd hc (by decide)

theorem Spells.tail_word (h : Spells (c :: tail) p) (hc : isWordStart c = true) :
    ∀ d ∈ tail, isWordChar d = true := by
  cases h with
  | hash => exact absurd hc (by decide)
  | word hword hcs => exact hcs
  | enclosed e hname => cases e <;> exact absurd hc (by decide)

theorem Spells.tail_enclosed {e : Enclosure} (h : Spells (e.opening :: tail) p) :
    ∃ name, e.closing ∉ name ∧ tail = name ++ [e.closing] := by
  generalize hc : e.opening = c at h
  cases h with
  | hash => cases e <;> exact absurd hc (by decide)
  | word hword hcs =>
    rw [← hc] at hword
    cases e <;> exact absurd hword (by decide)
  | @enclosed e' name hname =>
    obtain rfl := Enclosure.opening_injective hc
    exact ⟨name, hname, rfl⟩

/-- Whatever is taken as the longest piece is read as that piece. -/
theorem lex_taken (hp : Spells text p)
    (hlongest : ∀ longer, longer <+: text ++ rest → text.length < longer.length →
      ∀ q, ¬ Spells longer q) : lex (text ++ rest) = p :: lex rest := by
  cases hp with
  | hash => exact lex_hash rest
  | @word c cs hc hcs =>
    refine lex_word hc hcs fun d hd => Bool.eq_false_iff.2 fun hchar => ?_
    -- With one more character there would be a longer word.
    obtain ⟨ds, hrest⟩ := List.head?_eq_some_iff.1 hd
    have hlonger : ∀ x ∈ cs ++ [d], isWordChar x = true := by
      intro x hx
      cases List.mem_append.1 hx with
      | inl hx => exact hcs x hx
      | inr hx => rwa [List.mem_singleton.1 hx]
    refine hlongest (c :: (cs ++ [d])) ⟨ds, by simp [hrest]⟩ (by simp) _ (.word hc hlonger)
  | enclosed e hname => simpa using lex_closed e hname rest

theorem lex_dropped (hnone : ∀ found, found <+: c :: (text ++ rest) → ∀ q, ¬ Spells found q)
    (hbegins : text ≠ [] → Begins (c :: text))
    (hlongest : ∀ longer, longer <+: c :: (text ++ rest) → text.length + 1 < longer.length →
      ¬ Begins longer) : lex (c :: (text ++ rest)) = lex rest := by
  have hfirst : [c] <+: c :: (text ++ rest) := ⟨text ++ rest, rfl⟩
  by_cases hstart : isStart c = true
  · cases isStart_iff.1 hstart with
    | inl hhash =>
      subst hhash
      exact absurd .hash (hnone _ hfirst .hash)
    | inr hlater =>
      cases hlater with
      | inl hword => exact absurd (.word hword nofun) (hnone _ hfirst _)
      | inr hopening =>
        obtain ⟨e, rfl⟩ := hopening
        have hclosing : e.closing ∉ text ++ rest := by
          rw [← upTo_eq_none_iff]
          cases hup : upTo e.closing (text ++ rest) with
          | none => rfl
          | some found =>
            obtain ⟨hname, hsplit⟩ := upTo_eq_some_iff.1 hup
            refine absurd (.enclosed e hname) (hnone _ ⟨found.2, ?_⟩ _)
            simp [hsplit]
        -- All of the text begins an enclosed name, so all of it is given up.
        have hrest : rest = [] := by
          by_contra hne
          have hlength := List.length_pos_iff.2 hne
          refine hlongest _ (List.prefix_refl _) ?_ ⟨[e.closing], _, .enclosed e hclosing⟩
          rw [List.length_cons, List.length_append]
          omega
        rw [lex_unclosed e hclosing, hrest, lex]
  · have htext : text = [] := by
      by_contra hne
      exact hstart (hbegins hne).isStart
    rw [htext, List.nil_append, lex_other (Bool.eq_false_iff.2 hstart)]

theorem Recognised.lex_eq (h : Recognised cs ps) : lex cs = ps := by
  induction h with
  | done => rw [lex]
  | skip hc _ ih => rw [lex_other (isStart_of_isGap hc), ih]
  | take hp hlongest _ ih => rw [lex_taken hp hlongest, ih]
  | drop _ hnone hbegins hlongest _ ih => rw [lex_dropped hnone hbegins hlongest, ih]

namespace Recognised

theorem hash_cons (h : Recognised cs ps) : Recognised ('#' :: cs) (.hash :: ps) := by
  refine take .hash (fun longer hlonger hlength q hq => ?_) h
  obtain ⟨tail, rfl, _⟩ := hq.of_found hlonger
  rw [hq.tail_hash] at hlength
  exact absurd hlength (by decide)

theorem word_cons (hc : isWordStart c = true) (h : Recognised (cs.dropWhile isWordChar) ps) :
    Recognised (c :: cs) (.word (String.ofList (c :: cs.takeWhile isWordChar)) :: ps) := by
  have hparts := List.takeWhile_append_dropWhile (p := isWordChar) (l := cs)
  have hword : ∀ d ∈ cs.takeWhile isWordChar, isWordChar d = true :=
    fun d hd => List.mem_takeWhile_imp hd
  have htaken := take (.word hc hword) (fun longer hlonger hlength q hq => ?_) h
  · rwa [List.cons_append, hparts] at htaken
  · rw [List.cons_append, hparts] at hlonger
    obtain ⟨tail, rfl, more, rfl⟩ := hq.of_found hlonger
    rw [List.takeWhile_append_of_pos (hq.tail_word hc)] at hlength
    simp only [List.length_cons, List.length_append] at hlength
    omega

theorem closed_cons (e : Enclosure) {name : List Char} (hname : e.closing ∉ name)
    (h : Recognised rest ps) : Recognised (e.opening :: (name ++ e.closing :: rest))
      (e.piece (String.ofList name) :: ps) := by
  have hparts : e.opening :: (name ++ [e.closing]) ++ rest =
      e.opening :: (name ++ e.closing :: rest) := by simp
  rw [← hparts]
  refine take (.enclosed e hname) (fun longer hlonger hlength q hq => ?_) h
  rw [hparts] at hlonger
  obtain ⟨tail, rfl, more, hmore⟩ := hq.of_found hlonger
  obtain ⟨name', hname', rfl⟩ := hq.tail_enclosed
  rw [List.append_assoc, List.singleton_append] at hmore
  -- Both names end at the first closing character, so they are the same.
  have hup : upTo e.closing (name ++ e.closing :: rest) = some (name', more) :=
    upTo_eq_some_iff.2 ⟨hname', hmore.symm⟩
  rw [upTo_eq_some_iff.2 ⟨hname, rfl⟩] at hup
  obtain ⟨rfl, _⟩ := Prod.mk.inj (Option.some.inj hup)
  exact Nat.lt_irrefl _ hlength

theorem unclosed (e : Enclosure) (hcs : e.closing ∉ cs) : Recognised (e.opening :: cs) [] := by
  have hgap : isGap e.opening = false := by cases e <;> decide
  have hdropped : Recognised (e.opening :: (cs ++ [])) [] := drop hgap
    (fun found hfound q hq => ?_) (fun _ => ⟨[e.closing], _, .enclosed e hcs⟩)
    (fun longer hlonger hlength => ?_) done
  · rwa [List.append_nil] at hdropped
  · obtain ⟨tail, rfl, htail⟩ := hq.of_found hfound
    obtain ⟨name, _, rfl⟩ := hq.tail_enclosed
    rw [List.append_nil] at htail
    exact absurd (htail.subset (by simp)) hcs
  · have hle := hlonger.length_le
    rw [List.length_cons, List.append_nil] at hle
    omega

theorem other_cons (hstart : Piece.isStart c = false) (h : Recognised cs ps) :
    Recognised (c :: cs) ps := by
  cases hgap : isGap c with
  | true => exact skip hgap h
  | false =>
    change Recognised (c :: ([] ++ cs)) ps
    refine drop hgap (fun found hfound q hq => ?_) (fun hne => absurd rfl hne)
      (fun longer hlonger hlength hbegins => ?_) h
    · obtain ⟨tail, rfl, _⟩ := hq.of_found hfound
      rw [hq.isStart] at hstart
      cases hstart
    · cases List.prefix_cons_iff.1 hlonger with
      | inl hnil =>
        rw [hnil] at hlength
        cases hlength
      | inr hcons =>
        obtain ⟨tail, rfl, _⟩ := hcons
        rw [hbegins.isStart] at hstart
        cases hstart

end Recognised

theorem recognised_lex (cs : List Char) : Recognised cs (lex cs) := by
  fun_induction lex cs with
  | case1 => exact .done
  | case2 cs ih => exact ih.hash_cons
  | case3 c cs hhash hword ih => exact ih.word_cons hword
  | case4 cs hup => exact .unclosed .quotes (upTo_eq_none_iff.1 hup)
  | case5 cs name rest hup hhash hword ih =>
    obtain ⟨hname, rfl⟩ := upTo_eq_some_iff.1 hup
    exact ih.closed_cons .quotes hname
  | case6 cs hup => exact .unclosed .angles (upTo_eq_none_iff.1 hup)
  | case7 cs name rest hup hhash hword hquote ih =>
    obtain ⟨hname, rfl⟩ := upTo_eq_some_iff.1 hup
    exact ih.closed_cons .angles hname
  | case8 c cs hhash hword hquote hangle ih =>
    exact ih.other_cons (by simp [isStart, hhash, hword, hquote, hangle])

theorem recognised_iff : Recognised cs ps ↔ lex cs = ps :=
  ⟨Recognised.lex_eq, fun h => h ▸ recognised_lex cs⟩

end Recognition

end Piece

namespace Include
open Piece (Enclosure Recognised lex)

def target (i : Include) : Piece := if i.quoted then .quoted i.name else .angled i.name

theorem ofPieces?_eq_some_iff {ps : List Piece} {i : Include} :
    ofPieces? ps = some i ↔ ∃ more, ps = .hash :: .word "include" :: i.target :: more := by
  constructor
  · intro h
    unfold ofPieces? at h
    split at h
    · rename_i w found more
      by_cases hw : w = "include"
      · rw [if_pos hw] at h
        refine ⟨more, ?_⟩
        rw [hw]
        cases found with
        | quoted name =>
          cases h
          rfl
        | angled name =>
          cases h
          rfl
        | hash => cases h
        | word text => cases h
      · rw [if_neg hw] at h
        cases h
    · cases h
  · intro h
    obtain ⟨more, rfl⟩ := h
    obtain ⟨name, quoted⟩ := i
    cases quoted <;> rfl

theorem ofDirective?_eq_some_iff {text : String} {i : Include} : ofDirective? text = some i ↔
    ∃ more, Recognised text.toList (.hash :: .word "include" :: i.target :: more) := by
  rw [ofDirective?, ofPieces?_eq_some_iff]
  exact exists_congr fun more => Piece.recognised_iff.symm

def isGap (w : String) : Bool := w.toList.all Piece.isGap

def ofEnclosure (name : String) : Enclosure → Include
  | .quotes => ⟨name, true⟩
  | .angles => ⟨name, false⟩

theorem target_ofEnclosure (name : String) (e : Enclosure) :
    (ofEnclosure name e).target = e.piece name := by
  cases e <;> rfl

theorem isWordChar_after_gap (e : Enclosure) {w : String} (h : isGap w = true) {cs : List Char} :
    ∀ d ∈ (w.toList ++ e.opening :: cs).head?, Piece.isWordChar d = false := by
  intro d hd
  cases hw : w.toList with
  | nil =>
    rw [hw] at hd
    cases hd
    cases e <;> decide
  | cons c cs =>
    rw [hw] at hd
    cases hd
    exact Piece.isWordChar_of_isGap (List.all_eq_true.1 h d (by simp [hw]))

theorem ofDirective?_line (e : Enclosure) {w₁ w₂ w₃ name : String} (h₁ : isGap w₁ = true)
    (h₂ : isGap w₂ = true) (h₃ : isGap w₃ = true) (hname : e.closing ∉ name.toList)
    (rest : String) :
    ofDirective? (w₁ ++ "#" ++ w₂ ++ "include" ++ w₃ ++ String.singleton e.opening ++ name ++
      String.singleton e.closing ++ rest) = some (ofEnclosure name e) := by
  have htext : (w₁ ++ "#" ++ w₂ ++ "include" ++ w₃ ++ String.singleton e.opening ++ name ++
      String.singleton e.closing ++ rest).toList =
      w₁.toList ++ '#' :: (w₂.toList ++ 'i' :: ("nclude".toList ++
        (w₃.toList ++ e.opening :: (name.toList ++ e.closing :: rest.toList)))) := by
    simp only [String.toList_append, String.toList_singleton, List.append_assoc]
    rfl
  have hword : ∀ d ∈ "nclude".toList, Piece.isWordChar d = true :=
    List.all_eq_true.1 (by decide)
  rw [ofDirective?_eq_some_iff, target_ofEnclosure]
  refine ⟨lex rest.toList, Piece.recognised_iff.2 ?_⟩
  rw [htext, Piece.lex_gap (List.all_eq_true.1 h₁), Piece.lex_hash,
    Piece.lex_gap (List.all_eq_true.1 h₂),
    Piece.lex_word (by decide) hword (isWordChar_after_gap e h₃),
    Piece.lex_gap (List.all_eq_true.1 h₃), Piece.lex_closed e hname, String.ofList_toList]
  rfl

/-- Every spelling of an include line is read, and a text whose first pieces are not `#` and the
word `include` includes nothing. Every text has exactly one list of pieces. -/
theorem include_lines_read :
    (∀ w₁ w₂ w₃ name rest : String, isGap w₁ = true → isGap w₂ = true → isGap w₃ = true →
      '"' ∉ name.toList →
      ofDirective? (w₁ ++ "#" ++ w₂ ++ "include" ++ w₃ ++ "\"" ++ name ++ "\"" ++ rest) =
        some ⟨name, true⟩) ∧
    (∀ w₁ w₂ w₃ name rest : String, isGap w₁ = true → isGap w₂ = true → isGap w₃ = true →
      '>' ∉ name.toList →
      ofDirective? (w₁ ++ "#" ++ w₂ ++ "include" ++ w₃ ++ "<" ++ name ++ ">" ++ rest) =
        some ⟨name, false⟩) ∧
    (∀ text : String, ∃ pieces, (∀ ps, Recognised text.toList ps ↔ ps = pieces) ∧
      (pieces[0]? ≠ some .hash ∨ pieces[1]? ≠ some (.word "include") →
        ofDirective? text = none)) := by
  refine ⟨fun w₁ w₂ w₃ name rest h₁ h₂ h₃ hname => ofDirective?_line .quotes h₁ h₂ h₃ hname rest,
    fun w₁ w₂ w₃ name rest h₁ h₂ h₃ hname => ofDirective?_line .angles h₁ h₂ h₃ hname rest,
    fun text => ⟨lex text.toList, fun ps => Piece.recognised_iff.trans eq_comm, fun hfirst => ?_⟩⟩
  rw [Option.eq_none_iff_forall_ne_some]
  intro i hi
  obtain ⟨more, hrecognised⟩ := ofDirective?_eq_some_iff.1 hi
  rw [hrecognised.lex_eq] at hfirst
  cases hfirst with
  | inl hhash => exact hhash rfl
  | inr hword => exact hword rfl

/-- No gap before the quotes, angles and a line break between them, and more of all behind; then a
quote in angles, and a word in front of the line. -/
theorem include_lines_read_odd :
    (isGap " \t" = true ∧ isGap "" = true ∧ '"' ∉ "a\n<b>".toList ∧
      ofDirective? (" \t" ++ "#" ++ "" ++ "include" ++ "" ++ "\"" ++ "a\n<b>" ++ "\"" ++ "\"#<") =
        some ⟨"a\n<b>", true⟩) ∧
    ('>' ∉ "\"x".toList ∧
      ofDirective? ("" ++ "#" ++ " \t" ++ "include" ++ "" ++ "<" ++ "\"x" ++ ">" ++ "y") =
        some ⟨"\"x", false⟩) ∧
    (Recognised "x #include <y>".toList
        [.word "x", .hash, .word "include", .angled "y"] ∧
      ofDirective? "x #include <y>" = none) := by
  obtain ⟨hquoted, hangled, hothers⟩ := include_lines_read
  have hgap : isGap " \t" = true := by decide
  have hempty : isGap "" = true := by decide
  have hpieces : lex "x #include <y>".toList =
      [.word "x", .hash, .word "include", .angled "y"] := by decide +kernel
  refine ⟨⟨hgap, hempty, by decide, hquoted _ _ _ _ _ hgap hempty hempty (by decide)⟩,
    ⟨by decide, hangled _ _ _ _ _ hempty hgap hempty (by decide)⟩,
    ⟨Piece.recognised_iff.2 hpieces, ?_⟩⟩
  obtain ⟨pieces, hunique, hnone⟩ := hothers "x #include <y>"
  have hfound := (hunique _).1 (Piece.recognised_iff.2 hpieces)
  exact hnone (.inl (by rw [← hfound]; decide))

end Include

end SpaceAudit
