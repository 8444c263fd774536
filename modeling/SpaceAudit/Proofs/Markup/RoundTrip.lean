import Mathlib.Data.List.Basic
import SpaceAudit.Markup.Outline
import SpaceAudit.Markup.Reader

/-! An outline that is written as a document is read back as the element it stands for. -/
namespace SpaceAudit.Markup

/-- A name without a qualifier, other than the one that declares a namespace. -/
def isPlainName (name : String) : Bool :=
  isBase name.toList && name.toList.all isNameChar && !name.toList.contains ':' && name != "xmlns"

/-- Text that an attribute keeps as it is: no tab and no line ending. -/
def isPlainChar (c : Char) : Bool := isDocumentChar c && (c == ' ' || !isSpace c)

def isPlainText (text : String) : Bool := text.toList.all isPlainChar

def EndsName (cs : List Char) : Prop := ∀ c ∈ cs.head?, isNameChar c = false

theorem EndsName.cons {c : Char} (h : isNameChar c = false) (cs : List Char) : EndsName (c :: cs) := by
  intro d hd
  obtain rfl := Option.some.inj hd
  exact h

section Words

theorem takeWhile_stop {p : Char → Bool} {word rest : List Char} (hword : ∀ c ∈ word, p c = true)
    (hrest : ∀ c ∈ rest.head?, p c = false) :
    (word ++ rest).takeWhile p = word ∧ (word ++ rest).dropWhile p = rest := by
  rw [List.takeWhile_append_of_pos hword, List.dropWhile_append_of_pos hword]
  cases rest with
  | nil => simp
  | cons c rest =>
    have hc : p c = false := hrest c rfl
    simp [hc]

theorem isPlainName_iff {name : String} : isPlainName name = true ↔
    isBase name.toList = true ∧ (∀ c ∈ name.toList, isNameChar c = true) ∧ ':' ∉ name.toList ∧
      name ≠ "xmlns" := by
  simp [isPlainName, and_assoc]

theorem splitName_plain {name : String} (h : isPlainName name = true) :
    splitName name.toList = some ⟨"", name⟩ := by
  obtain ⟨hbase, _, hcolon, _⟩ := isPlainName_iff.1 h
  have hsplit : name.toList.splitOn ':' = [name.toList] := by
    apply List.splitOnP_eq_singleton
    intro c hc
    rw [beq_eq_false_iff_ne]
    intro heq
    rw [heq] at hc
    exact hcolon hc
  simp [splitName, hsplit, hbase]

theorem qname_plain {name : String} {rest : List Char} (h : isPlainName name = true)
    (hrest : EndsName rest) : qname (name.toList ++ rest) = .ok (⟨"", name⟩, rest) := by
  have hsplit := splitName_plain h
  obtain ⟨hbase, hchars, _, _⟩ := isPlainName_iff.1 h
  cases hname : name.toList with
  | nil =>
    rw [hname] at hbase
    cases hbase
  | cons c cs =>
    rw [hname] at hchars hsplit
    obtain ⟨hc, hcs⟩ := List.forall_mem_cons.1 hchars
    obtain ⟨htake, hdrop⟩ := takeWhile_stop hcs hrest
    rw [List.cons_append, qname, if_pos hc, htake, hdrop, hsplit]

end Words

section Values

theorem escapeChar_cases (c : Char) :
    (c = '&' ∧ escapeChar c = ['&', 'a', 'm', 'p', ';']) ∨
    (c = '<' ∧ escapeChar c = ['&', 'l', 't', ';']) ∨
    (c = '>' ∧ escapeChar c = ['&', 'g', 't', ';']) ∨
    (c = '"' ∧ escapeChar c = ['&', 'q', 'u', 'o', 't', ';']) ∨
    (c ≠ '&' ∧ c ≠ '<' ∧ c ≠ '"' ∧ escapeChar c = [c]) := by
  by_cases hamp : c = '&'
  · subst hamp
    exact .inl ⟨rfl, by decide⟩
  · by_cases hlt : c = '<'
    · subst hlt
      exact .inr (.inl ⟨rfl, by decide⟩)
    · by_cases hgt : c = '>'
      · subst hgt
        exact .inr (.inr (.inl ⟨rfl, by decide⟩))
      · by_cases hquote : c = '"'
        · subst hquote
          exact .inr (.inr (.inr (.inl ⟨rfl, by decide⟩)))
        · have hplain : escapeChar c = [c] := by
            unfold escapeChar
            split
            · exact absurd rfl hamp
            · exact absurd rfl hlt
            · exact absurd rfl hgt
            · exact absurd rfl hquote
            · rfl
          exact .inr (.inr (.inr (.inr ⟨hamp, hlt, hquote, hplain⟩)))

/-- An escaped value neither ends its quotes nor holds what a document may not. -/
theorem mem_escapeChar {c d : Char} (hc : isPlainChar c = true) (hd : d ∈ escapeChar c) :
    (d ≠ '"' ∧ d ≠ '<') ∧ isDocumentChar d = true := by
  have hreference (cs : List Char)
      (hcs : (cs.all fun d => (d != '"' && d != '<') && isDocumentChar d) = true) (hd : d ∈ cs) :
      (d ≠ '"' ∧ d ≠ '<') ∧ isDocumentChar d = true := by
    simpa using List.all_eq_true.1 hcs d hd
  rcases escapeChar_cases c with ⟨_, h⟩ | ⟨_, h⟩ | ⟨_, h⟩ | ⟨_, h⟩ | ⟨_, hlt, hquote, h⟩
  case inr.inr.inr.inr =>
    rw [h, List.mem_singleton] at hd
    rw [hd]
    exact ⟨⟨hquote, hlt⟩, (Bool.and_eq_true_iff.1 hc).1⟩
  all_goals
    rw [h] at hd
    exact hreference _ (by decide) hd

theorem isPlainChar_ne {c : Char} (hc : isPlainChar c = true) : c = ' ' ∨ isSpace c = false := by
  have h := (Bool.and_eq_true_iff.1 hc).2
  simpa using h

theorem normalize_cons {c : Char} {cs : List Char} (hamp : c ≠ '&') (hc : isPlainChar c = true) :
    normalize (c :: cs) = (normalize cs).map (c :: ·) := by
  have hreturn : c ≠ '\r' := by
    intro h
    subst h
    exact absurd hc (by decide)
  have hkept : (if isSpace c then ' ' else c) = c := by
    rcases isPlainChar_ne hc with h | h
    · rw [h]
      rfl
    · rw [h]
      rfl
  rw [normalize, hkept]
  · exact hamp
  · intro _ h
    exact absurd h hreturn

theorem normalize_reference (name : List Char) {rest : List Char} {c : Char}
    (h : reference (name ++ rest) = some (c, rest)) :
    normalize ('&' :: name ++ rest) = (normalize rest).map (c :: ·) := by
  rw [List.cons_append, normalize]
  split
  · rename_i hnone
    rw [h] at hnone
    cases hnone
  · rename_i d more hsome
    rw [h] at hsome
    obtain ⟨rfl, rfl⟩ := Prod.mk.inj (Option.some.inj hsome)
    rfl

theorem normalize_escape {cs : List Char} (h : ∀ c ∈ cs, isPlainChar c = true) :
    normalize (cs.flatMap escapeChar) = .ok cs := by
  induction cs with
  | nil =>
    rw [List.flatMap_nil, normalize]
  | cons c cs ih =>
    obtain ⟨hc, hcs⟩ := List.forall_mem_cons.1 h
    have hmap : (normalize (cs.flatMap escapeChar)).map (c :: ·) = .ok (c :: cs) := by
      rw [ih hcs]
      rfl
    rw [List.flatMap_cons]
    rcases escapeChar_cases c with ⟨hamp, he⟩ | ⟨hlt, he⟩ | ⟨hgt, he⟩ | ⟨hquote, he⟩ |
      ⟨hamp, _, _, he⟩
    · rw [he, ← hmap, hamp]
      exact normalize_reference ['a', 'm', 'p', ';'] rfl
    · rw [he, ← hmap, hlt]
      exact normalize_reference ['l', 't', ';'] rfl
    · rw [he, ← hmap, hgt]
      exact normalize_reference ['g', 't', ';'] rfl
    · rw [he, ← hmap, hquote]
      exact normalize_reference ['q', 'u', 'o', 't', ';'] rfl
    · rw [he, ← hmap]
      exact normalize_cons hamp hc

theorem quoted_escape {value rest : List Char} (h : ∀ c ∈ value, isPlainChar c = true) :
    quoted ('"' :: (value.flatMap escapeChar ++ '"' :: rest)) =
      .ok (value.flatMap escapeChar, rest) := by
  have hmem (d : Char) (hd : d ∈ value.flatMap escapeChar) :
      (d ≠ '"' ∧ d ≠ '<') ∧ isDocumentChar d = true := by
    obtain ⟨c, hc, hd⟩ := List.mem_flatMap.1 hd
    exact mem_escapeChar (h c hc) hd
  have hinside (d : Char) (hd : d ∈ value.flatMap escapeChar) :
      (d != '"' && d != '<') = true := by
    simpa using (hmem d hd).1
  have hall : (value.flatMap escapeChar).all isDocumentChar = true :=
    List.all_eq_true.2 fun d hd => (hmem d hd).2
  have hstop : ∀ c ∈ ('"' :: rest).head?, (c != '"' && c != '<') = false := by simp
  obtain ⟨htake, hdrop⟩ := takeWhile_stop hinside hstop
  have hquote : isQuote '"' = true := by decide
  simp only [quoted, htake, hdrop, hall, hquote, Bool.not_true, Bool.false_eq_true, if_false,
    if_true]

end Values

def attributeChars (a : String × String) : List Char :=
  ' ' :: (a.1.toList ++ '=' :: '"' :: (a.2.toList.flatMap escapeChar ++ ['"']))

def rawOf (a : String × String) : RawAttribute := ⟨⟨"", a.1⟩, a.2.toList.flatMap escapeChar⟩

/-- Attributes that can be written: each key once. -/
structure PlainAttributes (as : List (String × String)) : Prop where
  keys : ∀ a ∈ as, isPlainName a.1 = true
  values : ∀ a ∈ as, isPlainText a.2 = true
  nodup : (as.map Prod.fst).Nodup

section Tags

theorem writeAttributes_toList (as : List (String × String)) :
    (Outline.writeAttributes as).toList = as.flatMap attributeChars := by
  have hone (a : String × String) :
      (" " ++ a.1 ++ "=\"" ++ escape a.2 ++ "\"").toList = attributeChars a := by
    simp [attributeChars, escape]
  rw [Outline.writeAttributes, String.toList_join, List.flatMap_map]
  exact congrArg (as.flatMap ·) (funext hone)

theorem attributeAt_write {a : String × String} {rest : List Char}
    (hkey : isPlainName a.1 = true) (hvalue : isPlainText a.2 = true) :
    attributeAt (a.1.toList ++ '=' :: '"' :: (a.2.toList.flatMap escapeChar ++ '"' :: rest)) =
      .ok (rawOf a, rest) := by
  have hends : EndsName ('=' :: '"' :: (a.2.toList.flatMap escapeChar ++ '"' :: rest)) :=
    .cons (by decide) _
  have hquoted : quoted ('"' :: (a.2.toList.flatMap escapeChar ++ '"' :: rest)) =
      .ok (a.2.toList.flatMap escapeChar, rest) := quoted_escape (List.all_eq_true.1 hvalue)
  have hspaces : skipSpaces ('"' :: (a.2.toList.flatMap escapeChar ++ '"' :: rest)) =
      '"' :: (a.2.toList.flatMap escapeChar ++ '"' :: rest) := rfl
  have hsign : skipSpaces ('=' :: '"' :: (a.2.toList.flatMap escapeChar ++ '"' :: rest)) =
      '=' :: '"' :: (a.2.toList.flatMap escapeChar ++ '"' :: rest) := rfl
  rw [attributeAt, qname_plain hkey hends]
  simp only [hsign, hspaces, hquoted]
  rfl

theorem tagRest_closed (rest : List Char) : tagRest ('/' :: '>' :: rest) = .ok ([], true, rest) := by
  rw [tagRest]
  rfl

theorem tagRest_open (rest : List Char) : tagRest ('>' :: rest) = .ok ([], false, rest) := by
  rw [tagRest]
  rfl

theorem isNameStart_ne {c : Char} (h : isNameStart c = true) :
    isSpace c = false ∧ c ≠ '/' ∧ c ≠ '>' ∧ c ≠ '!' ∧ c ≠ '?' := by
  refine ⟨?_, ?_, ?_, ?_, ?_⟩
  · by_contra hspace
    simp only [isSpace, Bool.not_eq_false, Bool.or_eq_true, beq_iff_eq] at hspace
    rcases hspace with ((rfl | rfl) | rfl) | rfl <;> exact absurd h (by decide)
  all_goals
    rintro rfl
    exact absurd h (by decide)

theorem tagRest_attribute {a : String × String} {rest more : List Char} {as : List RawAttribute}
    {closed : Bool} (hkey : isPlainName a.1 = true) (hvalue : isPlainText a.2 = true)
    (hrest : tagRest rest = .ok (as, closed, more)) :
    tagRest (attributeChars a ++ rest) = .ok (rawOf a :: as, closed, more) := by
  have hat : attributeAt
      (a.1.toList ++ '=' :: '"' :: (a.2.toList.flatMap escapeChar ++ '"' :: rest)) =
        .ok (rawOf a, rest) := attributeAt_write hkey hvalue
  obtain ⟨hbase, _, _, _⟩ := isPlainName_iff.1 hkey
  cases hname : a.1.toList with
  | nil =>
    rw [hname] at hbase
    cases hbase
  | cons c cs =>
    rw [hname] at hbase hat
    obtain ⟨hspace, hslash, hgt, _⟩ := isNameStart_ne hbase
    have hchars : attributeChars a ++ rest = ' ' :: c ::
        (cs ++ '=' :: '"' :: (a.2.toList.flatMap escapeChar ++ '"' :: rest)) := by
      simp [attributeChars, hname]
    have hskip (l : List Char) : skipSpaces (' ' :: c :: l) = c :: l := by
      have hblank : isSpace ' ' = true := by decide
      simp [skipSpaces, hblank, hspace]
    have hafter (l : List Char) : ((' ' :: l).head?.map isSpace).getD false = true := rfl
    rw [hchars, tagRest]
    -- A name starts here, so the tag neither ends nor is cut off.
    split
    · rename_i hs
      rw [hskip] at hs
      cases hs
    · rename_i hs
      rw [hskip] at hs
      exact absurd (List.cons.inj hs).1 hslash
    · rename_i hs
      rw [hskip] at hs
      exact absurd (List.cons.inj hs).1 hgt
    · rename_i hs
      rw [hskip] at hs
      obtain ⟨rfl, rfl⟩ := List.cons.inj hs
      rw [if_pos (hafter _)]
      split
      · rename_i he
        rw [List.cons_append] at hat
        rw [hat] at he
        cases he
      · rename_i ha
        rw [List.cons_append] at hat
        rw [hat] at ha
        obtain ⟨rfl, rfl⟩ := Prod.mk.inj (Except.ok.inj ha)
        rw [hrest]

theorem tagRest_attributes {as : List (String × String)} (has : ∀ a ∈ as, isPlainName a.1 = true)
    (hvalues : ∀ a ∈ as, isPlainText a.2 = true) {rest more : List Char} {closed : Bool}
    (hrest : tagRest rest = .ok ([], closed, more)) :
    tagRest (as.flatMap attributeChars ++ rest) = .ok (as.map rawOf, closed, more) := by
  induction as with
  | nil => exact hrest
  | cons a as ih =>
    obtain ⟨ha, has⟩ := List.forall_mem_cons.1 has
    obtain ⟨hvalue, hvalues⟩ := List.forall_mem_cons.1 hvalues
    rw [List.flatMap_cons, List.append_assoc, List.map_cons]
    exact tagRest_attribute ha hvalue (ih has hvalues)

theorem endsName_attributes (as : List (String × String)) {rest : List Char} (hrest : EndsName rest) :
    EndsName (as.flatMap attributeChars ++ rest) := by
  cases as with
  | nil => exact hrest
  | cons a as => exact .cons (by decide) _

theorem openingTag_write {name : String} {as : List (String × String)} {rest more : List Char}
    {closed : Bool} (hname : isPlainName name = true) (has : PlainAttributes as)
    (hends : EndsName rest) (hrest : tagRest rest = .ok ([], closed, more)) :
    openingTag (name.toList ++ (as.flatMap attributeChars ++ rest)) =
      .ok (.opening ⟨"", name⟩ (as.map rawOf) closed, more) := by
  rw [openingTag, qname_plain hname (endsName_attributes as hends)]
  simp only [tagRest_attributes has.keys has.values hrest]

theorem closingTag_write {name : String} (rest : List Char) (hname : isPlainName name = true) :
    closingTag (name.toList ++ '>' :: rest) = .ok (.closing ⟨"", name⟩, rest) := by
  have hends : EndsName ('>' :: rest) := .cons (by decide) rest
  have hskip : skipSpaces ('>' :: rest) = '>' :: rest := rfl
  rw [closingTag, qname_plain hname hends]
  simp only [hskip]

end Tags

section Events

theorem next_opening {name : String} (hname : isPlainName name = true) (rest : List Char) :
    Event.next ('<' :: (name.toList ++ rest)) = openingTag (name.toList ++ rest) := by
  obtain ⟨hbase, _, _, _⟩ := isPlainName_iff.1 hname
  cases hchars : name.toList with
  | nil =>
    rw [hchars] at hbase
    cases hbase
  | cons c cs =>
    rw [hchars] at hbase
    obtain ⟨_, hslash, _, hmark, hquestion⟩ := isNameStart_ne hbase
    rw [List.cons_append]
    unfold Event.next
    split <;> simp_all

theorem next_closing (rest : List Char) : Event.next ('<' :: '/' :: rest) = closingTag rest := by
  unfold Event.next
  rfl

theorem isSpace_iff {c : Char} :
    isSpace c = true ↔ c = ' ' ∨ c = '\t' ∨ c = '\n' ∨ c = '\r' := by
  simp [isSpace, or_assoc]

theorem normalize_spaces {blank : List Char} (h : ∀ c ∈ blank, isSpace c = true) :
    ∃ cs, normalize blank = .ok cs := by
  fun_induction normalize blank with
  | case1 => exact ⟨[], rfl⟩
  | case2 cs href => exact absurd (h '&' (by simp)) (by decide)
  | case3 cs c rest href ih => exact absurd (h '&' (by simp)) (by decide)
  | case4 cs ih =>
    obtain ⟨ds, hds⟩ := ih fun c hc => h c (by simp [hc])
    exact ⟨' ' :: ds, by rw [hds]; rfl⟩
  | case5 c cs _ _ ih =>
    obtain ⟨ds, hds⟩ := ih fun d hd => h d (by simp [hd])
    exact ⟨_, by rw [hds]; rfl⟩

theorem cutAt_eq_none {m : Char} {mark cs : List Char} (h : m ∉ cs) :
    cutAt (m :: mark) cs = none := by
  induction cs with
  | nil => rfl
  | cons c cs ih =>
    rw [List.mem_cons, not_or] at h
    obtain ⟨hc, hcs⟩ := h
    have hstart : (m :: mark).isPrefixOf (c :: cs) = false := by
      simp [List.isPrefixOf, hc]
    rw [cutAt, hstart, ih hcs]
    rfl

theorem next_blank {c : Char} {blank rest : List Char} (h : ∀ d ∈ c :: blank, isSpace d = true)
    (hrest : ∀ d ∈ rest.head?, d = '<') :
    Event.next (c :: blank ++ rest) = .ok (.text true, rest) := by
  have htag (d : Char) (hd : d ∈ c :: blank) : (d != '<') = true := by
    rcases isSpace_iff.1 (h d hd) with rfl | rfl | rfl | rfl <;> decide
  have hdocument : (c :: blank).all isDocumentChar = true := by
    rw [List.all_eq_true]
    intro d hd
    rcases isSpace_iff.1 (h d hd) with rfl | rfl | rfl | rfl <;> decide
  have hcut : cutAt "]]>".toList (c :: blank) = none := by
    apply cutAt_eq_none
    intro hd
    exact absurd (h ']' hd) (by decide)
  obtain ⟨cs, hnormal⟩ := normalize_spaces h
  obtain ⟨htake, hdrop⟩ := takeWhile_stop htag fun d hd => by
    rw [hrest d hd]
    rfl
  have hc : c ≠ '<' := by simpa using htag c (by simp)
  unfold Event.next
  split
  case h_7 =>
    simp only [htake, hdrop, hdocument, hcut, hnormal, List.all_eq_true.2 h]
    rfl
  all_goals
    rename_i heq
    exact absurd (List.cons.inj heq).1 hc

end Events

section Reading

theorem marks_write {as : List (String × String)} (hkeys : ∀ a ∈ as, isPlainName a.1 = true)
    (hvalues : ∀ a ∈ as, isPlainText a.2 = true) (seen : List (QName × String)) :
    (as.map rawOf).foldlM Marks.add ⟨[], seen⟩ =
      .ok ⟨[], seen ++ as.map fun a => (⟨"", a.1⟩, a.2)⟩ := by
  induction as generalizing seen with
  | nil => simp [pure, Except.pure]
  | cons a as ih =>
    obtain ⟨hkey, hkeys⟩ := List.forall_mem_cons.1 hkeys
    obtain ⟨hvalue, hvalues⟩ := List.forall_mem_cons.1 hvalues
    obtain ⟨_, _, _, hname⟩ := isPlainName_iff.1 hkey
    have hadd : Marks.add ⟨[], seen⟩ (rawOf a) = .ok ⟨[], seen ++ [(⟨"", a.1⟩, a.2)]⟩ := by
      have hqualifier : ("" : String) ≠ "xmlns" := by decide
      simp only [Marks.add, rawOf, normalize_escape (List.all_eq_true.1 hvalue), hqualifier, hname,
        String.ofList_toList, if_false]
    rw [List.map_cons, List.foldlM_cons, hadd]
    have hrest := ih hkeys hvalues (seen ++ [(⟨"", a.1⟩, a.2)])
    rw [List.append_assoc] at hrest
    exact hrest

theorem plainAttributes_write {as : List (String × String)} (spaces : List (String × String))
    (seen : List (Option String × String)) (hnodup : (as.map Prod.fst).Nodup)
    (hseen : ∀ a ∈ as, (none, a.1) ∉ seen) :
    plainAttributes spaces seen (as.map fun a => (⟨"", a.1⟩, a.2)) = .ok as := by
  induction as generalizing seen with
  | nil => rfl
  | cons a as ih =>
    obtain ⟨ha, hseen⟩ := List.forall_mem_cons.1 hseen
    obtain ⟨hfresh, hnodup⟩ := List.nodup_cons.1 hnodup
    have hrest : plainAttributes spaces ((none, a.1) :: seen) (as.map fun a => (⟨"", a.1⟩, a.2)) =
        .ok as := by
      apply ih _ hnodup
      intro b hb
      rw [List.mem_cons, not_or]
      refine ⟨?_, hseen b hb⟩
      intro heq
      apply hfresh
      rw [← (Prod.mk.inj heq).2]
      exact List.mem_map_of_mem hb
    rw [List.map_cons, plainAttributes]
    simp only [attributeSpace, if_true, ha, if_false, hrest]

theorem frame_write {name : String} {as : List (String × String)} (has : PlainAttributes as) :
    Frame.ofTag [] ⟨"", name⟩ (as.map rawOf) = .ok ⟨⟨"", name⟩, as, [], []⟩ := by
  have hmarks := marks_write has.keys has.values []
  have hplain := plainAttributes_write [] [] has.nodup fun a _ => by simp
  have hqualifier : ("" : String) ≠ "xmlns" := by decide
  rw [Frame.ofTag, hmarks]
  simp [hqualifier, hplain]

/-- A reading that an element can go on with, in no namespace. -/
structure Reading.Ready (r : Reading) : Prop where
  room : r.frames = [] → r.root = none
  plain : ∀ f ∈ r.frames, f.spaces = []

theorem Reading.Ready.spaces {r : Reading} (h : r.Ready) : r.spaces = [] := by
  unfold Reading.spaces
  cases hframes : r.frames with
  | nil => rfl
  | cons f fs => exact h.plain f (by simp [hframes])

theorem Reading.Ready.start : Reading.start.Ready := ⟨fun _ => rfl, nofun⟩

theorem step_opening {r : Reading} (hr : r.Ready) {name : String} {as : List (String × String)}
    (has : PlainAttributes as) (closed : Bool) :
    r.step (.opening ⟨"", name⟩ (as.map rawOf) closed) =
      .ok (if closed then r.place (.node name as [])
        else ⟨r.root, ⟨⟨"", name⟩, as, [], []⟩ :: r.frames⟩) := by
  have hroom : (r.frames.isEmpty && r.root.isSome) = false := by
    cases hframes : r.frames with
    | nil => simp [hr.room hframes]
    | cons f fs => rfl
  rw [Reading.step, hroom, hr.spaces, frame_write has]
  rfl

theorem run_next {r r' : Reading} {c : Char} {cs rest : List Char} {event : Event}
    (hnext : Event.next (c :: cs) = .ok (event, rest)) (hstep : r.step event = .ok r') :
    r.run (c :: cs) = r'.run rest := by
  rw [Reading.run]
  split
  · rename_i he
    rw [hnext] at he
    cases he
  · rename_i he
    rw [hnext] at he
    obtain ⟨rfl, rfl⟩ := Prod.mk.inj (Except.ok.inj he)
    rw [hstep]

theorem run_blank {r : Reading} {blank rest : List Char} (h : ∀ c ∈ blank, isSpace c = true)
    (hrest : ∀ c ∈ rest.head?, c = '<') : r.run (blank ++ rest) = r.run rest := by
  cases blank with
  | nil => rfl
  | cons c blank =>
    rw [List.cons_append]
    apply run_next (next_blank h hrest)
    simp [Reading.step]

end Reading

namespace Outline

mutual

/-- An outline whose names and attributes are all plain. -/
def Writable : Outline → Prop
  | leaf name as => isPlainName name = true ∧ PlainAttributes as
  | block name as children => (isPlainName name = true ∧ PlainAttributes as) ∧ AllWritable children

def AllWritable : List Outline → Prop
  | [] => True
  | o :: os => Writable o ∧ AllWritable os

end

theorem allWritable_iff {os : List Outline} : AllWritable os ↔ ∀ o ∈ os, o.Writable := by
  induction os with
  | nil => simp [AllWritable]
  | cons o os ih => simp [AllWritable, ih]

theorem elements_eq_map (os : List Outline) : elements os = os.map element := by
  induction os with
  | nil => rfl
  | cons o os ih => rw [elements, ih, List.map_cons]

theorem isSpace_of_mem_indent {d : Nat} {c : Char} (h : c ∈ (indent d).toList) :
    isSpace c = true := by
  rw [indent, String.toList_ofList] at h
  rw [List.eq_of_mem_replicate h]
  rfl

theorem write_leaf_toList (d : Nat) (name : String) (as : List (String × String))
    (rest : List Char) : (write d (leaf name as)).toList ++ rest =
      (indent d).toList ++
        '<' :: (name.toList ++ (as.flatMap attributeChars ++ '/' :: '>' :: '\n' :: rest)) := by
  simp [write, writeAttributes_toList]

theorem write_block_toList (d : Nat) (name : String) (as : List (String × String))
    (children : List Outline) (rest : List Char) :
    (write d (block name as children)).toList ++ rest =
      (indent d).toList ++ '<' :: (name.toList ++ (as.flatMap attributeChars ++ '>' :: '\n' ::
        ((writeAll (d + 1) children).toList ++ ((indent d).toList ++
          '<' :: '/' :: (name.toList ++ '>' :: '\n' :: rest))))) := by
  simp [write, writeAttributes_toList]

theorem run_indented {blank : List Char} (hblank : ∀ c ∈ blank, isSpace c = true) (d : Nat)
    (r : Reading) (cs : List Char) :
    r.run (blank ++ ((indent d).toList ++ '<' :: cs)) = r.run ('<' :: cs) := by
  have hindent : ∀ c ∈ blank ++ (indent d).toList, isSpace c = true :=
    List.forall_mem_append.2 ⟨hblank, fun c hc => isSpace_of_mem_indent hc⟩
  rw [← List.append_assoc]
  exact run_blank hindent (by simp)

mutual

theorem run_write (o : Outline) (ho : o.Writable) (d : Nat) {r : Reading} (hr : r.Ready)
    {blank : List Char} (hblank : ∀ c ∈ blank, isSpace c = true) (rest : List Char) :
    r.run (blank ++ ((o.write d).toList ++ rest)) = (r.place o.element).run ('\n' :: rest) := by
  match o, ho with
  | leaf name as, ⟨hname, has⟩ =>
    rw [write_leaf_toList, run_indented hblank]
    have hends : EndsName ('/' :: '>' :: '\n' :: rest) := .cons (by decide) _
    apply run_next
    · rw [next_opening hname, openingTag_write hname has hends (tagRest_closed _)]
    · exact step_opening hr has true
  | block name as children, ⟨⟨hname, has⟩, hchildren⟩ =>
    rw [write_block_toList, run_indented hblank]
    -- The element stays open while its children are read.
    have hopened : Reading.Ready ⟨r.root, ⟨⟨"", name⟩, as, [], []⟩ :: r.frames⟩ :=
      ⟨nofun, List.forall_mem_cons.2 ⟨rfl, hr.plain⟩⟩
    have hnewline : ∀ c ∈ ['\n'], isSpace c = true := List.forall_mem_singleton.2 rfl
    obtain ⟨blank', hblank', hrun⟩ := run_writeAll children hchildren (d + 1) r.root hopened hnewline
      ((indent d).toList ++ '<' :: '/' :: (name.toList ++ '>' :: '\n' :: rest))
    have hopening (cs : List Char) :
        Event.next ('<' :: (name.toList ++ (as.flatMap attributeChars ++ '>' :: cs))) =
          .ok (.opening ⟨"", name⟩ (as.map rawOf) false, cs) := by
      rw [next_opening hname, openingTag_write hname has (.cons (by decide) cs) (tagRest_open cs)]
    have hclosing (cs : List Char) : Event.next ('<' :: '/' :: (name.toList ++ '>' :: cs)) =
        .ok (.closing ⟨"", name⟩, cs) := by
      rw [next_closing, closingTag_write cs hname]
    rw [run_next (hopening _) (step_opening hr has false)]
    refine (hrun.trans (run_indented hblank' d _ _)).trans (run_next (hclosing _) ?_)
    simp [Reading.step, Frame.element, Outline.element]

theorem run_writeAll (os : List Outline) (hos : AllWritable os) (d : Nat) (root : Option Element)
    {f : Frame} {fs : List Frame} (hr : Reading.Ready ⟨root, f :: fs⟩) {blank : List Char}
    (hblank : ∀ c ∈ blank, isSpace c = true) (rest : List Char) :
    ∃ blank', (∀ c ∈ blank', isSpace c = true) ∧
      Reading.run ⟨root, f :: fs⟩ (blank ++ ((writeAll d os).toList ++ rest)) =
        Reading.run ⟨root, { f with children := (elements os).reverse ++ f.children } :: fs⟩
          (blank' ++ rest) := by
  match os, hos with
  | [], _ => exact ⟨blank, hblank, by simp [writeAll, elements]⟩
  | o :: os, ⟨ho, hos⟩ =>
    have hplaced : Reading.Ready ⟨root, { f with children := o.element :: f.children } :: fs⟩ :=
      ⟨nofun, List.forall_mem_cons.2 ⟨hr.plain f (by simp), fun g hg => hr.plain g (by simp [hg])⟩⟩
    have hnewline : ∀ c ∈ ['\n'], isSpace c = true := List.forall_mem_singleton.2 rfl
    obtain ⟨blank', hblank', hrun⟩ := run_writeAll os hos d root hplaced hnewline rest
    refine ⟨blank', hblank', ?_⟩
    rw [writeAll, String.toList_append, List.append_assoc, run_write o ho d hr hblank]
    simpa [elements, Reading.place] using hrun

end

def declarationChars : List Char :=
  [' ', 'v', 'e', 'r', 's', 'i', 'o', 'n', '=', '"', '1', '.', '0', '"', '?', '>']

theorem declaration_write (cs : List Char) : declaration (declarationChars ++ cs) = .ok cs := rfl

/-- What is written is read back. -/
theorem parse_document {o : Outline} (ho : o.Writable) : parse o.document = .ok o.element := by
  have hliteral : "<?xml version=\"1.0\"?>\n".toList =
      ['<', '?', 'x', 'm', 'l'] ++ (declarationChars ++ ['\n']) := by decide
  have hdocument (text : String) : ("<?xml version=\"1.0\"?>\n" ++ text).toList =
      ['<', '?', 'x', 'm', 'l'] ++ (declarationChars ++ (['\n'] ++ text.toList)) := by
    rw [String.toList_append, hliteral, List.append_assoc, List.append_assoc]
  have htext : o.document.toList =
      ['<', '?', 'x', 'm', 'l'] ++ (declarationChars ++ (['\n'] ++ (o.write 0).toList)) :=
    hdocument (o.write 0)
  have hblank : ∀ c ∈ ['\n'], isSpace c = true := List.forall_mem_singleton.2 rfl
  have hroot := run_write o ho 0 Reading.Ready.start hblank []
  rw [List.append_nil] at hroot
  have hfinish (e : Element) : Reading.run (Reading.start.place e) ['\n'] = .ok e := by
    have hend : ∀ c ∈ ([] : List Char).head?, c = '<' := by simp
    have hrun := run_blank (r := Reading.start.place e) hblank hend
    rw [List.append_nil] at hrun
    rw [hrun, Reading.run]
    rfl
  have hmark : dropMark o.document.toList = o.document.toList := by
    rw [htext]
    rfl
  have hstart : "<?xml ".toList.isPrefixOf o.document.toList = true := by
    rw [htext]
    rfl
  have hdeclared : declaration (o.document.toList.drop 5) = .ok (['\n'] ++ (o.write 0).toList) := by
    rw [htext]
    exact declaration_write _
  rw [parse]
  simp only [hmark, hstart, if_true, hdeclared, hroot, hfinish]

end Outline

namespace Element

/-- What is read where a number is written: numbers from `2 ^ 32` on are not. -/
def readBack (n : Nat) : Nat := if n < UInt32.size then n else 0

theorem digits?_toDigits (n : Nat) : digits? (Nat.toDigits 10 n) = some n := by
  have hdigits : (Nat.toDigits 10 n).all Char.isDigit = true :=
    List.all_eq_true.2 fun c hc => Nat.isDigit_of_mem_toDigits (by decide) (by decide) hc
  have hne : (Nat.toDigits 10 n).isEmpty = false := by
    simp [Nat.toDigits_ne_nil]
  have hvalue : (Nat.toDigits 10 n).foldl (fun n c => 10 * n + (c.toNat - 48)) 0 = n :=
    Nat.ofDigitChars_toDigits (by decide) (by decide)
  simp only [digits?, hne, hdigits, hvalue, Bool.not_true, Bool.or_false, Bool.false_eq_true, if_false]

theorem number?_toString (n : Nat) :
    number? (toString n) = if n < UInt32.size then some n else none := by
  have hchars : (toString n).toList = Nat.toDigits 10 n := String.toList_ofList
  have hvalue : digits? (Nat.toDigits 10 n) = some n := digits?_toDigits n
  have hplus : '+' ∉ Nat.toDigits 10 n := by
    intro h
    exact absurd (Nat.isDigit_of_mem_toDigits (by decide) (by decide) h) (by decide)
  unfold number?
  rw [hchars]
  split
  · rename_i cs hcs
    exact absurd (by simp [hcs]) hplus
  · rw [hvalue, Option.filter_some]
    by_cases hn : n < UInt32.size
    · simp [hn]
    · simp [hn]

theorem number_of_attribute {e : Element} {key : String} {n : Nat}
    (h : e.attribute? key = some (toString n)) : e.number key = readBack n := by
  rw [number, h, Option.bind_some, number?_toString, readBack]
  split <;> rfl

end Element

end SpaceAudit.Markup
