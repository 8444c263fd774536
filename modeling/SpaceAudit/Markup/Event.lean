import SpaceAudit.Markup.Character

/-! A document read piece by piece: tags, character data, comments and instructions. Every piece
takes at least one character off the text. -/
namespace SpaceAudit.Markup

inductive Fault where
  | badName | badCharacter | badReference | badAttribute | badComment | badDeclaration
  | misplacedDeclaration | misplacedText | unknownPiece | unknownNamespace | reservedNamespace
  | duplicateAttribute | duplicateNamespace | secondRoot | mismatchedTag | unclosed
deriving DecidableEq, Repr

/-- A name with the qualifier before its colon; the qualifier may be empty. -/
structure QName where
  qualifier : String
  base : String
deriving DecidableEq, Repr

structure RawAttribute where
  name : QName
  value : List Char
deriving DecidableEq, Repr

inductive Event where
  | opening (name : QName) (attributes : List RawAttribute) (closed : Bool)
  | closing (name : QName)
  | text (blank : Bool)
  | data
  | aside
deriving DecidableEq, Repr

def skipSpaces (cs : List Char) : List Char := cs.dropWhile isSpace

theorem dropWhile_length_le (p : Char → Bool) (cs : List Char) :
    (cs.dropWhile p).length ≤ cs.length := (List.dropWhile_sublist p).length_le

theorem skipSpaces_length_le (cs : List Char) : (skipSpaces cs).length ≤ cs.length :=
  dropWhile_length_le _ cs

def cutAt (mark : List Char) : List Char → Option (List Char × List Char)
  | [] => none
  | c :: cs =>
    if mark.isPrefixOf (c :: cs) then some ([], (c :: cs).drop mark.length)
    else (cutAt mark cs).map fun (before, after) => (c :: before, after)

theorem cutAt_length {mark cs before after : List Char} (h : cutAt mark cs = some (before, after)) :
    after.length ≤ cs.length := by
  induction cs generalizing before with
  | nil => simp [cutAt] at h
  | cons c cs ih =>
    unfold cutAt at h
    split at h
    · simp only [Option.some.injEq, Prod.mk.injEq] at h
      rw [← h.2]
      exact (List.drop_sublist _ _).length_le
    · cases hc : cutAt mark cs with
      | none => simp [hc] at h
      | some p =>
        obtain ⟨b, a⟩ := p
        simp only [hc, Option.map_some, Option.some.injEq, Prod.mk.injEq] at h
        have := ih (h.2 ▸ hc)
        rw [List.length_cons]
        omega

def isQualifier (cs : List Char) : Bool :=
  match cs with
  | [] => true
  | c :: _ => isNameStart c

def isBase (cs : List Char) : Bool :=
  match cs with
  | [] => false
  | c :: _ => isNameStart c

def splitName (word : List Char) : Option QName :=
  match word.splitOn ':' with
  | [base] => if isBase base then some ⟨"", String.ofList base⟩ else none
  | [qualifier, base] =>
    if isQualifier qualifier && isBase base then
      some ⟨String.ofList qualifier, String.ofList base⟩
    else none
  | _ => none

/-- A name at the start of the text: as many name characters as there are, with at most one colon. -/
def qname (cs : List Char) : Except Fault (QName × List Char) :=
  match cs with
  | [] => .error .badName
  | c :: cs =>
    if isNameChar c then
      match splitName (c :: cs.takeWhile isNameChar) with
      | none => .error .badName
      | some name => .ok (name, cs.dropWhile isNameChar)
    else .error .badName

theorem qname_length {cs rest : List Char} {name : QName} (h : qname cs = .ok (name, rest)) :
    rest.length < cs.length := by
  unfold qname at h
  split at h
  · simp at h
  · split at h
    · split at h
      · simp at h
      · simp only [Except.ok.injEq, Prod.mk.injEq] at h
        rw [← h.2, List.length_cons]
        exact Nat.lt_succ_of_le (dropWhile_length_le _ _)
    · simp at h

def quoteMark : Char := '"'
def singleQuoteMark : Char := Char.ofNat 39

def isQuote (c : Char) : Bool := c == quoteMark || c == singleQuoteMark

/-- A quoted value at the start of the text. It holds no `<`. -/
def quoted (cs : List Char) : Except Fault (List Char × List Char) :=
  match cs with
  | [] => .error .badAttribute
  | q :: cs =>
    let inside := fun c => c != q && c != '<'
    if !isQuote q then .error .badAttribute
    else if !(cs.takeWhile inside).all isDocumentChar then .error .badCharacter
    else
      match cs.dropWhile inside with
      | [] => .error .badAttribute
      | c :: rest => if c = q then .ok (cs.takeWhile inside, rest) else .error .badAttribute

theorem quoted_length {cs value rest : List Char} (h : quoted cs = .ok (value, rest)) :
    rest.length ≤ cs.length := by
  unfold quoted at h
  split at h
  · simp at h
  · rename_i q cs
    dsimp only at h
    split at h
    · simp at h
    · split at h
      · simp at h
      · split at h
        · simp at h
        · rename_i c r hd
          split at h
          · simp only [Except.ok.injEq, Prod.mk.injEq] at h
            have hle := dropWhile_length_le (fun c => c != q && c != '<') cs
            rw [hd] at hle
            simp only [List.length_cons] at hle ⊢
            rw [← h.2]
            omega
          · simp at h

/-- `name = "value"`, with spaces allowed around the sign. -/
def attributeAt (cs : List Char) : Except Fault (RawAttribute × List Char) :=
  match qname cs with
  | .error e => .error e
  | .ok (name, cs) =>
    match skipSpaces cs with
    | '=' :: cs =>
      match quoted (skipSpaces cs) with
      | .error e => .error e
      | .ok (value, rest) => .ok (⟨name, value⟩, rest)
    | _ => .error .badAttribute

theorem attributeAt_length {cs rest : List Char} {a : RawAttribute}
    (h : attributeAt cs = .ok (a, rest)) : rest.length < cs.length := by
  unfold attributeAt at h
  split at h
  · simp at h
  · rename_i name cs' hq
    have h1 := qname_length hq
    split at h
    · rename_i cs'' hs
      have h2 := skipSpaces_length_le cs'
      rw [hs, List.length_cons] at h2
      split at h
      · simp at h
      · rename_i value r hv
        simp only [Except.ok.injEq, Prod.mk.injEq] at h
        have h3 := quoted_length hv
        have h4 := skipSpaces_length_le cs''
        rw [← h.2]
        omega
    · simp at h

/-- The rest of an opening tag: its attributes, each after a space, and whether it closes itself. -/
def tagRest (cs : List Char) : Except Fault (List RawAttribute × Bool × List Char) :=
  match _hs : skipSpaces cs with
  | [] => .error .unclosed
  | '/' :: '>' :: rest => .ok ([], true, rest)
  | '>' :: rest => .ok ([], false, rest)
  | c :: more =>
    if (cs.head?.map isSpace).getD false then
      match _ha : attributeAt (c :: more) with
      | .error e => .error e
      | .ok (a, rest) =>
        match tagRest rest with
        | .error e => .error e
        | .ok (as, closed, rest) => .ok (a :: as, closed, rest)
    else .error .badAttribute
termination_by cs.length
decreasing_by
  have h1 := attributeAt_length _ha
  have h2 := skipSpaces_length_le cs
  rw [_hs] at h2
  omega

theorem tagRest_length {cs rest : List Char} {as : List RawAttribute} {closed : Bool}
    (h : tagRest cs = .ok (as, closed, rest)) : rest.length ≤ cs.length := by
  fun_induction tagRest cs generalizing as closed with
  | case1 => simp at h
  | case2 cs r hs =>
    simp only [Except.ok.injEq, Prod.mk.injEq] at h
    have h2 := skipSpaces_length_le cs
    rw [hs] at h2
    simp only [List.length_cons] at h2
    rw [← h.2.2]
    omega
  | case3 cs r hs =>
    simp only [Except.ok.injEq, Prod.mk.injEq] at h
    have h2 := skipSpaces_length_le cs
    rw [hs] at h2
    simp only [List.length_cons] at h2
    rw [← h.2.2]
    omega
  | case4 => simp at h
  | case5 => simp at h
  | case6 cs c more _ _ hs _ a r ha as' closed' r' ht ih =>
    simp only [Except.ok.injEq, Prod.mk.injEq] at h
    have h1 := attributeAt_length ha
    have h2 := skipSpaces_length_le cs
    rw [hs] at h2
    have h3 := ih (h.2.2 ▸ ht)
    omega
  | case7 => simp at h

/-- A comment after its opening mark. Two hyphens stand only at its end. -/
def comment (cs : List Char) : Except Fault (Event × List Char) :=
  match cutAt "-->".toList cs with
  | none => .error .badComment
  | some (body, rest) =>
    if !body.all isDocumentChar then .error .badCharacter
    else if (cutAt "--".toList body).isSome || body.getLast? == some '-' then .error .badComment
    else .ok (.aside, rest)

def instruction (cs : List Char) : Except Fault (Event × List Char) :=
  if "xml ".toList.isPrefixOf cs then .error .misplacedDeclaration
  else if !isBase cs then .error .badName
  else
    match cutAt "?>".toList (skipSpaces (cs.dropWhile isNameChar)) with
    | none => .error .unclosed
    | some (body, rest) =>
      if body.all isDocumentChar then .ok (.aside, rest) else .error .badCharacter

def literal (cs : List Char) : Except Fault (Event × List Char) :=
  match cutAt "]]>".toList cs with
  | none => .error .unclosed
  | some (body, rest) =>
    if body.all isDocumentChar then .ok (.data, rest) else .error .badCharacter

def closingTag (cs : List Char) : Except Fault (Event × List Char) :=
  match qname cs with
  | .error e => .error e
  | .ok (name, cs) =>
    match skipSpaces cs with
    | '>' :: rest => .ok (.closing name, rest)
    | _ => .error .mismatchedTag

def openingTag (cs : List Char) : Except Fault (Event × List Char) :=
  match qname cs with
  | .error e => .error e
  | .ok (name, cs) =>
    match tagRest cs with
    | .error e => .error e
    | .ok (as, closed, rest) => .ok (.opening name as closed, rest)

theorem comment_length {cs rest : List Char} {e : Event} (h : comment cs = .ok (e, rest)) :
    rest.length ≤ cs.length := by
  unfold comment at h
  split at h
  · simp at h
  · rename_i body r hc
    split at h
    · simp at h
    · split at h
      · simp at h
      · simp only [Except.ok.injEq, Prod.mk.injEq] at h
        exact h.2 ▸ cutAt_length hc

theorem instruction_length {cs rest : List Char} {e : Event}
    (h : instruction cs = .ok (e, rest)) : rest.length ≤ cs.length := by
  unfold instruction at h
  split at h
  · simp at h
  · split at h
    · simp at h
    · split at h
      · simp at h
      · rename_i body r hc
        split at h
        · simp only [Except.ok.injEq, Prod.mk.injEq] at h
          have h1 := cutAt_length hc
          have h2 := skipSpaces_length_le (cs.dropWhile isNameChar)
          have h3 := dropWhile_length_le isNameChar cs
          rw [← h.2]
          omega
        · simp at h

theorem literal_length {cs rest : List Char} {e : Event} (h : literal cs = .ok (e, rest)) :
    rest.length ≤ cs.length := by
  unfold literal at h
  split at h
  · simp at h
  · rename_i body r hc
    split at h
    · simp only [Except.ok.injEq, Prod.mk.injEq] at h
      exact h.2 ▸ cutAt_length hc
    · simp at h

theorem closingTag_length {cs rest : List Char} {e : Event}
    (h : closingTag cs = .ok (e, rest)) : rest.length ≤ cs.length := by
  unfold closingTag at h
  split at h
  · simp at h
  · rename_i name cs' hq
    have h1 := qname_length hq
    split at h
    · rename_i r hs
      have h2 := skipSpaces_length_le cs'
      rw [hs, List.length_cons] at h2
      simp only [Except.ok.injEq, Prod.mk.injEq] at h
      rw [← h.2]
      omega
    · simp at h

theorem openingTag_length {cs rest : List Char} {e : Event}
    (h : openingTag cs = .ok (e, rest)) : rest.length ≤ cs.length := by
  unfold openingTag at h
  split at h
  · simp at h
  · rename_i name cs' hq
    have h1 := qname_length hq
    split at h
    · simp at h
    · rename_i as closed r ht
      have h2 := tagRest_length ht
      simp only [Except.ok.injEq, Prod.mk.injEq] at h
      rw [← h.2]
      omega

end SpaceAudit.Markup
