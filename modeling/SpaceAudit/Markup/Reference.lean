import SpaceAudit.Markup.Event

/-! Character references, and the value an attribute has once they are read. -/
namespace SpaceAudit.Markup

def digitValue (c : Char) : Nat :=
  if c.isDigit then c.toNat - 48
  else if 'a' ≤ c && c ≤ 'f' then c.toNat - 87
  else c.toNat - 55

def isHexDigit (c : Char) : Bool :=
  c.isDigit || ('a' ≤ c && c ≤ 'f') || ('A' ≤ c && c ≤ 'F')

/-- The character of a code point; the replacement character where there is none. -/
def charOfCode (n : Nat) : Char := if n.isValidChar then Char.ofNat n else Char.ofNat 0xFFFD

/-- A numeric reference after its mark: digits of a number below 4294967296 and a semicolon. -/
def numeric (base : Nat) (isDigit : Char → Bool) (cs : List Char) : Option (Char × List Char) :=
  let digits := cs.takeWhile isDigit
  let value := digits.foldl (fun n c => base * n + digitValue c) 0
  if digits.isEmpty || UInt32.size ≤ value || !isDocumentChar (charOfCode value) then none
  else
    match cs.dropWhile isDigit with
    | ';' :: rest => some (charOfCode value, rest)
    | _ => none

/-- A reference after its ampersand. Only the five standard names are known. -/
def reference : List Char → Option (Char × List Char)
  | '#' :: 'x' :: cs => numeric 16 isHexDigit cs
  | '#' :: cs => numeric 10 Char.isDigit cs
  | 'q' :: 'u' :: 'o' :: 't' :: ';' :: rest => some (quoteMark, rest)
  | 'a' :: 'm' :: 'p' :: ';' :: rest => some ('&', rest)
  | 'a' :: 'p' :: 'o' :: 's' :: ';' :: rest => some (singleQuoteMark, rest)
  | 'l' :: 't' :: ';' :: rest => some ('<', rest)
  | 'g' :: 't' :: ';' :: rest => some ('>', rest)
  | _ => none

theorem numeric_length {base : Nat} {p : Char → Bool} {cs rest : List Char} {c : Char}
    (h : numeric base p cs = some (c, rest)) : rest.length ≤ cs.length := by
  unfold numeric at h
  dsimp only at h
  split at h
  · simp at h
  · split at h
    · rename_i r hd
      have hle := dropWhile_length_le p cs
      rw [hd, List.length_cons] at hle
      simp only [Option.some.injEq, Prod.mk.injEq] at h
      rw [← h.2]
      omega
    · simp at h

theorem reference_length {cs rest : List Char} {c : Char} (h : reference cs = some (c, rest)) :
    rest.length ≤ cs.length := by
  unfold reference at h
  split at h
  · have := numeric_length h
    simp only [List.length_cons]
    omega
  · have := numeric_length h
    simp only [List.length_cons]
    omega
  all_goals first
    | (simp only [Option.some.injEq, Prod.mk.injEq] at h
       rw [← h.2]
       simp only [List.length_cons]
       omega)
    | simp at h

/-- Reads references. A tab or line ending that is written as such becomes one space; a character
that a reference names stays as it is. -/
def normalize (cs : List Char) : Except Fault (List Char) :=
  match cs with
  | [] => .ok []
  | '&' :: cs =>
    match _h : reference cs with
    | none => .error .badReference
    | some (c, rest) => (normalize rest).map (c :: ·)
  | '\r' :: '\n' :: cs => (normalize cs).map (' ' :: ·)
  | c :: cs => (normalize cs).map ((if isSpace c then ' ' else c) :: ·)
termination_by cs.length
decreasing_by
  all_goals simp only [List.length_cons]
  · have := reference_length _h
    omega
  all_goals omega

def Event.next (cs : List Char) : Except Fault (Event × List Char) :=
  match cs with
  | '<' :: '!' :: '-' :: '-' :: cs => comment cs
  | '<' :: '!' :: '[' :: 'C' :: 'D' :: 'A' :: 'T' :: 'A' :: '[' :: cs => literal cs
  | '<' :: '!' :: _ => .error .unknownPiece
  | '<' :: '?' :: cs => instruction cs
  | '<' :: '/' :: cs => closingTag cs
  | '<' :: cs => openingTag cs
  | cs =>
    let run := cs.takeWhile (· != '<')
    if !run.all isDocumentChar then .error .badCharacter
    else if (cutAt "]]>".toList run).isSome then .error .unknownPiece
    else
      match normalize run with
      | .error e => .error e
      | .ok _ => .ok (.text (run.all isSpace), cs.dropWhile (· != '<'))

theorem Event.next_length {cs rest : List Char} {e : Event} (hne : cs ≠ [])
    (h : Event.next cs = .ok (e, rest)) : rest.length < cs.length := by
  unfold Event.next at h
  split at h
  · have := comment_length h
    simp only [List.length_cons]
    omega
  · have := literal_length h
    simp only [List.length_cons]
    omega
  · simp at h
  · have := instruction_length h
    simp only [List.length_cons]
    omega
  · have := closingTag_length h
    simp only [List.length_cons]
    omega
  · have := openingTag_length h
    simp only [List.length_cons]
    omega
  · dsimp only at h
    split at h
    · simp at h
    · split at h
      · simp at h
      · split at h
        · simp at h
        · simp only [Except.ok.injEq, Prod.mk.injEq] at h
          rw [← h.2]
          cases cs with
          | nil => exact absurd rfl hne
          | cons c cs =>
            have hc : c ≠ '<' := by
              rintro rfl
              simp_all
            rw [List.dropWhile_cons_of_pos (by simpa using hc), List.length_cons]
            exact Nat.lt_succ_of_le (dropWhile_length_le _ _)

end SpaceAudit.Markup
