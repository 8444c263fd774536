import SpaceAudit.Finding.Excerpt

/-! The byte that a line and a column stand for. It always lies in the text and in its line,
whatever the characters are. Columns count bytes, though, so the byte may lie inside a character:
such a finding cannot be shown, and these are the only ones. -/
namespace SpaceAudit.Excerpt

section Bytes

theorem byteLength_append (front back : List Char) :
    byteLength (front ++ back) = byteLength front + byteLength back := by
  induction front with
  | nil => simp [byteLength]
  | cons c front ih => simp only [List.cons_append, byteLength, ih, Nat.add_assoc]

def bytes (cs : List Char) : List UInt8 := cs.flatMap String.utf8EncodeChar

theorem bytes_append (front back : List Char) : bytes (front ++ back) = bytes front ++ bytes back :=
  List.flatMap_append

theorem length_bytes (cs : List Char) : (bytes cs).length = byteLength cs := by
  induction cs with
  | nil => rfl
  | cons c cs ih =>
    rw [bytes, List.flatMap_cons, List.length_append, String.length_utf8EncodeChar, byteLength]
    exact congrArg (c.utf8Size + ·) ih

theorem bytes_toList (s : String) : bytes s.toList = s.toByteArray.data.toList := by
  have h : s.toByteArray = s.toList.utf8Encode := by
    rw [← String.toByteArray_ofList, String.ofList_toList]
  rw [h]
  exact List.toList_data_toByteArray.symm

theorem byteLength_toList (s : String) : byteLength s.toList = s.utf8ByteSize := by
  rw [← length_bytes, bytes_toList, Array.length_toList]
  exact String.size_toByteArray

theorem le_of_mem_utf8EncodeChar {c : Char} (h : 127 < c.val.toNat) :
    ∀ b ∈ String.utf8EncodeChar c, 128 ≤ b.toNat := by
  unfold String.utf8EncodeChar
  generalize c.val.toNat = v at h ⊢
  dsimp only
  rw [if_neg (Nat.not_le.2 h)]
  split
  · simp only [List.mem_cons, List.not_mem_nil, or_false, forall_eq_or_imp, forall_eq,
      UInt8.toNat_ofNat']
    omega
  · split
    all_goals
      simp only [List.mem_cons, List.not_mem_nil, or_false, forall_eq_or_imp, forall_eq,
        UInt8.toNat_ofNat']
      omega

/-- The byte of a newline is in no other character. -/
theorem count_newline_utf8EncodeChar (c : Char) :
    (String.utf8EncodeChar c).count 10 = if c = '\n' then 1 else 0 := by
  by_cases hshort : c.val.toNat ≤ 127
  · have hbyte : UInt8.ofNat c.val.toNat = 10 ↔ c = '\n' := by
      rw [Char.ext_iff, ← UInt32.toNat_inj, ← UInt8.toNat_inj, UInt8.toNat_ofNat',
        Nat.mod_eq_of_lt (by omega)]
      rfl
    rw [String.utf8EncodeChar, if_pos hshort, List.count_singleton]
    simp only [beq_iff_eq, hbyte]
  · have hlong : 127 < c.val.toNat := by omega
    rw [List.count_eq_zero.2 fun h => absurd (le_of_mem_utf8EncodeChar hlong 10 h) (by decide),
      if_neg]
    intro h
    rw [h] at hlong
    exact absurd hlong (by decide)

theorem count_newline_bytes (cs : List Char) : (bytes cs).count 10 = cs.count '\n' := by
  induction cs with
  | nil => rfl
  | cons c cs ih =>
    rw [bytes, List.flatMap_cons, List.count_append, count_newline_utf8EncodeChar, List.count_cons]
    rw [bytes] at ih
    simp only [ih, beq_iff_eq, Nat.add_comm]

end Bytes

section Lines

theorem newlineLines_append {line : List Char} (h : '\n' ∉ line) (rest : List Char) :
    newlineLines (line ++ '\n' :: rest) = (line ++ ['\n']) :: newlineLines rest := by
  induction line with
  | nil => rfl
  | cons c line ih =>
    obtain ⟨hc, hline⟩ := not_or.1 (mt List.mem_cons.2 h)
    rw [List.cons_append, newlineLines, if_neg (Ne.symm hc), ih hline]
    rfl

theorem newlineLines_singleton {line : List Char} (h : '\n' ∉ line) (hne : line ≠ []) :
    newlineLines line = [line] := by
  induction line with
  | nil => exact absurd rfl hne
  | cons c line ih =>
    obtain ⟨hc, hline⟩ := not_or.1 (mt List.mem_cons.2 h)
    rw [newlineLines, if_neg (Ne.symm hc)]
    cases line with
    | nil => rfl
    | cons d line => rw [ih hline nofun]

theorem filter_newline {line : List Char} (h : '\n' ∉ line) : line.filter (· != '\n') = line := by
  rw [List.filter_eq_self]
  intro c hc
  rw [bne_iff_ne]
  intro heq
  exact h (heq ▸ hc)

theorem offset?_one {line back : List Char} (h : '\n' ∉ line)
    (hback : back = [] ∧ line ≠ [] ∨ ∃ rest, back = '\n' :: rest) (column : Nat) :
    offset? (line ++ back) 1 column = some (min (column - 1) (byteLength line)) := by
  have hcolumn : max column 1 - 1 = column - 1 := by omega
  obtain ⟨rfl, hne⟩ | ⟨rest, rfl⟩ := hback
  · simp [offset?, newlineLines_singleton h hne, filter_newline h, hcolumn, byteLength]
  · simp [offset?, newlineLines_append h, filter_newline h, hcolumn, byteLength]

theorem offset?_succ {line : List Char} (h : '\n' ∉ line) (rest : List Char) (n column : Nat) :
    offset? (line ++ '\n' :: rest) (n + 2) column =
      (offset? rest (n + 1) column).map (byteLength (line ++ ['\n']) + ·) := by
  simp only [offset?, newlineLines_append h, List.getElem?_cons_succ, List.take_succ_cons,
    List.flatten_cons]
  cases (newlineLines rest)[n]? with
  | none => rfl
  | some text => simp only [Option.map_some, byteLength_append, Nat.add_assoc]

theorem offset?_of_unbroken {line : List Char} (h : '\n' ∉ line) (n column : Nat) :
    offset? line (n + 2) column = none := by
  cases line with
  | nil => rfl
  | cons c line => simp [offset?, newlineLines_singleton h (List.cons_ne_nil c line)]

/-- In the text, `line` stands between `front` and `back` as the line of this number. -/
structure LineAt (cs : List Char) (number : Nat) (front line back : List Char) : Prop where
  text : cs = front ++ (line ++ back)
  number : front.count '\n' + 1 = number
  starts : front = [] ∨ front.getLast? = some '\n'
  unbroken : '\n' ∉ line
  ends : back = [] ∧ line ≠ [] ∨ ∃ rest, back = '\n' :: rest

theorem LineAt.behind {first front line back cs : List Char} {n : Nat} (hfirst : '\n' ∉ first)
    (h : LineAt cs n front line back) :
    LineAt (first ++ '\n' :: cs) (n + 1) (first ++ '\n' :: front) line back where
  text := by simp [h.text]
  number := by
    rw [List.count_append, List.count_cons_self, List.count_eq_zero.2 hfirst, ← h.number]
    omega
  starts := by
    right
    rcases h.starts with hnil | hlast
    · simp [hnil]
    · simp [List.getLast?_cons, hlast]
  unbroken := h.unbroken
  ends := h.ends

theorem LineAt.offset?_eq {cs front line back : List Char} {n : Nat}
    (h : LineAt cs n front line back) (column : Nat) :
    offset? cs n column = some (byteLength front + min (column - 1) (byteLength line)) := by
  induction n generalizing cs front with
  | zero => exact absurd h.number (Nat.succ_ne_zero _)
  | succ n ih =>
    obtain ⟨rfl, hnumber, hstarts, hunbroken, hends⟩ := h
    by_cases hmem : '\n' ∈ front
    · -- The first newline is one of those before the line.
      obtain ⟨first, rest, rfl, hfirst⟩ := List.eq_append_cons_of_mem hmem
      rw [List.count_append, List.count_cons_self, List.count_eq_zero.2 hfirst] at hnumber
      have hrest : rest = [] ∨ rest.getLast? = some '\n' := by
        cases rest with
        | nil => exact .inl rfl
        | cons c rest => simpa [List.getLast?_cons] using hstarts
      obtain ⟨m, rfl⟩ : ∃ m, n = m + 1 := ⟨rest.count '\n', by omega⟩
      have hline : LineAt (rest ++ (line ++ back)) (m + 1) rest line back :=
        ⟨rfl, by omega, hrest, hunbroken, hends⟩
      rw [List.append_assoc, List.cons_append, offset?_succ hfirst, ih hline, Option.map_some,
        List.append_cons first '\n' rest, byteLength_append (first ++ ['\n']), Nat.add_assoc]
    · have hfront : front = [] :=
        hstarts.resolve_right fun hlast => hmem (List.mem_of_getLast? hlast)
      subst hfront
      obtain rfl : n = 0 := by simpa using hnumber.symm
      rw [List.nil_append, offset?_one hunbroken hends, byteLength, Nat.zero_add]

theorem exists_lineAt {cs : List Char} {n column o : Nat} (h : offset? cs n column = some o) :
    ∃ front line back, LineAt cs n front line back := by
  induction n generalizing cs o with
  | zero => cases h
  | succ n ih =>
    by_cases hmem : '\n' ∈ cs
    · obtain ⟨first, rest, rfl, hfirst⟩ := List.eq_append_cons_of_mem hmem
      cases n with
      | zero => exact ⟨[], first, '\n' :: rest, rfl, rfl, .inl rfl, hfirst, .inr ⟨rest, rfl⟩⟩
      | succ m =>
        rw [offset?_succ hfirst] at h
        obtain ⟨p, hp, _⟩ := Option.map_eq_some_iff.1 h
        obtain ⟨front, line, back, hline⟩ := ih hp
        exact ⟨_, line, back, hline.behind hfirst⟩
    · cases n with
      | zero =>
        refine ⟨[], cs, [], by simp, rfl, .inl rfl, hmem, .inl ⟨rfl, ?_⟩⟩
        intro hnil
        rw [hnil] at h
        cases h
      | succ m =>
        rw [offset?_of_unbroken hmem] at h
        cases h

end Lines

section Boundaries

/-- Characters that take so many bytes stand at the front. -/
def IsBoundary (cs : List Char) (n : Nat) : Prop :=
  ∃ front back, cs = front ++ back ∧ byteLength front = n

theorem isValid_iff_isBoundary (s : String) (n : Nat) :
    String.Pos.Raw.IsValid s ⟨n⟩ ↔ IsBoundary s.toList n := by
  rw [String.Pos.Raw.isValid_iff_exists_append]
  constructor
  · rintro ⟨front, back, rfl, hn⟩
    refine ⟨front.toList, back.toList, String.toList_append, ?_⟩
    rw [byteLength_toList]
    exact (congrArg String.Pos.Raw.byteIdx hn).symm
  · rintro ⟨front, back, htext, hn⟩
    refine ⟨String.ofList front, String.ofList back, ?_, ?_⟩
    · rw [← String.ofList_append, ← htext, String.ofList_toList]
    · have hbytes : (String.ofList front).utf8ByteSize = n := by
        rw [← byteLength_toList, String.toList_ofList, hn]
      exact String.Pos.Raw.ext hbytes.symm

theorem dropBytes_append (front cs : List Char) (n : Nat) :
    dropBytes (byteLength front + n) (front ++ cs) = dropBytes n cs := by
  induction front with
  | nil => rw [byteLength, Nat.zero_add, List.nil_append]
  | cons c front ih =>
    have hpos := c.utf8Size_pos
    have hlength : byteLength (c :: front) + n = c.utf8Size + (byteLength front + n) := by
      rw [byteLength, Nat.add_assoc]
    rw [hlength, List.cons_append, dropBytes, if_pos (Nat.le_add_right _ _),
      Nat.add_sub_cancel_left, ih]
    omega

theorem dropBytes_eq_ok_iff {n : Nat} {cs rest : List Char} :
    dropBytes n cs = .ok rest ↔ ∃ front, cs = front ++ rest ∧ byteLength front = n := by
  constructor
  · intro h
    fun_induction dropBytes n cs with
    | case1 cs => exact ⟨[], Except.ok.inj h, rfl⟩
    | case2 => cases h
    | case3 n c cs _ hfits ih =>
      obtain ⟨front, rfl, hlength⟩ := ih h
      exact ⟨c :: front, rfl, by rw [byteLength, hlength]; omega⟩
    | case4 => cases h
  · rintro ⟨front, rfl, rfl⟩
    have h := dropBytes_append front rest 0
    rwa [Nat.add_zero, dropBytes] at h

theorem isBoundary_iff {n : Nat} {cs : List Char} :
    IsBoundary cs n ↔ dropBytes n cs ≠ .error .insideCharacter := by
  constructor
  · rintro ⟨front, back, htext, hn⟩
    rw [dropBytes_eq_ok_iff.2 ⟨front, htext, hn⟩]
    nofun
  · intro h
    cases hdrop : dropBytes n cs with
    | error e => exact absurd hdrop h
    | ok rest =>
      obtain ⟨front, htext, hn⟩ := dropBytes_eq_ok_iff.1 hdrop
      exact ⟨front, rest, htext, hn⟩

/-- The byte after the first `n` of these characters is not the first one of a character. -/
def Inside (cs : List Char) (n : Nat) : Prop :=
  ∃ before c after, cs = before ++ c :: after ∧ byteLength before < n ∧
    n < byteLength before + c.utf8Size

theorem inside_cons_iff {c : Char} {cs : List Char} {n : Nat} :
    Inside (c :: cs) n ↔ 0 < n ∧ n < c.utf8Size ∨ c.utf8Size ≤ n ∧ Inside cs (n - c.utf8Size) := by
  constructor
  · rintro ⟨before, d, after, htext, hlow, hhigh⟩
    cases before with
    | nil =>
      obtain ⟨rfl, rfl⟩ := List.cons.inj htext
      exact .inl ⟨hlow, by simpa [byteLength] using hhigh⟩
    | cons b before =>
      obtain ⟨rfl, rfl⟩ := List.cons.inj htext
      rw [byteLength] at hlow hhigh
      exact .inr ⟨by omega, before, d, after, rfl, by omega, by omega⟩
  · rintro (⟨hlow, hhigh⟩ | ⟨hle, before, d, after, rfl, hlow, hhigh⟩)
    · exact ⟨[], c, cs, rfl, hlow, by simpa [byteLength] using hhigh⟩
    · refine ⟨c :: before, d, after, rfl, ?_, ?_⟩
      · rw [byteLength]
        omega
      · rw [byteLength]
        omega

theorem Inside.lt {cs : List Char} {n : Nat} (h : Inside cs n) : n < byteLength cs := by
  obtain ⟨before, c, after, rfl, _, hhigh⟩ := h
  rw [byteLength_append, byteLength]
  omega

theorem dropBytes_eq_error_iff_inside {line : List Char} {n : Nat} (h : n ≤ byteLength line)
    (back : List Char) :
    dropBytes n (line ++ back) = .error .insideCharacter ↔ Inside line n := by
  induction line generalizing n with
  | nil =>
    obtain rfl := Nat.le_zero.1 h
    rw [List.nil_append, dropBytes]
    refine iff_of_false nofun ?_
    rintro ⟨before, c, after, htext, _⟩
    cases before <;> cases htext
  | cons c line ih =>
    rw [inside_cons_iff]
    rw [byteLength] at h
    cases n with
    | zero =>
      have hpos := c.utf8Size_pos
      exact iff_of_false nofun (by omega)
    | succ n =>
      rw [List.cons_append, dropBytes]
      by_cases hfits : c.utf8Size ≤ n + 1
      · rw [if_pos hfits, ih (by omega)]
        simp only [hfits, Nat.not_lt.2 hfits, true_and, and_false, false_or]
      · rw [if_neg hfits]
        exact iff_of_true rfl (.inl ⟨Nat.succ_pos n, Nat.lt_of_not_le hfits⟩)
      exact Nat.succ_ne_zero n

end Boundaries

/-- The column leads to a byte inside one of the characters of its line. -/
def CutsCharacter (source : String) (number column : Nat) : Prop :=
  ∃ front line back, LineAt source.toList number front line back ∧ Inside line (column - 1)

section Places
variable {cs front line back : List Char} {number : Nat}

/-- A column behind the end of its line stands for the end. -/
theorem LineAt.dropBytes_eq_error_iff (h : LineAt cs number front line back) (column : Nat) :
    dropBytes (byteLength front + min (column - 1) (byteLength line)) cs =
      .error .insideCharacter ↔ Inside line (column - 1) := by
  rw [h.text, dropBytes_append, dropBytes_eq_error_iff_inside (Nat.min_le_right _ _)]
  by_cases hle : column - 1 ≤ byteLength line
  · rw [Nat.min_eq_left hle]
  · rw [Nat.min_eq_right (by omega)]
    refine iff_of_false ?_ ?_
    · intro hinside
      exact Nat.lt_irrefl _ hinside.lt
    · intro hinside
      exact hle (Nat.le_of_lt hinside.lt)

theorem LineAt.le_byteLength (h : LineAt cs number front line back) {n : Nat}
    (hn : n ≤ byteLength line) : byteLength front + n ≤ byteLength cs := by
  rw [h.text, byteLength_append, byteLength_append]
  omega

theorem LineAt.count_newline (h : LineAt cs number front line back) {n : Nat}
    (hn : n ≤ byteLength line) :
    ((bytes cs).take (byteLength front + n)).count 10 + 1 = number := by
  have hline : (bytes line).count 10 = 0 := by
    rw [count_newline_bytes, List.count_eq_zero]
    exact h.unbroken
  have htake : ((bytes line).take n).count 10 = 0 :=
    Nat.le_zero.1 (hline ▸ (List.take_sublist n _).count_le 10)
  have hlength : n ≤ (bytes line).length := by rwa [length_bytes]
  rw [h.text, bytes_append, bytes_append, ← length_bytes front, List.take_length_add_append,
    List.take_append_of_le_length hlength, List.count_append, htake, count_newline_bytes,
    Nat.add_zero]
  exact h.number

end Places

theorem render_eq_error_iff (f : Finding) (source : String) :
    render f source = .error .insideCharacter ↔
      ∃ o, offset? source.toList f.line f.column = some o ∧
        dropBytes o source.toList = .error .insideCharacter := by
  unfold render
  dsimp only
  cases offset? source.toList f.line f.column with
  | none => simp
  | some o =>
    simp only [Option.some.injEq, exists_eq_left']
    cases dropBytes o source.toList with
    | error e => simp
    | ok rest =>
      simp only [reduceCtorEq, iff_false]
      split
      · nofun
      · split
        all_goals nofun

theorem cutsCharacter_iff {source : String} {number column : Nat} :
    CutsCharacter source number column ↔
      ∃ o, offset? source.toList number column = some o ∧
        dropBytes o source.toList = .error .insideCharacter := by
  constructor
  · rintro ⟨front, line, back, hline, hinside⟩
    exact ⟨_, hline.offset?_eq column, (hline.dropBytes_eq_error_iff column).2 hinside⟩
  · rintro ⟨o, ho, herror⟩
    obtain ⟨front, line, back, hline⟩ := exists_lineAt ho
    rw [hline.offset?_eq column, Option.some.injEq] at ho
    rw [← ho] at herror
    exact ⟨front, line, back, hline, (hline.dropBytes_eq_error_iff column).1 herror⟩

theorem not_inside_of_short {cs : List Char} (h : ∀ c ∈ cs, c.utf8Size = 1) (n : Nat) :
    ¬ Inside cs n := by
  rintro ⟨before, c, after, rfl, hlow, hhigh⟩
  rw [h c (by simp)] at hhigh
  omega

/-- Where a finding stands in a text, and when it can be shown there. The byte of its line and
column lies in the text, behind as many newlines as there are lines before. It is the first byte of
a character, or the end of the text, unless the column leads inside a character of the line; that
alone keeps a finding from being shown, and no text of one-byte characters does. -/
theorem offset_in_line (f : Finding) (source : String) :
    (∀ o, offset? source.toList f.line f.column = some o →
      o ≤ source.utf8ByteSize ∧
      (source.toByteArray.data.toList.take o).count 10 + 1 = f.line ∧
      (String.Pos.Raw.IsValid source ⟨o⟩ ↔ ¬ CutsCharacter source f.line f.column)) ∧
    (render f source = .error .insideCharacter ↔ CutsCharacter source f.line f.column) ∧
    ((∀ c ∈ source.toList, c.utf8Size = 1) → ¬ CutsCharacter source f.line f.column) := by
  refine ⟨fun o ho => ?_, ?_, fun hshort => ?_⟩
  · obtain ⟨front, line, back, hline⟩ := exists_lineAt ho
    have hoffset : o = byteLength front + min (f.column - 1) (byteLength line) := by
      rw [hline.offset?_eq, Option.some.injEq] at ho
      exact ho.symm
    refine ⟨?_, ?_, ?_⟩
    · rw [hoffset, ← byteLength_toList]
      exact hline.le_byteLength (Nat.min_le_right _ _)
    · rw [hoffset, ← bytes_toList]
      exact hline.count_newline (Nat.min_le_right _ _)
    · rw [isValid_iff_isBoundary, isBoundary_iff, cutsCharacter_iff]
      simp only [ho, Option.some.injEq, exists_eq_left']
  · rw [render_eq_error_iff, cutsCharacter_iff]
  · rintro ⟨front, line, back, hline, hinside⟩
    refine not_inside_of_short (fun c hc => hshort c ?_) _ hinside
    rw [hline.text]
    simp [hc]

/-- The second line begins with a character of two bytes. -/
def accented : String := "void f();\né x;\n"

def accentedFinding (column : Nat) : Finding :=
  ⟨.fatal, .hostStdOnDevice, ⟨"k.cpp"⟩, 2, column, "m", none⟩

theorem offset_in_line_accented :
    offset? accented.toList 2 3 = some 12 ∧ 12 ≤ accented.utf8ByteSize ∧
      (accented.toByteArray.data.toList.take 12).count 10 = 1 ∧
      String.Pos.Raw.IsValid accented ⟨12⟩ ∧
      (∀ c ∈ "x;".toList, c.utf8Size = 1) ∧ ¬ CutsCharacter "x;" 2 3 := by
  have hoffset : offset? accented.toList 2 3 = some 12 := by decide +kernel
  have hvalid : String.Pos.Raw.IsValid accented ⟨12⟩ := by
    rw [← String.Pos.Raw.isValid_eq_true_iff]
    decide +kernel
  have hall : ("x;".toList.all fun c => c.utf8Size == 1) = true := by decide +kernel
  have hshort : ∀ c ∈ "x;".toList, c.utf8Size = 1 := fun c hc =>
    beq_iff_eq.1 (List.all_eq_true.1 hall c hc)
  obtain ⟨hle, hcount, _⟩ := (offset_in_line (accentedFinding 3) accented).1 12 hoffset
  exact ⟨hoffset, hle, Nat.succ.inj hcount, hvalid, hshort,
    (offset_in_line (accentedFinding 3) "x;").2.2 hshort⟩

/-- The second byte of that character is a place that cannot be shown. -/
theorem accented_second_byte_unshown :
    offset? accented.toList 2 2 = some 11 ∧ ¬ String.Pos.Raw.IsValid accented ⟨11⟩ ∧
      render (accentedFinding 2) accented = .error .insideCharacter := by
  have hoffset : offset? accented.toList 2 2 = some 11 := by decide +kernel
  have hinside : Inside accented.toList 11 :=
    ⟨"void f();\n".toList, 'é', " x;\n".toList, by decide +kernel, by decide +kernel,
      by decide +kernel⟩
  have hdrop := (dropBytes_eq_error_iff_inside (by decide +kernel) []).2 hinside
  rw [List.append_nil] at hdrop
  refine ⟨hoffset, ?_, (render_eq_error_iff _ _).2 ⟨11, hoffset, hdrop⟩⟩
  rw [← String.Pos.Raw.isValid_eq_true_iff]
  decide +kernel

end SpaceAudit.Excerpt
