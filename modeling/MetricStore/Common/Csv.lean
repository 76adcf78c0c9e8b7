import MetricStore.Common.Bytes

/-!
# Comma-separated values

One record of Go's `encoding/csv`, written and read with the default settings, at the level
of bytes.

The writer puts a field in quotation marks if it has a comma, a quotation mark, a carriage
return or a newline in it, starts with a space, or is `\.`; a quotation mark in it is
doubled. The reader drops a carriage return before a newline (or the end of the input)
wherever it is, and skips blank lines.

Results:
* `read_write`: what is read of a record that was written: its fields, with the carriage
  returns before newlines dropped, and nothing for a single empty field.
* `write_injective`: different records are written differently.
* `foldNewlines_eq_self_iff`: which fields come back as they were.
-/

namespace MetricStore.Common.Csv

/-! ## The writer -/

/-- The first character is a space of Unicode, in UTF-8. -/
def startsWithSpace : Bytes → Bool
  | c :: s =>
    c ∈ [9, 10, 11, 12, 13, 32] ||
      (c = 0xC2 && (s.head? = some 0x85 || s.head? = some 0xA0)) ||
      (c = 0xE1 && s.take 2 = [0x9A, 0x80]) ||
      (c = 0xE2 && s.head? = some 0x80 &&
        ((s.drop 1).head?.any fun d => (0x80 ≤ d && d ≤ 0x8A) || d ∈ [0xA8, 0xA9, 0xAF])) ||
      (c = 0xE2 && s.take 2 = [0x81, 0x9F]) ||
      (c = 0xE3 && s.take 2 = [0x80, 0x80])
  | [] => false

/-- A byte for which a field is quoted: a comma, a quotation mark, a carriage return or a
    newline. -/
def isSpecial (c : UInt8) : Bool := c ∈ [44, 34, 13, 10]

/-- `fieldNeedsQuotes`. -/
def fieldNeedsQuotes (field : Bytes) : Bool :=
  field ≠ [] && (field = lit "\\." || field.any isSpecial || startsWithSpace field)

/-- A field with its quotation marks doubled. -/
def escape (field : Bytes) : Bytes := field.flatMap fun c => if c = 34 then [34, 34] else [c]

def writeField (field : Bytes) : Bytes :=
  if fieldNeedsQuotes field then 34 :: escape field ++ [34] else field

/-- `Writer.Write`: the fields, separated by commas, and a newline. -/
def write : List Bytes → Bytes
  | [] => [10]
  | [field] => writeField field ++ [10]
  | field :: next :: fields => writeField field ++ 44 :: write (next :: fields)

/-! ## The reader -/

/-- The carriage returns before newlines dropped. -/
def foldNewlines : Bytes → Bytes
  | [] => []
  | c :: s => if c = 13 ∧ s.head? = some 10 then foldNewlines s else c :: foldNewlines s

/-- The lines as `readLine` returns them: a carriage return at the end of the input is
    dropped, too. -/
def normalise (input : Bytes) : Bytes :=
  if input.getLast? = some 13 then (foldNewlines input).dropLast else foldNewlines input

/-- The errors of `Read`. -/
inductive ReadError
  | eof
  | bareQuote
  | quote
  deriving DecidableEq, Repr

/-- Where the reader is: at the start of a field, in a field without quotation marks, in
    one with them, or after a quotation mark in one. -/
inductive Mode
  | start
  | bare
  | quoted
  | closing

/-- The loop of `readRecord`, with the field so far and the fields before it. -/
def readFrom : Mode → Bytes → List Bytes → Bytes → Except ReadError (List Bytes)
  | .quoted, _, _, [] => .error .quote
  | _, field, fields, [] => .ok (fields ++ [field])
  | .start, field, fields, c :: s =>
    if c = 34 then readFrom .quoted [] fields s
    else if c = 44 then readFrom .start [] (fields ++ [field]) s
    else if c = 10 then .ok (fields ++ [field])
    else readFrom .bare [c] fields s
  | .bare, field, fields, c :: s =>
    if c = 34 then .error .bareQuote
    else if c = 44 then readFrom .start [] (fields ++ [field]) s
    else if c = 10 then .ok (fields ++ [field])
    else readFrom .bare (field ++ [c]) fields s
  | .quoted, field, fields, c :: s =>
    if c = 34 then readFrom .closing field fields s
    else readFrom .quoted (field ++ [c]) fields s
  | .closing, field, fields, c :: s =>
    if c = 34 then readFrom .quoted (field ++ [34]) fields s
    else if c = 44 then readFrom .start [] (fields ++ [field]) s
    else if c = 10 then .ok (fields ++ [field])
    else .error .quote

/-- `Reader.Read`: the first record, after the blank lines. -/
def read (input : Bytes) : Except ReadError (List Bytes) :=
  match (normalise input).dropWhile (· = 10) with
  | [] => .error .eof
  | c :: s => readFrom .start [] [] (c :: s)

/-! ## Reading a field that was written -/

theorem isSpecial_eq_false_iff {c : UInt8} :
    isSpecial c = false ↔ ¬ c = 44 ∧ ¬ c = 34 ∧ ¬ c = 13 ∧ ¬ c = 10 := by
  simp [isSpecial]

/-- A field that is not quoted has no byte in it that the reader takes for its own. -/
theorem not_special_of_not_quoted {field : Bytes} (h : fieldNeedsQuotes field = false) :
    ∀ c ∈ field, isSpecial c = false := by
  intro c hc
  by_contra hspecial
  have hany : field.any isSpecial = true :=
    List.any_eq_true.2 ⟨c, hc, Bool.not_eq_false _ ▸ hspecial⟩
  have hne : field ≠ [] := List.ne_nil_of_mem hc
  simp [fieldNeedsQuotes, hany, hne] at h

theorem escape_cons (c : UInt8) (field : Bytes) :
    escape (c :: field) = (if c = 34 then [34, 34] else [c]) ++ escape field := by
  simp [escape]

theorem readFrom_escape (fields : List Bytes) (rest : Bytes) : ∀ field before : Bytes,
    readFrom .quoted before fields (escape field ++ 34 :: rest) =
      readFrom .closing (before ++ field) fields rest := by
  intro field
  induction field with
  | nil =>
    intro before
    simp [escape, readFrom]
  | cons c field ih =>
    intro before
    rw [escape_cons]
    by_cases hc : c = 34
    · subst hc
      simp [readFrom, ih]
    · simp [readFrom, hc, ih]

/-- The bytes that end a field. -/
def IsEnd (c : UInt8) : Prop := c = 44 ∨ c = 10

/-- What the reader does at the end of a field. -/
def atEnd (fields : List Bytes) (c : UInt8) (rest : Bytes) : Except ReadError (List Bytes) :=
  if c = 44 then readFrom .start [] fields rest else .ok fields

theorem readFrom_bare (fields : List Bytes) {c : UInt8} (hend : IsEnd c) (rest : Bytes) :
    ∀ field before : Bytes, (∀ b ∈ field, isSpecial b = false) →
    readFrom .bare before fields (field ++ c :: rest) =
      atEnd (fields ++ [before ++ field]) c rest := by
  intro field
  induction field with
  | nil =>
    intro before _
    rcases hend with rfl | rfl <;> simp [readFrom, atEnd]
  | cons b field ih =>
    intro before h
    rw [List.forall_mem_cons] at h
    obtain ⟨hcomma, hquote, _, hnewline⟩ := isSpecial_eq_false_iff.1 h.1
    rw [List.cons_append, readFrom, if_neg hquote, if_neg hcomma, if_neg hnewline,
      ih (before ++ [b]) h.2, List.append_assoc]
    rfl

/-- A field of a record and the byte after it. -/
theorem readFrom_writeField (fields : List Bytes) {c : UInt8} (hend : IsEnd c)
    (rest field : Bytes) :
    readFrom .start [] fields (writeField field ++ c :: rest) =
      atEnd (fields ++ [field]) c rest := by
  unfold writeField
  split_ifs with hquotes
  · rw [List.cons_append, List.cons_append, readFrom, if_pos rfl, List.append_assoc,
      List.singleton_append, readFrom_escape, List.nil_append]
    rcases hend with rfl | rfl <;> simp [readFrom, atEnd]
  · cases field with
    | nil => rcases hend with rfl | rfl <;> simp [readFrom, atEnd]
    | cons b field =>
      have hplain := not_special_of_not_quoted (Bool.eq_false_iff.2 hquotes)
      have hbare := readFrom_bare fields hend rest field [b] (List.forall_mem_cons.1 hplain).2
      obtain ⟨hcomma, hquote, _, hnewline⟩ :=
        isSpecial_eq_false_iff.1 (List.forall_mem_cons.1 hplain).1
      rw [List.cons_append, readFrom, if_neg hquote, if_neg hcomma, if_neg hnewline, hbare]
      rfl

theorem readFrom_write : ∀ (record before : List Bytes), record ≠ [] →
    readFrom .start [] before (write record) = .ok (before ++ record) := by
  intro record
  induction record with
  | nil =>
    intro before h
    exact absurd rfl h
  | cons field record ih =>
    intro before _
    cases record with
    | nil =>
      rw [write, readFrom_writeField before (Or.inr rfl)]
      rfl
    | cons next record =>
      rw [write, readFrom_writeField before (Or.inl rfl), atEnd, if_pos rfl,
        ih _ (List.cons_ne_nil _ _), List.append_assoc]
      rfl

/-- Different records are written differently. -/
theorem write_injective {record record' : List Bytes} (h : record ≠ []) (h' : record' ≠ [])
    (heq : write record = write record') : record = record' := by
  have hread := readFrom_write record [] h
  rw [heq, readFrom_write record' [] h', List.nil_append, List.nil_append,
    Except.ok.injEq] at hread
  exact hread.symm

/-! ## Carriage returns -/

theorem foldNewlines_cons_of_ne {c : UInt8} (hc : c ≠ 13) (s : Bytes) :
    foldNewlines (c :: s) = c :: foldNewlines s := by
  rw [foldNewlines, if_neg fun h => hc h.1]

theorem foldNewlines_append_of_not_mem {s : Bytes} (h : 13 ∉ s) (t : Bytes) :
    foldNewlines (s ++ t) = s ++ foldNewlines t := by
  induction s with
  | nil => rfl
  | cons c s ih =>
    rw [List.mem_cons, not_or] at h
    rw [List.cons_append, foldNewlines_cons_of_ne (Ne.symm h.1), ih h.2, List.cons_append]

theorem foldNewlines_of_not_mem {s : Bytes} (h : 13 ∉ s) : foldNewlines s = s := by
  have happend := foldNewlines_append_of_not_mem h []
  rwa [List.append_nil, foldNewlines, List.append_nil] at happend

theorem mem_foldNewlines {s : Bytes} (h : 13 ∈ s) :
    13 ∈ foldNewlines s ∨ 10 ∈ foldNewlines s := by
  induction s with
  | nil => exact absurd h List.not_mem_nil
  | cons c s ih =>
    rw [foldNewlines]
    split_ifs with hfold
    · -- the newline after the carriage return stays
      right
      cases s with
      | nil => cases hfold.2
      | cons d s =>
        have hd : d = 10 := Option.some.inj hfold.2
        subst hd
        rw [foldNewlines_cons_of_ne (by decide)]
        exact List.mem_cons_self
    · rcases List.mem_cons.1 h with rfl | hs
      · exact Or.inl List.mem_cons_self
      · exact (ih hs).imp (List.mem_cons_of_mem c) (List.mem_cons_of_mem c)

/-- A field comes back as it was if and only if no carriage return in it stands before a
    newline. -/
theorem foldNewlines_eq_self_iff (s : Bytes) : foldNewlines s = s ↔ ¬ [13, 10] <:+: s := by
  have hlength : ∀ t : Bytes, (foldNewlines t).length ≤ t.length := by
    intro t
    induction t with
    | nil => exact Nat.le_refl 0
    | cons c t ih =>
      rw [foldNewlines]
      split_ifs
      · exact Nat.le_succ_of_le ih
      · exact Nat.succ_le_succ ih
  induction s with
  | nil => simp [foldNewlines]
  | cons c s ih =>
    have hhead : [13, 10] <+: c :: s ↔ c = 13 ∧ s.head? = some 10 := by
      cases s with
      | nil => simp
      | cons d s =>
        simp only [List.cons_prefix_cons, List.nil_prefix, and_true, List.head?_cons,
          Option.some.injEq]
        exact and_congr eq_comm eq_comm
    rw [List.infix_cons_iff, hhead, not_or, foldNewlines]
    split_ifs with hfold
    · have hshort : foldNewlines s ≠ c :: s := by
        intro heq
        have := hlength s
        rw [heq, List.length_cons] at this
        omega
      exact iff_of_false hshort fun h => h.1 hfold
    · constructor
      · intro heq
        exact ⟨hfold, ih.1 (List.cons.inj heq).2⟩
      · intro h
        rw [ih.2 h.2]

theorem head_escape_append {s : Bytes} (t : Bytes) :
    (escape s ++ 34 :: t).head? = some 10 ↔ s.head? = some 10 := by
  cases s with
  | nil => simp [escape]
  | cons c s =>
    rw [escape_cons]
    split_ifs with hc
    · subst hc
      simp
    · simp

theorem foldNewlines_escape (t : Bytes) : ∀ s : Bytes,
    foldNewlines (escape s ++ 34 :: t) = escape (foldNewlines s) ++ 34 :: foldNewlines t := by
  intro s
  induction s with
  | nil => exact foldNewlines_cons_of_ne (by decide) t
  | cons c s ih =>
    by_cases hc : c = 34
    · subst hc
      rw [escape_cons, if_pos rfl, foldNewlines_cons_of_ne (by decide), escape_cons, if_pos rfl]
      simp only [List.cons_append, List.nil_append]
      rw [foldNewlines_cons_of_ne (by decide), foldNewlines_cons_of_ne (by decide), ih]
    · rw [escape_cons, if_neg hc, List.singleton_append, List.cons_append]
      by_cases hfold : c = 13 ∧ s.head? = some 10
      · rw [foldNewlines, if_pos (And.imp_right (head_escape_append t).2 hfold), ih,
          foldNewlines, if_pos hfold]
      · rw [foldNewlines, if_neg fun h => hfold (And.imp_right (head_escape_append t).1 h), ih,
          foldNewlines, if_neg hfold, escape_cons, if_neg hc]
        rfl

theorem fieldNeedsQuotes_foldNewlines (field : Bytes) :
    fieldNeedsQuotes (foldNewlines field) = fieldNeedsQuotes field := by
  by_cases hmem : 13 ∈ field
  · have hquoted : ∀ {s : Bytes}, (13 ∈ s ∨ 10 ∈ s) → fieldNeedsQuotes s = true := by
      intro s hs
      have hany : s.any isSpecial = true := by
        rcases hs with hs | hs
        · exact List.any_eq_true.2 ⟨13, hs, rfl⟩
        · exact List.any_eq_true.2 ⟨10, hs, rfl⟩
      have hne : s ≠ [] := by
        rintro rfl
        simp at hs
      simp [fieldNeedsQuotes, hany, hne]
    rw [hquoted (mem_foldNewlines hmem), hquoted (Or.inl hmem)]
  · rw [foldNewlines_of_not_mem hmem]

theorem foldNewlines_writeField (field t : Bytes) :
    foldNewlines (writeField field ++ t) = writeField (foldNewlines field) ++ foldNewlines t := by
  unfold writeField
  rw [fieldNeedsQuotes_foldNewlines]
  split_ifs with hquotes
  · simp only [List.cons_append, List.append_assoc, List.nil_append]
    rw [foldNewlines_cons_of_ne (by decide), foldNewlines_escape]
  · have hmem : 13 ∉ field := fun hmem =>
      absurd (not_special_of_not_quoted (Bool.eq_false_iff.2 hquotes) 13 hmem) (by decide)
    rw [foldNewlines_append_of_not_mem hmem, foldNewlines_of_not_mem hmem]

theorem foldNewlines_write : ∀ record : List Bytes,
    foldNewlines (write record) = write (record.map foldNewlines) := by
  intro record
  induction record with
  | nil => rfl
  | cons field record ih =>
    cases record with
    | nil => exact foldNewlines_writeField field [10]
    | cons next record =>
      rw [write, foldNewlines_writeField, foldNewlines_cons_of_ne (by decide), ih]
      rfl

theorem getLast_write : ∀ record : List Bytes, (write record).getLast? = some 10 := by
  intro record
  induction record with
  | nil => rfl
  | cons field record ih =>
    cases record with
    | nil => exact List.getLast?_concat
    | cons next record =>
      rw [write, List.getLast?_append, List.getLast?_cons, ih]
      rfl

/-- What the lines of a record are when they are read. -/
theorem normalise_write (record : List Bytes) :
    normalise (write record) = write (record.map foldNewlines) := by
  rw [normalise, getLast_write, if_neg (by decide), foldNewlines_write]

/-! ## The round trip -/

theorem head_writeField_append (field t : Bytes) (h : field ≠ []) :
    (writeField field ++ t).head? ≠ some 10 := by
  unfold writeField
  split_ifs with hquotes
  · simp
  · cases field with
    | nil => exact absurd rfl h
    | cons c field =>
      have hc := not_special_of_not_quoted (Bool.eq_false_iff.2 hquotes) c List.mem_cons_self
      rw [List.cons_append, List.head?_cons, Ne, Option.some.injEq]
      exact (isSpecial_eq_false_iff.1 hc).2.2.2

/-- Only a record of one empty field is written as a blank line. -/
theorem head_write {record : List Bytes} (hne : record ≠ []) (hempty : record ≠ [[]]) :
    (write record).head? ≠ some 10 := by
  cases record with
  | nil => exact absurd rfl hne
  | cons field record =>
    by_cases hfield : field = []
    · subst hfield
      cases record with
      | nil => exact absurd rfl hempty
      | cons next record => simp [write, writeField, fieldNeedsQuotes]
    · cases record with
      | nil => exact head_writeField_append field _ hfield
      | cons next record => exact head_writeField_append field _ hfield

theorem foldNewlines_eq_nil {s : Bytes} (h : foldNewlines s = []) : s = [] := by
  by_cases hmem : 13 ∈ s
  · have hfold := mem_foldNewlines hmem
    simp [h] at hfold
  · rwa [foldNewlines_of_not_mem hmem] at h

/-- What is read of a record that was written. -/
theorem read_write {record : List Bytes} (hne : record ≠ []) :
    read (write record) =
      if record = [[]] then .error .eof else .ok (record.map foldNewlines) := by
  split_ifs with hempty
  · subst hempty
    rfl
  · have hne' : record.map foldNewlines ≠ [] := by simpa using hne
    have hempty' : record.map foldNewlines ≠ [[]] := by
      intro heq
      obtain ⟨field, rfl, hfield⟩ := List.map_eq_singleton_iff.1 heq
      exact hempty (by rw [foldNewlines_eq_nil hfield])
    have hhead := head_write hne' hempty'
    have hread := readFrom_write (record.map foldNewlines) [] hne'
    unfold read
    rw [normalise_write]
    cases hlines : write (record.map foldNewlines) with
    | nil => exact absurd (getLast_write (record.map foldNewlines)) (by simp [hlines])
    | cons c s =>
      rw [hlines, List.head?_cons, Ne, Option.some.injEq] at hhead
      rw [List.dropWhile_cons_of_neg (by simpa using hhead)]
      show readFrom .start [] [] (c :: s) = _
      rw [← hlines, hread, List.nil_append]

end MetricStore.Common.Csv
