import SymbolRules.Proofs.Table.Grammar

/-!
# Ways of writing a line

A record can be written on a line in many ways: behind any mark, with its code points in either
case and filled up with zeros, with any blanks between and around the fields, and with commands
that are repeated. What is read as the record are exactly these texts
(`Record.parse_eq_ok_some_iff`).
-/

namespace SymbolRules

namespace Hex

theorem solid_of_isDigit {c : Char} {value : Nat} (isDigit : IsDigit c value) :
    isBlank c = false ∧ c ≠ '-' := by
  have all : ∀ value : Fin 16,
      (isBlank value.val.digitChar = false ∧ value.val.digitChar ≠ '-') ∧
        isBlank value.val.digitChar.toUpper = false ∧ value.val.digitChar.toUpper ≠ '-' := by
    decide +kernel
  obtain ⟨small, rfl | rfl⟩ := isDigit
  · exact (all ⟨value, small⟩).1
  · exact (all ⟨value, small⟩).2

theorem solid_of_areDigits {text : List Char} {value : Nat} (areDigits : AreDigits text value) :
    ∀ c ∈ text, isBlank c = false ∧ c ≠ '-' := by
  obtain ⟨digits, each, -⟩ := areDigits
  induction each with
  | nil => simp
  | cons first _ ih => exact List.forall_mem_cons.2 ⟨solid_of_isDigit first, ih⟩

/-- A numeral holds neither a blank nor a hyphen. -/
theorem solid_of_isNumeral {text : List Char} {value : Nat} (isNumeral : IsNumeral text value) :
    text ≠ [] ∧ ∀ c ∈ text, isBlank c = false ∧ c ≠ '-' := by
  obtain ⟨body, rfl | rfl, nonempty, areDigits⟩ := isNumeral
  · exact ⟨nonempty, solid_of_areDigits areDigits⟩
  · refine ⟨List.cons_ne_nil '+' body, List.forall_mem_cons.2 ⟨?_, solid_of_areDigits areDigits⟩⟩
    decide

end Hex

namespace Table

/-- Any number of blanks. -/
def AreBlanks (text : List Char) : Prop := ∀ c ∈ text, isBlank c = true

/-- Fields, each of them behind blanks, and perhaps blanks at the end. -/
inductive Trails : List (List Char) → List Char → Prop
  | ended {after : List Char} (blanks : AreBlanks after) : Trails [] after
  | field {gap field text : List Char} {fields : List (List Char)} (blanks : AreBlanks gap)
      (apart : gap ≠ []) (later : Trails fields text) :
      Trails (field :: fields) (gap ++ (field ++ text))

/-- A line with fields: the first of them stands behind any blanks, the others trail it. -/
inductive IsLineOf : List (List Char) → List Char → Prop
  | mk {before field text : List Char} {fields : List (List Char)} (blanks : AreBlanks before)
      (later : Trails fields text) : IsLineOf (field :: fields) (before ++ (field ++ text))

/-- A text that can be a field. -/
def IsSolid (field : List Char) : Prop := field ≠ [] ∧ ∀ c ∈ field, isBlank c = false

theorem fields_append_of_areBlanks {gap : List Char} (blanks : AreBlanks gap) (text : List Char) :
    fields (gap ++ text) = fields text := by
  induction gap with
  | nil => rfl
  | cons c gap ih =>
      obtain ⟨isFirst, others⟩ := List.forall_mem_cons.1 blanks
      rw [List.cons_append, fields_cons_of_blank isFirst, ih others]

theorem fields_of_areBlanks {text : List Char} (blanks : AreBlanks text) : fields text = [] := by
  have nothing := fields_append_of_areBlanks blanks []
  rw [List.append_nil] at nothing
  exact nothing

theorem Trails.head {fields : List (List Char)} {text : List Char} (trails : Trails fields text) :
    ∀ c ∈ text.head?, isBlank c = true := by
  intro c isHead
  cases trails with
  | ended blanks => exact blanks c (List.mem_of_mem_head? isHead)
  | field blanks apart later =>
      rw [List.head?_append_of_ne_nil _ apart] at isHead
      exact blanks c (List.mem_of_mem_head? isHead)

theorem fields_of_trails {others : List (List Char)} {text : List Char}
    (trails : Trails others text) (solid : ∀ field ∈ others, IsSolid field) :
    fields text = others := by
  induction trails with
  | ended blanks => exact fields_of_areBlanks blanks
  | field blanks apart later ih =>
      obtain ⟨isFirst, rest⟩ := List.forall_mem_cons.1 solid
      rw [fields_append_of_areBlanks blanks, fields_append_of_solid isFirst.1 isFirst.2 later.head,
        ih rest]

theorem fields_of_isLineOf {others : List (List Char)} {text : List Char}
    (isLine : IsLineOf others text) (solid : ∀ field ∈ others, IsSolid field) :
    fields text = others := by
  obtain ⟨blanks, later⟩ := isLine
  obtain ⟨isFirst, rest⟩ := List.forall_mem_cons.1 solid
  rw [fields_append_of_areBlanks blanks, fields_append_of_solid isFirst.1 isFirst.2 later.head,
    fields_of_trails later rest]

/-- A text is blank, or it is a line with its fields. -/
theorem AreFields.isLineOf {fields : List (List Char)} {text : List Char}
    (areFields : AreFields text fields) :
    (fields = [] ∧ AreBlanks text) ∨ IsLineOf fields text := by
  induction areFields with
  | nil => exact .inl ⟨rfl, by simp [AreBlanks]⟩
  | @blank c text fields blank later ih =>
      rcases ih with ⟨nothing, blanks⟩ | ⟨blanks, trails⟩
      · exact .inl ⟨nothing, List.forall_mem_cons.2 ⟨blank, blanks⟩⟩
      · have leading : AreBlanks (c :: _) := List.forall_mem_cons.2 ⟨blank, blanks⟩
        exact .inr (.mk leading trails)
  | @field field text fields nonempty solid ends later ih =>
      have none : AreBlanks [] := by simp [AreBlanks]
      refine .inr (.mk none ?_)
      rcases ih with ⟨rfl, blanks⟩ | @⟨before, next, tail, rest, blanks, trails⟩
      · exact .ended blanks
      · refine .field blanks ?_ trails
        -- Without a blank in between the next field would belong to this one.
        rintro rfl
        have isNext : next ∈ Table.fields ([] ++ (next ++ tail)) := by
          rw [← later.eq_fields]
          exact List.mem_cons_self ..
        obtain ⟨filled, isSolid⟩ := isSolid_of_mem_fields isNext
        obtain ⟨c, next, rfl⟩ := List.exists_cons_of_ne_nil filled
        have blank := ends c (by simp)
        have notBlank := isSolid c (List.mem_cons_self ..)
        rw [notBlank] at blank
        cases blank

end Table

namespace Record

/-- Commands as they may be written: each may be repeated anywhere behind its first place. -/
inductive Repeats (commands : List String) : List String → Prop
  | once : Repeats commands commands
  | again {front back : List String} {command : String}
      (written : Repeats commands (front ++ back)) (used : command ∈ front) :
      Repeats commands (front ++ command :: back)

/-- What a record must be like to stand on a line. -/
structure IsWritable (record : Record) : Prop extends record.IsProper where
  hasMathClass : record.mathClass ≠ ""
  unbroken : ∀ c ∈ record.mathClass.toList, isBlank c = false

/-- The ways of writing a record: a mark and the numerals of its code points, joined by hyphens;
    then the math class and the commands, some of them repeated. -/
def IsWrittenAs (record : Record) (text : String) : Prop :=
  ∃ mark numerals written, isBlank mark = false ∧
    List.Forall₂ (fun numeral codePoint => Hex.IsNumeral numeral codePoint.toNat) numerals
      record.codePoints ∧
    Repeats record.commands written ∧
    Table.IsLineOf
      ((mark :: List.intercalate ['-'] numerals) :: record.mathClass.toList ::
        written.map String.toList)
      text.toList

section Repeats

variable {commands written : List String}

theorem Repeats.mem (repeated : Repeats commands written) {command : String}
    (member : command ∈ written) : command ∈ commands := by
  induction repeated with
  | once => exact member
  | again _ used ih =>
      apply ih
      simp only [List.mem_append, List.mem_cons] at member ⊢
      rcases member with before | rfl | behind
      · exact .inl before
      · exact .inl used
      · exact .inr behind

theorem Repeats.concat (repeated : Repeats commands written) (command : String) :
    Repeats (commands ++ [command]) (written ++ [command]) := by
  induction repeated with
  | once => exact .once
  | again _ used ih =>
      rw [List.append_assoc] at ih
      rw [List.append_assoc, List.cons_append]
      exact .again ih used

/-- Keeping the first of each command takes the repeated ones away. -/
theorem Repeats.eraseDups_eq (repeated : Repeats commands written) :
    written.eraseDups = commands.eraseDups := by
  induction repeated with
  | once => rfl
  | again _ used ih =>
      rw [← ih, List.eraseDups_append, List.eraseDups_append]
      simp [List.removeAll, used]

theorem repeats_eraseDups (written : List String) : Repeats written.eraseDups written := by
  induction written using List.reverseRecOn with
  | nil => exact .once
  | append_singleton written command ih =>
      by_cases used : command ∈ written
      · rw [Keyed.eraseDups_concat_of_mem used]
        have written : Repeats written.eraseDups (written ++ []) := by
          rw [List.append_nil]
          exact ih
        exact .again written used
      · rw [Keyed.eraseDups_concat_of_notMem used]
        exact ih.concat command

theorem eraseDups_of_nodup (distinct : commands.Nodup) : commands.eraseDups = commands := by
  induction commands using List.reverseRecOn with
  | nil => rfl
  | append_singleton commands command ih =>
      obtain ⟨distinct, -, fresh⟩ := List.nodup_append.1 distinct
      have unused : command ∉ commands := fun member => fresh command member command (by simp) rfl
      rw [Keyed.eraseDups_concat_of_notMem unused, ih distinct]

end Repeats

section Identifier

variable {mark : Char} {numerals : List (List Char)} {codePoints : List CodePoint}

theorem solid_of_numerals (each : List.Forall₂
      (fun numeral codePoint => Hex.IsNumeral numeral codePoint.toNat) numerals codePoints) :
    ∀ numeral ∈ numerals, numeral ≠ [] ∧ ∀ c ∈ numeral, isBlank c = false ∧ c ≠ '-' := by
  induction each with
  | nil => simp
  | cons first _ ih => exact List.forall_mem_cons.2 ⟨Hex.solid_of_isNumeral first, ih⟩

theorem intercalate_ne_nil (someNumeral : numerals ≠ [])
    (nonempty : ∀ numeral ∈ numerals, numeral ≠ []) : List.intercalate ['-'] numerals ≠ [] := by
  match numerals with
  | [] => exact absurd rfl someNumeral
  | [numeral] => simpa [List.intercalate_singleton] using nonempty numeral
  | numeral :: next :: rest => simp [List.intercalate_cons_cons]

/-- The code points are read off the identifier. -/
theorem codePointsOf_intercalate (nonempty : codePoints ≠ [])
    (each : List.Forall₂ (fun numeral codePoint => Hex.IsNumeral numeral codePoint.toNat) numerals
      codePoints) :
    codePointsOf (mark :: List.intercalate ['-'] numerals) = .ok codePoints := by
  have someNumeral : numerals ≠ [] := by
    rintro rfl
    exact nonempty (List.forall₂_nil_left_iff.1 each)
  have solid := solid_of_numerals each
  have cut : Text.splitWhen (· == '-') (List.intercalate ['-'] numerals) = numerals := by
    apply Text.splitWhen_intercalate rfl someNumeral
    intro numeral isNumeral c member
    simpa using ((solid numeral isNumeral).2 c member).2
  have hasParts : (mark :: List.intercalate ['-'] numerals).tail ≠ [] :=
    intercalate_ne_nil someNumeral fun numeral member => (solid numeral member).1
  rw [codePointsOf_of_parts hasParts, List.tail_cons, cut, mapM_eq_ok_iff]
  exact each.imp fun _ _ => codePoint_eq_ok_iff.2

theorem isSolid_identifier (visible : isBlank mark = false)
    (each : List.Forall₂ (fun numeral codePoint => Hex.IsNumeral numeral codePoint.toNat) numerals
      codePoints) : Table.IsSolid (mark :: List.intercalate ['-'] numerals) := by
  refine ⟨List.cons_ne_nil mark _, List.forall_mem_cons.2 ⟨visible, ?_⟩⟩
  have hyphen : isBlank '-' = false := by decide
  refine Text.forall_mem_intercalate hyphen ?_
  intro numeral isNumeral c member
  exact ((solid_of_numerals each numeral isNumeral).2 c member).1

end Identifier

theorem parse_of_isWrittenAs {record : Record} {text : String} (writable : record.IsWritable)
    (isWritten : record.IsWrittenAs text) : parse record.line text = .ok (some record) := by
  obtain ⟨mark, numerals, written, visible, each, repeated, isLine⟩ := isWritten
  have areFields := Table.fields_of_isLineOf isLine <| by
    refine List.forall_mem_cons.2 ⟨isSolid_identifier visible each,
      List.forall_mem_cons.2 ⟨⟨by simpa using writable.hasMathClass, writable.unbroken⟩, ?_⟩⟩
    intro field isField
    obtain ⟨command, isWritten, rfl⟩ := List.mem_map.1 isField
    have isCommand := repeated.mem isWritten
    exact ⟨by simpa using writable.nonempty command isCommand, writable.solid command isCommand⟩
  have toText : String.ofList ∘ String.toList = id := funext fun _ => String.ofList_toList
  have commands : ((written.map String.toList).map String.ofList).eraseDups = record.commands := by
    rw [List.map_map, toText, List.map_id, repeated.eraseDups_eq,
      eraseDups_of_nodup writable.distinct]
  rw [parse, ofLine, areFields, ofFields, codePointsOf_intercalate writable.hasCodePoint each,
    commands, String.ofList_toList]

theorem isWrittenAs_of_parse {line : Nat} {record : Record} {text : String}
    (read : parse line text = .ok (some record)) :
    record.IsWritable ∧ record.IsWrittenAs text := by
  obtain ⟨id, mathClass, commands, areFields, found, -, isMathClass, isCommands⟩ :=
    exists_of_ofFields read
  have solid : ∀ field ∈ id :: mathClass :: commands, Table.IsSolid field := by
    intro field isField
    rw [← areFields] at isField
    exact Table.isSolid_of_mem_fields isField
  obtain ⟨isId, isClass, -⟩ := by simpa only [List.forall_mem_cons] using solid
  obtain ⟨mark, numerals, rfl⟩ := List.exists_cons_of_ne_nil isId.1
  have isLine : Table.IsLineOf ((mark :: numerals) :: mathClass :: commands) text.toList := by
    rcases (Table.areFields_iff.2 areFields.symm).isLineOf with ⟨nothing, -⟩ | isLine
    · cases nothing
    · exact isLine
  constructor
  · refine ⟨isProper_of_parse read, ?_, ?_⟩
    · simpa [isMathClass] using isClass.1
    · simpa [isMathClass] using isClass.2
  · refine ⟨mark, Text.splitWhen (· == '-') numerals, commands.map String.ofList,
      isId.2 mark (List.mem_cons_self ..), ?_, ?_, ?_⟩
    · rw [codePointsOf_of_parts (tail_ne_nil_of_codePointsOf found), List.tail_cons,
        mapM_eq_ok_iff] at found
      exact found.imp fun _ _ => codePoint_eq_ok_iff.1
    · rw [isCommands]
      exact repeats_eraseDups _
    · have toList : String.toList ∘ String.ofList = id := funext fun _ => String.toList_ofList
      rw [Text.intercalate_splitWhen, isMathClass, String.toList_ofList, List.map_map, toList,
        List.map_id]
      exact isLine

/-- A text is read as a record exactly if it is one of the ways of writing that record. -/
theorem parse_eq_ok_some_iff {line : Nat} {text : String} {record : Record} :
    parse line text = .ok (some record) ↔
      record.line = line ∧ record.IsWritable ∧ record.IsWrittenAs text := by
  constructor
  · intro read
    exact ⟨line_of_ofLine read, isWrittenAs_of_parse read⟩
  · rintro ⟨rfl, writable, isWritten⟩
    exact parse_of_isWrittenAs writable isWritten

end Record

end SymbolRules
