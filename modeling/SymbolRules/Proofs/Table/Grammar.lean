import SymbolRules.Proofs.FirstUse
import SymbolRules.Proofs.Numerals
import SymbolRules.Proofs.Table.Fields
import SymbolRules.Proofs.Table.Lines

/-!
# The grammar of a line

A line is read as its grammar says, and a line that does not follow it fails with the first of its
faults: a missing math class before a missing code point, and that before the leftmost part of the
identifier that is not a numeral (`Record.parse_agrees_with_grammar`).
-/

namespace SymbolRules

namespace Record

/-- Reading a line fails with a fault that has the given wording and is reported for that line. -/
def FailsWith (line : Nat) (text message : String) : Prop :=
  ∃ fault, parse line text = .error ⟨line, fault⟩ ∧ fault.message = message

/-- What comes of a line whose first field is an identifier with the given parts and that has a math
    class: a record with one code point for each part, or the leftmost part that is no numeral. -/
structure ReadsParts (line : Nat) (text : String) (id : List Char)
    (parts : List (List Char)) : Prop where
  succeeds_iff : (∃ record, parse line text = .ok (some record)) ↔
    ∀ part ∈ parts, Hex.IsWord32 part
  codePoints : ∀ record, parse line text = .ok (some record) →
    List.Forall₂ (fun part codePoint => Hex.IsNumeral part codePoint.toNat) parts record.codePoints
  leftmost : ∀ sound part rest, parts = sound ++ part :: rest →
    (∀ other ∈ sound, Hex.IsWord32 other) → ¬ Hex.IsWord32 part →
      FailsWith line text ("invalid code point `" ++ String.ofList part ++ "` in `" ++
        String.ofList id ++ "`")

/-- What holds of each record that is read, whatever its line. -/
structure IsProper (record : Record) : Prop where
  hasCodePoint : record.codePoints ≠ []
  distinct : record.commands.Nodup
  nonempty : ∀ command ∈ record.commands, command ≠ ""
  solid : ∀ command ∈ record.commands, ∀ c ∈ command.toList, isBlank c = false

section CodePoints

variable {id part : List Char}

theorem codePoint_eq_ok_iff {value : CodePoint} :
    codePoint id part = .ok value ↔ Hex.IsNumeral part value.toNat := by
  rw [← Hex.word32_eq_ok_iff, codePoint]
  cases Hex.word32 part <;> simp

theorem exists_codePoint_iff : (∃ value, codePoint id part = .ok value) ↔ Hex.IsWord32 part := by
  rw [← Hex.exists_word32_iff]
  exact exists_congr fun value => codePoint_eq_ok_iff.trans Hex.word32_eq_ok_iff.symm

theorem codePoint_of_not_isWord32 (notWord : ¬ Hex.IsWord32 part) :
    codePoint id part =
      .error (.invalidCodePoint (String.ofList part) (String.ofList id)) := by
  rw [← Hex.exists_word32_iff] at notWord
  rw [codePoint]
  cases read : Hex.word32 part with
  | ok value => exact absurd ⟨value, read⟩ notWord
  | error fault => rfl

/-- The first part that is no numeral is the fault of the identifier. -/
theorem codePointsOf_of_leftmost (hasParts : id.tail ≠ []) {sound rest : List (List Char)}
    (isParts : Text.splitWhen (· == '-') id.tail = sound ++ part :: rest)
    (before : ∀ other ∈ sound, Hex.IsWord32 other) (notWord : ¬ Hex.IsWord32 part) :
    codePointsOf id =
      .error (.invalidCodePoint (String.ofList part) (String.ofList id)) := by
  have failing : codePoint id part = _ := codePoint_of_not_isWord32 notWord
  rw [codePointsOf_of_parts hasParts, isParts, mapM_eq_error_iff]
  refine ⟨part, List.find?_eq_some_iff_append.2 ⟨?_, sound, rest, rfl, ?_⟩, failing⟩
  · rw [failing]
    rfl
  · intro other isBefore
    have isRead : ∃ value, codePoint id other = .ok value :=
      exists_codePoint_iff.2 (before other isBefore)
    obtain ⟨value, read⟩ := isRead
    rw [read]
    rfl

end CodePoints

section Line

variable {line : Nat} {text : String} {id mathClass : List Char} {commands : List (List Char)}

theorem parse_eq_ok_none_iff : parse line text = .ok none ↔ Table.fields text.toList = [] := by
  rw [parse, ofLine, ofFields.eq_def]
  match Table.fields text.toList with
  | [] => simp
  | [id] => simp
  | id :: mathClass :: commands => cases found : codePointsOf id <;> simp [found]

theorem parse_of_codePointsOf_eq_error
    (areFields : Table.fields text.toList = id :: mathClass :: commands) {fault : RecordFault}
    (failed : codePointsOf id = .error fault) : parse line text = .error ⟨line, fault⟩ := by
  rw [parse, ofLine, areFields, ofFields, failed]

theorem exists_parse_iff (areFields : Table.fields text.toList = id :: mathClass :: commands) :
    (∃ record, parse line text = .ok (some record)) ↔
      ∃ codePoints, codePointsOf id = .ok codePoints := by
  rw [parse, ofLine, areFields, ofFields]
  cases codePointsOf id <;> simp

theorem codePointsOf_of_parse (areFields : Table.fields text.toList = id :: mathClass :: commands)
    {record : Record} (read : parse line text = .ok (some record)) :
    codePointsOf id = .ok record.codePoints := by
  rw [parse, ofLine, areFields] at read
  obtain ⟨_, _, _, same, found, -⟩ := exists_of_ofFields read
  rw [(List.cons.inj same).1]
  exact found

theorem readsParts (areFields : Table.fields text.toList = id :: mathClass :: commands)
    (hasParts : id.tail ≠ []) :
    ReadsParts line text id (Text.splitWhen (· == '-') id.tail) where
  succeeds_iff := by
    rw [exists_parse_iff areFields, codePointsOf_of_parts hasParts, exists_mapM_eq_ok_iff]
    exact forall₂_congr fun part _ => exists_codePoint_iff
  codePoints := by
    intro record read
    have found := codePointsOf_of_parse areFields read
    rw [codePointsOf_of_parts hasParts, mapM_eq_ok_iff] at found
    exact found.imp fun _ _ => codePoint_eq_ok_iff.1
  leftmost := by
    intro sound part rest isParts before notWord
    have failed := codePointsOf_of_leftmost hasParts isParts before notWord
    exact ⟨_, parse_of_codePointsOf_eq_error areFields failed, rfl⟩

theorem isProper_of_parse {record : Record} (read : parse line text = .ok (some record)) :
    record.IsProper := by
  obtain ⟨id, mathClass, commands, areFields, -, -, -, isCommands⟩ := exists_of_ofFields read
  have isField : ∀ command ∈ record.commands, ∃ field ∈ Table.fields text.toList,
      command = String.ofList field := by
    intro command member
    rw [isCommands, List.mem_eraseDups] at member
    obtain ⟨field, isCommand, rfl⟩ := List.mem_map.1 member
    exact ⟨field, by simp [areFields, isCommand], rfl⟩
  refine ⟨codePoints_ne_nil_of_ofLine read, isCommands ▸ Keyed.nodup_eraseDups _, ?_, ?_⟩
  · intro command member
    obtain ⟨field, isField, rfl⟩ := isField command member
    simpa using (Table.isSolid_of_mem_fields isField).1
  · intro command member
    obtain ⟨field, isField, rfl⟩ := isField command member
    simpa using (Table.isSolid_of_mem_fields isField).2

end Line

/-- A line is read as its grammar says. Without fields there is no record; one field alone lacks
    the math class; an identifier of one character lacks the code point; and otherwise the parts of
    the identifier behind its first character decide. -/
theorem parse_agrees_with_grammar (line : Nat) (text : String) :
    ∃ fields, (∀ others, Table.AreFields text.toList others ↔ others = fields) ∧
      (parse line text = .ok none ↔ fields = []) ∧
      (∀ id, fields = [id] → FailsWith line text "missing mathclass field") ∧
      (∀ id mathClass commands, fields = id :: mathClass :: commands →
        (id.length = 1 → FailsWith line text
          ("missing code point in `" ++ String.ofList id ++ "`")) ∧
        (id.length ≠ 1 → ∃ parts,
          (∀ others, Text.ArePieces '-' id.tail others ↔ others = parts) ∧
            ReadsParts line text id parts)) ∧
      (∀ malformed, parse line text = .error malformed → malformed.line = line) ∧
      ∀ record, parse line text = .ok (some record) → record.line = line ∧ record.IsProper := by
  refine ⟨Table.fields text.toList, fun _ => Table.areFields_iff, parse_eq_ok_none_iff, ?_, ?_,
    fun _ => line_of_malformed, fun _ read => ⟨line_of_ofLine read, isProper_of_parse read⟩⟩
  · intro id areFields
    refine ⟨.missingMathClass, ?_, rfl⟩
    rw [parse, ofLine, areFields, ofFields]
  · intro id mathClass commands areFields
    have isField : id ∈ Table.fields text.toList := by simp [areFields]
    have nonempty := (Table.isSolid_of_mem_fields isField).1
    constructor
    · intro short
      have nothing : id.tail = [] := by
        rw [← List.length_eq_zero_iff, List.length_tail, short]
      have failed : codePointsOf id = .error (.missingCodePoint (String.ofList id)) := by
        rw [codePointsOf, nothing]
      exact ⟨_, parse_of_codePointsOf_eq_error areFields failed, rfl⟩
    · intro long
      have hasParts : id.tail ≠ [] := by
        rw [ne_eq, ← List.length_eq_zero_iff, List.length_tail]
        have positive := List.length_pos_of_ne_nil nonempty
        omega
      exact ⟨_, fun _ => Text.arePieces_iff, readsParts areFields hasParts⟩

end Record

end SymbolRules
