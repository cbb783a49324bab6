import SymbolRules.Proofs.Except
import SymbolRules.Table.Record

/-!
# Records of a table

A record that is read off a line has at least one code point, and a record can be written
exactly if all its code points are scalar values. Otherwise the first that is not is reported.
-/

namespace SymbolRules

namespace Record

/-- The first code point that is not a scalar value, if any. -/
def firstInvalid? (record : Record) : Option CodePoint :=
  record.codePoints.find? fun codePoint => !decide (IsScalar codePoint.toNat)

/-- A code point of a record that is not a scalar value, behind others that all are. -/
def IsFirstInvalid (record : Record) (codePoint : CodePoint) : Prop :=
  ∃ front back, record.codePoints = front ++ codePoint :: back ∧
    (∀ other ∈ front, IsScalar other.toNat) ∧ ¬ IsScalar codePoint.toNat

theorem firstInvalid?_eq_some_iff {record : Record} {codePoint : CodePoint} :
    record.firstInvalid? = some codePoint ↔ record.IsFirstInvalid codePoint := by
  simp only [firstInvalid?, IsFirstInvalid, List.find?_eq_some_iff_append, Bool.not_eq_true',
    decide_eq_false_iff_not, Bool.not_not, decide_eq_true_eq]
  constructor
  · intro ⟨invalid, front, back, cut, sound⟩
    exact ⟨front, back, cut, sound, invalid⟩
  · intro ⟨front, back, cut, sound, invalid⟩
    exact ⟨invalid, front, back, cut, sound⟩

theorem single?_eq_some_iff {record : Record} {codePoint : CodePoint} :
    record.single? = some codePoint ↔ record.codePoints = [codePoint] := by
  unfold single?
  split
  · rename_i only isOnly
    simp [isOnly]
  · rename_i several
    constructor
    · intro found
      cases found
    · intro isOnly
      exact absurd isOnly (several codePoint)

/-- A record can be written exactly if all its code points are scalar values. -/
theorem exists_escaped_iff {record : Record} :
    (∃ text, record.escaped = .ok text) ↔
      ∀ codePoint ∈ record.codePoints, IsScalar codePoint.toNat := by
  have encodes : ∀ codePoint : CodePoint,
      (∃ pair, Pair.encode codePoint.toNat = .ok pair) ↔ IsScalar codePoint.toNat := by
    intro codePoint
    constructor
    · rintro ⟨pair, encoded⟩
      exact (Pair.encode_eq_ok_iff.1 encoded).1
    · intro isScalar
      exact ⟨_, Pair.encode_eq_ok_iff.2 ⟨isScalar, rfl⟩⟩
  simp only [← encodes]
  rw [← exists_mapM_eq_ok_iff, escaped, pairs]
  cases record.codePoints.mapM fun codePoint => Pair.encode codePoint.toNat with
  | error fault => simp [Except.map]
  | ok pairs => simp [Except.map]

/-- The only code point of a record that can be written is a scalar value. -/
theorem isScalar_of_single? {record : Record} {text : String} {codePoint : CodePoint}
    (written : record.escaped = .ok text) (isSingle : record.single? = some codePoint) :
    IsScalar codePoint.toNat := by
  apply exists_escaped_iff.1 ⟨text, written⟩
  simp [single?_eq_some_iff.1 isSingle]

/-- A record that cannot be written is reported with its first code point that is not a scalar
    value. -/
theorem escaped_eq_error_iff {record : Record} {fault : InvalidCodePoint} :
    record.escaped = .error fault ↔
      ∃ codePoint, record.firstInvalid? = some codePoint ∧ fault = ⟨codePoint.toNat⟩ := by
  have written : record.escaped = .error fault ↔ record.pairs = .error fault := by
    rw [escaped]
    cases record.pairs <;> simp [Except.map]
  have encodes : (fun codePoint : CodePoint => !(Pair.encode codePoint.toNat).isOk) =
      fun codePoint => !decide (IsScalar codePoint.toNat) := by
    funext codePoint
    by_cases isScalar : IsScalar codePoint.toNat
    · simp [Pair.encode, isScalar, Except.isOk, Except.toBool]
    · simp [Pair.encode, isScalar, Except.isOk, Except.toBool]
  rw [written, pairs, mapM_eq_error_iff, encodes]
  apply exists_congr
  intro codePoint
  apply and_congr_right
  intro found
  have invalid : ¬ IsScalar codePoint.toNat := by simpa using List.find?_some found
  simp [Pair.encode_eq_error_iff, invalid]

/-- A record that is read has at least two fields, and takes each of its parts from its place. -/
theorem exists_of_ofFields {line : Nat} {fields : List (List Char)} {record : Record}
    (read : ofFields line fields = .ok (some record)) :
    ∃ id mathClass commands, fields = id :: mathClass :: commands ∧
      codePointsOf id = .ok record.codePoints ∧ record.line = line ∧
      record.mathClass = String.ofList mathClass ∧
      record.commands = (commands.map String.ofList).eraseDups := by
  unfold ofFields at read
  split at read
  · cases read
  · cases read
  · rename_i id mathClass commands
    split at read
    · cases read
    · rename_i codePoints found
      obtain rfl := Option.some.inj (Except.ok.inj read)
      exact ⟨id, mathClass, commands, rfl, found, rfl, rfl, rfl⟩

theorem codePointsOf_of_parts {id : List Char} (hasParts : id.tail ≠ []) :
    codePointsOf id = (Text.splitWhen (· == '-') id.tail).mapM (codePoint id) := by
  rw [codePointsOf]
  cases digits : id.tail with
  | nil => exact absurd digits hasParts
  | cons c rest => rfl

theorem tail_ne_nil_of_codePointsOf {id : List Char} {codePoints : List CodePoint}
    (found : codePointsOf id = .ok codePoints) : id.tail ≠ [] := by
  intro nothing
  rw [codePointsOf, nothing] at found
  cases found

theorem codePoints_ne_nil_of_ofLine {line : Nat} {text : List Char} {record : Record}
    (read : ofLine line text = .ok (some record)) : record.codePoints ≠ [] := by
  obtain ⟨id, -, -, -, found, -⟩ := exists_of_ofFields read
  rw [codePointsOf_of_parts (tail_ne_nil_of_codePointsOf found)] at found
  have related := (mapM_eq_ok_iff.1 found).length_eq
  intro nothing
  rw [nothing] at related
  exact Text.splitWhen_ne_nil _ (List.eq_nil_of_length_eq_zero related)

end Record

namespace Table

/-- The well-formed records among some entries, in order. -/
def recordsOf (entries : List (Except Malformed Record)) : List Record :=
  entries.filterMap fun
    | .ok record => some record
    | .error _ => none

/-- The well-formed records of a table, in order. -/
def records (table : String) : List Record := recordsOf (entries table)

theorem recordsOf_cons_ok (record : Record) (rest : List (Except Malformed Record)) :
    recordsOf (.ok record :: rest) = record :: recordsOf rest := rfl

theorem mem_records {table : String} {record : Record} :
    record ∈ records table ↔ .ok record ∈ entries table := by
  rw [records, recordsOf, List.mem_filterMap]
  constructor
  · rintro ⟨entry, member, found⟩
    cases entry with
    | error malformed => cases found
    | ok other =>
        obtain rfl := Option.some.inj found
        exact member
  · intro member
    exact ⟨_, member, rfl⟩

theorem exists_ofLine_of_mem_records {table : String} {record : Record}
    (member : record ∈ records table) :
    ∃ number line, Record.ofLine number line = .ok (some record) := by
  have isEntry := mem_records.1 member
  rw [entries, entriesFrom, List.mem_filterMap] at isEntry
  obtain ⟨⟨text, line⟩, -, found⟩ := isEntry
  unfold entry? at found
  dsimp only at found
  split at found
  · cases found
  · rename_i other read
    obtain rfl := Except.ok.inj (Option.some.inj found)
    exact ⟨line, text, read⟩
  · cases found

theorem codePoints_ne_nil_of_mem_records {table : String} {record : Record}
    (member : record ∈ records table) : record.codePoints ≠ [] := by
  obtain ⟨number, line, read⟩ := exists_ofLine_of_mem_records member
  exact Record.codePoints_ne_nil_of_ofLine read

end Table

end SymbolRules
