import SymbolRules.Proofs.CharClass.Reading
import SymbolRules.Proofs.Cli.CodePoints
import SymbolRules.Proofs.Cli.Generation
import SymbolRules.Proofs.Generator.Escaping

/-!
# Printing code points

The command that prints code points goes through its arguments from left to right. It prints a
line for each until it meets one that is not the numeral of a scalar value: that one is reported,
and those behind it are not looked at (`Cli.encode_prints_valid_prefix`).
-/

namespace SymbolRules

namespace Cli

/-- An argument that names a scalar value. -/
def NamesScalar (text : String) (codePoint : CodePoint) : Prop :=
  readCodePoint text = .ok codePoint ∧ IsScalar codePoint.toNat

/-- How an argument that names no scalar value is reported: with a cause if it cannot be read, and
    without one if it is read as a code point that is not a scalar value. -/
inductive IsRefused (text : String) : Failure → String → Prop
  | unreadable {fault : UnreadableCodePoint} (failed : readCodePoint text = .error fault) :
      IsRefused text (.unreadableCodePoint fault)
        ("Error: " ++ ("invalid code point `" ++ text ++ "`") ++ "\n" ++ "\nCaused by:\n    " ++
          fault.cause.message ++ "\n")
  | notScalar {codePoint : CodePoint} (isRead : readCodePoint text = .ok codePoint)
      (other : ¬ IsScalar codePoint.toNat) :
      IsRefused text (.invalidCodePoint ⟨codePoint.toNat⟩)
        ("Error: " ++ ("invalid code point U+" ++ String.ofList (Hex.padded 4 codePoint.toNat)) ++
          "\n")

/-- A line that stands for a scalar value: when its escapes are undone and its units decoded,
    exactly this value is left. -/
structure IsEscapedLine (line : String) (codePoint : CodePoint) : Prop where
  unbroken : '\n' ∉ line.toList
  decoded : Escape.scalars? line = some [codePoint.toNat]

/-- The directory after some lines have been printed. -/
def Directory.printing (directory : Directory) (lines : List String) : Directory :=
  { directory with output := directory.output ++ String.join (lines.map (· ++ "\n")) }

/-! ### Single arguments -/

theorem encodeArgument_eq_ok_iff {text : String} {pair : Pair} :
    encodeArgument text = .ok pair ↔
      ∃ codePoint, NamesScalar text codePoint ∧ pair = Pair.ofNat codePoint.toNat := by
  unfold encodeArgument NamesScalar
  cases readCodePoint text with
  | error fault => simp
  | ok codePoint =>
      dsimp only
      cases encoded : Pair.encode codePoint.toNat with
      | error fault =>
          have other := (Pair.encode_eq_error_iff.1 encoded).1
          simp [other]
      | ok found =>
          obtain ⟨isScalar, rfl⟩ := Pair.encode_eq_ok_iff.1 encoded
          simp [isScalar, eq_comm]

theorem report_of_isRefused {text report : String} {failure : Failure}
    (refused : IsRefused text failure report) : failure.report = report := by
  cases refused with
  | @unreadable fault failed =>
      obtain ⟨rfl, -⟩ := readCodePoint_eq_error_iff.1 failed
      show "Error: " ++ fault.message ++ "\n" ++ "\nCaused by:\n    " ++ fault.cause.message ++
        "\n" = _
      unfold UnreadableCodePoint.message
      rfl
  | @notScalar codePoint isRead other =>
      show "Error: " ++ InvalidCodePoint.message _ ++ "\n" = _
      rw [InvalidCodePoint.message_natCast]

/-- An argument that cannot be encoded is refused for the first of the two reasons that applies. -/
theorem isRefused_of_encodeArgument {text : String} {failure : Failure}
    (failed : encodeArgument text = .error failure) : IsRefused text failure failure.report := by
  have refused : ∃ report, IsRefused text failure report := by
    unfold encodeArgument at failed
    split at failed
    · rename_i fault unreadable
      obtain rfl := Except.error.inj failed
      exact ⟨_, .unreadable unreadable⟩
    · rename_i codePoint isRead
      split at failed
      · rename_i fault invalid
        obtain rfl := Except.error.inj failed
        obtain ⟨other, rfl⟩ := Pair.encode_eq_error_iff.1 invalid
        exact ⟨_, .notScalar isRead other⟩
      · cases failed
  obtain ⟨report, refused⟩ := refused
  rw [report_of_isRefused refused]
  exact refused

theorem isEscapedLine_text {codePoint : CodePoint} (isScalar : IsScalar codePoint.toNat) :
    IsEscapedLine (Pair.ofNat codePoint.toNat).text codePoint := by
  have encoded : Pair.encode codePoint.toNat = .ok (Pair.ofNat codePoint.toNat) :=
    Pair.encode_eq_ok_iff.2 ⟨isScalar, rfl⟩
  have decoded := Utf16.decode?_units_append encoded []
  rw [List.append_nil] at decoded
  constructor
  · have notThere : '\n' ∉ Escape.alphabet := by decide
    rw [Pair.text, String.toList_ofList]
    exact fun member => notThere (Escape.mem_alphabet_of_mem_pair member)
  · rw [Escape.scalars?, Pair.text, String.toList_ofList, Escape.pair_eq_flatMap_unit,
      Escape.units?_flatMap_unit]
    exact decoded

/-- The arguments up to the first that cannot be encoded. -/
theorem exists_encoded_front (texts : List String) :
    ∃ good rest pairs, texts = good ++ rest ∧
      List.Forall₂ (fun text pair => encodeArgument text = .ok pair) good pairs ∧
      ∀ text ∈ rest.head?, ∃ failure, encodeArgument text = .error failure := by
  induction texts with
  | nil => exact ⟨[], [], [], rfl, .nil, nofun⟩
  | cons text texts ih =>
      cases encoded : encodeArgument text with
      | error failure =>
          refine ⟨[], text :: texts, [], rfl, .nil, ?_⟩
          intro first isFirst
          obtain rfl := Option.some.inj isFirst
          exact ⟨failure, encoded⟩
      | ok pair =>
          obtain ⟨good, rest, pairs, rfl, each, stops⟩ := ih
          exact ⟨text :: good, rest, pair :: pairs, rfl, .cons encoded each, stops⟩

/-! ### Runs -/

section Run

variable {directory : Directory} {text : String} {good rest : List String} {pair : Pair}
  {pairs : List Pair} {failure : Failure}

theorem Directory.printing_nil (directory : Directory) : directory.printing [] = directory := by
  rw [printing, List.map_nil, String.join_nil, String.append_empty]

theorem Directory.printing_cons (directory : Directory) (line : String) (lines : List String) :
    directory.printing (line :: lines) =
      { directory with output := directory.output ++ (line ++ "\n") }.printing lines := by
  simp only [printing, List.map_cons, String.join_cons, String.append_assoc]

theorem runIn_printEncoded_cons_of_ok (encoded : encodeArgument text = .ok pair) :
    runIn directory (printEncoded (text :: rest)) =
      runIn { directory with output := directory.output ++ (pair.text ++ "\n") }
        (printEncoded rest) := by
  have printed : runIn directory (writeOutput (pair.text ++ "\n") none) =
      (.ok (), { directory with output := directory.output ++ (pair.text ++ "\n") }) := rfl
  rw [printEncoded, encoded]
  dsimp only
  rw [runIn_bind, printed]

theorem runIn_printEncoded_cons_of_error (failed : encodeArgument text = .error failure) :
    runIn directory (printEncoded (text :: rest)) = (.error failure, directory) := by
  rw [printEncoded, failed]
  rfl

/-- The lines of arguments that can be encoded are printed before the others are looked at. -/
theorem runIn_printEncoded_append
    (each : List.Forall₂ (fun text pair => encodeArgument text = .ok pair) good pairs) :
    runIn directory (printEncoded (good ++ rest)) =
      runIn (directory.printing (pairs.map Pair.text)) (printEncoded rest) := by
  induction each generalizing directory with
  | nil => rw [List.nil_append, List.map_nil, Directory.printing_nil]
  | cons first _ ih =>
      rw [List.cons_append, runIn_printEncoded_cons_of_ok first, ih, List.map_cons,
        Directory.printing_cons]

variable {args later : List String}

theorem runFrom_encode_of_forall₂ (parsed : Command.parse args = some (.encode good))
    (each : List.Forall₂ (fun text pair => encodeArgument text = .ok pair) good pairs) :
    runFrom directory args = (.success, directory.printing (pairs.map Pair.text)) := by
  have ran : runIn directory (printEncoded (good ++ [])) =
      runIn (directory.printing (pairs.map Pair.text)) (printEncoded []) :=
    runIn_printEncoded_append each
  rw [List.append_nil] at ran
  rw [runFrom_of_parse parsed, perform, ran]
  rfl

/-- The first argument that is refused ends the run, whatever follows it. -/
theorem runFrom_encode_of_refused
    (parsed : Command.parse args = some (.encode (good ++ text :: later)))
    (each : List.Forall₂ (fun text pair => encodeArgument text = .ok pair) good pairs)
    (failed : encodeArgument text = .error failure) :
    runFrom directory args = (.failure failure, directory.printing (pairs.map Pair.text)) := by
  rw [runFrom_of_parse parsed, perform, runIn_printEncoded_append each,
    runIn_printEncoded_cons_of_error failed]

theorem exists_names_of_forall₂
    (each : List.Forall₂ (fun text pair => encodeArgument text = .ok pair) good pairs) :
    ∃ codePoints, List.Forall₂ NamesScalar good codePoints ∧
      List.Forall₂ IsEscapedLine (pairs.map Pair.text) codePoints := by
  induction each with
  | nil => exact ⟨[], .nil, .nil⟩
  | cons first _ ih =>
      obtain ⟨codePoint, names, rfl⟩ := encodeArgument_eq_ok_iff.1 first
      obtain ⟨codePoints, named, lines⟩ := ih
      exact ⟨codePoint :: codePoints, .cons names named, .cons (isEscapedLine_text names.2) lines⟩

/-- The command that prints code points prints a line for each argument of the longest leading run
    of arguments that name scalar values, in order, and each line is read back as the scalar value
    of its argument. The command succeeds exactly if this run is the whole list. Otherwise its exit
    code is 1 and the first argument behind the run is reported; the arguments that follow it make
    no difference. -/
theorem encode_prints_valid_prefix {texts : List String}
    (parsed : Command.parse args = some (.encode texts)) (directory : Directory) :
    ∃ good rest codePoints lines, texts = good ++ rest ∧
      List.Forall₂ NamesScalar good codePoints ∧ List.Forall₂ IsEscapedLine lines codePoints ∧
      (runFrom directory args).2 = directory.printing lines ∧
      ((runFrom directory args).1.exitCode = 0 ↔ rest = []) ∧
      ∀ text later, rest = text :: later → ∃ failure, IsRefused text failure failure.report ∧
        (runFrom directory args).1 = .failure failure ∧
        (runFrom directory args).1.exitCode = 1 ∧
        ∀ otherArgs others, Command.parse otherArgs = some (.encode (good ++ text :: others)) →
          runFrom directory otherArgs = runFrom directory args := by
  obtain ⟨good, rest, pairs, rfl, each, stops⟩ := exists_encoded_front texts
  obtain ⟨codePoints, named, lines⟩ := exists_names_of_forall₂ each
  refine ⟨good, rest, codePoints, _, rfl, named, lines, ?_⟩
  cases rest with
  | nil =>
      rw [List.append_nil] at parsed
      rw [runFrom_encode_of_forall₂ parsed each]
      exact ⟨rfl, iff_of_true rfl rfl, nofun⟩
  | cons text later =>
      obtain ⟨failure, failed⟩ := stops text rfl
      rw [runFrom_encode_of_refused parsed each failed]
      refine ⟨rfl, iff_of_false Nat.one_ne_zero (List.cons_ne_nil _ _), ?_⟩
      intro first others same
      obtain ⟨rfl, rfl⟩ := List.cons.inj same
      refine ⟨failure, isRefused_of_encodeArgument failed, rfl, rfl, ?_⟩
      intro otherArgs others otherParsed
      exact runFrom_encode_of_refused otherParsed each failed

/-- Two lines are printed. A surrogate is refused then, before the argument behind it, which could
    not be read. -/
theorem encode_prints_valid_prefix_surrogate :
    let directory : Directory := {}
    let args := ["encode", "u+1d400", "--", "0x+0041", "D800", "-zz"]
    Command.parse args = some (.encode ["u+1d400", "0x+0041", "D800", "-zz"]) ∧
      (runFrom directory args).2.output = "\\uD835\\uDC00\n\\u0041\n" ∧
      (runFrom directory args).1 = .failure (.invalidCodePoint ⟨0xD800⟩) ∧
      ∃ good rest codePoints lines, ["u+1d400", "0x+0041", "D800", "-zz"] = good ++ rest ∧
        List.Forall₂ NamesScalar good codePoints ∧ List.Forall₂ IsEscapedLine lines codePoints ∧
        (runFrom directory args).2 = directory.printing lines ∧
        ((runFrom directory args).1.exitCode = 0 ↔ rest = []) ∧
        ∀ text later, rest = text :: later → ∃ failure, IsRefused text failure failure.report ∧
          (runFrom directory args).1 = .failure failure ∧
          (runFrom directory args).1.exitCode = 1 ∧
          ∀ otherArgs others, Command.parse otherArgs = some (.encode (good ++ text :: others)) →
            runFrom directory otherArgs = runFrom directory args := by
  intro directory args
  have parsed : Command.parse args =
      some (.encode ["u+1d400", "0x+0041", "D800", "-zz"]) := by
    decide +kernel
  refine ⟨parsed, ?_, ?_, encode_prints_valid_prefix parsed directory⟩
  · decide +kernel
  · decide +kernel

end Run

end Cli

end SymbolRules
