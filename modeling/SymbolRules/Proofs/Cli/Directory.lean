import SymbolRules.Cli.Directory
import SymbolRules.Proofs.Cli.Surroundings

/-!
# Directories as surroundings

A directory with files and no directories in it obeys the laws of surroundings: a file is found
again by the path that has created it (`Cli.Directory.read_putFile`), and no other file is touched.
-/

namespace SymbolRules

namespace Cli

/-- How a path leads to a file in the directory, whether there is one or not: by its last step,
    behind any steps that stay. -/
structure Path.Names (path : Path) (name : String) : Prop where
  relative : path.isAbsolute = false
  noSlash : path.endsWithSlash = false
  staying : ∀ next ∈ path.steps.dropLast, next = ['.']
  named : ∃ last ∈ path.steps.getLast?, Path.isDots last = false ∧ Path.nameOf last = .ok name

namespace Location

variable {isFile : String → Bool} {path : Path}

theorem step_eq_ok_here_iff {location : Location} {next : List Char} :
    step isFile location next = .ok here ↔ location = here ∧ next = ['.'] := by
  unfold step
  split
  · simp
  · split
    · rename_i isDot
      simp [isDot]
    · rename_i notDot
      split
      · simp [notDot]
      · cases Path.nameOf next with
        | error fault => simp [notDot]
        | ok name => dsimp only; split <;> simp [notDot]

/-- Only steps that stay lead to the directory with the files. -/
theorem walk_eq_ok_here_iff {steps : List (List Char)} :
    walk isFile path steps = .ok here ↔
      path.isAbsolute = false ∧ ∀ next ∈ steps, next = ['.'] := by
  have fromAnywhere : ∀ start, steps.foldlM (step isFile) start = .ok here ↔
      start = here ∧ ∀ next ∈ steps, next = ['.'] := by
    induction steps with
    | nil => simp [pure, Except.pure]
    | cons next steps ih =>
        intro start
        have taken : step isFile start next = .ok here ↔ start = here ∧ next = ['.'] :=
          step_eq_ok_here_iff
        rw [List.foldlM_cons, List.forall_mem_cons, ← and_assoc, ← taken]
        cases first : step isFile start next with
        | error fault => simp [bind, Except.bind]
        | ok location => simpa [bind, Except.bind] using ih location
  rw [walk, fromAnywhere]
  cases path.isAbsolute <;> simp

theorem target_eq_ok_iff {name : String} :
    target isFile path = .ok name ↔ path.Names name := by
  constructor
  · intro found
    unfold target at found
    split at found
    · cases found
    · rename_i last isLast
      split at found
      · cases found
      · cases found
      · rename_i location notFile walked
        split at found
        · cases found
        · rename_i plain
          split at found
          · cases found
          · rename_i given isName
            split at found
            · rename_i isHere
              subst isHere
              obtain rfl := Except.ok.inj found
              obtain ⟨relative, staying⟩ := walk_eq_ok_here_iff.1 walked
              simp only [Bool.or_eq_true, not_or, Bool.not_eq_true] at plain
              exact ⟨relative, plain.2, staying, last, isLast, plain.1, isName⟩
            · cases found
  · rintro ⟨relative, noSlash, staying, last, isLast, plain, isName⟩
    have walked : walk isFile path path.steps.dropLast = .ok here :=
      walk_eq_ok_here_iff.2 ⟨relative, staying⟩
    simp [target, Option.mem_def.1 isLast, walked, plain, noSlash, isName]

/-- The file is found again by the path that creates it. -/
theorem find_of_names {name : String} (names : path.Names name) (isThere : isFile name = true) :
    find isFile path = .ok (file name) := by
  obtain ⟨relative, noSlash, staying, last, isLast, plain, isName⟩ := names
  have walked : walk isFile path path.steps.dropLast = .ok here :=
    walk_eq_ok_here_iff.2 ⟨relative, staying⟩
  have steps : path.steps = path.steps.dropLast ++ [last] :=
    (List.dropLast_append_getLast? last isLast).symm
  have notDots : last ≠ ['.'] ∧ last ≠ ['.', '.'] := by simpa [Path.isDots] using plain
  have entered : step isFile here last = .ok (file name) := by
    simp [step, notDots, isName, isThere]
  unfold walk at walked
  rw [find, noSlash, if_neg (by simp), steps, walk, List.foldlM_append, walked]
  simp [bind, Except.bind, entered, pure, Except.pure]

end Location

namespace Directory

/-- The name under which a path creates or replaces a file, or why it does not. -/
def creation (directory : Directory) (path : String) : Except AccessFault String :=
  (Path.parse path).bind (Location.target directory.hasFile)

variable (directory : Directory)

theorem lookup_putFile (name : String) (content : ByteArray) (other : String)
    (files : List (String × ByteArray)) :
    (putFile name content files).lookup other =
      if other = name then some content else files.lookup other := by
  induction files with
  | nil => by_cases same : other = name <;> simp [putFile, same]
  | cons file files ih =>
      obtain ⟨given, held⟩ := file
      rw [putFile]
      by_cases replaced : given = name
      · subst replaced
        by_cases same : other = given <;> simp [List.lookup_cons, same, beq_false_of_ne]
      · by_cases first : other = given
        · simp [replaced, first]
        · simp [List.lookup_cons, replaced, beq_false_of_ne first, ih]

theorem find?_putFile (name : String) (content : ByteArray) (other : String) :
    find? { directory with files := putFile name content directory.files } other =
      if other = name then some content else directory.find? other :=
  lookup_putFile name content other directory.files

/-- A file that a path has created is read by that path. -/
theorem read_putFile {path name : String} (created : directory.creation path = .ok name)
    (content : ByteArray) :
    read { directory with files := putFile name content directory.files } path = .ok content := by
  unfold creation at created
  cases parsed : Path.parse path with
  | error fault => simp [parsed, Except.bind] at created
  | ok steps =>
      have names : steps.Names name := by
        simpa [parsed, Except.bind, Location.target_eq_ok_iff] using created
      have given : find? { directory with files := putFile name content directory.files } name =
          some content := by
        simp [find?_putFile]
      have isThere :
          hasFile { directory with files := putFile name content directory.files } name = true := by
        simp [hasFile, given]
      simp only [Directory.read, parsed, Except.bind, Location.find_of_names names isThere, given]

/-- Files are told apart by their names. -/
instance : Surroundings Directory where
  File := String
  content := find?
  input directory := .ok directory.input
  output directory := directory.output
  read := read
  creation := creation
  put directory name bytes := { directory with files := putFile name bytes directory.files }
  printed directory text := { directory with output := directory.output ++ text }
  run_readFile _ _ := rfl
  run_readInput _ := rfl
  run_writeFile directory path text := by
    show directory.write path text = _
    rw [write, creation]
    cases (Path.parse path).bind (Location.target directory.hasFile) <;> rfl
  run_print _ _ := rfl
  read_put directory _ _ created bytes := directory.read_putFile created bytes
  content_put_self directory name bytes := by rw [find?_putFile, if_pos rfl]
  content_put_of_ne directory bytes _ _ different := by rw [find?_putFile, if_neg different]
  input_put _ _ _ := rfl
  output_put _ _ _ := rfl
  content_printed _ _ _ := rfl
  input_printed _ _ := rfl
  output_printed _ _ := rfl

end Directory

end Cli

end SymbolRules
