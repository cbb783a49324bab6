import Mathlib.Data.List.DropRight
import SymbolRules.Proofs.Config.Loading
import SymbolRules.Proofs.Json.Acceptance
import SymbolRules.Proofs.Json.Truncation
import SymbolRules.Proofs.Json.Values

/-!
# Configurations that are cut off

A stored configuration that is cut off anywhere before its last bracket is reported as too short
and as nothing else, unless a part of it is skipped.
-/

namespace SymbolRules

open Json (Tree Value)

namespace Config

/-- White space behind the last bracket is not part of a configuration. -/
theorem rdropWhile_append_of_areSpaces {text after : List Char} {bracket : Char}
    (notSpace : Json.isSpace bracket = false) (spaces : Json.AreSpaces after) :
    (text ++ [bracket] ++ after).rdropWhile Json.isSpace = text ++ [bracket] := by
  have blank : ∀ c ∈ after.reverse, Json.isSpace c = true :=
    fun c isChar => spaces c (List.mem_reverse.1 isChar)
  rw [List.rdropWhile, List.reverse_append, List.dropWhile_append_of_pos blank,
    ← List.rdropWhile, List.rdropWhile_concat_neg _ _ _ (by simp [notSpace])]

/-- A configuration is an array or an object, so that its text ends with a bracket. -/
theorem exists_bracket_of_read {tree : Tree} {text : List Char} {value : Option Value}
    (written : tree.IsText text) (isRead : tree.read (some shape) = .ok value) :
    ∃ front bracket, text = front ++ [bracket] ∧ Json.isSpace bracket = false := by
  cases written with
  | word word =>
      rw [Tree.read] at isRead
      cases isRead
  | number written =>
      rw [Tree.read] at isRead
      cases (Json.exists_of_readNumber isRead).1
  | string written =>
      rw [Tree.read] at isRead
      cases (Json.exists_of_readString isRead).1
  | @array items inside written => exact ⟨'[' :: inside, ']', rfl, by decide⟩
  | @object members inside written => exact ⟨'\x7b' :: inside, '\x7d', rfl, by decide⟩

/-- A text that is loaded is the text of a tree. If no object in it has an unknown name, then each
    proper beginning of the text is too short, wherever it ends, and has no other fault. White
    space at the end of the text does not count. -/
theorem read_truncated {text : String} {config : Config} (loaded : read text = .ok config) :
    (∃ tree : Tree, tree.IsDocument text) ∧
    ∀ tree : Tree, tree.IsDocument text → ¬ tree.HasUnknown shape →
      ∀ front, front <+: text.toList.rdropWhile Json.isSpace →
        front ≠ text.toList.rdropWhile Json.isSpace →
        read (String.ofList front) = .error .truncated := by
  have isRead : ∃ value, Json.read shape text = .ok value := by
    unfold read at loaded
    split at loaded
    · cases loaded
    · rename_i value isRead
      exact ⟨value, isRead⟩
  obtain ⟨value, isRead⟩ := isRead
  obtain ⟨tree, document, -⟩ := Json.read_eq_ok_iff.1 isRead
  refine ⟨⟨tree, document⟩, fun tree document noUnknown => ?_⟩
  rw [Json.read_isDocument document] at isRead
  obtain ⟨found, treeRead, -⟩ := bind_eq_ok_iff.1 isRead
  obtain ⟨before, inside, after, leading, written, trailing, isText⟩ := document
  obtain ⟨start, bracket, isInside, notSpace⟩ := exists_bracket_of_read written treeRead
  have trimmed : text.toList.rdropWhile Json.isSpace = before ++ inside := by
    have whole : text.toList = before ++ start ++ [bracket] ++ after := by
      rw [isText, isInside]
      simp
    rw [whole, rdropWhile_append_of_areSpaces notSpace trailing, isInside, List.append_assoc]
  have cuts : Json.Truncates
      (Json.State.reading (.value (some shape)) []).outcome (before ++ inside) := by
    refine Json.State.truncates_skip rfl leading ?_
    exact Json.State.truncatesAs tree shape [] inside found written treeRead noUnknown (.inr nofun)
  intro front begins proper
  rw [trimmed] at begins proper
  have cut : Json.read shape (String.ofList front) = .error .truncated := by
    show (Json.State.reading (.value (some shape)) []).outcome (String.ofList front).toList = _
    rw [String.toList_ofList]
    exact cuts front begins proper
  rw [read, cut]

/-- A symbol is escaped in an array that stands in an object. Wherever the text is cut off, inside
    the escape or not, it is too short. -/
theorem read_truncated_escape :
    let text := "\x7b\"extra_commands\":[[65,\"\\ud835\\udc9c\"]]\x7d\n"
    read text = .ok { extraCommands := [⟨65, "𝒜"⟩] } ∧
      ∀ front, front <+: text.toList.rdropWhile Json.isSpace →
        front ≠ text.toList.rdropWhile Json.isSpace →
        read (String.ofList front) = .error .truncated := by
  intro text
  let pair : Tree := .array [.ofNat 65, .string [0xD835, 0xDC9C]]
  let tree : Tree := .object [(Utf16.encode "extra_commands", .array [pair])]
  have loaded : read text = .ok { extraCommands := [⟨65, "𝒜"⟩] } := by decide +kernel
  have document : tree.IsDocument text := by
    have none : Json.AreSpaces [] := by simp [Json.AreSpaces]
    have newline : Json.AreSpaces ['\n'] := by simp [Json.AreSpaces, Json.isSpace]
    have high : Hex.AreDigits ['d', '8', '3', '5'] (0xD835 : UInt16).toNat :=
      (Hex.areDigits_of_word16? (by decide)).2
    have low : Hex.AreDigits ['d', 'c', '9', 'c'] (0xDC9C : UInt16).toNat :=
      (Hex.areDigits_of_word16? (by decide)).2
    have spells := Json.Spells.unit rfl high (.unit rfl low .nil)
    have isPair : pair.IsText _ :=
      .array (.more none (.number (Json.Numeral.isText_ofNat 65)) none
        (.one none (.string (.mk spells)) none))
    have isTable : Tree.IsText (.array [pair]) _ := .array (.one none isPair none)
    have isTree : tree.IsText _ :=
      .object (.one none (.mk (Json.isQuoted_quote "extra_commands") none none isTable) none)
    exact ⟨[], _, ['\n'], none, isTree, newline, by decide +kernel⟩
  have noUnknown : ¬ tree.HasUnknown shape := by
    have inPair : ¬ pair.HasUnknown ExtraCommand.shape := by
      rw [ExtraCommand.shape, Tree.hasUnknown_tuple_cons_iff, Tree.hasUnknown_tuple_cons_iff]
      rintro (⟨⟨⟩⟩ | ⟨⟨⟩⟩ | inside)
      exact Tree.not_hasUnknown_array_nil _ inside
    have inTable : ¬ Tree.HasUnknown (.list ExtraCommand.shape) (.array [pair]) := by
      rw [Tree.hasUnknown_list_cons_iff]
      exact not_or.2 ⟨inPair, Tree.not_hasUnknown_array_nil _⟩
    have named := Utf16.text?_encode "extra_commands"
    rw [shape, Tree.hasUnknown_object_iff]
    simp [Tree.EntryHasUnknown, named, inTable]
  exact ⟨loaded, (read_truncated loaded).2 tree document noUnknown⟩

end Config

end SymbolRules
