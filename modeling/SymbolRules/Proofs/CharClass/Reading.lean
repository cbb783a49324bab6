import SymbolRules.Proofs.CharClass.Refinement

/-!
# Patterns can be read back

A group is written token by token, and each of its three forms (a bare unit, a class, and
either behind a lead) is read back as one alternative. Since no token contains a bar, a
pattern is read back alternative by alternative (`Pattern.read?_patternChars`). What is read
off the pattern of a compressor are the scalar values that its history added.
-/

namespace SymbolRules

namespace Escape

/-- The characters that code units are written with. -/
def alphabet : List Char := "\\u0123456789ABCDEF".toList

theorem mem_alphabet_of_mem_unit {u : CodeUnit} {c : Char} (member : c ∈ unit u) :
    c ∈ alphabet := by
  have digits : ∀ value : Fin 16, Hex.digit value ∈ alphabet := by decide
  have bound := u.toNat_lt
  simp only [unit, Hex.quad, List.mem_cons, List.not_mem_nil, or_false] at member
  rcases member with rfl | rfl | rfl | rfl | rfl | rfl
  · decide
  · decide
  · exact digits ⟨_, by omega⟩
  · exact digits ⟨_, by omega⟩
  · exact digits ⟨_, by omega⟩
  · exact digits ⟨_, by omega⟩

theorem mem_alphabet_of_mem_pair {p : Pair} {c : Char} (member : c ∈ pair p) : c ∈ alphabet := by
  unfold pair at member
  split at member
  · exact mem_alphabet_of_mem_unit member
  · rcases List.mem_append.1 member with isHigh | isLow
    · exact mem_alphabet_of_mem_unit isHigh
    · exact mem_alphabet_of_mem_unit isLow

end Escape

namespace Pattern

/-- How a token of a pattern is written. -/
def Token.chars : Token → List Char
  | unit u => Escape.unit u
  | opener => ['[']
  | closer => [']']
  | hyphen => ['-']

theorem tokens?_flatMap_chars (tokens : List Token) :
    tokens? (tokens.flatMap Token.chars) = some tokens := by
  induction tokens with
  | nil => rfl
  | cons token tokens ih =>
      cases token with
      | unit u =>
          have digits : Hex.upperWord16? (Hex.quad u) = some u := Hex.upperWord16?_eq_some_iff.2 rfl
          rw [Hex.quad] at digits
          simp only [List.flatMap_cons, Token.chars, Escape.unit, Hex.quad, List.cons_append,
            List.nil_append, tokens?, digits, ih]
          rfl
      | opener => simp [Token.chars, tokens?, ih]
      | closer => simp [Token.chars, tokens?, ih]
      | hyphen => simp [Token.chars, tokens?, ih]

end Pattern

open Pattern (Token)

namespace Interval

/-- The tokens that an interval is written as. -/
def tokens (interval : Interval) : List Token :=
  match interval.stop.toNat - interval.start.toNat with
  | 0 => [.unit interval.start]
  | 1 => [.unit interval.start, .unit interval.stop]
  | _ => [.unit interval.start, .hyphen, .unit interval.stop]

/-- The spans that an interval is written as: two neighbouring units stand for themselves. -/
def spans (interval : Interval) : List Interval :=
  match interval.stop.toNat - interval.start.toNat with
  | 0 => [.single interval.start]
  | 1 => [.single interval.start, .single interval.stop]
  | _ => [interval]

theorem chars_eq (interval : Interval) : interval.chars = interval.tokens.flatMap Token.chars := by
  rcases width : interval.stop.toNat - interval.start.toNat with _ | _ | more
  · simp [chars, tokens, width, Token.chars]
  · simp [chars, tokens, width, Token.chars]
  · simp [chars, tokens, width, Token.chars]

theorem flatMap_units_spans {interval : Interval} (ordered : interval.start ≤ interval.stop) :
    interval.spans.flatMap units = interval.units := by
  obtain ⟨start, stop⟩ := interval
  rw [UInt16.le_iff_toNat_le] at ordered
  unfold spans
  split
  · rename_i width
    have reversed := Nat.sub_eq_zero_iff_le.1 width
    obtain rfl : start = stop := UInt16.toNat_inj.1 (Nat.le_antisymm ordered reversed)
    rw [List.flatMap_singleton]
    rfl
  · rename_i width
    have next : start.toNat + 1 = stop.toNat := by simp only at width ordered; omega
    rw [List.flatMap_cons, List.flatMap_singleton, units_single, units_single,
      units_cons next (UInt16.le_refl stop)]
    exact congrArg (start :: ·) (units_single stop).symm
  · rw [List.flatMap_singleton]

/-- A unit that no span begins with stands for itself. -/
theorem spans?_unit (u : CodeUnit) {rest : List Token} (noSpan : rest.head? ≠ some .hyphen) :
    Pattern.spans? (.unit u :: rest) = (Pattern.spans? rest).map (.single u :: ·) := by
  rw [Pattern.spans?.eq_def]
  split
  · rename_i isCloser
    cases isCloser
  · rename_i isSpan
    obtain ⟨-, rfl⟩ := List.cons.inj isSpan
    exact absurd rfl noSpan
  · rename_i isUnit
    obtain ⟨same, rfl⟩ := List.cons.inj isUnit
    obtain rfl := Token.unit.inj same
    rfl
  · rename_i notUnit
    exact absurd rfl (notUnit u rest)

theorem head?_flatMap_tokens (intervals : List Interval) :
    (intervals.flatMap tokens ++ [Token.closer]).head? ≠ some .hyphen := by
  cases intervals with
  | nil => simp
  | cons interval intervals =>
      unfold tokens
      rw [List.flatMap_cons]
      split <;> simp

theorem spans?_flatMap_tokens (intervals : List Interval) :
    Pattern.spans? (intervals.flatMap tokens ++ [.closer]) = some (intervals.flatMap spans) := by
  induction intervals with
  | nil => rfl
  | cons interval intervals ih =>
      have behind := head?_flatMap_tokens intervals
      rw [List.flatMap_cons, List.flatMap_cons, List.append_assoc]
      rcases width : interval.stop.toNat - interval.start.toNat with _ | _ | more
      · simp only [tokens, spans, width, List.singleton_append]
        rw [spans?_unit _ behind, ih]
        rfl
      · simp only [tokens, spans, width, List.cons_append, List.nil_append]
        rw [spans?_unit _ (by simp), spans?_unit _ behind, ih]
        rfl
      · simp only [tokens, spans, width, List.cons_append, List.nil_append, Pattern.spans?, ih]
        rfl

end Interval

namespace Group

/-- The tokens of a class, or of a bare unit. -/
def classTokens (group : Group) : List Token :=
  if group.isSingleUnit then group.intervals.flatMap Interval.tokens
  else .opener :: (group.intervals.flatMap Interval.tokens ++ [.closer])

/-- The tokens that a group is written as: its high unit, unless that is none, and its class. -/
def tokens (group : Group) : List Token :=
  if group.high == 0 then group.classTokens else .unit group.high :: group.classTokens

/-- The alternative that a group is written as. -/
def alternative (group : Group) : Alternative :=
  ⟨if group.high == 0 then none else some group.high, group.intervals.flatMap Interval.spans⟩

theorem classChars_eq (group : Group) :
    group.classChars = group.classTokens.flatMap Token.chars := by
  have body : group.intervals.flatMap Interval.chars =
      (group.intervals.flatMap Interval.tokens).flatMap Token.chars := by
    rw [List.flatMap_assoc]
    exact congrArg group.intervals.flatMap (funext Interval.chars_eq)
  unfold classChars classTokens
  dsimp only
  rw [body]
  split
  · rfl
  · simp [Token.chars]

theorem chars_eq (group : Group) : group.chars = group.tokens.flatMap Token.chars := by
  unfold chars tokens
  rw [classChars_eq]
  split
  · rfl
  · rfl

/-- The characters that groups are written with. -/
def alphabet : List Char := '[' :: ']' :: '-' :: Escape.alphabet

theorem mem_alphabet_of_mem_chars {group : Group} {c : Char} (member : c ∈ group.chars) :
    c ∈ alphabet := by
  rw [chars_eq, List.mem_flatMap] at member
  obtain ⟨token, -, inToken⟩ := member
  cases token with
  | unit u => simp [alphabet, Escape.mem_alphabet_of_mem_unit inToken]
  | opener => simp_all [Token.chars, alphabet]
  | closer => simp_all [Token.chars, alphabet]
  | hyphen => simp_all [Token.chars, alphabet]

theorem bar_notMem_chars (group : Group) : '|' ∉ group.chars :=
  fun member => absurd (mem_alphabet_of_mem_chars member) (by decide)

theorem exists_single_of_isSingleUnit {group : Group} (bare : group.isSingleUnit = true) :
    ∃ unit, group.intervals = [.single unit] := by
  obtain ⟨high, intervals⟩ := group
  unfold isSingleUnit at bare
  split at bare
  · rename_i interval isOnly
    obtain ⟨start, stop⟩ := interval
    obtain rfl : start = stop := beq_iff_eq.1 bare
    exact ⟨start, isOnly⟩
  · cases bare

theorem alternative?_tokens (group : Group) :
    Pattern.alternative? group.tokens = some group.alternative := by
  unfold tokens classTokens alternative
  by_cases bare : group.isSingleUnit = true
  · obtain ⟨unit, isOnly⟩ := exists_single_of_isSingleUnit bare
    rw [if_pos bare, isOnly, List.flatMap_singleton, List.flatMap_singleton]
    have token : (Interval.single unit).tokens = [.unit unit] := by
      simp [Interval.tokens, Interval.single]
    have span : (Interval.single unit).spans = [.single unit] := by
      simp [Interval.spans, Interval.single]
    rw [token, span]
    split
    · rfl
    · rfl
  · rw [if_neg bare]
    split
    · rw [Pattern.alternative?, Interval.spans?_flatMap_tokens]
      rfl
    · rw [Pattern.alternative?, Interval.spans?_flatMap_tokens]
      rfl

theorem chars_ne_nil (group : Group) : group.chars ≠ [] := by
  have body : group.classChars ≠ [] := by
    unfold classChars
    dsimp only
    split
    · rename_i bare
      obtain ⟨unit, isOnly⟩ := exists_single_of_isSingleUnit bare
      rw [isOnly]
      simp [Interval.chars, Interval.single, Escape.unit]
    · simp
  unfold chars
  split
  · exact body
  · simp [body]

end Group

namespace Pattern

open Compressor (patternChars)

theorem patternChars_eq_nil_iff {groups : List Group} : patternChars groups = [] ↔ groups = [] := by
  constructor
  · intro empty
    cases groups with
    | nil => rfl
    | cons group groups =>
        have first := group.chars_ne_nil
        cases groups with
        | nil =>
            simp [patternChars, first] at empty
        | cons next groups =>
            simp [patternChars, List.intercalate_cons_cons, first] at empty
  · rintro rfl
    rfl

theorem mem_alphabet_of_mem_patternChars {groups : List Group} {c : Char}
    (member : c ∈ patternChars groups) : c ∈ '|' :: Group.alphabet := by
  revert c
  apply Text.forall_mem_intercalate (List.mem_cons_self ..)
  intro text isText c inText
  obtain ⟨group, -, rfl⟩ := List.mem_map.1 isText
  exact List.mem_cons_of_mem _ (Group.mem_alphabet_of_mem_chars inText)

/-- Groups are read back as the alternatives that they are written as. -/
theorem read?_patternChars (groups : List Group) :
    read? (patternChars groups) = some (groups.map Group.alternative) := by
  cases groups with
  | nil => rfl
  | cons group groups =>
      have nonempty : (patternChars (group :: groups)).isEmpty = false := by
        rw [List.isEmpty_eq_false_iff, ne_eq, patternChars_eq_nil_iff]
        exact List.cons_ne_nil group groups
      have noBar : ∀ text ∈ (group :: groups).map Group.chars, ∀ c ∈ text, (c == '|') = false := by
        intro text isText c inText
        obtain ⟨other, -, rfl⟩ := List.mem_map.1 isText
        rw [beq_eq_false_iff_ne]
        rintro rfl
        exact other.bar_notMem_chars inText
      have cut : Text.splitWhen (· == '|') (patternChars (group :: groups)) =
          (group :: groups).map Group.chars := by
        rw [patternChars]
        exact Text.splitWhen_intercalate rfl (by simp) noBar
      have each : ∀ others : List Group,
          (others.map Group.chars).mapM (fun text => (tokens? text).bind alternative?) =
            some (others.map Group.alternative) := by
        intro others
        induction others with
        | nil => rfl
        | cons other others ih =>
            rw [List.map_cons, List.mapM_cons, ih, Group.chars_eq, tokens?_flatMap_chars]
            simp [Group.alternative?_tokens]
      rw [read?, nonempty, cut]
      exact each (group :: groups)

end Pattern

end SymbolRules
