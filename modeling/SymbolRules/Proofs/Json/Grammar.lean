import SymbolRules.Json.Reader
import SymbolRules.Proofs.Numerals
import SymbolRules.Proofs.Utf16.Units

/-!
# JSON values and their texts

A JSON value of any form is a tree (`Json.Tree`). A tree has many texts (`Tree.IsText`): white
space may stand between any two tokens, characters of strings may be escaped or not, and an
exponent may be written with either letter. Nothing is said here about how texts are read.
-/

namespace SymbolRules

/-- The code units of a text. -/
def Utf16.encode (text : String) : List CodeUnit :=
  text.toList.flatMap fun c => (Pair.ofNat c.toNat).units

namespace Json

/-- A JSON value that is a word. -/
inductive Word where
  | null
  | true
  | false

/-- How a word is written. -/
def Word.chars : Word → List Char
  | null => ['n', 'u', 'l', 'l']
  | true => ['t', 'r', 'u', 'e']
  | false => ['f', 'a', 'l', 's', 'e']

/-- A JSON value of any form. Strings are given by their code units, since an escape may stand for
    a surrogate alone. -/
inductive Tree where
  | word (word : Word)
  | number (numeral : Numeral)
  | string (units : List CodeUnit)
  | array (items : List Tree)
  | object (members : List (List CodeUnit × Tree))

/-- Decimal digits, at least one, and the characters that stand for them. -/
structure AreDecimals (digits : List Nat) (text : List Char) : Prop where
  nonempty : digits ≠ []
  small : ∀ digit ∈ digits, digit < 10
  written : text = digits.map Nat.digitChar

namespace Numeral

/-- The texts of a fraction, which may be absent. -/
inductive IsFraction : List Nat → List Char → Prop
  | absent : IsFraction [] []
  | present {digits : List Nat} {text : List Char} (decimals : AreDecimals digits text) :
      IsFraction digits ('.' :: text)

/-- The texts of the sign of an exponent, which is negative or not. -/
inductive IsExponentSign : Bool → List Char → Prop
  | none : IsExponentSign false []
  | plus : IsExponentSign false ['+']
  | minus : IsExponentSign true ['-']

/-- The texts of an exponent, which may be absent. -/
inductive IsExponent : Bool → List Nat → List Char → Prop
  | absent : IsExponent false [] []
  | present {mark : Char} {negative : Bool} {sign text : List Char} {digits : List Nat}
      (isMark : mark = 'e' ∨ mark = 'E') (signed : IsExponentSign negative sign)
      (decimals : AreDecimals digits text) :
      IsExponent negative digits (mark :: (sign ++ text))

/-- The texts of a numeral: its whole part begins with a zero only if that is all of it. -/
inductive IsText : Numeral → List Char → Prop
  | mk {negative exponentNegative : Bool} {whole fraction exponent : List Nat}
      {wholeText fractionText exponentText : List Char} (decimals : AreDecimals whole wholeText)
      (leading : whole.head? = some 0 → whole = [0]) (isFraction : IsFraction fraction fractionText)
      (isExponent : IsExponent exponentNegative exponent exponentText) :
      IsText ⟨negative, whole.reverse, fraction.reverse, exponentNegative, exponent.reverse⟩
        ((if negative then ['-'] else []) ++ (wholeText ++ (fractionText ++ exponentText)))

end Numeral

/-- The short escapes: the letter behind the backslash, and what it stands for. -/
def shortEscapes : List (Char × Char) :=
  [('"', '"'), ('\\', '\\'), ('/', '/'), ('b', '\x08'), ('f', '\x0c'), ('n', '\n'), ('r', '\r'),
    ('t', '\t')]

/-- The texts of code units inside a string: a character may stand for itself unless it is a quote,
    a backslash or a control character, some have a short escape, and any unit may be escaped by
    its four digits. -/
inductive Spells : List CodeUnit → List Char → Prop
  | nil : Spells [] []
  | plain {c : Char} {units : List CodeUnit} {text : List Char} (notQuote : c ≠ '"')
      (notBackslash : c ≠ '\\') (notControl : 0x20 ≤ c.toNat) (later : Spells units text) :
      Spells ((Pair.ofNat c.toNat).units ++ units) (c :: text)
  | short {letter meant : Char} {units : List CodeUnit} {text : List Char}
      (isShort : (letter, meant) ∈ shortEscapes) (later : Spells units text) :
      Spells ((Pair.ofNat meant.toNat).units ++ units) ('\\' :: letter :: text)
  | unit {unit : CodeUnit} {digits : List Char} {units : List CodeUnit} {text : List Char}
      (four : digits.length = 4) (isUnit : Hex.AreDigits digits unit.toNat)
      (later : Spells units text) :
      Spells (unit :: units) ('\\' :: 'u' :: (digits ++ text))

/-- The texts of a string with its quotes. -/
inductive IsQuoted : List CodeUnit → List Char → Prop
  | mk {units : List CodeUnit} {inside : List Char} (spells : Spells units inside) :
      IsQuoted units ('"' :: (inside ++ ['"']))

/-- Any amount of white space. -/
def AreSpaces (text : List Char) : Prop := ∀ c ∈ text, isSpace c = true

theorem areSpaces_nil : AreSpaces [] := List.forall_mem_nil _

/-- The texts of some parts, with commas between them and white space around each. -/
inductive Listed {α : Type} (IsPart : α → List Char → Prop) : List α → List Char → Prop
  | none {text : List Char} (spaces : AreSpaces text) : Listed IsPart [] text
  | one {part : α} {before text after : List Char} (leading : AreSpaces before)
      (written : IsPart part text) (trailing : AreSpaces after) :
      Listed IsPart [part] (before ++ (text ++ after))
  | more {part next : α} {rest : List α} {before text after later : List Char}
      (leading : AreSpaces before) (written : IsPart part text) (trailing : AreSpaces after)
      (others : Listed IsPart (next :: rest) later) :
      Listed IsPart (part :: next :: rest) (before ++ (text ++ (after ++ ',' :: later)))

/-- The texts of a member of an object. -/
inductive IsMember (IsValue : Tree → List Char → Prop) : List CodeUnit × Tree → List Char → Prop
  | mk {name : List CodeUnit} {value : Tree} {nameText before after text : List Char}
      (named : IsQuoted name nameText) (leading : AreSpaces before) (trailing : AreSpaces after)
      (written : IsValue value text) :
      IsMember IsValue (name, value) (nameText ++ (before ++ ':' :: (after ++ text)))

/-- The texts of a tree, with no white space around them. -/
inductive Tree.IsText : Tree → List Char → Prop
  | word (word : Word) : IsText (.word word) word.chars
  | number {numeral : Numeral} {text : List Char} (written : numeral.IsText text) :
      IsText (.number numeral) text
  | string {units : List CodeUnit} {text : List Char} (written : IsQuoted units text) :
      IsText (.string units) text
  | array {items : List Tree} {inside : List Char} (written : Listed Tree.IsText items inside) :
      IsText (.array items) ('[' :: (inside ++ [']']))
  | object {members : List (List CodeUnit × Tree)} {inside : List Char}
      (written : Listed (IsMember Tree.IsText) members inside) :
      IsText (.object members) ('{' :: (inside ++ ['}']))

/-- The whole texts of a tree, which may have white space at both ends. -/
def Tree.IsDocument (tree : Tree) (text : String) : Prop :=
  ∃ before inside after, AreSpaces before ∧ tree.IsText inside ∧ AreSpaces after ∧
    text.toList = before ++ (inside ++ after)

theorem Tree.IsText.isDocument {tree : Tree} {text : String} (written : tree.IsText text.toList) :
    tree.IsDocument text :=
  ⟨[], text.toList, [], areSpaces_nil, written, areSpaces_nil, by simp⟩

end Json

end SymbolRules
