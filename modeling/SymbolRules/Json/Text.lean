import SymbolRules.Utf16.Pair

/-!
# JSON strings

Strings are written between quotes with the short escapes where they exist, and
read one character at a time. A character outside the Basic Multilingual Plane
may be written as two escaped surrogates; a surrogate that stands alone is no
character, and is refused wherever the string is kept.
-/

namespace SymbolRules

namespace Json

/-- The letter of the short escape of a character. -/
def shortEscape? (c : Char) : Option Char :=
  if c = '"' then some '"'
  else if c = '\\' then some '\\'
  else if c = '\x08' then some 'b'
  else if c = '\x0c' then some 'f'
  else if c = '\n' then some 'n'
  else if c = '\r' then some 'r'
  else if c = '\t' then some 't'
  else none

/-- The character that a short escape stands for. A slash may be escaped too. -/
def unescape? (letter : Char) : Option Char :=
  if letter = '"' then some '"'
  else if letter = '\\' then some '\\'
  else if letter = '/' then some '/'
  else if letter = 'b' then some '\x08'
  else if letter = 'f' then some '\x0c'
  else if letter = 'n' then some '\n'
  else if letter = 'r' then some '\r'
  else if letter = 't' then some '\t'
  else none

/-- A control character, which may not stand unescaped in a string. -/
def isControl (c : Char) : Bool := c.toNat < 0x20

/-- A character inside a string. -/
def quoteChar (c : Char) : List Char :=
  match shortEscape? c with
  | some letter => ['\\', letter]
  | none =>
      if isControl c then ['\\', 'u', '0', '0'] ++ hexPair c.toNat else [c]
where
  /-- Two lower-case hexadecimal digits. -/
  hexPair (n : Nat) : List Char := [Nat.digitChar (n / 16), Nat.digitChar (n % 16)]

/-- A string between its quotes. -/
def quote (s : String) : List Char := '"' :: s.toList.flatMap quoteChar ++ ['"']

/-- How much of a string has been read. The characters are kept latest first. -/
inductive TextScan where
  | plain (read : List Char)
  /-- A backslash has been read. -/
  | escape (read : List Char)
  /-- The digits of an escaped unit are being read, behind an escaped high
      surrogate or not. -/
  | unit (read : List Char) (high : Option CodeUnit) (digits : List Char)
  /-- An escaped high surrogate has been read. -/
  | lowDue (read : List Char) (high : CodeUnit)
  /-- An escaped high surrogate and a backslash have been read. -/
  | lowEscape (read : List Char) (high : CodeUnit)
  deriving DecidableEq, Repr

/-- What one more character does to a string. -/
inductive TextStep where
  | more (scan : TextScan)
  /-- The character is the closing quote of the given string. -/
  | ended (text : String)
  | malformed
  deriving DecidableEq, Repr

namespace TextScan

/-- The number of bytes that characters take in UTF-8. -/
def byteCount (cs : List Char) : Nat := cs.foldr (fun c count => c.utf8Size + count) 0

/-- Takes an escaped unit. A low surrogate comes behind a high one and only
    there. -/
def takeUnit (read : List Char) (high : Option CodeUnit) (u : CodeUnit) : Option TextScan :=
  match high with
  | some h =>
      if IsLowSurrogate u then some (.plain (Char.ofNat (Pair.decode ⟨h, u⟩) :: read))
      else none
  | none =>
      if IsLowSurrogate u then none
      else if IsHighSurrogate u then some (.lowDue read u)
      else some (.plain (Char.ofNat u.toNat :: read))

/-- Takes one more character of the string itself. Surrogates are paired up only in
    a string that is kept. The four places of an escaped unit are counted in bytes,
    so that a longer character ends them early. -/
def extend? (kept : Bool) : TextScan → Char → Option TextScan
  | plain read, c =>
      if c = '\\' then some (.escape read)
      else if isControl c then none
      else some (.plain (c :: read))
  | escape read, c =>
      if c = 'u' then some (.unit read none [])
      else (unescape? c).map fun meant => .plain (meant :: read)
  | unit read high digits, c =>
      let digits := digits ++ [c]
      if byteCount digits < 4 then some (.unit read high digits)
      else (Hex.word16? digits).bind fun u =>
        if kept then takeUnit read high u else some (.plain read)
  | lowDue read high, c => if c = '\\' then some (.lowEscape read high) else none
  | lowEscape read high, c => if c = 'u' then some (.unit read (some high) []) else none

/-- Takes one more character. At the closing quote the string is given in its
    order. -/
def step (kept : Bool) (scan : TextScan) (c : Char) : TextStep :=
  match scan, c with
  | .plain read, '"' => .ended (String.ofList read.reverse)
  | scan, c =>
      match scan.extend? kept c with
      | some scan => .more scan
      | none => .malformed

end TextScan

end Json

end SymbolRules
