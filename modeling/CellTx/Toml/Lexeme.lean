import CellTx.Bytes

/-!
# The smallest parts of a TOML text

Blanks, comments, ends of lines, keys, strings and integers. Each reader takes the rest of the text
and answers what it read with the text after it, or `none` when the text does not begin so.

* `key?` and `keys?` read a key and a dotted path of keys, bare or quoted.
* `string?` reads the four forms of strings, with their escapes.
* `integer?` reads a token as a signed integer of 64 bits, in one of the four bases, with
  underscores between digits.

What the readers make of a text that was written from a configuration is in
`CellTx.Proofs.WrittenToml`.

Out of scope: where and why a text is malformed, which is only said as `none`.
-/

namespace CellTx.Toml

/-- A space or a tab. -/
def isBlank (c : Char) : Bool := c = ' ' || c = '\t'

/-- A character of a key without quotes, and of an integer. -/
def isBare (c : Char) : Bool := c.isAlphanum || c = '-' || c = '_'

/-- A character that a comment may hold. -/
def isComment (c : Char) : Bool := c = '\t' || 32 ≤ c.toNat

/-- A character that a string may hold as it is. -/
def isText (c : Char) : Bool := isComment c && c.toNat ≠ 127

/-- Reads the two characters of some systems' line ends as one. -/
def foldLineEnds : List Char → List Char
  | '\r' :: '\n' :: rest => '\n' :: foldLineEnds rest
  | c :: rest => c :: foldLineEnds rest
  | [] => []

/-- The text after blanks. -/
def skipBlanks (cs : List Char) : List Char := cs.dropWhile isBlank

/-- The text after the end of a line, or nothing at the end of the text. -/
def lineEnd? : List Char → Option (List Char)
  | [] => some []
  | '\n' :: rest => some rest
  | _ => none

/-- The text after the rest of a line that holds only blanks and a comment. -/
def restOfLine? (cs : List Char) : Option (List Char) :=
  match skipBlanks cs with
  | '#' :: rest => lineEnd? (rest.dropWhile isComment)
  | cs => lineEnd? cs

/-- The text after blanks, ends of lines and comments; a comment must end with its line. -/
def skipGap? (inComment : Bool) : List Char → Option (List Char)
  | [] => some []
  | c :: rest =>
    if c = '\n' then skipGap? false rest
    else if inComment then (if isComment c then skipGap? true rest else none)
    else if isBlank c then skipGap? false rest
    else if c = '#' then skipGap? true rest
    else some (c :: rest)

/-! ## Strings -/

/-- The character that a backslash and a letter stand for. -/
def shortEscape? : Char → Option Char
  | '"' => some '"'
  | '\\' => some '\\'
  | 'b' => some '\x08'
  | 'f' => some '\x0c'
  | 'n' => some '\n'
  | 'r' => some '\r'
  | 't' => some '\t'
  | _ => none

/-- The character with the given code in hexadecimal; surrogates are no characters. -/
def scalar? (digits : List Char) : Option Char := do
  let values ← digits.mapM Hex.value?
  let n := values.foldl (fun n v => 16 * n + v) 0
  if n < 0xd800 || (0xdfff < n && n < 0x110000) then some (Char.ofNat n) else none

/-- Puts a character before what the rest of a string holds. -/
def consText (c : Option Char) (rest : Option (List Char × List Char)) :
    Option (List Char × List Char) := do
  let c ← c
  let (text, rest) ← rest
  return (c :: text, rest)

/-- The rest of a string in double quotes. -/
def basicText? : List Char → Option (List Char × List Char)
  | [] => none
  | '"' :: rest => some ([], rest)
  | '\\' :: 'u' :: a :: b :: c :: d :: rest => consText (scalar? [a, b, c, d]) (basicText? rest)
  | '\\' :: 'U' :: a :: b :: c :: d :: e :: f :: g :: h :: rest =>
    consText (scalar? [a, b, c, d, e, f, g, h]) (basicText? rest)
  | '\\' :: c :: rest => consText (shortEscape? c) (basicText? rest)
  | c :: rest => if isText c then consText (some c) (basicText? rest) else none

/-- The rest of a string in single quotes, which has no escapes. -/
def literalText? : List Char → Option (List Char × List Char)
  | [] => none
  | c :: rest =>
    if c = '\'' then some ([], rest)
    else if isText c then consText (some c) (literalText? rest)
    else none

/-- What the end of a line in a string over several lines belongs to. -/
inductive LineMode where
  /-- The text of the string. -/
  | text
  /-- Blanks after a backslash, up to the end of the line. -/
  | brokenLine
  /-- The gap after a broken line, up to the next visible character. -/
  | gap
deriving DecidableEq

/-- The closing quotes of a string over several lines: three, and up to two more that belong to the
text. -/
def closing? (quote : Char) : List Char → Option (List Char × List Char)
  | a :: b :: c :: rest =>
    if a = quote && b = quote && c = quote then
      match rest with
      | d :: e :: rest' =>
        if d = quote && e = quote then some ([quote, quote], rest')
        else if d = quote then some ([quote], e :: rest')
        else some ([], rest)
      | [d] => if d = quote then some ([quote], []) else some ([], rest)
      | [] => some ([], rest)
    else none
  | _ => none

/-- The rest of a string in three double quotes. -/
def basicLines? : LineMode → List Char → Option (List Char × List Char)
  | _, [] => none
  | .brokenLine, c :: rest =>
    if isBlank c then basicLines? .brokenLine rest
    else if c = '\n' then basicLines? .gap rest
    else none
  | mode, c :: rest =>
    if mode = .gap && (isBlank c || c = '\n') then basicLines? .gap rest
    else
      match closing? '"' (c :: rest) with
      | some closed => some closed
      | none =>
        match c, rest with
        | '\\', 'u' :: a :: b :: c :: d :: rest =>
          consText (scalar? [a, b, c, d]) (basicLines? .text rest)
        | '\\', 'U' :: a :: b :: c :: d :: e :: f :: g :: h :: rest =>
          consText (scalar? [a, b, c, d, e, f, g, h]) (basicLines? .text rest)
        | '\\', c :: rest =>
          if c = '\n' then basicLines? .gap rest
          else if isBlank c then basicLines? .brokenLine rest
          else consText (shortEscape? c) (basicLines? .text rest)
        | c, rest =>
          if c = '\n' || isText c then consText (some c) (basicLines? .text rest) else none

/-- The rest of a string in three single quotes. -/
def literalLines? : List Char → Option (List Char × List Char)
  | [] => none
  | c :: rest =>
    match closing? '\'' (c :: rest) with
    | some closed => some closed
    | none =>
      if c = '\n' || isText c then consText (some c) (literalLines? rest) else none

/-- The text without an end of line that it begins with. -/
def dropFirstLineEnd : List Char → List Char
  | '\n' :: rest => rest
  | cs => cs

/-- A string, and whether it is one over several lines. -/
def string? : List Char → Option ((List Char × Bool) × List Char)
  | '"' :: '"' :: '"' :: rest => do
    let (text, rest) ← basicLines? .text (dropFirstLineEnd rest)
    return ((text, true), rest)
  | '\'' :: '\'' :: '\'' :: rest => do
    let (text, rest) ← literalLines? (dropFirstLineEnd rest)
    return ((text, true), rest)
  | '"' :: rest => do
    let (text, rest) ← basicText? rest
    return ((text, false), rest)
  | '\'' :: rest => do
    let (text, rest) ← literalText? rest
    return ((text, false), rest)
  | _ => none

/-! ## Keys -/

/-- A key: characters without quotes, or a string on one line, which may be empty. -/
def key? (cs : List Char) : Option (String × List Char) :=
  match string? cs with
  | some ((text, isLong), rest) =>
    if isLong then none else some (String.ofList text, rest)
  | none =>
    let bare := cs.takeWhile isBare
    if bare.isEmpty then none else some (String.ofList bare, cs.dropWhile isBare)

/-- One or more keys with points between them; at most `fuel` keys. -/
def keys? : Nat → List Char → Option (List String × List Char)
  | 0, _ => none
  | fuel + 1, cs => do
    let (key, rest) ← key? (skipBlanks cs)
    match skipBlanks rest with
    | '.' :: rest => do
      let (path, rest) ← keys? fuel rest
      return (key :: path, rest)
    | rest => return ([key], rest)

/-! ## Integers -/

/-- The digits of a number in which single underscores may stand between two digits. -/
def ungroup? (isDigit : Char → Bool) : List Char → Option (List Char)
  | [] => none
  | [c] => if isDigit c then some [c] else none
  | c :: '_' :: rest => if isDigit c then (ungroup? isDigit rest).map (c :: ·) else none
  | c :: rest => if isDigit c then (ungroup? isDigit rest).map (c :: ·) else none

/-- The number with the given digits in a base of at most sixteen. -/
def number? (base : Nat) (cs : List Char) : Option Nat := do
  let digits ← ungroup? (fun c => (Hex.value? c).any (· < base)) cs
  return digits.foldl (fun n c => base * n + (Hex.value? c).getD 0) 0

/-- A decimal number, which has no leading zero. -/
def decimal? : List Char → Option Nat
  | ['0'] => some 0
  | '0' :: _ => none
  | cs => number? 10 cs

/-- An integer of 64 bits with sign: decimal, or with a base's mark and without sign. -/
def integer? (cs : List Char) : Option Int := do
  let n ← match cs with
    | '0' :: 'x' :: rest => (number? 16 rest).map Int.ofNat
    | '0' :: 'o' :: rest => (number? 8 rest).map Int.ofNat
    | '0' :: 'b' :: rest => (number? 2 rest).map Int.ofNat
    | '-' :: rest => (decimal? rest).map fun n => -(n : Int)
    | rest => (decimal? rest).map Int.ofNat
  if -0x8000000000000000 ≤ n && n < 0x8000000000000000 then some n else none

end CellTx.Toml
