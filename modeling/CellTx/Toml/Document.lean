import CellTx.Toml.Lexeme
import CellTx.Toml.Value

/-!
# TOML texts

A text is a list of sections: what stands before the first header, and then each header with the
entries under it (`read?`). The sections make one table (`root?`): headers that begin with one key
make the table of that key, a header may stand there once, and headers in double brackets make the
tables of an array.

The readers nest, and take their depth as fuel, of which `read?` gives more than the text is long.
That this suffices for the texts of configurations is part of `Config.parse?_toText`.

Out of scope: floats, dates and truth values (`CellTx.Toml.Value`), and the place of an error.
-/

namespace CellTx.Toml

/-- Entries under a header; the path of what stands before the first header is empty. -/
structure Section where
  path : List String
  /-- Whether the header stands in double brackets. -/
  isArray : Bool
  entries : Entries

/-! ## Reading the text -/

mutual

/-- A value, in at most `fuel` nested readings. -/
def value? : Nat → List Char → Option (Value × List Char)
  | 0, _ => none
  | fuel + 1, cs =>
    match cs with
    | '[' :: rest => do
      let (items, rest) ← items? fuel rest
      return (.array items, rest)
    | '{' :: rest =>
      match skipBlanks rest with
      | '}' :: rest => some (.table .inline [], rest)
      | rest => do
        let (entries, rest) ← inlineEntries? fuel [] rest
        return (.table .inline entries, rest)
    | '+' :: rest => do
      let n ← integer? (rest.takeWhile isBare)
      return (.integer n, rest.dropWhile isBare)
    | _ =>
      match string? cs with
      | some ((text, _), rest) => some (.string (String.ofList text), rest)
      | none => do
        let n ← integer? (cs.takeWhile isBare)
        return (.integer n, cs.dropWhile isBare)

/-- The items of an array up to its closing bracket. -/
def items? : Nat → List Char → Option (List Value × List Char)
  | 0, _ => none
  | fuel + 1, cs => do
    match ← skipGap? false cs with
    | ']' :: rest => return ([], rest)
    | cs =>
      let (item, rest) ← value? fuel cs
      match ← skipGap? false rest with
      | ',' :: rest => do
        let (items, rest) ← items? fuel rest
        return (item :: items, rest)
      | ']' :: rest => return ([item], rest)
      | _ => none

/-- The entries of a table in braces up to its closing brace. -/
def inlineEntries? : Nat → Entries → List Char → Option (Entries × List Char)
  | 0, _, _ => none
  | fuel + 1, entries, cs => do
    let (path, rest) ← keys? (fuel + 1) cs
    match rest with
    | '=' :: rest => do
      let (value, rest) ← value? fuel (skipBlanks rest)
      let entries ← insertPath value path entries
      match skipBlanks rest with
      | '}' :: rest => return (entries, rest)
      | ',' :: rest => inlineEntries? fuel entries rest
      | _ => none
    | _ => none

end

/-- A header after its first bracket: the section it begins, and the text under it. -/
def header? (fuel : Nat) (cs : List Char) : Option (Section × List Char) := do
  let (isArray, cs) := match cs with
    | '[' :: rest => (true, rest)
    | cs => (false, cs)
  let (path, rest) ← keys? fuel cs
  match isArray, rest with
  | false, ']' :: rest => return (⟨path, false, []⟩, ← restOfLine? rest)
  | true, ']' :: ']' :: rest => return (⟨path, true, []⟩, ← restOfLine? rest)
  | _, _ => none

/-- An entry on a line of its own, added to those before it. -/
def entry? (fuel : Nat) (entries : Entries) (cs : List Char) : Option (Entries × List Char) := do
  let (path, rest) ← keys? fuel cs
  match rest with
  | '=' :: rest => do
    let (value, rest) ← value? fuel (skipBlanks rest)
    let rest ← restOfLine? rest
    return (← insertPath value path entries, rest)
  | _ => none

/-- The sections from `current` on, in at most `lines` lines. -/
def sections? (fuel : Nat) : Nat → Section → List Char → Option (List Section)
  | 0, _, _ => none
  | lines + 1, current, cs => do
    match ← skipGap? false cs with
    | [] => return [current]
    | '[' :: rest => do
      let (next, rest) ← header? fuel rest
      return current :: (← sections? fuel lines next rest)
    | cs => do
      let (entries, rest) ← entry? fuel current.entries cs
      sections? fuel lines { current with entries := entries } rest

/-- The text without the mark that some systems put before it. -/
def dropMark : List Char → List Char
  | '\ufeff' :: rest => rest
  | cs => cs

/-- The sections of a text. -/
def read? (text : String) : Option (List Section) :=
  let cs := foldLineEnds (dropMark text.toList)
  sections? (2 * cs.length + 2) (cs.length + 1) ⟨[], false, []⟩ cs

/-! ## The table of a text -/

/-- The elements of a list, each once, in the order of their first appearance. -/
def firsts (seen : List String) : List String → List String
  | [] => []
  | k :: rest => if k ∈ seen then firsts seen rest else k :: firsts (k :: seen) rest

/-- The sections under a key, without the key. -/
def under (key : String) (sections : List Section) : List Section :=
  sections.filterMap fun s =>
    match s.path with
    | k :: path => if k = key then some { s with path := path } else none
    | [] => none

/-- The sections from one header of an array to the one before the next, the first as a plain
one. -/
def elements : List Section → List (List Section)
  | [] => []
  | s :: rest =>
    if s.path.isEmpty && s.isArray then
      let others := rest.takeWhile fun s => !(s.path.isEmpty && s.isArray)
      ({ s with isArray := false } :: others) :: elements rest
    else elements rest

/-- The entries of the table that some sections make, whose paths have fewer than `depth` keys. -/
def table? : Nat → List Section → Option Entries
  | 0, _ => none
  | depth + 1, sections => do
    let own ← match sections.filter (·.path.isEmpty) with
      | [] => some []
      | [s] => if s.isArray then none else some s.entries
      | _ => none
    let tables ← (firsts [] (sections.filterMap (·.path.head?))).mapM fun key => do
      let group := under key sections
      if (group.head?.map fun s => s.path.isEmpty && s.isArray) = some true then
        let items ← (elements group).mapM fun element => table? depth element
        return (key, Value.array (items.map (Value.table .section)))
      else return (key, Value.table .section (← table? depth group))
    return own ++ tables

/-- The entries of a text. -/
def root? (sections : List Section) : Option Entries :=
  table? ((sections.map (·.path.length)).foldl max 0 + 1) sections

end CellTx.Toml
