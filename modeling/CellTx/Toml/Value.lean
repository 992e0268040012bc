/-!
# TOML values

What a configuration text denotes: strings, integers, arrays and tables. No setting is a float, a
date or a truth value, so that these have no place here and a text that holds one is refused. A
table remembers how it was written (`TableForm`), because some forms of writing may not be used for
some settings. `insertPath` adds an entry under a dotted path, where no key may stand twice.

Out of scope: comparing values, and values that are not read from a text.
-/

namespace CellTx.Toml

/-- How a table was written. -/
inductive TableForm where
  /-- Between braces. -/
  | inline
  /-- By keys with dots. -/
  | dotted
  /-- Under a header. -/
  | section
deriving DecidableEq

/-- A value. The entries of a table are in the order of the text; a key may stand there twice. -/
inductive Value where
  | string (text : String)
  | integer (number : Int)
  | array (items : List Value)
  | table (form : TableForm) (entries : List (String × Value))

/-- The entries of a table. -/
abbrev Entries := List (String × Value)

/-- The table of the dotted keys that begin with `key`; `none` when `key` has a value of its own,
and no entries when nothing has begun with it yet. -/
def dottedTable? (key : String) (entries : Entries) : Option Entries :=
  match entries.lookup key with
  | none => some []
  | some (.table .dotted inner) => some inner
  | some _ => none

/-- Replaces the first value of a key, or appends it. -/
def replaceFirst (key : String) (value : Value) : Entries → Entries
  | [] => [(key, value)]
  | e :: rest => if e.1 = key then (key, value) :: rest else e :: replaceFirst key value rest

/-- Adds a value under a path of keys. Every key but the last names a table that dotted keys
make. -/
def insertPath (value : Value) : List String → Entries → Option Entries
  | [], _ => none
  | [key], entries => some (entries ++ [(key, value)])
  | key :: path, entries => do
    let inner ← dottedTable? key entries
    let inner ← insertPath value path inner
    return replaceFirst key (.table .dotted inner) entries

end CellTx.Toml
