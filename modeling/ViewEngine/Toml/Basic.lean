import ViewEngine.Binary64.Basic
import ViewEngine.Table

/-!
# TOML data

TOML as a tree. A table remembers how it came to be, since that decides what may still be added to it:
a table that a header names is complete after its section, one that only dotted keys have opened takes
more dotted keys, one that longer headers have opened may still get a header of its own, and an inline
table takes nothing. `addPair?`, `addTable?` and `addElement?` are the three things that a line of a
document does; each refuses what would define a thing twice.
-/

namespace ViewEngine

/-- How a table came to be. -/
inductive TableOrigin where
  /-- Named by a header. -/
  | header
  /-- On the way to a table that a header names. -/
  | implied
  /-- On the way to a dotted key. -/
  | dotted
  | inline
deriving DecidableEq, Repr

/-- A TOML value. -/
inductive Toml where
  | string (s : String)
  | integer (i : Int64)
  | float (d : Binary64)
  | boolean (b : Bool)
  /-- A date, a time of day or both, as written. -/
  | dateTime (text : String)
  | array (items : List Toml)
  | table (origin : TableOrigin) (entries : List (String × Toml))
  /-- Tables with a header each; the last one is still open. -/
  | tables (earlier : List Toml) (last : List (String × Toml))
deriving Inhabited

namespace Toml

/-- Adds a value under a dotted key: the names before its last one, and the last. -/
def addPair? (key : String) (v : Toml) : List String → Table Toml → Option (Table Toml)
  | [], entries => if entries.contains key then none else some (entries.insert key v)
  | name :: names, entries =>
    match entries.get? name with
    | none => (addPair? key v names []).map fun inner => entries.insert name (table .dotted inner)
    | some (table .dotted inner) =>
      (addPair? key v names inner).map fun inner => entries.insert name (table .dotted inner)
    | some (table .implied inner) =>
      if names = [] then none
      else (addPair? key v names inner).map fun inner => entries.insert name (table .implied inner)
    | some (tables earlier last) =>
      if names = [] then none
      else (addPair? key v names last).map fun last => entries.insert name (tables earlier last)
    | some _ => none

/-- Changes the table that the names of a header lead to, opening the tables on the way. -/
def within? (change : Table Toml → Option (Table Toml)) :
    List String → Table Toml → Option (Table Toml)
  | [], entries => change entries
  | name :: names, entries =>
    match entries.get? name with
    | none => (within? change names []).map fun inner => entries.insert name (table .implied inner)
    | some (table .inline _) => none
    | some (table origin inner) =>
      (within? change names inner).map fun inner => entries.insert name (table origin inner)
    | some (tables earlier last) =>
      (within? change names last).map fun last => entries.insert name (tables earlier last)
    | some _ => none

/-- Adds the table that a header names. -/
def addTable? (key : String) (entries : Table Toml) : Option (Table Toml) :=
  match entries.get? key with
  | none => some (entries.insert key (table .header []))
  | some (table .implied inner) => some (entries.insert key (table .header inner))
  | some _ => none

/-- Adds a table to the tables of one name. -/
def addElement? (key : String) (entries : Table Toml) : Option (Table Toml) :=
  match entries.get? key with
  | none => some (entries.insert key (tables [] []))
  | some (tables earlier last) =>
    some (entries.insert key (tables (earlier ++ [table .header last]) []))
  | some _ => none

end Toml

end ViewEngine
