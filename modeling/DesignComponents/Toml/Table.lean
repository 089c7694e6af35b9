import DesignComponents.Number.Binary

/-!
# Tables of a configuration text

The values of a configuration text, and how a table grows while it is read. Every table is
defined in one way, by a header, by dotted keys or in one line, and no key is given twice.
-/

namespace DesignComponents

/-- How a table came to be: in one line, by a header, by the header of a table inside it, or by a
dotted key. -/
inductive TableOrigin where
  | inline | header | innerHeader | dottedKey
  deriving DecidableEq, Repr

inductive Toml where
  | string (s : String)
  | integer (n : Int)
  | float (x : Double)
  | bool (b : Bool)
  | moment
  | array (items : List Toml)
  | table (origin : TableOrigin) (entries : List (String × Toml))
  | tables (items : List (List (String × Toml)))
  deriving Inhabited

namespace Toml

abbrev Entries := List (String × Toml)

def find? (key : String) : Entries → Option Toml
  | [] => none
  | (k, v) :: rest => if k = key then some v else find? key rest

def put (key : String) (value : Toml) : Entries → Entries
  | [] => [(key, value)]
  | (k, v) :: rest => if k = key then (k, value) :: rest else (k, v) :: put key value rest

def changeLast (change : Entries → Option Entries) : List Entries → Option (List Entries)
  | [] => none
  | [t] => (change t).map ([·])
  | t :: rest => (changeLast change rest).map (t :: ·)

/-- Changes the table at the end of a path of keys, in the last of each row of tables. -/
def changeAt (change : Entries → Option Entries) : (path : List String) → Entries → Option Entries
  | [], entries => change entries
  | key :: path, entries =>
    match find? key entries with
    | some (table origin inner) =>
      (changeAt change path inner).map fun inner => put key (table origin inner) entries
    | some (tables items) =>
      (changeLast (changeAt change path) items).map fun items => put key (tables items) entries
    | _ => none

def add? (key : String) (value : Toml) (entries : Entries) : Option Entries :=
  if (find? key entries).isSome then none else some (entries ++ [(key, value)])

/-- Adds the value of a dotted key. The last table on its way has to be one that dotted keys
define, those before it may come from the headers of inner tables. -/
def addDotted? : (key : List String) → Toml → Entries → Option Entries
  | [], _, _ => none
  | [key], value, entries => add? key value entries
  | [parent, key], value, entries =>
    match find? parent entries with
    | none => some (entries ++ [(parent, table .dottedKey [(key, value)])])
    | some (table .dottedKey inner) =>
      (add? key value inner).map fun inner => put parent (table .dottedKey inner) entries
    | _ => none
  | parent :: key :: rest, value, entries =>
    match find? parent entries with
    | none =>
      (addDotted? (key :: rest) value []).map fun inner =>
        entries ++ [(parent, table .dottedKey inner)]
    | some (table .dottedKey inner) =>
      (addDotted? (key :: rest) value inner).map fun inner =>
        put parent (table .dottedKey inner) entries
    | some (table .innerHeader inner) =>
      (addDotted? (key :: rest) value inner).map fun inner =>
        put parent (table .innerHeader inner) entries
    | some (tables items) =>
      (changeLast (addDotted? (key :: rest) value) items).map fun items =>
        put parent (tables items) entries
    | _ => none

/-- Goes down a path of headers, whose missing tables are made, and ends with `finish`. -/
def openAt (finish : String → Entries → Option Entries) : (path : List String) → Entries →
    Option Entries
  | [], _ => none
  | [key], entries => finish key entries
  | parent :: key :: rest, entries =>
    match find? parent entries with
    | none =>
      (openAt finish (key :: rest) []).map fun inner =>
        entries ++ [(parent, table .innerHeader inner)]
    | some (table .inline _) => none
    | some (table origin inner) =>
      (openAt finish (key :: rest) inner).map fun inner => put parent (table origin inner) entries
    | some (tables items) =>
      (changeLast (openAt finish (key :: rest)) items).map fun items =>
        put parent (tables items) entries
    | some _ => none

/-- The header of a table, which is new or known from inner headers only. -/
def openTable? : (path : List String) → Entries → Option Entries :=
  openAt fun key entries =>
    match find? key entries with
    | none => some (entries ++ [(key, table .header [])])
    | some (table .innerHeader inner) => some (put key (table .header inner) entries)
    | some _ => none

def openRow? : (path : List String) → Entries → Option Entries :=
  openAt fun key entries =>
    match find? key entries with
    | none => some (entries ++ [(key, tables [[]])])
    | some (tables items) => some (put key (tables (items ++ [[]])) entries)
    | some _ => none

end Toml

end DesignComponents
