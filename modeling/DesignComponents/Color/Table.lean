import DesignComponents.Color.Rgba
import Std.Data.HashMap

/-!
# Tables of named colors

A table keeps its entries in order, one for each color, and an index from hexadecimal names to
positions. A color is found by its name in the index, or else by the scan for the nearest entry,
the first of several.
-/

namespace DesignComponents

structure ColorToken where
  rgba : Rgba
  name : String
  deriving DecidableEq, Repr

structure ColorTable where
  tokens : List ColorToken
  index : Std.HashMap String Nat

namespace ColorTable

def empty : ColorTable := ⟨[], ∅⟩

def rename (name : String) : (position : Nat) → List ColorToken → List ColorToken
  | _, [] => []
  | 0, t :: ts => { t with name } :: ts
  | n + 1, t :: ts => t :: rename name n ts

/-- Adds a token: a color that is there keeps its position and takes the new name. -/
def insert (table : ColorTable) (token : ColorToken) : ColorTable :=
  let hex := token.rgba.hex
  match table.index[hex]? with
  | some position => { table with tokens := rename token.name position table.tokens }
  | none =>
    { tokens := table.tokens ++ [token]
      index := table.index.insert hex table.tokens.length }

def ofTokens (tokens : List ColorToken) : ColorTable := tokens.foldl insert empty

def find? (table : ColorTable) (hex : String) : Option String :=
  (table.index[hex]?).bind fun position => (table.tokens[position]?).map (·.name)

/-- The nearest token to a color; of several, the first. -/
def nearestOf (c : Rgba) : List ColorToken → Option ColorToken
  | [] => none
  | t :: ts =>
    match nearestOf c ts with
    | none => some t
    | some u => if c.squaredDistance u.rgba < c.squaredDistance t.rgba then some u else some t

def nearest? (table : ColorTable) (c : Rgba) : Option String :=
  (nearestOf c table.tokens).map (·.name)

def resolve? (table : ColorTable) (c : Rgba) : Option String :=
  (table.find? c.hex).or (table.nearest? c)

end ColorTable

end DesignComponents
