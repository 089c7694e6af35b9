import DesignComponents.Number.Text

/-!
# JSON values

A value as read from text or built for writing. Objects keep their fields in order and may
repeat a name; `distinct` is the view in which the last field of a name counts. A `void` is a
text with the form of a value that stands for none: a number beyond the doubles, half of a
surrogate pair, or nesting beyond the limit. Decoders refuse it, and a reader that skips a value
never looks at it.
-/

namespace DesignComponents

inductive Json where
  | null
  | bool (b : Bool)
  | integer (n : Int)
  | float (x : Double)
  | string (s : String)
  | array (items : List Json)
  | object (fields : List (String × Json))
  | void
  deriving Inhabited

namespace Json

def field? (name : String) : List (String × Json) → Option Json
  | [] => none
  | (k, v) :: rest => if k = name then some v else field? name rest

def get? (name : String) : Json → Option Json
  | object fields => field? name fields
  | _ => none

/-- Puts a field in the place of the one of its name, or last. -/
def putField (name : String) (value : Json) : List (String × Json) → List (String × Json)
  | [] => [(name, value)]
  | (k, v) :: rest => if k = name then (k, value) :: rest else (k, v) :: putField name value rest

mutual

/-- The value with the last field of each name only. -/
def distinct : Json → Json
  | array items => array (distinctItems items)
  | object fields => object (distinctFields fields [])
  | j => j

def distinctItems : List Json → List Json
  | [] => []
  | j :: rest => distinct j :: distinctItems rest

def distinctFields : List (String × Json) → List (String × Json) → List (String × Json)
  | [], done => done
  | (k, v) :: rest, done => distinctFields rest (putField k (distinct v) done)

end

mutual

def isSound : Json → Bool
  | void => false
  | array items => areSound items
  | object fields => areSoundFields fields
  | _ => true

def areSound : List Json → Bool
  | [] => true
  | j :: rest => isSound j && areSound rest

def areSoundFields : List (String × Json) → Bool
  | [] => true
  | (_, v) :: rest => isSound v && areSoundFields rest

end

mutual

/-- The value with void in place of what is nested in more than `levels` arrays and objects. -/
def cut : (levels : Nat) → Json → Json
  | 0, array _ => void
  | levels + 1, array items => array (cutItems levels items)
  | 0, object _ => void
  | levels + 1, object fields => object (cutFields levels fields)
  | _, j => j

def cutItems : (levels : Nat) → List Json → List Json
  | _, [] => []
  | levels, j :: rest => cut levels j :: cutItems levels rest

def cutFields : (levels : Nat) → List (String × Json) → List (String × Json)
  | _, [] => []
  | levels, (k, v) :: rest => (k, cut levels v) :: cutFields levels rest

end

def ofString? : Option String → Json
  | some s => string s
  | none => null

end Json

end DesignComponents
