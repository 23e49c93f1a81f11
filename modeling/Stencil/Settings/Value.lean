import Stencil.Settings.Fraction

namespace Stencil.Settings

inductive Value where
  | boolean (b : Bool)
  | integer (n : Int)
  | fraction (x : Fraction)
  | text (content : Text)
  | list (items : List Value)
  | table (fields : List (Text × Value))
  | null
  deriving Repr

abbrev Fields := List (Text × Value)

namespace Fields

def set (key : Text) (value : Value) : Fields → Fields
  | [] => [(key, value)]
  | (k, v) :: rest => if k = key then (key, value) :: rest else (k, v) :: set key value rest

def get? (key : Text) : Fields → Option Value
  | [] => none
  | (k, v) :: rest => if k = key then some v else get? key rest

@[simp] theorem get?_set (fields : Fields) (key name : Text) (value : Value) :
    get? name (set key value fields) = if key = name then some value else get? name fields := by
  induction fields with
  | nil => simp [set, get?]
  | cons first rest ih =>
    by_cases hk : first.1 = key
    · by_cases h : key = name <;> simp_all [set, get?]
    · by_cases h : first.1 = name <;> grind [set, get?]

end Fields

namespace Value

def fields : Value → Fields
  | .table fields => fields
  | _ => []

mutual

def merge (earlier : Value) : (later : Value) → Value
  | .table later => .table (mergeFields earlier.fields later)
  | .boolean b => .boolean b
  | .integer n => .integer n
  | .fraction x => .fraction x
  | .text content => .text content
  | .list items => .list items
  | .null => .null

def mergeFields (earlier : Fields) : (later : Fields) → Fields
  | [] => earlier
  | (key, value) :: rest =>
    mergeFields (Fields.set key (merge ((Fields.get? key earlier).getD .null) value) earlier) rest

end

/-- A truth value: also from a number, which is true unless it is zero, and from a word. -/
def toBoolean? : Value → Option Bool
  | .boolean b => some b
  | .integer n => some (n != 0)
  | .fraction x => some !x.isZero
  | .text word =>
    let word := Text.lower word
    if ["true", "on", "yes", "1"].any (·.toList = word) then some true
    else if ["false", "off", "no", "0"].any (·.toList = word) then some false
    else none
  | _ => none

def toText? : Value → Option Text
  | .text content => some content
  | .integer n => some (toString n).toList
  | .fraction x => some x.toText
  | .boolean b => some (toString b).toList
  | _ => none

end Value

end Stencil.Settings
